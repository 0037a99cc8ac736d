import TMTransport.Library.Prog
import TMTransport.Library.Etcd
import TMTransport.Library.Codec

/-!
# `EtcdChain`

The C++ client of the etcd shared chain, function by function. A call is a
program over the atomic operations it performs: one RPC to etcd, one command to
redis, one access to `latestModRevision_`. What these do to the shared state is
`State.step`; what happens on its own (cache entries expire, watch events arrive,
the watch stream ends) is `Env`.

The chain objects of one run agree on where the chain is (`Config`), so that the
function-level statics `headKeyStr` and `emptyHeadDataStr` are the same for all of
them. How an object reads it (`Options`) is its own affair. An object has its own
`latestModRevision_` and watch thread and is named by a number.
-/

namespace EtcdChain

open Etcd Interleave

/-- The part of `EtcdChainConfiguration` that says where the chain is. -/
structure Config where
  headKey : String := ""
  saveDataOnSeparateStorage : Bool := true
  chainPrefix : String := "shared_chain_test"
  dataPrefix : String := "shared_chain_test_data"

/-- The rest of `EtcdChainConfiguration`. -/
structure Options where
  useWatchThread : Bool := false
  duplicateFromRedis : Bool := false
  redisTTLSeconds : Nat := 0
  automaticallyDuplicateToRedis : Bool := false

/-- `ChainItem`. -/
structure ChainItem (T : Type) where
  revision : Nat
  id : String
  data : Option T
  nextID : String
  deriving DecidableEq

/-- `ChainStorage`, also called `MapData`. -/
structure ChainStorage (T : Type) where
  data : T
  nextID : String

/-- `ChainRedisStorage`. -/
structure ChainRedisStorage (T : Type) where
  revision : Nat
  data : T
  nextID : String

/-- The wire formats of the three record types, hooks included. -/
structure Codecs (T : Type) where
  data : Codec T
  mapData : Codec (ChainStorage T)
  redis : Codec (ChainRedisStorage T)
  /-- A CBOR array takes at least one byte. -/
  mapData_ne : ∀ x, mapData.serialize x ≠ ""

/-- Formats for a chain whose items carry no data. -/
def Codecs.unit : Codecs Unit where
  data := (Codec.tagged 'd').comap (fun _ => "") (fun _ => ()) (fun _ => rfl)
  mapData := (Codec.tagged 'm').comap ChainStorage.nextID (fun s => ⟨(), s⟩) (fun _ => rfl)
  redis := Codec.counted.comap (fun r => (r.revision, r.nextID)) (fun x => ⟨x.1, (), x.2⟩)
    (fun _ => rfl)
  mapData_ne := fun x h => by
    have := congrArg String.length h
    simp [Codec.comap, Codec.tagged] at this

def Config.headKeyStr (cfg : Config) : String := cfg.chainPrefix ++ ":" ++ cfg.headKey

def Config.chainKey (cfg : Config) (id : String) : String := cfg.chainPrefix ++ ":" ++ id

def Config.dataKey (cfg : Config) (id : String) : String := cfg.dataPrefix ++ ":" ++ id

/-! ## Operations and the state they act on -/

/-- How a client passes a key to redis: as a C string (`%s`), or with its length. -/
inductive KeyArg where
  | cString
  | counted
  deriving DecidableEq

/-- The key that redis sees. -/
def KeyArg.seen : KeyArg → String → String
  | .cString, key => cStr key
  | .counted, key => key

/-- The atomic operations. `chain` names the object whose member is accessed. -/
inductive Op where
  | txn (t : TxnRequest)
  | range (key : String)
  | rangePrefix (key : String)
  | redisGet (arg : KeyArg) (key : String)
  | redisSet (arg : KeyArg) (key value : String) (ttlSeconds : Nat)
  | loadLatestModRevision (chain : Nat)
  | storeLatestModRevision (chain rev : Nat)

/-- What each operation answers. -/
@[reducible] def Op.Res : Op → Type
  | .txn _ => Option TxnResponse
  | .range _ => List KV
  | .rangePrefix _ => List KV
  | .redisGet _ _ => Option String
  | .redisSet _ _ _ _ => Unit
  | .loadLatestModRevision _ => Nat
  | .storeLatestModRevision _ _ => Unit

/-- The watch stream of a chain object: events still on their way, oldest first. -/
inductive Watch where
  | notCreated
  | alive (events : List Nat)
  | ended
  deriving DecidableEq

structure State where
  etcd : Store
  redis : String → Option String
  latestModRevision : Nat → Nat
  watch : Nat → Watch

/-- Nothing written, nobody watching. -/
def State.init : State := ⟨Store.empty, fun _ => none, fun _ => 0, fun _ => .notCreated⟩

/-- The range `[chainPrefix:, chainPrefix;)` that `runWatchThread` watches. -/
def Config.watches (cfg : Config) (key : String) : Bool :=
  decide (cfg.chainPrefix ++ ":" ≤ key) && decide (key < cfg.chainPrefix ++ ";")

/-- A commit under revision `rev` is an event for every stream that is up. -/
def Watch.notify (rev : Nat) : Watch → Watch
  | .alive evs => .alive (evs ++ [rev])
  | w => w

/-- Etcd runs a transaction and queues the events of what it wrote. -/
def State.txn (cfg : Config) (s : State) (t : TxnRequest) : Option TxnResponse × State :=
  let r := s.etcd.txn t
  let seen := r.1.isSome && (putKeys (t.branch s.etcd)).any cfg.watches
  (r.1, { s with
    etcd := r.2
    watch := fun c => if seen then (s.watch c).notify r.2.revision else s.watch c })

/-- What an operation does to the shared state. -/
def State.step (cfg : Config) : (o : Op) → State → o.Res × State
  | .txn t, s => s.txn cfg t
  | .range key, s => (s.etcd.range key, s)
  | .rangePrefix key, s => (s.etcd.rangePrefix key, s)
  | .redisGet arg key, s => (s.redis (arg.seen key), s)
  | .redisSet arg key value _, s =>
    ((), { s with redis := Function.update s.redis (arg.seen key) (some value) })
  | .loadLatestModRevision c, s => (s.latestModRevision c, s)
  | .storeLatestModRevision c rev, s =>
    ((), { s with latestModRevision := Function.update s.latestModRevision c rev })

/--
What happens without a call. A delivered watch response carries in its header a
revision of the store that is at least the event's.
-/
inductive Env (opts : Nat → Options) : State → State → Prop where
  | expire {s : State} (key : String) :
      Env opts s { s with redis := Function.update s.redis key none }
  | watchCreated {s : State} {c : Nat} :
      (opts c).useWatchThread = true → s.watch c = .notCreated →
      Env opts s { s with watch := Function.update s.watch c (.alive []) }
  | watchDelivered {s : State} {c ev rev : Nat} {evs : List Nat} :
      s.watch c = .alive (ev :: evs) → ev ≤ rev → rev ≤ s.etcd.revision →
      Env opts s { s with
        latestModRevision := Function.update s.latestModRevision c rev
        watch := Function.update s.watch c (.alive evs) }
  | watchEnded {s : State} (c : Nat) :
      Env opts s { s with watch := Function.update s.watch c .ended }

/-! ## The calls -/

/-- A call of the chain client; it throws its message. -/
abbrev Call (α : Type) := Prog Op Op.Res String α

/-- `stub_->Txn`: an error status leaves the response as it was constructed. -/
def txn (t : TxnRequest) : Call TxnResponse :=
  .act (.txn t) (fun (r : Option TxnResponse) => .ret (r.getD {}))

/-- `stub_->Range` on one key. -/
def range (key : String) : Call (List KV) := .act (.range key) .ret

/-- `GET`. -/
def redisGet (arg : KeyArg) (key : String) : Call (Option String) := .act (.redisGet arg key) .ret

def loadLatestModRevision (chain : Nat) : Call Nat := .act (.loadLatestModRevision chain) .ret

def storeLatestModRevision (chain rev : Nat) : Call Unit :=
  .act (.storeLatestModRevision chain rev) .ret

/-- `response_range()` of an answer, empty if the answer is not one. -/
def responseRange : ResponseOp → List KV
  | .responseRange kvs => kvs
  | _ => []

/-- `response_put().header().revision()` of an answer. -/
def responsePutRevision : ResponseOp → Nat
  | .responsePut rev => rev
  | _ => 0

variable {T : Type} [Inhabited T]

/-- The transaction by which `head` reads the head record, or creates it. -/
def headTxn (cfg : Config) (emptyHead : String) : TxnRequest where
  compare := [⟨.greater, .version 0, cfg.headKeyStr⟩]
  success := [.requestRange cfg.headKeyStr]
  failure := [.requestPut cfg.headKeyStr emptyHead, .requestRange cfg.headKeyStr]

/-- The value that `head` creates the head record with. -/
def emptyHeadDataStr (cfg : Config) (cd : Codecs T) : String :=
  if cfg.saveDataOnSeparateStorage then "" else cd.mapData.serialize ⟨default, ""⟩

/-- The item that `head` makes of the head record. -/
def headItem (cfg : Config) (cd : Codecs T) (kv : KV) : ChainItem T :=
  if cfg.saveDataOnSeparateStorage then
    ⟨kv.modRevision, cfg.headKey, some default, kv.value⟩
  else
    match cd.mapData.parse kv.value with
    | some mapData => ⟨kv.modRevision, cfg.headKey, some mapData.data, mapData.nextID⟩
    | none => ⟨kv.modRevision, cfg.headKey, some default, ""⟩

/-- `head`, past the cache. -/
def headFromEtcd (cfg : Config) (cd : Codecs T) : Call (ChainItem T) := do
  let txnResp ← txn (headTxn cfg (emptyHeadDataStr cfg cd))
  match txnResp.responses[if txnResp.succeeded then 0 else 1]? with
  | none => .fail ("head error for " ++ cfg.headKeyStr ++ ", etcd service probably down")
  | some rsp =>
    match responseRange rsp with
    | [] => .fail ("head error for " ++ cfg.headKeyStr ++ ", etcd service probably down")
    | kv :: _ => return headItem cfg cd kv

/-- The item that the cache has under the chain key of `id`. -/
def itemFromRedis (cfg : Config) (cd : Codecs T) (id : String) : Call (Option (ChainItem T)) := do
  let r ← redisGet .cString (cfg.chainKey id)
  return (r.bind cd.redis.parse).map (fun s => ⟨s.revision, id, some s.data, s.nextID⟩)

def head (cfg : Config) (opt : Options) (cd : Codecs T) : Call (ChainItem T) := do
  if opt.duplicateFromRedis then
    match ← itemFromRedis cfg cd cfg.headKey with
    | some item => return item
    | none => headFromEtcd cfg cd
  else
    headFromEtcd cfg cd

/-- The transaction that reads an item and its data in separate storage mode. -/
def readTxn (cfg : Config) (id : String) : TxnRequest where
  success := [.requestRange (cfg.chainKey id), .requestRange (cfg.dataKey id)]

/--
Read the item `id` from etcd. `loadUntil` and the second half of `fetchNext` do
the same requests; `who` starts their messages. In separate storage mode data
that does not parse comes back as no data.
-/
def itemFromEtcd (cfg : Config) (cd : Codecs T) (who id : String) : Call (ChainItem T) := do
  if cfg.saveDataOnSeparateStorage then
    let txnResp ← txn (readTxn cfg id)
    if txnResp.succeeded then
      match txnResp.responses with
      | chainRsp :: dataRsp :: _ =>
        match responseRange chainRsp, responseRange dataRsp with
        | [], _ => .fail (who ++ " Error! No record for " ++ cfg.chainKey id)
        | _ :: _, [] => .fail (who ++ " Error! No record for " ++ cfg.dataKey id)
        | chainKV :: _, dataKV :: _ =>
          return ⟨dataKV.modRevision, id, cd.data.parse dataKV.value, chainKV.value⟩
      | _ => .fail (who ++ " Error! No record for " ++ cfg.chainKey id ++ " or " ++ cfg.dataKey id)
    else if who = "FetchNext" then
      .fail ("Fetch Error! No record for " ++ cfg.chainKey id)
    else
      .fail (who ++ " Error! No record for " ++ cfg.chainKey id ++ " or " ++ cfg.dataKey id)
  else
    match ← range (cfg.chainKey id) with
    | [] => .fail (who ++ " Error! No record for " ++ cfg.chainKey id)
    | kv :: _ =>
      match cd.mapData.parse kv.value with
      | some mapData => return ⟨kv.modRevision, id, some mapData.data, mapData.nextID⟩
      | none => .fail (who ++ " Error! Bad record for " ++ cfg.chainKey id)

def loadUntil (cfg : Config) (opt : Options) (cd : Codecs T) (id : String) :
    Call (ChainItem T) := do
  if id = "" then
    head cfg opt cd
  else if opt.duplicateFromRedis then
    match ← itemFromRedis cfg cd id with
    | some item => return item
    | none => itemFromEtcd cfg cd "LoadUntil" id
  else
    itemFromEtcd cfg cd "LoadUntil" id

/-- Nothing newer than an item of the given revision has been heard of. -/
def isUpToDate (latestRev revision : Nat) : Bool :=
  decide (0 < latestRev) && decide (latestRev ≤ revision)

/-- The test at the top of `fetchNext`. -/
def upToDate (opt : Options) (chain : Nat) (current : ChainItem T) : Call Bool := do
  if opt.useWatchThread && current.nextID == "" then
    let latestRev ← loadLatestModRevision chain
    return isUpToDate latestRev current.revision
  else
    return false

/-- The part of `fetchNext` that reads the cache. -/
def fetchNextFromRedis (cfg : Config) (opt : Options) (cd : Codecs T) (current : ChainItem T) :
    Call (Option (ChainItem T)) := do
  if opt.duplicateFromRedis then
    if current.nextID ≠ "" then
      itemFromRedis cfg cd current.nextID
    else
      match ← itemFromRedis cfg cd current.id with
      | some s => if s.nextID ≠ "" then itemFromRedis cfg cd s.nextID else return none
      | none => return none
  else
    return none

/-- The id after `current`, from etcd if `current` does not know it. -/
def nextIDFromEtcd (cfg : Config) (cd : Codecs T) (current : ChainItem T) : Call String := do
  if current.nextID = "" then
    match ← range (cfg.chainKey current.id) with
    | [] => .fail ("FetchNext Error! No record for " ++ cfg.chainKey current.id)
    | kv :: _ =>
      if cfg.saveDataOnSeparateStorage then
        return kv.value
      else
        match cd.mapData.parse kv.value with
        | some mapData => return mapData.nextID
        | none => .fail ("FetchNext Error! Bad record for " ++ cfg.chainKey current.id)
  else
    return current.nextID

/-- The part of `fetchNext` that reads etcd. -/
def fetchNextFromEtcd (cfg : Config) (cd : Codecs T) (current : ChainItem T) :
    Call (Option (ChainItem T)) := do
  let nextID ← nextIDFromEtcd cfg cd current
  if nextID ≠ "" then
    let item ← itemFromEtcd cfg cd "FetchNext" nextID
    return some item
  else
    return none

/-- `fetchNext` past its first test. -/
def fetchNextAnyway (cfg : Config) (opt : Options) (cd : Codecs T) (current : ChainItem T) :
    Call (Option (ChainItem T)) := do
  match ← fetchNextFromRedis cfg opt cd current with
  | some item => return some item
  | none => fetchNextFromEtcd cfg cd current

def fetchNext (cfg : Config) (opt : Options) (cd : Codecs T) (chain : Nat)
    (current : ChainItem T) : Call (Option (ChainItem T)) := do
  if ← upToDate opt chain current then
    return none
  else
    fetchNextAnyway cfg opt cd current

def formChainItem (itemID : String) (itemData : T) : ChainItem T := ⟨0, itemID, some itemData, ""⟩

def formChainItems : List (String × T) → List (ChainItem T)
  | [] => []
  | [x] => [formChainItem x.1 x.2]
  | x :: y :: l => { formChainItem x.1 x.2 with nextID := y.1 } :: formChainItems (y :: l)

/-- `duplicateToRedis`, in a client that passes keys as `arg` says. -/
def duplicateToRedisAs (arg : KeyArg) (cfg : Config) (opt : Options) (cd : Codecs T) (rev : Nat)
    (id : String) (data : T) (nextID : String) : Call Unit :=
  .act (.redisSet arg (cfg.chainKey id) (cd.redis.serialize ⟨rev, data, nextID⟩)
    opt.redisTTLSeconds) .ret

def duplicateToRedis (cfg : Config) (opt : Options) (cd : Codecs T) (rev : Nat) (id : String)
    (data : T) (nextID : String) : Call Unit :=
  duplicateToRedisAs .cString cfg opt cd rev id data nextID

/-- Copy each item of a batch but the last, with its link, to the cache. -/
def duplicateBatch (cfg : Config) (opt : Options) (cd : Codecs T) (rev : Nat) :
    List (ChainItem T) → Call Unit
  | x :: y :: l => do
    duplicateToRedis cfg opt cd rev x.id (x.data.getD default) y.id
    duplicateBatch cfg opt cd rev (y :: l)
  | _ => return ()

/-- What an append does once its transaction went through under revision `rev`. -/
def afterAppend (cfg : Config) (opt : Options) (cd : Codecs T) (chain rev : Nat)
    (current : ChainItem T) (written : List (ChainItem T)) : Call Unit := do
  if opt.useWatchThread then
    storeLatestModRevision chain rev
  if opt.automaticallyDuplicateToRedis then
    duplicateToRedis cfg opt cd rev current.id (current.data.getD default)
      ((written.head?.map ChainItem.id).getD "")
    duplicateBatch cfg opt cd rev written

/-- The transaction of a single `appendAfter`. -/
def appendTxn (cfg : Config) (cd : Codecs T) (current toBeWritten : ChainItem T) : TxnRequest :=
  let currentChainKey := cfg.chainKey current.id
  let newChainKey := cfg.chainKey toBeWritten.id
  if cfg.saveDataOnSeparateStorage then
    let newDataKey := cfg.dataKey toBeWritten.id
    { compare := [⟨.equal, .value "", currentChainKey⟩, ⟨.equal, .version 0, newDataKey⟩,
        ⟨.equal, .version 0, newChainKey⟩]
      success := [.requestPut currentChainKey toBeWritten.id,
        .requestPut newDataKey (cd.data.serialize (toBeWritten.data.getD default)),
        .requestPut newChainKey ""] }
  else
    { compare := [⟨.equal, .modRevision current.revision, currentChainKey⟩,
        ⟨.equal, .version 0, newChainKey⟩]
      success := [
        .requestPut currentChainKey
          (cd.mapData.serialize ⟨current.data.getD default, toBeWritten.id⟩),
        .requestPut newChainKey
          (cd.mapData.serialize ⟨toBeWritten.data.getD default, ""⟩)] }

def appendAfter (cfg : Config) (opt : Options) (cd : Codecs T) (chain : Nat)
    (current toBeWritten : ChainItem T) : Call Bool := do
  if current.nextID ≠ "" then
    return false
  else if toBeWritten.data.isNone then
    .fail "Cannot append a new item whose data is empty"
  else if toBeWritten.nextID ≠ "" then
    .fail "Cannot append a new item whose nextID is already non-empty"
  else
    let txnResp ← txn (appendTxn cfg cd current toBeWritten)
    if txnResp.succeeded then
      let rsp := txnResp.responses[if cfg.saveDataOnSeparateStorage then 2 else 1]?
      afterAppend cfg opt cd chain ((rsp.map responsePutRevision).getD 0) current [toBeWritten]
      return true
    else
      return false

/--
The transaction of a batch `appendAfter`. In separate storage mode every put is
an operation of its own. Otherwise `add_success` is called once, before the loop
over the new items, so that each turn of the loop overwrites the put of the one
before it.
-/
def appendBatchTxn (cfg : Config) (cd : Codecs T) (current : ChainItem T)
    (toBeWritten : List (ChainItem T)) : TxnRequest :=
  let currentChainKey := cfg.chainKey current.id
  let firstID := (toBeWritten.head?.map ChainItem.id).getD ""
  if cfg.saveDataOnSeparateStorage then
    { compare := ⟨.equal, .value "", currentChainKey⟩ ::
        toBeWritten.flatMap (fun x => [⟨.equal, .version 0, cfg.dataKey x.id⟩,
          ⟨.equal, .version 0, cfg.chainKey x.id⟩])
      success := .requestPut currentChainKey firstID ::
        toBeWritten.flatMap (fun x =>
          [.requestPut (cfg.dataKey x.id) (cd.data.serialize (x.data.getD default)),
            .requestPut (cfg.chainKey x.id) x.nextID]) }
  else
    { compare := ⟨.equal, .modRevision current.revision, currentChainKey⟩ ::
        toBeWritten.map (fun x => ⟨.equal, .version 0, cfg.chainKey x.id⟩)
      success := [
        .requestPut currentChainKey
          (cd.mapData.serialize ⟨current.data.getD default, firstID⟩),
        toBeWritten.foldl (fun _ x => .requestPut (cfg.chainKey x.id)
          (cd.mapData.serialize ⟨x.data.getD default, x.nextID⟩)) .notSet] }

/-- `appendAfter` of a vector. -/
def appendAfterBatch (cfg : Config) (opt : Options) (cd : Codecs T) (chain : Nat)
    (current : ChainItem T) (toBeWritten : List (ChainItem T)) : Call Bool := do
  match toBeWritten with
  | [] => return true
  | [x] => appendAfter cfg opt cd chain current x
  | first :: _ :: _ =>
    if current.nextID ≠ "" then
      return false
    else if first.data.isNone then
      .fail "Cannot append new items whose first data is empty"
    else if (toBeWritten.getLast?.map ChainItem.nextID).getD "" ≠ "" then
      .fail "Cannot append new items whose last nextID is already non-empty"
    else
      let txnResp ← txn (appendBatchTxn cfg cd current toBeWritten)
      if txnResp.succeeded then
        let rsp := txnResp.responses.getLast?
        afterAppend cfg opt cd chain ((rsp.map responsePutRevision).getD 0) current toBeWritten
        return true
      else
        return false

end EtcdChain
