import TMTransport.Library.EtcdRenaming
import TMTransport.Library.Tenants
import TMTransport.EtcdChain.Model

/-!
# Several chain objects in one process

The objects of one class `EtcdChain<T>`, on one etcd and one redis, make calls one
after the other. Each has its own configuration and hooks. What they share, besides
the services, are the statics in `head`: they keep the head key, and the value of an
empty head, of the object that comes first.

Between the calls, entries of redis expire, and the watch thread of an object stores
what it hears.

If an object were alone, etcd would count its revisions differently. So an item is
the same item in both runs up to the name of its revision.
-/

namespace EtcdChain

open Etcd Interleave

/-- How one object is configured; its hooks are in the formats. -/
structure Object (T X : Type) where
  cfg : Config
  opt : Options
  extraDataPrefix : String := "shared_chain_test_extra_data"
  cd : Codecs T
  cx : Codec X
  /-- The number of its `latestModRevision_`. -/
  chain : Nat

/-- The function-level statics of the class that depend on the object. -/
inductive Static where
  | headKeyStr
  | emptyHeadDataStr
  deriving DecidableEq

/-- The calls on an object. A batch is formed by `formChainItems`. -/
inductive Task (T X : Type) where
  | head
  | loadUntil (id : String)
  | fetchNext (current : ChainItem T)
  | appendAfter (current toBeWritten : ChainItem T)
  | appendAfterBatch (current : ChainItem T) (itemDatas : List (String × T))
  | saveExtraData (key : String) (data : X)
  | loadExtraData (key : String)

/-- What they return. -/
inductive Outcome (T X : Type) where
  | item (it : ChainItem T)
  | next (it : Option (ChainItem T))
  | appended (ok : Bool)
  | saved
  | loaded (data : Option X)

variable {T X ι : Type}

/-! ## The calls -/

/-- `headTxn`, under the key that `head` has kept. -/
def headTxnAt (headKeyStr emptyHead : String) : TxnRequest where
  compare := [⟨.greater, .version 0, headKeyStr⟩]
  success := [.requestRange headKeyStr]
  failure := [.requestPut headKeyStr emptyHead, .requestRange headKeyStr]

section Head

variable [Inhabited T]

def headFromEtcdAt (headKeyStr emptyHead : String) (cfg : Config) (cd : Codecs T) :
    Call (ChainItem T) := do
  let txnResp ← txn (headTxnAt headKeyStr emptyHead)
  match txnResp.responses[if txnResp.succeeded then 0 else 1]? with
  | none => .fail ("head error for " ++ headKeyStr ++ ", etcd service probably down")
  | some rsp =>
    match responseRange rsp with
    | [] => .fail ("head error for " ++ headKeyStr ++ ", etcd service probably down")
    | kv :: _ => return headItem cfg cd kv

end Head

def headFromRedisAt (headKeyStr : String) (cfg : Config) (cd : Codecs T) :
    Call (Option (ChainItem T)) := do
  let r ← redisGet .cString headKeyStr
  return (r.bind cd.redis.parse).map (fun s => ⟨s.revision, cfg.headKey, some s.data, s.nextID⟩)

namespace Object

/-- A call that may initialise statics. -/
abbrev Calls (α : Type) := Prog (StaticOp Op Static) (StaticOp.Answer Op.Res) String α

def extraDataKey (o : Object T X) (key : String) : String := o.extraDataPrefix ++ ":" ++ key

/-- `stub_->Put` is a transaction of one put. -/
def saveExtraData (o : Object T X) (key : String) (data : X) : Call Unit := do
  let _ ← txn { success := [.requestPut (o.extraDataKey key) (o.cx.serialize data)] }
  return ()

def loadExtraData (o : Object T X) (key : String) : Call (Option X) := do
  match ← range (o.extraDataKey key) with
  | [] => return none
  | kv :: _ => return o.cx.parse kv.value

variable [Inhabited T]

/-- The part of `head` that asks etcd. -/
def headFromEtcd (o : Object T X) (headKeyStr : String) : Calls (ChainItem T) := do
  if o.cfg.saveDataOnSeparateStorage then
    (headFromEtcdAt headKeyStr "" o.cfg o.cd).shared
  else
    let emptyHeadDataStr ← static .emptyHeadDataStr (o.cd.mapData.serialize ⟨default, ""⟩)
    (headFromEtcdAt headKeyStr emptyHeadDataStr o.cfg o.cd).shared

/-- `head`, with its statics. -/
def head (o : Object T X) : Calls (ChainItem T) := do
  let headKeyStr ← static .headKeyStr o.cfg.headKeyStr
  if o.opt.duplicateFromRedis then
    match ← (headFromRedisAt headKeyStr o.cfg o.cd).shared with
    | some item => return item
    | none => o.headFromEtcd headKeyStr
  else
    o.headFromEtcd headKeyStr

def loadUntil (o : Object T X) (id : String) : Calls (ChainItem T) :=
  if id = "" then o.head else (EtcdChain.loadUntil o.cfg o.opt o.cd id).shared

def perform (o : Object T X) : Task T X → Calls (Outcome T X)
  | .head => do
    let it ← o.head
    return .item it
  | .loadUntil id => do
    let it ← o.loadUntil id
    return .item it
  | .fetchNext cur => do
    let it ← (fetchNext o.cfg o.opt o.cd o.chain cur).shared
    return .next it
  | .appendAfter cur toBeWritten => do
    let ok ← (appendAfter o.cfg o.opt o.cd o.chain cur toBeWritten).shared
    return .appended ok
  | .appendAfterBatch cur l => do
    let ok ← (appendAfterBatch o.cfg o.opt o.cd o.chain cur (formChainItems l)).shared
    return .appended ok
  | .saveExtraData key data => do
    let _ ← (o.saveExtraData key data).shared
    return .saved
  | .loadExtraData key => do
    let r ← (o.loadExtraData key).shared
    return .loaded r

end Object

/-! ## The process -/

/-- The process with what it shares, and its calls with what they came back with, newest first. -/
structure Process (T X ι : Type) where
  shared : State × (Static → Option String)
  answers : List (ι × Task T X × Except String (Outcome T X)) := []

inductive Act (T X ι : Type) where
  | call (i : ι) (c : Task T X)
  /-- The watch thread of an object stores the revision that it has heard of. -/
  | heard (i : ι) (rev : Nat)
  /-- An entry of redis expires. -/
  | expire (key : String)

/-- The objects make calls; at first, the services are in the state `s₀`. -/
def process [Inhabited T] (objs : ι → Object T X) (s₀ : State) :
    Machine (Process T X ι) (Act T X ι) where
  init := ⟨(s₀, fun _ => none), []⟩
  step p a :=
    match a with
    | .call i c =>
      let r := ((objs i).perform c).run (StaticOp.step (State.step (objs i).cfg)) p.shared
      some ⟨r.2, (i, c, r.1) :: p.answers⟩
    | .heard i rev =>
      let s := p.shared.1
      some { p with shared := ({ s with
        latestModRevision := Function.update s.latestModRevision (objs i).chain rev }, p.shared.2) }
    | .expire key =>
      let s := p.shared.1
      some { p with shared := ({ s with redis := Function.update s.redis key none }, p.shared.2) }

/-! ## Keys -/

/-- The names that the user of an object gives to items and to extra data. -/
structure KeySet (o : Object T X) where
  ids : String → Prop
  extras : String → Prop
  head : ids o.cfg.headKey
  /-- Redis is given keys as C strings: the prefix is whole, and so are the names, or else the
  object's also where they are cut. -/
  cut : o.opt.duplicateFromRedis = true ∨ o.opt.automaticallyDuplicateToRedis = true →
    '\x00' ∉ o.cfg.chainPrefix.toList ∧ ∀ id, ids id → ids (cStr id)
  /-- Links are kept apart from data, unless all ids are the object's anyway. -/
  apart : (∀ id, ids id) ∨ ∀ id, ids id →
    (o.cfg.saveDataOnSeparateStorage = true →
      ∀ id', ids id' → o.cfg.chainKey id ≠ o.cfg.dataKey id') ∧
    ∀ key, extras key → o.cfg.chainKey id ≠ o.extraDataKey key

namespace KeySet

variable {o : Object T X} (K : KeySet o)

/-- The object's configured keys in redis. -/
def OwnsLink (k : String) : Prop := ∃ id, K.ids id ∧ k = o.cfg.chainKey id

/-- The object's configured keys in etcd. -/
def Owns (k : String) : Prop :=
  K.OwnsLink k ∨
    (o.cfg.saveDataOnSeparateStorage = true ∧ ∃ id, K.ids id ∧ k = o.cfg.dataKey id) ∨
    ∃ key, K.extras key ∧ k = o.extraDataKey key

/-- The operation is on keys of the object. -/
def OwnsOp : Op → Prop
  | .txn t => ∀ k ∈ t.keys, K.Owns k
  | .range key => K.Owns key
  | .rangePrefix _ => False
  | .redisGet arg key => K.OwnsLink (arg.seen key)
  | .redisSet arg key _ _ => K.OwnsLink (arg.seen key)
  | .loadLatestModRevision _ => True
  | .storeLatestModRevision _ _ => True

/-- The keys of etcd that an operation reads or writes. -/
def etcdKeys : Op → List String
  | .txn t => t.keys
  | .range key => [key]
  | .rangePrefix start => [start]
  | .redisGet _ _ => []
  | .redisSet _ _ _ _ => []
  | .loadLatestModRevision _ => []
  | .storeLatestModRevision _ _ => []

theorem owns_etcdKeys {K : KeySet o} {op : Op} (h : K.OwnsOp op) :
    ∀ k ∈ etcdKeys op, K.Owns k := by
  intro k hk
  cases op with
  | txn t => exact h k hk
  | range key =>
      obtain rfl := List.mem_singleton.mp hk
      exact h
  | rangePrefix start => exact h.elim
  | _ => cases hk

/-- If `v` stands under a chain key of the object, then the link leads to an id of the object. -/
def LinkOk (k v : String) : Prop :=
  K.OwnsLink k →
    if o.cfg.saveDataOnSeparateStorage then v = "" ∨ K.ids v
    else ∀ m, o.cd.mapData.parse v = some m → m.nextID = "" ∨ K.ids m.nextID

/-- The links of the object's chain, and of its cache, stay with its ids. -/
structure Closed (s : State) : Prop where
  links : ∀ k kv, s.etcd.kvs k = some kv → K.LinkOk k kv.value
  cached : ∀ k x r, K.OwnsLink k → s.redis k = some x → o.cd.redis.parse x = some r →
    r.nextID = "" ∨ K.ids r.nextID

/-- The call names items and extra data of the object. -/
def Names : Task T X → Prop
  | .head => True
  | .loadUntil id => id = "" ∨ K.ids id
  | .fetchNext cur => K.ids cur.id ∧ (cur.nextID = "" ∨ K.ids cur.nextID)
  | .appendAfter cur toBeWritten => K.ids cur.id ∧ K.ids toBeWritten.id
  | .appendAfterBatch cur l => K.ids cur.id ∧ ∀ x ∈ l, K.ids x.1
  | .saveExtraData key _ => K.extras key
  | .loadExtraData key => K.extras key

end KeySet

/-- No key is two objects'. -/
def Disjoint (objs : ι → Object T X) (K : ∀ i, KeySet (objs i)) : Prop :=
  ∀ i j k, (K i).Owns k → (K j).Owns k → i = j

/-! ## An object that is alone -/

section Rename

variable (ρ : Nat → Nat)

def ChainItem.rename (it : ChainItem T) : ChainItem T := { it with revision := ρ it.revision }

def ChainRedisStorage.rename (r : ChainRedisStorage T) : ChainRedisStorage T :=
  { r with revision := ρ r.revision }

def Task.rename : Task T X → Task T X
  | .head => .head
  | .loadUntil id => .loadUntil id
  | .fetchNext cur => .fetchNext (cur.rename ρ)
  | .appendAfter cur toBeWritten => .appendAfter (cur.rename ρ) (toBeWritten.rename ρ)
  | .appendAfterBatch cur l => .appendAfterBatch (cur.rename ρ) l
  | .saveExtraData key data => .saveExtraData key data
  | .loadExtraData key => .loadExtraData key

def Outcome.rename : Outcome T X → Outcome T X
  | .item it => .item (it.rename ρ)
  | .next it => .next (it.map (ChainItem.rename ρ))
  | .appended ok => .appended ok
  | .saved => .saved
  | .loaded data => .loaded data

def Act.rename : Act T X ι → Act T X ι
  | .call i c => .call i (c.rename ρ)
  | .heard i rev => .heard i (ρ rev)
  | .expire key => .expire key

end Rename

/-- What would happen also if `i` were the only object. -/
def Act.concerns [DecidableEq ι] (i : ι) : Act T X ι → Bool
  | .call j _ => decide (j = i)
  | .heard j _ => decide (j = i)
  | .expire _ => true

/--
Two answers are the same up to the names of revisions. Only, `fetchNext` of an object with a watch
thread may go by what that thread has heard, which is in the words of etcd, and say that nothing
follows.
-/
def SameAnswer (o : Object T X) (ρ : Nat → Nat) (c : Task T X)
    (r r' : Except String (Outcome T X)) : Prop :=
  r' = r.map (Outcome.rename ρ) ∨ o.opt.useWatchThread = true ∧ (∃ cur, c = .fetchNext cur) ∧
    (r = .ok (.next none) ∨ r' = .ok (.next none))

/-- The call finds in each static what its object would put there, or is the first to come. -/
def OwnStatics [Inhabited T] (objs : ι → Object T X) (p : Process T X ι) : Act T X ι → Prop
  | .call i c => ((objs i).perform c).Along (StaticOp.step (State.step (objs i).cfg))
      (fun o s => match o with
        | .shared _ => True
        | .static x init => s.2 x = none ∨ s.2 x = some init) p.shared
  | _ => True

instance [Inhabited T] (objs : ι → Object T X) (p : Process T X ι) :
    ∀ a, Decidable (OwnStatics objs p a)
  | .call i c =>
    have : ∀ (o : StaticOp Op Static) (s : State × (Static → Option String)),
        Decidable (match o with
          | .shared _ => True
          | .static x init => s.2 x = none ∨ s.2 x = some init)
      | .shared _, _ => .isTrue trivial
      | .static x init, s => inferInstanceAs (Decidable (s.2 x = none ∨ s.2 x = some init))
    Prog.Along.decidable ((objs i).perform c) p.shared
  | .heard _ _ => .isTrue trivial
  | .expire _ => .isTrue trivial

/-- The call stays with the keys of its object. -/
def OwnKeys [Inhabited T] (objs : ι → Object T X) (K : ∀ i, KeySet (objs i))
    (p : Process T X ι) : Act T X ι → Prop
  | .call i c => ((objs i).perform c).Along (StaticOp.step (State.step (objs i).cfg))
      (fun o _ => match o with
        | .shared o => (K i).OwnsOp o
        | .static _ _ => True) p.shared
  | _ => True

/-- `t` holds under the object's keys what `s` holds, up to the names of revisions. -/
structure SameContent {o : Object T X} (K : KeySet o) (ρ : Nat → Nat) (s t : State) : Prop where
  etcd : Alike ρ K.Owns s.etcd.kvs t.etcd.kvs
  redis : ∀ k, K.OwnsLink k → (t.redis k).map o.cd.redis.parse =
    (s.redis k).map fun x => (o.cd.redis.parse x).map (ChainRedisStorage.rename ρ)

/-- The objects do not interfere in the run `as`. -/
structure Apart [Inhabited T] [DecidableEq ι] (objs : ι → Object T X) (K : ∀ i, KeySet (objs i))
    (s₀ : State) (as : List (Act T X ι)) : Prop where
  /-- Every key read or written through an object is its own. -/
  keys : (process objs s₀).Within (OwnKeys objs K) (process objs s₀).init as
  /-- For each object there are names for the revisions, new only for those that the run brings
  about, up to which what is under its keys and what its calls come back with are what they
  would be without the others. -/
  alone : ∀ i, ∃ ρ : Nat → Nat, Function.Injective ρ ∧ (∀ r ≤ s₀.etcd.revision, ρ r = r) ∧
    let p := (process objs s₀).exec (process objs s₀).init as
    let q := (process objs s₀).exec (process objs s₀).init
      ((as.filter (Act.concerns i)).map (Act.rename ρ))
    SameContent (K i) ρ p.shared.1 q.shared.1 ∧
      List.Forall₂ (fun e e' => e'.1 = i ∧ e'.2.1 = e.2.1.rename ρ ∧
        SameAnswer (objs i) ρ e.2.1 e.2.2 e'.2.2)
        (p.answers.filter fun e => decide (e.1 = i)) q.answers

end EtcdChain
