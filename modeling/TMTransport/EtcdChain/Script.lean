import TMTransport.EtcdChain.Model

/-!
# `EtcdSharedChain` in TypeScript and in Python

The two clients are line by line the same program over the same requests. They
differ in one thing: what the cache holds and does not parse is an exception in
Python, while TypeScript catches it and goes on to etcd.

A client object keeps the item it has reached in `current`; here it is passed in
and returned. An etcd error status is an exception, and so is reading past the
end of an answer, with messages that are the runtime's own.
-/

namespace EtcdChain

open Etcd Interleave

inductive Lang where
  | typeScript
  | python
  deriving DecidableEq

namespace Script

variable {T : Type}

/-- The exception of the etcd client library for a request that etcd rejects. -/
def rpcError : String := "etcd rejected the request"

/-- The exception for an answer that has no first record, or no such field. -/
def noRecord : String := "no such record"

/-- The exception for bytes that do not decode. -/
def badRecord : String := "cannot decode the record"

/-- `commit()`. -/
def commit (t : TxnRequest) : Call TxnResponse :=
  .act (.txn t) (fun (r : Option TxnResponse) => match r with
    | some resp => .ret resp
    | none => .fail rpcError)

/-- The cached item under the chain key of `id`. -/
def fromRedis (lang : Lang) (cfg : Config) (cd : Codecs T) (id : String) :
    Call (Option (ChainItem T)) := do
  match ← redisGet .counted (cfg.chainKey id) with
  | none => return none
  | some reply =>
    match cd.redis.parse reply with
    | some parsed => return some ⟨parsed.revision, id, some parsed.data, parsed.nextID⟩
    | none =>
      match lang with
      | .typeScript => return none
      | .python => .fail badRecord

/-- The item that `start` makes of the head record. `created` is false if it was there. -/
def headItem (cfg : Config) (cd : Codecs T) (defaultData : T) (created : Bool) (kv : KV) :
    Call (ChainItem T) :=
  if created then
    return ⟨kv.modRevision, cfg.headKey, some defaultData, ""⟩
  else if cfg.saveDataOnSeparateStorage then
    return ⟨kv.modRevision, cfg.headKey, some defaultData, kv.value⟩
  else if kv.value = "" then
    return ⟨kv.modRevision, cfg.headKey, some defaultData, ""⟩
  else
    match cd.mapData.parse kv.value with
    | some v => return ⟨kv.modRevision, cfg.headKey, some defaultData, v.nextID⟩
    | none => .fail badRecord

/-- `start`, past the cache. The head record is created empty in either storage mode. -/
def startFromEtcd (cfg : Config) (cd : Codecs T) (defaultData : T) : Call (ChainItem T) := do
  let etcdReply ← commit (headTxn cfg "")
  match etcdReply.responses[if etcdReply.succeeded then 0 else 1]? with
  | none => .fail noRecord
  | some rsp =>
    match responseRange rsp with
    | [] => .fail noRecord
    | kv :: _ => headItem cfg cd defaultData (!etcdReply.succeeded) kv

def start (lang : Lang) (cfg : Config) (opt : Options) (cd : Codecs T) (defaultData : T) :
    Call (ChainItem T) := do
  if opt.duplicateFromRedis then
    match ← fromRedis lang cfg cd cfg.headKey with
    | some item => return item
    | none => startFromEtcd cfg cd defaultData
  else
    startFromEtcd cfg cd defaultData

/-- The transaction that reads an item that is there. -/
def readTxn (cfg : Config) (id : String) : TxnRequest where
  compare := [⟨.greater, .version 0, cfg.chainKey id⟩]
  success :=
    if cfg.saveDataOnSeparateStorage then
      [.requestRange (cfg.chainKey id), .requestRange (cfg.dataKey id)]
    else
      [.requestRange (cfg.chainKey id)]

/-- The item whose record, in the mode without separate storage, is the first of `kvs`. -/
def itemOfMapData (cd : Codecs T) (id : String) : List KV → Call (ChainItem T)
  | [] => .fail noRecord
  | kv :: _ =>
    match cd.mapData.parse kv.value with
    | some parsed => return ⟨kv.modRevision, id, some parsed.data, parsed.nextID⟩
    | none => .fail badRecord

/-- Read the item `id` from etcd if it is there. -/
def itemFromEtcd (cfg : Config) (cd : Codecs T) (id : String) :
    Call (Option (ChainItem T)) := do
  let etcdReply ← commit (readTxn cfg id)
  if etcdReply.succeeded then
    if cfg.saveDataOnSeparateStorage then
      match etcdReply.responses with
      | chainRsp :: dataRsp :: _ =>
        match responseRange chainRsp, responseRange dataRsp with
        | chainKV :: _, dataKV :: _ =>
          match cd.data.parse dataKV.value with
          | some data => return some ⟨chainKV.modRevision, id, some data, chainKV.value⟩
          | none => .fail badRecord
        | _, _ => .fail noRecord
      | _ => .fail noRecord
    else
      let item ← itemOfMapData cd id ((etcdReply.responses.head?.map responseRange).getD [])
      return some item
  else
    return none

def tryLoadUntil (lang : Lang) (cfg : Config) (opt : Options) (cd : Codecs T) (id : String) :
    Call (Option (ChainItem T)) := do
  if opt.duplicateFromRedis then
    match ← fromRedis lang cfg cd id with
    | some item => return some item
    | none => itemFromEtcd cfg cd id
  else
    itemFromEtcd cfg cd id

/-- The part of `next` that reads the cache. -/
def nextFromRedis (lang : Lang) (cfg : Config) (opt : Options) (cd : Codecs T)
    (current : ChainItem T) : Call (Option (ChainItem T)) := do
  if opt.duplicateFromRedis then
    if current.nextID = "" then
      match ← fromRedis lang cfg cd current.id with
      | some parsed =>
        if parsed.nextID ≠ "" then fromRedis lang cfg cd parsed.nextID else return none
      | none => return none
    else
      fromRedis lang cfg cd current.nextID
  else
    return none

/-- The id after `current`, empty if nothing follows. -/
def nextIDFromEtcd (cfg : Config) (cd : Codecs T) (current : ChainItem T) : Call String := do
  if current.nextID = "" then
    match ← range (cfg.chainKey current.id) with
    | [] => .fail noRecord
    | kv :: _ =>
      if cfg.saveDataOnSeparateStorage then
        return kv.value
      else if kv.value = "" then
        return ""
      else
        match cd.mapData.parse kv.value with
        | some parsed => return parsed.nextID
        | none => .fail badRecord
  else
    return current.nextID

/-- The part of `next` that reads etcd. -/
def nextFromEtcd (cfg : Config) (cd : Codecs T) (current : ChainItem T) :
    Call (Option (ChainItem T)) := do
  let nextID ← nextIDFromEtcd cfg cd current
  if nextID = "" then
    return none
  else if cfg.saveDataOnSeparateStorage then
    itemFromEtcd cfg cd nextID
  else
    let kvs ← range (cfg.chainKey nextID)
    let item ← itemOfMapData cd nextID kvs
    return some item

/-- `next`. Instead of true and false it returns the new `current`, or none. -/
def next (lang : Lang) (cfg : Config) (opt : Options) (cd : Codecs T) (current : ChainItem T) :
    Call (Option (ChainItem T)) := do
  match ← nextFromRedis lang cfg opt cd current with
  | some item => return some item
  | none => nextFromEtcd cfg cd current

variable [Inhabited T]

/--
The transaction of `tryAppend`. The data of `current` is never missing here: each
item that these clients make has some.
-/
def appendTxn (cfg : Config) (cd : Codecs T) (current : ChainItem T) (newID : String)
    (newData : T) : TxnRequest :=
  let thisKey := cfg.chainKey current.id
  let newKey := cfg.chainKey newID
  if cfg.saveDataOnSeparateStorage then
    { compare := [⟨.equal, .modRevision current.revision, thisKey⟩,
        ⟨.equal, .version 0, cfg.dataKey newID⟩, ⟨.equal, .version 0, newKey⟩]
      success := [.requestPut thisKey newID,
        .requestPut (cfg.dataKey newID) (cd.data.serialize newData), .requestPut newKey ""] }
  else
    { compare := [⟨.equal, .modRevision current.revision, thisKey⟩,
        ⟨.equal, .version 0, newKey⟩]
      success := [
        .requestPut thisKey (cd.mapData.serialize ⟨current.data.getD default, newID⟩),
        .requestPut newKey (cd.mapData.serialize ⟨newData, ""⟩)] }

/-- What `tryAppend` does after its loop: whether it appended, and its new `current`. -/
def appendHere (cfg : Config) (opt : Options) (cd : Codecs T) (current : ChainItem T)
    (newID : String) (newData : T) : Call (Bool × ChainItem T) := do
  let etcdReply ← commit (appendTxn cfg cd current newID newData)
  if etcdReply.succeeded then
    let rsp := etcdReply.responses[if cfg.saveDataOnSeparateStorage then 2 else 1]?
    if opt.automaticallyDuplicateToRedis then
      duplicateToRedisAs .counted cfg opt cd current.revision current.id
        (current.data.getD default) newID
    return (true, ⟨(rsp.map responsePutRevision).getD 0, newID, some newData, ""⟩)
  else
    return (false, current)

/-- One turn of the loop of `tryAppend`: `inl` goes round again from a later item. -/
def tryAppend (lang : Lang) (cfg : Config) (opt : Options) (cd : Codecs T)
    (current : ChainItem T) (newID : String) (newData : T) :
    Call (ChainItem T ⊕ (Bool × ChainItem T)) := do
  match ← next lang cfg opt cd current with
  | some item => return .inl item
  | none =>
    let r ← appendHere cfg opt cd current newID newData
    return .inr r

end Script

/-! ## The two clients under their own names -/

namespace TypeScript

variable {T : Type}

def start (cfg : Config) (opt : Options) (cd : Codecs T) (defaultData : T) : Call (ChainItem T) :=
  Script.start .typeScript cfg opt cd defaultData

def tryLoadUntil (cfg : Config) (opt : Options) (cd : Codecs T) (id : String) :
    Call (Option (ChainItem T)) :=
  Script.tryLoadUntil .typeScript cfg opt cd id

def next (cfg : Config) (opt : Options) (cd : Codecs T) (current : ChainItem T) :
    Call (Option (ChainItem T)) :=
  Script.next .typeScript cfg opt cd current

def tryAppend [Inhabited T] (cfg : Config) (opt : Options) (cd : Codecs T)
    (current : ChainItem T) (newID : String) (newData : T) :
    Call (ChainItem T ⊕ (Bool × ChainItem T)) :=
  Script.tryAppend .typeScript cfg opt cd current newID newData

end TypeScript

namespace Python

variable {T : Type}

def start (cfg : Config) (opt : Options) (cd : Codecs T) (defaultData : T) : Call (ChainItem T) :=
  Script.start .python cfg opt cd defaultData

def tryLoadUntil (cfg : Config) (opt : Options) (cd : Codecs T) (id : String) :
    Call (Option (ChainItem T)) :=
  Script.tryLoadUntil .python cfg opt cd id

def next (cfg : Config) (opt : Options) (cd : Codecs T) (current : ChainItem T) :
    Call (Option (ChainItem T)) :=
  Script.next .python cfg opt cd current

def tryAppend [Inhabited T] (cfg : Config) (opt : Options) (cd : Codecs T)
    (current : ChainItem T) (newID : String) (newData : T) :
    Call (ChainItem T ⊕ (Bool × ChainItem T)) :=
  Script.tryAppend .python cfg opt cd current newID newData

end Python

end EtcdChain
