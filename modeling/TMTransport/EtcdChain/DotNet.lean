import TMTransport.EtcdChain.Model

/-!
# `EtcdSharedChain` in C#

The requests are those of the C++ client, except that a single record is read
with `GetRange`, which takes its argument as a prefix. What does not parse is an
exception in more places than in C++, and so is an etcd error status. The default
data that a caller passes is not null.
-/

namespace EtcdChain

open Etcd Interleave

namespace DotNet

variable {T : Type}

/-- The `RpcException` for a request that etcd rejects. -/
def rpcError : String := "etcd rejected the request"

/-- The exception for reading past the end of an answer. -/
def noRecord : String := "index was out of range"

/-- The exception of `CBORObject.DecodeFromBytes` for no bytes at all. -/
def dataIsEmpty : String := "data is empty"

/-- `client.Transaction`. -/
def transaction (t : TxnRequest) : Call TxnResponse :=
  .act (.txn t) (fun (r : Option TxnResponse) => match r with
    | some resp => .ret resp
    | none => .fail rpcError)

/-- `client.GetRange`. -/
def getRange (key : String) : Call (List KV) := .act (.rangePrefix key) .ret

/-- The cached item under the chain key of `id`. -/
def fromRedis (cfg : Config) (cd : Codecs T) (id : String) : Call (Option (ChainItem T)) := do
  let r ← redisGet .counted (cfg.chainKey id)
  return (r.bind cd.redis.parse).map (fun s => ⟨s.revision, id, some s.data, s.nextID⟩)

/-- The item that `Head` makes of the head record. `created` is false if it was there. -/
def headItem (cfg : Config) (cd : Codecs T) (defaultData : T) (created : Bool) (kv : KV) :
    Call (ChainItem T) :=
  if created then
    return ⟨kv.modRevision, cfg.headKey, some defaultData, ""⟩
  else if cfg.saveDataOnSeparateStorage then
    return ⟨kv.modRevision, cfg.headKey, some defaultData, kv.value⟩
  else if kv.value = "" then
    .fail dataIsEmpty
  else
    return ⟨kv.modRevision, cfg.headKey, some defaultData,
      ((cd.mapData.parse kv.value).map ChainStorage.nextID).getD ""⟩

/-- The value that `Head` creates the head record with. -/
def emptyHeadData (cfg : Config) (cd : Codecs T) (defaultData : T) : String :=
  if cfg.saveDataOnSeparateStorage then "" else cd.mapData.serialize ⟨defaultData, ""⟩

/-- `Head`, past the cache. -/
def headFromEtcd (cfg : Config) (cd : Codecs T) (defaultData : T) : Call (ChainItem T) := do
  let etcdReply ← transaction (headTxn cfg (emptyHeadData cfg cd defaultData))
  match etcdReply.responses[if etcdReply.succeeded then 0 else 1]? with
  | none => .fail noRecord
  | some rsp =>
    match responseRange rsp with
    | [] => .fail noRecord
    | kv :: _ => headItem cfg cd defaultData (!etcdReply.succeeded) kv

def head (cfg : Config) (opt : Options) (cd : Codecs T) (defaultData : T) :
    Call (ChainItem T) := do
  if opt.duplicateFromRedis then
    match ← fromRedis cfg cd cfg.headKey with
    | some item => return { item with data := some defaultData }
    | none => headFromEtcd cfg cd defaultData
  else
    headFromEtcd cfg cd defaultData

/-- Read the item `id` from etcd. `who` starts the messages. -/
def itemFromEtcd (cfg : Config) (cd : Codecs T) (who id : String) : Call (ChainItem T) := do
  if cfg.saveDataOnSeparateStorage then
    let txnResp ← transaction (readTxn cfg id)
    if txnResp.succeeded then
      match txnResp.responses with
      | chainRsp :: dataRsp :: _ =>
        match responseRange chainRsp, responseRange dataRsp with
        | [], _ => .fail (who ++ " Error! No record for " ++ cfg.chainKey id)
        | _ :: _, [] => .fail (who ++ " Error! No record for " ++ cfg.dataKey id)
        | chainKV :: _, dataKV :: _ =>
          match cd.data.parse dataKV.value with
          | some data => return ⟨dataKV.modRevision, id, some data, chainKV.value⟩
          | none => .fail (who ++ " Error! Bad record for " ++ cfg.dataKey id)
      | _ => .fail (who ++ " Error! No record for " ++ cfg.chainKey id ++ " or " ++ cfg.dataKey id)
    else if who = "FetchNext" then
      .fail ("Fetch Error! No record for " ++ cfg.chainKey id)
    else
      .fail (who ++ " Error! No record for " ++ cfg.chainKey id ++ " or " ++ cfg.dataKey id)
  else
    match ← getRange (cfg.chainKey id) with
    | [] => .fail (who ++ " Error! No record for " ++ cfg.chainKey id)
    | kv :: _ =>
      match cd.mapData.parse kv.value with
      | some mapData => return ⟨kv.modRevision, id, some mapData.data, mapData.nextID⟩
      | none => .fail (who ++ " Error! Bad record for " ++ cfg.chainKey id)

def loadUntil (cfg : Config) (opt : Options) (cd : Codecs T) (id : String) (defaultData : T) :
    Call (ChainItem T) := do
  if id = "" then
    head cfg opt cd defaultData
  else if opt.duplicateFromRedis then
    match ← fromRedis cfg cd id with
    | some item => return item
    | none => itemFromEtcd cfg cd "LoadUntil" id
  else
    itemFromEtcd cfg cd "LoadUntil" id

/-- The part of `FetchNext` that reads the cache. -/
def fetchNextFromRedis (cfg : Config) (opt : Options) (cd : Codecs T) (current : ChainItem T) :
    Call (Option (ChainItem T)) := do
  if opt.duplicateFromRedis then
    if current.nextID ≠ "" then
      fromRedis cfg cd current.nextID
    else
      match ← fromRedis cfg cd current.id with
      | some data => if data.nextID ≠ "" then fromRedis cfg cd data.nextID else return none
      | none => return none
  else
    return none

/-- The id after `current`, from etcd if `current` does not know it. -/
def nextIDFromEtcd (cfg : Config) (cd : Codecs T) (current : ChainItem T) : Call String := do
  if current.nextID = "" then
    match ← getRange (cfg.chainKey current.id) with
    | [] => .fail ("FetchNext Error! No record for " ++ cfg.chainKey current.id)
    | kv :: _ =>
      if cfg.saveDataOnSeparateStorage then
        return kv.value
      else
        match cd.mapData.parse kv.value with
        | some data => return data.nextID
        | none => .fail ("FetchNext Error! Bad record for " ++ cfg.chainKey current.id)
  else
    return current.nextID

/-- The part of `FetchNext` that reads etcd. -/
def fetchNextFromEtcd (cfg : Config) (cd : Codecs T) (current : ChainItem T) :
    Call (Option (ChainItem T)) := do
  let nextID ← nextIDFromEtcd cfg cd current
  if nextID ≠ "" then
    let item ← itemFromEtcd cfg cd "FetchNext" nextID
    return some item
  else
    return none

def fetchNext (cfg : Config) (opt : Options) (cd : Codecs T) (current : ChainItem T) :
    Call (Option (ChainItem T)) := do
  match ← fetchNextFromRedis cfg opt cd current with
  | some item => return some item
  | none => fetchNextFromEtcd cfg cd current

variable [Inhabited T]

def appendAfter (cfg : Config) (opt : Options) (cd : Codecs T)
    (current toBeWritten : ChainItem T) : Call Bool := do
  if current.nextID ≠ "" then
    return false
  else if toBeWritten.nextID ≠ "" then
    .fail "Cannot append a new item whose nextID is already non-empty"
  else
    let txnResp ← transaction (appendTxn cfg cd current toBeWritten)
    if txnResp.succeeded then
      let rsp := txnResp.responses[if cfg.saveDataOnSeparateStorage then 2 else 1]?
      if opt.automaticallyDuplicateToRedis then
        duplicateToRedisAs .counted cfg opt cd ((rsp.map responsePutRevision).getD 0) current.id
          (current.data.getD default) toBeWritten.id
      return true
    else
      return false

end DotNet

end EtcdChain
