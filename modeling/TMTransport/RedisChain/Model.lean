import TMTransport.Library.Codec
import TMTransport.Library.Prog
import TMTransport.Library.RedisScript

/-!
# `RedisChain`

The C++ client of the redis shared chain, function by function. A call is a program
over the commands that it sends, each of which redis runs by itself. `redisCommand`
takes its arguments as C strings where the format says `%s`; `redisCommandArgv` takes
them with their lengths.

`head` keeps the key of the head in a variable that all objects of the class share.
Here it is an argument.
-/

namespace RedisChain

open Interleave Redis

/-- `RedisChainConfiguration` -/
structure Config where
  headKey : String := ""
  chainPrefix : String := "shared_chain_test"
  dataPrefix : String := "shared_chain_test_data"
  extraDataPrefix : String := "shared_chain_test_extra_data"

/-- `ChainItem` -/
structure ChainItem (T : Type) where
  id : String
  data : Option T
  nextID : String
  deriving DecidableEq

/-- The wire format of the data, hooks included. A CBOR item takes at least one byte. -/
structure DataCodec (T : Type) extends Codec T where
  serialize_ne : ∀ x, serialize x ≠ ""

/-- A format for a chain whose items carry no data. -/
def DataCodec.unit : DataCodec Unit where
  toCodec := (Codec.tagged 'd').comap (fun _ => "") (fun _ => ()) (fun _ => rfl)
  serialize_ne := fun _ => by simp [Codec.comap, Codec.tagged]

/-- A format for short texts. -/
def DataCodec.text : DataCodec String where
  toCodec := Codec.tagged 'd'
  serialize_ne := fun _ => by simp [Codec.tagged]

def Config.headKeyStr (cfg : Config) : String := cfg.chainPrefix ++ ":" ++ cfg.headKey

def Config.chainKey (cfg : Config) (id : String) : String := cfg.chainPrefix ++ ":" ++ id

def Config.dataKey (cfg : Config) (id : String) : String := cfg.dataPrefix ++ ":" ++ id

def Config.extraDataKey (cfg : Config) (key : String) : String := cfg.extraDataPrefix ++ ":" ++ key

/-! ## Scripts -/

/-- The local variables of the scripts. -/
inductive Var where
  | x
  | y (ii : Nat)
  | z (ii : Nat)
  deriving DecidableEq

def headScript : Script Var where
  reads := [⟨.x, 1⟩]
  tests := [.present .x]
  yes := ⟨[], .var .x⟩
  no := ⟨[⟨1, .empty⟩], .text ""⟩

/-- The script of a single `appendAfter`. All languages have it. -/
def appendScript : Script Var where
  reads := [⟨.x, 1⟩, ⟨.y 0, 2⟩, ⟨.z 0, 3⟩]
  tests := [.isEmpty .x, .absent (.y 0), .absent (.z 0)]
  yes := ⟨[⟨1, .argv 1⟩, ⟨2, .argv 2⟩, ⟨3, .empty⟩], .number 1⟩
  no := ⟨[], .number 0⟩

/-- The script that `luaStrOss` collects. -/
def batchScript (newItemCount : Nat) : Script Var where
  reads := ⟨.x, 1⟩ :: (List.range newItemCount).flatMap fun ii =>
    [⟨.y ii, (ii + 1) * 2⟩, ⟨.z ii, (ii + 1) * 2 + 1⟩]
  tests := .isEmpty .x :: (List.range newItemCount).flatMap fun ii =>
    [.absent (.y ii), .absent (.z ii)]
  yes := ⟨⟨1, .argv 1⟩ :: (List.range newItemCount).flatMap fun ii =>
    [⟨(ii + 1) * 2, .argv ((ii + 1) * 2)⟩, ⟨(ii + 1) * 2 + 1, .argv ((ii + 1) * 2 + 1)⟩],
    .number 1⟩
  no := ⟨[], .number 0⟩

/-! ## Commands -/

inductive Op where
  | get (key : String)
  | set (key value : String)
  | eval (script : Script Var) (keys argv : List String)

@[reducible] def Op.Res : Op → Type
  | .get _ => Option String
  | .set _ _ => Unit
  | .eval _ _ _ => Reply

def step : (o : Op) → Store → o.Res × Store
  | .get key, s => (s key, s)
  | .set key value, s => ((), Function.update s key (some value))
  | .eval script keys argv, s => script.eval keys argv s

/-- A call of the chain client; it throws its message. -/
abbrev Call (α : Type) := Prog Op Op.Res String α

def get (key : String) : Call (Option String) := .act (.get key) .ret

def set (key value : String) : Call Unit := .act (.set key value) .ret

def eval (script : Script Var) (keys argv : List String) : Call Reply :=
  .act (.eval script keys argv) .ret

/-! ## The C++ client -/

variable {T : Type} [Inhabited T]

/-- `head`, with the key that it has kept. -/
def headAt (headKeyStr : String) (cfg : Config) : Call (ChainItem T) := do
  match ← eval headScript [cStr headKeyStr] [] with
  | .string nextID => return ⟨cfg.headKey, some default, nextID⟩
  | _ => .fail ("head: Redis chain fetch head error for " ++ headKeyStr)

def head (cfg : Config) : Call (ChainItem T) := headAt cfg.headKeyStr cfg

/-- Read the item `id`: its data, and then its link. `loadUntil` and `fetchNext` do the
same; `who` starts their messages. -/
def readItem (cfg : Config) (cd : DataCodec T) (who id : String) : Call (ChainItem T) := do
  match ← get (cStr (cfg.dataKey id)) with
  | none => .fail (who ++ ": Redis chain fetch error for " ++ cfg.dataKey id)
  | some r =>
    match ← get (cStr (cfg.chainKey id)) with
    | none => .fail (who ++ ": Redis chain fetch error for " ++ cfg.chainKey id)
    | some nextID => return ⟨id, cd.parse r, nextID⟩

/-- The id after `current`, from redis if `current` does not know it. -/
def nextIDOf (cfg : Config) (current : ChainItem T) : Call String := do
  if current.nextID = "" then
    match ← get (cStr (cfg.chainKey current.id)) with
    | none => .fail ("fetchNext: Redis chain fetch error for " ++ cfg.chainKey current.id)
    | some nextID => return nextID
  else
    return current.nextID

def fetchNext (cfg : Config) (cd : DataCodec T) (current : ChainItem T) :
    Call (Option (ChainItem T)) := do
  let nextID ← nextIDOf cfg current
  if nextID = "" then
    return none
  else
    let item ← readItem cfg cd "fetchNext" nextID
    return some item

def appendAfter (cfg : Config) (cd : DataCodec T) (current toBeWritten : ChainItem T) :
    Call Bool := do
  if current.nextID ≠ "" then
    return false
  else if toBeWritten.data.isNone then
    .fail "appendAfter: Cannot append a new item whose data is empty"
  else if toBeWritten.nextID ≠ "" then
    .fail "appendAfter: Cannot append a new item whose nextID is already non-empty"
  else
    let currentChainKey := cfg.chainKey current.id
    let newDataKey := cfg.dataKey toBeWritten.id
    let newChainKey := cfg.chainKey toBeWritten.id
    let newData := cd.serialize (toBeWritten.data.getD default)
    match ← eval appendScript [cStr currentChainKey, cStr newDataKey, cStr newChainKey]
        [cStr toBeWritten.id, newData] with
    | .integer n => return decide (n ≠ 0)
    | _ => .fail ("appendAfter: Redis chain compare set error for " ++ currentChainKey ++ "," ++
        newDataKey ++ "," ++ newChainKey)

/-- What `argv` has for `KEYS`. -/
def batchKeys (cfg : Config) (current : ChainItem T) (toBeWritten : List (ChainItem T)) :
    List String :=
  cfg.chainKey current.id :: toBeWritten.flatMap fun x => [cfg.dataKey x.id, cfg.chainKey x.id]

/-- What `argv` has for `ARGV`. -/
def batchArgv (cd : DataCodec T) (toBeWritten : List (ChainItem T)) : List String :=
  (toBeWritten.head?.map ChainItem.id).getD "" ::
    toBeWritten.flatMap fun x => [cd.serialize (x.data.getD default), x.nextID]

/-- `appendAfter` of a vector. -/
def appendAfterBatch (cfg : Config) (cd : DataCodec T) (current : ChainItem T)
    (toBeWritten : List (ChainItem T)) : Call Bool := do
  match toBeWritten with
  | [] => return true
  | [x] => appendAfter cfg cd current x
  | first :: _ :: _ =>
    if current.nextID ≠ "" then
      return false
    else if first.data.isNone then
      .fail "appendAfter: Cannot append a new first item whose data is empty"
    else if (toBeWritten.getLast?.map ChainItem.nextID).getD "" ≠ "" then
      .fail "appendAfter: Cannot append a new last item whose nextID is already non-empty"
    else
      match ← eval (batchScript toBeWritten.length) (batchKeys cfg current toBeWritten)
          (batchArgv cd toBeWritten) with
      | .integer n => return decide (n ≠ 0)
      | _ => .fail ("appendAfter: Redis chain compare set error for " ++
          cfg.chainKey current.id ++ "," ++ cfg.dataKey first.id ++ "," ++ cfg.chainKey first.id)

def formChainItem (itemID : String) (itemData : T) : ChainItem T := ⟨itemID, some itemData, ""⟩

def formChainItems : List (String × T) → List (ChainItem T)
  | [] => []
  | [x] => [formChainItem x.1 x.2]
  | x :: y :: l => { formChainItem x.1 x.2 with nextID := y.1 } :: formChainItems (y :: l)

def saveExtraData {X : Type} (cfg : Config) (cx : Codec X) (key : String) (data : X) :
    Call Unit :=
  set (cStr (cfg.extraDataKey key)) (cx.serialize data)

def loadExtraData {X : Type} (cfg : Config) (cx : Codec X) (key : String) :
    Call (Option X) := do
  let r ← get (cStr (cfg.extraDataKey key))
  return r.bind cx.parse

/-! ## The C# client -/

namespace DotNet

def head (cfg : Config) (defaultData : T) : Call (Option (ChainItem T)) := do
  match ← eval headScript [cfg.headKeyStr] [] with
  | .string nextID => return some ⟨cfg.headKey, some defaultData, nextID⟩
  | .nil => return none
  | _ => .fail "ScriptEvaluate"

def nextIDOf (cfg : Config) (current : ChainItem T) : Call String := do
  if current.nextID = "" then
    match ← get (cfg.chainKey current.id) with
    | none => .fail ("FetchNext: Redis chain fetch error for " ++ cfg.chainKey current.id)
    | some r => return r
  else
    return current.nextID

def fetchNext (cfg : Config) (cd : DataCodec T) (current : ChainItem T) :
    Call (Option (ChainItem T)) := do
  let nextID ← nextIDOf cfg current
  if nextID = "" then
    return none
  else
    match ← get (cfg.dataKey nextID) with
    | none => .fail ("FetchNext: Redis chain fetch error for " ++ cfg.dataKey nextID)
    | some r =>
      match cd.parse r with
      | none => .fail ("FetchNext: Redis chain parse error for " ++ cfg.dataKey nextID)
      | some data =>
        match ← get (cfg.chainKey nextID) with
        | none => .fail ("FetchNext: Redis chain fetch error for " ++ cfg.chainKey nextID)
        | some nextNextID => return some ⟨nextID, some data, nextNextID⟩

def appendAfter (cfg : Config) (cd : DataCodec T) (current toBeWritten : ChainItem T) :
    Call Bool := do
  if current.nextID ≠ "" then
    return false
  else if toBeWritten.nextID ≠ "" then
    .fail "AppendAfter: Cannot append a new item whose nextID is already non-empty"
  else
    let currentChainKey := cfg.chainKey current.id
    let newDataKey := cfg.dataKey toBeWritten.id
    let newChainKey := cfg.chainKey toBeWritten.id
    match ← eval appendScript [currentChainKey, newDataKey, newChainKey]
        [toBeWritten.id, cd.serialize (toBeWritten.data.getD default)] with
    | .integer n => return decide (n ≠ 0)
    | .nil => .fail ("AppendAfter: Redis chain compare set error for " ++ currentChainKey ++ "," ++
        newDataKey ++ "," ++ newChainKey)
    | _ => .fail "ScriptEvaluate"

end DotNet

/-! ## The TypeScript and Python clients

They keep the item that they have come to as `current`. -/

namespace Script

/-- `start`; without an answer it leaves `current` alone. -/
def start (cfg : Config) (defaultData : T) : Call (Option (ChainItem T)) := do
  match ← eval headScript [cfg.headKeyStr] [] with
  | .string nextID => return some ⟨cfg.headKey, some defaultData, nextID⟩
  | .nil => return none
  | _ => .fail "eval"

def nextIDOf (cfg : Config) (current : ChainItem T) : Call String := do
  if current.nextID = "" then
    let r ← get (cfg.chainKey current.id)
    return r.getD ""
  else
    return current.nextID

/-- `next`: the new `current`, if there is one. The decoder throws on what it cannot read. -/
def next (cfg : Config) (cd : DataCodec T) (current : ChainItem T) :
    Call (Option (ChainItem T)) := do
  let nextID ← nextIDOf cfg current
  if nextID = "" then
    return none
  else
    match ← get (cfg.dataKey nextID) with
    | none => return none
    | some dataReply =>
      match ← get (cfg.chainKey nextID) with
      | none => return none
      | some chainReply =>
        match cd.parse dataReply with
        | none => .fail "decode"
        | some data => return some ⟨nextID, some data, chainReply⟩

/-- One turn of `tryAppend`: `next`, until it says no, and then the append. The left
value is the `current` for the next turn. -/
def tryAppend (cfg : Config) (cd : DataCodec T) (current : ChainItem T) (newID : String)
    (newData : T) : Call (ChainItem T ⊕ (Bool × ChainItem T)) := do
  match ← next cfg cd current with
  | some it => return .inl it
  | none =>
    match ← eval appendScript [cfg.chainKey current.id, cfg.dataKey newID, cfg.chainKey newID]
        [newID, cd.serialize newData] with
    | .integer n =>
      if n ≠ 0 then return .inr (true, ⟨newID, some newData, ""⟩)
      else return .inr (false, current)
    | .error => .fail "eval"
    | _ => return .inr (false, current)

end Script

end RedisChain
