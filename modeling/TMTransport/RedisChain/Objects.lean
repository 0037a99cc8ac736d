import TMTransport.Library.Tenants
import TMTransport.RedisChain.Model

/-!
# Several chain objects in one process

The objects of one class `RedisChain<T>`, on one redis, make calls one after the
other. Each has its own configuration and hooks. What they share, besides redis, is
the `static` in `head`: it keeps the head key of the object that comes first.

A `KeySet` says which keys are an object's: those under its prefixes, for the names
that its user gives to items and to extra data.
-/

namespace RedisChain

open Interleave Redis

/-- How one object is configured; its hooks are in the formats. -/
structure Object (T X : Type) where
  cfg : Config
  cd : DataCodec T
  cx : Codec X

/-- The function-level statics of the class that depend on the object. -/
inductive Static where
  | headKeyStr
  deriving DecidableEq

/-- The calls on an object. A batch is formed by `formChainItems`. -/
inductive Task (T X : Type) where
  | head
  | loadUntil (id : String)
  | fetchNext (current : ChainItem T)
  | appendAfter (current toBeWritten : ChainItem T)
  | appendAfterBatch (current : ChainItem T) (itemDatas : List (String × T))
  | saveExtraData (key : String) (data : X)
  | loadExtraData (key : String)

/-- What they return. -/
inductive Outcome (T X : Type) where
  | item (it : ChainItem T)
  | next (it : Option (ChainItem T))
  | appended (ok : Bool)
  | saved
  | loaded (data : Option X)
  deriving DecidableEq

variable {T X ι : Type}

namespace Object

variable [Inhabited T]

/-- `head`, with its static. -/
def head (o : Object T X) : Prog (StaticOp Op Static) (StaticOp.Answer Op.Res) String
    (ChainItem T) := do
  let headKeyStr ← static .headKeyStr o.cfg.headKeyStr
  (headAt headKeyStr o.cfg).shared

def loadUntil (o : Object T X) (id : String) :
    Prog (StaticOp Op Static) (StaticOp.Answer Op.Res) String (ChainItem T) :=
  if id = "" then o.head else (readItem o.cfg o.cd "loadUntil" id).shared

def perform (o : Object T X) :
    Task T X → Prog (StaticOp Op Static) (StaticOp.Answer Op.Res) String (Outcome T X)
  | .head => do
    let it ← o.head
    return .item it
  | .loadUntil id => do
    let it ← o.loadUntil id
    return .item it
  | .fetchNext cur => do
    let it ← (fetchNext o.cfg o.cd cur).shared
    return .next it
  | .appendAfter cur toBeWritten => do
    let ok ← (appendAfter o.cfg o.cd cur toBeWritten).shared
    return .appended ok
  | .appendAfterBatch cur l => do
    let ok ← (appendAfterBatch o.cfg o.cd cur (formChainItems l)).shared
    return .appended ok
  | .saveExtraData key data => do
    let _ ← (saveExtraData o.cfg o.cx key data).shared
    return .saved
  | .loadExtraData key => do
    let r ← (loadExtraData o.cfg o.cx key).shared
    return .loaded r

end Object

/-- The process with what it shares, and what its calls came back with, newest first. -/
structure Process (T X ι : Type) where
  shared : Store × (Static → Option String)
  answers : List (ι × Except String (Outcome T X)) := []

/-- The objects make calls; at first, redis holds `s₀`. -/
def process [Inhabited T] (objs : ι → Object T X) (s₀ : Store) :
    Machine (Process T X ι) (ι × Task T X) where
  init := ⟨(s₀, fun _ => none), []⟩
  step p a :=
    let r := ((objs a.1).perform a.2).run (StaticOp.step step) p.shared
    some ⟨r.2, (a.1, r.1) :: p.answers⟩

/-! ## Keys -/

/-- The keys that a command reads or writes. -/
def Op.keys : Op → List String
  | .get key => [key]
  | .set key _ => [key]
  | .eval _ keys _ => keys

/-- The names that the user of an object gives to items and to extra data. -/
structure KeySet (cfg : Config) where
  ids : String → Prop
  extras : String → Prop
  head : ids cfg.headKey
  /-- The prefixes are whole for redis, and a name that is not is the object's also where it is
  cut. -/
  whole : '\x00' ∉ cfg.chainPrefix.toList ∧ '\x00' ∉ cfg.dataPrefix.toList ∧
    '\x00' ∉ cfg.extraDataPrefix.toList
  cut : (∀ id, ids id → ids (cStr id)) ∧ ∀ key, extras key → extras (cStr key)
  /-- Links are kept apart from data, unless all ids are the object's anyway. -/
  apart : (∀ id, ids id) ∨ ∀ id, ids id → (∀ id', ids id' → cfg.chainKey id ≠ cfg.dataKey id') ∧
    ∀ key, extras key → cfg.chainKey id ≠ cfg.extraDataKey key

namespace KeySet

variable {cfg : Config} (K : KeySet cfg)

/-- The object's configured keys. -/
def Owns (k : String) : Prop :=
  (∃ id, K.ids id ∧ (k = cfg.chainKey id ∨ k = cfg.dataKey id)) ∨
    ∃ key, K.extras key ∧ k = cfg.extraDataKey key

/-- If `v` stands under a chain key of the object, then the link leads to an id of the object. -/
def LinkOk (k v : String) : Prop :=
  ∀ id, K.ids id → k = cfg.chainKey id → v = "" ∨ K.ids v

/-- The links of the object's chain stay with its ids. -/
def Closed (s : Store) : Prop := ∀ k v, s k = some v → K.LinkOk k v

/-- The call names items and extra data of the object. -/
def Names : Task T X → Prop
  | .head => True
  | .loadUntil id => id = "" ∨ K.ids id
  | .fetchNext cur => K.ids cur.id ∧ (cur.nextID = "" ∨ K.ids cur.nextID)
  | .appendAfter cur toBeWritten => K.ids cur.id ∧ K.ids toBeWritten.id
  | .appendAfterBatch cur l => K.ids cur.id ∧ ∀ x ∈ l, K.ids x.1
  | .saveExtraData key _ => K.extras key
  | .loadExtraData key => K.extras key

end KeySet

/-- No key is two objects'. -/
def Disjoint (objs : ι → Object T X) (K : ∀ i, KeySet (objs i).cfg) : Prop :=
  ∀ i j k, (K i).Owns k → (K j).Owns k → i = j

/-- The call finds in each static what its object would put there, or is the first to come. -/
def OwnStatics [Inhabited T] (objs : ι → Object T X) (p : Process T X ι)
    (a : ι × Task T X) : Prop :=
  ((objs a.1).perform a.2).Along (StaticOp.step step)
    (fun o s => match o with
      | .shared _ => True
      | .static x init => s.2 x = none ∨ s.2 x = some init) p.shared

instance [Inhabited T] (objs : ι → Object T X) (p : Process T X ι) (a : ι × Task T X) :
    Decidable (OwnStatics objs p a) :=
  have : ∀ (o : StaticOp Op Static) (s : Store × (Static → Option String)),
      Decidable (match o with
        | .shared _ => True
        | .static x init => s.2 x = none ∨ s.2 x = some init)
    | .shared _, _ => .isTrue trivial
    | .static x init, s => inferInstanceAs (Decidable (s.2 x = none ∨ s.2 x = some init))
  Prog.Along.decidable ((objs a.1).perform a.2) p.shared

/-- The call stays with the keys of its object. -/
def OwnKeys [Inhabited T] (objs : ι → Object T X) (K : ∀ i, KeySet (objs i).cfg)
    (p : Process T X ι) (a : ι × Task T X) : Prop :=
  ((objs a.1).perform a.2).Along (StaticOp.step step)
    (fun o _ => match o with
      | .shared o => ∀ k ∈ o.keys, (K a.1).Owns k
      | .static _ _ => True) p.shared

/-- The objects do not interfere in the calls `as`. -/
structure Apart [Inhabited T] [DecidableEq ι] (objs : ι → Object T X)
    (K : ∀ i, KeySet (objs i).cfg) (s₀ : Store) (as : List (ι × Task T X)) : Prop where
  /-- Every key read or written through an object is its own. -/
  keys : (process objs s₀).Within (OwnKeys objs K) (process objs s₀).init as
  /-- Under an object's keys there is what there would be without the others. -/
  content : ∀ i k, (K i).Owns k →
    ((process objs s₀).exec (process objs s₀).init as).shared.1 k =
      ((process objs s₀).exec (process objs s₀).init
        (as.filter fun a => decide (a.1 = i))).shared.1 k
  /-- An object's calls come back with what they would come back with without the others. -/
  answers : ∀ i,
    (((process objs s₀).exec (process objs s₀).init as).answers.filter
      fun r => decide (r.1 = i)) =
      ((process objs s₀).exec (process objs s₀).init
        (as.filter fun a => decide (a.1 = i))).answers

end RedisChain
