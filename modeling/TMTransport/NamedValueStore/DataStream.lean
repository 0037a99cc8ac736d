import TMTransport.Library.EtcdEvents
import TMTransport.Library.Machine
import TMTransport.NamedValueStore.DataModel

/-!
# `DSComponent`

The data stream of an etcd named value store. The watch thread asks for the range of
all keys under the prefix, and sets up a watch on them, at the same time. What it is
told comes out of one queue, in whatever order etcd answers.

A watch is told of the events after its creation. It has the header of the last
response at hand, which is how the thread stamps also what the range has brought.
-/

namespace NamedValueStore

open ChangeLog EtcdEvents

abbrev Text := List Char

/-- What the component is constructed with, and how data is read. -/
structure Config (α : Type) where
  storagePrefix : Text
  lockNumberKey : Text := []
  lockQueueKey : Text := []
  parse : Text → Option α

namespace Config

variable {α : Type} (cfg : Config α)

/-- The key of etcd for a name. -/
def keyOf (name : Text) : Text := cfg.storagePrefix ++ ':' :: name

def lockNumber : Text := cfg.keyOf cfg.lockNumberKey

def lockQueue : Text := cfg.keyOf cfg.lockQueueKey

/-- The range from `storagePrefix:` to `storagePrefix;`: all keys that start with the former. -/
def watches (key : Text) : Bool := (cfg.storagePrefix ++ [':']).isPrefixOf key

end Config

/-- What a store says in `lockQueueRevision_` and `lockQueueVersion_`. -/
inductive QueueStore where
  | revision (rev : Nat)
  | version (v : Nat)
  deriving DecidableEq

variable {α : Type}

theorem keyOf_eq (cfg : Config α) (name : Text) :
    cfg.keyOf name = (cfg.storagePrefix ++ [':']) ++ name := by
  simp [Config.keyOf]

theorem keyOf_injective (cfg : Config α) : Function.Injective cfg.keyOf := by
  intro a b h
  rw [keyOf_eq, keyOf_eq] at h
  exact List.append_cancel_left h

/-- What `createDeltaUpdate` stores about the lock. -/
def queueStores (cfg : Config α) (e : Event Text Text) (revision : Nat) : List QueueStore :=
  if e.key = cfg.lockQueue then [.revision revision, .version e.kv.version] else []

/-- What `createDeltaUpdate` returns. -/
def createDeltaUpdate (cfg : Config α) (e : Event Text Text) (revision : Nat) :
    Option (OneUpdateItem Text α) :=
  if e.key = cfg.lockQueue then none
  else if e.key = cfg.lockNumber then none
  else if cfg.watches e.key then
    let realKey := e.key.drop (cfg.storagePrefix.length + 1)
    match e.type with
    | .put =>
      (cfg.parse e.kv.value).map fun d => .delta revision { insertsUpdates := [(realKey, d)] }
    | .delete => some (.delta revision { deletes := [realKey] })
  else none

/-- The state of the component, with what it is waiting for. -/
structure DS (α : Type) where
  /-- `initResponse`, and how many events there had been when etcd answered. -/
  initResponse : Option (List (Text × KeyValue Text) × Nat) := none
  initHandled : Bool := false
  /-- How many events there had been when the watch was created. -/
  watchFrom : Option Nat := none
  /-- How many events, from the first one, the watch has been told or is past. -/
  delivered : Nat := 0
  /-- `watchResponse.header().revision()` -/
  header : Nat := 0
  /-- What `watchListener_` has been given, oldest first. -/
  published : List (Update Text α)

/-- `initialize` -/
def DS.initialized : DS α where
  published := [⟨0, [.full 0 (some .empty)]⟩]

/-- What the listener is given for some events, if there are any. -/
def DS.publish (ds : DS α) (cfg : Config α) (events : List (Event Text Text)) : DS α :=
  if events = [] then ds
  else { ds with
    published := ds.published ++
      [⟨ds.header, events.filterMap fun e => createDeltaUpdate cfg e ds.header⟩] }

section Publish

variable (ds : DS α) (cfg : Config α) (events : List (Event Text Text))

@[simp]
theorem DS.publish_initResponse : (ds.publish cfg events).initResponse = ds.initResponse := by
  unfold publish
  split <;> rfl

@[simp]
theorem DS.publish_initHandled : (ds.publish cfg events).initHandled = ds.initHandled := by
  unfold publish
  split <;> rfl

@[simp]
theorem DS.publish_watchFrom : (ds.publish cfg events).watchFrom = ds.watchFrom := by
  unfold publish
  split <;> rfl

@[simp]
theorem DS.publish_delivered : (ds.publish cfg events).delivered = ds.delivered := by
  unfold publish
  split <;> rfl

@[simp]
theorem DS.publish_header : (ds.publish cfg events).header = ds.header := by
  unfold publish
  split <;> rfl

end Publish

/-- The records of a range, as events. -/
def initEvents (kvs : List (Text × KeyValue Text)) : List (Event Text Text) :=
  kvs.map fun kv => ⟨.put, kv.1, kv.2⟩

/-- The events that the watch tells of when `n` more have happened. -/
def DS.next (ds : DS α) (cfg : Config α) (s : Store Text Text) (n : Nat) : List (Event Text Text) :=
  ((s.log.drop ds.delivered).take n).filter fun e => cfg.watches e.key

/-- What happens to the component. -/
inductive DSAct where
  /-- Etcd answers the range. -/
  | readRange
  /-- Etcd creates the watch. -/
  | createWatch
  /-- The answer to the range comes out of the queue. -/
  | handleInit
  /-- A response of the watch comes, with `n` more events and the revision in its header. -/
  | handleWatch (n header : Nat)
  deriving DecidableEq

/-- One step of the component. -/
def DS.step (cfg : Config α) (s : Store Text Text) (ds : DS α) : DSAct → Option (DS α)
  | .readRange =>
    if ds.initResponse = none then
      some { ds with initResponse := some (s.range cfg.watches, s.log.length) }
    else none
  | .createWatch =>
    if ds.watchFrom = none then
      some { ds with watchFrom := some s.log.length, delivered := s.log.length }
    else none
  | .handleInit =>
    match ds.initResponse with
    | some (kvs, _) =>
      if ds.initHandled then none
      else some ({ ds with initHandled := true }.publish cfg (initEvents kvs))
    | none => none
  | .handleWatch n header =>
    if ds.watchFrom ≠ none ∧ ds.delivered + n ≤ s.log.length ∧ ds.header ≤ header ∧
        header ≤ s.revision ∧ ∀ e ∈ ds.next cfg s n, e.kv.modRevision ≤ header then
      some ({ ds with delivered := ds.delivered + n, header := header }.publish cfg
        (ds.next cfg s n))
    else none

/-- What the step stores about the lock. -/
def DS.stores (cfg : Config α) (s : Store Text Text) (ds : DS α) : DSAct → List QueueStore
  | .handleInit =>
    match ds.initResponse with
    | some (kvs, _) => (initEvents kvs).flatMap fun e => queueStores cfg e ds.header
    | none => []
  | .handleWatch n header => (ds.next cfg s n).flatMap fun e => queueStores cfg e header
  | _ => []

end NamedValueStore
