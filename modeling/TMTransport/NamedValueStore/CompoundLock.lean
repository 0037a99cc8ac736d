import TMTransport.NamedValueStore.DataStream

/-!
# `THComponent`, the compound lock

A lock made of two keys. Who puts the number key draws its version as a ticket, and
has the lock while the version of the queue key is that ticket; to release the lock
is to put the queue key. A process sees the queue key through its data stream. The
lock helper asks etcd, and puts each key only if its version is what it has read.
-/

namespace NamedValueStore

open ChangeLog EtcdEvents Interleave

variable {α : Type}

/-- `lockQueueRevision_` and `lockQueueVersion_` -/
structure View where
  revision : Nat := 0
  version : Nat := 0
  deriving DecidableEq

def View.store (v : View) : QueueStore → View
  | .revision rev => { v with revision := rev }
  | .version n => { v with version := n }

/-- Where a participant is. The tickets from `holding` on are for the reader; the code has no more
use for them. -/
inductive Phase where
  | idle
  /-- `lock` has read the number key. -/
  | numbered (numVersion : Nat)
  /-- It has drawn a ticket (`numRevision` is 0 for the lock helper). -/
  | waiting (ticket numRevision : Nat)
  /-- `acquireLock` has seen its ticket in `lockQueueVersion_`. -/
  | entered (ticket numRevision : Nat)
  | holding (ticket : Nat)
  /-- It has started to release the lock. -/
  | releasing (ticket : Nat)
  /-- `unlock` has read the queue key. -/
  | unlocking (ticket queueVersion : Nat)
  deriving DecidableEq

/-- A process with a `THComponent`, given pointers for the queue key or not, or one with the lock
helper. -/
inductive Kind where
  | cpp (pointers : Bool)
  | ts
  deriving DecidableEq

/-- A participant. -/
structure Proc (α : Type) where
  phase : Phase := .idle
  ds : DS α := .initialized
  view : View := {}
  /-- What the watch thread is about to store. -/
  pending : List QueueStore := []
  /-- The revisions of the updates since it has the lock. -/
  updates : List Nat := []

/-- What happens to a participant. -/
inductive ProcAct where
  /-- `acquireLock`: the transaction that puts the number key. -/
  | draw
  /-- `lock`: the number key is read, and put. -/
  | readNumber
  | takeNumber
  /-- `acquireLock`: `lockQueueVersion_` is the ticket. -/
  | spin
  /-- `acquireLock`: `lockQueueRevision_` is read, and the call returns. -/
  | load
  /-- `lock`: the queue key is read, and has the ticket. -/
  | pollQueue
  /-- `handleUpdate`, or the like. -/
  | update (changes : List (Change Text Text))
  | startRelease
  /-- `releaseLock`: the queue key is put, or that fails. -/
  | putQueue (ok : Bool)
  /-- `unlock`: the queue key is read, and put. -/
  | readQueue
  | casQueue
  /-- A step of the data stream. -/
  | ds (a : DSAct)
  /-- The watch thread stores something. -/
  | store
  deriving DecidableEq

/-- What a step leaves. -/
structure Effect (α : Type) where
  store : Store Text Text
  proc : Proc α
  /-- What `acquireLock` returns. -/
  returned : Option Nat := none
  /-- The lock has been released. -/
  released : Bool := false

/-- One step of a participant. A call that fails and is tried again is none. -/
def Proc.step (cfg : Config α) (kind : Kind) (s : Store Text Text) (c : Proc α) :
    ProcAct → Option (Effect α)
  | .draw =>
    match kind, c.phase with
    | .cpp true, .idle =>
      let s' := s.put cfg.lockNumber []
      some { store := s', proc := { c with
        phase := .waiting (s'.version cfg.lockNumber - 1) s'.revision } }
    | .cpp false, .idle =>
      some { store := s, proc := { c with phase := .holding 0 }, returned := some 0 }
    | _, _ => none
  | .readNumber =>
    match kind, c.phase with
    | .ts, .idle =>
      some { store := s, proc := { c with phase := .numbered (s.version cfg.lockNumber) } }
    | _, _ => none
  | .takeNumber =>
    match c.phase with
    | .numbered numVersion =>
      if s.version cfg.lockNumber = numVersion then
        some { store := s.put cfg.lockNumber [],
               proc := { c with phase := .waiting numVersion 0 } }
      else some { store := s, proc := { c with phase := .idle } }
    | _ => none
  | .spin =>
    match kind, c.phase with
    | .cpp _, .waiting ticket numRevision =>
      if c.view.version = ticket then
        some { store := s, proc := { c with phase := .entered ticket numRevision } }
      else none
    | _, _ => none
  | .load =>
    match c.phase with
    | .entered ticket numRevision =>
      some { store := s, proc := { c with phase := .holding ticket },
             returned := some (max c.view.revision numRevision) }
    | _ => none
  | .pollQueue =>
    match kind, c.phase with
    | .ts, .waiting ticket _ =>
      if s.version cfg.lockQueue = ticket then
        some { store := s, proc := { c with phase := .holding ticket } }
      else none
    | _, _ => none
  | .update changes =>
    match c.phase with
    | .holding _ => (s.commit changes).map fun s' =>
        { store := s', proc := { c with updates := s'.revision :: c.updates } }
    | _ => none
  | .startRelease =>
    match c.phase with
    | .holding ticket => some { store := s, proc := { c with phase := .releasing ticket } }
    | _ => none
  | .putQueue ok =>
    match kind, c.phase with
    | .cpp true, .releasing _ =>
      if ok then
        some { store := s.put cfg.lockQueue [], proc := { c with phase := .idle, updates := [] },
               released := true }
      else some { store := s, proc := { c with phase := .idle, updates := [] } }
    | .cpp false, .releasing _ =>
      some { store := s, proc := { c with phase := .idle, updates := [] }, released := true }
    | _, _ => none
  | .readQueue =>
    match kind, c.phase with
    | .ts, .releasing ticket =>
      some { store := s, proc := { c with
        phase := .unlocking ticket (s.version cfg.lockQueue) } }
    | _, _ => none
  | .casQueue =>
    match c.phase with
    | .unlocking ticket queueVersion =>
      if s.version cfg.lockQueue = queueVersion then
        some { store := s.put cfg.lockQueue [], proc := { c with phase := .idle, updates := [] },
               released := true }
      else some { store := s, proc := { c with phase := .releasing ticket } }
    | _ => none
  | .ds a =>
    match kind with
    | .cpp _ =>
      if c.pending = [] then
        (c.ds.step cfg s a).map fun ds =>
          { store := s, proc := { c with ds := ds, pending := c.ds.stores cfg s a } }
      else none
    | .ts => none
  | .store =>
    match c.pending with
    | [] => none
    | q :: rest => some { store := s, proc := { c with view := c.view.store q, pending := rest } }

/-! ## All participants -/

/-- The store and the participants, which may be any number. -/
structure LockWorld (P α : Type) where
  store : Store Text Text
  procs : P → Proc α
  /-- The updates of those that have released the lock. -/
  settled : List Nat
  /-- What `acquireLock` has returned, each time with what was settled then. -/
  acquired : List (Nat × List Nat)

inductive LockAct (P : Type) where
  | proc (p : P) (a : ProcAct)
  /-- A client that is no participant commits changes. -/
  | other (changes : List (Change Text Text))
  deriving DecidableEq

/-- The changes are not of the keys of the lock. -/
def SparesLock (cfg : Config α) (changes : List (Change Text Text)) : Prop :=
  cfg.lockNumber ∉ changes.map Change.key ∧ cfg.lockQueue ∉ changes.map Change.key

instance (cfg : Config α) (changes : List (Change Text Text)) :
    Decidable (SparesLock cfg changes) :=
  inferInstanceAs (Decidable (_ ∧ _))

variable {P : Type} [DecidableEq P]

/-- What a step of `p` leaves of the whole. -/
def LockWorld.after (w : LockWorld P α) (p : P) (e : Effect α) : LockWorld P α where
  store := e.store
  procs := Function.update w.procs p e.proc
  settled := if e.released then w.settled ++ (w.procs p).updates else w.settled
  acquired := e.returned.elim w.acquired fun version => (version, w.settled) :: w.acquired

/-- Participants of some kinds, from the store `s₀` on. -/
def compoundLock (cfg : Config α) (kind : P → Kind) (s₀ : Store Text Text) :
    Machine (LockWorld P α) (LockAct P) where
  init := ⟨s₀, fun _ => {}, [], []⟩
  step w
    | .proc p a => ((w.procs p).step cfg (kind p) w.store a).map (w.after p)
    | .other changes =>
      if SparesLock cfg changes then
        (w.store.commit changes).map fun s => { w with store := s }
      else none

/-- The lock is acquired, and its release has not started. -/
def Phase.Inside : Phase → Prop
  | .entered _ _ => True
  | .holding _ => True
  | _ => False

/-- The lock does what it is for. -/
structure Excludes (w : LockWorld P α) : Prop where
  alone : ∀ p p', (w.procs p).phase.Inside → (w.procs p').phase.Inside → p = p'
  /-- What `acquireLock` returns is not older than what was settled. -/
  fresh : ∀ a ∈ w.acquired, ∀ u ∈ a.2, u ≤ a.1

/-- The answer to a range is handled with a header at hand that is not older than the queue key in
it, and updates are not of the keys of the lock. -/
def Stamped (cfg : Config α) (w : LockWorld P α) : LockAct P → Prop
  | .proc p (.ds .handleInit) => ∀ r ∈ (w.procs p).ds.initResponse, ∀ kv ∈ r.1,
    kv.1 = cfg.lockQueue → kv.2.modRevision ≤ (w.procs p).ds.header
  | .proc _ (.update changes) => SparesLock cfg changes
  | _ => True

end NamedValueStore
