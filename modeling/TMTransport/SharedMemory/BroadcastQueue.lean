import TMTransport.Library.Codec
import TMTransport.Library.Machine
import TMTransport.Library.Pointers

/-!
# The message list of a shared memory broadcast client

A client has two list heads and a tail, all of them offsets from the client list
head. `publish` goes to the end of the list that the tail is in and hangs a new
item there. The client's thread, when it finds its current list non-empty, turns
the tail to its other head, and then hands over and releases what hangs at the
first one.

Each load, store and compare-exchange is one step, and so are the construction and
the release of an item. The item's data block is written before the item is
linked; here it is a field of the item.
-/

namespace BroadcastQueue

open Interleave Pointers

/-- `SharedMemoryItem`, with the bytes that `dataOffsetFromClientList` leads to. -/
structure Item where
  data : Option String
  next : Int

/-- The client's two heads, at their `headOffsets_`. -/
structure Client where
  heads : Bool → Int
  distinct : heads false ≠ heads true
  nonzero : ∀ b, heads b ≠ 0

/-- Where a publisher is, in `publish`: before which atomic operation. -/
inductive Pub (X : Type) where
  | idle
  /-- The new item is about to be constructed. -/
  | constructing (x : X)
  /-- `clientRec->tailOffsetFromClientList.load()` -/
  | loadTail (x : X) (newItem : Int)
  /-- `tail->nextOffsetFromClientList.load()` -/
  | loadNext (x : X) (newItem tail : Int)
  /-- `clientRec->tailOffsetFromClientList.load()`, in the inner loop -/
  | loadOld (x : X) (newItem tail n : Int)
  | casTail (x : X) (newItem tail n old : Int)
  /-- The compare-exchange that links the new item. -/
  | casNext (x : X) (newItem tail : Int)

/-- Where the client's thread is, in `run`. -/
inductive Con where
  /-- `heads_[headIdx_].nextOffsetFromClientList.load()` -/
  | watching
  | loadTail
  /-- The compare-exchange that turns the tail to the other head. -/
  | casTail (oldV : Int)
  /-- `heads_[oldHeadIdx].nextOffsetFromClientList.load()` -/
  | first
  /-- The data of `p` is handed over and released. -/
  | handle (p : Int)
  | loadNext (p : Int)
  /-- `mem_.destroy_ptr(p)` -/
  | free (p n : Int)
  /-- `heads_[oldHeadIdx].nextOffsetFromClientList.store(0)` -/
  | reset

structure State (ι X : Type) where
  object : Int → Option Item
  tail : Int
  pub : ι → Pub X
  con : Con
  headIdx : Bool
  /-- The messages each publisher has made items of. -/
  published : ι → List X
  /-- The messages whose items have been linked, in that order. -/
  linked : List (ι × X)
  /-- What `handleData` has been given. -/
  handed : List X
  /-- An item has been used that was not there. -/
  faulty : Bool

inductive Act (ι X : Type) where
  | publish (i : ι) (x : X)
  /-- The new item is constructed at a place that the segment's allocator chooses. -/
  | construct (i : ι) (p : Int)
  /-- The segment is full. -/
  | noMemory (i : ι)
  | go (i : ι)
  | consume

variable {ι X : Type}

/-- Where an item points, 0 being nowhere. -/
def next (object : Int → Option Item) (p : Int) : Option Int :=
  (object p).bind fun it => if it.next = 0 then none else some it.next

section Step

variable [DecidableEq ι] (C : Client) (c : Codec X)

def State.goto (s : State ι X) (i : ι) (pub : Pub X) : State ι X :=
  { s with pub := Function.update s.pub i pub }

def State.fault (s : State ι X) : State ι X := { s with faulty := true }

/-- One atomic operation of a publisher. -/
def advance (s : State ι X) (i : ι) : Option (State ι X) :=
  match s.pub i with
  | .idle => none
  | .constructing _ => none
  | .loadTail x newItem => some (s.goto i (.loadNext x newItem s.tail))
  | .loadNext x newItem tail =>
    match s.object tail with
    | none => some s.fault
    | some it => some (s.goto i
        (if it.next = 0 then .casNext x newItem tail else .loadOld x newItem tail it.next))
  | .loadOld x newItem tail n => some (s.goto i (.casTail x newItem tail n s.tail))
  | .casTail x newItem tail n old =>
    if s.tail = old then some { s.goto i (.loadNext x newItem n) with tail := n }
    else some (s.goto i (.loadNext x newItem tail))
  | .casNext x newItem tail =>
    match s.object tail with
    | none => some s.fault
    | some it =>
      if it.next = 0 then some { s.goto i .idle with
        object := Function.update s.object tail (some { it with next := newItem })
        linked := s.linked ++ [(i, x)] }
      else some (s.goto i (.loadNext x newItem tail))

/-- One atomic operation of the client's thread. -/
def consume (s : State ι X) : State ι X :=
  match s.con with
  | .watching =>
    match s.object (C.heads s.headIdx) with
    | none => s.fault
    | some it => if it.next = 0 then s else { s with con := .loadTail, headIdx := !s.headIdx }
  | .loadTail => { s with con := .casTail s.tail }
  | .casTail oldV =>
    if s.tail = oldV then { s with tail := C.heads s.headIdx, con := .first }
    else { s with con := .loadTail }
  | .first =>
    match s.object (C.heads !s.headIdx) with
    | none => s.fault
    | some it => { s with con := if it.next = 0 then .reset else .handle it.next }
  | .handle p =>
    match s.object p with
    | none => s.fault
    | some it =>
      match it.data with
      | none => { s with con := .loadNext p }
      | some v => { s with
          con := .loadNext p
          object := Function.update s.object p (some { it with data := none })
          handed := s.handed ++ (c.parse v).toList }
  | .loadNext p =>
    match s.object p with
    | none => s.fault
    | some it => { s with con := .free p it.next }
  | .free p n =>
    match s.object p with
    | none => s.fault
    | some _ => { s with
        object := Function.update s.object p none
        con := if n = 0 then .reset else .handle n }
  | .reset =>
    match s.object (C.heads !s.headIdx) with
    | none => s.fault
    | some it => { s with
        object := Function.update s.object (C.heads !s.headIdx) (some { it with next := 0 })
        con := .watching }

def step (s : State ι X) : Act ι X → Option (State ι X)
  | .publish i x =>
    match s.pub i with
    | .idle => some (s.goto i (.constructing x))
    | _ => none
  | .construct i p =>
    match s.pub i, s.object p with
    | .constructing x, none =>
      if p = 0 then none
      else some { s.goto i (.loadTail x p) with
        object := Function.update s.object p (some ⟨some (c.serialize x), 0⟩)
        published := Function.update s.published i (s.published i ++ [x]) }
    | _, _ => none
  | .noMemory i =>
    match s.pub i with
    | .constructing _ => some (s.goto i .idle)
    | _ => none
  | .go i => advance s i
  | .consume => some (consume C c s)

/-- The two heads, and nothing else. -/
def fresh (p : Int) : Option Item :=
  if p = C.heads false ∨ p = C.heads true then some ⟨none, 0⟩ else none

def machine (ι : Type) [DecidableEq ι] : Machine (State ι X) (Act ι X) where
  init := ⟨fresh C, C.heads false, fun _ => .idle, .watching, false, fun _ => [], [], [], false⟩
  step := step C c

end Step

/-- The publisher has loaded the tail, and has not yet linked its item. -/
def Pub.between : Pub X → Bool
  | .loadNext _ _ _ => true
  | .loadOld _ _ _ _ => true
  | .casTail _ _ _ _ _ => true
  | .casNext _ _ _ => true
  | _ => false

/-- The client turns its tail only when no publisher is at its list. -/
def Undisturbed (s : State ι X) (a : Act ι X) : Prop :=
  ∀ oldV, a = .consume → s.con = .casTail oldV → s.tail = oldV → ∀ i, (s.pub i).between = false

/-- Is it a step of the client's thread? -/
def Act.ofClient : Act ι X → Bool
  | .consume => true
  | _ => false

theorem undisturbed_of_ne {a : Act ι X} (h : a.ofClient = false) : Undisturbed s a := by
  rintro oldV rfl
  cases h

theorem undisturbed_of_calm {a : Act ι X} (h : ∀ i, (s.pub i).between = false) :
    Undisturbed s a := fun _ _ _ _ => h

/-- The message of an item that is not yet linked. -/
def Pub.pending : Pub X → List X
  | .idle => []
  | .constructing _ => []
  | .loadTail x _ => [x]
  | .loadNext x _ _ => [x]
  | .loadOld x _ _ _ => [x]
  | .casTail x _ _ _ _ => [x]
  | .casNext x _ _ => [x]

end BroadcastQueue
