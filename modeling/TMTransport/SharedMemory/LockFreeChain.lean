import TMTransport.Library.Machine
import TMTransport.Library.Pointers

/-!
# `LockFreeInBoostSharedMemoryChain`

The chain kept in a shared memory segment, in both variants: `ByName`, where an
item's id is the name its node was constructed under, and `ByOffset`, where it is
the distance of the node from the head.

An address is a place in the segment, so it means the same in every process. A
node's `next` is the distance to the node after it, 0 for none. Each load, store
and compare-exchange of a `next` is one step of the machine, and so are the
construction and the release of a node.

A node's data, inline or in a block of its own, is written before the node can be
appended and goes away with it; here it is a field of the node.
-/

namespace LockFreeChain

open Interleave Pointers

inductive FastRecoverSupport where
  | byName
  | byOffset
  deriving DecidableEq

/-- `BoostSharedMemoryStorageItem`, and the name it was constructed under. -/
structure StorageItem (D : Type) where
  data : Option D
  next : Int
  name : Option String

/-- `StorageIDType`, of either variant. -/
inductive StorageID where
  | name (id : String)
  | offset (d : Int)
  deriving DecidableEq

structure ChainItem (D : Type) where
  ptr : Option Int
  id : StorageID
  data : Option D

/-- What the constructor fixes: the variant, and where and how the head is constructed. -/
structure Chain (D : Type) where
  support : FastRecoverSupport
  head : Int
  /-- `"head"`, or nothing for the unique instance. -/
  headName : Option String
  headData : Option D

/-- A managed shared memory segment: its objects, and its index of names. -/
structure Segment (D : Type) where
  object : Int → Option (StorageItem D)
  named : String → Option Int

variable {D : Type}

namespace Segment

def construct (m : Segment D) (p : Int) (x : StorageItem D) : Segment D where
  object := Function.update m.object p (some x)
  named := match x.name with
    | some n => Function.update m.named n (some p)
    | none => m.named

def destroyPtr (m : Segment D) (p : Int) : Segment D where
  object := Function.update m.object p none
  named := match (m.object p).bind (·.name) with
    | some n => Function.update m.named n none
    | none => m.named

/-- `p->next.store(d)` -/
def storeNext (m : Segment D) (p d : Int) : Segment D :=
  { m with object := Function.update m.object p ((m.object p).map fun x => { x with next := d }) }

/-- The node that `p->next` leads to. -/
def next (m : Segment D) (p : Int) : Option Int :=
  (m.object p).bind fun x => if x.next = 0 then none else some (p + x.next)

variable {m : Segment D} {p q d : Int} {x : StorageItem D}

theorem construct_object_of_ne (h : q ≠ p) : (m.construct p x).object q = m.object q :=
  Function.update_of_ne h _ _

@[simp] theorem construct_object_self : (m.construct p x).object p = some x :=
  Function.update_self _ _ _

theorem destroyPtr_object_of_ne (h : q ≠ p) : (m.destroyPtr p).object q = m.object q :=
  Function.update_of_ne h _ _

theorem storeNext_object_of_ne (h : q ≠ p) : (m.storeNext p d).object q = m.object q :=
  Function.update_of_ne h _ _

theorem storeNext_object_self (h : m.object p = some x) :
    (m.storeNext p d).object p = some { x with next := d } := by
  simp [storeNext, h]

theorem next_congr {m' : Segment D} (h : m'.object p = m.object p) : m'.next p = m.next p := by
  simp [next, h]

theorem next_eq_none_of (h : m.object p = some x) (hx : x.next = 0) : m.next p = none := by
  simp [next, h, hx]

theorem next_eq_some_of (h : m.object p = some x) (hx : x.next ≠ 0) :
    m.next p = some (p + x.next) := by
  simp [next, h, hx]

/-- Linking `p` to another node. -/
theorem next_storeNext (h : (m.object p).isSome) (hne : q ≠ p) :
    (m.storeNext p (q - p)).next p = some q := by
  obtain ⟨x, hx⟩ := Option.isSome_iff_exists.mp h
  have hd : q - p ≠ 0 := by omega
  rw [next_eq_some_of (storeNext_object_self hx) hd]
  exact congrArg some (show p + (q - p) = q by omega)

end Segment

/-! ## The items -/

/-- `fromIDAndPtr`, of the variant `ByName` -/
def fromIDAndPtr (m : Segment D) (id : String) (ptr : Option Int) : ChainItem D :=
  ⟨ptr, .name id, ptr.bind fun p => (m.object p).bind (·.data)⟩

/-- `fromPtr`, of the variant `ByOffset` -/
def fromPtr (C : Chain D) (m : Segment D) (p : Int) : ChainItem D :=
  ⟨some p, .offset (p - C.head), (m.object p).bind (·.data)⟩

/-- `get_instance_name` -/
def instanceName (m : Segment D) (p : Int) : String := ((m.object p).bind (·.name)).getD ""

/-- The item of a node that `fetchNext` has come to, or that has just been formed. -/
def itemAt (C : Chain D) (m : Segment D) (p : Int) : ChainItem D :=
  match C.support with
  | .byName => fromIDAndPtr m (instanceName m p) (some p)
  | .byOffset => fromPtr C m p

def head (C : Chain D) (m : Segment D) : ChainItem D :=
  match C.support with
  | .byName => fromIDAndPtr m "" (some C.head)
  | .byOffset => fromPtr C m C.head

/-- `loadUntil`. There is none for an id of the other variant. -/
def loadUntil (C : Chain D) (m : Segment D) : StorageID → Option (ChainItem D)
  | .name id =>
    match C.support with
    | .byName =>
      if id = "" ∨ id = "head" then some (head C m) else some (fromIDAndPtr m id (m.named id))
    | .byOffset => none
  | .offset d =>
    match C.support with
    | .byName => none
    | .byOffset => some (fromPtr C m (C.head + d))

/-! ## The machine -/

/-- A call of `destroyPtr` under way: what it is to release, and how far it is. -/
structure Destroying where
  /-- Is it called from `appendAfter`, after a compare-exchange that failed? -/
  failed : Bool
  items : List Int
  /-- The calls that this one is nested in, innermost first. -/
  callers : List Int
  /-- What has been released, in order. -/
  released : List Int

/-- Where a process is: before which atomic operation. -/
inductive Pc (D : Type) where
  | idle
  /-- In the loop of `formChainItems`, before the next node is constructed. -/
  | forming (ret : List Int) (data : List (String × D))
  /-- `p->ptr->next.store` -/
  | linking (ret : List Int) (p newItem : Int) (data : List (String × D))
  /-- `fetchNext`: `current.ptr->next.load` -/
  | fetching (current : Int)
  /-- `appendAfter`: is the `next` of the last item 0? -/
  | checking (current first : Int) (rest : List Int)
  /-- The compare-exchange of `current.ptr->next`. -/
  | swapping (current first : Int) (rest : List Int)
  /-- `destroyPtr`: `ptr->next != 0` -/
  | destroying (d : Destroying) (ptr : Int)
  /-- The load of `ptr->next` for the nested call. -/
  | descending (d : Destroying) (ptr : Int)
  /-- `mem_.destroy_ptr(ptr)` -/
  | releasing (d : Destroying) (ptr : Int)

/-- A call of `appendAfter` that has returned. -/
structure Return where
  items : List Int
  result : Bool
  released : List Int

structure State (ι D : Type) where
  mem : Segment D
  pc : ι → Pc D
  /-- The items that a process has been given, the last one first. -/
  items : ι → List (ChainItem D)
  /-- What a process has formed and still owns. -/
  formed : ι → List (List Int)
  /-- The nodes that a process has come to since it last called `head`, by `fetchNext`
  on the last of them. -/
  seen : ι → List Int
  returned : List Return
  /-- A node has been used, or released, that was not there. -/
  faulty : Bool

/-- What can happen. Items and vectors are named by their place among those of the process. -/
inductive Act (ι D : Type) where
  | head (t : ι)
  | loadUntil (t : ι) (id : StorageID)
  | fetchNext (t : ι) (current : Nat)
  /-- `formChainItems`; a vector of one item is a `formChainItem`. -/
  | formChainItems (t : ι) (data : List (String × D))
  | appendAfter (t : ι) (current toBeWritten : Nat)
  | destroyItem (t : ι) (toBeWritten : Nat)
  /-- A node is constructed at a place that the segment's allocator chooses. -/
  | construct (t : ι) (p : Int)
  /-- The segment is full. -/
  | noMemory (t : ι)
  | go (t : ι)

/-- Going on from the last node seen. -/
def follow (seen : List Int) (current p : Int) : List Int :=
  if seen.getLast? = some current then seen ++ [p] else seen

variable {ι : Type} [DecidableEq ι]

def State.goto (s : State ι D) (t : ι) (pc : Pc D) : State ι D :=
  { s with pc := Function.update s.pc t pc }

def State.gets (s : State ι D) (t : ι) (items : List (ChainItem D)) : State ι D :=
  { s with items := Function.update s.items t (items ++ s.items t) }

def State.fault (s : State ι D) (t : ι) : State ι D := { s.goto t .idle with faulty := true }

/-- One atomic operation of a process. -/
def advance (C : Chain D) (s : State ι D) (t : ι) : Option (State ι D) :=
  match s.pc t with
  | .idle => none
  | .forming _ (_ :: _) => none
  | .forming ret [] =>
    some { (s.goto t .idle).gets t (ret.map (itemAt C s.mem)) with
      formed := Function.update s.formed t (ret :: s.formed t) }
  | .linking ret p newItem data =>
    match s.mem.object p with
    | none => some (s.fault t)
    | some _ => some { s.goto t (.forming (ret ++ [newItem]) data) with
        mem := s.mem.storeNext p (newItem - p) }
  | .fetching current =>
    match s.mem.object current with
    | none => some (s.fault t)
    | some x =>
      if x.next = 0 then some (s.goto t .idle)
      else some { (s.goto t .idle).gets t [itemAt C s.mem (current + x.next)] with
        seen := Function.update s.seen t (follow (s.seen t) current (current + x.next)) }
  | .checking current first rest =>
    match s.mem.object (tip first rest) with
    | none => some (s.fault t)
    | some x =>
      if x.next = 0 then some (s.goto t (.swapping current first rest))
      -- the call throws, and the items are still the caller's
      else some { s.goto t .idle with
        formed := Function.update s.formed t ((first :: rest) :: s.formed t) }
  | .swapping current first rest =>
    match s.mem.object current with
    | none => some (s.fault t)
    | some x =>
      if x.next = 0 then some { s.goto t .idle with
        mem := s.mem.storeNext current (first - current)
        returned := s.returned ++ [⟨first :: rest, true, []⟩] }
      else some (s.goto t (.destroying ⟨true, first :: rest, [], []⟩ first))
  | .destroying d ptr =>
    match s.mem.object ptr with
    | none => some (s.fault t)
    | some x => some (s.goto t (if x.next = 0 then .releasing d ptr else .descending d ptr))
  | .descending d ptr =>
    match s.mem.object ptr with
    | none => some (s.fault t)
    | some x => some (s.goto t
        (.destroying { d with callers := ptr :: d.callers } (ptr + x.next)))
  | .releasing d ptr =>
    match s.mem.object ptr, d.callers with
    | none, _ => some (s.fault t)
    | some _, [] => some { s.goto t .idle with
        mem := s.mem.destroyPtr ptr
        returned := if d.failed then s.returned ++ [⟨d.items, false, d.released ++ [ptr]⟩]
          else s.returned }
    | some _, c :: callers => some { s.goto t
        (.releasing { d with callers := callers, released := d.released ++ [ptr] } c) with
        mem := s.mem.destroyPtr ptr }

/-- The name under which a node is constructed. -/
def Chain.nodeName (C : Chain D) (id : String) : Option String :=
  match C.support with
  | .byName => some id
  | .byOffset => none

/-- In the loop of `formChainItems`, after the node of `newItem` has been constructed. -/
def Pc.formed (ret : List Int) (newItem : Int) (data : List (String × D)) : Pc D :=
  match ret.getLast? with
  | none => .forming [newItem] data
  | some p => .linking ret p newItem data

/-- A node comes into being. A name that is in use makes `construct` throw. -/
def construct (C : Chain D) (s : State ι D) (t : ι) (p : Int) : Option (State ι D) :=
  match s.pc t, s.mem.object p with
  | .forming ret ((id, x) :: data), none =>
    if ((C.nodeName id).bind s.mem.named).isSome then some (s.goto t .idle)
    else some { s.goto t (.formed ret p data) with
      mem := s.mem.construct p ⟨some x, 0, C.nodeName id⟩ }
  | _, _ => none

/-- A call begins. -/
def call (C : Chain D) (s : State ι D) (t : ι) : Act ι D → Option (State ι D)
  | .head _ => some { s.gets t [head C s.mem] with seen := Function.update s.seen t [C.head] }
  | .loadUntil _ id => (loadUntil C s.mem id).map fun item => s.gets t [item]
  | .formChainItems _ data => some (s.goto t (.forming [] data))
  | .fetchNext _ i =>
    match (s.items t)[i]? with
    | none => none
    | some current =>
      match current.ptr with
      | none => some s
      | some p => some (s.goto t (.fetching p))
  | .appendAfter _ i j =>
    match (s.items t)[i]?, (s.formed t)[j]? with
    | some _, some [] => some { s with
        formed := Function.update s.formed t ((s.formed t).eraseIdx j)
        returned := s.returned ++ [⟨[], true, []⟩] }
    | some current, some (first :: rest) =>
      match current.ptr with
      | none => some s
      | some p => some { s.goto t (.checking p first rest) with
          formed := Function.update s.formed t ((s.formed t).eraseIdx j) }
    | _, _ => none
  | .destroyItem _ j =>
    match (s.formed t)[j]? with
    | some (first :: rest) =>
      some { s.goto t (.destroying ⟨false, first :: rest, [], []⟩ first) with
        formed := Function.update s.formed t ((s.formed t).eraseIdx j) }
    | _ => none
  | _ => none

def Act.process : Act ι D → ι
  | .head t | .loadUntil t _ | .fetchNext t _ | .formChainItems t _ | .appendAfter t _ _
  | .destroyItem t _ | .construct t _ | .noMemory t | .go t => t

def step (C : Chain D) (s : State ι D) (a : Act ι D) : Option (State ι D) :=
  match a with
  | .go t => advance C s t
  | .construct t p => construct C s t p
  | .noMemory t =>
    match s.pc t with
    | .forming _ (_ :: _) => some (s.goto t .idle)
    | _ => none
  | a =>
    match s.pc a.process with
    | .idle => call C s a.process a
    | _ => none

/-- The segment with the head in it, and nothing else. -/
def fresh (C : Chain D) : Segment D :=
  (Segment.mk (fun _ => none) (fun _ => none)).construct C.head ⟨C.headData, 0, C.headName⟩

def machine (ι : Type) [DecidableEq ι] (C : Chain D) : Machine (State ι D) (Act ι D) where
  init := ⟨fresh C, fun _ => .idle, fun _ => [], fun _ => [], fun _ => [], [], false⟩
  step := step C

/-- The nodes of the appends that have returned true, in that order. -/
def appended (returned : List Return) : List Int :=
  returned.flatMap fun r => if r.result then r.items else []

end LockFreeChain
