import Mathlib.Algebra.Ring.Int.Defs
import TMTransport.Library.Codec
import TMTransport.Library.Machine

/-!
# Extra data in the shared memory chain

Extra data is kept in the segment under the key's name. There are two strategies.
`LockFreeAndWasteMemory` writes each value to a new place and keeps, under the name,
the distance to it in an atomic. `MutexProtected` keeps the value itself under the
name, overwrites it in place if the new one is as long, and does so with a mutex held.

Calls of the segment manager and operations on an atomic are single steps, and
bytes are copied one at a time. Memory that no other process has a pointer to yet
is filled in the step that constructs it.

A trivially copyable type is stored as it is, and read while the mutex is held; of
any other type the encoded bytes are, and what a load gets under the mutex is a view.
The name is the key as a C string.
-/

namespace ExtraData

open Interleave

/-- `BoostSharedMemoryChainExtraDataProtectionStrategy`, less the ones without a mutex of
their own. -/
inductive Strategy where
  | lockFreeAndWasteMemory
  | mutexProtected
  deriving DecidableEq

structure Config where
  strategy : Strategy
  /-- The size of what is under a name, if its type is trivially copyable. -/
  plain : String → Option Nat

abbrev Bytes := List UInt8

inductive Object where
  /-- `std::atomic<std::ptrdiff_t>`: how far it is to the data. -/
  | slot (offset : Int)
  /-- The data. What `LockFreeAndWasteMemory` encodes has its length in front. -/
  | bytes (content : Bytes)
  deriving DecidableEq

/-- Where a process is: before which operation. `due` is a ghost in each load. -/
inductive Pc where
  | idle
  /-- `LockFreeAndWasteMemory`, saving: the data is constructed. -/
  | construct (key : String) (data : Bytes)
  /-- `find_or_construct<std::atomic<std::ptrdiff_t>>` -/
  | findOrConstruct (key : String) (data : Bytes) (dataPtr : Int)
  /-- `loc->store` -/
  | store (key : String) (data : Bytes) (loc dataPtr : Int)
  /-- `MutexProtected`, saving. -/
  | lockToSave (key : String) (data : Bytes)
  | findToSave (key : String) (data : Bytes)
  /-- `destroy_ptr(oldDataPtr.first)` -/
  | destroy (key : String) (data : Bytes) (oldDataPtr : Int)
  | constructNamed (key : String) (data : Bytes)
  /-- The `memcpy`, at the byte `i`. -/
  | fill (key : String) (data : Bytes) (dataPtr : Int) (i : Nat)
  | unlockSaved (key : String) (data : Bytes)
  /-- `LockFreeAndWasteMemory`, loading. -/
  | findSlot (key : String) (due : Bool)
  | loadOffset (key : String) (due : Bool) (loc : Int)
  /-- The length is read. -/
  | readSize (key : String) (due : Bool) (dataPtr : Int)
  /-- What is at `dataPtr` is copied to the caller. -/
  | copy (key : String) (due : Bool) (dataPtr : Int) (sz : Nat) (copied : Bytes)
  /-- `MutexProtected`, loading. -/
  | lockToLoad (key : String) (due : Bool)
  | findToLoad (key : String) (due : Bool)
  /-- The value has been copied, or there is none. -/
  | unlockLoaded (key : String) (due : Bool) (result : Option Bytes)
  /-- The view has been made, nothing is copied yet. -/
  | unlockView (key : String) (due : Bool) (dataPtr : Int) (sz : Nat)
  deriving DecidableEq

/-- What the history has: calls and returns. -/
inductive Event where
  | save (key : String) (data : Bytes)
  | saved (key : String)
  | load (key : String)
  /-- `due` says that a save under the key had returned when the load began. -/
  | loaded (key : String) (due : Bool) (result : Option Bytes)
  deriving DecidableEq

def Event.key : Event → String
  | .save key _ | .saved key | .load key | .loaded key _ _ => key

structure State (ι : Type) where
  object : Int → Option Object
  /-- The objects that have a name. -/
  named : String → Option Int
  /-- Who holds `mutex_`. -/
  mutex : Option ι
  pc : ι → Pc
  /-- The latest event comes first. -/
  history : List Event

inductive Act (ι : Type) where
  /-- `saveExtraData`, `saveExtraBytes` -/
  | save (t : ι) (key : String) (data : Bytes)
  /-- `loadExtraData`, `loadExtraBytes` -/
  | load (t : ι) (key : String)
  /-- `place` is where the allocator puts an object, `stray` a byte that belongs to none. -/
  | go (t : ι) (place : Int) (stray : UInt8)

variable {ι : Type}

/-- The byte `i` from `p` on. -/
def byteAt (object : Int → Option Object) (p : Int) (i : Nat) (stray : UInt8) : UInt8 :=
  match object p with
  | some (.bytes content) => content[i]?.getD stray
  | _ => stray

/-- The `std::size_t` at `p`. Where the data is not there yet `p` is the slot itself. -/
def sizeAt (object : Int → Option Object) (p : Int) : Nat :=
  match object p with
  | some (.bytes content) => content.length
  | some (.slot offset) => (offset % 2 ^ 64).toNat
  | none => 0

section Step

variable [DecidableEq ι]

namespace State

def goto (s : State ι) (t : ι) (pc : Pc) : State ι :=
  { s with pc := Function.update s.pc t pc }

def put (s : State ι) (p : Int) (o : Option Object) : State ι :=
  { s with object := Function.update s.object p o }

/-- An object is constructed under a name. -/
def construct (s : State ι) (name : String) (p : Int) (o : Object) : State ι :=
  { s.put p (some o) with named := Function.update s.named name (some p) }

/-- The object that has the name is destroyed. -/
def destroy (s : State ι) (name : String) (p : Int) : State ι :=
  { s.put p none with named := Function.update s.named name none }

def note (s : State ι) (e : Event) : State ι := { s with history := e :: s.history }

/-- A call returns. -/
def finish (s : State ι) (t : ι) (e : Event) : State ι := (s.goto t .idle).note e

end State

/-- The load has the bytes. Under the mutex it has to give that up first. -/
def copied (c : Config) (s : State ι) (t : ι) (key : String) (due : Bool) (result : Bytes) :
    State ι :=
  if c.strategy = .mutexProtected ∧ (c.plain (cStr key)).isSome then
    s.goto t (.unlockLoaded key due (some result))
  else s.finish t (.loaded key due (some result))

def go (c : Config) (s : State ι) (t : ι) (place : Int) (stray : UInt8) : Option (State ι) :=
  match s.pc t with
  | .idle => none
  | .construct key data =>
      if s.object place = none then
        some ((s.put place (some (.bytes data))).goto t (.findOrConstruct key data place))
      else none
  | .findOrConstruct key data dataPtr =>
      match s.named (cStr key) with
      | some loc => some (s.goto t (.store key data loc dataPtr))
      | none =>
          if s.object place = none then
            some ((s.construct (cStr key) place (.slot 0)).goto t (.store key data place dataPtr))
          else none
  | .store key _ loc dataPtr =>
      some ((s.put loc (some (.slot (dataPtr - loc)))).finish t (.saved key))
  | .lockToSave key data =>
      if s.mutex = none then
        some { s.goto t (.findToSave key data) with mutex := some t }
      else none
  | .findToSave key data =>
      match s.named (cStr key), c.plain (cStr key) with
      -- `find_or_construct<ExtraData>`
      | some p, some _ => some (s.goto t (.fill key data p 0))
      | none, some sz =>
          if s.object place = none then
            some ((s.construct (cStr key) place (.bytes (List.replicate sz 0))).goto t
              (.fill key data place 0))
          else none
      | some p, none =>
          some (s.goto t (if sizeAt s.object p ≠ data.length then .destroy key data p
            else .fill key data p 0))
      | none, none => some (s.goto t (.constructNamed key data))
  | .destroy key data oldDataPtr =>
      some ((s.destroy (cStr key) oldDataPtr).goto t (.constructNamed key data))
  | .constructNamed key data =>
      if s.object place = none then
        some ((s.construct (cStr key) place (.bytes (List.replicate data.length 0))).goto t
          (.fill key data place 0))
      else none
  | .fill key data dataPtr i =>
      match data[i]? with
      | none => some (s.goto t (.unlockSaved key data))
      | some b =>
          match s.object dataPtr with
          | some (.bytes content) =>
              some ((s.put dataPtr (some (.bytes (content.set i b)))).goto t
                (.fill key data dataPtr (i + 1)))
          | _ => some (s.goto t (.fill key data dataPtr (i + 1)))
  | .unlockSaved key _ => some { s.finish t (.saved key) with mutex := none }
  | .findSlot key due =>
      match s.named (cStr key) with
      | some loc => some (s.goto t (.loadOffset key due loc))
      | none => some (s.finish t (.loaded key due none))
  | .loadOffset key due loc =>
      match s.object loc with
      | some (.slot offset) =>
          some (s.goto t (match c.plain (cStr key) with
            | some sz => .copy key due (loc + offset) sz []
            | none => .readSize key due (loc + offset)))
      | _ => none
  | .readSize key due dataPtr =>
      some (s.goto t (.copy key due dataPtr (sizeAt s.object dataPtr) []))
  | .copy key due dataPtr sz result =>
      if result.length < sz then
        some (s.goto t (.copy key due dataPtr sz
          (result ++ [byteAt s.object dataPtr result.length stray])))
      else some (copied c s t key due result)
  | .lockToLoad key due =>
      if s.mutex = none then
        some { s.goto t (.findToLoad key due) with mutex := some t }
      else none
  | .findToLoad key due =>
      some (s.goto t (match s.named (cStr key), c.plain (cStr key) with
        | none, _ => .unlockLoaded key due none
        | some p, some sz => .copy key due p sz []
        | some p, none => .unlockView key due p (sizeAt s.object p)))
  | .unlockLoaded key due result =>
      some { s.finish t (.loaded key due result) with mutex := none }
  | .unlockView key due dataPtr sz =>
      some { s.goto t (.copy key due dataPtr sz []) with mutex := none }

def step (c : Config) (s : State ι) : Act ι → Option (State ι)
  | .save t key data =>
      -- a value of a plain type has its size
      if s.pc t = .idle ∧ (c.plain (cStr key)).getD data.length = data.length then
        some ((s.note (.save key data)).goto t (match c.strategy with
          | .lockFreeAndWasteMemory => .construct key data
          | .mutexProtected => .lockToSave key data))
      else none
  | .load t key =>
      if s.pc t = .idle then
        some ((s.note (.load key)).goto t (match c.strategy with
          | .lockFreeAndWasteMemory => .findSlot key (.saved key ∈ s.history)
          | .mutexProtected => .lockToLoad key (.saved key ∈ s.history)))
      else none
  | .go t place stray => go c s t place stray

def machine (ι : Type) [DecidableEq ι] (c : Config) : Machine (State ι) (Act ι) where
  init := ⟨fun _ => none, fun _ => none, none, fun _ => .idle, []⟩
  step := step c

/-! ## Torn data -/

/-- What is true of a load that returns after the events `before`. -/
def Event.Sound (before : List Event) : Event → Prop
  | .loaded key due result =>
      (∀ data, result = some data → .save key data ∈ before) ∧ (due = true → result ≠ none)
  | _ => True

/-- A load returns what one save was given, and something if a save has returned before it. -/
def NeverTorn : List Event → Prop
  | [] => True
  | e :: before => e.Sound before ∧ NeverTorn before

/-! ## Where the strategies are right -/

/-- Where a load takes its bytes from. -/
def Pc.source : Pc → Option Int
  | .copy _ _ p _ _ => some p
  | .unlockView _ _ p _ => some p
  | _ => none

/-- The slot has been stored to, and what is overwritten or destroyed is not about to be
copied. -/
def Pc.Undisturbed (s : State ι) : Pc → Prop
  | .loadOffset _ _ loc => s.object loc ≠ some (.slot 0)
  | .fill _ data dataPtr i => i < data.length → ∀ u, (s.pc u).source ≠ some dataPtr
  | .destroy _ _ oldDataPtr => ∀ u, (s.pc u).source ≠ some oldDataPtr
  | _ => True

/-- **The condition.** No two keys that are used are the same up to their first NUL. A slot
that a load looks at has been stored to. Data that a load is about to copy is neither
overwritten nor destroyed. -/
def Orderly (s : State ι) : Act ι → Prop
  | .save _ key _ | .load _ key => ∀ e ∈ s.history, cStr e.key = cStr key → e.key = key
  | .go t _ _ => (s.pc t).Undisturbed s

end Step

/-! ## What is known of the calls -/

/-- A save under the name was given the data. -/
def Given (c : Config) (history : List Event) (name : String) (data : Bytes) : Prop :=
  (∃ key, cStr key = name ∧ .save key data ∈ history) ∧
    (c.plain name).getD data.length = data.length

/-- All that a save was given is at `p`. -/
def Stored (c : Config) (s : State ι) (name : String) (p : Int) : Prop :=
  ∃ data, s.object p = some (.bytes data) ∧ Given c s.history name data

/-- A load has copied the beginning of what a save was given, which is at `p`. -/
def Copied (c : Config) (s : State ι) (name : String) (p : Int) (sz : Nat) (result : Bytes) :
    Prop :=
  ∃ data, s.object p = some (.bytes data) ∧ Given c s.history name data ∧ data.length = sz ∧
    result <+: data

/-- How the call began. -/
def Pc.Told (c : Config) (history : List Event) : Pc → Prop
  | .idle => True
  | .construct key data | .findOrConstruct key data _ | .store key data _ _
  | .lockToSave key data | .findToSave key data | .destroy key data _
  | .constructNamed key data | .fill key data _ _ | .unlockSaved key data =>
      .save key data ∈ history ∧ (c.plain (cStr key)).getD data.length = data.length
  | .findSlot key due | .loadOffset key due _ | .readSize key due _ | .copy key due _ _ _
  | .lockToLoad key due | .findToLoad key due | .unlockLoaded key due _
  | .unlockView key due _ _ => .load key ∈ history ∧ (due = true → .saved key ∈ history)

/-- What holds of the calls, in either strategy. -/
structure Calls (c : Config) (pc : ι → Pc) (history : List Event) : Prop where
  told : ∀ t, (pc t).Told c history
  apart : ∀ e ∈ history, ∀ e' ∈ history, cStr e.key = cStr e'.key → e.key = e'.key
  neverTorn : NeverTorn history

variable {c : Config} {pc : ι → Pc} {history history' : List Event} {s s' : State ι} {t : ι}
  {key name : String} {data result : Bytes} {due : Bool} {p : Int} {sz : Nat}

theorem Given.mono (h : Given c history name data) (hh : history ⊆ history') :
    Given c history' name data :=
  ⟨h.1.imp fun _ hkey => ⟨hkey.1, hh hkey.2⟩, h.2⟩

theorem Stored.mono (h : Stored c s name p) (ho : s'.object p = s.object p)
    (hh : s.history ⊆ s'.history) : Stored c s' name p :=
  h.imp fun _ hdata => ⟨ho.trans hdata.1, hdata.2.mono hh⟩

theorem Copied.mono (h : Copied c s name p sz result) (ho : s'.object p = s.object p)
    (hh : s.history ⊆ s'.history) : Copied c s' name p sz result :=
  h.imp fun _ hdata => ⟨ho.trans hdata.1, hdata.2.1.mono hh, hdata.2.2⟩

theorem Stored.copied (h : Stored c s name p) :
    Copied c s name p (sizeAt s.object p) [] := by
  obtain ⟨data, hobject, hgiven⟩ := h
  exact ⟨data, hobject, hgiven, by rw [sizeAt, hobject], List.nil_prefix⟩

theorem Stored.copied_plain (h : Stored c s name p) (hname : c.plain name = some sz) :
    Copied c s name p sz [] := by
  obtain ⟨data, hobject, hgiven⟩ := h
  have hsize := hgiven.2
  rw [hname, Option.getD_some] at hsize
  exact ⟨data, hobject, hgiven, hsize.symm, List.nil_prefix⟩

/-- One more byte. -/
theorem Copied.next (h : Copied c s name p sz result) (hlt : result.length < sz)
    (stray : UInt8) :
    Copied c s name p sz (result ++ [byteAt s.object p result.length stray]) := by
  obtain ⟨data, hobject, hgiven, hsize, rest, hrest⟩ := h
  refine ⟨data, hobject, hgiven, hsize, ?_⟩
  cases rest with
  | nil =>
      have hlen := congrArg List.length hrest
      rw [List.append_nil] at hlen
      omega
  | cons b rest =>
      have hbyte : byteAt s.object p result.length stray = b := by
        rw [byteAt, hobject]
        simp [← hrest]
      exact ⟨rest, by rw [hbyte, ← hrest, List.append_assoc, List.singleton_append]⟩

/-- All bytes. -/
theorem Copied.given (h : Copied c s name p sz result) (hge : ¬ result.length < sz) :
    Given c s.history name result := by
  obtain ⟨data, -, hgiven, hsize, hpre⟩ := h
  have hle := hpre.length_le
  rwa [hpre.eq_of_length (by omega)]

theorem Pc.Told.mono {pc : Pc} (h : pc.Told c history) (hh : history ⊆ history') :
    pc.Told c history' := by
  cases pc with
  | idle => trivial
  | construct | findOrConstruct | store | lockToSave | findToSave | destroy | constructNamed
  | fill | unlockSaved => exact ⟨hh h.1, h.2⟩
  | findSlot | loadOffset | readSize | copy | lockToLoad | findToLoad | unlockLoaded
  | unlockView => exact ⟨hh h.1, fun hdue => hh (h.2 hdue)⟩

namespace Calls

variable [DecidableEq ι]

theorem move (h : Calls c pc history) {pc' : Pc} (htold : pc'.Told c history) :
    Calls c (Function.update pc t pc') history where
  told u := by
    by_cases hu : u = t
    · subst hu
      rwa [Function.update_self]
    · rw [Function.update_of_ne hu]
      exact h.told u
  apart := h.apart
  neverTorn := h.neverTorn

/-- A call begins, or returns. -/
theorem note (h : Calls c pc history) {pc' : Pc} {e : Event}
    (hkey : ∀ e' ∈ history, cStr e'.key = cStr e.key → e'.key = e.key)
    (hsound : e.Sound history) (htold : pc'.Told c (e :: history)) :
    Calls c (Function.update pc t pc') (e :: history) where
  told u := by
    by_cases hu : u = t
    · subst hu
      rwa [Function.update_self]
    · rw [Function.update_of_ne hu]
      exact (h.told u).mono (List.subset_cons_self _ _)
  apart := by
    intro e₁ h₁ e₂ h₂ heq
    rcases List.mem_cons.mp h₁ with hnew₁ | hold₁
    · subst hnew₁
      rcases List.mem_cons.mp h₂ with hnew₂ | hold₂
      · rw [hnew₂]
      · exact (hkey e₂ hold₂ heq.symm).symm
    · rcases List.mem_cons.mp h₂ with hnew₂ | hold₂
      · subst hnew₂
        exact hkey e₁ hold₁ heq
      · exact h.apart e₁ hold₁ e₂ hold₂ heq
  neverTorn := ⟨hsound, h.neverTorn⟩

theorem saved (h : Calls c pc history) (hsave : .save key data ∈ history) :
    Calls c (Function.update pc t .idle) (.saved key :: history) :=
  h.note (fun e he heq => h.apart e he (.save key data) hsave heq) trivial trivial

theorem loaded (h : Calls c pc history) {result : Option Bytes}
    (htold : .load key ∈ history ∧ (due = true → .saved key ∈ history))
    (hsome : ∀ data, result = some data → Given c history (cStr key) data)
    (hnone : result = none → .saved key ∉ history) :
    Calls c (Function.update pc t .idle) (.loaded key due result :: history) := by
  refine h.note (fun e he heq => h.apart e he (.load key) htold.1 heq)
    ⟨fun data hdata => ?_, ?_⟩ trivial
  · obtain ⟨⟨key', heq, hsave⟩, -⟩ := hsome data hdata
    -- the save was under a key with the same name
    obtain rfl : key' = key := h.apart _ hsave _ htold.1 heq
    exact hsave
  · intro hdue hresult
    exact hnone hresult (htold.2 hdue)

end Calls

end ExtraData
