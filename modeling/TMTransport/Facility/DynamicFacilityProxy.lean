import Mathlib.Data.Finset.Max
import TMTransport.Library.Framing
import TMTransport.Library.Machine

/-!
# A facility whose address changes

The TypeScript `DynamicFacilityProxy` has two streams of its own: requests are pushed into the one
and flow to whatever streams it is piped into, and the replies come by the other. `start` and
`changeAddress` each begin to open a stream pair to the address of that time. When an attempt has
succeeded, its pair is piped to the two. What `changeAddress` has begun unpipes the current pair
before; what `start` has begun does not.

So the proxy is wired to one pair as long as the attempt of `start` is the first to succeed, and
that pair is of the latest address if the latest attempt to succeed was begun last (`follows_iff`).
-/

namespace DynamicFacilityProxy

open Framing Interleave

inductive Kind where
  | start
  | changeAddress
  deriving DecidableEq

/-- A call of `facilityStream`, and the pair of streams that it gives. -/
structure Attempt where
  /-- Calls are counted. -/
  number : Nat
  kind : Kind
  /-- Read when the call is made. -/
  address : List Char
  deriving DecidableEq

structure Request (ι : Type) where
  /-- Requests are counted too. -/
  number : Nat
  id : ι
  data : Bytes

structure State (ι : Type) where
  /-- `currentParam.address`, which is `none` when undefined or null -/
  address : Option (List Char)
  calls : Nat
  pending : List Attempt
  facilityStreams : Option Attempt
  /-- The streams that `conversionStream_in` is piped into. -/
  pipes : List Attempt
  /-- The streams that are piped into `conversionStream_out`. -/
  replies : List Attempt
  /-- What `conversionStream_in` has not passed on. -/
  buffer : List (Request ι)
  handled : Nat
  /-- The requests that have been passed on, with the streams. -/
  sent : List (Request ι × Attempt)
  /-- The attempts that have succeeded, one after the other. -/
  opened : List Attempt

inductive Act (ι κ : Type) where
  | start
  | changeAddress (address : Option (List Char))
  | handle (id : ι) (key : κ)
  /-- `conversionStream_in` passes a request on. -/
  | flow
  /-- An attempt ends. -/
  | complete (a : Attempt) (opens : Bool)

variable {ι κ : Type}

/-- Neither undefined nor null nor empty. -/
def usable : Option (List Char) → Option (List Char)
  | some (c :: cs) => some (c :: cs)
  | _ => none

def State.attempt (s : State ι) (kind : Kind) (address : List Char) : State ι :=
  { s with calls := s.calls + 1, pending := s.pending ++ [⟨s.calls, kind, address⟩] }

def start (s : State ι) : State ι :=
  match usable s.address with
  | some address => s.attempt .start address
  | none => s

def changeAddress (s : State ι) (address : Option (List Char)) : State ι × Bool :=
  match usable address with
  | some a =>
    if some a = s.address then (s, false)
    else ({ s with address := some a }.attempt .changeAddress a, true)
  | none => (s, false)

def handle (encoder : κ → Bytes) (s : State ι) (id : ι) (key : κ) : State ι :=
  { s with
    buffer := s.buffer ++ [⟨s.handled, id, encoder key⟩]
    handled := s.handled + 1 }

def State.pipe (s : State ι) (a : Attempt) : State ι :=
  { s with pipes := s.pipes ++ [a], replies := s.replies ++ [a] }

def State.unpipe (s : State ι) : State ι :=
  match s.facilityStreams with
  | some a => { s with pipes := s.pipes.erase a, replies := s.replies.erase a }
  | none => s

/-- An attempt has succeeded. -/
def State.opens (s : State ι) (a : Attempt) : State ι :=
  { (match a.kind with
      | .start => s
      | .changeAddress => s.unpipe).pipe a with
    facilityStreams := some a
    opened := s.opened ++ [a] }

/-- An attempt that fails leaves a line in the log. -/
def complete (s : State ι) (a : Attempt) (opens : Bool) : State ι :=
  let s' := { s with pending := s.pending.erase a }
  if opens then s'.opens a else s'

def step (encoder : κ → Bytes) (s : State ι) : Act ι κ → Option (State ι)
  | .start => some (start s)
  | .changeAddress address => some (changeAddress s address).1
  | .handle id key => some (handle encoder s id key)
  | .flow =>
    match s.buffer, s.pipes with
    | r :: rs, a :: as =>
      some { s with buffer := rs, sent := s.sent ++ (a :: as).map fun b => (r, b) }
    | _, _ => none
  | .complete a opens => if a ∈ s.pending then some (complete s a opens) else none

/-- The proxy as it is constructed. -/
def machine (ι : Type) (encoder : κ → Bytes) (address : Option (List Char)) :
    Machine (State ι) (Act ι κ) where
  init :=
    { address := address
      calls := 0
      pending := []
      facilityStreams := none
      pipes := []
      replies := []
      buffer := []
      handled := 0
      sent := []
      opened := [] }
  step := step encoder

/-- Of the attempts that have succeeded, this was begun last. -/
def State.IsLatest (s : State ι) (a : Attempt) : Prop :=
  a ∈ s.opened ∧ ∀ b ∈ s.opened, b.number ≤ a.number

/-- The proxy follows its latest address. -/
structure Follows (s : State ι) : Prop where
  /-- There is one stream for the requests, to the last address that could be opened. -/
  wired : ∀ a, s.IsLatest a → s.pipes.map Attempt.address = [a.address]
  unwired : s.opened = [] → s.pipes = []
  /-- The replies are from that stream alone. -/
  replies : s.replies = s.pipes
  /-- No request has been sent to two streams. -/
  once : ∀ r ∈ s.sent, ∀ r' ∈ s.sent, r.1.number = r'.1.number → r.2 = r'.2

/-- The order in which attempts have succeeded. -/
structure InOrder (s : State ι) : Prop where
  /-- An attempt of `start` has succeeded before all others. -/
  starts : ∀ a ∈ s.opened.tail, a.kind = .changeAddress
  /-- The attempt that was the last to succeed is to the address of the one that was begun last. -/
  last : ∀ a b, s.opened.getLast? = some a → s.IsLatest b → a.address = b.address

/-! ## The invariant -/

structure Inv (s : State ι) : Prop where
  replies : s.replies = s.pipes
  current : s.facilityStreams = s.opened.getLast?
  piped : ∀ a, s.facilityStreams = some a → a ∈ s.pipes
  one : (∀ a ∈ s.opened.tail, a.kind = .changeAddress) → s.pipes = s.opened.getLast?.toList
  /-- A stream that the attempt of `start` has replaced stays for good. -/
  two : ¬ (∀ a ∈ s.opened.tail, a.kind = .changeAddress) → 2 ≤ s.pipes.length
  ahead : ∀ r ∈ s.buffer, r.number < s.handled
  nodup : (s.buffer.map Request.number).Nodup
  past : ∀ r ∈ s.sent, r.1.number < s.handled ∧ r.1.number ∉ s.buffer.map Request.number
  once : (∀ a ∈ s.opened.tail, a.kind = .changeAddress) →
    ∀ r ∈ s.sent, ∀ r' ∈ s.sent, r.1.number = r'.1.number → r.2 = r'.2

section Invariant

variable {encoder : κ → Bytes} {address : Option (List Char)} {s s' : State ι} {a : Attempt}

theorem Inv.init : Inv (machine ι encoder address).init where
  replies := rfl
  current := rfl
  piped := fun _ h => (nomatch h)
  one := fun _ => rfl
  two := fun h => absurd (fun _ ha => (nomatch ha)) h
  ahead := fun _ h => (nomatch h)
  nodup := List.nodup_nil
  past := fun _ h => (nomatch h)
  once := fun _ _ h => (nomatch h)

theorem mem_tail_concat {l : List Attempt} {b : Attempt} :
    b ∈ (l ++ [a]).tail ↔ b ∈ l.tail ∨ l ≠ [] ∧ b = a := by
  cases l with
  | nil => simp
  | cons c l => simp

/-- The attempts that have succeeded before are in order if they still are. -/
theorem tail_of_concat {l : List Attempt}
    (h : ∀ b ∈ (l ++ [a]).tail, b.kind = .changeAddress) :
    (∀ b ∈ l.tail, b.kind = .changeAddress) ∧ (l = [] ∨ a.kind = .changeAddress) := by
  refine ⟨fun b hb => h b (mem_tail_concat.mpr (.inl hb)), ?_⟩
  by_cases hl : l = []
  · exact .inl hl
  · exact .inr (h a (mem_tail_concat.mpr (.inr ⟨hl, rfl⟩)))

theorem Inv.opened_ne_nil (hi : Inv s) (h : s.opened ≠ []) :
    ∃ a, s.facilityStreams = some a ∧ s.opened.getLast? = some a ∧ a ∈ s.pipes := by
  have hlast := List.getLast?_eq_some_getLast h
  exact ⟨_, hi.current.trans hlast, hlast, hi.piped _ (hi.current.trans hlast)⟩

theorem Inv.unpipe_replies (hi : Inv s) : s.unpipe.replies = s.unpipe.pipes := by
  rw [State.unpipe]
  split
  · exact congrArg (List.erase · _) hi.replies
  · exact hi.replies

theorem opens_frame (a : Attempt) : (s.opens a).buffer = s.buffer ∧
    (s.opens a).handled = s.handled ∧ (s.opens a).sent = s.sent := by
  cases ha : a.kind with
  | start => simp only [State.opens, State.pipe, ha, and_self]
  | changeAddress =>
      simp only [State.opens, State.pipe, ha, State.unpipe]
      split
      · exact ⟨rfl, rfl, rfl⟩
      · exact ⟨rfl, rfl, rfl⟩

/-- The first stream is the only one, and a later one takes its place. -/
theorem Inv.opens_one (hi : Inv s)
    (h : ∀ b ∈ (s.opened ++ [a]).tail, b.kind = .changeAddress) : (s.opens a).pipes = [a] := by
  obtain ⟨h, hfirst⟩ := tail_of_concat h
  have hone := hi.one h
  have hcurrent := hi.current
  cases hlast : s.opened.getLast? with
  | none =>
      rw [hlast] at hone hcurrent
      cases ha : a.kind with
      | start => simp [State.opens, State.pipe, ha, hone]
      | changeAddress => simp [State.opens, State.pipe, State.unpipe, ha, hone, hcurrent]
  | some b =>
      rw [hlast] at hone hcurrent
      have ha : a.kind = .changeAddress := by
        refine hfirst.resolve_left fun hnil => ?_
        rw [hnil] at hlast
        cases hlast
      simp [State.opens, State.pipe, State.unpipe, ha, hone, hcurrent]

/-- There are never fewer streams than before. -/
theorem Inv.opens_two (hi : Inv s)
    (h : ¬ ∀ b ∈ (s.opened ++ [a]).tail, b.kind = .changeAddress) :
    2 ≤ (s.opens a).pipes.length := by
  cases ha : a.kind with
  | start =>
      simp only [State.opens, State.pipe, ha, List.length_append, List.length_singleton]
      have hne : s.opened ≠ [] := by
        intro hnil
        rw [hnil] at h
        exact h fun b hb => (nomatch hb)
      obtain ⟨b, -, -, hb⟩ := hi.opened_ne_nil hne
      have := List.length_pos_of_mem hb
      omega
  | changeAddress =>
      have hold : ¬ ∀ b ∈ s.opened.tail, b.kind = .changeAddress := by
        intro hall
        refine h fun b hb => ?_
        rcases mem_tail_concat.mp hb with hb | ⟨-, rfl⟩
        · exact hall b hb
        · exact ha
      have htwo := hi.two hold
      have hne : s.opened ≠ [] := by
        intro hnil
        rw [hnil] at hold
        exact hold fun b hb => (nomatch hb)
      obtain ⟨b, hb, -, hmem⟩ := hi.opened_ne_nil hne
      have hlength := List.length_erase_of_mem hmem
      simp only [State.opens, State.pipe, ha, State.unpipe, hb, List.length_append,
        List.length_singleton]
      omega

theorem Inv.opens (hi : Inv s) (a : Attempt) : Inv (s.opens a) := by
  have hlast : (s.opened ++ [a]).getLast? = some a := List.getLast?_concat
  obtain ⟨hbuffer, hhandled, hsent⟩ := opens_frame (s := s) a
  exact {
    replies := by
      cases ha : a.kind with
      | start => simp only [State.opens, State.pipe, ha, hi.replies]
      | changeAddress => simp only [State.opens, State.pipe, ha, hi.unpipe_replies]
    current := hlast.symm
    piped := fun b hb => by
      obtain rfl := Option.some.inj hb
      exact List.mem_append_right _ (List.mem_singleton_self _)
    one := fun h => by
      rw [hi.opens_one h]
      exact (congrArg Option.toList hlast).symm
    two := fun h => hi.opens_two h
    ahead := by
      rw [hbuffer, hhandled]
      exact hi.ahead
    nodup := by
      rw [hbuffer]
      exact hi.nodup
    past := by
      rw [hbuffer, hhandled, hsent]
      exact hi.past
    once := fun h => by
      rw [hsent]
      exact hi.once (tail_of_concat h).1 }

/-- What begins to open, or fails to, changes no pipe. -/
theorem Inv.congr (hi : Inv s) {c : Nat} {l : List Attempt} {x : Option (List Char)} :
    Inv { s with address := x, calls := c, pending := l } :=
  { hi with }

theorem Inv.start (hi : Inv s) : Inv (start s) := by
  rw [DynamicFacilityProxy.start]
  split
  · exact hi.congr
  · exact hi

theorem Inv.changeAddress (hi : Inv s) : Inv (changeAddress s address).1 := by
  rw [DynamicFacilityProxy.changeAddress]
  split
  · split
    · exact hi
    · exact hi.congr
  · exact hi

theorem Inv.complete (hi : Inv s) (a : Attempt) (opens : Bool) : Inv (complete s a opens) := by
  cases opens with
  | true => exact hi.congr.opens a
  | false => exact hi.congr

/-- A request that is new gets a number that is new. -/
theorem Inv.handle (hi : Inv s) (id : ι) (key : κ) : Inv (handle encoder s id key) :=
  { hi with
    ahead := fun r hr => by
      rcases List.mem_append.mp hr with hr | hr
      · exact Nat.lt_succ_of_lt (hi.ahead r hr)
      · rw [List.mem_singleton.mp hr]
        exact Nat.lt_succ_self _
    nodup := by
      simp only [DynamicFacilityProxy.handle, List.map_append, List.map_cons, List.map_nil]
      refine hi.nodup.append (List.nodup_singleton _) fun n hn hn' => ?_
      obtain ⟨r, hr, rfl⟩ := List.mem_map.mp hn
      exact (hi.ahead r hr).ne (List.mem_singleton.mp hn')
    past := fun r hr => by
      obtain ⟨hlt, hnot⟩ := hi.past r hr
      refine ⟨Nat.lt_succ_of_lt hlt, fun hmem => ?_⟩
      simp only [DynamicFacilityProxy.handle, List.map_append, List.map_cons, List.map_nil,
        List.mem_append, List.mem_singleton] at hmem
      rcases hmem with hmem | hmem
      · exact hnot hmem
      · exact hlt.ne hmem }

/-- A request is passed on once. -/
theorem Inv.flow (hi : Inv s) {r : Request ι} {rs : List (Request ι)}
    (hbuffer : s.buffer = r :: rs) :
    Inv { s with buffer := rs, sent := s.sent ++ s.pipes.map fun b => (r, b) } := by
  have hnodup := hi.nodup
  rw [hbuffer, List.map_cons, List.nodup_cons] at hnodup
  have hahead := hi.ahead
  rw [hbuffer] at hahead
  have hpast : ∀ x ∈ s.sent, x.1.number ≠ r.number ∧ x.1.number ∉ rs.map Request.number := by
    intro x hx
    have hnot := (hi.past x hx).2
    rw [hbuffer, List.map_cons, List.mem_cons, not_or] at hnot
    exact hnot
  exact { hi with
    ahead := fun x hx => hahead x (List.mem_cons_of_mem _ hx)
    nodup := hnodup.2
    past := fun x hx => by
      rcases List.mem_append.mp hx with hx | hx
      · exact ⟨(hi.past x hx).1, (hpast x hx).2⟩
      · obtain ⟨b, -, rfl⟩ := List.mem_map.mp hx
        exact ⟨hahead r List.mem_cons_self, hnodup.1⟩
    once := fun h x hx y hy hxy => by
      -- the streams that get this request are one
      have hone : ∀ b ∈ s.pipes, ∀ b' ∈ s.pipes, b = b' := by
        intro b hb b' hb'
        rw [hi.one h, Option.mem_toList] at hb hb'
        exact Option.some.inj (hb.symm.trans hb')
      rcases List.mem_append.mp hx with hx | hx <;> rcases List.mem_append.mp hy with hy | hy
      · exact hi.once h x hx y hy hxy
      · obtain ⟨b, -, rfl⟩ := List.mem_map.mp hy
        exact absurd hxy (hpast x hx).1
      · obtain ⟨b, -, rfl⟩ := List.mem_map.mp hx
        exact absurd hxy.symm (hpast y hy).1
      · obtain ⟨b, hb, rfl⟩ := List.mem_map.mp hx
        obtain ⟨b', hb', rfl⟩ := List.mem_map.mp hy
        exact hone b hb b' hb' }

theorem inv_step {c : Act ι κ} (hi : Inv s) (h : step encoder s c = some s') : Inv s' := by
  cases c with
  | start =>
      obtain rfl := Option.some.inj h
      exact hi.start
  | changeAddress address =>
      obtain rfl := Option.some.inj h
      exact hi.changeAddress
  | handle id key =>
      obtain rfl := Option.some.inj h
      exact hi.handle id key
  | flow =>
      simp only [step] at h
      split at h
      · next r rs a as hbuffer hpipes =>
        obtain rfl := Option.some.inj h
        rw [← hpipes]
        exact hi.flow hbuffer
      · cases h
  | complete a opens =>
      obtain ⟨-, rfl⟩ := of_guarded h
      exact hi.complete a opens

theorem exists_isLatest (h : s.opened ≠ []) : ∃ a, s.IsLatest a := by
  obtain ⟨b, hb⟩ := List.exists_mem_of_ne_nil _ h
  obtain ⟨a, ha, hmax⟩ := s.opened.toFinset.exists_max_image Attempt.number
    ⟨b, List.mem_toFinset.mpr hb⟩
  exact ⟨a, List.mem_toFinset.mp ha, fun c hc => hmax c (List.mem_toFinset.mpr hc)⟩

/--
**The proxy follows its latest address if attempts succeed in order.** Whatever has been called and
completed: requests go to one stream, to the last address that could be opened, replies are taken
from it, and no request has gone to two streams, exactly if no attempt of `start` has succeeded
after another, and the attempt that was the last to succeed is to the address of the latest one.
-/
theorem follows_iff
    (h : (machine (κ := κ) ι encoder address).Reach (fun _ _ => True) s) :
    Follows s ↔ InOrder s := by
  have hi : Inv s := h.invariant Inv.init fun _ _ _ hi _ hs => inv_step hi hs
  constructor
  · intro hf
    have hstarts : ∀ a ∈ s.opened.tail, a.kind = .changeAddress := by
      by_contra hnot
      have hne : s.opened ≠ [] := by
        intro hnil
        rw [hnil] at hnot
        exact hnot fun b hb => (nomatch hb)
      obtain ⟨a, ha⟩ := exists_isLatest hne
      have hlength := congrArg List.length (hf.wired a ha)
      have := hi.two hnot
      rw [List.length_map, List.length_singleton] at hlength
      omega
    refine ⟨hstarts, fun a b ha hb => ?_⟩
    have hwired := hf.wired b hb
    rw [hi.one hstarts, ha] at hwired
    exact List.singleton_inj.mp hwired
  · intro ho
    have hone := hi.one ho.starts
    refine ⟨fun b hb => ?_, fun hnil => ?_, hi.replies, hi.once ho.starts⟩
    · have hne := List.ne_nil_of_mem hb.1
      have hlast := List.getLast?_eq_some_getLast hne
      rw [hone, hlast]
      exact congrArg ([·]) (ho.last _ b hlast hb)
    · rw [hone, hnil]
      rfl

end Invariant

def first : Attempt := ⟨0, .start, ['a']⟩
def second : Attempt := ⟨1, .changeAddress, ['b']⟩
def third : Attempt := ⟨2, .changeAddress, ['c']⟩

/-- The second address cannot be opened. -/
def changeTwice : List (Act Nat UInt8) :=
  [.start, .handle 7 1, .changeAddress (some ['b']), .complete first true, .flow,
   .changeAddress (some ['c']), .complete third true, .complete second false, .handle 8 2, .flow]

theorem follows_changeTwice :
    let M := machine (κ := UInt8) Nat ([·]) (some ['a'])
    let s := M.exec M.init changeTwice
    s.pending = [] ∧ s.sent.map (·.2) = [first, third] ∧ Follows s := by
  refine ⟨rfl, rfl, (follows_iff (.exec .init (.of_forall (fun _ _ => trivial) _ _))).mpr ⟨?_, ?_⟩⟩
  · intro a ha
    rw [List.mem_singleton.mp ha]
    rfl
  · intro a b ha hb
    obtain rfl := Option.some.inj ha
    rcases List.mem_cons.mp hb.1 with rfl | h
    · exact absurd (hb.2 third (.tail _ (.head _))) (Nat.not_succ_le_zero 1)
    · rw [List.mem_singleton.mp h]
      rfl

/-- The address is changed while the first is being opened, and is opened before. -/
def changeWhileStarting : List (Act Nat UInt8) :=
  [.start, .changeAddress (some ['b']), .complete second true, .complete first true, .handle 7 1,
   .flow]

theorem not_follows_changeWhileStarting :
    ¬ ∀ s, (machine (κ := UInt8) Nat ([·]) (some ['a'])).Reach (fun _ _ => True) s →
      s.pending = [] → Follows s := by
  intro h
  have hf := h _ (Machine.Reach.init.exec (l := changeWhileStarting)
    (.of_forall (fun _ _ => trivial) _ _)) rfl
  -- the one request has gone to both servers
  have := hf.once _ (.head _) _ (.tail _ (.head _)) rfl
  cases this

end DynamicFacilityProxy
