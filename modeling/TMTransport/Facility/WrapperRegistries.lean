import Mathlib.Data.List.Basic
import Mathlib.Logic.Function.Basic
import TMTransport.Library.Machine

/-!
# The registries of the facility wrappers

The wrappers for JSON REST and for gRPC have a registry, from the ids of requests to the
callbacks, or to the reactors, that wait for the outputs. A request is registered and the
facility is triggered in one region of a mutex. The outputs of the facility take the same
mutex.

So a facility that answers before the trigger function returns, on the thread that calls
it, locks a mutex which that thread has locked. And what is registered is not taken out
when the trigger function throws.
-/

namespace WrapperRegistry

open Interleave

/-- `JsonRESTFacilityWrapper` and `GrpcServerFacilityWrapper` -/
inductive Wrapper where
  | jsonREST
  | grpc
  deriving DecidableEq

variable {ι β : Type}

inductive Event (ι β : Type) where
  | registered (request : Nat) (id : ι)
  /-- An output of the facility has got the mutex. -/
  | output (id : ι) (y : β)
  /-- The call of the reactor has ended. -/
  | ended (id : ι)

/-- Threads and requests are numbers. -/
structure State (ι β : Type) where
  /-- `cbMap_`, or `reactors_` -/
  registry : ι → Option Nat
  /-- Who has locked `mutex_` and called the trigger function, and with which id. -/
  mutex : Option (Nat × ι)
  /-- A thread has locked `mutex_` while it had it locked. -/
  stuck : Bool
  count : Nat
  issued : List ι
  /-- The ids of requests that were refused. -/
  refused : List ι
  /-- The request whose callback or reactor was called, and the output. -/
  calls : List (Nat × ι × β)
  history : List (Event ι β)

inductive Act (ι β : Type) where
  /-- `handleRequest` or `serviceFunc`, up to the call of the trigger function. -/
  | request (t : Nat) (id : ι)
  /-- The body cannot be read, or there is none and the type cannot do without. -/
  | refuse
  | triggerReturns (t : Nat)
  | triggerThrows (t : Nat)
  /-- `handleResponse` or `handleResp` -/
  | respond (t : Nat) (id : ι) (y : β)
  | endHandling (t : Nat) (id : ι)

section Step

variable [DecidableEq ι] (k : Wrapper) (s : State ι β)

def register (t : Nat) (id : ι) : State ι β :=
  { s with
    registry := Function.update s.registry id (some s.count)
    mutex := some (t, id)
    count := s.count + 1
    issued := id :: s.issued
    history := s.history ++ [.registered s.count id] }

/-- A callback goes with its first output. -/
def registryAfter (registry : ι → Option Nat) (id : ι) : ι → Option Nat :=
  match k with
  | .jsonREST => Function.update registry id none
  | .grpc => registry

def handleResponse (id : ι) (y : β) : State ι β :=
  match s.registry id with
  | none => { s with history := s.history ++ [.output id y] }
  | some r =>
    { s with
      registry := registryAfter k s.registry id
      calls := s.calls ++ [(r, id, y)]
      history := s.history ++ [.output id y] }

def endHandling (id : ι) : State ι β :=
  { s with
    registry := Function.update s.registry id none
    history := s.history ++ [.ended id] }

/-- A thread locks `mutex_`, and does something. -/
def locking (t : Nat) (s' : State ι β) : Option (State ι β) :=
  match s.mutex with
  | none => some s'
  | some (t', _) => if t = t' then some { s with stuck := true } else none

/-- One step. A new id has not been there before. -/
def step : Act ι β → Option (State ι β)
  | .request t id => if id ∉ s.issued ∧ s.stuck = false then locking s t (register s t id) else none
  | .refuse => if k = .jsonREST then some s else none
  | .triggerReturns t =>
    if s.mutex.map Prod.fst = some t ∧ s.stuck = false then some { s with mutex := none } else none
  | .triggerThrows t =>
    match s.mutex with
    | some (t', id) =>
      -- the entry stays
      if t' = t ∧ s.stuck = false then
        some { s with mutex := none, refused := s.refused ++ [id] }
      else none
    | none => none
  | .respond t id y => if s.stuck = false then locking s t (handleResponse k s id y) else none
  | .endHandling t id =>
    if k = .grpc ∧ s.registry id ≠ none ∧ s.stuck = false then
      locking s t (endHandling s id)
    else none

def machine : Machine (State ι β) (Act ι β) where
  init := ⟨fun _ => none, none, false, 0, [], [], [], []⟩
  step := step k

end Step

/--
No thread comes back to the wrapper before its trigger function returns, and none of these
throws.
-/
def Orderly (s : State ι β) : Act ι β → Prop
  | .request t _ | .respond t _ _ | .endHandling t _ => s.mutex.map Prod.fst ≠ some t
  | .triggerThrows _ => False
  | _ => True

section Promise

variable [DecidableEq ι]

def outputsFor (id : ι) (h : List (Event ι β)) : List β :=
  h.filterMap fun e =>
    match e with
    | .output id' y => if id' = id then some y else none
    | _ => none

def Event.ends (id : ι) : Event ι β → Bool
  | .ended id' => id' = id
  | _ => false

/--
What a request should get of all that has happened since it was registered: the first output, or
those before the call has ended.
-/
def due (k : Wrapper) (id : ι) (since : List (Event ι β)) : List β :=
  match k with
  | .jsonREST => (outputsFor id since).take 1
  | .grpc => outputsFor id (since.takeWhile fun e => ! e.ends id)

structure Served (k : Wrapper) (s : State ι β) : Prop where
  own : ∀ c ∈ s.calls, .registered c.1 c.2.1 ∈ s.history
  served : ∀ request id before since,
    s.history = before ++ .registered request id :: since →
      (s.calls.filter fun c => c.1 = request).map Prod.snd = (due k id since).map (id, ·)
  refused : ∀ id ∈ s.refused, s.registry id = none
  notStuck : s.stuck = false

end Promise

variable [DecidableEq ι] {k : Wrapper} {s s' s₁ : State ι β} {t request r : Nat} {id id' : ι}
  {y : β} {e : Event ι β} {since before : List (Event ι β)}

/-! ## What is due -/

/-- The entry is still there. -/
def IsOpen (k : Wrapper) (id : ι) (since : List (Event ι β)) : Prop :=
  match k with
  | .jsonREST => outputsFor id since = []
  | .grpc => ∀ e ∈ since, e.ends id = false

theorem outputsFor_append (id : ι) (h h' : List (Event ι β)) :
    outputsFor id (h ++ h') = outputsFor id h ++ outputsFor id h' :=
  List.filterMap_append

theorem takeWhile_of_open (h : IsOpen .grpc id since) (l : List (Event ι β)) :
    (since ++ l).takeWhile (fun e => ! e.ends id) = since ++ l.takeWhile fun e => ! e.ends id :=
  List.takeWhile_append_of_pos fun e he => by rw [h e he]; rfl

theorem takeWhile_of_not_open (h : ¬ IsOpen .grpc id since) (l : List (Event ι β)) :
    (since ++ l).takeWhile (fun e => ! e.ends id) = since.takeWhile fun e => ! e.ends id := by
  rw [List.takeWhile_append]
  refine if_neg fun hlength => h fun e he => ?_
  rw [← (List.takeWhile_prefix fun e : Event ι β => ! e.ends id).eq_of_length hlength] at he
  rw [← Bool.not_eq_true']
  exact List.all_eq_true.mp List.all_takeWhile e he

/-- An event that is no output for the id and does not end its call makes no difference. -/
theorem due_append_silent (hout : outputsFor id [e] = []) (hend : e.ends id = false) :
    due k id (since ++ [e]) = due k id since ∧
      (IsOpen k id (since ++ [e]) ↔ IsOpen k id since) := by
  have hall : outputsFor id (since ++ [e]) = outputsFor id since := by
    rw [outputsFor_append, hout, List.append_nil]
  cases k with
  | jsonREST => exact ⟨congrArg (List.take 1) hall, by rw [IsOpen, IsOpen, hall]⟩
  | grpc =>
      constructor
      · by_cases ho : IsOpen .grpc id since
        · have hlast : [e].takeWhile (fun e => ! e.ends id) = [e] := by
            rw [List.takeWhile_cons, hend]
            rfl
          have hsince := takeWhile_of_open ho []
          rw [List.append_nil, List.takeWhile_nil, List.append_nil] at hsince
          rw [due, due, takeWhile_of_open ho, hlast, hall, hsince]
        · rw [due, due, takeWhile_of_not_open ho]
      · rw [IsOpen, List.forall_mem_append, List.forall_mem_singleton, and_iff_left hend]
        rfl

/-- An output is due if the entry is still there. -/
theorem due_append_output (id : ι) (y : β) (since : List (Event ι β)) :
    (IsOpen k id since → due k id (since ++ [.output id y]) = due k id since ++ [y]) ∧
      (¬ IsOpen k id since → due k id (since ++ [.output id y]) = due k id since) := by
  have hlast : outputsFor id [Event.output id y] = [y] := by simp [outputsFor]
  cases k with
  | jsonREST =>
      rw [due, due, outputsFor_append, hlast, IsOpen]
      refine ⟨fun ho => ?_, fun ho => ?_⟩
      · rw [ho]
        rfl
      · obtain ⟨z, rest, hz⟩ := List.exists_cons_of_ne_nil ho
        rw [hz]
        rfl
  | grpc =>
      refine ⟨fun ho => ?_, fun ho => ?_⟩
      · have hsince := takeWhile_of_open ho []
        rw [List.append_nil, List.takeWhile_nil, List.append_nil] at hsince
        have hend : [Event.output id y].takeWhile (fun e => ! e.ends id) =
          [Event.output id y] := rfl
        rw [due, due, takeWhile_of_open ho, hsince, hend, outputsFor_append, hlast]
      · rw [due, due, takeWhile_of_not_open ho]

theorem isOpen_append_output (k : Wrapper) (id : ι) (y : β) (since : List (Event ι β)) :
    IsOpen k id (since ++ [.output id y]) ↔ k = .grpc ∧ IsOpen k id since := by
  cases k with
  | jsonREST =>
      refine iff_of_false (fun h => ?_) fun h => nomatch h.1
      rw [IsOpen, outputsFor_append] at h
      simp [outputsFor] at h
  | grpc =>
      have hend : (Event.output id y).ends id = false := rfl
      rw [IsOpen, List.forall_mem_append, List.forall_mem_singleton, and_iff_left hend,
        and_iff_right rfl]
      rfl

theorem due_append_ended (id : ι) (since : List (Event ι β)) :
    due .grpc id (since ++ [.ended id]) = due .grpc id since := by
  by_cases ho : IsOpen .grpc id since
  · have hsince := takeWhile_of_open ho []
    have hlast : [(.ended id : Event ι β)].takeWhile (fun e => ! e.ends id) = [] := by
      simp [Event.ends]
    rw [due, due, takeWhile_of_open ho, hlast, ← List.takeWhile_nil, ← hsince, List.append_nil]
  · rw [due, due, takeWhile_of_not_open ho]

theorem not_isOpen_append_ended (id : ι) (since : List (Event ι β)) :
    ¬ IsOpen .grpc id (since ++ [.ended id]) := by
  intro h
  have := h (.ended id) (List.mem_append_right _ List.mem_cons_self)
  simp [Event.ends] at this

/-! ## Orderly runs -/

/-- The last event is that of the registration, or comes since. -/
theorem split_concat {γ : Type} {h before since : List γ} {e x : γ}
    (hs : h ++ [e] = before ++ x :: since) :
    (since = [] ∧ e = x ∧ before = h) ∨ ∃ l, since = l ++ [e] ∧ h = before ++ x :: l := by
  rcases List.eq_nil_or_concat since with rfl | ⟨l, z, rfl⟩
  · obtain ⟨rfl, hx⟩ := List.append_inj' hs rfl
    exact .inl ⟨rfl, (List.cons.inj hx).1, rfl⟩
  · rw [List.concat_eq_append, ← List.cons_append, ← List.append_assoc] at hs
    obtain ⟨rfl, hz⟩ := List.append_inj' hs rfl
    obtain ⟨rfl, -⟩ := List.cons.inj hz
    exact .inr ⟨l, List.concat_eq_append, rfl⟩

structure Inv (k : Wrapper) (s : State ι β) : Prop where
  lt : ∀ r id, .registered r id ∈ s.history → r < s.count ∧ id ∈ s.issued
  sameRequest : ∀ r r' id, .registered r id ∈ s.history → .registered r' id ∈ s.history → r = r'
  sameID : ∀ r id id', .registered r id ∈ s.history → .registered r id' ∈ s.history → id = id'
  registry : ∀ r id, s.registry id = some r → .registered r id ∈ s.history
  isOpen : ∀ r id before since, s.history = before ++ .registered r id :: since →
    (s.registry id = some r ↔ IsOpen k id since)
  own : ∀ c ∈ s.calls, .registered c.1 c.2.1 ∈ s.history
  served : ∀ r id before since, s.history = before ++ .registered r id :: since →
    (s.calls.filter fun c => c.1 = r).map Prod.snd = (due k id since).map (id, ·)
  refused : s.refused = []
  notStuck : s.stuck = false

omit [DecidableEq ι] in
theorem mem_of_split {l : List (Event ι β)} (h : l = before ++ .registered r id :: since) :
    .registered r id ∈ l := by
  rw [h]
  exact List.mem_append_right _ List.mem_cons_self

theorem Inv.register (h : Inv k s) (t : Nat) (hid : id ∉ s.issued) : Inv k (register s t id) := by
  have hmem : ∀ {r id'}, Event.registered r id' ∈ s.history ++ [.registered s.count id] →
      Event.registered r id' ∈ s.history ∨ (r = s.count ∧ id' = id) := fun hr => by
    rcases List.mem_append.mp hr with hr | hr
    · exact .inl hr
    · exact .inr (Event.registered.inj (List.mem_singleton.mp hr))
  have hold : ∀ {r id'}, Event.registered r id' ∈ s.history → r ≠ s.count ∧ id' ≠ id :=
    fun hr => ⟨Nat.ne_of_lt (h.lt _ _ hr).1, fun he => hid (he ▸ (h.lt _ _ hr).2)⟩
  have hsilent : ∀ {id'} (since : List (Event ι β)), id' ≠ id →
      due k id' (since ++ [.registered s.count id]) = due k id' since ∧
        (IsOpen k id' (since ++ [.registered s.count id]) ↔ IsOpen k id' since) :=
    fun since _ => due_append_silent rfl rfl
  -- the number and the id of the new request are those of no other
  refine ⟨fun r id' hr => ?_, fun r r' id' hr hr' => ?_, fun r id₁ id₂ hr hr' => ?_,
    fun r id' hr => ?_, fun r id' before since hs => ?_, fun c hc => ?_,
    fun r id' before since hs => ?_, h.refused, h.notStuck⟩
  · rcases hmem hr with hr | ⟨rfl, rfl⟩
    · exact ⟨Nat.lt_succ_of_lt (h.lt r id' hr).1, List.mem_cons_of_mem _ (h.lt r id' hr).2⟩
    · exact ⟨Nat.lt_succ_self _, List.mem_cons_self⟩
  · rcases hmem hr with h₁ | ⟨hr₁, hid₁⟩
    · rcases hmem hr' with h₂ | ⟨-, hid₂⟩
      · exact h.sameRequest r r' id' h₁ h₂
      · exact absurd hid₂ (hold h₁).2
    · rcases hmem hr' with h₂ | ⟨hr₂, -⟩
      · exact absurd hid₁ (hold h₂).2
      · rw [hr₁, hr₂]
  · rcases hmem hr with h₁ | ⟨hr₁, hid₁⟩
    · rcases hmem hr' with h₂ | ⟨hr₂, -⟩
      · exact h.sameID r id₁ id₂ h₁ h₂
      · exact absurd hr₂ (hold h₁).1
    · rcases hmem hr' with h₂ | ⟨-, hid₂⟩
      · exact absurd hr₁ (hold h₂).1
      · rw [hid₁, hid₂]
  · by_cases he : id' = id
    · subst he
      obtain rfl : s.count = r := by simpa [WrapperRegistry.register] using hr
      exact List.mem_append_right _ List.mem_cons_self
    · have hr : s.registry id' = some r := by simpa [WrapperRegistry.register, he] using hr
      exact List.mem_append_left _ (h.registry r id' hr)
  · rcases split_concat hs with ⟨rfl, he, -⟩ | ⟨l, rfl, hl⟩
    · obtain ⟨rfl, rfl⟩ := Event.registered.inj he
      refine iff_of_true (Function.update_self _ _ _) ?_
      cases k with
      | jsonREST => rfl
      | grpc => exact fun _ hmem => nomatch hmem
    · have hne := (hold (mem_of_split hl)).2
      have hsame : (WrapperRegistry.register s t id).registry id' = s.registry id' :=
        Function.update_of_ne hne _ _
      rw [hsame, (hsilent l hne).2]
      exact h.isOpen r id' before l hl
  · exact List.mem_append_left _ (h.own c hc)
  · rcases split_concat hs with ⟨rfl, he, -⟩ | ⟨l, rfl, hl⟩
    · obtain ⟨rfl, rfl⟩ := Event.registered.inj he
      -- nobody has been called for a request that is new
      have hnone : (s.calls.filter fun c => c.1 = s.count) = [] :=
        List.filter_eq_nil_iff.mpr fun c hc hcount =>
          (hold (h.own c hc)).1 (of_decide_eq_true hcount)
      show (s.calls.filter fun c => c.1 = s.count).map Prod.snd = _
      rw [hnone]
      cases k <;> rfl
    · rw [(hsilent l (hold (mem_of_split hl)).2).1]
      exact h.served r id' before l hl

/-- An event that registers nothing leaves what is registered as it is. -/
theorem Inv.append (h : Inv k s) (he : ∀ r id, e ≠ .registered r id)
    {registry : ι → Option Nat} {calls : List (Nat × ι × β)}
    (hregistry : ∀ r id, registry id = some r → s.registry id = some r)
    (hown : ∀ c ∈ calls, c ∈ s.calls ∨ s.registry c.2.1 = some c.1)
    (heach : ∀ r id before since, s.history = before ++ .registered r id :: since →
      (registry id = some r ↔ IsOpen k id (since ++ [e])) ∧
      (calls.filter fun c => c.1 = r).map Prod.snd = (due k id (since ++ [e])).map (id, ·)) :
    Inv k { s with registry := registry, calls := calls, history := s.history ++ [e] } := by
  have hmem : ∀ {r id}, .registered r id ∈ s.history ++ [e] → .registered r id ∈ s.history :=
    fun hr => (List.mem_append.mp hr).resolve_right fun hr =>
      he _ _ (List.mem_singleton.mp hr).symm
  have hsplit : ∀ {r id before since}, s.history ++ [e] = before ++ .registered r id :: since →
      ∃ l, since = l ++ [e] ∧ s.history = before ++ .registered r id :: l :=
    fun hs => (split_concat hs).resolve_left fun hn => he _ _ hn.2.1
  refine ⟨fun r id hr => h.lt r id (hmem hr), fun r r' id hr hr' => ?_, fun r id id' hr hr' => ?_,
    fun r id hr => ?_, fun r id before since hs => ?_, fun c hc => ?_,
    fun r id before since hs => ?_, h.refused, h.notStuck⟩
  · exact h.sameRequest r r' id (hmem hr) (hmem hr')
  · exact h.sameID r id id' (hmem hr) (hmem hr')
  · exact List.mem_append_left _ (h.registry r id (hregistry r id hr))
  · obtain ⟨l, rfl, hl⟩ := hsplit hs
    exact (heach r id before l hl).1
  · refine List.mem_append_left _ ?_
    rcases hown c hc with hc | hc
    · exact h.own c hc
    · exact h.registry c.1 c.2.1 hc
  · obtain ⟨l, rfl, hl⟩ := hsplit hs
    exact (heach r id before l hl).2

theorem handleResponse_of_none (h : s.registry id = none) :
    handleResponse k s id y = { s with history := s.history ++ [.output id y] } := by
  unfold handleResponse
  rw [h]

theorem handleResponse_of_some (h : s.registry id = some r) :
    handleResponse k s id y = { s with
      registry := registryAfter k s.registry id
      calls := s.calls ++ [(r, id, y)]
      history := s.history ++ [.output id y] } := by
  unfold handleResponse
  rw [h]

theorem registryAfter_of_ne {registry : ι → Option Nat} (h : id' ≠ id) :
    registryAfter k registry id id' = registry id' := by
  cases k with
  | jsonREST => exact Function.update_of_ne h _ _
  | grpc => rfl

theorem registryAfter_self {registry : ι → Option Nat} :
    registryAfter k registry id id = some r ↔ k = .grpc ∧ registry id = some r := by
  cases k with
  | jsonREST =>
      rw [registryAfter, Function.update_self]
      exact iff_of_false nofun fun h => nomatch h.1
  | grpc => exact (and_iff_right rfl).symm

theorem Inv.handleResponse (h : Inv k s) (id : ι) (y : β) : Inv k (handleResponse k s id y) := by
  have hother : ∀ {id'} (since : List (Event ι β)), id' ≠ id →
      due k id' (since ++ [.output id y]) = due k id' since ∧
        (IsOpen k id' (since ++ [.output id y]) ↔ IsOpen k id' since) := fun since hne => by
    refine due_append_silent ?_ rfl
    simp [outputsFor, Ne.symm hne]
  cases hid : s.registry id with
  | none =>
      rw [handleResponse_of_none hid]
      refine h.append (e := .output id y) (fun _ _ => nofun) (fun _ _ hr => hr)
        (fun c hc => .inl hc) fun r id' before since hs => ?_
      -- a request with this id has had its output, or its call has ended
      by_cases he : id' = id
      · subst he
        have hclosed : ¬ IsOpen k id' since := fun ho => by
          rw [(h.isOpen r id' before since hs).mpr ho] at hid
          cases hid
        rw [(due_append_output id' y since).2 hclosed, isOpen_append_output, hid]
        exact ⟨iff_of_false nofun fun ho => hclosed ho.2, h.served r id' before since hs⟩
      · rw [(hother since he).1, (hother since he).2]
        exact ⟨h.isOpen r id' before since hs, h.served r id' before since hs⟩
  | some r =>
      have hreg := h.registry r id hid
      rw [handleResponse_of_some hid]
      refine h.append (e := .output id y) (fun _ _ => nofun) (fun r' id' hr => ?_) (fun c hc => ?_)
        fun r' id' before since hs => ?_
      · by_cases he : id' = id
        · rw [he] at hr ⊢
          exact (registryAfter_self.mp hr).2
        · rwa [registryAfter_of_ne he] at hr
      · rcases List.mem_append.mp hc with hc | hc
        · exact .inl hc
        · rw [List.mem_singleton.mp hc]
          exact .inr hid
      · -- the output goes to the one request with this id
        by_cases he : id' = id
        · subst he
          obtain rfl := h.sameRequest r r' id' hreg (mem_of_split hs)
          have ho : IsOpen k id' since := (h.isOpen r id' before since hs).mp hid
          rw [(due_append_output id' y since).1 ho, isOpen_append_output, List.filter_append,
            List.map_append, List.map_append, h.served r id' before since hs]
          refine ⟨registryAfter_self.trans (and_congr_right fun _ => iff_of_true hid ho), ?_⟩
          simp
        · have hr' : r' ≠ r := fun hr' => he (h.sameID r id' id (hr' ▸ mem_of_split hs) hreg)
          have hfilter : ([(r, id, y)].filter fun c => c.1 = r') = [] := by
            simp [Ne.symm hr']
          rw [(hother since he).1, (hother since he).2, registryAfter_of_ne he,
            List.filter_append, hfilter, List.append_nil]
          exact ⟨h.isOpen r' id' before since hs, h.served r' id' before since hs⟩

theorem Inv.endHandling (h : Inv .grpc s) (id : ι) : Inv .grpc (endHandling s id) := by
  refine h.append (e := .ended id) (fun _ _ => nofun) (fun r' id' hr => ?_) (fun c hc => .inl hc)
    fun r' id' before since hs => ?_
  · by_cases he : id' = id
    · rw [he, Function.update_self] at hr
      cases hr
    · rwa [Function.update_of_ne he] at hr
  · by_cases he : id' = id
    · subst he
      rw [due_append_ended, Function.update_self]
      exact ⟨iff_of_false nofun (not_isOpen_append_ended id' since),
        h.served r' id' before since hs⟩
    · have hend : (Event.ended id : Event ι β).ends id' = false :=
        decide_eq_false (Ne.symm he)
      have hsilent : due .grpc id' (since ++ [.ended id]) = due .grpc id' since ∧
          (IsOpen .grpc id' (since ++ [.ended id]) ↔ IsOpen .grpc id' since) :=
        due_append_silent rfl hend
      rw [hsilent.1, hsilent.2, Function.update_of_ne he]
      exact ⟨h.isOpen r' id' before since hs, h.served r' id' before since hs⟩

theorem inv_init (k : Wrapper) : Inv k (machine k : Machine (State ι β) (Act ι β)).init := by
  have hnone : ∀ {before since : List (Event ι β)} {r id},
      ([] : List (Event ι β)) ≠ before ++ .registered r id :: since := fun h => by
    have := List.append_eq_nil_iff.mp h.symm
    cases this.2
  exact ⟨fun _ _ h => (nomatch h), fun _ _ _ h => (nomatch h), fun _ _ _ h => (nomatch h),
    fun _ _ h => (nomatch h), fun _ _ _ _ h => absurd h hnone, fun _ h => (nomatch h),
    fun _ _ _ _ h => absurd h hnone, rfl, rfl⟩

omit [DecidableEq ι] in
/-- A thread that has not locked the mutex gets it, or waits. -/
theorem eq_of_locking (h : locking s t s' = some s₁) (ht : s.mutex.map Prod.fst ≠ some t) :
    s' = s₁ := by
  unfold locking at h
  split at h
  · exact Option.some.inj h
  · next t' id hm =>
    obtain ⟨heq, -⟩ := of_guarded h
    rw [hm, heq] at ht
    exact absurd rfl ht

theorem inv_step {a : Act ι β} (h : Inv k s) (horderly : Orderly s a) (hs : step k s a = some s') :
    Inv k s' := by
  cases a with
  | request t id =>
      obtain ⟨hid, hs⟩ := Option.ite_none_right_eq_some.mp hs
      rw [← eq_of_locking hs horderly]
      exact h.register t hid.1
  | refuse =>
      obtain ⟨-, rfl⟩ := of_guarded hs
      exact h
  | triggerReturns t =>
      obtain ⟨-, rfl⟩ := of_guarded hs
      exact { h with }
  | triggerThrows t => exact horderly.elim
  | respond t id y =>
      obtain ⟨-, hs⟩ := Option.ite_none_right_eq_some.mp hs
      rw [← eq_of_locking hs horderly]
      exact h.handleResponse id y
  | endHandling t id =>
      obtain ⟨⟨rfl, -⟩, hlock⟩ := Option.ite_none_right_eq_some.mp hs
      rw [← eq_of_locking hlock horderly]
      exact h.endHandling id

/--
**Requests are served** in every run in which no thread comes back to the wrapper before its trigger
function returns, and none of these throws.
-/
theorem served_of_orderly (h : (machine k).Reach Orderly s) : Served k s := by
  have hinv : Inv k s := h.invariant (inv_init k) fun _ _ _ hi ho hs => inv_step hi ho hs
  refine ⟨hinv.own, hinv.served, ?_, hinv.notStuck⟩
  rw [hinv.refused]
  exact fun _ hmem => nomatch hmem

/-- The answer comes on another thread, and another one after it. -/
def answered : List (Act Nat Char) :=
  [.request 0 7, .triggerReturns 0, .respond 1 7 'a', .respond 1 7 'b']

theorem served_answered :
    let s := (machine .jsonREST).exec (machine .jsonREST).init answered
    let s' := (machine .grpc).exec (machine .grpc).init answered
    (s.calls = [(0, 7, 'a')] ∧ Served .jsonREST s) ∧
      s'.calls = [(0, 7, 'a'), (0, 7, 'b')] ∧ Served .grpc s' := by
  refine ⟨⟨rfl, served_of_orderly (.exec .init ?_)⟩, rfl, served_of_orderly (.exec .init ?_)⟩ <;>
    exact ⟨nofun, trivial, nofun, nofun, trivial⟩

/-- The answer comes on the thread that is calling the trigger function. -/
def answeredAtOnce : List (Act Nat Char) := [.request 0 7, .respond 0 7 'a']

theorem not_served_atOnce :
    (¬ ∀ s : State Nat Char, (machine .jsonREST).Reach (fun _ _ => True) s → Served .jsonREST s) ∧
      ¬ ∀ s : State Nat Char, (machine .grpc).Reach (fun _ _ => True) s → Served .grpc s := by
  have hnot : ∀ k : Wrapper,
      ¬ ∀ s : State Nat Char, (machine k).Reach (fun _ _ => True) s → Served k s := by
    intro k h
    have hr := (h ((machine k).exec (machine k).init answeredAtOnce)
      (Machine.Reach.init.exec (.of_forall (fun _ _ => trivial) _ _))).notStuck
    cases k <;> cases hr
  exact ⟨hnot .jsonREST, hnot .grpc⟩

end WrapperRegistry
