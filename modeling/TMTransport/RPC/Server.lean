import TMTransport.Library.Codec
import TMTransport.Library.Machine
import TMTransport.RPC.Wire

/-!
# The RPC server connection

The loop that receives the requests notes where the replies to an id go, and then
hands the request to the callback, unless the hook rejects it. `sendReply` looks the
id up, and takes the entry out if the reply is the final one. It publishes the reply
when it has let go of the lock, so another thread's reply can come in between.

RabbitMQ and Redis have the same code for this, up to the decoding of a request
(`RabbitMQ.request`, `Redis.request`). Both pass the queue or topic on as a C string.

`requests`, `pending` and what follows it in the state are not in the code. They say
what the replies should refer to: a request is pending, from its arrival to its final
reply, if it will be accepted and no other request with its id is.
-/

namespace RPCServer

open Interleave RPC

/-- A reply that has been looked up, and not been published yet. -/
structure Taken where
  replyQueue : String
  isFinal : Bool
  data : ByteDataWithID
  /-- The request that was pending for the id. -/
  request : Option Nat

structure Sent where
  destination : String
  isFinal : Bool
  data : ByteDataWithID
  request : Option Nat
  deriving DecidableEq

structure State (θ : Type) where
  /-- `replyQueueMap_`, or `replyTopicMap_` -/
  replyMap : String → Option String
  /-- The request that has been noted, and not been handed over; `none` if it is rejected. -/
  handling : Option (Nat × Option ByteDataWithID)
  taken : θ → Option Taken
  /-- The latest one comes first. -/
  sent : List Sent
  /-- All requests, in the order of their arrival. -/
  requests : List Request
  pending : String → Option Nat
  handed : List (Nat × ByteDataWithID)
  /-- The requests whose final reply has been looked up. -/
  answered : List Nat

inductive Act (θ μ : Type) where
  /-- A request comes in; `hooked` is what the server's hook will make of it. -/
  | receive (m : μ) (hooked : Option String)
  /-- The hook and the callback. -/
  | handle
  | sendReply (t : θ) (isFinal : Bool) (data : ByteDataWithID)
  | publish (t : θ)

section Step

variable {θ μ : Type}

/-- The request is noted. -/
def receive (hasHook : Bool) (s : State θ) (r : Request) (hooked : Option String) : State θ :=
  let content := received hasHook r.data hooked
  { s with
    replyMap := Function.update s.replyMap r.data.id (some r.replyTo)
    handling := some (s.requests.length, content.map fun c => ⟨r.data.id, c⟩)
    requests := s.requests ++ [r]
    pending :=
      if content.isSome && (s.pending r.data.id).isNone then
        Function.update s.pending r.data.id (some s.requests.length)
      else s.pending }

variable [DecidableEq θ]

/-- `sendReply`, as long as it has the lock. -/
def take (s : State θ) (t : θ) (isFinal : Bool) (data : ByteDataWithID) : State θ :=
  match s.replyMap data.id with
  | none => s
  | some replyQueue =>
    let s := { s with
      taken := Function.update s.taken t (some ⟨replyQueue, isFinal, data, s.pending data.id⟩) }
    if isFinal then
      { s with
        replyMap := Function.update s.replyMap data.id none
        pending := Function.update s.pending data.id none
        answered := (s.pending data.id).toList ++ s.answered }
    else s

variable (hasHook : Bool) (wire : μ → Request)

def step (s : State θ) : Act θ μ → Option (State θ)
  | .receive m hooked =>
    match s.handling with
    | none => some (receive hasHook s (wire m) hooked)
    | some _ => none
  | .handle =>
    match s.handling with
    | none => none
    | some (i, accepted) => some { s with
        handling := none
        handed := (accepted.map fun data => (i, data)).toList ++ s.handed }
  | .sendReply t isFinal data =>
    match s.taken t with
    | none => some (take s t isFinal data)
    | some _ => none
  | .publish t =>
    match s.taken t with
    | none => none
    | some e => some { s with
        taken := Function.update s.taken t none
        sent := ⟨cStr e.replyQueue, e.isFinal, e.data, e.request⟩ :: s.sent }

def machine : Machine (State θ) (Act θ μ) where
  init := ⟨fun _ => none, none, fun _ => none, [], [], fun _ => none, [], []⟩
  step := step hasHook wire

end Step

/-- What a request must be like, and when. -/
structure FreshRequest {θ : Type} (s : State θ) (r : Request) (accepted : Bool) : Prop where
  /-- Its id is not in use. -/
  fresh : accepted = true → s.replyMap r.data.id = none
  /-- The hook rejects it only if its entry was there already. -/
  rejected : accepted = false → s.replyMap r.data.id = some r.replyTo
  noNul : cStr r.replyTo = r.replyTo

/--
Ids are not used again while they are pending, the hook accepts what is new, and a final reply is
published only when no other thread has a reply to this id, or an older one, in hand.
-/
def Orderly {θ μ : Type} (hasHook : Bool) (wire : μ → Request) (s : State θ) : Act θ μ → Prop
  | .receive m hooked =>
    FreshRequest s (wire m) (received hasHook (wire m).data hooked).isSome
  | .publish t => ∀ e t' e' i j, s.taken t = some e → e.isFinal = true → t' ≠ t →
      s.taken t' = some e' → e'.data.id = e.data.id → e.request = some i → e'.request = some j →
        i < j
  | _ => True

/-- A request that has been handed to the callback, or is about to be. -/
def Handed {θ : Type} (s : State θ) (i : Nat) : Prop :=
  (∃ data, (i, data) ∈ s.handed) ∨ ∃ data, s.handling = some (i, some data)

structure RightRequester {θ : Type} (s : State θ) : Prop where
  /-- Each reply was sent to where the request that was pending for its id wants it. -/
  routed : ∀ e ∈ s.sent, ∃ i r, e.request = some i ∧ s.requests[i]? = some r ∧
    r.data.id = e.data.id ∧ e.destination = r.replyTo
  /-- The map leads to the pending request, whatever has come in since. -/
  pending : ∀ id, s.replyMap id = (s.pending id).bind fun i => s.requests[i]?.map Request.replyTo
  /-- What is sent after a final reply to an id answers a newer request. -/
  silent : s.sent.Pairwise fun later earlier => earlier.isFinal = true →
    later.data.id = earlier.data.id → ∃ i j, earlier.request = some i ∧ later.request = some j ∧
      i < j
  /-- The map has the requests that have been handed over and not been answered. -/
  entries : ∀ id q, s.replyMap id = some q ↔ ∃ i r, Handed s i ∧ i ∉ s.answered ∧
    s.requests[i]? = some r ∧ r.data.id = id ∧ r.replyTo = q

/-! ## The invariant -/

structure Inv {θ : Type} (s : State θ) : Prop where
  pending : ∀ id i, s.pending id = some i → ∃ r, s.requests[i]? = some r ∧ r.data.id = id ∧
    s.replyMap id = some r.replyTo ∧ Handed s i ∧ i ∉ s.answered
  unused : ∀ id, s.pending id = none → s.replyMap id = none
  noNul : ∀ r ∈ s.requests, cStr r.replyTo = r.replyTo
  handed : ∀ i, Handed s i → i < s.requests.length ∧
    (i ∉ s.answered → ∀ r, s.requests[i]? = some r → s.pending r.data.id = some i)
  answered : ∀ i ∈ s.answered, i < s.requests.length
  /-- What is in hand answers the pending request, or an older one. -/
  taken : ∀ t e, s.taken t = some e → ∃ i r, e.request = some i ∧ s.requests[i]? = some r ∧
    r.data.id = e.data.id ∧ e.replyQueue = r.replyTo ∧
    ∀ j, s.pending e.data.id = some j → i ≤ j ∧ (e.isFinal = true → i < j)
  routed : ∀ e ∈ s.sent, ∃ i r, e.request = some i ∧ s.requests[i]? = some r ∧
    r.data.id = e.data.id ∧ e.destination = r.replyTo
  silent : s.sent.Pairwise fun later earlier => earlier.isFinal = true →
    later.data.id = earlier.data.id → ∃ i j, earlier.request = some i ∧ later.request = some j ∧
      i < j
  /-- What can still be sent after a final reply answers a newer request. -/
  closed : ∀ e ∈ s.sent, e.isFinal = true → ∀ i, e.request = some i → i < s.requests.length ∧
    (∀ j, s.pending e.data.id = some j → i < j) ∧
    ∀ t e' j, s.taken t = some e' → e'.data.id = e.data.id → e'.request = some j → i < j

variable {θ μ : Type} {s s' : State θ} {hasHook : Bool} {wire : μ → Request}

theorem Inv.rightRequester (hi : Inv s) : RightRequester s where
  routed := hi.routed
  pending := fun id => by
    cases hp : s.pending id with
    | none => exact hi.unused id hp
    | some i =>
        obtain ⟨r, hr, -, hm, -⟩ := hi.pending id i hp
        rw [hm, Option.bind_some, hr]
        rfl
  silent := hi.silent
  entries := fun id q => by
    constructor
    · intro hq
      cases hp : s.pending id with
      | none =>
          rw [hi.unused id hp] at hq
          cases hq
      | some i =>
          obtain ⟨r, hr, hid, hm, hh, ha⟩ := hi.pending id i hp
          exact ⟨i, r, hh, ha, hr, hid, Option.some.inj (hm.symm.trans hq)⟩
    · intro h
      obtain ⟨i, r, hh, ha, hr, rfl, rfl⟩ := h
      obtain ⟨r', hr', -, hm, -⟩ := hi.pending _ i ((hi.handed i hh).2 ha r hr)
      obtain rfl := Option.some.inj (hr'.symm.trans hr)
      exact hm

/-! ## The steps -/

theorem lt_of_getElem? {l : List Request} {i : Nat} {r : Request} (h : l[i]? = some r) :
    i < l.length := (List.getElem?_eq_some_iff.mp h).1

/-- What came in before is where it was. -/
theorem getElem?_grow {l : List Request} {i : Nat} {r r' : Request} (h : l[i]? = some r) :
    (l ++ [r'])[i]? = some r := by
  rw [List.getElem?_append_left (lt_of_getElem? h), h]

/-- A request with a new id, which will be accepted. -/
theorem Inv.receive_accepted {r : Request} {content : String} {hooked : Option String} (hi : Inv s)
    (hidle : s.handling = none) (hc : received hasHook r.data hooked = some content)
    (hfresh : s.replyMap r.data.id = none) (hnul : cStr r.replyTo = r.replyTo) :
    Inv (receive hasHook s r hooked) := by
  have hnone : s.pending r.data.id = none := by
    cases hp : s.pending r.data.id with
    | none => rfl
    | some i =>
        obtain ⟨r', -, -, hm, -⟩ := hi.pending _ i hp
        rw [hfresh] at hm
        cases hm
  have hs : receive hasHook s r hooked = { s with
      replyMap := Function.update s.replyMap r.data.id (some r.replyTo)
      handling := some (s.requests.length, some ⟨r.data.id, content⟩)
      requests := s.requests ++ [r]
      pending := Function.update s.pending r.data.id (some s.requests.length) } := by
    simp [receive, hc, hnone]
  rw [hs]
  -- in the new state, either it is the new request or all is as before
  have hpend : ∀ id j, Function.update s.pending r.data.id (some s.requests.length) id = some j →
      (id = r.data.id ∧ j = s.requests.length) ∨ (id ≠ r.data.id ∧ s.pending id = some j) := by
    intro id j h
    by_cases he : id = r.data.id
    · rw [he, Function.update_self] at h
      exact Or.inl ⟨he, (Option.some.inj h).symm⟩
    · rw [Function.update_of_ne he] at h
      exact Or.inr ⟨he, h⟩
  have hlater : ∀ id i, i < s.requests.length → (∀ j, s.pending id = some j → i < j) →
      ∀ j, Function.update s.pending r.data.id (some s.requests.length) id = some j → i < j := by
    intro id i hlt hold j h
    rcases hpend id j h with ⟨-, rfl⟩ | ⟨-, h⟩
    · exact hlt
    · exact hold j h
  have hold : ∀ i, Handed s i ↔ ∃ data, (i, data) ∈ s.handed := by
    intro i
    simp [Handed, hidle]
  refine ⟨fun id i hp => ?_, fun id hp => ?_, fun r' hr' => ?_, fun i hh => ?_, fun i ha => ?_,
    fun t e he => ?_, fun e he => ?_, hi.silent, fun e he hf i hreq => ?_⟩
  · rcases hpend id i hp with ⟨rfl, rfl⟩ | ⟨hne, hp⟩
    · exact ⟨r, by simp, rfl, Function.update_self _ _ _, Or.inr ⟨_, rfl⟩,
        fun ha => absurd (hi.answered _ ha) (by omega)⟩
    · obtain ⟨r', hr', hid, hm, hh, ha⟩ := hi.pending id i hp
      exact ⟨r', getElem?_grow hr', hid, (Function.update_of_ne hne _ _).trans hm,
        Or.inl ((hold i).mp hh), ha⟩
  · have hne : id ≠ r.data.id := by
      intro e
      subst e
      simp at hp
    show Function.update s.replyMap r.data.id _ id = none
    rw [Function.update_of_ne hne]
    have h1 : Function.update s.pending r.data.id (some s.requests.length) id = none := hp
    rw [Function.update_of_ne hne] at h1
    exact hi.unused id h1
  · rcases List.mem_append.mp hr' with hr' | hr'
    · exact hi.noNul r' hr'
    · rw [List.mem_singleton.mp hr']
      exact hnul
  · rcases hh with hh | ⟨data, hh⟩
    · obtain ⟨hlt, hp⟩ := hi.handed i ((hold i).mpr hh)
      refine ⟨by simp; omega, fun ha r' hr' => ?_⟩
      have hr'' : s.requests[i]? = some r' := by
        rwa [List.getElem?_append_left hlt] at hr'
      have hp' := hp ha r' hr''
      have hne : r'.data.id ≠ r.data.id := by
        intro e
        rw [e, hnone] at hp'
        cases hp'
      exact (Function.update_of_ne hne _ _).trans hp'
    · simp only [Option.some.injEq, Prod.mk.injEq] at hh
      obtain ⟨rfl, -⟩ := hh
      refine ⟨by simp, fun _ r' hr' => ?_⟩
      obtain rfl : r = r' := by simpa using hr'
      exact Function.update_self _ _ _
  · have h1 := hi.answered i ha
    simp only [List.length_append, List.length_singleton]
    omega
  · obtain ⟨i, r', hreq, hr', hid, hq, hj⟩ := hi.taken t e he
    refine ⟨i, r', hreq, getElem?_grow hr', hid, hq, fun j h => ?_⟩
    rcases hpend _ j h with ⟨-, rfl⟩ | ⟨-, h⟩
    · have := lt_of_getElem? hr'
      exact ⟨by omega, fun _ => this⟩
    · exact hj j h
  · obtain ⟨i, r', h1, h2, h3⟩ := hi.routed e he
    exact ⟨i, r', h1, getElem?_grow h2, h3⟩
  · obtain ⟨h1, h2, h3⟩ := hi.closed e he hf i hreq
    exact ⟨by simp; omega, hlater _ i h1 h2, h3⟩

/-- A request that is rejected, and whose entry was there already. -/
theorem Inv.receive_rejected {r : Request} {hooked : Option String} (hi : Inv s)
    (hidle : s.handling = none) (hc : received hasHook r.data hooked = none)
    (hsame : s.replyMap r.data.id = some r.replyTo) (hnul : cStr r.replyTo = r.replyTo) :
    Inv (receive hasHook s r hooked) := by
  have hs : receive hasHook s r hooked = { s with
      handling := some (s.requests.length, none), requests := s.requests ++ [r] } := by
    have h1 : Function.update s.replyMap r.data.id (some r.replyTo) = s.replyMap := by
      rw [← hsame]
      exact Function.update_eq_self _ _
    simp [receive, hc, h1]
  rw [hs]
  have hold : ∀ i, Handed { s with
      handling := some (s.requests.length, none), requests := s.requests ++ [r] } i ↔
      Handed s i := by
    intro i
    simp [Handed, hidle]
  refine ⟨fun id i hp => ?_, hi.unused, fun r' hr' => ?_, fun i hh => ?_, fun i ha => ?_,
    fun t e he => ?_, fun e he => ?_, hi.silent, fun e he hf i hreq => ?_⟩
  · obtain ⟨r', hr', hid, hm, hh, ha⟩ := hi.pending id i hp
    exact ⟨r', getElem?_grow hr', hid, hm, (hold i).mpr hh, ha⟩
  · rcases List.mem_append.mp hr' with hr' | hr'
    · exact hi.noNul r' hr'
    · rw [List.mem_singleton.mp hr']
      exact hnul
  · obtain ⟨hlt, hp⟩ := hi.handed i ((hold i).mp hh)
    refine ⟨by simp; omega, fun ha r' hr' => hp ha r' ?_⟩
    rwa [List.getElem?_append_left hlt] at hr'
  · have h1 := hi.answered i ha
    simp only [List.length_append, List.length_singleton]
    omega
  · obtain ⟨i, r', hreq, hr', hrest⟩ := hi.taken t e he
    exact ⟨i, r', hreq, getElem?_grow hr', hrest⟩
  · obtain ⟨i, r', h1, h2, h3⟩ := hi.routed e he
    exact ⟨i, r', h1, getElem?_grow h2, h3⟩
  · obtain ⟨h1, h2, h3⟩ := hi.closed e he hf i hreq
    exact ⟨by simp; omega, h2, h3⟩

/-- The request that has been noted goes to the callback. -/
theorem Inv.handle {i : Nat} {accepted : Option ByteDataWithID} (hi : Inv s)
    (hh : s.handling = some (i, accepted)) : Inv { s with
      handling := none
      handed := (accepted.map fun data => (i, data)).toList ++ s.handed } := by
  have hsame : ∀ j, Handed { s with
      handling := none
      handed := (accepted.map fun data => (i, data)).toList ++ s.handed } j ↔ Handed s j := by
    intro j
    cases accepted with
    | none => simp [Handed, hh]
    | some data =>
        have hidle : ¬ ∃ d : ByteDataWithID, (none : Option (Nat × Option ByteDataWithID)) =
            some (j, some d) := by simp
        simp only [Handed, hh, Option.map_some, Option.toList_some, List.singleton_append,
          List.mem_cons, Prod.mk.injEq, Option.some.injEq, hidle, or_false]
        constructor
        · intro h
          obtain ⟨d, ⟨rfl, -⟩ | h⟩ := h
          · exact Or.inr ⟨data, rfl, rfl⟩
          · exact Or.inl ⟨d, h⟩
        · intro h
          rcases h with ⟨d, h⟩ | ⟨d, rfl, rfl⟩
          · exact ⟨d, Or.inr h⟩
          · exact ⟨data, Or.inl ⟨rfl, rfl⟩⟩
  refine ⟨fun id j hp => ?_, hi.unused, hi.noNul, fun j h => hi.handed j ((hsame j).mp h),
    hi.answered, hi.taken, hi.routed, hi.silent, hi.closed⟩
  obtain ⟨r, hr, hid, hm, hh', ha⟩ := hi.pending id j hp
  exact ⟨r, hr, hid, hm, (hsame j).mpr hh', ha⟩

/-- A final reply that no other one can follow. -/
theorem orderly_publish {t : θ} (h : ∀ t', t' ≠ t → s.taken t' = none) :
    Orderly hasHook wire s (.publish t) := by
  intro e t' e' i j _ _ hne he'
  rw [h t' hne] at he'
  cases he'

variable [DecidableEq θ]

/-- A reply is looked up. -/
theorem Inv.take {t : θ} {isFinal : Bool} {data : ByteDataWithID} (hi : Inv s) :
    Inv (take s t isFinal data) := by
  cases hm : s.replyMap data.id with
  | none => simpa [RPCServer.take, hm] using hi
  | some q =>
      obtain ⟨i, hp⟩ : ∃ i, s.pending data.id = some i := by
        cases hp : s.pending data.id with
        | none =>
            rw [hi.unused _ hp] at hm
            cases hm
        | some i => exact ⟨i, rfl⟩
      obtain ⟨r, hr, hid, hm', hh, ha⟩ := hi.pending _ i hp
      obtain rfl : q = r.replyTo := Option.some.inj (hm.symm.trans hm')
      -- what was in hand, and the new reply
      have htaken : ∀ t' e, Function.update s.taken t
          (some ⟨r.replyTo, isFinal, data, some i⟩) t' = some e →
          e = ⟨r.replyTo, isFinal, data, some i⟩ ∨ s.taken t' = some e := by
        intro t' e he
        by_cases ht : t' = t
        · rw [ht, Function.update_self] at he
          exact Or.inl (Option.some.inj he).symm
        · rw [Function.update_of_ne ht] at he
          exact Or.inr he
      have hclosed : ∀ e ∈ s.sent, e.isFinal = true → ∀ i₀, e.request = some i₀ →
          ∀ t' e' j, Function.update s.taken t (some ⟨r.replyTo, isFinal, data, some i⟩) t' =
            some e' → e'.data.id = e.data.id → e'.request = some j → i₀ < j := by
        intro e he hf i₀ hreq t' e' j ht' hid' hj
        obtain ⟨-, h2, h3⟩ := hi.closed e he hf i₀ hreq
        rcases htaken t' e' ht' with rfl | ht'
        · obtain rfl := Option.some.inj hj
          exact h2 _ (by rw [← hid']; exact hp)
        · exact h3 t' e' j ht' hid' hj
      cases isFinal with
      | false =>
          simp only [RPCServer.take, hm, hp, Bool.false_eq_true, if_false]
          refine ⟨hi.pending, hi.unused, hi.noNul, hi.handed, hi.answered, fun t' e he => ?_,
            hi.routed, hi.silent, fun e he hf i₀ hreq => ?_⟩
          · rcases htaken t' e he with rfl | he
            · refine ⟨i, r, rfl, hr, hid, rfl, fun j hj => ⟨?_, by simp⟩⟩
              exact le_of_eq (Option.some.inj (hp.symm.trans hj))
            · exact hi.taken t' e he
          · obtain ⟨h1, h2, -⟩ := hi.closed e he hf i₀ hreq
            exact ⟨h1, h2, hclosed e he hf i₀ hreq⟩
      | true =>
          simp only [RPCServer.take, hm, hp, if_true, Option.toList_some, List.singleton_append]
          have hpend : ∀ id j, Function.update s.pending data.id none id = some j →
              id ≠ data.id ∧ s.pending id = some j := by
            intro id j h
            by_cases he : id = data.id
            · rw [he, Function.update_self] at h
              cases h
            · rw [Function.update_of_ne he] at h
              exact ⟨he, h⟩
          refine ⟨fun id j h => ?_, fun id h => ?_, hi.noNul, fun j hj => ?_, fun j hj => ?_,
            fun t' e he => ?_, hi.routed, hi.silent, fun e he hf i₀ hreq => ?_⟩
          · obtain ⟨hne, h⟩ := hpend id j h
            obtain ⟨r', hr', hid', hm'', hh', ha'⟩ := hi.pending id j h
            refine ⟨r', hr', hid', (Function.update_of_ne hne _ _).trans hm'', hh', fun hj => ?_⟩
            rcases List.mem_cons.mp hj with rfl | hj
            · obtain rfl := Option.some.inj (hr.symm.trans hr')
              exact hne (hid'.symm.trans hid)
            · exact ha' hj
          · by_cases he : id = data.id
            · rw [he]
              exact Function.update_self _ _ _
            · have h1 : Function.update s.pending data.id none id = none := h
              rw [Function.update_of_ne he] at h1
              exact (Function.update_of_ne he _ _).trans (hi.unused id h1)
          · obtain ⟨hlt, h⟩ := hi.handed j hj
            refine ⟨hlt, fun hja r' hr' => ?_⟩
            have hja' := not_or.mp (List.mem_cons.not.mp hja)
            have hp' := h hja'.2 r' hr'
            have hne : r'.data.id ≠ data.id := by
              intro e
              rw [e, hp] at hp'
              exact hja'.1 (Option.some.inj hp').symm
            exact (Function.update_of_ne hne _ _).trans hp'
          · rcases List.mem_cons.mp hj with rfl | hj
            · exact lt_of_getElem? hr
            · exact hi.answered j hj
          · rcases htaken t' e he with rfl | he
            · refine ⟨i, r, rfl, hr, hid, rfl, fun j hj => absurd rfl (hpend _ j hj).1⟩
            · obtain ⟨i', r', h1, h2, h3, h4, h5⟩ := hi.taken t' e he
              exact ⟨i', r', h1, h2, h3, h4, fun j hj => h5 j (hpend _ j hj).2⟩
          · obtain ⟨h1, h2, -⟩ := hi.closed e he hf i₀ hreq
            exact ⟨h1, fun j hj => h2 j (hpend _ j hj).2, hclosed e he hf i₀ hreq⟩

/-- A reply that has been looked up is published. -/
theorem Inv.publish {t : θ} {e : Taken} (hi : Inv s) (he : s.taken t = some e)
    (hlast : e.isFinal = true → ∀ t' e' i j, t' ≠ t → s.taken t' = some e' →
      e'.data.id = e.data.id → e.request = some i → e'.request = some j → i < j) :
    Inv { s with
      taken := Function.update s.taken t none
      sent := ⟨cStr e.replyQueue, e.isFinal, e.data, e.request⟩ :: s.sent } := by
  obtain ⟨i, r, hreq, hr, hid, hq, hj⟩ := hi.taken t e he
  have htaken : ∀ t' e', Function.update s.taken t none t' = some e' →
      t' ≠ t ∧ s.taken t' = some e' := by
    intro t' e' h
    by_cases ht : t' = t
    · rw [ht, Function.update_self] at h
      cases h
    · rw [Function.update_of_ne ht] at h
      exact ⟨ht, h⟩
  refine ⟨hi.pending, hi.unused, hi.noNul, hi.handed, hi.answered,
    fun t' e' h => hi.taken t' e' (htaken t' e' h).2, fun e' he' => ?_, ?_,
    fun e' he' hf i' hreq' => ?_⟩
  · rcases List.mem_cons.mp he' with rfl | he'
    · have hnul := hi.noNul r (List.mem_of_getElem? hr)
      exact ⟨i, r, hreq, hr, hid, by rw [hq, hnul]⟩
    · exact hi.routed e' he'
  · refine List.pairwise_cons.mpr ⟨fun e₀ he₀ hf hsame => ?_, hi.silent⟩
    obtain ⟨i₀, r₀, h1, -⟩ := hi.routed e₀ he₀
    obtain ⟨-, -, h2⟩ := hi.closed e₀ he₀ hf i₀ h1
    exact ⟨i₀, i, h1, hreq, h2 t e i he hsame hreq⟩
  · rcases List.mem_cons.mp he' with rfl | he'
    · obtain rfl : i = i' := Option.some.inj (hreq.symm.trans hreq')
      refine ⟨lt_of_getElem? hr, fun j h => (hj j h).2 hf, fun t' e'' j h hsame hreq'' => ?_⟩
      obtain ⟨hne, h⟩ := htaken t' e'' h
      exact hlast hf t' e'' i j hne h hsame hreq hreq''
    · obtain ⟨h1, h2, h3⟩ := hi.closed e' he' hf i' hreq'
      exact ⟨h1, h2, fun t' e'' j h => h3 t' e'' j (htaken t' e'' h).2⟩

theorem inv_step {a : Act θ μ} (hi : Inv s) (hg : Orderly hasHook wire s a)
    (hs : step hasHook wire s a = some s') : Inv s' := by
  cases a with
  | receive m hooked =>
      simp only [step] at hs
      split at hs
      · next hidle =>
        obtain rfl := Option.some.inj hs
        cases hc : received hasHook (wire m).data hooked with
        | none =>
            have h1 := hg.rejected (by rw [hc]; rfl)
            exact hi.receive_rejected hidle hc h1 hg.noNul
        | some content =>
            have h1 := hg.fresh (by rw [hc]; rfl)
            exact hi.receive_accepted hidle hc h1 hg.noNul
      · cases hs
  | handle =>
      simp only [step] at hs
      split at hs
      · cases hs
      · next hh =>
        obtain rfl := Option.some.inj hs
        exact hi.handle hh
  | sendReply t isFinal data =>
      simp only [step] at hs
      split at hs
      · obtain rfl := Option.some.inj hs
        exact hi.take
      · cases hs
  | publish t =>
      simp only [step] at hs
      split at hs
      · cases hs
      · next e he =>
        obtain rfl := Option.some.inj hs
        exact hi.publish he fun hf t' e' i j hne => hg e t' e' i j he hf hne

theorem inv_init : Inv (machine (θ := θ) hasHook wire).init := by
  refine ⟨by simp [machine], fun _ _ => rfl, by simp [machine], fun i hh => ?_, by simp [machine],
    by simp [machine], by simp [machine], List.Pairwise.nil, by simp [machine]⟩
  simp [machine, Handed] at hh

/-- A request that the hook accepts, one reply, and the final one. -/
def answer : List (Act Bool (String × ByteDataWithID)) :=
  [.receive ("q", ⟨"x", "?"⟩) (some "?"), .handle, .sendReply true false ⟨"x", "wait"⟩,
    .publish true, .sendReply false true ⟨"x", "!"⟩, .publish false]

theorem answer_orderly : (machine true Redis.request).Within (Orderly true Redis.request)
    (machine true Redis.request).init answer := by
  refine ⟨⟨fun _ => rfl, (fun h => by cases h), by decide +kernel⟩, trivial, trivial,
    orderly_publish fun t' ht' => ?_, trivial, orderly_publish fun t' ht' => ?_, trivial⟩
  · obtain rfl : t' = false := by simpa using ht'
    rfl
  · obtain rfl : t' = true := by simpa using ht'
    rfl

/-- A second requester uses the id of a pending request. -/
def sameId : List (Act Bool Envelope) :=
  [.receive ⟨"x", "q1", none, "?"⟩ none, .handle, .receive ⟨"x", "q2", none, "??"⟩ none]

end RPCServer
