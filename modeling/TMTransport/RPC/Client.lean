import TMTransport.Library.Machine
import TMTransport.Library.Registry
import TMTransport.RPC.Wire

/-!
# The RPC client connection

One connection serves several clients. It gives a number to each, and keeps in two
maps who waits for a reply to which request. The loop that receives the replies
hands each one to the client that waits for it, and forgets the id when the reply
is the final one.

RabbitMQ and Redis have the same code for this. They differ in how a reply looks on
the wire (`RabbitMQ.reply`, `Redis.reply`). Each of the four operations is under one lock, so it is
one step.

An id that two clients use at the same time is moved to the second one in one of the
maps only. What the first one then does with its ids hits the second one.
-/

namespace RPCClient

open Interleave RPC

/-- A client: the callback is known by the number that it has been added under. -/
structure OneClientInfo where
  hasHook : Bool

/-- What has happened, as far as it can be seen from the clients. -/
inductive Event where
  | added (n : UInt32)
  | removed (n : UInt32)
  | sent (n : UInt32) (data : ByteDataWithID)
  /-- The callback of client `n` is called. -/
  | passed (n : UInt32) (isFinal : Bool) (data : ByteDataWithID)
  | replied (id : String) (isFinal : Bool)
  deriving DecidableEq

structure State where
  clientCounter : UInt32
  clients : UInt32 → Option OneClientInfo
  /-- `idToClientMap_` and `clientToIDMap_` -/
  maps : Registry.Maps String UInt32
  /-- The latest event comes first. -/
  history : List Event

inductive Act (μ : Type) where
  | addClient (info : OneClientInfo)
  | removeClient (clientNumber : UInt32)
  /-- The sender that was returned for a client is called. -/
  | sendRequest (clientNumber : UInt32) (data : ByteDataWithID)
  /-- A reply comes in; `hooked` is what the client's hook makes of it. -/
  | receive (m : μ) (hooked : Option String)

section Step

def addClient (s : State) (info : OneClientInfo) : State :=
  let n := s.clientCounter + 1
  { s with
    clientCounter := n
    clients := Function.update s.clients n (some info)
    history := .added n :: s.history }

def removeClient (s : State) (clientNumber : UInt32) : State :=
  { s with
    clients := Function.update s.clients clientNumber none
    maps := s.maps.release clientNumber
    history := .removed clientNumber :: s.history }

def sendRequest (s : State) (clientNumber : UInt32) (data : ByteDataWithID) : State :=
  { s with
    maps := s.maps.assign data.id clientNumber
    history := .sent clientNumber data :: s.history }

/-- The callback of the client that an id is registered for. -/
def callback (s : State) (r : Reply) (hooked : Option String) : List Event :=
  match s.maps.owner r.data.id with
  | none => []
  | some n =>
    match s.clients n with
    | none => []
    | some info =>
      match received info.hasHook r.data hooked with
      | none => []
      | some content => [.passed n r.isFinal ⟨r.data.id, content⟩]

/-- A reply is handed over. -/
def pass (s : State) (r : Reply) (hooked : Option String) : State :=
  { s with history := callback s r hooked ++ s.history }

/-- A reply has been handed over. -/
def settle (s : State) (r : Reply) : State :=
  { s with
    maps := if r.isFinal then s.maps.finish r.data.id else s.maps
    history := .replied r.data.id r.isFinal :: s.history }

/-- A reply is looked at, in `run`. -/
def dispatch (s : State) (r : Reply) (hooked : Option String) : State :=
  settle (pass s r hooked) r

variable {μ : Type} (wire : μ → Reply)

def step (s : State) : Act μ → Option State
  | .addClient info => some (addClient s info)
  | .removeClient n => some (removeClient s n)
  | .sendRequest n data =>
    -- only a client that has been added has a sender
    if .added n ∈ s.history then some (sendRequest s n data) else none
  | .receive m hooked => some (dispatch s (wire m) hooked)

def machine : Machine State (Act μ) where
  init := ⟨0, fun _ => none, .empty, []⟩
  step := step wire

end Step

/-- No number is given out twice, and no id is used while another client waits under it. -/
def Orderly {μ : Type} (s : State) : Act μ → Prop
  | .addClient _ => .added (s.clientCounter + 1) ∉ s.history
  | .sendRequest n data => ∀ n', s.maps.owner data.id = some n' → n' = n
  | _ => True

/-- Is the client with this number there? -/
def Registered : List Event → UInt32 → Prop
  | [], _ => False
  | .added m :: h, n => m = n ∨ Registered h n
  | .removed m :: h, n => m ≠ n ∧ Registered h n
  | _ :: h, n => Registered h n

/-- An event after which client `n` does not wait for replies to `id` any more. -/
def Event.Ends (n : UInt32) (id : String) : Event → Prop
  | .added m => m = n
  | .removed m => m = n
  | .sent _ data => data.id = id
  | .replied id' isFinal => isFinal = true ∧ id' = id
  | .passed _ _ _ => False

/--
Client `n` was the last one to send a request with this `id`, it has not been removed since,
and there has been no final reply.
-/
def Waiting (h : List Event) (n : UInt32) (id : String) : Prop :=
  ∃ since before content, h = since ++ .sent n ⟨id, content⟩ :: before ∧
    ∀ e ∈ since, ¬ e.Ends n id

/-- Each reply was handed to a registered client that was waiting for it. -/
def PassedRight (h : List Event) : Prop :=
  ∀ since before n isFinal data, h = since ++ .passed n isFinal data :: before →
    Waiting before n data.id ∧ Registered before n

structure RightClient (s : State) : Prop where
  /-- The two maps are inverse to each other. -/
  inverse : s.maps.Inverse
  /-- They hold the pending ids: who is removed takes no id of another client along. -/
  pending : ∀ n id, s.maps.owner id = some n ↔ Waiting s.history n id
  passed : PassedRight s.history

/-! ## The invariant -/

/-- What the maps are told. -/
def Event.registry : Event → Option (Registry.Event String UInt32)
  | .added n => some (.released n)
  | .removed n => some (.released n)
  | .sent n data => some (.assigned data.id n)
  | .replied id isFinal => if isFinal then some (.finished id) else none
  | .passed _ _ _ => none

structure Inv (s : State) : Prop where
  agrees : Registry.Agrees s.maps (s.history.filterMap Event.registry)
  clients : ∀ n, (s.clients n).isSome ↔ Registered s.history n
  /-- Only who has been added has ids. -/
  added : ∀ n id, s.maps.owner id = some n → .added n ∈ s.history
  passed : PassedRight s.history

variable {s s' : State} {h : List Event} {e : Event} {n : UInt32} {id : String} {μ : Type}
  {wire : μ → Reply}

theorem ends_registry :
    e.Ends n id ↔ ∃ r, e.registry = some r ∧ r.Ends id n := by
  cases e with
  | replied id' isFinal =>
      cases isFinal <;> simp [Event.Ends, Event.registry, Registry.Event.Ends]
  | _ => simp [Event.Ends, Event.registry, Registry.Event.Ends]

theorem waiting_iff :
    Waiting h n id ↔ Registry.ownerIn (h.filterMap Event.registry) id = some n := by
  rw [Registry.ownerIn_filterMap_iff fun _ => ends_registry]
  constructor
  · intro hw
    obtain ⟨since, before, content, hh, hs⟩ := hw
    exact ⟨since, before, _, hh, rfl, hs⟩
  · intro hw
    obtain ⟨since, before, e, hh, he, hs⟩ := hw
    cases e with
    | sent m data =>
        obtain ⟨id', content⟩ := data
        simp only [Event.registry, Option.some.injEq, Registry.Event.assigned.injEq] at he
        obtain ⟨rfl, rfl⟩ := he
        exact ⟨since, before, content, hh, hs⟩
    | replied id' isFinal => cases isFinal <;> simp [Event.registry] at he
    | _ => simp [Event.registry] at he

theorem Inv.rightClient (hi : Inv s) : RightClient s where
  inverse := hi.agrees.inverse
  pending := fun n id => by rw [hi.agrees.owner, waiting_iff]
  passed := hi.passed

/-! ## The steps -/

theorem PassedRight.cons (hp : PassedRight h) (he : ∀ n isFinal data, e ≠ .passed n isFinal data) :
    PassedRight (e :: h) := by
  intro since before n isFinal data hs
  cases since with
  | nil => exact absurd (List.cons.inj hs).1 (he n isFinal data)
  | cons e' since => exact hp since before n isFinal data (List.cons.inj hs).2

theorem PassedRight.passed {isFinal : Bool} {data : ByteDataWithID} (hp : PassedRight h)
    (hw : Waiting h n data.id) (hr : Registered h n) :
    PassedRight (.passed n isFinal data :: h) := by
  intro since before n' isFinal' data' hs
  cases since with
  | nil =>
      obtain ⟨h1, rfl⟩ := List.cons.inj hs
      cases h1
      exact ⟨hw, hr⟩
  | cons e' since => exact hp since before n' isFinal' data' (List.cons.inj hs).2

theorem inv_init : Inv (machine (μ := μ) wire).init where
  agrees := Registry.agrees_empty
  clients := fun n => by simp [machine, Registered]
  added := fun n id ho => by cases ho
  passed := fun since before n isFinal data hs => by simp [machine] at hs

theorem Inv.addClient {info : OneClientInfo} (hi : Inv s)
    (hn : .added (s.clientCounter + 1) ∉ s.history) : Inv (addClient s info) where
  agrees := by
    -- nobody waits under the new number
    have hempty : s.maps.held (s.clientCounter + 1) = ∅ := by
      refine Finset.eq_empty_of_forall_notMem fun id hid => hn ?_
      exact hi.added _ id ((hi.agrees.inverse id _).mpr hid)
    have h1 := hi.agrees.play (e := .released (s.clientCounter + 1)) trivial
    rwa [Registry.Maps.play, Registry.release_of_empty hempty] at h1
  clients := fun n => by
    show (Function.update s.clients _ _ n).isSome ↔ _ = n ∨ Registered s.history n
    by_cases hn : n = s.clientCounter + 1
    · subst hn; simp
    · rw [Function.update_of_ne hn, hi.clients n]
      simp [Ne.symm hn]
  added := fun n id ho => List.mem_cons_of_mem _ (hi.added n id ho)
  passed := hi.passed.cons (by simp)

theorem Inv.removeClient (hi : Inv s) : Inv (removeClient s n) where
  agrees := hi.agrees.play (e := .released n) trivial
  clients := fun m => by
    show (Function.update s.clients n none m).isSome ↔ n ≠ m ∧ Registered s.history m
    by_cases hm : m = n
    · subst hm; simp
    · rw [Function.update_of_ne hm, hi.clients m]
      simp [Ne.symm hm]
  added := fun m id ho => by
    refine List.mem_cons_of_mem _ (hi.added m id ?_)
    have h1 : (if id ∈ s.maps.held n then none else s.maps.owner id) = some m := ho
    split at h1
    · cases h1
    · exact h1
  passed := hi.passed.cons (by simp)

theorem Inv.sendRequest {data : ByteDataWithID} (hi : Inv s) (hadded : .added n ∈ s.history)
    (hu : ∀ n', s.maps.owner data.id = some n' → n' = n) : Inv (sendRequest s n data) where
  agrees := hi.agrees.play (e := .assigned data.id n) hu
  clients := hi.clients
  added := fun m id ho => by
    refine List.mem_cons_of_mem _ ?_
    have h1 : Function.update s.maps.owner data.id (some n) id = some m := ho
    by_cases he : id = data.id
    · rw [he, Function.update_self] at h1
      exact Option.some.inj h1 ▸ hadded
    · rw [Function.update_of_ne he] at h1
      exact hi.added m id h1
  passed := hi.passed.cons (by simp)

theorem callback_cases (s : State) (r : Reply) (hooked : Option String) :
    callback s r hooked = [] ∨ ∃ n info content, s.maps.owner r.data.id = some n ∧
      s.clients n = some info ∧ callback s r hooked =
        [.passed n r.isFinal ⟨r.data.id, content⟩] := by
  unfold callback
  cases ho : s.maps.owner r.data.id with
  | none => exact Or.inl rfl
  | some n =>
      cases hc : s.clients n with
      | none => simp [hc]
      | some info =>
          cases hr : received info.hasHook r.data hooked with
          | none => simp [hc, hr]
          | some content => exact Or.inr ⟨n, info, content, rfl, hc, by simp [hc, hr]⟩

/-- A callback tells the maps nothing, and it is the right one. -/
theorem Inv.callback (hi : Inv s) (r : Reply) (hooked : Option String) :
    (callback s r hooked).filterMap Event.registry = [] ∧
      PassedRight (callback s r hooked ++ s.history) ∧
      ∀ n, Registered (callback s r hooked ++ s.history) n ↔ Registered s.history n := by
  rcases callback_cases s r hooked with h1 | ⟨n, info, content, ho, hc, h1⟩
  · rw [h1]
    exact ⟨rfl, hi.passed, fun n => Iff.rfl⟩
  · rw [h1]
    refine ⟨rfl, hi.passed.passed ((hi.rightClient.pending n _).mp ho) ?_, fun n => Iff.rfl⟩
    exact (hi.clients n).mp (by rw [hc]; rfl)

theorem Inv.dispatch (hi : Inv s) (r : Reply) (hooked : Option String) :
    Inv (dispatch s r hooked) := by
  obtain ⟨h1, h2, h3⟩ := hi.callback r hooked
  refine ⟨?_, fun n => ?_, fun n id ho => ?_, h2.cons (by simp)⟩
  · show Registry.Agrees _ (List.filterMap _ (.replied r.data.id r.isFinal ::
      (RPCClient.callback s r hooked ++ s.history)))
    cases hf : r.isFinal with
    | false =>
        simpa [RPCClient.dispatch, settle, pass, hf, Event.registry, h1] using hi.agrees
    | true =>
        have h4 := hi.agrees.play (e := .finished r.data.id) trivial
        simpa [RPCClient.dispatch, settle, pass, hf, Event.registry, h1, Registry.Maps.play]
          using h4
  · exact (hi.clients n).trans (h3 n).symm
  · refine List.mem_cons_of_mem _ (List.mem_append_right _ (hi.added n id ?_))
    simp only [RPCClient.dispatch, settle, pass] at ho
    split at ho
    · exact Registry.owner_of_finish ho
    · exact ho

theorem inv_step {a : Act μ} (hi : Inv s) (hg : Orderly s a) (hs : step wire s a = some s') :
    Inv s' := by
  cases a with
  | addClient info =>
      obtain rfl := Option.some.inj hs
      exact hi.addClient hg
  | removeClient n =>
      obtain rfl := Option.some.inj hs
      exact hi.removeClient
  | sendRequest n data =>
      simp only [step] at hs
      split at hs
      · next hadded =>
        obtain rfl := Option.some.inj hs
        exact hi.sendRequest hadded hg
      · cases hs
  | receive m hooked =>
      obtain rfl := Option.some.inj hs
      exact hi.dispatch (wire m) hooked

/-- Two clients; the first one asks, and is answered. -/
def ask : List (Act (Bool × ByteDataWithID)) :=
  [.addClient ⟨false⟩, .addClient ⟨true⟩, .sendRequest 1 ⟨"x", "?"⟩,
    .receive (true, ⟨"x", "!"⟩) none]

theorem ask_orderly : (machine Redis.reply).Within Orderly (machine Redis.reply).init ask := by
  refine ⟨?_, ?_, ?_, trivial, trivial⟩
  · show Event.added (0 + 1) ∉ []
    decide +kernel
  · show Event.added (0 + 1 + 1) ∉ [Event.added (0 + 1)]
    decide +kernel
  · intro n' h
    cases h

/-- The second client uses the first one's id, and the first one goes. -/
def takeOver : List (Act (Bool × ByteDataWithID)) :=
  [.addClient ⟨false⟩, .addClient ⟨false⟩, .sendRequest 1 ⟨"x", "?"⟩, .sendRequest 2 ⟨"x", "??"⟩,
    .removeClient 1]

end RPCClient
