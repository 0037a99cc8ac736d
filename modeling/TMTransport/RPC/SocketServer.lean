import TMTransport.Library.Machine
import TMTransport.Library.Registry
import TMTransport.RPC.Wire

/-!
# The socket RPC server

A request that comes in on a connection registers the connection for the request's
id, in a map and in a reverse map. A reply is written to the connection registered
for its id, and a final one ends that. A connection that breaks is first marked as
stopped, then taken out of both maps, and then it is gone.

When a second connection uses an id that is still registered for the first one, the
reverse map keeps it for both.
-/

namespace SocketRPCServer

open Interleave RPC

variable {κ : Type}

/-- What has happened. -/
inductive Event (κ : Type) where
  | requested (conn : κ) (id : String)
  | removed (conn : κ)
  /-- The data is written to the connection's socket. -/
  | wrote (conn : κ) (isFinal : Bool) (data : ByteDataWithID)
  | replied (id : String) (isFinal : Bool)
  deriving DecidableEq

structure State (κ : Type) where
  /-- The connections that have been accepted, and not been removed. -/
  live : κ → Bool
  stopped : κ → Bool
  /-- `replySocketMap_` and `reverseReplySocketMap_` -/
  maps : Registry.Maps String κ
  /-- The latest event comes first. -/
  history : List (Event κ)

inductive Act (κ : Type) where
  | accept (conn : κ)
  | handleData (conn : κ) (data : ByteDataWithID)
  /-- A read has failed. -/
  | stop (conn : κ)
  | removeConnection (conn : κ)
  /-- Writing to the socket may fail; then `sendReply` throws. -/
  | sendReply (isFinal : Bool) (data : ByteDataWithID) (fails : Bool)

section Step

variable [DecidableEq κ]

def registerConnection (s : State κ) (id : String) (conn : κ) : State κ :=
  { s with
    maps := s.maps.assign id conn
    history := .requested conn id :: s.history }

def removeConnection (s : State κ) (conn : κ) : State κ :=
  { s with
    live := Function.update s.live conn false
    maps := s.maps.release conn
    history := .removed conn :: s.history }

def sendReply (s : State κ) (isFinal : Bool) (data : ByteDataWithID) (fails : Bool) : State κ :=
  match s.maps.owner data.id with
  | none => { s with history := .replied data.id isFinal :: s.history }
  | some conn =>
    if !s.stopped conn && fails then s
    else
      let wrote := if s.stopped conn then [] else [Event.wrote conn isFinal data]
      { s with
        maps := if isFinal then s.maps.finish data.id else s.maps
        history := .replied data.id isFinal :: (wrote ++ s.history) }

def step (s : State κ) : Act κ → Option (State κ)
  | .accept conn =>
    if s.live conn then none
    else some { s with
      live := Function.update s.live conn true, stopped := Function.update s.stopped conn false }
  | .handleData conn data =>
    if s.live conn && !s.stopped conn then some (registerConnection s data.id conn) else none
  | .stop conn =>
    if s.live conn then some { s with stopped := Function.update s.stopped conn true } else none
  | .removeConnection conn =>
    if s.live conn && s.stopped conn then some (removeConnection s conn) else none
  | .sendReply isFinal data fails => some (sendReply s isFinal data fails)

def machine (κ : Type) [DecidableEq κ] : Machine (State κ) (Act κ) where
  init := ⟨fun _ => false, fun _ => false, .empty, []⟩
  step := step

end Step

/-- No connection sends a request with an id that is registered for another one. -/
def OwnIds (s : State κ) : Act κ → Prop
  | .handleData conn data => ∀ conn', s.maps.owner data.id = some conn' → conn' = conn
  | _ => True

/-- An event after which replies to `id` do not go to `conn` any more. -/
def Event.Ends (conn : κ) (id : String) : Event κ → Prop
  | .requested _ id' => id' = id
  | .removed conn' => conn' = conn
  | .replied id' isFinal => isFinal = true ∧ id' = id
  | .wrote _ _ _ => False

/--
The last request with this `id` came on `conn`, which has not been removed since, and there has
been no final reply.
-/
def Waiting (h : List (Event κ)) (conn : κ) (id : String) : Prop :=
  ∃ since before, h = since ++ .requested conn id :: before ∧ ∀ e ∈ since, ¬ e.Ends conn id

/-- Each reply was written to the connection that waits for it. -/
def WroteRight (h : List (Event κ)) : Prop :=
  ∀ since before conn isFinal data, h = since ++ .wrote conn isFinal data :: before →
    Waiting before conn data.id

structure RightConnection (s : State κ) : Prop where
  /-- The two maps describe the same relation. -/
  inverse : s.maps.Inverse
  /-- It is the one between ids and the connections that wait for replies to them. -/
  waiting : ∀ conn id, s.maps.owner id = some conn ↔ Waiting s.history conn id
  /-- No entry refers to a connection that has been removed. -/
  live : ∀ conn id, s.maps.owner id = some conn ∨ id ∈ s.maps.held conn → s.live conn = true
  wrote : WroteRight s.history

/-! ## The invariant -/

/-- What the maps are told. -/
def Event.registry : Event κ → Option (Registry.Event String κ)
  | .requested conn id => some (.assigned id conn)
  | .removed conn => some (.released conn)
  | .replied id isFinal => if isFinal then some (.finished id) else none
  | .wrote _ _ _ => none

variable {s s' : State κ} {h : List (Event κ)} {e : Event κ} {conn : κ} {id : String}

theorem ends_registry : e.Ends conn id ↔ ∃ r, e.registry = some r ∧ r.Ends id conn := by
  cases e with
  | replied id' isFinal =>
      cases isFinal <;> simp [Event.Ends, Event.registry, Registry.Event.Ends]
  | _ => simp [Event.Ends, Event.registry, Registry.Event.Ends]

variable [DecidableEq κ]

structure Inv (s : State κ) : Prop where
  agrees : Registry.Agrees s.maps (s.history.filterMap Event.registry)
  live : ∀ conn id, s.maps.owner id = some conn → s.live conn = true
  wrote : WroteRight s.history

theorem waiting_iff :
    Waiting h conn id ↔ Registry.ownerIn (h.filterMap Event.registry) id = some conn := by
  rw [Registry.ownerIn_filterMap_iff fun _ => ends_registry]
  constructor
  · intro hw
    obtain ⟨since, before, hh, hs⟩ := hw
    exact ⟨since, before, _, hh, rfl, hs⟩
  · intro hw
    obtain ⟨since, before, e, hh, he, hs⟩ := hw
    cases e with
    | requested conn' id' =>
        simp only [Event.registry, Option.some.injEq, Registry.Event.assigned.injEq] at he
        obtain ⟨rfl, rfl⟩ := he
        exact ⟨since, before, hh, hs⟩
    | replied id' isFinal => cases isFinal <;> simp [Event.registry] at he
    | _ => simp [Event.registry] at he

theorem Inv.rightConnection (hi : Inv s) : RightConnection s where
  inverse := hi.agrees.inverse
  waiting := fun conn id => by rw [hi.agrees.owner, waiting_iff]
  live := fun conn id h => h.elim (hi.live conn id) fun h =>
    hi.live conn id ((hi.agrees.inverse id conn).mpr h)
  wrote := hi.wrote

/-! ## The steps -/

omit [DecidableEq κ] in
theorem WroteRight.cons (hw : WroteRight h)
    (he : ∀ conn isFinal data, e ≠ .wrote conn isFinal data) : WroteRight (e :: h) := by
  intro since before conn isFinal data hs
  cases since with
  | nil => exact absurd (List.cons.inj hs).1 (he conn isFinal data)
  | cons e' since => exact hw since before conn isFinal data (List.cons.inj hs).2

omit [DecidableEq κ] in
theorem WroteRight.wrote {isFinal : Bool} {data : ByteDataWithID} (hw : WroteRight h)
    (h1 : Waiting h conn data.id) : WroteRight (.wrote conn isFinal data :: h) := by
  intro since before conn' isFinal' data' hs
  cases since with
  | nil =>
      obtain ⟨h2, rfl⟩ := List.cons.inj hs
      cases h2
      exact h1
  | cons e' since => exact hw since before conn' isFinal' data' (List.cons.inj hs).2

theorem inv_init : Inv (machine κ).init where
  agrees := Registry.agrees_empty
  live := fun conn id ho => by cases ho
  wrote := fun since before conn isFinal data hs => by simp [machine] at hs

theorem Inv.registerConnection (hi : Inv s) (hlive : s.live conn = true)
    (hu : ∀ conn', s.maps.owner id = some conn' → conn' = conn) :
    Inv (registerConnection s id conn) where
  agrees := hi.agrees.play (e := .assigned id conn) hu
  live := fun conn' id' ho => by
    rcases Registry.owner_of_assign ho with rfl | ho
    · exact hlive
    · exact hi.live conn' id' ho
  wrote := hi.wrote.cons (by simp)

theorem Inv.removeConnection (hi : Inv s) : Inv (removeConnection s conn) where
  agrees := hi.agrees.play (e := .released conn) trivial
  live := fun conn' id ho => by
    obtain ⟨hne, ho⟩ := Registry.owner_of_release hi.agrees.inverse ho
    show Function.update s.live conn false conn' = true
    rw [Function.update_of_ne hne]
    exact hi.live conn' id ho
  wrote := hi.wrote.cons (by simp)

/-- A reply that has been dealt with: to the maps it matters only whether it is the final one. -/
theorem Inv.replied (hi : Inv s) (id : String) (isFinal : Bool)
    (hh : h.filterMap Event.registry = []) (hw : WroteRight (h ++ s.history)) :
    Inv { s with
      maps := if isFinal then s.maps.finish id else s.maps
      history := .replied id isFinal :: (h ++ s.history) } := by
  refine ⟨?_, fun conn id' ho => hi.live conn id' ?_, hw.cons (by simp)⟩
  · cases isFinal with
    | false => simpa [Event.registry, hh] using hi.agrees
    | true =>
        have h1 := hi.agrees.play (e := .finished id) trivial
        simpa [Event.registry, hh, Registry.Maps.play] using h1
  · have h1 : (if isFinal then s.maps.finish id else s.maps).owner id' = some conn := ho
    split at h1
    · exact Registry.owner_of_finish h1
    · exact h1

theorem finish_of_none {m : Registry.Maps String κ} (h : m.owner id = none) : m.finish id = m := by
  simp [Registry.Maps.finish, h]

theorem Inv.sendReply {isFinal fails : Bool} {data : ByteDataWithID} (hi : Inv s) :
    Inv (sendReply s isFinal data fails) := by
  unfold SocketRPCServer.sendReply
  cases ho : s.maps.owner data.id with
  | none =>
      have h1 := hi.replied data.id isFinal (h := []) rfl hi.wrote
      rw [finish_of_none ho] at h1
      simpa using h1
  | some conn =>
      simp only
      split
      · exact hi
      · refine hi.replied data.id isFinal ?_ ?_
        · split <;> rfl
        · have hw := (hi.rightConnection.waiting conn data.id).mp ho
          split
          · exact hi.wrote
          · exact hi.wrote.wrote hw

theorem inv_step {a : Act κ} (hi : Inv s) (hg : OwnIds s a) (hs : step s a = some s') :
    Inv s' := by
  cases a with
  | accept conn =>
      simp only [step] at hs
      split at hs
      · cases hs
      · obtain rfl := Option.some.inj hs
        refine ⟨hi.agrees, fun conn' id ho => ?_, hi.wrote⟩
        show Function.update s.live conn true conn' = true
        by_cases he : conn' = conn
        · rw [he, Function.update_self]
        · rw [Function.update_of_ne he]
          exact hi.live conn' id ho
  | handleData conn data =>
      simp only [step] at hs
      split at hs
      · next hlive =>
        obtain rfl := Option.some.inj hs
        exact hi.registerConnection (by simp_all) hg
      · cases hs
  | stop conn =>
      simp only [step] at hs
      split at hs
      · obtain rfl := Option.some.inj hs
        exact ⟨hi.agrees, hi.live, hi.wrote⟩
      · cases hs
  | removeConnection conn =>
      simp only [step] at hs
      split at hs
      · obtain rfl := Option.some.inj hs
        exact hi.removeConnection
      · cases hs
  | sendReply isFinal data fails =>
      obtain rfl := Option.some.inj hs
      exact hi.sendReply

/-- A request on one of two connections, and its reply. -/
def answerOne : List (Act Bool) :=
  [.accept false, .accept true, .handleData false ⟨"x", "?"⟩, .sendReply true ⟨"x", "!"⟩ false]

theorem answerOne_ownIds : (machine Bool).Within OwnIds (machine Bool).init answerOne := by
  refine ⟨trivial, trivial, ?_, trivial, trivial⟩
  intro conn' h
  cases h

/-- The second connection uses the first one's id, and the first one breaks. -/
def reuse : List (Act Bool) :=
  [.accept false, .accept true, .handleData false ⟨"x", "?"⟩, .handleData true ⟨"x", "??"⟩,
    .stop false, .removeConnection false]

end SocketRPCServer
