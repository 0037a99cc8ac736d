import Mathlib.Data.Finset.Image
import TMTransport.Library.Machine
import TMTransport.Library.Registry
import TMTransport.RPC.Wire

/-!
# The WebSocket RPC server

A connection is for one path, the one in its upgrade request. A request that comes
in on it registers the connection for the path and the request's id, in a map, and
the id for the connection, in a reverse map. A reply is written to the connection
registered for its path and id, and a final one ends that. The reverse map says what
has to go when a connection is removed.

Two maps by path and by connection are here one register by the pair of path and id
(`State.maps`, with `maps_registerRequest` and so on for what the code does to them).
When a second connection uses an id that is still registered for the first one, the
reverse map keeps it for both.
-/

namespace WebSocketRPCServer

open Interleave RPC

variable {κ : Type}

inductive Phase where
  | absent
  /-- It is in `clientHandlers_`; the handshakes are going on. -/
  | accepted
  /-- It is `good_`, and it is being read from. -/
  | good
  /-- A handshake, a read or a write has failed; it is to be removed. -/
  | failed
  deriving DecidableEq

/-- What is written to a connection's stream. -/
structure Sent (κ : Type) where
  conn : κ
  isFinal : Bool
  data : ByteDataWithID
  deriving DecidableEq

/-- What there is to tell a register by path and id. -/
abbrev Event (κ : Type) := Registry.Event (String × String) κ

structure State (κ : Type) where
  phase : κ → Phase
  targetPath : κ → String
  clientHandlersByID : String → String → Option κ
  idsByClientHandler : κ → Finset String
  /--
  A thread has tried to lock `clientHandlersMutex_` while it had it locked. It goes on waiting, and
  nobody else gets the mutex any more.
  -/
  stuck : Bool
  /-- What has been written; the latest comes first. -/
  sent : List (Sent κ)
  /-- The requests, final replies and removals; the latest comes first. -/
  history : List (Event κ)

inductive Act (κ : Type) where
  /-- The path of a connection with TLS is known later, but not used before. -/
  | onAccept (conn : κ) (targetPath : String)
  | onWsHandshake (conn : κ)
  /-- A handshake or a read has failed. -/
  | fail (conn : κ)
  | removeClientHandler (conn : κ)
  /-- A request is read. -/
  | callServer (conn : κ) (data : ByteDataWithID)
  /-- Writing to the stream may fail. -/
  | sendReply (targetPath : String) (isFinal : Bool) (data : ByteDataWithID) (fails : Bool)

section Step

variable [DecidableEq κ]

/-- The map, after `clientHandlersByID_[path][id]` has been set or erased. -/
def setByID (s : State κ) (path id : String) (conn : Option κ) : String → String → Option κ :=
  Function.update s.clientHandlersByID path (Function.update (s.clientHandlersByID path) id conn)

/-- The first locked region of `callServer`. -/
def registerRequest (s : State κ) (conn : κ) (id : String) : State κ :=
  { s with
    clientHandlersByID := setByID s (s.targetPath conn) id (some conn)
    idsByClientHandler :=
      Function.update s.idsByClientHandler conn (insert id (s.idsByClientHandler conn))
    history := .assigned (s.targetPath conn, id) conn :: s.history }

def removeClientHandler (s : State κ) (conn : κ) : State κ :=
  { s with
    phase := Function.update s.phase conn .absent
    -- every id that the connection has used goes, whoever it is registered for
    clientHandlersByID := Function.update s.clientHandlersByID (s.targetPath conn) fun id =>
      if id ∈ s.idsByClientHandler conn then none else s.clientHandlersByID (s.targetPath conn) id
    idsByClientHandler := Function.update s.idsByClientHandler conn ∅
    history := .released conn :: s.history }

/-- `sendReply`, up to where the connection is told to write: a final reply ends the request. -/
def endRequest (s : State κ) (targetPath : String) (isFinal : Bool) (id : String) (conn : κ) :
    State κ :=
  if isFinal then
    { s with
      clientHandlersByID := setByID s targetPath id none
      idsByClientHandler :=
        Function.update s.idsByClientHandler conn ((s.idsByClientHandler conn).erase id)
      history := .finished (targetPath, id) :: s.history }
  else s

/--
`OneClientHandler::sendReply`, which is called with `clientHandlersMutex_` locked: after a failed
write it calls `removeClientHandler`, which locks it.
-/
def write (s : State κ) (conn : κ) (isFinal : Bool) (data : ByteDataWithID) (fails : Bool) :
    State κ :=
  if s.phase conn = .good then
    if fails then { s with phase := Function.update s.phase conn .failed, stuck := true }
    else { s with sent := ⟨conn, isFinal, data⟩ :: s.sent }
  else s

def sendReply (s : State κ) (targetPath : String) (isFinal : Bool) (reply : ByteDataWithID)
    (fails : Bool) : State κ :=
  match s.clientHandlersByID targetPath reply.id with
  | none => s
  | some conn => write (endRequest s targetPath isFinal reply.id conn) conn isFinal reply fails

/-- The steps that need `clientHandlersMutex_` are not possible while somebody is stuck with it. -/
def step (s : State κ) : Act κ → Option (State κ)
  | .onAccept conn targetPath =>
    if s.stuck = false ∧ s.phase conn = .absent then
      some { s with
        phase := Function.update s.phase conn .accepted
        targetPath := Function.update s.targetPath conn targetPath }
    else none
  | .onWsHandshake conn =>
    if s.phase conn = .accepted then
      some { s with phase := Function.update s.phase conn .good }
    else none
  | .fail conn =>
    if s.phase conn = .accepted ∨ s.phase conn = .good then
      some { s with phase := Function.update s.phase conn .failed }
    else none
  | .removeClientHandler conn =>
    if s.stuck = false ∧ s.phase conn = .failed then some (removeClientHandler s conn) else none
  | .callServer conn data =>
    if s.stuck = false ∧ s.phase conn = .good then some (registerRequest s conn data.id) else none
  | .sendReply targetPath isFinal data fails =>
    if s.stuck = false then some (sendReply s targetPath isFinal data fails) else none

def machine (κ : Type) [DecidableEq κ] : Machine (State κ) (Act κ) where
  init := ⟨fun _ => .absent, fun _ => "", fun _ _ => none, fun _ => ∅, false, [], []⟩
  step := step

end Step

/-- No connection sends a request with an id that, on its path, is registered for another one. -/
def OwnIds (s : State κ) : Act κ → Prop
  | .callServer conn data =>
      ∀ conn', s.clientHandlersByID (s.targetPath conn) data.id = some conn' → conn' = conn
  | _ => True

/--
The last request with this `id` on this `path` came on `conn`, which has not been removed since,
and there has been no final reply.
-/
def Waiting (h : List (Event κ)) (path id : String) (conn : κ) : Prop :=
  ∃ since before, h = since ++ .assigned (path, id) conn :: before ∧
    ∀ e ∈ since, ¬ e.Ends (path, id) conn

structure ReplyRouting [DecidableEq κ] (s : State κ) : Prop where
  /-- Each entry of one map has its counterpart in the other. -/
  counterpart : ∀ path id conn, s.clientHandlersByID path id = some conn ↔
    s.targetPath conn = path ∧ id ∈ s.idsByClientHandler conn
  /-- The entries are the connections that wait for replies. -/
  waiting : ∀ path id conn, s.clientHandlersByID path id = some conn ↔
    Waiting s.history path id conn
  /-- No entry refers to a connection that has been removed. -/
  present : ∀ path id conn, s.clientHandlersByID path id = some conn ∨
    id ∈ s.idsByClientHandler conn → s.phase conn ≠ .absent
  /-- What is written goes to who waits for it, ... -/
  only : ∀ path isFinal data fails conn,
    (sendReply s path isFinal data fails).sent = ⟨conn, isFinal, data⟩ :: s.sent →
      Waiting s.history path data.id conn
  /-- ... and it does go there. -/
  goes : ∀ path isFinal data conn, Waiting s.history path data.id conn → s.phase conn = .good →
    (sendReply s path isFinal data false).sent = ⟨conn, isFinal, data⟩ :: s.sent
  /-- The removal of a connection drops no entry of another. -/
  kept : ∀ gone path id conn, s.clientHandlersByID path id = some conn → conn ≠ gone →
    (removeClientHandler s gone).clientHandlersByID path id = some conn


/-! ## The two maps as one register -/

def State.maps (s : State κ) : Registry.Maps (String × String) κ where
  owner := fun key => s.clientHandlersByID key.1 key.2
  held := fun conn =>
    (s.idsByClientHandler conn).map ⟨(s.targetPath conn, ·), Prod.mk_right_injective _⟩

variable {s s' : State κ} {path id : String} {conn : κ}

theorem mem_held : (path, id) ∈ s.maps.held conn ↔
    s.targetPath conn = path ∧ id ∈ s.idsByClientHandler conn := by
  simp [State.maps]
  grind

theorem setByID_apply {c : Option κ} (key : String × String) :
    setByID s path id c key.1 key.2 = Function.update s.maps.owner (path, id) c key := by
  obtain ⟨p, i⟩ := key
  by_cases hp : p = path
  · subst hp
    by_cases hi : i = id
    · simp [setByID, hi]
    · simp [setByID, hi, State.maps]
  · simp [setByID, hp, State.maps]

theorem maps_eq {m : Registry.Maps (String × String) κ}
    (ho : ∀ key, s.clientHandlersByID key.1 key.2 = m.owner key)
    (hh : ∀ c, s.maps.held c = m.held c) : s.maps = m :=
  congrArg₂ Registry.Maps.mk (funext ho) (funext hh)

/-- The ids of a connection that a step does not concern. -/
theorem held_congr {c : κ} (hp : s'.targetPath c = s.targetPath c)
    (hids : s'.idsByClientHandler c = s.idsByClientHandler c) : s'.maps.held c = s.maps.held c := by
  ext ⟨p, i⟩
  rw [mem_held, mem_held, hp, hids]

variable [DecidableEq κ]

theorem maps_registerRequest :
    (registerRequest s conn id).maps = s.maps.assign (s.targetPath conn, id) conn := by
  refine maps_eq setByID_apply fun c => ?_
  show _ = Function.update s.maps.held conn _ c
  by_cases hc : c = conn
  · subst hc
    ext ⟨p, i⟩
    rw [Function.update_self, Finset.mem_insert, mem_held, mem_held, Prod.mk.injEq]
    simp only [registerRequest, Function.update_self, Finset.mem_insert]
    grind
  · rw [Function.update_of_ne hc]
    exact held_congr rfl (Function.update_of_ne hc _ _)

theorem maps_removeClientHandler :
    (removeClientHandler s conn).maps = s.maps.release conn := by
  refine maps_eq (fun key => ?_) fun c => ?_
  · obtain ⟨p, i⟩ := key
    simp only [Registry.Maps.release, mem_held, removeClientHandler]
    by_cases hp : p = s.targetPath conn
    · simp [hp, State.maps]
    · simp [hp, Ne.symm hp, State.maps]
  · show _ = Function.update s.maps.held conn ∅ c
    by_cases hc : c = conn
    · subst hc
      rw [Function.update_self, State.maps]
      simp [removeClientHandler]
    · rw [Function.update_of_ne hc]
      exact held_congr rfl (Function.update_of_ne hc _ _)

theorem maps_endRequest (hi : s.maps.Inverse) (hc : s.clientHandlersByID path id = some conn) :
    (endRequest s path true id conn).maps = s.maps.finish (path, id) := by
  have ho : s.maps.owner (path, id) = some conn := hc
  obtain ⟨hpath, -⟩ := mem_held.mp ((hi _ _).mp ho)
  rw [Registry.finish_of_owner ho]
  refine maps_eq setByID_apply fun c => ?_
  show _ = Function.update s.maps.held conn _ c
  by_cases hc : c = conn
  · subst hc
    ext ⟨p, i⟩
    rw [Function.update_self, Finset.mem_erase, mem_held, mem_held, ne_eq, Prod.mk.injEq]
    simp only [endRequest, if_true, Function.update_self, Finset.mem_erase]
    grind
  · rw [Function.update_of_ne hc]
    exact held_congr rfl (Function.update_of_ne hc _ _)

/-! ## The invariant -/

structure Inv (s : State κ) : Prop where
  agrees : Registry.Agrees s.maps s.history
  present : ∀ key conn, s.maps.owner key = some conn → s.phase conn ≠ .absent

theorem waiting_iff : Waiting s.history path id conn ↔
    Registry.ownerIn s.history (path, id) = some conn :=
  Registry.ownerIn_eq_some_iff.symm

theorem Inv.counterpart (hi : Inv s) : s.clientHandlersByID path id = some conn ↔
    s.targetPath conn = path ∧ id ∈ s.idsByClientHandler conn :=
  (hi.agrees.inverse (path, id) conn).trans mem_held

theorem Inv.waiting (hi : Inv s) : s.clientHandlersByID path id = some conn ↔
    Waiting s.history path id conn := by
  rw [waiting_iff, ← hi.agrees.owner]
  rfl

theorem Inv.present_of_mem (hi : Inv s) (h : id ∈ s.idsByClientHandler conn) :
    s.phase conn ≠ .absent :=
  hi.present (s.targetPath conn, id) conn ((hi.agrees.inverse _ _).mpr (mem_held.mpr ⟨rfl, h⟩))

/-! ## What a reply does -/

theorem endRequest_phase {isFinal : Bool} :
    (endRequest s path isFinal id conn).phase = s.phase := by
  unfold endRequest
  split <;> rfl

theorem endRequest_sent {isFinal : Bool} :
    (endRequest s path isFinal id conn).sent = s.sent := by
  unfold endRequest
  split <;> rfl

theorem write_cases (s : State κ) (conn : κ) (isFinal : Bool) (data : ByteDataWithID)
    (fails : Bool) :
    (s.phase conn = .good ∧ fails = false ∧
      write s conn isFinal data fails = { s with sent := ⟨conn, isFinal, data⟩ :: s.sent }) ∨
    (s.phase conn = .good ∧ fails = true ∧ write s conn isFinal data fails =
      { s with phase := Function.update s.phase conn .failed, stuck := true }) ∨
    (s.phase conn ≠ .good ∧ write s conn isFinal data fails = s) := by
  unfold write
  by_cases hp : s.phase conn = .good
  · cases fails <;> simp [hp]
  · simp [hp]

theorem sendReply_eq {isFinal fails : Bool} {data : ByteDataWithID}
    (hc : s.clientHandlersByID path data.id = some conn) :
    sendReply s path isFinal data fails =
      write (endRequest s path isFinal data.id conn) conn isFinal data fails := by
  rw [sendReply, hc]

/-- Who a reply is written to, if it is, is who the map says. -/
theorem sent_of_sendReply {isFinal fails : Bool} {data : ByteDataWithID} {w : Sent κ}
    (h : (sendReply s path isFinal data fails).sent = w :: s.sent) :
    s.clientHandlersByID path data.id = some w.conn := by
  cases hc : s.clientHandlersByID path data.id with
  | none =>
      rw [sendReply, hc] at h
      simp at h
  | some conn =>
      rw [sendReply_eq hc] at h
      obtain ⟨-, -, hw⟩ | ⟨-, -, hw⟩ | ⟨-, hw⟩ :=
        write_cases (endRequest s path isFinal data.id conn) conn isFinal data fails
      · rw [hw] at h
        simp only [endRequest_sent, List.cons.injEq, and_true] at h
        rw [← h]
      · rw [hw] at h
        simp [endRequest_sent] at h
      · rw [hw, endRequest_sent] at h
        simp at h

theorem Inv.replyRouting (hi : Inv s) : ReplyRouting s where
  counterpart := fun _ _ _ => hi.counterpart
  waiting := fun _ _ _ => hi.waiting
  present := fun path id conn h => h.elim (hi.present (path, id) conn) hi.present_of_mem
  only := fun path isFinal data fails conn h => hi.waiting.mp (sent_of_sendReply h)
  goes := fun path isFinal data conn hw hp => by
    rw [sendReply_eq (hi.waiting.mpr hw), write, endRequest_phase, if_pos hp]
    simp [endRequest_sent]
  kept := fun gone path id conn hc hne => by
    show (removeClientHandler s gone).maps.owner (path, id) = some conn
    rw [maps_removeClientHandler]
    exact Registry.owner_release_of_ne hi.agrees.inverse hc hne

/-! ## The steps -/

theorem inv_init : Inv (machine κ).init where
  agrees := Registry.agrees_empty
  present := fun key conn ho => by cases ho

/-- The maps are told nothing, and no connection goes. -/
theorem Inv.of_same (hi : Inv s) (hm : s'.maps = s.maps) (hh : s'.history = s.history)
    (hp : ∀ c, s.phase c ≠ .absent → s'.phase c ≠ .absent) : Inv s' where
  agrees := by rw [hm, hh]; exact hi.agrees
  present := fun key c ho => hp c (hi.present key c (hm ▸ ho))

theorem phase_ne_absent {p : Phase} (h : p ≠ .absent) (c : κ) (hc : s.phase c ≠ .absent) :
    Function.update s.phase conn p c ≠ .absent := by
  rw [Function.update_apply]
  split
  · exact h
  · exact hc

/-- A connection that is new has no ids, so it does not matter to the maps what its path is. -/
theorem Inv.onAccept (hi : Inv s) (ha : s.phase conn = .absent) :
    Inv { s with
      phase := Function.update s.phase conn .accepted
      targetPath := Function.update s.targetPath conn path } := by
  refine hi.of_same (maps_eq (fun _ => rfl) fun c => ?_) rfl (phase_ne_absent (by simp))
  by_cases hc : c = conn
  · subst hc
    have hnone : ∀ id, id ∉ s.idsByClientHandler c := fun id hid => hi.present_of_mem hid ha
    have hids := Finset.eq_empty_of_forall_notMem hnone
    simp [State.maps, hids]
  · exact held_congr (Function.update_of_ne hc _ _) rfl

theorem Inv.registerRequest (hi : Inv s) (hgood : s.phase conn = .good)
    (hu : ∀ conn', s.clientHandlersByID (s.targetPath conn) id = some conn' → conn' = conn) :
    Inv (registerRequest s conn id) where
  agrees := by
    rw [maps_registerRequest]
    exact hi.agrees.play (e := .assigned (s.targetPath conn, id) conn) hu
  present := fun key c ho => by
    rw [maps_registerRequest] at ho
    show s.phase c ≠ .absent
    rcases Registry.owner_of_assign ho with rfl | ho
    · simp [hgood]
    · exact hi.present key c ho

theorem Inv.removeClientHandler (hi : Inv s) : Inv (removeClientHandler s conn) where
  agrees := by
    rw [maps_removeClientHandler]
    exact hi.agrees.play (e := .released conn) trivial
  present := fun key c ho => by
    rw [maps_removeClientHandler] at ho
    obtain ⟨hne, ho⟩ := Registry.owner_of_release hi.agrees.inverse ho
    show Function.update s.phase conn .absent c ≠ .absent
    rw [Function.update_of_ne hne]
    exact hi.present key c ho

theorem Inv.endRequest (hi : Inv s) {isFinal : Bool}
    (hc : s.clientHandlersByID path id = some conn) : Inv (endRequest s path isFinal id conn) := by
  cases isFinal with
  | false => exact hi
  | true =>
      refine ⟨?_, fun key c ho => ?_⟩
      · rw [maps_endRequest hi.agrees.inverse hc]
        exact hi.agrees.play (e := .finished (path, id)) trivial
      · rw [maps_endRequest hi.agrees.inverse hc] at ho
        exact hi.present key c (Registry.owner_of_finish ho)

theorem Inv.write (hi : Inv s) {isFinal fails : Bool} {data : ByteDataWithID} :
    Inv (write s conn isFinal data fails) := by
  obtain ⟨-, -, hw⟩ | ⟨-, -, hw⟩ | ⟨-, hw⟩ := write_cases s conn isFinal data fails
  · rw [hw]
    exact hi.of_same rfl rfl fun _ h => h
  · rw [hw]
    exact hi.of_same rfl rfl (phase_ne_absent (by simp))
  · rw [hw]
    exact hi

theorem Inv.sendReply (hi : Inv s) {isFinal fails : Bool} {data : ByteDataWithID} :
    Inv (sendReply s path isFinal data fails) := by
  cases hc : s.clientHandlersByID path data.id with
  | none =>
      rw [WebSocketRPCServer.sendReply, hc]
      exact hi
  | some conn =>
      rw [sendReply_eq hc]
      exact (hi.endRequest hc).write

theorem inv_step {a : Act κ} (hi : Inv s) (hg : OwnIds s a) (hs : step s a = some s') :
    Inv s' := by
  cases a with
  | onAccept conn path =>
      obtain ⟨⟨-, ha⟩, rfl⟩ := of_guarded hs
      exact hi.onAccept ha
  | onWsHandshake conn =>
      obtain ⟨-, rfl⟩ := of_guarded hs
      exact hi.of_same rfl rfl (phase_ne_absent (by simp))
  | fail conn =>
      obtain ⟨-, rfl⟩ := of_guarded hs
      exact hi.of_same rfl rfl (phase_ne_absent (by simp))
  | removeClientHandler conn =>
      obtain ⟨-, rfl⟩ := of_guarded hs
      exact hi.removeClientHandler
  | callServer conn data =>
      obtain ⟨⟨-, hgood⟩, rfl⟩ := of_guarded hs
      exact hi.registerRequest hgood hg
  | sendReply path isFinal data fails =>
      obtain ⟨-, rfl⟩ := of_guarded hs
      exact hi.sendReply

/-- A request on one of two connections, two replies, and the end of the connection. -/
def streamReplies : List (Act Bool) :=
  [.onAccept false "/p", .onAccept true "/p", .onWsHandshake false, .onWsHandshake true,
    .callServer false ⟨"x", "?"⟩, .callServer true ⟨"y", "?"⟩,
    .sendReply "/p" false ⟨"x", "1"⟩ false, .sendReply "/p" true ⟨"x", "2"⟩ false,
    .callServer true ⟨"x", "?"⟩, .fail false, .removeClientHandler false]

theorem streamReplies_ownIds : (machine Bool).Within OwnIds (machine Bool).init streamReplies := by
  refine ⟨trivial, trivial, trivial, trivial, ?_, ?_, trivial, trivial, ?_, trivial, trivial,
    trivial⟩
  · intro conn' h
    cases h
  · intro conn' h
    revert conn'
    decide +kernel
  · intro conn' h
    revert conn'
    decide +kernel

/-- The second connection uses the first one's id, and the first one breaks. -/
def takeOver : List (Act Bool) :=
  [.onAccept false "/p", .onAccept true "/p", .onWsHandshake false, .onWsHandshake true,
    .callServer false ⟨"x", "?"⟩, .callServer true ⟨"x", "?"⟩, .fail false,
    .removeClientHandler false]

end WebSocketRPCServer
