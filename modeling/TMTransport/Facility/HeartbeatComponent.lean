import Mathlib.Data.List.Induction
import TMTransport.Facility.HeartbeatMessage

/-!
# Setting up the heartbeat component

`HeartbeatAndAlertComponent`: the pieces of a program add their channels, statuses and handlers to
it, and somebody assigns it an identity, which says who the program is, which clock it goes by and
where heartbeats are published. These calls come in any order.

`assignIdentity` leaves channels and statuses as they are, but it takes over the handlers of the
component that it is given, and has none of its own after that. So all is there in a heartbeat, and
all handlers get it, exactly as long as nobody adds a handler before an identity is assigned
(`publishes_iff`).
-/

namespace HeartbeatComponent

open HeartbeatMessages NamedFields

/-- `HeartbeatAndAlertComponentImpl`, with clocks `C`, publishers `P` and handlers `H`. -/
structure Component (C P H : Type) where
  uuidStr : String
  clock : Option C
  host : String
  pid : Int64
  identity : String
  publisher : Option P
  broadcastChannels : StringMap (List String)
  facilityChannels : StringMap String
  status : StringMap OneItemStatus
  extraHandlers : List H

/-- The constructors. They differ in what they have to hand on. -/
def construct {C P H : Type} (uuidStr : String) (clock : Option C) (host : String) (pid : Int64)
    (identity : String) (publisher : Option P) : Component C P H where
  uuidStr := uuidStr
  clock := clock
  host := host
  pid := pid
  identity := identity
  publisher := publisher
  broadcastChannels := ∅
  facilityChannels := ∅
  status := ∅
  extraHandlers := []

inductive Call (C P H : Type) where
  | assignIdentity (another : Component C P H)
  | addBroadcastChannel (name channel : String)
  | addFacilityChannel (name channel : String)
  | setStatus (itemDescription : String) (status : Status) (info : String)
  | addExtraHeartbeatHandler (handler : H)
  /-- `now` is what the clocks show. -/
  | publishHeartbeat (heartbeatTopic : String) (now : C → Int64)

/-- What a call of `publishHeartbeat` does. -/
structure Published (P H : Type) where
  /-- publisher, topic and content -/
  sent : List (P × String × Item)
  handled : List (H × HeartbeatMessage)

variable {C P H : Type}

namespace Component

variable (s : Component C P H)

def assignIdentity (another : Component C P H) : Component C P H :=
  { s with
    clock := another.clock
    host := another.host
    pid := another.pid
    identity := another.identity
    publisher := another.publisher
    extraHandlers := another.extraHandlers }

def addBroadcastChannel (name channel : String) : Component C P H :=
  let channelVec := (s.broadcastChannels.lookup name).getD []
  { s with
    broadcastChannels := s.broadcastChannels.insert name
      (if channel ∈ channelVec then channelVec else channelVec ++ [channel]) }

def addFacilityChannel (name channel : String) : Component C P H :=
  { s with
    facilityChannels :=
      if name ∈ s.facilityChannels then s.facilityChannels
      else s.facilityChannels.insert name channel }

def setStatus (itemDescription : String) (status : Status) (info : String) : Component C P H :=
  { s with status := s.status.insert itemDescription ⟨status, info⟩ }

def addExtraHeartbeatHandler (handler : H) : Component C P H :=
  { s with extraHandlers := s.extraHandlers ++ [handler] }

def message (now : Int64) : HeartbeatMessage where
  uuidStr := s.uuidStr
  heartbeatTime := now
  host := s.host
  pid := s.pid
  senderDescription := s.identity
  broadcastChannels := s.broadcastChannels
  facilityChannels := s.facilityChannels
  details := s.status

/-- The handlers one after the other. The last one gets the message itself, the others a copy. -/
def passOn (msg : HeartbeatMessage) : List H → List (H × HeartbeatMessage)
  | [] => []
  | [handler] => [(handler, msg)]
  | handler :: next :: rest => (handler, msg) :: passOn msg (next :: rest)

def publishHeartbeat (heartbeatTopic : String) (now : C → Int64) : Published P H :=
  match s.publisher, s.clock with
  | some publisher, some clock =>
    let msg := s.message (now clock)
    { sent := [(publisher, heartbeatTopic, msg.serializeToString)]
      handled := passOn msg s.extraHandlers }
  | _, _ => ⟨[], []⟩

def call : Call C P H → Component C P H
  | .assignIdentity another => s.assignIdentity another
  | .addBroadcastChannel name channel => s.addBroadcastChannel name channel
  | .addFacilityChannel name channel => s.addFacilityChannel name channel
  | .setStatus itemDescription status info => s.setStatus itemDescription status info
  | .addExtraHeartbeatHandler handler => s.addExtraHeartbeatHandler handler
  | .publishHeartbeat _ _ => s

def calls (cs : List (Call C P H)) : Component C P H := cs.foldl call s

end Component

/-! ## What should be published -/

/-- The identity that a call assigns. -/
def Call.assigned : Call C P H → Option (Component C P H)
  | .assignIdentity another => some another
  | _ => none

/-- The handlers that a call brings. -/
def Call.handlers : Call C P H → List H
  | .addExtraHeartbeatHandler handler => [handler]
  | .assignIdentity another => another.extraHandlers
  | _ => []

/-- The channel that a call adds for a facility. -/
def Call.facilityChannel (name : String) : Call C P H → Option String
  | .addFacilityChannel name' channel => if name' = name then some channel else none
  | _ => none

/-- The status that a call sets for an item. -/
def Call.itemStatus (item : String) : Call C P H → Option OneItemStatus
  | .setStatus item' status info => if item' = item then some ⟨status, info⟩ else none
  | _ => none

def latestIdentity (cs : List (Call C P H)) : Option (Component C P H) :=
  cs.reverse.findSome? Call.assigned

def handlersAdded (cs : List (Call C P H)) : List H := cs.flatMap Call.handlers

def firstFacilityChannel (cs : List (Call C P H)) (name : String) : Option String :=
  cs.findSome? (Call.facilityChannel name)

def latestStatus (cs : List (Call C P H)) (item : String) : Option OneItemStatus :=
  cs.reverse.findSome? (Call.itemStatus item)

/-- The channels are those that were added, each one once. -/
structure AllChannels (cs : List (Call C P H)) (m : StringMap (List String)) : Prop where
  mem_iff : ∀ name channel,
    (∃ l, m.lookup name = some l ∧ channel ∈ l) ↔ .addBroadcastChannel name channel ∈ cs
  once : ∀ name l, m.lookup name = some l → l ≠ [] ∧ l.Nodup

/-- The message says what these calls said, with the identity `a`. -/
structure Tells (uuidStr : String) (cs : List (Call C P H)) (a : Component C P H) (now : Int64)
    (msg : HeartbeatMessage) : Prop where
  uuidStr : msg.uuidStr = uuidStr
  heartbeatTime : msg.heartbeatTime = now
  host : msg.host = a.host
  pid : msg.pid = a.pid
  senderDescription : msg.senderDescription = a.identity
  broadcastChannels : AllChannels cs msg.broadcastChannels
  facilityChannels : ∀ name, msg.facilityChannels.lookup name = firstFacilityChannel cs name
  details : ∀ item, msg.details.lookup item = latestStatus cs item

/-- One heartbeat is sent, and all handlers get just this message once. -/
def Complete (uuidStr : String) (cs : List (Call C P H)) (topic : String) (now : C → Int64)
    (published : Published P H) : Prop :=
  ∃ a clock publisher msg, latestIdentity cs = some a ∧ a.clock = some clock ∧
    a.publisher = some publisher ∧ Tells uuidStr cs a (now clock) msg ∧
    published.sent = [(publisher, topic, msg.serializeToString)] ∧
    published.handled.Perm ((handlersAdded cs).map fun handler => (handler, msg))

/-- There has been an identity with a clock and a publisher. -/
def Equipped (cs : List (Call C P H)) : Prop :=
  ∃ a, .assignIdentity a ∈ cs ∧ a.clock.isSome ∧ a.publisher.isSome

/-- No handler has been added before an identity was assigned. -/
def HandlersLast (cs : List (Call C P H)) : Prop :=
  ∀ before a after, cs = before ++ .assignIdentity a :: after → handlersAdded before = []

section Runs

variable {s : Component C P H} {cs : List (Call C P H)}

theorem calls_append (cs : List (Call C P H)) (c : Call C P H) :
    s.calls (cs ++ [c]) = (s.calls cs).call c := List.foldl_append

theorem uuidStr_calls (cs : List (Call C P H)) : (s.calls cs).uuidStr = s.uuidStr := by
  induction cs using List.reverseRecOn with
  | nil => rfl
  | append_singleton cs c ih =>
      rw [calls_append, ← ih]
      cases c <;> rfl

/-- The component has the identity that was assigned last. -/
theorem identity_calls {a : Component C P H} (h : latestIdentity cs = some a) :
    (s.calls cs).clock = a.clock ∧ (s.calls cs).host = a.host ∧
      (s.calls cs).pid = a.pid ∧ (s.calls cs).identity = a.identity ∧
      (s.calls cs).publisher = a.publisher := by
  induction cs using List.reverseRecOn with
  | nil => cases h
  | append_singleton cs c ih =>
      rw [calls_append]
      rw [latestIdentity, List.reverse_append, List.reverse_singleton, List.singleton_append,
        List.findSome?_cons] at h
      cases c with
      | assignIdentity another =>
          obtain rfl : another = a := Option.some.inj h
          exact ⟨rfl, rfl, rfl, rfl, rfl⟩
      | _ => exact ih h

theorem facilityChannels_calls (hstart : s.facilityChannels = ∅) (cs : List (Call C P H))
    (name : String) :
    (s.calls cs).facilityChannels.lookup name = firstFacilityChannel cs name := by
  induction cs using List.reverseRecOn with
  | nil =>
      show s.facilityChannels.lookup name = none
      rw [hstart]
      rfl
  | append_singleton cs c ih =>
      rw [calls_append, firstFacilityChannel, List.findSome?_append, ← firstFacilityChannel, ← ih,
        List.findSome?_singleton]
      cases c with
      | addFacilityChannel name' channel =>
          show AList.lookup name
              (if name' ∈ (s.calls cs).facilityChannels then _ else _ : StringMap String) =
            ((s.calls cs).facilityChannels.lookup name).or
              (if name' = name then some channel else none)
          by_cases heq : name' = name
          · subst heq
            rw [if_pos rfl]
            split
            · next hmem =>
              obtain ⟨old, hold⟩ := Option.isSome_iff_exists.mp (AList.lookup_isSome.mpr hmem)
              rw [hold]
              rfl
            · next hmem =>
              rw [AList.lookup_insert, AList.lookup_eq_none.mpr hmem]
              rfl
          · rw [if_neg heq, Option.or_none]
            split
            · rfl
            · exact AList.lookup_insert_ne (Ne.symm heq)
      | _ => exact Option.or_none.symm

theorem status_calls (hstart : s.status = ∅) (cs : List (Call C P H)) (item : String) :
    (s.calls cs).status.lookup item = latestStatus cs item := by
  induction cs using List.reverseRecOn with
  | nil =>
      show s.status.lookup item = none
      rw [hstart]
      rfl
  | append_singleton cs c ih =>
      rw [calls_append, latestStatus, List.reverse_append, List.reverse_singleton,
        List.singleton_append, List.findSome?_cons, ← latestStatus, ← ih]
      cases c with
      | setStatus item' status info =>
          show AList.lookup item (AList.insert item' _ (s.calls cs).status) = _
          by_cases heq : item' = item
          · subst heq
            rw [AList.lookup_insert, Call.itemStatus, if_pos rfl]
          · rw [AList.lookup_insert_ne (Ne.symm heq), Call.itemStatus, if_neg heq]
      | _ => rfl

/-- A call that adds no channel. -/
theorem AllChannels.append_other {m : StringMap (List String)} (h : AllChannels cs m)
    {c : Call C P H} (hc : ∀ name channel, c ≠ .addBroadcastChannel name channel) :
    AllChannels (cs ++ [c]) m := by
  refine ⟨fun name channel => ?_, h.once⟩
  rw [h.mem_iff, List.mem_append, List.mem_singleton]
  exact (or_iff_left fun heq => hc name channel heq.symm).symm

theorem AllChannels.append {m : StringMap (List String)} (h : AllChannels cs m)
    (name channel : String) :
    let channelVec := (m.lookup name).getD []
    AllChannels (cs ++ [.addBroadcastChannel name channel]) (m.insert name
      (if channel ∈ channelVec then channelVec else channelVec ++ [channel])) := by
  intro channelVec
  have hold : ∀ x, x ∈ channelVec ↔ .addBroadcastChannel name x ∈ cs := by
    intro x
    rw [← h.mem_iff]
    cases hl : m.lookup name with
    | none =>
        refine iff_of_false (fun hx => ?_) fun ⟨l, hl', _⟩ => ?_
        · simp [channelVec, hl] at hx
        · cases hl'
    | some l =>
        refine ⟨fun hx => ⟨l, rfl, ?_⟩, fun ⟨l', hl', hx⟩ => ?_⟩
        · simpa [channelVec, hl] using hx
        · obtain rfl := Option.some.inj hl'
          simpa [channelVec, hl] using hx
  have hnodup : channelVec.Nodup := by
    cases hl : m.lookup name with
    | none => simp [channelVec, hl]
    | some l => simpa [channelVec, hl] using (h.once name l hl).2
  constructor
  case mem_iff =>
    intro name' x
    rw [List.mem_append, List.mem_singleton, Call.addBroadcastChannel.injEq, ← h.mem_iff]
    by_cases heq : name' = name
    · subst heq
      rw [h.mem_iff, ← hold, AList.lookup_insert]
      simp only [Option.some.injEq, exists_eq_left', true_and]
      split
      · next hmem =>
        refine (or_iff_left_of_imp fun hx => ?_).symm
        rw [hx]
        exact hmem
      · rw [List.mem_append, List.mem_singleton]
    · rw [AList.lookup_insert_ne heq]
      exact (or_iff_left fun hx => heq hx.1).symm
  case once =>
    intro name' l hl
    by_cases heq : name' = name
    · subst heq
      rw [AList.lookup_insert] at hl
      obtain rfl := Option.some.inj hl
      split
      · next hmem => exact ⟨List.ne_nil_of_mem hmem, hnodup⟩
      · next hmem =>
        refine ⟨List.append_ne_nil_of_right_ne_nil _ (List.cons_ne_nil _ _), ?_⟩
        exact List.nodup_append.mpr ⟨hnodup, List.nodup_singleton _, fun a ha b hb heq => by
          rw [heq, List.mem_singleton.mp hb] at ha
          exact hmem ha⟩
    · rw [AList.lookup_insert_ne heq] at hl
      exact h.once name' l hl

theorem broadcastChannels_calls (hstart : s.broadcastChannels = ∅)
    (cs : List (Call C P H)) : AllChannels cs (s.calls cs).broadcastChannels := by
  induction cs using List.reverseRecOn with
  | nil =>
      show AllChannels [] s.broadcastChannels
      rw [hstart]
      refine ⟨fun name channel => iff_of_false ?_ List.not_mem_nil, fun name l hl => ?_⟩
      · intro ⟨l, hl, _⟩
        cases hl
      · cases hl
  | append_singleton cs c ih =>
      rw [calls_append]
      cases c with
      | addBroadcastChannel name channel => exact ih.append name channel
      | _ => exact ih.append_other fun _ _ heq => (by cases heq)

theorem handlersAdded_append (cs : List (Call C P H)) (c : Call C P H) :
    handlersAdded (cs ++ [c]) = handlersAdded cs ++ c.handlers := by
  rw [handlersAdded, List.flatMap_append, List.flatMap_singleton, ← handlersAdded]

theorem handlersLast_append (c : Call C P H) :
    HandlersLast (cs ++ [c]) ↔
      HandlersLast cs ∧ ∀ a, c = .assignIdentity a → handlersAdded cs = [] := by
  refine ⟨fun h => ⟨fun before a after heq => ?_, fun a heq => ?_⟩, fun ⟨h, hlast⟩ => ?_⟩
  · refine h before a (after ++ [c]) ?_
    rw [heq, List.append_assoc, List.cons_append]
  · subst heq
    exact h cs a [] rfl
  · intro before a after heq
    rcases List.eq_nil_or_concat after with rfl | ⟨after, c', rfl⟩
    · obtain ⟨rfl, hc⟩ := List.append_inj' heq rfl
      exact hlast a (List.cons.inj hc).1
    · rw [List.concat_eq_append, ← List.cons_append, ← List.append_assoc] at heq
      obtain ⟨rfl, -⟩ := List.append_inj' heq rfl
      exact h before a after rfl

/-- Without a handler there is none before an identity either. -/
theorem handlersLast_of_none (h : handlersAdded cs = []) : HandlersLast cs := by
  intro before a after heq
  rw [heq, handlersAdded, List.flatMap_append] at h
  exact (List.append_eq_nil_iff.mp h).1

/-- What has become of the handlers that were added. -/
theorem handlers_calls (hstart : s.extraHandlers = []) (cs : List (Call C P H)) :
    ∃ lost, handlersAdded cs = lost ++ (s.calls cs).extraHandlers ∧
      (lost = [] ↔ HandlersLast cs) := by
  induction cs using List.reverseRecOn with
  | nil => exact ⟨[], hstart.symm, iff_of_true rfl (handlersLast_of_none rfl)⟩
  | append_singleton cs c ih =>
      obtain ⟨lost, hadded, hlost⟩ := ih
      rw [calls_append, handlersAdded_append, handlersLast_append]
      have hkept : (∀ a, c ≠ .assignIdentity a) →
          (lost = [] ↔ HandlersLast cs ∧ ∀ a, c = .assignIdentity a → handlersAdded cs = []) :=
        fun hc => hlost.trans (and_iff_left fun a heq => absurd heq (hc a)).symm
      cases c with
      | assignIdentity another =>
          -- all that there were are lost
          refine ⟨handlersAdded cs, rfl, fun h => ⟨handlersLast_of_none h, fun _ _ => h⟩, ?_⟩
          exact fun h => h.2 another rfl
      | addExtraHeartbeatHandler handler =>
          refine ⟨lost, ?_, hkept fun _ heq => (by cases heq)⟩
          rw [hadded, List.append_assoc]
          rfl
      | _ =>
          refine ⟨lost, ?_, hkept fun _ heq => (by cases heq)⟩
          rw [hadded]
          exact List.append_nil _

theorem passOn_eq (msg : HeartbeatMessage) (handlers : List H) :
    Component.passOn msg handlers = handlers.map fun handler => (handler, msg) := by
  induction handlers with
  | nil => rfl
  | cons handler rest ih =>
      cases rest with
      | nil => rfl
      | cons next rest => exact congrArg (_ :: ·) ih

/-- Whoever was equipped has an identity, but not necessarily that one. -/
theorem Equipped.exists_latest (h : Equipped cs) : ∃ a, latestIdentity cs = some a := by
  obtain ⟨a, hmem, -⟩ := h
  refine Option.isSome_iff_exists.mp ?_
  rw [latestIdentity, List.findSome?_isSome_iff]
  exact ⟨_, List.mem_reverse.mpr hmem, rfl⟩

/-- The identity that counts has a clock and a publisher, and the handlers came after it. -/
def SetUp (cs : List (Call C P H)) : Prop :=
  (∀ a, latestIdentity cs = some a → a.clock.isSome ∧ a.publisher.isSome) ∧ HandlersLast cs

theorem complete_of_setUp (hbroadcast : s.broadcastChannels = ∅)
    (hfacility : s.facilityChannels = ∅) (hstatus : s.status = ∅)
    (hhandlers : s.extraHandlers = []) (hequipped : Equipped cs) (h : SetUp cs)
    (topic : String) (now : C → Int64) :
    Complete s.uuidStr cs topic now ((s.calls cs).publishHeartbeat topic now) := by
  obtain ⟨a, ha⟩ := hequipped.exists_latest
  obtain ⟨hclock, hhost, hpid, hidentity, hpublisher⟩ := identity_calls (s := s) ha
  obtain ⟨lost, hadded, hlost⟩ := handlers_calls hhandlers cs
  obtain ⟨hc, hp⟩ := h.1 a ha
  obtain ⟨clock, hclock'⟩ := Option.isSome_iff_exists.mp hc
  obtain ⟨publisher, hpublisher'⟩ := Option.isSome_iff_exists.mp hp
  refine ⟨a, clock, publisher, (s.calls cs).message (now clock), ha, hclock', hpublisher',
    ?_, ?_, ?_⟩
  · exact {
      uuidStr := uuidStr_calls cs
      heartbeatTime := rfl
      host := hhost
      pid := hpid
      senderDescription := hidentity
      broadcastChannels := broadcastChannels_calls hbroadcast cs
      facilityChannels := facilityChannels_calls hfacility cs
      details := status_calls hstatus cs }
  · rw [Component.publishHeartbeat, hclock, hpublisher, hclock', hpublisher']
  · rw [hlost.mpr h.2, List.nil_append] at hadded
    rw [Component.publishHeartbeat, hclock, hpublisher, hclock', hpublisher', hadded]
    exact .of_eq (passOn_eq _ _)

theorem setUp_of_complete (hhandlers : s.extraHandlers = []) {topic : String}
    {now : C → Int64} {uuidStr : String}
    (h : Complete uuidStr cs topic now ((s.calls cs).publishHeartbeat topic now)) :
    SetUp cs := by
  obtain ⟨a, clock, publisher, msg, ha, hclock', hpublisher', -, -, hhandled⟩ := h
  obtain ⟨hclock, -, -, -, hpublisher⟩ := identity_calls (s := s) ha
  obtain ⟨lost, hadded, hlost⟩ := handlers_calls hhandlers cs
  refine ⟨fun a' ha' => ?_, hlost.mp ?_⟩
  · obtain rfl : a = a' := Option.some.inj (ha.symm.trans ha')
    exact ⟨by rw [hclock']; rfl, by rw [hpublisher']; rfl⟩
  · -- those that were called are as many as those that were added
    have hlength := hhandled.length_eq
    rw [Component.publishHeartbeat, hclock, hpublisher, hclock', hpublisher'] at hlength
    simp only [passOn_eq, List.length_map, hadded, List.length_append] at hlength
    exact List.eq_nil_of_length_eq_zero (by omega)

end Runs

/--
**The order of the calls does not matter**, however the component was made, if and only if no
handler was added before an identity was assigned, and the latest one has a clock and a publisher.
-/
theorem publishes_iff (uuidStr : String) (clock : Option C) (host : String) (pid : Int64)
    (identity : String) (publisher : Option P) (cs : List (Call C P H)) (topic : String)
    (now : C → Int64) :
    (Equipped cs → Complete uuidStr cs topic now
      (((construct uuidStr clock host pid identity publisher).calls cs).publishHeartbeat
        topic now)) ↔ (Equipped cs → SetUp cs) :=
  forall_congr' fun hequipped => ⟨setUp_of_complete rfl, fun h =>
    complete_of_setUp (s := construct uuidStr clock host pid identity publisher) rfl rfl rfl rfl
      hequipped h topic now⟩

/-- An identity as a transport's initializer makes it. -/
def newIdentity : Component Unit Unit Unit := construct "u" (some ()) "h" 7 "server" (some ())

/-- A handler that is added first hears nothing. -/
theorem handler_lost :
    ¬ (∀ cs : List (Call Unit Unit Unit), Equipped cs → Complete "c" cs "heartbeat" (fun _ => 0)
      (((construct "c" none "" 0 "" none).calls cs).publishHeartbeat "heartbeat" fun _ => 0)) := by
  intro h
  have hequipped : Equipped [.addExtraHeartbeatHandler (), .assignIdentity newIdentity] :=
    ⟨newIdentity, List.mem_cons_of_mem _ List.mem_cons_self, rfl, rfl⟩
  obtain ⟨a, clock, publisher, msg, -, -, -, -, -, hhandled⟩ := h _ hequipped
  have hlength := hhandled.length_eq
  cases hlength

end HeartbeatComponent
