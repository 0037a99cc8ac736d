import Mathlib.Algebra.Ring.Nat
import Mathlib.Data.List.Nodup
import TMTransport.Broadcast.FanOut
import TMTransport.Library.Machine
import TMTransport.Locator.ConnectionLocator

/-!
# The WebSocket subscribers

A subscriber is a connection with the clients that are called for what comes in on
it. The registry has one for each locator, where a port that is left out stands for
80, or for 443 with TLS. When a connection fails, its subscriber is replaced by a new
one, which takes over the clients.

A subscriber runs as a chain of completion handlers, in which each handler starts the
next operation. The handler that gets an error ends the chain and has the subscriber
of its locator replaced, whichever that is.
-/

namespace WebSocketSubscribers

open ConnectionLocator Framing Interleave Subscription Subscription.WebSocket

/-- `websocket_addSubscriptionClient`: the locator with the port that is meant. -/
def actualLocator (tls : Bool) (locator : Locator) : Locator :=
  { locator with port := if locator.port = 0 then (if tls then 443 else 80) else locator.port }

def ignoresTopic (locator : Locator) : Bool :=
  locator.properties.find "ignoreTopic".toList = some "true".toList

structure Registration where
  locator : Locator
  topic : TopicSelection
  client : ClientCB

def Registration.id (r : Registration) : Nat := r.client.id

/-- What is kept of a registration by the subscriber of its locator. -/
def Registration.entry (r : Registration) : TopicSelection × ClientCB :=
  (OneSubscriber.selection (ignoresTopic r.locator) r.topic, r.client)

/-- What has happened. -/
inductive Event where
  /-- A client has been attached, for the locator with its port. -/
  | added (r : Registration)
  | removed (id : Nat)
  /-- A subscriber for the locator has read the message, and made these calls. -/
  | read (locator : Locator) (message : Option ByteDataWithTopic)
      (calls : List (Nat × ByteDataWithTopic))

/-- How it goes when a subscriber is made and started. Without TLS it works. -/
inductive Setup where
  | works
  /-- The certificates cannot be used: `initializationFailure`. -/
  | initializationFails
  /-- `run` returns before it starts to resolve. -/
  | setHostNameFails
  /-- `run` calls `removeSubscriber`. -/
  | tlsextHostNameFails
  deriving DecidableEq

structure Running where
  locator : Locator
  subscriber : OneSubscriber
  initializationFailure : Bool
  /-- How many chains of handlers there are. -/
  chains : Nat

structure State where
  /-- All the subscribers that have been made. -/
  made : Nat → Running
  count : Nat
  subscriberMap : Locator → Option Nat
  /-- `subscriberClientIDToSubscriberLocatorMap_` -/
  locatorOfID : Nat → Option Locator
  /-- `subscriberClientIDCounter_`, a `uint32_t` -/
  counter : Nat
  /-- A thread has tried to lock `subscriberMapMutex_` while it had it locked. -/
  stuck : Bool
  /-- The latest event comes first. -/
  history : List Event

inductive Act where
  | addSubscriptionClient (tls : Bool) (locator : Locator) (topic : TopicSelection)
      (client : ClientCB) (setup : Setup)
  | removeSubscriptionClient (id : Nat)
  /-- A handler of the subscriber gets an error. -/
  | fail (o : Nat) (setup : Setup)
  | onRead (o : Nat) (input : Bytes)

section Step

/-- Change a subscriber. -/
def State.modify (s : State) (o : Nat) (f : Running → Running) : State :=
  { s with made := Function.update s.made o (f (s.made o)) }

/-- Make a subscriber; its place is `s.count`. -/
def State.make (s : State) (r : Running) : State :=
  { s with made := Function.update s.made s.count r, count := s.count + 1 }

/-- `OneSubscriber::run`, which is called with `subscriberMapMutex_` locked. -/
def run (s : State) (o : Nat) : Setup → State
  | .works => s.modify o fun r => { r with chains := r.chains + 1 }
  | .tlsextHostNameFails => { s with stuck := true }
  | _ => s

/-- The client is attached to the subscriber. -/
def attach (s : State) (o : Nat) (r : Registration) : State :=
  { s.modify o fun x => { x with subscriber := x.subscriber.addClient r.client r.topic } with
    locatorOfID := Function.update s.locatorOfID r.id (some r.locator)
    history := .added r :: s.history }

/-- What `subscriberMap_` has, after a subscriber was looked for and perhaps made and started. -/
def findOrMake (s : State) (locator actual : Locator) (setup : Setup) : State × Option Nat :=
  match s.subscriberMap locator with
  | some o => (s, some o)
  | none =>
    match s.subscriberMap actual with
    | some o =>
      -- the new subscriber is not inserted, since there is one; that one is started again
      if (s.made o).initializationFailure then
        ({ s with subscriberMap := Function.update s.subscriberMap actual none }, none)
      else (run s o setup, some o)
    | none =>
      if setup = .initializationFails then (s, none)
      else
        let s' := { s.make ⟨actual, .empty (ignoresTopic actual), false, 0⟩ with
          subscriberMap := Function.update s.subscriberMap actual (some s.count) }
        (run s' s.count setup, some s.count)

def addSubscriptionClient (s : State) (tls : Bool) (locator : Locator) (topic : TopicSelection)
    (client : ClientCB) (setup : Setup) : State :=
  let id := (s.counter + 1) % 2 ^ 32
  let actual := actualLocator tls locator
  match findOrMake { s with counter := id } locator actual setup with
  | (s', some o) => if s'.stuck then s' else attach s' o ⟨actual, topic, { client with id := id }⟩
  | (s', none) => s'

def removeSubscriptionClient (s : State) (id : Nat) : State :=
  match s.locatorOfID id with
  | none => s
  | some locator =>
    let s' := match s.subscriberMap locator with
      | some o => s.modify o fun x => { x with subscriber := x.subscriber.removeClient id }
      | none => s
    { s' with
      locatorOfID := Function.update s.locatorOfID id none
      history := .removed id :: s.history }

/-- The new subscriber has the clients of `r`. -/
def replacement (r : Running) (setup : Setup) : Running :=
  ⟨r.locator, r.subscriber, setup = .initializationFails, 0⟩

/-- `removeSubscriber`, with `moveToNewOne`. -/
def removeSubscriber (s : State) (locator : Locator) (setup : Setup) : State :=
  match s.subscriberMap locator with
  | none => s
  | some o =>
    let old := s.made o
    let s' := (s.modify o fun r => { r with subscriber := .empty r.subscriber.ignoreTopic }).make
      (replacement old setup)
    let s'' := if setup = .initializationFails then s' else run s' s.count setup
    if s''.stuck then s''
    else { s'' with subscriberMap := Function.update s.subscriberMap locator (some s.count) }

variable (cbor : Bytes → Option (ByteDataWithTopic × Nat))

/-- The calls that are made when a subscriber reads: which client, and with what. -/
def callsOf (s : OneSubscriber) (input : Bytes) : List (Nat × ByteDataWithTopic) :=
  (s.clients.registered.zip ((Subscriber.webSocket s).receive cbor input)).filterMap fun x =>
    x.2.map (x.1.2.id, ·)

def onRead (s : State) (o : Nat) (input : Bytes) : State :=
  let r := s.made o
  { s with
    history := .read r.locator ((Subscriber.webSocket r.subscriber).message cbor input)
      (callsOf cbor r.subscriber input) :: s.history }

def step (s : State) : Act → Option State
  | .addSubscriptionClient tls locator topic client setup =>
    if s.stuck = false then some (addSubscriptionClient s tls locator topic client setup) else none
  | .removeSubscriptionClient id =>
    if s.stuck = false then some (removeSubscriptionClient s id) else none
  | .fail o setup =>
    if s.stuck = false ∧ 0 < (s.made o).chains then
      some (removeSubscriber (s.modify o fun r => { r with chains := r.chains - 1 })
        (s.made o).locator setup)
    else none
  | .onRead o input => if 0 < (s.made o).chains then some (onRead cbor s o input) else none

def machine : Machine State Act where
  init :=
    ⟨fun _ => ⟨default, .empty false, false, 0⟩, 0, fun _ => none, fun _ => none, 0, false, []⟩
  step := step cbor

end Step

/-! ## What should hold -/

/-- The clients that have been added and not been removed. -/
def live : List Event → List Registration
  | [] => []
  | .added r :: h => r :: live h
  | .removed id :: h => (live h).filter fun r => r.id ≠ id
  | .read _ _ _ :: h => live h

def liveFor (h : List Event) (locator : Locator) : List Registration :=
  (live h).filter fun r => r.locator = locator

/-- The calls that a message is to lead to. -/
def expected (h : List Event) (locator : Locator) (message : Option ByteDataWithTopic) :
    List (Nat × ByteDataWithTopic) :=
  (liveFor h locator).filterMap fun r => (message.bind (got r.entry)).map (r.id, ·)

def State.IsRunning (s : State) (o : Nat) : Prop := 0 < (s.made o).chains

def State.ids (s : State) (o : Nat) : List Nat :=
  (s.made o).subscriber.clients.registered.map fun f => f.2.id

structure RightRegistry (s : State) : Prop where
  /-- For a locator that was added there is one running subscriber, and the registry has it. -/
  one : ∀ r, .added r ∈ s.history → ∃ o, s.subscriberMap r.locator = some o ∧
    ∀ o', s.IsRunning o' ∧ (s.made o').locator = r.locator ↔ o' = o
  /-- A client is attached to the running subscriber of its locator, and to no other. -/
  attached : ∀ r ∈ live s.history, ∀ o, s.IsRunning o →
    (r.id ∈ s.ids o ↔ (s.made o).locator = r.locator)
  once : ∀ o, s.IsRunning o → (s.ids o).Nodup
  called : ∀ since before locator message calls,
    s.history = since ++ .read locator message calls :: before →
      calls.Perm (expected before locator message)
  never : ∀ since before id, s.history = since ++ .removed id :: before →
    ∀ locator message calls, .read locator message calls ∈ since →
      ∀ c ∈ calls, c.1 ≠ id

/--
A locator without a port comes with the first client for what it means only; a subscriber that is
made can be started; there are fewer than `2 ^ 32` clients; and where a message is read, no client
takes from it what a later one needs.
-/
def Orderly (cbor : Bytes → Option (ByteDataWithTopic × Nat)) (s : State) : Act → Prop
  | .addSubscriptionClient tls locator _ _ setup =>
      s.counter + 1 < 2 ^ 32 ∧
        (locator.port = 0 → s.subscriberMap (actualLocator tls locator) = none) ∧
        (s.subscriberMap (actualLocator tls locator) = none → setup = .works)
  | .removeSubscriptionClient _ => True
  | .fail _ setup => setup = .works
  | .onRead o input => Undisturbed cbor (.webSocket (s.made o).subscriber) input

/-! ## The invariant -/

structure Inv (s : State) : Prop where
  free : s.stuck = false
  /-- What the registry has for a locator runs, and has the locator's clients. -/
  mapped : ∀ locator o, s.subscriberMap locator = some o →
    o < s.count ∧ locator.port ≠ 0 ∧ (s.made o).locator = locator ∧ (s.made o).chains = 1 ∧
      (s.made o).initializationFailure = false ∧
      (s.made o).subscriber.ignoreTopic = ignoresTopic locator ∧
      (s.made o).subscriber.clients.registered.Perm
        ((liveFor s.history locator).map Registration.entry)
  /-- Nothing else runs. -/
  others : ∀ o, s.subscriberMap (s.made o).locator ≠ some o → (s.made o).chains = 0
  found : ∀ r, .added r ∈ s.history → s.subscriberMap r.locator ≠ none
  byID : ∀ id locator, s.locatorOfID id = some locator ↔
    ∃ r ∈ live s.history, r.id = id ∧ r.locator = locator
  nodup : ((live s.history).map Registration.id).Nodup
  old : ∀ r, .added r ∈ s.history → r.id ≤ s.counter
  gone : ∀ id, .removed id ∈ s.history → id ≤ s.counter ∧ ∀ r ∈ live s.history, r.id ≠ id
  called : ∀ since before locator message calls,
    s.history = since ++ .read locator message calls :: before →
      calls.Perm (expected before locator message)
  never : ∀ since before id, s.history = since ++ .removed id :: before →
    ∀ locator message calls, .read locator message calls ∈ since → ∀ c ∈ calls, c.1 ≠ id

variable {s s' : State} {h : List Event} {locator : Locator} {o : Nat} {r : Registration}

theorem added_of_live (hr : r ∈ live h) : .added r ∈ h := by
  induction h with
  | nil => cases hr
  | cons e h ih =>
      cases e with
      | added r' =>
          rcases List.mem_cons.mp hr with rfl | hr
          · exact List.mem_cons_self
          · exact List.mem_cons_of_mem _ (ih hr)
      | removed id => exact List.mem_cons_of_mem _ (ih (List.mem_of_mem_filter hr))
      | read _ _ _ => exact List.mem_cons_of_mem _ (ih hr)

theorem mem_liveFor : r ∈ liveFor h locator ↔ r ∈ live h ∧ r.locator = locator := by
  simp [liveFor]

/-- The ids at a subscriber of the registry. -/
theorem Inv.ids_perm (hi : Inv s) (hm : s.subscriberMap locator = some o) :
    (s.ids o).Perm ((liveFor s.history locator).map Registration.id) := by
  obtain ⟨-, -, -, -, -, -, hp⟩ := hi.mapped locator o hm
  have h := hp.map fun f => f.2.id
  rwa [List.map_map] at h

theorem Inv.mapped_of_running (hi : Inv s) (hr : s.IsRunning o) :
    s.subscriberMap (s.made o).locator = some o := by
  by_contra h
  have h0 := hi.others o h
  have h1 : 0 < (s.made o).chains := hr
  omega

theorem Inv.rightRegistry (hi : Inv s) : RightRegistry s where
  one := fun r hr => by
    obtain ⟨o, ho⟩ := Option.ne_none_iff_exists'.mp (hi.found r hr)
    obtain ⟨-, -, hloc, hch, -⟩ := hi.mapped _ _ ho
    refine ⟨o, ho, fun o' => ⟨fun h => ?_, fun h => ?_⟩⟩
    · have h1 := hi.mapped_of_running h.1
      rw [h.2, ho] at h1
      exact (Option.some.inj h1).symm
    · subst h
      exact ⟨by rw [State.IsRunning, hch]; omega, hloc⟩
  attached := fun r hr o ho => by
    have hm := hi.mapped_of_running ho
    rw [(hi.ids_perm hm).mem_iff, List.mem_map]
    constructor
    · intro h
      obtain ⟨r', hr', he⟩ := h
      obtain ⟨h1, h2⟩ := mem_liveFor.mp hr'
      have := List.inj_on_of_nodup_map hi.nodup h1 hr he
      rw [← this, h2]
    · intro h
      exact ⟨r, mem_liveFor.mpr ⟨hr, h.symm⟩, rfl⟩
  once := fun o ho => by
    have hm := hi.mapped_of_running ho
    rw [(hi.ids_perm hm).nodup_iff]
    exact hi.nodup.sublist (List.filter_sublist.map _)
  called := hi.called
  never := hi.never

/-! ## Looking for a subscriber -/

theorem actualLocator_port (tls : Bool) (locator : Locator) :
    (actualLocator tls locator).port ≠ 0 := by
  simp only [actualLocator]
  split
  · cases tls <;> simp
  · assumption

theorem actualLocator_of_port {tls : Bool} (h : locator.port ≠ 0) :
    actualLocator tls locator = locator := by
  simp [actualLocator, h]

/-- A new subscriber, which has been started. -/
def State.started (s : State) (actual : Locator) : State :=
  { s with
    made := Function.update s.made s.count ⟨actual, .empty (ignoresTopic actual), false, 1⟩
    count := s.count + 1
    subscriberMap := Function.update s.subscriberMap actual (some s.count) }

/-- The two ways it goes for an orderly call. -/
theorem Inv.findOrMake_eq {tls : Bool} {setup : Setup} (hi : Inv s)
    (hport : locator.port = 0 → s.subscriberMap (actualLocator tls locator) = none)
    (hsetup : s.subscriberMap (actualLocator tls locator) = none → setup = .works) :
    (∃ o, s.subscriberMap (actualLocator tls locator) = some o ∧
      findOrMake s locator (actualLocator tls locator) setup = (s, some o)) ∨
    (s.subscriberMap (actualLocator tls locator) = none ∧
      findOrMake s locator (actualLocator tls locator) setup =
        (s.started (actualLocator tls locator), some s.count)) := by
  cases hm : s.subscriberMap locator with
  | some o =>
      obtain ⟨-, hp, -⟩ := hi.mapped _ _ hm
      refine .inl ⟨o, ?_, ?_⟩
      · rw [actualLocator_of_port hp, hm]
      · rw [findOrMake, hm]
  | none =>
      have hnone : s.subscriberMap (actualLocator tls locator) = none := by
        by_cases hp : locator.port = 0
        · exact hport hp
        · rw [actualLocator_of_port hp, hm]
      refine .inr ⟨hnone, ?_⟩
      rw [findOrMake, hm, hnone, hsetup hnone]
      simp [run, State.make, State.modify, State.started]

theorem Inv.liveFor_eq_nil (hi : Inv s) (hm : s.subscriberMap locator = none) :
    liveFor s.history locator = [] := by
  rw [List.eq_nil_iff_forall_not_mem]
  intro r hr
  obtain ⟨h1, h2⟩ := mem_liveFor.mp hr
  refine hi.found r (added_of_live h1) ?_
  rw [h2, hm]

theorem Inv.started (hi : Inv s) (hm : s.subscriberMap locator = none) (hp : locator.port ≠ 0) :
    Inv (s.started locator) where
  free := hi.free
  mapped := fun l o ho => by
    simp only [State.started, Function.update_apply] at ho
    split at ho
    · next hl =>
      obtain rfl := Option.some.inj ho
      subst hl
      simp [State.started, hp, hi.liveFor_eq_nil hm, OneSubscriber.empty]
    · next hl =>
      obtain ⟨h1, h2⟩ := hi.mapped l o ho
      have hne : o ≠ s.count := by omega
      simp only [State.started, Function.update_of_ne hne]
      exact ⟨by omega, h2⟩
  others := fun o ho => by
    by_cases he : o = s.count
    · subst he
      simp [State.started] at ho
    · simp only [State.started, Function.update_of_ne he] at ho ⊢
      refine hi.others o fun h1 => ho ?_
      rw [Function.update_of_ne, h1]
      intro h2
      rw [h2, hm] at h1
      cases h1
  found := fun r hr => by
    simp only [State.started, Function.update_apply]
    split
    · simp
    · exact hi.found r hr
  byID := hi.byID
  nodup := hi.nodup
  old := hi.old
  gone := hi.gone
  called := hi.called
  never := hi.never

/-! ## Adding a client -/

theorem Inv.counted (hi : Inv s) {n : Nat} (h : s.counter ≤ n) : Inv { s with counter := n } :=
  { hi with
    old := fun r hr => Nat.le_trans (hi.old r hr) h
    gone := fun id hid => ⟨Nat.le_trans (hi.gone id hid).1 h, (hi.gone id hid).2⟩ }

theorem called_cons {e : Event}
    (hc : ∀ since before locator message calls,
      h = since ++ .read locator message calls :: before →
        calls.Perm (expected before locator message))
    (he : ∀ locator message calls, e = .read locator message calls →
      calls.Perm (expected h locator message)) :
    ∀ since before locator message calls, e :: h = since ++ .read locator message calls :: before →
      calls.Perm (expected before locator message) := by
  intro since before locator message calls hs
  cases since with
  | nil =>
      obtain ⟨h1, h2⟩ := List.cons.inj hs
      subst h2
      exact he locator message calls h1
  | cons e' since => exact hc since before locator message calls (List.cons.inj hs).2

theorem never_cons {e : Event}
    (hn : ∀ since before id, h = since ++ .removed id :: before →
      ∀ locator message calls, .read locator message calls ∈ since → ∀ c ∈ calls, c.1 ≠ id)
    (he : ∀ locator message calls, e = .read locator message calls →
      ∀ id, .removed id ∈ h → ∀ c ∈ calls, c.1 ≠ id) :
    ∀ since before id, e :: h = since ++ .removed id :: before →
      ∀ locator message calls, .read locator message calls ∈ since → ∀ c ∈ calls, c.1 ≠ id := by
  intro since before id hs locator message calls hr
  cases since with
  | nil => cases hr
  | cons e' since =>
      obtain ⟨h1, h2⟩ := List.cons.inj hs
      rcases List.mem_cons.mp hr with h3 | h3
      · exact he locator message calls (by rw [h1, h3]) id (by rw [h2]; simp)
      · exact hn since before id h2 locator message calls h3

theorem liveFor_added : liveFor (.added r :: h) locator =
    if r.locator = locator then r :: liveFor h locator else liveFor h locator := by
  simp only [liveFor, live, List.filter_cons, decide_eq_true_eq]

theorem Inv.attach (hi : Inv s) (hm : s.subscriberMap r.locator = some o)
    (hid : r.id ≤ s.counter) (hnew : ∀ r', .added r' ∈ s.history → r'.id < r.id)
    (hgone : ∀ id, .removed id ∈ s.history → id < r.id) : Inv (attach s o r) where
  free := hi.free
  mapped := fun l o' ho => by
    obtain ⟨h1, h2, h3, h4, h5, h6, h7⟩ := hi.mapped l o' ho
    refine ⟨h1, h2, ?_⟩
    by_cases he : o' = o
    · subst he
      obtain ⟨-, -, h8, -⟩ := hi.mapped _ _ hm
      obtain rfl : r.locator = l := h8.symm.trans h3
      simp only [WebSocketSubscribers.attach, State.modify, Function.update_self]
      refine ⟨h3, h4, h5, h6, ?_⟩
      rw [liveFor_added, if_pos rfl, List.map_cons]
      refine Clients.registered_addClient.trans ?_
      rw [h6]
      exact h7.cons _
    · -- the locator is not the one that got a client
      have hl : r.locator ≠ l := by
        intro e
        rw [e] at hm
        exact he (Option.some.inj (ho.symm.trans hm))
      simp only [WebSocketSubscribers.attach, State.modify, Function.update_of_ne he]
      rw [liveFor_added, if_neg hl]
      exact ⟨h3, h4, h5, h6, h7⟩
  others := fun o' ho => by
    by_cases he : o' = o
    · subst he
      simp only [WebSocketSubscribers.attach, State.modify, Function.update_self] at ho ⊢
      exact hi.others o' ho
    · simp only [WebSocketSubscribers.attach, State.modify, Function.update_of_ne he] at ho ⊢
      exact hi.others o' ho
  found := fun r' hr => by
    rcases List.mem_cons.mp hr with hr | hr
    · obtain rfl := Event.added.inj hr
      exact fun h => by simp [WebSocketSubscribers.attach, State.modify, hm] at h
    · exact hi.found r' hr
  byID := fun id l => by
    show Function.update s.locatorOfID r.id (some r.locator) id = some l ↔ _
    rw [Function.update_apply]
    split
    · next he =>
      subst he
      constructor
      · intro h1
        exact ⟨r, List.mem_cons_self, rfl, Option.some.inj h1⟩
      · intro h1
        obtain ⟨r', hr', h2, rfl⟩ := h1
        rcases List.mem_cons.mp hr' with rfl | hr'
        · rfl
        · have := hnew r' (added_of_live hr')
          omega
    · next he =>
      rw [hi.byID]
      constructor
      · intro h1
        obtain ⟨r', hr', h2⟩ := h1
        exact ⟨r', List.mem_cons_of_mem _ hr', h2⟩
      · intro h1
        obtain ⟨r', hr', h2, h3⟩ := h1
        rcases List.mem_cons.mp hr' with rfl | hr'
        · exact absurd h2.symm he
        · exact ⟨r', hr', h2, h3⟩
  nodup := by
    show (r.id :: (live s.history).map Registration.id).Nodup
    rw [List.nodup_cons]
    refine ⟨?_, hi.nodup⟩
    intro h1
    obtain ⟨r', hr', h2⟩ := List.mem_map.mp h1
    have := hnew r' (added_of_live hr')
    omega
  old := fun r' hr => by
    rcases List.mem_cons.mp hr with hr | hr
    · obtain rfl := Event.added.inj hr
      exact hid
    · exact hi.old r' hr
  gone := fun id h1 => by
    have h2 : .removed id ∈ s.history := by simpa [WebSocketSubscribers.attach] using h1
    refine ⟨(hi.gone id h2).1, fun r' hr => ?_⟩
    rcases List.mem_cons.mp hr with rfl | hr
    · have := hgone id h2
      omega
    · exact (hi.gone id h2).2 r' hr
  called := called_cons hi.called (by simp)
  never := never_cons hi.never (by simp)

theorem addSubscriptionClient_eq {tls : Bool} {topic : TopicSelection} {client : ClientCB}
    {setup : Setup} (hcount : s.counter + 1 < 2 ^ 32)
    (hf : findOrMake { s with counter := s.counter + 1 } locator (actualLocator tls locator) setup =
      (s', some o)) (hs : s'.stuck = false) :
    addSubscriptionClient s tls locator topic client setup =
      attach s' o ⟨actualLocator tls locator, topic, { client with id := s.counter + 1 }⟩ := by
  rw [addSubscriptionClient, Nat.mod_eq_of_lt hcount]
  simp [hf, hs]

theorem Inv.addSubscriptionClient {tls : Bool} {topic : TopicSelection} {client : ClientCB}
    {setup : Setup} (hi : Inv s) (hcount : s.counter + 1 < 2 ^ 32)
    (hport : locator.port = 0 → s.subscriberMap (actualLocator tls locator) = none)
    (hsetup : s.subscriberMap (actualLocator tls locator) = none → setup = .works) :
    Inv (addSubscriptionClient s tls locator topic client setup) := by
  have hi' : Inv { s with counter := s.counter + 1 } := hi.counted (by omega)
  obtain ⟨o, hm, he⟩ | ⟨hm, he⟩ := hi'.findOrMake_eq hport hsetup
  · rw [addSubscriptionClient_eq hcount he hi.free]
    refine hi'.attach hm (Nat.le_refl (s.counter + 1)) (fun r' hr => ?_) fun id h1 => ?_
    · exact Nat.lt_succ_of_le (hi.old r' hr)
    · exact Nat.lt_succ_of_le (hi.gone id h1).1
  · rw [addSubscriptionClient_eq hcount he hi.free]
    refine (hi'.started hm (actualLocator_port tls locator)).attach ?_ (Nat.le_refl (s.counter + 1))
      (fun r' hr => ?_) fun id h1 => ?_
    · exact Function.update_self _ _ _
    · exact Nat.lt_succ_of_le (hi.old r' hr)
    · exact Nat.lt_succ_of_le (hi.gone id h1).1

/-! ## Removing a client -/

theorem liveFor_removed {id : Nat} : liveFor (.removed id :: h) locator =
    (liveFor h locator).filter fun r => r.id ≠ id := by
  simp only [liveFor, live, List.filter_filter]
  exact List.filter_congr fun r _ => Bool.and_comm _ _

theorem live_removed_subset {id : Nat} (hr : r ∈ live (.removed id :: h)) :
    r ∈ live h ∧ r.id ≠ id := by
  simpa [live] using hr

/-- The client is taken from the subscriber of its locator. -/
theorem removeSubscriptionClient_eq {id : Nat} (hid : s.locatorOfID id = some locator)
    (hm : s.subscriberMap locator = some o) : removeSubscriptionClient s id =
      { s with
        made := Function.update s.made o
          { s.made o with subscriber := (s.made o).subscriber.removeClient id }
        locatorOfID := Function.update s.locatorOfID id none
        history := .removed id :: s.history } := by
  simp [removeSubscriptionClient, hid, hm, State.modify]

theorem Inv.removeSubscriptionClient (hi : Inv s) (id : Nat) :
    Inv (removeSubscriptionClient s id) := by
  cases hid : s.locatorOfID id with
  | none =>
      rw [WebSocketSubscribers.removeSubscriptionClient, hid]
      exact hi
  | some loc =>
      obtain ⟨r, hr, hrid, hrloc⟩ := (hi.byID id loc).mp hid
      obtain ⟨o, hm⟩ := Option.ne_none_iff_exists'.mp (hi.found r (added_of_live hr))
      rw [hrloc] at hm
      rw [removeSubscriptionClient_eq hid hm]
      refine ⟨hi.free, fun l o' ho => ?_, fun o' ho => ?_, fun r' hr' => ?_, fun id' l => ?_, ?_,
        fun r' hr' => ?_, fun id' h1 => ?_, called_cons hi.called (by simp),
        never_cons hi.never (by simp)⟩
      · obtain ⟨h1, h2, h3, h4, h5, h6, h7⟩ := hi.mapped l o' ho
        refine ⟨h1, h2, ?_⟩
        rw [liveFor_removed]
        have hmap : ∀ rs : List Registration,
            (rs.map Registration.entry).filter (fun x => x.2.id ≠ id) =
              (rs.filter fun r => r.id ≠ id).map Registration.entry := fun rs => List.filter_map
        by_cases he : o' = o
        · subst he
          simp only [Function.update_self]
          refine ⟨h3, h4, h5, h6, ?_⟩
          rw [OneSubscriber.removeClient, Clients.registered_removeClient, ← hmap]
          exact h7.filter _
        · simp only [Function.update_of_ne he]
          refine ⟨h3, h4, h5, h6, ?_⟩
          -- the client has another locator
          rw [List.filter_eq_self.mpr]
          · exact h7
          · intro r' hr'
            obtain ⟨h8, h9⟩ := mem_liveFor.mp hr'
            simp only [decide_eq_true_eq]
            intro e
            have h10 := (hi.byID id l).mpr ⟨r', h8, e, h9⟩
            rw [hid] at h10
            obtain rfl := Option.some.inj h10
            exact he (Option.some.inj (ho.symm.trans hm))
      · by_cases he : o' = o
        · subst he
          simp only [Function.update_self] at ho ⊢
          exact hi.others o' ho
        · simp only [Function.update_of_ne he] at ho ⊢
          exact hi.others o' ho
      · exact hi.found r' (by simpa using hr')
      · show Function.update s.locatorOfID id none id' = some l ↔ _
        rw [Function.update_apply]
        split
        · next he =>
          subst he
          constructor
          · intro h1
            cases h1
          · intro h1
            obtain ⟨r', hr', h2, -⟩ := h1
            exact absurd h2 (live_removed_subset hr').2
        · next he =>
          rw [hi.byID]
          constructor
          · intro h1
            obtain ⟨r', hr', h2, h3⟩ := h1
            refine ⟨r', ?_, h2, h3⟩
            simp only [live, List.mem_filter, decide_eq_true_eq]
            exact ⟨hr', by rw [h2]; exact he⟩
          · intro h1
            obtain ⟨r', hr', h2⟩ := h1
            exact ⟨r', (live_removed_subset hr').1, h2⟩
      · exact hi.nodup.sublist (List.filter_sublist.map _)
      · exact hi.old r' (by simpa using hr')
      · rcases List.mem_cons.mp h1 with h1 | h1
        · obtain rfl := Event.removed.inj h1
          refine ⟨?_, fun r' hr' => (live_removed_subset hr').2⟩
          rw [← hrid]
          exact hi.old r (added_of_live hr)
        · exact ⟨(hi.gone id' h1).1,
            fun r' hr' => (hi.gone id' h1).2 r' (live_removed_subset hr').1⟩

/-! ## Replacing a subscriber -/

/-- The subscriber's only chain has ended, and there is a new one in its place. -/
theorem removeSubscriber_eq (hm : s.subscriberMap locator = some o) (hfree : s.stuck = false) :
    removeSubscriber s locator .works =
      { s with
        made := Function.update
          (Function.update s.made o { s.made o with
            subscriber := .empty (s.made o).subscriber.ignoreTopic })
          s.count ⟨(s.made o).locator, (s.made o).subscriber, false, 1⟩
        count := s.count + 1
        subscriberMap := Function.update s.subscriberMap locator (some s.count) } := by
  simp [removeSubscriber, hm, run, State.modify, State.make, replacement, hfree]

theorem Inv.fail (hi : Inv s) (hr : s.IsRunning o) :
    Inv (removeSubscriber (s.modify o fun r => { r with chains := r.chains - 1 })
      (s.made o).locator .works) := by
  have hm := hi.mapped_of_running hr
  obtain ⟨h1, h2, h3, h4, h5, h6, h7⟩ := hi.mapped _ _ hm
  rw [removeSubscriber_eq (s := s.modify o _) hm hi.free]
  refine ⟨hi.free, fun l o' ho => ?_, fun o' ho => ?_, fun r' hr' => ?_, hi.byID, hi.nodup, hi.old,
    hi.gone, hi.called, hi.never⟩
  · simp only [State.modify, Function.update_apply _ _ _ l] at ho
    split at ho
    · next hl =>
      obtain rfl := Option.some.inj ho
      subst hl
      simp only [State.modify, Function.update_self]
      exact ⟨by omega, h2, trivial, trivial, trivial, h6, h7⟩
    · next hl =>
      obtain ⟨g1, g2, g3, g4⟩ := hi.mapped l o' ho
      have hne1 : o' ≠ o := by
        intro e
        rw [e] at g3
        exact hl g3.symm
      have hne2 : o' ≠ s.count := by omega
      simp only [State.modify, Function.update_of_ne hne2, Function.update_of_ne hne1]
      exact ⟨by omega, g2, g3, g4⟩
  · by_cases he : o' = s.count
    · subst he
      simp [State.modify] at ho
    · by_cases he' : o' = o
      · subst he'
        simp only [State.modify, Function.update_of_ne he, Function.update_self]
        omega
      · simp only [State.modify, Function.update_of_ne he, Function.update_of_ne he'] at ho ⊢
        refine hi.others o' fun h => ho ?_
        rw [Function.update_of_ne, h]
        intro e
        rw [e, hm] at h
        exact he' (Option.some.inj h).symm
  · simp only [State.modify, Function.update_apply _ _ _ r'.locator]
    split
    · simp
    · exact hi.found r' hr'

/-! ## Reading -/

theorem callsOf_eq {cbor : Bytes → Option (ByteDataWithTopic × Nat)} {x : OneSubscriber}
    {input : Bytes} (hu : Undisturbed cbor (.webSocket x) input) : callsOf cbor x input =
      x.clients.registered.filterMap fun f =>
        (((Subscriber.webSocket x).message cbor input).bind (got f)).map (f.2.id, ·) := by
  have hr := (right_iff_undisturbed cbor (.webSocket x) input).mpr hu
  rw [callsOf, hr]
  show ((x.clients.registered.zip (x.clients.registered.map _)).filterMap _) = _
  rw [← List.map_prod_left_eq_zip, List.filterMap_map]
  rfl

theorem Inv.onRead (hi : Inv s) {cbor : Bytes → Option (ByteDataWithTopic × Nat)} {input : Bytes}
    (hr : s.IsRunning o) (hu : Undisturbed cbor (.webSocket (s.made o).subscriber) input) :
    Inv (onRead cbor s o input) := by
  have hm := hi.mapped_of_running hr
  obtain ⟨-, -, -, -, -, -, hp⟩ := hi.mapped _ _ hm
  have hcalls : (callsOf cbor (s.made o).subscriber input).Perm
      (expected s.history (s.made o).locator
        ((Subscriber.webSocket (s.made o).subscriber).message cbor input)) := by
    rw [callsOf_eq hu]
    refine (hp.filterMap _).trans ?_
    rw [List.filterMap_map]
    exact .rfl
  have hadded : ∀ r, .added r ∈ (WebSocketSubscribers.onRead cbor s o input).history →
      .added r ∈ s.history := fun r h => by simpa [WebSocketSubscribers.onRead] using h
  have hremoved : ∀ id, .removed id ∈ (WebSocketSubscribers.onRead cbor s o input).history →
      .removed id ∈ s.history := fun id h => by simpa [WebSocketSubscribers.onRead] using h
  refine ⟨hi.free, hi.mapped, hi.others, fun r h => hi.found r (hadded r h), hi.byID, hi.nodup,
    fun r h => hi.old r (hadded r h), fun id h => hi.gone id (hremoved id h),
    called_cons hi.called ?_, never_cons hi.never ?_⟩
  · intro l m calls he
    obtain ⟨rfl, rfl, rfl⟩ := Event.read.inj he
    exact hcalls
  · intro l m calls he id hid c hc
    obtain ⟨rfl, rfl, rfl⟩ := Event.read.inj he
    -- who is called is registered
    obtain ⟨r, hr, h1⟩ := List.mem_filterMap.mp (hcalls.mem_iff.mp hc)
    obtain ⟨d, -, rfl⟩ := Option.map_eq_some_iff.mp h1
    exact (hi.gone id hid).2 r (mem_liveFor.mp hr).1

/-! ## Every run -/

variable {cbor : Bytes → Option (ByteDataWithTopic × Nat)}

theorem inv_init : Inv (machine cbor).init where
  free := rfl
  mapped := fun l o ho => by cases ho
  others := fun o _ => rfl
  found := fun r hr => by cases hr
  byID := fun id l => by simp [machine, live]
  nodup := List.nodup_nil
  old := fun r hr => by cases hr
  gone := fun id h => by cases h
  called := fun since before l m calls hs => by simp [machine] at hs
  never := fun since before id hs => by simp [machine] at hs

theorem inv_step {a : Act} (hi : Inv s) (hg : Orderly cbor s a) (hs : step cbor s a = some s') :
    Inv s' := by
  cases a with
  | addSubscriptionClient tls locator topic client setup =>
      obtain ⟨-, rfl⟩ := of_guarded hs
      exact hi.addSubscriptionClient hg.1 hg.2.1 hg.2.2
  | removeSubscriptionClient id =>
      obtain ⟨-, rfl⟩ := of_guarded hs
      exact hi.removeSubscriptionClient id
  | fail o setup =>
      obtain ⟨⟨-, hr⟩, rfl⟩ := of_guarded hs
      have hsetup : setup = .works := hg
      subst hsetup
      exact hi.fail hr
  | onRead o input =>
      obtain ⟨hr, rfl⟩ := of_guarded hs
      exact hi.onRead hr hg

/--
**The registry and the subscribers agree.** In every orderly run, there is exactly one running
subscriber for each locator that was added, and the registry has it; each client that was added and
not removed is attached to that of its own locator, once; each message read leads to one call of
each client for which it is, and to no other call; and a client that was removed is never called
again.
-/
theorem rightRegistry_of_orderly (hr : (machine cbor).Reach (Orderly cbor) s) : RightRegistry s :=
  (hr.invariant (I := Inv) inv_init fun _ _ _ hi hg hs => inv_step hi hg hs).rightRegistry

/-! ## One server -/

/-- A server, with or without its port. -/
def server (port : Int) : Locator := ⟨"feed".toList, port, [], [], [], .empty⟩

/-- A client whose callback leaves what it is given. -/
def reader : ClientCB := ⟨0, id, none⟩

/-- Any text is a message on the empty topic. -/
def asContent (received : Bytes) : Option (ByteDataWithTopic × Nat) :=
  some (⟨[], received⟩, received.length)

/-- Two clients, a failure, a message, and the end of the first client. -/
def reconnect : List Act :=
  [.addSubscriptionClient false (server 0) .noTopicSelection reader .works,
    .addSubscriptionClient false (server 80) (.exact []) reader .works,
    .fail 0 .works, .onRead 1 [7], .removeSubscriptionClient 1, .onRead 1 [8]]

theorem reconnect_orderly :
    (machine asContent).Within (Orderly asContent) (machine asContent).init reconnect := by
  refine ⟨⟨by decide, fun _ => rfl, fun _ => rfl⟩,
    ⟨by decide +kernel, fun h => absurd h (by decide), fun _ => rfl⟩, rfl, ?_, trivial, ?_, trivial⟩
  · refine undisturbed_of_leaves rfl fun f hf => ?_
    have h1 : f ∈ [(.noTopicSelection, { reader with id := 1 }),
      (.exact [], { reader with id := 2 })] := hf
    rcases List.mem_cons.mp h1 with rfl | h1
    · exact ⟨rfl, rfl⟩
    · obtain rfl := List.mem_singleton.mp h1
      exact ⟨rfl, rfl⟩
  · refine undisturbed_of_leaves rfl fun f hf => ?_
    have h1 : f ∈ [(.exact [], { reader with id := 2 })] := hf
    obtain rfl := List.mem_singleton.mp h1
    exact ⟨rfl, rfl⟩

/-- What has been read, and by whom. -/
def callsIn : List Event → List (List (Nat × ByteDataWithTopic))
  | [] => []
  | .read _ _ calls :: h => calls :: callsIn h
  | _ :: h => callsIn h

theorem rightRegistry_reconnect :
    ∃ s, (machine asContent).Reach (Orderly asContent) s ∧
      s.subscriberMap (server 80) = some 1 ∧
      callsIn s.history = [[(2, ⟨[], [8]⟩)], [(1, ⟨[], [7]⟩), (2, ⟨[], [7]⟩)]] ∧
      RightRegistry s := by
  have hr := Machine.Reach.init.exec reconnect_orderly
  exact ⟨_, hr, by decide +kernel, by decide +kernel, rightRegistry_of_orderly hr⟩

/-- Two clients that both leave the port out, and a failure. -/
def withoutPort : List Act :=
  [.addSubscriptionClient false (server 0) .noTopicSelection reader .works,
    .addSubscriptionClient false (server 0) .noTopicSelection reader .works, .fail 0 .works]

/-- The first subscriber was started twice: it goes on running beside the one in the registry. -/
theorem not_rightRegistry_withoutPort :
    ∃ s, (machine asContent).Reach (fun _ _ => True) s ∧ ¬ RightRegistry s := by
  have hr := (Machine.Reach.init (M := machine asContent)).exec
    (Machine.Within.of_forall (fun _ _ => trivial) _ withoutPort)
  refine ⟨_, hr, fun h => ?_⟩
  obtain ⟨o, -, ho⟩ := h.one ⟨server 80, .noTopicSelection, { reader with id := 1 }⟩
    (List.mem_cons_of_mem _ List.mem_cons_self)
  have h0 := (ho 0).mp ⟨by unfold State.IsRunning; decide +kernel, by decide +kernel⟩
  have h1 := (ho 1).mp ⟨by unfold State.IsRunning; decide +kernel, by decide +kernel⟩
  omega

end WebSocketSubscribers
