import Mathlib.Data.List.Dedup
import Mathlib.Data.List.Induction
import Mathlib.Data.List.TakeWhile
import TMTransport.Broadcast.Listener

/-!
# Subscriptions that follow from heartbeats

Heartbeats say at which channels a process broadcasts. An `AddSubscriptionCreator` asks a
listener to subscribe to each channel that it has not seen before, and remembers all
that it has seen. A stop checker may have the listener remove all subscriptions. What
the listener is asked for waits in a queue.

A channel is asked for once, when it is first announced, and it is never asked for again:
not if it cannot be read, nor if it does not open, nor after all has been removed.
-/

namespace HeartbeatSubscriptions

open BroadcastListener Interleave SortedMap
open ConnectionLocator (Text Locator)

/-! ## Channels -/

/-- `static_cast<MultiTransportBroadcastListenerConnectionType>` -/
def ofIndex : Nat → ConnectionType
  | 0 => .multicast
  | 1 => .rabbitMQ
  | 2 => .redis
  | 3 => .zeroMQ
  | 4 => .nng
  | 5 => .sharedMemoryBroadcast
  | 6 => .webSocket
  | _ => .singlecast

/-- `MULTI_TRANSPORT_SUBSCRIBER_CONNECTION_TYPE_STR` -/
def subscriberConnectionTypeStr : List Text :=
  ["multicast".toList, "rabbitmq".toList, "redis".toList, "zeromq".toList, "nng".toList,
    "shared_memory_broadcast".toList, "websocket".toList, "singlecast".toList]

/-- The loop of `parseMultiTransportBroadcastChannel`. -/
def parseChannelFrom (s : Text) (ii : Nat) : List Text → Option (ConnectionType × Locator)
  | [] => none
  | item :: items =>
    if (item ++ "://".toList).isPrefixOf s then
      match ConnectionLocator.parse (s.drop (item.length + 3)) with
      | .error _ => none
      | .ok locator => some (ofIndex ii, locator)
    else parseChannelFrom s (ii + 1) items

def parseMultiTransportBroadcastChannel (s : Text) : Option (ConnectionType × Locator) :=
  parseChannelFrom s 0 subscriberConnectionTypeStr

/-! ## The creator -/

/-- `HeartbeatMessage`, as far as the creator looks at it. -/
structure HeartbeatMessage where
  senderDescription : Text
  broadcastChannels : Text → Option (List Text)

/-- `AddSubscriptionCreator`, as it is constructed. -/
structure Creator where
  /-- `std::regex_match` with the expression for the senders. -/
  serverNameRE : Text → Bool
  lookupName : Text
  topic : Text

namespace Creator

variable (c : Creator)

/-- What the listener is asked for, if the channel can be read. -/
def subscriptionOf (channel : Text) : Option AddSubscription :=
  (parseMultiTransportBroadcastChannel channel).map fun parsed => ⟨parsed.1, parsed.2, c.topic⟩

/-- The loop of `handleHeartbeat`, with `seenLocators_`. -/
def addAll (seenLocators : List Text) : List Text → List Text × List Input
  | [] => (seenLocators, [])
  | channel :: channels =>
    if seenLocators.contains channel then addAll seenLocators channels
    else
      let rest := addAll (channel :: seenLocators) channels
      match parseMultiTransportBroadcastChannel channel with
      | none => rest
      | some parsed => (rest.1, .addSubscription ⟨parsed.1, parsed.2, c.topic⟩ :: rest.2)

/-- The channels that the creator goes through. -/
def announced (msg : HeartbeatMessage) : List Text :=
  if c.serverNameRE msg.senderDescription then (msg.broadcastChannels c.lookupName).getD []
  else []

def handleHeartbeat (seenLocators : List Text) (msg : HeartbeatMessage) :
    List Text × List Input :=
  if ¬ c.serverNameRE msg.senderDescription then (seenLocators, [])
  else
    match msg.broadcastChannels c.lookupName with
    | none => (seenLocators, [])
    | some channels => c.addAll seenLocators channels

end Creator

/-! ## The creator and the listener -/

structure System where
  seenLocators : List Text
  /-- What the listener has still to handle. The oldest comes first. -/
  pending : List Input
  listener : State
  /-- For the record: all that has been announced, and what the listener has handled. -/
  announced : List Text
  given : List Input

inductive Act where
  | heartbeat (msg : HeartbeatMessage)
  /-- The stop criteria are met. -/
  | stopChecker
  /-- The listener handles what is next. -/
  | handle
  | othersAdd (x : AddSubscription)
  | othersRemove (k : SubscriptionRecKey)

def step (c : Creator) (env : Env) (s : System) : Act → Option System
  | .heartbeat msg =>
    let result := c.handleHeartbeat s.seenLocators msg
    some { s with
      seenLocators := result.1
      pending := s.pending ++ result.2
      announced := s.announced ++ c.announced msg }
  | .stopChecker => some { s with pending := s.pending ++ [.removeAllSubscriptions] }
  | .handle =>
    match s.pending with
    | [] => none
    | i :: rest => some { s with
        pending := rest
        listener := BroadcastListener.handle env s.listener i
        given := s.given ++ [i] }
  | .othersAdd x => some { s with listener := (addClient env s.listener false x).1 }
  | .othersRemove k => some { s with listener := removeClient s.listener k }

def machine (c : Creator) (env : Env) : Machine System Act where
  init := ⟨[], [], .init, [], []⟩
  step := step c env

/-- The counters of the components do not start again, and others leave the clients of
the listener alone. -/
def Orderly (s : System) : Act → Prop
  | .heartbeat _ | .stopChecker => True
  | .handle => ∀ x, s.pending.head? = some (.addSubscription x) →
      s.listener.Room x.connectionType 1
  | .othersAdd x => s.listener.Room x.connectionType 1
  | .othersRemove k => s.listener.Foreign k

/-! ## What the two are for -/

/-- What an input does to the subscriptions that are alive. -/
def followed (env : Env) (live : List AddSubscription) : Input → List AddSubscription
  | .addSubscription x => if env.works x then live ++ [x] else live
  | .removeSubscription _ _ => live
  | .removeAllSubscriptions => []

/-- The subscription that an input asks for. -/
def askedFor : Input → Option AddSubscription
  | .addSubscription x => some x
  | .removeSubscription _ _ => none
  | .removeAllSubscriptions => none

/-- The inputs after the last removal. -/
def sinceRemoval (given : List Input) : List Input :=
  (given.reverse.takeWhile fun i => i ≠ .removeAllSubscriptions).reverse

/-- Each channel is asked for once, the listener does what it is asked for, and it takes
nothing from others. -/
structure Subscribed (c : Creator) (env : Env) (s : System) : Prop where
  asked : (s.given ++ s.pending).filterMap askedFor =
    s.announced.eraseDups.filterMap c.subscriptionOf
  live : s.listener.live = s.given.foldl (followed env) []
  spared : s.listener.lost = []

/-! ## The listener -/

variable {c : Creator} {env : Env} {s : State} {x : AddSubscription} {k : SubscriptionRecKey}

/-- What holds of the listener. A record need not have a client. -/
structure Kept (env : Env) (s : State) : Prop where
  running : s.stopped = false
  recorded : ∀ c ∈ s.clients, c.mine = true → c.key ∈ s.subscriptions.map Prod.fst
  supported : ∀ k ∈ s.subscriptions.map Prod.fst, env.supports k.1 = true
  mine : ∀ k ∈ s.subscriptions.map Prod.fst, s.Mine k
  client_le : ∀ c ∈ s.clients, c.id ≤ s.counter c.subscription.connectionType
  record_le : ∀ k ∈ s.subscriptions.map Prod.fst, k.2 ≤ s.counter k.1
  spared : s.lost = []

theorem kept_init (env : Env) : Kept env .init where
  running := rfl
  recorded c hc := by cases hc
  supported k hk := by cases hk
  mine k hk := by cases hk
  client_le c hc := by cases hc
  record_le k hk := by cases hk
  spared := rfl

theorem live_removeClient (hk : s.Foreign k) : (removeClient s k).live = s.live := by
  rw [State.live, State.live, own_removeClient, erase, List.filter_eq_self.mpr]
  intro e he
  obtain ⟨c, hc, hmine, rfl⟩ := mem_own.mp he
  refine decide_eq_true fun heq => ?_
  rw [hk c hc heq] at hmine
  cases hmine

theorem Kept.removeClient (h : Kept env s) (k : SubscriptionRecKey) :
    Kept env (removeClient s k) where
  running := h.running
  recorded c hc := h.recorded c (List.mem_of_mem_filter hc)
  supported := h.supported
  mine k' hk' c hc := h.mine k' hk' c (List.mem_of_mem_filter hc)
  client_le c hc := h.client_le c (List.mem_of_mem_filter hc)
  record_le := h.record_le
  spared := h.spared

/-- A counter that goes on leaves everything below it. -/
theorem le_update {s : State} {ty ty' : ConnectionType} {n : Nat} (h : n ≤ s.counter ty') :
    n ≤ Function.update s.counter ty (s.counter ty + 1) ty' := by
  rw [Function.update_apply]
  split
  case isTrue hty =>
    rw [hty] at h
    omega
  case isFalse => exact h

theorem Kept.counted (h : Kept env s) (ty : ConnectionType) :
    Kept env { s with counter := Function.update s.counter ty (s.counter ty + 1) } where
  running := h.running
  recorded := h.recorded
  supported := h.supported
  mine := h.mine
  client_le c hc := le_update (h.client_le c hc)
  record_le k hk := le_update (h.record_le k hk)
  spared := h.spared

theorem Kept.snoc (h : Kept env s) {c : Client}
    (hle : c.id ≤ s.counter c.subscription.connectionType)
    (hmine : c.mine = true ↔ c.key ∈ s.subscriptions.map Prod.fst) :
    Kept env { s with clients := s.clients ++ [c] } := by
  refine ⟨h.running, fun c' hc' => ?_, h.supported, fun k hk c' hc' hkey => ?_,
    fun c' hc' => ?_, h.record_le, h.spared⟩
  · rcases List.mem_append.mp hc' with hold | hnew
    · exact h.recorded c' hold
    · rw [List.mem_singleton.mp hnew]
      exact hmine.mp
  · rcases List.mem_append.mp hc' with hold | hnew
    · exact h.mine k hk c' hold hkey
    · rw [List.mem_singleton.mp hnew] at hkey ⊢
      exact hmine.mpr (hkey ▸ hk)
  · rcases List.mem_append.mp hc' with hold | hnew
    · exact h.client_le c' hold
    · rw [List.mem_singleton.mp hnew]
      exact hle

/-- The id that a component gives next is of no client and of no record. -/
theorem Kept.fresh (h : Kept env s) (ty : ConnectionType) :
    (∀ c ∈ s.clients, c.key ≠ (ty, s.counter ty + 1)) ∧
      (ty, s.counter ty + 1) ∉ s.subscriptions.map Prod.fst := by
  refine ⟨fun c hc hkey => ?_, fun hk => ?_⟩
  · have hle := h.client_le c hc
    obtain ⟨hty, hid⟩ := Prod.mk.inj hkey
    rw [hty] at hle
    omega
  · have hle : s.counter ty + 1 ≤ s.counter ty := h.record_le _ hk
    omega

theorem Kept.keys_insert (h : Kept env s) (x : AddSubscription) :
    ((insert recKeyLt (x.connectionType, s.counter x.connectionType + 1) x
      s.subscriptions).map Prod.fst).Perm
      ((x.connectionType, s.counter x.connectionType + 1) :: s.subscriptions.map Prod.fst) := by
  refine (insert_perm fun e he => recKey_apart fun hkey => ?_).map Prod.fst
  exact (h.fresh x.connectionType).2 (hkey ▸ List.mem_map_of_mem he)

/-- The listener records an id that a component has just given. -/
theorem Kept.record (h : Kept env s) (hsupports : env.supports x.connectionType = true) :
    Kept env { s with
      counter := Function.update s.counter x.connectionType (s.counter x.connectionType + 1)
      subscriptions := insert recKeyLt (x.connectionType, s.counter x.connectionType + 1) x
        s.subscriptions } := by
  have hmem : ∀ k, k ∈ (insert recKeyLt (x.connectionType, s.counter x.connectionType + 1) x
      s.subscriptions).map Prod.fst ↔
      k = (x.connectionType, s.counter x.connectionType + 1) ∨
        k ∈ s.subscriptions.map Prod.fst :=
    fun k => (h.keys_insert x).mem_iff.trans List.mem_cons
  refine ⟨h.running, fun c hc hmine => (hmem _).mpr (.inr (h.recorded c hc hmine)),
    fun k hk => ?_, fun k hk c hc hkey => ?_, fun c hc => le_update (h.client_le c hc),
    fun k hk => ?_, h.spared⟩
  · rcases (hmem k).mp hk with rfl | hk
    · exact hsupports
    · exact h.supported k hk
  · rcases (hmem k).mp hk with rfl | hk
    · exact absurd hkey ((h.fresh x.connectionType).1 c hc)
    · exact h.mine k hk c hc hkey
  · rcases (hmem k).mp hk with rfl | hk
    · simp
    · exact le_update (h.record_le k hk)

theorem live_snoc (s : State) (counter : ConnectionType → Nat)
    (subscriptions : List (SubscriptionRecKey × AddSubscription)) (id : Nat)
    (x : AddSubscription) :
    State.live { s with
      counter := counter, clients := s.clients ++ [⟨id, true, x⟩],
      subscriptions := subscriptions } = s.live ++ [x] := by
  simp [State.live, State.own]

/-- Adding a subscription, whatever comes of it. -/
theorem Kept.addSubscription (h : Kept env s) (hroom : s.Room x.connectionType 1) :
    Kept env (addSubscription env s x).1 ∧
      (addSubscription env s x).1.live = followed env s.live (.addSubscription x) := by
  rw [BroadcastListener.addSubscription, h.running, if_neg Bool.false_ne_true]
  by_cases hsupports : env.supports x.connectionType = true
  case neg => simpa [hsupports, followed, Env.works] using h
  case pos =>
    by_cases hparses : env.parses x.connectionType x.topicDescription = true
    case neg => simpa [hsupports, hparses, followed, Env.works] using h
    case pos =>
      have hid : (s.counter x.connectionType + 1) % 2 ^ 32 = s.counter x.connectionType + 1 :=
        Nat.mod_eq_of_lt hroom
      rw [if_pos hsupports, if_pos hparses, addClient, hid]
      cases hopens : env.opens x.connectionType x.connectionLocator with
      | threw => simpa [followed, Env.works, hopens] using h
      | failed =>
          refine ⟨h.record hsupports, ?_⟩
          rw [followed, Env.works, hopens, if_neg (by simp)]
          rfl
      | opened =>
          have hrecord := h.record hsupports
          have hkey : (x.connectionType, s.counter x.connectionType + 1) ∈
              (insert recKeyLt (x.connectionType, s.counter x.connectionType + 1) x
                s.subscriptions).map Prod.fst :=
            (h.keys_insert x).mem_iff.mpr List.mem_cons_self
          refine ⟨hrecord.snoc (c := ⟨s.counter x.connectionType + 1, true, x⟩)
            (by simp) (iff_of_true rfl hkey), ?_⟩
          rw [followed, Env.works, hsupports, hparses, hopens, if_pos (by simp)]
          exact live_snoc s _ _ _ x

theorem Kept.removeAll (h : Kept env s) :
    Kept env (removeAllSubscriptions env s).1 ∧ (removeAllSubscriptions env s).1.live = [] := by
  rw [removeAllSubscriptions, takeAll_eq h.supported h.mine, h.running,
    if_neg Bool.false_ne_true]
  have hnone : ∀ c ∈ s.clients.filter fun c => c.key ∉ s.subscriptions.map Prod.fst,
      c.mine = false := by
    intro c hc
    obtain ⟨hmem, hkey⟩ := List.mem_filter.mp hc
    refine Bool.eq_false_iff.mpr fun hmine => of_decide_eq_true hkey ?_
    exact h.recorded c hmem hmine
  refine ⟨⟨rfl, fun c hc hmine => ?_, fun k hk => ?_, fun k hk => ?_,
    fun c hc => h.client_le c (List.mem_of_mem_filter hc), fun k hk => ?_, h.spared⟩, ?_⟩
  · rw [hnone c hc] at hmine
    cases hmine
  · cases hk
  · cases hk
  · cases hk
  · rw [State.live, State.own, List.filter_eq_nil_iff.mpr]
    · rfl
    · intro c hc hmine
      rw [hnone c hc] at hmine
      cases hmine

/-- The client of another comes. -/
theorem Kept.addClient (h : Kept env s) (hroom : s.Room x.connectionType 1) :
    Kept env (addClient env s false x).1 ∧ (addClient env s false x).1.live = s.live := by
  have hid : (s.counter x.connectionType + 1) % 2 ^ 32 = s.counter x.connectionType + 1 :=
    Nat.mod_eq_of_lt hroom
  rw [BroadcastListener.addClient, hid]
  cases env.opens x.connectionType x.connectionLocator with
  | threw => exact ⟨h, rfl⟩
  | failed => exact ⟨h.counted x.connectionType, rfl⟩
  | opened =>
      refine ⟨(h.counted x.connectionType).snoc
        (c := ⟨s.counter x.connectionType + 1, false, x⟩) (by simp) ?_, ?_⟩
      · exact iff_of_false Bool.false_ne_true (h.fresh x.connectionType).2
      · simp [State.live, State.own]

theorem Kept.handle (h : Kept env s) {i : Input} (hi : ∀ ty id, i ≠ .removeSubscription ty id)
    (hroom : ∀ x, i = .addSubscription x → s.Room x.connectionType 1) :
    Kept env (handle env s i) ∧ (handle env s i).live = followed env s.live i := by
  have hframe : ∀ (s' : State) (l : List Input), Kept env s' →
      Kept env { s' with unanswered := l } := fun s' l hs' =>
    ⟨hs'.running, hs'.recorded, hs'.supported, hs'.mine, hs'.client_le, hs'.record_le, hs'.spared⟩
  cases i with
  | removeSubscription ty id => exact absurd rfl (hi ty id)
  | addSubscription x =>
      have hadd := h.addSubscription (hroom x rfl)
      rw [BroadcastListener.handle, actuallyHandle]
      rcases hresult : BroadcastListener.addSubscription env s x with ⟨s', result⟩
      rw [hresult] at hadd
      cases result with
      | published o => exact hadd
      | returned => exact ⟨hframe _ _ hadd.1, hadd.2⟩
      | threw => exact ⟨hframe _ _ hadd.1, hadd.2⟩
  | removeAllSubscriptions => exact h.removeAll

/-! ## The creator -/

theorem mem_addAll_seen {seen channels : List Text} {channel : Text} :
    channel ∈ (c.addAll seen channels).1 ↔ channel ∈ seen ∨ channel ∈ channels := by
  induction channels generalizing seen with
  | nil => simp [Creator.addAll]
  | cons a channels ih =>
      rw [Creator.addAll]
      split
      case isTrue ha =>
        have ha' : a ∈ seen := List.contains_iff_mem.mp ha
        rw [ih, List.mem_cons]
        constructor
        · exact fun h => h.elim .inl fun h => .inr (.inr h)
        · rintro (h | rfl | h)
          · exact .inl h
          · exact .inl ha'
          · exact .inr h
      case isFalse ha =>
        have hseen : channel ∈ (c.addAll (a :: seen) channels).1 ↔
            channel ∈ seen ∨ channel ∈ a :: channels := by
          rw [ih, List.mem_cons, List.mem_cons, or_assoc]
          exact or_left_comm
        cases parseMultiTransportBroadcastChannel a <;> exact hseen

/-- What is asked for is what is new, each channel once. -/
theorem askedFor_addAll {seen announced channels : List Text}
    (hseen : ∀ a, a ∈ seen ↔ a ∈ announced) :
    (c.addAll seen channels).2.filterMap askedFor =
      (channels.removeAll announced).eraseDups.filterMap c.subscriptionOf := by
  induction channels generalizing seen announced with
  | nil => rfl
  | cons a channels ih =>
      rw [Creator.addAll, List.removeAll, List.filter_cons]
      split
      case isTrue ha =>
        have ha' : a ∈ seen := List.contains_iff_mem.mp ha
        rw [if_neg (by simpa using (hseen a).mp ha')]
        exact ih hseen
      case isFalse ha =>
        have ha' : a ∉ seen := fun h => ha (List.contains_iff_mem.mpr h)
        rw [if_pos (by simpa using fun h => ha' ((hseen a).mpr h)), List.eraseDups_cons,
          List.filterMap_cons]
        have hseen' : ∀ b, b ∈ a :: seen ↔ b ∈ a :: announced := by
          intro b
          rw [List.mem_cons, List.mem_cons, hseen b]
        have hrest := ih hseen'
        rw [List.removeAll_cons, List.removeAll, List.filter_filter] at hrest
        rw [List.filter_filter]
        simp only [Bool.and_comm, Creator.subscriptionOf] at hrest ⊢
        cases parseMultiTransportBroadcastChannel a with
        | none => exact hrest
        | some parsed =>
            rw [Option.map_some, List.filterMap_cons, askedFor]
            exact congrArg _ hrest

theorem add_of_mem_addAll {seen channels : List Text} {i : Input}
    (hi : i ∈ (c.addAll seen channels).2) : ∃ x, i = .addSubscription x := by
  induction channels generalizing seen with
  | nil => cases hi
  | cons a channels ih =>
      rw [Creator.addAll] at hi
      split at hi
      · exact ih hi
      · cases hparsed : parseMultiTransportBroadcastChannel a with
        | none =>
            rw [hparsed] at hi
            exact ih hi
        | some parsed =>
            rw [hparsed] at hi
            rcases List.mem_cons.mp hi with rfl | hi
            · exact ⟨_, rfl⟩
            · exact ih hi

theorem handleHeartbeat_eq (c : Creator) (seen : List Text) (msg : HeartbeatMessage) :
    c.handleHeartbeat seen msg = c.addAll seen (c.announced msg) := by
  rw [Creator.handleHeartbeat, Creator.announced]
  by_cases hsender : c.serverNameRE msg.senderDescription = true
  · rw [if_neg (not_not.mpr hsender), if_pos hsender]
    cases msg.broadcastChannels c.lookupName <;> rfl
  · rw [if_pos hsender, if_neg hsender]
    rfl

/-! ## The steps -/

structure Inv (c : Creator) (env : Env) (s : System) : Prop extends Subscribed c env s where
  seen : ∀ a, a ∈ s.seenLocators ↔ a ∈ s.announced
  kept : Kept env s.listener
  /-- The listener is never asked to remove one subscription. -/
  pending : ∀ i ∈ s.pending, ∀ ty id, i ≠ .removeSubscription ty id

theorem inv_init (c : Creator) (env : Env) : Inv c env (machine c env).init where
  asked := rfl
  live := rfl
  spared := rfl
  seen a := by simp [machine]
  kept := kept_init env
  pending i hi := by cases hi

variable {s s' : System} {a : Act}

theorem inv_heartbeat (h : Inv c env s) (msg : HeartbeatMessage)
    (hstep : step c env s (.heartbeat msg) = some s') : Inv c env s' := by
  cases hstep
  rw [handleHeartbeat_eq]
  refine ⟨⟨?_, h.live, h.spared⟩, fun a => ?_, h.kept, fun i hi ty id => ?_⟩
  · rw [← List.append_assoc, List.filterMap_append, h.asked, askedFor_addAll h.seen,
      List.eraseDups_append, List.filterMap_append]
  · rw [mem_addAll_seen, List.mem_append, h.seen a]
  · rcases List.mem_append.mp hi with hold | hnew
    · exact h.pending i hold ty id
    · obtain ⟨x, rfl⟩ := add_of_mem_addAll hnew
      exact fun heq => by cases heq

theorem inv_handle (h : Inv c env s) (ho : Orderly s .handle)
    (hstep : step c env s .handle = some s') : Inv c env s' := by
  simp only [step] at hstep
  split at hstep
  · cases hstep
  · next i rest hpending =>
    cases hstep
    have hroom : ∀ x, i = .addSubscription x → s.listener.Room x.connectionType 1 := by
      intro x hx
      exact ho x (by rw [hpending, hx]; rfl)
    obtain ⟨hkept, hlive⟩ := h.kept.handle (h.pending i (by simp [hpending])) hroom
    refine ⟨⟨?_, ?_, hkept.spared⟩, h.seen, hkept, fun j hj => ?_⟩
    · rw [List.append_assoc, List.singleton_append, ← hpending]
      exact h.asked
    · rw [hlive, h.live, List.foldl_append]
      rfl
    · exact h.pending j (by rw [hpending]; exact List.mem_cons_of_mem _ hj)

theorem inv_step (h : Inv c env s) (ho : Orderly s a) (hstep : step c env s a = some s') :
    Inv c env s' := by
  cases a with
  | heartbeat msg => exact inv_heartbeat h msg hstep
  | handle => exact inv_handle h ho hstep
  | stopChecker =>
      cases hstep
      refine ⟨⟨?_, h.live, h.spared⟩, h.seen, h.kept, fun i hi ty id => ?_⟩
      · rw [← List.append_assoc, List.filterMap_append, h.asked]
        exact List.append_nil _
      · rcases List.mem_append.mp hi with hold | hnew
        · exact h.pending i hold ty id
        · rw [List.mem_singleton.mp hnew]
          exact fun heq => by cases heq
  | othersAdd x =>
      cases hstep
      obtain ⟨hkept, hlive⟩ := h.kept.addClient ho
      exact ⟨⟨h.asked, hlive.trans h.live, hkept.spared⟩, h.seen, hkept, h.pending⟩
  | othersRemove k =>
      cases hstep
      have hkept := h.kept.removeClient k
      exact ⟨⟨h.asked, (live_removeClient ho).trans h.live, hkept.spared⟩, h.seen, hkept,
        h.pending⟩

theorem subscribed_of_reach (h : (machine c env).Reach Orderly s) : Subscribed c env s :=
  (h.invariant (inv_init c env) fun _ _ _ => inv_step).toSubscribed

/-! ## When the queue is empty -/

theorem sinceRemoval_snoc (given : List Input) (i : Input) :
    sinceRemoval (given ++ [i]) =
      if i = .removeAllSubscriptions then [] else sinceRemoval given ++ [i] := by
  rw [sinceRemoval, List.reverse_append, List.reverse_singleton, List.singleton_append,
    List.takeWhile_cons]
  by_cases hi : i = .removeAllSubscriptions
  · rw [if_neg (by simpa using hi), if_pos hi]
    rfl
  · rw [if_pos (by simpa using hi), if_neg hi, List.reverse_cons]
    rfl

theorem sinceRemoval_of_not_mem {given : List Input} (h : .removeAllSubscriptions ∉ given) :
    sinceRemoval given = given := by
  rw [sinceRemoval, List.takeWhile_eq_self_iff.mpr, List.reverse_reverse]
  intro i hi
  exact decide_eq_true fun heq => h (heq ▸ List.mem_reverse.mp hi)

/-- What is alive is what has been asked for since the last removal, if it works. -/
theorem foldl_followed (env : Env) (given : List Input) :
    given.foldl (followed env) [] =
      ((sinceRemoval given).filterMap askedFor).filter fun x => env.works x := by
  induction given using List.reverseRecOn with
  | nil => rfl
  | append_singleton given i ih =>
      rw [List.foldl_append, ih, sinceRemoval_snoc]
      cases i with
      | removeAllSubscriptions => rfl
      | removeSubscription ty id =>
          rw [if_neg (fun heq => by cases heq), List.filterMap_append, List.filter_append]
          exact (List.append_nil _).symm
      | addSubscription x =>
          rw [if_neg (fun heq => by cases heq), List.filterMap_append, List.filter_append]
          by_cases hw : env.works x = true <;> simp [followed, askedFor, hw]

/-- The inputs that come last are asked for by the channels that are announced last. -/
theorem exists_since (given : List Input) : ∃ old, given = old ++ sinceRemoval given := by
  refine ⟨(given.reverse.dropWhile fun i => i ≠ .removeAllSubscriptions).reverse, ?_⟩
  rw [sinceRemoval, ← List.reverse_append, List.takeWhile_append_dropWhile, List.reverse_reverse]

def creator : Creator := ⟨fun _ => true, ['n'], ['t']⟩

/-- No WebSocket can be opened. -/
def noWebSocket : Env :=
  { everything with opens := fun ty _ => if ty = .webSocket then .failed else .opened }

def announcing (channels : List String) : HeartbeatMessage :=
  ⟨[], fun _ => some (channels.map String.toList)⟩

/-- All subscriptions are removed, and then a channel is announced again, along with new ones. -/
def announcedAgain : List Act :=
  [.heartbeat (announcing ["redis://h", "redis:/h"]), .handle, .stopChecker, .handle,
    .othersAdd ⟨.redis, default, []⟩,
    .heartbeat (announcing ["redis://h", "websocket://h", "nng://h", "nng://h"]), .handle, .handle]

instance (s : System) : (a : Act) → Decidable (Orderly s a)
  | .heartbeat _ | .stopChecker => .isTrue trivial
  | .handle =>
    match h : s.pending.head? with
    | some (.addSubscription x) =>
      if hroom : s.listener.Room x.connectionType 1 then
        .isTrue fun y hy => by rw [h] at hy; cases hy; exact hroom
      else .isFalse fun hall => hroom (hall x h)
    | some (.removeSubscription _ _) => .isTrue fun y hy => by rw [h] at hy; cases hy
    | some .removeAllSubscriptions => .isTrue fun y hy => by rw [h] at hy; cases hy
    | none => .isTrue fun y hy => by rw [h] at hy; cases hy
  | .othersAdd x => inferInstanceAs (Decidable (s.listener.Room x.connectionType 1))
  | .othersRemove k =>
    inferInstanceAs (Decidable (∀ c ∈ s.listener.clients, c.key = k → c.mine = false))

def afterAgain : System :=
  (machine creator noWebSocket).exec (machine creator noWebSocket).init announcedAgain

end HeartbeatSubscriptions
