import TMTransport.Broadcast.Envelopes
import TMTransport.Broadcast.SubscriptionRegistry

/-!
# Messages from the publishers to the callbacks

The publishers of a component, the network, the subscriptions with their loops, and the
calls that add and remove clients, all at the same time. A message that has been
published may come to a subscription of its locator any number of times, or not at all,
and messages may overtake each other. What has come waits at the socket until the loop
reads it, and then all clients are gone through with the mutex locked.

Nothing says when a client starts to hear, and when it ceases to, but the regions in
which it is put into its subscription and taken out again.
-/

namespace BroadcastEndToEnd

open ConnectionLocator Envelopes Framing Interleave Subscription SubscriptionRegistry

/-! ## The system -/

/-- Does the component send datagrams, in an envelope that the locator chooses? -/
def usesDatagrams : SubscriptionRegistry.Component → Bool
  | .zeroMQ | .nng => false
  | .singlecast | .multicast => true

/-- The envelope that a locator asks for. -/
def choiceOf (l : Locator) : TopicEncodingChoice :=
  parseEncodingChoice (query l "envelop".toList "cbor".toList)

/-- A client that has been put into a subscription. -/
structure Joined where
  subscription : Nat
  client : TopicSelection × ClientCB
  /-- How many messages the subscription had read by then. -/
  since : Nat
  /-- How many it had read when the client was taken out. -/
  till : Option Nat

structure Net (τ : Type) where
  registry : SubscriptionRegistry.State τ
  /-- The envelope in which a subscription reads. -/
  choice : Nat → TopicEncodingChoice
  /-- What has come to the socket of a subscription and has not been read. -/
  queue : Nat → List Bytes
  /-- What has been read. -/
  read : Nat → List Bytes
  /-- The messages, with the keys of their publishers' locators. -/
  published : List (Locator × TopicEncodingChoice × ByteDataWithTopic)
  /-- The clients by their ids, with those that are gone. -/
  joined : Nat → Option Joined
  /-- The calls of the callbacks. -/
  calls : List (Nat × ByteDataWithTopic)

inductive Act (τ : Type) where
  /-- A region of a call that adds or removes a client. -/
  | registry (a : SubscriptionRegistry.Act τ)
  /-- The sender that is there for the locator may have been made for another envelope. -/
  | publish (locator : Locator) (encodingChoice : TopicEncodingChoice) (data : ByteDataWithTopic)
  /-- Something comes to the socket of a subscription. -/
  | arrive (p : Nat) (received : Bytes)
  /-- A turn of the loop of a subscription. -/
  | handle (p : Nat)

section System

variable {τ : Type} (c : SubscriptionRegistry.Component) (cbor : CBOR)

/-- What is sent for a message. -/
def envelope (encodingChoice : TopicEncodingChoice) (data : ByteDataWithTopic) : Bytes :=
  match c with
  | .zeroMQ | .nng => cbor.serialize data
  | .singlecast => OneSinglecastSender.publish cbor encodingChoice data
  | .multicast => OneMulticastSender.publish cbor encodingChoice data

/-- A subscription, as its loop sees it. The loop of NNG is that of ZeroMQ. -/
def subscriber (encodingChoice : TopicEncodingChoice) (clients : Clients) : Subscriber :=
  match c with
  | .zeroMQ | .nng => .zeroMQ clients
  | .singlecast => .singlecast encodingChoice clients
  | .multicast => .multicast encodingChoice clients

/-- The message in what has been received. -/
def decoded (encodingChoice : TopicEncodingChoice) (received : Bytes) : Option ByteDataWithTopic :=
  (subscriber c encodingChoice .empty).message cbor.deserialize received

/-- The calls that the loop makes for what it has received. -/
def callClients (encodingChoice : TopicEncodingChoice) (clients : Clients) (received : Bytes) :
    List (Nat × ByteDataWithTopic) :=
  (clients.registered.zip
    ((subscriber c encodingChoice clients).receive cbor.deserialize received)).filterMap
      fun x => x.2.map fun data => (x.1.2.id, data)

def Net.joinedAfter (s : Net τ) : SubscriptionRegistry.Act τ → Nat → Option Joined
  | .goOn t =>
    match s.registry.phase t with
    | .adding p topic client =>
      let id := (s.registry.counter + 1) % 2 ^ 32
      Function.update s.joined id
        (some ⟨p, (topic, { client with id := id }), (s.read p).length, none⟩)
    | .removing p id =>
      Function.update s.joined id
        ((s.joined id).map fun j => { j with till := some (s.read p).length })
    | _ => s.joined
  | _ => s.joined

/-- A subscription that has been started reads in the envelope of the locator in the call. -/
def Net.choiceAfter (s : Net τ) (r : SubscriptionRegistry.State τ) :
    SubscriptionRegistry.Act τ → Nat → TopicEncodingChoice
  | .addSubscriptionClient _ l _ _ _ =>
    if r.count = s.registry.count then s.choice
    else Function.update s.choice s.registry.count (choiceOf l)
  | _ => s.choice

variable [DecidableEq τ]

def Net.become (s : Net τ) (a : SubscriptionRegistry.Act τ) (r : SubscriptionRegistry.State τ) :
    Net τ :=
  { s with registry := r, joined := s.joinedAfter a, choice := s.choiceAfter r a }

def Net.handle (s : Net τ) (p : Nat) (received : Bytes) (rest : List Bytes) : Net τ :=
  { s with
    queue := Function.update s.queue p rest
    read := Function.update s.read p (s.read p ++ [received])
    calls := s.calls ++
      callClients c cbor (s.choice p) (s.registry.object p).clients received }

def step (s : Net τ) : Act τ → Option (Net τ)
  | .registry a => (SubscriptionRegistry.step c s.registry a).map (s.become a)
  | .publish l encodingChoice data =>
    some { s with published := s.published ++ [(c.key l, encodingChoice, data)] }
  | .arrive p received =>
    if (s.registry.object p).running then
      some { s with queue := Function.update s.queue p (s.queue p ++ [received]) }
    else none
  | .handle p =>
    if (s.registry.object p).running then
      match s.queue p with
      | [] => none
      | received :: rest => some (s.handle c cbor p received rest)
    else none

def machine (τ : Type) [DecidableEq τ] : Machine (Net τ) (Act τ) where
  init := ⟨(SubscriptionRegistry.machine τ c).init, fun _ => .cbor, fun _ => [], fun _ => [], [],
    fun _ => none, []⟩
  step := step c cbor

/-! ## What should hold -/

/-- What a client has been called with. -/
def Net.callsOf (s : Net τ) (id : Nat) : List ByteDataWithTopic :=
  s.calls.filterMap fun x => if x.1 = id then some x.2 else none

/-- What its subscription has read while the client was in it. -/
def Net.heard (s : Net τ) (j : Joined) : List Bytes :=
  match j.till with
  | none => (s.read j.subscription).drop j.since
  | some n => ((s.read j.subscription).take n).drop j.since

/-- What a client should have been called with. -/
def Net.due (s : Net τ) (j : Joined) : List ByteDataWithTopic :=
  (s.heard j).filterMap fun received =>
    (decoded c cbor (s.choice j.subscription) received).bind (got j.client)

/-- It is a message for the locator of the subscription, and is understood as it was meant. -/
def Net.Genuine (s : Net τ) (p : Nat) (received : Bytes) : Prop :=
  ∃ encodingChoice data, ((s.registry.object p).locator, encodingChoice, data) ∈ s.published ∧
    decoded c cbor (s.choice p) received = some data

structure Right (s : Net τ) : Prop where
  /-- Each client has been called once for each message that it should hear, in their order. -/
  called : ∀ id j, s.joined id = some j → s.callsOf id = s.due c cbor j
  nobody : ∀ id, s.joined id = none → s.callsOf id = []
  genuine : ∀ p, ∀ received ∈ s.read p, s.Genuine c cbor p received
  /-- Who has been added, and not been removed, hears the running subscription of its locator. -/
  live : ∀ id k, (id, k) ∈ s.registry.live → ∃ j, s.joined id = some j ∧ j.till = none ∧
    s.registry.subscriptions k = some j.subscription ∧
      (s.registry.object j.subscription).locator = k ∧
        (s.registry.object j.subscription).running = true
  /-- Who has been removed hears no more. -/
  gone : ∀ id j, s.joined id = some j → (∀ k, (id, k) ∉ s.registry.live) →
    (∀ t p, s.registry.phase t ≠ .removing p id) →
      ∃ n, j.till = some n ∧ n ≤ (s.read j.subscription).length

/--
The registry's own conditions; what comes to a subscription has been published for its locator, and
in its envelope where that matters; and no client takes away what others need, where they share one
object.
-/
def Orderly (s : Net τ) : Act τ → Prop
  | .registry a => SubscriptionRegistry.Orderly s.registry a
  | .publish .. => True
  | .arrive p received => ∃ encodingChoice data,
      ((s.registry.object p).locator, encodingChoice, data) ∈ s.published ∧
      received = envelope c cbor encodingChoice data ∧
      (usesDatagrams c = true → encodingChoice = s.choice p ∧ data.topic.length < 2 ^ 32)
  | .handle p => usesDatagrams c = true → ∀ received rest, s.queue p = received :: rest →
      Undisturbed cbor.deserialize
        (subscriber c (s.choice p) (s.registry.object p).clients) received

end System

variable {τ : Type} {c : SubscriptionRegistry.Component} {cbor : CBOR}
  {choice : TopicEncodingChoice} {clients : Clients} {received : Bytes} {data : ByteDataWithTopic}
  {f : TopicSelection × ClientCB} {id p : Nat} {s s' : Net τ} {j : Joined}

/-! ## One message -/

theorem registered_subscriber : (subscriber c choice clients).registered = clients.registered := by
  cases c <;> rfl

/-- Which clients there are makes no difference to what the message is. -/
theorem message_subscriber : (subscriber c choice clients).message cbor.deserialize received =
    decoded c cbor choice received := by
  cases c <;> rfl

theorem decoded_envelope (h : usesDatagrams c = true → data.topic.length < 2 ^ 32) :
    decoded c cbor choice (envelope c cbor choice data) = some data := by
  cases c with
  | zeroMQ | nng => exact complete_cbor
  | singlecast | multicast =>
      cases choice with
      | cbor => exact complete_cbor
      | binary =>
          show complete (OneMulticastSender.publish cbor .binary data)
            (parseBinary (OneMulticastSender.publish cbor .binary data)) = some data
          rw [parseBinary_publish (h rfl), complete, Option.bind_some, if_pos rfl]

/-- Without datagrams the choice of the envelope makes no difference. -/
theorem envelope_of_stream (h : usesDatagrams c = false) (x y : TopicEncodingChoice) :
    envelope c cbor x data = envelope c cbor y data := by
  cases c with
  | zeroMQ | nng => rfl
  | singlecast | multicast => cases h

/-- Each client is called with what it should get of the message. -/
theorem receive_subscriber (h : usesDatagrams c = true →
    Undisturbed cbor.deserialize (subscriber c choice clients) received) :
    (subscriber c choice clients).receive cbor.deserialize received =
      clients.registered.map fun f => (decoded c cbor choice received).bind (got f) := by
  rw [receive_eq, message_subscriber, registered_subscriber]
  cases hm : decoded c cbor choice received with
  | none => rfl
  | some data =>
      simp only [Option.bind_some]
      cases c with
      | zeroMQ | nng => exact Handover.passOn_of_leaves fun _ _ _ => rfl
      | singlecast | multicast =>
          rw [← registered_subscriber]
          exact Handover.passOn_eq_map_iff.mpr (h rfl data (message_subscriber.trans hm))

theorem callClients_eq (h : usesDatagrams c = true →
    Undisturbed cbor.deserialize (subscriber c choice clients) received) :
    callClients c cbor choice clients received = clients.registered.filterMap fun f =>
      ((decoded c cbor choice received).bind (got f)).map fun data => (f.2.id, data) := by
  rw [callClients, receive_subscriber h]
  induction clients.registered with
  | nil => rfl
  | cons f fs ih => rw [List.map_cons, List.zip_cons_cons, List.filterMap_cons, ih,
      List.filterMap_cons]

/-- Of the calls for one message, those with one id. -/
theorem calls_of_entries (g : TopicSelection × ClientCB → Option ByteDataWithTopic) (id : Nat)
    (l : List (TopicSelection × ClientCB)) :
    (l.filterMap fun f => (g f).map fun data => (f.2.id, data)).filterMap
      (fun x => if x.1 = id then some x.2 else none) =
        (l.filter fun f => f.2.id = id).filterMap g := by
  induction l with
  | nil => rfl
  | cons f fs ih =>
      rw [List.filterMap_cons, List.filter_cons]
      by_cases hid : f.2.id = id
      · rw [if_pos (decide_eq_true hid), List.filterMap_cons, ← ih]
        cases g f with
        | none => rfl
        | some data => simp [hid]
      · rw [if_neg (by simpa using hid), ← ih]
        cases g f with
        | none => rfl
        | some data => simp [hid]

theorem filter_id_of_mem {l : List (TopicSelection × ClientCB)}
    (hl : (l.map fun f => f.2.id).Nodup) (hf : f ∈ l) :
    (l.filter fun g => g.2.id = f.2.id) = [f] := by
  induction l with
  | nil => cases hf
  | cons g gs ih =>
      obtain ⟨hg, hgs⟩ := List.nodup_cons.mp hl
      rw [List.filter_cons]
      rcases List.mem_cons.mp hf with rfl | hf
      · rw [if_pos (by simp), List.filter_eq_nil_iff.mpr]
        intro x hx he
        rw [decide_eq_true_eq] at he
        exact hg (List.mem_map.mpr ⟨x, hx, he⟩)
      · rw [if_neg, ih hgs hf]
        intro he
        rw [decide_eq_true_eq] at he
        exact hg (List.mem_map.mpr ⟨f, hf, he.symm⟩)

/-! ## The invariant -/

/-- The clients of a subscription, with their selections. -/
def Net.entries (s : Net τ) (p : Nat) : List (TopicSelection × ClientCB) :=
  (s.registry.object p).clients.registered

structure Inv (c : SubscriptionRegistry.Component) (cbor : CBOR) (s : Net τ) : Prop where
  registry : SubscriptionRegistry.Inv s.registry
  /-- Who is in a subscription has joined it, and has not been taken out. -/
  entries : ∀ p f, f ∈ s.entries p ↔
    ∃ j, s.joined f.2.id = some j ∧ j.subscription = p ∧ j.client = f ∧ j.till = none
  nodup : ∀ p, ((s.entries p).map fun f => f.2.id).Nodup
  running : ∀ p, s.entries p ≠ [] → (s.registry.object p).running = true
  own : ∀ id j, s.joined id = some j →
    j.client.2.id = id ∧ id ≤ s.registry.counter ∧ j.subscription < s.registry.count
  since : ∀ id j, s.joined id = some j → j.since ≤ (s.read j.subscription).length
  till : ∀ id j n, s.joined id = some j → j.till = some n → n ≤ (s.read j.subscription).length
  called : ∀ id j, s.joined id = some j → s.callsOf id = s.due c cbor j
  nobody : ∀ id, s.joined id = none → s.callsOf id = []
  genuine : ∀ p, ∀ received ∈ s.read p ++ s.queue p, s.Genuine c cbor p received
  /-- Nothing is known of a subscription before it is started. -/
  fresh : ∀ p, s.registry.count ≤ p → s.read p = [] ∧ s.queue p = [] ∧ s.entries p = []

theorem Inv.lt_of_running (hi : Inv c cbor s) (h : (s.registry.object p).running = true) :
    p < s.registry.count :=
  (hi.registry.mapped _ _ (hi.registry.only p h)).1

/-- A client that is being removed is still in its subscription. -/
theorem Inv.joined_of_removing {t : τ} (hi : Inv c cbor s)
    (ht : s.registry.phase t = .removing p id) :
    ∃ j, s.joined id = some j ∧ j.subscription = p ∧ j.till = none := by
  have hp := hi.registry.busy t p (pointer_of_removing ht)
  have hid : id ∈ s.registry.ids p := (hi.registry.clients _ _ hp id).mpr (.inr ⟨t, ht⟩)
  obtain ⟨f, hf, rfl⟩ := List.mem_map.mp hid
  obtain ⟨j, hj, hsub, -, htill⟩ := (hi.entries p f).mp hf
  exact ⟨j, hj, hsub, htill⟩

theorem Inv.right (hi : Inv c cbor s) : Right c cbor s where
  called := hi.called
  nobody := hi.nobody
  genuine := fun p received h => hi.genuine p received (List.mem_append_left _ h)
  live := fun id k h => by
    obtain ⟨p, hp, hloc, hrun, hid⟩ := hi.registry.kept_of_live h
    obtain ⟨f, hf, rfl⟩ := List.mem_map.mp hid
    obtain ⟨j, hj, rfl, -, htill⟩ := (hi.entries p f).mp hf
    exact ⟨j, hj, htill, hp, hloc, hrun⟩
  gone := fun id j hj hdead hidle => by
    cases htill : j.till with
    | some n => exact ⟨n, rfl, hi.till id j n hj htill⟩
    | none =>
        -- it would still be in its subscription, and so either live or on its way out
        have hown := (hi.own id j hj).1
        have hmem : j.client ∈ s.entries j.subscription :=
          (hi.entries _ _).mpr ⟨j, by rw [hown, hj], rfl, rfl, htill⟩
        have hmapped := hi.registry.only _ (hi.running _ (List.ne_nil_of_mem hmem))
        have hid : id ∈ s.registry.ids j.subscription :=
          List.mem_map.mpr ⟨j.client, hmem, hown⟩
        rcases (hi.registry.clients _ _ hmapped id).mp hid with h | ⟨t, ht⟩
        · exact absurd h (hdead _)
        · exact absurd ht (hidle t _)

/-! ## Messages -/

theorem genuine_mono (h : s.Genuine c cbor p received)
    (hloc : (s'.registry.object p).locator = (s.registry.object p).locator)
    (hchoice : s'.choice p = s.choice p) (hsub : ∀ e ∈ s.published, e ∈ s'.published) :
    s'.Genuine c cbor p received := by
  obtain ⟨x, data, hmem, hdec⟩ := h
  refine ⟨x, data, ?_, ?_⟩
  · rw [hloc]
    exact hsub _ hmem
  · rw [hchoice]
    exact hdec

theorem Inv.arrive (hi : Inv c cbor s) (hrun : (s.registry.object p).running = true)
    (hg : s.Genuine c cbor p received) :
    Inv c cbor { s with queue := Function.update s.queue p (s.queue p ++ [received]) } where
  registry := hi.registry
  entries := hi.entries
  nodup := hi.nodup
  running := hi.running
  own := hi.own
  since := hi.since
  till := hi.till
  called := hi.called
  nobody := hi.nobody
  genuine := fun q b hb => by
    have hold : b ∈ s.read q ++ s.queue q → s.Genuine c cbor q b := hi.genuine q b
    by_cases hq : q = p
    · subst hq
      simp only [Function.update_self, ← List.append_assoc] at hb
      rcases List.mem_append.mp hb with hb | hb
      · exact hold hb
      · rw [List.mem_singleton.mp hb]
        exact hg
    · simp only [Function.update_of_ne hq] at hb
      exact hold hb
  fresh := fun q hq => by
    have hne : q ≠ p := by
      have := hi.lt_of_running hrun
      have : s.registry.count ≤ q := hq
      omega
    obtain ⟨h1, h2, h3⟩ := hi.fresh q hq
    exact ⟨h1, (Function.update_of_ne hne _ _).trans h2, h3⟩

/-- What a client has heard, after a turn of a loop. -/
theorem heard_handle_of_in {rest : List Bytes} (hsub : j.subscription = p) (htill : j.till = none)
    (hsince : j.since ≤ (s.read p).length) :
    (s.handle c cbor p received rest).heard j = s.heard j ++ [received] := by
  subst hsub
  simp only [Net.heard, Net.handle, htill, Function.update_self]
  exact List.drop_append_of_le_length hsince

theorem heard_handle_of_out {rest : List Bytes}
    (hout : j.subscription = p → ∃ n, j.till = some n ∧ n ≤ (s.read p).length) :
    (s.handle c cbor p received rest).heard j = s.heard j := by
  by_cases hsub : j.subscription = p
  · obtain ⟨n, hn, hle⟩ := hout hsub
    subst hsub
    simp only [Net.heard, Net.handle, hn, Function.update_self, List.take_append_of_le_length hle]
  · simp only [Net.heard, Net.handle, Function.update_of_ne hsub]

theorem callsOf_handle {rest : List Bytes} (h : usesDatagrams c = true →
    Undisturbed cbor.deserialize
      (subscriber c (s.choice p) (s.registry.object p).clients) received) :
    (s.handle c cbor p received rest).callsOf id = s.callsOf id ++
      ((s.entries p).filter fun f => f.2.id = id).filterMap fun f =>
        (decoded c cbor (s.choice p) received).bind (got f) := by
  rw [Net.callsOf, Net.handle, List.filterMap_append, callClients_eq h, calls_of_entries]
  rfl

theorem Inv.handle {rest : List Bytes} (hi : Inv c cbor s)
    (hq : s.queue p = received :: rest) (h : usesDatagrams c = true →
      Undisturbed cbor.deserialize
        (subscriber c (s.choice p) (s.registry.object p).clients) received) :
    Inv c cbor (s.handle c cbor p received rest) where
  registry := hi.registry
  entries := hi.entries
  nodup := hi.nodup
  running := hi.running
  own := hi.own
  since := fun id j hj => by
    refine (hi.since id j hj).trans ?_
    by_cases hsub : j.subscription = p
    · simp [Net.handle, hsub]
    · simp [Net.handle, Function.update_of_ne hsub]
  till := fun id j n hj hn => by
    refine (hi.till id j n hj hn).trans ?_
    by_cases hsub : j.subscription = p
    · simp [Net.handle, hsub]
    · simp [Net.handle, Function.update_of_ne hsub]
  called := fun id j hj => by
    have hown := (hi.own id j hj).1
    rw [callsOf_handle h, hi.called id j hj]
    by_cases hin : j.subscription = p ∧ j.till = none
    · -- it is one of those that the loop goes through
      obtain ⟨rfl, htill⟩ := hin
      have hmem : j.client ∈ s.entries j.subscription :=
        (hi.entries _ _).mpr ⟨j, by rw [hown]; exact hj, rfl, rfl, htill⟩
      have honly : ((s.entries j.subscription).filter fun f => f.2.id = id) = [j.client] := by
        rw [← hown]
        exact filter_id_of_mem (hi.nodup j.subscription) hmem
      rw [honly, Net.due, Net.due, heard_handle_of_in rfl htill (hi.since id j hj),
        List.filterMap_append]
      rfl
    · -- and here it is not
      have hnone : ((s.entries p).filter fun f => f.2.id = id) = [] := by
        rw [List.filter_eq_nil_iff]
        intro f hf he
        rw [decide_eq_true_eq] at he
        obtain ⟨j', hj', hsub, -, htill⟩ := (hi.entries p f).mp hf
        rw [he] at hj'
        obtain rfl : j = j' := Option.some.inj (hj.symm.trans hj')
        exact hin ⟨hsub, htill⟩
      rw [hnone, List.filterMap_nil, List.append_nil, Net.due, Net.due, heard_handle_of_out]
      · rfl
      · intro hsub
        cases htill : j.till with
        | none => exact absurd ⟨hsub, htill⟩ hin
        | some n => exact ⟨n, rfl, hsub ▸ hi.till id j n hj htill⟩
  nobody := fun id hid => by
    rw [callsOf_handle h, hi.nobody id hid, List.nil_append, List.filterMap_eq_nil_iff]
    intro f hf
    obtain ⟨hf, he⟩ := List.mem_filter.mp hf
    rw [decide_eq_true_eq] at he
    obtain ⟨j, hj, -⟩ := (hi.entries p f).mp hf
    rw [he, show s.joined id = none from hid] at hj
    cases hj
  genuine := fun q b hb => by
    refine hi.genuine q b ?_
    by_cases hqp : q = p
    · subst hqp
      simp only [Net.handle, Function.update_self, List.append_assoc, List.singleton_append] at hb
      rwa [hq]
    · simp only [Net.handle, Function.update_of_ne hqp] at hb
      exact hb
  fresh := fun q hle => by
    obtain ⟨h1, h2, h3⟩ := hi.fresh q hle
    have hne : q ≠ p := fun he => by
      rw [he, hq] at h2
      cases h2
    exact ⟨(Function.update_of_ne hne _ _).trans h1, (Function.update_of_ne hne _ _).trans h2, h3⟩

/-! ## Clients come and go -/

section Clients

variable {r : SubscriptionRegistry.State τ} {k : Locator}

/-- A region that moves no client, and neither starts nor stops a subscription. -/
theorem Inv.become_of_same {e : SubscriptionRegistry.Act τ} (hi : Inv c cbor s)
    (hr : SubscriptionRegistry.Inv r) (hj : s.joinedAfter e = s.joined)
    (ho : r.object = s.registry.object) (hn : r.count = s.registry.count)
    (hc : r.counter = s.registry.counter) : Inv c cbor (s.become e r) := by
  have hchoice : s.choiceAfter r e = s.choice := by
    cases e with
    | addSubscriptionClient t l topic client opens => exact if_pos hn
    | removeSubscriptionClient t id => rfl
    | goOn t => rfl
  rw [Net.become, hj, hchoice]
  obtain ⟨object, count, _, counter, _, _, _⟩ := r
  dsimp only at ho hn hc
  subst ho hn hc
  exact ⟨hr, hi.entries, hi.nodup, hi.running, hi.own, hi.since, hi.till, hi.called, hi.nobody,
    hi.genuine, hi.fresh⟩

/-- A subscription is started, without clients. -/
theorem Inv.start (hi : Inv c cbor s) (hr : SubscriptionRegistry.Inv r)
    (ho : r.object = (s.registry.start k).object) (hn : r.count = s.registry.count + 1)
    (hc : r.counter = s.registry.counter) (x : TopicEncodingChoice) :
    Inv c cbor
      { s with registry := r, choice := Function.update s.choice s.registry.count x } := by
  have hobject : ∀ {p}, p ≠ s.registry.count → r.object p = s.registry.object p := fun h => by
    rw [ho]
    exact Function.update_of_ne h _ _
  have hnew : r.object s.registry.count = ⟨k, .empty, true⟩ := by
    rw [ho]
    exact start_object_self
  have hentries : ∀ p, (r.object p).clients.registered = s.entries p := by
    intro p
    by_cases hp : p = s.registry.count
    · rw [hp, hnew, (hi.fresh _ (Nat.le_refl _)).2.2]
      rfl
    · rw [hobject hp]
      rfl
  have hchoice : ∀ {p}, p ≠ s.registry.count →
      Function.update s.choice s.registry.count x p = s.choice p :=
    fun h => Function.update_of_ne h _ _
  exact {
    registry := hr
    entries := fun p f => by
      rw [Net.entries, hentries]
      exact hi.entries p f
    nodup := fun p => by
      rw [Net.entries, hentries]
      exact hi.nodup p
    running := fun p h => by
      rw [Net.entries, hentries] at h
      by_cases hp : p = s.registry.count
      · rw [hp]
        exact congrArg SubscriptionRegistry.Subscription.running hnew
      · show (r.object p).running = true
        rw [hobject hp]
        exact hi.running p h
    own := fun id j hj => by
      obtain ⟨h1, h2, h3⟩ := hi.own id j hj
      exact ⟨h1, hc ▸ h2, hn ▸ Nat.lt_succ_of_lt h3⟩
    since := hi.since
    till := hi.till
    called := fun id j hj => by
      have hne : j.subscription ≠ s.registry.count := Nat.ne_of_lt (hi.own id j hj).2.2
      refine (hi.called id j hj).trans ?_
      simp only [Net.due, hchoice hne]
      rfl
    nobody := hi.nobody
    genuine := fun p b hb => by
      by_cases hp : p = s.registry.count
      · obtain ⟨h1, h2, -⟩ := hi.fresh p (Nat.le_of_eq hp.symm)
        simp only [h1, h2, List.append_nil, List.not_mem_nil] at hb
      · refine genuine_mono (hi.genuine p b hb) ?_ (hchoice hp) fun _ he => he
        exact congrArg SubscriptionRegistry.Subscription.locator (hobject hp)
    fresh := fun p hp => by
      have hp : r.count ≤ p := hp
      obtain ⟨h1, h2, h3⟩ := hi.fresh p (by omega)
      refine ⟨h1, h2, ?_⟩
      rw [Net.entries, hentries, h3] }

variable {x : Clients} {p' : Nat}

theorem clients_of_setClients (ho : r.object = (s.registry.setClients p x).object) :
    (r.object p).clients = x := by
  rw [ho]
  simp [State.setClients]

theorem object_of_setClients (ho : r.object = (s.registry.setClients p x).object) (h : p' ≠ p) :
    r.object p' = s.registry.object p' := by
  rw [ho]
  exact Function.update_of_ne h _ _

/-- What does not concern the clients of a subscription, where these change. -/
theorem frame_of_setClients (ho : r.object = (s.registry.setClients p x).object) :
    (r.object p').locator = (s.registry.object p').locator ∧
      (r.object p').running = (s.registry.object p').running := by
  rw [ho]
  exact ⟨setClients_locator, setClients_running⟩

theorem Inv.join {joined : Nat → Option Joined} (hi : Inv c cbor s)
    (hr : SubscriptionRegistry.Inv r) {topic : TopicSelection} {client : ClientCB}
    (hp : s.registry.subscriptions (s.registry.object p).locator = some p)
    (hid : id = s.registry.counter + 1) (hclient : client.id = id)
    (ho : r.object = (s.registry.setClients p
      ((s.registry.object p).clients.addClient client topic)).object)
    (hn : r.count = s.registry.count) (hc : r.counter = id)
    (hself : joined id = some ⟨p, (topic, client), (s.read p).length, none⟩)
    (hother : ∀ x, x ≠ id → joined x = s.joined x) :
    Inv c cbor { s with registry := r, joined := joined } := by
  obtain ⟨hlt, -, hrun⟩ := hi.registry.mapped _ _ hp
  have hperm : (r.object p).clients.registered.Perm ((topic, client) :: s.entries p) := by
    rw [clients_of_setClients ho]
    exact Clients.registered_addClient
  have hsame : ∀ {p'}, p' ≠ p → (r.object p').clients.registered = s.entries p' := fun h => by
    rw [object_of_setClients ho h]
    rfl
  -- the id is new
  have hnew : s.joined id = none := by
    cases hj : s.joined id with
    | none => rfl
    | some j =>
        have := (hi.own id j hj).2.1
        omega
  have hne : ∀ {p' f}, f ∈ s.entries p' → f.2.id ≠ id := by
    intro p' f hf he
    obtain ⟨j, hj, -⟩ := (hi.entries p' f).mp hf
    rw [he, hnew] at hj
    cases hj
  exact {
    registry := hr
    entries := fun p' f => by
      have hmem : f ∈ (r.object p').clients.registered ↔
          (p' = p ∧ f = (topic, client)) ∨ f ∈ s.entries p' := by
        by_cases h : p' = p
        · subst h
          rw [hperm.mem_iff, List.mem_cons]
          simp
        · rw [hsame h]
          simp [h]
      rw [Net.entries, hmem]
      constructor
      · intro h
        rcases h with ⟨rfl, rfl⟩ | h
        · exact ⟨_, hclient ▸ hself, rfl, rfl, rfl⟩
        · obtain ⟨j, hj, h'⟩ := (hi.entries p' f).mp h
          exact ⟨j, (hother _ (hne h)).trans hj, h'⟩
      · intro h
        obtain ⟨j, hj, hsub, hcl, htill⟩ := h
        by_cases he : f.2.id = id
        · obtain rfl := Option.some.inj (hself.symm.trans (he ▸ hj))
          exact .inl ⟨hsub.symm, hcl.symm⟩
        · exact .inr ((hi.entries p' f).mpr ⟨j, (hother _ he).symm.trans hj, hsub, hcl, htill⟩)
    nodup := fun p' => by
      by_cases h : p' = p
      · subst h
        rw [Net.entries, (hperm.map _).nodup_iff, List.map_cons, List.nodup_cons]
        refine ⟨?_, hi.nodup p'⟩
        intro hmem
        obtain ⟨f, hf, he⟩ := List.mem_map.mp hmem
        exact hne hf (he.trans hclient)
      · rw [Net.entries, hsame h]
        exact hi.nodup p'
    running := fun p' h => by
      show (r.object p').running = true
      rw [(frame_of_setClients ho).2]
      by_cases hp' : p' = p
      · rw [hp', hrun]
      · rw [Net.entries, hsame hp'] at h
        exact hi.running p' h
    own := fun x j hj => by
      by_cases hx : x = id
      · subst hx
        obtain rfl := Option.some.inj (hself.symm.trans hj)
        exact ⟨hclient, Nat.le_of_eq hc.symm, hn ▸ hlt⟩
      · obtain ⟨h1, h2, h3⟩ := hi.own x j ((hother x hx).symm.trans hj)
        exact ⟨h1, hc ▸ hid ▸ Nat.le_succ_of_le h2, hn ▸ h3⟩
    since := fun x j hj => by
      by_cases hx : x = id
      · subst hx
        obtain rfl := Option.some.inj (hself.symm.trans hj)
        exact Nat.le_refl _
      · exact hi.since x j ((hother x hx).symm.trans hj)
    till := fun x j n hj htill => by
      by_cases hx : x = id
      · subst hx
        obtain rfl := Option.some.inj (hself.symm.trans hj)
        cases htill
      · exact hi.till x j n ((hother x hx).symm.trans hj) htill
    called := fun x j hj => by
      by_cases hx : x = id
      · subst hx
        obtain rfl := Option.some.inj (hself.symm.trans hj)
        refine (hi.nobody x hnew).trans ?_
        simp [Net.due, Net.heard]
      · exact hi.called x j ((hother x hx).symm.trans hj)
    nobody := fun x hx => by
      by_cases he : x = id
      · exact hi.nobody x (he ▸ hnew)
      · exact hi.nobody x ((hother x he).symm.trans hx)
    genuine := fun p' b hb =>
      genuine_mono (hi.genuine p' b hb) (frame_of_setClients ho).1 rfl fun _ he => he
    fresh := fun p' hp' => by
      have hp' : r.count ≤ p' := hp'
      obtain ⟨h1, h2, h3⟩ := hi.fresh p' (hn ▸ hp')
      have hne : p' ≠ p := by omega
      exact ⟨h1, h2, (hsame hne).trans h3⟩ }

theorem Inv.leave {joined : Nat → Option Joined} (hi : Inv c cbor s)
    (hr : SubscriptionRegistry.Inv r) (hj : s.joined id = some j) (hsub : j.subscription = p)
    (htill : j.till = none)
    (ho : r.object = (s.registry.setClients p
      ((s.registry.object p).clients.removeClient id)).object)
    (hn : r.count = s.registry.count) (hc : r.counter = s.registry.counter)
    (hself : joined id = some { j with till := some (s.read p).length })
    (hother : ∀ x, x ≠ id → joined x = s.joined x) :
    Inv c cbor { s with registry := r, joined := joined } := by
  have hfilter : (r.object p).clients.registered =
      (s.entries p).filter fun f => f.2.id ≠ id := by
    rw [clients_of_setClients ho]
    exact Clients.registered_removeClient
  have hsame : ∀ {p'}, p' ≠ p → (r.object p').clients.registered = s.entries p' := fun h => by
    rw [object_of_setClients ho h]
    rfl
  -- nobody else has the id
  have hmem : ∀ p' f, f ∈ (r.object p').clients.registered ↔ f.2.id ≠ id ∧ f ∈ s.entries p' := by
    intro p' f
    by_cases h : p' = p
    · subst h
      rw [hfilter, List.mem_filter, decide_eq_true_eq, and_comm]
    · rw [hsame h, iff_and_self]
      intro hf he
      obtain ⟨j', hj', hsub', -⟩ := (hi.entries p' f).mp hf
      rw [he, hj] at hj'
      obtain rfl := Option.some.inj hj'
      exact h (hsub'.symm.trans hsub)
  have hsubset : ∀ p', ((r.object p').clients.registered).Sublist (s.entries p') := by
    intro p'
    by_cases h : p' = p
    · subst h
      rw [hfilter]
      exact List.filter_sublist
    · rw [hsame h]
  exact {
    registry := hr
    entries := fun p' f => by
      rw [Net.entries, hmem]
      constructor
      · intro h
        obtain ⟨j', hj', h'⟩ := (hi.entries p' f).mp h.2
        exact ⟨j', (hother _ h.1).trans hj', h'⟩
      · intro h
        obtain ⟨j', hj', hsub', hcl, htill'⟩ := h
        have hne : f.2.id ≠ id := by
          intro he
          obtain rfl := Option.some.inj (hself.symm.trans (he ▸ hj'))
          cases htill'
        exact ⟨hne, (hi.entries p' f).mpr
          ⟨j', (hother _ hne).symm.trans hj', hsub', hcl, htill'⟩⟩
    nodup := fun p' => (hi.nodup p').sublist ((hsubset p').map _)
    running := fun p' h => by
      show (r.object p').running = true
      rw [(frame_of_setClients ho).2]
      refine hi.running p' fun he => h ?_
      have := hsubset p'
      rw [he] at this
      exact List.sublist_nil.mp this
    own := fun x j' hj' => by
      by_cases hx : x = id
      · subst hx
        obtain rfl := Option.some.inj (hself.symm.trans hj')
        obtain ⟨h1, h2, h3⟩ := hi.own x j hj
        exact ⟨h1, hc ▸ h2, hn ▸ h3⟩
      · obtain ⟨h1, h2, h3⟩ := hi.own x j' ((hother x hx).symm.trans hj')
        exact ⟨h1, hc ▸ h2, hn ▸ h3⟩
    since := fun x j' hj' => by
      by_cases hx : x = id
      · subst hx
        obtain rfl := Option.some.inj (hself.symm.trans hj')
        exact hi.since x j hj
      · exact hi.since x j' ((hother x hx).symm.trans hj')
    till := fun x j' n hj' hn' => by
      by_cases hx : x = id
      · subst hx
        obtain rfl := Option.some.inj (hself.symm.trans hj')
        obtain rfl := Option.some.inj hn'
        exact Nat.le_of_eq (congrArg (fun q => (s.read q).length) hsub.symm)
      · exact hi.till x j' n ((hother x hx).symm.trans hj') hn'
    called := fun x j' hj' => by
      by_cases hx : x = id
      · subst hx
        obtain rfl := Option.some.inj (hself.symm.trans hj')
        -- it has heard all that there was
        refine (hi.called x j hj).trans ?_
        subst hsub
        simp only [Net.due, Net.heard, htill, List.take_length]
      · exact hi.called x j' ((hother x hx).symm.trans hj')
    nobody := fun x hx => by
      by_cases he : x = id
      · subst he
        cases hself.symm.trans hx
      · exact hi.nobody x ((hother x he).symm.trans hx)
    genuine := fun p' b hb =>
      genuine_mono (hi.genuine p' b hb) (frame_of_setClients ho).1 rfl fun _ he => he
    fresh := fun p' hp' => by
      obtain ⟨h1, h2, h3⟩ := hi.fresh p' (hn ▸ hp')
      have := hsubset p'
      rw [h3] at this
      exact ⟨h1, h2, List.sublist_nil.mp this⟩ }

/-- A subscription without clients is stopped. -/
theorem Inv.stop (hi : Inv c cbor s) (hr : SubscriptionRegistry.Inv r)
    (hempty : s.entries p = [])
    (ho : r.object = Function.update s.registry.object p
      { s.registry.object p with running := false })
    (hn : r.count = s.registry.count) (hc : r.counter = s.registry.counter) :
    Inv c cbor { s with registry := r } := by
  have hframe : ∀ p', (r.object p').clients = (s.registry.object p').clients ∧
      (r.object p').locator = (s.registry.object p').locator := by
    intro p'
    by_cases h : p' = p
    · rw [ho, h, Function.update_self]
      exact ⟨rfl, rfl⟩
    · rw [ho, Function.update_of_ne h]
      exact ⟨rfl, rfl⟩
  have hentries : ∀ p', (r.object p').clients.registered = s.entries p' := fun p' =>
    congrArg Clients.registered (hframe p').1
  exact {
    registry := hr
    entries := fun p' f => by
      rw [Net.entries, hentries]
      exact hi.entries p' f
    nodup := fun p' => by
      rw [Net.entries, hentries]
      exact hi.nodup p'
    running := fun p' h => by
      rw [Net.entries, hentries] at h
      have hne : p' ≠ p := fun he => h (he ▸ hempty)
      show (r.object p').running = true
      rw [ho, Function.update_of_ne hne]
      exact hi.running p' h
    own := fun x j hj => by
      obtain ⟨h1, h2, h3⟩ := hi.own x j hj
      exact ⟨h1, hc ▸ h2, hn ▸ h3⟩
    since := hi.since
    till := hi.till
    called := hi.called
    nobody := hi.nobody
    genuine := fun p' b hb => genuine_mono (hi.genuine p' b hb) (hframe p').2 rfl fun _ he => he
    fresh := fun p' hp' => by
      obtain ⟨h1, h2, h3⟩ := hi.fresh p' (hn ▸ hp')
      exact ⟨h1, h2, (hentries p').trans h3⟩ }

end Clients

/-! ## The runs -/

section Runs

variable [DecidableEq τ] {a : Act τ}

theorem Inv.init : Inv c cbor (machine c cbor τ).init where
  registry := SubscriptionRegistry.Inv.init (c := c)
  entries := fun _ _ => ⟨fun h => (nomatch h), fun ⟨_, h, _⟩ => (nomatch h)⟩
  nodup := fun _ => List.nodup_nil
  running := fun _ h => absurd rfl h
  own := fun _ _ h => (nomatch h)
  since := fun _ _ h => (nomatch h)
  till := fun _ _ _ h => (nomatch h)
  called := fun _ _ h => (nomatch h)
  nobody := fun _ _ => rfl
  genuine := fun _ _ h => (nomatch h)
  fresh := fun _ _ => ⟨rfl, rfl, rfl⟩

/-- A region of a call. -/
theorem Inv.become {e : SubscriptionRegistry.Act τ} {r : SubscriptionRegistry.State τ}
    (hi : Inv c cbor s) (hg : SubscriptionRegistry.Orderly s.registry e)
    (h : SubscriptionRegistry.step c s.registry e = some r) : Inv c cbor (s.become e r) := by
  have hr := SubscriptionRegistry.inv_step hi.registry hg h
  cases e with
  | addSubscriptionClient t l topic client opens =>
      simp only [SubscriptionRegistry.step] at h
      split at h
      · obtain rfl := Option.some.inj h
        cases hk : s.registry.subscriptions (c.key l) with
        | some p =>
            have hadd : SubscriptionRegistry.addSubscriptionClient s.registry t (c.key l) topic
                client opens = s.registry.move t (.adding p topic client) := by
              rw [SubscriptionRegistry.addSubscriptionClient, hk]
            rw [hadd] at hr ⊢
            exact hi.become_of_same hr rfl rfl rfl rfl
        | none =>
            have hadd : SubscriptionRegistry.addSubscriptionClient s.registry t (c.key l) topic
                client opens = if opens then (s.registry.start (c.key l)).move t
                  (.adding s.registry.count topic client) else s.registry := by
              rw [SubscriptionRegistry.addSubscriptionClient, hk]
            rw [hadd] at hr ⊢
            cases opens with
            | true =>
                -- a new subscription
                rw [if_pos rfl] at hr ⊢
                have hnew : ((s.registry.start (c.key l)).move t
                    (.adding s.registry.count topic client)).count ≠ s.registry.count :=
                  Nat.succ_ne_self _
                rw [Net.become, Net.choiceAfter, if_neg hnew]
                exact hi.start hr rfl rfl rfl (choiceOf l)
            | false =>
                rw [if_neg (by simp)] at hr ⊢
                exact hi.become_of_same hr rfl rfl rfl rfl
      · cases h
  | removeSubscriptionClient t id =>
      simp only [SubscriptionRegistry.step] at h
      split at h
      · obtain rfl := Option.some.inj h
        have hsame : ∀ {r}, r = SubscriptionRegistry.removeSubscriptionClient s.registry t id →
            r.object = s.registry.object ∧ r.count = s.registry.count ∧
              r.counter = s.registry.counter := by
          intro r hr
          rw [hr, SubscriptionRegistry.removeSubscriptionClient]
          split
          · exact ⟨rfl, rfl, rfl⟩
          · exact ⟨rfl, rfl, rfl⟩
        obtain ⟨ho, hn, hc⟩ := hsame rfl
        exact hi.become_of_same hr rfl ho hn hc
      · cases h
  | goOn t =>
      simp only [SubscriptionRegistry.step] at h
      cases ht : s.registry.phase t with
      | idle =>
          rw [ht] at h
          cases h
      | adding p topic client =>
          rw [ht] at h
          obtain rfl := Option.some.inj h
          have hp := hi.registry.busy t p (by rw [ht]; rfl)
          have hjoined : s.joinedAfter (.goOn t) = Function.update s.joined
              ((s.registry.counter + 1) % 2 ^ 32) (some ⟨p, (topic,
                { client with id := (s.registry.counter + 1) % 2 ^ 32 }),
                (s.read p).length, none⟩) := by
            simp only [Net.joinedAfter, ht]
          refine hi.join hr hp (Nat.mod_eq_of_lt (hg.1 p topic client ht)) rfl rfl rfl rfl ?_ ?_
          · rw [hjoined, Function.update_self]
          · intro x hx
            rw [hjoined, Function.update_of_ne hx]
      | removing p id =>
          rw [ht] at h
          obtain rfl := Option.some.inj h
          obtain ⟨j, hj, hsub, htill⟩ := hi.joined_of_removing ht
          have hjoined : s.joinedAfter (.goOn t) = Function.update s.joined id
              (some { j with till := some (s.read p).length }) := by
            simp only [Net.joinedAfter, ht, hj, Option.map_some]
          refine hi.leave hr hj hsub htill rfl rfl rfl ?_ ?_
          · rw [hjoined, Function.update_self]
          · intro x hx
            rw [hjoined, Function.update_of_ne hx]
      | stopping p =>
          rw [ht] at h
          obtain rfl := Option.some.inj h
          have hjoined : s.joinedAfter (.goOn t) = s.joined := by simp only [Net.joinedAfter, ht]
          cases hempty : (s.registry.object p).clients.isEmpty with
          | true =>
              have hstop : SubscriptionRegistry.potentiallyStopSubscription s.registry t p =
                  s.registry.stop t p := if_pos hempty
              rw [hstop] at hr ⊢
              rw [Net.become, hjoined]
              exact hi.stop hr (Clients.isEmpty_iff.mp hempty) rfl rfl rfl
          | false =>
              have hstay : SubscriptionRegistry.potentiallyStopSubscription s.registry t p =
                  s.registry.move t .idle := if_neg (by rw [hempty]; simp)
              rw [hstay] at hr ⊢
              exact hi.become_of_same hr hjoined rfl rfl rfl

theorem inv_step (hi : Inv c cbor s) (hg : Orderly c cbor s a)
    (h : step c cbor s a = some s') : Inv c cbor s' := by
  cases a with
  | registry e =>
      obtain ⟨r, hr, rfl⟩ := Option.map_eq_some_iff.mp h
      exact hi.become hg hr
  | publish l x data =>
      obtain rfl := Option.some.inj h
      refine { hi with genuine := fun p b hb => ?_ }
      exact genuine_mono (hi.genuine p b hb) rfl rfl fun _ he => List.mem_append_left _ he
  | arrive p received =>
      obtain ⟨hrun, rfl⟩ := of_guarded h
      obtain ⟨x, data, hmem, rfl, hx⟩ := hg
      refine hi.arrive hrun ⟨x, data, hmem, ?_⟩
      cases hc : usesDatagrams c with
      | true =>
          obtain ⟨rfl, hlt⟩ := hx hc
          exact decoded_envelope fun _ => hlt
      | false =>
          rw [envelope_of_stream hc x (s.choice p)]
          exact decoded_envelope fun h => by rw [hc] at h; cases h
  | handle p =>
      simp only [step] at h
      split at h
      · split at h
        · cases h
        · next received rest hq =>
          obtain rfl := Option.some.inj h
          exact hi.handle hq fun hc => hg hc received rest hq
      · cases h

end Runs

/-- A client that is alone has nobody to disturb. -/
theorem undisturbed_of_one (h : clients.registered.length ≤ 1) :
    Undisturbed cbor.deserialize (subscriber c choice clients) received := by
  intro data _ before f rest hl
  rw [registered_subscriber] at hl
  have hlen := congrArg List.length hl
  rw [List.length_append, List.length_cons] at hlen
  rw [List.length_eq_zero_iff.mp (show before.length = 0 by omega)]
  rfl

/--
A client hears a message, and is removed while another is added. The message comes once more before
either is done.
-/
def takingOver : List (Act Bool) :=
  [.registry (.addSubscriptionClient true inBinary .noTopicSelection someClient true),
   .registry (.goOn true), .publish inBinary .binary news, .arrive 0 [1, 0, 0, 0, 116, 99],
   .handle 0,
   .registry (.addSubscriptionClient false inBinary (.exact [116]) someClient true),
   .registry (.removeSubscriptionClient true 1), .arrive 0 [1, 0, 0, 0, 116, 99],
   .registry (.goOn true), .registry (.goOn false), .handle 0, .registry (.goOn true)]

def afterTakingOver : Net Bool :=
  (machine .multicast shortCBOR Bool).exec (machine .multicast shortCBOR Bool).init takingOver

end BroadcastEndToEnd
