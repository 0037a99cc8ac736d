import TMTransport.WebSocket.Subscribers

/-!
# The envelopes of shared endpoints

A message goes over the wire in an envelope, which a property of the locator says:
`envelop` for the singlecast and the multicast component, `ignoreTopic` for the
WebSocket component. The endpoints are shared. A UDP endpoint is kept under its host
and port, a WebSocket publisher under its port, and the locator of the call that makes
the endpoint says what its envelope is. Only the WebSocket subscribers are kept under
the whole locator.
-/

namespace Envelopes

open ConnectionLocator Framing Interleave Subscription WebSocketSubscribers

/-- `RunCBORSerializer` and `RunCBORDeserializer`, for a message. -/
structure CBOR where
  serialize : ByteDataWithTopic → Bytes
  /-- The message, and how many bytes have been read. -/
  deserialize : Bytes → Option (ByteDataWithTopic × Nat)
  deserialize_serialize : ∀ d, deserialize (serialize d) = some (d, (serialize d).length)

def query (l : Locator) (name value : Text) : Text := (l.properties.find name).getD value

def parseEncodingChoice (s : Text) : TopicEncodingChoice :=
  if s = "binary".toList ∨ s = "binary-adhoc".toList then .binary else .cbor

inductive Component where
  | singlecast
  | multicast
  | webSocket
  deriving DecidableEq

/-! ## Endpoints -/

inductive Sender where
  | singlecast (encodingChoice : TopicEncodingChoice)
  | multicast (encodingChoice : TopicEncodingChoice)
  /-- `OnePublisher` -/
  | webSocket (ignoreTopic : Bool)

section Publish

variable (cbor : CBOR)

/-- The length of the topic is cast to a `uint32_t`; the string has place for all of the topic. -/
def OneMulticastSender.publish (encodingChoice : TopicEncodingChoice) (data : ByteDataWithTopic) :
    Bytes :=
  match encodingChoice with
  | .cbor => cbor.serialize data
  | .binary =>
    let topicLen := data.topic.length % 2 ^ 32
    leBytes 4 topicLen ++ data.topic.take topicLen ++ data.content ++
      List.replicate (data.topic.length - topicLen) 0

/-- Word for word what the multicast component does. -/
def OneSinglecastSender.publish (encodingChoice : TopicEncodingChoice)
    (data : ByteDataWithTopic) : Bytes :=
  OneMulticastSender.publish cbor encodingChoice data

def OnePublisher.publish (ignoreTopic : Bool) (data : ByteDataWithTopic) : Bytes :=
  if ignoreTopic then data.content else cbor.serialize data

def Sender.publish (data : ByteDataWithTopic) : Sender → Bytes
  | .singlecast encodingChoice => OneSinglecastSender.publish cbor encodingChoice data
  | .multicast encodingChoice => OneMulticastSender.publish cbor encodingChoice data
  | .webSocket ignoreTopic => OnePublisher.publish cbor ignoreTopic data

end Publish

def addClient (f : ClientCB) (topic : TopicSelection) : Subscriber → Subscriber
  | .multicast encodingChoice clients => .multicast encodingChoice (clients.addClient f topic)
  | .singlecast encodingChoice clients => .singlecast encodingChoice (clients.addClient f topic)
  | .zeroMQ clients => .zeroMQ (clients.addClient f topic)
  | .webSocket s => .webSocket (s.addClient f topic)

/-- The subscriber as it was made. -/
def withoutClients : Subscriber → Subscriber
  | .multicast encodingChoice _ => .multicast encodingChoice .empty
  | .singlecast encodingChoice _ => .singlecast encodingChoice .empty
  | .zeroMQ _ => .zeroMQ .empty
  | .webSocket s => .webSocket (.empty s.ignoreTopic)

namespace Component

/-- The sender that is made for a locator. -/
def newSender (l : Locator) : Component → Sender
  | .singlecast => .singlecast (parseEncodingChoice (query l "envelop".toList "cbor".toList))
  | .multicast => .multicast (parseEncodingChoice (query l "envelop".toList "cbor".toList))
  | .webSocket => .webSocket (ignoresTopic l)

/-- The subscription that is made for a locator. -/
def newSubscriber (l : Locator) : Component → Subscriber
  | .singlecast => .singlecast (parseEncodingChoice (query l "envelop".toList "cbor".toList)) .empty
  | .multicast => .multicast (parseEncodingChoice (query l "envelop".toList "cbor".toList)) .empty
  | .webSocket => .webSocket (.empty (ignoresTopic l))

def hostAndPort (l : Locator) : Locator := ⟨l.host, l.port, [], [], [], .empty⟩

/-- The WebSocket publishers are kept under the port alone. -/
def senderKey (l : Locator) : Component → Locator
  | .singlecast | .multicast => hostAndPort l
  | .webSocket => ⟨[], l.port, [], [], [], .empty⟩

def subscriptionKey (tls : Bool) (l : Locator) : Component → Locator
  | .singlecast | .multicast => hostAndPort l
  | .webSocket => actualLocator tls l

/-- What of a message the envelope for the locator carries. -/
def carried (l : Locator) (data : ByteDataWithTopic) : Component → ByteDataWithTopic
  | .singlecast | .multicast => data
  | .webSocket => if ignoresTopic l then ⟨[], data.content⟩ else data

end Component

/-! ## Calls -/

/-- What `getPublisher` has returned. -/
structure Publisher where
  locator : Locator
  userToWireHook : Option (Bytes → Bytes)

/-- A client, with the key of its subscription. -/
structure Client where
  locator : Locator
  key : Locator

structure Sent where
  /-- The locator that the publisher is for. -/
  locator : Locator
  /-- The message, with what the hook has made of the content. -/
  data : ByteDataWithTopic
  bytes : Bytes

structure State where
  senders : Locator → Option Sender
  subscriptions : Locator → Option Subscriber
  publishers : List Publisher
  clients : List Client
  sent : List Sent

inductive Act where
  /-- To make an endpoint may fail. -/
  | getPublisher (locator : Locator) (userToWireHook : Option (Bytes → Bytes)) (opens : Bool)
  /-- The client comes with the id that the call returns. -/
  | addSubscriptionClient (tls : Bool) (locator : Locator) (topic : TopicSelection)
      (client : ClientCB) (opens : Bool)
  /-- A message goes out through a publisher. -/
  | publish (i : Nat) (data : ByteDataWithTopic)

section Step

variable (cbor : CBOR) (c : Component)

def getPublisher (s : State) (l : Locator) (hook : Option (Bytes → Bytes)) (opens : Bool) :
    State :=
  match s.senders (c.senderKey l) with
  | some _ => { s with publishers := s.publishers ++ [⟨l, hook⟩] }
  | none =>
    if opens then
      { s with
        senders := Function.update s.senders (c.senderKey l) (some (c.newSender l))
        publishers := s.publishers ++ [⟨l, hook⟩] }
    else s

/-- The client is attached to a subscription. -/
def State.attach (s : State) (k l : Locator) (topic : TopicSelection) (client : ClientCB)
    (x : Subscriber) : State :=
  { s with
    subscriptions := Function.update s.subscriptions k (some (addClient client topic x))
    clients := s.clients ++ [⟨l, k⟩] }

def addSubscriptionClient (s : State) (tls : Bool) (l : Locator) (topic : TopicSelection)
    (client : ClientCB) (opens : Bool) : State :=
  let k := c.subscriptionKey tls l
  match s.subscriptions k with
  | some x => s.attach k l topic client x
  | none => if opens then s.attach k l topic client (c.newSubscriber l) else s

def publish (s : State) (p : Publisher) (data : ByteDataWithTopic) : State :=
  match s.senders (c.senderKey p.locator) with
  | none => s
  | some x =>
    let data := match p.userToWireHook with
      | some hook => ⟨data.topic, hook data.content⟩
      | none => data
    { s with sent := ⟨p.locator, data, x.publish cbor data⟩ :: s.sent }

def step (s : State) : Act → Option State
  | .getPublisher l hook opens => some (getPublisher c s l hook opens)
  | .addSubscriptionClient tls l topic client opens =>
    some (addSubscriptionClient c s tls l topic client opens)
  | .publish i data => (s.publishers[i]?).map fun p => publish cbor c s p data

def machine : Machine State Act where
  init := ⟨fun _ => none, fun _ => none, [], [], []⟩
  step := step cbor c

/-! ## What should hold -/

structure Honoured (s : State) : Prop where
  /-- A message goes out as from a sender that was made for the publisher's locator. -/
  encoded : ∀ m ∈ s.sent, m.bytes = (c.newSender m.locator).publish cbor m.data
  /-- The clients for the locator have a subscription that reads as one made for it. -/
  read : ∀ r ∈ s.clients, ∃ x, s.subscriptions r.key = some x ∧ ∀ bytes,
    x.message cbor.deserialize bytes =
      (c.newSubscriber r.locator).message cbor.deserialize bytes
  /-- What they read is what was sent. -/
  decoded : ∀ m ∈ s.sent, ∀ r ∈ s.clients, r.locator = m.locator →
    ∃ x, s.subscriptions r.key = some x ∧
      x.message cbor.deserialize m.bytes = some (c.carried m.locator m.data)

/--
An endpoint that is there was made for a locator with the same envelope as that of the call, where
it is not a WebSocket subscriber; and no topic that goes into a datagram has `2 ^ 32` bytes or more.
-/
def Orderly (s : State) : Act → Prop
  | .getPublisher l _ _ => ∀ x, s.senders (c.senderKey l) = some x → x = c.newSender l
  | .addSubscriptionClient tls l _ _ _ => c ≠ .webSocket →
      ∀ x, s.subscriptions (c.subscriptionKey tls l) = some x →
        withoutClients x = c.newSubscriber l
  | .publish _ data => c ≠ .webSocket → data.topic.length < 2 ^ 32

end Step

/-! ## Reading what was written -/

variable {cbor : CBOR} {c : Component} {s s' : State} {l k : Locator} {d : ByteDataWithTopic}
  {x : Subscriber}

theorem complete_cbor : complete (cbor.serialize d) (cbor.deserialize (cbor.serialize d)) =
    some d := by
  rw [complete, cbor.deserialize_serialize, Option.bind_some, if_pos rfl]

theorem parseBinary_publish (hd : d.topic.length < 2 ^ 32) :
    parseBinary (OneMulticastSender.publish cbor .binary d) =
      some (d, (OneMulticastSender.publish cbor .binary d).length) := by
  have hlen : d.topic.length % 2 ^ 32 = d.topic.length := Nat.mod_eq_of_lt hd
  have hv : OneMulticastSender.publish cbor .binary d =
      leBytes 4 d.topic.length ++ (d.topic ++ d.content) := by
    simp only [OneMulticastSender.publish, hlen, Nat.sub_self, List.replicate_zero,
      List.append_nil, List.take_length, List.append_assoc]
  have htake : (leBytes 4 d.topic.length ++ (d.topic ++ d.content)).take 4 =
      leBytes 4 d.topic.length := List.take_left' (length_leBytes _ _)
  have hdrop : (leBytes 4 d.topic.length ++ (d.topic ++ d.content)).drop 4 =
      d.topic ++ d.content := List.drop_left' (length_leBytes _ _)
  have hle : ofLE (leBytes 4 d.topic.length) = d.topic.length :=
    ofLE_leBytes (by norm_num at hd ⊢; exact hd)
  have hrest : (leBytes 4 d.topic.length ++ (d.topic ++ d.content)).drop (4 + d.topic.length) =
      d.content := by
    rw [← List.drop_drop, hdrop, List.drop_left]
  rw [hv, parseBinary, htake, hle, hdrop, if_neg]
  · simp only [hrest, List.take_left]
    rw [if_neg]
    rw [List.length_append, List.length_append, length_leBytes]
    omega
  · rw [List.length_append, length_leBytes]
    omega

theorem message_publish (l : Locator) (hd : c ≠ .webSocket → d.topic.length < 2 ^ 32) :
    (c.newSubscriber l).message cbor.deserialize ((c.newSender l).publish cbor d) =
      some (c.carried l d) := by
  have hudp : ∀ choice, c ≠ .webSocket → complete (OneMulticastSender.publish cbor choice d)
      (Multicast.parse cbor.deserialize choice (OneMulticastSender.publish cbor choice d)) =
        some d := by
    intro choice hc
    cases choice with
    | cbor => exact complete_cbor
    | binary =>
        rw [Multicast.parse, parseBinary_publish (hd hc), complete, Option.bind_some, if_pos rfl]
  cases c with
  | singlecast => exact hudp _ (by decide)
  | multicast => exact hudp _ (by decide)
  | webSocket =>
      simp only [Component.newSubscriber, Component.newSender, Component.carried,
        Subscriber.message, Sender.publish, OnePublisher.publish, WebSocket.OneSubscriber.empty]
      cases ignoresTopic l with
      | true => rfl
      | false => exact complete_cbor

theorem message_withoutClients (bytes : Bytes) :
    (withoutClients x).message cbor.deserialize bytes = x.message cbor.deserialize bytes := by
  cases x <;> rfl

@[simp]
theorem withoutClients_addClient {f : ClientCB} {topic : TopicSelection} :
    withoutClients (addClient f topic x) = withoutClients x := by
  cases x <;> rfl

theorem withoutClients_newSubscriber :
    withoutClients (c.newSubscriber l) = c.newSubscriber l := by
  cases c <;> rfl

/-- The port is no part of what a WebSocket subscriber reads. -/
theorem newSubscriber_actualLocator (tls : Bool) :
    Component.newSubscriber (actualLocator tls l) .webSocket =
      Component.newSubscriber l .webSocket := rfl

/-! ## The invariant -/

structure Inv (cbor : CBOR) (c : Component) (s : State) : Prop where
  publishers : ∀ p ∈ s.publishers,
    s.senders (c.senderKey p.locator) = some (c.newSender p.locator)
  clients : ∀ r ∈ s.clients, ∃ x, s.subscriptions r.key = some x ∧
    withoutClients x = c.newSubscriber r.locator
  /-- A WebSocket subscriber is kept under its own locator. -/
  own : c = .webSocket → ∀ k x, s.subscriptions k = some x →
    withoutClients x = c.newSubscriber k
  sent : ∀ m ∈ s.sent, (c ≠ .webSocket → m.data.topic.length < 2 ^ 32) ∧
    m.bytes = (c.newSender m.locator).publish cbor m.data

theorem Inv.honoured (hi : Inv cbor c s) : Honoured cbor c s where
  encoded := fun m hm => (hi.sent m hm).2
  read := fun r hr => by
    obtain ⟨x, hx, he⟩ := hi.clients r hr
    refine ⟨x, hx, fun bytes => ?_⟩
    rw [← he, message_withoutClients]
  decoded := fun m hm r hr hl => by
    obtain ⟨x, hx, he⟩ := hi.clients r hr
    obtain ⟨hlen, hb⟩ := hi.sent m hm
    refine ⟨x, hx, ?_⟩
    rw [← message_withoutClients, he, hl, hb, message_publish m.locator hlen]

theorem Inv.getPublisher {hook : Option (Bytes → Bytes)} {opens : Bool} (hi : Inv cbor c s)
    (hg : ∀ x, s.senders (c.senderKey l) = some x → x = c.newSender l) :
    Inv cbor c (getPublisher c s l hook opens) := by
  rw [Envelopes.getPublisher]
  cases hs : s.senders (c.senderKey l) with
  | some x =>
      refine ⟨fun p hp => ?_, hi.clients, hi.own, hi.sent⟩
      rcases List.mem_append.mp hp with hp | hp
      · exact hi.publishers p hp
      · rw [List.mem_singleton.mp hp, ← hg x hs]
        exact hs
  | none =>
      cases opens with
      | false => exact hi
      | true =>
          refine ⟨fun p hp => ?_, hi.clients, hi.own, hi.sent⟩
          rcases List.mem_append.mp hp with hp | hp
          · have h := hi.publishers p hp
            have hne : c.senderKey p.locator ≠ c.senderKey l := fun he => by
              rw [he, hs] at h
              cases h
            rw [← h]
            exact Function.update_of_ne hne _ _
          · rw [List.mem_singleton.mp hp]
            exact Function.update_self _ _ _

/-- A client comes to a subscription that is right for its locator. -/
theorem Inv.attach {topic : TopicSelection} {client : ClientCB} (hi : Inv cbor c s)
    (hx : withoutClients x = c.newSubscriber l)
    (hk : ∀ y, s.subscriptions k = some y → withoutClients y = withoutClients x)
    (hown : c = .webSocket → c.newSubscriber l = c.newSubscriber k) :
    Inv cbor c (s.attach k l topic client x) where
  publishers := hi.publishers
  clients := fun r hr => by
    by_cases he : r.key = k
    · refine ⟨addClient client topic x, ?_, ?_⟩
      · rw [State.attach, he]
        exact Function.update_self _ _ _
      · rcases List.mem_append.mp hr with hr | hr
        · obtain ⟨y, hy, hr⟩ := hi.clients r hr
          rw [he] at hy
          rw [withoutClients_addClient, ← hk y hy, hr]
        · rw [List.mem_singleton.mp hr, withoutClients_addClient, hx]
    · rcases List.mem_append.mp hr with hr | hr
      · obtain ⟨y, hy, hr⟩ := hi.clients r hr
        refine ⟨y, ?_, hr⟩
        rw [← hy]
        exact Function.update_of_ne he _ _
      · rw [List.mem_singleton.mp hr] at he
        exact absurd rfl he
  own := fun hc k' y hy => by
    simp only [State.attach, Function.update_apply] at hy
    split at hy
    · next he =>
      obtain rfl := Option.some.inj hy
      rw [withoutClients_addClient, hx, he, hown hc]
    · exact hi.own hc k' y hy
  sent := hi.sent

theorem Inv.addSubscriptionClient {tls : Bool} {topic : TopicSelection} {client : ClientCB}
    {opens : Bool} (hi : Inv cbor c s)
    (hg : c ≠ .webSocket → ∀ x, s.subscriptions (c.subscriptionKey tls l) = some x →
      withoutClients x = c.newSubscriber l) :
    Inv cbor c (addSubscriptionClient c s tls l topic client opens) := by
  have hown : c = .webSocket →
      c.newSubscriber l = c.newSubscriber (c.subscriptionKey tls l) := by
    rintro rfl
    exact (newSubscriber_actualLocator tls).symm
  have hfound : ∀ x, s.subscriptions (c.subscriptionKey tls l) = some x →
      withoutClients x = c.newSubscriber l := fun x hx => by
    by_cases hc : c = .webSocket
    · rw [hi.own hc _ x hx, ← hown hc]
    · exact hg hc x hx
  rw [Envelopes.addSubscriptionClient]
  cases hs : s.subscriptions (c.subscriptionKey tls l) with
  | some x =>
      refine hi.attach (hfound x hs) (fun y hy => ?_) hown
      rw [hfound y hy, hfound x hs]
  | none =>
      cases opens with
      | false => exact hi
      | true =>
          refine hi.attach withoutClients_newSubscriber (fun y hy => ?_) hown
          rw [hs] at hy
          cases hy

theorem Inv.publish {p : Publisher} (hi : Inv cbor c s) (hp : p ∈ s.publishers)
    (hd : c ≠ .webSocket → d.topic.length < 2 ^ 32) : Inv cbor c (publish cbor c s p d) := by
  rw [Envelopes.publish, hi.publishers p hp]
  refine ⟨hi.publishers, hi.clients, hi.own, fun m hm => ?_⟩
  rcases List.mem_cons.mp hm with rfl | hm
  · refine ⟨?_, rfl⟩
    cases p.userToWireHook <;> exact hd
  · exact hi.sent m hm

theorem inv_step {a : Act} (hi : Inv cbor c s) (hg : Orderly c s a)
    (hs : step cbor c s a = some s') : Inv cbor c s' := by
  cases a with
  | getPublisher l hook opens =>
      obtain rfl := Option.some.inj hs
      exact hi.getPublisher hg
  | addSubscriptionClient tls l topic client opens =>
      obtain rfl := Option.some.inj hs
      exact hi.addSubscriptionClient hg
  | publish i data =>
      obtain ⟨p, hp, rfl⟩ := Option.map_eq_some_iff.mp hs
      exact hi.publish (List.mem_of_getElem? hp) hg

/--
**The envelope of the locator.** Let no call find an endpoint that was made for another envelope.
Then every message goes out in the envelope of its publisher's locator, and the clients for the same
locator read in it what was sent.
-/
theorem honoured_of_orderly (h : (machine cbor c).Reach (Orderly c) s) : Honoured cbor c s := by
  have hi : Inv cbor c s := by
    refine h.invariant ?_ fun _ _ _ hi hg hs => inv_step hi hg hs
    exact ⟨fun _ h => (nomatch h), fun _ h => (nomatch h), fun _ _ _ h => (nomatch h),
      fun _ h => (nomatch h)⟩
  exact hi.honoured

/-! ## Two calls on one port -/

/-- CBOR, for messages of less than 24 bytes; and something for the others. -/
def shortCBOR.serialize (d : ByteDataWithTopic) : Bytes :=
  if d.topic.length < 24 ∧ d.content.length < 24 then
    0x82 :: UInt8.ofNat (0x60 + d.topic.length) :: d.topic ++
      UInt8.ofNat (0x40 + d.content.length) :: d.content
  else 0xff :: List.replicate d.topic.length 1 ++ 0 :: (d.topic ++ d.content)

def shortCBOR.deserialize (b : Bytes) : Option (ByteDataWithTopic × Nat) :=
  match b with
  | 0x82 :: h :: rest =>
    let n := h.toNat - 0x60
    some (⟨rest.take n, rest.drop (n + 1)⟩, b.length)
  | 0xff :: rest =>
    let n := (rest.takeWhile (· = 1)).length
    some (⟨(rest.drop (n + 1)).take n, rest.drop (n + 1 + n)⟩, b.length)
  | _ => none

theorem shortCBOR.deserialize_serialize (d : ByteDataWithTopic) :
    deserialize (serialize d) = some (d, (serialize d).length) := by
  rw [serialize]
  split
  · next h =>
    have hn : (UInt8.ofNat (0x60 + d.topic.length)).toNat - 0x60 = d.topic.length := by
      rw [UInt8.toNat_ofNat', Nat.mod_eq_of_lt (by omega)]
      omega
    simp only [List.cons_append, deserialize, hn, List.take_left,
      List.drop_length_add_append, List.drop_one, List.tail_cons]
  · have hrun : (List.replicate d.topic.length (1 : UInt8) ++
        0 :: (d.topic ++ d.content)).takeWhile (· = 1) = List.replicate d.topic.length 1 := by
      rw [List.takeWhile_append_of_pos (by simp)]
      simp
    have hrest : (List.replicate d.topic.length (1 : UInt8) ++ 0 :: (d.topic ++ d.content)).drop
        (d.topic.length + 1) = d.topic ++ d.content := by
      rw [← List.drop_drop, List.drop_left' List.length_replicate]
      rfl
    simp only [List.cons_append, deserialize, hrun, List.length_replicate, hrest, List.take_left,
      ← List.drop_drop, List.drop_left]

def shortCBOR : CBOR :=
  ⟨shortCBOR.serialize, shortCBOR.deserialize, shortCBOR.deserialize_serialize⟩

/-- With a property, or with none. -/
def port5000 (properties : List (Text × Text)) : Locator :=
  ⟨"h".toList, 5000, [], [], [], properties.foldl (fun ps p => ps.insert p.1 p.2) .empty⟩

def inBinary : Locator := port5000 [("envelop".toList, "binary".toList)]

def news : ByteDataWithTopic := ⟨[116], [99]⟩

/-- A publisher and a client for one locator, and one more publisher with another property. -/
def sharing : List Act :=
  [.getPublisher inBinary none true,
   .addSubscriptionClient false inBinary .noTopicSelection (taker 1) true,
   .getPublisher (port5000 [("envelop".toList, "binary-adhoc".toList)]) none true,
   .publish 1 news]

theorem honoured_sharing :
    let s := (machine shortCBOR .multicast).exec (machine shortCBOR .multicast).init sharing
    s.sent.map Sent.bytes = [[1, 0, 0, 0, 116, 99]] ∧ Honoured shortCBOR .multicast s := by
  refine ⟨by decide +kernel, honoured_of_orderly (Machine.Reach.init.exec ?_)⟩
  refine ⟨fun x hx => (nomatch hx), fun _ x hx => (nomatch hx), fun x hx => ?_, ?_, trivial⟩
  · exact (Option.some.inj hx).symm
  · intro _
    decide

/-- The second publisher, and with it its message, is for CBOR. -/
def mixing : List Act :=
  [.getPublisher inBinary none true, .getPublisher (port5000 []) none true, .publish 1 news]

theorem not_honoured_mixing :
    ¬ ∀ c s, (machine shortCBOR c).Reach (fun _ _ => True) s → Honoured shortCBOR c s := by
  intro h
  have hr := h .singlecast ((machine shortCBOR .singlecast).exec
    (machine shortCBOR .singlecast).init mixing)
    (Machine.Reach.init.exec (.of_forall (fun _ _ => trivial) _ _))
  have := hr.encoded ⟨port5000 [], news, [1, 0, 0, 0, 116, 99]⟩ (.head _)
  revert this
  decide +kernel

end Envelopes
