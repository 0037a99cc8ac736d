import TMTransport.Broadcast.Clients
import TMTransport.Library.Handover

/-!
# One message, many clients

A subscription that has read a message goes through its clients and calls those
whose selection accepts the topic. The callbacks take the message by reference, to
move from it what they need. The ZeroMQ component gives each of them a copy. The
others give all of them the same object: what one callback has moved away is not
there for the selections and the callbacks after it.

A string that has been moved from is empty.
-/

namespace Subscription

open Framing Handover

/-! ## The loops -/

/-- What the callback is called with, if it is, and what is left of `d`. -/
def callClient (c : ClientCB) (d : ByteDataWithTopic) :
    Option ByteDataWithTopic × ByteDataWithTopic :=
  match c.hook with
  | some hook =>
    match hook d.content with
    | some b => (some ⟨d.topic, b⟩, ⟨[], d.content⟩)
    | none => (none, d)
  | none => (some d, c.leaves d)

/-- One turn of a loop. -/
def visit (f : TopicSelection × ClientCB) (d : ByteDataWithTopic) :
    Option ByteDataWithTopic × ByteDataWithTopic :=
  if f.1.accepts d.topic then callClient f.2 d else (none, d)

/-- The loops over the three collections, with one `data` that is moved into each call. -/
def callAll (data : ByteDataWithTopic) :
    List (TopicSelection × ClientCB) → List (Option ByteDataWithTopic)
  | [] => []
  | f :: fs => (visit f data).1 :: callAll (visit f data).2 fs

/-- The same loops, with a copy for each call. -/
def callAllWithCopies (data : ByteDataWithTopic) (fs : List (TopicSelection × ClientCB)) :
    List (Option ByteDataWithTopic) :=
  fs.map fun f => (visit f data).1

/-- No client is called. -/
def callNobody (fs : List (TopicSelection × ClientCB)) : List (Option ByteDataWithTopic) :=
  fs.map fun _ => none

/-! ## The components -/

inductive TopicEncodingChoice where
  | cbor
  | binary

/-- The topic's length as a `uint32_t`, the topic, and all the rest. -/
def parseBinary (received : Bytes) : Option (ByteDataWithTopic × Nat) :=
  if received.length < 4 then none
  else
    let topicLen := ofLE (received.take 4)
    if received.length < topicLen + 4 then none
    else some (⟨(received.drop 4).take topicLen, received.drop (4 + topicLen)⟩, received.length)

/-- The message, if there is one and it goes to the last byte of what was received. -/
def complete (received : Bytes) (parseRes : Option (ByteDataWithTopic × Nat)) :
    Option ByteDataWithTopic :=
  parseRes.bind fun r => if r.2 = received.length then some r.1 else none

section Components

-- The CBOR decoder gives the data, and how many bytes it has read.
variable (cbor : Bytes → Option (ByteDataWithTopic × Nat))

namespace Multicast

def parse (encodingChoice : TopicEncodingChoice) (received : Bytes) :
    Option (ByteDataWithTopic × Nat) :=
  match encodingChoice with
  | .cbor => cbor received
  | .binary => parseBinary received

def handleReceive (encodingChoice : TopicEncodingChoice) (clients : Clients) (received : Bytes) :
    List (Option ByteDataWithTopic) :=
  match complete received (parse cbor encodingChoice received) with
  | some data => callAll data clients.registered
  | none => callNobody clients.registered

end Multicast

namespace Singlecast

/-- Word for word what the multicast component does. -/
def handleReceive (encodingChoice : TopicEncodingChoice) (clients : Clients) (received : Bytes) :
    List (Option ByteDataWithTopic) :=
  Multicast.handleReceive cbor encodingChoice clients received

end Singlecast

namespace ZeroMQ

/-- A turn of the loop in `run`, with what has been received. -/
def handleReceive (clients : Clients) (received : Bytes) : List (Option ByteDataWithTopic) :=
  match complete received (cbor received) with
  | some data => callAllWithCopies data clients.registered
  | none => callNobody clients.registered

end ZeroMQ

namespace WebSocket

/-- A subscriber for a locator with `ignoreTopic` has clients without a filter only. -/
structure OneSubscriber where
  ignoreTopic : Bool
  clients : Clients
  plain : ignoreTopic = true → clients.stringMatchClients = [] ∧ clients.regexMatchClients = []

namespace OneSubscriber

def empty (ignoreTopic : Bool) : OneSubscriber := ⟨ignoreTopic, .empty, fun _ => ⟨rfl, rfl⟩⟩

def selection (ignoreTopic : Bool) (topic : TopicSelection) : TopicSelection :=
  if ignoreTopic then .noTopicSelection else topic

def addClient (s : OneSubscriber) (f : ClientCB) (topic : TopicSelection) : OneSubscriber where
  ignoreTopic := s.ignoreTopic
  clients := s.clients.addClient f (selection s.ignoreTopic topic)
  plain := fun h => by
    rw [selection, if_pos h]
    exact s.plain h

def removeClient (s : OneSubscriber) (id : Nat) : OneSubscriber where
  ignoreTopic := s.ignoreTopic
  clients := s.clients.removeClient id
  plain := fun h => by
    obtain ⟨h1, h2⟩ := s.plain h
    simp [Clients.removeClient, h1, h2]

end OneSubscriber

/-- The loop of a subscriber that ignores topics: the first turn moves the input away. -/
def callPlain : Bytes → List ClientCB → List (Option ByteDataWithTopic)
  | _, [] => []
  | input, f :: fs => (callClient f ⟨[], input⟩).1 :: callPlain [] fs

def onRead (s : OneSubscriber) (input : Bytes) : List (Option ByteDataWithTopic) :=
  if s.ignoreTopic then callPlain input s.clients.noFilterClients
  else
    match complete input (cbor input) with
    | some data => callAll data s.clients.registered
    | none => callNobody s.clients.registered

end WebSocket

inductive Subscriber where
  | multicast (encodingChoice : TopicEncodingChoice) (clients : Clients)
  | singlecast (encodingChoice : TopicEncodingChoice) (clients : Clients)
  | zeroMQ (clients : Clients)
  | webSocket (s : WebSocket.OneSubscriber)

def Subscriber.registered : Subscriber → List (TopicSelection × ClientCB)
  | .multicast _ clients => clients.registered
  | .singlecast _ clients => clients.registered
  | .zeroMQ clients => clients.registered
  | .webSocket s => s.clients.registered

/-- For each client, in the order of the loops, what it is called with, if it is called. -/
def Subscriber.receive (received : Bytes) : Subscriber → List (Option ByteDataWithTopic)
  | .multicast encodingChoice clients =>
      Multicast.handleReceive cbor encodingChoice clients received
  | .singlecast encodingChoice clients =>
      Singlecast.handleReceive cbor encodingChoice clients received
  | .zeroMQ clients => ZeroMQ.handleReceive cbor clients received
  | .webSocket s => WebSocket.onRead cbor s received

/-! ## What the clients should get -/

/-- The message in what was received. -/
def Subscriber.message (received : Bytes) : Subscriber → Option ByteDataWithTopic
  | .multicast encodingChoice _ => complete received (Multicast.parse cbor encodingChoice received)
  | .singlecast encodingChoice _ => complete received (Multicast.parse cbor encodingChoice received)
  | .zeroMQ _ => complete received (cbor received)
  | .webSocket s =>
      if s.ignoreTopic then some ⟨[], received⟩ else complete received (cbor received)

/-- What a client should be called with, if at all, when `d` has come. -/
def got (f : TopicSelection × ClientCB) (d : ByteDataWithTopic) : Option ByteDataWithTopic :=
  if f.1.accepts d.topic then
    match f.2.hook with
    | some hook => (hook d.content).map fun b => ⟨d.topic, b⟩
    | none => some d
  else none

/--
Each client is called once, with the topic and with what its hook makes of the content, if its
selection accepts the topic and its hook the content; and it is not called otherwise.
-/
def Right (s : Subscriber) (received : Bytes) : Prop :=
  s.receive cbor received = s.registered.map fun f => (s.message cbor received).bind (got f)

/-- What a client leaves of `d`, if it has been called with `arg`. -/
def leave (f : TopicSelection × ClientCB) (arg : Option ByteDataWithTopic)
    (d : ByteDataWithTopic) : ByteDataWithTopic :=
  match arg, f.2.hook with
  | none, _ => d
  | some _, some _ => ⟨[], d.content⟩
  | some _, none => f.2.leaves d

/-- The same, as it is in the component of the subscriber. -/
def Subscriber.leave (s : Subscriber) (f : TopicSelection × ClientCB)
    (arg : Option ByteDataWithTopic) (d : ByteDataWithTopic) : ByteDataWithTopic :=
  match s with
  | .zeroMQ _ => d
  | .webSocket s => if s.ignoreTopic then ⟨[], []⟩ else Subscription.leave f arg d
  | _ => Subscription.leave f arg d

/--
To each client, what the clients before it would leave of the message, if each of these was called
as it should be, is as good as the message.
-/
def Undisturbed (s : Subscriber) (received : Bytes) : Prop :=
  ∀ d, s.message cbor received = some d → ∀ before f rest, s.registered = before ++ f :: rest →
    got f (remains got s.leave d d before) = got f d

end Components

variable {cbor : Bytes → Option (ByteDataWithTopic × Nat)} {s : Subscriber} {received : Bytes}
  {d : ByteDataWithTopic} {f : TopicSelection × ClientCB}

/-! ## The loops as passing on -/

theorem visit_eq : visit f d = (got f d, leave f (got f d) d) := by
  unfold visit got
  split
  · cases hh : f.2.hook with
    | none => simp [callClient, leave, hh]
    | some hook => cases hb : hook d.content <;> simp [callClient, leave, hh, hb]
  · cases hh : f.2.hook <;> rfl

theorem callAll_eq (fs : List (TopicSelection × ClientCB)) :
    callAll d fs = passOn got leave d fs := by
  induction fs generalizing d with
  | nil => rfl
  | cons f fs ih => rw [callAll, passOn, visit_eq, ih]

theorem callAllWithCopies_eq (fs : List (TopicSelection × ClientCB)) :
    callAllWithCopies d fs = passOn got (fun _ _ e => e) d fs := by
  rw [passOn_of_leaves fun _ _ _ => rfl]
  exact List.map_congr_left fun f _ => congrArg Prod.fst visit_eq

theorem callPlain_eq (input : Bytes) (fs : List ClientCB) :
    WebSocket.callPlain input fs =
      passOn got (fun _ _ _ => ⟨[], []⟩) ⟨[], input⟩ (fs.map (.noTopicSelection, ·)) := by
  induction fs generalizing input with
  | nil => rfl
  | cons f fs ih =>
      have hf : (callClient f ⟨[], input⟩).1 = got (.noTopicSelection, f) ⟨[], input⟩ :=
        congrArg Prod.fst (visit_eq (f := (.noTopicSelection, f)))
      rw [WebSocket.callPlain, List.map_cons, passOn, hf, ih]

theorem registered_plain {s : WebSocket.OneSubscriber} (h : s.ignoreTopic = true) :
    s.clients.registered = s.clients.noFilterClients.map (.noTopicSelection, ·) := by
  obtain ⟨h1, h2⟩ := s.plain h
  simp [Clients.registered, h1, h2]

/-- The message is passed on, if there is one. -/
theorem receive_eq : s.receive cbor received =
    match s.message cbor received with
    | some d => passOn got s.leave d s.registered
    | none => callNobody s.registered := by
  cases s with
  | multicast encodingChoice clients =>
      simp only [Subscriber.receive, Multicast.handleReceive, callAll_eq]
      rfl
  | singlecast encodingChoice clients =>
      simp only [Subscriber.receive, Singlecast.handleReceive, Multicast.handleReceive, callAll_eq]
      rfl
  | zeroMQ clients =>
      simp only [Subscriber.receive, ZeroMQ.handleReceive, callAllWithCopies_eq]
      rfl
  | webSocket s =>
      have hleave : Subscriber.leave (.webSocket s) =
          if s.ignoreTopic then fun _ _ _ => ⟨[], []⟩ else leave := by
        funext f arg d
        simp only [Subscriber.leave]
        split <;> rfl
      simp only [Subscriber.receive, WebSocket.onRead, Subscriber.message, Subscriber.registered,
        hleave]
      cases h : s.ignoreTopic with
      | true => simp [callPlain_eq, registered_plain h]
      | false => simp [callAll_eq]

/--
**Who is called with what.** For each of the four components, each message and all clients: every
client gets what it should if and only if the clients before it leave what it needs.
-/
theorem right_iff_undisturbed (cbor : Bytes → Option (ByteDataWithTopic × Nat)) (s : Subscriber)
    (received : Bytes) : Right cbor s received ↔ Undisturbed cbor s received := by
  unfold Right Undisturbed
  rw [receive_eq]
  cases s.message cbor received with
  | none => simp [callNobody]
  | some d =>
      simp only [Option.bind_some, Option.some.injEq, forall_eq']
      exact passOn_eq_map_iff

theorem right_zeroMQ (cbor : Bytes → Option (ByteDataWithTopic × Nat)) (clients : Clients)
    (received : Bytes) : Right cbor (.zeroMQ clients) received := by
  rw [right_iff_undisturbed]
  intro d _ before f rest _
  have h : ∀ l e, remains got (Subscriber.leave (.zeroMQ clients)) d e l = e := by
    intro l
    induction l with
    | nil => intro e; rfl
    | cons g l ih => exact ih
  rw [h]

/-- Where the clients leave the message as it is, they are right. -/
theorem undisturbed_of_leaves {x : WebSocket.OneSubscriber} (hx : x.ignoreTopic = false)
    (h : ∀ f ∈ x.clients.registered, f.2.leaves = id ∧ f.2.hook = none) :
    Undisturbed cbor (.webSocket x) received := by
  intro d _ before f rest hl
  have hstay : ∀ l : List (TopicSelection × ClientCB), (∀ g ∈ l, g ∈ x.clients.registered) →
      remains got (Subscriber.leave (.webSocket x)) d d l = d := by
    intro l hl
    induction l with
    | nil => rfl
    | cons g l ih =>
        obtain ⟨h1, h2⟩ := h g (hl g List.mem_cons_self)
        have hg : Subscriber.leave (.webSocket x) g (got g d) d = d := by
          simp only [Subscriber.leave, hx, Bool.false_eq_true, if_false, leave, h2]
          split <;> simp_all
        rw [remains, List.foldl_cons, hg]
        exact ih fun g' hg' => hl g' (List.mem_cons_of_mem _ hg')
  rw [hstay before]
  intro g hg
  show g ∈ (Subscriber.webSocket x).registered
  rw [hl]
  exact List.mem_append_left _ hg

/-! ## Two clients -/

/-- A client without a hook, whose callback moves the message away. -/
def taker (id : Nat) : ClientCB := ⟨id, fun _ => ⟨[], []⟩, none⟩

def takers : Clients := ⟨[taker 1, taker 2], [], []⟩

/-- The topic `t` and the content `c`. -/
def message : Bytes := [1, 0, 0, 0, 116, 99]

/-- The second client is called with nothing. -/
theorem not_right_takers :
    ¬ Right (fun _ => none) (.multicast .binary takers) message ∧
      ¬ Right (fun _ => none) (.singlecast .binary takers) message ∧
      ¬ Right (fun _ => some (⟨[116], [99]⟩, 6)) (.webSocket ⟨false, takers, by simp⟩) message ∧
      ¬ Right (fun _ => none) (.webSocket ⟨true, takers, fun _ => ⟨rfl, rfl⟩⟩) message := by
  unfold Right
  decide

end Subscription
