/-!
# Requests and replies on the wire

What the components make of a message before they look at their maps.
-/

namespace RPC

inductive Component where
  | rabbitMQ
  | redis
  | webSocket
  deriving DecidableEq

/-- `basic::ByteDataWithID` -/
structure ByteDataWithID where
  id : String
  content : String
  deriving DecidableEq

structure Reply where
  isFinal : Bool
  data : ByteDataWithID

structure Request where
  /-- The queue, or the topic, that the replies go to. -/
  replyTo : String
  data : ByteDataWithID
  deriving DecidableEq

/-- What a client or a server gets, if it gets anything: `hooked` is what its hook says. -/
def received (hasHook : Bool) (data : ByteDataWithID) (hooked : Option String) : Option String :=
  if hasHook then hooked else some data.content

/-- A message of RabbitMQ, with the properties that are used. -/
structure Envelope where
  correlationId : String
  replyTo : String
  /-- The content type, if its flag is set. -/
  contentType : Option String
  body : String

namespace RabbitMQ

def reply (envelop : Envelope) : Reply :=
  ⟨envelop.contentType = some "final", ⟨envelop.correlationId, envelop.body⟩⟩

def request (envelop : Envelope) : Request :=
  ⟨envelop.replyTo, ⟨envelop.correlationId, envelop.body⟩⟩

end RabbitMQ

namespace Redis

/-- A `std::tuple<bool, ByteDataWithID>`, as the client decodes it. -/
def reply (parseRes : Bool × ByteDataWithID) : Reply := ⟨parseRes.1, parseRes.2⟩

/-- A `ByteDataWithTopic` with a `ByteDataWithID` inside, as the server decodes it. -/
def request (parseRes : String × ByteDataWithID) : Request := ⟨parseRes.1, parseRes.2⟩

end Redis

end RPC
