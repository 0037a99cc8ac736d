import Mathlib.Algebra.Group.Int.Defs
import TMTransport.Library.NamedFields

/-!
# The heartbeat message

`HeartbeatMessage`, with all that a process says of itself, and its form on the wire. How far the
converter to remote facilities looks at it, `TMTransport.Facility.Heartbeat` has of its own.
-/

namespace HeartbeatMessages

open NamedFields

inductive Status where
  | good
  | warning
  | bad
  | unknown
  deriving DecidableEq, Repr

structure OneItemStatus where
  status : Status
  info : String
  deriving DecidableEq, Repr

structure HeartbeatMessage where
  uuidStr : String
  /-- in nanoseconds since the epoch -/
  heartbeatTime : Int64
  host : String
  pid : Int64
  senderDescription : String
  /-- Like the other maps, a `std::map`. The order of its elements plays no role. -/
  broadcastChannels : StringMap (List String)
  facilityChannels : StringMap String
  details : StringMap OneItemStatus

/-- `STATUS_NAMES` -/
def Status.name : Status → String
  | .good => "Good"
  | .warning => "Warning"
  | .bad => "Bad"
  | .unknown => "Unknown"

/-- The status with this place in `STATUS_NAMES`. -/
def Status.ofName (name : String) : Option Status :=
  [Status.good, .warning, .bad, .unknown].find? fun status => status.name = name

theorem Status.ofName_name (status : Status) : ofName status.name = some status := by
  cases status <;> rfl

theorem Status.name_of_ofName {name : String} {status : Status} (h : ofName name = some status) :
    status.name = name := by
  have hfound := List.find?_some (p := fun status : Status => decide (status.name = name)) h
  exact of_decide_eq_true hfound

/-! ## On the wire -/

/-- An `int64_t`, for which a number may be too large. -/
def readInt64 : Item → Option Int64
  | .int n => if -2 ^ 63 ≤ n ∧ n < 2 ^ 63 then some (.ofInt n) else none
  | _ => none

theorem readInt64_toInt (n : Int64) : readInt64 (.int n.toInt) = some n := by
  have hlow := n.le_toInt
  have hhigh := n.toInt_lt
  rw [readInt64, if_pos ⟨hlow, hhigh⟩, Int64.ofInt_toInt]

namespace OneItemStatus

def serialize (s : OneItemStatus) : Item :=
  .map [("status", .text s.status.name), ("info", .text s.info)]

def parse (x : Item) : Option OneItemStatus :=
  (field "status" readText x).bind fun name =>
    (Status.ofName name).bind fun status =>
      (field "info" readText x).map fun info => ⟨status, info⟩

end OneItemStatus

namespace HeartbeatMessage

/-- `SerializeToString`. The time goes out in microseconds. -/
def serializeToString (msg : HeartbeatMessage) : Item :=
  .map [("uuid_str", .text msg.uuidStr),
    ("timestamp", .int (msg.heartbeatTime.toInt.tdiv 1000)),
    ("host", .text msg.host),
    ("pid", .int msg.pid.toInt),
    ("sender_description", .text msg.senderDescription),
    ("broadcast_channels", ofMap (fun channels => .array (channels.map .text))
      msg.broadcastChannels),
    ("facility_channels", ofMap .text msg.facilityChannels),
    ("details", ofMap OneItemStatus.serialize msg.details)]

/-- `ParseFromString`, for bytes that are one value. -/
def parseFromString (x : Item) : Option HeartbeatMessage := do
  let uuidStr ← field "uuid_str" readText x
  let timestamp ← field "timestamp" readInt64 x
  let host ← field "host" readText x
  let pid ← field "pid" readInt64 x
  let senderDescription ← field "sender_description" readText x
  let broadcastChannels ← field "broadcast_channels" (readMap (readArray readText)) x
  let facilityChannels ← field "facility_channels" (readMap readText) x
  let details ← field "details" (readMap OneItemStatus.parse) x
  return {
    uuidStr := uuidStr
    heartbeatTime := .ofInt (timestamp.toInt * 1000)
    host := host
    pid := pid
    senderDescription := senderDescription
    broadcastChannels := broadcastChannels
    facilityChannels := facilityChannels
    details := details }

theorem parseFromString_map (uuidStr timestamp host pid senderDescription broadcastChannels
    facilityChannels details : Item) :
    parseFromString (.map [("uuid_str", uuidStr), ("timestamp", timestamp), ("host", host),
      ("pid", pid), ("sender_description", senderDescription),
      ("broadcast_channels", broadcastChannels), ("facility_channels", facilityChannels),
      ("details", details)]) = do
    let uuidStr ← readText uuidStr
    let timestamp ← readInt64 timestamp
    let host ← readText host
    let pid ← readInt64 pid
    let senderDescription ← readText senderDescription
    let broadcastChannels ← readMap (readArray readText) broadcastChannels
    let facilityChannels ← readMap readText facilityChannels
    let details ← readMap OneItemStatus.parse details
    return {
      uuidStr := uuidStr
      heartbeatTime := .ofInt (timestamp.toInt * 1000)
      host := host
      pid := pid
      senderDescription := senderDescription
      broadcastChannels := broadcastChannels
      facilityChannels := facilityChannels
      details := details } := rfl

end HeartbeatMessage

end HeartbeatMessages
