import Mathlib.Algebra.Order.Group.Int
import TMTransport.Facility.HeartbeatMessage

/-!
# Heartbeats between the languages

`Heartbeat` and `HeartbeatPublisher` of C# and TypeScript, and `HeartbeatMessage` of C++. All
write the same fields under the same names. But C++ counts the time in microseconds, and the other
two in milliseconds; and C++ knows four statuses by name, where C# lets any text be one
(`heartbeats_agree`).
-/

namespace HeartbeatLanguages

open HeartbeatMessages NamedFields

structure DetailedStatus where
  status : String
  info : String
  deriving DecidableEq, Repr

/-- `Heartbeat`, with the types that a language has for the time and for the process. -/
structure Heartbeat (T N : Type) where
  uuidStr : String
  /-- in milliseconds since the epoch -/
  timestamp : T
  host : String
  pid : N
  senderDescription : String
  broadcastChannels : StringMap (List String)
  facilityChannels : StringMap String
  details : StringMap DetailedStatus

namespace DetailedStatus

def encode (s : DetailedStatus) : Item := .map [("status", .text s.status), ("info", .text s.info)]

def decode (x : Item) : Option DetailedStatus :=
  (field "status" readText x).bind fun status =>
    (field "info" readText x).map fun info => ⟨status, info⟩

end DetailedStatus

namespace Heartbeat

variable {T N : Type}

/-- The properties by their names. -/
def encode (time : T → Int) (process : N → Int) (h : Heartbeat T N) : Item :=
  .map [("uuid_str", .text h.uuidStr),
    ("timestamp", .int (time h.timestamp)),
    ("host", .text h.host),
    ("pid", .int (process h.pid)),
    ("sender_description", .text h.senderDescription),
    ("broadcast_channels", ofMap (fun channels => .array (channels.map .text))
      h.broadcastChannels),
    ("facility_channels", ofMap .text h.facilityChannels),
    ("details", ofMap DetailedStatus.encode h.details)]

def decode (readTime : Item → Option T) (readProcess : Item → Option N) (x : Item) :
    Option (Heartbeat T N) := do
  let uuidStr ← field "uuid_str" readText x
  let timestamp ← field "timestamp" readTime x
  let host ← field "host" readText x
  let pid ← field "pid" readProcess x
  let senderDescription ← field "sender_description" readText x
  let broadcastChannels ← field "broadcast_channels" (readMap (readArray readText)) x
  let facilityChannels ← field "facility_channels" (readMap readText) x
  let details ← field "details" (readMap DetailedStatus.decode) x
  return {
    uuidStr := uuidStr
    timestamp := timestamp
    host := host
    pid := pid
    senderDescription := senderDescription
    broadcastChannels := broadcastChannels
    facilityChannels := facilityChannels
    details := details }

theorem decode_map (readTime : Item → Option T) (readProcess : Item → Option N)
    (uuidStr timestamp host pid senderDescription broadcastChannels facilityChannels
      details : Item) :
    decode readTime readProcess (.map [("uuid_str", uuidStr), ("timestamp", timestamp),
      ("host", host), ("pid", pid), ("sender_description", senderDescription),
      ("broadcast_channels", broadcastChannels), ("facility_channels", facilityChannels),
      ("details", details)]) = do
    let uuidStr ← readText uuidStr
    let timestamp ← readTime timestamp
    let host ← readText host
    let pid ← readProcess pid
    let senderDescription ← readText senderDescription
    let broadcastChannels ← readMap (readArray readText) broadcastChannels
    let facilityChannels ← readMap readText facilityChannels
    let details ← readMap DetailedStatus.decode details
    return {
      uuidStr := uuidStr
      timestamp := timestamp
      host := host
      pid := pid
      senderDescription := senderDescription
      broadcastChannels := broadcastChannels
      facilityChannels := facilityChannels
      details := details } := rfl

/-- A publisher's value at first. -/
def initial (zero : T) (description host : String) (pid : N) (uuidStr : String) :
    Heartbeat T N where
  uuidStr := uuidStr
  timestamp := zero
  host := host
  pid := pid
  senderDescription := description
  broadcastChannels := ∅
  facilityChannels := ∅
  details := ∅

def registerFacility (h : Heartbeat T N) (facilityName channel : String) : Heartbeat T N :=
  { h with facilityChannels := h.facilityChannels.insert facilityName channel }

end Heartbeat

/-! ## C# -/

namespace CSharp

/-- An `int`, for which a number may be too large. -/
def readInt32 : Item → Option Int32
  | .int n => if -2 ^ 31 ≤ n ∧ n < 2 ^ 31 then some (.ofInt n) else none
  | _ => none

abbrev Heartbeat := HeartbeatLanguages.Heartbeat Int64 Int32

inductive Call where
  | registerFacility (facilityName channel : String)
  | registerBroadcast (broadcastName channel : String)
  | setStatus (title : String) (status : DetailedStatus)

def registerBroadcast (h : Heartbeat) (broadcastName channel : String) : Heartbeat :=
  match h.broadcastChannels.lookup broadcastName with
  | some channels =>
    { h with
      broadcastChannels := h.broadcastChannels.insert broadcastName
        (if channel ∈ channels then channels else channels ++ [channel]) }
  | none => { h with broadcastChannels := h.broadcastChannels.insert broadcastName [channel] }

def setStatus (h : Heartbeat) (title : String) (status : DetailedStatus) : Heartbeat :=
  { h with details := h.details.insert title status }

def call (h : Heartbeat) : Call → Heartbeat
  | .registerFacility facilityName channel => h.registerFacility facilityName channel
  | .registerBroadcast broadcastName channel => registerBroadcast h broadcastName channel
  | .setStatus title status => setStatus h title status

/-- The value of a publisher after these calls. -/
def value (description host : String) (pid : Int32) (uuidStr : String) (cs : List Call) :
    Heartbeat :=
  cs.foldl call (.initial 0 description host pid uuidStr)

/-- `ToUnixTimeMilliseconds`, for a time in nanoseconds. -/
def toUnixTimeMilliseconds (now : Int64) : Int64 := .ofInt (now.toInt / 1000000)

/-- The value at the time `now`. -/
def stamp (h : Heartbeat) (now : Int64) : Heartbeat :=
  { h with timestamp := toUnixTimeMilliseconds now }

/-- The content of what is sent. -/
def encode (h : Heartbeat) : Item := HeartbeatLanguages.Heartbeat.encode Int64.toInt Int32.toInt h

def decode (x : Item) : Option Heartbeat :=
  HeartbeatLanguages.Heartbeat.decode readInt64 readInt32 x

end CSharp

/-! ## TypeScript -/

namespace TypeScript

/-- A `number` that is an integer and exact. -/
abbrev Number := { n : Int // -9007199254740991 ≤ n ∧ n ≤ 9007199254740991 }

/-- Other integers are read as something that is not a `number`. -/
def readNumber : Item → Option Number
  | .int n => if h : -9007199254740991 ≤ n ∧ n ≤ 9007199254740991 then some ⟨n, h⟩ else none
  | _ => none

abbrev Heartbeat := HeartbeatLanguages.Heartbeat Number Number

inductive Call where
  | registerFacility (facilityName channel : String)
  | registerBroadcast (broadcastName channel : String)

/-- `registerBroadcast`. `_.uniq` leaves the first one of several that are equal. -/
def registerBroadcast (h : Heartbeat) (broadcastName channel : String) : Heartbeat :=
  match h.broadcastChannels.lookup broadcastName with
  | some x =>
    { h with
      broadcastChannels :=
        h.broadcastChannels.insert broadcastName (x ++ [channel]).eraseDups }
  | none => { h with broadcastChannels := h.broadcastChannels.insert broadcastName [channel] }

def call (h : Heartbeat) : Call → Heartbeat
  | .registerFacility facilityName channel => h.registerFacility facilityName channel
  | .registerBroadcast broadcastName channel => registerBroadcast h broadcastName channel

/-- The value of a publisher after these calls. There are no statuses. -/
def value (description host : String) (pid : Number) (uuidStr : String) (cs : List Call) :
    Heartbeat :=
  cs.foldl call (.initial ⟨0, by omega⟩ description host pid uuidStr)

/-- `getTime`, for a time in nanoseconds. -/
def getTime (now : Int64) : Number :=
  ⟨now.toInt / 1000000, by
    have hlow := now.le_toInt
    have hhigh := now.toInt_lt
    omega⟩

/-- The value at the time `now`. -/
def stamp (h : Heartbeat) (now : Int64) : Heartbeat := { h with timestamp := getTime now }

/-- The content of what is sent. -/
def encode (h : Heartbeat) : Item := HeartbeatLanguages.Heartbeat.encode Subtype.val Subtype.val h

def decode (x : Item) : Option Heartbeat :=
  HeartbeatLanguages.Heartbeat.decode readNumber readNumber x

end TypeScript

/-! ## What should come through -/

/-- The two times, in nanoseconds, are less than `resolution` apart. -/
def Near (resolution a b : Int) : Prop := a - b < resolution ∧ b - a < resolution

instance (resolution a b : Int) : Decidable (Near resolution a b) :=
  inferInstanceAs (Decidable (_ ∧ _))

/-- Identity, channels and details are the same. -/
structure Same {T N : Type} (process : N → Int) (h : Heartbeat T N) (msg : HeartbeatMessage) :
    Prop where
  uuidStr : msg.uuidStr = h.uuidStr
  host : msg.host = h.host
  pid : msg.pid.toInt = process h.pid
  senderDescription : msg.senderDescription = h.senderDescription
  broadcastChannels : ∀ name, msg.broadcastChannels.lookup name = h.broadcastChannels.lookup name
  facilityChannels : ∀ name, msg.facilityChannels.lookup name = h.facilityChannels.lookup name
  details : ∀ item, (msg.details.lookup item).map (fun s => ⟨s.status.name, s.info⟩) =
    h.details.lookup item

/-- The same between two messages of C++. -/
structure SameMessage (msg msg' : HeartbeatMessage) : Prop where
  uuidStr : msg'.uuidStr = msg.uuidStr
  host : msg'.host = msg.host
  pid : msg'.pid = msg.pid
  senderDescription : msg'.senderDescription = msg.senderDescription
  broadcastChannels : ∀ name,
    msg'.broadcastChannels.lookup name = msg.broadcastChannels.lookup name
  facilityChannels : ∀ name, msg'.facilityChannels.lookup name = msg.facilityChannels.lookup name
  details : ∀ item, msg'.details.lookup item = msg.details.lookup item

/-- What C++ sends means the same to C++. -/
def CppReadsCpp (msg : HeartbeatMessage) : Prop :=
  ∃ msg', HeartbeatMessage.parseFromString msg.serializeToString = some msg' ∧
    SameMessage msg msg' ∧ Near 1000 msg'.heartbeatTime.toInt msg.heartbeatTime.toInt

/-- What is sent at the time `now` with the value `h` means the same to C++. -/
def CppReads {T N : Type} (process : N → Int) (h : Heartbeat T N) (sent : Item) (now : Int64) :
    Prop :=
  ∃ msg, HeartbeatMessage.parseFromString sent = some msg ∧ Same process h msg ∧
    Near 1000000 msg.heartbeatTime.toInt now.toInt

/-- What C++ sends means the same to a reader in another language. -/
def ReadsCpp {T N : Type} (time : T → Int) (process : N → Int)
    (decode : Item → Option (Heartbeat T N)) (msg : HeartbeatMessage) : Prop :=
  ∃ h, decode msg.serializeToString = some h ∧ Same process h msg ∧
    Near 1000000 (time h.timestamp * 1000000) msg.heartbeatTime.toInt

/-! ## What does -/

theorem parse_encode (s : DetailedStatus) :
    OneItemStatus.parse s.encode =
      (Status.ofName s.status).map fun status => { status := status, info := s.info } := by
  have hparse : OneItemStatus.parse s.encode =
      (Status.ofName s.status).bind fun status => some { status := status, info := s.info } := rfl
  rw [hparse]
  cases Status.ofName s.status <;> rfl

theorem parse_serialize (s : OneItemStatus) : OneItemStatus.parse s.serialize = some s := by
  have hparse : OneItemStatus.parse s.serialize =
      (Status.ofName s.status.name).bind fun status =>
        some { status := status, info := s.info } := rfl
  rw [hparse, Status.ofName_name]
  rfl

/-- What becomes of a value of C# or TypeScript in C++. -/
theorem cppReads_iff {T N : Type} {time : T → Int} {process : N → Int} {h : Heartbeat T N}
    {timestamp pid now : Int64} (htime : readInt64 (.int (time h.timestamp)) = some timestamp)
    (hpid : readInt64 (.int (process h.pid)) = some pid) (hpid' : pid.toInt = process h.pid) :
    CppReads process h (h.encode time process) now ↔
      (∀ title s, h.details.lookup title = some s → (Status.ofName s.status).isSome) ∧
        Near 1000000 (Int64.ofInt (timestamp.toInt * 1000)).toInt now.toInt := by
  obtain ⟨channels, hchannels, hchannelsEq⟩ :=
    exists_readMap_self (readArray readText) _ readArray_text h.broadcastChannels
  obtain ⟨facilities, hfacilities, hfacilitiesEq⟩ :=
    exists_readMap_self readText .text (fun _ => rfl) h.facilityChannels
  have hparse : HeartbeatMessage.parseFromString (h.encode time process) =
      (readMap OneItemStatus.parse (ofMap DetailedStatus.encode h.details)).map fun details =>
        { uuidStr := h.uuidStr
          heartbeatTime := .ofInt (timestamp.toInt * 1000)
          host := h.host
          pid := pid
          senderDescription := h.senderDescription
          broadcastChannels := channels
          facilityChannels := facilities
          details := details } := by
    rw [Heartbeat.encode, HeartbeatMessage.parseFromString_map, htime, hpid, hchannels,
      hfacilities]
    cases readMap OneItemStatus.parse (ofMap DetailedStatus.encode h.details) <;> rfl
  have hread := isSome_readMap_iff OneItemStatus.parse DetailedStatus.encode h.details
  constructor
  · rintro ⟨msg, hmsg, -, hnear⟩
    rw [hparse] at hmsg
    obtain ⟨details, hdetails, rfl⟩ := Option.map_eq_some_iff.mp hmsg
    refine ⟨fun title s hs => ?_, hnear⟩
    have hsome := hread.mp (by rw [hdetails]; rfl) title s hs
    rwa [parse_encode, Option.isSome_map] at hsome
  · rintro ⟨hstatus, hnear⟩
    have hsome := hread.mpr fun title s hs => by
      rw [parse_encode, Option.isSome_map]
      exact hstatus title s hs
    obtain ⟨details, hdetails⟩ := Option.isSome_iff_exists.mp hsome
    rw [hdetails, Option.map_some] at hparse
    refine ⟨_, hparse, ⟨rfl, rfl, hpid', rfl, hchannelsEq, hfacilitiesEq, fun item => ?_⟩, hnear⟩
    show (details.lookup item).map _ = _
    rw [lookup_readMap hdetails]
    cases hs : h.details.lookup item with
    | none => rfl
    | some s =>
        obtain ⟨status, hname⟩ := Option.isSome_iff_exists.mp (hstatus item s hs)
        rw [Option.bind_some, parse_encode, hname, Option.map_some, Option.map_some,
          Status.name_of_ofName hname]

/-- A message of C++ that is read as some value. -/
theorem readsCpp_iff {T N : Type} {readTime : Item → Option T} {readProcess : Item → Option N}
    {time : T → Int} {process : N → Int} (msg : HeartbeatMessage)
    (htime : ∀ n timestamp, readTime (.int n) = some timestamp → time timestamp = n)
    (hprocess : ∀ n pid, readProcess (.int n) = some pid → process pid = n) :
    ReadsCpp time process (Heartbeat.decode readTime readProcess) msg ↔
      (readTime (.int (msg.heartbeatTime.toInt.tdiv 1000))).isSome ∧
        (readProcess (.int msg.pid.toInt)).isSome ∧
        Near 1000000 (msg.heartbeatTime.toInt.tdiv 1000 * 1000000) msg.heartbeatTime.toInt := by
  obtain ⟨channels, hchannels, hchannelsEq⟩ :=
    exists_readMap_self (readArray readText) _ readArray_text msg.broadcastChannels
  obtain ⟨facilities, hfacilities, hfacilitiesEq⟩ :=
    exists_readMap_self readText .text (fun _ => rfl) msg.facilityChannels
  obtain ⟨details, hdetails, hdetailsEq⟩ := exists_readMap DetailedStatus.decode
    OneItemStatus.serialize (fun _ => rfl) msg.details
  have hdecode : Heartbeat.decode readTime readProcess msg.serializeToString =
      (readTime (.int (msg.heartbeatTime.toInt.tdiv 1000))).bind fun timestamp =>
        (readProcess (.int msg.pid.toInt)).map fun pid =>
          { uuidStr := msg.uuidStr
            timestamp := timestamp
            host := msg.host
            pid := pid
            senderDescription := msg.senderDescription
            broadcastChannels := channels
            facilityChannels := facilities
            details := details } := by
    rw [HeartbeatMessage.serializeToString, Heartbeat.decode_map, hchannels, hfacilities, hdetails]
    cases readTime (.int (msg.heartbeatTime.toInt.tdiv 1000)) with
    | none => rfl
    | some timestamp => cases readProcess (.int msg.pid.toInt) <;> rfl
  rw [ReadsCpp, hdecode]
  constructor
  · rintro ⟨h, hh, -, hnear⟩
    obtain ⟨timestamp, htimestamp, hh⟩ := Option.bind_eq_some_iff.mp hh
    obtain ⟨pid, hpid, rfl⟩ := Option.map_eq_some_iff.mp hh
    rw [htime _ _ htimestamp] at hnear
    exact ⟨by rw [htimestamp]; rfl, by rw [hpid]; rfl, hnear⟩
  · rintro ⟨htimestamp, hpid, hnear⟩
    obtain ⟨timestamp, htimestamp⟩ := Option.isSome_iff_exists.mp htimestamp
    obtain ⟨pid, hpid⟩ := Option.isSome_iff_exists.mp hpid
    rw [htimestamp, hpid]
    refine ⟨_, rfl, ⟨rfl, rfl, (hprocess _ _ hpid).symm, rfl, fun name => ?_, fun name => ?_,
      fun item => ?_⟩, ?_⟩
    · exact (hchannelsEq name).symm
    · exact (hfacilitiesEq name).symm
    · exact (hdetailsEq item).symm
    · rw [htime _ _ htimestamp]
      exact hnear

/-! ## Times -/

theorem readInt64_int {n : Int} (hlow : -2 ^ 63 ≤ n) (hhigh : n < 2 ^ 63) :
    readInt64 (.int n) = some (.ofInt n) := if_pos ⟨hlow, hhigh⟩

/-- Milliseconds that are read as microseconds. -/
theorem near_milliseconds (now : Int64) :
    Near 1000000 (Int64.ofInt ((Int64.ofInt (now.toInt / 1000000)).toInt * 1000)).toInt now.toInt ↔
      -1002000 < now.toInt ∧ now.toInt < 1001000 := by
  have hlow := now.le_toInt
  have hhigh := now.toInt_lt
  rw [Int64.toInt_ofInt_of_le (n := now.toInt / 1000000) (by omega) (by omega),
    Int64.toInt_ofInt_of_le (by omega) (by omega), Near]
  omega

/-- Toward zero. -/
theorem tdiv_cases (t : Int) :
    0 ≤ t ∧ t.tdiv 1000 = t / 1000 ∨ t < 0 ∧ t.tdiv 1000 = -(-t / 1000) := by
  rcases Int.lt_or_le t 0 with hneg | hnonneg
  · refine .inr ⟨hneg, ?_⟩
    rw [← Int.tdiv_eq_ediv_of_nonneg (by omega), Int.neg_tdiv, Int.neg_neg]
  · exact .inl ⟨hnonneg, Int.tdiv_eq_ediv_of_nonneg hnonneg⟩

/-- Microseconds that are read as milliseconds. -/
theorem near_microseconds (t : Int) :
    Near 1000000 (t.tdiv 1000 * 1000000) t ↔ -2000 < t ∧ t < 2000 := by
  unfold Near
  rcases tdiv_cases t with ⟨ht, heq⟩ | ⟨ht, heq⟩ <;> rw [heq] <;> omega

theorem tdiv_range (t : Int64) :
    -2 ^ 63 ≤ t.toInt.tdiv 1000 ∧ t.toInt.tdiv 1000 < 2 ^ 63 := by
  have hlow := t.le_toInt
  have hhigh := t.toInt_lt
  rcases tdiv_cases t.toInt with ⟨ht, heq⟩ | ⟨ht, heq⟩ <;> rw [heq] <;> omega

/-- Microseconds that are read as microseconds. -/
theorem near_cpp (t : Int64) :
    Near 1000 (Int64.ofInt ((Int64.ofInt (t.toInt.tdiv 1000)).toInt * 1000)).toInt t.toInt := by
  obtain ⟨hlow, hhigh⟩ := tdiv_range t
  have hlow' := t.le_toInt
  have hhigh' := t.toInt_lt
  rw [Int64.toInt_ofInt_of_le hlow hhigh]
  rcases tdiv_cases t.toInt with ⟨ht, heq⟩ | ⟨ht, heq⟩ <;> rw [heq] <;>
    rw [Int64.toInt_ofInt_of_le (by omega) (by omega)] <;> constructor <;> omega

/-- C++ reads what C++ sends. -/
theorem cppReadsCpp (msg : HeartbeatMessage) : CppReadsCpp msg := by
  obtain ⟨channels, hchannels, hchannelsEq⟩ :=
    exists_readMap_self (readArray readText) _ readArray_text msg.broadcastChannels
  obtain ⟨facilities, hfacilities, hfacilitiesEq⟩ :=
    exists_readMap_self readText .text (fun _ => rfl) msg.facilityChannels
  obtain ⟨details, hdetails, hdetailsEq⟩ :=
    exists_readMap_self OneItemStatus.parse _ parse_serialize msg.details
  have hparse : HeartbeatMessage.parseFromString msg.serializeToString = some
      { uuidStr := msg.uuidStr
        heartbeatTime := .ofInt ((Int64.ofInt (msg.heartbeatTime.toInt.tdiv 1000)).toInt * 1000)
        host := msg.host
        pid := msg.pid
        senderDescription := msg.senderDescription
        broadcastChannels := channels
        facilityChannels := facilities
        details := details } := by
    rw [HeartbeatMessage.serializeToString, HeartbeatMessage.parseFromString_map,
      readInt64_int (tdiv_range _).1 (tdiv_range _).2, readInt64_toInt, hchannels, hfacilities,
      hdetails]
    rfl
  exact ⟨_, hparse, ⟨rfl, rfl, rfl, rfl, hchannelsEq, hfacilitiesEq, hdetailsEq⟩, near_cpp _⟩

/-- The statuses that C++ knows by name. -/
theorem isSome_ofName_iff (name : String) :
    (Status.ofName name).isSome ↔ name ∈ ["Good", "Warning", "Bad", "Unknown"] := by
  constructor
  · intro h
    obtain ⟨status, hstatus⟩ := Option.isSome_iff_exists.mp h
    obtain rfl := Status.name_of_ofName hstatus
    cases status <;> simp [Status.name]
  · intro h
    simp only [List.mem_cons, List.not_mem_nil, or_false] at h
    rcases h with rfl | rfl | rfl | rfl <;> rfl

theorem CSharp.cppReads_iff (h : CSharp.Heartbeat) (now : Int64) :
    CppReads Int32.toInt (CSharp.stamp h now) (CSharp.encode (CSharp.stamp h now)) now ↔
      (∀ title s, h.details.lookup title = some s →
        s.status ∈ ["Good", "Warning", "Bad", "Unknown"]) ∧
      -1002000 < now.toInt ∧ now.toInt < 1001000 := by
  have hlow := h.pid.le_toInt
  have hhigh := h.pid.toInt_lt
  have hpid : (Int64.ofInt h.pid.toInt).toInt = h.pid.toInt :=
    Int64.toInt_ofInt_of_le (by omega) (by omega)
  refine (HeartbeatLanguages.cppReads_iff (h := CSharp.stamp h now) (readInt64_toInt _)
    (readInt64_int (by show -2 ^ 63 ≤ h.pid.toInt; omega)
      (by show h.pid.toInt < 2 ^ 63; omega)) hpid).trans ?_
  refine and_congr ?_ (near_milliseconds now)
  exact forall_congr' fun title => forall_congr' fun s => imp_congr_right fun _ =>
    isSome_ofName_iff s.status

theorem TypeScript.details_value (description host : String) (pid : TypeScript.Number)
    (uuidStr : String) (cs : List TypeScript.Call) :
    (TypeScript.value description host pid uuidStr cs).details = ∅ := by
  have hcall : ∀ (h : TypeScript.Heartbeat) (c : TypeScript.Call),
      (TypeScript.call h c).details = h.details := by
    intro h c
    cases c with
    | registerFacility facilityName channel => rfl
    | registerBroadcast broadcastName channel =>
        unfold TypeScript.call TypeScript.registerBroadcast
        dsimp only
        split <;> rfl
  have hcalls : ∀ (cs : List TypeScript.Call) (h : TypeScript.Heartbeat),
      (cs.foldl TypeScript.call h).details = h.details := by
    intro cs
    induction cs with
    | nil => exact fun h => rfl
    | cons c cs ih => exact fun h => (ih _).trans (hcall h c)
  exact hcalls cs _

theorem TypeScript.cppReads_iff (h : TypeScript.Heartbeat) (hdetails : h.details = ∅)
    (now : Int64) :
    CppReads Subtype.val (TypeScript.stamp h now) (TypeScript.encode (TypeScript.stamp h now)) now ↔
      -1002000 < now.toInt ∧ now.toInt < 1001000 := by
  obtain ⟨hlow, hhigh⟩ := h.pid.property
  have hnow := (TypeScript.getTime now).property
  have hpid : (Int64.ofInt h.pid.val).toInt = h.pid.val :=
    Int64.toInt_ofInt_of_le (by omega) (by omega)
  refine (HeartbeatLanguages.cppReads_iff (h := TypeScript.stamp h now)
    (readInt64_int (by show -2 ^ 63 ≤ (TypeScript.getTime now).val; omega)
      (by show (TypeScript.getTime now).val < 2 ^ 63; omega))
    (readInt64_int (by show -2 ^ 63 ≤ h.pid.val; omega)
      (by show h.pid.val < 2 ^ 63; omega)) hpid).trans ?_
  refine (and_iff_right fun title s hs => ?_).trans (near_milliseconds now)
  have hnone : h.details.lookup title = some s := hs
  rw [hdetails] at hnone
  cases hnone

theorem toInt_of_readInt64 {n : Int} {m : Int64} (h : readInt64 (.int n) = some m) :
    m.toInt = n := by
  unfold readInt64 at h
  dsimp only at h
  split at h
  · next hrange =>
    obtain rfl := Option.some.inj h
    exact Int64.toInt_ofInt_of_le hrange.1 hrange.2
  · cases h

theorem toInt_of_readInt32 {n : Int} {m : Int32} (h : CSharp.readInt32 (.int n) = some m) :
    m.toInt = n := by
  unfold CSharp.readInt32 at h
  dsimp only at h
  split at h
  · next hrange =>
    obtain rfl := Option.some.inj h
    exact Int32.toInt_ofInt_of_le hrange.1 hrange.2
  · cases h

theorem isSome_readInt32_iff (n : Int) :
    (CSharp.readInt32 (.int n)).isSome ↔ -2 ^ 31 ≤ n ∧ n < 2 ^ 31 := by
  unfold CSharp.readInt32
  dsimp only
  split
  · next h => exact iff_of_true rfl h
  · next h => exact iff_of_false Bool.false_ne_true h

theorem val_of_readNumber {n : Int} {m : TypeScript.Number}
    (h : TypeScript.readNumber (.int n) = some m) : m.val = n := by
  unfold TypeScript.readNumber at h
  dsimp only at h
  split at h
  · obtain rfl := Option.some.inj h
    rfl
  · cases h

theorem isSome_readNumber_iff (n : Int) :
    (TypeScript.readNumber (.int n)).isSome ↔
      -9007199254740991 ≤ n ∧ n ≤ 9007199254740991 := by
  unfold TypeScript.readNumber
  dsimp only
  split
  · next h => exact iff_of_true rfl h
  · next h => exact iff_of_false Bool.false_ne_true h

theorem CSharp.readsCpp_iff (msg : HeartbeatMessage) :
    ReadsCpp Int64.toInt Int32.toInt CSharp.decode msg ↔
      (-2 ^ 31 ≤ msg.pid.toInt ∧ msg.pid.toInt < 2 ^ 31) ∧
        -2000 < msg.heartbeatTime.toInt ∧ msg.heartbeatTime.toInt < 2000 := by
  refine (HeartbeatLanguages.readsCpp_iff msg (fun _ _ => toInt_of_readInt64)
    fun _ _ => toInt_of_readInt32).trans ?_
  rw [readInt64_int (tdiv_range _).1 (tdiv_range _).2, isSome_readInt32_iff, near_microseconds]
  exact and_iff_right rfl

theorem TypeScript.readsCpp_iff (msg : HeartbeatMessage) :
    ReadsCpp Subtype.val Subtype.val TypeScript.decode msg ↔
      (-9007199254740991 ≤ msg.pid.toInt ∧ msg.pid.toInt ≤ 9007199254740991) ∧
        -2000 < msg.heartbeatTime.toInt ∧ msg.heartbeatTime.toInt < 2000 := by
  refine (HeartbeatLanguages.readsCpp_iff msg (fun _ _ => val_of_readNumber)
    fun _ _ => val_of_readNumber).trans ?_
  rw [isSome_readNumber_iff, isSome_readNumber_iff, near_microseconds]
  -- a time that is near enough is a number
  refine and_iff_right_of_imp fun ⟨_, hlow, hhigh⟩ => ?_
  rcases tdiv_cases msg.heartbeatTime.toInt with ⟨_, heq⟩ | ⟨_, heq⟩ <;> rw [heq] <;> omega

/--
**Heartbeats between the languages.** From C++ to C++ all is well. What C# and TypeScript send is
read at the time at which it was sent only at the epoch, and in C# the statuses need to have one of
the four names. What C++ sends is read by the other two at the right time only at the epoch, and
there the process id has to fit.
-/
theorem heartbeats_agree (msg : HeartbeatMessage) (description host uuidStr : String)
    (pid : Int32) (cs : List CSharp.Call) (pid' : TypeScript.Number) (cs' : List TypeScript.Call)
    (now : Int64) :
    CppReadsCpp msg ∧
    (CppReads Int32.toInt (CSharp.stamp (CSharp.value description host pid uuidStr cs) now)
        (CSharp.encode (CSharp.stamp (CSharp.value description host pid uuidStr cs) now)) now ↔
      (∀ title s, (CSharp.value description host pid uuidStr cs).details.lookup title = some s →
        s.status ∈ ["Good", "Warning", "Bad", "Unknown"]) ∧
      -1002000 < now.toInt ∧ now.toInt < 1001000) ∧
    (CppReads Subtype.val
        (TypeScript.stamp (TypeScript.value description host pid' uuidStr cs') now)
        (TypeScript.encode
          (TypeScript.stamp (TypeScript.value description host pid' uuidStr cs') now)) now ↔
      -1002000 < now.toInt ∧ now.toInt < 1001000) ∧
    (ReadsCpp Int64.toInt Int32.toInt CSharp.decode msg ↔
      (-2 ^ 31 ≤ msg.pid.toInt ∧ msg.pid.toInt < 2 ^ 31) ∧
        -2000 < msg.heartbeatTime.toInt ∧ msg.heartbeatTime.toInt < 2000) ∧
    (ReadsCpp Subtype.val Subtype.val TypeScript.decode msg ↔
      (-9007199254740991 ≤ msg.pid.toInt ∧ msg.pid.toInt ≤ 9007199254740991) ∧
        -2000 < msg.heartbeatTime.toInt ∧ msg.heartbeatTime.toInt < 2000) :=
  ⟨cppReadsCpp msg, CSharp.cppReads_iff _ now,
    TypeScript.cppReads_iff _ (TypeScript.details_value description host pid' uuidStr cs') now,
    CSharp.readsCpp_iff msg, TypeScript.readsCpp_iff msg⟩

/-- A time of the year 2023, in nanoseconds. -/
def someTime : Int64 := 1700000000000000000

/-- A heartbeat of C# at this time: C++ takes it for one of the year 1970. -/
theorem csharp_read_early :
    ¬ CppReads Int32.toInt (CSharp.stamp (CSharp.value "server" "h" 7 "u" []) someTime)
      (CSharp.encode (CSharp.stamp (CSharp.value "server" "h" 7 "u" []) someTime)) someTime := by
  intro h
  have htime : readInt64 (.int (CSharp.toUnixTimeMilliseconds someTime).toInt) =
      some 1700000000000 := by decide
  have hpid : readInt64 (.int (7 : Int32).toInt) = some 7 := by decide
  have hpid' : (7 : Int64).toInt = Int32.toInt 7 := by decide
  have hnear := ((HeartbeatLanguages.cppReads_iff
    (h := CSharp.stamp (CSharp.value "server" "h" 7 "u" []) someTime) htime hpid hpid').mp h).2
  exact absurd hnear (by decide)

end HeartbeatLanguages
