import TMTransport.Broadcast.Envelopes
import TMTransport.Library.Utf

/-!
# The binary envelope of multicast, in three languages

A packet is the length of the topic in four bytes, the topic and the content. The publishers
count the topic in bytes (C++) or in UTF-16 units (TypeScript, C#), and the one in C# writes
the topic as `BinaryWriter` writes strings, with a length of its own in front. The receiver
in TypeScript looks at seven bits of each byte of the topic; the one in C# calls `ToString`
on an array of characters, which gives the name of the type.

Topics are texts. In C++ they are kept in UTF-8.
-/

namespace BinaryEnvelope

open Envelopes Framing Subscription Utf

inductive Received where
  | dropped
  | threw
  | message (topic : List Char) (content : Bytes)

/-- The number that the four bytes of an `int` stand for. -/
def toInt32 (n : Nat) : Int := if n < 2147483648 then n else n - 4294967296

/-! ## C++ -/

/-- A `memcpy` out of a packet. `none` is a read outside of it. -/
def readRange (packet : Bytes) (start len : Nat) : Option Bytes :=
  if start + len ≤ packet.length then some ((packet.drop start).take len) else none

namespace Cpp

/-- The branch of `handleReceive` for the binary envelope. A `size_t` has 64 bits. -/
def handleReceive (packet : Bytes) : Option (Option ByteDataWithTopic) :=
  if packet.length < 4 then some none
  else
    (readRange packet 0 4).bind fun bytes =>
      let topicLen := ofLE bytes
      -- no sum of this size wraps
      if packet.length < (topicLen + 4) % 2 ^ 64 then some none
      else
        (readRange packet 4 topicLen).bind fun topic =>
          (readRange packet (4 + topicLen) (packet.length - 4 - topicLen)).map fun content =>
            some ⟨topic, content⟩

/-- It reads the packet as a subscription does, and nothing outside of it. -/
theorem handleReceive_eq (packet : Bytes) :
    handleReceive packet = some ((parseBinary packet).map Prod.fst) := by
  unfold handleReceive parseBinary
  split
  · rfl
  · next hlen =>
    have hlen : 4 ≤ packet.length := Nat.not_lt.mp hlen
    have hhead : readRange packet 0 4 = some (packet.take 4) := if_pos (by omega)
    -- four bytes are less than 2^32, so that the sum in the test does not wrap
    have htopicLen : ofLE (packet.take 4) < 4294967296 := by
      have := ofLE_lt (packet.take 4)
      rwa [List.length_take, Nat.min_eq_left hlen] at this
    have hsum : (ofLE (packet.take 4) + 4) % 2 ^ 64 = ofLE (packet.take 4) + 4 :=
      Nat.mod_eq_of_lt (by omega)
    rw [hhead, Option.bind_some]
    dsimp only
    rw [hsum]
    split
    · rfl
    · next hle =>
      have hrest : ((packet.drop (4 + ofLE (packet.take 4))).take
          (packet.length - 4 - ofLE (packet.take 4))) =
            packet.drop (4 + ofLE (packet.take 4)) :=
        List.take_of_length_le (by rw [List.length_drop]; omega)
      rw [readRange, if_pos (by omega), readRange, if_pos (by omega), hrest]
      rfl

end Cpp

/-! ## TypeScript -/

namespace TypeScript

def overwrite (buffer : Bytes) (start : Nat) (bs : Bytes) : Bytes :=
  buffer.take start ++ bs ++ buffer.drop (start + bs.length)

/-- `multicastWrite`. `Buffer.write` leaves out the characters that there is no room for. -/
def multicastWrite (topic : List Char) (content : Bytes) : Bytes :=
  let sendBuffer := List.replicate (4 + utf16Length topic + content.length) 0
  let sendBuffer := overwrite sendBuffer 0 (leBytes 4 (utf16Length topic))
  let sendBuffer := overwrite sendBuffer 4 (fitting (sendBuffer.length - 4) topic)
  overwrite sendBuffer (4 + utf16Length topic) content

/-- `Buffer.slice`. A negative start counts from the end. -/
def slice (msg : Bytes) (start : Int) : Bytes :=
  msg.drop (if start < 0 then msg.length + start else start).toNat

/-- The callback of `multicastInputToStream`. -/
def onMessage (msg : Bytes) : Received :=
  if msg.length < 4 then .dropped
  else
    let topicLen := toInt32 (ofLE (msg.take 4))
    if msg.length < topicLen + 4 then .dropped
    else .message (sevenBit ((msg.take (topicLen + 4).toNat).drop 4)) (slice msg (topicLen + 4))

end TypeScript

/-! ## C# -/

/-- `BinaryReader.ReadChars`, of which only the bytes matter that it takes off the stream. -/
structure ReadChars where
  consumed : Nat → Bytes → Nat
  /-- It takes one byte for each ASCII character. -/
  ascii : ∀ n bs, n ≤ bs.length → (∀ b ∈ bs.take n, b.toNat < 128) → consumed n bs = n

namespace CSharp

/-- `BinaryWriter.Write7BitEncodedInt`, of an `int`, which takes five bytes at most. -/
def write7BitEncodedInt : Nat → Nat → Bytes
  | 0, n => [UInt8.ofNat n]
  | more + 1, n =>
    if n < 128 then [UInt8.ofNat n]
    else UInt8.ofNat (n % 128 + 128) :: write7BitEncodedInt more (n / 128)

/-- `BinaryWriter.Write(string)` -/
def writeString (s : List Char) : Bytes := write7BitEncodedInt 4 (utf8 s).length ++ utf8 s

/-- `BinaryExporter.handle` -/
def handle (topic : List Char) (content : Bytes) : Bytes :=
  leBytes 4 (utf16Length topic) ++ writeString topic ++ content

/-- What `char[]` says of itself. -/
def arrayName : List Char := "System.Char[]".toList

/-- An addition of `int`s wraps. -/
def plusFour (n : Int) : Int := if n + 4 < 2147483648 then n + 4 else n + 4 - 4294967296

/-- A turn of the loop in `BinaryImporter.start`. -/
def receive (net : ReadChars) (msg : Bytes) : Received :=
  if msg.length = 0 then .dropped
  else if msg.length < 4 then .dropped
  else
    let topicLen := toInt32 (ofLE (msg.take 4))
    if msg.length < plusFour topicLen then .dropped
    -- `ReadChars` and `ReadBytes` throw if they are given a negative number
    else if topicLen < 0 then .threw
    else
      let count := msg.length - 4 - topicLen
      if count < 0 then .threw
      else
        let rest := (msg.drop 4).drop (net.consumed topicLen.toNat (msg.drop 4))
        .message arrayName (rest.take count.toNat)

end CSharp

/-! ## All three -/

inductive Language where
  | cpp
  | typeScript
  | cSharp

namespace Language

def publish (cbor : CBOR) (topic : List Char) (content : Bytes) : Language → Bytes
  | .cpp => OneMulticastSender.publish cbor .binary ⟨utf8 topic, content⟩
  | .typeScript => TypeScript.multicastWrite topic content
  | .cSharp => CSharp.handle topic content

/-- A receiver gets the topic and the content. -/
def Decodes (net : ReadChars) (packet : Bytes) (topic : List Char) (content : Bytes) :
    Language → Prop
  | .cpp => Cpp.handleReceive packet = some (some ⟨utf8 topic, content⟩)
  | .typeScript => TypeScript.onMessage packet = .message topic content
  | .cSharp => CSharp.receive net packet = .message topic content

end Language

/-- The topics that one language understands of another. -/
def Understood (topic : List Char) : Language → Language → Prop
  | .cSharp, _ => False
  | _, .cSharp => topic = CSharp.arrayName
  | .cpp, .cpp => True
  | _, _ => Ascii topic

/-! ## What the receivers make of a packet -/

section Receivers

variable {n : Nat} {body : Bytes}

theorem take_packet (n : Nat) (body : Bytes) : (leBytes 4 n ++ body).take 4 = leBytes 4 n :=
  List.take_left' (length_leBytes 4 n)

theorem drop_packet (n : Nat) (body : Bytes) : (leBytes 4 n ++ body).drop 4 = body :=
  List.drop_left' (length_leBytes 4 n)

theorem drop_packet_add (n : Nat) (body : Bytes) :
    (leBytes 4 n ++ body).drop (4 + n) = body.drop n := by
  rw [← List.drop_drop, drop_packet]

theorem length_packet (n : Nat) (body : Bytes) :
    (leBytes 4 n ++ body).length = 4 + body.length := by
  rw [List.length_append, length_leBytes]

theorem ofLE_packet (hn : n < 2147483648) : ofLE (leBytes 4 n) = n :=
  ofLE_leBytes (Nat.lt_trans hn (by decide))

theorem cpp_packet (hn : n < 2147483648) (hle : n ≤ body.length) :
    Cpp.handleReceive (leBytes 4 n ++ body) = some (some ⟨body.take n, body.drop n⟩) := by
  rw [Cpp.handleReceive_eq, parseBinary, take_packet, drop_packet, ofLE_packet hn, length_packet,
    if_neg (by omega)]
  dsimp only
  rw [if_neg (by omega), drop_packet_add]
  rfl

theorem typeScript_packet (hn : n < 2147483648) (hle : n ≤ body.length) :
    TypeScript.onMessage (leBytes 4 n ++ body) =
      .message (sevenBit (body.take n)) (body.drop n) := by
  have hint : toInt32 n = n := if_pos hn
  have hnat : ((n : Int) + 4).toNat = 4 + n := by omega
  have htake : ((leBytes 4 n ++ body).take (4 + n)).drop 4 = body.take n := by
    rw [List.drop_take, drop_packet, Nat.add_sub_cancel_left]
  have hslice : TypeScript.slice (leBytes 4 n ++ body) (n + 4) = body.drop n := by
    unfold TypeScript.slice
    rw [if_neg (by omega), hnat, drop_packet_add]
  unfold TypeScript.onMessage
  rw [take_packet, ofLE_packet hn, length_packet, if_neg (by omega)]
  dsimp only
  rw [hint, if_neg (by omega), hnat, htake, hslice]

theorem cSharp_packet (net : ReadChars) (hn : n < 2147483000) (hle : n ≤ body.length) :
    CSharp.receive net (leBytes 4 n ++ body) = .message CSharp.arrayName
      ((body.drop (net.consumed n body)).take (body.length - n)) := by
  have hint : toInt32 n = n := if_pos (by omega)
  have hplus : CSharp.plusFour n = n + 4 := if_pos (by omega)
  have hcount : ((4 + body.length : Nat) - 4 - n : Int).toNat = body.length - n := by omega
  unfold CSharp.receive
  rw [take_packet, drop_packet, ofLE_packet (by omega), length_packet, if_neg (by omega),
    if_neg (by omega)]
  dsimp only
  rw [hint, hplus, if_neg (by omega), if_neg (by omega), if_neg (by omega), hcount,
    Int.toNat_natCast]

end Receivers

/-! ## What the publishers write -/

section Publishers

variable {cbor : CBOR} {topic : List Char} {content : Bytes}

theorem length_publish_cpp : (Language.cpp.publish cbor topic content).length =
    4 + (utf8 topic).length + content.length := by
  have hle : (utf8 topic).length % 2 ^ 32 ≤ (utf8 topic).length := Nat.mod_le _ _
  simp only [Language.publish, OneMulticastSender.publish, List.length_append, length_leBytes,
    List.length_take, List.length_replicate]
  omega

theorem publish_cpp (h : (utf8 topic).length < 2147483648) :
    Language.cpp.publish cbor topic content =
      leBytes 4 (utf8 topic).length ++ (utf8 topic ++ content) := by
  have hmod : (utf8 topic).length % 2 ^ 32 = (utf8 topic).length :=
    Nat.mod_eq_of_lt (Nat.lt_trans h (by decide))
  simp only [Language.publish, OneMulticastSender.publish, hmod, Nat.sub_self, List.replicate_zero,
    List.append_nil, List.take_length, List.append_assoc]

/-- The place for the topic has as many bytes as the topic has units. -/
theorem publish_typeScript (cbor : CBOR) (topic : List Char) (content : Bytes) :
    ∃ place : Bytes, place.length = utf16Length topic ∧
      Language.typeScript.publish cbor topic content =
        leBytes 4 (utf16Length topic) ++ (place ++ content) ∧
      (Ascii topic → place = utf8 topic) := by
  set n := utf16Length topic
  set written := fitting (n + content.length) topic
  have hfits : written.length ≤ n + content.length := length_fitting_le _ _
  set rest := written ++ List.replicate (n + content.length - written.length) 0
  have hrest : rest.length = n + content.length := by
    rw [List.length_append, List.length_replicate]
    omega
  -- the three steps that fill the buffer
  have hlength : TypeScript.overwrite (List.replicate (4 + n + content.length) 0) 0 (leBytes 4 n) =
      leBytes 4 n ++ List.replicate (n + content.length) 0 := by
    rw [TypeScript.overwrite, List.take_zero, List.nil_append, length_leBytes,
      List.drop_replicate, Nat.zero_add, Nat.add_assoc, Nat.add_sub_cancel_left]
  have htopic : TypeScript.overwrite (leBytes 4 n ++ List.replicate (n + content.length) 0) 4
      written = leBytes 4 n ++ rest := by
    rw [TypeScript.overwrite, take_packet, ← List.drop_drop, drop_packet, List.drop_replicate,
      List.append_assoc]
  have hcontent : TypeScript.overwrite (leBytes 4 n ++ rest) (4 + n) content =
      leBytes 4 n ++ (rest.take n ++ content) := by
    have htake : (leBytes 4 n ++ rest).take (4 + n) = leBytes 4 n ++ rest.take n := by
      rw [List.take_append, length_leBytes, List.take_of_length_le (by rw [length_leBytes]; omega),
        Nat.add_sub_cancel_left]
    have hdrop : (leBytes 4 n ++ rest).drop (4 + n + content.length) = [] :=
      List.drop_eq_nil_of_le (by rw [length_packet]; omega)
    rw [TypeScript.overwrite, htake, hdrop, List.append_nil, List.append_assoc]
  refine ⟨rest.take n, ?_, ?_, fun hascii => ?_⟩
  · rw [List.length_take, hrest]
    omega
  · show TypeScript.multicastWrite topic content = _
    unfold TypeScript.multicastWrite
    dsimp only
    rw [hlength, length_packet, List.length_replicate, Nat.add_sub_cancel_left, htopic, hcontent]
  · have hlen : (utf8 topic).length = n := hascii.length_utf8
    have hwritten : written = utf8 topic := fitting_of_le (by omega)
    show (written ++ _).take n = _
    rw [hwritten, List.take_left' hlen]

theorem publish_cSharp : Language.cSharp.publish cbor topic content =
    leBytes 4 (utf16Length topic) ++ (CSharp.writeString topic ++ content) :=
  List.append_assoc _ _ _

theorem length_writeString (topic : List Char) :
    utf16Length topic < (CSharp.writeString topic).length := by
  have hpos : ∀ more n, 0 < (CSharp.write7BitEncodedInt more n).length := fun more n => by
    cases more with
    | zero => exact Nat.succ_pos _
    | succ more =>
        rw [CSharp.write7BitEncodedInt]
        split <;> exact Nat.succ_pos _
  have hle := utf16Length_le topic
  have h0 := hpos 4 (utf8 topic).length
  rw [CSharp.writeString, List.length_append]
  omega

end Publishers

/-! ## Who understands whom -/

section Pairs

variable {topic : List Char} {content place : Bytes}

/-- TypeScript reads what stands in the place of the topic if it is ASCII. -/
theorem typeScript_iff (hn : place.length < 2147483648)
    (hascii : Ascii topic → place = utf8 topic) :
    TypeScript.onMessage (leBytes 4 place.length ++ (place ++ content)) =
      .message topic content ↔ Ascii topic := by
  rw [typeScript_packet hn (by rw [List.length_append]; omega), List.take_left, List.drop_left]
  constructor
  · intro h
    have htopic : sevenBit place = topic := (Received.message.inj h).1
    rw [← htopic]
    exact ascii_sevenBit place
  · intro h
    rw [hascii h, h.sevenBit_utf8]

/-- C# reads the name of an array. -/
theorem cSharp_iff (net : ReadChars) (hn : place.length < 2147483000)
    (hascii : Ascii topic → place = utf8 topic) :
    CSharp.receive net (leBytes 4 place.length ++ (place ++ content)) =
      .message topic content ↔ topic = CSharp.arrayName := by
  rw [cSharp_packet net hn (by rw [List.length_append]; omega)]
  constructor
  · exact fun h => (Received.message.inj h).1.symm
  · intro h
    have hname : Ascii topic := by
      rw [h]
      decide
    have hconsumed : net.consumed place.length (place ++ content) = place.length := by
      refine net.ascii _ _ (by rw [List.length_append]; omega) ?_
      rw [List.take_left, hascii hname]
      exact hname.toNat_lt
    rw [hconsumed, List.drop_left, List.length_append, Nat.add_sub_cancel_left, List.take_length, h]

theorem not_decodes_cSharp (cbor : CBOR) (net : ReadChars) (r : Language)
    (h : (Language.cSharp.publish cbor topic content).length ≤ 65507) :
    ¬ r.Decodes net (Language.cSharp.publish cbor topic content) topic content := by
  have hlonger := length_writeString topic
  rw [publish_cSharp] at h ⊢
  rw [length_packet, List.length_append] at h
  have hbody : utf16Length topic ≤ (CSharp.writeString topic ++ content).length := by
    rw [List.length_append]
    omega
  -- there is a byte more than the content after the topic
  have hcontent : ((CSharp.writeString topic ++ content).drop (utf16Length topic)) ≠ content := by
    intro heq
    have := congrArg List.length heq
    rw [List.length_drop, List.length_append] at this
    omega
  intro hdecodes
  cases r with
  | cpp =>
      rw [Language.Decodes, cpp_packet (by omega) hbody, Option.some.injEq,
        Option.some.injEq] at hdecodes
      exact hcontent (congrArg ByteDataWithTopic.content hdecodes)
  | typeScript =>
      rw [Language.Decodes, typeScript_packet (by omega) hbody] at hdecodes
      exact hcontent (Received.message.inj hdecodes).2
  | cSharp =>
      rw [Language.Decodes, cSharp_packet net (by omega) hbody] at hdecodes
      obtain ⟨rfl, hdata⟩ := Received.message.inj hdecodes
      have hconsumed : net.consumed (utf16Length CSharp.arrayName)
          (CSharp.writeString CSharp.arrayName ++ content) = utf16Length CSharp.arrayName := by
        refine net.ascii _ _ hbody ?_
        rw [List.take_append_of_le_length (by decide)]
        have hsmall : ((CSharp.writeString CSharp.arrayName).take
            (utf16Length CSharp.arrayName)).all (fun b => b.toNat < 128) = true := by decide
        exact fun b hb => of_decide_eq_true (List.all_eq_true.mp hsmall b hb)
      have := congrArg List.length hdata
      rw [hconsumed, List.length_take, List.length_drop, List.length_append] at this
      omega

theorem decodes_iff (cbor : CBOR) (net : ReadChars) (w r : Language)
    (h : (w.publish cbor topic content).length ≤ 65507) :
    r.Decodes net (w.publish cbor topic content) topic content ↔ Understood topic w r := by
  cases w with
  | cpp =>
      rw [length_publish_cpp] at h
      rw [publish_cpp (by omega)]
      cases r with
      | cpp =>
          refine iff_of_true ?_ trivial
          rw [Language.Decodes, cpp_packet (by omega) (by rw [List.length_append]; omega),
            List.take_left, List.drop_left]
      | typeScript => exact typeScript_iff (by omega) fun _ => rfl
      | cSharp => exact cSharp_iff net (by omega) fun _ => rfl
  | typeScript =>
      obtain ⟨place, hplace, hpublish, hascii⟩ := publish_typeScript cbor topic content
      rw [hpublish, length_packet, List.length_append] at h
      rw [hpublish, ← hplace]
      cases r with
      | cpp =>
          rw [Language.Decodes, cpp_packet (by omega) (by rw [List.length_append]; omega),
            List.take_left, List.drop_left]
          constructor
          · intro heq
            have hsame : place = utf8 topic :=
              congrArg ByteDataWithTopic.topic (Option.some.inj (Option.some.inj heq))
            -- there are as many bytes as units just if each character is one of both
            refine ascii_of_length_le ?_
            rw [← hsame, hplace]
          · intro h
            rw [hascii h]
      | typeScript => exact typeScript_iff (by omega) hascii
      | cSharp => exact cSharp_iff net (by omega) hascii
  | cSharp => exact iff_of_false (not_decodes_cSharp cbor net r h) (by cases r <;> exact id)

/-- What is parsed lies in the packet, one part after the other. -/
theorem split_of_parseBinary {packet : Bytes} {d : ByteDataWithTopic} {n : Nat}
    (h : parseBinary packet = some (d, n)) :
    ∃ head : Bytes, head.length = 4 ∧ packet = head ++ d.topic ++ d.content := by
  unfold parseBinary at h
  split at h
  · cases h
  · next hlen =>
    dsimp only at h
    split at h
    · cases h
    · cases h
      refine ⟨packet.take 4, ?_, ?_⟩
      · rw [List.length_take]
        omega
      · rw [List.append_assoc, ← List.drop_drop, List.take_append_drop, List.take_append_drop]

/--
**Who understands whom**, of all packets that fit a datagram; and the decoder in C++ takes any
bytes apart without reading elsewhere.
-/
theorem decodes_and_inside (cbor : CBOR) (net : ReadChars) (w r : Language) (topic : List Char)
    (content packet : Bytes) (h : (w.publish cbor topic content).length ≤ 65507) :
    (r.Decodes net (w.publish cbor topic content) topic content ↔ Understood topic w r) ∧
      ∃ parsed, Cpp.handleReceive packet = some parsed ∧ ∀ d, parsed = some d →
        ∃ head : Bytes, head.length = 4 ∧ packet = head ++ d.topic ++ d.content := by
  refine ⟨decodes_iff cbor net w r h, _, Cpp.handleReceive_eq packet, fun d hd => ?_⟩
  obtain ⟨⟨d', n⟩, hparse, rfl⟩ := Option.map_eq_some_iff.mp hd
  exact split_of_parseBinary hparse

/-- A reader of characters that are a byte each. -/
def oneByteEach : ReadChars := ⟨fun n _ => n, fun _ _ _ _ => rfl⟩

/-- An ASCII topic from C++ in TypeScript, and a packet whose length is the largest there is. -/
theorem decodes_and_inside_ascii :
    TypeScript.onMessage (Language.cpp.publish shortCBOR ['a', 'b'] [7]) =
        .message ['a', 'b'] [7] ∧
      Cpp.handleReceive [255, 255, 255, 255, 0] = some none ∧
        ∃ parsed, Cpp.handleReceive [255, 255, 255, 255, 0] = some parsed ∧ ∀ d, parsed = some d →
          ∃ head : Bytes, head.length = 4 ∧
            [255, 255, 255, 255, 0] = head ++ d.topic ++ d.content := by
  have h := decodes_and_inside shortCBOR oneByteEach .cpp .typeScript ['a', 'b'] [7]
    [255, 255, 255, 255, 0] (by decide)
  have hascii : Ascii ['a', 'b'] := by decide
  exact ⟨h.1.mpr hascii, rfl, h.2⟩

/-- A letter with an accent gets lost on the way; from C# not even ASCII gets through. -/
theorem not_decodes_accent :
    ¬ TypeScript.onMessage (Language.cpp.publish shortCBOR ['é'] [7]) = .message ['é'] [7] ∧
      ¬ Cpp.handleReceive (Language.typeScript.publish shortCBOR ['é'] [7]) =
        some (some ⟨utf8 ['é'], [7]⟩) ∧
      ¬ Cpp.handleReceive (Language.cSharp.publish shortCBOR ['a'] [7]) =
        some (some ⟨utf8 ['a'], [7]⟩) ∧
      ¬ CSharp.receive oneByteEach (Language.cpp.publish shortCBOR ['a'] [7]) =
        .message ['a'] [7] := by
  have hnot : ¬ Ascii ['é'] := by decide
  refine ⟨?_, ?_, ?_, ?_⟩
  · exact (decodes_iff shortCBOR oneByteEach .cpp .typeScript (by decide)).not.mpr hnot
  · exact (decodes_iff shortCBOR oneByteEach .typeScript .cpp (by decide)).not.mpr hnot
  · exact (decodes_iff shortCBOR oneByteEach .cSharp .cpp (by decide)).not.mpr id
  · exact (decodes_iff shortCBOR oneByteEach .cpp .cSharp (by decide)).not.mpr nofun

end Pairs

end BinaryEnvelope
