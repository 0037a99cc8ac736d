import Mathlib.Data.List.Basic
import TMTransport.Library.Framing
import TMTransport.Library.Machine
import TMTransport.RPC.Wire

/-!
# What goes over a socket RPC connection

One direction of a connection, with the end that reads from it. The reader asks
for four bytes, then for as many as these say, and so on; the bytes come in
whatever pieces the connection hands out. Bodies of up to 8192 bytes are read into
a buffer that is always there, longer ones into one that is made for them.

The server's end and the client's have the same handlers. They differ in what they
decode, and in what the callback gets.
-/

namespace SocketFraming

open Interleave RPC Framing

/-- What differs between the two ends. `M` is what a body stands for. -/
structure End (M : Type) where
  serialize : M → Bytes
  /-- `RunCBORDeserializer::applyInPlace`, at the start: a value, and how many bytes it took. -/
  deserialize : Bytes → Option (M × Nat)
  /-- What the callback is called with, if it is called. -/
  deliver : M → Option M

/-- What is there to be read of a body: all of it, or nothing. -/
def End.content {M : Type} (e : End M) (body : Bytes) : Option M :=
  match e.deserialize body with
  | some (m, n) => if n = body.length then some m else none
  | none => none

/-- The server's end: it reads requests. -/
def serverEnd (serialize : ByteDataWithID → Bytes)
    (deserialize : Bytes → Option (ByteDataWithID × Nat))
    (wireToUserHook : Option (String → Option String)) : End ByteDataWithID where
  serialize := serialize
  deserialize := deserialize
  deliver := fun data =>
    match wireToUserHook with
    | some hook => (hook data.content).map fun d => ⟨data.id, d⟩
    | none => some data

/-- The client's end: it reads replies. -/
def clientEnd (serialize : Bool × ByteDataWithID → Bytes)
    (deserialize : Bytes → Option ((Bool × ByteDataWithID) × Nat))
    (wireToUserHook : Option (String → Option String)) : End (Bool × ByteDataWithID) where
  serialize := serialize
  deserialize := deserialize
  deliver := fun data =>
    match wireToUserHook with
    | some hook => (hook data.2.content).map fun d => (data.1, ⟨data.2.id, d⟩)
    | none => some data

inductive Handler where
  /-- `handleDataLengthRead`, `handleDataLength` -/
  | dataLength
  /-- `handleDataRead`, `handleData` -/
  | data
  deriving DecidableEq

/-- An `async_read` that has not called its handler. -/
structure Read where
  handler : Handler
  /-- Does it read into `dynamicBuffer_`? -/
  dynamic : Bool
  size : Nat
  transferred : Nat
  deriving DecidableEq

/-- What the peer has written. -/
inductive Sent (M : Type) where
  | message (m : M)
  /-- A frame with any body at all. -/
  | other (body : Bytes)
  deriving DecidableEq

structure State (M : Type) where
  /-- What has been written, and not been read. -/
  wire : Bytes
  buffer : Bytes
  dynamicBuffer : Bytes
  /-- None after a failure. -/
  read : Option Read
  sent : List (Sent M)
  /-- What the handler has decoded. -/
  decoded : List M
  /-- What the callback has been called with. -/
  called : List M

inductive Act (M : Type) where
  | send (x : Sent M)
  /-- Some bytes become available to the read that goes on. -/
  | readSome (n : Nat)
  /-- The read is complete: its handler is called. -/
  | complete
  | fail

variable {M : Type}

/-- `bufferSize` is the size of `buffer_`. -/
def bufferSize : Nat := 8192

def Sent.body (e : End M) : Sent M → Bytes
  | .message m => e.serialize m
  | .other body => body

/-- The length is cast to 32 bits. -/
def written (body : Bytes) : Bytes := leBytes 4 (body.length % 2 ^ 32) ++ body

def Read.length : Read := ⟨.dataLength, false, 4, 0⟩

def store (buffer : Bytes) (offset : Nat) (bytes : Bytes) : Bytes :=
  buffer.take offset ++ bytes ++ buffer.drop (offset + bytes.length)

/-- `std::vector::resize` -/
def resize (buffer : Bytes) (n : Nat) : Bytes :=
  buffer.take n ++ List.replicate (n - buffer.length) 0

def readSome (s : State M) (r : Read) (n : Nat) : State M :=
  let bytes := s.wire.take n
  let s := { s with
    wire := s.wire.drop n, read := some { r with transferred := r.transferred + n } }
  if r.dynamic then { s with dynamicBuffer := store s.dynamicBuffer r.transferred bytes }
  else { s with buffer := store s.buffer r.transferred bytes }

def handleDataLength (s : State M) (bytesTransferred : Nat) : State M :=
  if bytesTransferred = 4 then
    let len := ofLE (s.buffer.take 4)
    if len ≤ bufferSize then { s with read := some ⟨.data, false, len, 0⟩ }
    else { s with
      dynamicBuffer := resize s.dynamicBuffer len, read := some ⟨.data, true, len, 0⟩ }
  else { s with read := none }

def handleData (e : End M) (s : State M) (bytesTransferred : Nat) : State M :=
  let fixed := bytesTransferred ≤ bufferSize
  let view := (if fixed then s.buffer else s.dynamicBuffer).take bytesTransferred
  let s := { s with
    dynamicBuffer := if fixed then s.dynamicBuffer else []
    read := some .length }
  match e.deserialize view with
  | some (m, n) =>
    if n = bytesTransferred then
      { s with decoded := s.decoded ++ [m], called := s.called ++ (e.deliver m).toList }
    else s
  | none => s

def step (e : End M) (s : State M) : Act M → Option (State M)
  | .send x => some { s with wire := s.wire ++ written (x.body e), sent := s.sent ++ [x] }
  | .readSome n =>
    match s.read with
    | some r =>
      if 0 < n ∧ n ≤ s.wire.length ∧ r.transferred + n ≤ r.size then some (readSome s r n) else none
    | none => none
  | .complete =>
    match s.read with
    | some r =>
      if r.transferred = r.size then
        match r.handler with
        | .dataLength => some (handleDataLength s r.transferred)
        | .data => some (handleData e s r.transferred)
      else none
    | none => none
  | .fail => some { s with read := none }

def machine (e : End M) : Machine (State M) (Act M) where
  init := ⟨[], List.replicate bufferSize 0, [], some .length, [], [], []⟩
  step := step e

/-- What is sent is not longer than its length can say. -/
def FitsLength (e : End M) (_ : State M) : Act M → Prop
  | .send x => (x.body e).length < 2 ^ 32
  | _ => True

/-- What the reader should make of what was sent. -/
def Sent.expected (e : End M) : Sent M → Option M
  | .message m => some m
  | .other body => e.content body

/-- Everything that was written has been read, and the reader waits for more. -/
def Drained (s : State M) : Prop :=
  s.wire = [] ∧ ∃ r, s.read = some r ∧ r.transferred < r.size

/-- What is decoded is what was sent. -/
structure SameFrames (e : End M) (s : State M) : Prop where
  /-- At any time it is the first part of that, in order. -/
  inOrder : s.decoded <+: s.sent.filterMap (Sent.expected e)
  /-- And it is all of that once all bytes have come. -/
  all : Drained s → s.decoded = s.sent.filterMap (Sent.expected e)
  called : s.called = s.decoded.filterMap e.deliver

/-! ## The invariant -/

variable {e : End M} {s s' : State M} {r : Read} {x : Sent M} {body rest : Bytes}

/-- What the read in progress has got. -/
def got (s : State M) (r : Read) : Bytes :=
  (if r.dynamic then s.dynamicBuffer else s.buffer).take r.transferred

/-- The read in progress, and what it and the one before it have taken of a frame. -/
structure Reading (s : State M) (r : Read) (rest : Bytes) : Prop where
  transferred_le : r.transferred ≤ r.size
  /-- The handler will look for the bytes where they are read to. -/
  dynamic_iff : r.dynamic = true ↔ bufferSize < r.size
  room : r.dynamic = true → s.dynamicBuffer.length = r.size
  size_lt : r.size < 2 ^ 32
  size_eq : r.handler = .dataLength → r.size = 4
  taken : rest = (match r.handler with
    | .dataLength => []
    | .data => leBytes 4 r.size) ++ got s r

/-- `done` are the bodies that the handler has been called for. -/
structure Inv (e : End M) (s : State M) (done : List Bytes) (rest : Bytes) : Prop where
  buffer_length : s.buffer.length = bufferSize
  sent_fits : ∀ x ∈ s.sent, Fits 4 (x.body e)
  done_fits : ∀ b ∈ done, Fits 4 b
  stream : done.flatMap (frame 4) ++ rest ++ s.wire = s.sent.flatMap fun x => frame 4 (x.body e)
  decoded : s.decoded = done.filterMap e.content
  called : s.called = s.decoded.filterMap e.deliver
  reading : ∀ r, s.read = some r → Reading s r rest

theorem written_eq (h : body.length < 2 ^ 32) : written body = frame 4 body := by
  rw [written, frame, Nat.mod_eq_of_lt h]

theorem take_store {b bytes : Bytes} {n : Nat} (h : n ≤ b.length) :
    (store b n bytes).take (n + bytes.length) = b.take n ++ bytes := by
  have hn : (b.take n).length = n := by rw [List.length_take]; omega
  rw [store, List.append_assoc, ← List.append_assoc]
  exact List.take_left' (by rw [List.length_append, hn])

theorem length_store {b bytes : Bytes} {n : Nat} (h : n + bytes.length ≤ b.length) :
    (store b n bytes).length = b.length := by
  simp only [store, List.length_append, List.length_take, List.length_drop]
  omega

theorem length_resize (b : Bytes) (n : Nat) : (resize b n).length = n := by
  simp only [resize, List.length_append, List.length_take, List.length_replicate]
  omega

/-- Where the read in progress puts its bytes there is room for them. -/
theorem Reading.size_le (h : Reading s r rest) (hb : s.buffer.length = bufferSize) :
    r.size ≤ (if r.dynamic then s.dynamicBuffer else s.buffer).length := by
  split
  · next hd => exact (h.room hd).ge
  · next hd =>
    have : ¬ bufferSize < r.size := fun hlt => hd (h.dynamic_iff.mpr hlt)
    omega

theorem length_got (h : Reading s r rest) (hb : s.buffer.length = bufferSize) :
    (got s r).length = r.transferred := by
  have h1 := h.size_le hb
  have h2 := h.transferred_le
  rw [got, List.length_take]
  omega

theorem reading_length (hr : s.read = some .length) :
    ∀ r, s.read = some r → Reading s r [] := by
  intro r h
  obtain rfl := Option.some.inj (hr.symm.trans h)
  exact ⟨by simp [Read.length], by simp [Read.length, bufferSize], by simp [Read.length],
    by simp [Read.length], fun _ => rfl, by simp [Read.length, got]⟩

theorem inv_init : Inv e (machine e).init [] [] where
  buffer_length := List.length_replicate
  sent_fits := by simp [machine]
  done_fits := by simp
  stream := rfl
  decoded := rfl
  called := rfl
  reading := reading_length rfl

/-! ## The steps -/

variable {done : List Bytes}

theorem Inv.send (hi : Inv e s done rest) (hx : (x.body e).length < 2 ^ 32) :
    Inv e { s with wire := s.wire ++ written (x.body e), sent := s.sent ++ [x] } done rest where
  buffer_length := hi.buffer_length
  sent_fits := by
    intro y hy
    rcases List.mem_append.mp hy with hy | hy
    · exact hi.sent_fits y hy
    · rw [List.mem_singleton.mp hy]
      exact hx
  done_fits := hi.done_fits
  stream := by
    rw [written_eq hx, List.flatMap_append, ← hi.stream]
    simp
  decoded := hi.decoded
  called := hi.called
  reading := fun r hr =>
    have h := hi.reading r hr
    ⟨h.transferred_le, h.dynamic_iff, h.room, h.size_lt, h.size_eq, h.taken⟩

theorem Inv.fail (hi : Inv e s done rest) : Inv e { s with read := none } done rest where
  buffer_length := hi.buffer_length
  sent_fits := hi.sent_fits
  done_fits := hi.done_fits
  stream := hi.stream
  decoded := hi.decoded
  called := hi.called
  reading := fun r hr => by cases hr

/-- What a read takes off the connection it adds to what it has got. -/
theorem Inv.readSome {n : Nat} (hi : Inv e s done rest) (hr : s.read = some r)
    (hn : n ≤ s.wire.length) (hsize : r.transferred + n ≤ r.size) :
    Inv e (readSome s r n) done (rest ++ s.wire.take n) := by
  have h := hi.reading r hr
  have hroom := h.size_le hi.buffer_length
  have hlen : (s.wire.take n).length = n := by rw [List.length_take]; omega
  have hstream : done.flatMap (frame 4) ++ (rest ++ s.wire.take n) ++ s.wire.drop n =
      s.sent.flatMap fun x => frame 4 (x.body e) := by
    rw [← hi.stream, List.append_assoc, List.append_assoc, List.append_assoc,
      List.take_append_drop]
  have htake {b : Bytes} (hb : r.size ≤ b.length) :
      (store b r.transferred (s.wire.take n)).take (r.transferred + n) =
        b.take r.transferred ++ s.wire.take n := by
    have := @take_store b (s.wire.take n) r.transferred (by omega)
    rwa [hlen] at this
  unfold SocketFraming.readSome
  cases hd : r.dynamic with
  | true =>
      rw [hd, if_pos rfl] at hroom
      refine ⟨hi.buffer_length, hi.sent_fits, hi.done_fits, hstream, hi.decoded, hi.called, ?_⟩
      intro r' hr'
      obtain rfl := Option.some.inj hr'
      refine ⟨hsize, hd ▸ h.dynamic_iff, fun _ => ?_, h.size_lt, h.size_eq, ?_⟩
      · have hst := @length_store s.dynamicBuffer (s.wire.take n) r.transferred (by omega)
        exact hst.trans (h.room hd)
      · rw [h.taken, List.append_assoc]
        simp [got, hd, htake hroom]
  | false =>
      rw [hd, if_neg (by simp)] at hroom
      have hst := @length_store s.buffer (s.wire.take n) r.transferred (by omega)
      refine ⟨hst.trans hi.buffer_length, hi.sent_fits, hi.done_fits, hstream, hi.decoded,
        hi.called, ?_⟩
      intro r' hr'
      obtain rfl := Option.some.inj hr'
      refine ⟨hsize, hd ▸ h.dynamic_iff, fun h1 => by simp at h1, h.size_lt, h.size_eq, ?_⟩
      rw [h.taken, List.append_assoc]
      simp [got, hd, htake hroom]

/-- A length has come: the next read is for as many bytes as it says. -/
theorem Inv.dataLength (hi : Inv e s done rest) (hr : s.read = some r)
    (hc : r.transferred = r.size) (hh : r.handler = .dataLength) :
    Inv e (handleDataLength s r.transferred) done rest := by
  have h := hi.reading r hr
  have h4 : r.transferred = 4 := hc.trans (h.size_eq hh)
  have hd : r.dynamic = false := by
    rw [Bool.eq_false_iff, ne_eq, h.dynamic_iff, h.size_eq hh]
    simp [bufferSize]
  have hrest : rest = s.buffer.take 4 := by simp [h.taken, hh, got, hd, h4]
  have hlen : (s.buffer.take 4).length = 4 := by
    simp [List.length_take, hi.buffer_length, bufferSize]
  have hlt : ofLE (s.buffer.take 4) < 2 ^ 32 := by
    have := ofLE_lt (s.buffer.take 4)
    rw [hlen] at this
    omega
  have hback : leBytes 4 (ofLE (s.buffer.take 4)) = rest := by
    have := leBytes_ofLE (s.buffer.take 4)
    rw [hlen] at this
    rw [this, hrest]
  rw [handleDataLength, if_pos h4]
  dsimp only
  by_cases hfixed : ofLE (s.buffer.take 4) ≤ bufferSize
  · rw [if_pos hfixed]
    refine ⟨hi.buffer_length, hi.sent_fits, hi.done_fits, hi.stream, hi.decoded, hi.called, ?_⟩
    intro r' hr'
    obtain rfl := Option.some.inj hr'
    exact ⟨by simp, by simpa using hfixed, by simp, hlt, by simp, by simp [got, hback]⟩
  · rw [if_neg hfixed]
    refine ⟨hi.buffer_length, hi.sent_fits, hi.done_fits, hi.stream, hi.decoded, hi.called, ?_⟩
    intro r' hr'
    obtain rfl := Option.some.inj hr'
    exact ⟨by simp, by simpa using hfixed, fun _ => length_resize _ _, hlt, by simp,
      by simp [got, hback]⟩

/-- The handler finds the body where it was read to. -/
theorem view_eq (h : Reading s r rest) (hc : r.transferred = r.size) :
    (if r.transferred ≤ bufferSize then s.buffer else s.dynamicBuffer).take r.transferred =
      got s r := by
  rw [got]
  cases hd : r.dynamic with
  | true =>
      have := h.dynamic_iff.mp hd
      rw [if_neg (by omega), if_pos rfl]
  | false =>
      have : ¬ bufferSize < r.size := fun hlt => by simp [h.dynamic_iff.mpr hlt] at hd
      rw [if_pos (by omega), if_neg (by simp)]

theorem content_eq {m : M} {n : Nat} (h : e.deserialize body = some (m, n)) :
    e.content body = if n = body.length then some m else none := by
  rw [End.content, h]

/-- A body has come: if it is a message, that is decoded, and the next read is for a length. -/
theorem handleData_eq (h : Reading s r rest) (hb : s.buffer.length = bufferSize)
    (hc : r.transferred = r.size) :
    handleData e s r.transferred = { s with
      dynamicBuffer := if r.transferred ≤ bufferSize then s.dynamicBuffer else []
      read := some .length
      decoded := s.decoded ++ (e.content (got s r)).toList
      called := s.called ++ ((e.content (got s r)).bind e.deliver).toList } := by
  have hlen := length_got h hb
  rw [handleData]
  dsimp only
  rw [view_eq h hc]
  cases hm : e.deserialize (got s r) with
  | none => simp [End.content, hm]
  | some mn =>
      obtain ⟨m, n⟩ := mn
      rw [content_eq hm, hlen]
      by_cases hn : n = r.transferred
      · simp [hn]
      · simp [hn]

theorem Inv.data (hi : Inv e s done rest) (hr : s.read = some r) (hc : r.transferred = r.size)
    (hh : r.handler = .data) :
    Inv e (handleData e s r.transferred) (done ++ [got s r]) [] := by
  have h := hi.reading r hr
  have hlen := length_got h hi.buffer_length
  have hrest : rest = frame 4 (got s r) := by
    rw [h.taken, hh, frame, hlen, hc]
  rw [handleData_eq h hi.buffer_length hc]
  refine ⟨hi.buffer_length, hi.sent_fits, ?_, ?_, ?_, ?_, reading_length rfl⟩
  · intro b hb
    rcases List.mem_append.mp hb with hb | hb
    · exact hi.done_fits b hb
    · have := h.size_lt
      rw [List.mem_singleton.mp hb, Fits, hlen, hc]
      omega
  · rw [← hi.stream, hrest]
    simp
  · rw [List.filterMap_append, ← hi.decoded]
    cases hm : e.content (got s r) with
    | none => simp [hm]
    | some m => simp [hm]
  · rw [List.filterMap_append, ← hi.called]
    cases hm : e.content (got s r) with
    | none => simp
    | some m => cases hd : e.deliver m <;> simp [hd]

theorem inv_step {a : Act M} (hi : Inv e s done rest) (hg : FitsLength e s a)
    (hs : step e s a = some s') : ∃ done' rest', Inv e s' done' rest' := by
  cases a with
  | send x =>
      obtain rfl := Option.some.inj hs
      exact ⟨done, rest, hi.send hg⟩
  | readSome n =>
      cases hr : s.read with
      | none => simp [step, hr] at hs
      | some r =>
          simp only [step, hr] at hs
          split at hs
          · next hn =>
            obtain rfl := Option.some.inj hs
            exact ⟨done, _, hi.readSome hr hn.2.1 hn.2.2⟩
          · cases hs
  | complete =>
      cases hr : s.read with
      | none => simp [step, hr] at hs
      | some r =>
          simp only [step, hr] at hs
          split at hs
          · next hc =>
            cases hh : r.handler with
            | dataLength =>
                rw [hh] at hs
                obtain rfl := Option.some.inj hs
                exact ⟨done, rest, hi.dataLength hr hc hh⟩
            | data =>
                rw [hh] at hs
                obtain rfl := Option.some.inj hs
                exact ⟨_, [], hi.data hr hc hh⟩
          · cases hs
  | fail =>
      obtain rfl := Option.some.inj hs
      exact ⟨done, rest, hi.fail⟩

/-! ## What is decoded -/

/-- What is written reads back. -/
def RoundTrips (e : End M) (s : State M) : Prop :=
  ∀ m, Sent.message m ∈ s.sent → e.deserialize (e.serialize m) = some (m, (e.serialize m).length)

theorem expected_eq (hm : ∀ m, x = .message m →
      e.deserialize (e.serialize m) = some (m, (e.serialize m).length)) :
    x.expected e = e.content (x.body e) := by
  cases x with
  | message m => simp [Sent.expected, Sent.body, content_eq (hm m rfl)]
  | other body => rfl

theorem filterMap_expected {xs : List (Sent M)} (hm : ∀ m, Sent.message m ∈ xs →
      e.deserialize (e.serialize m) = some (m, (e.serialize m).length)) :
    xs.filterMap (Sent.expected e) = (xs.map (Sent.body e)).filterMap e.content := by
  rw [List.filterMap_map]
  refine List.filterMap_congr fun x hx => ?_
  exact expected_eq fun m h => hm m (h ▸ hx)

theorem Inv.sameFrames (hi : Inv e s done rest) (hm : RoundTrips e s) : SameFrames e s := by
  have hsent : ∀ b ∈ s.sent.map (Sent.body e), Fits 4 b := by
    intro b hb
    obtain ⟨x, hx, rfl⟩ := List.mem_map.mp hb
    exact hi.sent_fits x hx
  have hstream : done.flatMap (frame 4) ++ (rest ++ s.wire) =
      (s.sent.map (Sent.body e)).flatMap (frame 4) := by
    rw [List.flatMap_map, ← hi.stream, List.append_assoc]
  obtain ⟨todo, htodo, hrest⟩ := frames_prefix (by omega) hi.done_fits hsent hstream
  have hexp : s.sent.filterMap (Sent.expected e) = s.decoded ++ todo.filterMap e.content := by
    rw [filterMap_expected hm, htodo, List.filterMap_append, hi.decoded]
  refine ⟨⟨_, hexp.symm⟩, ?_, hi.called⟩
  intro hd
  obtain ⟨hwire, r, hr, hlt⟩ := hd
  rw [hwire, List.append_nil] at hrest
  have h := hi.reading r hr
  have hgot := length_got h hi.buffer_length
  -- what the read has got is less than it needs, so no frame is left
  have hnil : todo = [] := by
    cases hh : r.handler with
    | dataLength =>
        have h4 := h.size_eq hh
        refine frames_eq_nil_of_short hrest ?_
        rw [h.taken, hh, List.nil_append]
        omega
    | data =>
        exfalso
        rw [h.taken, hh] at hrest
        refine not_frames_of_partial ?_ (hgot ▸ hlt) ?_ hrest
        · have := h.size_lt
          omega
        · intro b hb
          exact hsent b (htodo ▸ List.mem_append_right _ hb)
  rw [hexp, hnil, List.filterMap_nil, List.append_nil]

theorem sameFrames_of_reach (hr : (machine e).Reach (FitsLength e) s) (hm : RoundTrips e s) :
    SameFrames e s := by
  obtain ⟨done, rest, hi⟩ : ∃ done rest, Inv e s done rest :=
    hr.invariant (I := fun s => ∃ done rest, Inv e s done rest) ⟨[], [], inv_init⟩
      fun _ _ _ hi hg hs => by
        obtain ⟨done, rest, hi⟩ := hi
        exact inv_step hi hg hs
  exact hi.sameFrames hm

/-- CBOR, for an id and a content of less than 24 ASCII characters. -/
def shortSerialize (data : ByteDataWithID) : Bytes :=
  let text (tag : Nat) (s : String) :=
    UInt8.ofNat (tag + s.length) :: s.toList.map fun c => UInt8.ofNat c.toNat
  0x82 :: (text 0x60 data.id ++ text 0x40 data.content)

def shortText (tag : Nat) : Bytes → Option (String × Bytes)
  | [] => none
  | b :: bs =>
    let n := b.toNat - tag
    if tag ≤ b.toNat ∧ n < 24 ∧ n ≤ bs.length then
      some (String.ofList ((bs.take n).map fun b => Char.ofNat b.toNat), bs.drop n)
    else none

def shortDeserialize (bytes : Bytes) : Option (ByteDataWithID × Nat) :=
  match bytes with
  | 0x82 :: rest => do
    let (id, rest) ← shortText 0x60 rest
    let (content, rest) ← shortText 0x40 rest
    return (⟨id, content⟩, bytes.length - rest.length)
  | _ => none

def shortSerializeReply (reply : Bool × ByteDataWithID) : Bytes :=
  0x82 :: (if reply.1 then 0xf5 else 0xf4) :: shortSerialize reply.2

def shortDeserializeReply : Bytes → Option ((Bool × ByteDataWithID) × Nat)
  | 0x82 :: b :: rest =>
    (shortDeserialize rest).map fun data => ((b = 0xf5, data.1), data.2 + 2)
  | _ => none

/-- A frame that is no message, and then a message, read in three pieces and in two. -/
def inPieces {M : Type} (m : M) (size : Nat) : List (Act M) :=
  [.send (.other [1, 2, 3]), .readSome 1, .send (.message m), .readSome 3, .complete, .readSome 3,
    .complete, .readSome 4, .complete, .readSome 2, .readSome (size - 2), .complete]

def shortServer : End ByteDataWithID := serverEnd shortSerialize shortDeserialize none

def shortClient : End (Bool × ByteDataWithID) :=
  clientEnd shortSerializeReply shortDeserializeReply none

theorem inPieces_fits (size : Nat) {m : M} (h : (e.serialize m).length < 2 ^ 32) :
    (machine e).Within (FitsLength e) (machine e).init (inPieces m size) :=
  ⟨show 3 < 2 ^ 32 by decide, trivial, h, trivial, trivial, trivial, trivial, trivial, trivial,
    trivial, trivial, trivial, trivial⟩

theorem roundTrips_of_sent {m : M} (hs : s.sent = [.other [1, 2, 3], .message m])
    (h : e.deserialize (e.serialize m) = some (m, (e.serialize m).length)) : RoundTrips e s := by
  intro m' hm
  rw [hs] at hm
  simp only [List.mem_cons, reduceCtorEq, Sent.message.injEq, List.not_mem_nil, or_false,
    false_or] at hm
  rw [hm, h]

end SocketFraming
