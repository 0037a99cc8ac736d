import Mathlib.Logic.Relation
import TMTransport.Broadcast.BinaryEnvelope
import TMTransport.Library.Machine

/-!
# The importers of the .NET components

The multicast and the ZeroMQ component have a `BinaryImporter` and a `TypedImporter` each. All of
them start a thread with a loop in it: receive a message, take it apart, see whether its topic is
asked for, give the content to the hook and to the decoder, and publish.

A message can go wrong in many places. Some of them go on with the loop. But where the hook does
not accept a message the thread returns, and an exception ends it as well, unless it is a
`CBORException` in the multicast component: nothing that comes afterwards is received.

`Dispose` tells the loop to stop. The loop looks when the next message has come.
-/

namespace DotNetImporters

open BinaryEnvelope Framing Interleave Utf

inductive Thrown where
  | cborException
  | other
  deriving DecidableEq

/-- PeterO.Cbor, with objects `O`. -/
structure CBORObjects (O : Type) where
  decodeFromBytes : Bytes → Except Thrown O
  /-- The elements of an array that has two. -/
  pair : O → Option (O × O)
  asString : O → Except Thrown (List Char)
  toBytes : O → Except Thrown Bytes
  /-- There is no object in an empty string. -/
  empty : ∃ e, decodeFromBytes [] = .error e

/-- `BinaryReader.ReadChars`, of which the bytes matter that it takes off the stream. -/
structure Reader where
  /-- It throws where a character comes out as two. -/
  readChars : Nat → Bytes → Except Thrown Nat
  ascii : ∀ n bs, n ≤ bs.length → (∀ b ∈ bs.take n, b.toNat < 128) → readChars n bs = .ok n

inductive Component where
  | multicast (binaryEnvelop : Bool)
  | zeroMQ

structure Importer (O T : Type) where
  component : Component
  objects : CBORObjects O
  reader : Reader
  /-- A topic specification is known by what it matches. -/
  topicSpec : List Char → Bool
  hook : Option (Bytes → Except Thrown (Option Bytes))
  decoder : Bytes → Except Thrown (Option T)
  /-- Does `start` keep the thread in the field that `Dispose` looks at? -/
  keepsThread : Bool

section Members

variable {O T : Type} (objects : CBORObjects O) (reader : Reader) (topicSpec : List Char → Bool)
  (hook : Option (Bytes → Except Thrown (Option Bytes)))
  (decoder : Bytes → Except Thrown (Option T))

namespace MulticastComponent

def BinaryImporter (binaryEnvelop : Bool) : Importer O Bytes :=
  ⟨.multicast binaryEnvelop, objects, reader, topicSpec, hook, fun b => .ok (some b), true⟩

def TypedImporter (binaryEnvelop : Bool) : Importer O T :=
  ⟨.multicast binaryEnvelop, objects, reader, topicSpec, hook, decoder, true⟩

end MulticastComponent

namespace ZeroMQComponent

def BinaryImporter : Importer O Bytes :=
  ⟨.zeroMQ, objects, reader, topicSpec, hook, fun b => .ok (some b), true⟩

def TypedImporter : Importer O T :=
  ⟨.zeroMQ, objects, reader, topicSpec, hook, decoder, false⟩

end ZeroMQComponent

end Members

variable {O T : Type}

/-! ## A turn of the loop -/

/-- How a turn ends. The loop goes on with `continue`, and where nothing is left to do. -/
inductive Turn (α : Type) where
  | goesOn
  | published (x : α)
  | returned
  | threw (e : Thrown)

/-- No other turn comes after this one. -/
def Turn.ends {α : Type} : Turn α → Bool
  | goesOn => false
  | published _ => false
  | returned => true
  | threw _ => true

/-- What has been made of a message when its topic is looked at: the topic, and the content, which
is taken out later. -/
abbrev Parsed := Except Thrown (Option (List Char × Except Thrown Bytes))

def parseBinary (reader : Reader) (msg : Bytes) : Parsed :=
  if msg.length < 4 then .ok none
  else
    let topicLen := toInt32 (ofLE (msg.take 4))
    if msg.length < CSharp.plusFour topicLen then .ok none
    -- `ReadChars` and `ReadBytes` throw if they are given a negative number
    else if topicLen < 0 then .error .other
    else do
      let consumed ← reader.readChars topicLen.toNat (msg.drop 4)
      let count := msg.length - 4 - topicLen
      if count < 0 then .error .other
      else .ok (some (CSharp.arrayName, .ok (((msg.drop 4).drop consumed).take count.toNat)))

def parseCBOR (objects : CBORObjects O) (msg : Bytes) : Parsed := do
  let cborObj ← objects.decodeFromBytes msg
  match objects.pair cborObj with
  | none => .ok none
  | some (first, second) => do
    let topic ← objects.asString first
    .ok (some (topic, objects.toBytes second))

def Importer.parse (imp : Importer O T) (msg : Bytes) : Parsed :=
  match imp.component with
  | .multicast true => if msg.length = 0 then .ok none else parseBinary imp.reader msg
  | .multicast false => if msg.length = 0 then .ok none else parseCBOR imp.objects msg
  | .zeroMQ => parseCBOR imp.objects msg

/-- What the hook makes of a content. It is left alone if there is no hook. -/
def Importer.processed (imp : Importer O T) (data : Bytes) : Except Thrown (Option Bytes) :=
  match imp.hook with
  | some hook => hook data
  | none => .ok (some data)

def Importer.deliver (imp : Importer O T) (topic : List Char) (data : Except Thrown Bytes) :
    Turn (List Char × T) :=
  if imp.topicSpec topic then
    match data with
    | .error e => .threw e
    | .ok b =>
      match imp.processed b with
      | .error e => .threw e
      | .ok none => .returned
      | .ok (some b) =>
        match imp.decoder b with
        | .error e => .threw e
        | .ok none => .goesOn
        | .ok (some t) => .published (topic, t)
  else .goesOn

/-- The exceptions that go on with the loop. -/
def Importer.catches (imp : Importer O T) (e : Thrown) : Bool :=
  match imp.component with
  | .multicast false => e = .cborException
  | _ => false

/-- The body of the loop. -/
def Importer.outcome (imp : Importer O T) (msg : Bytes) : Turn (List Char × T) :=
  match imp.parse msg with
  | .error e => .threw e
  | .ok none => .goesOn
  | .ok (some (topic, data)) => imp.deliver topic data

def Importer.turn (imp : Importer O T) (msg : Bytes) : Turn (List Char × T) :=
  match imp.outcome msg with
  | .threw e => if imp.catches e then .goesOn else .threw e
  | outcome => outcome

/-- What is published of the messages that come one after the other, from the `n`-th on. -/
def Importer.receivedFrom (imp : Importer O T) (n : Nat) :
    List Bytes → List (Nat × List Char × T)
  | [] => []
  | msg :: msgs =>
    match imp.turn msg with
    | .goesOn => imp.receivedFrom (n + 1) msgs
    | .published x => (n, x) :: imp.receivedFrom (n + 1) msgs
    | .returned => []
    | .threw _ => []

def Importer.received (imp : Importer O T) (msgs : List Bytes) : List (Nat × List Char × T) :=
  imp.receivedFrom 0 msgs

/-! ## The thread -/

inductive Phase where
  | constructed
  /-- The thread has been started, and has done nothing. -/
  | started
  /-- It is to look at `running`. -/
  | looking
  | receiving
  | ended
  deriving DecidableEq

structure State (T : Type) where
  phase : Phase
  running : Bool
  /-- What has come and is not taken. -/
  inbox : List Bytes
  taken : List Bytes
  published : List (Nat × List Char × T)

/-- What `Dispose` does after it has looked at, and set, `running`. -/
inductive Disposal where
  | returns
  | joins
  | nullReferenceException

inductive Act where
  | start
  /-- A step of the thread. -/
  | thread
  | arrive (msg : Bytes)
  | dispose

def takeMessage (imp : Importer O T) (s : State T) (msg : Bytes) (msgs : List Bytes) : State T :=
  let s' := { s with inbox := msgs, taken := s.taken ++ [msg] }
  match imp.turn msg with
  | .goesOn => { s' with phase := .looking }
  | .published x =>
    { s' with phase := .looking, published := s.published ++ [(s.taken.length, x)] }
  | .returned => { s' with phase := .ended }
  | .threw _ => { s' with phase := .ended }

/-- The thread's next step. The receiver is opened with the first one. -/
def threadStep (imp : Importer O T) (s : State T) : Option (State T) :=
  match s.phase with
  | .constructed => none
  | .started => some { s with running := true, phase := .looking }
  | .looking => some { s with phase := if s.running then .receiving else .ended }
  | .receiving =>
    match s.inbox, imp.component with
    | msg :: msgs, _ => some (takeMessage imp s msg msgs)
    -- `Receive` waits, `TryReceiveFrameBytes` gives up after a second
    | [], .multicast _ => none
    | [], .zeroMQ => some { s with phase := .looking }
  | .ended => none

def dispose (imp : Importer O T) (s : State T) : State T × Disposal :=
  let thread := s.phase ≠ .constructed && imp.keepsThread
  match imp.component with
  | .multicast _ => ({ s with running := false }, if thread then .joins else .returns)
  | .zeroMQ =>
    if s.running then
      ({ s with running := false }, if thread then .joins else .nullReferenceException)
    else (s, .returns)

def step (imp : Importer O T) (s : State T) : Act → Option (State T)
  | .start => if s.phase = .constructed then some { s with phase := .started } else none
  | .thread => threadStep imp s
  | .arrive msg =>
    -- there has to be a receiver
    if s.phase = .looking ∨ s.phase = .receiving then some { s with inbox := s.inbox ++ [msg] }
    else none
  | .dispose => some (dispose imp s).1

def machine (imp : Importer O T) : Machine (State T) Act where
  init := ⟨.constructed, false, [], [], []⟩
  step := step imp

/-! ## What is asked for -/

/-- A message as a publisher makes it. No `byte[]` is longer than an `int` says. -/
def Importer.WellFormed (imp : Importer O T) (msg : Bytes) (topic : List Char)
    (content : Bytes) : Prop :=
  match imp.component with
  | .multicast true =>
    msg = leBytes 4 (utf8 topic).length ++ utf8 topic ++ content ∧ msg.length < 2 ^ 31
  | _ => ∃ cborObj first second, imp.objects.decodeFromBytes msg = .ok cborObj ∧
      imp.objects.pair cborObj = some (first, second) ∧
      imp.objects.asString first = .ok topic ∧ imp.objects.toBytes second = .ok content

/-- The message is to be published, as this. -/
def Importer.Wanted (imp : Importer O T) (msg : Bytes) (x : List Char × T) : Prop :=
  ∃ content, imp.WellFormed msg x.1 content ∧ imp.topicSpec x.1 = true ∧
    ∃ b, imp.processed content = .ok (some b) ∧ imp.decoder b = .ok (some x.2)

structure Importer.Survives (imp : Importer O T) (msgs : List Bytes) : Prop where
  /-- Every message that is to be published is published. -/
  published : ∀ n msg x, msgs[n]? = some msg → imp.Wanted msg x → (n, x) ∈ imp.received msgs
  /-- What is published is in the order in which it came. -/
  inOrder : (imp.received msgs).Pairwise fun a b => a.1 < b.1

/-- Left alone, the thread comes to its end. -/
def EndsAlone (imp : Importer O T) (s : State T) : Prop :=
  ∃ s', Relation.ReflTransGen (fun a b => threadStep imp a = some b) s s' ∧ s'.phase = .ended

/-- The message ends the loop: taking it apart throws, or its topic is asked for, and its content
cannot be had, or is not accepted by the hook, or the hook or the decoder throws. -/
def Importer.Fatal (imp : Importer O T) (msg : Bytes) : Prop :=
  (∃ e, imp.parse msg = .error e ∧ imp.catches e = false) ∨
    ∃ topic data, imp.parse msg = .ok (some (topic, data)) ∧ imp.topicSpec topic = true ∧
      ((∃ e, data = .error e ∧ imp.catches e = false) ∨ ∃ b, data = .ok b ∧
        (imp.processed b = .ok none ∨
          (∃ e, imp.processed b = .error e ∧ imp.catches e = false) ∨
          ∃ b', imp.processed b = .ok (some b') ∧
            ∃ e, imp.decoder b' = .error e ∧ imp.catches e = false))

/-- The topics that a message can have and be published under. -/
def Importer.KeepsTopic (imp : Importer O T) (topic : List Char) : Prop :=
  match imp.component with
  | .multicast true => topic = CSharp.arrayName
  | _ => True

/-! ## What a turn does -/

section Turns

variable {imp : Importer O T} {msg : Bytes} {topic : List Char} {data : Except Thrown Bytes}
  {x : List Char × T} {e : Thrown}

theorem deliver_eq_published_iff : imp.deliver topic data = .published x ↔
    topic = x.1 ∧ imp.topicSpec topic = true ∧ ∃ b, data = .ok b ∧
      ∃ b', imp.processed b = .ok (some b') ∧ imp.decoder b' = .ok (some x.2) := by
  unfold Importer.deliver
  cases htopic : imp.topicSpec topic with
  | false => simp
  | true =>
      cases data with
      | error e => simp
      | ok b =>
          simp only [if_true, true_and, Except.ok.injEq, exists_eq_left']
          split
          · next h => simp [h]
          · next h => simp [h]
          · next b' h =>
            simp only [h, Except.ok.injEq, Option.some.injEq, exists_eq_left']
            split
            · next h' => simp [h']
            · next h' => simp [h']
            · next t h' => simp [h', Prod.ext_iff]

theorem deliver_eq_returned_iff : imp.deliver topic data = .returned ↔
    imp.topicSpec topic = true ∧ ∃ b, data = .ok b ∧ imp.processed b = .ok none := by
  unfold Importer.deliver
  cases htopic : imp.topicSpec topic with
  | false => simp
  | true =>
      cases data with
      | error e => simp
      | ok b =>
          simp only [if_true, true_and, Except.ok.injEq, exists_eq_left']
          split
          · next h => simp [h]
          · next h => simp [h]
          · next b' h =>
            rw [h]
            split
            · simp
            · simp
            · simp

theorem deliver_eq_threw_iff : imp.deliver topic data = .threw e ↔
    imp.topicSpec topic = true ∧ (data = .error e ∨ ∃ b, data = .ok b ∧
      (imp.processed b = .error e ∨
        ∃ b', imp.processed b = .ok (some b') ∧ imp.decoder b' = .error e)) := by
  unfold Importer.deliver
  cases htopic : imp.topicSpec topic with
  | false => simp
  | true =>
      cases data with
      | error e => simp
      | ok b =>
          simp only [if_true, true_and, Except.ok.injEq, exists_eq_left', reduceCtorEq, false_or]
          split
          · next h => simp [h]
          · next h => simp [h]
          · next b' h =>
            simp only [h, Except.ok.injEq, Option.some.injEq, exists_eq_left', reduceCtorEq,
              false_or]
            split
            · next h' => simp [h']
            · next h' => simp [h']
            · next h' => simp [h']

theorem turn_eq_published_iff : imp.turn msg = .published x ↔
    ∃ b, imp.parse msg = .ok (some (x.1, .ok b)) ∧ imp.topicSpec x.1 = true ∧
      ∃ b', imp.processed b = .ok (some b') ∧ imp.decoder b' = .ok (some x.2) := by
  have houtcome : imp.turn msg = .published x ↔ imp.outcome msg = .published x := by
    rw [Importer.turn]
    split
    · next h =>
      rw [h]
      split
      · simp
      · simp
    · rfl
  rw [houtcome, Importer.outcome]
  split
  · next h => simp [h]
  · next h => simp [h]
  · next topic data h =>
    rw [deliver_eq_published_iff, h]
    simp only [Except.ok.injEq, Option.some.injEq, Prod.mk.injEq]
    constructor
    · intro hx
      obtain ⟨rfl, htopic, b, rfl, hb⟩ := hx
      exact ⟨b, ⟨rfl, rfl⟩, htopic, hb⟩
    · intro hx
      obtain ⟨b, ⟨rfl, rfl⟩, htopic, hb⟩ := hx
      exact ⟨rfl, htopic, b, rfl, hb⟩

/-- The turns that end the loop. -/
theorem turn_ends_iff : (imp.turn msg).ends = true ↔ imp.Fatal msg := by
  have houtcome : (imp.turn msg).ends = true ↔ imp.outcome msg = .returned ∨
      ∃ e, imp.outcome msg = .threw e ∧ imp.catches e = false := by
    rw [Importer.turn]
    cases h : imp.outcome msg with
    | goesOn | published | returned => simp [Turn.ends]
    | threw e => cases hc : imp.catches e <;> simp [Turn.ends, hc]
  rw [houtcome, Importer.outcome, Importer.Fatal]
  cases h : imp.parse msg with
  | error e => simp
  | ok parsed =>
      cases parsed with
      | none => simp
      | some parsed =>
          obtain ⟨topic, data⟩ := parsed
          simp only [deliver_eq_returned_iff, deliver_eq_threw_iff, reduceCtorEq, false_and,
            exists_false, false_or, Except.ok.injEq, Option.some.injEq, Prod.mk.injEq]
          constructor
          · intro hx
            rcases hx with ⟨ht, b, hb, hp⟩ | ⟨e, ⟨ht, hd | ⟨b, hb, hp | ⟨b', hb', hd⟩⟩⟩, hc⟩
            · exact ⟨topic, data, ⟨rfl, rfl⟩, ht, .inr ⟨b, hb, .inl hp⟩⟩
            · exact ⟨topic, data, ⟨rfl, rfl⟩, ht, .inl ⟨e, hd, hc⟩⟩
            · exact ⟨topic, data, ⟨rfl, rfl⟩, ht, .inr ⟨b, hb, .inr (.inl ⟨e, hp, hc⟩)⟩⟩
            · exact ⟨topic, data, ⟨rfl, rfl⟩, ht,
                .inr ⟨b, hb, .inr (.inr ⟨b', hb', e, hd, hc⟩)⟩⟩
          · intro hx
            obtain ⟨topic', data', ⟨rfl, rfl⟩, ht, h⟩ := hx
            rcases h with ⟨e, hd, hc⟩ | ⟨b, hb, hp | ⟨e, hp, hc⟩ | ⟨b', hb', e, hd, hc⟩⟩
            · exact .inr ⟨e, ⟨ht, .inl hd⟩, hc⟩
            · exact .inl ⟨ht, b, hb, hp⟩
            · exact .inr ⟨e, ⟨ht, .inr ⟨b, hb, .inl hp⟩⟩, hc⟩
            · exact .inr ⟨e, ⟨ht, .inr ⟨b, hb, .inr ⟨b', hb', hd⟩⟩⟩, hc⟩

/-- A binary packet is taken apart as it should, under the name of an array. -/
theorem parseBinary_packet (reader : Reader) {content : Bytes}
    (hlength : (leBytes 4 (utf8 CSharp.arrayName).length ++ (utf8 CSharp.arrayName ++
      content)).length < 2 ^ 31) :
    parseBinary reader (leBytes 4 (utf8 CSharp.arrayName).length ++ (utf8 CSharp.arrayName ++
      content)) = .ok (some (CSharp.arrayName, .ok content)) := by
  have hn : (utf8 CSharp.arrayName).length = 13 := by decide
  have hascii : Ascii CSharp.arrayName := by decide
  have hread : reader.readChars 13 (utf8 CSharp.arrayName ++ content) = .ok 13 := by
    refine reader.ascii _ _ (by rw [List.length_append]; omega) ?_
    rw [← hn, List.take_left]
    exact hascii.toNat_lt
  rw [length_packet, List.length_append] at hlength
  unfold parseBinary
  rw [take_packet, drop_packet, ofLE_packet (by omega), length_packet, List.length_append, hn]
  have hint : toInt32 13 = 13 := rfl
  have hplus : CSharp.plusFour 13 = 17 := rfl
  have hcount : ((4 + (13 + content.length) : Nat) - 4 - 13 : Int).toNat = content.length := by
    omega
  dsimp only
  rw [hint, hplus, if_neg (by omega), if_neg (by omega), if_neg (by omega),
    show (13 : Int).toNat = 13 from rfl, hread]
  show (if _ then _ else _) = _
  rw [if_neg (by omega), hcount, ← hn, List.drop_left, List.take_length]

/-- No packet comes under another name. -/
theorem topic_of_parseBinary {reader : Reader}
    (h : parseBinary reader msg = .ok (some (topic, data))) : topic = CSharp.arrayName := by
  unfold parseBinary at h
  split at h
  · cases h
  · dsimp only at h
    split at h
    · cases h
    · split at h
      · cases h
      · cases hread : reader.readChars (toInt32 (ofLE (msg.take 4))).toNat (msg.drop 4) with
        | error e =>
            rw [hread] at h
            cases h
        | ok consumed =>
            rw [hread] at h
            change (if _ then _ else _) = _ at h
            split at h
            · cases h
            · cases h
              rfl

/-- A message that is to be published is, if its topic is kept. -/
theorem Importer.Wanted.turn (hw : imp.Wanted msg x) :
    imp.turn msg = .published x ↔ imp.KeepsTopic x.1 := by
  obtain ⟨content, hform, htopic, hb⟩ := hw
  have hparse : imp.parse msg = .ok (some (x.1, .ok content)) → imp.turn msg = .published x :=
    fun h => turn_eq_published_iff.mpr ⟨content, h, htopic, hb⟩
  have hcbor : ∀ cborObj first second, imp.objects.decodeFromBytes msg = .ok cborObj →
      imp.objects.pair cborObj = some (first, second) →
      imp.objects.asString first = .ok x.1 → imp.objects.toBytes second = .ok content →
      msg.length ≠ 0 ∧ parseCBOR imp.objects msg = .ok (some (x.1, .ok content)) := by
    intro cborObj first second hdecode hpair hstring hbytes
    constructor
    · intro hnil
      obtain ⟨e, he⟩ := imp.objects.empty
      rw [List.length_eq_zero_iff.mp hnil, he] at hdecode
      cases hdecode
    · simp only [parseCBOR, hdecode, hpair, hstring, hbytes, bind, Except.bind]
  cases hc : imp.component with
  | zeroMQ =>
      simp only [Importer.WellFormed, hc] at hform
      simp only [Importer.KeepsTopic, hc, iff_true]
      obtain ⟨cborObj, first, second, hdecode, hpair, hstring, hbytes⟩ := hform
      refine hparse ?_
      simp only [Importer.parse, hc]
      exact (hcbor cborObj first second hdecode hpair hstring hbytes).2
  | multicast binaryEnvelop =>
      cases binaryEnvelop with
      | false =>
          simp only [Importer.WellFormed, hc] at hform
          simp only [Importer.KeepsTopic, hc, iff_true]
          obtain ⟨cborObj, first, second, hdecode, hpair, hstring, hbytes⟩ := hform
          obtain ⟨hne, hp⟩ := hcbor cborObj first second hdecode hpair hstring hbytes
          refine hparse ?_
          simp only [Importer.parse, hc, if_neg hne]
          exact hp
      | true =>
          simp only [Importer.WellFormed, hc, List.append_assoc] at hform
          simp only [Importer.KeepsTopic, hc]
          obtain ⟨hmsg, hlength⟩ := hform
          have hne : msg.length ≠ 0 := by
            rw [hmsg, length_packet]
            omega
          have hp : imp.parse msg = parseBinary imp.reader msg := by
            simp only [Importer.parse, hc, if_neg hne]
          constructor
          · intro h
            obtain ⟨b, hb, -⟩ := turn_eq_published_iff.mp h
            exact topic_of_parseBinary (hp.symm.trans hb)
          · intro h
            refine hparse (hp.trans ?_)
            rw [h] at hmsg ⊢
            rw [hmsg]
            exact parseBinary_packet imp.reader (hmsg ▸ hlength)

end Turns

/-! ## What is received -/

section Received

variable {imp : Importer O T} {msg : Bytes} {msgs : List Bytes} {n k : Nat} {x : List Char × T}

theorem mem_receivedFrom_iff : (k, x) ∈ imp.receivedFrom n msgs ↔
    ∃ i msg, k = n + i ∧ msgs[i]? = some msg ∧ imp.turn msg = .published x ∧
      ∀ m ∈ msgs.take i, ¬ imp.Fatal m := by
  induction msgs generalizing n with
  | nil => simp [Importer.receivedFrom]
  | cons m msgs ih =>
      -- what comes later has got past this message
      have hlater : (∃ i msg, k = n + (i + 1) ∧ msgs[i]? = some msg ∧ imp.turn msg = .published x ∧
          ∀ m' ∈ (m :: msgs).take (i + 1), ¬ imp.Fatal m') ↔
          ¬ imp.Fatal m ∧ (k, x) ∈ imp.receivedFrom (n + 1) msgs := by
        rw [ih]
        simp only [List.take_succ_cons, List.forall_mem_cons]
        constructor
        · rintro ⟨i, msg, rfl, h1, h2, h3, h4⟩
          exact ⟨h3, i, msg, by omega, h1, h2, h4⟩
        · rintro ⟨h3, i, msg, rfl, h1, h2, h4⟩
          exact ⟨i, msg, by omega, h1, h2, h3, h4⟩
      have hsplit : (∃ i msg, k = n + i ∧ (m :: msgs)[i]? = some msg ∧
          imp.turn msg = .published x ∧ ∀ m' ∈ (m :: msgs).take i, ¬ imp.Fatal m') ↔
          (k = n ∧ imp.turn m = .published x) ∨
            ¬ imp.Fatal m ∧ (k, x) ∈ imp.receivedFrom (n + 1) msgs := by
        rw [← hlater]
        constructor
        · rintro ⟨i, msg, hk, h1, h2, h3⟩
          cases i with
          | zero =>
              obtain rfl := Option.some.inj h1
              exact .inl ⟨hk, h2⟩
          | succ i => exact .inr ⟨i, msg, hk, h1, h2, h3⟩
        · rintro (⟨hk, h2⟩ | ⟨i, msg, hk, h1, h2, h3⟩)
          · exact ⟨0, m, hk, rfl, h2, fun m' hm' => (nomatch hm')⟩
          · exact ⟨i + 1, msg, hk, h1, h2, h3⟩
      rw [hsplit, ← turn_ends_iff, Importer.receivedFrom]
      cases hm : imp.turn m with
      | goesOn => simp [Turn.ends]
      | published y => simp [Turn.ends, Prod.ext_iff, eq_comm]
      | returned => simp [Turn.ends]
      | threw e => simp [Turn.ends]

theorem pairwise_receivedFrom (imp : Importer O T) (n : Nat) (msgs : List Bytes) :
    (imp.receivedFrom n msgs).Pairwise fun a b => a.1 < b.1 := by
  induction msgs generalizing n with
  | nil => exact List.Pairwise.nil
  | cons m msgs ih =>
      rw [Importer.receivedFrom]
      split
      · exact ih (n + 1)
      · refine List.pairwise_cons.mpr ⟨fun b hb => ?_, ih (n + 1)⟩
        obtain ⟨i, -, hi, -⟩ := mem_receivedFrom_iff.mp hb
        omega
      · exact List.Pairwise.nil
      · exact List.Pairwise.nil

theorem receivedFrom_concat (h : ∀ m ∈ msgs, ¬ imp.Fatal m) :
    imp.receivedFrom n (msgs ++ [msg]) = imp.receivedFrom n msgs ++
      imp.receivedFrom (n + msgs.length) [msg] := by
  induction msgs generalizing n with
  | nil => rfl
  | cons m msgs ih =>
      obtain ⟨hm, hmsgs⟩ := List.forall_mem_cons.mp h
      rw [← turn_ends_iff] at hm
      have hn : n + (m :: msgs).length = n + 1 + msgs.length := by
        rw [List.length_cons]
        omega
      rw [List.cons_append, Importer.receivedFrom, Importer.receivedFrom, hn]
      cases ht : imp.turn m with
      | goesOn => exact ih hmsgs
      | published y => exact congrArg _ (ih hmsgs)
      | returned =>
          rw [ht] at hm
          exact absurd rfl hm
      | threw e =>
          rw [ht] at hm
          exact absurd rfl hm

/-- When all that is to be published is published. -/
theorem survives_iff : imp.Survives msgs ↔
    ∀ n msg x, msgs[n]? = some msg → imp.Wanted msg x →
      imp.KeepsTopic x.1 ∧ ∀ m ∈ msgs.take n, ¬ imp.Fatal m := by
  constructor
  · intro h n msg x hn hw
    obtain ⟨i, m, hi, hm, ht, hfatal⟩ := mem_receivedFrom_iff.mp (h.published n msg x hn hw)
    obtain rfl : n = i := hi.trans (Nat.zero_add i)
    obtain rfl := Option.some.inj (hn.symm.trans hm)
    exact ⟨hw.turn.mp ht, hfatal⟩
  · intro h
    refine ⟨fun n msg x hn hw => ?_, pairwise_receivedFrom imp 0 msgs⟩
    obtain ⟨hkeeps, hfatal⟩ := h n msg x hn hw
    exact mem_receivedFrom_iff.mpr ⟨n, msg, (Nat.zero_add n).symm, hn, hw.turn.mpr hkeeps, hfatal⟩

end Received

/-! ## The end of the thread -/

section Thread

variable {imp : Importer O T} {s s' : State T}

structure Inv (imp : Importer O T) (s : State T) : Prop where
  published : s.published = imp.received s.taken
  alive : s.phase ≠ .ended → ∀ m ∈ s.taken, ¬ imp.Fatal m
  /-- There is no receiver yet. -/
  started : s.phase = .constructed ∨ s.phase = .started → s.inbox = []

theorem Inv.takeMessage (hi : Inv imp s) (hs : s.phase = .receiving) (msg : Bytes)
    (msgs : List Bytes) : Inv imp (takeMessage imp s msg msgs) := by
  have halive := hi.alive (by rw [hs]; exact fun h => (nomatch h))
  have hreceived : imp.receivedFrom 0 (s.taken ++ [msg]) = imp.receivedFrom 0 s.taken ++
      imp.receivedFrom (0 + s.taken.length) [msg] := receivedFrom_concat halive
  rw [Nat.zero_add] at hreceived
  have hgoesOn : (imp.turn msg).ends = false → ∀ m ∈ s.taken ++ [msg], ¬ imp.Fatal m := by
    intro hends m hm
    rcases List.mem_append.mp hm with hm | hm
    · exact halive m hm
    · rw [List.mem_singleton.mp hm, ← turn_ends_iff, hends]
      exact Bool.false_ne_true
  have hpublished : imp.received (s.taken ++ [msg]) =
      s.published ++ imp.receivedFrom s.taken.length [msg] := by
    rw [hi.published]
    exact hreceived
  rw [DotNetImporters.takeMessage]
  simp only [Importer.receivedFrom] at hpublished
  cases ht : imp.turn msg with
  | goesOn =>
      rw [ht] at hpublished hgoesOn
      rw [List.append_nil] at hpublished
      exact ⟨hpublished.symm, fun _ => hgoesOn rfl, fun h => by simp at h⟩
  | published x =>
      rw [ht] at hpublished hgoesOn
      exact ⟨hpublished.symm, fun _ => hgoesOn rfl, fun h => by simp at h⟩
  | returned =>
      rw [ht] at hpublished
      rw [List.append_nil] at hpublished
      exact ⟨hpublished.symm, fun h => absurd rfl h, fun h => by simp at h⟩
  | threw e =>
      rw [ht] at hpublished
      rw [List.append_nil] at hpublished
      exact ⟨hpublished.symm, fun h => absurd rfl h, fun h => by simp at h⟩

theorem inv_step {a : Act} (hi : Inv imp s) (h : step imp s a = some s') : Inv imp s' := by
  cases a with
  | start =>
      obtain ⟨hs, rfl⟩ := of_guarded h
      refine ⟨hi.published, fun _ => hi.alive ?_, fun _ => hi.started (.inl hs)⟩
      rw [hs]
      exact fun h => (nomatch h)
  | arrive msg =>
      obtain ⟨hs, rfl⟩ := of_guarded h
      refine ⟨hi.published, hi.alive, fun h => ?_⟩
      rcases hs with hs | hs <;> simp [hs] at h
  | dispose =>
      obtain rfl := Option.some.inj h
      simp only [dispose]
      split
      · exact ⟨hi.published, hi.alive, hi.started⟩
      · split
        · exact ⟨hi.published, hi.alive, hi.started⟩
        · exact hi
  | thread =>
      simp only [step, threadStep] at h
      split at h
      · cases h
      · next hs =>
        obtain rfl := Option.some.inj h
        refine ⟨hi.published, fun _ => hi.alive ?_, fun h => by simp at h⟩
        rw [hs]
        exact fun h => (nomatch h)
      · next hs =>
        obtain rfl := Option.some.inj h
        refine ⟨hi.published, fun _ => hi.alive ?_, fun h => ?_⟩
        · rw [hs]
          exact fun h => (nomatch h)
        · cases hr : s.running <;> simp [hr] at h
      · next hs =>
        split at h
        · obtain rfl := Option.some.inj h
          exact hi.takeMessage hs _ _
        · cases h
        · obtain rfl := Option.some.inj h
          refine ⟨hi.published, fun _ => hi.alive ?_, fun h => by simp at h⟩
          rw [hs]
          exact fun h => (nomatch h)
      · cases h

theorem inv_of_reach (h : (machine imp).Reach (fun _ _ => True) s) : Inv imp s :=
  h.invariant ⟨rfl, fun _ _ h => (nomatch h), fun _ => rfl⟩ fun _ _ _ hi _ hs => inv_step hi hs

/-- **The thread is the loop.** It has published what is received of the messages it has taken. -/
theorem published_eq_received (h : (machine imp).Reach (fun _ _ => True) s) :
    s.published = imp.received s.taken := (inv_of_reach h).published

theorem takeMessage_phase (imp : Importer O T) (s : State T) (msg : Bytes) (msgs : List Bytes) :
    (takeMessage imp s msg msgs).running = s.running ∧
      ((takeMessage imp s msg msgs).phase = .looking ∨
        (takeMessage imp s msg msgs).phase = .ended) := by
  rw [takeMessage]
  cases imp.turn msg with
  | goesOn | published => exact ⟨rfl, .inl rfl⟩
  | returned | threw => exact ⟨rfl, .inr rfl⟩

theorem dispose_frame (imp : Importer O T) (s : State T) :
    (dispose imp s).1.running = false ∧ (dispose imp s).1.phase = s.phase ∧
      (dispose imp s).1.inbox = s.inbox := by
  rw [dispose]
  cases imp.component with
  | multicast => exact ⟨rfl, rfl, rfl⟩
  | zeroMQ =>
      cases hr : s.running with
      | true => exact ⟨rfl, rfl, rfl⟩
      | false => exact ⟨hr, rfl, rfl⟩

/-- A thread that looks, and is not to run, ends. -/
theorem endsAlone_of_looking (hr : s.running = false)
    (hs : s.phase = .looking ∨ s.phase = .ended) : EndsAlone imp s := by
  rcases hs with hs | hs
  · refine ⟨{ s with phase := .ended }, .single ?_, rfl⟩
    simp only [threadStep, hs, hr]
    rfl
  · exact ⟨s, .refl, hs⟩

/-- A thread that begins after it has been told to stop runs for ever. -/
theorem not_endsAlone_of_started (hs : s.phase = .started) (hinbox : s.inbox = []) :
    ¬ EndsAlone imp s := by
  intro h
  obtain ⟨s', hpath, hended⟩ := h
  have hruns : s'.inbox = [] ∧ (s'.phase = .started ∨
      s'.running = true ∧ (s'.phase = .looking ∨ s'.phase = .receiving)) := by
    clear hended
    induction hpath with
    | refl => exact ⟨hinbox, .inl hs⟩
    | tail _ hstep ih =>
        obtain ⟨hnil, hphase⟩ := ih
        simp only [threadStep] at hstep
        rcases hphase with hp | ⟨hr, hp | hp⟩
        · simp only [hp] at hstep
          obtain rfl := Option.some.inj hstep
          exact ⟨hnil, .inr ⟨rfl, .inl rfl⟩⟩
        · simp only [hp, hr] at hstep
          obtain rfl := Option.some.inj hstep
          exact ⟨hnil, .inr ⟨rfl, .inr rfl⟩⟩
        · simp only [hp, hnil] at hstep
          split at hstep
          · next heq => cases heq
          · cases hstep
          · obtain rfl := Option.some.inj hstep
            exact ⟨rfl, .inr ⟨hr, .inl rfl⟩⟩
  rw [hended] at hruns
  rcases hruns.2 with h | ⟨-, h | h⟩ <;> cases h

theorem endsAlone_dispose_iff (h : (machine imp).Reach (fun _ _ => True) s)
    (hs : s.phase ≠ .constructed) : EndsAlone imp (dispose imp s).1 ↔
      s.phase ≠ .started ∧ (s.phase = .receiving → imp.component = .zeroMQ ∨ s.inbox ≠ []) := by
  obtain ⟨hr, hp, hin⟩ := dispose_frame imp s
  cases hphase : s.phase with
  | constructed => exact absurd hphase hs
  | started =>
      have hinbox := (inv_of_reach h).started (.inr hphase)
      exact iff_of_false (not_endsAlone_of_started (hp.trans hphase) (hin.trans hinbox))
        fun hne => hne.1 rfl
  | looking =>
      refine iff_of_true (endsAlone_of_looking hr (.inl (hp.trans hphase))) ?_
      exact ⟨fun h => (nomatch h), fun h => (nomatch h)⟩
  | ended =>
      refine iff_of_true (endsAlone_of_looking hr (.inr (hp.trans hphase))) ?_
      exact ⟨fun h => (nomatch h), fun h => (nomatch h)⟩
  | receiving =>
      simp only [ne_eq, reduceCtorEq, not_false_eq_true, true_and, forall_const]
      have hone : ∀ {s₁}, threadStep imp (dispose imp s).1 = some s₁ → s₁.running = false →
          (s₁.phase = .looking ∨ s₁.phase = .ended) → EndsAlone imp (dispose imp s).1 := by
        intro s₁ hstep hr₁ hp₁
        obtain ⟨s₂, hpath, hended⟩ : EndsAlone imp s₁ := endsAlone_of_looking hr₁ hp₁
        exact ⟨s₂, .head hstep hpath, hended⟩
      cases hinbox : s.inbox with
      | cons msg msgs =>
          obtain ⟨hr₁, hp₁⟩ := takeMessage_phase imp (dispose imp s).1 msg msgs
          refine iff_of_true (hone ?_ (hr₁.trans hr) hp₁) (.inr (List.cons_ne_nil _ _))
          simp only [threadStep, hp, hphase, hin, hinbox]
      | nil =>
          cases hc : imp.component with
          | zeroMQ =>
              have hgivesUp : threadStep imp (dispose imp s).1 =
                  some { (dispose imp s).1 with phase := .looking } := by
                simp only [threadStep, hp, hphase, hin, hinbox, hc]
              exact iff_of_true (hone hgivesUp hr (.inl rfl)) (.inl rfl)
          | multicast =>
              refine iff_of_false (fun hends => ?_) (by simp)
              obtain ⟨s', hpath, hended⟩ := hends
              rcases hpath.cases_head with rfl | ⟨s₁, hstep, -⟩
              · rw [hp, hphase] at hended
                cases hended
              · simp [threadStep, hp, hphase, hin, hinbox, hc] at hstep

/--
**When an importer survives, and when it ends.** Every good message is published, exactly if none
that came before it ends the loop, and, in a binary envelope, its topic is the name of an array.
The thread ends after `Dispose`, exactly if it has begun and does not wait in a `Receive` that only
a message can end.
-/
theorem survives_and_ends_iff (imp : Importer O T) (msgs : List Bytes)
    (h : (machine imp).Reach (fun _ _ => True) s) (hs : s.phase ≠ .constructed) :
    (imp.Survives msgs ↔ ∀ n msg x, msgs[n]? = some msg → imp.Wanted msg x →
      imp.KeepsTopic x.1 ∧ ∀ m ∈ msgs.take n, ¬ imp.Fatal m) ∧
    (EndsAlone imp (dispose imp s).1 ↔
      s.phase ≠ .started ∧ (s.phase = .receiving → imp.component = .zeroMQ ∨ s.inbox ≠ [])) :=
  ⟨survives_iff, endsAlone_dispose_iff h hs⟩

end Thread

/-- An object is a number, a text of one character, a byte string of one byte, or an array of two
objects. -/
inductive SmallObject where
  | number (n : Nat)
  | text (c : Char)
  | bytes (b : UInt8)
  | array (first second : SmallObject)

/-- What is known of CBOR as far as that. -/
def decodeSmall : Bytes → Except Thrown SmallObject
  | [0x82, 0x61, c, 0x41, b] => .ok (.array (.text (Char.ofNat c.toNat)) (.bytes b))
  | [0x82, 0x01, 0x41, b] => .ok (.array (.number 1) (.bytes b))
  | _ => .error .cborException

def smallObjects : CBORObjects SmallObject where
  decodeFromBytes := decodeSmall
  pair
    | .array first second => some (first, second)
    | _ => none
  asString
    | .text c => .ok [c]
    | _ => .error .other
  toBytes
    | .bytes b => .ok [b]
    | _ => .error .cborException
  empty := ⟨.cborException, rfl⟩

def oneByteEach : Reader := ⟨fun n _ => .ok n, fun _ _ _ _ => rfl⟩

/-- It asks for all topics, and its hook does not accept a zero. -/
def noZeros : Importer SmallObject Bytes :=
  MulticastComponent.BinaryImporter smallObjects oneByteEach (fun _ => true)
    (some fun b => .ok (if b = [0] then none else some b)) false

def goodMessage : Bytes := [0x82, 0x61, 0x74, 0x41, 7]

theorem noZeros_wanted : noZeros.Wanted goodMessage (['t'], [7]) :=
  ⟨[7], ⟨_, _, _, rfl, rfl, rfl, rfl⟩, rfl, [7], rfl, rfl⟩

/-- A message that is no CBOR, and a good one; and `Dispose` when the good one has come. -/
theorem noZeros_survives :
    let M := machine noZeros
    let s := M.exec M.init [.start, .thread, .thread, .arrive goodMessage]
    noZeros.Survives [[0xff], goodMessage] ∧ EndsAlone noZeros (dispose noZeros s).1 := by
  intro M s
  have h : M.Reach (fun _ _ => True) s := .exec .init (.of_forall (fun _ _ => trivial) _ _)
  have hiff := survives_and_ends_iff noZeros [[0xff], goodMessage] h fun hs => (nomatch hs)
  refine ⟨hiff.1.mpr fun n msg x hn hw => ⟨trivial, fun m hm => ?_⟩, hiff.2.mpr ?_⟩
  · have hgood : ∀ m ∈ [[0xff], goodMessage], (noZeros.turn m).ends = false := by
      intro m hm
      simp only [List.mem_cons, List.not_mem_nil, or_false] at hm
      rcases hm with rfl | rfl
      · rfl
      · rfl
    rw [← turn_ends_iff, hgood m (List.mem_of_mem_take hm)]
    exact Bool.false_ne_true
  · exact ⟨fun hs => (nomatch hs), fun _ => .inr (List.cons_ne_nil _ _)⟩

/-- A zero comes, and a good message after it; and `Dispose` when nothing comes. -/
theorem noZeros_not_survives :
    let M := machine noZeros
    let s := M.exec M.init [.start, .thread, .thread]
    ¬ noZeros.Survives [[0x82, 0x61, 0x74, 0x41, 0], goodMessage] ∧
      ¬ EndsAlone noZeros (dispose noZeros s).1 := by
  refine ⟨fun h => ?_, fun h => ?_⟩
  · have := h.published 1 goodMessage _ rfl noZeros_wanted
    cases this
  · obtain ⟨s', hpath, hended⟩ := h
    rcases hpath.cases_head with rfl | ⟨s₁, hstep, -⟩
    · cases hended
    · cases hstep

end DotNetImporters
