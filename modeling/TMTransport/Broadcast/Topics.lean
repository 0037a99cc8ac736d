import TMTransport.Locator.ConnectionLocator

/-!
# Topic descriptions

A subscriber on a transport that has no topics of its own gets all messages and
keeps those whose topic fits a description. The empty description fits everything,
`r/.../` is a regular expression, one with `#` or `*` in it is a pattern as RabbitMQ
has them, and any other one is a topic. Each language has its own reading of this.
-/

namespace Topics

open ConnectionLocator (Text)

/-! ## Regular expressions -/

/-- A compiled expression: where it matches in a text, each time with the length of the match. -/
abbrev Regex := Text → List (Nat × Nat)

/-- `std::regex_match`, `fullmatch` -/
def Regex.matchesWhole (r : Regex) (t : Text) : Bool := decide ((0, t.length) ∈ r t)

/-- `IsMatch`, `test` -/
def Regex.matchesSomewhere (r : Regex) (t : Text) : Bool := !(r t).isEmpty

structure Engine where
  /-- Not every text is an expression. -/
  compile : Text → Option Regex

def Engine.whole (e : Engine) (p t : Text) : Bool := (e.compile p).any fun r => r.matchesWhole t

def Engine.somewhere (e : Engine) (p t : Text) : Bool :=
  (e.compile p).any fun r => r.matchesSomewhere t

/-- The libraries of the four languages. They agree on whether an expression matches a whole
text. -/
structure Engines where
  cpp : Engine
  dotNet : Engine
  typeScript : Engine
  python : Engine
  dotNet_whole : ∀ p t, dotNet.whole p t = cpp.whole p t
  typeScript_whole : ∀ p t, typeScript.whole p t = cpp.whole p t
  python_whole : ∀ p t, python.whole p t = cpp.whole p t

/-- `r/.../`, with something in between -/
def isExpression (s : Text) : Bool :=
  "r/".toList.isPrefixOf s && s.getLast? == some '/' && decide (3 < s.length)

/-! ## C++ -/

namespace Cpp

/-- `std::variant<NoTopicSelection, std::string, std::regex>` -/
inductive Selection where
  | noTopicSelection
  | string (s : Text)
  | regex (r : Regex)

/-- One turn of the loop: what has been written to `oss`, and `rabbitMQStyle`. -/
def translateChar (x : Text × Bool) (c : Char) : Text × Bool :=
  if c = '#' then (x.1 ++ ".+".toList, true)
  else if c = '*' then (x.1 ++ "[^\\.]+".toList, true)
  else if c = '.' then (x.1 ++ "\\.".toList, x.2)
  else (x.1 ++ [c], x.2)

def translate (s : Text) : Text × Bool := s.foldl translateChar ([], false)

/-- `parseTopic`. It throws if an expression does not compile. -/
def parseTopic (e : Engine) (s : Text) : Option Selection :=
  if s = [] then some .noTopicSelection
  else if isExpression s then (e.compile ((s.drop 2).take (s.length - 3))).map .regex
  else
    let (oss, rabbitMQStyle) := translate s
    if rabbitMQStyle then (e.compile oss).map .regex else some (.string s)

/-- Which list of clients a message is handed to. -/
def Selection.accepts (topic : Text) : Selection → Bool
  | .noTopicSelection => true
  | .string s => topic = s
  | .regex r => r.matchesWhole topic

/-- Does a subscriber with this description get messages with this topic? -/
def accepts (e : Engine) (s topic : Text) : Bool :=
  (parseTopic e s).any (Selection.accepts topic)

end Cpp

inductive TopicMatchType where
  | matchAll
  | matchExact
  | matchRE

structure TopicSpec where
  matchType : TopicMatchType
  exactString : Text
  regex : Option Regex

/-! ## C# -/

namespace DotNet

/-- `string.Replace`, for one character -/
def replace (c : Char) (by_ s : Text) : Text := s.flatMap fun x => if x = c then by_ else [x]

/-- `TransportUtils.ParseComplexTopic` -/
def parseComplexTopic (e : Engine) (topic : Text) : Option TopicSpec :=
  if topic = [] then some ⟨.matchAll, [], none⟩
  else if isExpression topic then
    (e.compile ((topic.drop 2).take (topic.length - 3))).map fun r => ⟨.matchRE, [], some r⟩
  else some ⟨.matchExact, topic, none⟩

/-- `TopicSpec.ToOtherTopicSpec` -/
def toOtherTopicSpec (e : Engine) (spec : TopicSpec) : Option TopicSpec :=
  match spec.matchType with
  | .matchAll => some spec
  | .matchExact =>
    if '#' ∈ spec.exactString ∨ '*' ∈ spec.exactString then
      (e.compile (replace '#' ".+".toList (replace '*' "[^\\.]+".toList
        (replace '.' "\\.".toList spec.exactString)))).map fun r => ⟨.matchRE, [], some r⟩
    else some spec
  | .matchRE => some spec

/-- `TopicSpec.Match` -/
def isMatch (topic : Text) (spec : TopicSpec) : Bool :=
  match spec.matchType with
  | .matchAll => true
  | .matchExact => topic = spec.exactString
  | .matchRE => spec.regex.any fun r => r.matchesSomewhere topic

def accepts (e : Engine) (s topic : Text) : Bool :=
  ((parseComplexTopic e s).bind (toOtherTopicSpec e)).any (isMatch topic)

end DotNet

/-! ## TypeScript -/

namespace TypeScript

/-- `parseComplexTopic` -/
def parseComplexTopic (e : Engine) (topic : Text) : Option TopicSpec :=
  if topic = [] then some ⟨.matchAll, [], none⟩
  else if isExpression topic then
    (e.compile ((topic.drop 2).take (topic.length - 3))).map fun r => ⟨.matchRE, [], some r⟩
  else some ⟨.matchExact, topic, none⟩

/-- The filter of `multicastInputToStream` and of `zeromqInputToStream`. -/
def filter (topic : Text) (spec : TopicSpec) : Bool :=
  match spec.matchType with
  | .matchAll => true
  | .matchExact => topic = spec.exactString
  | .matchRE => spec.regex.any fun r => r.matchesSomewhere topic

def accepts (e : Engine) (s topic : Text) : Bool := (parseComplexTopic e s).any (filter topic)

end TypeScript

/-! ## Python -/

namespace Python

/-- `TopicSpec(complexTopic = ...)`. An empty one is false, and leaves the class's values. -/
def topicSpec (e : Engine) (complexTopic : Text) : Option TopicSpec :=
  if complexTopic ≠ [] then
    if isExpression complexTopic then
      (e.compile ((complexTopic.drop 2).take (complexTopic.length - 3))).map fun r =>
        ⟨.matchRE, [], some r⟩
    else some ⟨.matchExact, complexTopic, e.compile []⟩
  else some ⟨.matchAll, [], e.compile []⟩

/-- The filter of `multicastInput` and of `zeromqInput`. -/
def filter (topic : Text) (spec : TopicSpec) : Bool :=
  match spec.matchType with
  | .matchAll => true
  | .matchExact => topic = spec.exactString
  | .matchRE => spec.regex.any fun r => r.matchesWhole topic

def accepts (e : Engine) (s topic : Text) : Bool := (topicSpec e s).any (filter topic)

end Python

/-! ## Agreement -/

/-- All four accept the message, or all four reject it. -/
structure SameSelection (es : Engines) (s topic : Text) : Prop where
  dotNet : DotNet.accepts es.dotNet s topic = Cpp.accepts es.cpp s topic
  typeScript : TypeScript.accepts es.typeScript s topic = Cpp.accepts es.cpp s topic
  python : Python.accepts es.python s topic = Cpp.accepts es.cpp s topic

/-- What is between `r/` and the last slash. -/
def expression (s : Text) : Text := (s.drop 2).take (s.length - 3)

def patternChar (c : Char) : Text :=
  if c = '#' then ".+".toList
  else if c = '*' then "[^\\.]+".toList
  else if c = '.' then "\\.".toList
  else [c]

/-- The expression for a pattern with `#` and `*` in it. -/
def pattern (s : Text) : Text := s.flatMap patternChar

/--
An expression matches a part of the topic only if it matches all of it; and a pattern matches the
topic, and a part of it, just if the topic is the pattern, letter by letter.
-/
def ReadAlike (es : Engines) (s topic : Text) : Prop :=
  if isExpression s then
    (es.dotNet.somewhere (expression s) topic → es.cpp.whole (expression s) topic) ∧
      (es.typeScript.somewhere (expression s) topic → es.cpp.whole (expression s) topic)
  else if '#' ∈ s ∨ '*' ∈ s then
    (es.cpp.whole (pattern s) topic ↔ topic = s) ∧
      (es.dotNet.somewhere (pattern s) topic ↔ topic = s)
  else True

variable {es : Engines} {e : Engine} {s topic p : Text}

theorem somewhere_of_whole (h : e.whole p topic) : e.somewhere p topic := by
  rw [Engine.whole, Option.any_eq_true] at h
  obtain ⟨r, hr, hm⟩ := h
  rw [Engine.somewhere, Option.any_eq_true]
  refine ⟨r, hr, ?_⟩
  have hmem : (0, topic.length) ∈ r topic := of_decide_eq_true hm
  simpa [Regex.matchesSomewhere] using List.ne_nil_of_mem hmem

theorem translateChar_eq (x : Text × Bool) (c : Char) :
    Cpp.translateChar x c = (x.1 ++ patternChar c, x.2 || decide (c = '#' ∨ c = '*')) := by
  unfold Cpp.translateChar patternChar
  split
  · next h => simp only [h, true_or, decide_true, Bool.or_true]
  · next h1 =>
    split
    · next h => simp only [h, or_true, decide_true, Bool.or_true]
    · next h2 =>
      split <;> simp only [h1, h2, or_false, decide_false, Bool.or_false]

theorem translate_eq (s : Text) : Cpp.translate s = (pattern s, decide ('#' ∈ s ∨ '*' ∈ s)) := by
  have h (x : Text × Bool) : s.foldl Cpp.translateChar x =
      (x.1 ++ pattern s, x.2 || decide ('#' ∈ s ∨ '*' ∈ s)) := by
    induction s generalizing x with
    | nil => simp [pattern]
    | cons c s ih =>
        have hmem : ('#' ∈ c :: s ∨ '*' ∈ c :: s) ↔ (c = '#' ∨ c = '*') ∨ '#' ∈ s ∨ '*' ∈ s := by
          rw [List.mem_cons, List.mem_cons, eq_comm, @eq_comm _ '*']
          exact or_or_or_comm
        rw [List.foldl_cons, ih, translateChar_eq, pattern, pattern, List.flatMap_cons,
          List.append_assoc, Bool.or_assoc, decide_eq_decide.mpr hmem, Bool.decide_or
            (c = '#' ∨ c = '*')]
  rw [Cpp.translate, h, List.nil_append, Bool.false_or]

theorem replace_eq (s : Text) :
    DotNet.replace '#' ".+".toList (DotNet.replace '*' "[^\\.]+".toList
      (DotNet.replace '.' "\\.".toList s)) = pattern s := by
  rw [DotNet.replace, DotNet.replace, DotNet.replace, List.flatMap_assoc, List.flatMap_assoc,
    pattern]
  refine congrArg (List.flatMap · s) (funext fun c => ?_)
  rw [patternChar]
  by_cases h1 : c = '#'
  · rw [h1]
    decide
  · by_cases h2 : c = '*'
    · rw [h2]
      decide
    · by_cases h3 : c = '.'
      · rw [h3]
        decide
      · simp [h1, h2, h3]

/-! ## The three kinds of description -/

theorem accepts_nil : SameSelection es [] topic := ⟨rfl, rfl, rfl⟩

theorem any_map_some {α β : Type} (o : Option α) (f : α → β) (g : β → Bool) :
    (o.map f).any g = o.any fun a => g (f a) := by
  cases o <;> rfl

theorem sameSelection_expression (hne : s ≠ []) (h : isExpression s) :
    SameSelection es s topic ↔
      (es.dotNet.somewhere (expression s) topic → es.cpp.whole (expression s) topic) ∧
        (es.typeScript.somewhere (expression s) topic → es.cpp.whole (expression s) topic) := by
  have hcpp : Cpp.accepts es.cpp s topic = es.cpp.whole (expression s) topic := by
    rw [Cpp.accepts, Cpp.parseTopic, if_neg hne, if_pos h, any_map_some]
    rfl
  have hdot : DotNet.accepts es.dotNet s topic = es.dotNet.somewhere (expression s) topic := by
    rw [DotNet.accepts, DotNet.parseComplexTopic, if_neg hne, if_pos h]
    cases hc : es.dotNet.compile ((s.drop 2).take (s.length - 3)) <;>
      simp [Engine.somewhere, expression, hc, DotNet.toOtherTopicSpec, DotNet.isMatch]
  have hts : TypeScript.accepts es.typeScript s topic =
      es.typeScript.somewhere (expression s) topic := by
    rw [TypeScript.accepts, TypeScript.parseComplexTopic, if_neg hne, if_pos h, any_map_some]
    rfl
  have hpy : Python.accepts es.python s topic = es.python.whole (expression s) topic := by
    rw [Python.accepts, Python.topicSpec, if_pos hne, if_pos h, any_map_some]
    rfl
  have hall {e : Engine} (he : ∀ p t, e.whole p t = es.cpp.whole p t) :
      (e.somewhere (expression s) topic = es.cpp.whole (expression s) topic) ↔
        (e.somewhere (expression s) topic → es.cpp.whole (expression s) topic) := by
    rw [Bool.eq_iff_iff]
    refine ⟨Iff.mp, fun h => ⟨h, fun hw => somewhere_of_whole ?_⟩⟩
    rw [he, hw]
  constructor
  · intro h
    have h1 := h.dotNet
    have h2 := h.typeScript
    rw [hdot, hcpp] at h1
    rw [hts, hcpp] at h2
    exact ⟨(hall es.dotNet_whole).mp h1, (hall es.typeScript_whole).mp h2⟩
  · intro h
    refine ⟨?_, ?_, ?_⟩
    · rw [hdot, hcpp]
      exact (hall es.dotNet_whole).mpr h.1
    · rw [hts, hcpp]
      exact (hall es.typeScript_whole).mpr h.2
    · rw [hpy, hcpp, es.python_whole]

theorem typeScript_accepts_exact (hne : s ≠ []) (h : ¬ isExpression s) :
    TypeScript.accepts e s topic = decide (topic = s) := by
  rw [TypeScript.accepts, TypeScript.parseComplexTopic, if_neg hne, if_neg h]
  rfl

theorem python_accepts_exact (hne : s ≠ []) (h : ¬ isExpression s) :
    Python.accepts e s topic = decide (topic = s) := by
  rw [Python.accepts, Python.topicSpec, if_pos hne, if_neg h]
  rfl

/-- The wildcards are translated in C++ and in C# only. -/
theorem sameSelection_pattern (hne : s ≠ []) (h : ¬ isExpression s) (hw : '#' ∈ s ∨ '*' ∈ s) :
    SameSelection es s topic ↔
      (es.cpp.whole (pattern s) topic ↔ topic = s) ∧
        (es.dotNet.somewhere (pattern s) topic ↔ topic = s) := by
  have hcpp : Cpp.accepts es.cpp s topic = es.cpp.whole (pattern s) topic := by
    rw [Cpp.accepts, Cpp.parseTopic, if_neg hne, if_neg h, translate_eq]
    simp only [hw, decide_true, if_true, any_map_some]
    rfl
  have hdot : DotNet.accepts es.dotNet s topic = es.dotNet.somewhere (pattern s) topic := by
    rw [DotNet.accepts, DotNet.parseComplexTopic, if_neg hne, if_neg h, Option.bind_some]
    simp only [DotNet.toOtherTopicSpec, hw, if_true, replace_eq, any_map_some]
    cases hc : es.dotNet.compile (pattern s) <;> simp [Engine.somewhere, hc, DotNet.isMatch]
  have hts : TypeScript.accepts es.typeScript s topic = decide (topic = s) :=
    typeScript_accepts_exact hne h
  have hpy : Python.accepts es.python s topic = decide (topic = s) :=
    python_accepts_exact hne h
  constructor
  · intro hs
    have h1 := hs.typeScript
    have h2 := hs.dotNet
    rw [hts, hcpp] at h1
    rw [hdot, hcpp, ← h1] at h2
    rw [← h1, h2]
    exact ⟨decide_eq_true_iff, decide_eq_true_iff⟩
  · intro hs
    have h1 : es.cpp.whole (pattern s) topic = decide (topic = s) := by
      rw [Bool.eq_iff_iff, hs.1, decide_eq_true_iff]
    have h2 : es.dotNet.somewhere (pattern s) topic = decide (topic = s) := by
      rw [Bool.eq_iff_iff, hs.2, decide_eq_true_iff]
    exact ⟨by rw [hdot, hcpp, h1, h2], by rw [hts, hcpp, h1], by rw [hpy, hcpp, h1]⟩

theorem sameSelection_exact (hne : s ≠ []) (h : ¬ isExpression s) (hw : ¬ ('#' ∈ s ∨ '*' ∈ s)) :
    SameSelection es s topic := by
  have hcpp : Cpp.accepts es.cpp s topic = decide (topic = s) := by
    rw [Cpp.accepts, Cpp.parseTopic, if_neg hne, if_neg h, translate_eq]
    simp only [hw, decide_false, Bool.false_eq_true, if_false]
    rfl
  have hdot : DotNet.accepts es.dotNet s topic = decide (topic = s) := by
    rw [DotNet.accepts, DotNet.parseComplexTopic, if_neg hne, if_neg h, Option.bind_some]
    simp only [DotNet.toOtherTopicSpec, hw, if_false]
    rfl
  exact ⟨by rw [hdot, hcpp], by rw [typeScript_accepts_exact hne h, hcpp],
    by rw [python_accepts_exact hne h, hcpp]⟩

/--
**One description in four languages.** Whatever the regular expressions are, as long as the four
libraries agree on whole matches: the four subscribers agree on a topic if and only if a regular
expression does not match a mere part of it, and a pattern with `#` or `*` matches the topic, or a
part of it, just if the topic is the pattern itself.
-/
theorem sameSelection_iff_readAlike (es : Engines) (s topic : Text) :
    SameSelection es s topic ↔ ReadAlike es s topic := by
  by_cases hne : s = []
  · subst hne
    exact iff_of_true accepts_nil trivial
  · rw [ReadAlike]
    by_cases h : isExpression s
    · rw [if_pos h]
      exact sameSelection_expression hne h
    · rw [if_neg h]
      by_cases hw : '#' ∈ s ∨ '*' ∈ s
      · rw [if_pos hw]
        exact sameSelection_pattern hne h hw
      · rw [if_neg hw]
        exact iff_of_true (sameSelection_exact hne h hw) trivial

/-! ## An expression that is a word -/

/-- An expression of letters matches wherever the letters stand. -/
def word : Engine where
  compile := fun p => if p.all Char.isAlpha then
      some fun t => ((List.range (t.length + 1)).filter fun i => p.isPrefixOf (t.drop i)).map
        fun i => (i, p.length)
    else none

def words : Engines := ⟨word, word, word, word, fun _ _ => rfl, fun _ _ => rfl, fun _ _ => rfl⟩

/-- C# and TypeScript accept a topic that has the word in it. -/
theorem not_sameSelection_word : ¬ SameSelection words "r/ab/".toList "xab".toList := by
  intro h
  have := h.dotNet
  revert this
  decide +kernel

end Topics
