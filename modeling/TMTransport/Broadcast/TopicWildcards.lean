import TMTransport.Broadcast.Topics
import TMTransport.Library.Covering
import TMTransport.Library.Splitting

/-!
# Wildcards in topic descriptions

RabbitMQ reads a topic description word by word. On the transports without topics of
their own, `parseTopic` makes a regular expression of it, character by character.
The two agree on a topic unless a wildcard has to stand for something that the
expression does not let it stand for. Where a wildcard is a part of a word only, or
where another character means something in an expression, they disagree.
-/

namespace TopicWildcards

open ConnectionLocator (Text)
open Covering Topics

/-! ## RabbitMQ -/

/-- The words between the dots. The empty text has none. -/
def words (t : Text) : List Text := if t = [] then [] else t.splitOn '.'

/-- What a word of a description can stand for, given what the wildcards can. -/
def standsFor (one : Text → Bool) (many : List Text → Bool) (w : Text) (us : List Text) : Bool :=
  if w = ['#'] then many us
  else if w = ['*'] then us.length = 1 && us.all one
  else us = [w]

/-- The rule of the topic exchange. -/
def topicExchange (binding topic : Text) : Bool :=
  covers (standsFor (fun _ => true) fun _ => true) (words binding) (words topic)

/-- `parseTopic`, for RabbitMQ -/
def rabbitMQBinding (s : Text) : Text := if s = [] then ['#'] else s

/-! ## Expressions -/

/-- The parts of the expressions that `parseTopic` makes. -/
inductive Piece where
  | letter (c : Char)
  /-- `.+` -/
  | anyRun
  /-- `[^\.]+` -/
  | wordRun

def isLineTerminator (c : Char) : Bool := c = '\n' ∨ c = '\r'

def Piece.takes : Piece → Text → Bool
  | .letter c, x => x = [c]
  | .anyRun, x => x ≠ [] ∧ x.any isLineTerminator = false
  | .wordRun, x => x ≠ [] ∧ '.' ∉ x

/-- The characters that are not for themselves in an expression. -/
def isSyntaxCharacter (c : Char) : Bool := c ∈ "^$\\.*+?()[]{}|".toList

/-- The parts of an expression, if it has no others than these. -/
def pieces : Text → Option (List Piece)
  | [] => some []
  | '.' :: '+' :: rest => (pieces rest).map (.anyRun :: ·)
  | '[' :: '^' :: '\\' :: '.' :: ']' :: '+' :: rest => (pieces rest).map (.wordRun :: ·)
  | '\\' :: '.' :: rest => (pieces rest).map (.letter '.' :: ·)
  | c :: rest => if isSyntaxCharacter c then none else (pieces rest).map (.letter c :: ·)

/-- The library reads these expressions as ECMAScript does. -/
def FollowsECMAScript (e : Engine) : Prop :=
  ∀ p ps, pieces p = some ps →
    ∃ r, e.compile p = some r ∧ ∀ t, r.matchesWhole t = covers Piece.takes ps t

/-! ## The two readings -/

/-- The filter is made, and it accepts the topic just if RabbitMQ's exchange does. -/
def SameForRabbitMQ (e : Engine) (s topic : Text) : Prop :=
  ∃ selection, Cpp.parseTopic e s = some selection ∧
    selection.accepts topic = topicExchange (rabbitMQBinding s) topic

def HasWildcard (s : Text) : Prop := '#' ∈ s ∨ '*' ∈ s

instance : DecidablePred HasWildcard := fun s => inferInstanceAs (Decidable ('#' ∈ s ∨ '*' ∈ s))

/-- Besides the wildcards and the dots, no character means something in an expression. -/
def Plain (s : Text) : Prop := ∀ c ∈ s, c ≠ '.' → c ≠ '*' → isSyntaxCharacter c = false

instance : DecidablePred Plain := fun s =>
  List.decidableBAll (fun c => c ≠ '.' → c ≠ '*' → isSyntaxCharacter c = false) s

/-- A wildcard is a word of its own. -/
def WholeWords (s : Text) : Prop := ∀ w ∈ words s, HasWildcard w → w = ['#'] ∨ w = ['*']

instance : DecidablePred WholeWords := fun s =>
  inferInstanceAs (Decidable (∀ w ∈ words s, HasWildcard w → w = ['#'] ∨ w = ['*']))

/-- The text that `#` stands for has something in it, and no line break. -/
def isSomeText (us : List Text) : Bool := Piece.anyRun.takes (['.'].intercalate us)

/-- The exchange accepts the topic with each `#` for some text, and each `*` for some letters. -/
def strictly (s topic : Text) : Bool :=
  covers (standsFor (· ≠ []) isSomeText) (words s) (words topic)

/-- The description can be taken as an expression, for this topic. -/
def Understood (s topic : Text) : Prop :=
  ¬ HasWildcard s ∨
    Plain s ∧ WholeWords s ∧ (topicExchange s topic = true → strictly s topic = true)

/-! ## The expression for a description -/

def piece (c : Char) : Piece :=
  if c = '#' then .anyRun else if c = '*' then .wordRun else .letter c

variable {s t w : Text} {c : Char} {e : Engine}

theorem pieces_cons (h : isSyntaxCharacter c = false) (rest : Text) :
    pieces (c :: rest) = (pieces rest).map (.letter c :: ·) := by
  have hne : ∀ {d}, isSyntaxCharacter d = true → c ≠ d := fun hd he => by
    rw [he, hd] at h
    cases h
  rw [pieces, h]
  · rfl
  · exact fun _ he => absurd he (hne rfl)
  · exact fun _ he => absurd he (hne rfl)
  · exact fun _ he => absurd he (hne rfl)

theorem pieces_pattern (h : Plain s) : pieces (pattern s) = some (s.map piece) := by
  induction s with
  | nil => rfl
  | cons c s ih =>
      have ih := ih fun c hc => h c (List.mem_cons_of_mem _ hc)
      rw [pattern, List.flatMap_cons, ← pattern, List.map_cons, patternChar, piece]
      by_cases h1 : c = '#'
      · rw [if_pos h1, if_pos h1]
        change (pieces (pattern s)).map _ = _
        rw [ih]
        rfl
      · by_cases h2 : c = '*'
        · rw [if_neg h1, if_pos h2, if_neg h1, if_pos h2]
          change (pieces (pattern s)).map _ = _
          rw [ih]
          rfl
        · by_cases h3 : c = '.'
          · rw [if_neg h1, if_neg h2, if_pos h3, if_neg h1, if_neg h2, h3]
            change (pieces (pattern s)).map _ = _
            rw [ih]
            rfl
          · rw [if_neg h1, if_neg h2, if_neg h3, if_neg h1, if_neg h2, List.singleton_append,
              pieces_cons (h c List.mem_cons_self h3 h2), ih]
            rfl

theorem takes_piece_nil : (piece c).takes [] = false := by
  rw [piece]
  split
  · rfl
  · split <;> rfl

/-- A wildcard fits itself, too. -/
theorem takes_piece_self : (piece c).takes [c] = true := by
  rw [piece]
  split
  · next h =>
    rw [h]
    rfl
  · split
    · next h =>
      rw [h]
      rfl
    · simp [Piece.takes]

/-- The filter of a description that has wildcards. -/
theorem parseTopic_of_wildcard (he : ¬ isExpression s) (hw : HasWildcard s) :
    Cpp.parseTopic e s = (e.compile (pattern s)).map .regex := by
  have hne : s ≠ [] := by
    rintro rfl
    rcases hw with h | h <;> cases h
  rw [Cpp.parseTopic, if_neg hne, if_neg he, translate_eq]
  simp only [decide_eq_true (show '#' ∈ s ∨ '*' ∈ s from hw), if_true]

/-- The expression for a description matches all of a text. -/
def fits (s t : Text) : Bool := covers (fun c => (piece c).takes) s t

theorem sameForRabbitMQ_of_plain (hf : FollowsECMAScript e) (he : ¬ isExpression s)
    (hw : HasWildcard s) (hp : Plain s) :
    SameForRabbitMQ e s t ↔ fits s t = topicExchange s t := by
  obtain ⟨r, hr, hm⟩ := hf _ _ (pieces_pattern hp)
  have hne : s ≠ [] := by
    rintro rfl
    rcases hw with h | h <;> cases h
  rw [SameForRabbitMQ, parseTopic_of_wildcard he hw, hr, rabbitMQBinding, if_neg hne, fits,
    ← covers_map, ← hm]
  constructor
  · intro h
    obtain ⟨sel, hsel, h⟩ := h
    obtain rfl : Cpp.Selection.regex r = sel := Option.some.inj hsel
    exact h
  · exact fun h => ⟨_, rfl, h⟩

/-! ## Wildcards that are words -/

/-- A word of a description whose wildcards are words. -/
structure IsWord (w : Text) : Prop where
  noDot : '.' ∉ w
  whole : HasWildcard w → w = ['#'] ∨ w = ['*']

/-- What a word can stand for where the wildcards are read strictly. -/
abbrev strictlyStandsFor : Text → List Text → Bool := standsFor (· ≠ []) isSomeText

theorem strictlyStandsFor_nil : strictlyStandsFor w [] = false := by
  rw [strictlyStandsFor, standsFor]
  split
  · rfl
  · split <;> simp

theorem fits_literal (h : ¬ HasWildcard w) : fits w t = true ↔ t = w := by
  rw [fits, covers_iff_map (f := id), List.map_id]
  intro c hc us
  have h1 : c ≠ '#' := fun he => h (.inl (he ▸ hc))
  have h2 : c ≠ '*' := fun he => h (.inr (he ▸ hc))
  rw [piece, if_neg h1, if_neg h2]
  exact decide_eq_true_iff

/-- One word, in the expression and in the exchange. -/
theorem fits_word (hw : IsWord w) :
    fits w t = true ↔ strictlyStandsFor w (t.splitOn '.') = true := by
  by_cases h : HasWildcard w
  · rcases hw.whole h with rfl | rfl
    · rw [fits, covers_singleton, strictlyStandsFor, standsFor, if_pos rfl, isSomeText,
        List.intercalate_splitOn]
      rfl
    · rw [fits, covers_singleton, strictlyStandsFor, standsFor, if_neg (by decide), if_pos rfl,
        Splitting.length_splitOn]
      change decide (t ≠ [] ∧ '.' ∉ t) = true ↔ _
      rw [decide_eq_true_iff, Bool.and_eq_true, decide_eq_true_iff, Nat.add_eq_right,
        List.count_eq_zero, and_comm]
      refine and_congr_right fun hd => ?_
      rw [List.splitOn_eq_singleton hd]
      simp
  · have h1 : w ≠ ['#'] := fun he => h (.inl (he ▸ List.mem_cons_self))
    have h2 : w ≠ ['*'] := fun he => h (.inr (he ▸ List.mem_cons_self))
    rw [fits_literal h, strictlyStandsFor, standsFor, if_neg h1, if_neg h2, decide_eq_true_iff]
    constructor
    · intro he
      rw [he, List.splitOn_eq_singleton hw.noDot]
    · intro he
      have := congrArg ['.'].intercalate he
      rwa [List.intercalate_splitOn, List.intercalate_singleton] at this

theorem fits_append_dot {s' : Text} : fits (s ++ '.' :: s') t = true ↔
    ∃ u v, t = u ++ '.' :: v ∧ fits s u = true ∧ fits s' v = true := by
  have hdot : ∀ us, (piece '.').takes us = true ↔ us = ['.'] := fun us => decide_eq_true_iff
  rw [fits, covers_append]
  constructor
  · intro h
    obtain ⟨u, vs, rfl, h1, h2⟩ := h
    obtain ⟨d, v, rfl, h3, h4⟩ := covers_cons.mp h2
    rw [(hdot d).mp h3]
    exact ⟨u, v, rfl, h1, h4⟩
  · intro h
    obtain ⟨u, v, rfl, h1, h2⟩ := h
    exact ⟨u, '.' :: v, rfl, h1, covers_cons.mpr ⟨['.'], v, rfl, (hdot _).mpr rfl, h2⟩⟩

/-- The words, one after the other. -/
theorem fits_intercalate {ws : List Text} (hne : ws ≠ []) (hw : ∀ w ∈ ws, IsWord w) :
    fits (['.'].intercalate ws) t = true ↔
      covers strictlyStandsFor ws (t.splitOn '.') = true := by
  induction ws generalizing t with
  | nil => exact absurd rfl hne
  | cons w ws ih =>
      have hw1 := hw w List.mem_cons_self
      cases ws with
      | nil => rw [List.intercalate_singleton, covers_singleton, fits_word hw1]
      | cons w' ws =>
          have ih := fun {t} => ih (t := t) (List.cons_ne_nil _ _)
            fun v hv => hw v (List.mem_cons_of_mem _ hv)
          rw [List.intercalate_cons_cons, List.append_assoc, List.singleton_append,
            fits_append_dot, covers_cons]
          constructor
          · intro h
            obtain ⟨u, v, rfl, h1, h2⟩ := h
            exact ⟨_, _, List.splitOn_append_cons_self u v, (fits_word hw1).mp h1, ih.mp h2⟩
          · intro h
            obtain ⟨us, vs, hs, h1, h2⟩ := h
            have hus : us ≠ [] := fun he => by
              rw [he, strictlyStandsFor_nil] at h1
              cases h1
            have hvs : vs ≠ [] := fun he => by
              have := length_le_of_covers (fun _ _ => strictlyStandsFor_nil) h2
              rw [he] at this
              cases this
            obtain ⟨u, v, rfl, rfl, rfl⟩ := Splitting.exists_of_splitOn_append hs hus hvs
            exact ⟨u, v, rfl, (fits_word hw1).mpr h1, ih.mpr h2⟩

theorem words_of_ne_nil (h : s ≠ []) : words s = s.splitOn '.' := if_neg h

theorem words_injective : Function.Injective words := by
  intro s t h
  by_cases hs : s = []
  · by_cases ht : t = []
    · rw [hs, ht]
    · rw [words_of_ne_nil ht, hs] at h
      exact absurd h.symm (List.splitOn_ne_nil _ _)
  · by_cases ht : t = []
    · rw [words_of_ne_nil hs, ht] at h
      exact absurd h (List.splitOn_ne_nil _ _)
    · rw [words_of_ne_nil hs, words_of_ne_nil ht] at h
      have := congrArg ['.'].intercalate h
      rwa [List.intercalate_splitOn, List.intercalate_splitOn] at this

theorem isWord_of_mem (hw : WholeWords s) (h : w ∈ words s) : IsWord w where
  noDot := by
    have hs : s ≠ [] := fun he => by
      rw [he] at h
      cases h
    rw [words_of_ne_nil hs] at h
    exact Splitting.not_mem_of_mem_splitOn h
  whole := hw w h

theorem fits_eq_strictly (hs : s ≠ []) (hw : WholeWords s) : fits s t = strictly s t := by
  rw [Bool.eq_iff_iff]
  by_cases ht : t = []
  · -- nothing is left for the first character, nor for the first word
    have h1 : ¬ fits s t = true := fun h => by
      have := length_le_of_covers (fun _ _ => takes_piece_nil) h
      rw [ht] at this
      exact hs (List.length_eq_zero_iff.mp (Nat.le_zero.mp this))
    have h2 : ¬ strictly s t = true := fun h => by
      have := length_le_of_covers (fun _ _ => strictlyStandsFor_nil) h
      rw [ht] at this
      have := List.length_eq_zero_iff.mp (Nat.le_zero.mp this)
      rw [words_of_ne_nil hs] at this
      exact List.splitOn_ne_nil _ _ this
    exact iff_of_false h1 h2
  · rw [strictly, words_of_ne_nil ht, words_of_ne_nil hs, ← fits_intercalate
      (List.splitOn_ne_nil _ _) fun w h => isWord_of_mem hw (by rwa [words_of_ne_nil hs]),
      List.intercalate_splitOn]

theorem topicExchange_of_strictly (h : strictly s t = true) : topicExchange s t = true := by
  refine covers_mono (fun w _ us hus => ?_) h
  rw [standsFor] at hus ⊢
  split
  · rfl
  · next h1 =>
    rw [if_neg h1] at hus
    split
    · next h2 =>
      rw [if_pos h2, Bool.and_eq_true] at hus
      rw [hus.1]
      simp
    · next h2 => rwa [if_neg h2] at hus

/-- With plain characters and whole words, the expression accepts too little at most. -/
theorem sameForRabbitMQ_iff (hf : FollowsECMAScript e) (he : ¬ isExpression s) (hp : Plain s)
    (hw : WholeWords s) (h : HasWildcard s) :
    SameForRabbitMQ e s t ↔ (topicExchange s t = true → strictly s t = true) := by
  have hs : s ≠ [] := by
    rintro rfl
    rcases h with h | h <;> cases h
  rw [sameForRabbitMQ_of_plain hf he h hp, fits_eq_strictly hs hw, Bool.eq_iff_iff]
  exact ⟨Iff.mpr, fun h => ⟨topicExchange_of_strictly, h⟩⟩

/-! ## Descriptions without wildcards -/

theorem not_hasWildcard_of_mem (h : ¬ HasWildcard s) (hw : w ∈ words s) : ¬ HasWildcard w := by
  intro hc
  have hs : s ≠ [] := fun he => by
    rw [he] at hw
    cases hw
  rw [words_of_ne_nil hs] at hw
  exact h (hc.imp (Splitting.mem_of_mem_splitOn hw) (Splitting.mem_of_mem_splitOn hw))

theorem topicExchange_literal (h : ¬ HasWildcard s) : topicExchange s t = true ↔ t = s := by
  rw [topicExchange, covers_iff_map (f := id), List.map_id]
  · exact words_injective.eq_iff
  · intro w hw us
    have hn := not_hasWildcard_of_mem h hw
    rw [standsFor, if_neg, if_neg]
    · exact decide_eq_true_iff
    · exact fun he => hn (.inr (he ▸ List.mem_cons_self))
    · exact fun he => hn (.inl (he ▸ List.mem_cons_self))

theorem sameForRabbitMQ_literal (he : ¬ isExpression s) (h : ¬ HasWildcard s) :
    SameForRabbitMQ e s t := by
  by_cases hs : s = []
  · subst hs
    refine ⟨.noTopicSelection, rfl, ?_⟩
    rw [rabbitMQBinding, if_pos rfl, topicExchange, show words ['#'] = [['#']] from rfl, eq_comm]
    exact covers_singleton.mpr rfl
  · refine ⟨.string s, ?_, ?_⟩
    · rw [Cpp.parseTopic, if_neg hs, if_neg he, translate_eq]
      simp only [decide_eq_false (show ¬ ('#' ∈ s ∨ '*' ∈ s) from h), Bool.false_eq_true, if_false]
    · rw [rabbitMQBinding, if_neg hs, Bool.eq_iff_iff, topicExchange_literal h]
      exact decide_eq_true_iff

/-! ## Wildcards inside words -/

/-- A word in the middle, with what is on the two sides of it. -/
theorem intercalate_around (before after : List Text) :
    ∃ p q, ∀ w : Text, ['.'].intercalate (before ++ w :: after) = p ++ (w ++ q) := by
  induction before with
  | nil =>
      cases after with
      | nil => exact ⟨[], [], fun w => by simp⟩
      | cons v after =>
          exact ⟨[], '.' :: ['.'].intercalate (v :: after), fun w => by simp⟩
  | cons v before ih =>
      obtain ⟨p, q, h⟩ := ih
      refine ⟨v ++ '.' :: p, q, fun w => ?_⟩
      rw [List.cons_append, List.intercalate_cons_of_ne_nil (by simp), h]
      simp

/-- The expression accepts another letter in the wildcard's place. -/
theorem fits_replace {x y : Text} {d : Char} (h : (piece c).takes [d] = true) :
    fits (x ++ c :: y) (x ++ d :: y) = true := by
  have hself (l : Text) : List.Forall₂ (fun c d => (piece c).takes [d] = true) l l :=
    List.forall₂_same.mpr fun _ _ => takes_piece_self
  exact covers_of_forall₂ (List.rel_append (hself x) (.cons h (hself y)))

/-- A word with a wildcard in it stands for itself only, in the exchange. -/
theorem exists_not_sameForRabbitMQ (hf : FollowsECMAScript e) (he : ¬ isExpression s)
    (hp : Plain s) (hw : ¬ WholeWords s) : ∃ t, ¬ SameForRabbitMQ e s t := by
  obtain ⟨w, hmem, hwild, hne⟩ : ∃ w ∈ words s, HasWildcard w ∧ ¬ (w = ['#'] ∨ w = ['*']) := by
    simpa [WholeWords] using hw
  obtain ⟨hne1, hne2⟩ := not_or.mp hne
  have hs : s ≠ [] := fun he => by
    rw [he] at hmem
    cases hmem
  rw [words_of_ne_nil hs] at hmem
  have hnodot : ∀ v ∈ s.splitOn '.', '.' ∉ v := fun v => Splitting.not_mem_of_mem_splitOn
  obtain ⟨before, after, hsplit⟩ := List.append_of_mem hmem
  obtain ⟨c, hc, hcw⟩ : ∃ c, (c = '#' ∨ c = '*') ∧ c ∈ w := by
    rcases hwild with h | h
    · exact ⟨'#', .inl rfl, h⟩
    · exact ⟨'*', .inr rfl, h⟩
  obtain ⟨x, y, hxy⟩ := List.append_of_mem hcw
  -- the topic is the description with a letter for this wildcard
  obtain ⟨p, q, hpq⟩ := intercalate_around before after
  have hs' : s = (p ++ x) ++ c :: (y ++ q) := by
    have hjoin : ['.'].intercalate (s.splitOn '.') = s := List.intercalate_splitOn '.'
    rw [← hjoin, hsplit, hpq, hxy]
    simp
  have ht' : ['.'].intercalate (before ++ (x ++ 'x' :: y) :: after) =
      (p ++ x) ++ 'x' :: (y ++ q) := by
    rw [hpq]
    simp
  refine ⟨(p ++ x) ++ 'x' :: (y ++ q), ?_⟩
  have hwild' : HasWildcard s := by
    rw [hs']
    refine hc.imp ?_ ?_ <;> (intro h; simp [h])
  rw [sameForRabbitMQ_of_plain hf he hwild' hp]
  have hfits : fits s ((p ++ x) ++ 'x' :: (y ++ q)) = true := by
    rw [hs']
    refine fits_replace ?_
    rcases hc with rfl | rfl <;> decide
  rw [hfits]
  intro h
  have hwords : words ((p ++ x) ++ 'x' :: (y ++ q)) = before ++ (x ++ 'x' :: y) :: after := by
    rw [words_of_ne_nil (by simp), ← ht', List.splitOn_intercalate _ _ (by simp)]
    intro v hv
    rcases List.mem_append.mp hv with hv | hv
    · exact hnodot v (by rw [hsplit]; exact List.mem_append_left _ hv)
    · rcases List.mem_cons.mp hv with rfl | hv
      · have := hnodot w hmem
        rw [hxy] at this
        simp only [List.mem_append, List.mem_cons, not_or] at this ⊢
        exact ⟨this.1, by decide, this.2.2⟩
      · exact hnodot v (by rw [hsplit]; exact List.mem_append_right _ (List.mem_cons_of_mem _ hv))
  have hw' : x ++ 'x' :: y ≠ w := by
    rw [hxy]
    intro he
    have := (List.cons.inj (List.append_cancel_left he)).1
    rcases hc with rfl | rfl <;> cases this
  have hcount := count_le_of_covers (w := w) (fun us hus => ?_) h.symm
  · rw [hwords, words_of_ne_nil hs, hsplit, List.count_append, List.count_append,
      List.count_cons_self] at hcount
    rw [List.count_cons_of_ne hw'] at hcount
    omega
  · rw [standsFor, if_neg hne1, if_neg hne2] at hus
    exact of_decide_eq_true hus

/--
**What RabbitMQ understands.** A description without wildcards is the same for all transports. One
with wildcards is, for a topic, if it has plain characters only and its wildcards are words, and the
topic does not need a `#` for nothing or for a line break, nor a `*` for an empty word. With plain
characters there is no other case: if the wildcards are words, then for each topic, and if they are
not, some topic is taken differently.
-/
theorem sameForRabbitMQ_of_understood (hf : FollowsECMAScript e) (he : ¬ isExpression s) :
    (∀ t, Understood s t → SameForRabbitMQ e s t) ∧
      (Plain s → WholeWords s → ∀ t, SameForRabbitMQ e s t → Understood s t) ∧
      (Plain s → ¬ WholeWords s → ∃ t, ¬ SameForRabbitMQ e s t) := by
  refine ⟨fun t h => ?_, fun hp hw t h => ?_, exists_not_sameForRabbitMQ hf he⟩
  · by_cases hwild : HasWildcard s
    · obtain ⟨hp, hw, h⟩ := h.resolve_left (not_not_intro hwild)
      exact (sameForRabbitMQ_iff hf he hp hw hwild).mpr h
    · exact sameForRabbitMQ_literal he hwild
  · by_cases hwild : HasWildcard s
    · exact .inr ⟨hp, hw, (sameForRabbitMQ_iff hf he hp hw hwild).mp h⟩
    · exact .inl hwild

/-- An engine for expressions of these parts only. -/
def ofPieces : Engine where
  compile := fun p => (pieces p).map fun ps t =>
    if covers Piece.takes ps t then [(0, t.length)] else []

theorem ofPieces_followsECMAScript : FollowsECMAScript ofPieces := by
  intro p ps h
  refine ⟨fun t => if covers Piece.takes ps t then [(0, t.length)] else [], ?_, fun t => ?_⟩
  · exact congrArg (Option.map _) h
  · rw [Regex.matchesWhole]
    by_cases hc : covers Piece.takes ps t = true
    · simp only [hc, if_true]
      exact decide_eq_true (List.mem_singleton_self _)
    · simp only [hc]
      exact decide_eq_false List.not_mem_nil

theorem sameForRabbitMQ_news :
    SameForRabbitMQ ofPieces "news.*.#".toList "news.eu.sport.tennis".toList := by
  refine (sameForRabbitMQ_of_understood ofPieces_followsECMAScript (by decide)).1 _
    (.inr ⟨by decide, by decide, by decide +kernel⟩)

/-- RabbitMQ's `#` can stand for no word at all. -/
theorem not_sameForRabbitMQ_noWord :
    ¬ ∀ s topic, ¬ isExpression s → SameForRabbitMQ ofPieces s topic := by
  intro h
  obtain ⟨sel, hsel, hacc⟩ := h "news.#".toList "news".toList (by decide)
  rw [Cpp.parseTopic, if_neg (by decide), if_neg (by decide)] at hsel
  obtain rfl := Option.some.inj hsel
  revert hacc
  decide +kernel

end TopicWildcards
