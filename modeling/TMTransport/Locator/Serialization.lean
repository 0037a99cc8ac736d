import Mathlib.Algebra.Order.Group.Int
import TMTransport.Library.Codec
import TMTransport.Library.Splitting
import TMTransport.Locator.ConnectionLocator

/-!
# Locators, written down and read back

`toSerializationFormat` writes the parts one after the other, with the separators
between them and nothing around them. What is written reads back unless the
identifier ends with a bracket and there are no properties: then the bracket looks
like the end of the properties.
-/

namespace ConnectionLocator

open Splitting

/-! ## The format -/

/-- `operator<<` -/
def intText : Int → Text
  | .ofNat n => Nat.toDigits 10 n
  | .negSucc n => '-' :: Nat.toDigits 10 (n + 1)

/-- The loop over the properties, with its flag. -/
def writeProperties : Bool → List (Text × Text) → Text
  | _, [] => []
  | first, e :: es => (if first then [] else [',']) ++ e.1 ++ '=' :: e.2 ++ writeProperties false es

/-- `ConnectionLocator::toSerializationFormat` -/
def toSerializationFormat (l : Locator) : Text :=
  l.host ++ ':' :: intText l.port ++ ':' :: l.userName ++ ':' :: l.password ++
    ':' :: l.identifier ++
    if 0 < l.properties.entries.length then
      '[' :: writeProperties true l.properties.entries ++ [']']
    else []

/-- `RunCBORSerializer<ConnectionLocator>`, by way of the format for strings. -/
def serializeCBOR (strings : Codec Text) (l : Locator) : String :=
  strings.serialize (toSerializationFormat l)

/-- `RunCBORDeserializer<ConnectionLocator>` -/
def deserializeCBOR (strings : Codec Text) (data : String) : Option Locator :=
  (strings.parse data).bind fun t => (parse t).toOption

/-- Nothing is lost when the locator is written down. -/
structure RoundTrips (l : Locator) : Prop where
  format : parse (toSerializationFormat l) = .ok l
  cbor : ∀ strings, deserializeCBOR strings (serializeCBOR strings l) = some l

theorem roundTrips_iff {l : Locator} :
    RoundTrips l ↔ parse (toSerializationFormat l) = .ok l := by
  refine ⟨RoundTrips.format, fun h => ⟨h, fun strings => ?_⟩⟩
  rw [deserializeCBOR, serializeCBOR, strings.parse_serialize, Option.bind_some, h]
  rfl

/-! ## What the parser makes -/

/-- A name or a value. -/
structure PropertyText (t : Text) : Prop where
  trimmed : Trimmed isSpace t
  comma : ',' ∉ t
  equals : '=' ∉ t
  bracket : '[' ∉ t

structure WellFormed (l : Locator) : Prop where
  host : Trimmed isSpace l.host
  host_colon : ':' ∉ l.host
  port : -2147483648 ≤ l.port ∧ l.port ≤ 2147483647
  userName : Trimmed isSpace l.userName
  userName_colon : ':' ∉ l.userName
  password_colon : ':' ∉ l.password
  identifier : Trimmed isSpace l.identifier
  name : ∀ e ∈ l.properties.entries, PropertyText e.1
  value : ∀ e ∈ l.properties.entries, PropertyText e.2
  notReserved : ∀ e ∈ l.properties.entries, e.1.map Char.toUpper ∉ reservedNames

/-! ## Numbers -/

theorem digitsToNat_toDigits (n : Nat) : digitsToNat (Nat.toDigits 10 n) = some n := by
  have hd : (Nat.toDigits 10 n).all Char.isDigit = true := by
    rw [List.all_eq_true]
    exact fun c hc => Nat.isDigit_of_mem_toDigits (by omega) (by omega) hc
  rw [digitsToNat, if_neg (by simp [Nat.toDigits_ne_nil, hd]), ← Nat.ofDigitChars_eq_foldl,
    Nat.ofDigitChars_ten_toDigits]

theorem not_mem_toDigits {c : Char} (hc : c.isDigit = false) (n : Nat) :
    c ∉ Nat.toDigits 10 n := by
  intro h
  rw [Nat.isDigit_of_mem_toDigits (by omega) (by omega) h] at hc
  cases hc

/-- A number is written with its digits, which have no sign in front, or with a minus and them. -/
theorem intText_cases (n : Int) :
    (∃ m : Nat, n = m ∧ intText n = Nat.toDigits 10 m ∧
      (∀ ds, Nat.toDigits 10 m ≠ '-' :: ds) ∧ ∀ ds, Nat.toDigits 10 m ≠ '+' :: ds) ∨
      ∃ m : Nat, n = -m ∧ intText n = '-' :: Nat.toDigits 10 m := by
  cases n with
  | ofNat m =>
      refine .inl ⟨m, rfl, rfl, fun ds h => ?_, fun ds h => ?_⟩
      · exact not_mem_toDigits (c := '-') (by decide) m (h ▸ List.mem_cons_self)
      · exact not_mem_toDigits (c := '+') (by decide) m (h ▸ List.mem_cons_self)
  | negSucc m => exact .inr ⟨m + 1, rfl, rfl⟩

theorem digit_or_minus {n : Int} {c : Char} (h : c ∈ intText n) : c.isDigit = true ∨ c = '-' := by
  rcases intText_cases n with ⟨m, -, htext, -⟩ | ⟨m, -, htext⟩
  · rw [htext] at h
    exact .inl (Nat.isDigit_of_mem_toDigits (by omega) (by omega) h)
  · rw [htext] at h
    exact (List.mem_cons.mp h).symm.imp_left (Nat.isDigit_of_mem_toDigits (by omega) (by omega))

theorem not_mem_intText {c : Char} (hc : c.isDigit = false) (hne : c ≠ '-') (n : Int) :
    c ∉ intText n := by
  intro h
  rcases digit_or_minus h with h | h
  · rw [hc] at h
    cases h
  · exact hne h

theorem lexicalCastInt_intText {n : Int} (hn : -2147483648 ≤ n ∧ n ≤ 2147483647) :
    lexicalCastInt (intText n) = some n := by
  rcases intText_cases n with ⟨m, rfl, htext, hminus, hplus⟩ | ⟨m, rfl, htext⟩
  · rw [htext, lexicalCastInt.eq_3 _ hminus hplus, digitsToNat_toDigits, Option.bind_some,
      if_pos (by omega)]
  · rw [htext, lexicalCastInt, digitsToNat_toDigits, Option.bind_some, if_pos (by omega)]

theorem digit_not_space {c : Char} (h : c.isDigit = true) : isSpace c = false := by
  by_contra hs
  simp only [isSpace, Bool.not_eq_false, decide_eq_true_eq] at hs
  rcases hs with rfl | rfl | rfl | rfl | rfl | rfl <;> simp at h

theorem not_space_of_mem_intText {n : Int} {c : Char} (h : c ∈ intText n) : isSpace c = false := by
  rcases digit_or_minus h with h | rfl
  · exact digit_not_space h
  · decide

theorem trimmed_intText (n : Int) : Trimmed isSpace (intText n) where
  head := fun _ hc => not_space_of_mem_intText (List.mem_of_mem_head? hc)
  last := fun _ hc => not_space_of_mem_intText (List.mem_of_mem_getLast? hc)

theorem colon_intText (n : Int) : ':' ∉ intText n := not_mem_intText (by decide) (by decide) n

theorem intText_ne_nil (n : Int) : intText n ≠ [] := by
  cases n with
  | ofNat n => exact Nat.toDigits_ne_nil
  | negSucc n => exact List.cons_ne_nil _ _

theorem trim_of_trimmed {t : Text} (h : Trimmed isSpace t) : trim t = t := h.trim

theorem trimmed_trim (t : Text) : Trimmed isSpace (trim t) := Splitting.trimmed_trim isSpace t

theorem mem_of_mem_trim {t : Text} {c : Char} (h : c ∈ trim t) : c ∈ t :=
  Splitting.mem_of_mem_trim h

theorem parsePort_intText (input : Text) {n : Int} (hn : -2147483648 ≤ n ∧ n ≤ 2147483647) :
    parsePort input (intText n) = .ok n := by
  rw [parsePort, trim_of_trimmed (trimmed_intText n)]
  simp only [intText_ne_nil, if_false, lexicalCastInt_intText hn]

/-! ## The parts before the properties -/

/-- The text before the fifth part is cut at each colon, and after that no more. -/
theorem splitMain_of_parts {a b c d : Text} (r : Text) (ha : ':' ∉ a) (hb : ':' ∉ b) (hc : ':' ∉ c)
    (hd : ':' ∉ d) :
    splitMain (a ++ ':' :: (b ++ ':' :: (c ++ ':' :: (d ++ ':' :: r)))) = [a, b, c, d, r] := by
  have hs : (a ++ ':' :: (b ++ ':' :: (c ++ ':' :: (d ++ ':' :: r)))).splitOn ':' =
      a :: b :: c :: d :: r.splitOn ':' := by
    rw [List.splitOn_append_cons_self_of_not_mem ha, List.splitOn_append_cons_self_of_not_mem hb,
      List.splitOn_append_cons_self_of_not_mem hc, List.splitOn_append_cons_self_of_not_mem hd]
  have hr : [':'].intercalate (r.splitOn ':') = r := List.intercalate_splitOn ':'
  rw [splitMain, hs]
  split
  · simp [hr]
  · next hlen =>
    match hrs : r.splitOn ':' with
    | [] => exact absurd hrs (List.splitOn_ne_nil ':' r)
    | [x] =>
        rw [hrs, List.intercalate_singleton] at hr
        rw [hr]
    | x :: y :: xs => simp [hrs] at hlen

/-- Either there are fewer than five parts, or the fifth one is all the rest. -/
theorem splitMain_cases (t : Text) :
    (t.count ':' < 4 ∧ splitMain t = t.splitOn ':') ∨
      ∃ a b c d r, ':' ∉ a ∧ ':' ∉ b ∧ ':' ∉ c ∧ ':' ∉ d ∧
        t = a ++ ':' :: (b ++ ':' :: (c ++ ':' :: (d ++ ':' :: r))) ∧
        splitMain t = [a, b, c, d, r] := by
  by_cases hc : t.count ':' < 4
  · refine .inl ⟨hc, ?_⟩
    rw [splitMain, if_neg (by rw [length_splitOn]; omega)]
  · right
    -- one part after the other is cut off
    have cut : ∀ {t : Text} {n : Nat}, n < t.count ':' →
        ∃ p u, ':' ∉ p ∧ t = p ++ ':' :: u ∧ n ≤ u.count ':' := by
      intro t n hn
      obtain ⟨p, u, ht, hp⟩ :=
        List.eq_append_cons_of_mem (List.count_pos_iff.mp (Nat.zero_lt_of_lt hn))
      refine ⟨p, u, hp, ht, ?_⟩
      rw [ht, List.count_append, List.count_eq_zero_of_not_mem hp, List.count_cons_self] at hn
      omega
    obtain ⟨a, u, ha, rfl, hu⟩ := cut (n := 3) (t := t) (by omega)
    obtain ⟨b, v, hb, rfl, hv⟩ := cut (n := 2) (t := u) (by omega)
    obtain ⟨c, w, hcc, rfl, hw⟩ := cut (n := 1) (t := v) (by omega)
    obtain ⟨d, r, hd, rfl, -⟩ := cut (n := 0) (t := w) (by omega)
    exact ⟨a, b, c, d, r, ha, hb, hcc, hd, rfl, splitMain_of_parts r ha hb hcc hd⟩

theorem colon_splitMain (t : Text) {i : Nat} (hi : i < 4) : ':' ∉ (splitMain t).getD i [] := by
  rcases splitMain_cases t with ⟨-, h⟩ | ⟨a, b, c, d, r, ha, hb, hc, hd, -, h⟩
  · rw [h, List.getD_eq_getElem?_getD]
    cases hp : (t.splitOn ':')[i]? with
    | none => exact List.not_mem_nil
    | some p => exact not_mem_of_mem_splitOn (List.mem_of_getElem? hp)
  · rw [h]
    match i, hi with
    | 0, _ => exact ha
    | 1, _ => exact hb
    | 2, _ => exact hc
    | 3, _ => exact hd

/-! ## The properties -/

def propertyText (e : Text × Text) : Text := e.1 ++ '=' :: e.2

theorem writeProperties_eq (es : List (Text × Text)) :
    writeProperties true es = [','].intercalate (es.map propertyText) := by
  have hf : ∀ es : List (Text × Text),
      writeProperties false es = es.flatMap fun e => ',' :: propertyText e := by
    intro es
    induction es with
    | nil => rfl
    | cons e es ih => simp [writeProperties, ih, propertyText]
  cases es with
  | nil => rfl
  | cons e es =>
      rw [writeProperties, hf]
      induction es generalizing e with
      | nil => simp [propertyText]
      | cons e' es ih =>
          rw [List.map_cons, List.map_cons, List.intercalate_cons_cons, ← List.map_cons, ← ih]
          simp [propertyText]

theorem insertEntry_last {name value : Text} {es : List (Text × Text)} (h : ∀ e ∈ es, e.1 < name) :
    Properties.insertEntry name value es = es ++ [(name, value)] := by
  induction es with
  | nil => rfl
  | cons e es ih =>
      have he := h e List.mem_cons_self
      rw [Properties.insertEntry, if_neg (not_lt_of_gt he), if_neg (ne_of_gt he),
        ih fun e' h' => h e' (List.mem_cons_of_mem e h'), List.cons_append]

theorem find_of_lt {ps : Properties} {name : Text} (h : ∀ e ∈ ps.entries, e.1 < name) :
    ps.find name = none := by
  rw [Properties.find, List.lookup_eq_none_iff]
  intro e he
  simpa using ne_of_gt (h e he)

theorem parseProperty_propertyText (input : Text) {ps : Properties} {e : Text × Text}
    (hn : PropertyText e.1) (hv : PropertyText e.2) (hr : e.1.map Char.toUpper ∉ reservedNames)
    (hlt : ∀ e' ∈ ps.entries, e'.1 < e.1) :
    parseProperty input ps (propertyText e) = .ok (ps.insert e.1 e.2) := by
  have hs : (propertyText e).splitOn '=' = [e.1, e.2] := by
    rw [propertyText, List.splitOn_append_cons_self_of_not_mem hn.equals,
      List.splitOn_eq_singleton hv.equals]
  rw [parseProperty, hs]
  simp only [List.length_cons, List.length_nil, List.headD_cons, List.getD_cons_succ,
    List.getD_cons_zero, trim_of_trimmed hn.trimmed, trim_of_trimmed hv.trimmed, hr,
    find_of_lt hlt]
  rfl

/-- The properties are written in order, so each one read back goes to the end. -/
theorem foldlM_parseProperty (input : Text) {es : List (Text × Text)} {ps : Properties}
    (hs : (ps.entries ++ es).Pairwise fun a b => a.1 < b.1)
    (hn : ∀ e ∈ es, PropertyText e.1) (hv : ∀ e ∈ es, PropertyText e.2)
    (hr : ∀ e ∈ es, e.1.map Char.toUpper ∉ reservedNames) :
    (es.map propertyText).foldlM (parseProperty input) ps = .ok ⟨ps.entries ++ es, hs⟩ := by
  induction es generalizing ps with
  | nil => simp [pure, Except.pure]
  | cons e es ih =>
      have hlt : ∀ e' ∈ ps.entries, e'.1 < e.1 := fun e' he' =>
        (List.pairwise_append.mp hs).2.2 e' he' e List.mem_cons_self
      have hent : (ps.insert e.1 e.2).entries = ps.entries ++ [e] := insertEntry_last hlt
      have hs' : ((ps.insert e.1 e.2).entries ++ es).Pairwise fun a b => a.1 < b.1 := by
        rw [hent, List.append_assoc]
        exact hs
      rw [List.map_cons, List.foldlM_cons, parseProperty_propertyText input
        (hn e List.mem_cons_self) (hv e List.mem_cons_self) (hr e List.mem_cons_self) hlt]
      refine (ih hs' (fun x hx => hn x (List.mem_cons_of_mem e hx))
        (fun x hx => hv x (List.mem_cons_of_mem e hx))
        (fun x hx => hr x (List.mem_cons_of_mem e hx))).trans ?_
      refine congrArg Except.ok (Properties.ext ?_)
      simp [hent]

/-! ## The whole text -/

theorem splitAtLast_append {c : Char} (m : Text) {p : Text} (hp : c ∉ p) :
    splitAtLast c (m ++ c :: p) = some (m, p) := by
  have hrev : (m ++ c :: p).reverse = p.reverse ++ c :: m.reverse := by simp
  have hall : ∀ a ∈ p.reverse, (decide (a ≠ c)) = true := by
    intro a ha
    rw [decide_eq_true_eq]
    exact fun he => hp (he ▸ List.mem_reverse.mp ha)
  rw [splitAtLast, if_pos (by simp), hrev, List.dropWhile_append_of_pos hall,
    List.takeWhile_append_of_pos hall]
  simp

theorem splitAtLast_eq_some {c : Char} {s m p : Text} (h : splitAtLast c s = some (m, p)) :
    s = m ++ c :: p ∧ c ∉ p := by
  by_cases hc : c ∈ s
  · obtain ⟨q, m', hrev, hq⟩ := List.eq_append_cons_of_mem (List.mem_reverse.mpr hc)
    have hs : s = m'.reverse ++ c :: q.reverse := by
      rw [← List.reverse_reverse s, hrev]
      simp
    have hq' : c ∉ q.reverse := by simpa using hq
    rw [hs, splitAtLast_append _ hq', Option.some.injEq, Prod.mk.injEq] at h
    obtain ⟨rfl, rfl⟩ := h
    exact ⟨hs, hq'⟩
  · rw [splitAtLast, if_neg hc] at h
    cases h

theorem getLast?_append_cons (a : Text) (c : Char) (b : Text) :
    (a ++ c :: b).getLast? = some (b.getLast?.getD c) := by
  rw [List.getLast?_append_of_ne_nil _ (List.cons_ne_nil c b), List.getLast?_cons]

theorem trimmed_append_cons {a b : Text} {c : Char} (hc : isSpace c = false)
    (ha : ∀ d, a.head? = some d → isSpace d = false)
    (hb : ∀ d, b.getLast? = some d → isSpace d = false) : Trimmed isSpace (a ++ c :: b) where
  head := by
    intro d hd
    cases a with
    | nil =>
        obtain rfl := Option.some.inj hd
        exact hc
    | cons x a => exact ha d hd
  last := by
    intro d hd
    rw [getLast?_append_cons, Option.some.injEq] at hd
    cases hl : b.getLast? with
    | none =>
        rw [hl, Option.getD_none] at hd
        exact hd ▸ hc
    | some e =>
        rw [hl, Option.getD_some] at hd
        exact hd ▸ hb e hl

def mainText (l : Locator) : Text :=
  l.host ++ ':' :: (intText l.port ++ ':' ::
    (l.userName ++ ':' :: (l.password ++ ':' :: l.identifier)))

theorem toSerializationFormat_nil {l : Locator} (h : l.properties.entries = []) :
    toSerializationFormat l = mainText l := by
  simp [toSerializationFormat, mainText, h]

theorem toSerializationFormat_cons {l : Locator} (h : l.properties.entries ≠ []) :
    toSerializationFormat l =
      mainText l ++ '[' :: (writeProperties true l.properties.entries ++ [']']) := by
  simp [toSerializationFormat, mainText, List.length_pos_iff.mpr h]

theorem getLast?_mainText (l : Locator) :
    (mainText l).getLast? = some (l.identifier.getLast?.getD ':') := by
  simp only [mainText, getLast?_append_cons, Option.getD_some]

variable {l : Locator}

theorem WellFormed.trimmed_mainText (hl : WellFormed l) : Trimmed isSpace (mainText l) := by
  refine trimmed_append_cons (by decide) hl.host.head fun d hd => ?_
  simp only [getLast?_append_cons, Option.getD_some, Option.some.injEq] at hd
  cases h : l.identifier.getLast? with
  | none =>
      rw [h, Option.getD_none] at hd
      rw [← hd]
      decide
  | some e =>
      rw [h, Option.getD_some] at hd
      exact hd ▸ hl.identifier.last e h

theorem WellFormed.splitMain_mainText (hl : WellFormed l) :
    splitMain (mainText l) = [l.host, intText l.port, l.userName, l.password, l.identifier] :=
  splitMain_of_parts l.identifier hl.host_colon (colon_intText l.port) hl.userName_colon
    hl.password_colon

theorem splitProperties_of_bracket {s m p : Text} (hs : Trimmed isSpace s)
    (h : s = m ++ '[' :: (p ++ [']'])) (hp : '[' ∉ p) :
    splitProperties s = .ok (trim m, trim p) := by
  have hp' : '[' ∉ p ++ [']'] := by simp [hp]
  rw [splitProperties, trim_of_trimmed hs]
  rw [h, getLast?_append_cons, List.getLast?_append_of_ne_nil _ (List.cons_ne_nil _ _),
    if_pos (show some ([']'].getLast?.getD '[') = some ']' from rfl), splitAtLast_append m hp']
  simp

theorem splitProperties_of_noBracket {s : Text} (hs : Trimmed isSpace s)
    (h : s.getLast? ≠ some ']') : splitProperties s = .ok (s, []) := by
  rw [splitProperties, trim_of_trimmed hs]
  rw [if_neg h]

/-- The parts of the parser, one after the other. -/
theorem parse_eq_ok {s : Text} :
    parse s = .ok l ↔ ∃ main props, splitProperties s = .ok (main, props) ∧
      parsePort s ((splitMain main).getD 1 []) = .ok l.port ∧
      parseProperties s props = .ok l.properties ∧
      l.host = trim ((splitMain main).getD 0 []) ∧
      l.userName = trim ((splitMain main).getD 2 []) ∧
      l.password = (splitMain main).getD 3 [] ∧
      l.identifier = trim ((splitMain main).getD 4 []) := by
  rw [parse]
  cases hs : splitProperties s with
  | error e => simp [bind, Except.bind]
  | ok mp =>
      obtain ⟨main, props⟩ := mp
      cases hp : parsePort s ((splitMain main).getD 1 []) with
      | error e =>
          constructor
          · intro h
            simp only [bind, Except.bind, hp] at h
            cases h
          · intro h
            obtain ⟨_, _, h, h1, -⟩ := h
            cases h
            rw [hp] at h1
            cases h1
      | ok port =>
          cases hq : parseProperties s props with
          | error e =>
              constructor
              · intro h
                simp only [bind, Except.bind, hp, hq] at h
                cases h
              · intro h
                obtain ⟨_, _, h, -, h1, -⟩ := h
                cases h
                rw [hq] at h1
                cases h1
          | ok ps =>
              obtain ⟨host, port', userName, password, identifier, properties⟩ := l
              simp only [bind, Except.bind, hp, hq, pure, Except.pure, Except.ok.injEq,
                Locator.mk.injEq, Prod.mk.injEq]
              constructor
              · rintro ⟨rfl, rfl, rfl, rfl, rfl, rfl⟩
                exact ⟨main, props, ⟨rfl, rfl⟩, hp, hq, rfl, rfl, rfl, rfl⟩
              · rintro ⟨main', props', ⟨rfl, rfl⟩, h1, h2, rfl, rfl, rfl, rfl⟩
                rw [hp] at h1
                rw [hq] at h2
                exact ⟨rfl, Except.ok.inj h1, rfl, rfl, rfl, Except.ok.inj h2⟩

/-! ## There and back -/

theorem writeProperties_cons (first : Bool) (e : Text × Text) (es : List (Text × Text)) :
    writeProperties first (e :: es) =
      ((if first then [] else [',']) ++ e.1) ++ '=' :: (e.2 ++ writeProperties false es) := by
  rw [writeProperties, List.append_assoc, List.cons_append]

theorem bracket_writeProperties {es : List (Text × Text)} (hn : ∀ e ∈ es, PropertyText e.1)
    (hv : ∀ e ∈ es, PropertyText e.2) (first : Bool) : '[' ∉ writeProperties first es := by
  induction es generalizing first with
  | nil => exact List.not_mem_nil
  | cons e es ih =>
      have h1 := (hn e List.mem_cons_self).bracket
      have h2 := (hv e List.mem_cons_self).bracket
      have h3 := ih (fun e' h => hn e' (List.mem_cons_of_mem e h))
        (fun e' h => hv e' (List.mem_cons_of_mem e h)) false
      cases first <;> simp [writeProperties_cons, h1, h2, h3]

theorem last_writeProperties {es : List (Text × Text)} (hv : ∀ e ∈ es, PropertyText e.2)
    (first : Bool) : ∀ c, (writeProperties first es).getLast? = some c → isSpace c = false := by
  induction es generalizing first with
  | nil =>
      intro c hc
      cases hc
  | cons e es ih =>
      have ih := ih (fun e' h => hv e' (List.mem_cons_of_mem e h)) false
      intro c hc
      rw [writeProperties_cons, getLast?_append_cons, List.getLast?_append, Option.some.injEq] at hc
      rw [← hc]
      cases hw : (writeProperties false es).getLast? with
      | some d => exact ih d hw
      | none =>
          cases he : e.2.getLast? with
          | some d => exact (hv e List.mem_cons_self).trimmed.last d he
          | none => rfl

theorem WellFormed.trimmed_writeProperties (hl : WellFormed l) :
    Trimmed isSpace (writeProperties true l.properties.entries) := by
  cases hes : l.properties.entries with
  | nil => exact .nil
  | cons e es =>
      have he : e ∈ l.properties.entries := hes ▸ List.mem_cons_self
      have hlast := last_writeProperties hl.value true
      rw [hes, writeProperties_cons] at hlast
      rw [writeProperties_cons]
      refine trimmed_append_cons (by decide) (by simpa using (hl.name e he).trimmed.head)
        fun d hd => hlast d ?_
      rw [getLast?_append_cons, hd, Option.getD_some]

/-- Each part reads back from where it was written. -/
theorem WellFormed.parse_of_split {s props : Text} (hl : WellFormed l)
    (hs : splitProperties s = .ok (mainText l, props))
    (hp : parseProperties s props = .ok l.properties) : parse s = .ok l := by
  refine parse_eq_ok.mpr ⟨mainText l, props, hs, ?_, hp, ?_⟩
  · rw [hl.splitMain_mainText]
    exact parsePort_intText s hl.port
  · rw [hl.splitMain_mainText]
    exact ⟨(trim_of_trimmed hl.host).symm, (trim_of_trimmed hl.userName).symm, rfl,
      (trim_of_trimmed hl.identifier).symm⟩

theorem parseProperties_writeProperties (hl : WellFormed l) (input : Text)
    (hne : l.properties.entries ≠ []) :
    parseProperties input (writeProperties true l.properties.entries) = .ok l.properties := by
  have hcomma : ∀ t ∈ l.properties.entries.map propertyText, ',' ∉ t := by
    intro t ht
    obtain ⟨e, he, rfl⟩ := List.mem_map.mp ht
    simp [propertyText, (hl.name e he).comma, (hl.value e he).comma]
  have hs := List.splitOn_intercalate ',' hcomma (by simpa using hne)
  have hnil : writeProperties true l.properties.entries ≠ [] := by
    obtain ⟨e, es, hes⟩ := List.exists_cons_of_ne_nil hne
    rw [hes, writeProperties_cons]
    simp
  rw [parseProperties, if_neg hnil, writeProperties_eq, hs,
    @foldlM_parseProperty input _ .empty l.properties.sorted hl.name hl.value hl.notReserved]
  rfl

theorem WellFormed.parse_of_properties (hl : WellFormed l) (h : l.properties.entries ≠ []) :
    parse (toSerializationFormat l) = .ok l := by
  have hf := toSerializationFormat_cons h
  have htrim : Trimmed isSpace (toSerializationFormat l) := by
    rw [hf]
    have hm := hl.trimmed_mainText
    refine trimmed_append_cons (by decide) hm.head fun c hc => ?_
    rw [getLast?_append_cons, Option.some.injEq] at hc
    rw [← hc]
    rfl
  refine hl.parse_of_split ?_ (parseProperties_writeProperties hl _ h)
  rw [splitProperties_of_bracket htrim hf (bracket_writeProperties hl.name hl.value true),
    trim_of_trimmed hl.trimmed_mainText, trim_of_trimmed hl.trimmed_writeProperties]

theorem WellFormed.parse_of_identifier (hl : WellFormed l) (h : l.properties.entries = [])
    (hid : l.identifier.getLast? ≠ some ']') : parse (toSerializationFormat l) = .ok l := by
  rw [toSerializationFormat_nil h]
  refine hl.parse_of_split (splitProperties_of_noBracket hl.trimmed_mainText ?_) ?_
  · rw [getLast?_mainText, ne_eq, Option.some.injEq]
    cases hlast : l.identifier.getLast? with
    | none => decide
    | some c =>
        intro hc
        exact hid (by rw [hlast, ← hc, Option.getD_some])
  · rw [parseProperties, if_pos rfl]
    exact congrArg Except.ok (Properties.ext h.symm)

/-! ## What is parsed is well formed -/

theorem lexicalCastInt_range {t : Text} {n : Int} (h : lexicalCastInt t = some n) :
    -2147483648 ≤ n ∧ n ≤ 2147483647 := by
  rw [lexicalCastInt.eq_def] at h
  split at h
  all_goals
    obtain ⟨m, -, h⟩ := Option.bind_eq_some_iff.mp h
    split at h
    · have := Option.some.inj h
      omega
    · cases h

theorem parsePort_range {input part : Text} {n : Int} (h : parsePort input part = .ok n) :
    -2147483648 ≤ n ∧ n ≤ 2147483647 := by
  simp only [parsePort] at h
  split at h
  · have := Except.ok.inj h
    omega
  · split at h
    · next hc =>
      have := Except.ok.inj h
      rw [← this]
      exact lexicalCastInt_range hc
    · cases h

/-- Either there is nothing for the properties, or the text ends with them. -/
theorem splitProperties_eq_ok {s main props : Text} (h : splitProperties s = .ok (main, props)) :
    (main = trim s ∧ props = [] ∧ (trim s).getLast? ≠ some ']') ∨
      ∃ m p, trim s = m ++ '[' :: (p ++ [']']) ∧ '[' ∉ p ∧ main = trim m ∧ props = trim p := by
  rw [splitProperties] at h
  split at h
  · next hlast =>
    split at h
    · cases h
    · next m p hsplit =>
      obtain ⟨hs, hp⟩ := splitAtLast_eq_some hsplit
      have hmp := Except.ok.inj h
      rw [Prod.mk.injEq] at hmp
      have hp' : p = p.dropLast ++ [']'] := by
        have hl := hlast
        rw [hs, getLast?_append_cons, Option.some.injEq] at hl
        cases hpl : p.getLast? with
        | none =>
            rw [hpl] at hl
            cases hl
        | some c =>
            rw [hpl, Option.getD_some] at hl
            rw [hl] at hpl
            exact (List.dropLast_append_getLast? ']' hpl).symm
      refine .inr ⟨m, p.dropLast, ?_, ?_, hmp.1.symm, hmp.2.symm⟩
      · rw [← hp']
        exact hs
      · exact fun hc => hp (List.dropLast_subset p hc)
  · next hlast =>
    have hmp := Except.ok.inj h
    rw [Prod.mk.injEq] at hmp
    exact .inl ⟨hmp.1.symm, hmp.2.symm, hlast⟩

/-- What each entry that is read fulfils. -/
structure Readable (e : Text × Text) : Prop where
  name : PropertyText e.1
  value : PropertyText e.2
  notReserved : e.1.map Char.toUpper ∉ reservedNames

theorem propertyText_trim {p q : Text} (hq : q ∈ p.splitOn '=') (hc : ',' ∉ p) (hb : '[' ∉ p) :
    PropertyText (trim q) where
  trimmed := trimmed_trim q
  comma := fun h => hc (mem_of_mem_splitOn hq (mem_of_mem_trim h))
  equals := fun h => not_mem_of_mem_splitOn hq (mem_of_mem_trim h)
  bracket := fun h => hb (mem_of_mem_splitOn hq (mem_of_mem_trim h))

theorem propertyText_nil : PropertyText [] := ⟨.nil, by simp, by simp, by simp⟩

theorem parseProperty_eq_ok {input p : Text} {ps ps' : Properties} (hc : ',' ∉ p) (hb : '[' ∉ p)
    (h : parseProperty input ps p = .ok ps') :
    ∃ e, Readable e ∧ ps' = ps.insert e.1 e.2 := by
  simp only [parseProperty] at h
  split at h
  · cases h
  · split at h
    · cases h
    · next hr =>
      split at h
      · cases h
      · refine ⟨(_, _), ⟨?_, ?_, hr⟩, (Except.ok.inj h).symm⟩
        · match hsp : p.splitOn '=' with
          | [] => exact absurd hsp (List.splitOn_ne_nil '=' p)
          | q :: qs =>
              have hq : q ∈ p.splitOn '=' := by
                rw [hsp]
                exact List.mem_cons_self
              exact propertyText_trim hq hc hb
        · match hsp : p.splitOn '=' with
          | [] => exact absurd hsp (List.splitOn_ne_nil '=' p)
          | [q] => exact propertyText_nil
          | q :: q' :: qs =>
              have hq : q' ∈ p.splitOn '=' := by
                rw [hsp]
                exact List.mem_cons_of_mem q List.mem_cons_self
              exact propertyText_trim hq hc hb

theorem foldlM_parseProperty_readable {input : Text} {parts : List Text} {ps ps' : Properties}
    (hc : ∀ p ∈ parts, ',' ∉ p) (hb : ∀ p ∈ parts, '[' ∉ p) (hps : ∀ e ∈ ps.entries, Readable e)
    (h : parts.foldlM (parseProperty input) ps = .ok ps') :
    (∀ e ∈ ps'.entries, Readable e) ∧ (parts ≠ [] ∨ ps.entries ≠ [] → ps'.entries ≠ []) := by
  induction parts generalizing ps with
  | nil =>
      obtain rfl := Except.ok.inj h
      exact ⟨hps, fun h => h.elim (absurd rfl) id⟩
  | cons p parts ih =>
      rw [List.foldlM_cons] at h
      cases h1 : parseProperty input ps p with
      | error e =>
          rw [h1] at h
          cases h
      | ok ps1 =>
          rw [h1] at h
          obtain ⟨e, he, rfl⟩ := parseProperty_eq_ok (hc p List.mem_cons_self)
            (hb p List.mem_cons_self) h1
          have hmem : ∀ e' ∈ (ps.insert e.1 e.2).entries, Readable e' := by
            intro e' he'
            rcases Properties.mem_insertEntry he' with rfl | he'
            · exact he
            · exact hps e' he'
          obtain ⟨hall, hne⟩ := ih (fun q hq => hc q (List.mem_cons_of_mem p hq))
            (fun q hq => hb q (List.mem_cons_of_mem p hq)) hmem h
          refine ⟨hall, fun _ => hne (.inr ?_)⟩
          show Properties.insertEntry e.1 e.2 ps.entries ≠ []
          cases ps.entries with
          | nil => exact List.cons_ne_nil _ _
          | cons d ds =>
              rw [Properties.insertEntry]
              split
              · exact List.cons_ne_nil _ _
              · split <;> exact List.cons_ne_nil _ _

theorem parseProperties_eq_ok {input props : Text} {ps : Properties} (hb : '[' ∉ props)
    (h : parseProperties input props = .ok ps) :
    (∀ e ∈ ps.entries, Readable e) ∧ (ps.entries = [] ↔ props = []) := by
  rw [parseProperties] at h
  split at h
  · next hnil =>
    obtain rfl := Except.ok.inj h
    exact ⟨fun e he => absurd he List.not_mem_nil, iff_of_true rfl hnil⟩
  · next hne =>
    obtain ⟨hall, hnil⟩ := foldlM_parseProperty_readable
      (fun p hp => not_mem_of_mem_splitOn hp)
      (fun p hp hm => hb (mem_of_mem_splitOn hp hm))
      (fun e he => absurd he List.not_mem_nil) h
    exact ⟨hall, iff_of_false (hnil (.inl (List.splitOn_ne_nil _ _))) hne⟩

/-- The text before the properties, and between the brackets. -/
theorem splitProperties_trimmed {s main props : Text}
    (h : splitProperties s = .ok (main, props)) : Trimmed isSpace main ∧ '[' ∉ props := by
  rcases splitProperties_eq_ok h with ⟨rfl, rfl, -⟩ | ⟨m, p, -, hp, rfl, rfl⟩
  · exact ⟨trimmed_trim s, List.not_mem_nil⟩
  · exact ⟨trimmed_trim m, fun hm => hp (mem_of_mem_trim hm)⟩

theorem wellFormed_of_parse {s : Text} (h : parse s = .ok l) : WellFormed l := by
  obtain ⟨main, props, hs, hport, hprops, hhost, huser, hpwd, hid⟩ := parse_eq_ok.mp h
  have hb := (splitProperties_trimmed hs).2
  have hall := (parseProperties_eq_ok hb hprops).1
  exact {
    host := hhost ▸ trimmed_trim _
    host_colon := hhost ▸ fun hm => colon_splitMain main (by omega) (mem_of_mem_trim hm)
    port := parsePort_range hport
    userName := huser ▸ trimmed_trim _
    userName_colon := huser ▸ fun hm => colon_splitMain main (by omega) (mem_of_mem_trim hm)
    password_colon := hpwd ▸ colon_splitMain main (by omega)
    identifier := hid ▸ trimmed_trim _
    name := fun e he => (hall e he).name
    value := fun e he => (hall e he).value
    notReserved := fun e he => (hall e he).notReserved }

/-! ## A bracket at the end -/

theorem prefix_trim {t x : Text} (hx : Trimmed isSpace x) (h : t <+: x) : trim t <+: x := by
  have hd : t.dropWhile isSpace = t := by
    rw [List.dropWhile_eq_self_iff]
    intro hl
    have h0 : t.head? = some t[0] := by rw [List.head?_eq_getElem?, List.getElem?_eq_getElem hl]
    rw [hx.head _ (head_of_initial h h0)]
    simp
  have htrim : trim t = t.rdropWhile isSpace := congrArg (List.rdropWhile isSpace) hd
  rw [htrim]
  exact (List.rdropWhile_prefix isSpace t).trans h

/-- Less of the text has less of the identifier. -/
theorem identifier_of_prefix (hl : WellFormed l) {t : Text} (ht : t <+: mainText l)
    (hlen : t.length < (mainText l).length) (hne : l.identifier ≠ []) :
    trim ((splitMain t).getD 4 []) ≠ l.identifier := by
  rcases splitMain_cases t with ⟨hc, hs⟩ | ⟨a, b, c, d, r, ha, hb, hcc, hd, htr, hs⟩
  · -- there is no identifier any more
    have hlen5 : (t.splitOn ':').length < 5 := by
      rw [length_splitOn]
      omega
    rw [hs, List.getD_eq_getElem?_getD, List.getElem?_eq_none (by omega)]
    exact fun h => hne h.symm
  · obtain ⟨u, hu⟩ := ht
    have hmain := hl.splitMain_mainText
    rw [← hu, htr] at hmain
    simp only [List.append_assoc, List.cons_append] at hmain
    rw [splitMain_of_parts (r ++ u) ha hb hcc hd] at hmain
    simp only [List.cons.injEq, and_true] at hmain
    obtain ⟨-, -, -, -, hid⟩ := hmain
    have hu0 : 0 < u.length := by
      rw [← hu, List.length_append] at hlen
      omega
    rw [hs, ← hid]
    intro h
    have hle : (trim r).length ≤ r.length :=
      (List.rdropWhile_prefix isSpace _).length_le.trans (List.dropWhile_sublist isSpace).length_le
    have := congrArg List.length h
    rw [List.length_append] at this
    simp only [List.getD_cons_succ, List.getD_cons_zero] at this
    omega

theorem WellFormed.not_parse_of_bracket (hl : WellFormed l) (h : l.properties.entries = [])
    (hid : l.identifier.getLast? = some ']') : parse (toSerializationFormat l) ≠ .ok l := by
  rw [toSerializationFormat_nil h]
  intro hp
  obtain ⟨main, props, hs, -, -, -, -, -, hident⟩ := parse_eq_ok.mp hp
  have htrim := trim_of_trimmed hl.trimmed_mainText
  rcases splitProperties_eq_ok hs with ⟨-, -, hlast⟩ | ⟨m, p, hm, -, rfl, -⟩
  · rw [htrim, getLast?_mainText, hid] at hlast
    exact hlast rfl
  · rw [htrim] at hm
    have hprefix : m <+: mainText l := ⟨_, hm.symm⟩
    refine identifier_of_prefix hl (prefix_trim hl.trimmed_mainText hprefix) ?_ ?_ hident.symm
    · have h1 : (trim m).length ≤ m.length :=
        (List.rdropWhile_prefix isSpace _).length_le.trans
          (List.dropWhile_sublist isSpace).length_le
      rw [hm, List.length_append, List.length_cons]
      omega
    · intro hnil
      rw [hnil] at hid
      cases hid

/-! ## The texts that do not come back -/

/--
The text ends with brackets that have nothing between them, and what is before these ends with a
bracket that belongs to the identifier.
-/
def EndsWithTwoBrackets (s : Text) : Prop :=
  ∃ m p, trim s = m ++ '[' :: (p ++ [']']) ∧ (∀ c ∈ p, isSpace c = true) ∧
    (trim m).getLast? = some ']' ∧ 4 ≤ (trim m).count ':'

theorem trim_eq_nil_iff {t : Text} : trim t = [] ↔ ∀ c ∈ t, isSpace c = true := by
  have h : trim t = (t.dropWhile isSpace).rdropWhile isSpace := rfl
  rw [h, List.rdropWhile_eq_nil_iff]
  constructor
  · intro hall
    have hnil : t.dropWhile isSpace = [] := by
      by_contra hne
      obtain ⟨c, u, hcu⟩ := List.exists_cons_of_ne_nil hne
      have hnot := List.head?_dropWhile_not isSpace t
      have hc := hall c (hcu ▸ List.mem_cons_self)
      rw [hcu, List.head?_cons] at hnot
      rw [show isSpace c = false from hnot] at hc
      cases hc
    exact List.dropWhile_eq_nil_iff.mp hnil
  · intro hall c hc
    exact hall c ((List.dropWhile_sublist isSpace).subset hc)

/-- The last character of a text that has a fifth part is that part's last one. -/
theorem getLast?_identifier {main : Text} (hm : Trimmed isSpace main) :
    (trim ((splitMain main).getD 4 [])).getLast? = some ']' ↔
      main.getLast? = some ']' ∧ 4 ≤ main.count ':' := by
  rcases splitMain_cases main with ⟨hc, hs⟩ | ⟨a, b, c, d, r, ha, hb, hcc, hd, htr, hs⟩
  · have hlen5 : (main.splitOn ':').length < 5 := by
      rw [length_splitOn]
      omega
    rw [hs, List.getD_eq_getElem?_getD, List.getElem?_eq_none (by omega)]
    refine iff_of_false (by simp [trim]) fun h => by omega
  · have hcount : 4 ≤ main.count ':' := by
      rw [htr]
      simp only [List.count_append, List.count_cons_self]
      omega
    have hmain : main.getLast? = some (r.getLast?.getD ':') := by
      rw [htr]
      simp only [getLast?_append_cons, Option.getD_some]
    have hr : ∀ e, r.getLast? = some e → isSpace e = false := by
      intro e he
      exact hm.last e (by rw [hmain, he, Option.getD_some])
    have hlast : (trim r).getLast? = r.getLast? := getLast?_trim hr
    rw [hs]
    simp only [List.getD_cons_succ, List.getD_cons_zero]
    rw [hlast, hmain, and_iff_left hcount]
    cases r.getLast? with
    | none => decide
    | some e => simp

theorem endsWithTwoBrackets_iff {s : Text} (h : parse s = .ok l) :
    EndsWithTwoBrackets s ↔ l.properties.entries = [] ∧ l.identifier.getLast? = some ']' := by
  obtain ⟨main, props, hs, -, hprops, -, -, -, hid⟩ := parse_eq_ok.mp h
  obtain ⟨hm, hb⟩ := splitProperties_trimmed hs
  rw [(parseProperties_eq_ok hb hprops).2, hid, getLast?_identifier hm]
  rcases splitProperties_eq_ok hs with ⟨rfl, rfl, hlast⟩ | ⟨m, p, htrim, hp, rfl, rfl⟩
  · refine iff_of_false ?_ fun h => hlast h.2.1
    intro h
    obtain ⟨m, p, htrim, -⟩ := h
    refine hlast ?_
    rw [htrim, ← List.cons_append, ← List.append_assoc]
    exact List.getLast?_concat
  · rw [trim_eq_nil_iff]
    constructor
    · intro h
      obtain ⟨m', p', htrim', hp', hlast, hcount⟩ := h
      have hbr : '[' ∉ p' ++ [']'] := by
        intro hm
        rcases List.mem_append.mp hm with hm | hm
        · have := hp' _ hm
          revert this
          decide
        · revert hm
          decide
      have hinj := append_cons_inj_of_not_mem hbr (by simp [hp]) (htrim'.symm.trans htrim)
      obtain ⟨rfl, hpp⟩ := hinj
      obtain rfl := List.append_cancel_right hpp
      exact ⟨hp', hlast, hcount⟩
    · intro h
      exact ⟨m, p, htrim, h.1, h.2⟩

/--
**There and back.** A locator that was read from a text is written down, by itself or in CBOR, so
that it reads back the same, if and only if the text did not end with an empty pair of brackets
after a bracket of the identifier.
-/
theorem roundTrips_iff_brackets (s : Text) (l : Locator) (h : parse s = .ok l) :
    RoundTrips l ↔ ¬ EndsWithTwoBrackets s := by
  have hl := wellFormed_of_parse h
  rw [roundTrips_iff, endsWithTwoBrackets_iff h]
  constructor
  · intro hok h2
    exact hl.not_parse_of_bracket h2.1 h2.2 hok
  · intro h2
    by_cases hp : l.properties.entries = []
    · exact hl.parse_of_identifier hp fun hid => h2 ⟨hp, hid⟩
    · exact hl.parse_of_properties hp

/-! ## A locator that comes back, and one that does not -/

theorem roundTrips_server : ∃ l, parse "h:1:u:p:i[b=2,a=1]".toList = .ok l ∧ RoundTrips l := by
  have hp : parse "h:1:u:p:i[b=2,a=1]".toList = .ok ⟨['h'], 1, ['u'], ['p'], ['i'],
      ⟨[(['a'], ['1']), (['b'], ['2'])], by decide⟩⟩ := by decide +kernel
  refine ⟨_, hp, (roundTrips_iff_brackets _ _ hp).mpr fun h => ?_⟩
  have hnil := ((endsWithTwoBrackets_iff hp).mp h).1
  cases hnil

/-- The identifier is `x]`, and the bracket is taken for the end of properties. -/
theorem not_roundTrips_bracket :
    ∃ l, parse "h:1:u:p:x][]".toList = .ok l ∧ ¬ RoundTrips l := by
  refine ⟨⟨['h'], 1, ['u'], ['p'], ['x', ']'], .empty⟩, by decide +kernel, fun h => ?_⟩
  have := h.format
  revert this
  decide +kernel

end ConnectionLocator
