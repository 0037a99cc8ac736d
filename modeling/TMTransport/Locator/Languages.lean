import Mathlib.Data.List.Nodup
import TMTransport.Locator.Serialization

/-!
# Locators in the other languages

The C# constructor, `parseConnectionLocator` in TypeScript and the Python
constructor read the text that `toSerializationFormat` writes. They look for the
first bracket, not for the last one, and take what is between the fourth colon and
the next one for the identifier. The Python constructor puts the properties into
the dictionary of its class, which all locators share.
-/

namespace ConnectionLocator

open Splitting

namespace Properties

/-- What a dictionary does when a name is assigned to. -/
def assign (p : Properties) (name value : Text) : Properties :=
  if (p.find name).isSome then
    ⟨p.entries.map fun e => if e.1 = name then (e.1, value) else e, by
      have h : ∀ e : Text × Text, (if e.1 = name then (e.1, value) else e).1 = e.1 := by
        intro e
        split <;> rfl
      simpa only [List.pairwise_map, h] using p.sorted⟩
  else p.insert name value

end Properties

/-! ## The constructors -/

/-- What stands before the first bracket, and the rest. -/
def splitAtFirst (s : Text) : Text × Text := (s.takeWhile (· ≠ '['), s.dropWhile (· ≠ '['))

/-- The definitions between the brackets that have one equals sign. -/
def definitions (propertyPortion : Text) : List (Text × Text) :=
  if 2 < propertyPortion.length ∧ propertyPortion.getLast? = some ']' then
    ((propertyPortion.drop 1).dropLast.splitOn ',').filterMap fun p =>
      match p.splitOn '=' with
      | [name, value] => some (name, value)
      | _ => none
  else []

/--
The three constructors. They differ in how they store a property, where they begin, and how they
read a number. There is no locator if the number is not one.
-/
def read (assign : Properties → Text → Text → Properties) (number : Text → Option Int)
    (properties : Properties) (locatorStr : Text) : Properties × Option Locator :=
  let (mainPortion, propertyPortion) := splitAtFirst locatorStr
  let mainParts := mainPortion.splitOn ':'
  let properties := (definitions propertyPortion).foldl (fun ps d => assign ps d.1 d.2) properties
  let port := if 2 ≤ mainParts.length ∧ mainParts.getD 1 [] ≠ [] then number (mainParts.getD 1 [])
    else some 0
  (properties, port.map fun port => {
    host := mainParts.getD 0 []
    port := port
    userName := mainParts.getD 2 []
    password := mainParts.getD 3 []
    identifier := mainParts.getD 4 []
    properties := properties })

namespace DotNet

/-- `int.Parse`: there may be blanks around the number. -/
def intParse (t : Text) : Option Int := lexicalCastInt (trim t)

/-- `new ConnectionLocator(locatorStr)` -/
def connectionLocator (locatorStr : Text) : Option Locator :=
  (read Properties.assign intParse .empty locatorStr).2

end DotNet

namespace TypeScript

/-- `parseInt`, for decimal numbers: what follows the digits is ignored. -/
def parseInt (t : Text) : Option Int :=
  match t.dropWhile isSpace with
  | '-' :: ds => (digitsToNat (ds.takeWhile Char.isDigit)).map fun n => -(n : Int)
  | '+' :: ds => (digitsToNat (ds.takeWhile Char.isDigit)).map Int.ofNat
  | ds => (digitsToNat (ds.takeWhile Char.isDigit)).map Int.ofNat

/-- `properties[name] = value`: with a string, `__proto__` is not assigned to. -/
def assign (p : Properties) (name value : Text) : Properties :=
  if name = "__proto__".toList then p else p.assign name value

/-- `parseConnectionLocator` -/
def parseConnectionLocator (locatorStr : Text) : Option Locator :=
  (read assign parseInt .empty locatorStr).2

end TypeScript

namespace Python

/-- There may be an underscore between two digits. -/
def digits (ds : Text) : Option Nat :=
  if (ds.splitOn '_').all (· ≠ []) then digitsToNat (ds.filter (· ≠ '_')) else none

/-- `int`: there may be blanks around the number. -/
def int (t : Text) : Option Int :=
  match trim t with
  | '-' :: ds => (digits ds).map fun n => -(n : Int)
  | '+' :: ds => (digits ds).map Int.ofNat
  | ds => (digits ds).map Int.ofNat

/-- `ConnectionLocator(description)`. It begins with what the class has, and that is what it
changes. -/
def connectionLocator (shared : Properties) (description : Text) : Properties × Option Locator :=
  read Properties.assign int shared description

/-- `ConnectionLocator.properties`, after the constructor has been called for each of these. -/
def sharedAfter (history : List Text) : Properties :=
  history.foldl (fun shared d => (connectionLocator shared d).1) .empty

end Python

/-! ## Agreement -/

/-- What is written of `l` is `l` to each language. -/
structure SameEverywhere (history : List Text) (l : Locator) : Prop where
  dotNet : DotNet.connectionLocator (toSerializationFormat l) = some l
  typeScript : TypeScript.parseConnectionLocator (toSerializationFormat l) = some l
  python : (Python.connectionLocator (Python.sharedAfter history) (toSerializationFormat l)).2 =
    some l

/-- What comes before the properties. -/
def mainPart (s : Text) : Text :=
  if (trim s).getLast? = some ']' then ((splitAtLast '[' (trim s)).map Prod.fst).getD [] else trim s

def propertyPart (s : Text) : Text :=
  if (trim s).getLast? = some ']' then
    trim (((splitAtLast '[' (trim s)).map fun x => x.2.dropLast).getD [])
  else []

def propertyName (p : Text) : Text := trim ((p.splitOn '=').headD [])

def propertyNames (s : Text) : List Text :=
  if propertyPart s = [] then [] else ((propertyPart s).splitOn ',').map propertyName

/-- The names that the Python constructor assigns to. -/
def assignedNames (description : Text) : List Text :=
  (definitions (splitAtFirst description).2).map Prod.fst

/-- A locator that all languages read alike. -/
structure Plain (history : List Text) (s : Text) : Prop where
  bracket : '[' ∉ mainPart s
  /-- There is no colon in the identifier. -/
  colons : (mainPart s).count ':' ≤ 4
  proto : "__proto__".toList ∉ propertyNames s
  /-- What the class has got from other locators is assigned to again. -/
  shared : ∀ d ∈ history, ∀ name ∈ assignedNames d, name ∈ propertyNames s

/-! ## Properties as maps -/

namespace Properties

variable {p q : Properties} {name value : Text} {e : Text × Text} {es : List (Text × Text)}

def names (p : Properties) : List Text := p.entries.map Prod.fst

theorem mem_names : name ∈ p.names ↔ ∃ value, (name, value) ∈ p.entries := by
  simp [names]

theorem nodup_names (p : Properties) : p.names.Nodup := by
  rw [names, List.nodup_iff_pairwise_ne, List.pairwise_map]
  exact p.sorted.imp fun h => ne_of_lt h

/-- The order of the entries is no matter of choice. -/
theorem ext_mem (h : ∀ e, e ∈ p.entries ↔ e ∈ q.entries) : p = q := by
  have hperm : p.entries.Perm q.entries :=
    (List.perm_ext_iff_of_nodup (p.nodup_names.of_map _) (q.nodup_names.of_map _)).mpr h
  have hanti : ∀ a b : Text × Text, a ∈ p.entries → b ∈ q.entries → a.1 < b.1 → b.1 < a.1 →
      a = b := fun a b _ _ hab hba => absurd (lt_trans hab hba) (lt_irrefl _)
  exact Properties.ext (hperm.eq_of_pairwise hanti p.sorted q.sorted)

theorem isSome_find : (p.find name).isSome ↔ name ∈ p.names := by
  rw [← not_iff_not, Option.not_isSome_iff_eq_none, find, List.lookup_eq_none_iff, names]
  simp only [List.mem_map, not_exists, not_and]
  exact ⟨fun h e he hn => by simpa [hn] using h e he, fun h e he => by simpa using Ne.symm (h e he)⟩

theorem mem_insertEntry_iff (h : ∀ v, (name, v) ∉ es) :
    e ∈ insertEntry name value es ↔ e = (name, value) ∨ e ∈ es := by
  refine ⟨mem_insertEntry, fun he => ?_⟩
  induction es with
  | nil => simpa [insertEntry] using he
  | cons d es ih =>
      have hne : name ≠ d.1 := fun hd => h d.2 (hd ▸ List.mem_cons_self)
      rw [insertEntry, if_neg hne]
      split
      · exact List.mem_cons.mpr he
      · rw [List.mem_cons] at he ⊢
        rcases he with he | he | he
        · exact .inr (ih (fun v hv => h v (List.mem_cons_of_mem d hv)) (.inl he))
        · exact .inl he
        · exact .inr (ih (fun v hv => h v (List.mem_cons_of_mem d hv)) (.inr he))

/-- An assignment changes the one name. -/
theorem mem_assign : e ∈ (p.assign name value).entries ↔
    e = (name, value) ∨ (e ∈ p.entries ∧ e.1 ≠ name) := by
  by_cases hf : (p.find name).isSome
  · obtain ⟨w, hw⟩ := mem_names.mp (isSome_find.mp hf)
    have hent : (p.assign name value).entries =
        p.entries.map fun e => if e.1 = name then (e.1, value) else e := by
      rw [assign, if_pos hf]
    rw [hent, List.mem_map]
    constructor
    · intro h
      obtain ⟨d, hd, rfl⟩ := h
      by_cases hn : d.1 = name
      · rw [if_pos hn, hn]
        exact .inl rfl
      · rw [if_neg hn]
        exact .inr ⟨hd, hn⟩
    · intro h
      rcases h with rfl | ⟨he, hn⟩
      · exact ⟨(name, w), hw, if_pos rfl⟩
      · exact ⟨e, he, if_neg hn⟩
  · have hno : ∀ v, (name, v) ∉ p.entries := fun v hv =>
      hf (isSome_find.mpr (mem_names.mpr ⟨v, hv⟩))
    rw [assign, if_neg hf]
    refine (mem_insertEntry_iff hno).trans (or_congr_right ?_)
    exact ⟨fun he => ⟨he, fun hn => hno e.2 (hn ▸ he)⟩, And.left⟩

theorem mem_names_assign {n : Text} : n ∈ (p.assign name value).names ↔ n = name ∨ n ∈ p.names := by
  simp only [mem_names, mem_assign, Prod.mk.injEq]
  constructor
  · intro h
    obtain ⟨v, ⟨rfl, -⟩ | ⟨hv, -⟩⟩ := h
    · exact .inl rfl
    · exact .inr ⟨v, hv⟩
  · intro h
    by_cases hn : n = name
    · exact ⟨value, .inl ⟨hn, rfl⟩⟩
    · obtain ⟨v, hv⟩ := h.resolve_left hn
      exact ⟨v, .inr ⟨hv, hn⟩⟩

/-- Assign one after the other. -/
def assignAll (p : Properties) (ds : List (Text × Text)) : Properties :=
  ds.foldl (fun ps d => ps.assign d.1 d.2) p

theorem mem_names_assignAll {ds : List (Text × Text)} {n : Text} :
    n ∈ (p.assignAll ds).names ↔ n ∈ ds.map Prod.fst ∨ n ∈ p.names := by
  induction ds generalizing p with
  | nil => simp [assignAll]
  | cons d ds ih =>
      have h : p.assignAll (d :: ds) = (p.assign d.1 d.2).assignAll ds := rfl
      rw [h, ih, mem_names_assign, List.map_cons, List.mem_cons]
      tauto

theorem mem_assignAll {ds : List (Text × Text)} (hd : (ds.map Prod.fst).Nodup) :
    e ∈ (p.assignAll ds).entries ↔ e ∈ ds ∨ (e ∈ p.entries ∧ e.1 ∉ ds.map Prod.fst) := by
  induction ds generalizing p with
  | nil => simp [assignAll]
  | cons d ds ih =>
      have h : p.assignAll (d :: ds) = (p.assign d.1 d.2).assignAll ds := rfl
      obtain ⟨hd1, hd2⟩ := List.nodup_cons.mp hd
      rw [h, ih hd2, mem_assign, List.mem_cons, List.map_cons, List.mem_cons, not_or]
      constructor
      · rintro (he | ⟨rfl | ⟨he, hn⟩, hds⟩)
        · exact .inl (.inr he)
        · exact .inl (.inl rfl)
        · exact .inr ⟨he, hn, hds⟩
      · rintro ((rfl | he) | ⟨he, hn, hds⟩)
        · exact .inr ⟨.inl rfl, hd1⟩
        · exact .inl he
        · exact .inr ⟨.inr ⟨he, hn⟩, hds⟩

/-- All entries of one map go over those of another. -/
theorem assignAll_entries (h : ∀ n ∈ p.names, n ∈ q.names) : p.assignAll q.entries = q := by
  refine ext_mem fun e => (mem_assignAll q.nodup_names).trans ?_
  refine or_iff_left fun he => he.2 (h e.1 ?_)
  exact mem_names.mpr ⟨e.2, he.1⟩

end Properties

/-! ## Numbers -/

theorem takeWhile_toDigits (n : Nat) :
    (Nat.toDigits 10 n).takeWhile Char.isDigit = Nat.toDigits 10 n :=
  List.takeWhile_eq_self_iff.mpr fun _ hc =>
    Nat.isDigit_of_mem_toDigits (by omega) (by omega) hc

theorem DotNet.intParse_intText {n : Int} (hn : -2147483648 ≤ n ∧ n ≤ 2147483647) :
    intParse (intText n) = some n := by
  rw [intParse, trim_of_trimmed (trimmed_intText n), lexicalCastInt_intText hn]

theorem TypeScript.parseInt_intText (n : Int) : parseInt (intText n) = some n := by
  have hd : (intText n).dropWhile isSpace = intText n := by
    rw [List.dropWhile_eq_self_iff]
    intro hl
    rw [not_space_of_mem_intText (List.getElem_mem hl)]
    simp
  rw [parseInt, hd]
  rcases intText_cases n with ⟨m, rfl, h, hm, hp⟩ | ⟨m, rfl, h⟩
  · rw [h]
    split
    · next ds hds => exact absurd hds (hm ds)
    · next ds hds => exact absurd hds (hp ds)
    · rw [takeWhile_toDigits, digitsToNat_toDigits]
      rfl
  · rw [h]
    simp only [takeWhile_toDigits, digitsToNat_toDigits]
    rfl

theorem Python.digits_toDigits (n : Nat) : digits (Nat.toDigits 10 n) = some n := by
  have hu : '_' ∉ Nat.toDigits 10 n := not_mem_toDigits (by decide) n
  have hf : (Nat.toDigits 10 n).filter (· ≠ '_') = Nat.toDigits 10 n := by
    rw [List.filter_eq_self]
    intro c hc
    rw [decide_eq_true_eq]
    exact fun he => hu (he ▸ hc)
  rw [digits, List.splitOn_eq_singleton hu, hf, digitsToNat_toDigits]
  simp [Nat.toDigits_ne_nil]

theorem Python.int_intText (n : Int) : int (intText n) = some n := by
  rw [int, trim_of_trimmed (trimmed_intText n)]
  rcases intText_cases n with ⟨m, rfl, h, hm, hp⟩ | ⟨m, rfl, h⟩
  · rw [h]
    split
    · next ds hds => exact absurd hds (hm ds)
    · next ds hds => exact absurd hds (hp ds)
    · rw [digits_toDigits]
      rfl
  · rw [h]
    simp only [digits_toDigits]
    rfl

/-! ## What the text says of the locator -/

variable {l : Locator} {s : Text} {history : List Text}

theorem parts_of_split {main props : Text} (h : splitProperties s = .ok (main, props)) :
    main = trim (mainPart s) ∧ props = propertyPart s := by
  rcases splitProperties_eq_ok h with ⟨rfl, rfl, hlast⟩ | ⟨m, p, hs, hp, rfl, rfl⟩
  · rw [mainPart, propertyPart, if_neg hlast, if_neg hlast]
    exact ⟨(trim_of_trimmed (trimmed_trim s)).symm, rfl⟩
  · have hlast : (trim s).getLast? = some ']' := by
      rw [hs, ← List.cons_append, ← List.append_assoc]
      exact List.getLast?_concat
    have hat : splitAtLast '[' (trim s) = some (m, p ++ [']']) := by
      rw [hs]
      exact splitAtLast_append m (by simp [hp])
    rw [mainPart, propertyPart, if_pos hlast, if_pos hlast, hat]
    simp

theorem getD_cons_cases {p : Text} {ps : List Text} {n : Nat} (h : p ∈ ps) (hn : ps.length ≤ n) :
    ∃ i < n, ps.getD i [] = p := by
  obtain ⟨i, hi, rfl⟩ := List.getElem_of_mem h
  exact ⟨i, by omega, by rw [List.getD_eq_getElem?_getD, List.getElem?_eq_getElem hi]; rfl⟩

/-- What is not a colon is in one of the five parts. -/
theorem mem_splitMain_iff {t : Text} {c : Char} (hc : c ≠ ':') :
    c ∈ t ↔ ∃ i < 5, c ∈ (splitMain t).getD i [] := by
  rcases splitMain_cases t with ⟨hcount, hs⟩ | ⟨a, b, d, e, r, -, -, -, -, rfl, hs⟩
  · rw [hs]
    constructor
    · intro h
      obtain ⟨p, hp, hcp⟩ := exists_mem_splitOn h hc
      obtain ⟨i, hi, rfl⟩ := getD_cons_cases hp (n := 5) (by rw [length_splitOn]; omega)
      exact ⟨i, hi, hcp⟩
    · intro h
      obtain ⟨i, -, hci⟩ := h
      rw [List.getD_eq_getElem?_getD] at hci
      cases hp : (t.splitOn ':')[i]? with
      | none => simp [hp] at hci
      | some p =>
          rw [hp, Option.getD_some] at hci
          exact mem_of_mem_splitOn (List.mem_of_getElem? hp) hci
  · rw [hs]
    simp only [List.mem_append, List.mem_cons, hc, false_or]
    constructor
    · rintro (h | h | h | h | h)
      · exact ⟨0, by omega, h⟩
      · exact ⟨1, by omega, h⟩
      · exact ⟨2, by omega, h⟩
      · exact ⟨3, by omega, h⟩
      · exact ⟨4, by omega, h⟩
    · intro h
      obtain ⟨i, hi, h⟩ := h
      match i, hi with
      | 0, _ => exact .inl h
      | 1, _ => exact .inr (.inl h)
      | 2, _ => exact .inr (.inr (.inl h))
      | 3, _ => exact .inr (.inr (.inr (.inl h)))
      | 4, _ => exact .inr (.inr (.inr (.inr h)))

theorem mem_trim_iff {t : Text} {c : Char} (hc : isSpace c = false) : c ∈ trim t ↔ c ∈ t :=
  Splitting.mem_trim_iff hc

theorem bracket_not_mem_lexicalCastInt {t : Text} {n : Int} (h : lexicalCastInt t = some n) :
    '[' ∉ t := by
  have hd {ds : Text} {m : Nat} (h : digitsToNat ds = some m) : '[' ∉ ds := by
    rw [digitsToNat] at h
    split at h
    · cases h
    · next hall =>
      simp only [not_or, Decidable.not_not] at hall
      intro hm
      have := List.all_eq_true.mp hall.2 _ hm
      revert this
      decide
  rw [lexicalCastInt.eq_def] at h
  split at h
  all_goals
    obtain ⟨m, hm, -⟩ := Option.bind_eq_some_iff.mp h
  · exact List.not_mem_cons_of_ne_of_not_mem (by decide) (hd hm)
  · exact List.not_mem_cons_of_ne_of_not_mem (by decide) (hd hm)
  · exact hd hm

theorem bracket_not_mem_port {input part : Text} {n : Int} (h : parsePort input part = .ok n) :
    '[' ∉ part := by
  rw [← mem_trim_iff (by decide)]
  simp only [parsePort] at h
  split at h
  · next hnil =>
    rw [hnil]
    exact List.not_mem_nil
  · split at h
    · next hc => exact bracket_not_mem_lexicalCastInt hc
    · cases h

/-- No bracket stands in any of the parts. -/
def NoBracket (l : Locator) : Prop :=
  '[' ∉ l.host ∧ '[' ∉ l.userName ∧ '[' ∉ l.password ∧ '[' ∉ l.identifier

theorem bracket_mainPart (h : parse s = .ok l) : '[' ∉ mainPart s ↔ NoBracket l := by
  obtain ⟨main, props, hs, hport, -, hhost, huser, hpwd, hid⟩ := parse_eq_ok.mp h
  have hno := bracket_not_mem_port hport
  have hb : isSpace '[' = false := by decide
  rw [← mem_trim_iff hb, ← (parts_of_split hs).1, mem_splitMain_iff (by decide), NoBracket, hhost,
    huser, hpwd, hid, mem_trim_iff hb, mem_trim_iff hb, mem_trim_iff hb]
  constructor
  · intro h
    exact ⟨fun hm => h ⟨0, by omega, hm⟩, fun hm => h ⟨2, by omega, hm⟩,
      fun hm => h ⟨3, by omega, hm⟩, fun hm => h ⟨4, by omega, hm⟩⟩
  · intro h hm
    obtain ⟨i, hi, hm⟩ := hm
    match i, hi with
    | 0, _ => exact h.1 hm
    | 1, _ => exact hno hm
    | 2, _ => exact h.2.1 hm
    | 3, _ => exact h.2.2.1 hm
    | 4, _ => exact h.2.2.2 hm

theorem count_trim {t : Text} {c : Char} (hc : isSpace c = false) : (trim t).count c = t.count c :=
  Splitting.count_trim hc

theorem colons_mainPart (h : parse s = .ok l) :
    (mainPart s).count ':' ≤ 4 ↔ ':' ∉ l.identifier := by
  obtain ⟨main, props, hs, -, -, -, -, -, hid⟩ := parse_eq_ok.mp h
  rw [← count_trim (by decide), ← (parts_of_split hs).1, hid, mem_trim_iff (by decide)]
  rcases splitMain_cases main with ⟨hc, hsm⟩ | ⟨a, b, c, d, r, ha, hb, hcc, hd, htr, hsm⟩
  · have hlen5 : (main.splitOn ':').length < 5 := by
      rw [length_splitOn]
      omega
    rw [hsm, List.getD_eq_getElem?_getD, List.getElem?_eq_none (by omega)]
    exact iff_of_true (by omega) List.not_mem_nil
  · have hcount : main.count ':' = 4 + r.count ':' := by
      rw [htr]
      simp only [List.count_append, List.count_cons_self, List.count_eq_zero_of_not_mem ha,
        List.count_eq_zero_of_not_mem hb, List.count_eq_zero_of_not_mem hcc,
        List.count_eq_zero_of_not_mem hd]
      omega
    rw [hcount, hsm, ← List.count_eq_zero (a := ':')]
    simp only [List.getD_cons_succ, List.getD_cons_zero]
    omega

theorem parseProperty_names {input p : Text} {ps ps' : Properties} {n : Text}
    (h : parseProperty input ps p = .ok ps') :
    n ∈ ps'.names ↔ n = propertyName p ∨ n ∈ ps.names := by
  simp only [parseProperty] at h
  split at h
  · cases h
  · split at h
    · cases h
    · split at h
      · cases h
      · next hf =>
        have hins : ∀ v, ps.insert (propertyName p) v = ps.assign (propertyName p) v := by
          intro v
          rw [Properties.assign, if_neg (show ¬ (ps.find (propertyName p)).isSome from hf)]
        obtain rfl := Except.ok.inj h
        rw [← Properties.mem_names_assign, ← hins]
        rfl

theorem foldlM_parseProperty_names {input : Text} {parts : List Text} {ps ps' : Properties}
    {n : Text}
    (h : parts.foldlM (parseProperty input) ps = .ok ps') :
    n ∈ ps'.names ↔ n ∈ parts.map propertyName ∨ n ∈ ps.names := by
  induction parts generalizing ps with
  | nil =>
      obtain rfl := Except.ok.inj h
      simp
  | cons p parts ih =>
      rw [List.foldlM_cons] at h
      cases h1 : parseProperty input ps p with
      | error e =>
          rw [h1] at h
          cases h
      | ok ps1 =>
          rw [h1] at h
          rw [ih h, parseProperty_names h1, List.map_cons, List.mem_cons]
          tauto

theorem mem_propertyNames (h : parse s = .ok l) {n : Text} :
    n ∈ propertyNames s ↔ n ∈ l.properties.names := by
  obtain ⟨main, props, hs, -, hprops, -⟩ := parse_eq_ok.mp h
  rw [propertyNames, ← (parts_of_split hs).2]
  rw [parseProperties] at hprops
  split at hprops
  · next hnil =>
    rw [if_pos hnil, ← Except.ok.inj hprops]
    exact iff_of_false List.not_mem_nil List.not_mem_nil
  · next hne =>
    rw [if_neg hne, foldlM_parseProperty_names hprops]
    exact (or_iff_left List.not_mem_nil).symm

/-! ## What the constructors make of a locator that is written -/

theorem splitAtFirst_nil {m : Text} (hm : '[' ∉ m) : splitAtFirst m = (m, []) := by
  have hall : ∀ c ∈ m, (decide (c ≠ '[')) = true := by
    intro c hc
    rw [decide_eq_true_eq]
    exact fun he => hm (he ▸ hc)
  rw [splitAtFirst, List.takeWhile_eq_self_iff.mpr hall, List.dropWhile_eq_nil_iff.mpr hall]

theorem splitAtFirst_cons {m : Text} (p : Text) (hm : '[' ∉ m) :
    splitAtFirst (m ++ '[' :: p) = (m, '[' :: p) := by
  have hall : ∀ c ∈ m, (decide (c ≠ '[')) = true := by
    intro c hc
    rw [decide_eq_true_eq]
    exact fun he => hm (he ▸ hc)
  rw [splitAtFirst, List.takeWhile_append_of_pos hall, List.dropWhile_append_of_pos hall]
  simp

theorem bracket_mainText (hl : NoBracket l) : '[' ∉ mainText l := by
  have hp : '[' ∉ intText l.port := not_mem_intText (by decide) (by decide) l.port
  simp [mainText, hl.1, hp, hl.2.1, hl.2.2.1, hl.2.2.2]

theorem definitions_writeProperties (hl : WellFormed l) (hne : l.properties.entries ≠ []) :
    definitions ('[' :: (writeProperties true l.properties.entries ++ [']'])) =
      l.properties.entries := by
  have hcomma : ∀ t ∈ l.properties.entries.map propertyText, ',' ∉ t := by
    intro t ht
    obtain ⟨e, he, rfl⟩ := List.mem_map.mp ht
    simp [propertyText, (hl.name e he).comma, (hl.value e he).comma]
  have hs := List.splitOn_intercalate ',' hcomma (by simpa using hne)
  have hlen : 2 < ('[' :: (writeProperties true l.properties.entries ++ [']'])).length := by
    obtain ⟨e, es, hes⟩ := List.exists_cons_of_ne_nil hne
    rw [hes, writeProperties_cons]
    simp only [List.length_append, List.length_cons]
    omega
  have hlast : ('[' :: (writeProperties true l.properties.entries ++ [']'])).getLast? =
    some ']' := by
    rw [← List.cons_append]
    exact List.getLast?_concat
  rw [definitions, if_pos ⟨hlen, hlast⟩, List.drop_one, List.tail_cons, List.dropLast_concat,
    writeProperties_eq, hs, List.filterMap_map]
  refine (List.filterMap_congr fun e he => ?_).trans List.filterMap_some
  show (match (propertyText e).splitOn '=' with
    | [name, value] => some (name, value)
    | _ => none) = some e
  rw [propertyText, List.splitOn_append_cons_self_of_not_mem (hl.name e he).equals,
    List.splitOn_eq_singleton (hl.value e he).equals]

theorem splitAtFirst_format (hl : WellFormed l) (hb : NoBracket l) :
    (splitAtFirst (toSerializationFormat l)).1 = mainText l ∧
      definitions (splitAtFirst (toSerializationFormat l)).2 = l.properties.entries := by
  have hm := bracket_mainText hb
  by_cases hne : l.properties.entries = []
  · rw [toSerializationFormat_nil hne, splitAtFirst_nil hm, hne]
    exact ⟨rfl, rfl⟩
  · rw [toSerializationFormat_cons hne, splitAtFirst_cons _ hm]
    exact ⟨rfl, definitions_writeProperties hl hne⟩

variable {put : Properties → Text → Text → Properties} {number : Text → Option Int}
  {ps : Properties}

/-- Without a bracket or a colon in the way each part is read where it was written. -/
theorem read_format (hl : WellFormed l) (hb : NoBracket l) (hc : ':' ∉ l.identifier)
    (hn : number (intText l.port) = some l.port)
    (hp : l.properties.entries.foldl (fun ps d => put ps d.1 d.2) ps = l.properties) :
    (read put number ps (toSerializationFormat l)).2 = some l := by
  obtain ⟨hmain, hdefs⟩ := splitAtFirst_format hl hb
  have hparts : (mainText l).splitOn ':' =
      [l.host, intText l.port, l.userName, l.password, l.identifier] := by
    rw [mainText, List.splitOn_append_cons_self_of_not_mem hl.host_colon,
      List.splitOn_append_cons_self_of_not_mem (colon_intText l.port),
      List.splitOn_append_cons_self_of_not_mem hl.userName_colon,
      List.splitOn_append_cons_self_of_not_mem hl.password_colon, List.splitOn_eq_singleton hc]
  simp only [read, hmain, hdefs, hparts, hp]
  simp [intText_ne_nil, hn]

/-- What any of the constructors makes has no bracket, and no colon in the identifier. -/
theorem read_eq_some {t : Text} (h : (read put number ps t).2 = some l) :
    NoBracket l ∧ ':' ∉ l.identifier ∧
      l.properties = (definitions (splitAtFirst t).2).foldl (fun ps d => put ps d.1 d.2) ps := by
  have hfirst : '[' ∉ (splitAtFirst t).1 := by
    intro hm
    have := List.mem_takeWhile_imp hm
    revert this
    decide
  have hpart (i : Nat) {c : Char} (hc : c ∉ (splitAtFirst t).1 ∨ c = ':') :
      c ∉ ((splitAtFirst t).1.splitOn ':').getD i [] := by
    intro hm
    rw [List.getD_eq_getElem?_getD] at hm
    cases hp : ((splitAtFirst t).1.splitOn ':')[i]? with
    | none => simp [hp] at hm
    | some p =>
        rw [hp, Option.getD_some] at hm
        have hp := List.mem_of_getElem? hp
        rcases hc with hc | rfl
        · exact hc (mem_of_mem_splitOn hp hm)
        · exact not_mem_of_mem_splitOn hp hm
  obtain ⟨port, -, rfl⟩ := Option.map_eq_some_iff.mp h
  exact ⟨⟨hpart 0 (.inl hfirst), hpart 2 (.inl hfirst), hpart 3 (.inl hfirst),
    hpart 4 (.inl hfirst)⟩, hpart 4 (.inr rfl), rfl⟩

/-! ## Each language's properties -/

theorem TypeScript.foldl_assign {ds : List (Text × Text)}
    (h : "__proto__".toList ∉ ds.map Prod.fst) :
    ds.foldl (fun ps d => assign ps d.1 d.2) ps = ps.assignAll ds := by
  induction ds generalizing ps with
  | nil => rfl
  | cons d ds ih =>
      rw [List.map_cons, List.mem_cons, not_or] at h
      rw [List.foldl_cons, ih h.2, assign, if_neg (Ne.symm h.1)]
      rfl

theorem TypeScript.proto_foldl_assign {ds : List (Text × Text)}
    (h : "__proto__".toList ∉ ps.names) :
    "__proto__".toList ∉ (ds.foldl (fun ps d => assign ps d.1 d.2) ps).names := by
  induction ds generalizing ps with
  | nil => exact h
  | cons d ds ih =>
      refine ih ?_
      show "__proto__".toList ∉ (assign ps d.1 d.2).names
      rw [assign]
      split
      · exact h
      · next hne =>
        rw [Properties.mem_names_assign, not_or]
        exact ⟨Ne.symm hne, h⟩

theorem Python.names_sharedAfter {n : Text} :
    n ∈ (sharedAfter history).names ↔ ∃ d ∈ history, n ∈ assignedNames d := by
  have h (shared : Properties) : n ∈ (history.foldl (fun shared d =>
      (connectionLocator shared d).1) shared).names ↔
        (∃ d ∈ history, n ∈ assignedNames d) ∨ n ∈ shared.names := by
    induction history generalizing shared with
    | nil => simp
    | cons d ds ih =>
        have hone : n ∈ (connectionLocator shared d).1.names ↔
            n ∈ assignedNames d ∨ n ∈ shared.names := Properties.mem_names_assignAll
        rw [List.foldl_cons, ih, hone]
        simp only [List.mem_cons, exists_eq_or_imp]
        rw [or_left_comm, or_assoc]
  rw [sharedAfter, h]
  exact or_iff_left List.not_mem_nil

/--
**One locator in four languages.** What is written of a locator that was read from a text is the
same locator to C#, TypeScript and Python, after whatever locators the process has made, if and only
if the text has no bracket before its properties and no more than four colons there, no property is
named `__proto__`, and its properties include all those that the Python class has got before.
-/
theorem sameEverywhere_iff_plain (history : List Text) (s : Text) (l : Locator)
    (h : parse s = .ok l) : SameEverywhere history l ↔ Plain history s := by
  have hl := wellFormed_of_parse h
  constructor
  · intro he
    obtain ⟨hb, hc, -⟩ := read_eq_some he.dotNet
    obtain ⟨-, -, hts⟩ := read_eq_some he.typeScript
    obtain ⟨-, -, hpy⟩ := read_eq_some he.python
    refine ⟨(bracket_mainPart h).mpr hb, (colons_mainPart h).mpr hc, ?_, ?_⟩
    · rw [mem_propertyNames h, hts]
      exact TypeScript.proto_foldl_assign List.not_mem_nil
    · intro d hd n hn
      rw [mem_propertyNames h, hpy]
      exact Properties.mem_names_assignAll.mpr (.inr (Python.names_sharedAfter.mpr ⟨d, hd, hn⟩))
  · intro hp
    have hb := (bracket_mainPart h).mp hp.bracket
    have hc := (colons_mainPart h).mp hp.colons
    have hproto : "__proto__".toList ∉ l.properties.names := fun hm =>
      hp.proto ((mem_propertyNames h).mpr hm)
    have hempty : Properties.empty.assignAll l.properties.entries = l.properties :=
      Properties.assignAll_entries fun n hn => absurd hn List.not_mem_nil
    refine ⟨read_format hl hb hc (DotNet.intParse_intText hl.port) hempty,
      read_format hl hb hc (TypeScript.parseInt_intText l.port) ?_,
      read_format hl hb hc (Python.int_intText l.port) ?_⟩
    · exact (TypeScript.foldl_assign hproto).trans hempty
    · refine Properties.assignAll_entries fun n hn => ?_
      obtain ⟨d, hd, hn⟩ := Python.names_sharedAfter.mp hn
      exact (mem_propertyNames h).mp (hp.shared d hd n hn)

theorem sameEverywhere_server :
    ∃ l, parse "h:1:u:p:i[a=1]".toList = .ok l ∧ SameEverywhere ["x[a=2]".toList] l := by
  have hp : parse "h:1:u:p:i[a=1]".toList = .ok ⟨['h'], 1, ['u'], ['p'], ['i'],
      ⟨[(['a'], ['1'])], by decide⟩⟩ := by decide +kernel
  refine ⟨_, hp, (sameEverywhere_iff_plain _ _ _ hp).mpr ?_⟩
  exact ⟨by decide +kernel, by decide +kernel, by decide +kernel, by decide +kernel⟩

/-- The Python locator has the property of the one that was made before. -/
theorem not_sameEverywhere_second :
    ∃ l, parse "h".toList = .ok l ∧ ¬ SameEverywhere ["x[a=1]".toList] l := by
  refine ⟨⟨['h'], 0, [], [], [], .empty⟩, by decide +kernel, fun h => ?_⟩
  have := h.python
  revert this
  decide +kernel

end ConnectionLocator
