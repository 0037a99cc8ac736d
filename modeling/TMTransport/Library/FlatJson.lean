import Mathlib.Data.List.Basic
import Mathlib.Data.List.TakeWhile

/-!
# Flat JSON objects

Objects whose values are numbers and strings, written without blanks. Characters that
would have to be escaped do not occur.
-/

namespace FlatJson

abbrev Bytes := List UInt8

inductive Scalar where
  | number (n : Int)
  | string (s : Bytes)
  deriving DecidableEq

abbrev Members := List (Bytes × Scalar)

/-- The next character is this one. -/
def expect (c : UInt8) : Bytes → Option Bytes
  | [] => none
  | d :: cs => if d = c then some cs else none

@[simp] theorem expect_self (c : UInt8) (cs : Bytes) : expect c (c :: cs) = some cs := by
  simp [expect]

/-! ## Numbers -/

def isDigit (c : UInt8) : Bool := 48 ≤ c && c ≤ 57

def naturalText (n : Nat) : Bytes := (Nat.toDigits 10 n).map Char.toUInt8

def readDigits (ds : Bytes) : Nat := ds.foldl (fun n c => n * 10 + (c.toNat - 48)) 0

def readNatural (cs : Bytes) : Option (Nat × Bytes) :=
  if cs.takeWhile isDigit = [] then none
  else some (readDigits (cs.takeWhile isDigit), cs.dropWhile isDigit)

def numberText : Int → Bytes
  | .ofNat n => naturalText n
  | .negSucc n => '-'.toUInt8 :: naturalText (n + 1)

def readNumber (cs : Bytes) : Option (Int × Bytes) :=
  match expect '-'.toUInt8 cs with
  | some ds => (readNatural ds).map fun r => (-(r.1 : Int), r.2)
  | none => (readNatural cs).map fun r => ((r.1 : Int), r.2)

theorem toNat_toUInt8 {c : Char} (hc : c.isDigit = true) :
    c.toUInt8.toNat = c.toNat ∧ 48 ≤ c.toNat ∧ c.toNat ≤ 57 := by
  have h : 48 ≤ c.toNat ∧ c.toNat ≤ 57 := by
    simpa [Char.isDigit, Char.le_def, UInt32.le_iff_toNat_le] using hc
  refine ⟨?_, h⟩
  rw [Char.toUInt8]
  simp only [UInt32.toNat_toUInt8]
  have : c.val.toNat = c.toNat := rfl
  omega

theorem isDigit_naturalText {n : Nat} {c : UInt8} (h : c ∈ naturalText n) : isDigit c = true := by
  obtain ⟨d, hd, rfl⟩ := List.mem_map.mp h
  have hc := toNat_toUInt8 (Nat.isDigit_of_mem_toDigits (by omega) (by omega) hd)
  rw [isDigit, Bool.and_eq_true, decide_eq_true_iff, decide_eq_true_iff,
    UInt8.le_iff_toNat_le, UInt8.le_iff_toNat_le, hc.1]
  exact hc.2

theorem readDigits_naturalText (n : Nat) : readDigits (naturalText n) = n := by
  have hd : ∀ c ∈ Nat.toDigits 10 n, c.isDigit = true := fun c hc =>
    Nat.isDigit_of_mem_toDigits (by omega) (by omega) hc
  have hfold : ∀ (cs : List Char) (m : Nat), (∀ c ∈ cs, c.isDigit = true) →
      (cs.map Char.toUInt8).foldl (fun n c => n * 10 + (c.toNat - 48)) m =
        Nat.ofDigitChars 10 cs m := by
    intro cs
    induction cs with
    | nil => intro m _; rfl
    | cons c cs ih =>
        intro m h
        rw [List.map_cons, List.foldl_cons, ih _ fun d hd => h d (List.mem_cons_of_mem _ hd),
          (toNat_toUInt8 (h c List.mem_cons_self)).1, Nat.ofDigitChars_cons, Nat.mul_comm]
        rfl
  rw [readDigits, naturalText, hfold _ 0 hd, Nat.ofDigitChars_ten_toDigits]

/-- A number ends at a character that is no digit. -/
def Ends (cs : Bytes) : Prop := ∀ c, cs.head? = some c → isDigit c = false

theorem readNatural_naturalText (n : Nat) {cs : Bytes} (h : Ends cs) :
    readNatural (naturalText n ++ cs) = some (n, cs) := by
  have hall : ∀ c ∈ naturalText n, isDigit c = true := fun c hc => isDigit_naturalText hc
  have htake : cs.takeWhile isDigit = [] ∧ cs.dropWhile isDigit = cs := by
    cases cs with
    | nil => exact ⟨rfl, rfl⟩
    | cons c cs =>
        have hc := h c rfl
        exact ⟨by rw [List.takeWhile_cons_of_neg (by simp [hc])],
          by rw [List.dropWhile_cons_of_neg (by simp [hc])]⟩
  have hne : naturalText n ≠ [] := by
    rw [naturalText, Ne, List.map_eq_nil_iff]
    exact Nat.toDigits_ne_nil
  rw [readNatural, List.takeWhile_append_of_pos hall, List.dropWhile_append_of_pos hall,
    htake.1, htake.2, List.append_nil, if_neg hne, readDigits_naturalText]

theorem readNumber_numberText (n : Int) {cs : Bytes} (h : Ends cs) :
    readNumber (numberText n ++ cs) = some (n, cs) := by
  cases n with
  | ofNat n =>
      have hno : expect '-'.toUInt8 (naturalText n ++ cs) = none := by
        cases ht : naturalText n with
        | nil =>
            rw [naturalText, List.map_eq_nil_iff] at ht
            exact absurd ht Nat.toDigits_ne_nil
        | cons c ds =>
            have hc := isDigit_naturalText (n := n) (c := c) (by rw [ht]; exact List.mem_cons_self)
            rw [List.cons_append, expect, if_neg]
            intro he
            rw [he] at hc
            exact absurd hc (by decide)
      rw [numberText, readNumber, hno]
      simp only [readNatural_naturalText n h, Option.map_some]
      rfl
  | negSucc n =>
      rw [numberText, List.cons_append, readNumber, expect_self]
      simp only [readNatural_naturalText (n + 1) h, Option.map_some]
      rfl

/-! ## Strings -/

/-- Nothing that would have to be escaped: no control character, no quotation mark and no
backslash. -/
def isPlain (c : UInt8) : Bool := 32 ≤ c && c != 34 && c != 92

def stringText (s : Bytes) : Bytes := 34 :: (s ++ [34])

def readString (cs : Bytes) : Option (Bytes × Bytes) :=
  (expect 34 cs).bind fun cs =>
    (expect 34 (cs.dropWhile isPlain)).map fun rest => (cs.takeWhile isPlain, rest)

theorem readString_stringText {s : Bytes} (hs : s.all isPlain = true) (cs : Bytes) :
    readString (stringText s ++ cs) = some (s, cs) := by
  have hall : ∀ c ∈ s, isPlain c = true := List.all_eq_true.mp hs
  have htail : stringText s ++ cs = 34 :: (s ++ 34 :: cs) := by simp [stringText]
  have hq : isPlain 34 = false := rfl
  rw [htail, readString, expect_self, Option.bind_some, List.takeWhile_append_of_pos hall,
    List.dropWhile_append_of_pos hall, List.takeWhile_cons_of_neg (by simp [hq]),
    List.dropWhile_cons_of_neg (by simp [hq]), expect_self, List.append_nil]
  rfl

/-! ## Objects -/

def Scalar.text : Scalar → Bytes
  | number n => numberText n
  | string s => stringText s

def Scalar.isPlain : Scalar → Bool
  | number _ => true
  | string s => s.all FlatJson.isPlain

def readScalar (cs : Bytes) : Option (Scalar × Bytes) :=
  match readString cs with
  | some r => some (.string r.1, r.2)
  | none => (readNumber cs).map fun r => (.number r.1, r.2)

def memberText (m : Bytes × Scalar) : Bytes := stringText m.1 ++ ':'.toUInt8 :: m.2.text

def membersText : Members → Bytes
  | [] => []
  | [m] => memberText m
  | m :: ms => memberText m ++ ','.toUInt8 :: membersText ms

def text (ms : Members) : Bytes := 123 :: (membersText ms ++ [125])

def readMember (cs : Bytes) : Option ((Bytes × Scalar) × Bytes) :=
  (readString cs).bind fun k => (expect ':'.toUInt8 k.2).bind fun cs =>
    (readScalar cs).map fun v => ((k.1, v.1), v.2)

/-- At most so many members. -/
def readMembers : Nat → Bytes → Option (Members × Bytes)
  | 0, cs => some ([], cs)
  | fuel + 1, cs =>
      (readMember cs).bind fun m =>
        match expect ','.toUInt8 m.2 with
        | some cs => (readMembers fuel cs).map fun r => (m.1 :: r.1, r.2)
        | none => some ([m.1], m.2)

def read (cs : Bytes) : Option Members :=
  (expect 123 cs).bind fun cs =>
    if cs = [125] then some []
    else
      match readMembers cs.length cs with
      | some (ms, rest) => if rest = [125] then some ms else none
      | none => none

def Plain (ms : Members) : Prop := ∀ m ∈ ms, m.1.all isPlain = true ∧ m.2.isPlain = true

instance (ms : Members) : Decidable (Plain ms) :=
  inferInstanceAs (Decidable (∀ m ∈ ms, m.1.all isPlain = true ∧ m.2.isPlain = true))

theorem readScalar_text {v : Scalar} (hv : v.isPlain = true) {cs : Bytes} (h : Ends cs) :
    readScalar (v.text ++ cs) = some (v, cs) := by
  cases v with
  | string s =>
      rw [readScalar, Scalar.text, readString_stringText hv]
  | number n =>
      have hno : readString (numberText n ++ cs) = none := by
        have hne : expect 34 (numberText n ++ cs) = none := by
          cases ht : numberText n ++ cs with
          | nil => rfl
          | cons c ds =>
              rw [expect, if_neg]
              intro hc
              have hr := readNumber_numberText n h
              rw [ht, hc, readNumber, expect, if_neg (by decide)] at hr
              simp [readNatural, List.takeWhile_cons_of_neg (show ¬ isDigit 34 = true by decide)]
                at hr
        rw [readString, hne]
        rfl
      rw [readScalar, Scalar.text, hno]
      simp only [readNumber_numberText n h, Option.map_some]

theorem readMember_text {m : Bytes × Scalar} (hk : m.1.all isPlain = true)
    (hv : m.2.isPlain = true) {cs : Bytes} (h : Ends cs) :
    readMember (memberText m ++ cs) = some (m, cs) := by
  rw [memberText, List.append_assoc, readMember, readString_stringText hk, Option.bind_some,
    List.cons_append, expect_self, Option.bind_some, readScalar_text hv h]
  rfl

theorem readMembers_text {ms : Members} (h : Plain ms) (hne : ms ≠ []) {fuel : Nat}
    (hf : ms.length ≤ fuel) : readMembers fuel (membersText ms ++ [125]) = some (ms, [125]) := by
  have hend : Ends [125] := by
    intro c hc
    cases hc
    rfl
  induction ms generalizing fuel with
  | nil => exact absurd rfl hne
  | cons m ms ih =>
      obtain ⟨hk, hv⟩ := h m List.mem_cons_self
      obtain ⟨fuel, rfl⟩ : ∃ n, fuel = n + 1 := ⟨fuel - 1, by simp at hf; omega⟩
      cases ms with
      | nil =>
          rw [membersText, readMembers, readMember_text hk hv hend, Option.bind_some]
          rfl
      | cons m' ms =>
          have hcomma : ∀ cs : Bytes, Ends (','.toUInt8 :: cs) := by
            intro cs c hc
            cases hc
            rfl
          have hrest : readMembers fuel (membersText (m' :: ms) ++ [125]) =
              some (m' :: ms, [125]) :=
            ih (fun x hx => h x (List.mem_cons_of_mem _ hx)) (by simp) (by simpa using hf)
          rw [membersText, List.append_assoc, List.cons_append, readMembers,
            readMember_text hk hv (hcomma _), Option.bind_some]
          · simp only [expect_self, hrest, Option.map_some]
          · simp

theorem length_le_membersText (ms : Members) : ms.length ≤ (membersText ms).length := by
  induction ms with
  | nil => exact Nat.zero_le _
  | cons m ms ih =>
      cases ms with
      | nil => simp [membersText, memberText, stringText]
      | cons m' ms =>
          rw [membersText]
          · simp only [List.length_cons, List.length_append] at ih ⊢
            omega
          · simp

/-- **What is written is read back.** -/
theorem read_text {ms : Members} (h : Plain ms) : read (text ms) = some ms := by
  rw [text, read, expect_self, Option.bind_some]
  cases ms with
  | nil => rfl
  | cons m ms =>
      have hlen := length_le_membersText (m :: ms)
      have hne : membersText (m :: ms) ++ [125] ≠ [125] := by
        intro he
        have := congrArg List.length he
        simp only [List.length_append, List.length_cons, List.length_nil] at this hlen
        omega
      rw [if_neg hne, readMembers_text h (by simp) (by simp at hlen ⊢; omega)]
      rfl

end FlatJson
