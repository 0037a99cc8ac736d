import Mathlib.Algebra.Group.Nat.Defs
import Mathlib.Algebra.Order.Group.Int

/-!
# Integral types of C++

What an integral type holds, the integral promotions, the usual arithmetic conversions, and
what a comparison of two integers of different types compares. A conversion keeps a number if
the type holds it; a comparison is wrong only where one of the two numbers is not held by the
type that both are converted to (`converts_iff`).
-/

namespace CppIntegers

/-- Which of the promotions a type goes through. -/
inductive Kind where
  /-- `bool` -/
  | boolean
  /-- `char`, the standard and the extended integer types -/
  | integer
  /-- `char8_t`, `char16_t`, `char32_t` and `wchar_t` -/
  | character
  deriving DecidableEq, Repr

/-- An integral type. `rank` is its integer conversion rank. -/
structure IntegralType where
  kind : Kind
  signed : Bool
  /-- the bits, with the one of the sign -/
  width : Nat
  rank : Nat
  deriving DecidableEq, Repr

namespace IntegralType

variable (T : IntegralType)

/-- `numeric_limits<T>::min()` -/
def min : Int := if T.signed then -2 ^ (T.width - 1) else 0

/-- `numeric_limits<T>::max()` -/
def max : Int := if T.signed then 2 ^ (T.width - 1) - 1 else 2 ^ T.width - 1

/-- The number is a value of the type. -/
def Holds (x : Int) : Prop := T.min ≤ x ∧ x ≤ T.max

instance : DecidablePred T.Holds := fun _ => inferInstanceAs (Decidable (_ ∧ _))

/-- All values of `A` are values of `T`. -/
def Represents (A : IntegralType) : Prop := T.min ≤ A.min ∧ A.max ≤ T.max

instance (A : IntegralType) : Decidable (T.Represents A) := inferInstanceAs (Decidable (_ ∧ _))

/-- `(T)x` -/
def convert (x : Int) : Int :=
  if T.kind = .boolean then
    if x = 0 then 0 else 1
  else if T.signed then
    x.bmod (2 ^ T.width)
  else
    x % 2 ^ T.width

/-- The unsigned type of the same width. -/
def toUnsigned : IntegralType := { T with signed := false }

/-- The type that the usual arithmetic conversions give to operands of promoted types. -/
def usual (B : IntegralType) : IntegralType :=
  if T.signed = B.signed then
    if T.rank < B.rank then B else T
  else
    let u := if T.signed then B else T
    let s := if T.signed then T else B
    if s.rank ≤ u.rank then u else if s.Represents u then s else s.toUnsigned

/-- A type of higher rank is not narrower. -/
def RanksWith (A : IntegralType) : Prop :=
  (T.rank < A.rank → T.width ≤ A.width) ∧ (A.rank < T.rank → A.width ≤ T.width) ∧
    (T.rank = A.rank → T.width = A.width)

instance (A : IntegralType) : Decidable (T.RanksWith A) :=
  inferInstanceAs (Decidable (_ ∧ _))

end IntegralType

/-- What an implementation chooses. -/
structure DataModel where
  intWidth : Nat
  longWidth : Nat
  longLongWidth : Nat
  intRank : Nat
  longRank : Nat
  longLongRank : Nat
  one_lt_int : 1 < intWidth
  int_le_long : intWidth ≤ longWidth
  long_le_longLong : longWidth ≤ longLongWidth
  int_lt_long : intRank < longRank
  long_lt_longLong : longRank < longLongRank

namespace DataModel

variable (D : DataModel)

/-- `int` or `unsigned int` -/
def int (signed : Bool) : IntegralType := ⟨.integer, signed, D.intWidth, D.intRank⟩

/-- `long` or `unsigned long` -/
def long (signed : Bool) : IntegralType := ⟨.integer, signed, D.longWidth, D.longRank⟩

/-- `long long` or `unsigned long long` -/
def longLong (signed : Bool) : IntegralType :=
  ⟨.integer, signed, D.longLongWidth, D.longLongRank⟩

/-- What types are promoted to, signed or unsigned, in the order in which they are tried. -/
def promoted : List (Bool → IntegralType) := [D.int, D.long, D.longLong]

/-- A type that the implementation may have. -/
structure Admits (T : IntegralType) : Prop where
  width_pos : 0 < T.width
  boolean : T.kind = .boolean → T.signed = false ∧ T.width = 1 ∧ T.rank < D.intRank
  ranked : ∀ X ∈ D.promoted, ∀ s, T.RanksWith (X s)

instance (T : IntegralType) : Decidable (D.Admits T) :=
  decidable_of_iff (0 < T.width ∧
      (T.kind = .boolean → T.signed = false ∧ T.width = 1 ∧ T.rank < D.intRank) ∧
      ∀ X ∈ D.promoted, ∀ s, T.RanksWith (X s))
    ⟨fun h => ⟨h.1, h.2.1, h.2.2⟩, fun h => ⟨h.width_pos, h.boolean, h.ranked⟩⟩

/-- The integral promotions. -/
def promote (T : IntegralType) : IntegralType :=
  match T.kind with
  | .boolean => D.int true
  | .integer =>
    if T.rank < D.intRank then
      if (D.int true).Represents T then D.int true else D.int false
    else
      T
  | .character =>
    (D.promoted.findSome? fun X =>
      if (X true).Represents T then some (X true)
      else if (X false).Represents T then some (X false)
      else none).getD { T with kind := .integer }

/-- The type in which operands of the types `A` and `B` are compared. -/
def common (A B : IntegralType) : IntegralType := (D.promote A).usual (D.promote B)

/-- `a <= b` for `a` of type `A` and `b` of type `B` -/
def le (A B : IntegralType) (a b : Int) : Bool :=
  decide ((D.common A B).convert a ≤ (D.common A B).convert b)

/-- `a >= b` for `a` of type `A` and `b` of type `B` -/
def ge (A B : IntegralType) (a b : Int) : Bool :=
  decide ((D.common A B).convert b ≤ (D.common A B).convert a)

end DataModel

/-! ## What a type holds -/

namespace IntegralType

variable {T A : IntegralType} {x : Int}

theorem two_pow_width (h : 0 < T.width) : (2 : Int) ^ T.width = 2 * 2 ^ (T.width - 1) := by
  rw [← Int.pow_succ', Nat.sub_add_cancel h]

theorem two_pow_mono {m n : Nat} (h : m ≤ n) : (2 : Int) ^ m ≤ 2 ^ n := by
  exact_mod_cast Nat.pow_le_pow_right (by omega) h

theorem two_pow_pos (n : Nat) : (0 : Int) < 2 ^ n := by
  exact_mod_cast Nat.two_pow_pos n

theorem min_of_signed (h : T.signed = true) : T.min = -2 ^ (T.width - 1) := if_pos h

theorem max_of_signed (h : T.signed = true) : T.max = 2 ^ (T.width - 1) - 1 := if_pos h

theorem min_of_unsigned (h : T.signed = false) : T.min = 0 := if_neg (by simp [h])

theorem max_of_unsigned (h : T.signed = false) : T.max = 2 ^ T.width - 1 := if_neg (by simp [h])

theorem min_nonpos : T.min ≤ 0 := by
  have hpos := two_pow_pos (T.width - 1)
  cases h : T.signed with
  | false => exact (min_of_unsigned h).le
  | true =>
      rw [min_of_signed h]
      omega

theorem max_nonneg : 0 ≤ T.max := by
  cases h : T.signed with
  | false =>
      have hpos := two_pow_pos T.width
      rw [max_of_unsigned h]
      omega
  | true =>
      have hpos := two_pow_pos (T.width - 1)
      rw [max_of_signed h]
      omega

theorem signed_of_min (h : T.min < 0) : T.signed = true := by
  cases hs : T.signed with
  | true => rfl
  | false =>
      rw [min_of_unsigned hs] at h
      omega

theorem unsigned_of_min (h : 0 ≤ T.min) : T.signed = false := by
  cases hs : T.signed with
  | false => rfl
  | true =>
      have hpos := two_pow_pos (T.width - 1)
      rw [min_of_signed hs] at h
      omega

theorem holds_min : T.Holds T.min := ⟨le_refl _, min_nonpos.trans max_nonneg⟩

theorem holds_max : T.Holds T.max := ⟨min_nonpos.trans max_nonneg, le_refl _⟩

theorem Represents.holds (h : T.Represents A) (hx : A.Holds x) : T.Holds x :=
  ⟨h.1.trans hx.1, hx.2.trans h.2⟩

theorem represents_of_width (hs : A.signed = T.signed) (hw : A.width ≤ T.width) :
    T.Represents A := by
  cases h : T.signed with
  | false =>
      have hle := two_pow_mono hw
      rw [h] at hs
      refine ⟨((min_of_unsigned h).trans (min_of_unsigned hs).symm).le, ?_⟩
      · rw [max_of_unsigned h, max_of_unsigned hs]
        omega
  | true =>
      have hle := two_pow_mono (Nat.sub_le_sub_right hw 1)
      rw [h] at hs
      refine ⟨?_, ?_⟩
      · rw [min_of_signed h, min_of_signed hs]
        omega
      · rw [max_of_signed h, max_of_signed hs]
        omega

/-- A signed type holds the numbers of an unsigned type that is narrower. -/
theorem represents_of_lt (hT : T.signed = true) (hA : A.signed = false) (hw : A.width < T.width) :
    T.Represents A := by
  have hle : (2 : Int) ^ A.width ≤ 2 ^ (T.width - 1) := two_pow_mono (by omega)
  have hpos := two_pow_pos (T.width - 1)
  refine ⟨?_, ?_⟩
  · rw [min_of_signed hT, min_of_unsigned hA]
    omega
  · rw [max_of_signed hT, max_of_unsigned hA]
    omega

/-- A number that the type holds is kept. -/
theorem convert_eq (hb : T.kind = .boolean → T.signed = false ∧ T.width = 1) (hw : 0 < T.width)
    (h : T.Holds x) : T.convert x = x := by
  have hpow := two_pow_width hw
  obtain ⟨hmin, hmax⟩ := h
  unfold convert
  split
  · next hk =>
    obtain ⟨hs, hone⟩ := hb hk
    rw [min_of_unsigned hs] at hmin
    rw [max_of_unsigned hs, hone] at hmax
    split
    · next h0 => exact h0.symm
    · omega
  split
  · next hs =>
    rw [min_of_signed hs] at hmin
    rw [max_of_signed hs] at hmax
    have hcast : ((2 ^ T.width : Nat) : Int) = 2 * 2 ^ (T.width - 1) := by
      rw [← hpow]
      norm_cast
    exact Int.bmod_eq_of_le (by omega) (by omega)
  · next hs =>
    rw [Bool.not_eq_true] at hs
    rw [min_of_unsigned hs] at hmin
    rw [max_of_unsigned hs] at hmax
    exact Int.emod_eq_of_lt hmin (by omega)

/-- A number that is not negative is held by an unsigned type that is not narrower. -/
theorem holds_of_nonneg (hT : T.signed = false) (hw : A.width ≤ T.width) (hx : A.Holds x)
    (h0 : 0 ≤ x) : T.Holds x := by
  have hmax := hx.2
  have hle : (2 : Int) ^ A.width ≤ 2 ^ T.width := two_pow_mono hw
  refine ⟨by rw [min_of_unsigned hT]; exact h0, ?_⟩
  rw [max_of_unsigned hT]
  cases hA : A.signed with
  | false =>
      rw [max_of_unsigned hA] at hmax
      omega
  | true =>
      have hle' : (2 : Int) ^ (A.width - 1) ≤ 2 ^ A.width := two_pow_mono (Nat.sub_le _ _)
      rw [max_of_signed hA] at hmax
      omega

/-- A negative number becomes one in the upper half. -/
theorem convert_neg (hk : T.kind = .integer) (hT : T.signed = false) (hA : A.signed = true)
    (hA0 : 0 < A.width) (hw : A.width ≤ T.width) (hx : A.Holds x) (h0 : x < 0) :
    T.convert x = x + 2 ^ T.width := by
  have hmin := hx.1
  have hle : (2 : Int) ^ A.width ≤ 2 ^ T.width := two_pow_mono hw
  have hpow := two_pow_width hA0
  have hpos := two_pow_pos (A.width - 1)
  rw [min_of_signed hA] at hmin
  have hconvert : T.convert x = x % 2 ^ T.width := by
    rw [convert, if_neg (by simp [hk]), if_neg (by simp [hT])]
  rw [hconvert, ← Int.add_emod_right]
  exact Int.emod_eq_of_lt (by omega) (by omega)

section Usual

variable {B : IntegralType}

theorem usual_of_same (h : T.signed = B.signed) :
    T.usual B = if T.rank < B.rank then B else T := if_pos h

theorem usual_signed_of_same (h : T.signed = B.signed) : (T.usual B).signed = T.signed := by
  rw [usual_of_same h]
  split
  · exact h.symm
  · rfl

theorem RanksWith.symm (h : T.RanksWith B) : B.RanksWith T :=
  ⟨h.2.1, h.1, fun heq => (h.2.2 heq.symm).symm⟩

theorem RanksWith.width_le (h : T.RanksWith B) (hle : T.rank ≤ B.rank) : T.width ≤ B.width := by
  rcases Nat.lt_or_eq_of_le hle with hlt | heq
  · exact h.1 hlt
  · exact (h.2.2 heq).le

/-- What an unsigned and a signed operand are converted to. -/
theorem usual_mixed (h : T.RanksWith B) (hT : T.signed = true) (hB : B.signed = false) :
    (T.usual B = B ∧ T.width ≤ B.width) ∨ (T.usual B = T ∧ T.Represents B) ∨
      (T.usual B = T.toUnsigned ∧ T.width = B.width) := by
  have hne : ¬ T.signed = B.signed := by simp [hT, hB]
  have husual : T.usual B = if T.rank ≤ B.rank then B else if T.Represents B then T
      else T.toUnsigned := by
    rw [usual, if_neg hne]
    simp only [hT, if_true]
  rw [husual]
  split
  · next hle => exact .inl ⟨rfl, h.width_le hle⟩
  split
  · next hr => exact .inr (.inl ⟨rfl, hr⟩)
  · next hle hr =>
    have hle := h.symm.width_le (by omega)
    have hge : ¬ B.width < T.width := fun hlt => hr (represents_of_lt hT hB hlt)
    exact .inr (.inr ⟨rfl, by omega⟩)

theorem usual_comm (h : T.signed ≠ B.signed) : T.usual B = B.usual T := by
  rw [usual, usual, if_neg h, if_neg h.symm]
  cases hT : T.signed <;> cases hB : B.signed
  · exact absurd (hT.trans hB.symm) h
  · rfl
  · rfl
  · exact absurd (hT.trans hB.symm) h

/-- What both operands have and does not depend on the sign, the common type has. -/
theorem usual_of {p : IntegralType → Prop} (hp : ∀ A, p A → p A.toUnsigned) (hT : p T)
    (hB : p B) : p (T.usual B) := by
  have hmixed : ∀ u v : IntegralType, p u → p v →
      p (if v.rank ≤ u.rank then u else if v.Represents u then v else v.toUnsigned) := by
    intro u v hu hv
    split
    · exact hu
    split
    · exact hv
    · exact hp v hv
  by_cases hs : T.signed = B.signed
  · rw [usual_of_same hs]
    split
    · exact hB
    · exact hT
  · rw [usual, if_neg hs]
    cases T.signed with
    | true => exact hmixed B T hB hT
    | false => exact hmixed T B hT hB

/-- A signed common type holds what the operands are. -/
theorem usual_represents (h : T.RanksWith B) (hs : (T.usual B).signed = true) :
    (T.usual B).Represents T ∧ (T.usual B).Represents B := by
  have hself : ∀ A : IntegralType, A.Represents A := fun A => ⟨le_refl _, le_refl _⟩
  have hmixed : ∀ {T B : IntegralType}, T.RanksWith B → T.signed = true → B.signed = false →
      (T.usual B).signed = true → (T.usual B).Represents T ∧ (T.usual B).Represents B := by
    intro T B h hT hB hs
    rcases usual_mixed h hT hB with ⟨heq, -⟩ | ⟨heq, hr⟩ | ⟨heq, -⟩
    · rw [heq, hB] at hs
      cases hs
    · rw [heq]
      exact ⟨hself T, hr⟩
    · rw [heq] at hs
      cases hs
  by_cases hsame : T.signed = B.signed
  · rw [usual_of_same hsame]
    split
    · next hlt => exact ⟨represents_of_width hsame (h.1 hlt), hself B⟩
    · next hge => exact ⟨hself T, represents_of_width hsame.symm (h.symm.width_le (by omega))⟩
  · cases hT : T.signed with
    | true => exact hmixed h hT (by simpa [hT] using hsame) hs
    | false =>
        rw [usual_comm hsame] at hs ⊢
        exact (hmixed h.symm (by simpa [hT] using hsame) hT hs).symm

/-- An unsigned common type is no narrower than the operands. -/
theorem usual_width_le (h : T.RanksWith B) (hs : (T.usual B).signed = false) :
    T.width ≤ (T.usual B).width ∧ B.width ≤ (T.usual B).width := by
  have hmixed : ∀ {T B : IntegralType}, T.RanksWith B → T.signed = true → B.signed = false →
      (T.usual B).signed = false → T.width ≤ (T.usual B).width ∧ B.width ≤ (T.usual B).width := by
    intro T B h hT hB hs
    rcases usual_mixed h hT hB with ⟨heq, hle⟩ | ⟨heq, -⟩ | ⟨heq, hw⟩
    · rw [heq]
      exact ⟨hle, Nat.le_refl _⟩
    · rw [heq, hT] at hs
      cases hs
    · rw [heq]
      exact ⟨Nat.le_refl _, hw.ge⟩
  by_cases hsame : T.signed = B.signed
  · rw [usual_of_same hsame]
    split
    · next hlt => exact ⟨h.1 hlt, Nat.le_refl _⟩
    · next hge => exact ⟨Nat.le_refl _, h.symm.width_le (by omega)⟩
  · cases hT : T.signed with
    | true => exact hmixed h hT (by simpa [hT] using hsame) hs
    | false =>
        rw [usual_comm hsame] at hs ⊢
        exact (hmixed h.symm (by simpa [hT] using hsame) hT hs).symm

/-- If it is unsigned though one of the operands is signed, it is as wide as the other one. -/
theorem usual_width_eq (h : T.RanksWith B) (hT : T.signed = true)
    (hs : (T.usual B).signed = false) : B.signed = false ∧ (T.usual B).width = B.width := by
  have hB : B.signed = false := by
    cases hB : B.signed with
    | false => rfl
    | true =>
        rw [usual_signed_of_same (hT.trans hB.symm), hT] at hs
        cases hs
  rcases usual_mixed h hT hB with ⟨heq, -⟩ | ⟨heq, -⟩ | ⟨heq, hw⟩
  · rw [heq]
    exact ⟨hB, rfl⟩
  · rw [heq, hT] at hs
    cases hs
  · rw [heq]
    exact ⟨hB, hw⟩

end Usual

end IntegralType

/-! ## Promotions and conversions -/

namespace DataModel

variable {D : DataModel} {T U : IntegralType} {X : Bool → IntegralType} {s : Bool} {u : Int}

theorem mem_promoted : X ∈ D.promoted ↔ X = D.int ∨ X = D.long ∨ X = D.longLong := by
  simp only [promoted, List.mem_cons, List.not_mem_nil, or_false]

theorem signed_of_mem (h : X ∈ D.promoted) (s : Bool) : (X s).signed = s := by
  rcases mem_promoted.mp h with rfl | rfl | rfl <;> rfl

theorem width_of_mem (h : X ∈ D.promoted) (s s' : Bool) : (X s).width = (X s').width := by
  rcases mem_promoted.mp h with rfl | rfl | rfl <;> rfl

theorem admits_of_mem (h : X ∈ D.promoted) (s : Bool) : D.Admits (X s) := by
  have hone := D.one_lt_int
  have hlong := D.int_le_long
  have hlonglong := D.long_le_longLong
  have hrank := D.int_lt_long
  have hrank' := D.long_lt_longLong
  refine ⟨?_, fun hk => ?_, fun Y hY s' => ?_⟩
  · rcases mem_promoted.mp h with rfl | rfl | rfl <;> simp only [int, long, longLong] <;> omega
  · rcases mem_promoted.mp h with rfl | rfl | rfl <;> cases hk
  · rcases mem_promoted.mp h with rfl | rfl | rfl <;>
      rcases mem_promoted.mp hY with rfl | rfl | rfl <;>
      refine ⟨fun hlt => ?_, fun hlt => ?_, fun heq => ?_⟩ <;>
      simp only [int, long, longLong] at * <;> omega

/-- A type that is promoted already. -/
theorem promote_of_mem (h : X ∈ D.promoted) (s : Bool) : D.promote (X s) = X s := by
  have hrank := D.int_lt_long
  have hrank' := D.long_lt_longLong
  rcases mem_promoted.mp h with rfl | rfl | rfl
  · exact if_neg (Nat.lt_irrefl _)
  · exact if_neg (by simp only [long]; omega)
  · exact if_neg (by simp only [longLong]; omega)

/-- What the promotions make of a type. -/
structure Promotes (D : DataModel) (T P : IntegralType) : Prop where
  integer : P.kind = .integer
  admits : D.Admits P
  represents : P.Represents T
  /-- Only an unsigned type is promoted to an unsigned one, and that is no wider. -/
  unsigned : P.signed = false → T.signed = false ∧ P.width = T.width

theorem promotes_signed (h : X ∈ D.promoted) (hr : (X true).Represents T) :
    Promotes D T (X true) where
  integer := by rcases mem_promoted.mp h with rfl | rfl | rfl <;> rfl
  admits := admits_of_mem h true
  represents := hr
  unsigned := fun hs => by
    rw [signed_of_mem h] at hs
    cases hs

theorem promotes_unsigned (h : X ∈ D.promoted) (hr : ¬ (X true).Represents T)
    (hr' : (X false).Represents T) : Promotes D T (X false) where
  integer := by rcases mem_promoted.mp h with rfl | rfl | rfl <;> rfl
  admits := admits_of_mem h false
  represents := hr'
  unsigned := fun _ => by
    have hwidth := width_of_mem h true false
    have hX := signed_of_mem h
    have hT : T.signed = false := by
      cases hs : T.signed with
      | false => rfl
      | true =>
          have hmin := hr'.1
          have hpos := IntegralType.two_pow_pos (T.width - 1)
          rw [IntegralType.min_of_unsigned (hX false), IntegralType.min_of_signed hs] at hmin
          omega
    refine ⟨hT, ?_⟩
    have hle : T.width ≤ (X false).width := by
      have hmax := hr'.2
      rw [IntegralType.max_of_unsigned (hX false), IntegralType.max_of_unsigned hT] at hmax
      by_contra hlt
      have hlt : (2 : Int) ^ (X false).width < 2 ^ T.width := by
        exact_mod_cast Nat.pow_lt_pow_right (by omega) (by omega)
      omega
    have hge : ¬ T.width < (X true).width :=
      fun hlt => hr (IntegralType.represents_of_lt (hX true) hT hlt)
    omega

theorem promotes (hT : D.Admits T) : Promotes D T (D.promote T) := by
  have hint : D.int ∈ D.promoted := mem_promoted.mpr (.inl rfl)
  unfold promote
  split
  · next hk =>
    obtain ⟨hs, hw, -⟩ := hT.boolean hk
    refine promotes_signed hint (IntegralType.represents_of_lt rfl hs ?_)
    rw [hw]
    exact D.one_lt_int
  · next hk =>
    split
    · next hrank =>
      split
      · next hr => exact promotes_signed hint hr
      · next hr =>
        -- what is narrower than int, or signed, is held by it
        have hw : T.width ≤ (D.int true).width := (hT.ranked D.int hint true).1 hrank
        have hs : T.signed = false := by
          cases hs : T.signed with
          | false => rfl
          | true => exact absurd (IntegralType.represents_of_width hs hw) hr
        exact promotes_unsigned hint hr (IntegralType.represents_of_width hs hw)
    · exact ⟨hk, hT, ⟨le_refl _, le_refl _⟩, fun hs => ⟨hs, rfl⟩⟩
  · next hk =>
    cases hfound : D.promoted.findSome? fun X =>
        if (X true).Represents T then some (X true)
        else if (X false).Represents T then some (X false) else none with
    | none =>
        exact ⟨rfl, ⟨hT.width_pos, fun h => (by cases h), hT.ranked⟩,
          ⟨le_refl _, le_refl _⟩, fun hs => ⟨hs, rfl⟩⟩
    | some S =>
        obtain ⟨X, hX, hS⟩ := List.exists_of_findSome?_eq_some hfound
        split at hS
        · next hr =>
          obtain rfl := Option.some.inj hS
          exact promotes_signed hX hr
        · next hr =>
          split at hS
          · next hr' =>
            obtain rfl := Option.some.inj hS
            exact promotes_unsigned hX hr hr'
          · cases hS

/-- A signed type is promoted to a signed one. -/
theorem signed_promote (hT : D.Admits T) (hT' : T.min < 0) : (D.promote T).signed = true := by
  cases h : (D.promote T).signed with
  | true => rfl
  | false =>
      have hTs := ((promotes hT).unsigned h).1
      rw [IntegralType.signed_of_min hT'] at hTs
      cases hTs

/-- The common type holds all that is compared, or keeps the numbers apart all the same. -/
def Compares (D : DataModel) (U T : IntegralType) (u : Int) : Prop :=
  (D.common U T).signed = true ∨ 0 ≤ u ∧ 0 ≤ T.min ∨ T.max < u

instance (D : DataModel) (U T : IntegralType) (u : Int) : Decidable (D.Compares U T u) :=
  inferInstanceAs (Decidable (_ ∨ _))

/-- The number is compared with the limits of the type `T`. -/
def inLimits (D : DataModel) (U T : IntegralType) (u : Int) : Bool :=
  D.le U T u T.max && D.ge U T u T.min

section Limits

variable (hX : X ∈ D.promoted) (hT : D.Admits T) (hu : (X s).Holds u)

include hX

theorem common_eq : D.common (X s) T = (X s).usual (D.promote T) := by
  rw [common, promote_of_mem hX]

include hT

theorem common_integer :
    (D.common (X s) T).kind = .integer ∧ 0 < (D.common (X s) T).width := by
  refine IntegralType.usual_of (p := fun A => A.kind = .integer ∧ 0 < A.width)
    (fun A hA => hA) ?_ ⟨(promotes hT).integer, (promotes hT).admits.width_pos⟩
  rw [promote_of_mem hX]
  refine ⟨?_, (admits_of_mem hX s).width_pos⟩
  rcases mem_promoted.mp hX with rfl | rfl | rfl <;> rfl

theorem ranksWith_promote : (X s).RanksWith (D.promote T) :=
  ((promotes hT).admits.ranked X hX s).symm

/-- A number of the common type is kept. -/
theorem common_convert {x : Int} (hx : (D.common (X s) T).Holds x) :
    (D.common (X s) T).convert x = x := by
  obtain ⟨hk, hw⟩ := common_integer (s := s) hX hT
  refine IntegralType.convert_eq (fun h => ?_) hw hx
  rw [hk] at h
  cases h

/-- In a signed common type the limits are compared as they are. -/
theorem inLimits_of_signed (hu : (X s).Holds u) (hs : (D.common (X s) T).signed = true) :
    D.inLimits (X s) T u = true ↔ T.Holds u := by
  obtain ⟨hU, hP⟩ := (common_eq hX ▸ IntegralType.usual_represents (ranksWith_promote hX hT))
    hs
  have hmin := common_convert hX hT (hP.holds ((promotes hT).represents.holds T.holds_min))
  have hmax := common_convert hX hT (hP.holds ((promotes hT).represents.holds T.holds_max))
  rw [inLimits, le, ge, common_convert hX hT (hU.holds hu), hmin, hmax, Bool.and_eq_true,
    decide_eq_true_iff, decide_eq_true_iff]
  exact and_comm

section Unsigned

variable (hu : (X s).Holds u) (hs : (D.common (X s) T).signed = false)

include hu hs

theorem common_convert_value (h0 : 0 ≤ u) : (D.common (X s) T).convert u = u := by
  rw [common_eq hX] at hs
  have hw := (IntegralType.usual_width_le (ranksWith_promote hX hT) hs).1
  rw [← common_eq hX] at hs hw
  exact common_convert hX hT (IntegralType.holds_of_nonneg hs hw hu h0)

omit hu in
theorem common_convert_max : (D.common (X s) T).convert T.max = T.max := by
  rw [common_eq hX] at hs
  have hw := (IntegralType.usual_width_le (ranksWith_promote hX hT) hs).2
  rw [← common_eq hX] at hs hw
  exact common_convert hX hT (IntegralType.holds_of_nonneg hs hw
    ((promotes hT).represents.holds T.holds_max) T.max_nonneg)

/-- A negative number passes for one of the upper half. -/
theorem inLimits_of_negative (hT' : 0 ≤ T.min) (h0 : u < 0) : D.inLimits (X s) T u = true := by
  have hranks := ranksWith_promote (s := s) hX hT
  have hsigned : (X s).signed = true := IntegralType.signed_of_min (by have := hu.1; omega)
  have hC := hs
  rw [common_eq hX] at hC
  obtain ⟨hP, hwidth⟩ := IntegralType.usual_width_eq hranks hsigned hC
  have hle := (IntegralType.usual_width_le hranks hC).1
  rw [← common_eq hX] at hwidth hle
  obtain ⟨-, hw⟩ := (promotes hT).unsigned hP
  have hpow := IntegralType.two_pow_mono hle
  have hpow' := IntegralType.two_pow_width (T := X s) (admits_of_mem hX s).width_pos
  have hpos := IntegralType.two_pow_pos ((X s).width - 1)
  have hmin := hu.1
  rw [IntegralType.min_of_signed hsigned] at hmin
  have hTu := IntegralType.unsigned_of_min hT'
  have hzero : (D.common (X s) T).convert T.min = 0 := by
    rw [IntegralType.min_of_unsigned hTu]
    exact common_convert hX hT ⟨IntegralType.min_nonpos, IntegralType.max_nonneg⟩
  have hneg := IntegralType.convert_neg (common_integer (s := s) hX hT).1 hs hsigned
    (admits_of_mem hX s).width_pos hle hu h0
  rw [inLimits, le, ge, hneg, common_convert_max hX hT hs, hzero,
    IntegralType.max_of_unsigned hTu, ← hw, ← hwidth, Bool.and_eq_true, decide_eq_true_iff,
    decide_eq_true_iff]
  exact ⟨by omega, by omega⟩

/-- If the common type is unsigned though the type is signed, the column is unsigned. -/
theorem value_nonneg (hT' : T.min < 0) : 0 ≤ u := by
  have hmin := hu.1
  rw [common_eq hX] at hs
  cases h : (X s).signed with
  | false => rwa [IntegralType.min_of_unsigned h] at hmin
  | true =>
      have hP := (IntegralType.usual_width_eq (ranksWith_promote hX hT) h hs).1
      rw [signed_promote hT hT'] at hP
      cases hP

/-- A negative lower limit passes for a number of the upper half. -/
theorem not_inLimits_of_min (hT' : T.min < 0) (hmax : u ≤ T.max) :
    D.inLimits (X s) T u = false := by
  have hP := promotes hT
  have hPs := signed_promote hT hT'
  have h0 := value_nonneg hX hT hu hs hT'
  have hC := hs
  rw [common_eq hX] at hC
  have hle := (IntegralType.usual_width_le (ranksWith_promote hX hT) hC).2
  rw [← common_eq hX] at hle
  have hneg := IntegralType.convert_neg (common_integer (s := s) hX hT).1 hs hPs
    hP.admits.width_pos hle (hP.represents.holds T.holds_min) hT'
  -- the limits are those of a type that the common one is twice as large as
  have hpow := IntegralType.two_pow_mono hle
  have hpow' := IntegralType.two_pow_width hP.admits.width_pos
  have hPmin := hP.represents.1
  have hPmax := hP.represents.2
  rw [IntegralType.min_of_signed hPs] at hPmin
  rw [IntegralType.max_of_signed hPs] at hPmax
  have hge : D.ge (X s) T u T.min = false := by
    rw [ge, hneg, common_convert_value hX hT hu hs h0]
    exact decide_eq_false (by omega)
  rw [inLimits, hge, Bool.and_false]

end Unsigned

/-- **The comparison with the limits of a type decides whether the type holds the number** if and
only if the numbers are compared as they are. -/
theorem inLimits_iff (hu : (X s).Holds u) :
    (D.inLimits (X s) T u = true ↔ T.Holds u) ↔ D.Compares (X s) T u := by
  cases hs : (D.common (X s) T).signed with
  | true => exact iff_of_true (inLimits_of_signed hX hT hu hs) (.inl hs)
  | false =>
      by_cases hover : T.max < u
      · refine iff_of_true (iff_of_false ?_ fun h => ?_) (.inr (.inr hover))
        · have h0 : 0 ≤ u := T.max_nonneg.trans hover.le
          rw [inLimits, le, common_convert_value hX hT hu hs h0, common_convert_max hX hT hs,
            decide_eq_false (by omega), Bool.false_and]
          exact Bool.false_ne_true
        · have hmax := h.2
          omega
      rcases Int.lt_or_le T.min 0 with hmin | hmin
      · -- the type is signed, the column is not
        have h0 := value_nonneg hX hT hu hs hmin
        refine iff_of_false (fun h => ?_) ?_
        · have htrue := h.mpr ⟨by omega, by omega⟩
          rw [not_inLimits_of_min hX hT hu hs hmin (by omega)] at htrue
          cases htrue
        · rintro (h | ⟨-, h⟩ | h)
          · rw [hs] at h
            cases h
          · omega
          · exact hover h
      · have hTu := IntegralType.unsigned_of_min hmin
        rcases Int.lt_or_le u 0 with h0 | h0
        · refine iff_of_false (fun h => ?_) ?_
          · have hle := (h.mp (inLimits_of_negative hX hT hu hs hmin h0)).1
            omega
          · rintro (h | ⟨h, -⟩ | h)
            · rw [hs] at h
              cases h
            · omega
            · exact hover h
        · have hzero : (D.common (X s) T).convert T.min = T.min := by
            refine common_convert hX hT ⟨IntegralType.min_nonpos.trans hmin, ?_⟩
            exact IntegralType.min_nonpos.trans IntegralType.max_nonneg
          refine iff_of_true ?_ (.inr (.inl ⟨h0, hmin⟩))
          rw [inLimits, le, ge, common_convert_value hX hT hu hs h0, hzero,
            common_convert_max hX hT hs, Bool.and_eq_true, decide_eq_true_iff,
            decide_eq_true_iff]
          exact and_comm

end Limits

end DataModel

end CppIntegers
