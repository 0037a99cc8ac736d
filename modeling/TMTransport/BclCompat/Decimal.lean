import Mathlib.Data.Nat.Bitwise
import Mathlib.Data.Rat.Floor
import Mathlib.Tactic.FieldSimp
import Mathlib.Tactic.Linarith

/-!
# Decimals

`DecimalConverter` writes a number the way .NET's decimals are written: a mantissa of 96 bits
in two words, and a power of ten to divide it by, together with the sign. The number is
multiplied by ten until it is whole, but only so often that it should still fit. How often
that is comes from the logarithm of 2^96 divided by the number, in floating point; it is a
parameter, a function of the number without its sign.

The arithmetic of the decimal type is that of the rational numbers.
-/

namespace BclCompat

/-- `BclDecimalProto` -/
structure BclDecimal where
  lo : Nat
  hi : Nat
  signScale : Nat

namespace Decimal

/-- `DecimalConverter::read` -/
def read (d : BclDecimal) : ℚ :=
  let base := (d.hi <<< 64) ||| d.lo
  let scale := d.signScale >>> 1
  let ret : ℚ := (base : ℚ) / 10 ^ scale
  if d.signScale &&& 1 = 0 then ret else -ret

/-- The loop, with the number of rounds left: how often it multiplies, and what there is then. -/
def scaleUp : Nat → ℚ → Nat × ℚ
  | 0, x => (0, x)
  | n + 1, x =>
    if x = ⌊x⌋₊ then (0, x)
    else
      let r := scaleUp n (x * 10)
      (r.1 + 1, r.2)

section Write

variable (log10 : ℚ → Nat) (input : ℚ)

/-- The end of the loop. `log10` is `(uint32_t) std::log10(maxIntRep / (double) x)`. -/
def scaled : Nat × ℚ :=
  let x := if input < 0 then -input else input
  let expCap := if 100 < log10 x then 100 else log10 x
  scaleUp expCap x

/-- `DecimalConverter::write` -/
def write : BclDecimal :=
  let intRep := ⌊(scaled log10 input).2⌋₊
  { lo := intRep &&& (2 ^ 64 - 1)
    hi := (intRep >>> 64) &&& (2 ^ 32 - 1)
    signScale := ((scaled log10 input).1 <<< 1) ||| (if input < 0 then 1 else 0) }

/-- What is written stands for the number, as far as its decimal places go. -/
structure Kept : Prop where
  /-- The mantissa does not wrap. -/
  fits : ⌊(scaled log10 input).2⌋₊ < 2 ^ 96
  close : |read (write log10 input) - input| <
    (1 : ℚ) / 10 ^ ((write log10 input).signScale >>> 1)
  sign : ((write log10 input).signScale &&& 1 = 1 ↔ input < 0) ∧
    0 ≤ read (write log10 input) * input

end Write

/-- A number that is not negative has `j` decimal places, or more. -/
def HasDecimals (x : ℚ) (j : Nat) : Prop := ∀ i < j, x * 10 ^ i ≠ ⌊x * 10 ^ i⌋₊

/-! ## The loop -/

theorem scaleUp_snd (n : Nat) (x : ℚ) : (scaleUp n x).2 = x * 10 ^ (scaleUp n x).1 := by
  induction n generalizing x with
  | zero => exact (mul_one x).symm
  | succ n ih =>
      rw [scaleUp]
      split
      · exact (mul_one x).symm
      · dsimp only
        rw [ih, pow_succ', mul_assoc]

theorem hasDecimals_succ {x : ℚ} {j : Nat} :
    HasDecimals x (j + 1) ↔ x ≠ ⌊x⌋₊ ∧ HasDecimals (x * 10) j := by
  have hshift : ∀ i, x * 10 * 10 ^ i = x * 10 ^ (i + 1) := fun i => by rw [pow_succ', mul_assoc]
  constructor
  · intro h
    refine ⟨?_, fun i hi => ?_⟩
    · have := h 0 (Nat.succ_pos j)
      rwa [pow_zero, mul_one] at this
    · rw [hshift]
      exact h (i + 1) (Nat.succ_lt_succ hi)
  · intro h i hi
    cases i with
    | zero =>
        rw [pow_zero, mul_one]
        exact h.1
    | succ i =>
        rw [← hshift]
        exact h.2 i (Nat.lt_of_succ_lt_succ hi)

/-- The loop multiplies as often as there are decimal places, if it may. -/
theorem le_scaleUp_iff {n j : Nat} {x : ℚ} :
    j ≤ (scaleUp n x).1 ↔ j ≤ n ∧ HasDecimals x j := by
  induction n generalizing x j with
  | zero =>
      constructor
      · intro h
        obtain rfl := Nat.le_zero.mp h
        exact ⟨h, nofun⟩
      · exact And.left
  | succ n ih =>
      cases j with
      | zero => exact iff_of_true (Nat.zero_le _) ⟨Nat.zero_le _, nofun⟩
      | succ j =>
          rw [hasDecimals_succ, scaleUp]
          split
          · next h => exact iff_of_false nofun fun hd => hd.2.1 h
          · next h =>
            dsimp only
            rw [Nat.succ_le_succ_iff, Nat.succ_le_succ_iff, ih]
            exact and_congr_right fun _ => (and_iff_right h).symm

/-! ## The words -/

theorem words (m : Nat) :
    (((m >>> 64) &&& (2 ^ 32 - 1)) <<< 64) ||| (m &&& (2 ^ 64 - 1)) = m % 2 ^ 96 := by
  rw [Nat.and_two_pow_sub_one_eq_mod, Nat.and_two_pow_sub_one_eq_mod,
    ← Nat.shiftLeft_add_eq_or_of_lt (Nat.mod_lt _ (by decide)), Nat.shiftLeft_eq,
    Nat.shiftRight_eq_div_pow]
  omega

theorem signScale_parts (e b : Nat) (hb : b < 2) :
    ((e <<< 1) ||| b) >>> 1 = e ∧ ((e <<< 1) ||| b) &&& 1 = b := by
  rw [← Nat.shiftLeft_add_eq_or_of_lt hb, Nat.shiftLeft_eq, Nat.shiftRight_eq_div_pow,
    Nat.and_one_is_mod]
  omega

/-! ## There and back -/

variable {log10 : ℚ → Nat} {x : ℚ}

theorem scaled_eq (log10 : ℚ → Nat) (x : ℚ) :
    scaled log10 x = scaleUp (min (log10 |x|) 100) |x| := by
  have habs : (if x < 0 then -x else x) = |x| := by
    split
    · next h => rw [abs_of_neg h]
    · next h => rw [abs_of_nonneg (not_lt.mp h)]
  unfold scaled
  rw [habs]
  dsimp only
  split
  · next h => rw [min_eq_right (Nat.le_of_lt h)]
  · next h => rw [min_eq_left (Nat.not_lt.mp h)]

theorem scaled_snd : (scaled log10 x).2 = |x| * 10 ^ (scaled log10 x).1 := by
  rw [scaled_eq]
  exact scaleUp_snd _ _

theorem scaled_nonneg : 0 ≤ (scaled log10 x).2 := by
  rw [scaled_snd]
  positivity

theorem le_scaled_iff {j : Nat} :
    j ≤ (scaled log10 x).1 ↔ j ≤ min (log10 |x|) 100 ∧ HasDecimals |x| j := by
  rw [scaled_eq]
  exact le_scaleUp_iff

theorem sign_lt : (if x < 0 then 1 else 0 : Nat) < 2 := by
  split <;> decide

theorem scale_write : (write log10 x).signScale >>> 1 = (scaled log10 x).1 :=
  (signScale_parts _ _ sign_lt).1

theorem sign_write : (write log10 x).signScale &&& 1 = if x < 0 then 1 else 0 :=
  (signScale_parts _ _ sign_lt).2

theorem read_write : read (write log10 x) =
    (if x < 0 then -1 else 1) *
      (((⌊(scaled log10 x).2⌋₊ % 2 ^ 96 : Nat) : ℚ) / 10 ^ (scaled log10 x).1) := by
  unfold read
  dsimp only
  rw [scale_write, sign_write]
  unfold write
  dsimp only
  rw [words]
  split
  · rw [if_neg (by decide), neg_one_mul]
  · rw [if_pos rfl, one_mul]

theorem read_write_of_lt (h : ⌊(scaled log10 x).2⌋₊ < 2 ^ 96) : read (write log10 x) =
    (if x < 0 then -1 else 1) * ((⌊(scaled log10 x).2⌋₊ : ℚ) / 10 ^ (scaled log10 x).1) := by
  rw [read_write, Nat.mod_eq_of_lt h]

theorem sign_mul_abs (x : ℚ) : (if x < 0 then -1 else 1) * |x| = x := by
  split
  · next h => rw [abs_of_neg h, neg_one_mul, neg_neg]
  · next h => rw [abs_of_nonneg (not_lt.mp h), one_mul]

theorem abs_sign (x : ℚ) : |(if x < 0 then -1 else 1 : ℚ)| = 1 := by
  split
  · rw [abs_neg, abs_one]
  · exact abs_one

theorem abs_eq_div : |x| = (scaled log10 x).2 / 10 ^ (scaled log10 x).1 := by
  rw [scaled_snd, mul_div_cancel_right₀ _ (by positivity)]

/-- A mantissa that does not wrap is right. -/
theorem Kept.of_lt (h : ⌊(scaled log10 x).2⌋₊ < 2 ^ 96) : Kept log10 x := by
  have hread := read_write_of_lt h
  refine ⟨h, ?_, ?_, ?_⟩
  · have hfloor : (⌊(scaled log10 x).2⌋₊ : ℚ) ≤ (scaled log10 x).2 := Nat.floor_le scaled_nonneg
    have hlt := Nat.lt_floor_add_one (scaled log10 x).2
    have hsub : read (write log10 x) - x = (if x < 0 then -1 else 1) *
        ((⌊(scaled log10 x).2⌋₊ - (scaled log10 x).2) / 10 ^ (scaled log10 x).1) := by
      rw [hread, sub_div, mul_sub, ← abs_eq_div, sign_mul_abs]
    rw [scale_write, hsub, abs_mul, abs_sign, one_mul, abs_div,
      abs_of_pos (pow_pos (by norm_num : (0 : ℚ) < 10) _)]
    refine div_lt_div_of_pos_right ?_ (by positivity)
    rw [abs_sub_comm, abs_of_nonneg (by linarith)]
    linarith
  · rw [sign_write]
    split
    · next hneg => exact iff_of_true rfl hneg
    · next hneg => exact iff_of_false (by decide) hneg
  · rw [hread]
    split
    · next hneg =>
      rw [neg_one_mul]
      exact mul_nonneg_of_nonpos_of_nonpos (neg_nonpos.mpr (by positivity)) hneg.le
    · next hneg =>
      rw [one_mul]
      exact mul_nonneg (by positivity) (not_lt.mp hneg)

theorem kept_iff (log10 : ℚ → Nat) (x : ℚ) : Kept log10 x ↔
    ∀ j ≤ min (log10 |x|) 100, HasDecimals |x| j → |x| * 10 ^ j < 2 ^ 96 := by
  have hfloor : ⌊(scaled log10 x).2⌋₊ < 2 ^ 96 ↔ |x| * 10 ^ (scaled log10 x).1 < 2 ^ 96 := by
    rw [Nat.floor_lt scaled_nonneg, scaled_snd]
    norm_num
  constructor
  · intro h j hj hdecimals
    have hle := le_scaled_iff.mpr ⟨hj, hdecimals⟩
    refine lt_of_le_of_lt ?_ (hfloor.mp h.fits)
    exact mul_le_mul_of_nonneg_left (pow_le_pow_right₀ (by norm_num) hle) (abs_nonneg x)
  · intro h
    obtain ⟨hle, hdecimals⟩ := le_scaled_iff.mp (Nat.le_refl (scaled log10 x).1)
    exact Kept.of_lt (hfloor.mpr (h _ hle hdecimals))

/-! ## Decimal fractions -/

theorem abs_mul_pow (m : ℤ) (s : Nat) : |(m / 10 ^ s : ℚ)| * 10 ^ s = (m.natAbs : ℚ) := by
  rw [abs_div, abs_of_pos (pow_pos (by norm_num : (0 : ℚ) < 10) s),
    div_mul_cancel₀ _ (by positivity), Nat.cast_natAbs, Int.cast_abs]

theorem abs_mul_pow_lt {m : ℤ} (hm : |m| < 2 ^ 96) (s : Nat) :
    |(m / 10 ^ s : ℚ)| * 10 ^ s < 2 ^ 96 := by
  rw [abs_mul_pow, Nat.cast_natAbs]
  exact_mod_cast hm

theorem le_of_hasDecimals {m : ℤ} {s j : Nat} (h : HasDecimals |(m / 10 ^ s : ℚ)| j) : j ≤ s := by
  by_contra hlt
  refine h s (Nat.not_le.mp hlt) ?_
  rw [abs_mul_pow, Nat.floor_natCast]

theorem exact_iff (log10 : ℚ → Nat) {m : ℤ} {s : Nat} (hs : s ≤ 28) (hm : |m| < 2 ^ 96) :
    read (write log10 (m / 10 ^ s)) = m / 10 ^ s ↔
      ∀ j, HasDecimals |(m / 10 ^ s : ℚ)| j → j ≤ log10 |(m / 10 ^ s : ℚ)| := by
  have hwhole := abs_mul_pow_lt hm s
  have hplaces : ∀ {j}, HasDecimals |(m / 10 ^ s : ℚ)| j → j ≤ s := le_of_hasDecimals
  generalize (m / 10 ^ s : ℚ) = x at *
  have hscaled : (scaled log10 x).2 = |x| * 10 ^ (scaled log10 x).1 := scaled_snd
  constructor
  · intro h j hj
    -- what is read back is whole when it is scaled, so that there are no further places
    have hint : |x| * 10 ^ (scaled log10 x).1 = (⌊(scaled log10 x).2⌋₊ % 2 ^ 96 : Nat) := by
      have hread : read (write log10 x) = _ := read_write
      rw [h] at hread
      have habs := congrArg abs hread
      rw [abs_mul, abs_sign, one_mul, abs_div, Nat.abs_cast,
        abs_of_pos (pow_pos (by norm_num : (0 : ℚ) < 10) _)] at habs
      rw [habs, div_mul_cancel₀ _ (by positivity)]
    have hle : j ≤ (scaled log10 x).1 := by
      by_contra hlt
      refine hj _ (Nat.not_le.mp hlt) ?_
      rw [hint, Nat.floor_natCast]
    exact le_trans (le_scaled_iff.mp hle).1 (min_le_left _ _)
  · intro h
    obtain ⟨-, hdecimals⟩ := le_scaled_iff.mp (Nat.le_refl (scaled log10 x).1)
    have hno : ¬ HasDecimals |x| ((scaled log10 x).1 + 1) := fun hmore => by
      have h1 := h _ hmore
      have h2 := hplaces hmore
      have := le_scaled_iff.mpr ⟨le_min h1 (by omega), hmore⟩
      omega
    have hint : (scaled log10 x).2 = ⌊(scaled log10 x).2⌋₊ := by
      by_contra hne
      refine hno fun i hi => ?_
      rcases Nat.lt_succ_iff_lt_or_eq.mp hi with hi | rfl
      · exact hdecimals i hi
      · rw [← hscaled]
        exact hne
    have hlt : (scaled log10 x).2 < 2 ^ 96 := by
      rw [hscaled]
      refine lt_of_le_of_lt ?_ hwhole
      exact mul_le_mul_of_nonneg_left (pow_le_pow_right₀ (by norm_num) (hplaces hdecimals))
        (abs_nonneg x)
    have hfits : ⌊(scaled log10 x).2⌋₊ < 2 ^ 96 := by
      rw [Nat.floor_lt scaled_nonneg]
      exact_mod_cast hlt
    rw [read_write_of_lt hfits, ← hint, ← abs_eq_div, sign_mul_abs]

/-! ## The logarithm without rounding -/

/-- `log10` as it would be if it did not round. -/
def exactLog10 (x : ℚ) : Nat := Nat.findGreatest (fun k => x * 10 ^ k ≤ 2 ^ 96) 100

theorem le_exactLog10_iff {j : Nat} (hx : 0 ≤ x) (hlt : x < 2 ^ 96) (hj : j ≤ 100) :
    j ≤ exactLog10 x ↔ x * 10 ^ j ≤ 2 ^ 96 := by
  constructor
  · intro hle
    have hzero : x * 10 ^ 0 ≤ 2 ^ 96 := by
      rw [pow_zero, mul_one]
      exact hlt.le
    have hspec : x * 10 ^ exactLog10 x ≤ 2 ^ 96 :=
      Nat.findGreatest_spec (P := fun k => x * 10 ^ k ≤ 2 ^ 96) (Nat.zero_le 100) hzero
    refine le_trans ?_ hspec
    exact mul_le_mul_of_nonneg_left (pow_le_pow_right₀ (by norm_num) hle) hx
  · intro hle
    exact Nat.le_findGreatest hj hle

/-- 2^96 has no factor ten. -/
theorem hasDecimals_of_mul_eq {j : Nat} (h : x * 10 ^ j = 2 ^ 96) : HasDecimals x j := by
  intro i hi heq
  obtain ⟨k, rfl⟩ := Nat.exists_eq_add_of_lt hi
  rw [Nat.add_assoc, pow_add, ← mul_assoc, heq, pow_succ] at h
  have hnat : ⌊x * 10 ^ i⌋₊ * (10 ^ k * 10) = 2 ^ 96 := by exact_mod_cast h
  have hdvd : 10 ∣ 2 ^ 96 := ⟨_, by rw [← hnat, ← Nat.mul_assoc, Nat.mul_comm 10]⟩
  revert hdvd
  decide

theorem kept_exactLog10_iff (hlt : |x| < 2 ^ 96) :
    Kept exactLog10 x ↔ ∀ j ≤ 100, |x| * 10 ^ j ≠ 2 ^ 96 := by
  rw [kept_iff]
  constructor
  · intro h j hj heq
    have hle := (le_exactLog10_iff (abs_nonneg x) hlt hj).mpr heq.le
    exact (h j (le_min hle hj) (hasDecimals_of_mul_eq heq)).ne heq
  · intro h j hj _
    obtain ⟨hlog, hcap⟩ := le_min_iff.mp hj
    exact lt_of_le_of_ne ((le_exactLog10_iff (abs_nonneg x) hlt hcap).mp hlog) (h j hcap)

theorem exact_exactLog10 {m : ℤ} {s : Nat} (hs : s ≤ 28) (hm : |m| < 2 ^ 96) :
    read (write exactLog10 (m / 10 ^ s)) = m / 10 ^ s := by
  rw [exact_iff exactLog10 hs hm]
  intro j hj
  have hle := le_of_hasDecimals hj
  have hwhole := abs_mul_pow_lt hm s
  have hpow : |(m / 10 ^ s : ℚ)| * 10 ^ j ≤ |(m / 10 ^ s : ℚ)| * 10 ^ s :=
    mul_le_mul_of_nonneg_left (pow_le_pow_right₀ (by norm_num) hle) (abs_nonneg _)
  have hself : |(m / 10 ^ s : ℚ)| ≤ |(m / 10 ^ s : ℚ)| * 10 ^ s :=
    le_mul_of_one_le_right (abs_nonneg _) (one_le_pow₀ (by norm_num))
  refine (le_exactLog10_iff (abs_nonneg _) (lt_of_le_of_lt hself hwhole) (by omega)).mpr ?_
  exact hpow.trans hwhole.le

/--
**What decimals keep.** A number below 2^96 is kept if it fits with each of the decimal places that
the logarithm lets through; a decimal fraction is read back exactly if all of its places are. If
the logarithm did not round, the second would always hold, and the first fail for 2^96 divided by
a power of ten.
-/
theorem kept_and_exact_iff (log10 : ℚ → Nat) :
    (∀ x : ℚ, |x| < 2 ^ 96 → (Kept log10 x ↔
      ∀ j ≤ min (log10 |x|) 100, HasDecimals |x| j → |x| * 10 ^ j < 2 ^ 96)) ∧
    (∀ (m : ℤ) (s : Nat), s ≤ 28 → |m| < 2 ^ 96 →
      (read (write log10 (m / 10 ^ s)) = m / 10 ^ s ↔
        ∀ j, HasDecimals |(m / 10 ^ s : ℚ)| j → j ≤ log10 |(m / 10 ^ s : ℚ)|)) ∧
    (∀ x : ℚ, |x| < 2 ^ 96 →
      (Kept exactLog10 x ↔ ∀ j ≤ 100, |x| * 10 ^ j ≠ 2 ^ 96)) ∧
    ∀ (m : ℤ) (s : Nat), s ≤ 28 → |m| < 2 ^ 96 →
      read (write exactLog10 (m / 10 ^ s)) = m / 10 ^ s :=
  ⟨fun x _ => kept_iff log10 x, fun _ _ hs hm => exact_iff log10 hs hm,
    fun _ hx => kept_exactLog10_iff hx, fun _ _ hs hm => exact_exactLog10 hs hm⟩

/-- The tenth part of 2^96 gets the mantissa 2^96. -/
theorem not_kept_power : |(2 ^ 96 / 10 : ℚ)| < 2 ^ 96 ∧ ¬ Kept exactLog10 (2 ^ 96 / 10) := by
  have habs : |(2 ^ 96 / 10 : ℚ)| = 2 ^ 96 / 10 := abs_of_pos (by norm_num)
  have hlt : |(2 ^ 96 / 10 : ℚ)| < 2 ^ 96 := by
    rw [habs]
    norm_num
  refine ⟨hlt, fun h => (kept_exactLog10_iff hlt).mp h 1 (by decide) ?_⟩
  rw [habs]
  norm_num

end Decimal

end BclCompat
