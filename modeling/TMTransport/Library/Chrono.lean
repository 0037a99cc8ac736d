import Mathlib.Algebra.Order.Group.Int
import Mathlib.Data.Int.GCD
import Mathlib.Data.Nat.GCD.Basic
import Mathlib.Tactic.Ring

/-!
# Durations of 64-bit counts

`std::chrono::duration<int64_t, Period>`, and `std::chrono::duration_cast` between two periods:
the count is multiplied and then divided, by the two parts of the quotient of the periods in
lowest terms. The product may overflow. If it does not, the result is the exact one, cut off
toward zero.
-/

namespace Chrono

/-! ## Counts -/

/-- The range of an `int64_t`. -/
def InRange (n : Int) : Prop := -9223372036854775808 ≤ n ∧ n ≤ 9223372036854775807

instance : DecidablePred InRange := fun _ => inferInstanceAs (Decidable (_ ∧ _))

/-- `x` is on the way from zero to `y`. -/
def Toward (x y : Int) : Prop := 0 ≤ x ∧ x ≤ y ∨ y ≤ x ∧ x ≤ 0

section Toward

variable {x y z : Int}

theorem Toward.trans (h : Toward x y) (h' : Toward y z) : Toward x z := by
  unfold Toward at *
  omega

theorem InRange.toward (h : InRange y) (h' : Toward x y) : InRange x := by
  unfold InRange Toward at *
  omega

theorem Toward.mul (h : Toward x y) (k : Nat) : Toward (x * k) (y * k) := by
  have hk : (0 : Int) ≤ k := Int.natCast_nonneg k
  rcases h with ⟨h0, hle⟩ | ⟨hle, h0⟩
  · exact .inl ⟨Int.mul_nonneg h0 hk, Int.mul_le_mul_of_nonneg_right hle hk⟩
  · exact .inr ⟨Int.mul_le_mul_of_nonneg_right hle hk, Int.mul_nonpos_of_nonpos_of_nonneg h0 hk⟩

theorem Toward.of_mul {k : Nat} (hk : 0 < k) (h : Toward (x * k) (y * k)) : Toward x y := by
  have hk : (0 : Int) < k := by omega
  rcases h with ⟨h0, hle⟩ | ⟨hle, h0⟩
  · exact .inl ⟨Int.nonneg_of_mul_nonneg_left h0 hk, Int.le_of_mul_le_mul_right hle hk⟩
  · refine .inr ⟨Int.le_of_mul_le_mul_right hle hk, ?_⟩
    exact Int.le_of_mul_le_mul_right (by rw [Int.zero_mul]; exact h0) hk

theorem toward_mul_of_le {j k : Nat} (h : j ≤ k) (x : Int) : Toward (x * j) (x * k) := by
  have h : (j : Int) ≤ k := by omega
  rcases Int.le_total 0 x with hx | hx
  · exact .inl ⟨Int.mul_nonneg hx (Int.natCast_nonneg j), Int.mul_le_mul_of_nonneg_left h hx⟩
  · exact .inr ⟨Int.mul_le_mul_of_nonpos_left hx h,
      Int.mul_nonpos_of_nonpos_of_nonneg hx (Int.natCast_nonneg j)⟩

theorem toward_mul {k : Nat} (hk : 0 < k) (x : Int) : Toward x (x * k) := by
  have h := toward_mul_of_le (j := 1) hk x
  rwa [Int.natCast_one, Int.mul_one] at h

/-- Division cuts off toward zero. -/
theorem toward_tdiv_mul (x : Int) (k : Nat) : Toward (x.tdiv k * k) x := by
  rcases Int.le_total 0 x with h | h
  · have hq := Int.tdiv_nonneg h (Int.natCast_nonneg k)
    refine .inl ⟨Int.mul_nonneg hq (Int.natCast_nonneg k), ?_⟩
    rw [Int.mul_comm]
    exact Int.mul_tdiv_self_le h
  · have h := Int.neg_nonneg_of_nonpos h
    have hq := Int.tdiv_nonneg h (Int.natCast_nonneg k)
    have hle := Int.mul_tdiv_self_le (k := k) h
    have h0 := Int.mul_nonneg (Int.natCast_nonneg k) hq
    rw [Int.neg_tdiv, Int.mul_neg, Int.mul_comm] at hle h0
    exact .inr (by omega)

theorem toward_tdiv (x : Int) (k : Nat) : Toward (x.tdiv k) x := by
  rcases Nat.eq_zero_or_pos k with rfl | hk
  · rw [Int.natCast_zero, Int.tdiv_zero]
    unfold Toward
    omega
  · exact (toward_mul hk _).trans (toward_tdiv_mul x k)

end Toward

/-- An `int64_t` -/
@[ext]
structure Count where
  val : Int
  inRange : InRange val
  deriving DecidableEq

namespace Count

/-- A result, unless there is a signed overflow. -/
def ofInt (n : Int) : Option Count := if h : InRange n then some ⟨n, h⟩ else none

def zero : Count := ⟨0, by decide⟩

def mul (c : Count) (k : Nat) : Option Count := ofInt (c.val * k)

def div (c : Count) (k : Nat) : Count := ⟨c.val.tdiv k, c.inRange.toward (toward_tdiv _ _)⟩

variable {c : Count} {n : Int} {k : Nat}

theorem ofInt_of_inRange (h : InRange n) : ofInt n = some ⟨n, h⟩ := dif_pos h

theorem mul_of_inRange (h : InRange (c.val * k)) : c.mul k = some ⟨c.val * k, h⟩ := dif_pos h

theorem mul_of_not (h : ¬ InRange (c.val * k)) : c.mul k = none := dif_neg h

theorem mul_one (c : Count) : c.mul 1 = some c := by
  have h : c.val * (1 : Nat) = c.val := Int.mul_one _
  have hc : InRange (c.val * (1 : Nat)) := by
    rw [h]
    exact c.inRange
  rw [mul_of_inRange hc]
  exact congrArg some (Count.ext h)

/-- A product, and what is done with it. -/
theorem map_bind_mul {β γ : Type} (f : Count → Option β) (g : β → γ) (c : Count) (k : Nat) :
    ((c.mul k).bind f).map g =
      if h : InRange (c.val * k) then (f ⟨c.val * k, h⟩).map g else none := by
  split
  · next h =>
    rw [mul_of_inRange h]
    rfl
  · next h =>
    rw [mul_of_not h]
    rfl

end Count

/-! ## Periods -/

/-- `std::ratio`, in lowest terms: a number of seconds. -/
structure Ratio where
  num : Nat
  den : Nat
  num_pos : 0 < num
  den_pos : 0 < den
  coprime : num.Coprime den

namespace Ratio

def second : Ratio := ⟨1, 1, by decide, by decide, by decide⟩

def milli : Ratio := ⟨1, 1000, by decide, by decide, by decide⟩

def micro : Ratio := ⟨1, 1000000, by decide, by decide, by decide⟩

def nano : Ratio := ⟨1, 1000000000, by decide, by decide, by decide⟩

/-- A whole number of seconds. -/
def seconds (n : Nat) (h : 0 < n) : Ratio := ⟨n, 1, h, by decide, Nat.coprime_one_right n⟩

/-- What the quotient of two periods is reduced by. -/
def common (p q : Ratio) : Nat := (p.num * q.den).gcd (p.den * q.num)

/-- `std::ratio_divide<P, Q>::num` -/
def multiplier (p q : Ratio) : Nat := p.num * q.den / p.common q

/-- `std::ratio_divide<P, Q>::den` -/
def divisor (p q : Ratio) : Nat := p.den * q.num / p.common q

variable (p q : Ratio)

theorem common_pos : 0 < p.common q :=
  Nat.gcd_pos_of_pos_left _ (Nat.mul_pos p.num_pos q.den_pos)

theorem multiplier_mul : p.multiplier q * p.common q = p.num * q.den :=
  Nat.div_mul_cancel (Nat.gcd_dvd_left _ _)

theorem divisor_mul : p.divisor q * p.common q = p.den * q.num :=
  Nat.div_mul_cancel (Nat.gcd_dvd_right _ _)

theorem multiplier_pos : 0 < p.multiplier q :=
  Nat.pos_of_mul_pos_right (p.multiplier_mul q ▸ Nat.mul_pos p.num_pos q.den_pos)

theorem coprime_divide : (p.multiplier q).Coprime (p.divisor q) :=
  Nat.coprime_div_gcd_div_gcd (p.common_pos q)

theorem multiplier_symm : q.multiplier p = p.divisor q := by
  unfold multiplier divisor common
  rw [Nat.gcd_comm, Nat.mul_comm q.num, Nat.mul_comm q.den]

theorem divisor_symm : q.divisor p = p.multiplier q := (multiplier_symm q p).symm

end Ratio

/-! ## Casts -/

/-- A count of one period in another one, cut off toward zero. -/
def convert (p q : Ratio) (n : Int) : Int :=
  (n * (p.num * q.den : Nat)).tdiv (p.den * q.num : Nat)

/-- `std::chrono::duration_cast`. `none` is a signed overflow. -/
def durationCast (p q : Ratio) (c : Count) : Option Count :=
  (c.mul (p.multiplier q)).map fun x => x.div (p.divisor q)

section Cast

variable {p q r : Ratio} {c : Count} {n : Int}

theorem convert_eq (p q : Ratio) (n : Int) :
    convert p q n = (n * p.multiplier q).tdiv (p.divisor q) := by
  have hg : (0 : Int) < p.common q := by exact_mod_cast p.common_pos q
  rw [convert, ← p.multiplier_mul q, ← p.divisor_mul q, Int.natCast_mul, Int.natCast_mul,
    ← Int.mul_assoc, Int.mul_tdiv_mul_of_pos_left _ _ hg]

/-- A quotient does not change with the terms of the fraction. -/
theorem tdiv_eq_tdiv {x y : Int} {k l : Nat} (hk : 0 < k) (hl : 0 < l) (h : x * l = y * k) :
    x.tdiv k = y.tdiv l := by
  have hk : (0 : Int) < k := by omega
  have hl : (0 : Int) < l := by omega
  rw [← Int.mul_tdiv_mul_of_pos_left x k hl, h, Int.mul_comm (k : Int) l,
    Int.mul_tdiv_mul_of_pos_left y l hk]

theorem tdiv_tdiv (x : Int) (k l : Nat) : (x.tdiv k).tdiv l = x.tdiv (k * l : Nat) := by
  have hnat : ∀ m : Nat, ((m : Int).tdiv k).tdiv l = (m : Int).tdiv (k * l : Nat) := fun m => by
    rw [← Int.ofNat_tdiv, ← Int.ofNat_tdiv, ← Int.ofNat_tdiv, Nat.div_div_eq_div_mul]
  rcases Int.natAbs_eq x with h | h
  · rw [h]
    exact hnat _
  · rw [h, Int.neg_tdiv, Int.neg_tdiv, Int.neg_tdiv]
    exact congrArg Neg.neg (hnat _)

/-- A count that is `k` times as large of a period that is `k` times as short. -/
theorem convert_mul {k : Nat} (h : q.num * p.den = k * (p.num * q.den)) (n : Int) :
    convert p r (n * k) = convert q r n := by
  refine tdiv_eq_tdiv (Nat.mul_pos p.den_pos r.num_pos) (Nat.mul_pos q.den_pos r.num_pos) ?_
  have hnat : k * (p.num * r.den) * (q.den * r.num) = q.num * r.den * (p.den * r.num) := by
    calc k * (p.num * r.den) * (q.den * r.num) = k * (p.num * q.den) * (r.den * r.num) := by ring
      _ = q.num * p.den * (r.den * r.num) := by rw [h]
      _ = q.num * r.den * (p.den * r.num) := by ring
  calc n * k * (p.num * r.den : Nat) * (q.den * r.num : Nat)
      = n * (k * (p.num * r.den) * (q.den * r.num) : Nat) := by push_cast; ring
    _ = n * (q.num * r.den : Nat) * (p.den * r.num : Nat) := by rw [hnat]; push_cast; ring

theorem convert_of_divisor_one (h : p.divisor q = 1) (n : Int) :
    convert p q n = n * p.multiplier q := by
  rw [convert_eq, h]
  exact Int.tdiv_one _

theorem durationCast_of_inRange (h : InRange (c.val * p.multiplier q)) :
    ∃ c', durationCast p q c = some c' ∧ c'.val = convert p q c.val := by
  unfold durationCast
  rw [Count.mul_of_inRange h]
  exact ⟨_, rfl, (convert_eq p q c.val).symm⟩

theorem durationCast_of_not (h : ¬ InRange (c.val * p.multiplier q)) :
    durationCast p q c = none := by
  unfold durationCast
  rw [Count.mul_of_not h]
  rfl

theorem val_durationCast (p q : Ratio) (c : Count) :
    (durationCast p q c).map Count.val =
      if InRange (c.val * p.multiplier q) then some (convert p q c.val) else none := by
  split
  · next h =>
    obtain ⟨c', hc', hval⟩ := durationCast_of_inRange h
    rw [hc', Option.map_some, hval]
  · next h =>
    rw [durationCast_of_not h]
    rfl

/-- What was converted is not farther from zero than it was. -/
theorem toward_convert (p q : Ratio) (n : Int) :
    Toward (convert p q n * q.multiplier p) (n * p.multiplier q) := by
  rw [convert_eq, p.multiplier_symm q]
  exact toward_tdiv_mul _ _

theorem toward_convert_convert (p q : Ratio) (n : Int) :
    Toward (convert q p (convert p q n)) n := by
  refine Toward.of_mul (p.multiplier_pos q) (Toward.trans ?_ (toward_convert p q n))
  exact toward_convert q p (convert p q n)

/-- So the way back is never too long. -/
theorem inRange_back (h : InRange (n * p.multiplier q)) :
    InRange (convert p q n * q.multiplier p) := h.toward (toward_convert p q n)

@[simp]
theorem convert_self (p : Ratio) (n : Int) : convert p p n = n := by
  unfold convert
  rw [Nat.mul_comm p.den]
  exact Int.mul_tdiv_cancel _ (Int.natCast_ne_zero.mpr
    (Nat.ne_of_gt (Nat.mul_pos p.num_pos p.den_pos)))

theorem multiplier_self (p : Ratio) : p.multiplier p = 1 := by
  unfold Ratio.multiplier Ratio.common
  rw [Nat.mul_comm p.den, Nat.gcd_self, Nat.div_self (Nat.mul_pos p.num_pos p.den_pos)]

@[simp]
theorem durationCast_self (p : Ratio) (c : Count) : durationCast p p c = some c := by
  have h : c.val * p.multiplier p = c.val := by
    rw [multiplier_self]
    exact Int.mul_one _
  obtain ⟨c', hc', hval⟩ := durationCast_of_inRange (p := p) (q := p) (h ▸ c.inRange)
  rw [hc', Count.ext (hval.trans (convert_self p c.val))]

/-- A multiple of a longer period comes back from the shorter one. -/
theorem durationCast_of_multiple {k : Nat} (hmultiplier : p.multiplier q = 1)
    (hdivisor : p.divisor q = k) (hk : 0 < k) (hn : c.val = n * k) :
    (durationCast p q c).map Count.val = some n := by
  have hone : c.val * (1 : Nat) = c.val := Int.mul_one _
  rw [val_durationCast, convert_eq, hmultiplier, hdivisor, hone, if_pos c.inRange, hn,
    Int.mul_tdiv_cancel _ (by omega)]

/-- There and back is the way it was if nothing was cut off. -/
theorem convert_convert_eq_self :
    convert q p (convert p q n) = n ↔ (p.divisor q : Int) ∣ n := by
  have hm : (p.multiplier q : Int) ≠ 0 :=
    Int.natCast_ne_zero.mpr (Nat.ne_of_gt (p.multiplier_pos q))
  have hcop : Int.gcd (p.divisor q) (p.multiplier q) = 1 :=
    (Nat.coprime_comm.mp (p.coprime_divide q))
  rw [convert_eq q p, p.multiplier_symm q, p.divisor_symm q]
  constructor
  · intro h
    have htoward := toward_convert p q n
    rw [p.multiplier_symm q] at htoward
    have hback := toward_tdiv_mul (convert p q n * p.divisor q) (p.multiplier q)
    rw [h] at hback
    have heq : convert p q n * p.divisor q = n * p.multiplier q := by
      unfold Toward at htoward hback
      omega
    refine Int.dvd_of_dvd_mul_left_of_gcd_one ?_ hcop
    rw [← heq]
    exact Int.dvd_mul_left _ _
  · intro h
    rw [convert_eq, Int.tdiv_mul_cancel (Int.dvd_mul_of_dvd_left h), Int.mul_tdiv_cancel _ hm]

/-- A quotient of naturals, rounded up. -/
def roundUp (a b : Nat) : Nat := (a + b - 1) / b

/-- What is lost there and back is the remainder, rounded up. -/
theorem mul_div_mul_div {n a b : Nat} (ha : 0 < a) :
    n * a / b * b / a = n - roundUp (n * a % b) a := by
  have hsplit : n * a / b * b + n * a % b = n * a := Nat.div_add_mod' _ _
  set r := n * a % b
  have hup : roundUp r a * a < r + a ∧ r ≤ roundUp r a * a := by
    have h1 := Nat.div_mul_le_self (r + a - 1) a
    have h2 := Nat.lt_div_mul_add ha (a := r + a - 1)
    unfold roundUp
    omega
  refine Nat.div_eq_of_lt_le ?_ ?_
  · rw [Nat.sub_mul]
    omega
  · rw [Nat.add_mul, Nat.sub_mul]
    omega

theorem roundUp_le {n a b : Nat} (ha : 0 < a) : roundUp (n * a % b) a ≤ n := by
  have hle : n * a % b ≤ a * n := Nat.mul_comm n a ▸ Nat.mod_le _ _
  unfold roundUp
  rw [Nat.div_le_iff_le_mul_add_pred ha]
  omega

theorem natAbs_convert (p q : Ratio) (n : Int) :
    (convert p q n).natAbs = n.natAbs * (p.num * q.den) / (p.den * q.num) := by
  unfold convert
  rw [Int.natAbs_tdiv, Int.natAbs_mul, Int.natAbs_natCast, Int.natAbs_natCast]
  rfl

/-- Two units that are each one part of a second keep the same of a duration. -/
theorem convert_convert_congr {u u' : Ratio} (hu : u.num = 1) (hu' : u'.num = 1) :
    convert u p (convert p u n) = convert u' p (convert p u' n) ↔
      roundUp (n.natAbs * (p.num * u.den) % p.den) (p.num * u.den) =
        roundUp (n.natAbs * (p.num * u'.den) % p.den) (p.num * u'.den) := by
  have habs : ∀ {v : Ratio}, v.num = 1 → (convert v p (convert p v n)).natAbs =
      n.natAbs - roundUp (n.natAbs * (p.num * v.den) % p.den) (p.num * v.den) := fun hv => by
    rw [natAbs_convert, natAbs_convert, hv, Nat.one_mul, Nat.mul_one, Nat.mul_comm _ p.num,
      mul_div_mul_div (Nat.mul_pos p.num_pos (Ratio.den_pos _))]
  have hle : ∀ v : Ratio, roundUp (n.natAbs * (p.num * v.den) % p.den) (p.num * v.den) ≤ n.natAbs :=
    fun v => roundUp_le (Nat.mul_pos p.num_pos v.den_pos)
  have h := toward_convert_convert p u n
  have h' := toward_convert_convert p u' n
  have ha := habs hu
  have ha' := habs hu'
  have hl := hle u
  have hl' := hle u'
  unfold Toward at h h'
  omega

end Cast

end Chrono
