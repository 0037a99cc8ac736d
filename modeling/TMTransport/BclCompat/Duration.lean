import Mathlib.Tactic.Set
import TMTransport.Library.Chrono
import TMTransport.Locator.Serialization

/-!
# Durations as texts

`ConvertibleWithString<std::chrono::duration>`: a count and a unit. Days, weeks, months and
years are read by way of hours, which is what C++17 has. A duration whose period has no unit
is written in seconds, or in nanoseconds if its period has the numerator 1.

The texts are kept as lists of characters.
-/

namespace BclCompat

open Chrono ConnectionLocator

/--
The periods that the code names, and the others. A `std::ratio` that is not in lowest terms is
none of those it names, even where it is as long.
-/
inductive Period where
  | seconds
  | milli
  | micro
  | nano
  | minutes
  | hours
  | days
  | weeks
  | months
  | years
  | other (ratio : Ratio)

def Period.ratio : Period → Ratio
  | .seconds => .second
  | .milli => .milli
  | .micro => .micro
  | .nano => .nano
  | .minutes => .seconds 60 (by decide)
  | .hours => .seconds 3600 (by decide)
  | .days => .seconds 86400 (by decide)
  | .weeks => .seconds 604800 (by decide)
  | .months => .seconds 2629746 (by decide)
  | .years => .seconds 31556952 (by decide)
  | .other ratio => ratio

abbrev hour : Ratio := .seconds 3600 (by decide)

abbrev minute : Ratio := .seconds 60 (by decide)

/-- `boost::lexical_cast<int64_t>` -/
def lexicalCast (s : Text) : Option Count :=
  match s with
  | '-' :: ds => (digitsToNat ds).bind fun n => Count.ofInt (-n)
  | '+' :: ds => (digitsToNat ds).bind fun n => Count.ofInt n
  | ds => (digitsToNat ds).bind fun n => Count.ofInt n

/-- A count and its unit. -/
def text (c : Count) (unit : String) : Text := intText c.val ++ unit.toList

/-- `ConvertibleWithString::toString`. `none` is a signed overflow. -/
def Period.toString (c : Count) : Period → Option Text
  | .seconds => some (text c "s")
  | .milli => some (text c "ms")
  | .micro => some (text c "us")
  | .nano => some (text c "ns")
  | .minutes => some (text c "min")
  | .hours => some (text c "hr")
  | .days => some (text c "d")
  | .weeks => some (text c "wk")
  | .months => some (text c "mon")
  | .years => some (text c "yr")
  | .other ratio =>
    if 1 < ratio.num then (durationCast ratio .second c).map fun sec => text sec "s"
    else (durationCast ratio .nano c).map fun nsec => text nsec "ns"

/-- The branches of `fromString`. A unit that it does not know makes a duration of zero. -/
def fromUnit (p : Ratio) (count : Count) (unit : Text) : Option Count :=
  if unit = "s".toList then durationCast .second p count
  else if unit = "ms".toList then durationCast .milli p count
  else if unit = "us".toList then durationCast .micro p count
  else if unit = "ns".toList then durationCast .nano p count
  else if unit = "min".toList then durationCast minute p count
  else if unit = "hr".toList then durationCast hour p count
  else if unit = "d".toList then (count.mul 24).bind (durationCast hour p)
  else if unit = "wk".toList then
    (count.mul 24).bind fun x => (x.mul 7).bind (durationCast hour p)
  else if unit = "mon".toList then
    -- `toString` takes a month for 2629746 seconds
    (count.mul 2629646).bind fun x => durationCast hour p (x.div 3600)
  else if unit = "yr".toList then
    (count.mul 31556952).bind fun x => durationCast hour p (x.div 3600)
  else some .zero

/-- `ConvertibleWithString::fromString` -/
def Period.fromString (p : Period) (s : Text) : Option Count :=
  let unit := (s.reverse.takeWhile Char.isAlpha).reverse
  let countStr := (s.reverse.dropWhile Char.isAlpha).reverse
  if unit = [] then some .zero
  else if countStr = [] then some .zero
  else
    match lexicalCast countStr with
    | some count => fromUnit p.ratio count unit
    | none => some .zero

/-- The unit that the text is in. -/
def Period.textUnit : Period → Ratio
  | .other ratio => if 1 < ratio.num then .second else .nano
  | p => p.ratio

/-- What is left of a duration in the unit of its text. -/
def Period.converted (p : Period) (n : Int) : Int :=
  convert p.textUnit p.ratio (convert p.ratio p.textUnit n)

def RoundTrips (p : Period) (c : Count) : Prop :=
  ((p.toString c).bind p.fromString).map Count.val = some (p.converted c.val)

/-- The counts whose texts are read back well. -/
def Readable : Period → Int → Prop
  | .days, n => InRange (n * 24)
  | .weeks, n => InRange (n * 168)
  | .months, n => n = 0
  | .years, n => 50 ∣ n ∧ InRange (n * 31556952)
  | .other ratio, n =>
    if 1 < ratio.num then InRange (n * ratio.num)
    else InRange (n * (1000000000 / Nat.gcd 1000000000 ratio.den : Nat))
  | _, _ => True

/-! ## Texts -/

theorem not_isAlpha_of_isDigit {c : Char} (h : c.isDigit = true) : c.isAlpha = false := by
  unfold Char.isDigit at h
  unfold Char.isAlpha Char.isUpper Char.isLower
  simp only [ge_iff_le, Bool.and_eq_true, decide_eq_true_eq, UInt32.le_iff_toNat_le] at h
  simp only [ge_iff_le, UInt32.le_iff_toNat_le, Bool.or_eq_false_iff, Bool.and_eq_false_iff,
    decide_eq_false_iff_not]
  have hnine : '9'.val.toNat = 57 := rfl
  have hupper : 'A'.val.toNat = 65 := rfl
  have hlower : 'a'.val.toNat = 97 := rfl
  omega

theorem not_isAlpha_of_mem_intText {n : Int} {c : Char} (h : c ∈ intText n) :
    c.isAlpha = false := by
  rcases digit_or_minus h with h | rfl
  · exact not_isAlpha_of_isDigit h
  · rfl

theorem lexicalCast_intText (c : Count) : lexicalCast (intText c.val) = some c := by
  obtain ⟨n, hn⟩ := c
  rcases intText_cases n with ⟨m, rfl, htext, hminus, hplus⟩ | ⟨m, rfl, htext⟩
  · rw [htext, lexicalCast.eq_3 _ hminus hplus, digitsToNat_toDigits, Option.bind_some]
    exact Count.ofInt_of_inRange hn
  · rw [htext, lexicalCast, digitsToNat_toDigits, Option.bind_some]
    exact Count.ofInt_of_inRange hn

/-- What is written is taken apart into count and unit. -/
theorem fromString_text (p : Period) (c : Count) {unit : String} (hunit : unit.toList ≠ [])
    (halpha : unit.toList.all Char.isAlpha = true) :
    p.fromString (text c unit) = fromUnit p.ratio c unit.toList := by
  have hrev : (text c unit).reverse = unit.toList.reverse ++ (intText c.val).reverse :=
    List.reverse_append
  have hall : ∀ x ∈ unit.toList.reverse, x.isAlpha = true := fun x hx =>
    List.all_eq_true.mp halpha x (List.mem_reverse.mp hx)
  have hfirst : ∀ {y l}, (intText c.val).reverse = y :: l → y.isAlpha = false := fun hy =>
    not_isAlpha_of_mem_intText (List.mem_reverse.mp (hy ▸ List.mem_cons_self))
  have htake : (intText c.val).reverse.takeWhile Char.isAlpha = [] := by
    cases hy : (intText c.val).reverse with
    | nil => rfl
    | cons y l => rw [List.takeWhile_cons_of_neg (by simp [hfirst hy])]
  have hdrop : (intText c.val).reverse.dropWhile Char.isAlpha = (intText c.val).reverse := by
    cases hy : (intText c.val).reverse with
    | nil => rfl
    | cons y l => rw [List.dropWhile_cons_of_neg (by simp [hfirst hy])]
  unfold Period.fromString
  rw [hrev, List.takeWhile_append_of_pos hall, List.dropWhile_append_of_pos hall, htake, hdrop,
    List.append_nil, List.reverse_reverse, List.reverse_reverse]
  dsimp only
  rw [if_neg hunit, if_neg (intText_ne_nil _), lexicalCast_intText]

/-! ## There and back -/

/-- What the text of a duration is read as. -/
theorem fromString_toString (p : Period) (c : Count) :
    (p.toString c).bind p.fromString = match p with
      | .days => (c.mul 24).bind (durationCast hour p.ratio)
      | .weeks => (c.mul 24).bind fun x => (x.mul 7).bind (durationCast hour p.ratio)
      | .months => (c.mul 2629646).bind fun x => durationCast hour p.ratio (x.div 3600)
      | .years => (c.mul 31556952).bind fun x => durationCast hour p.ratio (x.div 3600)
      | .other ratio =>
        (durationCast ratio p.textUnit c).bind (durationCast p.textUnit ratio)
      | _ => some c := by
  have hs : ∀ c, p.fromString (text c "s") = durationCast .second p.ratio c := fun c =>
    fromString_text p c (by decide) rfl
  have hns : ∀ c, p.fromString (text c "ns") = durationCast .nano p.ratio c := fun c =>
    fromString_text p c (by decide) rfl
  cases p with
  | seconds => exact (hs c).trans (durationCast_self _ c)
  | milli => exact (fromString_text _ c (by decide) rfl).trans (durationCast_self .milli c)
  | micro => exact (fromString_text _ c (by decide) rfl).trans (durationCast_self .micro c)
  | nano => exact (hns c).trans (durationCast_self _ c)
  | minutes => exact (fromString_text _ c (by decide) rfl).trans (durationCast_self minute c)
  | hours => exact (fromString_text _ c (by decide) rfl).trans (durationCast_self hour c)
  | days => exact fromString_text _ c (by decide) rfl
  | weeks => exact fromString_text _ c (by decide) rfl
  | months => exact fromString_text _ c (by decide) rfl
  | years => exact fromString_text _ c (by decide) rfl
  | other ratio =>
      unfold Period.toString Period.textUnit
      dsimp only
      split
      · rw [Option.bind_map]
        exact congrArg _ (funext hs)
      · rw [Option.bind_map]
        exact congrArg _ (funext hns)

@[simp]
theorem converted_of_textUnit {p : Period} (h : p.textUnit = p.ratio) (n : Int) :
    p.converted n = n := by
  unfold Period.converted
  rw [h, convert_self, convert_self]

section Each

variable (c : Count)

theorem roundTrips_days : RoundTrips .days c ↔ InRange (c.val * 24) := by
  unfold RoundTrips
  rw [fromString_toString, converted_of_textUnit rfl]
  dsimp only
  rw [Count.map_bind_mul]
  split
  · next h => exact iff_of_true (durationCast_of_multiple rfl rfl (by decide) rfl) h
  · next h => exact iff_of_false (Option.some_ne_none _).symm h

theorem roundTrips_weeks : RoundTrips .weeks c ↔ InRange (c.val * 168) := by
  unfold RoundTrips
  rw [fromString_toString, converted_of_textUnit rfl]
  dsimp only
  have hassoc : c.val * (24 : Nat) * (7 : Nat) = c.val * 168 := Int.mul_assoc _ _ _
  rw [Count.map_bind_mul]
  split
  · rw [Count.map_bind_mul]
    dsimp only
    rw [hassoc]
    split
    · next h => exact iff_of_true (durationCast_of_multiple rfl rfl (by decide) rfl) h
    · next h => exact iff_of_false (Option.some_ne_none _).symm h
  · next h =>
    refine iff_of_false (Option.some_ne_none _).symm fun h' => h (h'.toward ?_)
    exact toward_mul_of_le (by decide) c.val

/-- The number of seconds in a month that `fromString` has is too small. -/
theorem roundTrips_months : RoundTrips .months c ↔ c.val = 0 := by
  unfold RoundTrips
  rw [fromString_toString, converted_of_textUnit rfl]
  dsimp only
  rw [Count.map_bind_mul]
  split
  · next h =>
    -- the hours are too few, so that the months, cut off, are fewer
    rw [val_durationCast]
    set x := (c.val * (2629646 : Nat)).tdiv (3600 : Nat) with hx
    have hdiv : ((⟨c.val * (2629646 : Nat), h⟩ : Count).div 3600).val = x := rfl
    rw [hdiv]
    have hhours : Toward (x * 3600) (c.val * 2629646) := toward_tdiv_mul _ _
    have hmonths : Toward (convert hour Period.months.ratio x * 2629746) (x * 3600) := by
      show Toward ((x * 3600).tdiv 2629746 * 2629746) (x * 3600)
      exact toward_tdiv_mul _ 2629746
    constructor
    · intro heq
      have hback := (Option.ite_none_right_eq_some.mp heq).2
      rw [Option.some.inj hback] at hmonths
      unfold Toward at hhours hmonths
      omega
    · intro hzero
      have hx0 : x = 0 := by
        rw [hx, hzero]
        rfl
      rw [hx0, hzero]
      rfl
  · next h =>
    refine iff_of_false (Option.some_ne_none _).symm fun hzero => h ?_
    rw [hzero]
    decide

theorem roundTrips_years :
    RoundTrips .years c ↔ 50 ∣ c.val ∧ InRange (c.val * 31556952) := by
  unfold RoundTrips
  rw [fromString_toString, converted_of_textUnit rfl]
  dsimp only
  rw [Count.map_bind_mul]
  split
  · next h =>
    rw [val_durationCast]
    have hdiv : ((⟨c.val * (31556952 : Nat), h⟩ : Count).div 3600).val =
        convert Period.years.ratio hour c.val := rfl
    rw [hdiv]
    have hrange : InRange (convert Period.years.ratio hour c.val *
        hour.multiplier Period.years.ratio) :=
      inRange_back (h.toward (toward_mul_of_le (by decide) c.val))
    rw [if_pos hrange, Option.some.injEq, convert_convert_eq_self]
    exact (and_iff_left h).symm
  · next h => exact iff_of_false (Option.some_ne_none _).symm fun h' => h h'.2

theorem roundTrips_other (ratio : Ratio) :
    RoundTrips (.other ratio) c ↔
      InRange (c.val * ratio.multiplier (Period.other ratio).textUnit) := by
  unfold RoundTrips
  rw [fromString_toString]
  dsimp only
  by_cases h : InRange (c.val * ratio.multiplier (Period.other ratio).textUnit)
  · obtain ⟨x, hx, hval⟩ := durationCast_of_inRange h
    rw [hx, Option.bind_some, val_durationCast, hval, if_pos (inRange_back h)]
    exact iff_of_true rfl h
  · rw [durationCast_of_not h]
    exact iff_of_false (Option.some_ne_none _).symm h

end Each

theorem multiplier_second (ratio : Ratio) : ratio.multiplier .second = ratio.num := by
  have hcommon : ratio.common .second = 1 := by
    unfold Ratio.common
    rw [show Ratio.second.den = 1 from rfl, show Ratio.second.num = 1 from rfl, Nat.mul_one,
      Nat.mul_one]
    exact ratio.coprime
  unfold Ratio.multiplier
  rw [hcommon, Nat.div_one]
  exact Nat.mul_one _

theorem multiplier_nano {ratio : Ratio} (h : ¬ 1 < ratio.num) :
    ratio.multiplier .nano = 1000000000 / Nat.gcd 1000000000 ratio.den := by
  have hnum : ratio.num = 1 := Nat.le_antisymm (Nat.not_lt.mp h) ratio.num_pos
  unfold Ratio.multiplier Ratio.common
  rw [hnum, show Ratio.nano.den = 1000000000 from rfl, show Ratio.nano.num = 1 from rfl,
    Nat.one_mul, Nat.mul_one]

/--
**Which texts read back**: all of seconds, their parts, minutes and hours; months never; years if
they are a multiple of 50; and nowhere does a product overflow.
-/
theorem roundTrips_iff_readable (p : Period) (c : Count) : RoundTrips p c ↔ Readable p c.val := by
  have hnamed : ∀ {p : Period}, (p.toString c).bind p.fromString = some c →
      p.textUnit = p.ratio → RoundTrips p c := fun h hunit => by
    unfold RoundTrips
    rw [h, converted_of_textUnit hunit]
    rfl
  cases p with
  | days => exact roundTrips_days c
  | weeks => exact roundTrips_weeks c
  | months => exact roundTrips_months c
  | years => exact roundTrips_years c
  | other ratio =>
      rw [roundTrips_other, Period.textUnit, Readable]
      split
      · rw [multiplier_second]
      · next h => rw [multiplier_nano h]
  | seconds => exact iff_of_true (hnamed (fromString_toString _ c) rfl) trivial
  | milli => exact iff_of_true (hnamed (fromString_toString _ c) rfl) trivial
  | micro => exact iff_of_true (hnamed (fromString_toString _ c) rfl) trivial
  | nano => exact iff_of_true (hnamed (fromString_toString _ c) rfl) trivial
  | minutes => exact iff_of_true (hnamed (fromString_toString _ c) rfl) trivial
  | hours => exact iff_of_true (hnamed (fromString_toString _ c) rfl) trivial

/-- One month is read as none, and one year as none. -/
theorem not_roundTrips_month_year :
    ¬ RoundTrips .months ⟨1, by decide⟩ ∧ ¬ RoundTrips .years ⟨1, by decide⟩ := by
  constructor
  · intro h
    cases h
  · intro h
    cases h

end BclCompat
