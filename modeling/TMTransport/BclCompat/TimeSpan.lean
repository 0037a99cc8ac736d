import TMTransport.BclCompat.Duration

/-!
# Durations as time spans

`DurationConverter` writes a duration as a value and a scale, the way .NET's time spans are
written, and reads one of any scale. .NET itself counts in ticks of 100 nanoseconds. The
units are those of `Period`; months and years are written in whole days.
-/

namespace BclCompat

open Chrono

namespace TimeSpan

/-- `TimeSpanScale`. A message may hold a number that is none of them. -/
inductive Scale where
  | days
  | hours
  | minutes
  | seconds
  | milliseconds
  | ticks
  | minMax
  | unknown (n : Int)

end TimeSpan

/-- `BclTimeSpanProto` -/
structure TimeSpan where
  value : Count
  scale : TimeSpan.Scale

def tick : Ratio := ⟨1, 10000000, Nat.one_pos, by decide, by decide⟩

/-- `DurationConverter::write`. `none` is a signed overflow. -/
def Period.write (c : Count) : Period → Option TimeSpan
  | .seconds => some ⟨c, .seconds⟩
  | .milli => some ⟨c, .milliseconds⟩
  | .micro => (c.mul 10).map fun x => ⟨x, .ticks⟩
  | .nano => some ⟨c.div 100, .ticks⟩
  | .minutes => some ⟨c, .minutes⟩
  | .hours => some ⟨c, .hours⟩
  | .days => some ⟨c, .days⟩
  | .weeks => (c.mul 7).map fun x => ⟨x, .days⟩
  | .months => (c.mul 2629746).map fun x => ⟨x.div 86400, .days⟩
  | .years => (c.mul 31556952).map fun x => ⟨x.div 86400, .days⟩
  | .other ratio =>
    if 1 < ratio.num then (durationCast ratio .second c).map fun sec => ⟨sec, .seconds⟩
    else (durationCast ratio .nano c).map fun nsec => ⟨nsec.div 100, .ticks⟩

namespace TimeSpan

/-- `DurationConverter::read`: the duration, or that there is none. `none` is a signed overflow. -/
def read (p : Ratio) (ts : TimeSpan) : Option (Option Count) :=
  match ts.scale with
  | .days => ((ts.value.mul 24).bind (durationCast hour p)).map some
  | .hours => (durationCast hour p ts.value).map some
  | .minutes => (durationCast minute p ts.value).map some
  | .seconds => (durationCast .second p ts.value).map some
  | .milliseconds => (durationCast .milli p ts.value).map some
  | .ticks => ((ts.value.mul 100).bind (durationCast .nano p)).map some
  | .minMax => some none
  | .unknown _ => some none

/-- A time span can be as long, cut off to a whole number of ticks. -/
def Fits (p : Period) (n : Int) : Prop := InRange (convert p.ratio tick n)

instance (p : Period) (n : Int) : Decidable (Fits p n) := inferInstanceAs (Decidable (InRange _))

/-- A duration, cut off to a whole number of ticks. -/
def atTick (p : Ratio) (n : Int) : Int := convert tick p (convert p tick n)

/-- What is written reads back, cut off to a whole number of ticks. -/
def RoundTrips (p : Period) (c : Count) : Prop :=
  ((p.write c).bind (read p.ratio)).map (Option.map Count.val) =
    some (some (atTick p.ratio c.val))

/-- The counts of a period that are kept. -/
def Kept : Period → Int → Prop
  | .micro, n => InRange (n * 1000)
  | .months, n => 1600 ∣ n
  | .years, n => 400 ∣ n
  | .other ratio, n =>
    if 1 < ratio.num then
      InRange (n * ratio.num) ∧
        roundUp (n.natAbs * ratio.num % ratio.den) ratio.num =
          roundUp (n.natAbs * (ratio.num * 10000000) % ratio.den) (ratio.num * 10000000)
    else InRange (n * (1000000000 / Nat.gcd 1000000000 ratio.den : Nat))
  | _, _ => True

/-- What a scale counts in, and how many of these it is. -/
def Scale.unit : Scale → Option (Ratio × Nat)
  | .days => some (hour, 24)
  | .hours => some (hour, 1)
  | .minutes => some (minute, 1)
  | .seconds => some (.second, 1)
  | .milliseconds => some (.milli, 1)
  | .ticks => some (.nano, 100)
  | .minMax => none
  | .unknown _ => none

/-- No product is out of range. -/
def Readable (p : Ratio) (ts : TimeSpan) : Prop :=
  ∀ u k, ts.scale.unit = some (u, k) → InRange (ts.value.val * k * u.multiplier p)

/-- The reader gives the duration, cut off, or refuses the scale. -/
def ReadsExactly (p : Ratio) (ts : TimeSpan) : Prop :=
  (read p ts).map (Option.map Count.val) =
    some (ts.scale.unit.map fun u => convert u.1 p (ts.value.val * u.2))

/-! ## The reader -/

variable {p : Ratio} {ts : TimeSpan} {c : Count} {n : Int}

theorem read_of_unit {u : Ratio} {k : Nat} (h : ts.scale.unit = some (u, k)) :
    read p ts = ((ts.value.mul k).bind (durationCast u p)).map some := by
  obtain ⟨value, scale⟩ := ts
  cases scale with
  | days | ticks =>
      cases h
      rfl
  | hours | minutes | seconds | milliseconds =>
      cases h
      rw [Count.mul_one]
      rfl
  | minMax | unknown => cases h

theorem val_read {u : Ratio} {k : Nat} (h : ts.scale.unit = some (u, k)) :
    (read p ts).map (Option.map Count.val) =
      if InRange (ts.value.val * k * u.multiplier p) then
        some (some (convert u p (ts.value.val * k)))
      else none := by
  have hmap : ∀ x : Option Count, (x.map some).map (Option.map Count.val) =
      (x.map Count.val).map some := fun x => by cases x <;> rfl
  rw [read_of_unit h, hmap, Count.map_bind_mul]
  split
  · rw [val_durationCast]
    dsimp only
    split
    · rfl
    · rfl
  · next hmul =>
    rw [if_neg fun hrange => hmul (hrange.toward (toward_mul (u.multiplier_pos p) _))]
    rfl

theorem readsExactly_iff : ReadsExactly p ts ↔ Readable p ts := by
  unfold ReadsExactly Readable
  cases h : ts.scale.unit with
  | none =>
      refine iff_of_true ?_ nofun
      obtain ⟨value, scale⟩ := ts
      cases scale with
      | minMax | unknown => rfl
      | _ => cases h
  | some u =>
      obtain ⟨u, k⟩ := u
      rw [val_read h]
      constructor
      · intro heq u' k' h'
        cases h'
        exact (Option.ite_none_right_eq_some.mp heq).1
      · exact fun hrange => if_pos (hrange u k rfl)

/-! ## There and back -/

theorem atTick_of_whole (h : p.divisor tick = 1) (n : Int) : atTick p n = n := by
  refine convert_convert_eq_self.mpr ?_
  rw [h]
  exact Int.one_dvd n

variable {P : Period}

theorem roundTrips_of_write {u : Ratio} {k : Nat} (hw : P.write c = some ts)
    (hu : ts.scale.unit = some (u, k)) :
    RoundTrips P c ↔ InRange (ts.value.val * k * u.multiplier P.ratio) ∧
      convert u P.ratio (ts.value.val * k) = atTick P.ratio c.val := by
  unfold RoundTrips
  rw [hw, Option.bind_some, val_read hu, Option.ite_none_right_eq_some, Option.some.injEq,
    Option.some.injEq]

/-- The scale is the unit of the duration. -/
theorem roundTrips_of_same {scale : Scale} (hw : P.write c = some ⟨c, scale⟩)
    (hu : scale.unit = some (P.ratio, 1)) (hwhole : P.ratio.divisor tick = 1) :
    RoundTrips P c := by
  have hone : c.val * (1 : Nat) = c.val := Int.mul_one _
  rw [roundTrips_of_write hw hu, atTick_of_whole hwhole, multiplier_self, hone, hone, convert_self]
  exact ⟨c.inRange, rfl⟩

theorem fits_iff_of_whole (h : P.ratio.divisor tick = 1) :
    Fits P n ↔ InRange (n * P.ratio.multiplier tick) := by
  unfold Fits
  rw [convert_of_divisor_one h]

theorem roundTrips_days (h : Fits .days c.val) : RoundTrips .days c := by
  rw [fits_iff_of_whole rfl] at h
  rw [roundTrips_of_write (P := .days) rfl rfl, atTick_of_whole rfl]
  refine ⟨h.toward ?_, (convert_mul rfl c.val).trans (convert_self _ _)⟩
  rw [Int.mul_assoc]
  exact toward_mul_of_le (j := 24 * 1) (by decide) c.val

theorem roundTrips_weeks (h : Fits .weeks c.val) : RoundTrips .weeks c := by
  rw [fits_iff_of_whole rfl] at h
  have hmul : InRange (c.val * (7 : Nat)) := h.toward (toward_mul_of_le (by decide) c.val)
  have hassoc : c.val * (7 : Nat) * (24 : Nat) = c.val * (168 : Nat) := Int.mul_assoc _ _ _
  have hw : Period.weeks.write c = some ⟨⟨_, hmul⟩, .days⟩ := by
    unfold Period.write
    rw [Count.mul_of_inRange hmul]
    rfl
  rw [roundTrips_of_write hw rfl, atTick_of_whole rfl]
  dsimp only
  rw [hassoc]
  refine ⟨h.toward ?_, (convert_mul rfl c.val).trans (convert_self _ _)⟩
  rw [Int.mul_assoc]
  exact toward_mul_of_le (j := 168 * 1) (by decide) c.val

theorem roundTrips_micro (h : Fits .micro c.val) :
    RoundTrips .micro c ↔ InRange (c.val * 1000) := by
  rw [fits_iff_of_whole rfl] at h
  have hmul : InRange (c.val * (10 : Nat)) := h
  have hassoc : c.val * (10 : Nat) * (100 : Nat) = c.val * (1000 : Nat) := Int.mul_assoc _ _ _
  have hw : Period.micro.write c = some ⟨⟨_, hmul⟩, .ticks⟩ := by
    unfold Period.write
    rw [Count.mul_of_inRange hmul]
    rfl
  rw [roundTrips_of_write hw rfl, atTick_of_whole rfl]
  dsimp only
  rw [hassoc, show Ratio.nano.multiplier Period.micro.ratio = 1 from rfl, Int.natCast_one,
    Int.mul_one]
  exact and_iff_left ((convert_mul rfl c.val).trans (convert_self _ _))

theorem roundTrips_nano : RoundTrips .nano c := by
  rw [roundTrips_of_write (P := .nano) rfl rfl]
  have hval : ((c.div 100).val * (100 : Nat) : Int) = c.val.tdiv (100 : Nat) * (100 : Nat) := rfl
  dsimp only
  rw [hval]
  have hrange := c.inRange.toward (toward_tdiv_mul c.val 100)
  refine ⟨?_, ?_⟩
  · exact (Int.mul_one (c.val.tdiv (100 : Nat) * (100 : Nat))).symm ▸ hrange
  · show convert .nano .nano _ = atTick .nano c.val
    rw [convert_self, atTick, convert_eq .nano tick, convert_of_divisor_one rfl]
    exact (Int.mul_one c.val).symm ▸ rfl

/-- Months and years go through whole days. -/
theorem roundTrips_of_days {k : Nat} (hratio : P.ratio.num = k ∧ P.ratio.den = 1)
    (hw : P.write c = (c.mul k).map fun x => ⟨x.div 86400, .days⟩)
    (hk : hour.multiplier P.ratio * 24 ≤ 86400) (hwhole : P.ratio.divisor tick = 1)
    (hmult : k ≤ P.ratio.multiplier tick) (h : Fits P c.val) :
    RoundTrips P c ↔ (P.ratio.divisor Period.days.ratio : Int) ∣ c.val := by
  rw [fits_iff_of_whole hwhole] at h
  have hmul : InRange (c.val * k) := h.toward (toward_mul_of_le hmult c.val)
  have hvalue : ((⟨_, hmul⟩ : Count).div 86400).val = convert P.ratio Period.days.ratio c.val := by
    unfold convert
    rw [hratio.1, hratio.2]
    rw [show k * Period.days.ratio.den = k from Nat.mul_one k]
    rfl
  rw [Count.mul_of_inRange hmul, Option.map_some] at hw
  have hback : convert hour P.ratio (convert P.ratio Period.days.ratio c.val * (24 : Nat)) =
      convert Period.days.ratio P.ratio (convert P.ratio Period.days.ratio c.val) :=
    convert_mul rfl _
  rw [roundTrips_of_write hw rfl, atTick_of_whole hwhole]
  dsimp only
  rw [hvalue, hback, convert_convert_eq_self]
  refine and_iff_right (hmul.toward ?_)
  rw [← hvalue, Int.mul_assoc]
  refine Toward.trans ?_ (toward_tdiv_mul (c.val * k) 86400)
  rw [← Int.natCast_mul, Nat.mul_comm 24]
  exact toward_mul_of_le hk _

theorem roundTrips_other_seconds {ratio : Ratio} (h : 1 < ratio.num) :
    RoundTrips (.other ratio) c ↔ InRange (c.val * ratio.num) ∧
      roundUp (c.val.natAbs * ratio.num % ratio.den) ratio.num =
        roundUp (c.val.natAbs * (ratio.num * 10000000) % ratio.den) (ratio.num * 10000000) := by
  have hwrite : (Period.other ratio).write c =
      (durationCast ratio .second c).map fun sec => ⟨sec, .seconds⟩ := if_pos h
  by_cases hrange : InRange (c.val * ratio.multiplier .second)
  · obtain ⟨x, hx, hval⟩ := durationCast_of_inRange hrange
    rw [hx, Option.map_some] at hwrite
    have hone : x.val * (1 : Nat) = x.val := Int.mul_one _
    have hcongr : convert .second ratio (convert ratio .second c.val) = atTick ratio c.val ↔ _ :=
      convert_convert_congr rfl rfl
    rw [show ratio.num * Ratio.second.den = ratio.num from Nat.mul_one _] at hcongr
    rw [roundTrips_of_write hwrite rfl]
    dsimp only
    rw [hone, hval, ← multiplier_second]
    exact and_congr (iff_of_true (inRange_back hrange) hrange)
      (multiplier_second ratio ▸ hcongr)
  · refine iff_of_false ?_ fun h => hrange (multiplier_second ratio ▸ h.1)
    unfold RoundTrips
    rw [hwrite, durationCast_of_not hrange]
    exact (Option.some_ne_none _).symm

theorem roundTrips_other_ticks {ratio : Ratio} (h : ¬ 1 < ratio.num) :
    RoundTrips (.other ratio) c ↔ InRange (c.val * ratio.multiplier .nano) := by
  have hwrite : (Period.other ratio).write c =
      (durationCast ratio .nano c).map fun nsec => ⟨nsec.div 100, .ticks⟩ := if_neg h
  by_cases hrange : InRange (c.val * ratio.multiplier .nano)
  · obtain ⟨x, hx, hval⟩ := durationCast_of_inRange hrange
    rw [hx, Option.map_some] at hwrite
    have hticks : (x.div 100).val = convert ratio tick c.val := by
      show x.val.tdiv (100 : Nat) = _
      rw [hval, convert, tdiv_tdiv]
      refine tdiv_eq_tdiv (Nat.mul_pos (Nat.mul_pos ratio.den_pos (by decide)) (by decide))
        (Nat.mul_pos ratio.den_pos (by decide)) ?_
      show c.val * (ratio.num * 1000000000 : Nat) * (ratio.den * 1 : Nat) =
        c.val * (ratio.num * 10000000 : Nat) * (ratio.den * 1 * 100 : Nat)
      push_cast
      ring
    have hback : convert .nano ratio ((x.div 100).val * (100 : Nat)) =
        convert tick ratio (x.div 100).val := convert_mul rfl _
    rw [roundTrips_of_write hwrite rfl]
    refine iff_of_true ⟨(inRange_back hrange).toward ?_, ?_⟩ hrange
    · rw [← hval]
      exact (toward_tdiv_mul x.val 100).mul _
    · exact hback.trans (by rw [hticks]; rfl)
  · refine iff_of_false ?_ hrange
    unfold RoundTrips
    rw [hwrite, durationCast_of_not hrange]
    exact (Option.some_ne_none _).symm

theorem roundTrips_iff (h : Fits P c.val) : RoundTrips P c ↔ Kept P c.val := by
  cases P with
  | seconds => exact iff_of_true (roundTrips_of_same rfl rfl rfl) trivial
  | milli => exact iff_of_true (roundTrips_of_same rfl rfl rfl) trivial
  | minutes => exact iff_of_true (roundTrips_of_same rfl rfl rfl) trivial
  | hours => exact iff_of_true (roundTrips_of_same rfl rfl rfl) trivial
  | micro => exact roundTrips_micro h
  | nano => exact iff_of_true roundTrips_nano trivial
  | days => exact iff_of_true (roundTrips_days h) trivial
  | weeks => exact iff_of_true (roundTrips_weeks h) trivial
  | months => exact roundTrips_of_days ⟨rfl, rfl⟩ rfl (by decide) rfl (by decide) h
  | years => exact roundTrips_of_days ⟨rfl, rfl⟩ rfl (by decide) rfl (by decide) h
  | other ratio =>
      rw [Kept]
      split
      · next hnum => exact roundTrips_other_seconds hnum
      · next hnum => rw [roundTrips_other_ticks hnum, multiplier_nano hnum]

/--
**Which durations are kept**, among those that a time span can hold; and which time spans, of any
scale, can be read.
-/
theorem roundTrips_and_reads (P : Period) (c : Count) (h : Fits P c.val) (p : Ratio)
    (ts : TimeSpan) :
    (RoundTrips P c ↔ Kept P c.val) ∧ (ReadsExactly p ts ↔ Readable p ts) :=
  ⟨roundTrips_iff h, readsExactly_iff⟩

/-- Half a second more than a minute is kept, and read by a peer. -/
theorem roundTrips_and_reads_minute :
    Fits .milli 60500 ∧ RoundTrips .milli ⟨60500, by decide⟩ ∧
      ReadsExactly .second ⟨⟨60500, by decide⟩, .milliseconds⟩ := by
  have hfits : Fits .milli 60500 := by decide
  have h := roundTrips_and_reads .milli ⟨60500, by decide⟩ hfits .second
    ⟨⟨60500, by decide⟩, .milliseconds⟩
  refine ⟨hfits, h.1.mpr trivial, h.2.mpr ?_⟩
  intro u k hu
  cases hu
  decide

/-- One month is written as 30 days, and one of the longest time spans in ticks cannot be read. -/
theorem not_roundTrips_month_ticks :
    Fits .months 1 ∧ ¬ RoundTrips .months ⟨1, by decide⟩ ∧
      ¬ ReadsExactly .second ⟨⟨9223372036854775807, by decide⟩, .ticks⟩ := by
  refine ⟨by decide, ?_, ?_⟩
  · intro h
    cases h
  · intro h
    cases h

end TimeSpan

end BclCompat
