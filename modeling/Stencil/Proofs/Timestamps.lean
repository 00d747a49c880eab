import Stencil.Proofs.Calendar
import Stencil.Proofs.Clocks
import Stencil.Proofs.Quotient

/-!
# Timestamps

A timestamp becomes an instant by decimal arithmetic, and each of its steps could round: the
quotient that turns milliseconds into seconds, the fraction of a second, and the product that turns
it into nanoseconds. None of them does. Milliseconds begin far enough from zero that there is room
for three more places, and a fraction of a second has no more nanoseconds than fit.

* **`Decimal.div?_pow10`**, **`IsFraction.mul?_pow10`** — when moving the point is exact.
* **`secondsOfTimestamp_exact`**, **`nanosOf_exact`** — the steps from a timestamp to its instant.
* **`Instant.range_iff_year`** — the seconds that instants reach are those of whole years.
* **`ofTimestamp_exact`** — the instant of a timestamp, over the rationals.
-/

namespace Stencil

namespace Decimal

variable {d b : Decimal} {places : Nat}

/-! ## Moving the point

Dividing by a power of ten moves the point to the left and multiplying by one moves it to the right.
Either is exact while the places on the one side and the digits on the other fit into a decimal;
both lemmas are about a ratio that has a number of places at which its units are whole. -/

theorem toRat_eq_pow10 (hunits : b.units = pow10 places) (hscale : b.scale = 0) :
    b.toRat = pow10 places := by
  rw [toRat, hunits, hscale, pow10_zero, Nat.cast_one, div_one, Int.cast_natCast]

/-- A quotient by a power of ten is exact where there is room for as many more places: its units are
those of the dividend. -/
theorem div?_pow10 (hunits : b.units = pow10 places) (hscale : b.scale = 0)
    (hroom : d.scale + places ≤ maxScale) :
    ∃ q, d.div? b = some q ∧ q.toRat = d.toRat / pow10 places := by
  have hpos := pow10_pos places
  have hb : b.units ≠ 0 := by omega
  have hden := dividend_pos d hb
  -- at so many more places the ratio has the units of the dividend
  have hunits' : (d.units * pow10 b.scale * b.units.sign).natAbs * pow10 (d.scale + places) =
      d.units.natAbs * (b.units.natAbs * pow10 d.scale) := by
    rw [natAbs_dividend d hb, hscale, pow10_zero, Nat.mul_one, hunits, Int.natAbs_natCast, pow10_add,
      Nat.mul_comm (pow10 d.scale)]
  obtain ⟨q, hq, hvalue⟩ := ofRatio?_exact hden (Nat.le_refl maxScale) hroom hunits' d.units_lt
  have hquotient := toRat_div? d hb
  rw [hq, Option.map_some, Option.map_eq_some_iff] at hquotient
  obtain ⟨p, hp, hpq⟩ := hquotient
  refine ⟨p, hp, ?_⟩
  rw [hpq, hvalue, ratio_eq d hb, toRat_eq_pow10 hunits hscale]

/-- **A product of a fraction and a power of ten is exact.** It is below that power, so it has no
more digits than the largest power of ten that fits; places that are left over stay behind the
point. The exact units are those of `ofRatio?_exact`, with as many places as the point did not move
over. -/
theorem IsFraction.mul?_pow10 (hd : d.IsFraction) (hunits : b.units = pow10 places)
    (hscale : b.scale = 0) (hplaces : places ≤ maxScale) :
    ∃ p, d.mul? b = some p ∧ p.toRat = d.toRat * pow10 places := by
  have hnonneg := hd.nonneg
  have hlt := hd.lt
  have hpos := pow10_pos places
  unfold mul?
  split
  · -- a zero factor makes a zero of its own
    next hzero =>
    have hd0 : d.units = 0 := by
      rcases (Bool.or_eq_true _ _).mp hzero with hd0 | hb0
      · exact eq_zero_of_isZero hd0
      · have := eq_zero_of_isZero hb0
        omega
    refine ⟨zero, rfl, ?_⟩
    simp [toRat, zero, ofNat, hd0]
  · -- the places that are left after moving the point
    have hscale_le := d.scale_le
    have hleft : (d.units * b.units).natAbs * pow10 (d.scale - places) =
        d.units.natAbs * pow10 (places - d.scale) * pow10 d.scale := by
      have hexponent : places + (d.scale - places) = places - d.scale + d.scale := by omega
      rw [Int.natAbs_mul, hunits, Int.natAbs_natCast, Nat.mul_assoc, Nat.mul_assoc, ← pow10_add,
        ← pow10_add, hexponent]
    have hbound : d.units.natAbs * pow10 (places - d.scale) < unitBound := by
      have hmaximum : pow10 maxScale < unitBound := by decide
      calc d.units.natAbs * pow10 (places - d.scale)
          ≤ pow10 d.scale * pow10 (places - d.scale) := Nat.mul_le_mul_right _ (by omega)
        _ = pow10 (d.scale + (places - d.scale)) := (pow10_add _ _).symm
        _ ≤ pow10 maxScale := Nat.pow_le_pow_right (by decide) (by omega)
        _ < unitBound := hmaximum
    rw [hscale, Nat.add_zero]
    obtain ⟨p, hp, hvalue⟩ := ofRatio?_exact (pow10_pos d.scale) d.scale_le
      (Nat.sub_le d.scale places) hleft hbound
    refine ⟨p, hp, ?_⟩
    rw [hvalue, hunits, toRat]
    push_cast
    ring

/-! ## Fractions

The floor of a decimal is a decimal, and taking it off leaves the fraction of the value. It is not
negative, not even where the decimal is. -/

/-- What a number has beyond its whole part is its fraction, exactly. -/
theorem exists_sub?_floor {whole : Decimal} (hwhole : ofUnits? d.floor 0 = some whole) :
    ∃ fraction, d.sub? whole = some fraction ∧ fraction.IsFraction ∧
      fraction.toRat = Int.fract d.toRat := by
  obtain ⟨fraction, hfraction, hrange, hrest⟩ := sub?_floor hwhole
  refine ⟨fraction, hfraction, hrange, ?_⟩
  have hpow := (pow10_pos_rat d.scale).ne'
  have hpow' := (pow10_pos_rat fraction.scale).ne'
  -- the remainder of the units is what the floor leaves of them
  have hdivision : (d.units % pow10 d.scale : Int) = d.units - pow10 d.scale * d.floor :=
    Int.emod_def _ _
  rw [hdivision] at hrest
  have hrest' : (fraction.units * pow10 d.scale : ℚ) =
      (d.units - pow10 d.scale * d.floor) * pow10 fraction.scale := by exact_mod_cast hrest
  rw [Int.fract, floor_toRat, toRat, toRat, div_sub' hpow, div_eq_div_iff hpow' hpow, hrest']

end Decimal

/-! ## Years

The range of instants is given in years, and checked in seconds. Years begin one after the other, so
a second is in a range of years if it is between two of their first days. -/

/-- Later years begin on later days. -/
theorem daysBeforeYear_lt_iff {year later : Int} :
    daysBeforeYear year < daysBeforeYear later ↔ year < later := by
  refine (strictMono_int_of_lt_succ fun year => ?_).lt_iff_lt
  have hlength : 0 < daysInYear year := by
    unfold daysInYear
    split <;> decide
  rw [daysBeforeYear_succ]
  omega

/-- A day belongs to a year or a later one if it is not before its first day. -/
theorem Date.le_yearOf_iff (year dayNumber : Int) :
    year ≤ yearOf dayNumber ↔ daysBeforeYear year ≤ dayNumber := by
  obtain ⟨hfrom, hto⟩ := yearOf_spec dayNumber
  constructor
  · intro hle
    have hbefore := daysBeforeYear_lt_iff.not.mpr hle.not_gt
    omega
  · intro hle
    have hlt := daysBeforeYear_lt_iff.mp (hle.trans_lt hto)
    omega

namespace Instant

/-- The seconds that instants reach are those of the years from -262143 to 262142, all of them: the
first second is the start of a year and the last one the end of one. -/
theorem range_iff_year (seconds : Int) (nanos : Nat) :
    firstSecond ≤ seconds ∧ seconds ≤ lastSecond ↔
      -262143 ≤ (CivilTime.ofSeconds seconds nanos).date.year ∧
        (CivilTime.ofSeconds seconds nanos).date.year ≤ 262142 := by
  have hyear : (CivilTime.ofSeconds seconds nanos).date.year = Date.yearOf (seconds / 86400) :=
    (Date.ofDayNumber_spec _).1
  have hfirst := Date.le_yearOf_iff (-262143) (seconds / 86400)
  have hlast := Date.le_yearOf_iff 262143 (seconds / 86400)
  have hstart : firstSecond = daysBeforeYear (-262143) * 86400 := rfl
  have hend : lastSecond = daysBeforeYear 262143 * 86400 - 1 := rfl
  rw [hyear, hstart, hend]
  omega

/-! ## Steps

The conversion is a sequence of decimal operations, each of which could fail or round. One lemma for
each of them, in the order in which they are taken. -/

/-- Whether a timestamp counts milliseconds is decided by its value. -/
theorem cmp_millisecondThreshold_iff {timestamp : Decimal} :
    timestamp.cmp millisecondThreshold = .gt ↔ 10000000000 < timestamp.toRat := by
  show compare (timestamp.units * (pow10 0 : Nat)) (10000000000 * (pow10 timestamp.scale : Int)) =
    .gt ↔ _
  rw [pow10_zero, Int.natCast_one, Int.mul_one, compare_gt_iff_gt, Decimal.toRat,
    lt_div_iff₀ (Decimal.pow10_pos_rat _)]
  exact_mod_cast Iff.rfl

/-- A number of milliseconds has room for three more places: with more than 25 of them the units of
a number that large are out of range. -/
theorem scale_le_of_milliseconds {timestamp : Decimal} (h : 10000000000 < timestamp.toRat) :
    timestamp.scale + 3 ≤ Decimal.maxScale := by
  have hsize := timestamp.abs_toRat_le
  rw [abs_of_pos (by linarith)] at hsize
  by_contra hmore
  simp only [Decimal.maxScale] at hmore
  have hpower : (pow10 26 : ℚ) ≤ pow10 timestamp.scale := Decimal.pow10_mono (by omega)
  have hlarge : (10000000000 : ℚ) * pow10 26 ≤ timestamp.toRat * pow10 timestamp.scale :=
    mul_le_mul h.le hpower (Decimal.pow10_pos_rat 26).le (by linarith)
  have hvalue : (Decimal.unitBound : ℚ) ≤ 10000000000 * pow10 26 := by
    norm_num [Decimal.unitBound, pow10]
  linarith

/-- The seconds of a timestamp, whichever unit it counts. Only milliseconds are divided, and there
is room for the division. -/
theorem secondsOfTimestamp_exact (timestamp : Decimal) :
    ∃ seconds, (secondsOfTimestamp timestamp).result = .ok seconds ∧
      seconds.toRat =
        if 10000000000 < timestamp.toRat then timestamp.toRat / 1000 else timestamp.toRat := by
  unfold secondsOfTimestamp
  split
  · next hgt =>
    have hlarge := cmp_millisecondThreshold_iff.mp hgt
    have hthousand : (Decimal.ofNat 1000).units = pow10 3 := rfl
    obtain ⟨seconds, hseconds, hquotient⟩ :=
      Decimal.div?_pow10 hthousand rfl (scale_le_of_milliseconds hlarge)
    refine ⟨seconds, Traced.orAbort_eq_ok_iff.mpr hseconds, ?_⟩
    rw [if_pos hlarge, hquotient]
    norm_num [pow10]
  · next hle => exact ⟨timestamp, rfl, (if_neg (mt cmp_millisecondThreshold_iff.mpr hle)).symm⟩

/-- The nanoseconds of a second: the fraction times a thousand million, without what is smaller than
a nanosecond. -/
theorem nanosOf_exact {seconds whole : Decimal}
    (hwhole : Decimal.ofUnits? seconds.floor 0 = some whole) :
    (nanosOf seconds whole).result = .ok ⌊Int.fract seconds.toRat * 1000000000⌋ := by
  obtain ⟨fraction, hfraction, hrange, hfract⟩ := Decimal.exists_sub?_floor hwhole
  have hmillions : (Decimal.ofNat 1000000000).units = pow10 9 := rfl
  obtain ⟨nanos, hnanos, hproduct⟩ := hrange.mul?_pow10 hmillions rfl (by decide)
  have hvalue : nanos.toRat = Int.fract seconds.toRat * 1000000000 := by
    rw [hproduct, hfract]
    norm_num [pow10]
  have hnonneg : 0 ≤ Int.fract seconds.toRat * 1000000000 :=
    mul_nonneg (Int.fract_nonneg _) (by norm_num)
  rw [nanosOf, Traced.result_bind_of_ok (Traced.orAbort_eq_ok_iff.mpr hfraction),
    Traced.result_bind_of_ok (Traced.orAbort_eq_ok_iff.mpr hnanos), Traced.result_pure,
    Decimal.trunc_eq_wholePart, hvalue, wholePart, if_pos hnonneg]

end Instant

/-! ## Instants -/

/-- **A timestamp is converted without rounding.** Above ten thousand million it counts
milliseconds, and seconds otherwise. The instant has the whole seconds before it and the whole
nanoseconds of the rest, which are never a full second, also where the timestamp is negative. The
one error is a second before the first one of the year -262143 or after the last one of the year
262142. -/
theorem ofTimestamp_exact (timestamp : Decimal) :
    let seconds : ℚ :=
      if 10000000000 < timestamp.toRat then timestamp.toRat / 1000 else timestamp.toRat
    let nanos : Int := ⌊(seconds - ⌊seconds⌋) * 1000000000⌋
    (Instant.ofTimestamp timestamp).result =
        (if -8334601228800 ≤ ⌊seconds⌋ ∧ ⌊seconds⌋ ≤ 8210266876799 then
          .ok ⟨⌊seconds⌋, nanos.toNat⟩
        else .error (.failed (.functionFailure "timezone"
          s!"timestamp {timestamp.toText} out of range"))) ∧
      0 ≤ nanos ∧ nanos ≤ 999999999 := by
  intro seconds nanos
  obtain ⟨decimal, hdecimal, hseconds⟩ := Instant.secondsOfTimestamp_exact timestamp
  obtain ⟨whole, hwhole⟩ := Option.ne_none_iff_exists'.mp (Decimal.ofUnits?_floor decimal)
  have hnanos := Instant.nanosOf_exact hwhole
  change decimal.toRat = seconds at hseconds
  rw [hseconds] at hnanos
  have hfloor : decimal.floor = ⌊seconds⌋ := by rw [← hseconds, Decimal.floor_toRat]
  refine ⟨?result, ?nonneg, ?lt⟩
  case result =>
    rw [Instant.result_ofTimestamp_of_steps hdecimal hwhole hnanos, hfloor]
    show (Traced.ofOption _ (if -8334601228800 ≤ ⌊seconds⌋ ∧ ⌊seconds⌋ ≤ 8210266876799 then _
      else _)).result = _
    split <;> rfl
  case nonneg =>
    exact Int.floor_nonneg.mpr (mul_nonneg (Int.fract_nonneg seconds) (by norm_num))
  case lt =>
    -- the rest is less than a second
    have hlt : (Int.fract seconds) * 1000000000 < ((1000000000 : Int) : ℚ) := by
      have := Int.fract_lt_one seconds
      push_cast
      linarith
    have := Int.floor_lt.mpr hlt
    change nanos < 1000000000 at this
    omega

end Stencil
