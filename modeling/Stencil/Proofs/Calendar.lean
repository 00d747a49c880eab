import Stencil.Time.Civil

/-!
# The calendar and its day numbers

Every day number is the number of one date: years, months and days are each counted off in turn, and
what is left stays below the length of the next one.

* **`daysBeforeYear_succ`**, **`daysBeforeMonth_end`** — years follow on each other, and so do the
  months of a year up to its end.
* **`yearOf_spec`** — a day number lies in the year that is found for it.
* **`Date.Valid`**, **`ofDayNumber_valid`** — a date that the calendar has.
* **`dayNumber_ofDayNumber`**, **`CivilTime.seconds_ofSeconds`** — the way back.
-/

namespace Stencil

/-! ## Years

The number of days before a year counts leap years by three divisions, and the year of a day number
is found by dividing by the lengths of four centuries, of a century and of four years. Both are
linear once the quotients have names, so that the two are compared by arithmetic. -/

/-- Years follow on each other: the next one starts after all days of this one. -/
theorem daysBeforeYear_succ (year : Int) :
    daysBeforeYear (year + 1) = daysBeforeYear year + daysInYear year := by
  have hleap : isLeapYear year = true ↔ year % 4 = 0 ∧ (year % 100 ≠ 0 ∨ year % 400 = 0) := by
    simp [isLeapYear]
  -- whether there is a leap day is a matter of the three remainders
  unfold daysBeforeYear daysInYear
  split
  · next h =>
    rw [hleap] at h
    omega
  · next h =>
    rw [hleap] at h
    omega

namespace Date

/-- The four counts that a year is put together from: cycles of four hundred years, centuries in a
cycle, fours in a century and years in a four, with what each of them leaves over. The last century
and the last year may be a day longer, so their counts stop at three. -/
theorem yearOf_eq (dayNumber : Int) : ∃ (cycle : Int) (century four single rest : Nat),
    yearOf dayNumber = cycle * 400 + century * 100 + four * 4 + single + 1 ∧
    dayNumber + 719162 = cycle * 146097 + century * 36524 + four * 1461 + single * 365 + rest ∧
    century ≤ 3 ∧ four ≤ 24 ∧ single ≤ 3 ∧
    (rest < 365 ∨ rest = 365 ∧ single = 3 ∧ (four < 24 ∨ century = 3)) := by
  -- the last century of a cycle and the last year of four may have a day more than the others, so
  -- that these two counts stop at three
  let inCycle := ((dayNumber + 719162) % 146097).toNat
  let inCentury := inCycle - min (inCycle / 36524) 3 * 36524
  let inFour := inCentury - inCentury / 1461 * 1461
  refine ⟨(dayNumber + 719162) / 146097, min (inCycle / 36524) 3, inCentury / 1461,
    min (inFour / 365) 3, inFour - min (inFour / 365) 3 * 365, ?_, ?_, ?_, ?_, ?_, ?_⟩
  · simp only [yearOf, inFour, inCentury, inCycle]
  all_goals
    have hcycle : (inCycle : Int) = (dayNumber + 719162) % 146097 := by
      simp only [inCycle]
      omega
    have hcentury : inCentury = inCycle - min (inCycle / 36524) 3 * 36524 := rfl
    have hfour : inFour = inCentury - inCentury / 1461 * 1461 := rfl
    clear_value inCycle inCentury inFour
    omega

/-- A day number lies in its year. -/
theorem yearOf_spec (dayNumber : Int) :
    daysBeforeYear (yearOf dayNumber) ≤ dayNumber ∧
      dayNumber < daysBeforeYear (yearOf dayNumber + 1) := by
  obtain ⟨cycle, century, four, single, rest, hyear, hdays, _, _, _, hrest⟩ := yearOf_eq dayNumber
  -- the year is one more than the counts, so each division is exact
  have hbefore : daysBeforeYear (yearOf dayNumber) =
      cycle * 146097 + century * 36524 + four * 1461 + single * 365 - 719162 := by
    unfold daysBeforeYear
    omega
  constructor
  · omega
  · unfold daysBeforeYear
    omega

/-! ## Months

The months of a year are counted off from the first one. What is left gets smaller by the length of
a month at each step, and the days before the month that is reached get larger by the same. -/

/-- A date of the calendar. -/
structure Valid (date : Date) : Prop where
  month_pos : 1 ≤ date.month
  month_le : date.month ≤ 12
  day_pos : 1 ≤ date.day
  day_le : date.day ≤ daysInMonth date.year date.month

theorem daysBeforeMonth_succ (year : Int) {month : Nat} (h : 1 ≤ month) :
    daysBeforeMonth year (month + 1) = daysBeforeMonth year month + daysInMonth year month := by
  obtain ⟨more, rfl⟩ := Nat.exists_eq_add_of_le' h
  rfl

/-- The months of a year have all of its days. -/
theorem daysBeforeMonth_end (year : Int) : daysBeforeMonth year 13 = daysInYear year := by
  unfold daysInYear
  cases hleap : isLeapYear year <;> simp [daysBeforeMonth, daysInMonth, hleap]

/-- Counting on from a month ends at a date of the year, and at the right one. Induction on the
months that are left, with the days before the month and the rest of the days making up the same
ordinal all along. -/
theorem ofOrdinalFrom_spec {year : Int} {month ordinal months : Nat} (hmonth : 1 ≤ month)
    (hmonths : month + months = 12) (hpos : 1 ≤ ordinal)
    (hle : daysBeforeMonth year month + ordinal ≤ daysBeforeMonth year 13) :
    (ofOrdinalFrom year month ordinal months).year = year ∧
      (ofOrdinalFrom year month ordinal months).Valid ∧
      (ofOrdinalFrom year month ordinal months).ordinal = daysBeforeMonth year month + ordinal := by
  induction months generalizing month ordinal with
  -- in the last month the rest of the days fits, as it fits in the year
  | zero =>
    obtain rfl : month = 12 := by omega
    have hlast : daysBeforeMonth year 13 = daysBeforeMonth year 12 + daysInMonth year 12 :=
      daysBeforeMonth_succ year hmonth
    exact ⟨rfl, ⟨hmonth, Nat.le_refl _, hpos, by simp only [ofOrdinalFrom]; omega⟩, rfl⟩
  | succ months ih =>
    unfold ofOrdinalFrom
    split
    · next hday => exact ⟨rfl, ⟨hmonth, by simp only; omega, hpos, hday⟩, rfl⟩
    · next hday =>
      have hnext := daysBeforeMonth_succ year hmonth
      obtain ⟨hyear, hvalid, hordinal⟩ := ih (show 1 ≤ month + 1 by omega) (by omega)
        (show 1 ≤ ordinal - daysInMonth year month by omega) (by omega)
      exact ⟨hyear, hvalid, by omega⟩

/-! ## Day numbers

A day number lies in one year, so its distance from the first day of that year is less than the
length of the year, and counting months off ends at a date of it. -/

/-- The day of its year that a day number is. -/
theorem ofDayNumber_spec (dayNumber : Int) :
    (ofDayNumber dayNumber).year = yearOf dayNumber ∧ (ofDayNumber dayNumber).Valid ∧
      (ofDayNumber dayNumber).ordinal = (dayNumber - daysBeforeYear (yearOf dayNumber) + 1).toNat := by
  obtain ⟨hfrom, hto⟩ := yearOf_spec dayNumber
  have hyear := daysBeforeYear_succ (yearOf dayNumber)
  have hend := daysBeforeMonth_end (yearOf dayNumber)
  have hstart : daysBeforeMonth (yearOf dayNumber) 1 = 0 := rfl
  have hspec := ofOrdinalFrom_spec (show 1 ≤ 1 by omega) (show 1 + 11 = 12 from rfl)
    (show 1 ≤ (dayNumber - daysBeforeYear (yearOf dayNumber) + 1).toNat by omega)
    (show daysBeforeMonth (yearOf dayNumber) 1 + _ ≤ _ by omega)
  rwa [hstart, Nat.zero_add] at hspec

/-- The date of a day number is one that the calendar has. -/
theorem ofDayNumber_valid (dayNumber : Int) : (ofDayNumber dayNumber).Valid :=
  (ofDayNumber_spec dayNumber).2.1

/-- **A day number is the number of its date.** -/
theorem dayNumber_ofDayNumber (n : Int) : (ofDayNumber n).dayNumber = n := by
  obtain ⟨hyear, _, hordinal⟩ := ofDayNumber_spec n
  have hfrom := (yearOf_spec n).1
  rw [dayNumber, hordinal, hyear]
  omega

end Date

namespace CivilTime

/-- The date and the time of a count of seconds have this count again. -/
theorem seconds_ofSeconds (seconds : Int) (nanos : Nat) :
    (ofSeconds seconds nanos).seconds = seconds := by
  simp only [ofSeconds, CivilTime.seconds, Date.dayNumber_ofDayNumber, secondsPerDay]
  omega

theorem secondOfDay_ofSeconds_lt (seconds : Int) (nanos : Nat) :
    (ofSeconds seconds nanos).secondOfDay < 86400 := by
  simp only [ofSeconds, secondsPerDay]
  omega

end CivilTime

end Stencil
