import Mathlib.Data.List.TakeWhile
import Stencil.Proofs.Calendar
import Stencil.Proofs.Numerals
import Stencil.Vocabulary

/-!
# Times that are read as they were written

Writing shifts an instant to a clock and spells out what the clock shows; reading collects parts,
finds the date and the time of day that have them, and shifts back. The two meet item by item: what
an item writes, it reads, whatever follows.

* **`takeNumber?_paddedDigits`** — a number that fills its columns ends where they end.
* **`Copies`**, **`Copies.append`** — a pattern that reads the parts of what it has written; one
  lemma for each kind of item: `copies_literal`, `Fills.copies`, `Fills.copies_space`,
  `copies_offset`.
* **`LocalTime.Plain`**, **`Plain.copies`** — the times that the pattern of the settings has room
  for.
* **`Plain.instant?`** — the parts of such a time determine its instant.
* **`formatTime_reads_back`** — so a formatted time is read back, and may be formatted again.
-/

namespace Stencil

open Text

/-! ## Numbers in columns

A field is written in a fixed number of columns, filled up with zeros, and read with at most as
many. So what follows a number does not run into it, even if it starts with a digit. -/

namespace Text

variable {cs rest : List Char} {n width : Nat}

/-- A number below a power of ten has no more digits than the exponent. Induction on its digits. -/
theorem length_digits_le (hwidth : 0 < width) (h : n < pow10 width) :
    (digits n).length ≤ width := by
  induction n using digits_induction generalizing width with
  | one n hn =>
    rw [digits_of_lt hn]
    exact hwidth
  | more n hn ih =>
    obtain ⟨fewer, rfl⟩ := Nat.exists_eq_add_of_le' hwidth
    rw [pow10_succ] at h
    have hfewer : 0 < fewer := by
      rcases Nat.eq_zero_or_pos fewer with rfl | hpos
      · rw [pow10_zero] at h
        omega
      · exact hpos
    have := ih hfewer (by omega)
    rw [digits_of_le hn, List.length_append]
    simp only [List.length_singleton]
    omega

/-- Such a number fills its columns and no more. -/
theorem length_paddedDigits (hwidth : 0 < width) (h : n < pow10 width) :
    (paddedDigits width n).length = width := by
  have := length_digits_le hwidth h
  simp only [paddedDigits, List.length_append, List.length_replicate]
  omega

/-- As many digits as are read at most are read whatever follows them. -/
theorem takeNumber?_append {least : Nat} (hdigits : ∀ c ∈ cs, isAsciiDigit c = true)
    (hleast : least ≤ cs.length) (hfits : numberFrom 0 cs < 9223372036854775808)
    (rest : List Char) :
    takeNumber? least cs.length (cs ++ rest) = some (numberFrom 0 cs, rest) := by
  have hrun : ((cs ++ rest).take cs.length).takeWhile isAsciiDigit = cs := by
    rw [List.take_left' rfl, List.takeWhile_eq_self_iff]
    exact hdigits
  simp only [takeNumber?, takeDigits?, hrun, natOfDigits?_eq hdigits, Nat.not_lt.mpr hleast,
    List.drop_left' rfl, if_false, Option.bind_eq_bind, Option.bind_some, Option.pure_def, hfits,
    if_true]

/-- A number in its columns is read back, whatever follows. -/
theorem takeNumber?_paddedDigits {least : Nat} (hwidth : 0 < width) (h : n < pow10 width)
    (hleast : least ≤ width) (hfits : n < 9223372036854775808) (rest : List Char) :
    takeNumber? least width (paddedDigits width n ++ rest) = some (n, rest) := by
  have hlength := length_paddedDigits hwidth h
  have htake : takeNumber? least (paddedDigits width n).length (paddedDigits width n ++ rest) =
      some (numberFrom 0 (paddedDigits width n), rest) :=
    takeNumber?_append isAsciiDigit_of_mem_paddedDigits (by omega)
      (by rwa [numberFrom_paddedDigits]) rest
  rwa [hlength, numberFrom_paddedDigits] at htake

/-- A padded number starts with a digit. -/
theorem paddedDigits_eq_cons (hwidth : 0 < width) (n : Nat) :
    ∃ c cs, paddedDigits width n = c :: cs ∧ isAsciiDigit c = true := by
  have hlength := le_length_paddedDigits width n
  cases htext : paddedDigits width n with
  | nil =>
    rw [htext, List.length_nil] at hlength
    omega
  | cons c cs =>
    exact ⟨c, cs, rfl, isAsciiDigit_of_mem_paddedDigits c (by rw [htext]; exact List.mem_cons_self)⟩

/-- So nothing that is no digit is dropped in front of it. -/
theorem dropWhile_paddedDigits {p : Char → Bool} (hp : ∀ c, isAsciiDigit c = true → p c = false)
    (hwidth : 0 < width) (n : Nat) (rest : List Char) :
    (paddedDigits width n ++ rest).dropWhile p = paddedDigits width n ++ rest := by
  obtain ⟨c, cs, htext, hdigit⟩ := paddedDigits_eq_cons hwidth n
  rw [htext]
  exact List.dropWhile_cons_of_neg (by rw [hp c hdigit]; exact Bool.false_ne_true)

/-- And it ends with one, so no white space is trimmed behind it. -/
theorem trimEnd_append_paddedDigits (cs : List Char) (width n : Nat) :
    trimEnd (cs ++ paddedDigits width n) = cs ++ paddedDigits width n := by
  obtain ⟨front, hfront⟩ := List.getLast?_eq_some_iff.mp (getLast?_paddedDigits width n)
  have hlast : isSpace (digitChar n) = false := Decimal.isSpace_of_digit (isAsciiDigit_digitChar n)
  rw [hfront, ← List.append_assoc, trimEnd, List.reverse_append, List.reverse_singleton,
    List.singleton_append, List.dropWhile_cons_of_neg (by rw [hlast]; exact Bool.false_ne_true),
    List.reverse_cons, List.reverse_reverse]

end Text

/-- The two columns of the formatter are the two columns of padded digits, where the number fits. -/
theorem twoColumns_eq {n : Nat} (h : n < 100) : twoColumns .zero n = paddedDigits 2 n := by
  have hoctet : ((n : Int) % 256).toNat = n := by omega
  rw [twoColumns]
  simp only [hoctet]
  rcases Nat.lt_or_ge n 10 with hone | htwo
  · rw [if_pos (by omega), paddedDigits, digits_of_lt hone]
    rfl
  · have htens : n / 10 < 10 := by omega
    have hfirst : Char.ofNat ('0'.toNat + n / 10) = digitChar (n / 10) := by
      rw [digitChar, Nat.mod_eq_of_lt htens]
    rw [if_neg (by omega), paddedDigits, digits_of_le htwo, digits_of_lt htens, hfirst]
    rfl

theorem yearText_eq {year : Int} (h : 0 ≤ year) (h' : year ≤ 9999) :
    yearText .zero year = paddedDigits 4 year.natAbs := by
  rw [yearText, if_pos ⟨h, h'⟩, padNumber, List.length_nil, Nat.zero_add, List.nil_append]
  rfl


/-! ## Reading what was written

A reading is a set of parts with the characters that are left, and each item of a pattern takes both
a step further. `Copies` says of a stretch of a pattern that it writes a text and reads that same
text, whatever follows; stretches are put together by `Copies.append`, so only single items have to
be looked at. -/

namespace TimeParts

/-- The parts with `value` for `part`. -/
def add (parts : TimeParts) (part : TimePart) (value : Int) : TimeParts := fun other =>
  if other = part then some value else parts other

theorem insert?_of_absent {parts : TimeParts} {part : TimePart} (h : parts part = none) (value : Int) :
    parts.insert? part value = some (parts.add part value) := by
  rw [insert?, h]
  rfl

/-- A field that is one part is added, if its value is within its bounds and no value of that part
has been read before. -/
theorem insertField?_of_absent {parts : TimeParts} {field : TimeField} {part : TimePart} {value : Int}
    (hparts : field.parts value = [(part, value)]) (habsent : parts part = none)
    (hlow : field.bounds.1 ≤ value) (hhigh : value ≤ field.bounds.2) :
    parts.insertField? field value = some (parts.add part value) := by
  rw [insertField?, if_pos ⟨hlow, hhigh⟩, hparts]
  simp only [List.foldlM_cons, List.foldlM_nil, insert?_of_absent habsent, Option.bind_eq_bind,
    Option.bind_some, Option.pure_def]

/-- An hour is two parts: which half of the day, and which hour of it. -/
theorem insertField?_hour {parts : TimeParts} {hour : Int} (hpos : 0 ≤ hour) (hlt : hour < 24)
    (hhalf : parts .halfOfDay = none) (hhour : parts .hourOfHalf = none) :
    parts.insertField? .hour hour =
      some ((parts.add .halfOfDay (hour / 12)).add .hourOfHalf (hour % 12)) := by
  have hadd : (parts.add .halfOfDay (hour / 12)) .hourOfHalf = none := hhour
  rw [insertField?, if_pos ⟨hpos, Int.le_of_lt_add_one hlt⟩]
  simp only [TimeField.parts, List.foldlM_cons, List.foldlM_nil, Option.bind_eq_bind,
    Option.pure_def, insert?_of_absent hhalf, insert?_of_absent hadd, Option.bind_some]

end TimeParts

namespace TimePattern

/-- A pattern by which a time is written as `text`, and by which this text, whatever follows it, is
read as the parts `after` from the parts `before`. -/
structure Copies (pattern : TimePattern) (time : LocalTime) (text : List Char)
    (before after : TimeParts) : Prop where
  write : pattern.write? time = some text
  read : ∀ rest, pattern.foldlM (fun reading item => item.read? reading)
    (Reading.mk before (text ++ rest)) = some ⟨after, rest⟩

variable {pattern other : TimePattern} {time : LocalTime} {text more : List Char}
  {first second third : TimeParts}

/-- One stretch behind another. The text of the second is what follows the first. -/
theorem Copies.append (h : pattern.Copies time text first second)
    (h' : other.Copies time more second third) :
    (pattern ++ other : TimePattern).Copies time (text ++ more) first third := by
  refine ⟨?_, fun rest => ?_⟩
  · have hwrite := h.write
    have hwrite' := h'.write
    simp only [write?, Option.bind_eq_bind, Option.bind_eq_some_iff, Option.pure_def,
      Option.some.injEq] at hwrite hwrite' ⊢
    obtain ⟨texts, hmap, rfl⟩ := hwrite
    obtain ⟨texts', hmap', rfl⟩ := hwrite'
    refine ⟨texts ++ texts', ?_, List.flatten_append⟩
    rw [List.mapM_append, hmap, hmap']
    rfl
  · rw [List.foldlM_append, List.append_assoc, h.read]
    exact h'.read rest

theorem copies_literal (c : Char) (time : LocalTime) (parts : TimeParts) :
    Copies [.literal c] time [c] parts parts := by
  refine ⟨rfl, fun rest => ?_⟩
  simp [TimeItem.read?, Reading.char?, dropChar?]

/-- A number that is written as `n` in all the columns that are read of it, and is read as the parts
`after` from the parts `before`. -/
structure Fills (field : TimeField) (time : LocalTime) (columns n : Nat) (before after : TimeParts) :
    Prop where
  write : field.write .zero time = paddedDigits columns n
  width?_eq : field.width? = some columns
  pos : 0 < columns
  lt : n < pow10 columns
  fits : n < 9223372036854775808
  insert : before.insertField? field n = some after

variable {field : TimeField} {columns n : Nat} {before after : TimeParts}

/-- A field that fills its columns is read back. White space is dropped and a sign looked for in
front of it, and a digit is neither. -/
theorem Fills.number? (h : Fills field time columns n before after) (rest : List Char) :
    Reading.number? field ⟨before, paddedDigits columns n ++ rest⟩ = some ⟨after, rest⟩ := by
  have htake : takeNumber? 1 columns (paddedDigits columns n ++ rest) = some (n, rest) :=
    takeNumber?_paddedDigits h.pos h.lt h.pos h.fits rest
  have hdrop : dropSpaces (paddedDigits columns n ++ rest) = paddedDigits columns n ++ rest :=
    dropWhile_paddedDigits (fun _ => Decimal.isSpace_of_digit) h.pos n rest
  -- what starts with a digit has no sign, so that the plain case of the reading applies
  obtain ⟨c, cs, htext, hdigit⟩ := paddedDigits_eq_cons h.pos n
  have hminus : c ≠ '-' := by rintro rfl; revert hdigit; decide
  have hplus : c ≠ '+' := by rintro rfl; revert hdigit; decide
  simp only [Reading.number?, hdrop]
  rw [htext, List.cons_append] at htake ⊢
  split
  · next hcons => cases hcons; exact absurd rfl hminus
  · next hcons => cases hcons; exact absurd rfl hplus
  · rw [h.width?_eq, Option.getD_some, htake]
    simp only [Reading.insert?, h.insert, Option.bind_eq_bind, Option.bind_some, Option.pure_def]

/-- So the item for it copies. -/
theorem Fills.copies (h : Fills field time columns n before after) :
    Copies [.number field .zero] time (paddedDigits columns n) before after := by
  refine ⟨?_, fun rest => ?_⟩
  · simp [write?, TimeItem.write?, TimeItem.writeSingle?, h.write]
  · simp [TimeItem.read?, h.number?]

/-- White space is read over, and so is that in front of a number. -/
theorem Fills.copies_space (h : Fills field time columns n before after) :
    Copies [.space ' ', .number field .zero] time (' ' :: paddedDigits columns n) before after := by
  refine ⟨?_, fun rest => ?_⟩
  · simp [write?, TimeItem.write?, TimeItem.writeSingle?, h.write]
  · have hskip : Reading.skipSpaces ⟨before, ' ' :: (paddedDigits columns n ++ rest)⟩ =
        ⟨before, paddedDigits columns n ++ rest⟩ :=
      congrArg (Reading.mk before)
        (dropWhile_paddedDigits (fun _ => Decimal.isSpace_of_digit) h.pos n rest)
    simp [TimeItem.read?, hskip, h.number?]

end TimePattern

namespace Offset

variable {offset : Offset}

/-- The sign of a distance from UTC says which of the two ways it goes; zero goes forward. -/
theorem takeSign?_sign (offset : Offset) (cs : List Char) :
    OffsetForm.directive.takeSign? (offset.sign :: cs) = some (decide (offset.seconds < 0), cs) := by
  rw [sign]
  split
  · next h => rw [decide_eq_true h]; rfl
  · next h => rw [decide_eq_false h]; rfl

theorem dropSpaces_sign (offset : Offset) (cs : List Char) :
    dropSpaces (offset.sign :: cs) = offset.sign :: cs := by
  rw [sign]
  split <;> rfl

/-- Nothing but the colon between hours and minutes is dropped. -/
theorem dropColonsAndSpaces_two (n : Nat) (rest : List Char) :
    dropColonsAndSpaces (':' :: (two n ++ rest)) = two n ++ rest := by
  refine dropWhile_paddedDigits (fun c hc => ?_) (by decide) n rest
  rw [Decimal.isSpace_of_digit hc, Bool.or_false, decide_eq_false_iff_not]
  rintro rfl
  revert hc
  decide

/-- **A distance of whole minutes is read back** from its sign, its hours and its minutes. Hours and
minutes are two columns each, as a distance is less than a hundred hours, and the colon between them
is one of the characters that may be left out and are skipped. -/
theorem take?_written (hminutes : offset.seconds % 60 = 0) (rest : List Char) :
    OffsetForm.directive.take? (offset.sign :: (two (offset.seconds.natAbs / 60 / 60) ++
        ':' :: (two (offset.seconds.natAbs / 60 % 60) ++ rest))) =
      some (offset.seconds, rest) := by
  have hlt := offset.lt
  -- two columns are read back as the number they show
  have htwo {n : Nat} (hn : n < 100) (rest : List Char) :
      takeNumber? 2 2 (paddedDigits 2 n ++ rest) = some (n, rest) :=
    takeNumber?_paddedDigits (by decide) hn (Nat.le_refl 2) (by omega) rest
  have hhours (rest : List Char) := htwo (show offset.seconds.natAbs / 60 / 60 < 100 by omega) rest
  have hrest := htwo (show offset.seconds.natAbs / 60 % 60 < 100 by omega) rest
  have hseparator (cs : List Char) :
      OffsetForm.directive.separator cs = some (dropColonsAndSpaces cs) := rfl
  have htake : OffsetForm.directive.takeMinutes? (two (offset.seconds.natAbs / 60 % 60) ++ rest) =
      some (offset.seconds.natAbs / 60 % 60, rest) := by
    have hminute : offset.seconds.natAbs / 60 % 60 < 60 := Nat.mod_lt _ (by decide)
    simp only [OffsetForm.takeMinutes?, OffsetForm.directive, Bool.false_eq_true, false_and, if_false,
      two, hrest, Option.bind_eq_bind, Option.bind_some, hminute, if_true]
  -- sign, hours and minutes make up the distance, as it has no seconds
  have hvalue : (if decide (offset.seconds < 0) = true then
        -(((offset.seconds.natAbs / 60 / 60 : Nat) : Int) * 3600 +
          ((offset.seconds.natAbs / 60 % 60 : Nat) : Int) * 60)
      else ((offset.seconds.natAbs / 60 / 60 : Nat) : Int) * 3600 +
          ((offset.seconds.natAbs / 60 % 60 : Nat) : Int) * 60) = offset.seconds := by
    split <;> simp only [decide_eq_true_eq] at * <;> omega
  show OffsetForm.directive.takeSigned? _ = _
  simp only [OffsetForm.takeSigned?, takeSign?_sign, hseparator, Option.bind_eq_bind,
    Option.bind_some, Option.pure_def]
  rw [two, hhours]
  simp only [dropColonsAndSpaces_two, htake, Option.bind_some, hvalue]

end Offset

namespace TimePattern

variable {time : LocalTime} {before : TimeParts}

/-- The item for the distance. Seconds of a distance are rounded to minutes, so it has to have none.
-/
theorem copies_offset (hminutes : time.offset.seconds % 60 = 0) (habsent : before .offset = none) :
    Copies [.offset .colon] time
      (time.offset.sign :: (Offset.two (time.offset.seconds.natAbs / 60 / 60) ++
        ':' :: Offset.two (time.offset.seconds.natAbs / 60 % 60)))
      before (before.add .offset time.offset.seconds) := by
  have hround : (time.offset.seconds.natAbs + 30) / 60 = time.offset.seconds.natAbs / 60 := by omega
  refine ⟨?_, fun rest => ?_⟩
  · simp [write?, TimeItem.write?, TimeItem.writeSingle?, OffsetStyle.write?, hround]
  · have htake := Offset.take?_written hminutes rest
    simp only [List.cons_append, List.append_assoc, List.foldlM_cons, List.foldlM_nil,
      TimeItem.read?, Reading.skipSpaces, Offset.dropSpaces_sign, Reading.offset?, htake,
      TimeParts.insert?_of_absent habsent, Option.bind_eq_bind, Option.bind_some, Option.pure_def]

/-- A pattern that copies a whole text reads it to the end. -/
theorem Copies.read? {pattern : TimePattern} {text : List Char} {after : TimeParts}
    (h : pattern.Copies time text .empty after) : pattern.read? text = some after := by
  have hread := h.read []
  rw [List.append_nil] at hread
  simp only [TimePattern.read?, Reading.start, hread, Option.bind_eq_bind, Option.bind_some, if_true]

/-- A field of two columns is one part. -/
theorem Fills.two {field : TimeField} {part : TimePart} {n : Nat}
    (hwrite : field.write .zero time = twoColumns .zero n) (hwidth : field.width? = some 2)
    (hparts : field.parts n = [(part, (n : Int))]) (habsent : before part = none)
    (hlow : field.bounds.1 ≤ n) (hhigh : n ≤ field.bounds.2) (hlt : n < 100) :
    Fills field time 2 n before (before.add part n) :=
  ⟨by rw [hwrite, twoColumns_eq hlt], hwidth, by decide, hlt, by omega,
    TimeParts.insertField?_of_absent hparts habsent hlow hhigh⟩

/-! ## The pattern of times without a pattern

The settings have one pattern by default. As items it is a date, a time and a distance, and no name
of a zone, so nothing is put into it before it is used. -/

/-- Date, time and distance from UTC as `2023-11-14 22:13:20+00:00`. -/
def stamp : TimePattern :=
  yearMonthDay ++ .space ' ' :: hourMinuteSecond ++ [.offset .colon]

/-- The pattern of settings without a pattern. -/
abbrev stampFormat : String := ({} : RenderConfig).timeFormat

theorem ofText?_stampFormat : ofText? stampFormat = some stamp := by decide +kernel

/-- The default format has no directive for the name of a zone, so it stands for the same pattern
where it is written. -/
theorem ofText?_stampFormat_zone (name : List Char) :
    ofText? (String.ofList (substituteZoneName name stampFormat.toList)) = some stamp := by
  have hsame : substituteZoneName name stampFormat.toList = stampFormat.toList := rfl
  rw [hsame, String.ofList_toList, ofText?_stampFormat]

/-- What is written does not depend on fractions of a second. -/
theorem write?_stamp_congr {time time' : LocalTime} (hdate : time.date = time'.date)
    (hsecondOfDay : time.secondOfDay = time'.secondOfDay) (hsecond : time.second = time'.second)
    (hoffset : time.offset = time'.offset) : stamp.write? time = stamp.write? time' := by
  simp [stamp, yearMonthDay, hourMinuteSecond, hourMinute, write?, TimeItem.write?,
    TimeItem.writeSingle?, TimeField.write, CivilTime.hour, CivilTime.minute, hdate, hsecondOfDay,
    hsecond, hoffset]

end TimePattern

/-- No month has more than thirty-one days. -/
theorem daysInMonth_le (year : Int) (month : Nat) : daysInMonth year month ≤ 31 := by
  unfold daysInMonth
  split
  · split <;> decide
  · split <;> decide

namespace LocalTime

/-- A time that the pattern `stamp` has room for: with a year of four digits, a distance from UTC of
whole minutes, and no leap second. -/
structure Plain (time : LocalTime) : Prop where
  date : time.date.Valid
  year_nonneg : 0 ≤ time.date.year
  year_le : time.date.year ≤ 9999
  secondOfDay_lt : time.secondOfDay < 86400
  nanos_lt : time.nanos < 1000000000
  minutes : time.offset.seconds % 60 = 0

/-- The text of such a time. -/
def stampText (time : LocalTime) : List Char :=
  paddedDigits 4 time.date.year.natAbs ++ '-' :: (paddedDigits 2 time.date.month ++
    '-' :: (paddedDigits 2 time.date.day ++ ' ' :: (paddedDigits 2 time.hour ++
    ':' :: (paddedDigits 2 time.minute ++ ':' :: (paddedDigits 2 time.second ++
    time.offset.sign :: (Offset.two (time.offset.seconds.natAbs / 60 / 60) ++
    ':' :: Offset.two (time.offset.seconds.natAbs / 60 % 60)))))))

/-- The parts that it states. -/
def stampParts (time : LocalTime) : TimeParts :=
  TimeParts.empty.add .year time.date.year |>.add .month time.date.month |>.add .day time.date.day
    |>.add .halfOfDay (time.hour / 12 : Int) |>.add .hourOfHalf (time.hour % 12 : Int)
    |>.add .minute time.minute |>.add .second time.second |>.add .offset time.offset.seconds

variable {time : LocalTime}

theorem Plain.second_eq (h : time.Plain) : time.second = time.secondOfDay % 60 := by
  have := h.nanos_lt
  rw [CivilTime.second]
  omega

/-- **The pattern copies all of a plain time.** Each of its eleven items writes a stretch of the
text and reads it back: a field fills its columns, for the number in it is small enough, and adds
parts that no field before it has added. The items are put together from the left by
`Copies.append`. -/
theorem Plain.copies (h : time.Plain) :
    TimePattern.stamp.Copies time time.stampText .empty time.stampParts := by
  have hyear := h.year_nonneg
  have hyear' := h.year_le
  have hmonth := h.date.month_le
  have hday := h.date.day_le.trans (daysInMonth_le _ _)
  have hhour : time.hour < 24 := by have := h.secondOfDay_lt; rw [CivilTime.hour]; omega
  have hminute : time.minute < 60 := by rw [CivilTime.minute]; omega
  have hsecond : time.second < 60 := by rw [h.second_eq]; omega
  -- each field fills its columns, and is read if none of its parts has been read before
  have year : TimePattern.Fills .year time 4 time.date.year.natAbs .empty
      (TimeParts.empty.add .year time.date.year) := by
    have hfour : time.date.year.natAbs < 10000 := by omega
    refine ⟨yearText_eq hyear hyear', rfl, by decide, hfour, by omega, ?_⟩
    rw [Int.natAbs_of_nonneg hyear]
    exact TimeParts.insertField?_of_absent rfl rfl (by simp only [TimeField.bounds]; omega)
      (by simp only [TimeField.bounds]; omega)
  have month {before : TimeParts} (habsent : before .month = none) :
      TimePattern.Fills .month time 2 time.date.month before (before.add .month time.date.month) :=
    .two rfl rfl rfl habsent (Int.ofNat_le.mpr h.date.month_pos) (Int.ofNat_le.mpr hmonth) (by omega)
  have day {before : TimeParts} (habsent : before .day = none) :
      TimePattern.Fills .day time 2 time.date.day before (before.add .day time.date.day) :=
    .two rfl rfl rfl habsent (Int.ofNat_le.mpr h.date.day_pos) (Int.ofNat_le.mpr hday) (by omega)
  have hour {before : TimeParts} (hhalf : before .halfOfDay = none)
      (hhour' : before .hourOfHalf = none) :
      TimePattern.Fills .hour time 2 time.hour before
        ((before.add .halfOfDay (time.hour / 12 : Int)).add .hourOfHalf (time.hour % 12 : Int)) :=
    ⟨twoColumns_eq (by omega), rfl, by decide, hhour.trans (by decide), by omega,
      TimeParts.insertField?_hour (by omega) (by omega) hhalf hhour'⟩
  have minute {before : TimeParts} (habsent : before .minute = none) :
      TimePattern.Fills .minute time 2 time.minute before (before.add .minute time.minute) :=
    .two rfl rfl rfl habsent (Int.natCast_nonneg _) (by simp only [TimeField.bounds]; omega) (by omega)
  have second {before : TimeParts} (habsent : before .second = none) :
      TimePattern.Fills .second time 2 time.second before (before.add .second time.second) :=
    .two rfl rfl rfl habsent (Int.natCast_nonneg _) (by simp only [TimeField.bounds]; omega) (by omega)
  have literal := fun c => TimePattern.copies_literal c time
  exact year.copies.append <| (literal '-' _).append <| (month rfl).copies.append <|
    (literal '-' _).append <| (day rfl).copies.append <| (hour rfl rfl).copies_space.append <|
    (literal ':' _).append <| (minute rfl).copies.append <| (literal ':' _).append <|
    (second rfl).copies.append <| TimePattern.copies_offset h.minutes rfl

/-- The date is found from year, month and day alone. There is no other way to it among the parts,
as neither a week nor a day of the year is written, and nothing among them that it could disagree
with. -/
theorem Plain.date_stampParts (h : time.Plain) : time.stampParts.date = .ok time.date := by
  have hrange : Date.isYearInRange time.date.year = true := by
    have := h.year_nonneg
    have := h.year_le
    unfold Date.isYearInRange Date.firstYear Date.lastYear
    simp only [Bool.and_eq_true, decide_eq_true_eq]
    omega
  have hyear : TimeParts.resolveYear (time.stampParts .year) (time.stampParts .century)
      (time.stampParts .yearOfCentury) = .ok (some time.date.year) := rfl
  have hisoYear : TimeParts.resolveYear (time.stampParts .isoYear) none
      (time.stampParts .isoYearOfCentury) = .ok none := rfl
  have hcandidate : time.stampParts.candidate? (some time.date.year) none =
      some (some time.date) := by
    show some (Date.ofYearMonthDay? time.date.year (time.date.month : Int).toNat
      (time.date.day : Int).toNat) = _
    rw [Int.toNat_natCast, Int.toNat_natCast]
    exact congrArg some
      (if_pos ⟨hrange, h.date.month_pos, h.date.month_le, h.date.day_pos, h.date.day_le⟩)
  have hagrees : time.stampParts.agreesWith time.date = true := by
    simp [TimeParts.agreesWith, TimeParts.datePartNames, stampParts, TimeParts.add, TimeParts.empty,
      TimeParts.partOfDate?]
  simp only [TimeParts.date, hyear, hisoYear, hcandidate, hagrees, bind, Except.bind, if_true]

/-- The time of day is put together from its four parts again. -/
theorem Plain.timeOfDay_stampParts (h : time.Plain) :
    time.stampParts.timeOfDay = .ok (time.secondOfDay, 0) := by
  have hsecond := h.second_eq
  have hlt := h.secondOfDay_lt
  have hstart : ((time.hour / 12 : Int).toNat * 12 + (time.hour % 12 : Int).toNat) * 3600 +
      (time.minute : Int).toNat * 60 + (time.second : Int).toNat = time.secondOfDay := by
    rw [hsecond, CivilTime.hour, CivilTime.minute]
    omega
  -- a sixtieth second would be a leap second
  have hnot : (time.second : Int) ≠ 60 := by omega
  show (if (time.second : Int) = 60 then _ else _) = _
  rw [if_neg hnot, hstart]
  rfl

/-- The parts determine the time, but for its nanoseconds, which the pattern does not write. -/
theorem Plain.instant? (h : time.Plain) :
    time.stampParts.instant? =
      Instant.ofSeconds? (time.seconds - time.offset.seconds) 0 := by
  have hcivil : time.stampParts.civilTime? time.offset.seconds =
      some ⟨time.date, time.secondOfDay, 0⟩ := by
    simp only [TimeParts.civilTime?, TimeParts.dateAndTime, h.date_stampParts,
      h.timeOfDay_stampParts]
    rfl
  have hoffset : time.stampParts .offset = some time.offset.seconds := rfl
  have hsame : Offset.ofSeconds? time.offset.seconds = some time.offset := dif_pos time.offset.lt
  simp only [TimeParts.instant?, hoffset, hcivil, hsame, Option.bind_eq_bind, Option.bind_some,
    Option.orElse_eq_orElse, Option.orElse_some]
  rfl

end LocalTime

/-- What a clock shows is plain, if the year has four digits. -/
theorem Instant.localTime_plain {instant : Instant} {offset : Offset}
    (hnanos : instant.nanos < 1000000000) (hminutes : offset.seconds % 60 = 0)
    (hyear : 0 ≤ (instant.localTime offset).date.year)
    (hyear' : (instant.localTime offset).date.year ≤ 9999) : (instant.localTime offset).Plain :=
  ⟨Date.ofDayNumber_valid _, hyear, hyear', CivilTime.secondOfDay_ofSeconds_lt _ _, hnanos, hminutes⟩

/-- Shifting back by the distance gives the seconds of the instant. A year of four digits is far
within the range of instants, so the way back does not leave it. -/
theorem Instant.ofSeconds?_localTime {instant : Instant} {offset : Offset}
    (hyear : 0 ≤ (instant.localTime offset).date.year)
    (hyear' : (instant.localTime offset).date.year ≤ 9999) :
    Instant.ofSeconds? ((instant.localTime offset).seconds - offset.seconds) 0 =
      some ⟨instant.seconds, 0⟩ := by
  have hseconds : (instant.localTime offset).seconds = instant.seconds + offset.seconds :=
    CivilTime.seconds_ofSeconds _ _
  have hdate : (instant.localTime offset).date.year =
      Date.yearOf ((instant.seconds + offset.seconds) / 86400) := (Date.ofDayNumber_spec _).1
  obtain ⟨hfrom, hto⟩ := Date.yearOf_spec ((instant.seconds + offset.seconds) / 86400)
  have hlt := offset.lt
  rw [hdate] at hyear hyear'
  rw [hseconds, Int.add_sub_cancel]
  refine if_pos ⟨?_, ?_⟩
  · simp only [Instant.firstSecond, daysBeforeYear, Date.firstYear, secondsPerDay] at *
    omega
  · simp only [Instant.lastSecond, daysBeforeYear, Date.lastYear, secondsPerDay] at *
    omega

/-- The text has no white space at its ends, where a reader trims it. -/
theorem LocalTime.trim_stampText (time : LocalTime) : trim time.stampText = time.stampText := by
  obtain ⟨front, hfront⟩ : ∃ front, time.stampText =
      front ++ paddedDigits 2 (time.offset.seconds.natAbs / 60 % 60) := by
    refine ⟨paddedDigits 4 time.date.year.natAbs ++ '-' :: (paddedDigits 2 time.date.month ++
      '-' :: (paddedDigits 2 time.date.day ++ ' ' :: (paddedDigits 2 time.hour ++
      ':' :: (paddedDigits 2 time.minute ++ ':' :: (paddedDigits 2 time.second ++
      time.offset.sign :: (Offset.two (time.offset.seconds.natAbs / 60 / 60) ++ [':'])))))), ?_⟩
    simp [LocalTime.stampText, Offset.two]
  have hstart : time.stampText.dropWhile isSpace = time.stampText :=
    dropWhile_paddedDigits (fun _ => Decimal.isSpace_of_digit) (by decide) _ _
  rw [trim, hstart, hfront, trimEnd_append_paddedDigits]

/-- The text of a plain time is read by the first layout that is tried, and it is the instant of its
parts. -/
theorem Instant.ofText_stampText {time : LocalTime} {instant : Instant} (h : time.Plain)
    (hinstant : time.stampParts.instant? = some instant) :
    Instant.ofText (String.ofList time.stampText) TimePattern.stampFormat = pure instant := by
  have hlayout : instantByLayout? time.stampText TimePattern.stampFormat = some instant := by
    simp only [instantByLayout?, partsByLayout?, TimePattern.ofText?_stampFormat, h.copies.read?,
      hinstant, Option.bind_eq_bind, Option.bind_some, Option.orElse_eq_orElse, Option.orElse_some]
  simp only [Instant.ofText, String.toList_ofList, time.trim_stampText, Instant.ofLayouts?, hlayout,
    Option.orElse_eq_orElse, Option.orElse_some]

/-! ## The function

`timezone` reads its first argument as an instant and writes that for the distance. If the first
argument is a text that it has written itself, reading and writing cancel. -/

/-- What follows a step with a value only matters for that value. -/
theorem Traced.bind_eq_bind_of_ok {α β : Type} {step : Traced α} {next other : α → Traced β} {value : α}
    (h : step.result = .ok value) (hnext : next value = other value) :
    (step >>= next) = (step >>= other) := by
  show Traced.bind step next = Traced.bind step other
  simp only [Traced.bind, h, hnext]

/-- Formatting by the default pattern, once the distance is known. -/
theorem formatTime_stampFormat {hours : Decimal} {offset : Offset} {instant : Instant}
    {text : List Char} (hoffset : Offset.ofHours hours = pure offset)
    (hwrite : TimePattern.stamp.write? (instant.localTime offset) = some text) :
    formatTime instant hours TimePattern.stampFormat = pure (String.ofList text) := by
  simp only [formatTime, TimePattern.ofText?_stampFormat_zone, hoffset, hwrite, pure_bind,
    Option.bind_eq_bind, Option.bind_some]

/-- What is formatted by it has no fraction of a second, so dropping the fraction before makes no
difference. -/
theorem formatTime_dropNanos {instant : Instant} (h : instant.nanos < 1000000000) (hours : Decimal) :
    formatTime ⟨instant.seconds, 0⟩ hours TimePattern.stampFormat =
      formatTime instant hours TimePattern.stampFormat := by
  have hwrite (offset : Offset) :
      TimePattern.stamp.write? (Instant.localTime ⟨instant.seconds, 0⟩ offset) =
        TimePattern.stamp.write? (instant.localTime offset) := by
    refine TimePattern.write?_stamp_congr rfl rfl ?_ rfl
    simp only [Instant.localTime, CivilTime.second, CivilTime.ofSeconds]
    omega
  simp only [formatTime, TimePattern.ofText?_stampFormat_zone, hwrite, Option.bind_eq_bind,
    Option.bind_some]

/-- The call with two arguments and the default pattern, written out. -/
theorem call_timezone (time hours : Value) {settings : Settings}
    (h : settings.render.timeFormat = TimePattern.stampFormat) :
    Vocabulary.standard.call "timezone" [time, hours] settings = (do
      let instant ← Clock.instant "timezone" time settings
      let hours ← Clock.hours "timezone" (some hours) settings
      return .string (← Clock.reportAs "timezone"
        (formatTime instant hours TimePattern.stampFormat))) := by
  show Clock.run (.range "timezone" 1 3) [time, hours] settings = _
  rw [← h]
  rfl

/-- **A formatted time is read back** as its instant, without the fraction of a second. So a time
that is formatted twice is as if it had been formatted for the second distance from UTC only, with
the same events for the log. The first part is on `formatTime` and `Instant.ofText`; the second puts
the two calls around them. -/
theorem formatTime_reads_back {instant : Instant} {hours : Decimal} {offset : Offset}
    (hnanos : instant.nanos < 1000000000) (hoffset : Offset.ofHours hours = pure offset)
    (hminutes : offset.seconds % 60 = 0) (hyear : 0 ≤ (instant.localTime offset).date.year)
    (hyear' : (instant.localTime offset).date.year ≤ 9999) :
    (∃ text, formatTime instant hours TimePattern.stampFormat = pure text ∧
      Instant.ofText text TimePattern.stampFormat = pure ⟨instant.seconds, 0⟩) ∧
    ∀ (time first second : Value) (settings : Settings),
      settings.render.timeFormat = TimePattern.stampFormat →
      (Clock.instant "timezone" time settings).result = .ok instant →
      Clock.hours "timezone" (some first) settings = pure hours →
      (do let text ← Vocabulary.standard.call "timezone" [time, first] settings
          Vocabulary.standard.call "timezone" [text, second] settings) =
        Vocabulary.standard.call "timezone" [time, second] settings := by
  have hplain := Instant.localTime_plain hnanos hminutes hyear hyear'
  have hformat : formatTime instant hours TimePattern.stampFormat =
      pure (String.ofList (instant.localTime offset).stampText) :=
    formatTime_stampFormat hoffset hplain.copies.write
  have hread : Instant.ofText (String.ofList (instant.localTime offset).stampText)
      TimePattern.stampFormat = pure ⟨instant.seconds, 0⟩ :=
    Instant.ofText_stampText hplain (hplain.instant?.trans (Instant.ofSeconds?_localTime hyear hyear'))
  refine ⟨⟨_, hformat, hread⟩, fun time first second settings hsettings htime hfirst => ?_⟩
  have hreport : Clock.reportAs "timezone" (pure (String.ofList (instant.localTime offset).stampText)) =
      pure (String.ofList (instant.localTime offset).stampText) := rfl
  -- the second call gets a text, and reads it by the same pattern
  have hagain : Clock.instant "timezone"
      (.string (String.ofList (instant.localTime offset).stampText)) settings =
      pure ⟨instant.seconds, 0⟩ := by
    rw [Clock.instant, hsettings, hread]
  simp only [call_timezone _ _ hsettings, bind_assoc, pure_bind]
  refine Traced.bind_eq_bind_of_ok htime ?_
  rw [hfirst, pure_bind, hformat, hreport, pure_bind, hagain, pure_bind]
  simp only [formatTime_dropNanos hnanos]

/-- Half a second before the epoch, written five and a half hours behind and read again. -/
theorem formatTime_reads_back_new_year :
    (∃ text, formatTime ⟨-1, 500000000⟩ ⟨-55, 1, by decide, by decide⟩ TimePattern.stampFormat =
        pure text ∧
      Instant.ofText text TimePattern.stampFormat = pure ⟨-1, 0⟩) ∧
    (do let text ← Vocabulary.standard.call "timezone"
            [.decimal ⟨-5, 1, by decide, by decide⟩, .string "-5.5"] ⟨{}, {}⟩
        Vocabulary.standard.call "timezone" [text, .decimal (.ofNat 23)] ⟨{}, {}⟩) =
      Vocabulary.standard.call "timezone"
        [.decimal ⟨-5, 1, by decide, by decide⟩, .decimal (.ofNat 23)] ⟨{}, {}⟩ := by
  have hoffset : Offset.ofHours ⟨-55, 1, by decide, by decide⟩ = pure ⟨-19800, by decide⟩ := rfl
  have hread := formatTime_reads_back (show Instant.nanos ⟨-1, 500000000⟩ < 1000000000 by decide)
    hoffset (by decide) (by decide) (by decide)
  refine ⟨hread.1, hread.2 _ _ _ _ rfl ?_ ?_⟩
  · rfl
  · rfl

end Stencil
