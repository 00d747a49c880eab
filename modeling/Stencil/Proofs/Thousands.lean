import Stencil.Proofs.Canonical

/-!
# Groups of thousands

The whole digits of a plain numeral are cut into groups of three behind a first group. How many
digits the first group has depends on the number of bytes of the digits, while the commas are
counted off by digits, so the groups are counted from the right exactly if the two numbers go
together.

* **`isPlainNumeral_iff`** — the numerals that are grouped, and their parts.
* **`groupedDigits_eq`** — the groups as they come. The induction is on the digits, three at a time.
* **`groupedByThrees_iff`** — when they are what groups of thousands should be.
* **`groupThousands_groups`** — every text, and **`Decimal.display_groupedByThrees`** — every
  decimal.
-/

namespace Stencil

open Text

/-! ## The parts of a plain numeral

Only numerals in positional notation are grouped, and which these are is checked without taking them
apart. `PlainParts` is the same check with its parts named, so that the groups can be said to be
those of the whole digits. -/

/-- `cs` is a numeral in positional notation: a minus sign or none, whole digits without a
superfluous zero in front, and no fraction or a point with digits behind it. The digits are of any
script, but the first one is not. -/
structure PlainParts (cs sign whole fraction : List Char) : Prop where
  chars : cs = sign ++ (whole ++ fraction)
  sign : sign = [] ∨ sign = ['-']
  whole : whole = ['0'] ∨
    ∃ c more, whole = c :: more ∧ ('1' ≤ c && c ≤ '9') = true ∧ ∀ d ∈ more, isDigit d = true
  fraction : fraction = [] ∨
    ∃ places, fraction = '.' :: places ∧ places ≠ [] ∧ ∀ d ∈ places, isDigit d = true

variable {cs sign whole fraction digits grouped : List Char} {c : Char}

/-- A fraction is a point with digits behind it, or nothing. -/
theorem isPlainFraction_iff :
    isPlainFraction cs = true ↔
      cs = [] ∨ ∃ places, cs = '.' :: places ∧ places ≠ [] ∧ ∀ d ∈ places, isDigit d = true := by
  unfold isPlainFraction
  split
  · simp
  · simp
  · next hnil hpoint =>
    refine iff_of_false Bool.false_ne_true ?_
    rintro (rfl | ⟨places, rfl, -⟩)
    · exact hnil rfl
    · exact hpoint _ rfl

theorem isAsciiDigit_of_range (h : ('1' ≤ c && c ≤ '9') = true) : isAsciiDigit c = true := by
  simp only [Bool.and_eq_true, decide_eq_true_eq] at h
  simp only [isAsciiDigit, Bool.and_eq_true, decide_eq_true_eq]
  exact ⟨Char.le_trans (by decide) h.1, h.2⟩

namespace PlainParts

variable (h : PlainParts cs sign whole fraction)
include h

/-- The first digit is an ASCII one. -/
theorem exists_cons :
    ∃ c more, whole = c :: more ∧ isAsciiDigit c = true ∧ ∀ d ∈ more, isDigit d = true := by
  rcases h.whole with hzero | ⟨c, more, hwhole, hrange, hmore⟩
  · exact ⟨'0', [], hzero, by decide, fun d hd => by cases hd⟩
  · exact ⟨c, more, hwhole, isAsciiDigit_of_range hrange, hmore⟩

theorem isDigit : ∀ d ∈ whole, Text.isDigit d = true := by
  obtain ⟨c, more, rfl, hc, hmore⟩ := h.exists_cons
  exact List.forall_mem_cons.mpr ⟨Decimal.isDigit_of_isAsciiDigit hc, hmore⟩

theorem head?_fraction : fraction = [] ∨ fraction.head? = some '.' := by
  rcases h.fraction with hnil | ⟨places, hpoint, -⟩
  · exact .inl hnil
  · exact .inr (by rw [hpoint]; rfl)

end PlainParts

/-- **The check without a sign.** Whole digits are taken up to the first character that is no digit,
which is the point or the end. A zero in front has to be the only whole digit, so it is a case by
itself. -/
theorem isPlainUnsigned_iff :
    isPlainUnsigned cs = true ↔ ∃ whole fraction, PlainParts cs [] whole fraction := by
  constructor
  · intro h
    unfold isPlainUnsigned at h
    split at h
    · next rest => exact ⟨['0'], rest, rfl, .inl rfl, .inl rfl, isPlainFraction_iff.mp h⟩
    · next c rest _ =>
      simp only [Bool.and_assoc, Bool.and_eq_true] at h
      obtain ⟨hlow, hhigh, hfraction⟩ := h
      refine ⟨c :: rest.takeWhile isDigit, rest.dropWhile isDigit, ?_, .inl rfl, .inr ?_,
        isPlainFraction_iff.mp hfraction⟩
      · exact congrArg (c :: ·) List.takeWhile_append_dropWhile.symm
      · exact ⟨c, _, rfl, Bool.and_eq_true_iff.mpr ⟨hlow, hhigh⟩,
          List.all_eq_true.mp List.all_takeWhile⟩
    · cases h
  · rintro ⟨whole, fraction, h⟩
    have hplain := isPlainFraction_iff.mpr h.fraction
    rw [h.chars, List.nil_append]
    rcases h.whole with rfl | ⟨c, more, rfl, hrange, hmore⟩
    · exact hplain
    · -- the fraction starts with a point, so the whole digits end in front of it
      have hend : fraction.head?.any isDigit = false := by
        rcases h.head?_fraction with hnil | hpoint
        · rw [hnil]; rfl
        · rw [hpoint]; decide
      have hdrop := dropWhile_append_of_head? hmore hend
      rw [List.cons_append]
      unfold isPlainUnsigned
      split
      · next heq =>
        obtain ⟨rfl, -⟩ := List.cons.inj heq
        cases hrange
      · next heq =>
        obtain ⟨rfl, rfl⟩ := List.cons.inj heq
        rw [hrange, hdrop, hplain]
        rfl
      · next heq => cases heq

/-- **The numerals that are grouped, by their parts.** The sign is looked at first; a first digit is
no sign, so the two cases exclude each other, and behind the sign it is `isPlainUnsigned_iff`. -/
theorem isPlainNumeral_iff {text : String} :
    isPlainNumeral text = true ↔
      ∃ sign whole fraction, PlainParts text.toList sign whole fraction := by
  unfold isPlainNumeral
  split
  · -- behind a minus sign
    next cs heq =>
    rw [isPlainUnsigned_iff, heq]
    constructor
    · rintro ⟨whole, fraction, h⟩
      exact ⟨['-'], whole, fraction, congrArg ('-' :: ·) h.chars, .inr rfl, h.whole, h.fraction⟩
    · rintro ⟨sign, whole, fraction, h⟩
      rcases h.sign with rfl | rfl
      · obtain ⟨c, more, hwhole, hc, -⟩ := h.exists_cons
        have hchars := h.chars
        rw [hwhole] at hchars
        obtain ⟨rfl, -⟩ := List.cons.inj hchars
        cases hc
      · exact ⟨whole, fraction, (List.cons.inj h.chars).2, .inl rfl, h.whole, h.fraction⟩
  · next hsign =>
    rw [isPlainUnsigned_iff]
    constructor
    · rintro ⟨whole, fraction, h⟩
      exact ⟨[], whole, fraction, h⟩
    · rintro ⟨sign, whole, fraction, h⟩
      rcases h.sign with rfl | rfl
      · exact ⟨whole, fraction, h⟩
      · exact absurd h.chars (hsign _)

/-- Only the whole digits of a plain numeral are grouped. They are what stands in front of the
point, behind the sign, and `isPlainNumeral_iff` says that the text passes the check. -/
theorem groupThousands_of_parts {text : String} (h : PlainParts text.toList sign whole fraction) :
    (groupThousands text).toList = sign ++ (groupedDigits whole ++ fraction) := by
  have hpoint : ∀ d ∈ whole, decide (d ≠ '.') = true := by
    intro d hd
    refine decide_eq_true ?_
    rintro rfl
    exact absurd (h.isDigit _ hd) (by decide)
  have hend : fraction.head?.any (· ≠ '.') = false := by
    rcases h.head?_fraction with hnil | hhead
    · rw [hnil]; rfl
    · rw [hhead]; rfl
  have hunsigned : groupedUnsigned (whole ++ fraction) = groupedDigits whole ++ fraction := by
    rw [groupedUnsigned, takeWhile_append_of_head? hpoint hend, dropWhile_append_of_head? hpoint hend]
  rw [groupThousands, if_pos (isPlainNumeral_iff.mpr ⟨_, _, _, h⟩), h.chars]
  rcases h.sign with rfl | rfl
  · obtain ⟨c, more, rfl, hc, -⟩ := h.exists_cons
    rw [List.nil_append]
    split
    · next heq =>
      obtain ⟨rfl, -⟩ := List.cons.inj heq
      cases hc
    · rw [String.toList_ofList, hunsigned, List.nil_append]
  · exact String.toList_ofList.trans (congrArg ('-' :: ·) hunsigned)

/-! ## The groups as they come

A comma is put in by counting digits from the first group on, so the groups behind it are counted
from the left. Whether they come out as groups of three from the right depends on how many digits
the first one has. -/

/-- The characters in groups of three, from the left. The last group may have fewer. -/
def threes : List Char → List (List Char)
  | [] => []
  | [a] => [[a]]
  | [a, b] => [[a, b]]
  | a :: b :: c :: cs => [a, b, c] :: threes cs

theorem flatten_threes (cs : List Char) : (threes cs).flatten = cs := by
  fun_induction threes cs with
  | case1 | case2 | case3 => rfl
  | case4 a b c cs ih => rw [List.flatten_cons, ih]; rfl

/-- If the characters are as many as full groups need, all groups are full. -/
theorem length_of_mem_threes {group : List Char} (hlength : cs.length % 3 = 0)
    (h : group ∈ threes cs) : group.length = 3 := by
  fun_induction threes cs with
  | case1 => cases h
  | case2 | case3 => cases hlength
  | case4 a b c cs ih =>
    simp only [List.length_cons] at hlength
    rcases List.mem_cons.mp h with rfl | hmem
    · rfl
    · exact ih (by omega) hmem

/-- The number of digits of the first group, for a number of bytes: what is left over after groups
of three, or three if nothing is. -/
def firstGroup (bytes : Nat) : Nat := (bytes + 2) % 3 + 1

/-- Commas between groups are commas in front of every group but the first. -/
theorem intercalate_cons (first : List Char) (more : List (List Char)) :
    [','].intercalate (first :: more) = first ++ more.flatMap (',' :: ·) := by
  induction more generalizing first with
  | nil => simp
  | cons group more ih => rw [List.intercalate_cons_cons, ih]; simp

section Commas

variable {lead position : Nat}

/-- Before the first comma nothing changes. Induction on the characters that come before it. -/
theorem groupedFrom_append {xs : List Char}
    (h : ∀ i < xs.length, ¬ (0 < position + i ∧ (position + i + 3 - lead) % 3 = 0)) (ys : List Char) :
    groupedFrom lead position (xs ++ ys) = xs ++ groupedFrom lead (position + xs.length) ys := by
  induction xs generalizing position with
  | nil => rfl
  | cons c xs ih =>
    have hfirst : ¬ (0 < position ∧ (position + 3 - lead) % 3 = 0) := h 0 (Nat.succ_pos _)
    have hrest : groupedFrom lead (position + 1) (xs ++ ys) =
        xs ++ groupedFrom lead (position + 1 + xs.length) ys := ih fun i hi => by
      have := h (i + 1) (Nat.succ_lt_succ hi)
      rwa [Nat.add_right_comm, Nat.add_assoc]
    rw [List.cons_append, groupedFrom, if_neg hfirst, hrest, List.length_cons, Nat.add_right_comm,
      Nat.add_assoc]
    rfl

/-- From a comma on, every group has one in front of it. The induction takes three characters at a
time, as the groups do, and the positions of commas repeat with every third. -/
theorem groupedFrom_threes (hlead : lead < 3) (hpos : 0 < position)
    (hcomma : (position + 3 - lead) % 3 = 0) (cs : List Char) :
    groupedFrom lead position cs = (threes cs).flatMap (',' :: ·) := by
  have hcomma' : 0 < position ∧ (position + 3 - lead) % 3 = 0 := ⟨hpos, hcomma⟩
  have hsecond : ¬ (0 < position + 1 ∧ (position + 1 + 3 - lead) % 3 = 0) := by omega
  have hthird : ¬ (0 < position + 1 + 1 ∧ (position + 1 + 1 + 3 - lead) % 3 = 0) := by omega
  fun_induction threes cs generalizing position with
  | case1 => rfl
  | case2 a => rw [groupedFrom, if_pos hcomma']; rfl
  | case3 a b => rw [groupedFrom, if_pos hcomma', groupedFrom, if_neg hsecond]; rfl
  | case4 a b c cs ih =>
    have hrest : groupedFrom lead (position + 1 + 1 + 1) cs = (threes cs).flatMap (',' :: ·) :=
      ih (by omega) (by omega) (by omega) (by omega) (by omega)
    rw [groupedFrom, if_pos hcomma', groupedFrom, if_neg hsecond, groupedFrom, if_neg hthird, hrest]
    rfl

end Commas

/-- **Behind the first group, the digits are in groups of three from the left.** Up to the first
comma nothing is put in, by `groupedFrom_append`, and from there on every third digit has one in
front of it, by `groupedFrom_threes`. -/
theorem groupedDigits_eq (digits : List Char) :
    groupedDigits digits = [','].intercalate
      (digits.take (firstGroup (byteLength digits)) ::
        threes (digits.drop (firstGroup (byteLength digits)))) := by
  rw [intercalate_cons, groupedDigits]
  generalize byteLength digits = bytes
  have hcount : firstGroup bytes = (bytes + 2) % 3 + 1 := rfl
  have hfront : groupedFrom (bytes % 3) 0
        (digits.take (firstGroup bytes) ++ digits.drop (firstGroup bytes)) =
      digits.take (firstGroup bytes) ++ groupedFrom (bytes % 3)
        (0 + (digits.take (firstGroup bytes)).length) (digits.drop (firstGroup bytes)) :=
    groupedFrom_append (fun i hi => by
      have := List.length_take_le (firstGroup bytes) digits
      omega) _
  rw [List.take_append_drop, Nat.zero_add] at hfront
  rw [hfront]
  -- the first comma, if the digits go that far
  rcases Nat.lt_or_ge (firstGroup bytes) digits.length with hmore | hless
  · rw [List.length_take_of_le (Nat.le_of_lt hmore),
      groupedFrom_threes (by omega) (by omega) (by omega)]
  · rw [List.drop_eq_nil_of_le hless]
    rfl

/-! ## Groups from the right

What groups of thousands should be is said without counting: some first group of one to three
digits, and full groups behind it. The first comma then decides how long the first group is. -/

/-- `grouped` is `digits` in groups with commas between them: the first group has one to three
digits and every other group exactly three. -/
def GroupedByThrees (digits grouped : List Char) : Prop :=
  ∃ first more, digits = (first :: more).flatten ∧ grouped = [','].intercalate (first :: more) ∧
    1 ≤ first.length ∧ first.length ≤ 3 ∧ ∀ group ∈ more, group.length = 3

/-- Full groups have three times as many digits as there are groups. -/
theorem length_flatten_of_threes {more : List (List Char)} (h : ∀ group ∈ more, group.length = 3) :
    more.flatten.length = 3 * more.length := by
  induction more with
  | nil => rfl
  | cons group more ih =>
    obtain ⟨hgroup, hmore⟩ := List.forall_mem_cons.mp h
    rw [List.flatten_cons, List.length_append, hgroup, ih hmore, List.length_cons]
    omega

/-- What stands before the first comma is the first group. -/
theorem takeWhile_intercalate {first : List Char} (h : ',' ∉ first) (more : List (List Char)) :
    ([','].intercalate (first :: more)).takeWhile (· ≠ ',') = first := by
  rw [intercalate_cons]
  refine takeWhile_append_of_head? (fun c hc => decide_eq_true fun heq => h (heq ▸ hc)) ?_
  cases more <;> rfl

/-- With a first group of a given length, the groups are groups of thousands if nothing follows it,
or if what follows comes out even. For the other direction both first groups stand in front of the
first comma, so they are the same. -/
theorem groupedByThrees_take_iff {lead : Nat} (hdigits : digits ≠ []) (hcomma : ',' ∉ digits)
    (hlead : 1 ≤ lead ∧ lead ≤ 3) :
    GroupedByThrees digits ([','].intercalate (digits.take lead :: threes (digits.drop lead))) ↔
      digits.length ≤ lead ∨ digits.length % 3 = lead % 3 := by
  have hpos : 0 < digits.length := List.length_pos_iff.mpr hdigits
  constructor
  · rintro ⟨first, more, hflat, hgrouped, -, -, hmore⟩
    -- both first groups stand before the first comma
    have hfirst : ',' ∉ first := fun hmem =>
      hcomma (hflat ▸ List.mem_append_left more.flatten hmem)
    have hsame : digits.take lead = first := by
      rw [← takeWhile_intercalate (fun hmem => hcomma (List.mem_of_mem_take hmem)), hgrouped,
        takeWhile_intercalate hfirst]
    have hlength := congrArg List.length hflat
    rw [List.flatten_cons, List.length_append, ← hsame, List.length_take,
      length_flatten_of_threes hmore] at hlength
    omega
  · intro h
    refine ⟨digits.take lead, threes (digits.drop lead), ?_, rfl, ?_, ?_, fun group hgroup => ?_⟩
    · rw [List.flatten_cons, flatten_threes, List.take_append_drop]
    · rw [List.length_take]
      omega
    · rw [List.length_take]
      omega
    · refine length_of_mem_threes ?_ hgroup
      rw [List.length_drop]
      omega

theorem utf8Size_of_digit (h : isAsciiDigit c = true) : c.utf8Size = 1 := by
  obtain ⟨n, hn, rfl⟩ := exists_digitChar h
  exact (by decide : ∀ n < 10, (digitChar n).utf8Size = 1) n hn

/-- ASCII digits are as many bytes as they are digits. -/
theorem byteLength_of_digits (h : ∀ c ∈ digits, isAsciiDigit c = true) :
    byteLength digits = digits.length := by
  induction digits with
  | nil => rfl
  | cons c digits ih =>
    obtain ⟨hc, hdigits⟩ := List.forall_mem_cons.mp h
    rw [byteLength_cons, utf8Size_of_digit hc, ih hdigits, List.length_cons, Nat.add_comm]

/-- The length of the first group is counted in bytes, and the groups behind it in digits. They go
together if both leave the same over after threes, or if the whole numeral is no longer than the
first group. -/
theorem PlainParts.groupedByThrees_iff (h : PlainParts cs sign whole fraction) :
    GroupedByThrees whole (groupedDigits whole) ↔
      byteLength whole % 3 = whole.length % 3 ∨ whole.length = 2 ∧ byteLength whole = 3 := by
  have hcomma : ',' ∉ whole := fun hmem => absurd (h.isDigit _ hmem) (by decide)
  obtain ⟨c, more, rfl, hc, -⟩ := h.exists_cons
  have hcount : firstGroup (byteLength (c :: more)) = (byteLength (c :: more) + 2) % 3 + 1 := rfl
  rw [groupedDigits_eq, groupedByThrees_take_iff (List.cons_ne_nil c more) hcomma (by omega), hcount,
    byteLength_cons, utf8Size_of_digit hc, List.length_cons]
  -- two digits may fit into the first group with one byte too many
  rcases more with _ | ⟨d, _ | ⟨e, more⟩⟩
  · simp
  · have := d.utf8Size_pos
    have := d.utf8Size_le_four
    simp only [byteLength_cons, byteLength_nil, List.length_cons, List.length_nil, true_and]
    omega
  · simp only [List.length_cons]
    omega

/-- A decimal is written with ASCII digits, so its thousands are grouped from the right. Digits of
other scripts come only from texts that are grouped as they stand. -/
theorem Decimal.display_groupedByThrees (d : Decimal) :
    ∃ sign whole fraction grouped, PlainParts d.canonicalText.toList sign whole fraction ∧
      (d.display true).toList = sign ++ (grouped ++ fraction) ∧ GroupedByThrees whole grouped := by
  obtain ⟨sign, whole, fraction, h⟩ := isPlainNumeral_iff.mp (isPlainNumeral_toText d.stripZeros)
  have hascii : ∀ c ∈ whole, isAsciiDigit c = true := by
    intro c hc
    have hmem : c ∈ d.stripZeros.toChars := by
      rw [← String.toList_ofList (l := d.stripZeros.toChars), ← toText, h.chars]
      exact List.mem_append_right _ (List.mem_append_left _ hc)
    have hdigit := h.isDigit c hc
    rcases mem_toChars hmem with hasciiDigit | rfl | rfl
    · exact hasciiDigit
    · exact absurd hdigit (by decide)
    · exact absurd hdigit (by decide)
  have hbytes : byteLength whole % 3 = whole.length % 3 := by rw [byteLength_of_digits hascii]
  exact ⟨sign, whole, fraction, groupedDigits whole, h, groupThousands_of_parts h,
    h.groupedByThrees_iff.mpr (.inl hbytes)⟩

/-- **Thousands are grouped behind a first group** of as many digits as the number of their bytes
leaves over, and every other text stays as it is. The groups are those of three digits from the
right exactly if the number of bytes leaves over as much as the number of digits, or there are only
two digits with three bytes. -/
theorem groupThousands_groups (text : String) :
    (isPlainNumeral text = false ∧ groupThousands text = text) ∨
    ∃ sign whole fraction grouped, PlainParts text.toList sign whole fraction ∧
      (groupThousands text).toList = sign ++ (grouped ++ fraction) ∧
      grouped = [','].intercalate (whole.take (firstGroup (byteLength whole)) ::
        threes (whole.drop (firstGroup (byteLength whole)))) ∧
      (GroupedByThrees whole grouped ↔
        byteLength whole % 3 = whole.length % 3 ∨ whole.length = 2 ∧ byteLength whole = 3) := by
  cases hplain : isPlainNumeral text with
  | false =>
    refine .inl ⟨rfl, ?_⟩
    rw [groupThousands, if_neg (by rw [hplain]; exact Bool.false_ne_true)]
  | true =>
    obtain ⟨sign, whole, fraction, h⟩ := isPlainNumeral_iff.mp hplain
    exact .inr ⟨sign, whole, fraction, groupedDigits whole, h, groupThousands_of_parts h,
      groupedDigits_eq whole, h.groupedByThrees_iff⟩

/-- Three digits, of which two have two bytes each, are not one group. -/
theorem groupThousands_arabic :
    isPlainNumeral "1٣٣" = true ∧ groupThousands "1٣٣" = "1٣,٣" ∧
      ¬ GroupedByThrees "1٣٣".toList "1٣,٣".toList := by
  have hparts : PlainParts "1٣٣".toList [] ['1', '٣', '٣'] [] :=
    ⟨rfl, .inl rfl, .inr ⟨'1', ['٣', '٣'], rfl, by decide, List.all_eq_true.mp (by decide)⟩, .inl rfl⟩
  have hgroups : groupedDigits ['1', '٣', '٣'] = "1٣,٣".toList := by decide
  refine ⟨by decide, by decide, ?_⟩
  rw [← hgroups]
  exact fun h => absurd (hparts.groupedByThrees_iff.mp h) (by decide)

end Stencil
