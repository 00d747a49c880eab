import Mathlib.Data.List.DropRight
import Stencil.Proofs.Clocks
import Stencil.Proofs.TimeTexts

/-!
# Numerals as times

A time given as a text is tried by one layout after the other before it is read as a number. None of
them takes a numeral. Each starts with a number that may be the front of one, a year or a day, but
what is then left of the numeral starts with a digit, a point or an exponent, and never with the
dash, the slash or the space that the layout goes on with.

* **`DigitRun`**, **`SignedRun`** — the texts that are left of a numeral, and those that start one.
* **`SignedRun.ofText?`** — a text with a value as a number is such a text between its white space.
* **`SignedRun.ofLayouts?`** — no layout takes it; one lemma for each kind of layout.
* **`numeral_is_timestamp`** — so a clock takes the text for the number.
-/

namespace Stencil

open Text

/-! ## White space around a text

A text is trimmed before the layouts are tried and once more before it is read as a number, which
makes no difference. -/

/-- Trimming a text that is trimmed leaves it as it is. -/
theorem Text.trim_trim (cs : List Char) : trim (trim cs) = trim cs := by
  have hfront : (trim cs).dropWhile isSpace = trim cs := by
    have htext : trim cs <+: cs.dropWhile isSpace := List.rdropWhile_prefix isSpace _
    rw [List.dropWhile_eq_self_iff]
    intro hpos
    rw [htext.getElem hpos]
    exact List.dropWhile_get_zero_not isSpace cs _
  rw [trim, hfront]
  exact List.rdropWhile_idempotent isSpace _

theorem Decimal.ofText?_trim (text : String) :
    ofText? (String.ofList (trim text.toList)) = ofText? text := by
  rw [ofText?, String.toList_ofList, trim_trim, ofText?]

/-! ## What is left of a numeral

Every layout starts by reading a number of at most so many digits. What is left of a numeral then is
again something that starts like the rest of a numeral: this is `DigitRun`, which is closed under
reading digits. The marks that layouts go on with are not among the characters that such a text
starts with. -/

/-- Digits, and after them nothing more, a point or an exponent. -/
inductive DigitRun : List Char → Prop where
  | done : DigitRun []
  | mark {c : Char} (hmark : c = '.' ∨ c = 'e' ∨ c = 'E') (cs : List Char) : DigitRun (c :: cs)
  | digit {c : Char} {cs : List Char} (hdigit : isAsciiDigit c = true) (h : DigitRun cs) :
      DigitRun (c :: cs)

namespace DigitRun

variable {c : Char} {cs rest : List Char} {least most n count : Nat}

/-- Digits may be put in front. -/
theorem append (hdigits : ∀ c ∈ cs, isAsciiDigit c = true) (h : DigitRun rest) :
    DigitRun (cs ++ rest) := by
  induction cs with
  | nil => exact h
  | cons c cs ih =>
    obtain ⟨hc, hcs⟩ := List.forall_mem_cons.mp hdigits
    exact .digit hc (ih hcs)

/-- Such a text starts with a digit, a point or the letter of an exponent, if it starts at all. None
of these is a separator of a layout. -/
theorem head (h : DigitRun (c :: cs)) : isAsciiDigit c = true ∨ c = '.' ∨ c = 'e' ∨ c = 'E' := by
  cases h with
  | mark hmark => exact .inr hmark
  | digit hdigit => exact .inl hdigit

/-- However many digits are read, what is left is such a text again. -/
theorem drop (h : DigitRun cs) (most : Nat) :
    DigitRun (cs.drop ((cs.take most).takeWhile isAsciiDigit).length) := by
  induction h generalizing most with
  | done => simpa using DigitRun.done
  -- a mark is no digit, so no digits are taken here
  | mark hmark cs =>
    have hmark' := hmark
    obtain rfl | rfl | rfl := hmark <;> cases most <;> exact .mark hmark' cs
  | digit hdigit h ih =>
    cases most with
    | zero => exact .digit hdigit h
    | succ most =>
      rw [List.take_succ_cons, List.takeWhile_cons_of_pos hdigit, List.length_cons,
        List.drop_succ_cons]
      exact ih most

/-- Behind the digits that are taken such a text is left. -/
theorem takeDigits? (h : DigitRun cs) (htake : takeDigits? least most cs = some (n, count, rest)) :
    DigitRun rest := by
  simp only [Stencil.takeDigits?, Option.bind_eq_bind, Option.pure_def] at htake
  split at htake
  · cases htake
  · simp only [Option.bind_eq_some_iff, Option.some.injEq, Prod.mk.injEq] at htake
    obtain ⟨_, _, _, _, rfl⟩ := htake
    exact h.drop most

/-- And so it is behind a number. -/
theorem takeNumber? (h : DigitRun cs) (htake : takeNumber? least most cs = some (n, rest)) :
    DigitRun rest := by
  obtain ⟨⟨value, count, left⟩, hdigits, hsize⟩ := Option.bind_eq_some_iff.mp htake
  dsimp only at hsize
  split at hsize
  · cases hsize
    exact h.takeDigits? hdigits
  · cases hsize

/-- A character that is none of these is not there to be dropped. -/
theorem dropChar?_eq_none (h : DigitRun cs) (hdigit : isAsciiDigit c = false)
    (hmark : ¬ (c = '.' ∨ c = 'e' ∨ c = 'E')) : dropChar? c cs = none := by
  cases cs with
  | nil => rfl
  | cons first cs =>
    refine if_neg ?_
    rintro rfl
    rcases h.head with hfirst | hfirst
    · rw [hdigit] at hfirst
      cases hfirst
    · exact hmark hfirst

/-- White space is not there to be dropped either. -/
theorem dropSomeSpaces?_eq_none (h : DigitRun cs) : dropSomeSpaces? cs = none := by
  cases cs with
  | nil => rfl
  | cons first cs =>
    have hspace : isSpace first = false := by
      rcases h.head with hdigit | rfl | rfl | rfl
      · exact Decimal.isSpace_of_digit hdigit
      all_goals decide
    refine if_neg ?_
    simp [hspace]

end DigitRun

/-- No name is taken where the short form of none of them is there. -/
theorem takeName?_eq_none {full : Bool} {cs : List Char} {names : List String}
    (h : ∀ name ∈ names, dropWord? (name.toList.take shortNameLength) cs = none) :
    takeName? full cs names = none := by
  induction names with
  | nil => rfl
  | cons name names ih =>
    obtain ⟨hname, hnames⟩ := List.forall_mem_cons.mp h
    rw [takeName?, hname, ih hnames]
    rfl

/-- The same after a sign, or without one. -/
inductive SignedRun : List Char → Prop where
  | plain {cs : List Char} (h : DigitRun cs) : SignedRun cs
  | signed {c : Char} {cs : List Char} (hsign : c = '-' ∨ c = '+') (h : DigitRun cs) :
      SignedRun (c :: cs)

namespace SignedRun

variable {c : Char} {cs : List Char}

/-- With a sign taken off the front, such a text is left of a numeral. -/
theorem of_takeSign (h : DigitRun (Numeral.takeSign cs).2) : SignedRun cs := by
  unfold Numeral.takeSign at h
  split at h
  · exact .signed (.inl rfl) h
  · exact .signed (.inr rfl) h
  · exact .plain h

/-- A numeral may start with a sign as well. -/
theorem head (h : SignedRun (c :: cs)) :
    isAsciiDigit c = true ∨ c = '.' ∨ c = 'e' ∨ c = 'E' ∨ c = '-' ∨ c = '+' := by
  cases h with
  | plain h =>
    rcases h.head with hdigit | rfl | rfl | rfl
    · exact .inl hdigit
    all_goals decide
  | signed hsign => exact .inr (.inr (.inr (.inr hsign)))

/-- What starts with a digit has no sign. -/
theorem digitRun (h : SignedRun cs) (hdigit : cs.head?.any isAsciiDigit = true) : DigitRun cs := by
  cases h with
  | plain h => exact h
  | signed hsign => obtain rfl | rfl := hsign <;> cases hdigit

theorem tail (h : SignedRun (c :: cs)) (hsign : c = '-' ∨ c = '+') : DigitRun cs := by
  cases h with
  | plain h => obtain rfl | rfl := hsign <;> exact absurd h.head (by decide)
  | signed _ h => exact h

/-- Without a sign the numeral is such a text itself. -/
theorem unsigned (h : SignedRun cs) (hminus : ∀ rest, cs ≠ '-' :: rest)
    (hplus : ∀ rest, cs ≠ '+' :: rest) : DigitRun cs := by
  cases h with
  | plain h => exact h
  | signed hsign h =>
    obtain rfl | rfl := hsign
    · exact absurd rfl (hminus _)
    · exact absurd rfl (hplus _)

/-- A numeral does not start with white space. -/
theorem dropSpaces (h : SignedRun cs) : dropSpaces cs = cs := by
  cases cs with
  | nil => rfl
  | cons c cs =>
    have hspace : isSpace c = false := by
      rcases h.head with hdigit | rfl | rfl | rfl | rfl | rfl
      · exact Decimal.isSpace_of_digit hdigit
      all_goals decide
    exact List.dropWhile_cons_of_neg (by rw [hspace]; exact Bool.false_ne_true)

/-- No day of the week starts like a numeral. -/
theorem takeName?_weekdayNames (h : SignedRun cs) : takeName? false cs weekdayNames = none := by
  cases cs with
  | nil => rfl
  | cons c cs =>
    have hletter : c.toLower ∉ ['m', 't', 'w', 'f', 's'] := by
      rcases h.head with hdigit | rfl | rfl | rfl | rfl | rfl
      · obtain ⟨n, hn, rfl⟩ := exists_digitChar hdigit
        exact (by decide : ∀ n < 10, (digitChar n).toLower ∉ ['m', 't', 'w', 'f', 's']) n hn
      all_goals decide
    have hname {letter : Char} (hfirst : letter.toLower ∈ ['m', 't', 'w', 'f', 's'])
        (word : List Char) : dropWord? (letter :: word) (c :: cs) = none := by
      refine if_neg fun heq => hletter ?_
      rwa [← heq]
    refine takeName?_eq_none ?_
    simp only [weekdayNames, List.forall_mem_cons]
    refine ⟨?_, ?_, ?_, ?_, ?_, ?_, ?_, List.forall_mem_nil _⟩ <;> exact hname (by decide) _

end SignedRun

/-! ## Numerals

A text that is read as a number has passed the reader of numerals: it has a sign or none, digits
that are ASCII, and then a point, an exponent or the end. So it is such a text, whatever the
fraction and the exponent are. -/

/-- **Digits, then a point, or what is recognized as an exponent, or nothing**: these are the cases
of the reader. So a numeral between its white space never goes on behind its first digits as a date
does. -/
theorem DigitRun.of_takeMantissa? {cs whole fraction rest : List Char}
    {exponent : Option (Bool × List Char)}
    (hmantissa : Numeral.takeMantissa? cs = some (whole, fraction, rest))
    (hexponent : Numeral.exponentOfChars? rest = some exponent)
    (hwhole : ∀ c ∈ whole, isAsciiDigit c = true) : DigitRun cs := by
  rw [← List.takeWhile_append_dropWhile (p := isDigit) (l := cs)]
  simp only [Numeral.takeMantissa?] at hmantissa
  split at hmantissa
  · next htail =>
    split at hmantissa
    · cases hmantissa
    · cases hmantissa
      rw [htail]
      exact .append hwhole (.mark (.inl rfl) _)
  · split at hmantissa
    · cases hmantissa
    · cases hmantissa
      refine .append hwhole ?_
      generalize cs.dropWhile isDigit = tail at hexponent
      cases tail with
      | nil => exact .done
      | cons c tail =>
        simp only [Numeral.exponentOfChars?] at hexponent
        split at hexponent
        · next hmark => exact .mark (.inr hmark.1) _
        · cases hexponent

/-- The digits in front of the point are only read if they are ASCII. -/
theorem Decimal.isAsciiDigit_of_readMantissa? {whole fraction : List Char} {read : Nat × Nat}
    (h : readMantissa? whole fraction = some read) : ∀ c ∈ whole, isAsciiDigit c = true := by
  rw [readMantissa?] at h
  split at h
  · obtain ⟨total, htotal, -⟩ := Option.bind_eq_some_iff.mp h
    exact (readWhole?_eq_some_iff.mp htotal).1
  · cases h

/-- A text with a value as a number is a numeral between its white space. -/
theorem SignedRun.ofText? {text : String} {d : Decimal} (h : Decimal.ofText? text = some d) :
    SignedRun (trim text.toList) := by
  obtain ⟨numeral, hchars, hvalue⟩ := Option.bind_eq_some_iff.mp h
  simp only [Numeral.ofChars?, Option.bind_eq_bind, Option.bind_eq_some_iff, Option.pure_def,
    Option.some.injEq] at hchars
  obtain ⟨⟨whole, fraction, rest⟩, hmantissa, exponent, hexponent, rfl⟩ := hchars
  obtain ⟨read, hread, -⟩ := Option.bind_eq_some_iff.mp hvalue
  exact .of_takeSign
    (.of_takeMantissa? hmantissa hexponent (Decimal.isAsciiDigit_of_readMantissa? hread))

/-! ## Layouts

A layout that starts with a year goes on with a dash or a slash, and one that starts with a day goes
on with white space. Each of the layouts that are tried is of one of these kinds, which is a matter
of looking at their list; that a numeral is not taken is then one lemma for each kind. -/

/-- A number that has digits starts with one. The fields of a date have at least one, so a point or
a sign is refused there. -/
theorem head?_of_takeNumber? {least most : Nat} {cs : List Char} {number : Nat × List Char}
    (hleast : 0 < least) (h : takeNumber? least most cs = some number) :
    cs.head?.any isAsciiDigit = true := by
  obtain ⟨_, hdigits, _⟩ := Option.bind_eq_some_iff.mp h
  simp only [takeDigits?, Option.bind_eq_bind] at hdigits
  split at hdigits
  · cases hdigits
  · next hlength =>
    cases cs with
    | nil =>
      rw [List.take_nil, List.takeWhile_nil] at hlength
      exact absurd hleast hlength
    | cons c cs =>
      by_contra hdigit
      have hempty : ((c :: cs).take most).takeWhile isAsciiDigit = [] := by
        cases most with
        | zero => rfl
        | succ most => exact List.takeWhile_cons_of_neg hdigit
      rw [hempty] at hlength
      exact absurd hleast hlength

namespace Reading

variable {reading next : Reading} {field : TimeField} {least most : Nat} {c : Char}

/-- To keep a field does not read anything. -/
theorem rest_insert? {value : Int} {rest : List Char}
    (h : reading.insert? field value rest = some next) : next.rest = rest := by
  simp only [insert?, Option.bind_eq_bind, Option.bind_eq_some_iff, Option.pure_def,
    Option.some.injEq] at h
  obtain ⟨_, _, rfl⟩ := h
  rfl

/-- A field of digits is only read where a digit is, and leaves such a text. -/
theorem digits?_digitRun (h : SignedRun reading.rest) (hleast : 0 < least)
    (hread : reading.digits? field least most = some next) : DigitRun next.rest := by
  obtain ⟨⟨value, rest⟩, hnumber, hinsert⟩ := Option.bind_eq_some_iff.mp hread
  rw [rest_insert? hinsert]
  exact (h.digitRun (head?_of_takeNumber? hleast hnumber)).takeNumber? hnumber

/-- After the number for the year there is no dash and no slash, whether the number has a sign or
not. -/
theorem number?_year_digitRun (h : SignedRun reading.rest)
    (hread : reading.number? .year = some next) : DigitRun next.rest := by
  obtain ⟨parts, cs⟩ := reading
  simp only [number?, h.dropSpaces, TimeField.isSigned] at hread
  split at hread
  all_goals
    obtain ⟨⟨value, rest⟩, hnumber, hinsert⟩ := Option.bind_eq_some_iff.mp hread
    rw [rest_insert? hinsert]
  · exact (h.tail (.inl rfl)).takeNumber? hnumber
  · exact (h.tail (.inr rfl)).takeNumber? hnumber
  · next hminus hplus =>
    exact (h.unsigned (by simpa using hminus) (by simpa using hplus)).takeNumber? hnumber

theorem char?_eq_none (h : DigitRun reading.rest) (hdigit : isAsciiDigit c = false)
    (hmark : ¬ (c = '.' ∨ c = 'e' ∨ c = 'E')) : reading.char? c = none := by
  rw [char?, h.dropChar?_eq_none hdigit hmark]
  rfl

theorem someSpaces?_eq_none (h : DigitRun reading.rest) : reading.someSpaces? = none := by
  rw [someSpaces?, h.dropSomeSpaces?_eq_none]
  rfl

end Reading

/-- The pattern starts with the year and a dash or a slash. -/
def TimePattern.startsWithYear : TimePattern → Bool
  | .number .year _ :: .literal c :: _ => c = '-' || c = '/'
  | _ => false

namespace SignedRun

variable {cs : List Char}

/-- A pattern that starts with a year takes no numeral. -/
theorem read?_startsWithYear (h : SignedRun cs) {pattern : TimePattern}
    (hpattern : pattern.startsWithYear = true) : pattern.read? cs = none := by
  unfold TimePattern.startsWithYear at hpattern
  split at hpattern
  · next padding c items =>
    have hc : c = '-' ∨ c = '/' := by simpa using hpattern
    rw [TimePattern.read?, List.foldlM_cons]
    cases hyear : (TimeItem.number .year padding).read? (Reading.start cs) with
    | none => rfl
    | some reading =>
      have hrun : DigitRun reading.rest := Reading.number?_year_digitRun h hyear
      have hseparator : (TimeItem.literal c).read? reading = none := by
        obtain rfl | rfl := hc <;> exact Reading.char?_eq_none hrun (by decide) (by decide)
      simp only [List.foldlM_cons, hseparator, Option.bind_eq_bind, Option.bind_some,
        Option.bind_none]
  · cases hpattern

/-- The internet format with a year of four digits takes no numeral. -/
theorem rfc3339 (h : SignedRun cs) : Rfc3339.read? cs = none := by
  refine Option.bind_eq_none_iff.mpr fun reading hyear => ?_
  have hrun := Reading.digits?_digitRun h (by decide) hyear
  rw [Reading.char?_eq_none hrun (by decide) (by decide)]
  rfl

/-- The one that starts with a day of the week or of the month takes none: a day of the week is not
there, and behind the day of the month white space is missing. -/
theorem rfc2822 (h : SignedRun cs) : Rfc2822.read? cs = none := by
  have hskip : (Reading.start cs).skipSpaces = Reading.start cs := by
    rw [Reading.skipSpaces, Reading.start, h.dropSpaces]
  have hweekday : Rfc2822.weekday? (Reading.start cs) = some (Reading.start cs) := by
    rw [Rfc2822.weekday?, Reading.start, h.takeName?_weekdayNames]
  rw [Rfc2822.read?, hskip, hweekday, Option.bind_eq_bind, Option.bind_some, hskip]
  refine Option.bind_eq_none_iff.mpr fun reading hday => ?_
  rw [Reading.someSpaces?_eq_none (Reading.digits?_digitRun h (by decide) hday)]
  rfl

/-- A layout that starts with a year takes no numeral. -/
theorem partsByLayout? (h : SignedRun cs) {layout : String}
    (hlayout : (TimePattern.ofText? layout).any TimePattern.startsWithYear = true) :
    partsByLayout? cs layout = none := by
  refine Option.bind_eq_none_iff.mpr fun pattern hpattern => ?_
  rw [hpattern] at hlayout
  exact h.read?_startsWithYear hlayout

/-- **No layout takes what is left of a numeral between its white space.** The patterns in the lists
all start with a year, which is decided by looking at them; the two formats with readers of their
own have the lemmas above. -/
theorem ofLayouts? (h : SignedRun cs) :
    Instant.ofLayouts? cs TimePattern.stampFormat = none := by
  have hlayouts : ∀ layout ∈ TimePattern.stampFormat :: (offsetLayouts ++ naiveLayouts ++ dateLayouts),
      Stencil.partsByLayout? cs layout = none := by
    -- the list of layouts is short enough to be looked at
    have hyears : ∀ layout ∈
        TimePattern.stampFormat :: (offsetLayouts ++ naiveLayouts ++ dateLayouts),
        (TimePattern.ofText? layout).any TimePattern.startsWithYear = true := by
      decide +kernel
    exact fun layout hlayout => h.partsByLayout? (hyears layout hlayout)
  simp only [List.forall_mem_cons, List.forall_mem_append] at hlayouts
  obtain ⟨hformat, ⟨hoffset, hnaive⟩, hdate⟩ := hlayouts
  have hfind {layouts : List String} {instant? : TimeParts → Option Instant}
      (hnone : ∀ layout ∈ layouts, Stencil.partsByLayout? cs layout = none) :
      layouts.findSome? (fun layout => (Stencil.partsByLayout? cs layout).bind instant?) = none := by
    refine List.findSome?_eq_none_iff.mpr fun layout hlayout => ?_
    rw [hnone layout hlayout]
    rfl
  have hoffsets : offsetLayouts.findSome? (instantByLayout? cs) = none := hfind hoffset
  rw [Instant.ofLayouts?, instantByLayout?, hformat, h.rfc3339, h.rfc2822, hoffsets, hfind hnaive,
    hfind hdate]
  rfl

end SignedRun

/-! ## Clocks

No layout takes the text, so its value as a number is all that counts, and the clock goes on as it
would with that number. -/

/-- A text with a value as a number is read as the timestamp of that value. -/
theorem Instant.result_ofText_numeral {text : String} {d : Decimal}
    (h : Decimal.ofText? text = some d) :
    (ofText text TimePattern.stampFormat).result = (ofTimestamp d).result := by
  have hlayouts := (SignedRun.ofText? h).ofLayouts?
  simp only [ofText, hlayouts, Decimal.ofText?_trim, h]
  rfl

/-- With such a text for its first argument, the clock has the outcome that it has with the number.
-/
theorem Clock.result_run_numeral {text : String} {d : Decimal} {settings : Settings}
    (htext : Decimal.ofText? text = some d)
    (hformat : settings.render.timeFormat = TimePattern.stampFormat) (signature : Signature)
    (rest : List Value) :
    (run signature (.string text :: rest) settings).result =
      (run signature (.decimal d :: rest) settings).result := by
  have hinstant (name : String) :
      (instant name (.string text) settings).result = (instant name (.decimal d) settings).result := by
    rw [instant, instant, hformat]
    exact Instant.result_ofText_numeral htext
  simp only [run, Traced.result_bind, hinstant]

/-- **A text that is a number is the timestamp of that number.** Where the settings have the pattern
of settings without a pattern, both clocks take the one for the other, whatever white space, sign,
fraction or exponent the text has and whatever the other arguments are: the outcome is the same
value, or the same error. -/
theorem numeral_is_timestamp {text : String} {d : Decimal} {settings : Settings}
    (htext : Decimal.read text = .ok d)
    (hformat : settings.render.timeFormat = ({} : RenderConfig).timeFormat) (rest : List Value) :
    (Vocabulary.standard.call "timezone" (.string text :: rest) settings).result =
        (Vocabulary.standard.call "timezone" (.decimal d :: rest) settings).result ∧
      (Vocabulary.standard.call "formatTime" (.string text :: rest) settings).result =
        (Vocabulary.standard.call "formatTime" (.decimal d :: rest) settings).result := by
  have happly (name : String) :
      ((Function.clock name).apply (.string text :: rest) settings).result =
        ((Function.clock name).apply (.decimal d :: rest) settings).result := by
    unfold Function.apply
    simp only [List.length_cons]
    -- the number of arguments is checked first, and it is the same
    split
    · rfl
    · exact Clock.result_run_numeral (Decimal.read_eq_ok.mp htext) hformat _ rest
  exact ⟨happly "timezone", happly "formatTime"⟩

/-- A number that looks like a year is no date, also with white space, a sign and an exponent. -/
theorem numeral_is_timestamp_year :
    (Vocabulary.standard.call "timezone" [.string " +2023.5e1\n", .string "-0.5"]
        ⟨{}, {}⟩).result.toOption.bind Value.asString? =
      some "1970-01-01 05:07:15-00:30" := by
  have htext : Decimal.read " +2023.5e1\n" = .ok (.ofNat 20235) :=
    Decimal.read_eq_ok.mpr (by decide +kernel)
  rw [(numeral_is_timestamp htext rfl [.string "-0.5"]).1]
  decide +kernel

end Stencil
