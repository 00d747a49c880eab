import Stencil.Proofs.Abort

/-!
# What clocks report

A clock reads a time and writes it. The functions that do so do not know the name that the clock
goes by, and report their failures under the name `timezone`. The clock puts its own name into the
failures of writing, but not into those of reading.

* **`Clock.Unread`**, **`Clock.Unwritten`** — the causes of these failures, each with its message.
* **`Clock.instant_functionFailure_iff`**, **`Clock.formatTime_functionFailure_iff`** — a failure is
  reported for such a cause, and each of them is.
* **`clock_failure_iff`** — the name and the message of every failure of a clock.
-/

namespace Stencil

open Text

/-! ## Reading a time

A time is read from a number, or from a text that has one of the layouts or is a number. The steps
on decimals that have no error of their own do not fail (`Instant.result_ofTimestamp`), and every
other step has one error. So each failure has one cause, and the causes are the constructors of
`Unread`, with the message of each. -/

/-- The seconds of a timestamp are beyond the instants. -/
def Instant.OutOfRange (timestamp : Decimal) : Prop :=
  ∃ seconds, (secondsOfTimestamp timestamp).result = .ok seconds ∧
    ¬ (firstSecond ≤ seconds.floor ∧ seconds.floor ≤ lastSecond)

/-- Seconds are no instant exactly if they are beyond the first or the last one. -/
theorem Instant.ofSeconds?_eq_none_iff {seconds : Int} {nanos : Nat} :
    ofSeconds? seconds nanos = none ↔ ¬ (firstSecond ≤ seconds ∧ seconds ≤ lastSecond) := by
  unfold ofSeconds?
  split
  · next hrange => exact iff_of_false (by rintro ⟨⟩) (not_not_intro hrange)
  · next hrange => exact iff_of_true rfl hrange

/-- The one error of a timestamp. -/
theorem Instant.ofTimestamp_failed_iff {timestamp : Decimal} {error : Error} :
    (ofTimestamp timestamp).result = .error (.failed error) ↔
      OutOfRange timestamp ∧
        error = .functionFailure "timezone" s!"timestamp {timestamp.toText} out of range" := by
  -- the seconds and the nanoseconds of a timestamp are always found, so only their range is in
  -- question
  obtain ⟨seconds, nanos, hseconds, hresult⟩ := result_ofTimestamp timestamp
  rw [hresult, Traced.ofOption_eq_error_iff, ofSeconds?_eq_none_iff, Stop.failed.injEq]
  refine and_congr_left' ?_
  constructor
  · intro hrange
    exact ⟨seconds, hseconds, hrange⟩
  · rintro ⟨other, hother, hrange⟩
    rw [hseconds] at hother
    cases hother
    exact hrange

namespace Clock

/-- Why a value states no time, where times are written by the pattern `format`, and how that is
reported. -/
inductive Unread (format : String) : Value → String → Prop where
  | timestamp {timestamp : Decimal}
      (hrange : Instant.OutOfRange timestamp) :
      Unread format (.decimal timestamp) s!"timestamp {timestamp.toText} out of range"
  | numeral {text : String} {timestamp : Decimal}
      (hlayout : Instant.ofLayouts? (trim text.toList) format = none)
      (hnumeral : Decimal.ofText? (String.ofList (trim text.toList)) = some timestamp)
      (hrange : Instant.OutOfRange timestamp) :
      Unread format (.string text) s!"timestamp {timestamp.toText} out of range"
  | text {text : String} (hlayout : Instant.ofLayouts? (trim text.toList) format = none)
      (hnumeral : Decimal.ofText? (String.ofList (trim text.toList)) = none) :
      Unread format (.string text) s!"cannot parse time '{String.ofList (trim text.toList)}'"

variable {name message : String} {value : Value} {settings : Settings}

/-- **What the first argument is reported for**: its type, or as a failure of `timezone`. A number
fails if it is out of range; a text fails if no layout fits and it is no numeral either, or one that
is out of range. -/
theorem instant_failsWithin (name : String) (value : Value) (settings : Settings) :
    (instant name value settings).FailsWithin fun error =>
      (∃ message, error = .typeError message) ∨
        ∃ message, Unread settings.render.timeFormat value message ∧
          error = .functionFailure "timezone" message := by
  intro error herror
  unfold instant at herror
  -- a number, a text, and a value of another type
  split at herror
  · next timestamp =>
    obtain ⟨hrange, heq⟩ := Instant.ofTimestamp_failed_iff.mp herror
    exact .inr ⟨_, .timestamp hrange, heq⟩
  · next text =>
    unfold Instant.ofText at herror
    dsimp only at herror
    split at herror
    · cases herror
    · -- no layout fits, so the text is read as a number, which is noted first
      next hlayout =>
      rcases Traced.result_bind_eq_error_iff.mp herror with hnote | ⟨_, _, herror⟩
      · cases hnote
      replace herror : (Traced.ofOption _ (Decimal.ofText? _) >>= _).result = _ := herror
      rcases Traced.result_bind_eq_error_iff.mp herror with hparse | ⟨timestamp, hparse, htimestamp⟩
      · obtain ⟨hnumeral, heq⟩ := Traced.ofOption_eq_error_iff.mp hparse
        exact .inr ⟨_, .text hlayout hnumeral, Stop.failed.inj heq⟩
      · have hnumeral := Traced.ofOption_eq_ok_iff.mp hparse
        obtain ⟨hrange, heq⟩ := Instant.ofTimestamp_failed_iff.mp htimestamp
        exact .inr ⟨_, .numeral hlayout hnumeral hrange, heq⟩
  · cases herror
    exact .inl ⟨_, rfl⟩

/-- Each of these causes is reported, under the name `timezone` and not under the clock's own. -/
theorem Unread.instant (h : Unread settings.render.timeFormat value message) (name : String) :
    (instant name value settings).result =
      .error (.failed (.functionFailure "timezone" message)) := by
  cases h with
  | timestamp hrange => exact Instant.ofTimestamp_failed_iff.mpr ⟨hrange, rfl⟩
  | @numeral text timestamp hlayout hnumeral hrange =>
    have htimestamp := Instant.ofTimestamp_failed_iff.mpr ⟨hrange, rfl⟩
    show (Instant.ofText text settings.render.timeFormat).result = _
    simp only [Instant.ofText, hlayout, hnumeral]
    exact Traced.result_bind_eq_error_iff.mpr (.inr ⟨(), rfl, htimestamp⟩)
  | @text text hlayout hnumeral =>
    show (Instant.ofText text settings.render.timeFormat).result = _
    simp only [Instant.ofText, hlayout, hnumeral]
    rfl

/-- The failures of reading are these, for these causes and under this name. -/
theorem instant_functionFailure_iff {function : String} :
    (instant name value settings).result = .error (.failed (.functionFailure function message)) ↔
      function = "timezone" ∧ Unread settings.render.timeFormat value message := by
  constructor
  · intro herror
    rcases instant_failsWithin name value settings _ herror with ⟨_, ⟨⟩⟩ | ⟨_, hunread, heq⟩
    cases heq
    exact ⟨rfl, hunread⟩
  · rintro ⟨rfl, hunread⟩
    exact hunread.instant name

/-- The second and the third argument are reported for their types only. -/
theorem hours_failsWithin (name : String) (value : Option Value) (settings : Settings) :
    (hours name value settings).FailsWithin fun error => ∃ message, error = .typeError message := by
  unfold hours
  split
  · exact .pure _
  · exact .pure _
  · refine .ofExcept ?_
    unfold Value.expectDecimal
    split
    · exact .ok _
    · exact .error ⟨_, rfl⟩

/-- The pattern is refused for its type only. -/
theorem format_failsWithin (name : String) (value : Option Value) (settings : Settings) :
    (format name value settings).FailsWithin fun error => ∃ message, error = .typeError message := by
  unfold format
  split
  · exact .pure _
  · exact .pure _
  · exact .pure _
  · exact .fail ⟨_, rfl⟩

end Clock

/-! ## Writing a time

To write an instant the clock is moved by the hours and the pattern is filled in. The first can fail
because the distance from UTC is a day or more, the second because the pattern has an unknown
directive or a field that the time cannot be written in. That the product of the hours is beyond the
decimals is no failure: it aborts. -/

/-- The one error of a distance from UTC, which is a day or more. -/
theorem Offset.ofHours_failed_iff {hours : Decimal} {error : Error} :
    (ofHours hours).result = .error (.failed error) ↔
      (∃ seconds, hours.mul? (.ofNat 3600) = some seconds ∧
        ofSeconds? seconds.nearestInt = none) ∧
      error = .functionFailure "timezone" s!"invalid UTC offset {hours.toText}" := by
  -- the product has no error of its own
  have hproduct : (Traced.orAbort (hours.mul? (.ofNat 3600))).FailsWithin fun _ => False := .orAbort
  rw [ofHours, Traced.result_bind_eq_error_iff, or_iff_right (hproduct error)]
  simp only [Traced.orAbort_eq_ok_iff, Traced.ofOption_eq_error_iff, Stop.failed.injEq, ← and_assoc,
    exists_and_right]

namespace Clock

/-- Why an instant cannot be written by a pattern on a clock that is so many hours ahead of UTC, and
how that is reported. -/
inductive Unwritten (instant : Instant) (hours : Decimal) (format : String) : String → Prop where
  | offset {seconds : Decimal} (hseconds : hours.mul? (.ofNat 3600) = some seconds)
      (hday : Offset.ofSeconds? seconds.nearestInt = none) :
      Unwritten instant hours format s!"invalid UTC offset {hours.toText}"
  | pattern {offset : Offset} {pattern : String} (hoffset : (Offset.ofHours hours).result = .ok offset)
      (hpattern : pattern = String.ofList (substituteZoneName offset.zoneName format.toList))
      (htext : (do (← TimePattern.ofText? pattern).write? (instant.localTime offset)) = none) :
      Unwritten instant hours format s!"invalid time format '{pattern}'"

variable {name function message format : String} {instant : Instant} {hours : Decimal}

/-- What writing is reported for, in terms of the two causes. -/
theorem formatTime_failsWithin (instant : Instant) (hours : Decimal) (format : String) :
    (formatTime instant hours format).FailsWithin fun error =>
      ∃ message, Unwritten instant hours format message ∧
        error = .functionFailure "timezone" message := by
  intro error herror
  rcases Traced.result_bind_eq_error_iff.mp herror with hoffset | ⟨offset, hoffset, hpattern⟩
  · obtain ⟨⟨seconds, hseconds, hday⟩, rfl⟩ := Offset.ofHours_failed_iff.mp hoffset
    exact ⟨_, .offset hseconds hday, rfl⟩
  · dsimp only at hpattern
    split at hpattern
    · cases hpattern
    · next htext =>
      cases hpattern
      exact ⟨_, .pattern hoffset rfl htext, rfl⟩

/-- Each of the two causes is reported, under the name `timezone`. -/
theorem Unwritten.formatTime (h : Unwritten instant hours format message) :
    (formatTime instant hours format).result =
      .error (.failed (.functionFailure "timezone" message)) := by
  cases h with
  | offset hseconds hday =>
    have hoffset := Offset.ofHours_failed_iff.mpr ⟨⟨_, hseconds, hday⟩, rfl⟩
    exact Traced.result_bind_eq_error_iff.mpr (.inl hoffset)
  | pattern hoffset hpattern htext =>
    refine Traced.result_bind_eq_error_iff.mpr (.inr ⟨_, hoffset, ?_⟩)
    subst hpattern
    dsimp only
    rw [htext]
    rfl

/-- The failures of writing are these. -/
theorem formatTime_functionFailure_iff :
    (Stencil.formatTime instant hours format).result =
        .error (.failed (.functionFailure function message)) ↔
      function = "timezone" ∧ Unwritten instant hours format message := by
  constructor
  · intro herror
    obtain ⟨_, hunwritten, heq⟩ := formatTime_failsWithin instant hours format _ herror
    cases heq
    exact ⟨rfl, hunwritten⟩
  · rintro ⟨rfl, hunwritten⟩
    exact hunwritten.formatTime

/-- To report under a name changes the name of a failure and nothing else: errors of other kinds and
abortions pass. -/
theorem reportAs_functionFailure_iff {α : Type} {step : Traced α} :
    (reportAs name step).result = .error (.failed (.functionFailure function message)) ↔
      function = name ∧ ∃ cause, step.result = .error (.failed (.functionFailure cause message)) := by
  rw [reportAs, Traced.result_recover]
  cases step.result with
  | ok value => simp
  | error stop =>
    cases stop with
    | failed error => cases error <;> simp [Traced.fail, eq_comm]
    | aborted => simp

end Clock

/-! ## The name of a failure

A clock reads its time first, then looks at the hours and the pattern, and writes last, so a failure
of one of these steps means that the ones before it went well. Only the last step is reported under
the clock's own name. -/

/-- Whatever the arguments, these are the kinds of error that a clock ends with. None of them is an
error of evaluation itself, so a clock never reports a limit. -/
theorem Clock.run_failsWithin (signature : Signature) (arguments : List Value) (settings : Settings) :
    (run signature arguments settings).FailsWithin fun error =>
      (∃ expected actual, error = .argumentCount signature.name expected actual) ∨
      (∃ message, error = .typeError message) ∨
      ∃ function message, error = .functionFailure function message := by
  cases arguments with
  | nil => exact .fail (.inl ⟨_, _, rfl⟩)
  | cons time rest =>
    -- writing is the one step whose failures get the clock's name
    have hreported (instant : Instant) (hours : Decimal) (format : String) :
        (reportAs signature.name (formatTime instant hours format)).FailsWithin fun error =>
          ∃ message, error = .functionFailure signature.name message := by
      refine .recover fun cause hcause => ?_
      obtain ⟨message, _, rfl⟩ := formatTime_failsWithin instant hours format cause hcause
      exact .fail ⟨message, rfl⟩
    intro error herror
    rcases run_error_iff.mp herror with
      hinstant | ⟨instant, _, hhours | ⟨hours, _, hformat | ⟨format, _, hwritten⟩⟩⟩
    · rcases instant_failsWithin _ _ _ _ hinstant with htype | ⟨message, _, heq⟩
      · exact .inr (.inl htype)
      · exact .inr (.inr ⟨_, message, heq⟩)
    · exact .inr (.inl (hours_failsWithin _ _ _ _ hhours))
    · exact .inr (.inl (format_failsWithin _ _ _ _ hformat))
    · exact .inr (.inr ⟨_, hreported instant hours format error hwritten⟩)

/-- **A clock reports what it cannot write under its own name, and what it cannot read under the
name `timezone`.** `Clock.Unread` and `Clock.Unwritten` list the causes with their messages, so both
the name and the text of a failure are determined. Errors of types are no failures of a function,
and stay out of it. -/
theorem clock_failure_iff (name : String) (arguments : List Value) (settings : Settings)
    (function message : String) :
    ((Function.clock name).run arguments settings).result =
        .error (.failed (.functionFailure function message)) ↔
      ∃ time rest, arguments = time :: rest ∧
        (function = "timezone" ∧ Clock.Unread settings.render.timeFormat time message ∨
          function = name ∧ ∃ instant hours format,
            (Clock.instant name time settings).result = .ok instant ∧
            (Clock.hours name rest[0]? settings).result = .ok hours ∧
            (Clock.format name rest[1]? settings).result = .ok format ∧
            Clock.Unwritten instant hours format message) := by
  show (Clock.run (.range name 1 3) arguments settings).result = _ ↔ _
  cases arguments with
  | nil => exact iff_of_false (by rintro ⟨⟩) (by rintro ⟨_, _, ⟨⟩, _⟩)
  | cons time rest =>
    -- the second and the third argument have errors of types only, which are no failures of a
    -- function
    have hhours : (Clock.hours name rest[0]? settings).result ≠
        .error (.failed (.functionFailure function message)) := by
      intro herror
      obtain ⟨_, ⟨⟩⟩ := Clock.hours_failsWithin name rest[0]? settings _ herror
    have hformat : (Clock.format name rest[1]? settings).result ≠
        .error (.failed (.functionFailure function message)) := by
      intro herror
      obtain ⟨_, ⟨⟩⟩ := Clock.format_failsWithin name rest[1]? settings _ herror
    simp only [Signature.range, Clock.run_error_iff, Clock.instant_functionFailure_iff, hhours, hformat,
      false_or, Clock.reportAs_functionFailure_iff, Clock.formatTime_functionFailure_iff,
      exists_eq_left]
    constructor
    · rintro (⟨hname, hunread⟩ | ⟨instant, hinstant, hours, hhours, format, hformat, hname, hunwritten⟩)
      · exact ⟨time, rest, rfl, .inl ⟨hname, hunread⟩⟩
      · exact ⟨time, rest, rfl, .inr
          ⟨hname, instant, hours, format, hinstant, hhours, hformat, hunwritten⟩⟩
    · rintro ⟨time, rest, hcons, hcause⟩
      cases hcons
      rcases hcause with ⟨hname, hunread⟩ | ⟨hname, instant, hours, format, hinstant, hhours, hformat,
        hunwritten⟩
      · exact .inl ⟨hname, hunread⟩
      · exact .inr ⟨instant, hinstant, hours, hhours, format, hformat, hname, hunwritten⟩

/-- The clock `formatTime` reports a text that states no time, and not under its own name: the text
is read by the same code that `timezone` has, and that has the name fixed. -/
theorem clock_failure_formatTime :
    ((Function.clock "formatTime").run [.string "x"] ⟨{}, {}⟩).result =
      .error (.failed (.functionFailure "timezone" "cannot parse time 'x'")) := by
  have hlayout : Instant.ofLayouts? (Text.trim "x".toList)
      ({} : RenderConfig).timeFormat = none := by
    decide +kernel
  have hnumeral : Decimal.ofText? (String.ofList (Text.trim "x".toList)) = none := by
    decide +kernel
  exact Clock.run_error_iff.mpr (.inl ((Clock.Unread.text hlayout hnumeral).instant "formatTime"))

end Stencil
