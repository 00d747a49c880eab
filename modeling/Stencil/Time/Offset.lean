import Stencil.Decimal.Basic
import Stencil.Decimal.Numeral
import Stencil.Journal
import Stencil.Text.Classes
/-!
# Distances from UTC

A fixed distance from UTC of less than a day, its numeric text, and the abbreviations that are
common for distances of whole hours.
-/

namespace Stencil

open Text

/-- A distance from UTC in seconds, positive to the east. -/
structure Offset where
  seconds : Int
  lt : seconds.natAbs < 86400
deriving DecidableEq, Repr

namespace Offset

/-- The distance of so many seconds, if it is less than a day. -/
def ofSeconds? (seconds : Int) : Option Offset :=
  if h : seconds.natAbs < 86400 then some ⟨seconds, h⟩ else none

/-- Two digits. -/
def two (n : Nat) : List Char := paddedDigits 2 n

/-- The sign of a distance. -/
def sign (offset : Offset) : Char := if offset.seconds < 0 then '-' else '+'

/-- The numeric text of a distance: hours, minutes and, if there are any, seconds. -/
def display (offset : Offset) : List Char :=
  let total := offset.seconds.natAbs
  let minutes := offset.sign :: two (total / 3600) ++ ':' :: two (total / 60 % 60)
  if total % 60 = 0 then minutes else minutes ++ ':' :: two (total % 60)

/-- The distance of so many hours, to the nearest second. The product with the seconds of an hour
may have no decimal; that aborts the evaluation. -/
def ofHours (hours : Decimal) : Traced Offset := do
  let seconds ← .orAbort (hours.mul? (Decimal.ofNat 3600))
  .ofOption (.functionFailure "timezone" s!"invalid UTC offset {hours.toText}")
    (ofSeconds? seconds.nearestInt)

/-- The abbreviation that is common for a distance of whole hours. -/
def abbreviation? (hours : Int) : Option String :=
  match hours with
  | -12 => some "-12"
  | -11 => some "SST"
  | -10 => some "HST"
  | -9 => some "AKST"
  | -8 => some "PST"
  | -7 => some "MST"
  | -6 => some "CST"
  | -5 => some "EST"
  | -4 => some "AST"
  | -3 => some "-3"
  | -2 => some "-2"
  | -1 => some "-1"
  | 0 => some "GMT"
  | 1 => some "CET"
  | 2 => some "EET"
  | 3 => some "+03"
  | 4 => some "+04"
  | 5 => some "PKT"
  | 6 => some "+06"
  | 7 => some "+07"
  | 8 => some "CST"
  | 9 => some "JST"
  | 10 => some "AEDT"
  | 11 => some "+11"
  | 12 => some "+12"
  | 13 => some "+13"
  | 14 => some "+14"
  | _ => none

/-- The name of the zone at a distance: its abbreviation, or else its numeric text. -/
def zoneName (offset : Offset) : List Char :=
  match if offset.seconds % 3600 = 0 then abbreviation? (offset.seconds / 3600) else none with
  | some name => name.toList
  | none => offset.display

end Offset

end Stencil
