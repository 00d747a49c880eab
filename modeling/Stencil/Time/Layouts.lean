import Stencil.Time.Internet
/-!
# Recognising times

`Instant.ofText` reads a time in whatever layout it is written: by the configured pattern, by one of
the Internet formats, by one of a list of common patterns, or else as a numeric timestamp. Without a
distance from UTC a time is taken as UTC, without a time of day as the start of the day.
-/

namespace Stencil

open Text

/-- Patterns of times with a distance from UTC. -/
def offsetLayouts : List String :=
  ["%Y-%m-%d %H:%M:%S%.f %z", "%Y-%m-%d %H:%M:%S%.f%:z", "%Y-%m-%dT%H:%M:%S%.f%z",
   "%Y/%m/%d %H:%M:%S%.f %z"]

/-- Patterns of times without a distance from UTC. -/
def naiveLayouts : List String :=
  ["%Y-%m-%d %H:%M:%S%.f", "%Y-%m-%dT%H:%M:%S%.f", "%Y/%m/%d %H:%M:%S%.f", "%Y-%m-%d %H:%M",
   "%Y-%m-%dT%H:%M"]

/-- Patterns of dates. -/
def dateLayouts : List String := ["%Y-%m-%d", "%Y/%m/%d"]

/-- The parts that `cs` states by a layout. A layout that is no pattern states none. -/
def partsByLayout? (cs : List Char) (layout : String) : Option TimeParts := do
  (← TimePattern.ofText? layout).read? cs

/-- The instant that `cs` states by a layout, in UTC if the distance is missing or useless. -/
def instantByLayout? (cs : List Char) (layout : String) : Option Instant := do
  let parts ← partsByLayout? cs layout
  parts.instant? <|> parts.instantUtc?

namespace Instant

/-- The instant that `cs` states in a layout other than a numeric timestamp. -/
def ofLayouts? (cs : List Char) (format : String) : Option Instant :=
  instantByLayout? cs format
    <|> (Rfc3339.read? cs).bind TimeParts.instant?
    <|> (Rfc2822.read? cs).bind TimeParts.instant?
    <|> offsetLayouts.findSome? (instantByLayout? cs)
    <|> naiveLayouts.findSome? (fun layout => (partsByLayout? cs layout).bind TimeParts.instantUtc?)
    <|> dateLayouts.findSome? (fun layout => (partsByLayout? cs layout).bind TimeParts.startOfDay?)

/-- The instant that a text states. The pattern `format` is tried first. -/
def ofText (text format : String) : Traced Instant := do
  let cs := trim text.toList
  match ofLayouts? cs format with
  | some instant => return instant
  | none =>
    let text := String.ofList cs
    .note (.unknownLayout text)
    let timestamp ← .ofOption (.functionFailure "timezone" s!"cannot parse time '{text}'")
      (Decimal.ofText? text)
    ofTimestamp timestamp

end Instant

end Stencil
