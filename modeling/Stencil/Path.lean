import Stencil.Json.Reader
/-!
# Paths

A path names a part of a document: segments with dots between them. A segment is a key of an object
or a position in an array; the segment `#` is the length of an array. A backslash takes the
character after it as it is.

* `splitPath` — the segments of a path.
* `escapeSegment` — the path of one segment, whatever its characters.
* `Json.resolve` — the part that a path names; `Json.resolveText` — the same for a document's text.
-/

namespace Stencil

open Text

/-- The segments of a path. `segment` holds the characters read of the current one, the last one
first. -/
def splitFrom (segment : List Char) : List Char → List String
  | [] => [String.ofList segment.reverse]
  | '\\' :: [] => [String.ofList segment.reverse]
  | '\\' :: c :: cs => splitFrom (c :: segment) cs
  | c :: cs =>
    if c = '.' then String.ofList segment.reverse :: splitFrom [] cs
    else splitFrom (c :: segment) cs

/-- The segments of a path. -/
def splitPath (path : String) : List String := splitFrom [] path.toList

/-- How a character is written in a path. -/
def escapedPathChar (c : Char) : List Char := if c = '.' ∨ c = '\\' then ['\\', c] else [c]

/-- The path with the one segment `key`. -/
def escapeSegment (key : String) : String :=
  String.ofList (key.toList.flatMap escapedPathChar)

/-- The position that a segment names: ASCII digits, and at most 64 bits. -/
def position? (segment : String) : Option Nat := do
  if segment = "" then none
  let position ← natOfDigits? segment.toList
  if position < 18446744073709551616 then some position else none

namespace Json

/-- The part of a document that segments name. The length of an array has no parts. -/
def follow : Json → List String → Option Json
  | document, [] => some document
  | .object members, segment :: segments => do follow (← Assoc.get? segment members) segments
  | .array items, segment :: segments =>
    if segment = "#" then
      if segments = [] then some (.number (toString items.length)) else none
    else do follow (← items[← position? segment]?) segments
  | _, _ :: _ => none

/-- The part of a document that a path names. The empty path names nothing. -/
def resolve (document : Json) (path : String) : Option Json :=
  if path = "" then none else document.follow (splitPath path)

/-- The part that a path names of the document that a text holds. A text that holds none has no
parts. -/
def resolveText (text path : String) : Option Json := do (← read? text).resolve path

end Json

/-- How paths are followed. -/
abbrev Resolver := Json → String → Option Json

end Stencil
