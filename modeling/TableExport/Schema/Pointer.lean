import TableExport.Json.Basic
import TableExport.Numeric.Literal

/-!
# JSON pointers

A pointer is a path from a value to a part of it: a slash and a segment for each step, where `~1`
stands for a slash and `~0` for a tilde. A segment is the name of a member or the index of an item.

* `Pointer.segments` splits a pointer, `Pointer.unescape` reads a segment.
* `Pointer.lookup` follows a path, and names the first segment that leads nowhere.
-/

namespace TableExport.Pointer

/-- Splits a list of characters at each separator. -/
def splitAt (separator : Char) : List Char → List (List Char)
  | [] => [[]]
  | c :: rest =>
    if c = separator then [] :: splitAt separator rest
    else
      match splitAt separator rest with
      | part :: parts => (c :: part) :: parts
      | [] => [[c]]

/-- Writes `replacement` for each pair of `first` and `second`, from left to right. -/
def replacePair (first second replacement : Char) : List Char → List Char
  | [] => []
  | [c] => [c]
  | a :: b :: rest =>
    if a = first ∧ b = second then replacement :: replacePair first second replacement rest
    else a :: replacePair first second replacement (b :: rest)

/-- The characters that those of a segment stand for: the slashes are restored before the tildes. -/
def unescapeChars (segment : List Char) : List Char :=
  replacePair '~' '0' '~' (replacePair '~' '1' '/' segment)

/-- The text that a segment stands for. -/
def unescape (segment : String) : String := String.ofList (unescapeChars segment.toList)

/-- The characters of a text as those of a segment. -/
def escapeChars (text : List Char) : List Char :=
  text.flatMap fun c =>
    if c = '~' then ['~', '0'] else if c = '/' then ['~', '1'] else [c]

/-- A text as a segment: tildes and slashes are escaped. -/
def escape (text : String) : String := String.ofList (escapeChars text.toList)

/-- The segments of a pointer as they stand in it. The empty pointer has none. -/
def segments (pointer : String) : List String :=
  ((splitAt '/' pointer.toList).drop 1).map String.ofList

/-- The part of a value that a segment names. -/
def child? (value : Json) (segment : String) : Option Json :=
  match value with
  | .obj members => Entries.get? members segment
  | .arr items => (Literal.count? segment).bind fun i => items[i]?
  | _ => none

/-- Follows the steps of a path; the error is the first step that leads nowhere. -/
def walk (value : Json) : List String → Except String Json
  | [] => .ok value
  | segment :: rest =>
    match child? value segment with
    | some part => walk part rest
    | none => .error segment

/-- The part of a value that a pointer leads to. -/
def lookup (value : Json) (pointer : String) : Except String Json :=
  walk value ((segments pointer).map unescape)

end TableExport.Pointer
