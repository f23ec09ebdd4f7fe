import TableExport.Json.Basic
import TableExport.Numeric.Shortest

/-!
# JSON text

Two printers. The compact one writes no blanks; the indented one gives each item and each member a
line of its own, with an empty container on one line. Text is written raw but for the quote, the
backslash and the control characters.

* `Json.compact` and `Json.indented` write a value.
* `Json.numberStyle` says how doubles are written.
-/

namespace TableExport

namespace Json

/-- Doubles are positional from `10 ^ -5` to below `10 ^ 16`, and otherwise have an exponent with a
sign. -/
def numberStyle : DecimalStyle := ⟨-5, 15, "+"⟩

/-- The text of a number. -/
def renderNumber : Number → String
  | .int value => toString value
  | .double value => numberStyle.render value

/-- A character inside quotes. -/
def escapeChar (c : Char) : List Char :=
  match c with
  | '"' => ['\\', '"']
  | '\\' => ['\\', '\\']
  | '\x08' => ['\\', 'b']
  | '\x0c' => ['\\', 'f']
  | '\n' => ['\\', 'n']
  | '\r' => ['\\', 'r']
  | '\t' => ['\\', 't']
  | _ =>
    if c.toNat < 0x20 then
      ['\\', 'u', '0', '0', Nat.digitChar (c.toNat / 16), Nat.digitChar (c.toNat % 16)]
    else [c]

/-- A text in quotes. -/
def quote (text : String) : String :=
  String.ofList ('"' :: text.toList.flatMap escapeChar ++ ['"'])

mutual

/-- The text of a value without blanks. -/
def compact : Json → String
  | .null => "null"
  | .bool value => if value then "true" else "false"
  | .num value => renderNumber value
  | .str value => quote value
  | .arr items => "[" ++ ",".intercalate (compactItems items) ++ "]"
  | .obj members => "\x7b" ++ ",".intercalate (compactMembers members) ++ "\x7d"

/-- The texts of items without blanks. -/
def compactItems : List Json → List String
  | [] => []
  | item :: rest => item.compact :: compactItems rest

/-- The texts of members without blanks. -/
def compactMembers : Entries Json → List String
  | [] => []
  | (name, value) :: rest => (quote name ++ ":" ++ value.compact) :: compactMembers rest

end

/-- The blanks in front of a line at a depth: four for each level. -/
def indent (depth : Nat) : String := String.ofList (List.replicate (4 * depth) ' ')

mutual

/-- The text of a value that stands at a depth, on several lines. -/
def indentedAt (depth : Nat) : Json → String
  | .null => "null"
  | .bool value => if value then "true" else "false"
  | .num value => renderNumber value
  | .str value => quote value
  | .arr [] => "[]"
  | .arr (item :: rest) =>
    "[\n" ++ ",\n".intercalate (indentedItems (depth + 1) (item :: rest)) ++ "\n" ++
      indent depth ++ "]"
  | .obj [] => "\x7b\x7d"
  | .obj (member :: rest) =>
    "\x7b\n" ++ ",\n".intercalate (indentedMembers (depth + 1) (member :: rest)) ++ "\n" ++
      indent depth ++ "\x7d"

/-- The texts of the items of an array at a depth. -/
def indentedItems (depth : Nat) : List Json → List String
  | [] => []
  | item :: rest => (indent depth ++ item.indentedAt depth) :: indentedItems depth rest

/-- The texts of the members of an object at a depth. -/
def indentedMembers (depth : Nat) : Entries Json → List String
  | [] => []
  | (name, value) :: rest =>
    (indent depth ++ quote name ++ ": " ++ value.indentedAt depth) :: indentedMembers depth rest

end

/-- The text of a value on several lines, four blanks for each level. -/
def indented (value : Json) : String := value.indentedAt 0

end Json

end TableExport
