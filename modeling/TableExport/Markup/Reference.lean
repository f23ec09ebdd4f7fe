import TableExport.Markup.Basic
import TableExport.Numeric.Literal

/-!
# References

A reference stands for a character: one of five names does, and so does a number after `#`, in
hexadecimal after `x`.

* `Markup.referenced` is the character of a reference in a text.
* `Markup.unescape?` replaces the references in the value of an attribute. Its numbers have no sign,
  are not zero and take the lower-case `x` only.
-/

namespace TableExport.Markup

/-- The character with a name. -/
def entity? (name : List Char) : Option Char :=
  if name = ['l', 't'] then some '<'
  else if name = ['g', 't'] then some '>'
  else if name = ['a', 'm', 'p'] then some '&'
  else if name = ['a', 'p', 'o', 's'] then some '\''
  else if name = ['q', 'u', 'o', 't'] then some '"'
  else none

/-- The character with a number. -/
def character? (number : Nat) : Option Char :=
  if number.isValidChar then some (Char.ofNat number) else none

/-- The greatest number that is read in a reference. -/
def maxNumber : Nat := Nat.pow 2 32 - 1

/-- The character of a number in a text. -/
def numbered? : List Char → Option Char
  | 'x' :: digits | 'X' :: digits => (Literal.unsigned? 16 maxNumber digits).bind character?
  | digits => (Literal.unsigned? 10 maxNumber digits).bind character?

/-- The character of a reference in a text. -/
def referenced (name : String) : Except MarkupError Char :=
  match name.toList with
  | '#' :: number =>
    match numbered? number with
    | some c => .ok c
    | none => .error (.badCharacter name)
  | letters =>
    match entity? letters with
    | some c => .ok c
    | none => .error (.unknownEntity name)

/-- The character of an unsigned number that is not zero. -/
def plainNumber? (radix : Nat) (digits : List Char) : Option Char := do
  let number ← Literal.digits? radix digits
  if number = 0 then none else character? number

/-- The character of a reference in the value of an attribute. -/
def attributeReference? : List Char → Option Char
  | '#' :: 'x' :: digits => plainNumber? 16 digits
  | '#' :: digits => plainNumber? 10 digits
  | name => entity? name

/-- A text with its references replaced; `name` is the open reference in reverse. -/
def unescapeFrom? (name : Option (List Char)) : List Char → Option (List Char)
  | [] => if name.isNone then some [] else none
  | c :: rest =>
    match name with
    | none =>
      if c = '&' then unescapeFrom? (some []) rest else (unescapeFrom? none rest).map (c :: ·)
    | some letters =>
      if c = ';' then do
        let first ← attributeReference? letters.reverse
        return first :: (← unescapeFrom? none rest)
      else if c = '&' then none
      else unescapeFrom? (some (c :: letters)) rest

/-- The value of an attribute with its references replaced. -/
def unescape? (text : String) : Option String :=
  (unescapeFrom? none text.toList).map String.ofList

end TableExport.Markup
