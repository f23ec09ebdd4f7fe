/-!
# Blank characters

The characters with the White_Space property of Unicode, and text without them at its ends.
-/

namespace TableExport

/-- The White_Space property. -/
def isBlank (c : Char) : Bool :=
  let code := c.toNat
  (9 ≤ code && code ≤ 13) || code == 0x20 || code == 0x85 || code == 0xA0 || code == 0x1680 ||
    (0x2000 ≤ code && code ≤ 0x200A) || code == 0x2028 || code == 0x2029 || code == 0x202F ||
    code == 0x205F || code == 0x3000

/-- A list of characters without the blanks at its start and its end. -/
def trimChars (text : List Char) : List Char :=
  ((text.dropWhile isBlank).reverse.dropWhile isBlank).reverse

/-- A text without the blanks at its start and its end. -/
def trim (text : String) : String := String.ofList (trimChars text.toList)

end TableExport
