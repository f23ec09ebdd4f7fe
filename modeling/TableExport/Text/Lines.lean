/-!
# Lines of a text

A line ends at a line feed, which a carriage return may precede. The text after the last line feed
is a line only when it is not empty, and a carriage return that no line feed follows is part of its
line.
-/

namespace TableExport

/-- The lines of a text, where `line` holds the characters of the current line in reverse. -/
def linesFrom (line : List Char) : List Char → List (List Char)
  | [] => if line.isEmpty then [] else [line.reverse]
  | '\n' :: rest =>
    let ended := match line with
      | '\r' :: before => before
      | _ => line
    ended.reverse :: linesFrom [] rest
  | c :: rest => linesFrom (c :: line) rest

/-- The lines of a text without their ends. -/
def lines (text : String) : List String := (linesFrom [] text.toList).map String.ofList

end TableExport
