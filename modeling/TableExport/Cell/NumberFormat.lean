import TableExport.Cell.Kind

/-!
# Number formats

The kind of a number cell follows from its format. A format is one of those with a fixed number, or
a pattern of the workbook: letters of a pattern stand for the parts of a date or a time, unless they
are escaped, quoted or in brackets.

* `NumberFormat.builtin?` is the kind of a numbered format.
* `NumberFormat.ofPattern` is the kind of a pattern.
-/

namespace TableExport.NumberFormat

/-- The kind of a numbered format; `none` for one that shows no date and no time. -/
def builtin? (id : String) (system : DateSystem) : Option CellKind :=
  if id = "22" then some (.serial .dateTime system)
  else if id ∈ ["14", "15", "16", "17"] then some (.serial .date system)
  else if id ∈ ["18", "19", "20", "21", "45", "46", "47"] then some (.serial .time system)
  else none

/-- Where in a pattern a character stands. -/
inductive Section
  | plain
  | quoted
  | bracket
  deriving DecidableEq

/-- The state of a scan: the section, whether the next character is escaped, and the date and time
letters seen so far. -/
structure Scan where
  at_ : Section
  escaped : Bool
  hasDate : Bool
  hasTime : Bool
  deriving DecidableEq

/-- The start of a scan. -/
def Scan.start : Scan := ⟨.plain, false, false, false⟩

/-- The characters that escape the next one. -/
def isEscape (c : Char) : Bool := c == '_' || c == '\\'

/-- The letters of a year or a day. -/
def isDateLetter (c : Char) : Bool := c == 'Y' || c == 'y' || c == 'D' || c == 'd'

/-- The letters of an hour or a second. -/
def isTimeLetter (c : Char) : Bool := c == 'H' || c == 'h' || c == 'S' || c == 's'

/-- Scans one character. A quote opens and closes a section in which nothing else counts; a bracket
opens one that ends at the first closing bracket that is not escaped. -/
def Scan.step (scan : Scan) (c : Char) : Scan :=
  if scan.escaped then { scan with escaped := false }
  else
    match scan.at_ with
    | .quoted => if c = '"' then { scan with at_ := .plain } else scan
    | .bracket =>
      if isEscape c then { scan with escaped := true }
      else if c = ']' then { scan with at_ := .plain }
      else scan
    | .plain =>
      if isEscape c then { scan with escaped := true }
      else if c = '"' then { scan with at_ := .quoted }
      else if c = '[' then { scan with at_ := .bracket }
      else if isDateLetter c then { scan with hasDate := true }
      else if isTimeLetter c then { scan with hasTime := true }
      else scan

/-- The kind that goes with the letters seen. -/
def Scan.kind (scan : Scan) (system : DateSystem) : CellKind :=
  match scan.hasDate, scan.hasTime with
  | true, true => .serial .dateTime system
  | true, false => .serial .date system
  | false, true => .serial .time system
  | false, false => .number

/-- The kind of the numbers with a pattern. -/
def ofPattern (pattern : String) (system : DateSystem) : CellKind :=
  (pattern.toList.foldl Scan.step Scan.start).kind system

end TableExport.NumberFormat
