import TableExport.Text.Blank

/-!
# Patterns of text

Patterns are regular expressions with anchors, word edges and looks to either side. Matching looks
for the positions at which a match from a given position can end, so it needs no backtracking.

* `Pattern.ends` are the ends of the matches from a position.
* `Pattern.occursIn` says whether a pattern matches anywhere in a text.
-/

namespace TableExport

/-- A set of characters, given by code point ranges. -/
structure CharSet where
  ranges : List (Nat × Nat)
  negated : Bool := false
  deriving DecidableEq, Inhabited

namespace CharSet

/-- Whether a character is in the set. -/
def contains (set : CharSet) (c : Char) : Bool :=
  (set.ranges.any fun range => range.1 ≤ c.toNat && c.toNat ≤ range.2) != set.negated

/-- The set of one character. -/
def single (c : Char) : CharSet := ⟨[(c.toNat, c.toNat)], false⟩

/-- Every character but a line feed. -/
def noLineFeed : CharSet := ⟨[(10, 10)], true⟩

/-- The decimal digits of ASCII. -/
def digits : List (Nat × Nat) := [(48, 57)]

/-- Letters and digits of ASCII and the underscore. -/
def words : List (Nat × Nat) := [(48, 57), (65, 90), (95, 95), (97, 122)]

/-- The blanks that a pattern knows. -/
def spaces : List (Nat × Nat) :=
  [(9, 13), (32, 32), (0xA0, 0xA0), (0x2003, 0x2003), (0x2028, 0x2029), (0xFEFF, 0xFEFF)]

/-- The ranges of all code points that are in none of some ranges, which stand in order. -/
def outside (ranges : List (Nat × Nat)) : List (Nat × Nat) :=
  let (found, next) := ranges.foldl (fun (found, next) range =>
    (if next < range.1 then (next, range.1 - 1) :: found else found, range.2 + 1)) ([], 0)
  ((next, 0x10FFFF) :: found).reverse

end CharSet

/-- A pattern. -/
inductive Pattern
  | empty
  | set (chars : CharSet)
  | seq (first second : Pattern)
  | either (first second : Pattern)
  | times (body : Pattern) (least : Nat) (most : Option Nat)
  | start
  | stop
  | wordEdge (negated : Bool)
  | look (ahead negated : Bool) (body : Pattern)
  deriving Inhabited

namespace Pattern

/-- Applies a step to each position a number of times. -/
def iterate (step : Nat → List Nat) : Nat → List Nat → List Nat
  | 0, positions => positions
  | count + 1, positions => iterate step count (positions.flatMap step).eraseDups

/-- The positions that at most a number of steps reach. -/
def within (step : Nat → List Nat) : Nat → List Nat → List Nat
  | 0, positions => positions
  | count + 1, positions =>
    let next := (positions ++ positions.flatMap step).eraseDups
    if next.length = positions.length then positions else within step count next

/-- Whether a character belongs to a word. -/
def isWordChar (c : Char) : Bool :=
  (CharSet.mk CharSet.words false).contains c || (0x80 ≤ c.toNat && !isBlank c)

/-- Whether a word starts or ends at a position. -/
def atWordEdge (text : Array Char) (position : Nat) : Bool :=
  let before := position != 0 && ((text[position - 1]?).map isWordChar).getD false
  let after := ((text[position]?).map isWordChar).getD false
  before != after

/-- The ends of the matches of a pattern that start at a position. -/
def ends (text : Array Char) : Pattern → Nat → List Nat
  | .empty, i => [i]
  | .set chars, i =>
    match text[i]? with
    | some c => if chars.contains c then [i + 1] else []
    | none => []
  | .seq first second, i => ((ends text first i).flatMap (ends text second)).eraseDups
  | .either first second, i => (ends text first i ++ ends text second i).eraseDups
  | .times body least most, i =>
    let reached := iterate (ends text body) least [i]
    match most with
    | some most => within (ends text body) (most - least) reached
    | none => within (ends text body) (text.size + 1) reached
  | .start, i => if i = 0 then [i] else []
  | .stop, i => if i = text.size then [i] else []
  | .wordEdge negated, i => if atWordEdge text i != negated then [i] else []
  | .look true negated body, i => if (ends text body i).isEmpty == negated then [i] else []
  | .look false negated body, i =>
    let found := (List.range (i + 1)).any fun j => (ends text body j).contains i
    if found != negated then [i] else []

/-- Whether a pattern matches some part of a text. -/
def occursIn (pattern : Pattern) (text : String) : Bool :=
  let chars := text.toList.toArray
  (List.range (chars.size + 1)).any fun i => !(pattern.ends chars i).isEmpty

end Pattern

end TableExport
