/-!
# Wildcards

A wildcard is a pattern for a name: `?` stands for one character, `*` for any number, and brackets
for one of some characters or for any but these.

* `Wildcard.ofString?` reads a wildcard; `none` when it is malformed.
* `Wildcard.fits` says whether a name fits it.
-/

namespace TableExport

namespace Wildcard

/-- A part of a wildcard. -/
inductive Token
  | char (c : Char)
  | anyChar
  | anyText
  /-- One of the characters in some ranges, or with `negated` one of the others. -/
  | oneOf (negated : Bool) (ranges : List (Char × Char))
  deriving DecidableEq

/-- The ranges that stand between brackets. -/
def ranges : List Char → List (Char × Char)
  | [] => []
  | low :: '-' :: high :: rest => (low, high) :: ranges rest
  | c :: rest => (c, c) :: ranges rest

/-- What stands between brackets, after the opening one: at least one character, then all up to
the next closing bracket. -/
def bracket? (text : List Char) : Option (Token × List Char) :=
  let (negated, body) := match text with
    | '!' :: rest => (true, rest)
    | _ => (false, text)
  match body with
  | [] => none
  | first :: rest =>
    let (inside, after) := rest.span (· != ']')
    match after with
    | [] => none
    | _ :: after => some (.oneOf negated (ranges (first :: inside)), after)

/-- The tokens of a wildcard of at most `fuel` characters. Two stars in a row are malformed. -/
def tokens? : Nat → List Char → Option (List Token)
  | _, [] => some []
  | 0, _ => none
  | fuel + 1, c :: rest =>
    match c with
    | '?' => (tokens? fuel rest).map (.anyChar :: ·)
    | '*' =>
      if rest.head? = some '*' then none else (tokens? fuel rest).map (.anyText :: ·)
    | '[' => (bracket? rest).bind fun (token, rest) => (tokens? fuel rest).map (token :: ·)
    | _ => (tokens? fuel rest).map (.char c :: ·)

end Wildcard

/-- A pattern for a name. -/
abbrev Wildcard := List Wildcard.Token

namespace Wildcard

/-- Reads a wildcard. -/
def ofString? (text : String) : Option Wildcard := tokens? text.length text.toList

/-- The ends of a list, itself and the empty one included. -/
def suffixes : List Char → List (List Char)
  | [] => [[]]
  | c :: rest => (c :: rest) :: suffixes rest

/-- Whether a character fits a token that stands for one character. -/
def fitsChar (c : Char) : Token → Bool
  | .char expected => c == expected
  | .anyChar => true
  | .anyText => false
  | .oneOf negated ranges => (ranges.any fun range => range.1 ≤ c && c ≤ range.2) != negated

/-- Whether characters fit a wildcard. -/
def fitsChars : Wildcard → List Char → Bool
  | [], text => text.isEmpty
  | .anyText :: rest, text => (suffixes text).any (fitsChars rest)
  | token :: rest, text =>
    match text with
    | c :: text => fitsChar c token && fitsChars rest text
    | [] => false

/-- Whether a name fits a wildcard. -/
def fits (wildcard : Wildcard) (name : String) : Bool := fitsChars wildcard name.toList

/-- The text of a wildcard that holds only characters. -/
def literal? (wildcard : Wildcard) : Option String :=
  (wildcard.mapM fun token =>
    match token with
    | Token.char c => some c
    | _ => none).map String.ofList

end Wildcard

end TableExport
