import TableExport.Numeric.Literal
import TableExport.Pattern.Basic

/-!
# Reading patterns

A pattern is cut into tokens, which a stack of open groups puts together. `\d`, `\w` and `\s` stand
for the characters of ASCII; a repetition needs something to repeat, which an anchor, a look and
another repetition are not.

* `Pattern.Token.lex` cuts a pattern into tokens.
* `Pattern.ofString?` reads a pattern; `none` when it is malformed.
-/

namespace TableExport.Pattern

/-- What a group is for. -/
inductive Group
  | plain
  | look (ahead negated : Bool)

/-- A token of a pattern. -/
inductive Token
  | item (pattern : Pattern)
  | anchor (pattern : Pattern)
  | opening (group : Group)
  | closing
  | bar
  | times (least : Nat) (most : Option Nat)

namespace Token

/-- Reads hexadecimal digits, exactly `count` of them. -/
def hexChar? (count : Nat) (text : List Char) : Option (Char × List Char) :=
  let digits := text.take count
  if digits.length = count then
    (Literal.digits? 16 digits).bind fun code =>
      if code.isValidChar then some (Char.ofNat code, text.drop count) else none
  else none

/-- The character after a backslash and `x` or `u`, in braces or with a fixed number of digits. -/
def codeChar? (count : Nat) (text : List Char) : Option (Char × List Char) :=
  match text with
  | '\x7b' :: rest =>
    let (digits, rest) := rest.span (· != '\x7d')
    match rest with
    | _ :: rest =>
      (Literal.digits? 16 digits).bind fun code =>
        if code.isValidChar then some (Char.ofNat code, rest) else none
    | [] => none
  | _ => hexChar? count text

/-- The ranges of a class letter. -/
def classRanges? : Char → Option (List (Nat × Nat))
  | 'd' => some CharSet.digits
  | 'D' => some (CharSet.outside CharSet.digits)
  | 'w' => some CharSet.words
  | 'W' => some (CharSet.outside CharSet.words)
  | 's' => some CharSet.spaces
  | 'S' => some (CharSet.outside CharSet.spaces)
  | _ => none

/-- The character that a backslash and what follows stand for. -/
def escapedChar? : List Char → Option (Char × List Char)
  | 't' :: rest => some ('\t', rest)
  | 'n' :: rest => some ('\n', rest)
  | 'r' :: rest => some ('\r', rest)
  | 'f' :: rest => some ('\x0c', rest)
  | 'v' :: rest => some ('\x0b', rest)
  | 'a' :: rest => some ('\x07', rest)
  | 'x' :: rest => codeChar? 2 rest
  | 'u' :: rest => codeChar? 4 rest
  | 'U' :: rest => codeChar? 8 rest
  | 'c' :: letter :: rest =>
    if letter.isAlpha then some (Char.ofNat (letter.toNat % 32), rest) else none
  | c :: rest =>
    if c.isAlphanum || c == '<' || c == '>' || 0x80 ≤ c.toNat then none else some (c, rest)
  | [] => none

/-- One member of a character class: the ranges of a letter, or a single character. -/
def classMember? : List Char → Option ((List (Nat × Nat) ⊕ Char) × List Char)
  | '\\' :: c :: rest =>
    match classRanges? c with
    | some ranges => some (.inl ranges, rest)
    | none => (escapedChar? (c :: rest)).map fun (c, rest) => (.inr c, rest)
  | '[' :: _ => none
  | c :: rest => some (.inr c, rest)
  | [] => none

/-- The rest of a character class; `first` says that a closing bracket is a member. -/
def classRest? (first : Bool) (ranges : List (Nat × Nat)) :
    Nat → List Char → Option (List (Nat × Nat) × List Char)
  | 0, _ => none
  | fuel + 1, text =>
    match text with
    | ']' :: rest =>
      if first then classRest? false ((93, 93) :: ranges) fuel rest else some (ranges, rest)
    | _ =>
      (classMember? text).bind fun (member, rest) =>
        match member with
        | .inl more => classRest? false (more ++ ranges) fuel rest
        | .inr low =>
          let single (_ : Unit) := classRest? false ((low.toNat, low.toNat) :: ranges) fuel rest
          match rest with
          | '-' :: ']' :: _ => single ()
          | '-' :: upper =>
            (classMember? upper).bind fun (member, rest) =>
              match member with
              | .inl _ => none
              | .inr high =>
                if low ≤ high then
                  classRest? false ((low.toNat, high.toNat) :: ranges) fuel rest
                else none
          | _ => single ()

/-- A character class after its opening bracket. -/
def class? (text : List Char) : Option (Token × List Char) :=
  let (negated, text) := match text with
    | '^' :: rest => (true, rest)
    | _ => (false, text)
  (classRest? true [] (text.length + 1) text).map fun (ranges, rest) =>
    (.item (.set ⟨ranges, negated⟩), rest)

/-- The token after a backslash. -/
def escape? : List Char → Option (Token × List Char)
  | 'b' :: rest => some (.anchor (.wordEdge false), rest)
  | 'B' :: rest => some (.anchor (.wordEdge true), rest)
  | 'A' :: rest => some (.anchor .start, rest)
  | 'z' :: rest => some (.anchor .stop, rest)
  | c :: rest =>
    match classRanges? c with
    | some ranges => some (.item (.set ⟨ranges, false⟩), rest)
    | none =>
      (escapedChar? (c :: rest)).map fun (c, rest) => (.item (.set (CharSet.single c)), rest)
  | [] => none

/-- The kind of a group after its opening parenthesis. -/
def group? : List Char → Option (Group × List Char)
  | '?' :: ':' :: rest => some (.plain, rest)
  | '?' :: '=' :: rest => some (.look true false, rest)
  | '?' :: '!' :: rest => some (.look true true, rest)
  | '?' :: '<' :: '=' :: rest => some (.look false false, rest)
  | '?' :: '<' :: '!' :: rest => some (.look false true, rest)
  | '?' :: '<' :: rest | '?' :: 'P' :: '<' :: rest =>
    let (name, rest) := rest.span (· != '>')
    if name.isEmpty then none else rest.tail?.map fun rest => (.plain, rest)
  | '?' :: _ => none
  | rest => some (.plain, rest)

/-- A counted repetition after its opening brace. -/
def counts? (text : List Char) : Option (Token × List Char) :=
  let (inside, rest) := text.span (· != '\x7d')
  let (least, more) := inside.span (· != ',')
  match rest with
  | [] => none
  | _ :: rest =>
    match Literal.digits? 10 least, more with
    | some least, [] => some (.times least (some least), rest)
    | some least, [_] => some (.times least none, rest)
    | some least, _ :: most =>
      (Literal.digits? 10 most).bind fun most =>
        if least ≤ most then some (.times least (some most), rest) else none
    | none, _ => none

/-- A repetition without the marks that say which number of repeats is tried first. -/
def dropMark : Token × List Char → Token × List Char
  | (token, '?' :: '+' :: rest) | (token, '?' :: rest) | (token, '+' :: rest) => (token, rest)
  | result => result

/-- The first token of a pattern. -/
def first? : Char → List Char → Option (Token × List Char)
  | '\\', rest => escape? rest
  | '[', rest => class? rest
  | '(', rest => (group? rest).map fun (group, rest) => (.opening group, rest)
  | ')', rest => some (.closing, rest)
  | '|', rest => some (.bar, rest)
  | '*', rest => some (dropMark (.times 0 none, rest))
  | '+', rest => some (dropMark (.times 1 none, rest))
  | '?', rest => some (dropMark (.times 0 (some 1), rest))
  | '\x7b', rest => (counts? rest).map dropMark
  | '^', rest => some (.anchor .start, rest)
  | '$', rest => some (.anchor .stop, rest)
  | '.', rest => some (.item (.set CharSet.noLineFeed), rest)
  | c, rest => some (.item (.set (CharSet.single c)), rest)

/-- The tokens of a pattern of at most `fuel` characters. -/
def lex : Nat → List Char → Option (List Token)
  | _, [] => some []
  | 0, _ => none
  | fuel + 1, c :: rest => do
    let (token, rest) ← first? c rest
    return token :: (← lex fuel rest)

end Token

/-- An open group: its earlier alternatives, and the parts of the current one from the last to the
first, each with whether it can be repeated. -/
structure OpenGroup where
  group : Group
  alternatives : List Pattern := []
  parts : List (Pattern × Bool) := []

namespace OpenGroup

/-- The current alternative. -/
def current (open_ : OpenGroup) : Pattern :=
  open_.parts.foldl (fun after part => .seq part.1 after) .empty

/-- The pattern of the group. -/
def pattern (open_ : OpenGroup) : Pattern :=
  let body := open_.alternatives.foldl (fun after before => .either before after) open_.current
  match open_.group with
  | .plain => body
  | .look ahead negated => .look ahead negated body

/-- Whether the group can be repeated. -/
def repeatable (open_ : OpenGroup) : Bool :=
  match open_.group with
  | .plain => true
  | .look .. => false

/-- Adds a part to the current alternative. -/
def add (open_ : OpenGroup) (part : Pattern) (repeatable : Bool) : OpenGroup :=
  { open_ with parts := (part, repeatable) :: open_.parts }

end OpenGroup

/-- The open groups of a pattern, the innermost first and the whole pattern last. -/
abbrev Groups := OpenGroup × List OpenGroup

/-- Adds a token to the open groups. -/
def addToken (groups : Groups) (token : Token) : Option Groups :=
  let (inner, outer) := groups
  match token with
  | .item pattern => some (inner.add pattern true, outer)
  | .anchor pattern => some (inner.add pattern false, outer)
  | .opening group => some (⟨group, [], []⟩, inner :: outer)
  | .closing =>
    match outer with
    | next :: outer => some (next.add inner.pattern inner.repeatable, outer)
    | [] => none
  | .bar =>
    some ({ inner with alternatives := inner.current :: inner.alternatives, parts := [] }, outer)
  | .times least most =>
    match inner.parts with
    | (part, true) :: parts =>
      some ({ inner with parts := (.times part least most, false) :: parts }, outer)
    | _ => none

/-- Reads a pattern. -/
def ofString? (text : String) : Option Pattern := do
  let tokens ← Token.lex text.length text.toList
  let (inner, outer) ← tokens.foldlM addToken (⟨.plain, [], []⟩, [])
  if outer.isEmpty then some inner.pattern else none

end TableExport.Pattern
