import TableExport.Json.Basic
import TableExport.Numeric.Literal

/-!
# Reading JSON text

The reader is an automaton over characters with a stack of open containers, so it ends with the
text. It takes exactly one value with blanks around it; a member that comes twice keeps its first
place and takes its last value.

* `Number.ofLiteral?` reads a number.
* `Json.Reading.step` reads one character.
* `Json.readBy?` reads a text by some rules, and `Json.read?` reads a document.
-/

namespace TableExport

/-! ## Numbers -/

namespace Number

/-- The parts of a number without its sign: whole digits, digits after the point, exponent. -/
structure Parts where
  whole : List Char
  part : Option (List Char)
  exponent : Option Int

/-- Splits a number into its parts. Digits stand on both sides of a point, and a whole part of more
than one digit does not start with zero. -/
def Parts.ofChars? (text : List Char) : Option Parts := do
  let (whole, rest) := Literal.takeDigits text
  let _ ← if whole.isEmpty ∨ (whole.head? = some '0' ∧ 1 < whole.length) then none else some ()
  let (part, rest) ← match rest with
    | '.' :: after =>
      let (digits, rest) := Literal.takeDigits after
      if digits.isEmpty then none else some (some digits, rest)
    | _ => some (none, rest)
  let exponent ← match rest with
    | [] => some none
    | _ => (Literal.exponent? rest).map some
  return ⟨whole, part, exponent⟩

/-- A run of digits cut where it would no longer fit 64 bits. -/
structure Significand where
  value : Nat
  /-- The digits that did not fit. -/
  dropped : Nat

/-- Reads digits after a value as long as the value fits 64 bits. -/
def Significand.read (value : Nat) : List Char → Significand
  | [] => ⟨value, 0⟩
  | c :: rest =>
    let next := value * 10 + (c.toNat - '0'.toNat)
    if Literal.maxCount < next then ⟨value, rest.length + 1⟩ else read next rest

/-- Scales a double by a power of ten. The power is one double, below `10 ^ -308` several; nothing
is rounded in between but the double itself. `none` when the result is infinite. -/
def scale (value : Binary64) (exponent : Int) : Nat → Option Binary64
  | 0 => some value
  | steps + 1 =>
    if exponent.natAbs ≤ 308 then
      let power := Binary64.ofNat (Nat.pow 10 exponent.natAbs)
      if 0 ≤ exponent then
        let scaled := value.mul power
        if scaled.isFinite then some scaled else none
      else some (value.div power)
    else if value.isZero then some value
    else if 0 ≤ exponent then none
    else scale (value.div (Binary64.ofNat (Nat.pow 10 308))) (exponent + 308) steps

/-- The double of a number's parts: the leading digits that fit 64 bits, rounded once, then scaled
by a power of ten. -/
def Parts.double? (negative : Bool) (parts : Parts) : Option Binary64 := do
  let part := parts.part.getD []
  let whole := Significand.read 0 parts.whole
  let all := Significand.read whole.value part
  let places : Int := whole.dropped - ((part.length : Int) - all.dropped)
  let value ← scale (Binary64.ofNat all.value) (places + parts.exponent.getD 0) 8
  return if negative then value.neg else value

/-- Reads a number. Without point and exponent it is an integer if it fits 64 bits; zero with a
minus sign is the double. -/
def ofLiteral? (text : List Char) : Option Number := do
  let (negative, body) := match text with
    | '-' :: rest => (true, rest)
    | rest => (false, rest)
  let parts ← Parts.ofChars? body
  let integer : Option Int :=
    if parts.part.isSome ∨ parts.exponent.isSome then none
    else
      (Literal.digits? 10 parts.whole).bind fun n =>
        if negative then if 0 < n ∧ n ≤ Nat.pow 2 63 then some (-(n : Int)) else none
        else if n ≤ Literal.maxCount then some (n : Int) else none
  match integer with
  | some n => return .int n
  | none => return .double (← parts.double? negative)

/-- Reads a number whose value does not count: only its form is checked. -/
def ofForm? (text : List Char) : Option Number :=
  let body := match text with
    | '-' :: rest => rest
    | rest => rest
  (Parts.ofChars? body).map fun _ => .int 0

end Number

/-! ## The automaton -/

namespace Json.Reading

/-- An open container: what it holds so far, and for an object the name whose value comes next. -/
inductive Frame
  | array (items : List Json)
  | object (members : Entries Json) (name : String)

/-- What the reader is in the middle of. -/
inductive Mode
  /-- A value comes next; the array that was just opened may close instead. -/
  | value (mayClose : Bool)
  /-- A member name comes next; the object that was just opened may close instead. -/
  | name (members : Entries Json) (mayClose : Bool)
  /-- The colon after a member name comes next. -/
  | colon (members : Entries Json) (name : String)
  /-- A value is complete. -/
  | complete (value : Json)
  /-- Inside a text, its characters in reverse; with members it is the name of one. -/
  | text (members : Option (Entries Json)) (chars : List Char)
  /-- After a backslash inside a text. -/
  | escape (members : Option (Entries Json)) (chars : List Char)
  /-- Inside a code of four hexadecimal digits; `high` is the first half of a surrogate pair. -/
  | code (members : Option (Entries Json)) (chars : List Char) (high : Option Nat)
    (value : Nat) (left : Nat)
  /-- After the first half of a surrogate pair, where `seen` says whether the backslash came. -/
  | pair (members : Option (Entries Json)) (chars : List Char) (high : Nat) (seen : Bool)
  /-- Inside a number, its characters in reverse. -/
  | number (chars : List Char)
  /-- Inside `true`, `false` or `null`. -/
  | word (rest : List Char) (value : Json)

/-- The state of the reader: the open containers from the inside out, and the mode. -/
structure State where
  open_ : List Frame
  mode : Mode

/-- What a reader checks besides the form of a text. -/
structure Rules where
  /-- The greatest nesting of containers. -/
  limit : Nat
  /-- Whether a member that comes twice is kept twice. -/
  keepsRepeats : Bool := false
  /-- Whether the value inside some open containers does not count. Of such a value only the form
  is checked: not its nesting, the size of its numbers or the halves of its surrogate pairs. -/
  skips : List Frame → Bool := fun _ => false

/-- Adds a member to an object. -/
def Rules.add (rules : Rules) (members : Entries Json) (name : String) (value : Json) :
    Entries Json :=
  if rules.keepsRepeats then members ++ [(name, value)] else members.put name value

/-- Whether a text inside some open containers does not count; a member name counts with the
containers around its object. -/
def Rules.skipsText (rules : Rules) (frames : List Frame) (isName : Bool) : Bool :=
  rules.skips (if isName then frames.tail else frames)

/-- The number with a text, inside some open containers. -/
def Rules.number? (rules : Rules) (frames : List Frame) (chars : List Char) : Option Number :=
  if rules.skips frames then Number.ofForm? chars else Number.ofLiteral? chars

/-- The blanks between the parts of a text. -/
def isSpace (c : Char) : Bool := c == ' ' || c == '\t' || c == '\n' || c == '\r'

/-- The characters that a number may hold. -/
def isNumberChar (c : Char) : Bool :=
  c.isDigit || c == '-' || c == '+' || c == '.' || c == 'e' || c == 'E'

/-- One character where a value comes next. -/
def stepValue (rules : Rules) (frames : List Frame) (mayClose : Bool) (c : Char) : Option State :=
  let mayOpen := frames.length < rules.limit || rules.skips frames
  if isSpace c then some ⟨frames, .value mayClose⟩
  else if c = '"' then some ⟨frames, .text none []⟩
  else if c = '-' ∨ c.isDigit then some ⟨frames, .number [c]⟩
  else if c = 't' then some ⟨frames, .word ['r', 'u', 'e'] (.bool true)⟩
  else if c = 'f' then some ⟨frames, .word ['a', 'l', 's', 'e'] (.bool false)⟩
  else if c = 'n' then some ⟨frames, .word ['u', 'l', 'l'] .null⟩
  else if c = '[' then
    if mayOpen then some ⟨.array [] :: frames, .value true⟩ else none
  else if c = '\x7b' then
    if mayOpen then some ⟨.object [] "" :: frames, .name [] true⟩ else none
  else if c = ']' ∧ mayClose then
    match frames with
    | .array items :: rest => some ⟨rest, .complete (.arr items.reverse)⟩
    | _ => none
  else none

/-- One character after a complete value. -/
def stepComplete (rules : Rules) (frames : List Frame) (value : Json) (c : Char) : Option State :=
  if isSpace c then some ⟨frames, .complete value⟩
  else
    match frames with
    | [] => none
    | .array items :: rest =>
      if c = ',' then some ⟨.array (value :: items) :: rest, .value false⟩
      else if c = ']' then some ⟨rest, .complete (.arr (value :: items).reverse)⟩
      else none
    | .object members name :: rest =>
      let members := rules.add members name value
      if c = ',' then some ⟨.object members "" :: rest, .name members false⟩
      else if c = '\x7d' then some ⟨rest, .complete (.obj members)⟩
      else none

/-- The end of a text: a complete value, or a member name. -/
def endText (frames : List Frame) (members : Option (Entries Json)) (chars : List Char) : State :=
  let text := String.ofList chars.reverse
  match members with
  | none => ⟨frames, .complete (.str text)⟩
  | some members => ⟨frames, .colon members text⟩

/-- The end of a code of four digits. A first half of a pair needs the second half after it, and
the second half the first half before it. -/
def endCode (rules : Rules) (frames : List Frame) (members : Option (Entries Json))
    (chars : List Char) (high : Option Nat) (code : Nat) : Option State :=
  let isHigh := 0xD800 ≤ code ∧ code < 0xDC00
  let isLow := 0xDC00 ≤ code ∧ code < 0xE000
  match high with
  | none =>
    if rules.skipsText frames members.isSome then some ⟨frames, .text members chars⟩
    else if isHigh then some ⟨frames, .pair members chars code false⟩
    else if isLow then none
    else some ⟨frames, .text members (Char.ofNat code :: chars)⟩
  | some first =>
    if isLow then
      let joined := 0x10000 + (first - 0xD800) * 0x400 + (code - 0xDC00)
      some ⟨frames, .text members (Char.ofNat joined :: chars)⟩
    else none

/-- The character that a backslash and a letter stand for. -/
def escaped? : Char → Option Char
  | '"' => some '"'
  | '\\' => some '\\'
  | '/' => some '/'
  | 'b' => some '\x08'
  | 'f' => some '\x0c'
  | 'n' => some '\n'
  | 'r' => some '\r'
  | 't' => some '\t'
  | _ => none

/-- Reads one character. -/
def step (rules : Rules) (state : State) (c : Char) : Option State :=
  let frames := state.open_
  match state.mode with
  | .value mayClose => stepValue rules frames mayClose c
  | .name members mayClose =>
    if isSpace c then some state
    else if c = '"' then some ⟨frames, .text (some members) []⟩
    else if c = '\x7d' ∧ mayClose then
      match frames with
      | _ :: rest => some ⟨rest, .complete (.obj members)⟩
      | [] => none
    else none
  | .colon members name =>
    if isSpace c then some state
    else if c = ':' then
      match frames with
      | _ :: rest => some ⟨.object members name :: rest, .value false⟩
      | [] => none
    else none
  | .complete value => stepComplete rules frames value c
  | .text members chars =>
    if c = '"' then some (endText frames members chars)
    else if c = '\\' then some ⟨frames, .escape members chars⟩
    else if c.toNat < 0x20 then none
    else some ⟨frames, .text members (c :: chars)⟩
  | .escape members chars =>
    if c = 'u' then some ⟨frames, .code members chars none 0 4⟩
    else (escaped? c).map fun e => ⟨frames, .text members (e :: chars)⟩
  | .code members chars high value left =>
    (Literal.digit? 16 c).bind fun d =>
      let value := value * 16 + d
      if left ≤ 1 then endCode rules frames members chars high value
      else some ⟨frames, .code members chars high value (left - 1)⟩
  | .pair members chars high seen =>
    if seen then if c = 'u' then some ⟨frames, .code members chars (some high) 0 4⟩ else none
    else if c = '\\' then some ⟨frames, .pair members chars high true⟩ else none
  | .number chars =>
    if isNumberChar c then some ⟨frames, .number (c :: chars)⟩
    else (rules.number? frames chars.reverse).bind fun n => stepComplete rules frames (.num n) c
  | .word rest value =>
    match rest with
    | expected :: rest =>
      if c = expected then
        some ⟨frames, if rest.isEmpty then .complete value else .word rest value⟩
      else none
    | [] => none

/-- The value that is complete at the end of the text. -/
def finish (state : State) : Option Json :=
  match state with
  | ⟨[], .complete value⟩ => some value
  | ⟨[], .number chars⟩ => (Number.ofLiteral? chars.reverse).map .num
  | _ => none

end Json.Reading

namespace Json

/-- Reads a value from a whole text. -/
def readBy? (rules : Reading.Rules) (text : String) : Option Json :=
  (text.toList.foldlM (Reading.step rules) ⟨[], .value false⟩).bind Reading.finish

/-- The greatest nesting of a document. -/
def maxDepth : Nat := 127

/-- Reads a document. -/
def read? (text : String) : Option Json := readBy? { limit := maxDepth } text

end Json

end TableExport
