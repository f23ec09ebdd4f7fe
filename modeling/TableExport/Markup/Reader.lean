import TableExport.Markup.Basic

/-!
# Reading markup

Bytes are cut into events. Comments, declarations and instructions leave none, and an element that
closes itself leaves two. Which tag closes which is not checked, but a tag that closes nothing is a
fault; tags that stay open are not.

* `Markup.read` gives the events of some bytes.
-/

namespace TableExport.Markup

/-- Splits bytes at the first place of a pattern, which is left out. -/
def splitAt? (pattern : List UInt8) (before : List UInt8) :
    List UInt8 → Option (List UInt8 × List UInt8)
  | [] => none
  | b :: rest =>
    if pattern.isPrefixOf (b :: rest) then some (before.reverse, (b :: rest).drop pattern.length)
    else splitAt? pattern (b :: before) rest

/-- Splits off the inside of a tag: up to the first `>` outside quotes. -/
def splitTag? (quote : Option UInt8) (before : List UInt8) :
    List UInt8 → Option (List UInt8 × List UInt8)
  | [] => none
  | b :: rest =>
    match quote with
    | some open_ => splitTag? (if b = open_ then none else quote) (b :: before) rest
    | none =>
      if b = byte '>' then some (before.reverse, rest)
      else
        let isQuote := b = byte '"' || b = byte '\''
        splitTag? (if isQuote then some b else none) (b :: before) rest

/-- Splits off a declaration: up to the `>` that leaves no `<` open. -/
def splitDeclaration? (depth : Nat) (before : List UInt8) :
    List UInt8 → Option (List UInt8 × List UInt8)
  | [] => none
  | b :: rest =>
    if b = byte '>' then
      match depth with
      | 0 => some (before.reverse, rest)
      | outer + 1 => splitDeclaration? outer (b :: before) rest
    else splitDeclaration? (if b = byte '<' then depth + 1 else depth) (b :: before) rest

/-- What follows a text at the start of bytes, when the text stands there in either case. -/
def afterText? (text : String) (bytes : List UInt8) : Option (List UInt8) :=
  let expected := Name.ofString text
  let upper (b : UInt8) : UInt8 := if byte 'a' ≤ b && b ≤ byte 'z' then b - 32 else b
  if expected == (bytes.take expected.length).map upper then some (bytes.drop expected.length)
  else none

/-- The events of an opening tag. -/
def openingEvents (inside : List UInt8) : List Event :=
  let closed := inside.getLast? == some (byte '/')
  let content := if closed then inside.dropLast else inside
  let tag : Tag := ⟨content.takeWhile (!isSpace ·), content.dropWhile (!isSpace ·)⟩
  if closed then [.start tag, .stop tag.name] else [.start tag]

/-- The name in a closing tag. -/
def closingName (inside : List UInt8) : Name :=
  if inside.all isSpace then inside else (inside.reverse.dropWhile isSpace).reverse

/-- Reads what follows `<!`. -/
def readBang? (bytes : List UInt8) : Option (List Event × List UInt8) :=
  match bytes with
  | first :: rest =>
    if first = byte '-' then
      if rest.head? = some (byte '-') then
        (splitAt? (Name.ofString "-->") [] (rest.drop 1)).map fun (_, rest) => ([], rest)
      else none
    else if first = byte '[' then do
      let inside ← afterText? "[CDATA[" bytes
      let (content, rest) ← splitAt? (Name.ofString "]]>") [] inside
      return ([.text (content? content)], rest)
    else if first = byte 'D' || first = byte 'd' then do
      let (inside, rest) ← splitDeclaration? 0 [] bytes
      let named ← afterText? "DOCTYPE" inside
      if named.all isSpace then none else return ([], rest)
    else none
  | [] => none

/-- Reads what follows `<`. -/
def readMarkup? (bytes : List UInt8) : Option (List Event × List UInt8) :=
  match bytes with
  | [] => none
  | first :: rest =>
    if first = byte '!' then readBang? rest
    else if first = byte '/' then
      (splitTag? none [] rest).map fun (inside, rest) => ([.stop (closingName inside)], rest)
    else if first = byte '?' then
      match splitAt? (Name.ofString "?>") [] bytes with
      | some (_ :: _, rest) => some ([], rest)
      | _ => none
    else (splitTag? none [] bytes).map fun (inside, rest) => (openingEvents inside, rest)

/-- Reads what follows `&`. -/
def readReference? (bytes : List UInt8) : Option (List Event × List UInt8) :=
  let ends (b : UInt8) : Bool := b == byte ';' || b == byte '&' || b == byte '<'
  match bytes.dropWhile (!ends ·) with
  | b :: rest =>
    if b = byte ';' then some ([.reference (content? (bytes.takeWhile (!ends ·)))], rest) else none
  | [] => none

/-- Reads what bytes start with. -/
def readPiece? : List UInt8 → Option (List Event × List UInt8)
  | [] => none
  | b :: rest =>
    if b = byte '<' then readMarkup? rest
    else if b = byte '&' then readReference? rest
    else
      let ends (b : UInt8) : Bool := b == byte '<' || b == byte '&'
      some ([.text (content? (b :: rest.takeWhile (!ends ·)))], rest.dropWhile (!ends ·))

/-- Reads pieces up to the end. Each takes at least one byte, so `fuel` is the number of bytes. The
events so far are in reverse. -/
def readPieces (events : List Event) : Nat → List UInt8 → List Event
  | 0, _ => events
  | fuel + 1, bytes =>
    if bytes.isEmpty then events
    else
      match readPiece? bytes with
      | some (found, rest) => readPieces (found.reverse ++ events) fuel rest
      | none => .fault :: events

/-- The events up to the first tag that closes nothing; `depth` elements are open. -/
def checkClosing (events : List Event) : Nat → List Event → List Event
  | _, [] => events.reverse
  | depth, .stop name :: rest =>
    match depth with
    | 0 => (.fault :: events).reverse
    | outer + 1 => checkClosing (.stop name :: events) outer rest
  | depth, .start tag :: rest => checkClosing (.start tag :: events) (depth + 1) rest
  | depth, event :: rest => checkClosing (event :: events) depth rest

/-- The mark that may stand before encoded text. -/
def encodingMark : List UInt8 := [0xEF, 0xBB, 0xBF]

/-- The events of some bytes. Bytes that are not whole end with a fault. -/
def read (bytes : List UInt8) (whole : Bool) : List Event :=
  let body := if encodingMark.isPrefixOf bytes then bytes.drop 3 else bytes
  let events := readPieces [] body.length body
  checkClosing [] 0 (if whole then events else .fault :: events).reverse

end TableExport.Markup
