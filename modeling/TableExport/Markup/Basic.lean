/-!
# Markup

Marked-up text is a sequence of events: tags open and close, and text and references stand between
them. Names stay bytes, since only some of them are ever looked at.

* `Tag` is an opening tag with its attributes as they are written.
* `Event` is an event. A fault ends the events of markup that cannot be read further.
* `MarkupError` says why markup cannot be read.
-/

namespace TableExport

/-- Why markup cannot be read. -/
inductive MarkupError
  /-- The markup breaks the rules of tags, references or attribute values. -/
  | malformed
  /-- A text is not encoded as it should be. -/
  | encoding
  /-- The attributes of a tag cannot be told apart. -/
  | attribute
  /-- A text has a reference to an unknown entity. -/
  | unknownEntity (name : String)
  /-- A text has a reference to something that is no character. -/
  | badCharacter (name : String)

/-- What is said about an error in a reference. -/
def MarkupError.message : MarkupError → String
  | .malformed => "Malformed markup"
  | .encoding => "Malformed text"
  | .attribute => "Malformed attributes"
  | .unknownEntity name => "Unknown XML entity '&" ++ name ++ ";'"
  | .badCharacter name => "Invalid character reference '&" ++ name ++ ";'"

namespace Markup

/-- The name of a tag or an attribute. -/
abbrev Name := List UInt8

/-- A text as a name. -/
def Name.ofString (text : String) : Name := text.toUTF8.toList

/-- The byte of an ASCII character. -/
def byte (c : Char) : UInt8 := c.toNat.toUInt8

/-- The part of a name after its first colon, or all of it. -/
def Name.local (name : Name) : Name :=
  match name.dropWhile (· != byte ':') with
  | [] => name
  | _ :: rest => rest

/-- Whether a byte separates a name from what follows. -/
def isSpace (b : UInt8) : Bool :=
  b == byte ' ' || b == byte '\t' || b == byte '\n' || b == byte '\r'

/-- An opening tag. -/
structure Tag where
  name : Name
  /-- The attributes as they are written. -/
  attributes : List UInt8
  deriving DecidableEq

/-- A piece of marked-up text. Content that is not encoded as it should be is `none`. -/
inductive Event
  | start (tag : Tag)
  | stop (name : Name)
  | text (content : Option String)
  | reference (name : Option String)
  | fault
  deriving DecidableEq

/-- Whether a tag has a name. -/
def Tag.isNamed (tag : Tag) (name : String) : Bool := tag.name == Name.ofString name

/-- Whether an event opens an element with a name. -/
def Event.opens (event : Event) (name : String) : Bool :=
  match event with
  | .start tag => tag.isNamed name
  | _ => false

/-- Whether an event closes an element with a name. -/
def Event.closes (event : Event) (name : String) : Bool :=
  match event with
  | .stop other => other == Name.ofString name
  | _ => false

/-- Whether a character ends a line in markup of version 1.1: besides the line feed these are the
carriage return, the next line and the line separator. -/
def endsLine (c : Char) : Bool := c == '\n' || c == '\r' || c == '\u0085' || c == '\u2028'

/-- A text with one kind of line ends. A carriage return makes up one line end with a line feed or
a next line behind it. -/
def evenLines : List Char → List Char
  | [] => []
  | '\r' :: '\n' :: rest => '\n' :: evenLines rest
  | '\r' :: '\u0085' :: rest => '\n' :: evenLines rest
  | c :: rest => (if endsLine c then '\n' else c) :: evenLines rest

/-- The text in some bytes; `none` when they are no text. -/
def decode? (bytes : List UInt8) : Option String := String.fromUTF8? ⟨bytes.toArray⟩

/-- The content of markup in some bytes. -/
def content? (bytes : List UInt8) : Option String :=
  (decode? bytes).map fun text => String.ofList (evenLines text.toList)

end Markup

end TableExport
