import TableExport.Markup.Reference

/-!
# Attributes

* `Tag.attribute?` is the value of the first attribute whose name after a colon is the wanted one.
  The attributes before it must be well formed and have names of their own; those behind it are not
  looked at.
-/

namespace TableExport.Markup

/-- Splits off the value of an attribute and its quotes. -/
def splitValue? : List UInt8 → Option (List UInt8 × List UInt8)
  | [] => none
  | quote :: rest =>
    if quote = byte '"' || quote = byte '\'' then
      match rest.dropWhile (· != quote) with
      | _ :: after => some (rest.takeWhile (· != quote), after)
      | [] => none
    else none

/-- Splits off an attribute: its name and its value. The bytes start with no space. -/
def splitAttribute? : List UInt8 → Option (Name × List UInt8 × List UInt8)
  | [] => none
  | first :: rest =>
    let ends (b : UInt8) : Bool := b == byte '=' || isSpace b
    match (rest.dropWhile (!ends ·)).dropWhile isSpace with
    | [] => none
    | equals :: after =>
      if equals = byte '=' then
        (splitValue? (after.dropWhile isSpace)).map fun (value, after) =>
          (first :: rest.takeWhile (!ends ·), value, after)
      else none

/-- The value of an attribute as text. -/
def attributeText (value : List UInt8) : Except MarkupError String :=
  match (decode? value).bind unescape? with
  | some text => .ok text
  | none => .error .malformed

/-- Looks for an attribute in bytes. `seen` are the names before it. Each attribute takes at least
one byte, so `fuel` is the number of bytes. -/
def findAttribute (wanted : Name) (seen : List Name) :
    Nat → List UInt8 → Except MarkupError (Option String)
  | 0, _ => .ok none
  | fuel + 1, bytes =>
    let body := bytes.dropWhile isSpace
    if body.isEmpty then .ok none
    else
      match splitAttribute? body with
      | none => .error .attribute
      | some (name, value, rest) =>
        if seen.contains name then .error .attribute
        else if name.local == wanted then (attributeText value).map some
        else findAttribute wanted (name :: seen) fuel rest

/-- The value of an attribute of a tag; `none` when the tag has no such attribute. -/
def Tag.attribute? (tag : Tag) (name : String) : Except MarkupError (Option String) :=
  findAttribute (Name.ofString name) [] (tag.attributes.length + 1) tag.attributes

end TableExport.Markup
