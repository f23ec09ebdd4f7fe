import TableExport.Archive.Basic
import TableExport.Markup.Attribute
import TableExport.Markup.Reader
import TableExport.Markup.Text
import TableExport.Workbook.Error

/-!
# Parts of workbooks

The parts of a workbook are marked-up texts in an archive.

* `Archive.events?` gives the events of a part.
* `Part.fold` goes through the events of a part and reads the text of some elements as a whole.
-/

namespace TableExport

/-- The events of a part; `none` when there is no such part. -/
def Archive.events? (archive : Archive) (part : String) :
    Except WorkbookError (Option (List Markup.Event)) :=
  match archive.find? part with
  | none => .ok none
  | some entry =>
    match archive.content? entry with
    | none => .error .badArchive
    | some content => .ok (some (Markup.read content.bytes.toList content.whole))

/-- The events of a part that has to be there. -/
def Archive.requireEvents (archive : Archive) (part : String) :
    Except WorkbookError (List Markup.Event) := do
  match ← archive.events? part with
  | some events => return events
  | none => throw (.missingPart part)

namespace Part

/-- The value of an attribute. -/
def attribute? (tag : Markup.Tag) (name : String) : Except WorkbookError (Option String) :=
  (tag.attribute? name).mapError .markup

/-- An element whose text is read as a whole. -/
structure Shown where
  element : String
  /-- Whether all text in the element counts, and not only that of its runs. -/
  plain : Bool

/-- Goes through events. At the start of an element that is shown, the step gets its text, and goes
on after its end; else it gets the empty text. -/
def fold {σ : Type} (shown : List Shown)
    (step : σ → Markup.Event → String → Except WorkbookError σ) (state : σ) :
    List Markup.Event → Except WorkbookError σ
  | [] => .ok state
  | event :: rest =>
    match shown.find? fun one => event.opens one.element with
    | some one =>
      match h : Markup.readText one.element one.plain rest with
      | .error cause => .error (.markup cause)
      | .ok (text, after) =>
        have : after.length < rest.length + 1 := Nat.lt_succ_of_le (Markup.readText_length h)
        match step state event text with
        | .error cause => .error cause
        | .ok next => fold shown step next after
    | none =>
      match event with
      | .fault => .error (.markup .malformed)
      | event =>
        match step state event "" with
        | .error cause => .error cause
        | .ok next => fold shown step next rest
termination_by events => events.length

end Part

end TableExport
