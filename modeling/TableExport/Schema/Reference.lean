import TableExport.Schema.Pointer

/-!
# References between schemas

A reference is the name of a document, and after a number sign a pointer into it. Either may be
missing: without a name it stays in its own document, without a pointer it means the whole document.

* `SchemaReference.split?` takes a reference apart.
* `SchemaReference.key` names the node that a reference leads to.
* `displayName` is the name of the type that a reference stands for.
-/

namespace TableExport

namespace SchemaReference

/-- The document and the pointer of a reference. A pointer is empty or starts with a slash, and
holds no line feed; a reference has at least a document or a number sign. -/
def split? (reference : String) : Option (String × String) :=
  let (document, rest) := reference.toList.span (· != '#')
  match rest with
  | [] => if document.isEmpty then none else some (String.ofList document, "")
  | _ :: pointer =>
    if pointer.isEmpty then some (String.ofList document, "")
    else if pointer.head? = some '/' ∧ '\n' ∉ pointer then
      some (String.ofList document, String.ofList pointer)
    else none

/-- The name of a node: its document and its pointer. -/
def key (document pointer : String) : String := document ++ "#" ++ pointer

end SchemaReference

/-- The segments that structure a document and name no type. -/
def structuralSegments : List String := ["definitions", "$defs", "properties", "items"]

/-- Whether a segment of a pointer can name a type. -/
def namesType (segment : String) : Bool :=
  !segment.isEmpty && !structuralSegments.contains segment && (Literal.count? segment).isNone

/-- The last part of a path without what follows the first point in it. -/
def documentStem (document : String) : String :=
  let file := ((Pointer.splitAt '/' document.toList).getLast?).getD []
  String.ofList (file.takeWhile (· != '.'))

/-- The name of the type that a reference stands for: the last segment of its pointer that can name
a type, else the document without its folders and extensions. -/
def displayName (reference : String) : String :=
  let (document, rest) := reference.toList.span (· != '#')
  let segments := (Pointer.splitAt '/' (rest.drop 1)).map String.ofList
  match (segments.filter namesType).getLast? with
  | some segment => Pointer.unescape segment
  | none => documentStem (String.ofList document)

end TableExport
