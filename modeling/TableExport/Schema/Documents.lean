import TableExport.Schema.Resolution
import TableExport.Schema.Shape

/-!
# Known documents

Documents that were read or registered stay known for the rest of a session, whatever happens to
their files. A document that cannot be loaded leaves no trace.

* `Documents.register` makes a document known whose shape is right.
* `Documents.getOrLoad` looks a document up and loads it on first use.
* `Documents.library` reads documents through the known ones.
-/

namespace TableExport

/-- The documents known by name. -/
structure Documents where
  entries : Entries Json := []

/-- Steps that use documents and may make more of them known, also when they fail. -/
abbrev Session := ExceptT SchemaError (StateM Documents)

namespace Documents

/-- No documents. -/
def empty : Documents := {}

/-- The number of known documents. -/
def count (known : Documents) : Nat := known.entries.length

/-- The known document with a name. -/
def get? (known : Documents) (name : String) : Option Json := known.entries.get? name

/-- Makes a document known, in place of one with the same name. -/
def insert (known : Documents) (name : String) (document : Json) : Documents :=
  ⟨known.entries.put name document⟩

/-- Makes a document known after checking its shape. -/
def register (known : Documents) (name : String) (document : Json) :
    Except SchemaError Unit × Documents :=
  match Shape.check name document with
  | .ok () => (.ok (), known.insert name document)
  | .error e => (.error e, known)

/-- The document with a name, loaded when it is not known. -/
def getOrLoad {ε : Type} (known : Documents) (name : String) (load : Unit → Except ε Json) :
    Except ε Json × Documents :=
  match known.get? name with
  | some document => (.ok document, known)
  | none =>
    match load () with
    | .ok document => (.ok document, known.insert name document)
    | .error e => (.error e, known)

/-- A library that reads the known documents and loads others. -/
def library (load : String → Except SchemaError Json) (bound : Nat) : Library Session where
  read name := fun known => known.getOrLoad name fun _ => load name
  bound := bound

/-- The number of nodes of the known documents. -/
def size (known : Documents) : Nat :=
  known.entries.foldl (fun total entry => total + entry.2.size) 0

end Documents

/-- A bound for a library whose documents and starting node have `size` nodes altogether. The
references in them name at most `size + 1` documents and `size` pointers, and between two of them a
walk goes at most `size` nodes down. -/
def Library.boundFor (size : Nat) : Nat := (size + 2) * (size + 2) * (size + 2)

end TableExport
