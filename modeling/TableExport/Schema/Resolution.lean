import TableExport.Json.Printer
import TableExport.Schema.Error
import TableExport.Schema.Reference

/-!
# Following references

A node with `$ref` stands for the node that the reference leads to, which may be a reference again.
Documents are read on demand through a `Library`, so the same definitions serve a fixed set of
documents and a store that loads files.

* `Library.resolve` follows the references of a node until there is none.
* `Library.inline` replaces every reference below a node by what it leads to.
-/

namespace TableExport

/-- Where schema documents come from. -/
structure Library (m : Type → Type) where
  /-- The document with a name. -/
  read : String → m Json
  /-- A bound on the references that can be followed, and on the nesting of the nodes that they
  lead to, before some reference is met again. -/
  bound : Nat

/-- A node without a reference, and how it was reached. -/
structure Resolved where
  /-- The document of the node. References in the node are read in this document. -/
  document : String
  schema : Json
  /-- The last reference that was followed. -/
  reference : Option String
  /-- The keys of the nodes that the references led to, in order. -/
  chain : List String

namespace Library

variable {m : Type → Type} [Monad m] [MonadExceptOf SchemaError m] (library : Library m)

/-! ## Resolving a node -/

/-- Follows one reference from a node. -/
def hop (from_ : Resolved) (reference : String) : m Resolved :=
  match SchemaReference.split? reference with
  | none => throw (.invalidReference reference)
  | some (target, pointer) =>
    let target := if target.isEmpty then from_.document else target
    let key := SchemaReference.key target pointer
    if from_.chain.contains key then throw (.circularReference (from_.chain ++ [key]))
    else do
      let root ← library.read target
      match Pointer.lookup root pointer with
      | .ok schema => return ⟨target, schema, some reference, from_.chain ++ [key]⟩
      | .error segment => throw (.missingPath reference segment)

/-- Follows at most `hops` references. -/
def follow (hops : Nat) (from_ : Resolved) : m Resolved :=
  match from_.schema.get? "$ref" with
  | none => return from_
  | some (.str reference) =>
    match hops with
    | 0 => throw (.circularReference from_.chain)
    | hops + 1 => do follow hops (← library.hop from_ reference)
  | some other => throw (.invalidReference other.compact)

/-- Follows the references of a node until there is none. -/
def resolve (document : String) (node : Json) : m Resolved :=
  library.follow library.bound ⟨document, node, none, []⟩

/-- Resolves a node inside the nodes whose keys are active; none of these may be reached again. -/
def enter (document : String) (node : Json) (active : List String) : m Resolved := do
  let resolved ← library.resolve document node
  match resolved.chain.find? (active.contains ·) with
  | some key => throw (.circularReference (active ++ [key]))
  | none => return resolved

/-! ## Inlining -/

/-- The keywords whose values are data. -/
def literalKeywords : List String :=
  ["enum", "const", "default", "examples", "required", "type", "description"]

/-- Applies a change to each named value. -/
def mapMembers (change : Json → m Json) : List (String × Json) → m (List (String × Json))
  | [] => return []
  | (name, value) :: rest => do
    let value ← change value
    return (name, value) :: (← mapMembers change rest)

/-- Applies a change to the objects among some items. -/
def mapItems (change : Json → m Json) : List Json → m (List Json)
  | [] => return []
  | item :: rest => do
    let item ← match item with
      | .obj _ => change item
      | _ => pure item
    return item :: (← mapItems change rest)

/-- Inlines the value of a keyword, where `change` inlines a schema. -/
def inlineValue (change : Json → m Json) (keyword : String) (value : Json) : m Json :=
  if literalKeywords.contains keyword then return value
  else
    match value with
    | .obj members =>
      if keyword = "properties" ∨ keyword = "patternProperties" then
        return .obj (← mapMembers change members)
      else change value
    | .arr items => return .arr (← mapItems change items)
    | _ => return value

/-- Inlines the members of a schema; definitions are dropped, as nothing refers to them any
more. -/
def inlineMembers (change : Json → m Json) : List (String × Json) → m (List (String × Json))
  | [] => return []
  | (keyword, value) :: rest =>
    if keyword = "definitions" ∨ keyword = "$defs" then inlineMembers change rest
    else do
      let value ← inlineValue change keyword value
      return (keyword, value) :: (← inlineMembers change rest)

/-- Inlines a node that lies at most `depth` nodes deep. -/
def inlineWithin (depth : Nat) (document : String) (node : Json) (active : List String) :
    m Json :=
  match depth with
  | 0 => throw (.circularReference active)
  | depth + 1 => do
    let resolved ← library.enter document node active
    let active := active ++ resolved.chain
    match resolved.schema with
    | .obj members =>
      return .obj (← inlineMembers
        (fun child => inlineWithin depth resolved.document child active) members)
    | other => return other

/-- The node with every reference replaced by what it leads to. -/
def inline (document : String) (node : Json) : m Json :=
  library.inlineWithin library.bound document node []

end Library

end TableExport
