import Mathlib
import TableExport.Schema.Shape

/-!
# Faults in the shape of a document

Every fault that the check of a shape finds is told of the document that is checked
(`Shape.check_eq_error`).
-/

namespace TableExport.Shape

/-- A check finds nothing but faults in the shape of a document. -/
def Faulty (document : String) (result : Except SchemaError Unit) : Prop :=
  ∀ e, result = .error e → ∃ pointer fault, e = .misshapen document pointer fault

variable {document : String}

theorem Faulty.bind {first : Except SchemaError Unit} {next : Unit → Except SchemaError Unit}
    (h : Faulty document first) (hnext : Faulty document (next ())) :
    Faulty document (first >>= next) := by
  intro e he
  cases first with
  | error e' =>
    cases he
    exact h e rfl
  | ok => exact hnext e he

theorem faulty_checkType (pointer : String) (members : Entries Json) :
    Faulty document (checkType document pointer members) := by
  intro e he
  rw [checkType] at he
  split at he
  · split_ifs at he
    cases he
    exact ⟨_, _, rfl⟩
  · cases he

mutual

theorem faulty_checkAt (document pointer : String) :
    ∀ schema, Faulty document (checkAt document pointer schema)
  | .obj members => by
    rw [checkAt]
    exact Faulty.bind (faulty_checkType pointer members) <|
      Faulty.bind (faulty_checkKeyword document pointer "properties" members) <|
      Faulty.bind (faulty_checkKeyword document pointer "definitions" members) <|
      Faulty.bind (faulty_checkKeyword document pointer "$defs" members) <|
      faulty_checkItems document pointer members
  | .bool _ => by
    intro e he
    rw [checkAt] at he
    split_ifs at he
    cases he
    exact ⟨_, _, rfl⟩
  | .null | .num _ | .str _ | .arr _ => by
    intro e he
    cases he
    exact ⟨_, _, rfl⟩

theorem faulty_checkKeyword (document pointer keyword : String) :
    ∀ members, Faulty document (checkKeyword document pointer keyword members)
  | [] => nofun
  | (name, value) :: rest => by
    rw [checkKeyword.eq_def]
    simp only
    split
    · cases value with
      | obj children => exact faulty_checkChildren document _ children
      | _ =>
        intro e he
        cases he
        exact ⟨_, _, rfl⟩
    · exact faulty_checkKeyword document pointer keyword rest

theorem faulty_checkChildren (document pointer : String) :
    ∀ children, Faulty document (checkChildren document pointer children)
  | [] => nofun
  | (name, child) :: rest => by
    rw [checkChildren]
    exact Faulty.bind (faulty_checkAt document _ child)
      (faulty_checkChildren document pointer rest)

theorem faulty_checkItems (document pointer : String) :
    ∀ members, Faulty document (checkItems document pointer members)
  | [] => nofun
  | (name, value) :: rest => by
    rw [checkItems.eq_def]
    simp only
    split
    · cases value with
      | obj members => exact faulty_checkAt document _ (.obj members)
      | bool _ => exact nofun
      | _ =>
        intro e he
        cases he
        exact ⟨_, _, rfl⟩
    · exact faulty_checkItems document pointer rest

end

/-- **Every fault names the document.** -/
theorem check_eq_error {document : String} {schema : Json} {e : SchemaError}
    (h : check document schema = .error e) :
    ∃ pointer fault, e = .misshapen document pointer fault :=
  faulty_checkAt document "" schema e h

end TableExport.Shape
