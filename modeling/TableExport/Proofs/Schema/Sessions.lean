import TableExport.Proofs.Results
import TableExport.Proofs.Schema.Queries
import TableExport.Schema.Documents

/-!
# Sessions

A session reads a known document, and any other from where it is loaded. So what it reads is given
by the known documents and the loading together (`Documents.reading`), and reading changes nothing
about it: a step on schemas has the result in a session that it has with a library in which all this
is fixed (`Query.run_session`).
-/

namespace TableExport

namespace Documents

variable {known : Documents} {load : String → Except SchemaError Json} {name : String}

/-- What a session reads under a name: the known document, else the one that is loaded. -/
def reading (known : Documents) (load : String → Except SchemaError Json) (name : String) :
    Except SchemaError Json :=
  match known.get? name with
  | some document => .ok document
  | none => load name

theorem reading_of_get? {document : Json} (h : known.get? name = some document) :
    known.reading load name = .ok document := by
  rw [reading, h]

theorem reading_of_unknown (h : known.get? name = none) :
    known.reading load name = load name := by
  rw [reading, h]

theorem get?_insert (known : Documents) (name other : String) (document : Json) :
    (known.insert name document).get? other =
      if name = other then some document else known.get? other :=
  Entries.get?_put known.entries name other document

/-- A document is what is read, and it becomes known. -/
theorem getOrLoad_eq (known : Documents) (load : String → Except SchemaError Json) (name : String) :
    (∃ document, known.get? name = some document ∧
      known.getOrLoad name (fun _ => load name) = (.ok document, known)) ∨
    (∃ document, known.get? name = none ∧ load name = .ok document ∧
      known.getOrLoad name (fun _ => load name) = (.ok document, known.insert name document)) ∨
    ∃ e, known.get? name = none ∧ load name = .error e ∧
      known.getOrLoad name (fun _ => load name) = (.error e, known) := by
  simp only [getOrLoad]
  cases hget : known.get? name with
  | some document => exact Or.inl ⟨document, rfl, rfl⟩
  | none =>
    cases hload : load name with
    | ok document => exact Or.inr (Or.inl ⟨document, rfl, rfl, rfl⟩)
    | error e => exact Or.inr (Or.inr ⟨e, rfl, rfl, rfl⟩)

theorem getOrLoad_fst (known : Documents) (load : String → Except SchemaError Json)
    (name : String) : (known.getOrLoad name fun _ => load name).1 = known.reading load name := by
  rcases getOrLoad_eq known load name with ⟨d, hget, heq⟩ | ⟨d, hget, hload, heq⟩ |
    ⟨e, hget, hload, heq⟩ <;> rw [heq]
  · rw [reading_of_get? hget]
  · rw [reading_of_unknown hget, hload]
  · rw [reading_of_unknown hget, hload]

/-- **Reading a document changes nothing about what is read.** -/
theorem reading_getOrLoad (known : Documents) (load : String → Except SchemaError Json)
    (name : String) :
    (known.getOrLoad name fun _ => load name).2.reading load = known.reading load := by
  rcases getOrLoad_eq known load name with ⟨d, -, heq⟩ | ⟨d, hget, hload, heq⟩ |
    ⟨e, -, -, heq⟩ <;> rw [heq]
  funext other
  simp only [reading, get?_insert]
  split_ifs with hname
  · subst hname
    rw [hget, hload]
  · rfl

end Documents

namespace Query

variable {α : Type} {load : String → Except SchemaError Json} {bound : Nat}

/-- **A step has the result in a session that it has with what the session reads**, and the session
reads the same after it. -/
theorem run_session (query : Query α) (known : Documents) :
    ((query.answer (Documents.library load bound).read).run known).1 =
        query.answer (known.reading load) ∧
      ((query.answer (Documents.library load bound).read).run known).2.reading load =
        known.reading load := by
  induction query generalizing known with
  | done result => cases result <;> exact ⟨rfl, rfl⟩
  | ask name next ih =>
    have hrun : ((Documents.library load bound).read name).run known =
        known.getOrLoad name fun _ => load name := rfl
    have hfst := Documents.getOrLoad_fst known load name
    have hreading := Documents.reading_getOrLoad known load name
    rw [answer, answer, run_bind, hrun, ← hfst]
    generalize known.getOrLoad name (fun _ => load name) = outcome at hreading
    obtain ⟨e | document, after⟩ := outcome
    · exact ⟨rfl, hreading⟩
    · obtain ⟨hresult, hafter⟩ := ih document after
      rw [hreading] at hresult hafter
      exact ⟨hresult, hafter⟩

end Query

end TableExport
