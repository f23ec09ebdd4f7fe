import TableExport.Code.Emission

/-!
# Queries

The steps on schemas are the same for every library, so what they do with one is to ask for a
document, to go on with the answer, and to end with a result. `Query` is a step in this form: it is
itself a monad, and `Query.library` is the library of what is asked. Whatever a step makes of a
library, it makes of it what its query is answered by that library with (`answer_inline`,
`answer_tableRoot`, `answer_documentFile` and so on). Of all steps at once it follows that they
depend on the documents only that they ask for (`answer_congr`), and that two which always have the
same result ask for the same documents (`answer_eq_of_asked`).
-/

namespace TableExport

/-- A failure ends a chain of steps. -/
class LawfulFailure (m : Type → Type) [Monad m] [MonadExceptOf SchemaError m] : Prop where
  throw_bind {α β : Type} (e : SchemaError) (f : α → m β) : (throw e : m α) >>= f = throw e

instance : LawfulFailure (Except SchemaError) where
  throw_bind _ _ := rfl

instance {m : Type → Type} [Monad m] [LawfulMonad m] : LawfulFailure (ExceptT SchemaError m) where
  throw_bind e f := by
    apply ExceptT.ext
    simp

/-- What a step asks of a library: documents one after the other, each chosen by those before, and
its result in the end. A document that cannot be read ends the step. -/
inductive Query (α : Type)
  | done (result : Except SchemaError α)
  | ask (name : String) (next : Json → Query α)

namespace Query

variable {α β : Type}

/-- One query after another. -/
def bind : Query α → (α → Query β) → Query β
  | done (.ok a), f => f a
  | done (.error e), _ => done (.error e)
  | ask name next, f => ask name fun document => (next document).bind f

instance : Monad Query where
  pure a := done (.ok a)
  bind := Query.bind

instance : MonadExceptOf SchemaError Query where
  throw e := done (.error e)
  -- no step on schemas goes on after a failure
  tryCatch query handle :=
    match query with
    | done (.error e) => handle e
    | query => query

/-- The library of what is asked. -/
def library (bound : Nat) : Library Query where
  read name := ask name fun document => done (.ok document)
  bound := bound

section Answer

variable {m : Type → Type} [Monad m] [MonadExceptOf SchemaError m]

/-- What a query results in when a library answers it. -/
def answer (read : String → m Json) : Query α → m α
  | done (.ok a) => pure a
  | done (.error e) => throw e
  | ask name next => do answer read (next (← read name))

variable {read : String → m Json} {bound : Nat}

@[simp] theorem answer_pure (a : α) : (pure a : Query α).answer read = pure a := rfl

variable [LawfulMonad m]

@[simp] theorem answer_read (bound : Nat) (name : String) :
    ((library bound).read name).answer read = read name := by
  rw [library, answer]
  simp [answer]

variable [LawfulFailure m]

@[simp] theorem answer_bind (query : Query α) (f : α → Query β) :
    (query >>= f).answer read = query.answer read >>= fun a => (f a).answer read := by
  induction query with
  | done result =>
    cases result with
    | ok a =>
      rw [answer, pure_bind]
      rfl
    | error e =>
      rw [answer, LawfulFailure.throw_bind]
      rfl
  | ask name next ih =>
    rw [answer, bind_assoc]
    change (read name >>= fun document => (next document >>= f).answer read) = _
    simp only [ih]

/-! ## Resolving and inlining -/

theorem answer_hop (from_ : Resolved) (reference : String) :
    ((library bound).hop from_ reference).answer read =
      Library.hop ⟨read, bound⟩ from_ reference := by
  rw [Library.hop, Library.hop]
  cases SchemaReference.split? reference with
  | none => rfl
  | some parts =>
    simp only
    generalize (if parts.1.isEmpty then from_.document else parts.1) = target
    split
    · rfl
    · rw [answer_bind, answer_read]
      refine bind_congr fun root => ?_
      cases Pointer.lookup root parts.2 <;> rfl

theorem answer_follow (hops : Nat) (from_ : Resolved) :
    ((library bound).follow hops from_).answer read = Library.follow ⟨read, bound⟩ hops from_ := by
  induction hops generalizing from_ with
  | zero =>
    rw [Library.follow.eq_def, Library.follow.eq_def]
    split <;> rfl
  | succ hops ih =>
    rw [Library.follow.eq_def, Library.follow.eq_def]
    split
    · rfl
    · simp only [answer_bind, answer_hop, ih]
    · rfl

theorem answer_resolve (document : String) (node : Json) :
    ((library bound).resolve document node).answer read =
      Library.resolve ⟨read, bound⟩ document node :=
  answer_follow bound _

theorem answer_enter (document : String) (node : Json) (active : List String) :
    ((library bound).enter document node active).answer read =
      Library.enter ⟨read, bound⟩ document node active := by
  rw [Library.enter, Library.enter, answer_bind, answer_resolve]
  refine bind_congr fun resolved => ?_
  cases resolved.chain.find? (active.contains ·) <;> rfl

theorem answer_mapMembers (change : Json → Query Json) (members : List (String × Json)) :
    (Library.mapMembers change members).answer read =
      Library.mapMembers (fun child => (change child).answer read) members := by
  induction members with
  | nil => rfl
  | cons member rest ih => simp only [Library.mapMembers, answer_bind, answer_pure, ih]

theorem answer_mapItems (change : Json → Query Json) (items : List Json) :
    (Library.mapItems change items).answer read =
      Library.mapItems (fun child => (change child).answer read) items := by
  induction items with
  | nil => rfl
  | cons item rest ih =>
    cases item <;> simp only [Library.mapItems, answer_bind, answer_pure, ih]

theorem answer_inlineValue (change : Json → Query Json) (keyword : String) (value : Json) :
    (Library.inlineValue change keyword value).answer read =
      Library.inlineValue (fun child => (change child).answer read) keyword value := by
  rw [Library.inlineValue.eq_def, Library.inlineValue.eq_def]
  split
  · rfl
  · cases value with
    | obj members =>
      simp only
      split
      · simp only [answer_bind, answer_pure, answer_mapMembers]
      · rfl
    | arr items => simp only [answer_bind, answer_pure, answer_mapItems]
    | _ => rfl

theorem answer_inlineMembers (change : Json → Query Json) (members : List (String × Json)) :
    (Library.inlineMembers change members).answer read =
      Library.inlineMembers (fun child => (change child).answer read) members := by
  induction members with
  | nil => rfl
  | cons member rest ih =>
    rw [Library.inlineMembers, Library.inlineMembers]
    split
    · exact ih
    · simp only [answer_bind, answer_pure, answer_inlineValue, ih]

theorem answer_inlineWithin (depth : Nat) (document : String) (node : Json)
    (active : List String) :
    ((library bound).inlineWithin depth document node active).answer read =
      Library.inlineWithin ⟨read, bound⟩ depth document node active := by
  induction depth generalizing document node active with
  | zero => rfl
  | succ depth ih =>
    rw [Library.inlineWithin, Library.inlineWithin, answer_bind, answer_enter]
    refine bind_congr fun resolved => ?_
    cases resolved.schema with
    | obj members => simp only [answer_bind, answer_pure, answer_inlineMembers, ih]
    | _ => rfl

theorem answer_inline (document : String) (node : Json) :
    ((library bound).inline document node).answer read =
      Library.inline ⟨read, bound⟩ document node :=
  answer_inlineWithin bound document node []

/-! ## Typing -/

theorem answer_buildMembers (build : String → Json → String → Query TypeTree) (path : String)
    (members : List (String × Json)) :
    (Library.buildMembers build path members).answer read =
      Library.buildMembers (fun name schema path => (build name schema path).answer read) path
        members := by
  induction members with
  | nil => rfl
  | cons member rest ih => simp only [Library.buildMembers, answer_bind, answer_pure, ih]

theorem answer_buildObject (build : String → Json → String → Query TypeTree) (name : String)
    (schema : Json) (path : String) :
    (Library.buildObject build name schema path).answer read =
      Library.buildObject (fun name schema path => (build name schema path).answer read) name
        schema path := by
  rw [Library.buildObject, Library.buildObject]
  cases properties? schema with
  | none => rfl
  | some properties => simp only [answer_bind, answer_pure, answer_buildMembers]

omit [LawfulMonad m] [LawfulFailure m] in
theorem answer_arrayOf (element : TypeTree) (schema : Json) (path : String) :
    (Library.arrayOf element schema path : Query TypeTree).answer read =
      Library.arrayOf element schema path := by
  rw [Library.arrayOf, Library.arrayOf]
  split <;> rfl

theorem answer_buildWithin (depth : Nat) (name document : String) (schema : Json) (path : String)
    (active : List String) :
    ((library bound).buildWithin depth name document schema path active).answer read =
      Library.buildWithin ⟨read, bound⟩ depth name document schema path active := by
  induction depth generalizing name document schema path active with
  | zero => rfl
  | succ depth ih =>
    rw [Library.buildWithin, Library.buildWithin, answer_bind, answer_enter]
    refine bind_congr fun resolved => ?_
    split
    · simp only [answer_bind, answer_arrayOf, ih]
    · simp only [answer_bind, answer_pure, answer_buildObject, ih]
    · split <;> rfl
    · rfl

theorem answer_typeNode (name document : String) (schema : Json) :
    ((library bound).typeNode name document schema).answer read =
      Library.typeNode ⟨read, bound⟩ name document schema :=
  answer_buildWithin bound name document schema name []

theorem answer_rowSchema (document : String) (schema : Json) :
    ((library bound).rowSchema document schema).answer read =
      Library.rowSchema ⟨read, bound⟩ document schema := by
  rw [Library.rowSchema, Library.rowSchema, answer_bind, answer_resolve]
  refine bind_congr fun resolved => ?_
  split
  · rfl
  · rw [answer_bind, answer_resolve]
    refine bind_congr fun items => ?_
    split <;> rfl
  · rfl

theorem answer_tableRoot (document : String) (schema : Json) :
    ((library bound).tableRoot document schema).answer read =
      Library.tableRoot ⟨read, bound⟩ document schema := by
  simp only [Library.tableRoot, answer_bind, answer_pure, answer_rowSchema, answer_buildObject,
    answer_buildWithin]
  rfl

/-! ## Declarations -/

variable (naming : Naming)

theorem answer_declareAll (document : String) (members : List (String × Json)) :
    (naming.declareAll (library bound) document members).answer read =
      naming.declareAll ⟨read, bound⟩ document members := by
  induction members with
  | nil => rfl
  | cons member rest ih =>
    simp only [Naming.declareAll, answer_bind, answer_pure, answer_typeNode, ih]

theorem answer_definitions (document : String) :
    (naming.definitions (library bound) document).answer read =
      naming.definitions ⟨read, bound⟩ document := by
  rw [Naming.definitions, Naming.definitions, answer_bind, answer_read]
  refine bind_congr fun root => ?_
  cases (root.get? "definitions").bind Json.obj? with
  | none => rfl
  | some members => exact answer_declareAll naming document members

theorem answer_definitionsFile (document : String) :
    (naming.definitionsFile (library bound) document).answer read =
      naming.definitionsFile ⟨read, bound⟩ document := by
  simp only [Naming.definitionsFile, answer_bind, answer_pure, answer_definitions]

theorem answer_documentFile (document : String) :
    (naming.documentFile (library bound) document).answer read =
      naming.documentFile ⟨read, bound⟩ document := by
  rw [Naming.documentFile, Naming.documentFile, answer_bind, answer_definitions]
  refine bind_congr fun declarations => ?_
  rw [answer_bind, answer_read]
  refine bind_congr fun root => ?_
  split
  · simp only [answer_bind, answer_pure, answer_tableRoot]
  · rfl

end Answer

/-! ## Documents that are asked for -/

section Asked

variable {read read' : String → Except SchemaError Json} {query query' : Query α}

/-- The names of the documents that a query asks for, in order. -/
def asked (read : String → Except SchemaError Json) : Query α → List String
  | done _ => []
  | ask name next =>
    name :: match read name with
      | .ok document => (next document).asked read
      | .error _ => []

/-- **A query depends on the documents only that it asks for.** -/
theorem answer_congr (h : ∀ name ∈ query.asked read, read' name = read name) :
    query.answer read' = query.answer read ∧ query.asked read' = query.asked read := by
  induction query with
  | done result => exact ⟨by cases result <;> rfl, rfl⟩
  | ask name next ih =>
    rw [asked] at h
    obtain ⟨hname, hrest⟩ := List.forall_mem_cons.1 h
    simp only [answer, asked, hname]
    cases hread : read name with
    | error e => exact ⟨rfl, rfl⟩
    | ok document =>
      rw [hread] at hrest
      obtain ⟨hanswer, hasked⟩ := ih document hrest
      exact ⟨hanswer, congrArg (name :: ·) hasked⟩

/-- The documents with some names; the others cannot be read, with an error that has a mark. -/
def only (names : List String) (mark : String) (read : String → Except SchemaError Json)
    (name : String) : Except SchemaError Json :=
  if name ∈ names then read name else .error (.unreadable mark)

/-- A query asks for documents with some names only, or it fails at the first with another name. -/
theorem asked_subset_or (names : List String) (read : String → Except SchemaError Json)
    (query : Query α) :
    query.asked read ⊆ names ∨
      ∀ mark, query.answer (only names mark read) = .error (.unreadable mark) := by
  induction query with
  | done result => exact Or.inl (List.nil_subset _)
  | ask name next ih =>
    by_cases hname : name ∈ names
    · simp only [asked, answer, only, if_pos hname]
      cases hread : read name with
      | error e => exact Or.inl (List.cons_subset.2 ⟨hname, List.nil_subset _⟩)
      | ok document =>
        refine (ih document).imp (fun h => List.cons_subset.2 ⟨hname, h⟩) fun h mark => ?_
        exact h mark
    · refine Or.inr fun mark => ?_
      simp only [answer, only, if_neg hname]
      rfl

/-- **Queries with the same result ask for the same documents.** Here the results are the same for
the documents that the first query asks for, whatever the error for the others is. So the second
one asks for no others, as it would fail with an error that tells of it. -/
theorem answer_eq_of_asked
    (hsame : ∀ mark, query'.answer (only (query.asked read) mark read) =
      query.answer (only (query.asked read) mark read))
    (h : ∀ name ∈ query.asked read, read' name = read name) :
    query'.answer read' = query.answer read ∧ query'.asked read' ⊆ query.asked read := by
  have honly : ∀ mark, query.answer (only (query.asked read) mark read) = query.answer read :=
    fun mark => (answer_congr fun name hname => if_pos hname).1
  have hsub : query'.asked read ⊆ query.asked read := by
    refine (asked_subset_or (query.asked read) read query').resolve_right fun hfails => ?_
    have hfirst := (hfails "").symm.trans ((hsame "").trans (honly ""))
    have hsecond := (hfails "#").symm.trans ((hsame "#").trans (honly "#"))
    simpa using hfirst.trans hsecond.symm
  have hread' : query'.answer read' = query'.answer read ∧ query'.asked read' = query'.asked read :=
    answer_congr fun name hname => h name (hsub hname)
  have hread : query'.answer (only (query.asked read) "" read) = query'.answer read :=
    (answer_congr fun name hname => if_pos (hsub hname)).1
  refine ⟨?_, hread'.2 ▸ hsub⟩
  rw [hread'.1, ← hread, hsame, honly]

end Asked

end Query

end TableExport
