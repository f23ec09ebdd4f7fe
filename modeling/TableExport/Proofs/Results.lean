import Mathlib

/-!
# Steps that may fail

What it means for a chain of steps to have a result, or to fail, and for two chains to do so alike.

* `bind_eq_ok`, `map_eq_ok`: what a result of a chain comes from.
* `bind_eq_error`, `map_eq_error`: what a failure of a chain comes from.
* `mapM_eq_ok`, `mapM_eq_error`: the results of a step for each item of a list, and its failures.
* `run_bind`: a chain of steps that change a state, also when they fail.
* `Related`: two chains have related results, or related failures.
-/

namespace TableExport

variable {ε α β : Type}

theorem bind_eq_ok {x : Except ε α} {f : α → Except ε β} {b : β} :
    (x >>= f) = .ok b ↔ ∃ a, x = .ok a ∧ f a = .ok b := by
  cases x with
  | error e => simp [bind, Except.bind]
  | ok a => simp [bind, Except.bind]

theorem bind_eq_error {x : Except ε α} {f : α → Except ε β} {e : ε} :
    (x >>= f) = .error e ↔ x = .error e ∨ ∃ a, x = .ok a ∧ f a = .error e := by
  cases x with
  | error e' => simp [bind, Except.bind]
  | ok a => simp [bind, Except.bind]

theorem map_eq_ok {x : Except ε α} {f : α → β} {b : β} :
    x.map f = .ok b ↔ ∃ a, x = .ok a ∧ f a = b := by
  cases x with
  | error e => simp [Except.map]
  | ok a => simp [Except.map]

theorem map_eq_error {x : Except ε α} {f : α → β} {e : ε} : x.map f = .error e ↔ x = .error e := by
  cases x with
  | error e' => simp [Except.map]
  | ok a => simp [Except.map]

theorem mapError_eq_ok {ε' : Type} {x : Except ε α} {f : ε → ε'} {a : α} :
    x.mapError f = .ok a ↔ x = .ok a := by
  cases x with
  | error e => simp [Except.mapError]
  | ok b => simp [Except.mapError]

theorem mapError_eq_error {ε' : Type} {x : Except ε α} {f : ε → ε'} {e' : ε'} :
    x.mapError f = .error e' ↔ ∃ e, x = .error e ∧ f e = e' := by
  cases x with
  | error e => simp [Except.mapError]
  | ok a => simp [Except.mapError]

/-- What has no result fails. -/
theorem exists_error {x : Except ε α} (h : ∀ a, x ≠ .ok a) : ∃ e, x = .error e := by
  cases x with
  | error e => exact ⟨e, rfl⟩
  | ok a => exact absurd rfl (h a)

/-- What a step for each item of a list results in comes from the items. -/
theorem exists_of_mem_mapM {f : α → Except ε β} {items : List α} {results : List β}
    (h : items.mapM f = .ok results) : ∀ result ∈ results, ∃ item ∈ items, f item = .ok result := by
  intro result hresult
  induction items generalizing results with
  | nil =>
    cases h
    cases hresult
  | cons item rest ih =>
    rw [List.mapM_cons] at h
    obtain ⟨first, hfirst, h⟩ := bind_eq_ok.1 h
    obtain ⟨others, hothers, h⟩ := bind_eq_ok.1 h
    cases h
    rcases List.mem_cons.1 hresult with rfl | hresult
    · exact ⟨item, List.mem_cons_self, hfirst⟩
    · obtain ⟨source, hsource, hstep⟩ := ih hothers hresult
      exact ⟨source, List.mem_cons_of_mem _ hsource, hstep⟩

/-- A step for each item of a list has results if it has one for each of them. -/
theorem mapM_eq_ok {f : α → Except ε β} {items : List α} {results : List β} :
    items.mapM f = .ok results ↔
      List.Forall₂ (fun item result => f item = .ok result) items results := by
  induction items generalizing results with
  | nil => simp [pure, Except.pure, eq_comm]
  | cons item rest ih =>
    rw [List.mapM_cons, bind_eq_ok]
    simp only [bind_eq_ok, ih, List.forall₂_cons_left_iff]
    constructor
    · rintro ⟨first, hfirst, others, hothers, hresults⟩
      cases hresults
      exact ⟨first, others, hfirst, hothers, rfl⟩
    · rintro ⟨first, others, hfirst, hothers, rfl⟩
      exact ⟨first, hfirst, others, hothers, rfl⟩

/-- A failure of a step for each item is that of the first item without a result. -/
theorem mapM_eq_error {f : α → Except ε β} {items : List α} {e : ε} :
    items.mapM f = .error e ↔ ∃ before item after, items = before ++ item :: after ∧
      (∀ other ∈ before, ∃ result, f other = .ok result) ∧ f item = .error e := by
  induction items with
  | nil => simp [pure, Except.pure]
  | cons item rest ih =>
    rw [List.mapM_cons, bind_eq_error]
    constructor
    · rintro (hitem | ⟨first, hfirst, h⟩)
      · exact ⟨[], item, rest, rfl, List.forall_mem_nil _, hitem⟩
      · rcases bind_eq_error.1 h with hrest | ⟨_, -, h⟩
        · obtain ⟨before, other, after, rfl, hbefore, hother⟩ := ih.1 hrest
          exact ⟨item :: before, other, after, rfl,
            List.forall_mem_cons.2 ⟨⟨first, hfirst⟩, hbefore⟩, hother⟩
        · cases h
    · rintro ⟨before, other, after, hitems, hbefore, hother⟩
      cases before with
      | nil =>
        cases hitems
        exact .inl hother
      | cons _ before =>
        cases hitems
        obtain ⟨⟨first, hfirst⟩, hbefore⟩ := List.forall_mem_cons.1 hbefore
        exact .inr ⟨first, hfirst,
          bind_eq_error.2 (.inl (ih.2 ⟨before, other, after, rfl, hbefore, hother⟩))⟩

/-- A failure of a step for each item is that of one item. -/
theorem exists_of_mapM_eq_error {f : α → Except ε β} {items : List α} {e : ε}
    (h : items.mapM f = .error e) : ∃ item ∈ items, f item = .error e := by
  obtain ⟨before, item, after, rfl, -, hitem⟩ := mapM_eq_error.1 h
  exact ⟨item, List.mem_append_right _ List.mem_cons_self, hitem⟩

/-! ## Steps that change a state -/

section State

variable {σ : Type} {x : ExceptT ε (StateM σ) α} {f : α → ExceptT ε (StateM σ) β} {s t : σ}

/-- A step goes on in the state that the one before left, or its failure and its state stay. -/
theorem run_bind : (x >>= f).run s = match x.run s with
    | (.ok a, t) => (f a).run t
    | (.error e, t) => (.error e, t) := by
  rw [ExceptT.run_bind]
  change StateT.bind x.run _ s = _
  simp only [StateT.bind]
  rcases x.run s with ⟨_ | _, _⟩ <;> rfl

theorem run_bind_of_ok {a : α} (h : x.run s = (.ok a, t)) : (x >>= f).run s = (f a).run t := by
  rw [run_bind, h]

theorem run_bind_of_error {e : ε} (h : x.run s = (.error e, t)) :
    (x >>= f).run s = (.error e, t) := by
  rw [run_bind, h]

end State

/-! ## Two chains side by side -/

/-- Two outcomes are both failures, which are related, or both results, which are related. -/
inductive Related {ε ε' α β : Type} (R : ε → ε' → Prop) (S : α → β → Prop) :
    Except ε α → Except ε' β → Prop
  | error {e : ε} {e' : ε'} : R e e' → Related R S (.error e) (.error e')
  | ok {a : α} {b : β} : S a b → Related R S (.ok a) (.ok b)

namespace Related

variable {ε' α' β' : Type} {R : ε → ε' → Prop} {S : α → β → Prop} {x : Except ε α}
  {y : Except ε' β}

theorem bind {T : α' → β' → Prop} {f : α → Except ε α'} {g : β → Except ε' β'}
    (h : Related R S x y) (hnext : ∀ a b, S a b → Related R T (f a) (g b)) :
    Related R T (x >>= f) (y >>= g) := by
  cases h with
  | error hR => exact .error hR
  | ok hS => exact hnext _ _ hS

theorem map {T : α' → β' → Prop} {f : α → α'} {g : β → β'} (h : Related R S x y)
    (hnext : ∀ a b, S a b → T (f a) (g b)) : Related R T (x.map f) (y.map g) := by
  cases h with
  | error hR => exact .error hR
  | ok hS => exact .ok (hnext _ _ hS)

theorem of_eq {R : ε → ε → Prop} (hR : ∀ e, R e e) {y : Except ε α} (h : x = y) :
    Related R Eq x y := by
  subst h
  cases x with
  | error e => exact .error (hR e)
  | ok a => exact .ok rfl

theorem eq {y : Except ε α} (h : Related Eq Eq x y) : x = y := by
  cases h with
  | error hR => rw [hR]
  | ok hS => rw [hS]

theorem ok_iff {y : Except ε' α} (h : Related R Eq x y) {a : α} : x = .ok a ↔ y = .ok a := by
  cases h with
  | error => simp
  | ok hS => simp [hS]

theorem of_error {e : ε} {e' : ε'} (h : Related R S x y) (hx : x = .error e)
    (hy : y = .error e') : R e e' := by
  subst hx hy
  cases h with
  | error hR => exact hR

/-- What is known of two results apart may be added to what is known of both. -/
theorem imp_of_ok {T : α → β → Prop} (h : Related R S x y)
    (himp : ∀ a b, x = .ok a → y = .ok b → S a b → T a b) : Related R T x y := by
  cases h with
  | error hR => exact .error hR
  | ok hS => exact .ok (himp _ _ rfl rfl hS)

/-- Three outcomes are all results, or all failures. -/
theorem trans {γ ε'' : Type} {R' : ε' → ε'' → Prop} {T : β → γ → Prop} {z : Except ε'' γ}
    (h : Related R S x y) (h' : Related R' T y z) :
    Related (Relation.Comp R R') (Relation.Comp S T) x z := by
  cases h with
  | error hR =>
    cases h' with
    | error hR' => exact .error ⟨_, hR, hR'⟩
  | ok hS =>
    cases h' with
    | ok hT => exact .ok ⟨_, hS, hT⟩

theorem mono {R' : ε → ε' → Prop} {T : α → β → Prop} (h : Related R S x y)
    (hR : ∀ e e', R e e' → R' e e') (hS : ∀ a b, S a b → T a b) : Related R' T x y := by
  cases h with
  | error h => exact .error (hR _ _ h)
  | ok h => exact .ok (hS _ _ h)

/-- Two outcomes are both results, or both failures. -/
theorem exists_ok_iff (h : Related R S x y) : (∃ a, x = .ok a) ↔ ∃ b, y = .ok b := by
  cases h <;> simp

theorem of_ok {a : α} {b : β} (h : Related R S x y) (hx : x = .ok a) (hy : y = .ok b) : S a b := by
  subst hx hy
  cases h with
  | ok hS => exact hS

/-- Steps for the items of two lists side by side give the same results. -/
theorem mapM {f : α' → Except ε α} {g : β' → Except ε' α} {h : α' → β'} {items : List α'}
    (hstep : ∀ item ∈ items, Related R Eq (f item) (g (h item))) :
    Related R Eq (items.mapM f) ((items.map h).mapM g) := by
  induction items with
  | nil => exact .ok rfl
  | cons item rest ih =>
    rw [List.map_cons, List.mapM_cons, List.mapM_cons]
    refine (hstep item List.mem_cons_self).bind ?_
    rintro first _ rfl
    refine (ih fun other ho => hstep other (List.mem_cons_of_mem _ ho)).bind ?_
    rintro others _ rfl
    exact .ok rfl

end Related

end TableExport
