import TableExport.Proofs.Markup.Attributes
import TableExport.Proofs.Results
import TableExport.Workbook.Part

/-!
# Elements as they are written

Where a text is written, some of its characters may stand as references (`Markup.Spells`). An
element that is read as a whole holds a text directly, or in its text runs, with anything else
around these (`Markup.Shows`). Such an element is read up to its end, and gives its text
(`Markup.Spells.readText`, `Markup.Shows.readText`). Going through events, this is one step
(`Part.fold_shown`), and events that matter to nobody are none (`Part.fold_append_of_passed`).
-/

namespace TableExport

namespace Markup

variable {event : Event} {events rest : List Event} {text more element : String} {plain : Bool}
  {place : TextPlace}

/-- An event that opens none of some elements, closes none of others, and is no fault. -/
structure Event.Avoids (event : Event) (opened closed : List String) : Prop where
  ne_fault : event ≠ .fault
  opens : ∀ name ∈ opened, event.opens name = false
  closes : ∀ name ∈ closed, event.closes name = false

instance (event : Event) (opened closed : List String) : Decidable (event.Avoids opened closed) :=
  decidable_of_iff (event ≠ .fault ∧ (∀ name ∈ opened, event.opens name = false) ∧
    ∀ name ∈ closed, event.closes name = false)
    ⟨fun h => ⟨h.1, h.2.1, h.2.2⟩, fun h => ⟨h.ne_fault, h.opens, h.closes⟩⟩

@[simp] theorem closes_stop (name other : String) :
    (Event.stop (Name.ofString name)).closes other = (name == other) := by
  rw [Event.closes, Bool.eq_iff_iff, beq_iff_eq, beq_iff_eq]
  exact ofString_injective.eq_iff

@[simp] theorem opens_stop (name : Name) (other : String) : (Event.stop name).opens other = false :=
  rfl

@[simp] theorem closes_start (tag : Tag) (other : String) :
    (Event.start tag).closes other = false := rfl

@[simp] theorem opens_start (tag : Tag) (other : String) :
    (Event.start tag).opens other = tag.isNamed other := rfl

/-- A tag has one name. -/
theorem isNamed_of_ne {tag : Tag} {name other : String} (h : tag.isNamed name = true)
    (hne : name ≠ other) : tag.isNamed other = false := by
  rw [Tag.isNamed, beq_iff_eq] at h
  rw [Tag.isNamed, h, beq_eq_false_iff_ne]
  exact ofString_injective.ne hne

theorem avoids_start {name : String} {opened closed : List String} {attributes : Entries String}
    (h : name ∉ opened) : (Event.start (Tag.written name attributes)).Avoids opened closed where
  ne_fault := nofun
  opens other hother := by
    rw [opens_start, isNamed_written, beq_eq_false_iff_ne]
    exact (ne_of_mem_of_not_mem hother h).symm
  closes _ _ := rfl

theorem avoids_stop {name : String} {opened closed : List String} (h : name ∉ closed) :
    (Event.stop (Name.ofString name)).Avoids opened closed where
  ne_fault := nofun
  opens _ _ := rfl
  closes other hother := by
    rw [closes_stop, beq_eq_false_iff_ne]
    exact (ne_of_mem_of_not_mem hother h).symm

/-! ## Texts -/

/-- Pieces of a text, some of which may be references. -/
inductive Spells : List Event → String → Prop
  | nil : Spells [] ""
  | text (content : String) {rest : List Event} {more : String} :
    Spells rest more → Spells (.text (some content) :: rest) (content ++ more)
  | reference {name : String} {c : Char} {rest : List Event} {more : String} :
    referenced name = .ok c → Spells rest more →
      Spells (.reference (some name) :: rest) (String.singleton c ++ more)

/-- What stands in an element whose text runs are read: runs, and events that do not matter. -/
inductive Shows (element : String) : List Event → String → Prop
  | nil : Shows element [] ""
  | other {event : Event} {rest : List Event} {text : String} :
    event.Avoids ["t", "rPh"] [element] → Shows element rest text →
      Shows element (event :: rest) text
  | run {tag : Tag} {inner rest : List Event} {text more : String} :
    tag.isNamed "t" = true → Spells inner text → Shows element rest more →
      Shows element (.start tag :: (inner ++ .stop (Name.ofString "t") :: rest)) (text ++ more)

theorem readTextFrom_stop (element : String) (plain : Bool) (place : TextPlace)
    (rest : List Event) :
    readTextFrom element plain place (.stop (Name.ofString element) :: rest) = .ok ("", rest) := by
  rw [readTextFrom, closes_stop, beq_self_eq_true, if_pos rfl]

theorem readTextFrom_cons {after : List Event} (event : Event) (place : TextPlace)
    (hcloses : event.closes element = false) (htext : place.textOf event = .ok text)
    (hrest : readTextFrom element plain (place.after plain event) rest = .ok (more, after)) :
    readTextFrom element plain place (event :: rest) = .ok (text ++ more, after) := by
  rw [readTextFrom, hcloses, if_neg Bool.false_ne_true, htext, hrest]
  rfl

/-- A text is read where text is shown. -/
theorem Spells.readTextFrom {after : List Event} (h : Spells events text) (place : TextPlace)
    (hshown : place.isShown = true)
    (hrest : readTextFrom element plain place rest = .ok (more, after)) :
    readTextFrom element plain place (events ++ rest) = .ok (text ++ more, after) := by
  induction h with
  | nil => rwa [List.nil_append, String.empty_append]
  | text content _ ih =>
    rw [List.cons_append, String.append_assoc]
    refine readTextFrom_cons _ _ rfl ?_ ih
    simp only [TextPlace.textOf, hshown, if_true, shownText]
  | reference hc _ ih =>
    rw [List.cons_append, String.append_assoc]
    refine readTextFrom_cons _ _ rfl ?_ ih
    simp only [TextPlace.textOf, hshown, if_true, shownText, hc, Except.map]

/-- **A plain element is read up to its end.** -/
theorem Spells.readText (h : Spells events text) (element : String) (rest : List Event) :
    readText element true (events ++ .stop (Name.ofString element) :: rest) =
      .ok (text, rest) := by
  have hread := h.readTextFrom ⟨true, false⟩ rfl
    (readTextFrom_stop element true ⟨true, false⟩ rest)
  rwa [String.append_empty] at hread

/-- An event outside the runs of an element adds no text. -/
theorem after_of_avoids (plain : Bool) (h : event.Avoids ["t", "rPh"] [element]) :
    TextPlace.after ⟨false, false⟩ plain event = ⟨false, false⟩ ∧
      TextPlace.textOf ⟨false, false⟩ event = .ok "" := by
  have ht := h.opens "t" (by simp)
  have hphonetic := h.opens "rPh" (by simp)
  constructor
  · simp [TextPlace.after, ht, hphonetic]
  · cases event with
    | fault => exact absurd rfl h.ne_fault
    | _ => rfl

theorem Shows.readTextFrom (h : Shows element events text) (hne : element ≠ "t")
    (rest : List Event) :
    readTextFrom element false ⟨false, false⟩ (events ++ .stop (Name.ofString element) :: rest) =
      .ok (text, rest) := by
  induction h with
  | nil => exact readTextFrom_stop element false _ rest
  | other havoids _ ih =>
    obtain ⟨hafter, htext⟩ := after_of_avoids false havoids
    have hread := readTextFrom_cons _ _ (havoids.closes element (by simp)) htext (hafter.symm ▸ ih)
    rwa [String.empty_append] at hread
  | @run tag inner rest' text more hnamed hspells _ ih =>
    have hphonetic : tag.isNamed "rPh" = false := isNamed_of_ne hnamed (by decide)
    have hstart : TextPlace.after ⟨false, false⟩ false (.start tag) = ⟨true, false⟩ := by
      simp [TextPlace.after, hnamed, hphonetic]
    have hstop : TextPlace.after ⟨true, false⟩ false (.stop (Name.ofString "t")) =
        ⟨false, false⟩ := by
      simp [TextPlace.after]
    have hend := readTextFrom_cons (.stop (Name.ofString "t")) ⟨true, false⟩
      (by simpa using hne.symm) rfl (hstop.symm ▸ ih)
    rw [String.empty_append] at hend
    have hinner := hspells.readTextFrom ⟨true, false⟩ rfl hend
    have hread := readTextFrom_cons _ ⟨false, false⟩ (closes_start tag element) rfl
      (hstart.symm ▸ hinner)
    rw [String.empty_append] at hread
    simpa using hread

/-- **An element with text runs is read up to its end.** -/
theorem Shows.readText (h : Shows element events text) (hne : element ≠ "t") (rest : List Event) :
    readText element false (events ++ .stop (Name.ofString element) :: rest) = .ok (text, rest) :=
  h.readTextFrom hne rest

end Markup

namespace Part

variable {σ : Type} {shown : List Shown} {one : Shown} {state next : σ}
  {step : σ → Markup.Event → String → Except WorkbookError σ} {event : Markup.Event}
  {events rest after : List Markup.Event} {text : String}

/-- An element that is shown is one step. -/
theorem fold_shown (hfound : shown.find? (fun one => event.opens one.element) = some one)
    (hread : Markup.readText one.element one.plain rest = .ok (text, after))
    (hstep : step state event text = .ok next) :
    fold shown step state (event :: rest) = fold shown step next after := by
  conv_lhs => unfold fold
  simp only [hfound]
  split
  · rename_i heq
    rw [hread] at heq
    cases heq
  · rename_i heq
    rw [hread] at heq
    cases heq
    simp only [hstep]

theorem fold_cons (hfound : shown.find? (fun one => event.opens one.element) = none)
    (hne : event ≠ .fault) (hstep : step state event "" = .ok next) :
    fold shown step state (event :: rest) = fold shown step next rest := by
  conv_lhs => unfold fold
  simp only [hfound]
  cases event with
  | fault => exact absurd rfl hne
  | _ => simp only [hstep]

/-- Events that a step passes by. -/
theorem fold_append_of_passed (h : ∀ event ∈ events, event ≠ .fault ∧
      shown.find? (fun one => event.opens one.element) = none ∧ step state event "" = .ok state)
    (rest : List Markup.Event) :
    fold shown step state (events ++ rest) = fold shown step state rest := by
  induction events with
  | nil => rfl
  | cons event events ih =>
    obtain ⟨⟨hne, hfound, hstep⟩, hrest⟩ := List.forall_mem_cons.1 h
    rw [List.cons_append, fold_cons hfound hne hstep, ih hrest]

end Part

end TableExport
