import TableExport.Markup.Text
import TableExport.Proofs.Markup.Elements
import TableExport.Proofs.Markup.References
import TableExport.Proofs.Results

/-!
# Displayed text

Each event stands in some elements (`Markup.Occurrence`). Displayed are the texts and the references
outside of all phonetic runs that stand in a text run, or anywhere when the element is plain
(`Markup.displayed`). The reader has two flags only, but these tell it where it is, as long as text
runs hold no elements and phonetic runs are not nested (`Markup.TextPlace.Keeps.after`). So the text
of an element is put together from what is displayed in it, and nothing behind its end is looked at
(`Markup.readText_displayed`).
-/

namespace TableExport.Markup

/-! ## Where events stand -/

/-- An event with the names of the elements that it stands in, the innermost first. -/
structure Occurrence where
  around : List Name
  event : Event

/-- The elements that are open after an event: an end closes the innermost one with its name. -/
def openAfter (around : List Name) : Event → List Name
  | .start tag => tag.name :: around
  | .stop name => around.erase name
  | _ => around

/-- Events in their places; `around` are the elements that are open before them. -/
def occurrences (around : List Name) : List Event → List Occurrence
  | [] => []
  | event :: rest => ⟨around, event⟩ :: occurrences (openAfter around event) rest

/-- Whether an event opens an element. -/
def Event.isStart : Event → Bool
  | .start _ => true
  | _ => false

/-- Whether an event is a text or a reference. -/
def Event.isText : Event → Bool
  | .text _ | .reference _ => true
  | _ => false

namespace Occurrence

/-- An event that stands in an element with a name. -/
def IsIn (occurrence : Occurrence) (name : String) : Prop :=
  Name.ofString name ∈ occurrence.around

instance (occurrence : Occurrence) (name : String) : Decidable (occurrence.IsIn name) :=
  inferInstanceAs (Decidable (_ ∈ occurrence.around))

/-- A tag that stands where it may: text runs hold no elements, so that none starts in a text run
and no phonetic run ends in one, and phonetic runs are not nested. Other elements may start and end
in any order. -/
structure Orderly (occurrence : Occurrence) : Prop where
  run : occurrence.event.isStart = true → ¬ occurrence.IsIn "t"
  apart : occurrence.event.closes "rPh" = true → occurrence.IsIn "rPh" → ¬ occurrence.IsIn "t"
  phonetic : occurrence.event.opens "rPh" = true → ¬ occurrence.IsIn "rPh"

instance : DecidablePred Orderly := fun occurrence =>
  decidable_of_iff ((occurrence.event.isStart = true → ¬ occurrence.IsIn "t") ∧
    (occurrence.event.closes "rPh" = true → occurrence.IsIn "rPh" → ¬ occurrence.IsIn "t") ∧
    (occurrence.event.opens "rPh" = true → ¬ occurrence.IsIn "rPh"))
    ⟨fun h => ⟨h.1, h.2.1, h.2.2⟩, fun h => ⟨h.run, h.apart, h.phonetic⟩⟩

/-- A text or a reference that counts for the text of an element. -/
def IsDisplayed (plain : Bool) (occurrence : Occurrence) : Prop :=
  occurrence.event.isText = true ∧ ¬ occurrence.IsIn "rPh" ∧ (plain = true ∨ occurrence.IsIn "t")

instance (plain : Bool) : DecidablePred (IsDisplayed plain) := fun occurrence =>
  inferInstanceAs (Decidable (_ = _ ∧ ¬ occurrence.IsIn _ ∧ (_ = _ ∨ occurrence.IsIn _)))

/-- An event that is looked at: what is displayed, and the fault where markup cannot be read
further. -/
def IsExamined (plain : Bool) (occurrence : Occurrence) : Prop :=
  occurrence.event = .fault ∨ occurrence.IsDisplayed plain

instance (plain : Bool) : DecidablePred (IsExamined plain) := fun occurrence =>
  inferInstanceAs (Decidable (_ = _ ∨ occurrence.IsDisplayed plain))

end Occurrence

/-- The texts and references that are displayed, in their order. -/
def displayed (plain : Bool) (events : List Event) : List Event :=
  ((occurrences [] events).filter (·.IsDisplayed plain)).map Occurrence.event

/-- The events that are looked at, in their order; `around` are the elements that are open. -/
def examinedFrom (plain : Bool) (around : List Name) (events : List Event) : List Event :=
  ((occurrences around events).filter (·.IsExamined plain)).map Occurrence.event

/-- The events in an element that are looked at, in their order. -/
def examined (plain : Bool) (events : List Event) : List Event := examinedFrom plain [] events

/-- What an element holds that was just opened: the events up to its first end. -/
def inside (element : String) (events : List Event) : List Event :=
  events.takeWhile (!·.closes element)

/-- The events behind the first end of an element that was just opened. -/
def behind (element : String) (events : List Event) : List Event :=
  (events.dropWhile (!·.closes element)).tail

variable {element : String} {plain : Bool} {place : TextPlace} {around : List Name} {event : Event}
  {events : List Event}

theorem eq_stop_of_closes (h : event.closes element = true) :
    event = .stop (Name.ofString element) := by
  cases event with
  | stop name => rw [beq_iff_eq.1 h]
  | start tag | text content | reference name | fault => cases h

/-- An element with an end is what it holds, its end and what is behind it. -/
theorem eq_inside_append (h : ∃ event ∈ events, event.closes element = true) :
    events = inside element events ++ .stop (Name.ofString element) :: behind element events := by
  have hne : events.dropWhile (!·.closes element) ≠ [] := by
    obtain ⟨event, hmem, hcloses⟩ := h
    intro hnil
    have hopen := List.dropWhile_eq_nil_iff.1 hnil event hmem
    simp [hcloses] at hopen
  have hhead : ((events.dropWhile (!·.closes element)).head hne).closes element = true := by
    simpa using List.head_dropWhile_not (fun event : Event => !event.closes element) hne
  calc events
    _ = inside element events ++ events.dropWhile (!·.closes element) :=
      List.takeWhile_append_dropWhile.symm
    _ = inside element events ++ .stop (Name.ofString element) :: behind element events := by
      rw [behind, ← eq_stop_of_closes hhead, List.cons_head_tail]

theorem map_event_occurrences (around : List Name) (events : List Event) :
    (occurrences around events).map Occurrence.event = events := by
  induction events generalizing around with
  | nil => rfl
  | cons event rest ih => rw [occurrences, List.map_cons, ih]

theorem event_mem_of_mem_occurrences {occurrence : Occurrence}
    (h : occurrence ∈ occurrences around events) : occurrence.event ∈ events := by
  rw [← map_event_occurrences around events]
  exact List.mem_map_of_mem h

theorem fault_mem_examined (h : .fault ∈ events) : .fault ∈ examined plain events := by
  rw [← map_event_occurrences [] events] at h
  obtain ⟨occurrence, hmem, hfault⟩ := List.mem_map.1 h
  exact List.mem_map.2 ⟨occurrence, List.mem_filter.2 ⟨hmem, decide_eq_true (.inl hfault)⟩, hfault⟩

theorem examinedFrom_cons (event : Event) (rest : List Event) :
    examinedFrom plain around (event :: rest) =
      if (Occurrence.mk around event).IsExamined plain then
        event :: examinedFrom plain (openAfter around event) rest
      else examinedFrom plain (openAfter around event) rest := by
  simp only [examinedFrom, occurrences, List.filter_cons, decide_eq_true_eq]
  split_ifs <;> rfl

/-- Without a fault, exactly what is displayed is looked at. -/
theorem examined_of_not_mem (h : .fault ∉ events) :
    examined plain events = displayed plain events := by
  refine congrArg (List.map _) (List.filter_congr fun occurrence hmem => ?_)
  have hne : occurrence.event ≠ .fault := fun hfault =>
    h (hfault ▸ event_mem_of_mem_occurrences hmem)
  simp [Occurrence.IsExamined, hne]

theorem eq_fault_or_isText_of_mem (h : event ∈ examined plain events) :
    event = .fault ∨ event.isText = true := by
  obtain ⟨occurrence, hmem, rfl⟩ := List.mem_map.1 h
  exact (of_decide_eq_true (List.mem_filter.1 hmem).2).imp_right And.left

/-! ## What events denote -/

/-- A text or a reference with what it stands for. -/
inductive Event.Denotes : Event → String → Prop
  | text (content : String) : Denotes (.text (some content)) content
  | reference {name : String} {c : Char} : Refers name c →
    Denotes (.reference (some name)) (String.singleton c)

/-- An event that cannot be read, with the cause: an error of the reader, which cannot go on there
or cannot decode what it has found, or a reference that stands for no character. -/
inductive Event.Faulty : Event → MarkupError → Prop
  | malformed : Faulty .fault .malformed
  | text : Faulty (.text none) .encoding
  | name : Faulty (.reference none) .encoding
  | character {name : String} : name.toList.head? = some '#' → (∀ c, ¬ Refers name c) →
    Faulty (.reference (some name)) (.badCharacter name)
  | entity {name : String} : name.toList.head? ≠ some '#' → (∀ c, ¬ Refers name c) →
    Faulty (.reference (some name)) (.unknownEntity name)

theorem denotes_iff {text : String} :
    event.Denotes text ↔ (event = .fault ∨ event.isText = true) ∧ shownText event = .ok text := by
  constructor
  · rintro (_ | hrefers)
    · exact ⟨.inr rfl, rfl⟩
    · exact ⟨.inr rfl, map_eq_ok.2 ⟨_, referenced_eq_ok.2 hrefers, rfl⟩⟩
  · rintro ⟨htext, hshown⟩
    cases event with
    | start tag | stop name => simp [Event.isText] at htext
    | fault => cases hshown
    | text content =>
      cases content with
      | none => cases hshown
      | some content =>
        cases hshown
        exact .text _
    | reference name =>
      cases name with
      | none => cases hshown
      | some name =>
        obtain ⟨c, hc, rfl⟩ := map_eq_ok.1 hshown
        exact .reference (referenced_eq_ok.1 hc)

theorem shownText_eq_error {cause : MarkupError} :
    shownText event = .error cause ↔ event.Faulty cause := by
  constructor
  · intro h
    cases event with
    | start tag | stop name => cases h
    | fault =>
      cases h
      exact .malformed
    | text content =>
      cases content with
      | none =>
        cases h
        exact .text
      | some content => cases h
    | reference name =>
      cases name with
      | none =>
        cases h
        exact .name
      | some name =>
        obtain ⟨hnone, rfl⟩ := referenced_eq_error.1 (map_eq_error.1 h)
        split_ifs with hhead
        · exact .character hhead hnone
        · exact .entity hhead hnone
  · rintro (_ | _ | _ | ⟨hhead, hnone⟩ | ⟨hhead, hnone⟩)
    · rfl
    · rfl
    · rfl
    · exact map_eq_error.2 (referenced_eq_error.2 ⟨hnone, (if_pos hhead).symm⟩)
    · exact map_eq_error.2 (referenced_eq_error.2 ⟨hnone, (if_neg hhead).symm⟩)

/-- What is looked at is read if each event of it denotes something. -/
theorem mapM_shownText_eq_ok {pieces : List String} :
    (examined plain events).mapM shownText = .ok pieces ↔
      List.Forall₂ Event.Denotes (examined plain events) pieces := by
  rw [mapM_eq_ok]
  constructor
  · intro h
    have hall : ∀ event ∈ examined plain events, event = .fault ∨ event.isText = true :=
      fun _ => eq_fault_or_isText_of_mem
    exact ((List.forall₂_and_left _ _).2 ⟨hall, h⟩).imp fun _ _ => denotes_iff.2
  · exact fun h => h.imp fun _ _ hdenotes => (denotes_iff.1 hdenotes).2

/-- What cannot be read is the first of what is looked at that denotes nothing. -/
theorem mapM_shownText_eq_error {cause : MarkupError} :
    (examined plain events).mapM shownText = .error cause ↔
      ∃ before event after, examined plain events = before ++ event :: after ∧
        (∀ other ∈ before, ∃ piece, other.Denotes piece) ∧ event.Faulty cause := by
  have hbefore : ∀ before : List Event, before ⊆ examined plain events →
      ((∀ other ∈ before, ∃ piece, shownText other = .ok piece) ↔
        ∀ other ∈ before, ∃ piece, other.Denotes piece) := by
    intro before hsubset
    refine forall₂_congr fun other hother => exists_congr fun piece => ?_
    rw [denotes_iff, and_iff_right (eq_fault_or_isText_of_mem (hsubset hother))]
  rw [mapM_eq_error]
  refine exists_congr fun before => exists_congr fun event => exists_congr fun after => ?_
  rw [shownText_eq_error]
  refine and_congr_right fun hsplit => and_congr_left fun _ => hbefore before ?_
  rw [hsplit]
  exact List.subset_append_left _ _

/-- A fault denotes nothing. -/
theorem fault_not_mem_of_denotes {pieces : List String}
    (h : List.Forall₂ Event.Denotes (examined plain events) pieces) : .fault ∉ events := by
  have hne : ∀ event text, Event.Denotes event text → event ≠ .fault ∧ event.Denotes text := by
    intro event text hdenotes
    refine ⟨?_, hdenotes⟩
    rintro rfl
    cases hdenotes
  have hall := ((List.forall₂_and_left _ _).1 (h.imp hne)).1
  exact fun hfault => hall _ (fault_mem_examined hfault) rfl

/-! ## The flags of the reader -/

/-- The flags of the reader where some elements are open. A text run in a phonetic run has no flag.
At most one run of either kind is open, so that an end leaves none open. -/
structure TextPlace.Keeps (plain : Bool) (place : TextPlace) (around : List Name) : Prop where
  inRun : place.inRun = true ↔
    plain = true ∨ Name.ofString "t" ∈ around ∧ Name.ofString "rPh" ∉ around
  inPhonetic : place.inPhonetic = true ↔ Name.ofString "rPh" ∈ around
  run : around.count (Name.ofString "t") ≤ 1
  phonetic : around.count (Name.ofString "rPh") ≤ 1

namespace TextPlace

theorem keeps_nil (plain : Bool) : Keeps plain ⟨plain, false⟩ [] where
  inRun := by simp
  inPhonetic := by simp
  run := by simp
  phonetic := by simp

theorem Keeps.isShown (h : place.Keeps plain around) : place.isShown = true ↔
    Name.ofString "rPh" ∉ around ∧ (plain = true ∨ Name.ofString "t" ∈ around) := by
  rw [TextPlace.isShown, Bool.and_eq_true, Bool.not_eq_true', ← Bool.not_eq_true, h.inRun,
    h.inPhonetic]
  tauto

/-- An event is read where it is looked at, and adds nothing anywhere else. -/
theorem Keeps.textOf (h : place.Keeps plain around) (event : Event) :
    place.textOf event =
      if (Occurrence.mk around event).IsExamined plain then shownText event else .ok "" := by
  have hshown := h.isShown
  cases event with
  | fault => rfl
  | start tag => simp [TextPlace.textOf, shownText]
  | stop name => simp [TextPlace.textOf, shownText]
  | text content | reference name =>
    simp [TextPlace.textOf, Occurrence.IsExamined, Occurrence.IsDisplayed, Occurrence.IsIn,
      Event.isText, hshown]

theorem after_start (place : TextPlace) (plain : Bool) (tag : Tag) :
    place.after plain (.start tag) =
      if tag.name = Name.ofString "rPh" then { place with inPhonetic := true }
      else if tag.name = Name.ofString "t" ∧ place.inPhonetic = false then
        { place with inRun := true }
      else place := by
  simp [TextPlace.after, Event.closes, Tag.isNamed]

theorem after_stop (place : TextPlace) (plain : Bool) (name : Name) :
    place.after plain (.stop name) =
      if name = Name.ofString "rPh" then { place with inPhonetic := false }
      else if name = Name.ofString "t" ∧ place.inRun = true then { place with inRun := plain }
      else place := by
  simp [TextPlace.after, Event.closes]

theorem ofString_t_ne : Name.ofString "t" ≠ Name.ofString "rPh" :=
  ofString_injective.ne (by decide)

theorem count_cons_le_one {name other : Name} (hnew : name = other → other ∉ around)
    (h : around.count other ≤ 1) : (name :: around).count other ≤ 1 := by
  by_cases hname : name = other
  · rw [hname, List.count_cons_self, List.count_eq_zero.2 (hnew hname)]
  · rwa [List.count_cons_of_ne hname]

theorem not_mem_erase_of_eq {name other : Name} (heq : name = other)
    (h : around.count other ≤ 1) : other ∉ around.erase name := by
  rw [heq, ← List.count_eq_zero, List.count_erase_self]
  omega

/-- The start of a phonetic run sets one flag, that of a text run outside of phonetic runs the
other, and no other start matters. -/
theorem Keeps.after_start {tag : Tag} (h : place.Keeps plain around)
    (horderly : (Occurrence.mk around (.start tag)).Orderly) :
    (place.after plain (.start tag)).Keeps plain (tag.name :: around) := by
  have hnone : Name.ofString "t" ∉ around := horderly.run rfl
  have hplain : place.inRun = true ↔ plain = true := by simp [h.inRun, hnone]
  have hrun := count_cons_le_one (fun _ : tag.name = _ => hnone) h.run
  have hphonetic := count_cons_le_one
    (fun hname : tag.name = _ => horderly.phonetic (by simp [Tag.isNamed, hname])) h.phonetic
  rw [TextPlace.after_start]
  split_ifs with hname ht
  · exact ⟨by simp [hplain, hname], by simp [hname], hrun, hphonetic⟩
  · have hout : Name.ofString "rPh" ∉ around := by simp [← h.inPhonetic, ht.2]
    exact ⟨by simp [ht.1, hout, ofString_t_ne.symm], by simp [h.inPhonetic, Ne.symm hname], hrun,
      hphonetic⟩
  · -- a text run that starts in a phonetic run is not shown, and its flag stays as it was
    have hhidden : Name.ofString "t" ∈ tag.name :: around →
        Name.ofString "rPh" ∈ tag.name :: around := by
      intro hmem
      have heq : Name.ofString "t" = tag.name := (List.mem_cons.1 hmem).resolve_right hnone
      have hin : place.inPhonetic = true := by simpa using not_and.1 ht heq.symm
      exact List.mem_cons_of_mem _ (h.inPhonetic.1 hin)
    exact ⟨hplain.trans (by tauto), by simp [h.inPhonetic, Ne.symm hname], hrun, hphonetic⟩

/-- The end of a phonetic run clears one flag, that of a text run the other if it is set, and no
other end matters. -/
theorem Keeps.after_stop {name : Name} (h : place.Keeps plain around)
    (horderly : (Occurrence.mk around (.stop name)).Orderly) :
    (place.after plain (.stop name)).Keeps plain (around.erase name) := by
  have hinRun := h.inRun
  have hsublist : (around.erase name).Sublist around := List.erase_sublist
  have hrun := (hsublist.count_le _).trans h.run
  have hphonetic := (hsublist.count_le _).trans h.phonetic
  have hmem : ∀ other, other ≠ name → (other ∈ around.erase name ↔ other ∈ around) :=
    fun other hne => List.mem_erase_of_ne hne
  rw [TextPlace.after_stop]
  split_ifs with hname ht
  · -- no text run is open in the phonetic run that ends here
    have hout : Name.ofString "rPh" ∉ around.erase name := not_mem_erase_of_eq hname h.phonetic
    have hapart : Name.ofString "rPh" ∈ around → Name.ofString "t" ∉ around :=
      horderly.apart (by simp [Event.closes, hname])
    refine ⟨?_, by simp [hout], hrun, hphonetic⟩
    rw [hmem _ (hname ▸ ofString_t_ne)]
    tauto
  · have hout : Name.ofString "t" ∉ around.erase name := not_mem_erase_of_eq ht.1 h.run
    refine ⟨by simp [hout], ?_, hrun, hphonetic⟩
    rw [hmem _ (Ne.symm hname)]
    exact h.inPhonetic
  · refine ⟨?_, by rw [hmem _ (Ne.symm hname)]; exact h.inPhonetic, hrun, hphonetic⟩
    by_cases hend : name = Name.ofString "t"
    · have hout : Name.ofString "t" ∉ around.erase name := not_mem_erase_of_eq hend h.run
      have hclear : place.inRun ≠ true := not_and.1 ht hend
      tauto
    · rw [hmem _ (Ne.symm hend), hmem _ (Ne.symm hname)]
      exact hinRun

/-- **The flags of the reader agree with the open elements.** -/
theorem Keeps.after (h : place.Keeps plain around)
    (horderly : (Occurrence.mk around event).Orderly) :
    (place.after plain event).Keeps plain (openAfter around event) := by
  cases event with
  | start tag => exact h.after_start horderly
  | stop name => exact h.after_stop horderly
  | text content | reference name | fault => exact h

end TextPlace

/-! ## The text of an element -/

/-- The text of an element comes from the events that are looked at, up to its first end. -/
theorem readTextFrom_eq (h : place.Keeps plain around)
    (horderly : ∀ occurrence ∈ occurrences around (inside element events), occurrence.Orderly) :
    readTextFrom element plain place events =
      ((examinedFrom plain around (inside element events)).mapM shownText).map fun pieces =>
        (String.join pieces, behind element events) := by
  induction events generalizing place around with
  | nil => rfl
  | cons event rest ih =>
    rw [readTextFrom]
    by_cases hcloses : event.closes element = true
    · rw [if_pos hcloses, inside, behind, List.takeWhile_cons_of_neg (by simp [hcloses]),
        List.dropWhile_cons_of_neg (by simp [hcloses])]
      rfl
    · have hinside : inside element (event :: rest) = event :: inside element rest :=
        List.takeWhile_cons_of_pos (by simp [hcloses])
      have hbehind : behind element (event :: rest) = behind element rest :=
        congrArg List.tail (List.dropWhile_cons_of_pos (by simp [hcloses]))
      rw [hinside, occurrences, List.forall_mem_cons] at horderly
      rw [if_neg hcloses, h.textOf, ih (h.after horderly.1) horderly.2, hinside, hbehind,
        examinedFrom_cons]
      split_ifs
      · rw [List.mapM_cons]
        generalize List.mapM shownText (examinedFrom plain (openAfter around event) _) = others
        rcases shownText event with cause | text
        · rfl
        · rcases others with cause | pieces
          · rfl
          · simp [bind, Except.bind, Except.map, pure, Except.pure, String.join_cons]
      · generalize List.mapM shownText (examinedFrom plain (openAfter around event) _) = others
        rcases others with cause | pieces
        · rfl
        · simp [bind, Except.bind, Except.map, pure, Except.pure]

/-- **The text of an element is what is displayed in it.** What is read is the element up to its
first end, and nothing behind it. There is a text exactly if no fault comes before this end and all
that is displayed denotes something, and then it is what these events denote, in their order. Else
the reader fails, and the cause is that of the first event among the faults and what is displayed
that cannot be read. -/
theorem readText_displayed (plain : Bool)
    (h : ∀ occurrence ∈ occurrences [] (inside element events), occurrence.Orderly) :
    ((∃ event ∈ events, event.closes element = true) → events =
      inside element events ++ .stop (Name.ofString element) :: behind element events) ∧
    (∀ text rest, readText element plain events = .ok (text, rest) ↔
      .fault ∉ inside element events ∧
      (∃ pieces, List.Forall₂ Event.Denotes (displayed plain (inside element events)) pieces ∧
        text = String.join pieces) ∧
      rest = behind element events) ∧
    ∀ cause, readText element plain events = .error cause ↔
      ∃ before event after, examined plain (inside element events) = before ++ event :: after ∧
        (∀ other ∈ before, ∃ piece, other.Denotes piece) ∧ event.Faulty cause := by
  have hread : readText element plain events =
      ((examined plain (inside element events)).mapM shownText).map fun pieces =>
        (String.join pieces, behind element events) :=
    readTextFrom_eq (TextPlace.keeps_nil plain) h
  refine ⟨eq_inside_append, fun text rest => ?_, fun cause => ?_⟩
  · rw [hread, map_eq_ok]
    simp only [mapM_shownText_eq_ok, Prod.mk.injEq]
    constructor
    · rintro ⟨pieces, hpieces, rfl, rfl⟩
      have hfault := fault_not_mem_of_denotes hpieces
      rw [examined_of_not_mem hfault] at hpieces
      exact ⟨hfault, ⟨pieces, hpieces, rfl⟩, rfl⟩
    · rintro ⟨hfault, ⟨pieces, hpieces, rfl⟩, rfl⟩
      rw [← examined_of_not_mem hfault] at hpieces
      exact ⟨pieces, hpieces, rfl, rfl⟩
  · rw [hread, map_eq_error, mapM_shownText_eq_error]

/-- An element with a phonetic run, in which a reference stands for nothing, and what follows it. -/
def phoneticItem : List Event :=
  [.start (Tag.written "r" []), .start (Tag.written "t" []), .text (some "East"),
    .stop (Name.ofString "t"), .stop (Name.ofString "r"), .start (Tag.written "rPh" []),
    .start (Tag.written "t" []), .reference (some "nbsp"), .stop (Name.ofString "t"),
    .stop (Name.ofString "rPh"), .text (some " "), .start (Tag.written "t" []),
    .reference (some "amp"), .reference (some "#x42"), .stop (Name.ofString "t"),
    .stop (Name.ofString "si"), .text (some "next")]

/-- The phonetic run does not count, and no more does the bad reference in it. -/
theorem readText_displayed_phonetic :
    (∀ occurrence ∈ occurrences [] (inside "si" phoneticItem), occurrence.Orderly) ∧
      (∃ event ∈ phoneticItem, event.closes "si" = true) ∧
      phoneticItem =
        inside "si" phoneticItem ++ .stop (Name.ofString "si") :: behind "si" phoneticItem ∧
      readText "si" false phoneticItem = .ok ("East&B", [.text (some "next")]) := by
  have horderly : ∀ occurrence ∈ occurrences [] (inside "si" phoneticItem), occurrence.Orderly := by
    decide +kernel
  have hend : ∃ event ∈ phoneticItem, event.closes "si" = true := by decide +kernel
  have hdisplayed : displayed false (inside "si" phoneticItem) =
      [.text (some "East"), .reference (some "amp"), .reference (some "#x42")] := by
    decide +kernel
  have hand : Refers "amp" '&' := .entity (by decide)
  have hdigits : Literal.digits? 16 ['4', '2'] = some 'B'.toNat := by decide
  have hletter : Refers "#x42" 'B' :=
    .hexadecimal (by decide) (.inl rfl) (.inl (Literal.digits?_iff.1 hdigits))
  have hpieces : List.Forall₂ Event.Denotes (displayed false (inside "si" phoneticItem))
      ["East", "&", "B"] := by
    rw [hdisplayed]
    exact .cons (.text _) (.cons (.reference hand) (.cons (.reference hletter) .nil))
  obtain ⟨hsplit, htext, -⟩ := readText_displayed false horderly
  exact ⟨horderly, hend, hsplit hend,
    (htext _ _).2 ⟨by decide +kernel, ⟨_, hpieces, by decide⟩, by decide +kernel⟩⟩

end TableExport.Markup
