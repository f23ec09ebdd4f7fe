import Mathlib
import TableExport.Json.Reader

/-!
# The size of what is read

A value that is read from a text has no more nodes than the text has characters
(`Json.size_le_of_read?`). Each character adds at most one node to what the reader holds in its open
containers and in its mode (`Json.Reading.weight_step`).
-/

namespace TableExport

namespace Json

theorem sizeItems_append (first second : List Json) :
    sizeItems (first ++ second) = sizeItems first + sizeItems second := by
  induction first with
  | nil => simp [sizeItems]
  | cons item rest ih => simp only [List.cons_append, sizeItems, ih, Nat.add_assoc]

theorem sizeItems_reverse (items : List Json) : sizeItems items.reverse = sizeItems items := by
  induction items with
  | nil => rfl
  | cons item rest ih =>
    rw [List.reverse_cons, sizeItems_append, ih, sizeItems, sizeItems, sizeItems]
    omega

theorem sizeMembers_append (first second : List (String × Json)) :
    sizeMembers (first ++ second) = sizeMembers first + sizeMembers second := by
  induction first with
  | nil => simp [sizeMembers]
  | cons member rest ih => simp only [List.cons_append, sizeMembers, ih, Nat.add_assoc]

/-- Putting a member adds at most its nodes. -/
theorem sizeMembers_put_le (members : Entries Json) (name : String) (value : Json) :
    sizeMembers (members.put name value) ≤ sizeMembers members + value.size := by
  induction members with
  | nil => simp [Entries.put, sizeMembers]
  | cons member rest ih =>
    obtain ⟨own, old⟩ := member
    rw [Entries.put]
    split
    · simp only [sizeMembers]
      omega
    · simp only [sizeMembers]
      omega

namespace Reading

variable {rules : Rules}

theorem sizeMembers_add_le (members : Entries Json) (name : String) (value : Json) :
    sizeMembers (rules.add members name value) ≤ sizeMembers members + value.size := by
  rw [Rules.add]
  split
  · rw [sizeMembers_append]
    simp [sizeMembers]
  · exact sizeMembers_put_le members name value

/-- The nodes of an open container. -/
def Frame.weight : Frame → Nat
  | .array items => sizeItems items + 1
  | .object members _ => sizeMembers members + 1

/-- The nodes of the open containers. -/
def frameWeight (frames : List Frame) : Nat := (frames.map Frame.weight).sum

/-- The nodes that a state holds. A mode that is about the name of a member holds the members of the
innermost container itself. -/
def State.weight : State → Nat
  | ⟨frames, .value _⟩ => frameWeight frames
  | ⟨frames, .complete value⟩ => frameWeight frames + value.size
  | ⟨frames, .number _⟩ => frameWeight frames + 1
  | ⟨frames, .word _ value⟩ => frameWeight frames + value.size
  | ⟨frames, .name members _⟩ | ⟨frames, .colon members _⟩ | ⟨frames, .text (some members) _⟩
  | ⟨frames, .escape (some members) _⟩ | ⟨frames, .code (some members) _ _ _ _⟩
  | ⟨frames, .pair (some members) _ _ _⟩ => frameWeight frames.tail + (sizeMembers members + 1)
  | ⟨frames, .text none _⟩ | ⟨frames, .escape none _⟩ | ⟨frames, .code none _ _ _ _⟩
  | ⟨frames, .pair none _ _ _⟩ => frameWeight frames + 1

variable {frames : List Frame} {state next : State} {c : Char}

@[simp] theorem frameWeight_cons (frame : Frame) (frames : List Frame) :
    frameWeight (frame :: frames) = frame.weight + frameWeight frames := rfl

theorem weight_stepValue {mayClose : Bool} (h : stepValue rules frames mayClose c = some next) :
    next.weight ≤ frameWeight frames + 1 := by
  simp only [stepValue] at h
  split_ifs at h
  all_goals first
    | (split at h <;> cases h
       simp only [State.weight, frameWeight_cons, Frame.weight, Json.size, sizeItems_reverse]
       omega)
    | (cases h
       simp [State.weight, Frame.weight, Json.size, sizeItems, sizeMembers, Nat.add_comm])

theorem weight_stepComplete {value : Json} (h : stepComplete rules frames value c = some next) :
    next.weight ≤ frameWeight frames + value.size + 1 := by
  by_cases hspace : isSpace c
  · rw [stepComplete.eq_def, if_pos hspace] at h
    cases h
    exact Nat.le_succ _
  · rw [stepComplete.eq_def, if_neg hspace] at h
    match frames with
    | [] => cases h
    | .array items :: rest =>
      simp only at h
      split_ifs at h <;> cases h
      · simp only [State.weight, frameWeight_cons, Frame.weight, sizeItems]
        omega
      · simp only [State.weight, frameWeight_cons, Frame.weight, Json.size, sizeItems_reverse,
          sizeItems]
        omega
    | .object members name :: rest =>
      have hadd : sizeMembers (rules.add members name value) ≤ sizeMembers members + value.size :=
        sizeMembers_add_le members name value
      simp only at h
      split_ifs at h <;> cases h
      · simp only [State.weight, frameWeight_cons, Frame.weight, List.tail_cons]
        omega
      · simp only [State.weight, frameWeight_cons, Frame.weight, Json.size]
        omega

theorem weight_endText (frames : List Frame) (members : Option (Entries Json))
    (chars : List Char) :
    (endText frames members chars).weight = (State.mk frames (.text members chars)).weight := by
  cases members <;> rfl

theorem weight_endCode {members : Option (Entries Json)} {chars : List Char} {high : Option Nat}
    {code : Nat} (h : endCode rules frames members chars high code = some next) :
    next.weight = (State.mk frames (.text members chars)).weight := by
  simp only [endCode] at h
  split at h <;> split_ifs at h <;> cases h <;> cases members <;> rfl

/-- **A character adds at most one node.** -/
theorem weight_step (h : step rules state c = some next) : next.weight ≤ state.weight + 1 := by
  obtain ⟨frames, mode⟩ := state
  cases mode with
  | value mayClose => exact weight_stepValue h
  | name members mayClose =>
    simp only [step] at h
    split_ifs at h
    · cases h
      exact Nat.le_succ _
    · cases h
      exact Nat.le_succ _
    · cases frames <;> cases h
      exact Nat.le_succ _
  | colon members name =>
    simp only [step] at h
    split_ifs at h
    · cases h
      exact Nat.le_succ _
    · cases frames <;> cases h
      simp only [State.weight, frameWeight_cons, Frame.weight, List.tail_cons]
      omega
  | complete value => exact weight_stepComplete h
  | text members chars =>
    simp only [step] at h
    split_ifs at h <;> cases h
    · exact (weight_endText ..).le.trans (Nat.le_succ _)
    · cases members <;> exact Nat.le_succ _
    · cases members <;> exact Nat.le_succ _
  | escape members chars =>
    simp only [step] at h
    split_ifs at h
    · cases h
      cases members <;> exact Nat.le_succ _
    · obtain ⟨e, -, rfl⟩ := Option.map_eq_some_iff.1 h
      cases members <;> exact Nat.le_succ _
  | code members chars high value left =>
    obtain ⟨d, -, h⟩ := Option.bind_eq_some_iff.1 h
    split_ifs at h
    · rw [weight_endCode h]
      cases members <;> exact Nat.le_succ _
    · cases h
      cases members <;> exact Nat.le_succ _
  | pair members chars high seen =>
    simp only [step] at h
    split_ifs at h <;> cases h <;> cases members <;> exact Nat.le_succ _
  | number chars =>
    simp only [step] at h
    split_ifs at h
    · cases h
      exact Nat.le_succ _
    · obtain ⟨n, -, h⟩ := Option.bind_eq_some_iff.1 h
      exact weight_stepComplete h
  | word rest value =>
    simp only [step] at h
    split at h
    · split_ifs at h <;> cases h <;> exact Nat.le_succ _
    · cases h

/-- Some characters add at most as many nodes. -/
theorem weight_foldlM {chars : List Char} (h : chars.foldlM (step rules) state = some next) :
    next.weight ≤ state.weight + chars.length := by
  induction chars generalizing state with
  | nil =>
    cases h
    exact le_refl _
  | cons c rest ih =>
    rw [List.foldlM_cons] at h
    obtain ⟨mid, hstep, h⟩ := Option.bind_eq_some_iff.1 h
    have hmid := weight_step hstep
    have hnext := ih h
    rw [List.length_cons]
    omega

theorem size_finish {value : Json} (h : finish state = some value) : value.size ≤ state.weight := by
  rw [finish.eq_def] at h
  split at h
  · cases h
    exact Nat.le_add_left _ _
  · obtain ⟨n, -, rfl⟩ := Option.map_eq_some_iff.1 h
    exact le_refl _
  · cases h

end Reading

theorem size_le_of_readBy? {rules : Reading.Rules} {text : String} {value : Json}
    (h : readBy? rules text = some value) : value.size ≤ text.length := by
  obtain ⟨last, hsteps, hfinish⟩ := Option.bind_eq_some_iff.1 h
  have hlast := Reading.weight_foldlM hsteps
  have hvalue := Reading.size_finish hfinish
  rw [String.length_toList] at hlast
  have hstart : (Reading.State.mk [] (.value false)).weight = 0 := rfl
  omega

theorem length_le_utf8ByteSize (text : String) : text.length ≤ text.utf8ByteSize := by
  obtain ⟨chars, rfl⟩ : ∃ chars, text = String.ofList chars := ⟨text.toList, by simp⟩
  rw [String.utf8ByteSize_ofList, String.length_ofList]
  induction chars with
  | nil => rfl
  | cons c rest ih =>
    have hc := c.utf8Size_pos
    rw [String.utf8Len_cons, List.length_cons]
    omega

/-- **A document has no more nodes than its text has bytes.** -/
theorem size_le_of_read? {text : String} {value : Json} (h : read? text = some value) :
    value.size ≤ text.utf8ByteSize :=
  (size_le_of_readBy? h).trans (length_le_utf8ByteSize text)

end Json

end TableExport
