import Mathlib
import TableExport.Text.Lines

/-!
# Ends of lines

A reader of a text may take a carriage return, a line feed, or the two one after the other for the
end of a line (`textLines`). `lines` takes a line feed with or without a carriage return before it
for one, so it finds the same lines where each carriage return has a line feed after it
(`lines_eq_textLines`), and else it leaves a carriage return inside a line
(`pairedReturns_of_lines`).

* `textLines_endLines`: lines that are written with the same ends are read again.
* `uniformEnds_endLines`: their text has no other ends of lines.
-/

namespace TableExport

/-! ## Lines with any ends -/

/-- Lines with something in front of the first of them. -/
def joinFront (front : List Char) : List (List Char) → List (List Char)
  | [] => if front.isEmpty then [] else [front]
  | line :: rest => (front ++ line) :: rest

/-- The lines of a text in which a carriage return, a line feed, or a carriage return and a line
feed after it end a line. What is after the last end is a line only when it is not empty. -/
def splitEnds : List Char → List (List Char)
  | [] => []
  | '\r' :: '\n' :: rest => [] :: splitEnds rest
  | c :: rest =>
    if c = '\r' ∨ c = '\n' then [] :: splitEnds rest else joinFront [c] (splitEnds rest)

/-- The lines of a text with any ends, without their ends. -/
def textLines (text : String) : List String := (splitEnds text.toList).map String.ofList

/-- A text with neither a carriage return nor a line feed. -/
def EndFree (text : List Char) : Prop := '\r' ∉ text ∧ '\n' ∉ text

instance (text : List Char) : Decidable (EndFree text) := inferInstanceAs (Decidable (_ ∧ _))

/-- Each carriage return has a line feed after it. -/
def PairedReturns (text : List Char) : Prop :=
  ∀ before after, text = before ++ '\r' :: after → after.head? = some '\n'

/-- Each carriage return has a line feed after it, and each line feed a carriage return before
it. -/
structure UniformEnds (text : List Char) : Prop where
  feeds : PairedReturns text
  returns : ∀ before after, text = before ++ '\n' :: after → before.getLast? = some '\r'

variable {text rest line : List Char} {c : Char}

@[simp] theorem endFree_nil : EndFree [] := ⟨List.not_mem_nil, List.not_mem_nil⟩

theorem endFree_cons : EndFree (c :: line) ↔ (c ≠ '\r' ∧ c ≠ '\n') ∧ EndFree line := by
  simp only [EndFree, List.mem_cons, not_or, ne_eq, eq_comm (a := c)]
  exact and_and_and_comm

@[simp] theorem endFree_append {more : List Char} :
    EndFree (line ++ more) ↔ EndFree line ∧ EndFree more := by
  simp only [EndFree, List.mem_append, not_or]
  exact and_and_and_comm

@[simp] theorem joinFront_nil (found : List (List Char)) : joinFront [] found = found := by
  cases found <;> rfl

theorem joinFront_append (front line : List Char) (found : List (List Char)) :
    joinFront (front ++ line) found = joinFront front (joinFront line found) := by
  cases found with
  | cons first rest => simp [joinFront]
  | nil =>
    cases line with
    | nil => simp [joinFront]
    | cons c line => simp [joinFront]

theorem splitEnds_cons (hreturn : c ≠ '\r') (hfeed : c ≠ '\n') (rest : List Char) :
    splitEnds (c :: rest) = joinFront [c] (splitEnds rest) := by
  rw [splitEnds.eq_def]
  split
  · rename_i heq
    cases heq
  · rename_i heq
    cases heq
    exact absurd rfl hreturn
  · rename_i heq
    cases heq
    rw [if_neg (by simp [hreturn, hfeed])]

theorem splitEnds_append (h : EndFree line) (rest : List Char) :
    splitEnds (line ++ rest) = joinFront line (splitEnds rest) := by
  induction line with
  | nil => rw [List.nil_append, joinFront_nil]
  | cons c line ih =>
    obtain ⟨⟨hreturn, hfeed⟩, hline⟩ := endFree_cons.1 h
    rw [List.cons_append, splitEnds_cons hreturn hfeed, ih hline, ← joinFront_append,
      List.singleton_append]

/-! ## Lines with the same ends -/

/-- Lines that are ended by a carriage return and a line feed. -/
def endLines (written : List String) : List Char :=
  written.flatMap fun line => line.toList ++ ['\r', '\n']

@[simp] theorem endLines_nil : endLines [] = [] := rfl

@[simp] theorem endLines_cons (line : String) (written : List String) :
    endLines (line :: written) = line.toList ++ '\r' :: '\n' :: endLines written := by
  simp [endLines]

@[simp] theorem endLines_append (written more : List String) :
    endLines (written ++ more) = endLines written ++ endLines more :=
  List.flatMap_append

variable {written : List String}

/-- **Lines that are written with the same ends are read again.** -/
theorem splitEnds_endLines (h : ∀ line ∈ written, EndFree line.toList) :
    splitEnds (endLines written) = written.map String.toList := by
  induction written with
  | nil => rfl
  | cons line written ih =>
    rw [List.forall_mem_cons] at h
    rw [endLines_cons, splitEnds_append h.1, splitEnds, ih h.2]
    simp [joinFront]

theorem PairedReturns.cons (h : PairedReturns rest) (hc : c ≠ '\r') : PairedReturns (c :: rest) := by
  rintro (_ | ⟨d, before⟩) after heq
  · exact absurd (List.cons.inj heq).1 hc
  · exact h before after (List.cons.inj heq).2

theorem PairedReturns.of_cons (h : PairedReturns (c :: rest)) : PairedReturns rest :=
  fun before after heq => h (c :: before) after (by rw [heq, List.cons_append])

namespace UniformEnds

theorem cons (h : UniformEnds rest) (hreturn : c ≠ '\r') (hfeed : c ≠ '\n') :
    UniformEnds (c :: rest) := by
  refine ⟨h.feeds.cons hreturn, ?_⟩
  rintro (_ | ⟨d, before⟩) after heq
  · exact absurd (List.cons.inj heq).1 hfeed
  · have hlast := h.returns before after (List.cons.inj heq).2
    rw [List.getLast?_cons, hlast]
    rfl

theorem ended (h : UniformEnds rest) : UniformEnds ('\r' :: '\n' :: rest) := by
  constructor
  · rintro (_ | ⟨d, before⟩) after heq
    · rw [← (List.cons.inj heq).2]
      rfl
    · exact (h.feeds.cons (by decide)) before after (List.cons.inj heq).2
  · rintro (_ | ⟨d, _ | ⟨d', before⟩⟩) after heq
    · cases heq
    · rw [← (List.cons.inj heq).1]
      rfl
    · have hlast := h.returns before after (List.cons.inj (List.cons.inj heq).2).2
      rw [List.getLast?_cons, List.getLast?_cons, hlast]
      rfl

theorem append (hline : EndFree line) (h : UniformEnds rest) : UniformEnds (line ++ rest) := by
  induction line with
  | nil => exact h
  | cons c line ih =>
    obtain ⟨⟨hreturn, hfeed⟩, hline⟩ := endFree_cons.1 hline
    exact (ih hline).cons hreturn hfeed

end UniformEnds

/-- **A text of lines that are written with the same ends has no other ends.** -/
theorem uniformEnds_endLines (h : ∀ line ∈ written, EndFree line.toList) :
    UniformEnds (endLines written) := by
  induction written with
  | nil => exact ⟨fun _ _ heq => by simp at heq, fun _ _ heq => by simp at heq⟩
  | cons line written ih =>
    rw [List.forall_mem_cons] at h
    rw [endLines_cons]
    exact .append h.1 (ih h.2).ended

/-- A carriage return inside a line has no line feed after it. -/
theorem not_mem_of_pairedReturns {line : String} (h : PairedReturns (endLines written))
    (hline : line ∈ written) (hfeed : '\n' ∉ line.toList) : '\r' ∉ line.toList := by
  intro hreturn
  obtain ⟨before, after, rfl⟩ := List.append_of_mem hline
  obtain ⟨front, back, hsplit⟩ := List.append_of_mem hreturn
  have hhead := h (endLines before ++ front) (back ++ '\r' :: '\n' :: endLines after)
    (by rw [endLines_append, endLines_cons, hsplit]; simp)
  cases back with
  | nil => cases hhead
  | cons c back =>
    obtain rfl := Option.some.inj hhead
    exact hfeed (by rw [hsplit]; simp)

/-! ## Lines that end at line feeds -/

theorem linesFrom_return (line rest : List Char) :
    linesFrom line ('\r' :: '\n' :: rest) = line.reverse :: linesFrom [] rest := by
  simp [linesFrom]

/-- At a line feed a line ends, and a carriage return before it is no part of the line. -/
theorem exists_linesFrom_feed (line rest : List Char) :
    ∃ ended, linesFrom line ('\n' :: rest) = ended.reverse :: linesFrom [] rest ∧
      (line = '\r' :: ended ∨ line = ended) := by
  cases line with
  | nil => exact ⟨[], by simp [linesFrom], Or.inr rfl⟩
  | cons c before =>
    by_cases hc : c = '\r'
    · subst hc
      exact ⟨before, by simp [linesFrom], Or.inl rfl⟩
    · exact ⟨c :: before, by simp [linesFrom, hc], Or.inr rfl⟩

theorem linesFrom_feed (h : '\r' ∉ line) (rest : List Char) :
    linesFrom line ('\n' :: rest) = line.reverse :: linesFrom [] rest := by
  obtain ⟨ended, heq, rfl | rfl⟩ := exists_linesFrom_feed line rest
  · exact absurd List.mem_cons_self h
  · exact heq

theorem linesFrom_cons (h : c ≠ '\n') (line rest : List Char) :
    linesFrom line (c :: rest) = linesFrom (c :: line) rest := by
  rw [linesFrom.eq_def]
  split
  · rename_i heq
    cases heq
  · rename_i heq
    cases heq
    exact absurd rfl h
  · rename_i heq
    cases heq
    rfl

theorem linesFrom_eq (h : PairedReturns text) (hline : '\r' ∉ line) :
    linesFrom line text = joinFront line.reverse (splitEnds text) := by
  fun_induction splitEnds text generalizing line with
  | case1 => simp [linesFrom, joinFront]
  | case2 rest ih =>
    rw [linesFrom_return, ih h.of_cons.of_cons List.not_mem_nil, List.reverse_nil, joinFront_nil,
      joinFront, List.append_nil]
  | case3 c rest hnot hend ih =>
    rcases hend with rfl | rfl
    · have hhead := h [] rest rfl
      cases rest with
      | nil => cases hhead
      | cons d rest => exact absurd (Option.some.inj hhead ▸ rfl) (hnot rest rfl)
    · rw [linesFrom_feed hline, ih h.of_cons List.not_mem_nil, List.reverse_nil, joinFront_nil,
        joinFront, List.append_nil]
  | case4 c rest hnot hend ih =>
    rw [not_or] at hend
    rw [linesFrom_cons hend.2, ih h.of_cons (by simpa [hline] using Ne.symm hend.1),
      List.reverse_cons, joinFront_append]

/-- **Where each carriage return has a line feed after it, the lines are those with any ends.** -/
theorem lines_eq_textLines {text : String} (h : PairedReturns text.toList) :
    lines text = textLines text := by
  rw [lines, textLines, linesFrom_eq h List.not_mem_nil, List.reverse_nil, joinFront_nil]

theorem endFree_joinFront {front : List Char} {found : List (List Char)} (hfront : EndFree front)
    (h : ∀ line ∈ found, EndFree line) : ∀ line ∈ joinFront front found, EndFree line := by
  cases found with
  | nil =>
    rw [joinFront]
    split
    · exact h
    · simpa using hfront
  | cons first rest =>
    rw [List.forall_mem_cons] at h
    rw [joinFront, List.forall_mem_cons]
    exact ⟨endFree_append.2 ⟨hfront, h.1⟩, h.2⟩

theorem endFree_of_mem_splitEnds (text : List Char) : ∀ line ∈ splitEnds text, EndFree line := by
  fun_induction splitEnds text with
  | case1 => simp
  | case2 rest ih => exact List.forall_mem_cons.2 ⟨endFree_nil, ih⟩
  | case3 c rest hnot hend ih => exact List.forall_mem_cons.2 ⟨endFree_nil, ih⟩
  | case4 c rest hnot hend ih =>
    rw [not_or] at hend
    exact endFree_joinFront (endFree_cons.2 ⟨hend, endFree_nil⟩) ih

theorem endFree_of_mem_textLines {text line : String} (h : line ∈ textLines text) :
    EndFree line.toList := by
  obtain ⟨chars, hchars, rfl⟩ := List.mem_map.1 h
  rw [String.toList_ofList]
  exact endFree_of_mem_splitEnds _ chars hchars

/-- A carriage return that is not the last character of a line so far stays in the line. -/
theorem exists_return_of_mem_tail (h : '\r' ∈ line.tail) (text : List Char) :
    ∃ found ∈ linesFrom line text, '\r' ∈ found := by
  induction text generalizing line with
  | nil =>
    cases line with
    | nil => cases h
    | cons c line =>
      exact ⟨(c :: line).reverse, List.mem_singleton_self _, by simpa using Or.inl h⟩
  | cons c rest ih =>
    by_cases hc : c = '\n'
    · subst hc
      obtain ⟨ended, heq, hended⟩ := exists_linesFrom_feed line rest
      rw [heq]
      refine ⟨_, List.mem_cons_self, ?_⟩
      rw [List.mem_reverse]
      rcases hended with rfl | rfl
      · exact h
      · exact List.mem_of_mem_tail h
    · rw [linesFrom_cons hc]
      exact ih (List.mem_of_mem_tail h)

theorem head?_of_linesFrom (h : ∀ found ∈ linesFrom ('\r' :: line) text, '\r' ∉ found) :
    text.head? = some '\n' := by
  cases text with
  | nil => exact absurd (by simp) (h _ (List.mem_singleton_self _))
  | cons d rest =>
    by_cases hd : d = '\n'
    · rw [hd]
      rfl
    · rw [linesFrom_cons hd] at h
      have hkept : '\r' ∈ (d :: '\r' :: line).tail := List.mem_cons_self
      obtain ⟨found, hfound, hmem⟩ := exists_return_of_mem_tail hkept rest
      exact absurd hmem (h found hfound)

theorem pairedReturns_of_linesFrom (h : ∀ found ∈ linesFrom line text, '\r' ∉ found) :
    PairedReturns text := by
  induction text generalizing line with
  | nil => exact fun _ _ heq => by simp at heq
  | cons c rest ih =>
    by_cases hfeed : c = '\n'
    · subst hfeed
      obtain ⟨ended, heq, -⟩ := exists_linesFrom_feed line rest
      rw [heq, List.forall_mem_cons] at h
      exact (ih h.2).cons (by decide)
    · rw [linesFrom_cons hfeed] at h
      by_cases hreturn : c = '\r'
      · subst hreturn
        rintro (_ | ⟨d, before⟩) after heq
        · rw [← (List.cons.inj heq).2]
          exact head?_of_linesFrom h
        · exact ih h before after (List.cons.inj heq).2
      · exact (ih h).cons hreturn

/-- **Where no line holds a carriage return, each has a line feed after it.** -/
theorem pairedReturns_of_lines {text : String} (h : ∀ line ∈ lines text, '\r' ∉ line.toList) :
    PairedReturns text.toList := by
  refine pairedReturns_of_linesFrom fun found (hfound : found ∈ linesFrom [] text.toList) => ?_
  have hline := h (String.ofList found) (List.mem_map_of_mem hfound)
  rwa [String.toList_ofList] at hline

theorem feed_not_mem_linesFrom (hline : '\n' ∉ line) (text : List Char) :
    ∀ found ∈ linesFrom line text, '\n' ∉ found := by
  induction text generalizing line with
  | nil =>
    rw [linesFrom]
    split
    · simp
    · simpa using hline
  | cons c rest ih =>
    by_cases hc : c = '\n'
    · subst hc
      obtain ⟨ended, heq, hended⟩ := exists_linesFrom_feed line rest
      rw [heq, List.forall_mem_cons]
      refine ⟨?_, ih List.not_mem_nil⟩
      rw [List.mem_reverse]
      rcases hended with rfl | rfl
      · exact List.not_mem_of_not_mem_cons hline
      · exact hline
    · rw [linesFrom_cons hc]
      exact ih (by simpa [hline] using Ne.symm hc)

theorem feed_not_mem_of_mem_lines {text line : String} (h : line ∈ lines text) :
    '\n' ∉ line.toList := by
  obtain ⟨found, hfound, rfl⟩ := List.mem_map.1 h
  rw [String.toList_ofList]
  exact feed_not_mem_linesFrom List.not_mem_nil _ found hfound

end TableExport
