import Mathlib
import TableExport.Cell.NumberFormat

/-!
# Literal parts of number formats

A pattern of a number format has literal parts: escaped characters, quoted texts and sections in
brackets (`LiteralPart`). The scan of a pattern comes out of each of them as it went in
(`LiteralPart.foldl`), and it is outside of them exactly at the positions in front of which all of
them have their ends (`closed_iff`). So a literal part can be put in there without a change of the
kind, and the kind follows from the letters that are left when all literal parts are removed
(`ofPattern_literals`).
-/

namespace TableExport.NumberFormat

/-! ## Removing literal parts -/

/-- What comes after the end of a quoted text, which is the next quote. -/
def afterQuote (text : List Char) : List Char := (text.dropWhile (· != '"')).tail

/-- What comes after the end of a section in brackets, which is the next closing bracket that is not
escaped. -/
def afterBracket : List Char → List Char
  | [] => []
  | c :: rest =>
    if isEscape c then afterBracket rest.tail
    else if c = ']' then rest
    else afterBracket rest
termination_by text => text.length
decreasing_by all_goals simp only [List.length_cons, List.length_tail]; omega

theorem length_afterQuote_le (text : List Char) : (afterQuote text).length ≤ text.length := by
  have := (List.dropWhile_suffix (l := text) (· != '"')).length_le
  rw [afterQuote, List.length_tail]
  omega

theorem length_afterBracket_le (text : List Char) : (afterBracket text).length ≤ text.length := by
  fun_induction afterBracket text with
  | case1 => exact le_rfl
  | case2 c rest hescape ih =>
    rw [List.length_tail] at ih
    rw [List.length_cons]
    omega
  | case3 rest => exact Nat.le_succ _
  | case4 c rest hescape hclose ih => exact ih.trans (Nat.le_succ _)

/-- A pattern without its literal parts, removed from left to right. A part without an end reaches
up to the end of the pattern. -/
def withoutLiterals : List Char → List Char
  | [] => []
  | c :: rest =>
    if isEscape c then withoutLiterals rest.tail
    else if c = '"' then withoutLiterals (afterQuote rest)
    else if c = '[' then withoutLiterals (afterBracket rest)
    else c :: withoutLiterals rest
termination_by text => text.length
decreasing_by
  · simp only [List.length_cons, List.length_tail]; omega
  · exact Nat.lt_succ_of_le (length_afterQuote_le rest)
  · exact Nat.lt_succ_of_le (length_afterBracket_le rest)
  · exact Nat.lt_succ_self _

/-- One of some letters is left of a pattern without its literal parts. -/
def HasLetter (letters : List Char) (pattern : String) : Prop :=
  ∃ c ∈ withoutLiterals pattern.toList, c ∈ letters

instance (letters : List Char) (pattern : String) : Decidable (HasLetter letters pattern) :=
  inferInstanceAs (Decidable (∃ c ∈ withoutLiterals pattern.toList, c ∈ letters))

/-! ## Literal parts and positions outside of them -/

/-- The text of a section in brackets: a closing bracket stands in it only after an escape. -/
inductive BracketText : List Char → Prop
  | nil : BracketText []
  | plain {c : Char} {text : List Char} : isEscape c = false → c ≠ ']' → BracketText text →
    BracketText (c :: text)
  | escape {e : Char} (c : Char) {text : List Char} : isEscape e = true → BracketText text →
    BracketText (e :: c :: text)

/-- A literal part of a pattern. -/
inductive LiteralPart : List Char → Prop
  | escape {e : Char} (c : Char) : isEscape e = true → LiteralPart [e, c]
  | quoted {text : List Char} : '"' ∉ text → LiteralPart ('"' :: (text ++ ['"']))
  | bracket {text : List Char} : BracketText text → LiteralPart ('[' :: (text ++ [']']))

/-- A text after which a pattern is outside of quotes, escapes and brackets: characters that open
none of them, and literal parts up to their ends. -/
inductive Closed : List Char → Prop
  | nil : Closed []
  | plain {c : Char} {text : List Char} : isEscape c = false → c ≠ '"' → c ≠ '[' → Closed text →
    Closed (c :: text)
  | literal {part text : List Char} : LiteralPart part → Closed text → Closed (part ++ text)

/-- A text without a closing bracket and without an escape can stand in brackets. -/
theorem bracketText_of_forall {text : List Char}
    (h : ∀ c ∈ text, c ≠ ']' ∧ c ≠ '\\' ∧ c ≠ '_') : BracketText text := by
  induction text with
  | nil => exact .nil
  | cons c rest ih =>
    obtain ⟨⟨hclose, hslash, hline⟩, hrest⟩ := List.forall_mem_cons.1 h
    exact .plain (by simp [isEscape, hslash, hline]) hclose (ih hrest)

/-! ## The scan of one character -/

variable {c : Char} {text : List Char} {place : Section} {d t : Bool}

theorem step_escaped (c : Char) : Scan.step ⟨place, true, d, t⟩ c = ⟨place, false, d, t⟩ := rfl

theorem step_isEscape (h : isEscape c = true) :
    Scan.step ⟨.plain, false, d, t⟩ c = ⟨.plain, true, d, t⟩ := by
  simp [Scan.step, h]

theorem step_bracket_isEscape (h : isEscape c = true) :
    Scan.step ⟨.bracket, false, d, t⟩ c = ⟨.bracket, true, d, t⟩ := by
  simp [Scan.step, h]

theorem step_quote : Scan.step ⟨.plain, false, d, t⟩ '"' = ⟨.quoted, false, d, t⟩ := rfl

theorem step_unquote : Scan.step ⟨.quoted, false, d, t⟩ '"' = ⟨.plain, false, d, t⟩ := rfl

theorem step_open : Scan.step ⟨.plain, false, d, t⟩ '[' = ⟨.bracket, false, d, t⟩ := rfl

theorem step_close : Scan.step ⟨.bracket, false, d, t⟩ ']' = ⟨.plain, false, d, t⟩ := rfl

theorem step_quoted (h : c ≠ '"') :
    Scan.step ⟨.quoted, false, d, t⟩ c = ⟨.quoted, false, d, t⟩ := by
  simp [Scan.step, h]

theorem step_bracket (hescape : isEscape c = false) (h : c ≠ ']') :
    Scan.step ⟨.bracket, false, d, t⟩ c = ⟨.bracket, false, d, t⟩ := by
  simp [Scan.step, hescape, h]

theorem not_isTimeLetter (h : isDateLetter c = true) : isTimeLetter c = false := by
  simp only [isDateLetter, Bool.or_eq_true, beq_iff_eq] at h
  rcases h with ((rfl | rfl) | rfl) | rfl <;> decide

theorem step_plain (hescape : isEscape c = false) (hquote : c ≠ '"') (hopen : c ≠ '[') :
    Scan.step ⟨.plain, false, d, t⟩ c =
      ⟨.plain, false, d || isDateLetter c, t || isTimeLetter c⟩ := by
  simp only [Scan.step, hescape, if_neg hquote, if_neg hopen, Bool.false_eq_true, if_false]
  split_ifs with hdate htime
  · simp [hdate, not_isTimeLetter hdate]
  · simp [hdate, htime]
  · simp [hdate, htime]

/-! ## The scan of a literal part -/

theorem foldl_quoted (h : '"' ∉ text) :
    text.foldl Scan.step ⟨.quoted, false, d, t⟩ = ⟨.quoted, false, d, t⟩ := by
  induction text with
  | nil => rfl
  | cons c rest ih =>
    rw [List.mem_cons, not_or] at h
    rw [List.foldl_cons, step_quoted (Ne.symm h.1), ih h.2]

theorem BracketText.foldl (h : BracketText text) :
    text.foldl Scan.step ⟨.bracket, false, d, t⟩ = ⟨.bracket, false, d, t⟩ := by
  induction h with
  | nil => rfl
  | plain hescape hclose _ ih => rw [List.foldl_cons, step_bracket hescape hclose, ih]
  | escape c hescape _ ih =>
    rw [List.foldl_cons, step_bracket_isEscape hescape, List.foldl_cons, step_escaped, ih]

/-- **The scan comes out of a literal part as it went in.** -/
theorem LiteralPart.foldl (h : LiteralPart text) :
    text.foldl Scan.step ⟨.plain, false, d, t⟩ = ⟨.plain, false, d, t⟩ := by
  cases h with
  | escape c hescape =>
    rw [List.foldl_cons, step_isEscape hescape, List.foldl_cons, step_escaped, List.foldl_nil]
  | quoted hquote =>
    rw [List.foldl_cons, step_quote, List.foldl_append, foldl_quoted hquote, List.foldl_cons,
      step_unquote, List.foldl_nil]
  | bracket hbracket =>
    rw [List.foldl_cons, step_open, List.foldl_append, hbracket.foldl, List.foldl_cons, step_close,
      List.foldl_nil]

theorem Closed.foldl (h : Closed text) : ∃ d' t',
    text.foldl Scan.step ⟨.plain, false, d, t⟩ = ⟨.plain, false, d', t'⟩ := by
  induction h generalizing d t with
  | nil => exact ⟨d, t, rfl⟩
  | plain hescape hquote hopen _ ih =>
    rw [List.foldl_cons, step_plain hescape hquote hopen]
    exact ih
  | literal hpart _ ih =>
    rw [List.foldl_append, hpart.foldl]
    exact ih

/-! ## Positions outside of literal parts -/

/-- A section in brackets has an end, or the scan stays in it. -/
theorem exists_bracketText (text : List Char) :
    (∃ inner rest, text = inner ++ ']' :: rest ∧ BracketText inner) ∨
      (text.foldl Scan.step ⟨.bracket, false, d, t⟩).at_ = .bracket := by
  fun_induction afterBracket text with
  | case1 => exact Or.inr rfl
  | case2 e rest hescape ih =>
    rw [List.foldl_cons, step_bracket_isEscape hescape]
    cases rest with
    | nil => exact Or.inr rfl
    | cons c rest =>
      rw [List.foldl_cons, step_escaped]
      refine ih.imp_left ?_
      rintro ⟨inner, after, htext, hinner⟩
      exact ⟨e :: c :: inner, after, by rw [List.tail_cons] at htext; simp [htext],
        .escape c hescape hinner⟩
  | case3 rest => exact Or.inl ⟨[], rest, rfl, .nil⟩
  | case4 c rest hescape hclose ih =>
    rw [Bool.not_eq_true] at hescape
    rw [List.foldl_cons, step_bracket hescape hclose]
    refine ih.imp_left ?_
    rintro ⟨inner, after, htext, hinner⟩
    exact ⟨c :: inner, after, by rw [htext, List.cons_append], .plain hescape hclose hinner⟩

/-- What the scan of a text ends in when it is outside of literal parts. -/
def Scan.IsOutside (scan : Scan) : Prop := scan.at_ = .plain ∧ scan.escaped = false

instance (scan : Scan) : Decidable scan.IsOutside := inferInstanceAs (Decidable (_ ∧ _))

theorem closed_of_isOutside (h : (text.foldl Scan.step ⟨.plain, false, d, t⟩).IsOutside) :
    Closed text := by
  induction hlength : text.length using Nat.strong_induction_on generalizing text d t with
  | _ length ih =>
  subst hlength
  cases text with
  | nil => exact .nil
  | cons c rest =>
  rw [List.foldl_cons] at h
  by_cases hescape : isEscape c = true
  · rw [step_isEscape hescape] at h
    cases rest with
    | nil => exact absurd h.2 nofun
    | cons e rest =>
      rw [List.foldl_cons, step_escaped] at h
      exact .literal (.escape e hescape) (ih _ (by simp) h rfl)
  rw [Bool.not_eq_true] at hescape
  by_cases hquote : c = '"'
  · subst hquote
    rw [step_quote] at h
    by_cases hmem : '"' ∈ rest
    · obtain ⟨inner, after, rfl, hinner⟩ := List.eq_append_cons_of_mem hmem
      rw [List.foldl_append, foldl_quoted hinner, List.foldl_cons, step_unquote] at h
      have hafter : Closed after := ih _ (by simp; omega) h rfl
      simpa using Closed.literal (.quoted hinner) hafter
    · rw [foldl_quoted hmem] at h
      exact absurd h.1 nofun
  by_cases hopen : c = '['
  · subst hopen
    rw [step_open] at h
    rcases exists_bracketText rest with ⟨inner, after, rfl, hinner⟩ | hbracket
    · rw [List.foldl_append, hinner.foldl] at h
      have hafter : Closed after := ih _ (by simp; omega) h rfl
      simpa using Closed.literal (.bracket hinner) hafter
    · exact absurd (h.1.symm.trans hbracket) nofun
  · rw [step_plain hescape hquote hopen] at h
    exact .plain hescape hquote hopen (ih _ (by simp) h rfl)

/-- **A pattern is outside of its literal parts exactly where the scan is.** -/
theorem closed_iff : Closed text ↔ (text.foldl Scan.step Scan.start).IsOutside := by
  refine ⟨fun h => ?_, closed_of_isOutside⟩
  obtain ⟨d, t, hscan⟩ := h.foldl (d := false) (t := false)
  rw [Scan.start, hscan]
  exact ⟨rfl, rfl⟩

instance (text : List Char) : Decidable (Closed text) := decidable_of_iff' _ closed_iff

/-! ## Kinds -/

variable {system : DateSystem}

theorem kind_escaped : (text.foldl Scan.step ⟨place, true, d, t⟩).kind system =
    (text.tail.foldl Scan.step ⟨place, false, d, t⟩).kind system := by
  cases text with
  | nil => rfl
  | cons c rest => rw [List.foldl_cons, step_escaped, List.tail_cons]

theorem kind_quoted : (text.foldl Scan.step ⟨.quoted, false, d, t⟩).kind system =
    ((afterQuote text).foldl Scan.step ⟨.plain, false, d, t⟩).kind system := by
  induction text with
  | nil => rfl
  | cons c rest ih =>
    rw [List.foldl_cons, afterQuote, List.dropWhile_cons]
    by_cases hquote : c = '"'
    · subst hquote
      rfl
    · rw [step_quoted hquote, if_pos (by simpa using hquote)]
      exact ih

theorem kind_bracket : (text.foldl Scan.step ⟨.bracket, false, d, t⟩).kind system =
    ((afterBracket text).foldl Scan.step ⟨.plain, false, d, t⟩).kind system := by
  fun_induction afterBracket text with
  | case1 => rfl
  | case2 c rest hescape ih =>
    rw [List.foldl_cons, step_bracket_isEscape hescape, kind_escaped, ih]
  | case3 rest => rfl
  | case4 c rest hescape hclose ih =>
    rw [List.foldl_cons, step_bracket (Bool.not_eq_true _ ▸ hescape) hclose, ih]

/-- **The letters that are left count.** -/
theorem kind_plain : (text.foldl Scan.step ⟨.plain, false, d, t⟩).kind system =
    Scan.kind ⟨.plain, false, d || (withoutLiterals text).any isDateLetter,
      t || (withoutLiterals text).any isTimeLetter⟩ system := by
  fun_induction withoutLiterals text generalizing d t with
  | case1 => simp
  | case2 c rest hescape ih =>
    rw [List.foldl_cons, step_isEscape hescape, kind_escaped, ih]
  | case3 rest hescape ih => exact kind_quoted.trans ih
  | case4 rest hescape hquote ih => exact kind_bracket.trans ih
  | case5 c rest hescape hquote hopen ih =>
    rw [List.foldl_cons, step_plain (Bool.not_eq_true _ ▸ hescape) hquote hopen, ih,
      List.any_cons, List.any_cons, Bool.or_assoc, Bool.or_assoc]

theorem kind_eq (scan : Scan) (system : DateSystem) : scan.kind system =
    if scan.hasDate = true then
      if scan.hasTime = true then .serial .dateTime system else .serial .date system
    else if scan.hasTime = true then .serial .time system
    else .number := by
  rcases scan with ⟨place, escaped, date, time⟩
  cases date <;> cases time <;> rfl

theorem any_isDateLetter (pattern : String) :
    (withoutLiterals pattern.toList).any isDateLetter =
      decide (HasLetter ['Y', 'y', 'D', 'd'] pattern) := by
  rw [Bool.eq_iff_iff, decide_eq_true_eq, List.any_eq_true, HasLetter]
  simp [isDateLetter, or_assoc]

theorem any_isTimeLetter (pattern : String) :
    (withoutLiterals pattern.toList).any isTimeLetter =
      decide (HasLetter ['H', 'h', 'S', 's'] pattern) := by
  rw [Bool.eq_iff_iff, decide_eq_true_eq, List.any_eq_true, HasLetter]
  simp [isTimeLetter, or_assoc]

/-- **Literal parts of a pattern do not decide its kind.** An escaped character, a quoted text or a
section in brackets that is put in at a position outside of all of them leaves the kind as it is.
The kind has a date exactly if a letter of a year or a day is left when all literal parts are
removed, and a time exactly if a letter of an hour or a second is; without both it is that of a
plain number. -/
theorem ofPattern_literals (system : DateSystem) :
    (∀ before part after : String, Closed before.toList → LiteralPart part.toList →
      ofPattern (before ++ part ++ after) system = ofPattern (before ++ after) system) ∧
    ∀ pattern : String, ofPattern pattern system =
      if HasLetter ['Y', 'y', 'D', 'd'] pattern then
        if HasLetter ['H', 'h', 'S', 's'] pattern then .serial .dateTime system
        else .serial .date system
      else if HasLetter ['H', 'h', 'S', 's'] pattern then .serial .time system
      else .number := by
  refine ⟨fun before part after hbefore hpart => ?_, fun pattern => ?_⟩
  · obtain ⟨d, t, hscan⟩ := hbefore.foldl (d := false) (t := false)
    simp only [ofPattern, Scan.start, String.toList_append, List.foldl_append, hscan, hpart.foldl]
  · rw [ofPattern, Scan.start, kind_plain, kind_eq]
    simp only [any_isDateLetter, any_isTimeLetter, Bool.false_or, decide_eq_true_eq]

/-- A section in brackets with letters and a quote in it, behind a quoted text. -/
theorem ofPattern_literals_locale :
    Closed "0\"day\" ".toList ∧ LiteralPart "[$-s\"y]".toList ∧
    ofPattern ("0\"day\" " ++ "[$-s\"y]" ++ "h\\d_s") .from1904 =
      ofPattern ("0\"day\" " ++ "h\\d_s") .from1904 ∧
    ofPattern ("0\"day\" " ++ "h\\d_s") .from1904 = .serial .time .from1904 := by
  have hclosed : Closed "0\"day\" ".toList := by decide
  have htext : BracketText ['$', '-', 's', '"', 'y'] := bracketText_of_forall (by simp)
  have hpart : LiteralPart "[$-s\"y]".toList := .bracket htext
  have hsame := (ofPattern_literals .from1904).1 "0\"day\" " "[$-s\"y]" "h\\d_s" hclosed hpart
  exact ⟨hclosed, hpart, hsame, by decide +kernel⟩

end TableExport.NumberFormat
