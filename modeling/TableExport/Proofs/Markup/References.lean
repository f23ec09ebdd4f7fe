import TableExport.Markup.Reference
import TableExport.Proofs.Numeric.Literals

/-!
# References to characters

A reference stands for a character, by one of five names or by its number (`Markup.Refers`). Exactly
these references are read (`Markup.referenced_eq_ok`). The failure of any other one tells whether it
was meant as a number (`Markup.referenced_eq_error`).
-/

namespace TableExport

namespace Literal

variable {radix limit n : ℕ} {text : List Char}

/-- A run of digits, which may stand behind a plus sign. -/
def Unsigned (radix : ℕ) (text : List Char) (n : ℕ) : Prop :=
  Numeral radix text n ∨ ∃ digits, text = '+' :: digits ∧ Numeral radix digits n

theorem digit?_plus : digit? radix '+' = none := rfl

/-- **An unsigned number is read up to a limit.** -/
theorem unsigned?_iff :
    unsigned? radix limit text = some n ↔ Unsigned radix text n ∧ n ≤ limit := by
  rw [unsigned?.eq_def, Option.filter_eq_some_iff, decide_eq_true_eq, digits?_iff]
  refine and_congr_left fun _ => ?_
  split
  · rename_i rest
    constructor
    · exact fun h => .inr ⟨rest, rfl, h⟩
    · rintro (h | ⟨digits, heq, h⟩)
      · exact absurd digit?_plus h.ne_of_digit?
      · cases heq
        exact h
  · rename_i hplus
    constructor
    · exact .inl
    · rintro (h | ⟨digits, rfl, -⟩)
      · exact h
      · exact absurd rfl (hplus digits)

end Literal

namespace Markup

open Literal

variable {name : String} {c : Char}

/-- The names of characters. -/
def entities : List (String × Char) :=
  [("lt", '<'), ("gt", '>'), ("amp", '&'), ("apos", '\''), ("quot", '"')]

/-- A reference with the character that it stands for. -/
inductive Refers : String → Char → Prop
  | entity {name : String} {c : Char} : (name, c) ∈ entities → Refers name c
  | decimal {name : String} {number : List Char} {c : Char} : name.toList = '#' :: number →
    Unsigned 10 number c.toNat → Refers name c
  | hexadecimal {name : String} {mark : Char} {number : List Char} {c : Char} :
    name.toList = '#' :: mark :: number → mark = 'x' ∨ mark = 'X' →
      Unsigned 16 number c.toNat → Refers name c

theorem character?_eq_some {n : ℕ} : character? n = some c ↔ n = c.toNat := by
  rw [character?]
  constructor
  · intro h
    split at h
    · rename_i hvalid
      rw [← Option.some.inj h, Char.toNat_ofNat, if_pos hvalid]
    · cases h
  · rintro rfl
    have hvalid : c.toNat.isValidChar := c.valid
    rw [if_pos hvalid, Char.ofNat_toNat]

/-- The number of a character is below the limit for numbers. -/
theorem bind_character? {radix : ℕ} {number : List Char} :
    (unsigned? radix maxNumber number).bind character? = some c ↔
      Unsigned radix number c.toNat := by
  have hlimit : c.toNat ≤ maxNumber := Nat.le_sub_one_of_lt c.val.toNat_lt
  simp [Option.bind_eq_some_iff, unsigned?_iff, character?_eq_some, hlimit]

theorem digit?_ten_mark {mark : Char} (h : mark = 'x' ∨ mark = 'X') : digit? 10 mark = none := by
  rcases h with rfl | rfl <;> decide

/-- A number without a mark is decimal, and one behind a mark is hexadecimal. -/
theorem numbered?_eq_some {number : List Char} :
    numbered? number = some c ↔ Unsigned 10 number c.toNat ∨
      ∃ mark digits, number = mark :: digits ∧ (mark = 'x' ∨ mark = 'X') ∧
        Unsigned 16 digits c.toNat := by
  have hmarked : ∀ {mark : Char} {digits : List Char}, mark = 'x' ∨ mark = 'X' →
      ¬ Unsigned 10 (mark :: digits) c.toNat := by
    rintro mark digits hmark (h | ⟨_, heq, -⟩)
    · exact h.ne_of_digit? (digit?_ten_mark hmark)
    · rcases hmark with rfl | rfl <;> cases heq
  unfold numbered?
  split
  · simp [bind_character?, hmarked]
  · simp [bind_character?, hmarked]
  · rename_i hsmall hcapital
    rw [bind_character?]
    refine ⟨.inl, ?_⟩
    rintro (h | ⟨mark, digits, rfl, rfl | rfl, -⟩)
    · exact h
    · exact absurd rfl (hsmall digits)
    · exact absurd rfl (hcapital digits)

theorem entity?_of_mem_entities : ∀ pair ∈ entities, entity? pair.1.toList = some pair.2 := by
  decide

theorem head?_of_mem_entities : ∀ pair ∈ entities, pair.1.toList.head? ≠ some '#' := by
  decide

theorem entity?_eq_some : entity? name.toList = some c ↔ (name, c) ∈ entities := by
  refine ⟨fun h => ?_, entity?_of_mem_entities (name, c)⟩
  have hletters : ∃ other, (other, c) ∈ entities ∧ name.toList = other.toList := by
    unfold entity? at h
    split_ifs at h with hlt hgt hand happos hquot
    all_goals cases h
    · exact ⟨"lt", by decide, hlt⟩
    · exact ⟨"gt", by decide, hgt⟩
    · exact ⟨"amp", by decide, hand⟩
    · exact ⟨"apos", by decide, happos⟩
    · exact ⟨"quot", by decide, hquot⟩
  obtain ⟨other, hmem, heq⟩ := hletters
  rwa [String.toList_injective heq]

theorem refers_iff_of_number {number : List Char} (h : name.toList = '#' :: number) :
    Refers name c ↔ numbered? number = some c := by
  rw [numbered?_eq_some]
  constructor
  · rintro (hmem | ⟨hnumber, hvalue⟩ | ⟨hnumber, hmark, hvalue⟩)
    · exact absurd (by rw [h]; rfl) (head?_of_mem_entities _ hmem)
    · cases h.symm.trans hnumber
      exact .inl hvalue
    · cases h.symm.trans hnumber
      exact .inr ⟨_, _, rfl, hmark, hvalue⟩
  · rintro (hvalue | ⟨mark, digits, rfl, hmark, hvalue⟩)
    · exact .decimal h hvalue
    · exact .hexadecimal h hmark hvalue

theorem refers_iff_of_name (h : ∀ number, name.toList ≠ '#' :: number) :
    Refers name c ↔ entity? name.toList = some c := by
  rw [entity?_eq_some]
  constructor
  · rintro (hmem | ⟨hnumber, -⟩ | ⟨hnumber, -, -⟩)
    · exact hmem
    · exact absurd hnumber (h _)
    · exact absurd hnumber (h _)
  · exact .entity

/-- **Exactly the references to characters are read.** -/
theorem referenced_eq_ok : referenced name = .ok c ↔ Refers name c := by
  unfold referenced
  split
  · rename_i number hname
    rw [refers_iff_of_number hname]
    cases numbered? number <;> simp
  · rename_i hname
    rw [refers_iff_of_name hname]
    cases entity? name.toList <;> simp

/-- **Any other reference fails**, as a number if it starts with the mark of one. -/
theorem referenced_eq_error {cause : MarkupError} :
    referenced name = .error cause ↔ (∀ c, ¬ Refers name c) ∧
      cause = if name.toList.head? = some '#' then .badCharacter name else .unknownEntity name := by
  have hnone : (∀ c, ¬ Refers name c) ↔ ∀ c, referenced name ≠ .ok c :=
    forall_congr' fun c => referenced_eq_ok.symm.not
  rw [hnone]
  unfold referenced
  split
  · rename_i number hname
    rw [hname]
    cases numbered? number <;> simp [eq_comm]
  · rename_i hname
    have hhead : name.toList.head? ≠ some '#' := by
      intro h
      obtain ⟨number, hnumber⟩ := List.head?_eq_some_iff.1 h
      exact hname number hnumber
    rw [if_neg hhead]
    cases entity? name.toList <;> simp [eq_comm]

end Markup

end TableExport
