import TableExport.Proofs.Numeric.Literals
import TableExport.Proofs.Results
import TableExport.Cell.Coercion

/-!
# Integers of number cells

A number cell holds an integer literal, whose value is its integer, or a text that is read as a
double, which is cut toward zero. The integers have 64 bits, and the range of the cut is tested
against bounds that are doubles themselves: `2 ^ 63`, which is no integer of 64 bits, passes the
test. Apart from that double no number is returned that the text does not mean
(`Cell.toInteger_sound`).
-/

namespace TableExport.Cell

open Binary64 Literal

variable {cell : Cell} {number : Binary64} {n : ℤ}

theorem toNumber_of_isNumber (hkind : cell.kind.isNumber = true) :
    cell.toNumber = match double? (trim cell.value) with
      | none => .error .notNumber
      | some number => if number.isFinite then .ok number else .error .notFinite := by
  have hne : cell.kind ≠ .boolean := fun heq => by
    rw [heq] at hkind
    cases hkind
  cases hread : double? (trim cell.value) <;> simp [toNumber, hne, hkind, hread]

theorem isFinite_of_toNumber (hkind : cell.kind.isNumber = true)
    (h : cell.toNumber = .ok number) : number.isFinite = true := by
  rw [toNumber_of_isNumber hkind] at h
  split at h
  · cases h
  · split at h
    · rename_i hfinite
      cases h
      exact hfinite
    · cases h

/-- A number cell is read as an integer by its literal, or else by its double. -/
theorem toInteger_of_isNumber (hkind : cell.kind.isNumber = true) :
    cell.toInteger = match signed? cell.value with
      | some n => .ok n
      | none => cell.toNumber.bind integerPart := by
  have hne : cell.kind ≠ .boolean := fun heq => by
    rw [heq] at hkind
    cases hkind
  cases hread : signed? cell.value <;> simp [toInteger, hne, hkind, hread]

/-- The integer part of a finite double, with the bounds of the range as the test has them. -/
theorem integerPart_eq (h : number.isFinite = true) :
    integerPart number =
      if towardZero number.toRat < minInteger ∨ maxInteger + 1 < towardZero number.toRat then
        .error .outOfRange
      else if maxInteger < towardZero number.toRat then .ok maxInteger
      else .ok (towardZero number.toRat) := by
  rw [integerPart, truncated_eq h]

theorem integerPart_eq_ok (hfinite : number.isFinite = true)
    (hne : towardZero number.toRat ≠ 2 ^ 63) (h : integerPart number = .ok n) :
    n = towardZero number.toRat := by
  rw [integerPart_eq hfinite] at h
  split_ifs at h with hout habove
  · simp only [maxInteger, Nat.pow_eq] at hout habove
    omega
  · exact (Except.ok.inj h).symm

theorem integerPart_eq_error (hfinite : number.isFinite = true)
    (hne : towardZero number.toRat ≠ 2 ^ 63)
    (h : towardZero number.toRat < minInteger ∨ maxInteger < towardZero number.toRat) :
    integerPart number = .error .outOfRange := by
  rw [integerPart_eq hfinite, if_pos]
  simp only [maxInteger, Nat.pow_eq] at h ⊢
  omega

/-- The double of a literal of 64 bits is in the range, unless it is `2 ^ 63`. -/
theorem towardZero_mem_of_signed (h : signed? cell.value = some n)
    (hkind : cell.kind.isNumber = true) : ∃ number, cell.toNumber = .ok number ∧
      (towardZero number.toRat ≠ 2 ^ 63 →
        minInteger ≤ towardZero number.toRat ∧ towardZero number.toRat ≤ maxInteger) := by
  obtain ⟨number, hdouble, hfinite, hle⟩ := exists_double_of_signed h
  refine ⟨number, ?_, fun hne => ?_⟩
  · rw [toNumber_of_isNumber hkind, trim_of_literal (signed?_eq_some.1 h).1, hdouble]
    simp only [hfinite, if_true]
  · obtain ⟨hlower, hupper⟩ := abs_le.1 hle
    have hlower' : -(2 ^ 63 : ℤ) ≤ towardZero number.toRat := by
      rw [towardZero]
      split_ifs
      · exact Int.le_ceil_iff.2 (lt_of_lt_of_le (by push_cast; linarith) hlower)
      · exact Int.le_floor.2 (le_trans (by push_cast; norm_num) hlower)
    have hupper' : towardZero number.toRat ≤ 2 ^ 63 := by
      rw [towardZero]
      split_ifs
      · exact Int.ceil_le.2 (hupper.trans (by push_cast; norm_num))
      · exact_mod_cast (Int.floor_le number.toRat).trans hupper
    simp only [minInteger, maxInteger, Nat.pow_eq]
    omega

/-- **The integer of a number cell is the one that its text means.** Unless the double of the text
is cut to `2 ^ 63`, an integer is the value of the literal that the text is, or the double of the
text cut toward zero; a text whose double is cut to a number outside the range of 64 bits is
refused, and so is one that has no finite double. -/
theorem toInteger_sound (hkind : cell.kind.isNumber = true)
    (hne : ∀ number, cell.toNumber = .ok number → towardZero number.toRat ≠ 2 ^ 63) :
    (∀ n, cell.toInteger = .ok n → IntegerLiteral cell.value.toList n ∨
      ∃ number, cell.toNumber = .ok number ∧ n = towardZero number.toRat) ∧
    (∀ number, cell.toNumber = .ok number →
      towardZero number.toRat < minInteger ∨ maxInteger < towardZero number.toRat →
      cell.toInteger = .error .outOfRange) ∧
    ∀ e, cell.toNumber = .error e → cell.toInteger = .error e := by
  rw [toInteger_of_isNumber hkind]
  cases hread : signed? cell.value with
  | some value =>
    obtain ⟨number, hnumber, hrange⟩ := towardZero_mem_of_signed hread hkind
    refine ⟨fun n hn => Or.inl ?_, fun other hother hout => ?_, fun e he => ?_⟩
    · cases hn
      exact (signed?_eq_some.1 hread).1
    · rw [hnumber] at hother
      cases hother
      have := hrange (hne number hnumber)
      omega
    · rw [hnumber] at he
      cases he
  | none =>
    refine ⟨fun n hn => Or.inr ?_, fun number hnumber hout => ?_, fun e he => ?_⟩
    · obtain ⟨number, hnumber, hpart⟩ := bind_eq_ok.1 hn
      exact ⟨number, hnumber,
        integerPart_eq_ok (isFinite_of_toNumber hkind hnumber) (hne number hnumber) hpart⟩
    · rw [hnumber]
      exact integerPart_eq_error (isFinite_of_toNumber hkind hnumber) (hne number hnumber) hout
    · rw [he]
      rfl

/-- A number cell with a text. -/
def ofNumber (text : String) : Cell := ⟨2, 1, .number, text⟩

/-- A text that is no literal, with the least number of the range. -/
theorem toInteger_sound_lowest :
    (∀ number, (ofNumber "-9.2233720368547758e18").toNumber = .ok number →
      towardZero number.toRat ≠ 2 ^ 63) ∧
    (ofNumber "-9.2233720368547758e18").toInteger = .ok (-9223372036854775808) ∧
    ∃ number, (ofNumber "-9.2233720368547758e18").toNumber = .ok number ∧
      -9223372036854775808 = towardZero number.toRat := by
  have hnumber : (ofNumber "-9.2233720368547758e18").toNumber =
      .ok (.finite true (2 ^ 52) 11) := by decide +kernel
  have hcut : towardZero (Binary64.finite true (2 ^ 52) 11).toRat = -9223372036854775808 :=
    Option.some.inj ((truncated_eq rfl).symm.trans (by decide +kernel))
  have hne : ∀ number, (ofNumber "-9.2233720368547758e18").toNumber = .ok number →
      towardZero number.toRat ≠ 2 ^ 63 := by
    intro number h
    rw [hnumber] at h
    cases h
    rw [hcut]
    decide
  have hinteger : (ofNumber "-9.2233720368547758e18").toInteger = .ok (-9223372036854775808) := by
    decide +kernel
  refine ⟨hne, hinteger, ?_⟩
  rcases (toInteger_sound (by rfl) hne).1 _ hinteger with hliteral | hfound
  · have hread := signed?_eq_some.2 ⟨hliteral, by decide, by decide⟩
    exact absurd hread (by decide +kernel)
  · exact hfound

/-- The text of `2 ^ 63` gives `2 ^ 63 - 1`, which is neither the value of the literal nor its
double cut toward zero, though that is outside the range. -/
theorem toInteger_saturated :
    (ofNumber "9223372036854775808").toInteger = .ok 9223372036854775807 ∧
    ¬ IntegerLiteral (ofNumber "9223372036854775808").value.toList 9223372036854775807 ∧
    ∃ number, (ofNumber "9223372036854775808").toNumber = .ok number ∧
      towardZero number.toRat = 9223372036854775808 ∧ maxInteger < towardZero number.toRat := by
  have hcut : towardZero (Binary64.finite false (2 ^ 52) 11).toRat = 9223372036854775808 :=
    Option.some.inj ((truncated_eq rfl).symm.trans (by decide +kernel))
  refine ⟨by decide +kernel, fun hliteral => ?_, .finite false (2 ^ 52) 11, by decide +kernel, hcut,
    by rw [hcut]; decide⟩
  have hread := signed?_eq_some.2 ⟨hliteral, by decide, by decide⟩
  exact absurd hread (by decide +kernel)

end TableExport.Cell
