import TableExport.Proofs.Numeric.Rounding
import TableExport.Numeric.Literal
import TableExport.Text.Blank

/-!
# Integer literals

A run of digits means a number in positional notation (`Numeral`); in base ten this is `decimal`. An
integer literal is a run of decimal digits, after at most one sign, and means what the digits mean
(`IntegerLiteral`). The integer reader takes the literals of 64 bits (`signed?_eq_some`). The reader
of fractions takes them, too, and the double that it gives is not farther from zero than `2 ^ 63`
(`exists_double_of_signed`); below `2 ^ 53` it is the integer itself (`exists_double_eq`).
-/

namespace TableExport.Literal

open Binary64

/-! ## Digits -/

/-- The number that decimal digits mean. -/
def decimal (digits : List Char) : ℕ :=
  Nat.ofDigits 10 (digits.reverse.map fun c => c.toNat - '0'.toNat)

theorem decimal_cons (c : Char) (digits : List Char) :
    decimal (c :: digits) = (c.toNat - '0'.toNat) * 10 ^ digits.length + decimal digits := by
  simp [decimal, Nat.ofDigits_append]
  ring

/-- A run of digits in a radix, with the number that it means in positional notation. -/
def Numeral (radix : ℕ) (text : List Char) (n : ℕ) : Prop :=
  text ≠ [] ∧ ∃ values, List.Forall₂ (fun c d => digit? radix c = some d) text values ∧
    n = Nat.ofDigits radix values.reverse

/-- An integer literal, with its value. -/
inductive IntegerLiteral : List Char → ℤ → Prop
  | plain {digits : List Char} : digits ≠ [] → (∀ c ∈ digits, c.isDigit = true) →
    IntegerLiteral digits (decimal digits)
  | plus {digits : List Char} : digits ≠ [] → (∀ c ∈ digits, c.isDigit = true) →
    IntegerLiteral ('+' :: digits) (decimal digits)
  | minus {digits : List Char} : digits ≠ [] → (∀ c ∈ digits, c.isDigit = true) →
    IntegerLiteral ('-' :: digits) (-(decimal digits : ℤ))

theorem digit?_ten (c : Char) :
    digit? 10 c = if c.isDigit then some (c.toNat - '0'.toNat) else none := by
  have hdigit : c.isDigit = true ↔ '0' ≤ c ∧ c ≤ '9' := by
    simp only [Char.isDigit, Bool.and_eq_true, decide_eq_true_eq]
    rfl
  have hval : ∀ a b : Char, a ≤ b ↔ a.toNat ≤ b.toNat := fun _ _ => Iff.rfl
  rw [digit?]
  by_cases hc : '0' ≤ c ∧ c ≤ '9'
  · have hlt : c.toNat - 48 < 10 := by
      have hle : c.toNat ≤ 57 := (hval _ _).1 hc.2
      omega
    simp [hc, hdigit.2 hc, hlt]
  · have hnone : c.isDigit = false := Bool.eq_false_iff.2 fun h => hc (hdigit.1 h)
    simp only [if_neg hc, hnone, Bool.false_eq_true, if_false]
    split_ifs <;> simp

/-- The digits after a value are read in positional notation. -/
theorem digitsFrom?_iff {radix value n : ℕ} {text : List Char} :
    digitsFrom? radix value text = some n ↔
      ∃ values, List.Forall₂ (fun c d => digit? radix c = some d) text values ∧
        n = value * radix ^ values.length + Nat.ofDigits radix values.reverse := by
  induction text generalizing value with
  | nil => simp [digitsFrom?, eq_comm]
  | cons c rest ih =>
    have hshift : ∀ (d : ℕ) (values : List ℕ),
        (value * radix + d) * radix ^ values.length + Nat.ofDigits radix values.reverse =
          value * radix ^ (d :: values).length + Nat.ofDigits radix (d :: values).reverse := by
      intro d values
      simp only [List.length_cons, List.reverse_cons, Nat.ofDigits_append, List.length_reverse,
        Nat.ofDigits_singleton]
      ring
    rw [digitsFrom?, Option.bind_eq_some_iff]
    constructor
    · rintro ⟨d, hd, hrest⟩
      obtain ⟨values, hvalues, rfl⟩ := ih.1 hrest
      exact ⟨d :: values, .cons hd hvalues, hshift d values⟩
    · rintro ⟨values, hvalues, rfl⟩
      cases hvalues with
      | @cons _ d _ values hd hvalues =>
        exact ⟨d, hd, ih.2 ⟨values, hvalues, (hshift d values).symm⟩⟩

/-- **The runs of digits are read with the numbers that they mean.** -/
theorem digits?_iff {radix n : ℕ} {text : List Char} :
    digits? radix text = some n ↔ Numeral radix text n := by
  cases text with
  | nil => simp [digits?, Numeral]
  | cons c rest => simp [digits?, Numeral, digitsFrom?_iff]

/-- A run of digits starts with a digit. -/
theorem Numeral.ne_of_digit? {radix n : ℕ} {c : Char} {text : List Char}
    (h : Numeral radix (c :: text) n) : digit? radix c ≠ none := by
  obtain ⟨-, values, hvalues, -⟩ := h
  cases hvalues with
  | cons hc _ => rw [hc]; exact nofun

/-- In base ten, a run of digits means its `decimal`. -/
theorem numeral_ten {text : List Char} {n : ℕ} :
    Numeral 10 text n ↔ text ≠ [] ∧ (∀ c ∈ text, c.isDigit = true) ∧ n = decimal text := by
  have hdigit : ∀ c d, digit? 10 c = some d ↔ c.isDigit = true ∧ c.toNat - '0'.toNat = d := by
    intro c d
    rw [digit?_ten]
    split_ifs with hc <;> simp [hc]
  have hvalues : ∀ values, List.Forall₂ (fun c d => digit? 10 c = some d) text values ↔
      (∀ c ∈ text, c.isDigit = true) ∧ text.map (fun c => c.toNat - '0'.toNat) = values := by
    intro values
    simp only [hdigit, List.forall₂_and_left]
    rw [← List.forall₂_eq_eq_eq, List.forall₂_map_left_iff]
  simp only [Numeral, hvalues, decimal, List.map_reverse]
  refine and_congr_right fun _ => ⟨?_, ?_⟩
  · rintro ⟨_, ⟨hdigits, rfl⟩, rfl⟩
    exact ⟨hdigits, rfl⟩
  · rintro ⟨hdigits, rfl⟩
    exact ⟨_, ⟨hdigits, rfl⟩, rfl⟩

theorem digits?_eq_some {text : List Char} {n : ℕ} :
    digits? 10 text = some n ↔ text ≠ [] ∧ (∀ c ∈ text, c.isDigit = true) ∧ n = decimal text :=
  digits?_iff.trans numeral_ten

theorem digits?_map_eq_some {text : List Char} {f : ℤ → ℤ} {n : ℤ} :
    ((do return ((← digits? 10 text) : ℤ)) : Option ℤ).map f = some n ↔
      text ≠ [] ∧ (∀ c ∈ text, c.isDigit = true) ∧ f (decimal text) = n := by
  cases hread : digits? 10 text with
  | none =>
    have hnone : ¬ (text ≠ [] ∧ ∀ c ∈ text, c.isDigit = true) := fun h => by
      rw [digits?_eq_some.2 ⟨h.1, h.2, rfl⟩] at hread
      cases hread
    simp only [← and_assoc, hnone, false_and, iff_false]
    exact nofun
  | some value =>
    obtain ⟨hne, hdigits, rfl⟩ := digits?_eq_some.1 hread
    exact ⟨fun h => ⟨hne, hdigits, Option.some.inj h⟩, fun h => congrArg some h.2.2⟩

/-- **The integers that can be read are the literals of 64 bits.** -/
theorem signed?_eq_some {text : String} {n : ℤ} :
    signed? text = some n ↔
      IntegerLiteral text.toList n ∧ minInteger ≤ n ∧ n ≤ maxInteger := by
  rw [signed?, Option.filter_eq_some_iff, decide_eq_true_eq]
  refine and_congr_left fun _ => ?_
  split
  · rename_i rest heq
    rw [digits?_map_eq_some, heq]
    constructor
    · rintro ⟨hne, hdigits, rfl⟩
      exact .minus hne hdigits
    · rintro (⟨-, hdigits⟩ | ⟨hne, hdigits⟩ | ⟨hne, hdigits⟩)
      · exact absurd (hdigits '-' List.mem_cons_self) (by decide)
      · exact ⟨hne, hdigits, rfl⟩
  · rename_i rest heq
    rw [digits?_map_eq_some, heq]
    constructor
    · rintro ⟨hne, hdigits, rfl⟩
      exact .plus hne hdigits
    · rintro (⟨-, hdigits⟩ | ⟨hne, hdigits⟩ | ⟨hne, hdigits⟩)
      · exact absurd (hdigits '+' List.mem_cons_self) (by decide)
      · exact ⟨hne, hdigits, rfl⟩
  · rename_i hminus hplus
    rw [digits?_map_eq_some]
    constructor
    · rintro ⟨hne, hdigits, rfl⟩
      exact .plain hne hdigits
    · intro h
      generalize text.toList = chars at *
      rcases h with ⟨hne, hdigits⟩ | ⟨hne, hdigits⟩ | ⟨hne, hdigits⟩
      · exact ⟨hne, hdigits, rfl⟩
      · exact absurd rfl (hplus _)
      · exact absurd rfl (hminus _)

/-! ## Literals as doubles -/

/-- A run of digits is read as a fraction without a part after the point. -/
theorem fraction?_of_digits (negative : Bool) {digits : List Char} (hne : digits ≠ [])
    (hdigits : ∀ c ∈ digits, c.isDigit = true) :
    fraction? negative digits = some (ofDecimal negative (decimal digits) 0) := by
  have hspan : takeDigits digits = (digits, []) := by
    rw [takeDigits, List.span_eq_takeWhile_dropWhile, List.takeWhile_eq_self_iff.2 hdigits,
      List.dropWhile_eq_nil_iff.2 hdigits]
  have hvalue : digits? 10 digits = some (decimal digits) :=
    digits?_eq_some.2 ⟨hne, hdigits, rfl⟩
  simp [fraction?, hspan, hvalue, exponent?]

/-- Digits are none of the words that stand for a double. -/
theorem word_ne_of_digits {digits : List Char} {word : String} {c : Char}
    (hdigits : ∀ c ∈ digits, c.isDigit = true) (hword : c ∈ word.toList)
    (hc : c.isDigit = false) : String.ofList (digits.map Char.toLower) ≠ word := by
  rintro rfl
  rw [String.toList_ofList] at hword
  obtain ⟨d, hd, rfl⟩ := List.mem_map.1 hword
  have hlower : d.toLower = d := by
    have hdigit := hdigits d hd
    simp only [Char.isDigit, Bool.and_eq_true, decide_eq_true_eq] at hdigit
    rw [Char.toLower, dif_neg]
    exact fun hupper => absurd (UInt32.le_trans hupper.1 hdigit.2) (by decide)
  rw [hlower, hdigits d hd] at hc
  cases hc

/-- An integer literal is read as a double, too, with its sign. -/
theorem exists_double_of_literal {text : String} {n : ℤ} (h : IntegerLiteral text.toList n) :
    ∃ negative, double? text = some (ofDecimal negative n.natAbs 0) ∧
      withSign negative n.natAbs = n := by
  have hword : ∀ digits : List Char, (∀ c ∈ digits, c.isDigit = true) →
      ¬ (String.ofList (digits.map Char.toLower) = "inf" ∨
          String.ofList (digits.map Char.toLower) = "infinity") ∧
        ¬ String.ofList (digits.map Char.toLower) = "nan" := by
    intro digits hdigits
    have hn : ∀ word : String, 'n' ∈ word.toList → String.ofList (digits.map Char.toLower) ≠ word :=
      fun word hmem => word_ne_of_digits hdigits hmem (by decide)
    exact ⟨not_or.2 ⟨hn _ (by decide), hn _ (by decide)⟩, hn _ (by decide)⟩
  rw [double?]
  generalize text.toList = chars at *
  rcases h with ⟨hne, hdigits⟩ | ⟨hne, hdigits⟩ | ⟨hne, hdigits⟩
  · refine ⟨false, ?_, rfl⟩
    split
    rename_i negative body heq
    have hbody : (negative, body) = (false, chars) := by
      rw [← heq]
      split
      · exact absurd (hdigits '-' List.mem_cons_self) (by decide)
      · exact absurd (hdigits '+' List.mem_cons_self) (by decide)
      · rfl
    cases hbody
    simp only [if_neg (hword _ hdigits).1, if_neg (hword _ hdigits).2]
    exact fraction?_of_digits false hne hdigits
  · refine ⟨false, ?_, rfl⟩
    simp only [if_neg (hword _ hdigits).1, if_neg (hword _ hdigits).2]
    exact fraction?_of_digits false hne hdigits
  · refine ⟨true, ?_, by simp [withSign]⟩
    simp only [if_neg (hword _ hdigits).1, if_neg (hword _ hdigits).2, Int.natAbs_neg]
    exact fraction?_of_digits true hne hdigits

/-- An integer of 64 bits is rounded as it is. -/
theorem ofDecimal_eq (negative : Bool) {n : ℕ} (h : n ≤ 2 ^ 63) :
    ofDecimal negative n 0 = ofRatio negative n 1 := by
  by_cases hzero : n = 0
  · rw [ofDecimal, if_pos hzero, ofRatio, if_pos hzero]
  have hlength : (Nat.toDigits 10 n).length ≤ 20 := by
    rw [Nat.length_toDigits_le_iff (by decide) (by decide)]
    omega
  simp only [ofDecimal, if_neg hzero]
  rw [if_neg (by omega), if_neg (by omega), if_neg (by decide)]
  simp

/-- The double nearest to an integer of 64 bits is not farther from zero than `2 ^ 63`. -/
theorem exists_ofDecimal_le (negative : Bool) {n : ℕ} (h : n ≤ 2 ^ 63) :
    ∃ mantissa exponent, ofDecimal negative n 0 = .finite negative mantissa exponent ∧
      magnitude mantissa exponent ≤ (2 ^ 63 : ℕ) := by
  rw [ofDecimal_eq negative h]
  exact exists_ofRatio_le negative (2 ^ 63) 64 Nat.one_pos (by omega) (by omega) (by decide)
    (pow_dvd_pow 2 (by decide))

/-- **A literal of 64 bits is a finite double** that is not farther from zero than `2 ^ 63`. -/
theorem exists_double_of_signed {text : String} {n : ℤ} (h : signed? text = some n) :
    ∃ number, double? text = some number ∧ number.isFinite = true ∧
      |number.toRat| ≤ (2 ^ 63 : ℕ) := by
  obtain ⟨hliteral, hmin, hmax⟩ := signed?_eq_some.1 h
  obtain ⟨negative, hdouble, -⟩ := exists_double_of_literal hliteral
  have hrange : n.natAbs ≤ 2 ^ 63 := by
    simp only [minInteger, maxInteger, Nat.pow_eq] at hmin hmax
    omega
  obtain ⟨mantissa, exponent, hfinite, hle⟩ := exists_ofDecimal_le negative hrange
  refine ⟨_, hdouble, by rw [hfinite]; rfl, ?_⟩
  rw [hfinite, toRat]
  split_ifs
  · rwa [abs_neg, abs_of_nonneg (magnitude_nonneg _ _)]
  · rwa [abs_of_nonneg (magnitude_nonneg _ _)]

/-- **A literal below `2 ^ 53` is the double that is its integer.** -/
theorem exists_double_eq {text : String} {n : ℤ} (h : IntegerLiteral text.toList n)
    (hn : |n| < 2 ^ 53) :
    ∃ number, double? text = some number ∧ number.isFinite = true ∧ number.toRat = n := by
  obtain ⟨negative, hdouble, hsign⟩ := exists_double_of_literal h
  have hlt : n.natAbs < 2 ^ 53 := by
    have := abs_lt.1 hn
    omega
  obtain ⟨mantissa, exponent, hfinite, hvalue⟩ := exists_ofRatio_eq negative hlt
  rw [ofDecimal_eq negative (by omega), hfinite] at hdouble
  refine ⟨_, hdouble, rfl, ?_⟩
  rw [toRat, hvalue, ← hsign, withSign]
  split_ifs <;> simp

/-- A literal has no blanks around it. -/
theorem trim_of_literal {text : String} {n : ℤ} (h : IntegerLiteral text.toList n) :
    trim text = text := by
  have hdigit : ∀ c : Char, c.isDigit = true → isBlank c = false := by
    intro c hc
    simp only [Char.isDigit, Bool.and_eq_true, decide_eq_true_eq] at hc
    have h₁ : 48 ≤ c.toNat := hc.1
    have h₂ : c.toNat ≤ 57 := hc.2
    simp only [isBlank, Bool.or_eq_false_iff, Bool.and_eq_false_iff, decide_eq_false_iff_not,
      beq_eq_false_iff_ne, ne_eq]
    omega
  have hchars : ∀ c ∈ text.toList, isBlank c = false := by
    generalize text.toList = chars at h
    rcases h with ⟨-, hdigits⟩ | ⟨-, hdigits⟩ | ⟨-, hdigits⟩
    · exact fun c hc => hdigit c (hdigits c hc)
    · exact List.forall_mem_cons.2 ⟨by decide, fun c hc => hdigit c (hdigits c hc)⟩
    · exact List.forall_mem_cons.2 ⟨by decide, fun c hc => hdigit c (hdigits c hc)⟩
  have hdrop : ∀ chars : List Char, (∀ c ∈ chars, isBlank c = false) →
      chars.dropWhile isBlank = chars := by
    intro chars hchars
    cases chars with
    | nil => rfl
    | cons c rest =>
      rw [List.dropWhile_cons, hchars c List.mem_cons_self, if_neg Bool.false_ne_true]
  rw [trim, trimChars, hdrop _ hchars, hdrop _ fun c hc => hchars c (List.mem_reverse.1 hc),
    List.reverse_reverse, String.ofList_toList]

end TableExport.Literal
