import TableExport.Proofs.Numeric.Literals
import TableExport.Reference

/-!
# Rendered numbers and references

A number that is rendered in decimal digits is read back (`Literal.count?_toString`), a column is
found under its letters (`columnIndexOf?_columnLetters`), and a position under its reference
(`Reference.parse?_render`), all as long as they fit 64 bits.

The readers take nothing else. Letters of either case are a numeral in base 26 with the digits 1 to
26 (`letterNumeral`), so that names and numbers of columns are in bijection (`columns_bijective`). A
reference is such a numeral and a decimal one, with dollar signs anywhere (`Reference.Names`); the
positions that are read are those of the references (`Reference.parse?_iff_names`).
-/

namespace TableExport

/-! ## Decimal digits -/

namespace Literal

theorem digitsFrom?_of_digits {text : List Char} (h : ∀ c ∈ text, c.isDigit = true)
    (value : ℕ) : digitsFrom? 10 value text = some (Nat.ofDigitChars 10 text value) := by
  induction text generalizing value with
  | nil => rfl
  | cons c rest ih =>
    obtain ⟨hc, hrest⟩ := List.forall_mem_cons.1 h
    rw [digitsFrom?, digit?_ten, if_pos hc, Option.bind_some, ih hrest, Nat.mul_comm value]
    rfl

theorem isDigit_of_mem_toDigits {n : ℕ} : ∀ c ∈ Nat.toDigits 10 n, c.isDigit = true :=
  fun _ => Nat.isDigit_of_mem_toDigits (by decide) (by decide)

theorem digits?_toDigits (n : ℕ) : digits? 10 (Nat.toDigits 10 n) = some n := by
  cases htext : Nat.toDigits 10 n with
  | nil => exact absurd htext Nat.toDigits_ne_nil
  | cons c rest =>
    have hdigits := digitsFrom?_of_digits (isDigit_of_mem_toDigits (n := n)) 0
    rw [Nat.ofDigitChars_toDigits (by decide) (by decide), htext] at hdigits
    exact hdigits

/-- Without a sign in front, all characters are taken for digits. -/
theorem unsigned?_of_head? {radix limit : ℕ} {text : List Char} (h : text.head? ≠ some '+') :
    unsigned? radix limit text = (digits? radix text).filter (· ≤ limit) := by
  unfold unsigned?
  split
  · exact absurd rfl h
  · rfl

theorem unsigned?_eq_some {limit n : ℕ} {text : List Char} (h : text.head? ≠ some '+') :
    unsigned? 10 limit text = some n ↔ text ≠ [] ∧ (∀ c ∈ text, c.isDigit = true) ∧
      decimal text = n ∧ n ≤ limit := by
  rw [unsigned?_of_head? h, Option.filter_eq_some_iff, digits?_eq_some, decide_eq_true_eq,
    eq_comm (a := n), and_assoc, and_assoc]

/-- **A number within the limit is read back from its digits.** -/
theorem unsigned?_toDigits {n limit : ℕ} (h : n ≤ limit) :
    unsigned? 10 limit (Nat.toDigits 10 n) = some n := by
  have hplus : (Nat.toDigits 10 n).head? ≠ some '+' := fun hhead =>
    absurd (isDigit_of_mem_toDigits _ (List.mem_of_mem_head? hhead)) (by decide)
  rw [unsigned?_of_head? hplus, digits?_toDigits]
  simp [h]

theorem count?_toString {n : ℕ} (h : n ≤ maxCount) : count? (toString n) = some n := by
  rw [count?, Nat.toString_eq_ofList_toDigits, String.toList_ofList]
  exact unsigned?_toDigits h

end Literal

/-! ## Letters as digits -/

/-- The digit that a letter of either case stands for: 1 for `A`, 26 for `Z`. -/
def letterDigit (c : Char) : ℕ := c.toUpper.toNat - 'A'.toNat + 1

/-- The number that letters mean in base 26, with digits from 1 to 26. -/
def letterNumeral (letters : List Char) : ℕ := Nat.ofDigits 26 (letters.reverse.map letterDigit)

theorem letterNumeral_cons (c : Char) (letters : List Char) :
    letterNumeral (c :: letters) =
      letterDigit c * 26 ^ letters.length + letterNumeral letters := by
  simp only [letterNumeral, List.reverse_cons, List.map_append, List.map_singleton,
    Nat.ofDigits_append, Nat.ofDigits_singleton, List.length_map, List.length_reverse]
  ring

theorem letterNumeral_concat (letters : List Char) (c : Char) :
    letterNumeral (letters ++ [c]) = letterNumeral letters * 26 + letterDigit c := by
  simp only [letterNumeral, List.reverse_append, List.reverse_singleton, List.singleton_append,
    List.map_cons, Nat.ofDigits_cons]
  ring

theorem toNat_toUpper (c : Char) :
    c.toUpper.toNat = if 97 ≤ c.toNat ∧ c.toNat ≤ 122 then c.toNat - 32 else c.toNat := by
  have hlower : ('a'.val ≤ c.val ∧ c.val ≤ 'z'.val) ↔ 97 ≤ c.toNat ∧ c.toNat ≤ 122 := Iff.rfl
  rw [Char.toUpper]
  simp only [hlower]
  split_ifs with h
  · have hshift : 'A'.val - 'a'.val = 4294967264 := by decide
    change (c.val + ('A'.val - 'a'.val)).toNat = c.val.toNat - 32
    rw [hshift, UInt32.toNat_add]
    have h' : 97 ≤ c.val.toNat ∧ c.val.toNat ≤ 122 := h
    change (c.val.toNat + 4294967264) % 4294967296 = _
    omega
  · rfl

/-- A letter is one that is between `A` and `Z` in upper case. -/
theorem isAlpha_iff (c : Char) : c.isAlpha = true ↔ 'A' ≤ c.toUpper ∧ c.toUpper ≤ 'Z' := by
  have hle : ∀ a b : Char, a ≤ b ↔ a.toNat ≤ b.toNat := fun _ _ => Iff.rfl
  have hupper : c.isUpper = true ↔ 65 ≤ c.toNat ∧ c.toNat ≤ 90 := by
    rw [Char.isUpper, decide_eq_true_eq]
    rfl
  have hlower : c.isLower = true ↔ 97 ≤ c.toNat ∧ c.toNat ≤ 122 := by
    rw [Char.isLower, Bool.and_eq_true, decide_eq_true_eq, decide_eq_true_eq]
    rfl
  rw [Char.isAlpha, Bool.or_eq_true, hupper, hlower, hle, hle, toNat_toUpper]
  simp only [show 'A'.toNat = 65 from rfl, show 'Z'.toNat = 90 from rfl]
  split_ifs <;> omega

theorem letterValue?_eq (c : Char) :
    letterValue? c = if c.isAlpha then some (letterDigit c) else none := by
  simp only [letterValue?, ← isAlpha_iff]
  rfl

/-- A letter is the letter of its digit, in upper case. -/
theorem columnLetter_letterDigit {c : Char} (h : c.isAlpha = true) :
    columnLetter (letterDigit c - 1) = c.toUpper ∧ letterDigit c - 1 < 26 := by
  obtain ⟨hA, hZ⟩ := (isAlpha_iff c).1 h
  have hA' : 'A'.toNat ≤ c.toUpper.toNat := hA
  have hZ' : c.toUpper.toNat ≤ 'A'.toNat + 25 := hZ
  rw [columnLetter, letterDigit]
  refine ⟨?_, by omega⟩
  rw [show 'A'.toNat + (c.toUpper.toNat - 'A'.toNat + 1 - 1) = c.toUpper.toNat by omega,
    Char.ofNat_toNat]

/-! ## Columns -/

theorem letterValue?_columnLetter {digit : ℕ} (h : digit < 26) :
    letterValue? (columnLetter digit) = some (digit + 1) := by
  have hall : ∀ digit < 26, letterValue? (columnLetter digit) = some (digit + 1) := by decide
  exact hall digit h

theorem columnIndexFrom?_append (index : ℕ) (first second : List Char) :
    columnIndexFrom? index (first ++ second) =
      (columnIndexFrom? index first).bind fun next => columnIndexFrom? next second := by
  induction first generalizing index with
  | nil => rfl
  | cons c rest ih =>
    simp only [List.cons_append, columnIndexFrom?]
    cases letterValue? c with
    | none => rfl
    | some value =>
      simp only [Option.bind_some]
      split_ifs
      · exact ih _
      · rfl

/-- **A column is found under its letters.** -/
theorem columnIndexFrom?_columnLetters {column : ℕ} (h : column ≤ Literal.maxCount) :
    columnIndexFrom? 0 (columnLetters column) = some column := by
  induction column using columnLetters.induct with
  | case1 => rw [columnLetters, if_pos rfl, columnIndexFrom?]
  | case2 column hne ih =>
    have hvalue : (column - 1) / 26 * 26 + ((column - 1) % 26 + 1) = column := by
      have := Nat.div_add_mod (column - 1) 26
      omega
    rw [columnLetters, if_neg hne, columnIndexFrom?_append, ih (by omega), Option.bind_some,
      columnIndexFrom?, letterValue?_columnLetter (Nat.mod_lt _ (by decide)), Option.bind_some,
      hvalue, if_pos h, columnIndexFrom?]

theorem columnIndexOf?_columnLetters {column : ℕ} (hpos : 0 < column)
    (h : column ≤ Literal.maxCount) : columnIndexOf? (columnLetters column) = some column := by
  have hfound := columnIndexFrom?_columnLetters h
  cases hletters : columnLetters column with
  | nil =>
    rw [hletters] at hfound
    exact absurd (Option.some.inj hfound) hpos.ne
  | cons c rest =>
    rw [hletters] at hfound
    exact hfound

theorem exists_columnLetter {column : ℕ} {c : Char} (h : c ∈ columnLetters column) :
    ∃ digit < 26, c = columnLetter digit := by
  induction column using columnLetters.induct with
  | case1 =>
    rw [columnLetters, if_pos rfl] at h
    cases h
  | case2 column hne ih =>
    rw [columnLetters, if_neg hne] at h
    rcases List.mem_append.1 h with h | h
    · exact ih h
    · exact ⟨_, Nat.mod_lt _ (by decide), List.mem_singleton.1 h⟩

/-- **The reader takes letters whose number fits.** -/
theorem columnIndexFrom?_eq_some {letters : List Char} {index n : ℕ}
    (hindex : index ≤ Literal.maxCount) :
    columnIndexFrom? index letters = some n ↔ (∀ c ∈ letters, c.isAlpha = true) ∧
      index * 26 ^ letters.length + letterNumeral letters = n ∧ n ≤ Literal.maxCount := by
  induction letters generalizing index with
  | nil =>
    have hempty : letterNumeral [] = 0 := rfl
    simp only [columnIndexFrom?, Option.some.injEq, List.not_mem_nil, false_implies, implies_true,
      List.length_nil, pow_zero, mul_one, hempty, add_zero, true_and]
    exact ⟨fun h => ⟨h, h ▸ hindex⟩, And.left⟩
  | cons c rest ih =>
    have hvalue : index * 26 ^ (rest.length + 1) + (letterDigit c * 26 ^ rest.length +
        letterNumeral rest) =
        (index * 26 + letterDigit c) * 26 ^ rest.length + letterNumeral rest := by ring
    rw [columnIndexFrom?, letterValue?_eq, List.forall_mem_cons, List.length_cons,
      letterNumeral_cons, hvalue]
    by_cases hc : c.isAlpha = true
    · rw [if_pos hc, Option.bind_some, and_assoc, and_iff_right hc]
      by_cases hnext : index * 26 + letterDigit c ≤ Literal.maxCount
      · rw [if_pos hnext, ih hnext]
      · -- a number that is too great already does not get smaller
        rw [if_neg hnext]
        refine iff_of_false nofun fun ⟨_, hn, hle⟩ => hnext ?_
        calc index * 26 + letterDigit c
            ≤ (index * 26 + letterDigit c) * 26 ^ rest.length :=
              Nat.le_mul_of_pos_right _ (Nat.pow_pos (by decide))
          _ ≤ n := hn ▸ Nat.le_add_right _ _
          _ ≤ Literal.maxCount := hle
    · simp [hc]

theorem columnIndexOf?_eq_some {letters : List Char} {n : ℕ} :
    columnIndexOf? letters = some n ↔ letters ≠ [] ∧ (∀ c ∈ letters, c.isAlpha = true) ∧
      letterNumeral letters = n ∧ n ≤ Literal.maxCount := by
  cases letters with
  | nil => simp [columnIndexOf?]
  | cons c rest =>
    rw [columnIndexOf?, columnIndexFrom?_eq_some (Nat.zero_le _), Nat.zero_mul, Nat.zero_add]
    simp

/-- **The number of letters has them as its own, in upper case.** -/
theorem columnLetters_letterNumeral {letters : List Char} (h : ∀ c ∈ letters, c.isAlpha = true) :
    columnLetters (letterNumeral letters) = letters.map Char.toUpper := by
  induction letters using List.reverseRecOn with
  | nil => rw [columnLetters, if_pos (by rfl), List.map_nil]
  | append_singleton front c ih =>
    obtain ⟨hfront, hlast⟩ := List.forall_mem_append.1 h
    obtain ⟨hletter, hlt⟩ := columnLetter_letterDigit (hlast c (List.mem_singleton_self c))
    have hpos : 0 < letterDigit c := Nat.succ_pos _
    have hpred : letterNumeral (front ++ [c]) - 1 =
        26 * letterNumeral front + (letterDigit c - 1) := by
      rw [letterNumeral_concat]
      omega
    rw [columnLetters, if_neg (by rw [letterNumeral_concat]; omega), hpred,
      Nat.mul_add_div (by decide), Nat.mul_add_mod, Nat.div_eq_of_lt hlt, Nat.mod_eq_of_lt hlt,
      Nat.add_zero, ih hfront, hletter, List.map_append, List.map_singleton]

/-- **Names and numbers of columns are in bijection.** A column from 1 on is found under its name. A
text names a column exactly if it consists of letters of either case whose number in base 26, with
digits from 1 to 26, is the column and fits 64 bits; the column's own name is then the text in upper
case. -/
theorem columns_bijective (letters : String) (column : ℕ) :
    (0 < column → column ≤ Literal.maxCount → columnIndex? (columnName column) = some column) ∧
    (columnIndex? letters = some column ↔
      letters.toList ≠ [] ∧ (∀ c ∈ letters.toList, c.isAlpha = true) ∧
        letterNumeral letters.toList = column ∧ column ≤ Literal.maxCount) ∧
    (columnIndex? letters = some column → columnName column = letters.toUpper) := by
  refine ⟨fun hpos hle => ?_, columnIndexOf?_eq_some, fun h => ?_⟩
  · rw [columnIndex?, columnName, String.toList_ofList]
    exact columnIndexOf?_columnLetters hpos hle
  · obtain ⟨-, hletters, rfl, -⟩ := columnIndexOf?_eq_some.1 h
    rw [columnName, columnLetters_letterNumeral hletters, String.toUpper, ← String.toList_map,
      String.ofList_toList]

/-- The last column of 64 bits. -/
theorem columns_bijective_last :
    columnIndex? "gkgwbyLWRXTLPO" = some 18446744073709551615 ∧
    columnName 18446744073709551615 = "gkgwbyLWRXTLPO".toUpper ∧
    columnIndex? (columnName 18446744073709551615) = some 18446744073709551615 := by
  have hread : columnIndex? "gkgwbyLWRXTLPO" = some 18446744073709551615 := by decide
  obtain ⟨hfound, -, hname⟩ := columns_bijective "gkgwbyLWRXTLPO" 18446744073709551615
  exact ⟨hread, hname hread, hfound (by decide) (by decide)⟩

/-! ## References -/

namespace Reference

variable {row column : ℕ}

theorem toList_render (row column : ℕ) :
    (render row column).toList = columnLetters column ++ Nat.toDigits 10 row := by
  rw [render, columnName, Nat.toString_eq_ofList_toDigits, String.toList_append,
    String.toList_ofList, String.toList_ofList]

/-- A reference consists of letters and digits. -/
theorem isAlphanum_of_mem_render {c : Char} (h : c ∈ (render row column).toList) :
    c.isAlphanum = true := by
  rw [toList_render] at h
  rcases List.mem_append.1 h with h | h
  · obtain ⟨digit, hdigit, rfl⟩ := exists_columnLetter h
    have hall : ∀ digit < 26, (columnLetter digit).isAlphanum = true := by decide
    exact hall digit hdigit
  · rw [Char.isAlphanum, Literal.isDigit_of_mem_toDigits c h, Bool.or_true]

/-- The digits are split off a text that begins without them. -/
theorem span_of_digits {letters digits : List Char} (hletters : ∀ c ∈ letters, c.isDigit = false)
    (hdigits : ∀ c ∈ digits, c.isDigit = true) :
    (letters ++ digits).span (!·.isDigit) = (letters, digits) := by
  have hbefore : ∀ c ∈ letters, (!c.isDigit) = true := fun c hc => by rw [hletters c hc]; rfl
  rw [List.span_eq_takeWhile_dropWhile, List.takeWhile_append_of_pos hbefore,
    List.dropWhile_append_of_pos hbefore]
  cases digits with
  | nil => simp
  | cons c rest => simp [hdigits c List.mem_cons_self]

theorem isDigit_of_isAlpha {c : Char} (h : c.isAlpha = true) : c.isDigit = false := by
  simp only [Char.isAlpha, Char.isUpper, Char.isLower, Bool.or_eq_true, Bool.and_eq_true,
    decide_eq_true_eq] at h
  rw [Bool.eq_false_iff]
  intro hdigit
  simp only [Char.isDigit, Bool.and_eq_true, decide_eq_true_eq] at hdigit
  -- the digits end before the letters of both cases
  rcases h with ⟨hupper, -⟩ | ⟨hlower, -⟩
  · exact absurd (UInt32.le_trans hupper hdigit.2) (by decide)
  · exact absurd (UInt32.le_trans hlower hdigit.2) (by decide)

/-- A text is a reference of a position: without its dollar signs, it consists of the letters of the
column, in either case, and the decimal digits of the row. -/
def Names (reference : String) (row column : ℕ) : Prop :=
  ∃ letters digits : List Char, reference.toList.filter (· != '$') = letters ++ digits ∧
    (letters ≠ [] ∧ (∀ c ∈ letters, c.isAlpha = true) ∧ letterNumeral letters = column) ∧
    (digits ≠ [] ∧ (∀ c ∈ digits, c.isDigit = true) ∧ Literal.decimal digits = row)

/-- What is read from the two parts of a reference. -/
theorem read_eq_some {letters digits : List Char} (hdigits : digits.head? ≠ some '+') :
    ((columnIndexOf? letters).bind fun column =>
      ((Literal.unsigned? 10 Literal.maxCount digits).filter (0 < ·)).map
        fun row => (row, column)) = some (row, column) ↔
      ((letters ≠ [] ∧ (∀ c ∈ letters, c.isAlpha = true) ∧ letterNumeral letters = column) ∧
        (digits ≠ [] ∧ (∀ c ∈ digits, c.isDigit = true) ∧ Literal.decimal digits = row)) ∧
      0 < row ∧ row ≤ Literal.maxCount ∧ column ≤ Literal.maxCount := by
  simp only [Option.bind_eq_some_iff, Option.map_eq_some_iff, Option.filter_eq_some_iff,
    columnIndexOf?_eq_some, Literal.unsigned?_eq_some hdigits, decide_eq_true_eq, Prod.mk.injEq]
  constructor
  · rintro ⟨_, ⟨hne, hletters, hcolumn, hle⟩, _, ⟨⟨hne', hall, hrow, hle'⟩, hpos⟩, rfl, rfl⟩
    exact ⟨⟨⟨hne, hletters, hcolumn⟩, hne', hall, hrow⟩, hpos, hle', hle⟩
  · rintro ⟨⟨⟨hne, hletters, hcolumn⟩, hne', hall, hrow⟩, hpos, hle', hle⟩
    exact ⟨column, ⟨hne, hletters, hcolumn, hle⟩, row, ⟨⟨hne', hall, hrow, hle'⟩, hpos⟩, rfl, rfl⟩

/-- **The positions that are read are those of the references**, from the first row on. -/
theorem parse?_eq_some {reference : String} :
    parse? reference = some (row, column) ↔ Names reference row column ∧
      0 < row ∧ row ≤ Literal.maxCount ∧ column ≤ Literal.maxCount := by
  constructor
  · intro h
    have hhead : ((reference.toList.filter (· != '$')).dropWhile (!·.isDigit)).head? ≠
        some '+' := by
      -- what is left after the characters that are no digits begins with a digit
      intro hplus
      have hdigit := List.head?_dropWhile_not (!·.isDigit) (reference.toList.filter (· != '$'))
      rw [hplus] at hdigit
      exact absurd hdigit (by decide)
    rw [parse?, List.span_eq_takeWhile_dropWhile] at h
    obtain ⟨hparts, hrange⟩ := (read_eq_some hhead).1 h
    exact ⟨⟨_, _, List.takeWhile_append_dropWhile.symm, hparts⟩, hrange⟩
  · rintro ⟨⟨letters, digits, htext, hletters, hdigits⟩, hrange⟩
    have hhead : digits.head? ≠ some '+' := fun hplus =>
      absurd (hdigits.2.1 _ (List.mem_of_mem_head? hplus)) (by decide)
    have hbefore : ∀ c ∈ letters, c.isDigit = false := fun c hc =>
      isDigit_of_isAlpha (hletters.2.1 c hc)
    rw [parse?, htext, span_of_digits hbefore hdigits.2.1]
    exact (read_eq_some hhead).2 ⟨⟨hletters, hdigits⟩, hrange⟩

theorem names_render (hcolumn : 0 < column) (hcolumn' : column ≤ Literal.maxCount) :
    Names (render row column) row column := by
  have hplain : (render row column).toList.filter (· != '$') =
      columnLetters column ++ Nat.toDigits 10 row := by
    rw [← toList_render]
    refine List.filter_eq_self.2 fun c hc => ?_
    have halpha := isAlphanum_of_mem_render hc
    rw [bne_iff_ne]
    rintro rfl
    exact absurd halpha (by decide)
  obtain ⟨hne, hletters, hvalue, -⟩ :=
    columnIndexOf?_eq_some.1 (columnIndexOf?_columnLetters hcolumn hcolumn')
  obtain ⟨hne', hdigits, hrow⟩ := Literal.digits?_eq_some.1 (Literal.digits?_toDigits row)
  exact ⟨_, _, hplain, ⟨hne, hletters, hvalue⟩, hne', hdigits, hrow.symm⟩

/-- **A position is found under its reference.** -/
theorem parse?_render (hrow : 0 < row) (hcolumn : 0 < column) (hrow' : row ≤ Literal.maxCount)
    (hcolumn' : column ≤ Literal.maxCount) :
    parse? (render row column) = some (row, column) :=
  parse?_eq_some.2 ⟨names_render hcolumn hcolumn', hrow, hrow', hcolumn'⟩

/-- **Exactly the references are read, with the positions that they name.** A text is read as a
position exactly if, without its dollar signs, it consists of letters of either case with the number
of the column and of decimal digits with the number of the row, where the row starts at 1 and both
fit 64 bits; and a position is read from its own reference. -/
theorem parse?_iff_names (reference : String) (row column : ℕ) :
    (parse? reference = some (row, column) ↔ Names reference row column ∧
      1 ≤ row ∧ row ≤ Literal.maxCount ∧ column ≤ Literal.maxCount) ∧
    (1 ≤ row → row ≤ Literal.maxCount → 1 ≤ column → column ≤ Literal.maxCount →
      parse? (render row column) = some (row, column)) :=
  ⟨parse?_eq_some, fun hrow hrow' hcolumn hcolumn' => parse?_render hrow hcolumn hrow' hcolumn'⟩

/-- A reference with dollar signs, a small letter and leading zeros. -/
theorem parse?_iff_names_dollars :
    Names "$aA$0010$" 10 27 ∧ parse? "$aA$0010$" = some (10, 27) ∧
    parse? (render 18446744073709551615 27) = some (18446744073709551615, 27) := by
  have hread : parse? "$aA$0010$" = some (10, 27) := by decide
  exact ⟨((parse?_iff_names "$aA$0010$" 10 27).1.1 hread).1, hread,
    (parse?_iff_names "" 18446744073709551615 27).2 (by decide) (by decide) (by decide) (by decide)⟩

end Reference

end TableExport
