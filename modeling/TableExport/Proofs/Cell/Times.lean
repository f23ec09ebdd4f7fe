import TableExport.Proofs.Numeric.Rounding
import TableExport.Proofs.Results
import TableExport.Cell.Basic

/-!
# Clock times

The time of a serial number is the fraction of a day in milliseconds, rounded. The fraction is below
1, but rounding can make a whole day of it: then the time is shown as `24:00:00`. All other times
are clock times (`Cell.display_clock`).

* `milliseconds_le`: the milliseconds of a fraction are at most those of a day.
* `clockText_eq`: how the fields of a time are written.
-/

namespace TableExport

/-! ## Digits of a width -/

namespace Date

/-- The last digits of a number, as many as a width. -/
def fixedDigits : ℕ → ℕ → List Char
  | 0, _ => []
  | width + 1, n => fixedDigits width (n / 10) ++ [Nat.digitChar (n % 10)]

theorem fixedDigits_zero (width : ℕ) : fixedDigits width 0 = List.replicate width '0' := by
  induction width with
  | zero => rfl
  | succ width ih =>
    rw [fixedDigits, Nat.zero_div, ih, Nat.zero_mod, List.replicate_succ']
    rfl

/-- A number that is short enough is written with its digits and zeros in front of them. -/
theorem toList_padded (width n : ℕ) (hwidth : 0 < width) (hn : n < 10 ^ width) :
    (padded width n).toList = fixedDigits width n := by
  rw [padded, String.toList_ofList]
  induction width generalizing n with
  | zero => omega
  | succ width ih =>
    rw [fixedDigits, Nat.toDigits_eq_if (by decide)]
    by_cases hlt : n < 10
    · rw [if_pos hlt, Nat.div_eq_of_lt hlt, Nat.mod_eq_of_lt hlt, fixedDigits_zero]
      rfl
    · have hpos : 0 < width := by
        rcases Nat.eq_zero_or_pos width with rfl | hpos
        · omega
        · exact hpos
      rw [if_neg hlt, List.length_append, List.length_singleton, Nat.add_sub_add_right,
        ← List.append_assoc, ih (n / 10) hpos]
      rw [Nat.div_lt_iff_lt_mul (by decide), ← Nat.pow_succ]
      exact hn

end Date

namespace Serial

open Binary64 Date

/-! ## Milliseconds -/

/-- The numerator of a magnitude within a bound. -/
theorem ratio_le {mantissa bound : ℕ} {exponent : ℤ} (h : magnitude mantissa exponent ≤ bound) :
    (ratio mantissa exponent).1 ≤ bound * (ratio mantissa exponent).2 := by
  have hden : (0 : ℚ) < (ratio mantissa exponent).2 := by exact_mod_cast ratio_snd_pos _ _
  rw [← ratio_eq, div_le_iff₀ hden] at h
  exact_mod_cast h

/-- A fraction of a day has at most the milliseconds of a day. -/
theorem milliseconds_le (mantissa : ℕ) (exponent : ℤ) :
    ∃ count : ℕ, milliseconds (.finite false mantissa exponent) = count ∧
      count ≤ millisecondsPerDay := by
  have hden := ratio_snd_pos mantissa exponent
  have hmod := Nat.mod_lt (ratio mantissa exponent).1 hden
  obtain ⟨m₁, e₁, hfraction, hle₁⟩ := exists_ofRatio_le false 1 1 hden
    (show (ratio mantissa exponent).1 % (ratio mantissa exponent).2 ≤ _ by omega) (by omega)
    (by decide) (by decide)
  have hday : ofNat millisecondsPerDay = .finite false 5798205849600000 (-26) := by decide
  have hnum : (ratio m₁ e₁).1 * (ratio 5798205849600000 (-26)).1 ≤
      millisecondsPerDay * ((ratio m₁ e₁).2 * (ratio 5798205849600000 (-26)).2) := by
    have hone := ratio_le hle₁
    have hunits : (ratio 5798205849600000 (-26)).1 =
        millisecondsPerDay * (ratio 5798205849600000 (-26)).2 := by decide
    rw [hunits]
    calc (ratio m₁ e₁).1 * (millisecondsPerDay * (ratio 5798205849600000 (-26)).2)
        ≤ 1 * (ratio m₁ e₁).2 * (millisecondsPerDay * (ratio 5798205849600000 (-26)).2) :=
          Nat.mul_le_mul_right _ hone
      _ = millisecondsPerDay * ((ratio m₁ e₁).2 * (ratio 5798205849600000 (-26)).2) := by ring
  have hden' : 0 < (ratio m₁ e₁).2 * (ratio 5798205849600000 (-26)).2 :=
    Nat.mul_pos (ratio_snd_pos _ _) (ratio_snd_pos _ _)
  obtain ⟨m₂, e₂, hproduct, hle₂⟩ := exists_ofRatio_le false millisecondsPerDay 27 hden' hnum
    (hnum.trans_lt (Nat.mul_lt_mul_of_pos_right (by decide) hden')) (by decide) (by decide)
  refine ⟨(2 * (ratio m₂ e₂).1 + (ratio m₂ e₂).2) / (2 * (ratio m₂ e₂).2), ?_, ?_⟩
  · rw [milliseconds, fraction_finite, hfraction, hday, mul_finite, bne_self_eq_false, hproduct,
      rounded_finite, Option.getD_some, withSign, if_neg Bool.false_ne_true]
  · have hbound := ratio_le hle₂
    have hpos := ratio_snd_pos m₂ e₂
    refine Nat.le_of_lt_succ ((Nat.div_lt_iff_lt_mul (by omega)).2 ?_)
    nlinarith

theorem exists_milliseconds {number : Binary64} (hfinite : number.isFinite = true)
    (hnonneg : 0 ≤ number.toRat) :
    ∃ count : ℕ, milliseconds number = count ∧ count ≤ millisecondsPerDay := by
  cases number with
  | infinite => cases hfinite
  | nan => cases hfinite
  | finite negative mantissa exponent =>
    cases negative with
    | false => exact milliseconds_le mantissa exponent
    | true =>
      -- a zero with a minus sign
      have hmantissa : mantissa = 0 := by
        have hzero : magnitude mantissa exponent = 0 :=
          le_antisymm (neg_nonneg.1 hnonneg) (magnitude_nonneg _ _)
        simpa [magnitude, zpow_ne_zero] using hzero
      have hratio : (ratio 0 exponent).1 = 0 := by
        rw [ratio]
        split <;> simp
      have hfraction : (Binary64.finite true 0 exponent).fraction = zero true := by
        rw [fraction_finite, hratio, Nat.zero_mod, ofRatio, if_pos rfl]
      refine ⟨0, ?_, Nat.zero_le _⟩
      rw [hmantissa, milliseconds, hfraction]
      decide +kernel

/-! ## Texts of times -/

/-- A clock time: hours, minutes and seconds of two digits each, and milliseconds of three digits if
there are any. -/
inductive ClockTime : List Char → Prop
  | seconds {hour minute second : ℕ} : hour ≤ 23 → minute ≤ 59 → second ≤ 59 →
    ClockTime (fixedDigits 2 hour ++ ':' :: fixedDigits 2 minute ++ ':' :: fixedDigits 2 second)
  | milliseconds {hour minute second millis : ℕ} : hour ≤ 23 → minute ≤ 59 → second ≤ 59 →
    millis ≤ 999 →
    ClockTime (fixedDigits 2 hour ++ ':' :: fixedDigits 2 minute ++ ':' :: fixedDigits 2 second ++
      '.' :: fixedDigits 3 millis)

theorem paddedInt_natCast (width n : ℕ) : paddedInt width (n : ℤ) = padded width n := by
  rw [paddedInt, if_neg (not_lt.2 (Int.natCast_nonneg n)), Int.natAbs_natCast]

/-- The fields of the time of a number of milliseconds. -/
theorem clockText_eq (count : ℕ) :
    clockText count =
      let clock := padded 2 (count / 1000 / 60 / 60) ++ ":" ++ padded 2 (count / 1000 / 60 % 60) ++
        ":" ++ padded 2 (count / 1000 % 60)
      if 0 < count % 1000 then clock ++ "." ++ padded 3 (count % 1000) else clock := by
  have h1000 : (1000 : ℤ) = (1000 : ℕ) := rfl
  have h60 : (60 : ℤ) = (60 : ℕ) := rfl
  simp only [clockText, h1000, h60, ← Int.ofNat_tdiv, ← Int.ofNat_tmod, paddedInt_natCast]
  simp only [Int.natCast_pos]

/-- The milliseconds of less than a day make a clock time. -/
theorem clockTime_of_lt {count : ℕ} (h : count < millisecondsPerDay) :
    ClockTime (clockText count).toList := by
  rw [millisecondsPerDay] at h
  rw [clockText_eq]
  simp only
  split_ifs with hmillis
  · simp only [String.toList_append,
      toList_padded 2 (count / 1000 / 60 / 60) (by decide) (by omega),
      toList_padded 2 (count / 1000 / 60 % 60) (by decide) (by omega),
      toList_padded 2 (count / 1000 % 60) (by decide) (by omega),
      toList_padded 3 (count % 1000) (by decide) (by omega)]
    have hclock : ClockTime (fixedDigits 2 (count / 1000 / 60 / 60) ++ ':' ::
        fixedDigits 2 (count / 1000 / 60 % 60) ++ ':' :: fixedDigits 2 (count / 1000 % 60) ++
        '.' :: fixedDigits 3 (count % 1000)) :=
      .milliseconds (by omega) (by omega) (by omega) (by omega)
    simpa using hclock
  · simp only [String.toList_append,
      toList_padded 2 (count / 1000 / 60 / 60) (by decide) (by omega),
      toList_padded 2 (count / 1000 / 60 % 60) (by decide) (by omega),
      toList_padded 2 (count / 1000 % 60) (by decide) (by omega)]
    have hclock : ClockTime (fixedDigits 2 (count / 1000 / 60 / 60) ++ ':' ::
        fixedDigits 2 (count / 1000 / 60 % 60) ++ ':' :: fixedDigits 2 (count / 1000 % 60)) :=
      .seconds (by omega) (by omega) (by omega)
    simpa using hclock

/-- The time of a serial number that is not negative is a clock time, or that of a whole day. -/
theorem timeText_eq_some {value : String} {number : Binary64}
    (hvalue : Literal.double? value = some number) (hfinite : number.isFinite = true)
    (hnonneg : 0 ≤ number.toRat) :
    ∃ time, timeText value = some time ∧
      (milliseconds number < millisecondsPerDay ∧ ClockTime time.toList ∨
        milliseconds number = millisecondsPerDay ∧ time = "24:00:00") := by
  obtain ⟨count, hcount, hle⟩ := exists_milliseconds hfinite hnonneg
  refine ⟨clockText count, by rw [timeText, hvalue, Option.map_some, hcount], ?_⟩
  rw [hcount]
  rcases hle.lt_or_eq with hlt | rfl
  · exact Or.inl ⟨by exact_mod_cast hlt, clockTime_of_lt hlt⟩
  · exact Or.inr ⟨rfl, by decide⟩

end Serial

namespace Cell

open Serial

/-- **Times are shown as clock times, or as a whole day.** A cell with a time shows the time of its
number; a cell with a date and a time shows both, or what it stores if the calendar has no such
date. The time is a clock time unless the milliseconds of the fraction round to those of a whole
day. -/
theorem display_clock {cell : Cell} {part : SerialPart} {system : DateSystem} {number : Binary64}
    (hkind : cell.kind = .serial part system) (hpart : part ≠ .date)
    (hvalue : Literal.double? cell.value = some number) (hfinite : number.isFinite = true)
    (hnonneg : 0 ≤ number.toRat) {text : String} (htext : cell.display = .ok text) :
    (part = .dateTime ∧ dateText cell.value system = .ok none ∧ text = cell.value) ∨
      ∃ time, (milliseconds number < millisecondsPerDay ∧ ClockTime time.toList ∨
          milliseconds number = millisecondsPerDay ∧ time = "24:00:00") ∧
        (part = .time ∧ text = time ∨
          part = .dateTime ∧ ∃ date, dateText cell.value system = .ok (some date) ∧
            text = date ++ " " ++ time) := by
  obtain ⟨time, htime, hclock⟩ := timeText_eq_some hvalue hfinite hnonneg
  rw [display, hkind] at htext
  cases part with
  | date => exact absurd rfl hpart
  | time =>
    rw [htime] at htext
    exact Or.inr ⟨time, hclock, Or.inl ⟨rfl, (Except.ok.inj htext).symm⟩⟩
  | dateTime =>
    obtain ⟨shown, hshown, rfl⟩ := map_eq_ok.1 htext
    obtain ⟨date, hdate, rfl⟩ := map_eq_ok.1 hshown
    cases date with
    | none => exact Or.inl ⟨rfl, hdate, rfl⟩
    | some date =>
      refine Or.inr ⟨time, hclock, Or.inr ⟨rfl, date, hdate, ?_⟩⟩
      rw [Option.bind_some, htime, Option.map_some, Option.getD_some]

/-- A cell with a date and a time. -/
def ofDateTime (text : String) : Cell := ⟨2, 1, .serial .dateTime .from1900, text⟩

/-- The last millisecond of a day. -/
theorem display_clock_evening :
    Literal.double? "45292.99999999" = some (.finite false 6225022519605922 (-37)) ∧
    (ofDateTime "45292.99999999").display = .ok "2024-01-01 23:59:59.999" ∧
    ∃ date time, ClockTime time.toList ∧ "2024-01-01 23:59:59.999" = date ++ " " ++ time := by
  have hvalue : Literal.double? "45292.99999999" = some (.finite false 6225022519605922 (-37)) := by
    decide +kernel
  have hdisplay : (ofDateTime "45292.99999999").display = .ok "2024-01-01 23:59:59.999" := by
    decide +kernel
  refine ⟨hvalue, hdisplay, ?_⟩
  have hkind : (ofDateTime "45292.99999999").kind = .serial .dateTime .from1900 := rfl
  rcases display_clock hkind nofun hvalue rfl (Binary64.magnitude_nonneg _ _) hdisplay with
    ⟨-, -, hstored⟩ | ⟨time, hclock, hshown⟩
  · exact absurd hstored (by decide)
  · rcases hclock with ⟨-, hclock⟩ | ⟨hday, -⟩
    · rcases hshown with ⟨hpart, -⟩ | ⟨-, date, -, htext⟩
      · cases hpart
      · exact ⟨date, time, hclock, htext⟩
    · exact absurd hday (by decide +kernel)

/-- **A time that rounds to a whole day has an hour that no clock shows.** -/
theorem display_wholeDay :
    Literal.double? "0.999999999" = some (.finite false 9007199245733793 (-53)) ∧
    (⟨2, 1, .serial .time .from1900, "0.999999999"⟩ : Cell).display = .ok "24:00:00" ∧
    ¬ ClockTime "24:00:00".toList := by
  refine ⟨by decide +kernel, by decide +kernel, fun h => ?_⟩
  have hhour : ∀ hour ≤ 23, Date.fixedDigits 2 hour ≠ ['2', '4'] := by decide +kernel
  have htake : ∀ (hour : ℕ) (rest : List Char), Date.fixedDigits 2 hour ++ rest =
      "24:00:00".toList → Date.fixedDigits 2 hour = ['2', '4'] := by
    intro hour rest heq
    exact congrArg (List.take 2) heq
  generalize hchars : "24:00:00".toList = chars at h
  cases h with
  | seconds hle =>
    rw [List.append_assoc] at hchars
    exact hhour _ hle (htake _ _ hchars.symm)
  | milliseconds hle =>
    rw [List.append_assoc, List.append_assoc] at hchars
    exact hhour _ hle (htake _ _ hchars.symm)

end Cell

end TableExport
