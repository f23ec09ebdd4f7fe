import TableExport.Proofs.Calendar
import TableExport.Proofs.Cell.Times
import TableExport.Proofs.Reference

/-!
# Dates of whole days

A cell with a date that stores a whole day shows the day's date of the calendar
(`Cell.showsDate_dateOf`), and its text tells the date (`Cell.ShowsDate.unique`). The dates are in
the order of the days: in the days from 1904 one day more is the next day of the calendar, and in
those from 1900, too, except for the day 60, which shows the same date as the day before it. Both
systems show the same dates, 1462 days apart (`Cell.dates_of_days`).
-/

namespace TableExport

/-! ## Texts of dates -/

namespace Date

variable {first second date : Date}

theorem decimal_padded (width n : ℕ) : Literal.decimal (padded width n).toList = n := by
  obtain ⟨-, -, hvalue⟩ := Literal.digits?_eq_some.1 (Literal.digits?_toDigits n)
  rw [padded, String.toList_ofList]
  induction width - (Nat.toDigits 10 n).length with
  | zero => exact hvalue.symm
  | succ zeros ih =>
    rw [List.replicate_succ, List.cons_append, Literal.decimal_cons, ih]
    simp

theorem isDigit_of_mem_padded {width n : ℕ} {c : Char} (h : c ∈ (padded width n).toList) :
    c.isDigit = true := by
  rw [padded, String.toList_ofList, List.mem_append] at h
  rcases h with h | h
  · rw [List.eq_of_mem_replicate h]
    rfl
  · exact Literal.isDigit_of_mem_toDigits c h

theorem length_padded_two {n : ℕ} (h : n < 100) : (padded 2 n).toList.length = 2 := by
  rw [toList_padded 2 n (by decide) h]
  simp [fixedDigits]

/-- The digits of the text of a year. -/
theorem decimal_renderYear (year : ℤ) :
    Literal.decimal ((renderYear year).toList.filter Char.isDigit) = year.natAbs := by
  have hdigits : (padded 4 year.natAbs).toList.filter Char.isDigit =
      (padded 4 year.natAbs).toList :=
    List.filter_eq_self.2 fun _ => isDigit_of_mem_padded
  have hsign : (renderYear year).toList.filter Char.isDigit = (padded 4 year.natAbs).toList := by
    rw [renderYear]
    split_ifs <;> simp [String.toList_append, hdigits]
  rw [hsign, decimal_padded]

/-- Only a year before the year 0 has a minus sign. -/
theorem minus_mem_renderYear (year : ℤ) : '-' ∈ (renderYear year).toList ↔ year < 0 := by
  have hdigits : '-' ∉ (padded 4 year.natAbs).toList := fun h =>
    absurd (isDigit_of_mem_padded h) (by decide)
  rw [renderYear]
  split_ifs <;> simp [String.toList_append, *]

theorem renderYear_injective {year other : ℤ} (h : renderYear year = renderYear other) :
    year = other := by
  have habs : year.natAbs = other.natAbs := by rw [← decimal_renderYear, h, decimal_renderYear]
  have hsign : year < 0 ↔ other < 0 := by rw [← minus_mem_renderYear, h, minus_mem_renderYear]
  omega

theorem toList_render (date : Date) : date.render.toList = (renderYear date.year).toList ++
    '-' :: ((padded 2 date.month).toList ++ '-' :: (padded 2 date.day).toList) := by
  simp [render, String.toList_append]

theorem IsValid.month_lt (h : date.IsValid) : date.month < 100 :=
  h.month_le.trans_lt (by decide)

theorem IsValid.day_lt (h : date.IsValid) : date.day < 100 := by
  refine h.day_le.trans_lt ?_
  rw [daysInMonth, monthLength]
  split_ifs <;> decide

/-- **The text of a date tells the date.** -/
theorem render_injective (hfirst : first.IsValid) (hsecond : second.IsValid)
    (h : first.render = second.render) : first = second := by
  have hmonth := length_padded_two hfirst.month_lt
  have hmonth' := length_padded_two hsecond.month_lt
  have hday := length_padded_two hfirst.day_lt
  have hday' := length_padded_two hsecond.day_lt
  have hlist := congrArg String.toList h
  rw [toList_render, toList_render] at hlist
  obtain ⟨hyear, hrest⟩ := List.append_inj' hlist (by simp [hmonth, hmonth', hday, hday'])
  obtain ⟨hmonths, hdays⟩ :=
    List.append_inj ((List.cons_inj_right _).1 hrest) (by rw [hmonth, hmonth'])
  have hmonth_eq : first.month = second.month := by
    rw [← decimal_padded 2 first.month, hmonths, decimal_padded]
  have hday_eq : first.day = second.day := by
    rw [← decimal_padded 2 first.day, (List.cons_inj_right _).1 hdays, decimal_padded]
  have hyear_eq := renderYear_injective (String.toList_inj.1 hyear)
  cases first
  cases second
  simp_all

theorem blank_not_mem_render (date : Date) : ' ' ∉ date.render.toList := by
  have hdigits : ∀ width n, ' ' ∉ (padded width n).toList := fun width n h =>
    absurd (isDigit_of_mem_padded h) (by decide)
  rw [toList_render, renderYear]
  split_ifs <;> simp [String.toList_append, hdigits]

end Date

/-! ## Whole days -/

namespace Serial

open Binary64

variable {number : Binary64} {day : ℤ} {system : DateSystem} {value : String}

/-- The date of a day. -/
def dateOf (day : ℤ) (system : DateSystem) : Date :=
  Date.ofDayNumber (epoch + (day + dayOffset day system))

/-- A whole day that fits 64 bits is counted as it is. -/
theorem toInt64_eq (hfinite : number.isFinite = true) (hday : number.toRat = day)
    (hlt : |day| < 2 ^ 53) : number.toInt64 = day := by
  obtain ⟨hlower, hupper⟩ := abs_lt.1 hlt
  have htruncated : number.truncated = some day := by
    rw [truncated_eq hfinite, hday, towardZero]
    simp
  cases number with
  | infinite => cases hfinite
  | nan => cases hfinite
  | finite negative mantissa exponent =>
    have hmin : minInteger ≤ day := by
      simp only [minInteger, Nat.pow_eq]
      omega
    have hmax : day ≤ maxInteger := by
      simp only [maxInteger, Nat.pow_eq]
      omega
    simp only [toInt64, htruncated, Option.getD_some, if_neg (not_lt.2 hmin),
      if_neg (not_lt.2 hmax)]

theorem dateText_eq (hvalue : Literal.double? value = some number)
    (hfinite : number.isFinite = true) (hday : number.toRat = day) (hlt : |day| < 2 ^ 53)
    (hrange : (dateOf day system).InRange) :
    dateText value system = .ok (some (dateOf day system).render) := by
  have hdays := Date.natAbs_le_of_inRange hrange
  simp only [dateText, hvalue, toInt64_eq hfinite hday hlt, date?]
  rw [if_neg (by simp only [epoch, maxDays] at hdays ⊢; omega)]
  change Except.ok
    ((if (dateOf day system).InRange then some (dateOf day system) else none).map _) = _
  rw [if_pos hrange, Option.map_some]

theorem dateOf_mono {first second : ℤ} (h : first ≤ second) :
    dateOf first system ≤ dateOf second system := by
  refine Date.monotone_ofDayNumber ?_
  cases system <;> simp only [dayOffset]
  · split_ifs <;> omega
  · omega

/-- **A day more is the next day of the calendar**, except for the day 60 that never was. -/
theorem dateOf_add_one (day : ℤ) (system : DateSystem) : dateOf (day + 1) system =
    if system = .from1900 ∧ day = 59 then dateOf day system else (dateOf day system).next := by
  have hoffset : epoch + (day + 1 + dayOffset (day + 1) system) =
      if system = .from1900 ∧ day = 59 then epoch + (day + dayOffset day system)
      else epoch + (day + dayOffset day system) + 1 := by
    cases system
    · simp only [dayOffset, true_and]
      split_ifs <;> omega
    · simp only [dayOffset, reduceCtorEq, false_and, if_false]
      omega
  rw [dateOf, dateOf, hoffset]
  split_ifs
  · rfl
  · exact Date.ofDayNumber_add_one _

/-- Both systems have the same dates. -/
theorem dateOf_from1904 (h : -1402 ≤ day) :
    dateOf day .from1904 = dateOf (day + 1462) .from1900 := by
  simp only [dateOf, dayOffset, if_neg (by omega : ¬ day + 1462 < 60), add_zero]

example : dateOf 0 .from1904 = ⟨1904, 1, 1⟩ ∧ dateOf 1462 .from1900 = ⟨1904, 1, 1⟩ := by decide

end Serial

/-! ## Dates that cells show -/

namespace Cell

open Serial

variable {cell other : Cell} {date shown : Date} {system : DateSystem} {day : ℤ}

/-- A cell with a date, alone or with a time, that stores a whole day. -/
structure HoldsDay (cell : Cell) (system : DateSystem) (day : ℤ) : Prop where
  kind : ∃ part, part ≠ .time ∧ cell.kind = .serial part system
  value : ∃ number, Literal.double? cell.value = some number ∧ number.isFinite = true ∧
    number.toRat = day

/-- A cell shows a date of the calendar: its text is that of the date, alone or in front of a
time. -/
def ShowsDate (cell : Cell) (date : Date) : Prop :=
  date.IsValid ∧ ∃ text, cell.display = .ok text ∧
    (text = date.render ∨ ∃ time, text = date.render ++ " " ++ time)

/-- A whole day can be stored as an integer literal. -/
theorem holdsDay_of_literal {part : SerialPart} {row column : ℕ} {text : String}
    (hpart : part ≠ .time) (h : Literal.IntegerLiteral text.toList day) (hlt : |day| < 2 ^ 53) :
    HoldsDay ⟨row, column, .serial part system, text⟩ system day :=
  ⟨⟨part, hpart, rfl⟩, Literal.exists_double_eq h hlt⟩

/-- **A cell shows one date only.** -/
theorem ShowsDate.unique (h : cell.ShowsDate date) (h' : cell.ShowsDate shown) : date = shown := by
  have hfront : ∀ {date : Date} {text : String},
      (text = date.render ∨ ∃ time, text = date.render ++ " " ++ time) →
      text.toList.takeWhile (· != ' ') = date.render.toList := by
    intro date text htext
    have hblank : ∀ c ∈ date.render.toList, (c != ' ') = true := fun c hc =>
      bne_iff_ne.2 fun heq => Date.blank_not_mem_render date (heq ▸ hc)
    rcases htext with rfl | ⟨time, rfl⟩
    · exact List.takeWhile_eq_self_iff.2 hblank
    · rw [String.toList_append, String.toList_append, List.append_assoc,
        List.takeWhile_append_of_pos hblank]
      simp
  obtain ⟨hvalid, text, htext, hdate⟩ := h
  obtain ⟨hvalid', text', htext', hdate'⟩ := h'
  rw [htext] at htext'
  cases htext'
  exact Date.render_injective hvalid hvalid'
    (String.toList_inj.1 ((hfront hdate).symm.trans (hfront hdate')))

/-- **A cell that stores a day shows the date of the day**, if it can be shown. -/
theorem showsDate_dateOf (h : cell.HoldsDay system day) (hlt : |day| < 2 ^ 53)
    (hrange : (dateOf day system).InRange) : cell.ShowsDate (dateOf day system) := by
  obtain ⟨part, hpart, hkind⟩ := h.kind
  obtain ⟨number, hvalue, hfinite, hday⟩ := h.value
  have htext := dateText_eq hvalue hfinite hday hlt hrange
  refine ⟨Date.isValid_ofDayNumber _, ?_⟩
  cases part with
  | time => exact absurd rfl hpart
  | date =>
    refine ⟨_, ?_, Or.inl rfl⟩
    simp only [display, hkind, htext, Except.map, Option.getD_some]
  | dateTime =>
    refine ⟨_, ?_, Or.inr ⟨clockText (milliseconds number), rfl⟩⟩
    simp only [display, hkind, dateTimeText, htext, timeText, hvalue, Except.map, Option.bind_some,
      Option.map_some, Option.getD_some]

/-- **Dates are in the order of the days, and both date systems have the same ones.** Take whole
days of less than 53 bits whose dates can be shown. Any integer literal stores its day, and a cell
that stores a day shows one date of the calendar. Of two cells that store days of one system, the
cell with the later day does not show an earlier date; if its day is the day after that of the
other cell, it shows the next day of the calendar, but the days 59 and 60 from 1900 have the same
date. A day from 1904 has the date of the day from 1900 whose number is 1462 greater, from -1402
on. -/
theorem dates_of_days {a b : ℤ} (ha : |a| < 2 ^ 53) (hb : |b| < 2 ^ 53) :
    (∀ part system row column text, part ≠ .time → Literal.IntegerLiteral text.toList a →
      HoldsDay ⟨row, column, .serial part system, text⟩ system a) ∧
    (∀ system, (dateOf a system).InRange → (dateOf b system).InRange →
      ∀ cell other, HoldsDay cell system a → HoldsDay other system b →
        (∃ date, cell.ShowsDate date) ∧ (∃ date, other.ShowsDate date) ∧
        ∀ date later, cell.ShowsDate date → other.ShowsDate later →
          (a ≤ b → date ≤ later) ∧
          (b = a + 1 → later = if system = .from1900 ∧ a = 59 then date else date.next)) ∧
    (-1402 ≤ a → (dateOf a .from1904).InRange →
      ∀ cell other, HoldsDay cell .from1904 a → HoldsDay other .from1900 (a + 1462) →
        ∃ date, cell.ShowsDate date ∧ other.ShowsDate date) := by
  refine ⟨fun _ _ _ _ _ hpart htext => holdsDay_of_literal hpart htext ha, ?_, ?_⟩
  · intro system hrange hrange' cell other hcell hother
    have hshows := showsDate_dateOf hcell ha hrange
    have hshows' := showsDate_dateOf hother hb hrange'
    refine ⟨⟨_, hshows⟩, ⟨_, hshows'⟩, fun date later hdate hlater => ?_⟩
    obtain rfl := hdate.unique hshows
    obtain rfl := hlater.unique hshows'
    exact ⟨dateOf_mono, fun hnext => by rw [hnext, dateOf_add_one]⟩
  · intro hfrom hrange cell other hcell hother
    have hsame := dateOf_from1904 hfrom
    have hlt : |a + 1462| < 2 ^ 53 := by
      have hdays := Date.natAbs_le_of_inRange hrange
      simp only [epoch, dayOffset] at hdays
      rw [abs_lt]
      omega
    exact ⟨_, showsDate_dateOf hcell ha hrange,
      hsame ▸ showsDate_dateOf hother hlt (hsame ▸ hrange)⟩

/-- A cell with a date in the days from 1900. -/
def ofDay (text : String) : Cell := ⟨2, 1, .serial .date .from1900, text⟩

/-- The days 59 and 60 from 1900, and the day -1402 from 1904. -/
theorem dates_of_days_february :
    (ofDay "59").HoldsDay .from1900 59 ∧ (ofDay "60").HoldsDay .from1900 60 ∧
    (∀ date later, (ofDay "59").ShowsDate date → (ofDay "60").ShowsDate later → later = date) ∧
    ∃ date, (⟨2, 1, .serial .dateTime .from1904, "-1402"⟩ : Cell).ShowsDate date ∧
      (ofDay "60").ShowsDate date := by
  have hliteral : ∀ {text : String} {n : ℤ}, Literal.signed? text = some n →
      Literal.IntegerLiteral text.toList n := fun h => (Literal.signed?_eq_some.1 h).1
  obtain ⟨hwrites, hordered, -⟩ := dates_of_days (a := 59) (b := 60) (by norm_num) (by norm_num)
  obtain ⟨hwrites', -, hsystems⟩ :=
    dates_of_days (a := -1402) (b := -1402) (by norm_num) (by norm_num)
  have h59 : (ofDay "59").HoldsDay .from1900 59 :=
    hwrites .date .from1900 2 1 "59" nofun (hliteral (by decide))
  have h60 : (ofDay "60").HoldsDay .from1900 60 :=
    holdsDay_of_literal nofun (hliteral (by decide)) (by norm_num)
  obtain ⟨-, -, hdates⟩ := hordered .from1900 (by decide) (by decide) _ _ h59 h60
  refine ⟨h59, h60, fun date later hdate hlater => (hdates date later hdate hlater).2 rfl, ?_⟩
  exact hsystems le_rfl (by decide) _ _
    (hwrites' .dateTime .from1904 2 1 "-1402" nofun (hliteral (by decide))) h60

end Cell

end TableExport
