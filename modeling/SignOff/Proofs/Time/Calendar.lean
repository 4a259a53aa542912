/-
  SignOff/Proofs/Time/Calendar.lean
  =================================
  **How far the calendar reaches.**  Dates can be counted in days (`Date.dayNumber`), and
  adding days to a date ends in the calendar exactly if the count stays below that of the
  whole calendar (`Date.after?_isSome_iff`).  From this follows the longest window that
  ends in the calendar wherever it begins in the years that a column can keep
  (`Instant.Keepable.plusHours?_isSome`); one hour more, and the window that begins at the
  end of these years does not (`Instant.plusHours?_lastKeepable`).
-/
import SignOff.Proofs.Time.Column
import Mathlib.Algebra.Order.BigOperators.Group.List
import Mathlib.Algebra.Order.Group.Nat
import Mathlib.Algebra.GroupWithZero.Nat

namespace SignOff

namespace Date

/-! ### Consecutive runs -/

theorem total_eq_sum (lengths : List Nat) : total lengths = lengths.sum := by
  induction lengths with
  | nil => rfl
  | cons len rest ih => rw [total, ih, List.sum_cons]

theorem total_take_le {lengths : List Nat} {i j : Nat} (h : i ≤ j) :
    total (lengths.take i) ≤ total (lengths.take j) := by
  rw [total_eq_sum, total_eq_sum]
  exact List.monotone_sum_take lengths h

theorem total_take_succ {lengths : List Nat} {i len : Nat} (h : lengths[i]? = some len) :
    total (lengths.take (i + 1)) = total (lengths.take i) + len := by
  obtain ⟨hi, rfl⟩ := List.getElem?_eq_some_iff.mp h
  rw [total_eq_sum, total_eq_sum, List.sum_take_succ lengths i hi]

theorem total_take_le_total (lengths : List Nat) (i : Nat) :
    total (lengths.take i) ≤ total lengths := by
  rw [total_eq_sum, total_eq_sum]
  exact (List.take_sublist i lengths).sum_le_sum fun _ _ => Nat.zero_le _

/-- A position inside all runs together lies in one of them. -/
theorem locate_spec {lengths : List Nat} {n : Nat} (h : n < total lengths) :
    ∃ len, lengths[(locate lengths n).1]? = some len ∧ (locate lengths n).2 < len ∧
      total (lengths.take (locate lengths n).1) + (locate lengths n).2 = n := by
  induction lengths generalizing n with
  | nil => simp [total] at h
  | cons len rest ih =>
    rw [locate]
    by_cases hlt : n < len
    · rw [if_pos hlt]
      exact ⟨len, rfl, hlt, by simp [total]⟩
    · rw [if_neg hlt]
      rw [total] at h
      obtain ⟨len', hlen, hr, hsum⟩ := ih (n := n - len) (by omega)
      refine ⟨len', by simpa using hlen, hr, ?_⟩
      simp only [List.take_succ_cons, total]
      omega

/-! ### The cycle of 400 years -/

theorem isLeapYear_add_cycles (c y : Int) : isLeapYear (400 * c + y) = isLeapYear y := by
  have h4 : (400 * c + y) % 4 = y % 4 := by omega
  have h100 : (400 * c + y) % 100 = y % 100 := by omega
  have h400 : (400 * c + y) % 400 = y % 400 := by omega
  simp only [isLeapYear, h4, h100, h400]

theorem total_yearLengths : total yearLengths = cycleDays := by decide +kernel

theorem yearLengths_getElem? {y : Nat} (h : y < 400) :
    yearLengths[y]? = some (total (monthLengths (isLeapYear (y : Nat)))) := by
  simp [yearLengths, h]

theorem lt_of_yearLengths {y len : Nat} (h : yearLengths[y]? = some len) :
    y < 400 ∧ len = total (monthLengths (isLeapYear (y : Nat))) := by
  obtain ⟨hy, -⟩ := List.getElem?_eq_some_iff.mp h
  have hlt : y < 400 := by simpa [yearLengths] using hy
  rw [yearLengths_getElem? hlt] at h
  exact ⟨hlt, (Option.some.inj h).symm⟩

/-- The month of a date is in its year, and the day in its month. -/
theorem monthLengths_getElem? (t : Date) :
    ∃ len, (monthLengths (isLeapYear t.year))[t.month - 1]? = some len ∧ t.day ≤ len := by
  obtain ⟨-, -, hm, hm', -, hd⟩ := t.exists_date
  have hlen : t.month - 1 < (monthLengths (isLeapYear t.year)).length := by
    simp only [monthLengths, List.length_cons, List.length_nil]
    omega
  refine ⟨_, List.getElem?_eq_getElem hlen, ?_⟩
  simpa [daysInMonth, List.getD, hlen] using hd

theorem dayOfCycle_lt (t : Date) : t.dayOfCycle < cycleDays := by
  obtain ⟨len, hlen, hday⟩ := t.monthLengths_getElem?
  obtain ⟨-, -, -, -, hd, -⟩ := t.exists_date
  have hy : (t.year % 400).toNat < 400 := by omega
  have hleap : isLeapYear ((t.year % 400).toNat : Nat) = isLeapYear t.year := by
    have hsplit := isLeapYear_add_cycles (t.year / 400) (t.year % 400)
    rw [Int.mul_ediv_add_emod] at hsplit
    rw [hsplit]
    congr 1
    omega
  have hmonth := total_take_succ hlen
  have hmonths := total_take_le_total (monthLengths (isLeapYear t.year)) (t.month - 1 + 1)
  have hyear := total_take_succ (yearLengths_getElem? hy)
  have hyears := total_take_le_total yearLengths ((t.year % 400).toNat + 1)
  rw [hleap] at hyear
  rw [total_yearLengths] at hyears
  rw [dayOfCycle]
  omega

/-! ### Days of the calendar -/

/-- The number of the date, when the days are counted from the beginning of year 0. -/
def dayNumber (t : Date) : Int := t.year / 400 * cycleDays + t.dayOfCycle

/-- The number of days of the calendar from the beginning of year 0 on. -/
def calendarDays : Int := 655 * cycleDays + 52230

theorem ofFields?_isSome_iff {y : Int} {m d : Nat} :
    (ofFields? y m d).isSome = true ↔ DateExists y m d := by
  rw [ofFields?]
  split
  · next h =>
    simp only [Option.isSome_some, true_iff]
    exact h
  · next h =>
    simp only [Option.isSome_none, Bool.false_eq_true, false_iff]
    exact h

theorem total_yearLengths_lastCycle : total (yearLengths.take 143) = 52230 := by decide +kernel

/-- The calendar ends with the 143rd year of its last cycle. -/
theorem year_le_iff {c : Int} {y doy len : Nat} (hlen : yearLengths[y]? = some len)
    (hdoy : doy < len) :
    400 * c + y ≤ maxYear ↔ c * cycleDays + (total (yearLengths.take y) + doy) < calendarDays := by
  have hyear := total_take_succ hlen
  have hcycle := total_take_le_total yearLengths (y + 1)
  have hlast := total_yearLengths_lastCycle
  obtain ⟨hy, -⟩ := lt_of_yearLengths hlen
  rw [total_yearLengths] at hcycle
  simp only [maxYear, calendarDays, cycleDays] at *
  -- 262142 is 655 cycles and 142 years: before the end of that year, or after it
  by_cases h : y ≤ 142
  · have hbefore : total (yearLengths.take (y + 1)) ≤ total (yearLengths.take 143) :=
      total_take_le (by omega)
    omega
  · have hafter : total (yearLengths.take 143) ≤ total (yearLengths.take y) :=
      total_take_le (by omega)
    omega

/-- A date that is found by its place in a cycle from year 0 on exists up to that year. -/
theorem dateExists_iff {c : Int} (hc : 0 ≤ c) {y doy len m d days : Nat}
    (hlen : yearLengths[y]? = some len) (hdoy : doy < len)
    (hdays : (monthLengths (isLeapYear (y : Nat)))[m]? = some days) (hd : d < days) :
    DateExists (400 * c + y) (m + 1) (d + 1) ↔
      c * cycleDays + (total (yearLengths.take y) + doy) < calendarDays := by
  have hm : m < 12 := by
    obtain ⟨hm, -⟩ := List.getElem?_eq_some_iff.mp hdays
    simpa [monthLengths] using hm
  have hmonth : daysInMonth (400 * c + y) (m + 1) = days := by
    rw [daysInMonth, isLeapYear_add_cycles, List.getD, Nat.add_sub_cancel, hdays, Option.getD_some]
  rw [DateExists, hmonth, ← year_le_iff hlen hdoy]
  simp only [minYear, maxYear]
  omega

/-- Days can be added to a date as long as the calendar has them. -/
theorem after?_isSome_iff {t : Date} (ht : 0 ≤ t.year) (n : Nat) :
    (t.after? n).isSome = true ↔ t.dayNumber + n < calendarDays := by
  have hpos : (t.dayOfCycle + n) % cycleDays < total yearLengths := by
    rw [total_yearLengths]
    exact Nat.mod_lt _ (by decide)
  obtain ⟨len, hlen, hdoy, hday⟩ := locate_spec hpos
  obtain ⟨hy, hlen'⟩ := lt_of_yearLengths hlen
  obtain ⟨days, hdays, hd, -⟩ := locate_spec (hlen' ▸ hdoy)
  have hc : 0 ≤ t.year / 400 + (t.dayOfCycle + n : Nat) / (cycleDays : Int) := by
    simp only [cycleDays]
    omega
  rw [after?, ofFields?_isSome_iff, dateExists_iff hc hlen hdoy hdays hd, dayNumber]
  simp only [cycleDays] at hday ⊢
  omega

/-- A date of the years that a column can keep is early in the calendar. -/
theorem dayNumber_lt {t : Date} (ht : t.year ≤ 9999) : t.dayNumber < 25 * cycleDays := by
  have hcycle := t.dayOfCycle_lt
  simp only [dayNumber, cycleDays] at *
  omega

end Date

namespace Instant

/-- Hours can be added to an instant as long as the calendar has the days. -/
theorem plusHours?_isSome_iff {t : Instant} (ht : 0 ≤ t.date.year) {n : Nat} (hn : n ≠ 0) :
    (t.plusHours? n).isSome = true ↔
      t.date.dayNumber + ((t.hour + n) / 24 : Nat) < Date.calendarDays := by
  rw [← Date.after?_isSome_iff ht, plusHours?, if_neg hn, Option.isSome_map]

/-- The longest window, in hours, that ends in the calendar wherever it begins in the years
    that a column can keep. -/
def longestWindow : Nat := 2210240160

theorem Keepable.plusHours?_isSome {t : Instant} (h : t.Keepable) {n : Nat}
    (hn : n ≤ longestWindow) : (t.plusHours? n).isSome = true := by
  by_cases hzero : n = 0
  · rw [plusHours?, if_pos hzero]
    rfl
  · rw [plusHours?_isSome_iff h.1.1 hzero]
    have hday := Date.dayNumber_lt h.1.2
    have hhour := t.hour_lt
    simp only [longestWindow, Date.calendarDays, Date.cycleDays] at *
    omega

/-- The last instant that a column can keep. -/
def lastKeepable : Instant :=
  ⟨⟨9999, 12, 31, by decide⟩, 23, 59, 59, 999999999, by decide, by decide, by decide, by decide⟩

theorem keepable_lastKeepable : lastKeepable.Keepable := by decide

/-- From there on no longer window ends in the calendar. -/
theorem plusHours?_lastKeepable {n : Nat} (hn : longestWindow < n) :
    lastKeepable.plusHours? n = none := by
  have hday : lastKeepable.date.dayNumber = 25 * Date.cycleDays - 1 := by decide +kernel
  rw [← Option.isNone_iff_eq_none, ← Bool.not_eq_false, Option.isNone_eq_false_iff,
    plusHours?_isSome_iff keepable_lastKeepable.1.1 (by omega), hday]
  simp only [longestWindow, lastKeepable, Date.calendarDays, Date.cycleDays] at *
  omega

end Instant

end SignOff
