/-
  SignOff/Proofs/Time/Reading.lean
  ================================
  **An instant is read back from its text.**  The generous reader accepts far more than what
  is written; of what is written it makes the instant that the text shows
  (`Instant.ofText?_text`), with any year of the calendar and any fraction.  That is the
  instant itself if it is one of universal time, within a leap second or not, and no text
  gives any other (`Instant.isUtc_iff`).  A date is read back as well, so that different
  dates have different texts (`Date.text_injective`).

  Numbers are read in runs of digits.  Each field ends where the next mark stands, which is
  no digit.
-/
import SignOff.Time.Lenient
import SignOff.Time.Text
import SignOff.Proofs.Time.Column

namespace SignOff

open Text

/-! ### Digits are no blanks -/

theorem Text.isBlank_of_isDigit {c : Char} (h : c.isDigit = true) : isBlank c = false := by
  have hcode := toNat_of_isDigit h
  simp only [isBlank, Bool.or_eq_false_iff, Bool.and_eq_false_iff, decide_eq_false_iff_not,
    beq_eq_false_iff_ne, ne_eq]
  omega

theorem Text.skipBlanks_cons {c : Char} (h : isBlank c = false) (cs : List Char) :
    skipBlanks (c :: cs) = c :: cs := by
  simp [skipBlanks, h]

theorem Text.skipBlanks_padded (width n : Nat) (rest : List Char) :
    skipBlanks (padded width n ++ rest) = padded width n ++ rest := by
  obtain ⟨d, ds, hds, hd⟩ := exists_padded width n
  rw [hds, List.cons_append, skipBlanks_cons (isBlank_of_isDigit hd)]

/-- A number is read back if as many digits may be read as there are, and no more follow. -/
theorem Text.number?_padded {most width n : Nat} (hmost : (padded width n).length ≤ most)
    {rest : List Char} (hrest : EndsDigits rest) :
    number? most (padded width n ++ rest) = some (n, rest) := by
  have hrun : digitRun (padded width n ++ rest) = (padded width n, rest) :=
    digitRun_append (fun c => isDigit_of_mem_padded) hrest
  have hne : padded width n ≠ [] := by
    obtain ⟨d, ds, hds, -⟩ := exists_padded width n
    simp [hds]
  simp [number?, hrun, List.take_of_length_le hmost, hne, numberOf_padded]

/-! ### Fields -/

namespace Lenient

theorem field?_padded {n : Nat} (h : n < 100) {rest : List Char} (hrest : EndsDigits rest) :
    field? (padded 2 n ++ rest) = some (n, rest) := by
  rw [field?, skipBlanks_padded,
    number?_padded (Nat.le_of_eq (length_padded (by decide) h)) hrest]

theorem mark?_self {c : Char} (h : isBlank c = false) (rest : List Char) :
    mark? c (c :: rest) = some rest := by
  simp [mark?, skipBlanks_cons h]

/-- A year with four digits, or with its sign. -/
theorem year?_yearText (y : Int) {rest : List Char} (hrest : EndsDigits rest) :
    year? (yearText y ++ rest) = some (y, rest) := by
  have hsigned : number? (padded 4 y.natAbs ++ rest).length (padded 4 y.natAbs ++ rest) =
      some (y.natAbs, rest) :=
    number?_padded (by simp) hrest
  unfold yearText
  split
  · next hy =>
    have hfour : number? 4 (padded 4 y.toNat ++ rest) = some (y.toNat, rest) :=
      number?_padded (Nat.le_of_eq (length_padded (by decide) (by omega))) hrest
    have hvalue : (y.toNat : Int) = y := Int.toNat_of_nonneg hy.1
    obtain ⟨d, ds, hds, hd⟩ := exists_padded 4 y.toNat
    have hminus : d ≠ '-' := fun h => absurd (h ▸ hd) (by decide)
    have hplus : d ≠ '+' := fun h => absurd (h ▸ hd) (by decide)
    rw [hds, List.cons_append] at hfour
    rw [hds, List.cons_append, year?, skipBlanks_cons (isBlank_of_isDigit hd)]
    simp [hminus, hplus, hfour, hvalue]
  · next hy =>
    split
    · next hneg =>
      have hvalue : -(y.natAbs : Int) = y := by omega
      rw [List.cons_append, year?, skipBlanks_cons (by decide)]
      simp only [hsigned, Option.map_some, hvalue]
    · next hpos =>
      have hvalue : (y.natAbs : Int) = y := by omega
      rw [List.cons_append, year?, skipBlanks_cons (by decide)]
      simp only [hsigned, Option.map_some, hvalue]

theorem date?_chars (d : Date) {rest : List Char} (hrest : EndsDigits rest) :
    date? (d.chars ++ rest) = some (d, rest) := by
  have htext : d.chars ++ rest = yearText d.year ++
      ('-' :: (padded 2 d.month ++ ('-' :: (padded 2 d.day ++ rest)))) := by
    simp [Date.chars]
  have hdash : ∀ cs, EndsDigits ('-' :: cs) := endsDigits_cons rfl
  rw [htext, date?, year?_yearText _ (hdash _)]
  simp [mark?_self (by decide : isBlank '-' = false), field?_padded d.month_lt (hdash _),
    field?_padded d.day_lt hrest, Date.ofFields?_self]

/-- The shortest exact fraction reads back as the nanoseconds. -/
theorem fraction?_fractionText {nano : Nat} (h : nano < 1000000000) {zone : List Char}
    (hzone : EndsDigits zone) (hpoint : zone.head? ≠ some '.') :
    fraction? (fractionText nano ++ zone) = some (nano, zone) := by
  by_cases h0 : nano = 0
  · subst h0
    cases zone with
    | nil => rfl
    | cons c cs =>
      have hc : c ≠ '.' := fun e => hpoint (by rw [e]; rfl)
      simp [fractionText, fraction?, hc]
  · obtain ⟨ds, zeros, htext, hne, hdigits, hlen, hnumber⟩ := exists_fractionText h0 h
    have hrun : digitRun (ds ++ zone) = (ds, zone) := digitRun_append hdigits hzone
    rw [htext, List.cons_append]
    simp [fraction?, hrun, hne, nanosOf_of_length hlen, hnumber]

theorem instant?_chars (t : Instant) : instant? (t.chars ['Z']) = some t.shown := by
  obtain ⟨hhour, hminute, hsecond⟩ := t.fields_lt
  -- the seconds end at the point of the fraction, or at the zone if there is no fraction
  have hend : EndsDigits (fractionText (t.nano % 1000000000) ++ ['Z']) := by
    by_cases h0 : t.nano % 1000000000 = 0
    · rw [h0]
      exact endsDigits_cons rfl []
    · obtain ⟨ds, zeros, hds, -⟩ := exists_fractionText h0 t.fraction_lt
      rw [hds]
      exact endsDigits_cons rfl _
  have hfraction : fraction? (fractionText (t.nano % 1000000000) ++ ['Z']) =
      some (t.nano % 1000000000, ['Z']) :=
    fraction?_fractionText t.fraction_lt (endsDigits_cons rfl []) (by decide)
  have hoffset : offset? ['Z'] = some (0, []) := by decide
  have hcolon : isBlank ':' = false := by decide
  have hblanks : skipBlanks [] = [] := rfl
  have hcolons : ∀ cs, EndsDigits (':' :: cs) := endsDigits_cons rfl
  rw [t.chars_eq, instant?, date?_chars _ (endsDigits_cons rfl _)]
  simp [isDateEnd, field?_padded hhour (hcolons _), field?_padded hminute (hcolons _),
    field?_padded hsecond hend, mark?_self hcolon, hfraction, hoffset, hblanks, t.hour_lt,
    t.minute_lt, Instant.ofLocal?_shown]

end Lenient

/-! ### Whole texts -/

/-- **An instant is read back from its text**, as the one that the text shows. -/
theorem Instant.ofText?_text (t : Instant) : Instant.ofText? t.text = some t.shown := by
  rw [ofText?, text, String.toList_ofList, Lenient.instant?_chars]

/-- **The instants of universal time are those that a text can give.** -/
theorem Instant.isUtc_iff {t : Instant} : t.IsUtc ↔ ∃ s, Instant.ofText? s = some t := by
  constructor
  · intro h
    exact ⟨t.text, by rw [t.ofText?_text, shown_of_isUtc h]⟩
  · rintro ⟨s, hs⟩
    exact isUtc_of_ofText? hs

theorem Date.ofText?_text (d : Date) : Date.ofText? d.text = some d := by
  have hread : Lenient.date? (d.chars ++ []) = some (d, []) :=
    Lenient.date?_chars d endsDigits_nil
  rw [List.append_nil] at hread
  rw [ofText?, text, String.toList_ofList, hread]
  rfl

theorem Date.text_injective {d d' : Date} (h : d.text = d'.text) : d = d' :=
  Option.some.inj (by rw [← d.ofText?_text, h, d'.ofText?_text])

end SignOff
