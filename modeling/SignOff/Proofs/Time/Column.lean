/-
  SignOff/Proofs/Time/Column.lean
  ===============================
  **A row gives back the instant that was written.**  The text of an instant in a column has
  a fixed form as long as its year has four digits; the strict reader then takes it apart
  again, field by field, and makes the instant that the text shows (`ofColumn_columnText`).
  That is the written one if it is an instant of universal time, with any fraction of a
  second and within a leap second as well; such an instant is `Keepable`.  A year outside
  0 … 9999 is not read, as the reader knows no sign.
-/
import SignOff.Time.Strict
import SignOff.Proofs.Text.Digits
import SignOff.Proofs.Time.Utc

namespace SignOff

open Text

/-! ### The fields are small -/

theorem daysInMonth_le (y : Int) (m : Nat) : daysInMonth y m ≤ 31 := by
  have hall : ∀ leap, ∀ d ∈ monthLengths leap, d ≤ 31 := by decide
  rw [daysInMonth, List.getD_eq_getElem?_getD]
  cases h : (monthLengths (isLeapYear y))[m - 1]? with
  | none => exact Nat.zero_le 31
  | some d => exact hall _ d (List.mem_of_getElem? h)

theorem Date.day_lt (d : Date) : d.day < 100 :=
  have := daysInMonth_le d.year d.month
  have := d.exists_date
  by omega

theorem Date.month_lt (d : Date) : d.month < 100 :=
  have := d.exists_date
  by omega

/-- The second that the text shows may be the one after the last. -/
theorem Instant.fields_lt (t : Instant) :
    t.hour < 100 ∧ t.minute < 100 ∧ t.second + t.nano / 1000000000 < 100 :=
  have := t.hour_lt
  have := t.minute_lt
  have := t.second_lt
  have := t.nano_lt
  ⟨by omega, by omega, by omega⟩

theorem Instant.fraction_lt (t : Instant) : t.nano % 1000000000 < 1000000000 :=
  Nat.mod_lt _ (by decide)

theorem Date.ofFields?_self (d : Date) : Date.ofFields? d.year d.month d.day = some d :=
  dif_pos d.exists_date

namespace Instant

/-- The year has four digits. -/
def InYears (t : Instant) : Prop := 0 ≤ t.date.year ∧ t.date.year ≤ 9999

instance (t : Instant) : Decidable t.InYears := inferInstanceAs (Decidable (_ ∧ _))

/-- An instant of universal time in a year of four digits, so that a row can keep it. -/
def Keepable (t : Instant) : Prop := t.InYears ∧ t.IsUtc

instance (t : Instant) : Decidable t.Keepable := inferInstanceAs (Decidable (_ ∧ _))

theorem Keepable.shown_eq {t : Instant} (h : t.Keepable) : t.shown = t := shown_of_isUtc h.2

theorem Keepable.shown {t : Instant} (h : t.Keepable) : t.shown.Keepable := by
  rwa [h.shown_eq]

/-- A clock that is not ahead shows the instant itself. -/
theorem ofLocal?_zero {d : Date} {h m : Nat} (hh : h < 24) (hm : m < 60) (s n : Nat) :
    ofLocal? d h m s n 0 = ofFields? d h m s n := by
  have hlow : ¬((60 * h + m : Int) - 0 < 0) := by omega
  have hhigh : (60 * h + m : Int) - 0 < 1440 := by omega
  have hhour : ((60 * h + m : Int) - 0).toNat / 60 = h := by omega
  have hminute : ((60 * h + m : Int) - 0).toNat % 60 = m := by omega
  simp only [ofLocal?, if_neg hlow, if_pos hhigh, hhour, hminute]

/-- What the text of an instant shows, on a clock that is not ahead. -/
theorem ofLocal?_shown (t : Instant) :
    ofLocal? t.date t.hour t.minute (t.second + t.nano / 1000000000) (t.nano % 1000000000) 0 =
      some t.shown := by
  rw [ofLocal?_zero t.hour_lt t.minute_lt, ofFields?_shown]

end Instant

/-! ### Fractions -/

/-- A fraction is written as the point and nine digits, but for zeros at the end. -/
theorem exists_fractionText {n : Nat} (hn : n ≠ 0) (hlt : n < 1000000000) :
    ∃ (ds : List Char) (zeros : Nat), fractionText n = '.' :: ds ∧ ds ≠ [] ∧
      (∀ c ∈ ds, c.isDigit = true) ∧ ds.length + zeros = 9 ∧
      numberOf (ds ++ List.replicate zeros '0') = n := by
  -- units of `10 ^ zeros` nanoseconds in the digits that are left
  have hof : ∀ width zeros k, 0 < width → k < 10 ^ width → width + zeros = 9 →
      k * 10 ^ zeros = n → padded width k ≠ [] ∧ (∀ c ∈ padded width k, c.isDigit = true) ∧
        (padded width k).length + zeros = 9 ∧
        numberOf (padded width k ++ List.replicate zeros '0') = n := by
    intro width zeros k hw hk hwidth hsum
    have hlen := length_padded hw hk
    refine ⟨List.ne_nil_of_length_pos (by omega), fun c => isDigit_of_mem_padded, by omega, ?_⟩
    rw [numberOf_padded_zeros, hsum]
  rw [fractionText, if_neg hn]
  split
  · exact ⟨_, 6, rfl, hof 3 6 _ (by decide) (by omega) rfl (by omega)⟩
  · split
    · exact ⟨_, 3, rfl, hof 6 3 _ (by decide) (by omega) rfl (by omega)⟩
    · exact ⟨_, 0, rfl, hof 9 0 _ (by decide) hlt rfl (by omega)⟩

/-! ### Reading the fields -/

namespace Strict

theorem two_padded {n : Nat} (h : n < 100) (rest : List Char) :
    two (padded 2 n ++ rest) = .ok (n, rest) := by
  rw [two, twoDigits?_padded h]

/-- Four digits are read two at a time: the century and the year in it. -/
theorem two_padded_four {n : Nat} (h : n < 10000) (rest : List Char) :
    ∃ century year cs, two (padded 4 n ++ rest) = .ok (century, cs) ∧
      two cs = .ok (year, rest) ∧ 100 * century + year = n := by
  have hlen : (padded 4 n).length = 4 := length_padded (by decide) h
  obtain ⟨a, b, c, d, hds⟩ : ∃ a b c d, padded 4 n = [a, b, c, d] := by
    obtain ⟨a, rest, hrest, hthree⟩ := List.length_eq_succ_iff.mp hlen
    obtain ⟨b, c, d, rfl⟩ := List.length_eq_three.mp hthree
    exact ⟨a, b, c, d, hrest.symm⟩
  have hdigit : ∀ x ∈ [a, b, c, d], x.isDigit = true := fun x hx =>
    isDigit_of_mem_padded (hds ▸ hx)
  have hsum : 100 * numberOf [a, b] + numberOf [c, d] = n := by
    rw [← numberOf_padded 4 n, hds]
    exact (numberOf_append [a, b] [c, d]).symm
  refine ⟨numberOf [a, b], numberOf [c, d], c :: d :: rest, ?_, ?_, hsum⟩
  · simp [hds, two, twoDigits?, hdigit a (by simp), hdigit b (by simp)]
  · simp [two, twoDigits?, hdigit c (by simp), hdigit d (by simp)]

/-- The date of an instant that a row can keep. -/
theorem date_chars {d : Date} (h : 0 ≤ d.year ∧ d.year ≤ 9999) (rest : List Char) :
    date (d.chars ++ rest) = .ok (d, rest) := by
  have hfour : d.year.toNat < 10000 := by omega
  obtain ⟨century, year, cs, hcentury, hyear, hsum⟩ :=
    two_padded_four hfour ('-' :: (padded 2 d.month ++ ('-' :: (padded 2 d.day ++ rest))))
  have hy : (100 * (century : Int) + year) = d.year := by omega
  have htext : d.chars ++ rest =
      padded 4 d.year.toNat ++ ('-' :: (padded 2 d.month ++ ('-' :: (padded 2 d.day ++ rest)))) := by
    simp [Date.chars, yearText, h]
  simp only [date, htext, hcentury, hyear, oneOf, two_padded d.month_lt, two_padded d.day_lt,
    bind, Except.bind, List.mem_singleton, if_true]
  simp [hy, Date.ofFields?_self, inRange]

/-- The shortest exact fraction reads back as the nanoseconds. -/
theorem fraction_fractionText {nano : Nat} (h : nano < 1000000000) {zone : List Char}
    (hzone : EndsDigits zone) (hpoint : zone.head? ≠ some '.') :
    fraction (fractionText nano ++ zone) = .ok (nano, zone) := by
  by_cases h0 : nano = 0
  · subst h0
    cases zone with
    | nil => rfl
    | cons c cs =>
      have hc : c ≠ '.' := fun e => hpoint (by rw [e]; rfl)
      simp [fractionText, fraction, hc]
  · obtain ⟨ds, zeros, htext, hne, hdigits, hlen, hnumber⟩ := exists_fractionText h0 h
    have hrun : digitRun (ds ++ zone) = (ds, zone) := digitRun_append hdigits hzone
    rw [htext, List.cons_append]
    simp [fraction, hrun, hne, nanosOf_of_length hlen, hnumber]

end Strict

/-! ### The whole text -/

theorem length_le_utf8ByteSize (cs : List Char) : cs.length ≤ (String.ofList cs).utf8ByteSize := by
  induction cs with
  | nil => exact Nat.zero_le _
  | cons c cs ih =>
    rw [String.ofList_cons, String.utf8ByteSize_append, String.utf8ByteSize_singleton,
      List.length_cons]
    have := c.utf8Size_pos
    omega

namespace Instant

/-- The mark for universal time in columns. -/
def columnZone : List Char := ['+', '0', '0', ':', '0', '0']

theorem chars_eq (t : Instant) (zone : List Char) :
    t.chars zone = t.date.chars ++ ('T' :: (padded 2 t.hour ++ (':' :: (padded 2 t.minute ++
      (':' :: (padded 2 (t.second + t.nano / 1000000000) ++
        (fractionText (t.nano % 1000000000) ++ zone))))))) := by
  simp [chars]

theorem length_chars_ge {t : Instant} (h : t.InYears) : 19 ≤ (t.chars columnZone).length := by
  have hy : (padded 4 t.date.year.toNat).length = 4 :=
    length_padded (by decide) (by have := h.1; have := h.2; omega)
  have htwo : ∀ {n : Nat}, n < 100 → (padded 2 n).length = 2 := fun h =>
    length_padded (by decide) h
  obtain ⟨hhour, hminute, hsecond⟩ := t.fields_lt
  simp [chars, Date.chars, yearText, h.1, h.2, hy, htwo t.date.month_lt, htwo t.date.day_lt,
    htwo hhour, htwo hminute, htwo hsecond, columnZone]
  omega

/-- **A column gives back the instant that its text shows.** -/
theorem ofColumn_columnText {t : Instant} (h : t.InYears) :
    ofColumn t.columnText = .ok t.shown := by
  have hsize : ¬(String.ofList (t.chars columnZone)).utf8ByteSize < 19 := by
    have := length_le_utf8ByteSize (t.chars columnZone)
    have := length_chars_ge h
    omega
  obtain ⟨hhour, hminute, hsecond⟩ := t.fields_lt
  have hfraction : Strict.fraction (fractionText (t.nano % 1000000000) ++ columnZone) =
      .ok (t.nano % 1000000000, columnZone) :=
    Strict.fraction_fractionText t.fraction_lt (endsDigits_cons (by decide) _) (by decide)
  have hzone : Strict.offset columnZone = .ok (0, []) := by decide
  have hcolumn : t.columnText = String.ofList (t.chars columnZone) := rfl
  rw [ofColumn, hcolumn, if_neg hsize, String.toList_ofList, chars_eq]
  simp only [Strict.instant, Strict.date_chars h, Strict.oneOf, Strict.two_padded hhour,
    Strict.two_padded hminute, Strict.two_padded hsecond, hfraction, hzone, ofFields?_shown, bind,
    Except.bind, Strict.inRange, List.mem_cons, true_or, if_true, ofLocal?_shown,
    List.isEmpty_nil, Bool.not_true, Bool.false_eq_true, if_false]
  rfl

end Instant

end SignOff
