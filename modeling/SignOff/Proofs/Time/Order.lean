/-
  SignOff/Proofs/Time/Order.lean
  ==============================
  **Columns sort by time.**  Rows are listed by the texts of their instants, character by
  character.  As long as the year has four digits this is the order of the instants
  (`columnText_lt`): every field has its width, the year comes first, and a fraction with its
  zeros left out ends in a mark that comes before the digits and before the point.
-/
import SignOff.Proofs.Time.Column
import SignOff.Proofs.Store.Rows

namespace SignOff

open Text

/-! ### Fractions -/

/-- The mark for universal time begins with a plus, which comes before the point and before all
    digits. -/
theorem fractionText_lt {n m : Nat} (hm : m < 1000000000) (h : n < m) (cs : List Char) :
    fractionText n ++ '+' :: cs < fractionText m ++ '+' :: cs := by
  obtain ⟨es, b, hes, -, hdigits, hlen, hnumber⟩ := exists_fractionText (by omega) hm
  rw [hes]
  by_cases hn : n = 0
  · rw [fractionText, if_pos hn, List.nil_append, List.cons_append, List.cons_lt_cons_iff]
    exact .inl (by decide)
  · obtain ⟨ds, a, hds, -, hdigits', hlen', hnumber'⟩ := exists_fractionText hn (by omega)
    rw [hds, List.cons_append, List.cons_append, List.cons_lt_cons_iff]
    refine .inr ⟨rfl, ?_⟩
    have hplus : ∀ c : Char, c.isDigit = true → '+' < c := by
      intro c hc
      have hlow : 48 ≤ c.toNat := (toNat_of_isDigit hc).1
      exact Char.lt_def.mpr (Nat.lt_of_lt_of_le (by decide) hlow)
    have hwhole : ds ++ List.replicate a '0' < es ++ List.replicate b '0' := by
      apply lt_of_numberOf_lt
      · simp [hlen, hlen']
      · exact isDigit_of_mem_zeros hdigits' a
      · exact isDigit_of_mem_zeros hdigits b
      · rwa [hnumber, hnumber']
    exact lt_of_zeros hplus hdigits' hdigits (hlen'.trans hlen.symm) hwhole cs

/-! ### Instants -/

/-- In mixed radix the first digit decides, unless it is the same. -/
theorem lt_of_radix {k x y a b : Int} (hk : 0 ≤ k) (ha : 0 ≤ a) (hb : b < k)
    (h : x * k + a < y * k + b) : x < y ∨ x = y ∧ a < b := by
  rcases Int.lt_trichotomy x y with hlt | rfl | hgt
  · exact .inl hlt
  · exact .inr ⟨rfl, by omega⟩
  · have hstep : (y + 1) * k ≤ x * k := Int.mul_le_mul_of_nonneg_right hgt hk
    rw [Int.add_mul, Int.one_mul] at hstep
    omega

/-- A field that comes first in the text, and is the first digit of the rank. -/
theorem field_lt {width n m : Nat} {k a b : Int} {cs ds : List Char} (hw : 0 < width)
    (hn : n < 10 ^ width) (hm : m < 10 ^ width) (hk : 0 ≤ k) (ha : 0 ≤ a) (hb : b < k)
    (h : n * k + a < m * k + b) (hrest : a < b → cs < ds) :
    padded width n ++ cs < padded width m ++ ds := by
  apply padded_append_lt hw hn hm
  rcases lt_of_radix hk ha hb h with hlt | ⟨heq, hlt⟩
  · exact .inl (Int.ofNat_lt.mp hlt)
  · exact .inr ⟨Int.ofNat_inj.mp heq, hrest hlt⟩

theorem field_cons_lt {width n m : Nat} {k a b : Int} {cs ds : List Char} (hw : 0 < width)
    (hn : n < 10 ^ width) (hm : m < 10 ^ width) (hk : 0 ≤ k) (ha : 0 ≤ a) (hb : b < k)
    (h : n * k + a < m * k + b) (mark : Char) (hrest : a < b → cs < ds) :
    padded width n ++ mark :: cs < padded width m ++ mark :: ds := by
  refine field_lt hw hn hm hk ha hb h fun hlt => ?_
  exact List.cons_lt_cons_iff.mpr (.inr ⟨rfl, hrest hlt⟩)

namespace Instant

variable {t u : Instant}

/-- The year is the first digit of the rank, the month the next one, and so on. -/
theorem rank_eq (t : Instant) :
    t.rank = t.date.year * 71884800000000000 + (t.date.month * 5529600000000000 +
      (t.date.day * 172800000000000 + (t.hour * 7200000000000 + (t.minute * 120000000000 +
        (t.second * 2000000000 + t.nano))))) := by
  rw [rank]
  omega

theorem InYears.chars_eq (h : t.InYears) :
    t.chars columnZone =
      padded 4 t.date.year.toNat ++ '-' :: (padded 2 t.date.month ++ '-' :: (padded 2 t.date.day ++
        'T' :: (padded 2 t.hour ++ ':' :: (padded 2 t.minute ++ ':' ::
          (padded 2 (t.second + t.nano / 1000000000) ++
            (fractionText (t.nano % 1000000000) ++ columnZone)))))) := by
  simp [chars, Date.chars, yearText, h.1, h.2]

/-- A leap second is written as the second after it, which is later than every other second of
    the minute. -/
theorem IsUtc.shown_lt (ht : t.IsUtc)
    (h : (t.second * 2000000000 + t.nano : Int) < u.second * 2000000000 + u.nano) :
    ((t.second + t.nano / 1000000000 : Nat) * 1000000000 + (t.nano % 1000000000 : Nat) : Int) <
      (u.second + u.nano / 1000000000 : Nat) * 1000000000 + (u.nano % 1000000000 : Nat) := by
  have hsecond := u.second_lt
  simp only [IsUtc] at ht
  have := t.nano_lt
  have := u.nano_lt
  omega

/-- **Texts in columns come in the order of the instants.** -/
theorem columnText_lt (ht : t.Keepable) (hu : u.Keepable) (h : t < u) :
    t.columnText < u.columnText := by
  obtain ⟨hyears, hutc⟩ := ht
  obtain ⟨hyears', -⟩ := hu
  have hrank : t.rank < u.rank := h
  have hyear : t.date.year = t.date.year.toNat := (Int.toNat_of_nonneg hyears.1).symm
  have hyear' : u.date.year = u.date.year.toNat := (Int.toNat_of_nonneg hyears'.1).symm
  rw [rank_eq, rank_eq, hyear, hyear'] at hrank
  have hdate (d : Date) : d.month < 13 ∧ d.day < 32 :=
    ⟨by have := d.exists_date; omega,
      Nat.lt_of_le_of_lt (Nat.le_trans d.exists_date.2.2.2.2.2 (daysInMonth_le _ _)) (by decide)⟩
  obtain ⟨hmonth, hday⟩ := hdate t.date
  obtain ⟨hmonth', hday'⟩ := hdate u.date
  rw [columnText, columnText, String.lt_iff, String.toList_ofList, String.toList_ofList]
  have hzone : ['+', '0', '0', ':', '0', '0'] = columnZone := rfl
  rw [hzone, hyears.chars_eq, hyears'.chars_eq]
  -- from the year down to the minute, each field in front of all that count less
  have hhour := t.hour_lt
  have hhour' := u.hour_lt
  have hminute := t.minute_lt
  have hminute' := u.minute_lt
  have hsecond := t.second_lt
  have hsecond' := u.second_lt
  have hnano := t.nano_lt
  have hnano' := u.nano_lt
  obtain ⟨-, hlast⟩ := hyears
  obtain ⟨-, hlast'⟩ := hyears'
  refine field_cons_lt (by decide) (by omega) (by omega) (by decide) (by omega) (by omega) hrank _
    fun hrank => ?_
  refine field_cons_lt (by decide) (by omega) (by omega) (by decide) (by omega) (by omega) hrank _
    fun hrank => ?_
  refine field_cons_lt (by decide) (by omega) (by omega) (by decide) (by omega) (by omega) hrank _
    fun hrank => ?_
  refine field_cons_lt (by decide) (by omega) (by omega) (by decide) (by omega) (by omega) hrank _
    fun hrank => ?_
  refine field_cons_lt (by decide) (by omega) (by omega) (by decide) (by omega) (by omega) hrank _
    fun hrank => ?_
  -- then the second and the fraction that the text shows
  obtain ⟨-, -, hshown⟩ := t.fields_lt
  obtain ⟨-, -, hshown'⟩ := u.fields_lt
  refine field_lt (by decide) hshown hshown' (by decide) (Int.natCast_nonneg _)
    (Int.ofNat_lt.mpr u.fraction_lt) (hutc.shown_lt hrank) ?_
  exact fun hrank => fractionText_lt u.fraction_lt (Int.ofNat_lt.mp hrank) _

/-- So a list that is sorted by its texts is sorted by time. -/
theorem le_of_columnText_le (ht : t.Keepable) (hu : u.Keepable)
    (h : t.columnText ≤ u.columnText) : t ≤ u := by
  by_contra hnot
  exact String.not_lt.mpr h (columnText_lt hu ht (Int.not_le.mp hnot))

end Instant

/-- What is listed by the texts of instants is listed in their order. -/
theorem byText_chronological {α : Type} {when : α → Instant} {l : List α}
    (h : ∀ a ∈ l, (when a).Keepable) :
    (byText (fun a => (when a).columnText) l).Pairwise fun a b => when a ≤ when b := by
  apply (byText_sorted _ l).imp_of_mem
  intro a b ha hb hle
  exact Instant.le_of_columnText_le (h a (mem_byText.mp ha)) (h b (mem_byText.mp hb)) hle

end SignOff
