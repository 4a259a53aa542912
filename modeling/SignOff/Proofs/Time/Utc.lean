/-
  SignOff/Proofs/Time/Utc.lean
  ============================
  **Instants of universal time.**  Universal time has a leap second only at the end of a
  minute, behind second 59 (`Instant.IsUtc`); behind another second it stands only on clocks
  that are no whole number of minutes ahead.  Texts and the machine's clock give no other
  instants: whatever is read from a text or from the count of a clock is one of universal
  time, and so is whatever lies hours after it.

  The type holds more, an instant within a leap second behind any second.  Its text is that
  of an instant of universal time (`Instant.shown`), one second later on the clock, so the
  two cannot be told apart once they are written.
-/
import SignOff.Time.Lenient
import SignOff.Time.Text

namespace SignOff.Instant

variable {t : Instant}

/-- A leap second comes only at the end of a minute. -/
def IsUtc (t : Instant) : Prop := t.nano < 1000000000 ∨ t.second = 59

instance (t : Instant) : Decidable t.IsUtc := inferInstanceAs (Decidable (_ ∨ _))

/-- The instant of universal time that has the same text. -/
def shown (t : Instant) : Instant :=
  if h : t.IsUtc then t
  else
    ⟨t.date, t.hour, t.minute, t.second + 1, t.nano % 1000000000, t.hour_lt, t.minute_lt,
      by have := t.second_lt; unfold IsUtc at h; omega, t.nano_mod_lt⟩

theorem shown_of_isUtc (h : t.IsUtc) : t.shown = t := dif_pos h

/-- Within a leap second that universal time does not have, the clock has gone on. -/
theorem second_shown (h : ¬t.IsUtc) :
    t.shown.second = t.second + 1 ∧ t.shown.nano = t.nano % 1000000000 := by
  rw [shown, dif_neg h]
  exact ⟨rfl, rfl⟩

theorem shown_eq_self_iff : t.shown = t ↔ t.IsUtc := by
  refine ⟨fun h => ?_, shown_of_isUtc⟩
  by_cases hutc : t.IsUtc
  · exact hutc
  · have hsecond := (second_shown hutc).1
    rw [h] at hsecond
    omega

theorem isUtc_shown (t : Instant) : t.shown.IsUtc := by
  by_cases h : t.IsUtc
  · rwa [shown_of_isUtc h]
  · refine .inl ?_
    rw [(second_shown h).2]
    omega

theorem shown_shown (t : Instant) : t.shown.shown = t.shown := shown_of_isUtc t.isUtc_shown

theorem map_shown_shown (t : Option Instant) : (t.map shown).map shown = t.map shown := by
  rw [Option.map_map]
  exact congrArg (t.map ·) (funext shown_shown)

theorem forall_mem_map_shown {P : Instant → Prop} {t : Option Instant}
    (h : ∀ x ∈ t, P x.shown) : ∀ x ∈ t.map shown, P x := by
  intro x hx
  obtain ⟨y, hy, rfl⟩ := Option.map_eq_some_iff.mp hx
  exact h y hy

theorem date_shown (t : Instant) : t.shown.date = t.date := by
  rw [shown]
  split <;> rfl

/-- The fields of the text are those of the instant that it shows. -/
theorem ofFields?_shown (t : Instant) :
    ofFields? t.date t.hour t.minute (t.second + t.nano / 1000000000) (t.nano % 1000000000) =
      some t.shown := by
  have hsecond := t.second_lt
  have hnano := t.nano_lt
  have hfields : t.hour < 24 ∧ t.minute < 60 ∧ t.second + t.nano / 1000000000 ≤ 60 ∧
      t.nano % 1000000000 < 1000000000 :=
    ⟨t.hour_lt, t.minute_lt, by omega, by omega⟩
  rw [ofFields?, dif_pos hfields, shown]
  split
  · next h =>
    -- second 60 is read as second 59 with a leap second behind it
    rcases t with ⟨d, hour, minute, second, nano⟩
    simp only [IsUtc] at h hsecond hnano
    simp only [Option.some.injEq, mk.injEq, true_and]
    omega
  · next h =>
    simp only [IsUtc] at h
    simp only [Option.some.injEq, mk.injEq, true_and]
    omega

/-- An instant and the one that it is shown as have one text. -/
theorem chars_shown (t : Instant) (zone : List Char) : t.shown.chars zone = t.chars zone := by
  have hsecond := t.second_lt
  have hnano := t.nano_lt
  by_cases h : t.IsUtc
  · rw [shown_of_isUtc h]
  · obtain ⟨hshown, hrest⟩ := second_shown h
    have hsame : t.shown.hour = t.hour ∧ t.shown.minute = t.minute := by
      rw [shown, dif_neg h]
      exact ⟨rfl, rfl⟩
    simp only [IsUtc] at h
    have hclock : t.shown.second + t.shown.nano / 1000000000 = t.second + t.nano / 1000000000 := by
      omega
    have hfraction : t.shown.nano % 1000000000 = t.nano % 1000000000 := by omega
    simp only [chars, hclock, hfraction, hsame, date_shown]

/-! ### Where instants come from -/

theorem isUtc_of_ofFields? {d : Date} {h m s n : Nat} (ht : ofFields? d h m s n = some t) :
    t.IsUtc := by
  rw [ofFields?] at ht
  split at ht
  · cases ht
    simp only [IsUtc]
    omega
  · cases ht

theorem isUtc_of_ofLocal? {d : Date} {h m s n : Nat} {ahead : Int}
    (ht : ofLocal? d h m s n ahead = some t) : t.IsUtc := by
  simp only [ofLocal?] at ht
  split at ht
  · obtain ⟨_, _, ht⟩ := Option.bind_eq_some_iff.mp ht
    exact isUtc_of_ofFields? ht
  · split at ht
    · exact isUtc_of_ofFields? ht
    · obtain ⟨_, _, ht⟩ := Option.bind_eq_some_iff.mp ht
      exact isUtc_of_ofFields? ht

/-- The clock gives instants of universal time. -/
theorem isUtc_of_ofClock? {nanos : Nat} (h : ofClock? nanos = some t) : t.IsUtc := by
  rw [ofClock?] at h
  simp only [Option.bind_eq_bind, Option.bind_eq_some_iff] at h
  obtain ⟨_, -, _, -, h⟩ := h
  exact isUtc_of_ofFields? h

/-- So do texts. -/
theorem isUtc_of_ofText? {s : String} (h : ofText? s = some t) : t.IsUtc := by
  obtain ⟨⟨d, cs⟩, -, h⟩ := Option.bind_eq_some_iff.mp h
  -- behind the date stands its end and the time of day
  cases cs with
  | nil => cases h
  | cons c cs =>
    dsimp only at h
    split at h
    · simp only [Option.bind_eq_bind, Option.bind_some, Option.bind_eq_some_iff] at h
      obtain ⟨_, _, _, _, _, _, _, _, _, _, _, _, _, _, h⟩ := h
      split at h
      · split at h
        · exact isUtc_of_ofLocal? h
        · cases h
      · cases h
    · cases h

/-- Moving by hours keeps to universal time. -/
theorem IsUtc.plusHours? {u : Instant} {n : Nat} (h : t.IsUtc) (hu : t.plusHours? n = some u) :
    u.IsUtc := by
  rw [Instant.plusHours?] at hu
  split at hu
  · cases hu
    exact h
  · obtain ⟨_, _, rfl⟩ := Option.map_eq_some_iff.mp hu
    exact .inl (Nat.mod_lt _ (by decide))

end SignOff.Instant
