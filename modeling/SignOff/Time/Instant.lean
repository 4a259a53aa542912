/-
  SignOff/Time/Instant.lean
  =========================
  **Instants.**  An instant is a date and a time of day, exact to the nanosecond.  The
  nanoseconds may run on through a leap second that comes after the second: that is where a
  clock of universal time shows second 60 at the end of a minute (`Instant.ofFields?`).
  Such an instant comes after every other one of its second and before the next second, so
  the order of instants is the order of the fields, taken from the year down
  (`Instant.rank`).

  The type allows a leap second after any second.  Universal time has none within a minute,
  and no clock and no text that is read gives an instant in one.

  Two operations move an instant.  `plusHours?` adds whole hours and fails past the end of
  the calendar; a leap second cannot be kept on a later day, so the count starts from
  the same fraction of the second before it.  `ofLocal?` turns the reading of a clock that
  runs ahead of universal time by some minutes into the instant it shows.
-/
import SignOff.Time.Date

namespace SignOff

/-- A date with a time of day: hour, minute, second and nanosecond, where the nanoseconds
    from 1000000000 on are those of a leap second. -/
structure Instant where
  date : Date
  hour : Nat
  minute : Nat
  second : Nat
  nano : Nat
  hour_lt : hour < 24
  minute_lt : minute < 60
  second_lt : second < 60
  nano_lt : nano < 2000000000
deriving DecidableEq, Repr

namespace Instant

/-- The instant at which a clock of universal time shows these fields.  Second 60 is a leap
    second after second 59. -/
def ofFields? (d : Date) (h m s n : Nat) : Option Instant :=
  if hh : h < 24 ∧ m < 60 ∧ s ≤ 60 ∧ n < 1000000000 then
    some ⟨d, h, m, min s 59, s / 60 * 1000000000 + n, hh.1, hh.2.1, by omega, by omega⟩
  else none

/-- The instant so many nanoseconds after the beginning of the year 1970, on a clock that
    does not count leap seconds. -/
def ofClock? (nanos : Nat) : Option Instant := do
  let seconds := nanos / 1000000000
  let d ← (← Date.ofFields? 1970 1 1).after? (seconds / 86400)
  ofFields? d (seconds % 86400 / 3600) (seconds % 3600 / 60) (seconds % 60) (nanos % 1000000000)

/-! ### Order -/

/-- The fields as one number in mixed radix: the year counts most, the nanosecond least. -/
def rank (t : Instant) : Int :=
  (((((t.date.year * 13 + t.date.month) * 32 + t.date.day) * 24 + t.hour) * 60
    + t.minute) * 60 + t.second) * 2000000000 + t.nano

instance : LT Instant := ⟨fun a b => a.rank < b.rank⟩

instance : LE Instant := ⟨fun a b => a.rank ≤ b.rank⟩

instance (a b : Instant) : Decidable (a < b) := inferInstanceAs (Decidable (a.rank < b.rank))

instance (a b : Instant) : Decidable (a ≤ b) := inferInstanceAs (Decidable (a.rank ≤ b.rank))

/-! ### Moving along the calendar -/

theorem nano_mod_lt (t : Instant) : t.nano % 1000000000 < 2000000000 := by omega

/-- The instant `n` hours later, unless the calendar ends before.  Adding nothing keeps a
    leap second; adding more starts from the same fraction of the second before it. -/
def plusHours? (t : Instant) (n : Nat) : Option Instant :=
  if n = 0 then some t
  else
    (t.date.after? ((t.hour + n) / 24)).map fun d =>
      ⟨d, (t.hour + n) % 24, t.minute, t.second, t.nano % 1000000000, by omega, t.minute_lt,
        t.second_lt, t.nano_mod_lt⟩

/-- The instant at which a clock that is `ahead` minutes ahead of universal time (less than
    a day either way) shows the given reading. -/
def ofLocal? (d : Date) (h m s n : Nat) (ahead : Int) : Option Instant :=
  let minutes := (60 * h + m : Int) - ahead
  if minutes < 0 then
    d.previous?.bind fun d =>
      ofFields? d ((minutes + 1440).toNat / 60) ((minutes + 1440).toNat % 60) s n
  else if minutes < 1440 then
    ofFields? d (minutes.toNat / 60) (minutes.toNat % 60) s n
  else
    d.next?.bind fun d =>
      ofFields? d ((minutes - 1440).toNat / 60) ((minutes - 1440).toNat % 60) s n

end Instant

end SignOff
