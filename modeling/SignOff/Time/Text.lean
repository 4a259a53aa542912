/-
  SignOff/Time/Text.lean
  ======================
  **Instants as text.**  An instant is written `YYYY-MM-DDTHH:MM:SS`, then the shortest of
  0, 3, 6 or 9 fraction digits that is exact, then a mark for universal time.  Years
  outside 0 … 9999 carry a sign and at least four digits.  A leap second is written as the
  second that comes after its own one: second 60 at the end of a minute.
-/
import SignOff.Time.Instant
import SignOff.Text.Digits

namespace SignOff

open Text

/-- A year in four digits, or with a sign and at least four digits outside 0 … 9999. -/
def yearText (y : Int) : List Char :=
  if 0 ≤ y ∧ y ≤ 9999 then padded 4 y.toNat
  else (if y < 0 then '-' else '+') :: padded 4 y.natAbs

namespace Date

def chars (d : Date) : List Char :=
  yearText d.year ++ '-' :: padded 2 d.month ++ '-' :: padded 2 d.day

/-- The date as `YYYY-MM-DD`. -/
def text (d : Date) : String := String.ofList d.chars

end Date

/-- A fraction of a second, in the shortest of 0, 3, 6 or 9 digits that is exact. -/
def fractionText (nano : Nat) : List Char :=
  if nano = 0 then []
  else if nano % 1000000 = 0 then '.' :: padded 3 (nano / 1000000)
  else if nano % 1000 = 0 then '.' :: padded 6 (nano / 1000)
  else '.' :: padded 9 nano

namespace Instant

/-- The characters of the instant, with `zone` as its mark for universal time. -/
def chars (zone : List Char) (t : Instant) : List Char :=
  t.date.chars ++ 'T' :: padded 2 t.hour ++ ':' :: padded 2 t.minute ++ ':' ::
    padded 2 (t.second + t.nano / 1000000000) ++ fractionText (t.nano % 1000000000) ++ zone

/-- The instant with `Z` for universal time, as records and messages show it. -/
def text (t : Instant) : String := String.ofList (t.chars ['Z'])

/-- The instant with `+00:00` for universal time, as rows keep it. -/
def columnText (t : Instant) : String := String.ofList (t.chars ['+', '0', '0', ':', '0', '0'])

end Instant

end SignOff
