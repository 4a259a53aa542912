/-
  SignOff/Time/Date.lean
  ======================
  **Calendar dates.**  A date of the proleptic Gregorian calendar is a year, a month and a
  day that exist together, with the years running from -262143 to 262142.  Because the
  fields are the representation, a date's text and its place in the order are read off
  directly; only counting days forward (`Date.after?`) needs the calendar's arithmetic.

  Counting uses one fact: the calendar repeats every 400 years, which are 146097 days.  A
  day of such a cycle is found by walking the lengths of its years, then the lengths of
  the months of the year it falls in (`locate`).
-/

namespace SignOff

def minYear : Int := -262143

def maxYear : Int := 262142

/-- Every fourth year is a leap year, full centuries only every fourth time. -/
def isLeapYear (y : Int) : Bool := y % 4 == 0 && (y % 100 != 0 || y % 400 == 0)

/-- The lengths of a year's months, January first. -/
def monthLengths (leap : Bool) : List Nat :=
  [31, if leap then 29 else 28, 31, 30, 31, 30, 31, 31, 30, 31, 30, 31]

/-- The number of days in month `m` (1 to 12) of year `y`. -/
def daysInMonth (y : Int) (m : Nat) : Nat := (monthLengths (isLeapYear y)).getD (m - 1) 0

/-- Year, month and day name a date of the calendar. -/
abbrev DateExists (y : Int) (m d : Nat) : Prop :=
  minYear ≤ y ∧ y ≤ maxYear ∧ 1 ≤ m ∧ m ≤ 12 ∧ 1 ≤ d ∧ d ≤ daysInMonth y m

/-- A date that exists. -/
structure Date where
  year : Int
  month : Nat
  day : Nat
  exists_date : DateExists year month day
deriving DecidableEq, Repr

namespace Date

def ofFields? (y : Int) (m d : Nat) : Option Date :=
  if h : DateExists y m d then some ⟨y, m, d, h⟩ else none

/-! ### Counting days -/

/-- The day after, unless the calendar ends. -/
def next? (t : Date) : Option Date :=
  if t.day < daysInMonth t.year t.month then ofFields? t.year t.month (t.day + 1)
  else if t.month < 12 then ofFields? t.year (t.month + 1) 1
  else ofFields? (t.year + 1) 1 1

/-- The day before, unless the calendar begins. -/
def previous? (t : Date) : Option Date :=
  if 1 < t.day then ofFields? t.year t.month (t.day - 1)
  else if 1 < t.month then ofFields? t.year (t.month - 1) (daysInMonth t.year (t.month - 1))
  else ofFields? (t.year - 1) 12 31

/-- Where position `n` falls in consecutive runs of the given lengths: the run's index and
    the position inside it. -/
def locate : List Nat → Nat → Nat × Nat
  | [], n => (0, n)
  | len :: rest, n =>
    if n < len then (0, n)
    else
      let (i, r) := locate rest (n - len)
      (i + 1, r)

def total : List Nat → Nat
  | [] => 0
  | len :: rest => len + total rest

/-- The lengths of the 400 years of a cycle, which begins with a leap year. -/
def yearLengths : List Nat :=
  (List.range 400).map fun y => total (monthLengths (isLeapYear (y : Nat)))

def cycleDays : Nat := 146097

/-- How many days of its cycle of 400 years lie before the date. -/
def dayOfCycle (t : Date) : Nat :=
  total (yearLengths.take (t.year % 400).toNat) +
    total ((monthLengths (isLeapYear t.year)).take (t.month - 1)) + (t.day - 1)

/-- The date `n` days later, unless the calendar ends before. -/
def after? (t : Date) (n : Nat) : Option Date :=
  let position := t.dayOfCycle + n
  let (year, dayOfYear) := locate yearLengths (position % cycleDays)
  let (month, dayOfMonth) := locate (monthLengths (isLeapYear year)) dayOfYear
  ofFields? (400 * (t.year / 400 + position / cycleDays) + year) (month + 1) (dayOfMonth + 1)

end Date

end SignOff
