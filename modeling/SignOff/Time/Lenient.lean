/-
  SignOff/Time/Lenient.lean
  =========================
  **Reading instants and dates given by people and other programs.**  The form is that of
  `Instant.text`, read generously: a field may have fewer digits and blanks in front of
  it, the fraction may have any number of digits, and the instant may name any offset
  from universal time.  An unsigned year has at most four digits, a signed one any number.
-/
import SignOff.Time.Instant
import SignOff.Text.Digits
import SignOff.Text.Blank

namespace SignOff.Lenient

open Text

/-- A field of at most two digits, with blanks in front of it. -/
def field? (cs : List Char) : Option (Nat × List Char) := number? 2 (skipBlanks cs)

/-- A separator, with blanks in front of it. -/
def mark? (c : Char) (cs : List Char) : Option (List Char) :=
  match skipBlanks cs with
  | d :: rest => if d = c then some rest else none
  | [] => none

/-- A year: at most four digits, or a sign and any number of digits. -/
def year? (cs : List Char) : Option (Int × List Char) :=
  match skipBlanks cs with
  | '-' :: rest => (number? rest.length rest).map fun (n, r) => (-(n : Int), r)
  | '+' :: rest => (number? rest.length rest).map fun (n, r) => ((n : Int), r)
  | rest => (number? 4 rest).map fun (n, r) => ((n : Int), r)

/-- Year, month and day, which must exist together. -/
def date? (cs : List Char) : Option (Date × List Char) := do
  let (y, cs) ← year? cs
  let cs ← mark? '-' cs
  let (m, cs) ← field? cs
  let cs ← mark? '-' cs
  let (d, cs) ← field? cs
  let date ← Date.ofFields? y m d
  some (date, cs)

/-- The fraction after the seconds: a point directly behind them and at least one digit. -/
def fraction? : List Char → Option (Nat × List Char)
  | '.' :: rest =>
    let (ds, rest) := digitRun rest
    if ds.isEmpty then none else some (nanosOf ds, rest)
  | cs => some (0, cs)

/-- What may stand between the hours and the minutes of an offset. -/
def isOffsetMark (c : Char) : Bool := c == ':' || isBlank c

/-- Hours and minutes of an offset, in minutes: two digits each, with any colons and blanks
    between them. -/
def offsetSize? (cs : List Char) : Option (Int × List Char) := do
  let (h, cs) ← twoDigits? cs
  let (m, cs) ← twoDigits? (cs.dropWhile isOffsetMark)
  if m < 60 ∧ h < 24 then some (60 * h + m, cs) else none

/-- The offset from universal time, in minutes: `Z`, `UTC`, or a sign with hours and minutes.
    The minus sign may also be the mathematical one, U+2212. -/
def offset? (cs : List Char) : Option (Int × List Char) :=
  match skipBlanks cs with
  | 'Z' :: rest => some (0, rest)
  | 'z' :: rest => some (0, rest)
  | '+' :: rest => offsetSize? rest
  | '-' :: rest => (offsetSize? rest).map fun (m, r) => (-m, r)
  | '\u2212' :: rest => (offsetSize? rest).map fun (m, r) => (-m, r)
  | a :: b :: c :: rest =>
    if [a, b, c].map Char.toLower = ['u', 't', 'c'] then some (0, rest) else none
  | _ => none

/-- The character between the date and the time of day. -/
def isDateEnd (c : Char) : Bool := c == 'T' || c == 't' || c == ' '

/-- A date, a time of day and an offset, with nothing but blanks behind them. -/
def instant? (cs : List Char) : Option Instant := do
  let (date, cs) ← date? cs
  let cs ← match cs with
    | c :: rest => if isDateEnd c then some rest else none
    | [] => none
  let (h, cs) ← field? cs
  let cs ← mark? ':' cs
  let (m, cs) ← field? cs
  let cs ← mark? ':' cs
  let (s, cs) ← field? cs
  let (n, cs) ← fraction? cs
  let (ahead, cs) ← offset? cs
  if (skipBlanks cs).isEmpty then
    if h < 24 ∧ m < 60 then Instant.ofLocal? date h m s n ahead else none
  else none

end SignOff.Lenient

namespace SignOff

/-- The instant that a text names, if it names one. -/
def Instant.ofText? (s : String) : Option Instant := Lenient.instant? s.toList

/-- The date that a text names, if it names one and nothing but blanks follows. -/
def Date.ofText? (s : String) : Option Date := do
  let (date, rest) ← Lenient.date? s.toList
  if (Text.skipBlanks rest).isEmpty then some date else none

end SignOff
