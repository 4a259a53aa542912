/-
  SignOff/Time/Strict.lean
  ========================
  **Reading the instants that rows keep.**  A row's timestamp has fixed positions: four
  digits of year, two of every other field, and an offset of universal time in full.  What
  is wrong with a text that has another form is told from left to right (`Flaw`), with the
  date checked as soon as it is read.
-/
import SignOff.Time.Instant
import SignOff.Text.Digits

namespace SignOff.Strict

open Text

/-- What is wrong with the text of a timestamp. -/
inductive Flaw where
  | tooShort
  | badCharacter
  | outOfRange
  | trailing
deriving DecidableEq, Repr

/-- How a message words the flaw. -/
def Flaw.message : Flaw → String
  | .tooShort => "premature end of input"
  | .badCharacter => "input contains invalid characters"
  | .outOfRange => "input is out of range"
  | .trailing => "trailing input"

/-- Two digits, in a place where the text is known to go on. -/
def two (cs : List Char) : Except Flaw (Nat × List Char) :=
  match twoDigits? cs with
  | some r => .ok r
  | none => .error .badCharacter

/-- One of the given characters, in a place where the text is known to go on. -/
def oneOf (allowed : List Char) : List Char → Except Flaw (List Char)
  | c :: rest => if c ∈ allowed then .ok rest else .error .badCharacter
  | [] => .error .badCharacter

/-- A value that exists, or a text out of range. -/
def inRange {α : Type} : Option α → Except Flaw α
  | some a => .ok a
  | none => .error .outOfRange

/-- The fraction of a second: a point and at least one digit, or nothing. -/
def fraction : List Char → Except Flaw (Nat × List Char)
  | '.' :: rest =>
    let (ds, after) := digitRun rest
    if rest.isEmpty then .error .tooShort
    else if ds.isEmpty then .error .badCharacter
    else .ok (nanosOf ds, after)
  | cs => .ok (0, cs)

/-- Two digits of an offset.  One more ASCII character is too few; anything else that is no
    digit is a bad character. -/
def offsetDigits : List Char → Except Flaw (Nat × List Char)
  | [] => .error .tooShort
  | [c] => if c.toNat < 128 then .error .tooShort else .error .badCharacter
  | cs => two cs

/-- Hours, a colon and minutes of an offset, in minutes. -/
def offsetSize (cs : List Char) : Except Flaw (Int × List Char) := do
  let (h, cs) ← offsetDigits cs
  let cs ← match cs with
    | [] => .error .tooShort
    | ':' :: rest => .ok rest
    | _ :: _ => .error .badCharacter
  let (m, cs) ← offsetDigits cs
  if 60 ≤ m then .error .outOfRange else .ok (60 * h + m, cs)

/-- The offset from universal time, in minutes.  Its hours may be more than there are: that
    is only told once nothing follows. -/
def offset : List Char → Except Flaw (Int × List Char)
  | [] => .error .tooShort
  | 'Z' :: rest => .ok (0, rest)
  | 'z' :: rest => .ok (0, rest)
  | '+' :: rest => offsetSize rest
  | '-' :: rest => (offsetSize rest).map fun (m, r) => (-m, r)
  | '\u2212' :: rest => (offsetSize rest).map fun (m, r) => (-m, r)
  | _ :: _ => .error .badCharacter

/-- The date at the front, checked before anything behind it is looked at. -/
def date (cs : List Char) : Except Flaw (Date × List Char) := do
  let (century, cs) ← two cs
  let (year, cs) ← two cs
  let cs ← oneOf ['-'] cs
  let (month, cs) ← two cs
  let cs ← oneOf ['-'] cs
  let (day, cs) ← two cs
  let d ← inRange (Date.ofFields? (100 * century + year) month day)
  .ok (d, cs)

/-- The whole text of a timestamp, known to be long enough for its fixed positions. -/
def instant (cs : List Char) : Except Flaw Instant := do
  let (d, cs) ← date cs
  let cs ← oneOf ['T', 't', ' '] cs
  let (h, cs) ← two cs
  let cs ← oneOf [':'] cs
  let (m, cs) ← two cs
  let cs ← oneOf [':'] cs
  let (s, cs) ← two cs
  let (n, cs) ← fraction cs
  let _ ← inRange (Instant.ofFields? d h m s n)
  let (ahead, cs) ← offset cs
  if !cs.isEmpty then .error .trailing
  else if 60 * 24 ≤ ahead.natAbs then .error .outOfRange
  else inRange (Instant.ofLocal? d h m s n ahead)

end SignOff.Strict

namespace SignOff

/-- The instant that a row's timestamp names, or what is wrong with its text.  The fixed
    positions take nineteen bytes. -/
def Instant.ofColumn (s : String) : Except Strict.Flaw Instant :=
  if s.utf8ByteSize < 19 then .error .tooShort else Strict.instant s.toList

end SignOff
