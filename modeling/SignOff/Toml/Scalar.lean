/-
  SignOff/Toml/Scalar.lean
  ========================
  **Numbers, dates and times of TOML.**  Each reader takes as much as belongs to its form
  and leaves the rest; whether something may follow is decided where the value stands.
  Between two digits of a number there may be one underscore.  A date has to exist.
-/
import SignOff.Toml.Strings
import SignOff.Text.Decimal
import SignOff.Time.Date

namespace SignOff.Toml

open Text

/-! ### Dates and times -/

/-- Two digits that stand for at most `most`. -/
def field? (most : Nat) (cs : List Char) : Option (Nat × List Char) :=
  (twoDigits? cs).bind fun p => if p.1 ≤ most then some p else none

/-- What follows a date that exists. -/
def afterDate? (cs : List Char) : Option (List Char) := do
  let year := cs.take 4
  let '-' :: cs := cs.drop 4 | none
  let (month, cs) ← field? 12 cs
  let '-' :: cs := cs | none
  let (day, cs) ← field? 31 cs
  if year.length = 4 ∧ year.all Char.isDigit then
    (Date.ofFields? (numberOf year) month day).map fun _ => cs
  else none

/-- What follows the fraction of a second, if there is one. -/
def afterFraction (cs : List Char) : List Char :=
  match cs with
  | '.' :: rest => if (digitRun rest).1.isEmpty then cs else (digitRun rest).2
  | _ => cs

/-- What follows a time of day. -/
def afterTime? (cs : List Char) : Option (List Char) := do
  let (_, cs) ← field? 23 cs
  let ':' :: cs := cs | none
  let (_, cs) ← field? 59 cs
  let ':' :: cs := cs | none
  let (_, cs) ← field? 60 cs
  return afterFraction cs

/-- What follows hours and minutes. -/
def afterMinutes? (cs : List Char) : Option (List Char) := do
  let (_, cs) ← field? 23 cs
  let ':' :: cs := cs | none
  let (_, cs) ← field? 59 cs
  return cs

/-- What follows the offset from universal time, if there is one. -/
def afterOffset (cs : List Char) : List Char :=
  match cs with
  | c :: rest =>
    if c = 'Z' ∨ c = 'z' then rest
    else if c = '+' ∨ c = '-' then (afterMinutes? rest).getD cs
    else cs
  | [] => cs

/-- What follows the time and offset behind a date, if there are any. -/
def afterDay (cs : List Char) : List Char :=
  match cs with
  | c :: rest =>
    if c = 'T' ∨ c = 't' ∨ c = ' ' then ((afterTime? rest).map afterOffset).getD cs else cs
  | [] => cs

/-- A date, with or without a time, or a time alone. -/
def moment? : Reader Toml := fun cs =>
  match afterDate? cs with
  | some rest => some (.moment, afterDay rest)
  | none => (afterTime? cs).map fun rest => (.moment, rest)

/-! ### Numbers -/

/-- Digits after a first one, with single underscores between them left out. -/
def moreDigits (isDigit : Char → Bool) : List Char → List Char × List Char
  | '_' :: d :: rest =>
    if isDigit d then
      let (ds, rest) := moreDigits isDigit rest
      (d :: ds, rest)
    else ([], '_' :: d :: rest)
  | d :: rest =>
    if isDigit d then
      let (ds, rest) := moreDigits isDigit rest
      (d :: ds, rest)
    else ([], d :: rest)
  | [] => ([], [])

def digits? (isDigit : Char → Bool) : Reader (List Char)
  | d :: rest =>
    if isDigit d then
      let (ds, rest) := moreDigits isDigit rest
      some (d :: ds, rest)
    else none
  | [] => none

/-- Decimal digits that do not begin with a zero, or a zero. -/
def whole? : Reader (List Char)
  | '0' :: rest => some (['0'], rest)
  | cs => digits? Char.isDigit cs

/-- The digits behind a point, or none. -/
def point? : Reader (List Char)
  | '.' :: rest => digits? Char.isDigit rest
  | cs => some ([], cs)

/-- The power of ten behind an `e`, zero if there is none. -/
def exponent? : Reader Int
  | c :: rest =>
    if c = 'e' ∨ c = 'E' then
      let (negative, rest) := sign rest
      (digits? Char.isDigit rest).map fun (ds, rest) =>
        (if negative then -(numberOf ds : Int) else numberOf ds, rest)
    else some (0, c :: rest)
  | [] => some (0, [])

/-- A number with a point or an exponent.  It must not round to positive infinity. -/
def float? : Reader Toml := fun cs => do
  let (negative, rest) := sign cs
  let (ds, rest) ← whole? rest
  let (fraction, rest') ← point? rest
  let (e, rest'') ← exponent? rest'
  if rest''.length = rest.length then none
  else if !negative && (Decimal.mk false (numberOf (ds ++ fraction)) (e - fraction.length)).isHuge
  then none
  else some (.float, rest'')

/-- One of the words for infinity and for no number. -/
def special? : Reader Toml := fun cs =>
  match (sign cs).2 with
  | 'i' :: 'n' :: 'f' :: rest => some (.float, rest)
  | 'n' :: 'a' :: 'n' :: rest => some (.float, rest)
  | _ => none

/-- An integer, if it has at most 64 bits. -/
def integerOf? (n : Int) (rest : List Char) : Option (Toml × List Char) :=
  if -9223372036854775808 ≤ n ∧ n < 9223372036854775808 then some (.integer n, rest) else none

/-- An integer after the letter that names its base. -/
def basedInteger? (base : Nat) : Reader Toml := fun cs => do
  let isDigit (c : Char) : Bool :=
    match hexDigit? c with
    | some v => v < base
    | none => false
  let (ds, rest) ← digits? isDigit cs
  let n ← ds.foldlM (fun n d => (hexDigit? d).map fun v => base * n + v) 0
  integerOf? n rest

/-- An integer, decimal or with its base. -/
def integer? : Reader Toml
  | '0' :: 'x' :: rest => basedInteger? 16 rest
  | '0' :: 'o' :: rest => basedInteger? 8 rest
  | '0' :: 'b' :: rest => basedInteger? 2 rest
  | cs =>
    let (negative, rest) := sign cs
    (whole? rest).bind fun (ds, rest) =>
      integerOf? (if negative then -(numberOf ds : Int) else numberOf ds) rest

def bool? : Reader Toml
  | 't' :: 'r' :: 'u' :: 'e' :: rest => some (.bool true, rest)
  | 'f' :: 'a' :: 'l' :: 's' :: 'e' :: rest => some (.bool false, rest)
  | _ => none

/-- A value that is neither a string nor made of others. -/
def scalar? : Reader Toml := fun cs =>
  moment? cs <|> float? cs <|> special? cs <|> integer? cs <|> bool? cs

end SignOff.Toml
