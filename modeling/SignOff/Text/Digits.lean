/-
  SignOff/Text/Digits.lean
  ========================
  **Decimal digits.**  Numbers are written with `Nat.toDigits 10`, padded on the left with
  zeros where a field has a least width, and read back from runs of ASCII digits.
-/

namespace SignOff.Text

/-- The decimal digits of `n`, with zeros in front until there are at least `width`. -/
def padded (width n : Nat) : List Char :=
  let ds := Nat.toDigits 10 n
  List.replicate (width - ds.length) '0' ++ ds

/-- The number that a run of ASCII digits stands for. -/
def numberOf (ds : List Char) : Nat := Nat.ofDigitChars 10 ds 0

/-- The longest run of ASCII digits at the front, and what follows it. -/
def digitRun (cs : List Char) : List Char × List Char :=
  (cs.takeWhile Char.isDigit, cs.dropWhile Char.isDigit)

/-- The value of a hexadecimal digit in either case. -/
def hexDigit? (c : Char) : Option Nat :=
  if c.isDigit then some (c.toNat - '0'.toNat)
  else if 'a' ≤ c ∧ c ≤ 'f' then some (c.toNat - 'a'.toNat + 10)
  else if 'A' ≤ c ∧ c ≤ 'F' then some (c.toNat - 'A'.toNat + 10)
  else none

/-- Whether there is a minus, and what follows the sign, if there is one. -/
def sign : List Char → Bool × List Char
  | '+' :: rest => (false, rest)
  | '-' :: rest => (true, rest)
  | cs => (false, cs)

/-- At most `most` digits from the front, at least one of them: their number and the rest. -/
def number? (most : Nat) (cs : List Char) : Option (Nat × List Char) :=
  let ds := (digitRun cs).1.take most
  if ds.isEmpty then none else some (numberOf ds, cs.drop ds.length)

def twoDigits? : List Char → Option (Nat × List Char)
  | a :: b :: rest =>
    if a.isDigit && b.isDigit then some (numberOf [a, b], rest) else none
  | _ => none

/-- The fraction of a second that a run of digits after the point stands for, in
    nanoseconds: nine digits count, missing ones are zeros, further ones are dropped. -/
def nanosOf (ds : List Char) : Nat :=
  numberOf ((ds ++ List.replicate 9 '0').take 9)

end SignOff.Text
