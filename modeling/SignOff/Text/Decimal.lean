/-
  SignOff/Text/Decimal.lean
  =========================
  **Decimal numbers.**  A numeral with a point and a power of ten stands for an exact number
  (`Decimal`).  Where such a number is kept in double precision, what counts is the number
  of 53 bits that is nearest to it, with a tie going to the even one.  That number is found
  as a fraction of whole numbers (`nearest`), so that one can tell exactly whether it is
  infinite (`isHuge`) and whether it is whole (`whole?`).
-/
import SignOff.Text.Digits

namespace SignOff

/-- The number `± digits · 10 ^ power`. -/
structure Decimal where
  negative : Bool
  digits : Nat
  power : Int
deriving DecidableEq, Repr

namespace Decimal

open Text

/-! ### Numerals -/

/-- The power of ten behind an `e`, zero if there is none.  The `e` must have digits. -/
def power? : List Char → Option (Int × List Char)
  | [] => some (0, [])
  | e :: rest =>
    if e = 'e' ∨ e = 'E' then
      let (negative, rest) := sign rest
      let (ds, rest) := digitRun rest
      if ds.isEmpty then none
      else some (if negative then -(numberOf ds : Int) else numberOf ds, rest)
    else some (0, e :: rest)

/-- The digits behind a point, none if there is no point. -/
def fraction : List Char → List Char × List Char
  | '.' :: rest => digitRun rest
  | cs => ([], cs)

/-- The numeral at the front: a sign or none, digits with at most one point among, before or
    behind them, and a power of ten or none. -/
def read? (cs : List Char) : Option (Decimal × List Char) := do
  let (negative, cs) := sign cs
  let (whole, cs) := digitRun cs
  let (fraction, cs) := fraction cs
  if whole.isEmpty && fraction.isEmpty then none
  else
    let (power, cs) ← power? cs
    some (⟨negative, numberOf (whole ++ fraction), power - fraction.length⟩, cs)

/-- The number that a text spells, if it is a numeral and nothing else. -/
def ofChars? (cs : List Char) : Option Decimal :=
  (read? cs).bind fun (d, rest) => if rest.isEmpty then some d else none

/-! ### Double precision -/

/-- `num / den` to the nearest whole number, a half to the even one. -/
def roundDiv (num den : Nat) : Nat :=
  let q := num / den
  let r := num % den
  if 2 * r < den ∨ (2 * r = den ∧ q % 2 = 0) then q else q + 1

/-- The number of double precision that is nearest to `num / den`, as a fraction whose
    denominator is a power of two.  Its last bit stands for `2 ^ unit`: 53 bits are kept of
    what is not too small for them, and there is no largest number. -/
def nearest (num den : Nat) : Nat × Nat :=
  let top : Int := num.log2 - den.log2
  let top := if den * Nat.pow 2 top.toNat ≤ num * Nat.pow 2 (-top).toNat then top else top - 1
  let unit := max (top - 52) (-1074)
  if 0 ≤ unit then (roundDiv num (den * Nat.pow 2 unit.toNat) * Nat.pow 2 unit.toNat, 1)
  else (roundDiv (num * Nat.pow 2 (-unit).toNat) den, Nat.pow 2 (-unit).toNat)

/-- One more than the place of the first digit, counted from the point. -/
def size (d : Decimal) : Int := (Nat.toDigits 10 d.digits).length + d.power

/-- The number without its sign, as a fraction. -/
def fractionOf (d : Decimal) : Nat × Nat :=
  if 0 ≤ d.power then (d.digits * Nat.pow 10 d.power.toNat, 1) else (d.digits, Nat.pow 10 (-d.power).toNat)

/-- The number without its sign in double precision, unless it is far beyond its range: `none`
    for what is too large.  Its size is first judged by its digits, so that no large power
    is built. -/
def double? (d : Decimal) : Option (Nat × Nat) :=
  if d.digits = 0 ∨ d.size < -400 then some (0, 1)
  else if 400 < d.size then none
  else some (nearest d.fractionOf.1 d.fractionOf.2)

/-- In double precision the number is infinite. -/
def isHuge (d : Decimal) : Bool :=
  match d.double? with
  | none => true
  | some (num, den) => den * Nat.pow 2 1024 ≤ num

/-- The whole number that the number is in double precision. -/
def whole? (d : Decimal) : Option Int :=
  match d.double? with
  | none => none
  | some (num, den) =>
    if num % den = 0 ∧ num < den * Nat.pow 2 1024 then
      some (if d.negative then -(num / den : Nat) else (num / den : Nat))
    else none

end Decimal

end SignOff
