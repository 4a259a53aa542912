/-
  SignOff/Identifier.lean
  =======================
  **Identifiers.**  New transfers and steps are named by sixteen bytes that were drawn at
  random, written in hexadecimal with hyphens between groups.  Six bits are not random: they
  tell that the others are.
-/

namespace SignOff.Identifier

def hexDigit (n : Nat) : Char := (Nat.toDigits 16 n).headD '0'

def hexByte (b : Nat) : List Char := [hexDigit (b / 16 % 16), hexDigit (b % 16)]

/-- The byte at a place with the bits that are not random: the fourth variant of its kind. -/
def marked (place b : Nat) : Nat :=
  if place = 6 then 0x40 + b % 16 else if place = 8 then 0x80 + b % 64 else b

/-- A hyphen stands in front of the bytes at these places. -/
def isGroupStart (place : Nat) : Bool := [4, 6, 8, 10].contains place

/-- The text of the identifier that some random bytes make. -/
def ofBytes (bytes : List UInt8) : String :=
  String.ofList (bytes.zipIdx.flatMap fun (b, place) =>
    (if isGroupStart place then ['-'] else []) ++ hexByte (marked place b.toNat))

end SignOff.Identifier
