/-
  SignOff/Json/Parser.lean
  ========================
  **Reading JSON.**  A text is read by the grammar of JSON and nothing beyond it.  Strings are
  read in two steps: first into pieces, which are characters and the 16-bit units that
  `\u` escapes name; then the units are put together to characters (`assemble`), which
  fails where half of a surrogate pair stands alone.

  Each reader takes the characters that are left and gives what it has read with the rest.
  The value reader is given more steps than there are characters, which is enough since
  every step uses at least one up.
-/
import SignOff.Json.Basic
import SignOff.Text.Digits

namespace SignOff.Json

open Text

/-- A blank between the parts of a value. -/
def isSpace (c : Char) : Bool := c == ' ' || c == '\n' || c == '\t' || c == '\r'

def skipSpace (cs : List Char) : List Char := cs.dropWhile isSpace

/-! ### Strings -/

/-- A part of a string: a character, or a 16-bit unit that an escape names. -/
inductive Piece where
  | char (c : Char)
  | unit (n : Nat)
deriving DecidableEq, Repr

/-- The unit that four hexadecimal digits name. -/
def unit? (a b c d : Char) : Option Nat := do
  some (4096 * (← hexDigit? a) + 256 * (← hexDigit? b) + 16 * (← hexDigit? c) + (← hexDigit? d))

/-- The character that a one-letter escape names. -/
def escaped? (c : Char) : Option Char :=
  if c = '"' ∨ c = '\\' ∨ c = '/' then some c
  else if c = 'b' then some '\x08'
  else if c = 't' then some '\x09'
  else if c = 'n' then some '\x0a'
  else if c = 'f' then some '\x0c'
  else if c = 'r' then some '\x0d'
  else none

/-- The pieces of a string up to its closing quote, and what follows the quote. -/
def pieces : List Char → Option (List Piece × List Char)
  | [] => none
  | '"' :: rest => some ([], rest)
  | '\\' :: 'u' :: a :: b :: c :: d :: rest =>
    match unit? a b c d, pieces rest with
    | some n, some (ps, r) => some (.unit n :: ps, r)
    | _, _ => none
  | '\\' :: e :: rest =>
    match escaped? e, pieces rest with
    | some c, some (ps, r) => some (.char c :: ps, r)
    | _, _ => none
  | c :: rest =>
    if c = '\\' ∨ c.toNat < 32 then none
    else match pieces rest with
      | some (ps, r) => some (.char c :: ps, r)
      | none => none

/-- The unit is the first half of a surrogate pair. -/
def isHighSurrogate (n : Nat) : Bool := 0xD800 ≤ n && n < 0xDC00

/-- The unit is the second half of a surrogate pair. -/
def isLowSurrogate (n : Nat) : Bool := 0xDC00 ≤ n && n < 0xE000

/-- The characters that the pieces stand for, if no half of a pair stands alone. -/
def assemble : List Piece → Option (List Char)
  | [] => some []
  | .char c :: rest => (assemble rest).map fun cs => c :: cs
  | [.unit n] =>
    if isHighSurrogate n || isLowSurrogate n then none else some [Char.ofNat n]
  | .unit n :: p :: rest =>
    if isHighSurrogate n then
      match p with
      | .unit m =>
        if isLowSurrogate m then
          (assemble rest).map fun cs =>
            Char.ofNat (0x10000 + 0x400 * (n - 0xD800) + (m - 0xDC00)) :: cs
        else none
      | .char _ => none
    else if isLowSurrogate n then none
    else (assemble (p :: rest)).map fun cs => Char.ofNat n :: cs

/-- A string after its opening quote: its text, if it has one, and the rest. -/
def string? (cs : List Char) : Option (Option String × List Char) :=
  (pieces cs).map fun (ps, rest) => ((assemble ps).map String.ofList, rest)

/-! ### Numbers -/

/-- The digits before a point or exponent: no zero in front of others. -/
def wholePart? (cs : List Char) : Option (List Char × List Char) :=
  match digitRun cs with
  | ([], _) => none
  | ('0' :: _ :: _, _) => none
  | part => some part

def pointPart? : List Char → Option (List Char × List Char)
  | '.' :: rest =>
    let (ds, rest) := digitRun rest
    if ds.isEmpty then none else some ('.' :: ds, rest)
  | cs => some ([], cs)

def signPart : List Char → List Char × List Char
  | '+' :: rest => (['+'], rest)
  | '-' :: rest => (['-'], rest)
  | cs => ([], cs)

def exponentPart? : List Char → Option (List Char × List Char)
  | [] => some ([], [])
  | e :: rest =>
    if e = 'e' ∨ e = 'E' then
      let (sign, rest) := signPart rest
      let (ds, rest) := digitRun rest
      if ds.isEmpty then none else some (e :: sign ++ ds, rest)
    else some ([], e :: rest)

/-- A number.  Without a point and an exponent it is an integer, except for minus zero. -/
def number? (cs : List Char) : Option (Json × List Char) := do
  let (minus, cs) := match cs with
    | '-' :: rest => (['-'], rest)
    | _ => ([], cs)
  let (whole, cs) ← wholePart? cs
  let (point, cs) ← pointPart? cs
  let (exponent, cs) ← exponentPart? cs
  if point.isEmpty && exponent.isEmpty then
    if minus.isEmpty then some (.int (numberOf whole), cs)
    else if numberOf whole = 0 then some (.real "-0", cs)
    else some (.int (-(numberOf whole : Int)), cs)
  else some (.real (String.ofList (minus ++ whole ++ point ++ exponent)), cs)

/-! ### Values -/

/-- An object, unless the name of a field is no text. -/
def ofFields (fields : List (Option String × Json)) : Json :=
  match fields.mapM fun (k, v) => k.map fun k => (k, v) with
  | some fields => .obj fields
  | none => .garbled

/-- The name of a field with the colon behind it. -/
def name? (cs : List Char) : Option (Option String × List Char) :=
  match skipSpace cs with
  | '"' :: rest => do
    let (k, rest) ← string? rest
    match skipSpace rest with
    | ':' :: rest => some (k, rest)
    | _ => none
  | _ => none

mutual

def value? : Nat → List Char → Option (Json × List Char)
  | 0, _ => none
  | steps + 1, cs =>
    match skipSpace cs with
    | 'n' :: 'u' :: 'l' :: 'l' :: rest => some (.null, rest)
    | 't' :: 'r' :: 'u' :: 'e' :: rest => some (.bool true, rest)
    | 'f' :: 'a' :: 'l' :: 's' :: 'e' :: rest => some (.bool false, rest)
    | '"' :: rest => do
      let (s, rest) ← string? rest
      some (s.elim .garbled .str, rest)
    | '[' :: rest =>
      match skipSpace rest with
      | ']' :: rest => some (.arr [], rest)
      | rest => do
        let (j, rest) ← value? steps rest
        let (js, rest) ← items? steps rest
        some (.arr (j :: js), rest)
    | '{' :: rest =>
      match skipSpace rest with
      | '}' :: rest => some (.obj [], rest)
      | rest => do
        let (k, rest) ← name? rest
        let (j, rest) ← value? steps rest
        let (fs, rest) ← fields? steps rest
        some (ofFields ((k, j) :: fs), rest)
    | rest => number? rest

/-- The items after the first, up to the closing bracket. -/
def items? : Nat → List Char → Option (List Json × List Char)
  | 0, _ => none
  | steps + 1, cs =>
    match skipSpace cs with
    | ']' :: rest => some ([], rest)
    | ',' :: rest => do
      let (j, rest) ← value? steps rest
      let (js, rest) ← items? steps rest
      some (j :: js, rest)
    | _ => none

/-- The fields after the first, up to the closing brace. -/
def fields? : Nat → List Char → Option (List (Option String × Json) × List Char)
  | 0, _ => none
  | steps + 1, cs =>
    match skipSpace cs with
    | '}' :: rest => some ([], rest)
    | ',' :: rest => do
      let (k, rest) ← name? rest
      let (j, rest) ← value? steps rest
      let (fs, rest) ← fields? steps rest
      some ((k, j) :: fs, rest)
    | _ => none

end

/-- The value that a text spells, if it spells one and nothing else. -/
def parse? (s : String) : Option Json :=
  let cs := s.toList
  match value? (cs.length + 1) cs with
  | some (j, rest) => if (skipSpace rest).isEmpty then some j else none
  | none => none

end SignOff.Json
