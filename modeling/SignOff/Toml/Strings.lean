/-
  SignOff/Toml/Strings.lean
  =========================
  **Strings and keys of TOML.**  A string stands between single quotes as it is, or between
  double quotes with escapes; between three quotes it may span lines, and the line end
  directly after them does not count.  A quote run at the end of such a string has up to
  two quotes that belong to the string.  In a string of several lines with escapes, a
  backslash at a line's end takes away the blanks and line ends that follow.

  Every reader takes the characters that are left and gives what it has read with the rest.
  Line ends are single line feeds here.
-/
import SignOff.Toml.Basic
import SignOff.Text.Digits

namespace SignOff.Toml

open Text

/-- A reader: what it has read from the front of a text, and the rest. -/
abbrev Reader (α : Type) := List Char → Option (α × List Char)

/-- A character that may stand for itself in a comment or a string: a tab, or anything but
    the control characters of ASCII. -/
def isPlain (c : Char) : Bool := c == '\t' || (32 ≤ c.toNat && c.toNat != 127)

/-- A blank inside a line. -/
def isGap (c : Char) : Bool := c == ' ' || c == '\t'

def skipGap (cs : List Char) : List Char := cs.dropWhile isGap

/-! ### Escapes -/

/-- The number that hexadecimal digits stand for. -/
def hexNumber? (ds : List Char) : Option Nat :=
  ds.foldlM (fun n d => (hexDigit? d).map fun v => 16 * n + v) 0

/-- The character that hexadecimal digits name, which must not be half of a surrogate pair
    nor lie past the last one. -/
def charOf? (ds : List Char) : Option Char := do
  let n ← hexNumber? ds
  if n < 0xD800 ∨ (0xDFFF < n ∧ n < 0x110000) then some (Char.ofNat n) else none

/-- The character that a one-letter escape names. -/
def escaped? (c : Char) : Option Char :=
  if c = '"' ∨ c = '\\' then some c
  else if c = 'b' then some '\x08'
  else if c = 't' then some '\x09'
  else if c = 'n' then some '\x0a'
  else if c = 'f' then some '\x0c'
  else if c = 'r' then some '\x0d'
  else none

/-- One more character in front of what a reader has read. -/
def consed (c : Char) (r : Option (List Char × List Char)) : Option (List Char × List Char) :=
  r.map fun p => (c :: p.1, p.2)

def consed? (c : Option Char) (r : Option (List Char × List Char)) :
    Option (List Char × List Char) :=
  c.bind fun c => consed c r

/-! ### Strings on one line -/

/-- A string with escapes, after its opening quote. -/
def basic? : Reader (List Char)
  | [] => none
  | '"' :: rest => some ([], rest)
  | '\\' :: 'u' :: a :: b :: c :: d :: rest => consed? (charOf? [a, b, c, d]) (basic? rest)
  | '\\' :: 'U' :: a :: b :: c :: d :: e :: f :: g :: h :: rest =>
    consed? (charOf? [a, b, c, d, e, f, g, h]) (basic? rest)
  | '\\' :: e :: rest => consed? (escaped? e) (basic? rest)
  | c :: rest => if isPlain c ∧ c ≠ '\\' then consed c (basic? rest) else none

/-- A string without escapes, after its opening quote. -/
def literal? : Reader (List Char)
  | [] => none
  | '\'' :: rest => some ([], rest)
  | c :: rest => if isPlain c then consed c (literal? rest) else none

/-! ### Strings over several lines -/

/-- Where a string of several lines stands with respect to a backslash at a line's end. -/
inductive Fold where
  /-- no such backslash is near -/
  | none
  /-- between the backslash and the line's end -/
  | before
  /-- past the line's end, where blanks and line ends are skipped -/
  | after
deriving DecidableEq, Repr

/-- The character is skipped, and how it goes on then. -/
def Fold.skips? (fold : Fold) (c : Char) : Option Fold :=
  match fold with
  | .none => .none
  | .before => if isGap c then some .before else if c = '\n' then some .after else .none
  | .after => if isGap c || c == '\n' then some .after else .none

/-- A backslash is followed by nothing but blanks up to the end of its line. -/
def endsLine (cs : List Char) : Bool := (skipGap cs).head? == some '\n'

/-- A string with escapes over several lines, after its opening quotes. -/
def basicLines? : Fold → Reader (List Char)
  | _, [] => none
  | fold, c :: rest =>
    match fold.skips? c with
    | some fold => basicLines? fold rest
    | none =>
      match c, rest with
      | '"', '"' :: '"' :: '"' :: '"' :: rest => some (['"', '"'], rest)
      | '"', '"' :: '"' :: '"' :: rest => some (['"'], rest)
      | '"', '"' :: '"' :: rest => some ([], rest)
      | '\\', 'u' :: a :: b :: c :: d :: rest =>
        consed? (charOf? [a, b, c, d]) (basicLines? .none rest)
      | '\\', 'U' :: a :: b :: c :: d :: e :: f :: g :: h :: rest =>
        consed? (charOf? [a, b, c, d, e, f, g, h]) (basicLines? .none rest)
      | '\\', e :: rest' =>
        if endsLine (e :: rest') then basicLines? .before (e :: rest')
        else consed? (escaped? e) (basicLines? .none rest')
      | c, rest =>
        if (isPlain c || c == '\n') && c != '\\' then consed c (basicLines? .none rest) else none

/-- A string without escapes over several lines, after its opening quotes. -/
def literalLines? : Reader (List Char)
  | [] => none
  | '\'' :: '\'' :: '\'' :: '\'' :: '\'' :: rest => some (['\'', '\''], rest)
  | '\'' :: '\'' :: '\'' :: '\'' :: rest => some (['\''], rest)
  | '\'' :: '\'' :: '\'' :: rest => some ([], rest)
  | c :: rest => if isPlain c || c == '\n' then consed c (literalLines? rest) else none

/-- The text without the line end in front. -/
def skipBreak : List Char → List Char
  | '\n' :: rest => rest
  | cs => cs

/-- The characters that a reader has read, as a text. -/
def asText (r : Option (List Char × List Char)) : Option (String × List Char) :=
  r.map fun p => (String.ofList p.1, p.2)

/-- A string of any form. -/
def string? : Reader String
  | '"' :: '"' :: '"' :: rest => asText (basicLines? .none (skipBreak rest))
  | '\'' :: '\'' :: '\'' :: rest => asText (literalLines? (skipBreak rest))
  | '"' :: rest => asText (basic? rest)
  | '\'' :: rest => asText (literal? rest)
  | _ => none

/-! ### Keys -/

/-- A character of a key without quotes. -/
def isBare (c : Char) : Bool := c.isAlphanum || c == '_' || c == '-'

/-- One part of a key: bare, or a string on one line. -/
def part? : Reader String
  | '"' :: rest => asText (basic? rest)
  | '\'' :: rest => asText (literal? rest)
  | cs =>
    let name := cs.takeWhile isBare
    if name.isEmpty then none else some (String.ofList name, cs.dropWhile isBare)

/-- The most levels to which keys and values may be nested, plus one. -/
def levelLimit : Nat := 80

/-- A key of at most so many parts, with blanks around each. -/
def keyParts? : Nat → Reader Key
  | 0, _ => none
  | n + 1, cs =>
    match part? (skipGap cs) with
    | none => none
    | some (name, rest) =>
      match skipGap rest with
      | '.' :: rest =>
        (keyParts? n rest).map fun p => (⟨name :: p.1.front, p.1.last⟩, p.2)
      | rest => some (⟨[], name⟩, rest)

def key? : Reader Key := keyParts? (levelLimit - 1)

end SignOff.Toml
