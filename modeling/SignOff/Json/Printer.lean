/-
  SignOff/Json/Printer.lean
  =========================
  **Printing JSON.**  Two layouts: compact, without any blanks, for lines; and pretty, with
  every item and field on a line of its own, two blanks deeper than what holds it, and
  nothing between the brackets of an empty array or object.  In strings only the quote,
  the backslash and the control characters below U+0020 are escaped.
-/
import SignOff.Json.Basic

namespace SignOff.Json

def hexDigit (n : Nat) : Char := Nat.digitChar n

/-- A character as it stands in a string. -/
def escape (c : Char) : List Char :=
  if c = '"' then ['\\', '"']
  else if c = '\\' then ['\\', '\\']
  else if c = '\x08' then ['\\', 'b']
  else if c = '\x09' then ['\\', 't']
  else if c = '\x0a' then ['\\', 'n']
  else if c = '\x0c' then ['\\', 'f']
  else if c = '\x0d' then ['\\', 'r']
  else if c.toNat < 32 then
    ['\\', 'u', '0', '0', hexDigit (c.toNat / 16), hexDigit (c.toNat % 16)]
  else [c]

def quoted (s : String) : List Char := '"' :: (s.toList.flatMap escape ++ ['"'])

def integer (n : Int) : List Char :=
  if n < 0 then '-' :: Nat.toDigits 10 n.natAbs else Nat.toDigits 10 n.natAbs

/-- What has no parts is the same in both layouts; a value that is no text has none. -/
def leaf : Json → List Char
  | .bool true => ['t', 'r', 'u', 'e']
  | .bool false => ['f', 'a', 'l', 's', 'e']
  | .int n => integer n
  | .real text => text.toList
  | .str s => quoted s
  | _ => ['n', 'u', 'l', 'l']

/-! ### Compact layout -/

mutual

/-- The value without any blanks. -/
def compactChars : Json → List Char
  | .arr [] => ['[', ']']
  | .arr (j :: rest) => '[' :: (compactChars j ++ compactItems rest)
  | .obj [] => ['{', '}']
  | .obj ((k, j) :: rest) => '{' :: (quoted k ++ ':' :: (compactChars j ++ compactFields rest))
  | j => leaf j

/-- The items after the first, with the closing bracket. -/
def compactItems : List Json → List Char
  | [] => [']']
  | j :: rest => ',' :: (compactChars j ++ compactItems rest)

/-- The fields after the first, with the closing brace. -/
def compactFields : List (String × Json) → List Char
  | [] => ['}']
  | (k, j) :: rest => ',' :: (quoted k ++ ':' :: (compactChars j ++ compactFields rest))

end

/-- The value on one line, without any blanks. -/
def compact (j : Json) : String := String.ofList (compactChars j)

/-! ### Pretty layout -/

/-- The start of a line at the given depth. -/
def newline (depth : Nat) : List Char := '\n' :: List.replicate (2 * depth) ' '

mutual

/-- The value with its parts one line each, at the given depth. -/
def prettyChars (depth : Nat) : Json → List Char
  | .arr [] => ['[', ']']
  | .arr (j :: rest) =>
    '[' :: (newline (depth + 1) ++ prettyChars (depth + 1) j ++ prettyItems depth rest)
  | .obj [] => ['{', '}']
  | .obj ((k, j) :: rest) =>
    '{' :: (newline (depth + 1) ++ quoted k ++ ':' :: ' ' :: prettyChars (depth + 1) j
      ++ prettyFields depth rest)
  | j => leaf j

def prettyItems (depth : Nat) : List Json → List Char
  | [] => newline depth ++ [']']
  | j :: rest =>
    ',' :: (newline (depth + 1) ++ prettyChars (depth + 1) j ++ prettyItems depth rest)

def prettyFields (depth : Nat) : List (String × Json) → List Char
  | [] => newline depth ++ ['}']
  | (k, j) :: rest =>
    ',' :: (newline (depth + 1) ++ quoted k ++ ':' :: ' ' :: prettyChars (depth + 1) j
      ++ prettyFields depth rest)

end

/-- The value with two blanks per level, as commands print it. -/
def pretty (j : Json) : String := String.ofList (prettyChars 0 j)

end SignOff.Json
