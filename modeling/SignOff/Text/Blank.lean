/-
  SignOff/Text/Blank.lean
  =======================
  **Blank characters.**  Which characters count as white space when a text is trimmed: the
  Unicode property White_Space, twenty-five characters in all.  Zero-width characters and
  the ASCII separators U+001C … U+001F do not have the property.
-/

namespace SignOff.Text

/-- The character has the Unicode property White_Space. -/
def isBlank (c : Char) : Bool :=
  let n := c.toNat
  (9 ≤ n && n ≤ 13) || n == 0x20 || n == 0x85 || n == 0xA0 || n == 0x1680 ||
    (0x2000 ≤ n && n ≤ 0x200A) || n == 0x2028 || n == 0x2029 || n == 0x202F ||
    n == 0x205F || n == 0x3000

/-- What is left of a text once the blanks in front of it are skipped. -/
def skipBlanks (cs : List Char) : List Char := cs.dropWhile isBlank

/-- A text of which nothing is left once its blanks are trimmed. -/
def allBlank (s : String) : Bool := s.toList.all isBlank

end SignOff.Text
