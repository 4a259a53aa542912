/-
  SignOff/Text/Lines.lean
  =======================
  **Lines of bytes.**  A content is split at its line feeds.  A carriage return directly in
  front of a line feed belongs to the line's end; what follows the last line feed is a
  line of its own unless it is empty.  Bytes become text if they are valid UTF-8.
-/

namespace SignOff.Text

def lineFeed : UInt8 := 10

def carriageReturn : UInt8 := 13

/-- A line without the carriage return at its end. -/
def withoutReturn (line : List UInt8) : List UInt8 :=
  if line.getLast? = some carriageReturn then line.dropLast else line

/-- The lines of a content, given the part of the current line already passed. -/
def linesFrom (line : List UInt8) : List UInt8 → List (List UInt8)
  | [] => if line.isEmpty then [] else [line]
  | b :: rest =>
    if b = lineFeed then withoutReturn line :: linesFrom [] rest
    else linesFrom (line ++ [b]) rest

def lines (content : List UInt8) : List (List UInt8) := linesFrom [] content

def bytesOf (s : String) : List UInt8 := s.toByteArray.data.toList

/-- The text of some bytes, if they are valid UTF-8. -/
def textOf? (bytes : List UInt8) : Option String := String.fromUTF8? ⟨bytes.toArray⟩

end SignOff.Text
