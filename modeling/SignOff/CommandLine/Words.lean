/-
  SignOff/CommandLine/Words.lean
  ==============================
  **The words of a command line.**  Words are read one level at a time: the flags in front of
  the command, then those of the command.  A word that is awaited as a value is one, even
  if it names a command; a word that begins with a dash is a flag all the same.  The first
  word that cannot be placed ends the reading.
-/
import SignOff.CommandLine.Flag

namespace SignOff.CommandLine

/-- What a word looks like. -/
inductive Word where
  /-- two dashes alone, after which nothing is a flag -/
  | dashes
  /-- two dashes and a name, and what follows an equals sign -/
  | long (name : String) (value : Option String)
  /-- one dash and letters, the first of which decides -/
  | short (letter : Char)
  | plain
deriving DecidableEq, Repr

/-- The name and the attached value of a word behind its dashes. -/
def Word.ofLong (cs : List Char) : Word :=
  let name := String.ofList (cs.takeWhile fun c => c ≠ '=')
  match cs.dropWhile fun c => c ≠ '=' with
  | [] => .long name none
  | _ :: value => .long name (some (String.ofList value))

def Word.ofText (s : String) : Word :=
  match s.toList with
  | ['-', '-'] => .dashes
  | '-' :: '-' :: rest => .ofLong rest
  | '-' :: letter :: _ => .short letter
  | _ => .plain

/-- The flags and the commands that may stand at one place. -/
structure Level where
  flags : List Flag
  commands : List String

namespace Level

def flag? (l : Level) (name : String) : Option Flag := l.flags.find? fun f => f.name = name

def flagOfLetter? (l : Level) (letter : Char) : Option Flag :=
  l.flags.find? fun f => f.letter = some letter

/-- What is wrong with a word that is neither a flag nor a value.  Where a command is due it is
    taken for one, unless it would be one without the dashes in front. -/
def stray (l : Level) (afterDashes : Bool) (word : String) : Usage :=
  if l.commands.isEmpty then .unknownArgument
  else if afterDashes && l.commands.contains word then .unknownArgument
  else .invalidCommand

/-- Read words up to a command: what has been read, and the command with the words after
    it. -/
def scan (l : Level) (s : State) :
    List String → Except Usage (State × Option (String × List String))
  | [] => .ok (s, none)
  | word :: rest =>
    if !s.awaits && l.commands.contains word then .ok (s, some (word, rest))
    else
      match Word.ofText word with
      | .dashes =>
        match rest with
        | [] => .ok (s, none)
        | next :: _ => .error (l.stray true next)
      | .long name value =>
        match l.flag? name with
        | none => .error .unknownArgument
        | some flag => do l.scan (← s.take flag value) rest
      | .short letter =>
        match l.flagOfLetter? letter with
        | none => .error .unknownArgument
        | some flag => do l.scan (← s.take flag none) rest
      | .plain => if s.awaits then l.scan (s.fill word) rest else .error (l.stray false word)

end Level

end SignOff.CommandLine
