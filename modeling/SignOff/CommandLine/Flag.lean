/-
  SignOff/CommandLine/Flag.lean
  =============================
  **Flags and what they are bound to.**  A flag is a switch, or takes a value once or any
  number of times.  The value may be attached with `=` or be the next word; until something
  else is met, a value that stands in a word of its own is only held (`State.pending`), and
  whether it is acceptable is decided when it is bound.
-/
import SignOff.Error

namespace SignOff.CommandLine

/-- Why a command line is not carried out. -/
inductive Usage where
  | help
  | version
  /-- nothing was asked for at all -/
  | nothing
  | missingRequired
  | unknownArgument
  | invalidCommand
  | missingCommand
  | invalidValue
  /-- a flag that is given once was given again -/
  | conflict
  /-- a value for a flag that takes none -/
  | tooManyValues
deriving DecidableEq, Repr

def Usage.text : Usage → String
  | .help => "give flags, a command and its flags"
  | .version => "version 1"
  | .nothing => "nothing to do"
  | .missingRequired => "a required flag is missing"
  | .unknownArgument => "unknown argument"
  | .invalidCommand => "unknown command"
  | .missingCommand => "a command is missing"
  | .invalidValue => "a value is missing or not accepted"
  | .conflict => "a flag is given twice"
  | .tooManyValues => "a value for a flag that takes none"

def Usage.exitCode : Usage → Nat
  | .help | .version => exitOk
  | _ => exitUsage

/-- How a flag is used. -/
inductive Form where
  | switch
  /-- a value, at most once -/
  | once
  /-- a value, any number of times -/
  | many
  /-- ends the reading with the help -/
  | help
  /-- ends the reading with the version -/
  | version
deriving DecidableEq, Repr

/-- A flag, with the values that it accepts. -/
structure Flag where
  name : String
  form : Form
  letter : Option Char := none
  accepts : String → Bool := fun _ => true

/-! ### Bindings -/

/-- The values of flags in the order in which they were given; a switch has an empty one. -/
abbrev Bindings := List (String × String)

namespace Bindings

def has (b : Bindings) (name : String) : Bool := b.any fun p => p.1 = name

def values (b : Bindings) (name : String) : List String :=
  (b.filter fun p => p.1 = name).map fun p => p.2

def value? (b : Bindings) (name : String) : Option String := (b.values name).head?

def required (b : Bindings) (name : String) : Except Usage String :=
  match b.value? name with
  | some v => .ok v
  | none => .error .missingRequired

/-- The bindings with one more value.  A repetition is found before an unacceptable value. -/
def bind (b : Bindings) (flag : Flag) (v : String) : Except Usage Bindings :=
  if flag.form ≠ .many ∧ b.has flag.name then .error .conflict
  else if flag.accepts v then .ok (b ++ [(flag.name, v)])
  else .error .invalidValue

end Bindings

/-! ### The flag that waits -/

/-- What has been read: the bindings, and the last flag that takes a value, which is not
    bound yet. -/
structure State where
  bound : Bindings
  pending : Option (Flag × Option String)

namespace State

def start : State := ⟨[], none⟩

/-- The next word is the value of a flag, whatever it says, unless it looks like a flag. -/
def awaits (s : State) : Bool :=
  match s.pending with
  | some (_, none) => true
  | _ => false

/-- The word is the value that was awaited. -/
def fill (s : State) (v : String) : State :=
  { s with pending := s.pending.map fun p => (p.1, some v) }

/-- The bindings, with the flag that waits among them. -/
def settled (s : State) : Except Usage Bindings :=
  match s.pending with
  | none => .ok s.bound
  | some (_, none) => .error .invalidValue
  | some (flag, some v) => s.bound.bind flag v

/-- A flag that takes a value, which may be attached. -/
def takeValue (s : State) (flag : Flag) : Option String → Except Usage State
  | some v => do return ⟨← (← s.settled).bind flag v, none⟩
  | none => do return ⟨← s.settled, some (flag, none)⟩

def takeBare (s : State) (flag : Flag) (stop : Option Usage) : Option String → Except Usage State
  | some _ => .error .tooManyValues
  | none => do
    let bound ← s.settled
    match stop with
    | some why => .error why
    | none => return ⟨← bound.bind flag "", none⟩

/-- The next flag, with the value attached to it. -/
def take (s : State) (flag : Flag) (value : Option String) : Except Usage State :=
  match flag.form with
  | .once | .many => s.takeValue flag value
  | .switch => s.takeBare flag none value
  | .help => s.takeBare flag (some .help) value
  | .version => s.takeBare flag (some .version) value

end State

end SignOff.CommandLine
