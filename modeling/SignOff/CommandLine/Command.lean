/-
  SignOff/CommandLine/Command.lean
  ================================
  **Commands.**  What the program can be asked to do, with the flags that each command has,
  and the reading of a whole command line.  The words of a command are read and checked
  before the last flag in front of it is bound.
-/
import SignOff.CommandLine.Words
import SignOff.Actor
import SignOff.Transfer

namespace SignOff

namespace CommandLine

/-- How the program's log is written. -/
inductive LogFormat where
  | text
  | json
deriving DecidableEq, Repr

namespace LogFormat

def all : List LogFormat := [.text, .json]

def name : LogFormat → String
  | .text => "text"
  | .json => "json"

def ofName? (s : String) : Option LogFormat := all.find? fun f => f.name = s

end LogFormat

/-- An actor as the flags describe it. -/
structure ActorFlags where
  identity : Owner
  licenses : List String
  initiator : Bool
  permissions : List String
deriving DecidableEq, Repr

/-- The actor that the flags describe.  A facet is there as soon as a flag mentions it. -/
def ActorFlags.actor (a : ActorFlags) : Actor :=
  let bare := Actor.ofOwner a.identity
  let asked := if a.initiator then bare.initiator else bare
  a.permissions.foldl Actor.withPermission (a.licenses.foldl Actor.owning asked)

/-- What the program is asked to do. -/
inductive Command where
  /-- record a transfer, and plan it if so asked -/
  | initiate (proposal : Proposal) (plan : Bool)
  | plan (transfer : String)
  | approve (step : String) (notes : Option String) (actor : ActorFlags)
  | reject (step : String) (notes : Option String) (actor : ActorFlags)
  | status (transfer : String)
  | history (license : String)
  | pending (actor : ActorFlags)
  | complete (transfer : String)
deriving DecidableEq, Repr

/-! ### Flags -/

def switch (name : String) : Flag := { name := name, form := .switch }

def once (name : String) : Flag := { name := name, form := .once }

def many (name : String) : Flag := { name := name, form := .many }

/-- A flag with a path, which may not be empty. -/
def path (name : String) : Flag :=
  { name := name, form := .once, accepts := fun v => !v.isEmpty }

def helpFlag : Flag := { name := "help", form := .help, letter := some 'h' }

def versionFlag : Flag := { name := "version", form := .version, letter := some 'V' }

def logFormatFlag : Flag :=
  { name := "log-format", form := .once, accepts := fun v => (LogFormat.ofName? v).isSome }

def actorFlags : List Flag :=
  [once "actor-kind", once "actor-id", many "owns-license", switch "initiator",
    many "permission"]

def ownerOf (b : Bindings) (kind id : String) : Except Usage Owner := do
  return ⟨.ofName (← b.required kind), ← b.required id⟩

def actorOf (b : Bindings) : Except Usage ActorFlags := do
  return ⟨← ownerOf b "actor-kind" "actor-id", b.values "owns-license", b.has "initiator",
    b.values "permission"⟩

/-! ### Commands -/

/-- A command by its name, with its flags and how their values make the command. -/
structure Verb where
  name : String
  flags : List Flag
  read : Bindings → Except Usage Command

def verbs : List Verb :=
  [{ name := "initiate"
     flags := [once "license", once "from-kind", once "from-id", once "to-kind", once "to-id",
       switch "source", switch "target", switch "admin", once "reason", switch "plan"]
     read := fun b => do
       let proposal : Proposal :=
         { license := ← b.required "license"
           source := ← ownerOf b "from-kind" "from-id"
           target := ← ownerOf b "to-kind" "to-id"
           needsSource := b.has "source"
           needsTarget := b.has "target"
           needsAdmin := b.has "admin"
           reason := b.value? "reason" }
       return .initiate proposal (b.has "plan") },
   { name := "plan"
     flags := [once "transfer"]
     read := fun b => do return .plan (← b.required "transfer") },
   { name := "approve"
     flags := [once "step", once "notes"] ++ actorFlags
     read := fun b => do
       return .approve (← b.required "step") (b.value? "notes") (← actorOf b) },
   { name := "reject"
     flags := [once "step", once "notes"] ++ actorFlags
     read := fun b => do
       return .reject (← b.required "step") (b.value? "notes") (← actorOf b) },
   { name := "status"
     flags := [once "transfer"]
     read := fun b => do return .status (← b.required "transfer") },
   { name := "history"
     flags := [once "license"]
     read := fun b => do return .history (← b.required "license") },
   { name := "pending"
     flags := actorFlags
     read := fun b => do return .pending (← actorOf b) },
   { name := "complete"
     flags := [once "transfer"]
     read := fun b => do return .complete (← b.required "transfer") }]

/-- The words after a command's name, read as the command. -/
def Verb.parse (v : Verb) (words : List String) : Except Usage Command := do
  let (s, _) ← (Level.mk (v.flags ++ [helpFlag]) []).scan .start words
  v.read (← s.settled)

/-- The name of the command that shows help on a command. -/
def helpName : String := "help"

/-- What may stand in front of a command. -/
def top : Level :=
  ⟨[path "config", path "db", logFormatFlag, helpFlag, versionFlag],
    helpName :: verbs.map fun v => v.name⟩

/-- Help on a command.  No command has commands of its own. -/
def helpOn : List String → Usage
  | [] => .help
  | [name] => if top.commands.contains name then .help else .invalidCommand
  | _ => .invalidCommand

end CommandLine

structure CommandLine where
  config : Option String
  store : Option String
  logFormat : CommandLine.LogFormat
  command : CommandLine.Command
deriving DecidableEq, Repr

namespace CommandLine

def parse (words : List String) : Except Usage CommandLine := do
  match ← top.scan .start words with
  | (s, none) =>
    let b ← s.settled
    .error (if b.isEmpty then .nothing else .missingCommand)
  | (s, some (name, rest)) =>
    if name = helpName then .error (helpOn rest)
    else
      match verbs.find? fun v => v.name = name with
      | none => .error .invalidCommand
      | some verb =>
        let command ← verb.parse rest
        let b ← s.settled
        return ⟨b.value? "config", b.value? "db",
          ((b.value? "log-format").bind LogFormat.ofName?).getD .text, command⟩

end CommandLine

end SignOff
