/-
  SignOff/Program.lean
  ====================
  **The program.**  One run carries out one command line: it reads the configuration, opens
  the store and the audit journal, and carries out the command as a procedure of the
  workflow, each look at the clock taking the next reading.  What comes of it is an exit
  code, a text to print, which is empty unless the command succeeded, and the files that are
  left behind.
-/
import SignOff.CommandLine.Command
import SignOff.Config
import SignOff.Report
import SignOff.Store.Opening

namespace SignOff

/-- The workflow that a configuration sets up. -/
def Service.ofConfig (c : Config) : Service := ⟨⟨c.adminPermission⟩, c.timeouts⟩

/-- Identifiers that no one has used yet: one for a transfer, and as many as there are
    numbers for steps. -/
structure FreshIds where
  transfer : String
  step : Nat → String

/-! ### Commands as procedures -/

/-- What a command does, with the answer that it prints.  A transfer that needs no sign-off
    is planned as soon as it is recorded. -/
def CommandLine.Command.procedure (svc : Service) (ids : FreshIds) :
    CommandLine.Command → Procedure Json
  | .initiate proposal planned => do
    let transfer ← Service.initiate ids.transfer proposal none
    if planned || transfer.needsNothing then
      let _ ← svc.plan ids.step transfer
    return (← Service.status transfer.id).toJson
  | .plan transfer => do
    let current ← Service.status transfer
    return (← svc.plan ids.step current.transfer).toJson
  | .approve step notes actor => do
    return (← svc.approve step actor.actor notes).toJson
  | .reject step notes actor => do
    return (← svc.reject step actor.actor notes).toJson
  | .status transfer => do
    return (← Service.status transfer).toJson
  | .history license => do
    return Service.statusesJson (← Service.history license)
  | .pending actor => do
    return Service.stepsJson (← svc.pending actor.actor)
  | .complete transfer => do
    return (← Service.complete transfer).toJson

namespace Program

/-! ### Opening what is configured -/

/-- The configuration of a command line: that of the file it names, with the store that it
    names instead of the configured one. -/
def configOf (line : CommandLine) (files : Files) : Except ConfigFault Config := do
  let config ←
    match line.config with
    | some path => Config.load files path
    | none => .ok .standard
  return { config with store := line.store.getD config.store }

/-! ### Running -/

/-- What a run leaves behind.  The complaint is for whoever gave the command; it is no part of
    the output. -/
structure Ending where
  code : Nat
  output : String
  complaint : String
  files : Files

def Ending.of (files : Files) : Except Halt Json → Ending
  | .ok answer => ⟨exitOk, answer.pretty ++ "\n", "", files⟩
  | .error why => ⟨why.exitCode, "", why.text, files⟩

/-- The ending of a run that fails before its command is begun. -/
def Ending.failed (files : Files) (why : Error) : Ending := .of files (.error (.failed why))

/-- Carry a procedure out on the store that is configured, with a writer of the journal. -/
def carryOut (readings : Nat → Instant) (config : Config) (p : Procedure Json) (files : Files) :
    Ending :=
  match OpenStore.ofName files config.store with
  | (.error why, files) => .failed files why
  | (.ok o, files) =>
    let p := if o.writable then p else p.onlyReading
    match config.auditFolder with
    | none =>
      let e := p.runAlong Audit.Trail.silent readings o.rows ()
      .of (o.keep e.store files) e.answer
    | some folder =>
      match Audit.Writer.start folder files with
      | (.error why, files) => .failed files why
      | (.ok writer, files) =>
        let e := p.runAlong Audit.Trail.ofWriter readings o.rows (writer, files)
        .of (o.keep e.store e.trail.2) e.answer

/-- Run a command line. -/
def runAlong (readings : Nat → Instant) (ids : FreshIds) (words : List String) (files : Files) :
    Ending :=
  match CommandLine.parse words with
  | .error why => ⟨why.exitCode, "", why.text, files⟩
  | .ok line =>
    match configOf line files with
    | .error why => .failed files (.config why)
    | .ok config =>
      carryOut readings config (line.command.procedure (.ofConfig config) ids) files

/-- Run a command line while the clock stands still. -/
def run (clock : Instant) (ids : FreshIds) (words : List String) (files : Files) : Ending :=
  runAlong (fun _ => clock) ids words files

/-- The paths that are looked at on the way along a text. -/
def pathsAlong (text : String) : List Path :=
  let parts := partsOf text
  (List.range (parts.length + 1)).map fun n => (parts.take n).foldl Path.further (startOf text)

/-- The texts of paths that a configuration names, on a day. -/
def textsOf (day : Date) (config : Config) : List String :=
  let location :=
    match Location.ofName? config.store with
    | some (.file text _) => [text]
    | _ => []
  let journal :=
    match config.auditFolder with
    | some folder => [folder, (Audit.Journal.mk folder).fileOf day]
    | none => []
  foldersAbove config.store ++ location ++ journal

/-- The paths that a run on some day may look at or change, as far as the files tell. -/
def pathsOf (day : Date) (words : List String) (files : Files) : List Path :=
  match CommandLine.parse words with
  | .error _ => []
  | .ok line =>
    let texts := line.config.toList ++
      match configOf line files with
      | .error _ => []
      | .ok config => textsOf day config
    texts.flatMap pathsAlong

end Program

end SignOff
