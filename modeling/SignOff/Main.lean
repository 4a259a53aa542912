/-
  SignOff/Main.lean
  =================
  **The program on a real machine.**  What a run needs is fetched first: the clock, which
  stands still from then on, random bytes for identifiers, and the files and folders at the
  paths that the command line and its configuration name.  `Program.run` does the work on
  them; what it has changed is put back, and its output and exit code are handed over.
-/
import SignOff.Program
import SignOff.Identifier
import SignOff.Store.Columns
import Std.Time.DateTime.Timestamp

open SignOff

/-- The reading of the machine's clock. -/
def readClock : IO Instant := do
  let nanos := (← Std.Time.Timestamp.now).toNanosecondsSinceUnixEpoch.val
  match Instant.ofClock? nanos.toNat with
  | some t => return t
  | none => throw (IO.userError "the clock is out of range")

def newIdentifier : IO String := do
  return Identifier.ofBytes (← IO.getRandomBytes 16).toList

def newIdentifiers : IO FreshIds := do
  let transfer ← newIdentifier
  let steps ← ApprovalType.all.mapM fun _ => newIdentifier
  return ⟨transfer, fun n => steps.getD n ""⟩

/-- There is a folder at a path: only then something can be below it. -/
def isFolder (path : String) : IO Bool := do
  try
    let _ ← IO.FS.realPath (path ++ "/.")
    return true
  catch _ => return false

/-- What the machine has at a path. -/
def fetchNode (path : String) : IO (Option Node) := do
  if ← isFolder path then return some .folder
  try
    let content := (← IO.FS.readBinFile path).toList
    match (Text.textOf? content).bind Store.ofSnapshot? with
    | some s => return some (.store s)
    | none => return some (.file content)
  catch _ => return none

/-- The files with what the machine has at a path. -/
def fetch (files : Files) (p : Path) : IO Files := do
  match ← fetchNode p.text with
  | some node => return files.put p node
  | none => return files

/-- Put what is at a path in the files onto the machine. -/
def keep (files : Files) (p : Path) : IO Unit := do
  match files.node? p with
  | some .folder => IO.FS.createDirAll p.text
  | some (.file content) => IO.FS.writeBinFile p.text ⟨content.toArray⟩
  | some (.store s) => IO.FS.writeFile p.text s.snapshot
  | none => return

/-- Run the command line that the words are. -/
def main (words : List String) : IO UInt32 := do
  let clock ← readClock
  let ids ← newIdentifiers
  let files ← (Program.pathsOf clock.date words .empty).foldlM fetch .empty
  let paths := Program.pathsOf clock.date words files
  let files ← paths.foldlM fetch files
  let e := Program.run clock ids words files
  for p in paths do
    if e.files.node? p ≠ files.node? p then keep e.files p
  IO.print e.output
  if e.complaint ≠ "" then IO.eprintln e.complaint
  return UInt32.ofNat e.code
