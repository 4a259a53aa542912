/-
  SignOff/Audit/Journal.lean
  ==========================
  **The journal.**  The audit trail in a folder: one file for every day of universal time,
  one line for every entry.  An entry belongs in the file of the day on which it happened,
  whenever it is written.

  A transfer's trail of a day is read from that day's file alone.  A file that is not there
  is an empty trail, and one that cannot be opened is another error than one that is no
  text.  Otherwise every line must be text and an entry, whichever transfer it belongs to,
  and the first one that is not decides the error.
-/
import SignOff.Audit.Entry
import SignOff.Files
import SignOff.Text.Lines

namespace SignOff.Audit

open Text

/-- A folder in which entries are kept, by the text of its path. -/
structure Journal where
  folder : String
deriving DecidableEq, Repr

namespace Journal

/-- A journal in the folder, which is made if it is not there.  The files are given back with
    the folders that were made, even if not all of them could be. -/
def start (folder : String) (files : Files) : Except Error Journal × Files :=
  match files.createFolders folder with
  | (.ok (), files) => (.ok ⟨folder⟩, files)
  | (.error why, files) => (.error (.noAuditFolder folder why), files)

def fileName (day : Date) : String := "transfer-audit-" ++ day.text ++ ".jsonl"

def fileOf (j : Journal) (day : Date) : String := joinPath j.folder (fileName day)

/-- The entries of numbered lines, if every line is one. -/
def entriesOf (path : String) : Nat → List (List UInt8) → Except Error (List Entry)
  | _, [] => .ok []
  | n, line :: rest =>
    match textOf? line with
    | none => .error (.auditUnread path .notUtf8)
    | some text =>
      match Entry.ofLine? text with
      | none => .error (.badEntry path n)
      | some e => (entriesOf path (n + 1) rest).map fun es => e :: es

/-- The entries of a day on a transfer, in the order in which they were written. -/
def trail (j : Journal) (transferId : String) (day : Date) (files : Files) :
    Except Error (List Entry) :=
  match files.read (j.fileOf day) with
  | .ok content =>
    (entriesOf (j.fileOf day) 1 (lines content)).map fun es =>
      es.filter fun e => e.transferId = some transferId
  | .error .missing => .ok []
  | .error why =>
    .error (if why.isOfContent then .auditUnread (j.fileOf day) why
      else .auditUnopened (j.fileOf day) why)

end Journal

end SignOff.Audit
