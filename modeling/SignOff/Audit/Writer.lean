/-
  SignOff/Audit/Writer.lean
  =========================
  **Writers of a journal.**  A writer keeps the file open to which it wrote last.  An entry
  of the same day goes to the end of that file.  For an entry of another day the writer turns
  to the file of that day, which is made if it is not there; if it cannot be opened, the entry
  is refused and no file is open any more.

  Any number of writers may be at work in one folder.  What is written goes to the end that
  the file has at that moment, whoever wrote there last.
-/
import SignOff.Audit.Journal

namespace SignOff.Audit

open Text

/-- A day's file that is open for writing at its end. -/
structure DayFile where
  day : Date
  path : Path
deriving DecidableEq, Repr

structure Writer where
  journal : Journal
  current : Option DayFile := none
deriving DecidableEq, Repr

def Journal.openDay (j : Journal) (day : Date) (files : Files) : Except Error (DayFile × Files) :=
  match files.openAtEnd (j.fileOf day) with
  | .ok (path, files) => .ok (⟨day, path⟩, files)
  | .error why => .error (.auditUnopened (j.fileOf day) why)

namespace Writer

/-- A writer in the folder, which is made if it is not there.  It has no file open. -/
def start (folder : String) (files : Files) : Except Error Writer × Files :=
  match Journal.start folder files with
  | (.ok j, files) => (.ok { journal := j }, files)
  | (.error why, files) => (.error why, files)

/-- The file for the entries of a day: the open one if it is of that day, or else another one
    that is opened in its place. -/
def dayFile (w : Writer) (day : Date) (files : Files) : Except Error (DayFile × Files) :=
  match w.current with
  | none => w.journal.openDay day files
  | some file => if file.day = day then .ok (file, files) else w.journal.openDay day files

/-- Write an entry as a line at the end of its day's file. -/
def log (w : Writer) (e : Entry) (files : Files) : Except Error Unit × Writer × Files :=
  match w.dayFile e.timestamp.date files with
  | .error why => (.error why, { w with current := none }, files)
  | .ok (file, files) =>
    (.ok (), { w with current := some file }, files.writeAtEnd file.path (bytesOf (e.line ++ "\n")))

end Writer

/-- Write an entry with a writer of its own. -/
def Journal.write (j : Journal) (e : Entry) (files : Files) : Except Error Files :=
  match ({ journal := j } : Writer).log e files with
  | (.ok (), _, files) => .ok files
  | (.error why, _, _) => .error why

end SignOff.Audit
