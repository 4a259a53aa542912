/-
  SignOff/Store/Opening.lean
  ==========================
  **Opening a store.**  The folder of the file that a store is named by is made first, as
  the name spells it.  Only then is the name understood as a location (`Location.ofName?`).
  A store in a file is found there or made there; one in memory begins empty and leaves
  nothing behind.

  The path of a store's file is taken by its spelling: a `..` takes back the name before
  it, whether there is such a folder or not.  Still no name on the way may be that of a
  file or too long.
-/
import SignOff.Files
import SignOff.Store.Location

namespace SignOff

/-- A store that has been opened: its rows, where they are kept unless they are in memory,
    and whether they may be changed. -/
structure OpenStore where
  rows : Store
  place : Option Path
  writable : Bool
deriving DecidableEq, Repr

namespace OpenStore

/-! ### The path of a store's file -/

/-- The bytes by which the name of a store's file is exceeded by those of the files that are
    beside it while it is changed. -/
def companionSize : Nat := 8

/-- The most bytes that a path may have below the working folder on the way to a store. -/
def longestWay : Nat := 495

/-- The most bytes that the path of a store's file may have below the working folder. -/
def longestPlace : Nat := 488

/-- A name could be there, one part further along a path. -/
def couldBe (files : Files) (p : Path) (name : String) : Bool :=
  (p.further name).text.utf8ByteSize ≤ longestWay &&
    match files.node? p with
    | none => true
    | some .folder => name.utf8ByteSize ≤ longestName
    | some _ => false

/-- One part further along the path by its spelling. -/
def further? (files : Files) (p : Path) (part : String) : Option Path :=
  if part = "" ∨ part = "." ∨ part = ".." ∨ couldBe files p part then some (p.further part)
  else none

/-- The path of the file that a text names for a store. -/
def place? (files : Files) (text : String) : Option Path := do
  let p ← (partsOf text).foldlM (further? files) (startOf text)
  if p.text.utf8ByteSize ≤ longestPlace then some p else none

/-- The names of the files beside the store's are not too long. -/
def hasCompanions (p : Path) : Bool :=
  (p.getLast?.getD "").utf8ByteSize + companionSize ≤ longestName

/-! ### Opening -/

/-- A new store at a path.  Without the files beside it, it does not get beyond an empty
    file. -/
def fresh (files : Files) (p : Path) : Except Error OpenStore × Files :=
  if hasCompanions p then (.ok ⟨.empty, some p, true⟩, files.put p (.store .empty))
  else
    (.error (.noStore .unopenable),
      if (files.node? p).isSome then files else files.put p (.file []))

/-- The store in a file, and the files with it there.  A file of at most one byte holds no
    store yet. -/
def inFile (files : Files) (p : Path) (mode : StoreMode) : Except Error OpenStore × Files :=
  let failure (why : StoreFault) : Except Error OpenStore × Files := (.error (.noStore why), files)
  match files.node? p with
  | some (.store s) => (.ok ⟨s, some p, mode ≠ .readOnly⟩, files)
  | some .folder => failure .unopenable
  | some (.file content) =>
    if 1 < content.length then failure .notAStore
    else if mode = .readOnly then failure .readOnly
    else fresh files p
  | none =>
    if mode = .create ∧ files.isFolder p.dropLast then fresh files p else failure .unopenable

/-- The store at a location, and the files with it there. -/
def atLocation (files : Files) : Location → Except Error OpenStore × Files
  | .memory true => (.ok ⟨.empty, none, true⟩, files)
  | .memory false => (.error (.noStore .notKept), files)
  | .file text mode =>
    match place? files text with
    | some p => inFile files p mode
    | none => (.error (.noStore .unopenable), files)

/-- The folder of the file that a name spells, made if it is not there. -/
def createFolderOf (files : Files) (name : String) : Except FileFault Unit × Files :=
  match (foldersAbove name).head? with
  | some folder => files.createFolders folder
  | none => (.ok (), files)

/-- The store with a name, and the files with it there. -/
def ofName (files : Files) (name : String) : Except Error OpenStore × Files :=
  match createFolderOf files name with
  | (.error why, files) => (.error (.noStoreFolder why), files)
  | (.ok (), files) =>
    match Location.ofName? name with
    | some l => atLocation files l
    | none => (.error (.noStore .unopenable), files)

/-- The files with the rows where they are kept. -/
def keep (o : OpenStore) (rows : Store) (files : Files) : Files :=
  match o.place with
  | some p => if o.writable then files.put p (.store rows) else files
  | none => files

end OpenStore

end SignOff
