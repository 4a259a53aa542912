/-
  SignOff/Files.lean
  ==================
  **A tree of files.**  The folders, files and stores that a command or the audit trail
  works on, by their paths.

  A text leads to a path by walking: one starts at the top or at the working folder and
  follows the parts between the slashes one after the other, each from a folder that is
  there (`Files.step`).  A `..` therefore leads back only from a folder that exists, and a
  slash or `.` at the end asks for a folder.  What cannot be walked has the first fault
  that is met on the way.
-/
import SignOff.Error
import SignOff.Store.Basic
import SignOff.Text.Parts

namespace SignOff

/-! ### Paths -/

/-- The names on the way from the working folder, or from the root, with every `..` at the
    front. -/
abbrev Path := List String

def root : String := "/"

/-- Where the walk along a text begins. -/
def startOf (text : String) : Path := if text.toList.head? = some '/' then [root] else []

def partsOf (text : String) : List String := (Text.split '/' text.toList).map String.ofList

/-- The path is the working folder or leads up from it. -/
def Path.isUpward (path : Path) : Bool := path.all fun name => name = ".."

/-- One part further along a path. -/
def Path.further (path : Path) (part : String) : Path :=
  if part = "" ∨ part = "." then path
  else if part = ".." then
    if path = [root] then path
    else if path.isUpward then path ++ [part]
    else path.dropLast
  else path ++ [part]

def Path.text : Path → String
  | [] => "."
  | first :: rest =>
    if first = root then root ++ String.intercalate "/" rest
    else String.intercalate "/" (first :: rest)

/-- The parts of a path as they are spelled: a slash in front and a dot in front count, empty
    parts and other dots do not. -/
def spelledParts (text : String) : List String :=
  match partsOf text with
  | [] => []
  | first :: rest =>
    let rest' := rest.filter fun part => part ≠ "" ∧ part ≠ "."
    if first = "" then if rest.isEmpty then [] else root :: rest' else first :: rest'

/-- Two texts spell the same path. -/
def samePath (a b : String) : Bool := spelledParts a == spelledParts b

/-- The texts of the folders above the one that a text spells, the nearest first. -/
def foldersAbove (text : String) : List String :=
  let parts := spelledParts text
  (List.range (parts.length - 1)).reverse.map fun n => Path.text (parts.take (n + 1))

/-- The text of a path one component longer.  A name that begins at the root stands alone. -/
def joinPath (folder name : String) : String :=
  if folder = "" ∨ name.toList.head? = some '/' then name
  else if folder.toList.getLast? = some '/' then folder ++ name
  else folder ++ "/" ++ name

/-- The most bytes that a name may have. -/
def longestName : Nat := 255

/-- The most bytes that the text of a path may have. -/
def longestPath : Nat := 4095

/-! ### The tree -/

/-- What a path may lead to. -/
inductive Node where
  | folder
  | file (content : List UInt8)
  | store (s : Store)
deriving DecidableEq, Repr

structure Files where
  nodes : List (Path × Node)
deriving DecidableEq, Repr

namespace Files

def empty : Files := ⟨[]⟩

/-- What a path leads to.  The working folder, the folders above it and the root are always
    there. -/
def node? (files : Files) (p : Path) : Option Node :=
  if p.isUpward ∨ p = [root] then some .folder
  else (files.nodes.find? fun n => n.1 = p).map fun n => n.2

def put (files : Files) (p : Path) (n : Node) : Files :=
  if files.nodes.any fun m => m.1 = p then
    ⟨files.nodes.map fun m => if m.1 = p then (p, n) else m⟩
  else ⟨files.nodes ++ [(p, n)]⟩

def isFolder (files : Files) (p : Path) : Bool := files.node? p = some .folder

/-! ### Walking -/

/-- One part further from a path, which has to lead to a folder. -/
def step (files : Files) (p : Path) (part : String) : Except FileFault Path :=
  match files.node? p with
  | some .folder =>
    if longestName < part.utf8ByteSize then .error .nameTooLong else .ok (p.further part)
  | some _ => .error .notFolder
  | none => .error .missing

def walkable (text : String) : Except FileFault Unit :=
  if text.toList.contains '\x00' then .error .noName
  else if text = "" then .error .missing
  else if longestPath < text.utf8ByteSize then .error .nameTooLong
  else .ok ()

/-- The path that a text leads to.  There need be nothing at its end. -/
def locate (files : Files) (text : String) : Except FileFault Path := do
  walkable text
  (partsOf text).foldlM files.step (startOf text)

def leadsToFolder (files : Files) (text : String) : Bool :=
  match files.locate text with
  | .ok p => files.isFolder p
  | .error _ => false

/-! ### Folders -/

/-- The parts up to the last one that is not empty. -/
def withoutSlashes (parts : List String) : List String :=
  (parts.reverse.dropWhile fun part => part = "").reverse

/-- Make one folder, in a folder that is there. -/
def createFolder (files : Files) (text : String) : Except FileFault Files := do
  walkable text
  let p ← (withoutSlashes (partsOf text)).foldlM files.step (startOf text)
  match files.node? p with
  | none => .ok (files.put p .folder)
  | some _ => .error .fileExists

/-- Make one folder, unless there is one. -/
def ensureFolder (files : Files) (text : String) : Except FileFault Unit × Files :=
  match files.createFolder text with
  | .ok files => (.ok (), files)
  | .error why => (if files.leadsToFolder text then .ok () else .error why, files)

/-- Make a folder; if the way to it is missing, first make the folder above it, which is the
    first of the given ones, in the same manner. -/
def ensureFolderIn (files : Files) (text : String) : List String → Except FileFault Unit × Files
  | [] => files.ensureFolder text
  | above :: rest =>
    match files.createFolder text with
    | .error .missing =>
      match files.ensureFolderIn above rest with
      | (.ok (), files) => files.ensureFolder text
      | failure => failure
    | _ => files.ensureFolder text

/-- Make a folder, and the folders on the way to it, unless they are there.  If that fails,
    the folders made until then stay. -/
def createFolders (files : Files) (text : String) : Except FileFault Unit × Files :=
  if text = "" then (.ok (), files) else files.ensureFolderIn text (foldersAbove text)

/-- The files directly inside a folder, with their names. -/
def filesIn (files : Files) (text : String) : List (String × List UInt8) :=
  match files.locate text with
  | .error _ => []
  | .ok p =>
    files.nodes.filterMap fun (q, n) =>
      match n, q.getLast? with
      | .file content, some name => if q.dropLast = p then some (name, content) else none
      | _, _ => none

/-! ### Contents -/

def read (files : Files) (text : String) : Except FileFault (List UInt8) := do
  let p ← files.locate text
  match files.node? p with
  | some (.file content) => .ok content
  | some .folder => .error .isFolder
  | some (.store _) => .error .notUtf8
  | none => .error .missing

/-- Open a file for writing at its end, which is made if it is not there: where it is, and the
    tree with it. -/
def openAtEnd (files : Files) (text : String) : Except FileFault (Path × Files) := do
  let p ← files.locate text
  match files.node? p with
  | some (.file _) => .ok (p, files)
  | some .folder => .error .isFolder
  | some (.store _) => .error .fileExists
  | none => .ok (p, files.put p (.file []))

/-- The tree with more bytes at the end of an open file. -/
def writeAtEnd (files : Files) (p : Path) (bytes : List UInt8) : Files :=
  match files.node? p with
  | some (.file content) => files.put p (.file (content ++ bytes))
  | _ => files

/-- The tree with more bytes at the end of a file, which is made if it is not there. -/
def append (files : Files) (text : String) (bytes : List UInt8) : Except FileFault Files := do
  let (p, files) ← files.openAtEnd text
  .ok (files.writeAtEnd p bytes)

end Files

end SignOff
