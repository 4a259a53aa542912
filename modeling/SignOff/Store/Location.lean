/-
  SignOff/Store/Location.lean
  ===========================
  **Where a store is.**  A store is named by the path of its file or by an address.  An
  address begins with `file:`, perhaps followed by an empty or a local authority; then
  comes the path, in which `%` and two hexadecimal digits stand for a byte, and after a
  question mark options with values.  What follows a `#` does not count.

  The option `mode` says how far the file may be changed, or that there is none and the
  store is in memory; `cache` says whether the connections of one run share what is in
  memory; `vfs` names the system of files, of which there is only one.
-/
import SignOff.Text.Digits
import SignOff.Text.Lines
import SignOff.Text.Parts

namespace SignOff

open Text

/-- How a store is opened, the least allowed first. -/
inductive StoreMode where
  | readOnly
  | readWrite
  /-- changed, and made if it is not there -/
  | create
  | memory
deriving DecidableEq, Repr

namespace StoreMode

def ofName? : String → Option StoreMode
  | "ro" => some .readOnly
  | "rw" => some .readWrite
  | "rwc" => some .create
  | "memory" => some .memory
  | _ => none

def rank : StoreMode → Nat
  | .readOnly => 0
  | .readWrite => 1
  | .create => 2
  | .memory => 3

/-- The mode that is asked for where another one is allowed: no more than that, or memory. -/
def ask? (allowed asked : StoreMode) : Option StoreMode :=
  if asked = .memory ∨ asked.rank ≤ allowed.rank then some asked else none

end StoreMode

/-- Where a store is. -/
inductive Location where
  | file (path : String) (mode : StoreMode)
  /-- in the memory of one connection, or of all connections of a run -/
  | memory (shared : Bool)
deriving DecidableEq, Repr

namespace Location

/-! ### Addresses -/

/-- The bytes of an address's part: an escape stands for a byte, and what follows the escape
    of a zero does not count. -/
def unescaped : List Char → List UInt8
  | '%' :: a :: b :: rest =>
    match hexDigit? a, hexDigit? b with
    | some m, some n =>
      if 16 * m + n = 0 then [] else UInt8.ofNat (16 * m + n) :: unescaped rest
    | _, _ => bytesOf "%" ++ unescaped (a :: b :: rest)
  | c :: rest => bytesOf (String.singleton c) ++ unescaped rest
  | [] => []

/-- The text of an address's part, if its bytes are one. -/
def partText? (cs : List Char) : Option String := textOf? (unescaped cs)

/-- What follows the scheme without an authority in front.  Only an empty authority and that
    of the machine itself are accepted. -/
def withoutAuthority? : List Char → Option (List Char)
  | '/' :: '/' :: rest =>
    let authority := rest.takeWhile fun c => c ≠ '/'
    if authority = [] ∨ authority = "localhost".toList then
      some (rest.dropWhile fun c => c ≠ '/')
    else none
  | cs => some cs

/-- The name of the system of files that stores are on. -/
def fileSystem : String := "unix"

/-- What the options of an address set. -/
structure Options where
  mode : StoreMode
  shared : Bool
  system : String
deriving DecidableEq, Repr

/-- The options with one more, which may replace one before it.  Those that are not known do
    not count. -/
def Options.set? (o : Options) (name value : String) : Option Options :=
  match name with
  | "mode" => do return { o with mode := ← o.mode.ask? (← StoreMode.ofName? value) }
  | "cache" =>
    match value with
    | "shared" => some { o with shared := true }
    | "private" => some { o with shared := false }
    | _ => none
  | "vfs" => some { o with system := value }
  | _ => some o

/-- The options with one more from its spelling, a name and perhaps a value. -/
def Options.read? (o : Options) (cs : List Char) : Option Options :=
  let (name, value) := cut '=' cs
  o.set? ((partText? name).getD "") ((partText? (value.getD [])).getD "")

/-- The location with these options at a path.  Without a path nothing can be shared, nor can
    a memory that must not be changed and so stays empty. -/
def ofOptions (path : String) (o : Options) : Location :=
  if path = "" then .memory false
  else if path = ":memory:" ∨ o.mode = .memory then .memory (o.shared && o.mode ≠ .readOnly)
  else .file path o.mode

def Options.standard : Options := ⟨.create, false, fileSystem⟩

/-- The location at an address, which is given without its scheme.  Of the systems of files
    the last one named has to be the one there is. -/
def ofAddress? (cs : List Char) : Option Location := do
  let (path, query) := cut '?' (← withoutAuthority? (cut '#' cs).1)
  let options ← ((query.map (split '&')).getD []).foldlM Options.read? .standard
  if options.system = fileSystem then return ofOptions (← partText? path) options
  else none

/-- The location that a name stands for, if it stands for one. -/
def ofName? (name : String) : Option Location :=
  let cs := name.toList
  if cs.contains '\x00' then none
  else if "file:".toList.isPrefixOf cs then ofAddress? (cs.drop 5)
  else some (ofOptions name .standard)

end Location

end SignOff
