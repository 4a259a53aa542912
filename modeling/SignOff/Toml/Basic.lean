/-
  SignOff/Toml/Basic.lean
  =======================
  **TOML documents.**  A document is a table that its lines fill in one after the other.  A
  table remembers how it came to be (`Origin`), since that decides what may still be added:
  what is written between braces is complete, a table that a header opened takes no second
  header, and a table that the dots of a key made is only added to by further dotted keys.
  No line changes what an earlier one has set.

  Of fractions and of dates and times only their presence is kept: nothing that is
  configured has such a value.
-/

namespace SignOff

/-- How a table came to be. -/
inductive Toml.Origin where
  /-- written between braces -/
  | braces
  /-- opened by a header of its own -/
  | header
  /-- named on the way to another header -/
  | path
  /-- named by the dots of a key -/
  | dots
deriving DecidableEq, Repr

inductive Toml where
  | text (s : String)
  | integer (n : Int)
  | float
  | bool (b : Bool)
  | moment
  | array (items : List Toml)
  | table (origin : Toml.Origin) (fields : List (String × Toml))
  /-- tables that repeated headers opened, the last one apart, since it is the open one -/
  | tables (earlier : List (List (String × Toml))) (last : List (String × Toml))
deriving Repr

namespace Toml

abbrev Fields := List (String × Toml)

/-- A key of one or more parts: the tables that it leads through, and the name in the
    innermost. -/
structure Key where
  front : List String
  last : String
deriving DecidableEq, Repr

namespace Fields

def get? (fields : Fields) (name : String) : Option Toml :=
  (fields.find? fun f => f.1 = name).map fun f => f.2

/-- The fields with this value for the name, in its old place if it had one. -/
def put (name : String) (v : Toml) : Fields → Fields
  | [] => [(name, v)]
  | f :: rest => if f.1 = name then (name, v) :: rest else f :: put name v rest

/-! ### Keys with a value -/

/-- One more value, at the name that a key's front leads to.  The front may only lead through
    tables that keys or longer headers have named, and has to end in one that a key made. -/
def addAt : List String → String → Toml → Fields → Option Fields
  | [], name, v, fields =>
    match fields.get? name with
    | none => some (fields.put name v)
    | some _ => none
  | part :: front, name, v, fields =>
    match fields.get? part with
    | none => (addAt front name v []).map fun sub => fields.put part (.table .dots sub)
    | some (.table .dots sub) =>
      (addAt front name v sub).map fun sub => fields.put part (.table .dots sub)
    | some (.table .path sub) =>
      if front = [] then none
      else (addAt front name v sub).map fun sub => fields.put part (.table .path sub)
    | some (.tables earlier last) =>
      if front = [] then none
      else (addAt front name v last).map fun last => fields.put part (.tables earlier last)
    | some _ => none

/-- One more value at a key. -/
def add (key : Key) (v : Toml) (fields : Fields) : Option Fields :=
  addAt key.front key.last v fields

/-- The fields of a table between braces. -/
def ofPairs (pairs : List (Key × Toml)) : Option Fields :=
  pairs.foldlM (fun fields p => add p.1 p.2 fields) []

/-! ### Headers -/

/-- Change what is at the end of a header's path.  The path leads through tables, of a
    repeated header always the last one, and makes those that are not there. -/
def changeAt (change : Option Toml → Option Toml) : List String → String → Fields → Option Fields
  | [], name, fields => (change (fields.get? name)).map fun v => fields.put name v
  | part :: front, name, fields =>
    match fields.get? part with
    | none => (changeAt change front name []).map fun sub => fields.put part (.table .path sub)
    | some (.table .braces _) => none
    | some (.table origin sub) =>
      (changeAt change front name sub).map fun sub => fields.put part (.table origin sub)
    | some (.tables earlier last) =>
      (changeAt change front name last).map fun last => fields.put part (.tables earlier last)
    | some _ => none

/-- A header opens a new table, or one that so far was only on the way to another. -/
def opened : Option Toml → Option Toml
  | none => some (.table .header [])
  | some (.table .path sub) => some (.table .header sub)
  | some _ => none

/-- A repeated header opens the next table of its name. -/
def openedNext : Option Toml → Option Toml
  | none => some (.tables [] [])
  | some (.tables earlier last) => some (.tables (earlier ++ [last]) [])
  | some _ => none

/-- One more value in the table that a header has opened. -/
def extended (key : Key) (v : Toml) : Option Toml → Option Toml
  | some (.table origin sub) => (add key v sub).map fun sub => .table origin sub
  | some (.tables earlier last) => (add key v last).map fun last => .tables earlier last
  | _ => none

end Fields

/-! ### Lines -/

/-- What a line of a document says. -/
inductive Line where
  | pair (key : Key) (v : Toml)
  | header (key : Key)
  | nextHeader (key : Key)
deriving Repr

/-- A document as far as it has been filled in: its fields and the header that is open. -/
structure Draft where
  fields : Fields
  header : Option Key
deriving Repr

namespace Draft

/-- The draft with one more line. -/
def add (d : Draft) : Line → Option Draft
  | .pair key v =>
    match d.header with
    | none => (Fields.add key v d.fields).map fun fields => { d with fields := fields }
    | some h =>
      (Fields.changeAt (Fields.extended key v) h.front h.last d.fields).map fun fields =>
        { d with fields := fields }
  | .header h =>
    (Fields.changeAt Fields.opened h.front h.last d.fields).map fun fields => ⟨fields, some h⟩
  | .nextHeader h =>
    (Fields.changeAt Fields.openedNext h.front h.last d.fields).map fun fields =>
      ⟨fields, some h⟩

end Draft

/-- The document of some lines. -/
def Fields.ofLines (lines : List Line) : Option Fields :=
  (lines.foldlM Draft.add ⟨[], none⟩).map fun d => d.fields

end Toml

end SignOff
