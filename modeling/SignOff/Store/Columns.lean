/-
  SignOff/Store/Columns.lean
  ==========================
  **Rows column by column.**  A row as a list of named cells, for showing the whole store and
  keeping it in a file, and the repair of a single cell.  A repair is not held to the rules
  for records: it may put any text and number in place.  It still has to leave
  identifiers unique, a transfer with one step of a type, and no needed cell empty.
-/
import SignOff.Store.Basic
import SignOff.Json.Decoder
import SignOff.Json.Printer
import SignOff.Json.Parser

namespace SignOff

open Json

/-- What a column may hold. -/
inductive Cell where
  | null
  | text (s : String)
  | int (n : Int)
deriving DecidableEq, Repr

namespace Cell

def toJson : Cell → Json
  | .null => .null
  | .text s => .str s
  | .int n => .int n

/-- The integer has at most 64 bits. -/
def fits (n : Int) : Bool := -9223372036854775808 ≤ n && n < 9223372036854775808

/-- A cell from JSON: nothing, a text, or an integer of 64 bits. -/
def ofJson? : Json → Option Cell
  | .null => some .null
  | .str s => some (.text s)
  | .int n => if fits n then some (.int n) else none
  | _ => none

def ofText? : Option String → Cell
  | none => .null
  | some s => .text s

end Cell

/-- Why a cell cannot be repaired. -/
inductive RepairFault where
  /-- there is no such column, or it cannot hold such a value -/
  | unfit
  | breach (rule : Breach)
deriving DecidableEq, Repr

/-- A value for a text column that may be empty; a number becomes its digits. -/
def textCell? : Cell → Except RepairFault (Option String)
  | .null => .ok none
  | .text s => .ok (some s)
  | .int n => .ok (some (toString n))

/-- A value for a text column that is never empty. -/
def textCell (table column : String) (c : Cell) : Except RepairFault String := do
  match ← textCell? c with
  | some s => .ok s
  | none => .error (.breach (.noValue table column))

/-! ### Numbers in text -/

/-- A blank that may stand around a number: a space, or a character from the tabulator to the
    carriage return. -/
def isMargin (c : Char) : Bool := c == ' ' || (9 ≤ c.toNat && c.toNat ≤ 13)

/-- The characters without the blanks around them. -/
def withoutMargins (cs : List Char) : List Char :=
  ((cs.dropWhile isMargin).reverse.dropWhile isMargin).reverse

/-- An integer of 64 bits in digits alone, with or without a sign. -/
def plainInteger? (cs : List Char) : Option Int :=
  let (negative, ds) := Text.sign cs
  let n : Int := if negative then -(Text.numberOf ds : Int) else Text.numberOf ds
  if !ds.isEmpty && ds.all Char.isDigit && Cell.fits n then some n else none

/-- An integer in any other numeral: the number is whole in double precision, and one of 64
    bits that is not the least. -/
def roundedInteger? (cs : List Char) : Option Int :=
  match (Decimal.ofChars? cs).bind Decimal.whole? with
  | some n => if Cell.fits n && n ≠ -9223372036854775808 then some n else none
  | none => none

/-- The integer that a text becomes in a number column. -/
def integerOf? (s : String) : Option Int :=
  let cs := withoutMargins s.toList
  match plainInteger? cs with
  | some n => some n
  | none => roundedInteger? cs

/-- A value for a number column; a text that is a whole number becomes it. -/
def intCell (table column : String) : Cell → Except RepairFault Int
  | .null => .error (.breach (.noValue table column))
  | .int n => .ok n
  | .text s =>
    match integerOf? s with
    | some n => .ok n
    | none => .error .unfit

/-! ### Transfers -/

namespace TransferRow

def table : String := "license_transfer"

def cells (r : TransferRow) : List (String × Cell) :=
  [("id", .text r.id), ("license_id", .text r.license), ("from_type", .text r.fromType),
    ("from_id", .text r.fromId), ("to_type", .text r.toType), ("to_id", .text r.toId),
    ("requires_source_approval", .int r.needsSource),
    ("requires_target_approval", .int r.needsTarget),
    ("requires_admin_approval", .int r.needsAdmin), ("reason", .ofText? r.reason),
    ("initiated_by_type", .ofText? r.initiatedByType),
    ("initiated_by_id", .ofText? r.initiatedById), ("created_at", .text r.createdAt),
    ("completed_at", .ofText? r.completedAt)]

def set (column : String) (c : Cell) (r : TransferRow) : Except RepairFault TransferRow := do
  match column with
  | "id" => return { r with id := ← textCell table column c }
  | "license_id" => return { r with license := ← textCell table column c }
  | "from_type" => return { r with fromType := ← textCell table column c }
  | "from_id" => return { r with fromId := ← textCell table column c }
  | "to_type" => return { r with toType := ← textCell table column c }
  | "to_id" => return { r with toId := ← textCell table column c }
  | "requires_source_approval" => return { r with needsSource := ← intCell table column c }
  | "requires_target_approval" => return { r with needsTarget := ← intCell table column c }
  | "requires_admin_approval" => return { r with needsAdmin := ← intCell table column c }
  | "reason" => return { r with reason := ← textCell? c }
  | "initiated_by_type" => return { r with initiatedByType := ← textCell? c }
  | "initiated_by_id" => return { r with initiatedById := ← textCell? c }
  | "created_at" => return { r with createdAt := ← textCell table column c }
  | "completed_at" => return { r with completedAt := ← textCell? c }
  | _ => .error .unfit

def toJson (r : TransferRow) : Json := .obj (r.cells.map fun (k, c) => (k, c.toJson))

/-- A row to start from when one is read. -/
def blank : TransferRow := ⟨"", "", "", "", "", "", 0, 0, 0, none, none, none, "", none⟩

end TransferRow

/-! ### Steps -/

namespace StepRow

def table : String := "transfer_approval"

def cells (r : StepRow) : List (String × Cell) :=
  [("id", .text r.id), ("transfer_id", .text r.transferId), ("approval_type", .text r.type),
    ("approver_type", .ofText? r.approverType), ("approver_id", .ofText? r.approverId),
    ("timeout_hours", .int r.timeoutHours), ("outcome", .text r.outcome),
    ("resolved_by_type", .ofText? r.resolvedByType),
    ("resolved_by_id", .ofText? r.resolvedById), ("resolved_at", .ofText? r.resolvedAt),
    ("notes", .ofText? r.notes), ("created_at", .text r.createdAt)]

def set (column : String) (c : Cell) (r : StepRow) : Except RepairFault StepRow := do
  match column with
  | "id" => return { r with id := ← textCell table column c }
  | "transfer_id" => return { r with transferId := ← textCell table column c }
  | "approval_type" => return { r with type := ← textCell table column c }
  | "approver_type" => return { r with approverType := ← textCell? c }
  | "approver_id" => return { r with approverId := ← textCell? c }
  | "timeout_hours" => return { r with timeoutHours := ← intCell table column c }
  | "outcome" => return { r with outcome := ← textCell table column c }
  | "resolved_by_type" => return { r with resolvedByType := ← textCell? c }
  | "resolved_by_id" => return { r with resolvedById := ← textCell? c }
  | "resolved_at" => return { r with resolvedAt := ← textCell? c }
  | "notes" => return { r with notes := ← textCell? c }
  | "created_at" => return { r with createdAt := ← textCell table column c }
  | _ => .error .unfit

def toJson (r : StepRow) : Json := .obj (r.cells.map fun (k, c) => (k, c.toJson))

/-- A row to start from when one is read. -/
def blank : StepRow := ⟨"", "", "", none, none, 0, "", none, none, none, none, ""⟩

end StepRow

/-! ### The whole store -/

namespace Store

def toJson (s : Store) : Json :=
  .obj [("transfers", .arr (s.transfers.map TransferRow.toJson)),
    ("steps", .arr (s.steps.map StepRow.toJson))]

/-- A row from the fields of an object. -/
def rowOf? {α : Type} (set : String → Cell → α → Except RepairFault α) (blank : α) :
    Json → Option α
  | .obj fields =>
    fields.foldlM
      (fun r (k, j) =>
        match Cell.ofJson? j with
        | some c => (set k c r).toOption
        | none => none)
      blank
  | _ => none

def ofJson? (j : Json) : Option Store := do
  match ← slots? ["transfers", "steps"] j with
  | [transfers, steps] =>
    some ⟨← required (list? (rowOf? TransferRow.set .blank)) transfers,
      ← required (list? (rowOf? StepRow.set .blank)) steps⟩
  | _ => none

def snapshot (s : Store) : String := s.toJson.compact

/-- The store that a text keeps, if it keeps one. -/
def ofSnapshot? (text : String) : Option Store := (parse? text).bind ofJson?

/-! ### Repairs -/

/-- Another value in one column of a transfer: how many rows had the identifier, and the
    store afterwards. -/
def repairTransfer (s : Store) (id column : String) (c : Cell) :
    Except RepairFault (Nat × Store) :=
  match s.transfers.find? fun r => r.id = id with
  | none => .ok (0, s)
  | some r => do
    let new ← r.set column c
    if new.id ≠ id ∧ s.transfers.any (fun r => r.id = new.id) then
      .error (.breach .transferIdTaken)
    else
      .ok (1, { s with transfers := s.transfers.map fun r => if r.id = id then new else r })

/-- Another value in one column of a step: how many rows had the identifier, and the store
    afterwards. -/
def repairStep (s : Store) (id column : String) (c : Cell) : Except RepairFault (Nat × Store) :=
  match s.steps.find? fun r => r.id = id with
  | none => .ok (0, s)
  | some r => do
    let new ← r.set column c
    if new.id ≠ id ∧ s.steps.any (fun r => r.id = new.id) then .error (.breach .stepIdTaken)
    else if s.steps.any fun r =>
        r.id ≠ id && r.transferId = new.transferId && r.type = new.type then
      .error (.breach .stepTypeTaken)
    else .ok (1, { s with steps := s.steps.map fun r => if r.id = id then new else r })

/-- The store without a transfer, whatever its steps: how many rows went, and the rest. -/
def removeTransfer (s : Store) (id : String) : Nat × Store :=
  ((s.transfers.filter fun r => r.id = id).length,
    { s with transfers := s.transfers.filter fun r => r.id ≠ id })

/-- The store without a step: how many rows went, and the rest. -/
def removeStep (s : Store) (id : String) : Nat × Store :=
  ((s.steps.filter fun r => r.id = id).length,
    { s with steps := s.steps.filter fun r => r.id ≠ id })

end Store

end SignOff
