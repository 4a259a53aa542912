/-
  SignOff/Store/Row.lean
  ======================
  **Rows.**  The store keeps each transfer and each step as a row of columns, which are texts
  and integers.  Writing a record as a row always succeeds; reading one back checks the
  columns that only some texts and numbers fit, in a fixed order, and reports the first
  that does not.  An owner takes two columns, and is there only if both are.
-/
import SignOff.Transfer
import SignOff.Step
import SignOff.Error
import SignOff.Time.Text
import SignOff.Time.Strict

namespace SignOff

structure TransferRow where
  id : String
  license : String
  fromType : String
  fromId : String
  toType : String
  toId : String
  needsSource : Int
  needsTarget : Int
  needsAdmin : Int
  reason : Option String
  initiatedByType : Option String
  initiatedById : Option String
  createdAt : String
  completedAt : Option String
deriving DecidableEq, Repr

structure StepRow where
  id : String
  transferId : String
  type : String
  approverType : Option String
  approverId : Option String
  timeoutHours : Int
  outcome : String
  resolvedByType : Option String
  resolvedById : Option String
  resolvedAt : Option String
  notes : Option String
  createdAt : String
deriving DecidableEq, Repr

/-- The instant in a column. -/
def instantColumn (column text : String) : Except RowFault Instant :=
  match Instant.ofColumn text with
  | .ok t => .ok t
  | .error flaw => .error (.badInstant column flaw)

/-- The instant in a column that may be empty. -/
def instantColumn? (column : String) : Option String → Except RowFault (Option Instant)
  | none => .ok none
  | some text => (instantColumn column text).map some

namespace TransferRow

/-- A flag is kept as zero or one. -/
def flag (b : Bool) : Int := if b then 1 else 0

def ofTransfer (t : Transfer) : TransferRow :=
  { id := t.id, license := t.license
    fromType := t.source.kind.name, fromId := t.source.id
    toType := t.target.kind.name, toId := t.target.id
    needsSource := flag t.needsSource, needsTarget := flag t.needsTarget
    needsAdmin := flag t.needsAdmin
    reason := t.reason
    initiatedByType := t.initiatedBy.map fun o => o.kind.name
    initiatedById := t.initiatedBy.map fun o => o.id
    createdAt := t.createdAt.columnText
    completedAt := t.completedAt.map Instant.columnText }

/-- The transfer of a row.  Any flag that is not zero is set. -/
def transfer (r : TransferRow) : Except RowFault Transfer := do
  let createdAt ← instantColumn "created_at" r.createdAt
  let completedAt ← instantColumn? "completed_at" r.completedAt
  .ok
    { id := r.id, license := r.license
      source := Owner.ofNames r.fromType r.fromId
      target := Owner.ofNames r.toType r.toId
      needsSource := r.needsSource ≠ 0, needsTarget := r.needsTarget ≠ 0
      needsAdmin := r.needsAdmin ≠ 0
      reason := r.reason
      initiatedBy := Owner.ofHalves r.initiatedByType r.initiatedById
      createdAt := createdAt, completedAt := completedAt }

end TransferRow

namespace StepRow

def ofStep (s : Step) : StepRow :=
  { id := s.id, transferId := s.transferId, type := s.type.name
    approverType := s.approver.map fun o => o.kind.name
    approverId := s.approver.map fun o => o.id
    timeoutHours := s.timeoutHours.toNat
    outcome := s.outcome.name
    resolvedByType := s.resolvedBy.map fun o => o.kind.name
    resolvedById := s.resolvedBy.map fun o => o.id
    resolvedAt := s.resolvedAt.map Instant.columnText
    notes := s.notes
    createdAt := s.createdAt.columnText }

/-- A number of hours that fits its field. -/
def hours (n : Int) : Except RowFault UInt32 :=
  if n < 0 then .error .hoursTooSmall
  else if n < 4294967296 then .ok (UInt32.ofNat n.toNat)
  else .error .hoursTooLarge

def step (r : StepRow) : Except RowFault Step := do
  let type ← match ApprovalType.ofName? r.type with
    | some type => .ok type
    | none => .error (.unknownType r.type)
  let outcome ← match Outcome.ofName? r.outcome with
    | some outcome => .ok outcome
    | none => .error (.unknownOutcome r.outcome)
  let timeoutHours ← hours r.timeoutHours
  let createdAt ← instantColumn "created_at" r.createdAt
  let resolvedAt ← instantColumn? "resolved_at" r.resolvedAt
  .ok
    { id := r.id, transferId := r.transferId, type := type
      approver := Owner.ofHalves r.approverType r.approverId
      timeoutHours := timeoutHours, outcome := outcome
      resolvedBy := Owner.ofHalves r.resolvedByType r.resolvedById
      resolvedAt := resolvedAt, notes := r.notes, createdAt := createdAt }

end StepRow

end SignOff
