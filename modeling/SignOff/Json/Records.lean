/-
  SignOff/Json/Records.lean
  =========================
  **Records as JSON.**  The form of every record of the workflow: which fields it has, in
  which order they are written, and which may be missing when it is read.  Everything
  that is written can be read; what is not there is written as `null`.
-/
import SignOff.Json.Decoder
import SignOff.Plan
import SignOff.State
import SignOff.Time.Text
import SignOff.Time.Lenient

namespace SignOff

open Json

/-! ### Owners, names and instants -/

namespace Instant

def toJson (t : Instant) : Json := .str t.text

def ofJson? : Json → Option Instant
  | .str s => ofText? s
  | _ => none

end Instant

namespace OwnerKind

def toJson (k : OwnerKind) : Json := .str k.name

def ofJson? (j : Json) : Option OwnerKind := (text? j).map ofName

end OwnerKind

namespace Owner

def fieldNames : List String := ["kind", "id"]

def toJson (o : Owner) : Json := .obj [("kind", o.kind.toJson), ("id", .str o.id)]

def ofJson? (j : Json) : Option Owner := do
  match ← slots? fieldNames j with
  | [kind, id] => some ⟨← required OwnerKind.ofJson? kind, ← required text? id⟩
  | _ => none

end Owner

def ApprovalType.ofJson? : Json → Option ApprovalType := named? ApprovalType.ofName?

def Outcome.ofJson? : Json → Option Outcome := named? Outcome.ofName?

def State.ofJson? : Json → Option State := named? State.ofName?

/-! ### Timeouts and requirements -/

namespace Timeouts

def fieldNames : List String := ["source_hours", "target_hours", "admin_hours"]

/-- The timeouts from a record; what is not given has its standard value. -/
def ofJson? (j : Json) : Option Timeouts := do
  match ← slots? fieldNames j with
  | [source, target, admin] =>
    some ⟨← defaulted standard.source hours? source, ← defaulted standard.target hours? target,
      ← defaulted standard.admin hours? admin⟩
  | _ => none

end Timeouts

namespace Requirement

def fieldNames : List String := ["required", "approver_type", "approver_id", "timeout_hours"]

def toJson (r : Requirement) : Json :=
  .obj [("required", .bool r.required), ("approver_type", ofText? r.approverKind),
    ("approver_id", ofText? r.approverId), ("timeout_hours", ofNat r.timeoutHours.toNat)]

def ofJson? (j : Json) : Option Requirement := do
  match ← slots? fieldNames j with
  | [needed, kind, id, hours] =>
    some
      { required := ← Json.required bool? needed
        approverKind := ← optional text? kind
        approverId := ← optional text? id
        timeoutHours := ← Json.required hours? hours }
  | _ => none

end Requirement

namespace Plan

/-- A plan has one field for every type that it asks for, in planning order. -/
def toJson (plan : Plan) : Json := .obj (plan.map fun (type, r) => (type.name, r.toJson))

/-- The requirement that is asked for under the name of a type. -/
def planned? (field : String × Json) : Option (ApprovalType × Requirement) := do
  some (← ApprovalType.ofName? field.1, ← Requirement.ofJson? field.2)

/-- A plan from an object with its fields in any order; of repeated fields the last one counts. -/
def ofJson? : Json → Option Plan
  | .obj fields => (fields.mapM planned?).map fun entries => entries.foldl insert []
  | _ => none

end Plan

/-! ### Steps -/

namespace Step

def fieldNames : List String :=
  ["id", "transfer_id", "approval_type", "approver", "timeout_hours", "outcome", "resolved_by",
    "resolved_at", "notes", "created_at"]

def toJson (s : Step) : Json :=
  .obj [("id", .str s.id), ("transfer_id", .str s.transferId),
    ("approval_type", .str s.type.name), ("approver", ofOption Owner.toJson s.approver),
    ("timeout_hours", ofNat s.timeoutHours.toNat), ("outcome", .str s.outcome.name),
    ("resolved_by", ofOption Owner.toJson s.resolvedBy),
    ("resolved_at", ofOption Instant.toJson s.resolvedAt), ("notes", ofText? s.notes),
    ("created_at", s.createdAt.toJson)]

def ofJson? (j : Json) : Option Step := do
  match ← slots? fieldNames j with
  | [id, transferId, type, approver, hours, outcome, resolvedBy, resolvedAt, notes, createdAt] =>
    some
      { id := ← required text? id
        transferId := ← required text? transferId
        type := ← required ApprovalType.ofJson? type
        approver := ← optional Owner.ofJson? approver
        timeoutHours := ← required hours? hours
        outcome := ← required Outcome.ofJson? outcome
        resolvedBy := ← optional Owner.ofJson? resolvedBy
        resolvedAt := ← optional Instant.ofJson? resolvedAt
        notes := ← optional text? notes
        createdAt := ← required Instant.ofJson? createdAt }
  | _ => none

end Step

/-! ### Proposals and transfers -/

namespace Proposal

def fieldNames : List String :=
  ["license_id", "from", "to", "requires_source_approval", "requires_target_approval",
    "requires_admin_approval", "reason"]

/-- A proposal from a record; a sign-off that is not mentioned is not needed. -/
def ofJson? (j : Json) : Option Proposal := do
  match ← slots? fieldNames j with
  | [license, source, target, needsSource, needsTarget, needsAdmin, reason] =>
    some
      { license := ← required text? license
        source := ← required Owner.ofJson? source
        target := ← required Owner.ofJson? target
        needsSource := ← defaulted false bool? needsSource
        needsTarget := ← defaulted false bool? needsTarget
        needsAdmin := ← defaulted false bool? needsAdmin
        reason := ← defaulted none (nullable text?) reason }
  | _ => none

end Proposal

namespace Transfer

def fieldNames : List String :=
  ["id", "license_id", "from", "to", "requires_source_approval", "requires_target_approval",
    "requires_admin_approval", "reason", "initiated_by", "created_at", "completed_at"]

def toJson (t : Transfer) : Json :=
  .obj [("id", .str t.id), ("license_id", .str t.license), ("from", t.source.toJson),
    ("to", t.target.toJson), ("requires_source_approval", .bool t.needsSource),
    ("requires_target_approval", .bool t.needsTarget),
    ("requires_admin_approval", .bool t.needsAdmin), ("reason", ofText? t.reason),
    ("initiated_by", ofOption Owner.toJson t.initiatedBy), ("created_at", t.createdAt.toJson),
    ("completed_at", ofOption Instant.toJson t.completedAt)]

def ofJson? (j : Json) : Option Transfer := do
  match ← slots? fieldNames j with
  | [id, license, source, target, needsSource, needsTarget, needsAdmin, reason, initiatedBy,
      createdAt, completedAt] =>
    some
      { id := ← required text? id
        license := ← required text? license
        source := ← required Owner.ofJson? source
        target := ← required Owner.ofJson? target
        needsSource := ← required bool? needsSource
        needsTarget := ← required bool? needsTarget
        needsAdmin := ← required bool? needsAdmin
        reason := ← optional text? reason
        initiatedBy := ← optional Owner.ofJson? initiatedBy
        createdAt := ← required Instant.ofJson? createdAt
        completedAt := ← optional Instant.ofJson? completedAt }
  | _ => none

end Transfer

end SignOff
