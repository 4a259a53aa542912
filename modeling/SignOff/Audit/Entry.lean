/-
  SignOff/Audit/Entry.lean
  ========================
  **Entries of the audit trail.**  What happened, when, and to which transfer and step; who
  acted; and the state, notes or reason that goes with it.  An entry is kept as one line of
  compact JSON.
-/
import SignOff.Json.Records
import SignOff.Json.Printer
import SignOff.Json.Parser

namespace SignOff.Audit

open Json

/-- What an entry reports. -/
inductive Event where
  | transferInitiated
  | approvalsPlanned
  | stepCreated
  | stepApproved
  | stepRejected
  | decisionRefused
  | transferCompleted
deriving DecidableEq, Repr

namespace Event

def all : List Event :=
  [.transferInitiated, .approvalsPlanned, .stepCreated, .stepApproved, .stepRejected,
    .decisionRefused, .transferCompleted]

def name : Event → String
  | .transferInitiated => "transfer_initiated"
  | .approvalsPlanned => "approvals_planned"
  | .stepCreated => "step_created"
  | .stepApproved => "step_approved"
  | .stepRejected => "step_rejected"
  | .decisionRefused => "decision_refused"
  | .transferCompleted => "transfer_completed"

def ofName? (s : String) : Option Event := all.find? fun e => e.name = s

def ofJson? : Json → Option Event := named? ofName?

end Event

structure Entry where
  timestamp : Instant
  event : Event
  transferId : Option String := none
  stepId : Option String := none
  type : Option ApprovalType := none
  actor : Option Owner := none
  state : Option State := none
  notes : Option String := none
  reason : Option String := none
deriving DecidableEq, Repr

namespace Entry

def fieldNames : List String :=
  ["timestamp", "event_type", "transfer_id", "step_id", "approval_type", "actor",
    "transfer_state", "notes", "reason"]

def toJson (e : Entry) : Json :=
  .obj [("timestamp", e.timestamp.toJson), ("event_type", .str e.event.name),
    ("transfer_id", ofText? e.transferId), ("step_id", ofText? e.stepId),
    ("approval_type", ofOption (fun t => .str t.name) e.type),
    ("actor", ofOption Owner.toJson e.actor),
    ("transfer_state", ofOption (fun s => .str s.name) e.state), ("notes", ofText? e.notes),
    ("reason", ofText? e.reason)]

def ofJson? (j : Json) : Option Entry := do
  match ← slots? fieldNames j with
  | [timestamp, event, transferId, stepId, type, actor, state, notes, reason] =>
    some
      { timestamp := ← required Instant.ofJson? timestamp
        event := ← required Event.ofJson? event
        transferId := ← optional text? transferId
        stepId := ← optional text? stepId
        type := ← optional ApprovalType.ofJson? type
        actor := ← optional Owner.ofJson? actor
        state := ← optional State.ofJson? state
        notes := ← optional text? notes
        reason := ← optional text? reason }
  | _ => none

/-- The line that keeps the entry, without its end. -/
def line (e : Entry) : String := e.toJson.compact

/-- The entry that a line keeps, if it keeps one. -/
def ofLine? (s : String) : Option Entry := (parse? s).bind ofJson?

end Entry

end SignOff.Audit
