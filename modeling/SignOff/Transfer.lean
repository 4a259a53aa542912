/-
  SignOff/Transfer.lean
  =====================
  **Transfers.**  A proposal asks to move a license from one owner to another and says whose
  sign-offs it needs; a recorded proposal is a transfer.
-/
import SignOff.Owner
import SignOff.Approval
import SignOff.Time.Instant

namespace SignOff

/-- A request to move a license. -/
structure Proposal where
  license : String
  source : Owner
  target : Owner
  needsSource : Bool
  needsTarget : Bool
  needsAdmin : Bool
  reason : Option String
deriving DecidableEq, Repr

/-- A recorded request, with the time of its completion once it is carried out. -/
structure Transfer where
  id : String
  license : String
  source : Owner
  target : Owner
  needsSource : Bool
  needsTarget : Bool
  needsAdmin : Bool
  reason : Option String
  initiatedBy : Option Owner
  createdAt : Instant
  completedAt : Option Instant
deriving DecidableEq, Repr

namespace Transfer

/-- The transfer that a proposal becomes when it is recorded. -/
def ofProposal (id : String) (p : Proposal) (initiator : Option Owner) (now : Instant) : Transfer :=
  { id := id, license := p.license, source := p.source, target := p.target,
    needsSource := p.needsSource, needsTarget := p.needsTarget, needsAdmin := p.needsAdmin,
    reason := p.reason, initiatedBy := initiator, createdAt := now, completedAt := none }

/-- The transfer needs the sign-off of this type. -/
def needs (t : Transfer) : ApprovalType → Bool
  | .source => t.needsSource
  | .target => t.needsTarget
  | .admin => t.needsAdmin

/-- The types of sign-off that the transfer needs, in planning order. -/
def needed (t : Transfer) : List ApprovalType := ApprovalType.all.filter t.needs

/-- The transfer needs no sign-off at all. -/
def needsNothing (t : Transfer) : Bool := !(t.needsSource || t.needsTarget || t.needsAdmin)

/-- The owner that a sign-off is asked of; the administrators' names no one. -/
def approver (t : Transfer) : ApprovalType → Option Owner
  | .source => some t.source
  | .target => some t.target
  | .admin => none

end Transfer

end SignOff
