/-
  SignOff/Step.lean
  =================
  **Approval steps.**  A step is one sign-off that a transfer waits for or has got: who is
  asked, how many hours there are from its creation, and the decision once there is one.
-/
import SignOff.Owner
import SignOff.Approval
import SignOff.Time.Instant

namespace SignOff

/-- One sign-off on a transfer. -/
structure Step where
  id : String
  transferId : String
  type : ApprovalType
  approver : Option Owner
  timeoutHours : UInt32
  outcome : Outcome
  resolvedBy : Option Owner
  resolvedAt : Option Instant
  notes : Option String
  createdAt : Instant
deriving DecidableEq, Repr

/-- The instant of an expiry lies past the end of the calendar. -/
inductive Overflow where
  | pastCalendar
deriving DecidableEq, Repr

def Overflow.message : Overflow → String
  | .pastCalendar => "`DateTime + TimeDelta` overflowed"

namespace Step

/-- A step that waits for its decision from now on. -/
def fresh (id transferId : String) (type : ApprovalType) (approver : Option Owner)
    (hours : UInt32) (now : Instant) : Step :=
  { id := id, transferId := transferId, type := type, approver := approver,
    timeoutHours := hours, outcome := .pending, resolvedBy := none, resolvedAt := none,
    notes := none, createdAt := now }

/-- The last instant at which a pending step is still in time. -/
def expiresAt (s : Step) : Except Overflow Instant :=
  match s.createdAt.plusHours? s.timeoutHours.toNat with
  | some t => .ok t
  | none => .error .pastCalendar

/-- The step is pending and its time has run out.  The expiry of a decided step is not
    looked at. -/
def isTimedOut (s : Step) (now : Instant) : Except Overflow Bool :=
  if s.outcome = .pending then s.expiresAt.map fun t => decide (t < now) else .ok false

end Step

end SignOff
