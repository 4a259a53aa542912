/-
  SignOff/Plan.lean
  =================
  **Plans.**  What a transfer's sign-offs will ask for: one requirement per type that the
  transfer needs, naming the owner on that side and the hours there are.  The entries may
  be fulfilled in any order.
-/
import SignOff.Transfer
import SignOff.Step

namespace SignOff

/-- What is asked for one sign-off. -/
structure Requirement where
  required : Bool
  approverKind : Option String
  approverId : Option String
  timeoutHours : UInt32
deriving DecidableEq, Repr

namespace Requirement

/-- The owner asked for, when both its kind and its identifier are given. -/
def approver (r : Requirement) : Option Owner := Owner.ofHalves r.approverKind r.approverId

/-- What a transfer asks for one type of sign-off. -/
def ofTransfer (t : Transfer) (timeouts : Timeouts) (type : ApprovalType) : Requirement :=
  { required := true
    approverKind := (t.approver type).map fun o => o.kind.name
    approverId := (t.approver type).map fun o => o.id
    timeoutHours := timeouts.hours type }

/-- The step that fulfils the requirement once it is decided. -/
def step (r : Requirement) (id transferId : String) (type : ApprovalType) (now : Instant) :
    Step :=
  Step.fresh id transferId type r.approver r.timeoutHours now

end Requirement

/-- The requirements of a transfer by type, in planning order. -/
abbrev Plan := List (ApprovalType × Requirement)

namespace Plan

/-- One requirement for every type of sign-off that the transfer needs. -/
def ofTransfer (t : Transfer) (timeouts : Timeouts) : Plan :=
  t.needed.map fun type => (type, Requirement.ofTransfer t timeouts type)

/-- The plan with this requirement for its type, in place of any other. -/
def insert (plan : Plan) (entry : ApprovalType × Requirement) : Plan :=
  (plan.filter fun e => e.1.place < entry.1.place) ++
    entry :: plan.filter fun e => entry.1.place < e.1.place

/-- The pending steps of a plan, each from the instant on at which it is made; the `k`-th one is
    named by `ids k`. -/
def steps (plan : Plan) (transferId : String) (ids : Nat → String) : List (Instant → Step) :=
  plan.zipIdx.map fun ((type, r), k) => r.step (ids k) transferId type

end Plan

end SignOff
