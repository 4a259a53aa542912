/-
  SignOff/Policy.lean
  ===================
  **Who may decide a step.**  A source step is decided by the owner that gives the license
  away, who must still own it if it can be asked; a target step by the owner that receives
  it; an administrators' step by anyone known to hold the configured permission.  Whoever
  may approve may reject.
-/
import SignOff.Actor
import SignOff.Transfer
import SignOff.Step

namespace SignOff

/-- The rule for deciding steps: the permission that administrators must hold. -/
structure Policy where
  adminPermission : String
deriving DecidableEq, Repr

namespace Policy

/-- The name of the administrators' permission unless another is configured. -/
def standardPermission : String := "approve-license-transfers"

/-- The step is open and belongs to the transfer: only then is the actor looked at. -/
def applies (step : Step) (transfer : Transfer) : Bool :=
  !step.outcome.isTerminal && step.transferId = transfer.id

def allows (p : Policy) (step : Step) (transfer : Transfer) (actor : Actor) : Bool :=
  applies step transfer &&
    match step.type with
    | .source => actor.identity = transfer.source && (actor.owns? transfer.license).getD true
    | .target => actor.identity = transfer.target
    | .admin => (actor.holds? p.adminPermission).getD false

/-- The decision depends on what the actor answers about its licenses or permissions. -/
def consults (step : Step) (transfer : Transfer) (actor : Actor) : Bool :=
  applies step transfer &&
    match step.type with
    | .source => actor.identity = transfer.source
    | .target => false
    | .admin => true

end Policy

end SignOff
