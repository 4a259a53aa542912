/-
  SignOff/Service.lean
  ====================
  **The workflow.**  The operations that callers use, as procedures over the store.  Nothing
  is remembered between them: each reads what it needs, derives the transfer's state anew
  and checks it against the clock.  A decision is checked first and written last, by a
  statement that takes effect only if the step is still pending; its answer shows the
  step and the state as they are read back afterwards.

  Every change is noted in the audit trail, and so is every refused decision.
-/
import SignOff.Procedure
import SignOff.Policy
import SignOff.Plan

namespace SignOff

/-- What the workflow is set up with: the rule for deciding and the hours for each party. -/
structure Service where
  policy : Policy
  timeouts : Timeouts
deriving DecidableEq, Repr

/-- The result of a decision: the step as it is now, and the state of its transfer. -/
structure Decision where
  step : Step
  state : State
deriving DecidableEq, Repr

/-- A transfer with its steps and the state that follows from them. -/
structure Status where
  transfer : Transfer
  steps : List Step
  state : State
deriving DecidableEq, Repr

namespace Service

open Procedure

/-! ### Parts of operations -/

def require (id : String) : Procedure Transfer := do
  ofOption (.noSuchTransfer id) (← query (.findTransfer id))

/-- The state of a transfer with these steps. -/
def derive (t : Transfer) (steps : List Step) (now : Instant) : Procedure State :=
  ofExcept (t.state steps now)

/-- Note an event that happens now. -/
def report (entry : Instant → Audit.Entry) : Procedure Unit := do
  note (entry (← now))

/-- Turn a decision down: note why, and end with the error. -/
def refuse {α : Type} (step : Step) (actor : Actor) (why : Error) : Procedure α := do
  report fun t =>
    { timestamp := t, event := .decisionRefused, transferId := some step.transferId,
      stepId := some step.id, type := some step.type, actor := some actor.identity,
      reason := some why.text }
  fail why

/-! ### Recording and planning -/

/-- Record a proposal as a transfer. -/
def initiate (id : String) (p : Proposal) (initiator : Option Owner) : Procedure Transfer := do
  let transfer := Transfer.ofProposal id p initiator (← now)
  query (.insertTransfer transfer)
  report fun t =>
    { timestamp := t, event := .transferInitiated, transferId := some transfer.id,
      actor := initiator }
  return transfer

/-- Store one pending step for every sign-off that the transfer needs, all or none.  Each step
    is made at its own reading of the clock. -/
def plan (svc : Service) (ids : Nat → String) (transfer : Transfer) : Procedure Plan := do
  let plan := Plan.ofTransfer transfer svc.timeouts
  let steps ← makeEach (plan.steps transfer.id ids)
  query (.insertSteps steps)
  report fun t =>
    { timestamp := t, event := .approvalsPlanned, transferId := some transfer.id }
  return plan

/-- Store the pending step of one type, which the transfer must need. -/
def createStep (svc : Service) (id : String) (transfer : Transfer) (type : ApprovalType)
    (actor : Option Actor) : Procedure Step := do
  if transfer.needs type then
    let requirement := Requirement.ofTransfer transfer svc.timeouts type
    let step := requirement.step id transfer.id type (← now)
    query (.insertSteps [step])
    report fun t =>
      { timestamp := t, event := .stepCreated, transferId := some transfer.id,
        stepId := some step.id, type := some type, actor := actor.map fun a => a.identity }
    return step
  else
    fail (.notNeeded transfer.id type)

/-! ### Deciding -/

def decisionEvent : Outcome → Audit.Event
  | .approved => .stepApproved
  | _ => .stepRejected

/-- The last part of a decision: write it, unless someone was faster, and answer with what
    the store holds afterwards. -/
def settle (step : Step) (transfer : Transfer) (actor : Actor) (outcome : Outcome)
    (notes : Option String) (time : Instant) : Procedure Decision := do
  if ← query (.resolve step.id outcome actor.identity notes time) then
    let steps ← query (.stepsOf transfer.id)
    let state ← derive transfer steps (← now)
    let step ← ofOption (.noSuchStep step.id) (steps.find? fun s => s.id = step.id)
    report fun t =>
      { timestamp := t, event := decisionEvent outcome, transferId := some transfer.id,
        stepId := some step.id, type := some step.type, actor := some actor.identity,
        state := some state, notes := notes }
    return ⟨step, state⟩
  else
    refuse step actor (.decidedMeanwhile step.id)

/-- Decide a step.  An expired transfer refuses every decision, then a decided step does,
    then the policy. -/
def decide (svc : Service) (stepId : String) (actor : Actor) (outcome : Outcome)
    (notes : Option String) : Procedure Decision := do
  let step ← ofOption (.noSuchStep stepId) (← query (.findStep stepId))
  let transfer ← require step.transferId
  let time ← now
  let steps ← query (.stepsOf transfer.id)
  let state ← derive transfer steps time
  if state = .expired then
    refuse step actor (.transferExpired transfer.id)
  else if !step.outcome.mayBecome outcome then
    refuse step actor (.stepDecided step.id step.outcome)
  else
    if Policy.consults step transfer actor then asking
    if svc.policy.allows step transfer actor then
      settle step transfer actor outcome notes time
    else
      refuse step actor (.notEntitled actor.identity step.type step.id)

def approve (svc : Service) (stepId : String) (actor : Actor) (notes : Option String) :
    Procedure Decision :=
  svc.decide stepId actor .approved notes

/-- Veto a transfer by one of its steps. -/
def reject (svc : Service) (stepId : String) (actor : Actor) (notes : Option String) :
    Procedure Decision :=
  svc.decide stepId actor .rejected notes

/-! ### Reading -/

/-- The steps and the state of a transfer, as of an instant. -/
def statusOf (transfer : Transfer) (time : Instant) : Procedure Status := do
  let steps ← query (.stepsOf transfer.id)
  return ⟨transfer, steps, ← derive transfer steps time⟩

/-- A transfer with its steps and state, as of an instant. -/
def statusAt (id : String) (time : Instant) : Procedure Status := do
  statusOf (← require id) time

def status (id : String) : Procedure Status := do
  statusAt id (← now)

/-- The state of a transfer, as of an instant. -/
def stateAt (id : String) (time : Instant) : Procedure State := do
  return (← statusAt id time).state

def state (id : String) : Procedure State := do
  stateAt id (← now)

def statuses (time : Instant) : List Transfer → Procedure (List Status)
  | [] => return []
  | t :: rest => do
    let first ← statusOf t time
    return first :: (← statuses time rest)

/-- Every transfer of a license with its steps and state, oldest first. -/
def history (license : String) : Procedure (List Status) := do
  let time ← now
  statuses time (← query (.transfersOf license))

/-- The actor may decide the step of the transfer, which needs it and is pending. -/
def isDecidable (svc : Service) (step : Step) (transfer : Transfer) (actor : Actor)
    (time : Instant) : Procedure Bool := do
  if transfer.needs step.type then
    if Policy.consults step transfer actor then asking
    if svc.policy.allows step transfer actor then
      let steps ← query (.stepsOf transfer.id)
      return (← derive transfer steps time) = .pending
    else return false
  else return false

/-- The steps of a list that the actor may decide.  A step without its transfer is passed
    over. -/
def decidable (svc : Service) (actor : Actor) (time : Instant) :
    List Step → Procedure (List Step)
  | [] => return []
  | step :: rest => do
    match ← query (.findTransfer step.transferId) with
    | none => svc.decidable actor time rest
    | some transfer =>
      if ← svc.isDecidable step transfer actor time then
        return step :: (← svc.decidable actor time rest)
      else
        svc.decidable actor time rest

/-- The pending steps that the actor may decide now, oldest first. -/
def pending (svc : Service) (actor : Actor) : Procedure (List Step) := do
  let time ← now
  svc.decidable actor time (← query .pendingSteps)

/-! ### Completing -/

def complete (id : String) : Procedure Transfer := do
  let current ← status id
  if current.state = .approved then
    if ← query (.complete id (← now)) then
      report fun t =>
        { timestamp := t, event := .transferCompleted, transferId := some id,
          state := some .approved }
      require id
    else
      fail (.completedAlready id)
  else
    fail (.notApproved id current.state)

end Service

end SignOff
