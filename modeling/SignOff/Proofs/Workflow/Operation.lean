/-
  SignOff/Proofs/Workflow/Operation.lean
  ======================================
  **Calls.**  What a caller can ask of the workflow, as data: an `Operation` is one of its
  operations with the arguments, and an `Answer` what any of them answers.  Runs of the
  workflow are made of these, so that one theorem can speak of all operations.

  Some operations take a transfer.  Callers have transfers from earlier answers only, and
  `Answer.transfers` says which ones an answer shows.
-/
import SignOff.Service
import SignOff.Proofs.Ledger.Coherence

namespace SignOff

/-- What the caller of a decision has decided. -/
structure Ruling where
  stepId : String
  actor : Actor
  outcome : Outcome
  notes : Option String

/-- The update that writes the ruling. -/
abbrev Ruling.update (r : Ruling) (time : Instant) : Statement :=
  .resolve r.stepId r.outcome r.actor.identity r.notes time

/-- The step with the ruling in it. -/
abbrev Ruling.settles (r : Ruling) (time : Instant) (x : Step) : Step :=
  x.settled r.outcome r.actor.identity r.notes time

/-- The ledger with the ruling in it. -/
abbrev Ruling.settle (r : Ruling) (time : Instant) (l : Ledger) : Ledger :=
  l.settle r.stepId r.outcome r.actor.identity r.notes time

/-- One of the operations, with its arguments. -/
inductive Operation where
  | initiate (id : String) (proposal : Proposal) (initiator : Option Owner)
  | plan (ids : Nat → String) (transfer : Transfer)
  | createStep (id : String) (transfer : Transfer) (type : ApprovalType) (actor : Option Actor)
  | approve (stepId : String) (actor : Actor) (notes : Option String)
  | reject (stepId : String) (actor : Actor) (notes : Option String)
  | complete (transferId : String)
  | status (transferId : String)
  | state (transferId : String)
  | stateAt (transferId : String) (time : Instant)
  | history (license : String)
  | pending (actor : Actor)

/-- What an operation answers. -/
inductive Answer where
  | transfer (t : Transfer)
  | plan (p : Plan)
  | step (x : Step)
  | decision (d : Decision)
  | status (s : Status)
  | statuses (l : List Status)
  | steps (l : List Step)
  | state (s : State)
deriving DecidableEq, Repr

/-- The transfers that an answer shows. -/
def Answer.transfers : Answer → List Transfer
  | .transfer t => [t]
  | .status s => [s.transfer]
  | .statuses l => l.map fun s => s.transfer
  | _ => []

def Answer.isDecision : Answer → Bool
  | .decision _ => true
  | _ => false

theorem Answer.isDecision_iff {y : Answer} : y.isDecision = true ↔ ∃ d, y = .decision d := by
  cases y <;> simp [isDecision]

namespace Operation

/-- The transfer that the caller hands over. -/
def transfer? : Operation → Option Transfer
  | .plan _ t => some t
  | .createStep _ t _ _ => some t
  | _ => none

/-- What is decided, if it is a decision. -/
def ruling? : Operation → Option Ruling
  | .approve stepId actor notes => some ⟨stepId, actor, .approved, notes⟩
  | .reject stepId actor notes => some ⟨stepId, actor, .rejected, notes⟩
  | _ => none

/-- What the operation does. -/
def procedure (svc : Service) : Operation → Procedure Answer
  | .initiate id p initiator => do return .transfer (← Service.initiate id p initiator)
  | .plan ids t => do return .plan (← svc.plan ids t)
  | .createStep id t type actor => do return .step (← svc.createStep id t type actor)
  | .approve stepId actor notes => do return .decision (← svc.approve stepId actor notes)
  | .reject stepId actor notes => do return .decision (← svc.reject stepId actor notes)
  | .complete id => do return .transfer (← Service.complete id)
  | .status id => do return .status (← Service.status id)
  | .state id => do return .state (← Service.state id)
  | .stateAt id time => do return .state (← Service.stateAt id time)
  | .history license => do return .statuses (← Service.history license)
  | .pending actor => do return .steps (← svc.pending actor)

/-- The writes that the operation may ask for. -/
def Writes : Operation → Statement → Prop
  | .initiate _ _ _, q => ∃ t, q = .insertTransfer t
  | .plan _ _, q => ∃ xs, q = .insertSteps xs
  | .createStep _ _ _ _, q => ∃ xs, q = .insertSteps xs
  | .approve stepId actor notes, q => ∃ time, q = .resolve stepId .approved actor.identity notes time
  | .reject stepId actor notes, q => ∃ time, q = .resolve stepId .rejected actor.identity notes time
  | .complete id, q => ∃ time, q = .complete id time
  | _, _ => False

/-- What the operation may ask of the ledger: reads, and the writes that are its own, when
    they are admissible. -/
structure May (op : Operation) (timeouts : Timeouts) (q : Statement) (l : Ledger) : Prop where
  admissible : q.Admissible timeouts l
  writes : q.writes = true → op.Writes q

theorem May.reads {op : Operation} {timeouts : Timeouts} {q : Statement} {l : Ledger}
    (h : q.writes = false) : op.May timeouts q l := by
  refine ⟨?_, fun hw => absurd (h.symm.trans hw) (by decide)⟩
  cases q with
  | insertTransfer t => cases h
  | insertSteps xs =>
    cases xs with
    | nil => exact fun x hx => absurd hx List.not_mem_nil
    | cons x rest => cases h
  | resolve id outcome resolver notes time => cases h
  | complete id time => cases h
  | _ => trivial

theorem terminal_of_ruling {op : Operation} {r : Ruling} (h : op.ruling? = some r) :
    r.outcome.isTerminal = true := by
  cases op with
  | approve stepId actor notes => cases h; rfl
  | reject stepId actor notes => cases h; rfl
  | _ => cases h

theorem writes_of_ruling {op : Operation} {r : Ruling} (h : op.ruling? = some r)
    {q : Statement} : op.Writes q ↔ ∃ time, q = r.update time := by
  cases op with
  | approve stepId actor notes => cases h; exact .rfl
  | reject stepId actor notes => cases h; exact .rfl
  | _ => cases h

end Operation

/-! ### A sample -/

namespace Sample

/-- A service as it is set up unless configured otherwise. -/
def service : Service := ⟨⟨Policy.standardPermission⟩, .standard⟩

def seller : Owner := ⟨.user, "seller"⟩

def buyer : Owner := ⟨.team, "buyer"⟩

/-- An administrator. -/
def admin : Actor :=
  (Actor.ofOwner ⟨.custom "service", "admin"⟩).withPermission Policy.standardPermission

/-- Noon of a day in January 2024. -/
def noon (day : Nat) (h : DateExists 2024 1 day) : Instant :=
  ⟨⟨2024, 1, day, h⟩, 12, 0, 0, 0, by decide, by decide, by decide, by decide⟩

def firstDay : Instant := noon 1 (by decide)

def secondDay : Instant := noon 2 (by decide)

/-- A day on which every sign-off asked for on the first day is late. -/
def lastDay : Instant := noon 9 (by decide)

/-- A sale that everyone has to sign off. -/
def sale : Proposal := ⟨"license", seller, buyer, true, true, true, none⟩

/-- A gift that only its receiver has to sign off. -/
def gift : Proposal := ⟨"license", seller, buyer, false, true, false, some "gift"⟩

/-- The gift as it is recorded on the first day. -/
def recordedGift : Transfer := .ofProposal "gift" gift none firstDay

/-- The sale as it is recorded on the first day. -/
def recordedSale : Transfer := .ofProposal "sale" sale none firstDay

/-- The identifiers of a transfer's steps, in planning order. -/
def stepIds (k : Nat) : String := ["first", "second", "third"].getD k ""

end Sample

end SignOff
