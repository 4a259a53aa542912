/-
  SignOff/Store/Basic.lean
  ========================
  **The store.**  Two tables, transfers and steps, with their rows in the order in which
  they were inserted.  The tables have rules: identifiers are unique, a step belongs to a
  stored transfer, a transfer has one step of a type, and a step has at least one hour.  A
  write that would break a rule changes nothing.

  A `Statement` is one access to the store that nothing can come in between.  A step is
  resolved, and a transfer completed, by a write that only takes effect on a row that is
  still open; its answer tells whether it did.
-/
import SignOff.Store.Row
import SignOff.Store.Chronicle

namespace SignOff

/-- The rows of both tables, in the order of their insertion. -/
structure Store where
  transfers : List TransferRow
  steps : List StepRow
deriving DecidableEq, Repr

namespace Store

def empty : Store := ⟨[], []⟩

/-! ### Reading -/

/-- A row's record, or the error that the row is. -/
def asRecord {α : Type} : Except RowFault α → Except Error α
  | .ok a => .ok a
  | .error why => .error (.row why)

def findTransfer (s : Store) (id : String) : Except Error (Option Transfer) :=
  match s.transfers.find? fun r => r.id = id with
  | none => .ok none
  | some r => (asRecord r.transfer).map some

def findStep (s : Store) (id : String) : Except Error (Option Step) :=
  match s.steps.find? fun r => r.id = id with
  | none => .ok none
  | some r => (asRecord r.step).map some

/-- The transfers of a license, by the text of their creation. -/
def transfersOf (s : Store) (license : String) : Except Error (List Transfer) :=
  (byText TransferRow.createdAt (s.transfers.filter fun r => r.license = license)).mapM
    fun r => asRecord r.transfer

/-- The steps of a transfer, by the text of their creation. -/
def stepsOf (s : Store) (transferId : String) : Except Error (List Step) :=
  (byText StepRow.createdAt (s.steps.filter fun r => r.transferId = transferId)).mapM
    fun r => asRecord r.step

/-- The steps that wait for a decision, by the text of their creation. -/
def pendingSteps (s : Store) : Except Error (List Step) :=
  (byText StepRow.createdAt (s.steps.filter fun r => r.outcome = Outcome.pending.name)).mapM
    fun r => asRecord r.step

/-! ### Writing -/

def insertTransfer (s : Store) (t : Transfer) : Except Error Store :=
  if s.transfers.any fun r => r.id = t.id then .error (.breach .transferIdTaken)
  else .ok { s with transfers := s.transfers ++ [.ofTransfer t] }

/-- The store with one more step.  A step that is there already, by its identifier or by its
    transfer and type, is reported as a duplicate. -/
def insertStep (s : Store) (x : Step) : Except Error Store :=
  if x.timeoutHours = 0 then .error (.breach .noHours)
  else if s.steps.any fun r =>
      r.id = x.id || (r.transferId = x.transferId && r.type = x.type.name) then
    .error (.stepExists x.transferId x.type)
  else if s.transfers.any fun r => r.id = x.transferId then
    .ok { s with steps := s.steps ++ [.ofStep x] }
  else .error (.breach .noTransfer)

/-- The store with more steps, all of them or none. -/
def insertSteps (s : Store) : List Step → Except Error Store
  | [] => .ok s
  | x :: rest => do (← s.insertStep x).insertSteps rest

/-- The row is the step with this identifier and waits for its decision. -/
def isOpenStep (id : String) (r : StepRow) : Bool :=
  r.id = id && r.outcome = Outcome.pending.name

def decided (outcome : Outcome) (resolver : Owner) (notes : Option String) (time : Instant)
    (r : StepRow) : StepRow :=
  { r with
    outcome := outcome.name, resolvedByType := some resolver.kind.name,
    resolvedById := some resolver.id, resolvedAt := some time.columnText, notes := notes }

/-- Resolve the step if it is pending: whether it was, and the store afterwards. -/
def resolve (s : Store) (id : String) (outcome : Outcome) (resolver : Owner) (notes : Option String)
    (time : Instant) : Except Error (Bool × Store) :=
  if outcome.isTerminal then
    .ok (s.steps.any (isOpenStep id),
      { s with steps := s.steps.map fun r =>
          if isOpenStep id r then decided outcome resolver notes time r else r })
  else .error (.notTerminal outcome)

/-- The row is the transfer with this identifier and is not completed. -/
def isOpenTransfer (id : String) (r : TransferRow) : Bool := r.id = id && r.completedAt.isNone

/-- Complete the transfer if it is not: whether it was open, and the store afterwards. -/
def complete (s : Store) (id : String) (time : Instant) : Bool × Store :=
  (s.transfers.any (isOpenTransfer id),
    { s with transfers := s.transfers.map fun r =>
        if isOpenTransfer id r then { r with completedAt := some time.columnText } else r })

end Store

/-! ### Statements -/

/-- One access to the store. -/
inductive Statement where
  | findTransfer (id : String)
  | findStep (id : String)
  | transfersOf (license : String)
  | stepsOf (transferId : String)
  | pendingSteps
  | insertTransfer (t : Transfer)
  | insertSteps (steps : List Step)
  | resolve (id : String) (outcome : Outcome) (resolver : Owner) (notes : Option String)
      (time : Instant)
  | complete (id : String) (time : Instant)
deriving DecidableEq, Repr

namespace Statement

abbrev Reply : Statement → Type
  | .findTransfer _ => Option Transfer
  | .findStep _ => Option Step
  | .transfersOf _ => List Transfer
  | .stepsOf _ => List Step
  | .pendingSteps => List Step
  | .insertTransfer _ => Unit
  | .insertSteps _ => Unit
  | .resolve _ _ _ _ _ => Bool
  | .complete _ _ => Bool

/-- The statement may change the store. -/
def writes : Statement → Bool
  | .insertTransfer _ => true
  | .insertSteps steps => !steps.isEmpty
  | .resolve _ _ _ _ _ => true
  | .complete _ _ => true
  | _ => false

/-- The answer of a statement and the store afterwards.  A statement that fails leaves the
    store as it is. -/
def run : (q : Statement) → Store → Except Error (q.Reply × Store)
  | .findTransfer id, s => (s.findTransfer id).map fun r => (r, s)
  | .findStep id, s => (s.findStep id).map fun r => (r, s)
  | .transfersOf license, s => (s.transfersOf license).map fun r => (r, s)
  | .stepsOf transferId, s => (s.stepsOf transferId).map fun r => (r, s)
  | .pendingSteps, s => s.pendingSteps.map fun r => (r, s)
  | .insertTransfer t, s => (s.insertTransfer t).map fun s => ((), s)
  | .insertSteps steps, s => (s.insertSteps steps).map fun s => ((), s)
  | .resolve id outcome resolver notes time, s => s.resolve id outcome resolver notes time
  | .complete id time, s => .ok (s.complete id time)

theorem store_of_run {q : Statement} {s : Store} {r : q.Reply × Store} (h : q.run s = .ok r)
    (hq : q.writes = false) : r.2 = s := by
  have keep {α : Type} {x : Except Error α} {y : α × Store}
      (hx : (x.map fun a => (a, s)) = .ok y) : y.2 = s := by
    cases x with
    | error why => simp [Except.map] at hx
    | ok a => simp only [Except.map, Except.ok.injEq] at hx; rw [← hx]
  cases q with
  | findTransfer id => exact keep h
  | findStep id => exact keep h
  | transfersOf license => exact keep h
  | stepsOf transferId => exact keep h
  | pendingSteps => exact keep h
  | insertSteps steps =>
    cases steps with
    | nil => exact keep (x := .ok ()) h
    | cons x rest => simp [writes] at hq
  | insertTransfer t => simp [writes] at hq
  | resolve id outcome resolver notes time => simp [writes] at hq
  | complete id time => simp [writes] at hq

end Statement

end SignOff
