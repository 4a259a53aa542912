/-
  SignOff/State.lean
  ==================
  **The state of a transfer.**  It is never kept: it follows from the transfer's steps and
  the time at which one asks.  Only the needed types count, and of each type only the
  first step listed for this transfer; a needed type without a step is open.

  One rejection rejects the transfer; otherwise it is approved when every needed step is;
  otherwise it is expired when a needed step has run out of time; otherwise it is pending.
-/
import SignOff.Transfer
import SignOff.Step

namespace SignOff

inductive State where
  | pending
  | approved
  | rejected
  | expired
deriving DecidableEq, Repr

namespace State

def all : List State := [.pending, .approved, .rejected, .expired]

def name : State → String
  | .pending => "pending"
  | .approved => "approved"
  | .rejected => "rejected"
  | .expired => "expired"

def ofName? (s : String) : Option State := all.find? fun x => x.name = s

end State

/-- Some step of the list has run out of time.  The steps are looked at in order, up to the
    first one that has; only the expiries looked at can overflow. -/
def anyTimedOut (now : Instant) : List Step → Except Overflow Bool
  | [] => .ok false
  | s :: rest => do if ← s.isTimedOut now then .ok true else anyTimedOut now rest

namespace Transfer

/-- The step that counts for a type: the first one listed for this transfer. -/
def stepFor (t : Transfer) (steps : List Step) (type : ApprovalType) : Option Step :=
  steps.find? fun s => s.type = type && s.transferId = t.id

/-- The steps that count, one place for every needed type, in planning order. -/
def relevant (t : Transfer) (steps : List Step) : List (Option Step) :=
  t.needed.map (t.stepFor steps)

/-- The state of the transfer with these steps, as of `now`. -/
def state (t : Transfer) (steps : List Step) (now : Instant) : Except Overflow State :=
  let relevant := t.relevant steps
  let present := relevant.filterMap fun s => s
  if present.any fun s => s.outcome = .rejected then .ok .rejected
  else if relevant.all fun s => s.any fun s => s.outcome = .approved then .ok .approved
  else (anyTimedOut now present).map fun late => if late then .expired else .pending

end Transfer

end SignOff
