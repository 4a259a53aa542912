/-
  SignOff/Approval.lean
  =====================
  **Sign-offs.**  Which party a sign-off is asked of (`ApprovalType`), what has become of it
  (`Outcome`), and how many hours each party has (`Timeouts`).
-/

namespace SignOff

/-- The party that must sign off on a transfer. -/
inductive ApprovalType where
  /-- the owner that the license leaves -/
  | source
  /-- the owner that receives it -/
  | target
  /-- anyone who holds the administrators' permission -/
  | admin
deriving DecidableEq, Repr

namespace ApprovalType

/-- All types, in the order in which they are planned and scanned. -/
def all : List ApprovalType := [.source, .target, .admin]

/-- The name under which the type is stored and shown. -/
def name : ApprovalType → String
  | .source => "source"
  | .target => "target"
  | .admin => "admin"

def ofName? (s : String) : Option ApprovalType := all.find? fun t => t.name = s

/-- The place of the type in the planning order. -/
def place : ApprovalType → Nat
  | .source => 0
  | .target => 1
  | .admin => 2

end ApprovalType

/-- What has become of a sign-off. -/
inductive Outcome where
  | pending
  | approved
  | rejected
deriving DecidableEq, Repr

namespace Outcome

def all : List Outcome := [.pending, .approved, .rejected]

/-- The name under which the outcome is stored and shown. -/
def name : Outcome → String
  | .pending => "pending"
  | .approved => "approved"
  | .rejected => "rejected"

def ofName? (s : String) : Option Outcome := all.find? fun o => o.name = s

/-- A decided sign-off can no longer change. -/
def isTerminal : Outcome → Bool
  | .pending => false
  | .approved => true
  | .rejected => true

/-- A pending sign-off may be decided; nothing else may happen to one. -/
def mayBecome : Outcome → Outcome → Bool
  | .pending, .approved => true
  | .pending, .rejected => true
  | _, _ => false

end Outcome

/-- How many hours each party has to sign off. -/
structure Timeouts where
  source : UInt32
  target : UInt32
  admin : UInt32
deriving DecidableEq, Repr

namespace Timeouts

/-- Three days for either owner and five for the administrators. -/
def standard : Timeouts := ⟨72, 72, 120⟩

def hours (t : Timeouts) : ApprovalType → UInt32
  | .source => t.source
  | .target => t.target
  | .admin => t.admin

end Timeouts

end SignOff
