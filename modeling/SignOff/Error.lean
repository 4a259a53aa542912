/-
  SignOff/Error.lean
  ==================
  **What can go wrong.**  Every failure is a cause (`Error`) with what is needed to word it.
  A cause has one of nine kinds, which give the heading of its text and the exit code of a
  command that ends with it.
-/
import SignOff.Owner
import SignOff.Approval
import SignOff.State
import SignOff.Time.Strict

namespace SignOff

/-! ### Kinds of failure -/

/-- What a failure is about. -/
inductive ErrorKind where
  | config
  | db
  | notFound
  | unauthorized
  | alreadyDecided
  | expired
  | duplicateStep
  | invalidState
  | io
deriving DecidableEq, Repr

namespace ErrorKind

/-- The words in front of every message of the kind. -/
def heading : ErrorKind → String
  | .config => "config"
  | .db => "db"
  | .notFound => "not found"
  | .unauthorized => "unauthorized"
  | .alreadyDecided => "already decided"
  | .expired => "expired"
  | .duplicateStep => "duplicate step"
  | .invalidState => "invalid state"
  | .io => "io"

def text (k : ErrorKind) (message : String) : String := k.heading ++ ": " ++ message

/-- A decision was refused; everything stands as it did and nothing is broken. -/
def isRefusal : ErrorKind → Bool
  | .unauthorized | .alreadyDecided | .expired => true
  | _ => false

end ErrorKind

def exitOk : Nat := 0

def exitFailure : Nat := 1

/-- Exit code of a command line that is not understood. -/
def exitUsage : Nat := 2

/-- Exit code of a decision that was refused. -/
def exitRefused : Nat := 3

/-- Exit code of a command that was given up. -/
def exitAborted : Nat := 101

def ErrorKind.exitCode (k : ErrorKind) : Nat := if k.isRefusal then exitRefused else exitFailure

/-! ### Causes -/

/-- Why a file or folder cannot be used. -/
inductive FileFault where
  | missing
  | isFolder
  | notUtf8
  | fileExists
  | notFolder
  /-- a name on the way, or the whole path, is too long -/
  | nameTooLong
  /-- the path has a NUL in it, so that it names nothing -/
  | noName
deriving DecidableEq, Repr

def FileFault.message : FileFault → String
  | .missing => "No such file or directory (os error 2)"
  | .isFolder => "Is a directory (os error 21)"
  | .notUtf8 => "stream did not contain valid UTF-8"
  | .fileExists => "File exists (os error 17)"
  | .notFolder => "Not a directory (os error 20)"
  | .nameTooLong => "File name too long (os error 36)"
  | .noName => "file name contained an unexpected NUL byte"

/-- What the path leads to is there, but cannot be read as text. -/
def FileFault.isOfContent : FileFault → Bool
  | .isFolder | .notUtf8 => true
  | _ => false

/-- Why a configuration is not accepted. -/
inductive ConfigFault where
  | unreadable (why : FileFault)
  | malformed
  | zeroHours (type : ApprovalType)
  | blankPermission
deriving DecidableEq, Repr

def ConfigFault.message : ConfigFault → String
  | .unreadable why => "failed to read config: " ++ why.message
  | .malformed => "invalid config"
  | .zeroHours type => "timeouts." ++ type.name ++ "_hours must be greater than zero"
  | .blankPermission => "admin_permission must not be empty"

/-- Why a row does not stand for a record. -/
inductive RowFault where
  | unknownType (name : String)
  | unknownOutcome (name : String)
  | hoursTooSmall
  | hoursTooLarge
  | badInstant (column : String) (flaw : Strict.Flaw)
deriving DecidableEq, Repr

def RowFault.message : RowFault → String
  | .unknownType name => "invalid approval_type: " ++ name
  | .unknownOutcome name => "invalid outcome: " ++ name
  | .hoursTooSmall => "invalid timeout_hours: number too small to fit in target type"
  | .hoursTooLarge => "invalid timeout_hours: number too large to fit in target type"
  | .badInstant column flaw => "invalid " ++ column ++ ": " ++ flaw.message

/-- A rule of the tables that a write would break. -/
inductive Breach where
  | noTransfer
  | noHours
  | transferIdTaken
  | stepIdTaken
  | stepTypeTaken
  | noValue (table column : String)
deriving DecidableEq, Repr

/-- The number under which the breach is reported. -/
def Breach.code : Breach → Nat
  | .noTransfer => 787
  | .noHours => 275
  | .transferIdTaken => 1555
  | .stepIdTaken => 1555
  | .stepTypeTaken => 2067
  | .noValue _ _ => 1299

def Breach.rule : Breach → String
  | .noTransfer => "FOREIGN KEY constraint failed"
  | .noHours => "CHECK constraint failed: timeout_hours > 0"
  | .transferIdTaken => "UNIQUE constraint failed: license_transfer.id"
  | .stepIdTaken => "UNIQUE constraint failed: transfer_approval.id"
  | .stepTypeTaken =>
    "UNIQUE constraint failed: transfer_approval.transfer_id, transfer_approval.approval_type"
  | .noValue table column => "NOT NULL constraint failed: " ++ table ++ "." ++ column

def Breach.message (b : Breach) : String :=
  "error returned from database: (code: " ++ toString b.code ++ ") " ++ b.rule

/-- Why a file is not used as a store. -/
inductive StoreFault where
  /-- it cannot be a file -/
  | unopenable
  /-- it holds something else -/
  | notAStore
  /-- what is in memory is lost from one statement to the next -/
  | notKept
  /-- it must not be changed -/
  | readOnly
deriving DecidableEq, Repr

def StoreFault.message : StoreFault → String
  | .unopenable => "error returned from database: (code: 14) unable to open database file"
  | .notAStore => "error returned from database: (code: 26) file is not a database"
  | .notKept => "error returned from database: (code: 1) no such table"
  | .readOnly => "error returned from database: (code: 8) attempt to write a readonly database"

/-- Why an operation failed. -/
inductive Error where
  | config (why : ConfigFault)
  | row (why : RowFault)
  | breach (rule : Breach)
  /-- a step can only be resolved to a terminal outcome -/
  | notTerminal (outcome : Outcome)
  | noStoreFolder (why : FileFault)
  | noStore (why : StoreFault)
  | noSuchTransfer (id : String)
  | noSuchStep (id : String)
  | notEntitled (actor : Owner) (type : ApprovalType) (stepId : String)
  | stepDecided (stepId : String) (outcome : Outcome)
  /-- someone else decided the step between the check and the write -/
  | decidedMeanwhile (stepId : String)
  | completedAlready (transferId : String)
  | transferExpired (transferId : String)
  | stepExists (transferId : String) (type : ApprovalType)
  | notNeeded (transferId : String) (type : ApprovalType)
  | notApproved (transferId : String) (state : State)
  | noAuditFolder (path : String) (why : FileFault)
  | auditUnopened (path : String) (why : FileFault)
  | auditUnread (path : String) (why : FileFault)
  /-- a line of a day file is no entry -/
  | badEntry (path : String) (line : Nat)
deriving DecidableEq, Repr

namespace Error

def kind : Error → ErrorKind
  | .config _ => .config
  | .row _ | .breach _ | .notTerminal _ | .noStoreFolder _ | .noStore _ => .db
  | .noSuchTransfer _ | .noSuchStep _ => .notFound
  | .notEntitled _ _ _ => .unauthorized
  | .stepDecided _ _ | .decidedMeanwhile _ | .completedAlready _ => .alreadyDecided
  | .transferExpired _ => .expired
  | .stepExists _ _ => .duplicateStep
  | .notNeeded _ _ | .notApproved _ _ => .invalidState
  | .noAuditFolder _ _ | .auditUnopened _ _ | .auditUnread _ _ | .badEntry _ _ => .io

def message : Error → String
  | .config why => why.message
  | .row why => why.message
  | .breach rule => rule.message
  | .notTerminal outcome => "cannot resolve approval step to " ++ outcome.name
  | .noStoreFolder why => "failed to create db dir: " ++ why.message
  | .noStore why => why.message
  | .noSuchTransfer id => "transfer " ++ id ++ " not found"
  | .noSuchStep id => "approval step " ++ id ++ " not found"
  | .notEntitled actor type stepId =>
    actor.text ++ " may not decide " ++ type.name ++ " approval " ++ stepId
  | .stepDecided stepId outcome => "approval step " ++ stepId ++ " is already " ++ outcome.name
  | .decidedMeanwhile stepId => "approval step " ++ stepId ++ " was decided concurrently"
  | .completedAlready transferId => "transfer " ++ transferId ++ " is already completed"
  | .transferExpired transferId => "transfer " ++ transferId ++ " has expired"
  | .stepExists transferId type =>
    "transfer " ++ transferId ++ " already has a " ++ type.name ++ " approval step"
  | .notNeeded transferId type =>
    "transfer " ++ transferId ++ " does not require " ++ type.name ++ " approval"
  | .notApproved transferId state =>
    "transfer " ++ transferId ++ " is " ++ state.name ++ ", not approved"
  | .noAuditFolder path why =>
    "failed to create audit log directory " ++ path ++ ": " ++ why.message
  | .auditUnopened path why => "failed to open audit log " ++ path ++ ": " ++ why.message
  | .auditUnread path why => "failed to read audit log " ++ path ++ ": " ++ why.message
  | .badEntry path line => "malformed audit entry at " ++ path ++ ":" ++ toString line

def text (e : Error) : String := e.kind.text e.message

end Error

/-- How an operation ends without an answer: with an error, or because an expiry that it
    had to compute lies past the end of the calendar. -/
inductive Halt where
  | failed (why : Error)
  | overflow (why : Overflow)
deriving DecidableEq, Repr

def Halt.text : Halt → String
  | .failed why => why.text
  | .overflow why => why.message

def Halt.exitCode : Halt → Nat
  | .failed why => why.kind.exitCode
  | .overflow _ => exitAborted

end SignOff
