/-
  SignOff/Config.lean
  ===================
  **Configuration.**  Where the store and the audit trail are, which permission
  administrators need, and how many hours each party has.  A configuration is a TOML
  document; what it does not set has its standard value, and what it sets beyond that does
  not matter.  No party may have zero hours, and the permission may not be blank.
-/
import SignOff.Policy
import SignOff.Files
import SignOff.Toml.Parser
import SignOff.Text.Blank
import SignOff.Text.Lines

namespace SignOff

/-- What the program is configured with. -/
structure Config where
  store : String
  auditFolder : Option String
  adminPermission : String
  timeouts : Timeouts
deriving DecidableEq, Repr

namespace Config

/-- The configuration when nothing is set. -/
def standard : Config := ⟨"licensegate.db", none, Policy.standardPermission, .standard⟩

/-! ### From TOML -/

/-- A text, or the standard value if the field is not set. -/
def textField (fields : Toml.Fields) (name standard : String) : Option String :=
  match fields.get? name with
  | none => some standard
  | some (.text s) => some s
  | some _ => none

/-- A text, or nothing if the field is not set. -/
def textField? (fields : Toml.Fields) (name : String) : Option (Option String) :=
  match fields.get? name with
  | none => some none
  | some (.text s) => some (some s)
  | some _ => none

/-- A number of hours, or the standard one if there is no value. -/
def hours? (standard : UInt32) : Option Toml → Option UInt32
  | none => some standard
  | some (.integer n) => if 0 ≤ n ∧ n < 4294967296 then some (UInt32.ofNat n.toNat) else none
  | some _ => none

/-- The three numbers of hours from wherever they stand. -/
def timeoutsAt? (source target admin : Option Toml) : Option Timeouts := do
  return ⟨← hours? Timeouts.standard.source source, ← hours? Timeouts.standard.target target,
    ← hours? Timeouts.standard.admin admin⟩

/-- The hours of all parties, by name in a table or in order in an array.  A date or time
    sets none of them. -/
def timeouts? : Option Toml → Option Timeouts
  | none => some .standard
  | some (.table _ fields) =>
    timeoutsAt? (Toml.Fields.get? fields "source_hours") (Toml.Fields.get? fields "target_hours")
      (Toml.Fields.get? fields "admin_hours")
  | some (.array items) => timeoutsAt? items[0]? items[1]? items[2]?
  | some .moment => some .standard
  | some _ => none

def ofToml? (fields : Toml.Fields) : Option Config := do
  some
    { store := ← textField fields "db_path" standard.store
      auditFolder := ← textField? fields "audit_log_dir"
      adminPermission := ← textField fields "admin_permission" standard.adminPermission
      timeouts := ← timeouts? (fields.get? "timeouts") }

/-! ### Accepting a configuration -/

/-- What is wrong with a configuration: the first party without hours, or else a blank
    permission. -/
def fault? (c : Config) : Option ConfigFault :=
  match ApprovalType.all.find? fun type => c.timeouts.hours type = 0 with
  | some type => some (.zeroHours type)
  | none => if Text.allBlank c.adminPermission then some .blankPermission else none

def ofText (s : String) : Except ConfigFault Config :=
  match (Toml.parse? s).bind ofToml? with
  | none => .error .malformed
  | some c =>
    match c.fault? with
    | some why => .error why
    | none => .ok c

def load (files : Files) (path : String) : Except ConfigFault Config :=
  match files.read path with
  | .error why => .error (.unreadable why)
  | .ok content =>
    match Text.textOf? content with
    | none => .error (.unreadable .notUtf8)
    | some s => ofText s

/-! ### Comparing -/

/-- Nothing is set differently from the standard; the same path may be spelled in another
    way. -/
def isStandard (c : Config) : Bool :=
  samePath c.store standard.store && { c with store := standard.store } == standard

end Config

end SignOff
