/-
  SignOff/Json/Decoder.lean
  =========================
  **Reading records from JSON.**  A record is an object with the record's fields, further
  fields being ignored and a repeated field refused, or an array of the fields' values in
  order.  A field may be required, optional (missing or `null`), or have a default for
  when it is missing; an array must be long enough for all fields that have no default.
-/
import SignOff.Json.Basic

namespace SignOff.Json

/-- What is found in the place of a field. -/
inductive Slot where
  | given (j : Json)
  /-- an object does not have the field -/
  | absent
  /-- an array ends before the field -/
  | beyond

/-- The slots of a record with the given field names. -/
def slots? (names : List String) : Json → Option (List Slot)
  | .obj fields =>
    names.mapM fun name =>
      match fields.filter fun f => f.1 = name with
      | [] => some .absent
      | [f] => some (.given f.2)
      | _ => none
  | .arr items =>
    if items.length ≤ names.length then
      some (items.map .given ++ List.replicate (names.length - items.length) .beyond)
    else none
  | _ => none

def required {α : Type} (decode : Json → Option α) : Slot → Option α
  | .given j => decode j
  | _ => none

/-- A value or `null`. -/
def nullable {α : Type} (decode : Json → Option α) : Json → Option (Option α)
  | .null => some none
  | j => (decode j).map some

/-- A field that an object may leave out, which then is nothing. -/
def optional {α : Type} (decode : Json → Option α) : Slot → Option (Option α)
  | .given j => nullable decode j
  | .absent => some none
  | .beyond => none

/-- A field that may be left out, which then has its default. -/
def defaulted {α : Type} (value : α) (decode : Json → Option α) : Slot → Option α
  | .given j => decode j
  | _ => some value

def text? : Json → Option String
  | .str s => some s
  | _ => none

def bool? : Json → Option Bool
  | .bool b => some b
  | _ => none

def int? : Json → Option Int
  | .int n => some n
  | _ => none

/-- A count of hours: an integer from 0 to 2^32 - 1. -/
def hours? : Json → Option UInt32
  | .int n => if 0 ≤ n ∧ n < 4294967296 then some (UInt32.ofNat n.toNat) else none
  | _ => none

/-- One of some named values: its name, or an object with that name for `null`. -/
def named? {α : Type} (ofName? : String → Option α) : Json → Option α
  | .str s => ofName? s
  | .obj [(s, .null)] => ofName? s
  | _ => none

def list? {α : Type} (decode : Json → Option α) : Json → Option (List α)
  | .arr items => items.mapM decode
  | _ => none

end SignOff.Json
