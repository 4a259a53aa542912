/-
  SignOff/Json/Basic.lean
  =======================
  **JSON values.**  The form in which records are printed, requests are given and the audit
  trail is kept.  Objects keep the order of their fields and any repetition of a name, so
  that a reader can refuse one.  Numbers that are written as integers are integers of any
  size; any other number keeps its text.

  A string may spell half of a surrogate pair, which is well-formed JSON and yet no text.
  Such a string, and an object that has one as a field's name, is `garbled`: it can stand
  where nothing is read, and nothing can be read from it.
-/
import SignOff.Text.Decimal

namespace SignOff

inductive Json where
  | null
  | bool (b : Bool)
  | int (n : Int)
  | real (text : String)
  | str (s : String)
  | arr (items : List Json)
  | obj (fields : List (String × Json))
  | garbled
deriving Repr

namespace Json

/-- An optional value: nothing is `null`. -/
def ofOption {α : Type} (f : α → Json) : Option α → Json
  | none => .null
  | some a => f a

def ofText? : Option String → Json := ofOption .str

def ofNat (n : Nat) : Json := .int n

/-- The value of a field, the last one if the name is repeated. -/
def field? (j : Json) (name : String) : Option Json :=
  match j with
  | .obj fields => (fields.reverse.find? fun f => f.1 = name).map fun f => f.2
  | _ => none

/-- Keep the last of the fields of one name. -/
def lastOfName : List (String × Json) → List (String × Json)
  | [] => []
  | (k, v) :: rest =>
    if rest.any fun f => f.1 = k then lastOfName rest else (k, v) :: lastOfName rest

mutual

/-- The value as a program sees it that keeps one field per name, the last one. -/
def lastWins : Json → Json
  | .arr items => .arr (lastWinsItems items)
  | .obj fields => .obj (lastOfName (lastWinsFields fields))
  | j => j

def lastWinsItems : List Json → List Json
  | [] => []
  | j :: rest => j.lastWins :: lastWinsItems rest

def lastWinsFields : List (String × Json) → List (String × Json)
  | [] => []
  | (k, j) :: rest => (k, j.lastWins) :: lastWinsFields rest

end

mutual

/-- Some part of the value, or the value itself, has the property. -/
def any (p : Json → Bool) : Json → Bool
  | .arr items => p (.arr items) || anyItem p items
  | .obj fields => p (.obj fields) || anyField p fields
  | j => p j

def anyItem (p : Json → Bool) : List Json → Bool
  | [] => false
  | j :: rest => j.any p || anyItem p rest

def anyField (p : Json → Bool) : List (String × Json) → Bool
  | [] => false
  | (_, j) :: rest => j.any p || anyField p rest

end

mutual

/-- How many arrays and objects the innermost part of the value is in. -/
def depth : Json → Nat
  | .arr items => depthOfItems items + 1
  | .obj fields => depthOfFields fields + 1
  | _ => 0

def depthOfItems : List Json → Nat
  | [] => 0
  | j :: rest => max j.depth (depthOfItems rest)

def depthOfFields : List (String × Json) → Nat
  | [] => 0
  | (_, j) :: rest => max j.depth (depthOfFields rest)

end

/-- The value is no text. -/
def isGarbled : Json → Bool
  | .garbled => true
  | _ => false

/-- The value is a number that is infinite in double precision. -/
def isHuge : Json → Bool
  | .int n => (Decimal.mk (n < 0) n.natAbs 0).isHuge
  | .real text => ((Decimal.ofChars? text.toList).map Decimal.isHuge).getD false
  | _ => false

/-- The deepest nesting of a value that is kept as a whole. -/
def deepest : Nat := 127

/-- The value can be kept as a whole: its strings are texts, its numbers are finite, and it
    is not nested too deeply. -/
def isKept (j : Json) : Bool := !j.any isGarbled && !j.any isHuge && j.depth ≤ deepest

end Json

end SignOff
