/-
  SignOff/Owner.lean
  ==================
  **Owners.**  A license belongs to an owner and a sign-off is given by one: a kind of
  party together with an identifier inside that kind.  Three kinds are built in; any other
  name stands for a kind of its own, so every name names a kind.
-/

namespace SignOff

inductive OwnerKind where
  | user
  | team
  | organization
  | custom (name : String)
deriving DecidableEq, Repr

namespace OwnerKind

/-- The name under which the kind is stored and shown. -/
def name : OwnerKind → String
  | .user => "user"
  | .team => "team"
  | .organization => "organization"
  | .custom n => n

/-- The kind with this name; names that are not built in are custom kinds. -/
def ofName (s : String) : OwnerKind :=
  if s = "user" then .user
  else if s = "team" then .team
  else if s = "organization" then .organization
  else .custom s

/-- The place of the kind in the order of kinds; all custom kinds share the last one. -/
def place : OwnerKind → Nat
  | .user => 0
  | .team => 1
  | .organization => 2
  | .custom _ => 3

/-- The built-in kinds come before the custom ones, which are ordered by name. -/
def compare : OwnerKind → OwnerKind → Ordering
  | .custom a, .custom b => Ord.compare a b
  | a, b => Ord.compare a.place b.place

/-- Naming a kind and finding it again gives a kind with the same name. -/
theorem name_ofName (s : String) : (ofName s).name = s := by
  unfold ofName
  split
  · next h => exact h.symm
  · split
    · next h => exact h.symm
    · split
      · next h => exact h.symm
      · rfl

end OwnerKind

/-- A party that owns licenses and gives sign-offs. -/
structure Owner where
  kind : OwnerKind
  id : String
deriving DecidableEq, Repr

namespace Owner

/-- The owner as messages show it: `kind:id`. -/
def text (o : Owner) : String := o.kind.name ++ ":" ++ o.id

def ofNames (kind id : String) : Owner := ⟨OwnerKind.ofName kind, id⟩

/-- An owner whose kind and identifier are both known. -/
def ofHalves : Option String → Option String → Option Owner
  | some kind, some id => some (ofNames kind id)
  | _, _ => none

end Owner

end SignOff
