/-
  SignOff/Actor.lean
  ==================
  **Actors.**  Whoever tries to decide a step: an identity, and up to two facets that an
  account may have.  With the ownership facet it can be asked which licenses it owns, with
  the permission facet which permissions it holds.  A facet that is there but empty is not
  the same as none.
-/
import SignOff.NameSet
import SignOff.Owner

namespace SignOff

/-- An identity with its facets. -/
structure Actor where
  identity : Owner
  licenses : Option NameSet
  permissions : Option NameSet
deriving DecidableEq, Repr

namespace Actor

def ofOwner (o : Owner) : Actor := ⟨o, none, none⟩

/-- With the ownership facet, owning nothing more than before. -/
def initiator (a : Actor) : Actor := { a with licenses := some (a.licenses.getD .empty) }

/-- With the ownership facet, owning one more license. -/
def owning (a : Actor) (license : String) : Actor :=
  { a with licenses := some ((a.licenses.getD .empty).insert license) }

/-- With the permission facet, holding nothing more than before. -/
def permissionChecked (a : Actor) : Actor :=
  { a with permissions := some (a.permissions.getD .empty) }

/-- With the permission facet, holding one more permission. -/
def withPermission (a : Actor) (permission : String) : Actor :=
  { a with permissions := some ((a.permissions.getD .empty).insert permission) }

/-- Whether the actor owns the license, if it can be asked. -/
def owns? (a : Actor) (license : String) : Option Bool := a.licenses.map fun l => l.contains license

/-- Whether the actor holds the permission, if it can be asked. -/
def holds? (a : Actor) (permission : String) : Option Bool :=
  a.permissions.map fun p => p.contains permission

end Actor

end SignOff
