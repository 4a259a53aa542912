/-
  SignOff/Store/Chronicle.lean
  ============================
  **Listing by time.**  Rows are listed by the text of a column, in the order of its
  characters; rows with the same text keep the order in which they came.
-/

namespace SignOff

variable {α : Type}

/-- Put an element in front of the first one whose text is not smaller. -/
def placeByText (text : α → String) (a : α) : List α → List α
  | [] => [a]
  | b :: rest => if text a ≤ text b then a :: b :: rest else b :: placeByText text a rest

def byText (text : α → String) : List α → List α
  | [] => []
  | a :: rest => placeByText text a (byText text rest)

theorem placeByText_perm (text : α → String) (a : α) (l : List α) :
    (placeByText text a l).Perm (a :: l) := by
  induction l with
  | nil => exact .refl _
  | cons b rest ih =>
    simp only [placeByText]
    split
    · exact .refl _
    · exact (ih.cons b).trans (.swap a b rest)

/-- Listing by time neither loses nor adds anything. -/
theorem byText_perm (text : α → String) (l : List α) : (byText text l).Perm l := by
  induction l with
  | nil => exact .refl _
  | cons a rest ih => exact (placeByText_perm text a _).trans (ih.cons a)

end SignOff
