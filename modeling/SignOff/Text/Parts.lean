/-
  SignOff/Text/Parts.lean
  =======================
  **Parts between marks.**  A list of characters is taken apart at every occurrence of a
  mark, so that the parts with the marks between them give the list back
  (`join_split`), or only at the first one (`cut`).
-/

namespace SignOff.Text

/-- The parts between the marks; there is one more of them than there are marks. -/
def split (mark : Char) : List Char → List (List Char)
  | [] => [[]]
  | c :: rest =>
    if c = mark then [] :: split mark rest
    else
      match split mark rest with
      | [] => [[c]]
      | part :: parts => (c :: part) :: parts

/-- The parts with a mark in front of each but the first. -/
def join (mark : Char) : List (List Char) → List Char
  | [] => []
  | [part] => part
  | part :: parts => part ++ mark :: join mark parts

/-- There is always a part. -/
theorem split_ne_nil (mark : Char) (cs : List Char) : split mark cs ≠ [] := by
  cases cs with
  | nil => simp [split]
  | cons c rest =>
    simp only [split]
    split
    · simp
    · split <;> simp

/-- Nothing is lost when a list is taken apart. -/
theorem join_split (mark : Char) (cs : List Char) : join mark (split mark cs) = cs := by
  induction cs with
  | nil => rfl
  | cons c rest ih =>
    by_cases h : c = mark
    · cases hs : split mark rest with
      | nil => exact absurd hs (split_ne_nil mark rest)
      | cons part parts => rw [hs] at ih; simp [split, h, hs, join, ih]
    · cases hs : split mark rest with
      | nil => exact absurd hs (split_ne_nil mark rest)
      | cons part parts =>
        rw [hs] at ih
        cases parts with
        | nil => simpa [split, h, hs, join] using ih
        | cons next parts => simpa [split, h, hs, join] using ih

/-- What stands before the first mark, and what follows it if there is one. -/
def cut (mark : Char) (cs : List Char) : List Char × Option (List Char) :=
  (cs.takeWhile fun c => c ≠ mark,
    match cs.dropWhile fun c => c ≠ mark with
    | [] => none
    | _ :: rest => some rest)

end SignOff.Text
