/-
  SignOff/NameSet.lean
  ====================
  **Sets of names.**  A set is kept as its members in increasing order, so two sets with the
  same members are the same value (`NameSet.ext_iff_mem`) and building one in another order
  or with repetitions changes nothing.
-/

namespace SignOff

/-- A finite set of names: its members in increasing order. -/
structure NameSet where
  members : List String
  increasing : members.Pairwise (· < ·)
deriving DecidableEq, Repr

namespace NameSet

/-- A name put in its place in an increasing list, unless it is there. -/
def place (s : String) : List String → List String
  | [] => [s]
  | x :: rest => if s < x then s :: x :: rest else if s = x then x :: rest else x :: place s rest

theorem mem_place {x s : String} {l : List String} : x ∈ place s l ↔ x = s ∨ x ∈ l := by
  induction l with
  | nil => simp [place]
  | cons y rest ih =>
    simp only [place]
    split
    · simp
    · split
      · next h => subst h; simp
      · simp only [List.mem_cons, ih]
        exact or_left_comm

theorem increasing_place {s : String} {l : List String} (h : l.Pairwise (· < ·)) :
    (place s l).Pairwise (· < ·) := by
  induction l with
  | nil => simp [place]
  | cons y rest ih =>
    obtain ⟨hy, hrest⟩ := List.pairwise_cons.mp h
    simp only [place]
    split
    · next hs =>
      refine List.pairwise_cons.mpr ⟨fun z hz => ?_, h⟩
      rcases List.mem_cons.mp hz with rfl | hz
      · exact hs
      · exact String.lt_trans hs (hy z hz)
    · next hs =>
      split
      · exact h
      · next hne =>
        refine List.pairwise_cons.mpr ⟨fun z hz => ?_, ih hrest⟩
        rcases mem_place.mp hz with rfl | hz
        · exact String.not_le.mp fun hle =>
            hne (String.le_antisymm hle (String.not_lt.mp hs))
        · exact hy z hz

def empty : NameSet := ⟨[], .nil⟩

def insert (s : String) (set : NameSet) : NameSet :=
  ⟨place s set.members, increasing_place set.increasing⟩

def contains (set : NameSet) (s : String) : Bool := s ∈ set.members

theorem contains_empty (s : String) : empty.contains s = false := rfl

theorem contains_insert {set : NameSet} {s x : String} :
    (set.insert s).contains x = (x == s || set.contains x) := by
  rw [Bool.eq_iff_iff]
  simp [contains, insert, mem_place]

/-- Sets with the same members are equal. -/
theorem ext_iff_mem {a b : NameSet} : a = b ↔ ∀ s, a.contains s = b.contains s := by
  constructor
  · rintro rfl s; rfl
  · obtain ⟨xs, hx⟩ := a
    obtain ⟨ys, hy⟩ := b
    intro h
    have hmem : ∀ s, s ∈ xs ↔ s ∈ ys := fun s => by simpa [contains] using h s
    congr
    induction xs generalizing ys with
    | nil =>
      cases ys with
      | nil => rfl
      | cons y ys => exact absurd ((hmem y).mpr List.mem_cons_self) List.not_mem_nil
    | cons x xs ih =>
      cases ys with
      | nil => exact absurd ((hmem x).mp List.mem_cons_self) List.not_mem_nil
      | cons y ys =>
        obtain ⟨hxlt, hxs⟩ := List.pairwise_cons.mp hx
        obtain ⟨hylt, hys⟩ := List.pairwise_cons.mp hy
        have hxy : x = y := by
          rcases List.mem_cons.mp ((hmem x).mp List.mem_cons_self) with e | hin
          · exact e
          · rcases List.mem_cons.mp ((hmem y).mpr List.mem_cons_self) with e | hin'
            · exact e.symm
            · exact absurd (hxlt y hin') (String.lt_asymm (hylt x hin))
        subst hxy
        congr 1
        refine ih hxs ys hys (fun s => ?_) (fun s => ?_)
        · have := hmem s
          simp only [List.mem_cons] at this
          simp only [contains, decide_eq_decide]
          constructor
          · intro hs
            rcases this.mp (Or.inr hs) with rfl | hs'
            · exact absurd (hxlt s hs) (String.lt_irrefl s)
            · exact hs'
          · intro hs
            rcases this.mpr (Or.inr hs) with rfl | hs'
            · exact absurd (hylt s hs) (String.lt_irrefl s)
            · exact hs'
        · have := hmem s
          simp only [List.mem_cons] at this
          constructor
          · intro hs
            rcases this.mp (Or.inr hs) with rfl | hs'
            · exact absurd (hxlt s hs) (String.lt_irrefl s)
            · exact hs'
          · intro hs
            rcases this.mpr (Or.inr hs) with rfl | hs'
            · exact absurd (hylt s hs) (String.lt_irrefl s)
            · exact hs'

end NameSet

end SignOff
