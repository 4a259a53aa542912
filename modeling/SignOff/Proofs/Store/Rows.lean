/-
  SignOff/Proofs/Store/Rows.lean
  ==============================
  **What is read from rows.**  Tables are read row by row: a list of records is read if every
  row of it can be, and then there is a row for every record and a record for every row
  (`exists_of_mem_mapM`, `mem_of_mapM`).  What the statements find is therefore stored, under
  the identifier that was asked for.
-/
import SignOff.Store.Basic
import SignOff.Proofs.Store.RoundTrip

namespace SignOff

/-! ### Lists of rows -/

section Lists

variable {α β : Type}

theorem placeByText_map (text : β → String) (g : α → β) (a : α) (l : List α) :
    placeByText text (g a) (l.map g) = (placeByText (fun x => text (g x)) a l).map g := by
  induction l with
  | nil => rfl
  | cons b rest ih =>
    simp only [List.map_cons, placeByText]
    split
    · rfl
    · rw [ih, List.map_cons]

theorem byText_map (text : β → String) (g : α → β) (l : List α) :
    byText text (l.map g) = (byText (fun x => text (g x)) l).map g := by
  induction l with
  | nil => rfl
  | cons a rest ih => rw [List.map_cons, byText, ih, placeByText_map, byText]

theorem mem_byText {text : α → String} {l : List α} {a : α} : a ∈ byText text l ↔ a ∈ l :=
  (byText_perm text l).mem_iff

theorem placeByText_sorted {text : α → String} {l : List α}
    (h : l.Pairwise fun a b => text a ≤ text b) (a : α) :
    (placeByText text a l).Pairwise fun a b => text a ≤ text b := by
  induction l with
  | nil => exact List.pairwise_singleton _ a
  | cons b rest ih =>
    obtain ⟨hb, hrest⟩ := List.pairwise_cons.mp h
    rw [placeByText]
    split
    · next hle =>
      refine List.pairwise_cons.mpr ⟨?_, h⟩
      intro c hc
      rcases List.mem_cons.mp hc with rfl | hc
      · exact hle
      · exact String.le_trans hle (hb c hc)
    · next hgt =>
      refine List.pairwise_cons.mpr ⟨?_, ih hrest⟩
      intro c hc
      rcases List.mem_cons.mp ((placeByText_perm text a rest).mem_iff.mp hc) with rfl | hc
      · exact (String.le_total _ _).resolve_left hgt
      · exact hb c hc

/-- Listing by text puts the texts in order. -/
theorem byText_sorted (text : α → String) (l : List α) :
    (byText text l).Pairwise fun a b => text a ≤ text b := by
  induction l with
  | nil => exact .nil
  | cons a rest ih => exact placeByText_sorted ih a

/-- Reading row by row what was written record by record. -/
theorem mapM_map_ok {ε : Type} {f : β → Except ε α} {g : α → β} {l : List α}
    (h : ∀ a ∈ l, f (g a) = .ok a) : (l.map g).mapM f = .ok l := by
  induction l with
  | nil => rfl
  | cons a rest ih =>
    have hrest : (rest.map g).mapM f = .ok rest :=
      ih fun b hb => h b (List.mem_cons_of_mem a hb)
    rw [List.map_cons, List.mapM_cons, h a List.mem_cons_self, hrest]
    rfl

/-- Every record that was read row by row was read from some row. -/
theorem exists_of_mem_mapM {ε : Type} {f : β → Except ε α} {l : List β} {as : List α}
    (h : l.mapM f = .ok as) {a : α} (ha : a ∈ as) : ∃ b ∈ l, f b = .ok a := by
  induction l generalizing as with
  | nil =>
    cases h
    cases ha
  | cons b rest ih =>
    rw [List.mapM_cons] at h
    obtain ⟨a', hb, h⟩ := exists_of_bind_eq_ok h
    obtain ⟨as', hrest, h⟩ := exists_of_bind_eq_ok h
    cases h
    rcases List.mem_cons.mp ha with rfl | ha
    · exact ⟨b, List.mem_cons_self, hb⟩
    · obtain ⟨c, hc, hca⟩ := ih hrest ha
      exact ⟨c, List.mem_cons_of_mem b hc, hca⟩

theorem mem_of_mapM {ε : Type} {f : β → Except ε α} {l : List β} {as : List α}
    (h : l.mapM f = .ok as) {b : β} (hb : b ∈ l) {a : α} (ha : f b = .ok a) : a ∈ as := by
  induction l generalizing as with
  | nil => cases hb
  | cons c rest ih =>
    rw [List.mapM_cons] at h
    obtain ⟨a', hc, h⟩ := exists_of_bind_eq_ok h
    obtain ⟨as', hrest, h⟩ := exists_of_bind_eq_ok h
    cases h
    rcases List.mem_cons.mp hb with rfl | hb
    · rw [ha] at hc
      cases hc
      exact List.mem_cons_self
    · exact List.mem_cons_of_mem a' (ih hrest hb)

theorem exists_of_mapM_error {ε : Type} {f : β → Except ε α} {l : List β} {why : ε}
    (h : l.mapM f = .error why) : ∃ b ∈ l, f b = .error why := by
  induction l with
  | nil => cases h
  | cons b rest ih =>
    rw [List.mapM_cons] at h
    cases hb : f b with
    | error why' =>
      rw [hb] at h
      cases h
      exact ⟨b, List.mem_cons_self, hb⟩
    | ok a =>
      rw [hb] at h
      cases hrest : rest.mapM f with
      | ok as =>
        rw [hrest] at h
        cases h
      | error why' =>
        rw [hrest] at h ih
        cases h
        obtain ⟨c, hc, hwhy⟩ := ih rfl
        exact ⟨c, List.mem_cons_of_mem b hc, hwhy⟩

/-- Rows that are changed as their records are read as the changed records. -/
theorem mapM_map_of_map {ε : Type} {f : β → Except ε α} {g : α → α} {g' : β → β} {l : List β}
    (h : ∀ b ∈ l, f (g' b) = (f b).map g) : (l.map g').mapM f = (l.mapM f).map (List.map g) := by
  induction l with
  | nil => rfl
  | cons b rest ih =>
    have hrest : (rest.map g').mapM f = (rest.mapM f).map (List.map g) :=
      ih fun c hc => h c (List.mem_cons_of_mem b hc)
    rw [List.map_cons, List.mapM_cons, List.mapM_cons, h b List.mem_cons_self, hrest]
    cases f b with
    | error why => rfl
    | ok a => cases rest.mapM f <;> rfl

theorem ok_of_mem_toOption {ε : Type} {x : Except ε α} {a : α} (h : a ∈ x.toOption) :
    x = .ok a := by
  cases x with
  | error why => cases h
  | ok b => cases h; rfl

end Lists

/-! ### What the statements find -/

namespace Store

variable {s : Store} {x : Step} {t : Transfer}

theorem asRecord_eq_ok_iff {α : Type} {y : Except RowFault α} {a : α} :
    asRecord y = .ok a ↔ y = .ok a := by
  cases y <;> simp [asRecord]

theorem exists_of_findStep {id : String} (h : s.findStep id = .ok (some x)) :
    ∃ row ∈ s.steps, row.id = id ∧ row.step = .ok x := by
  rw [findStep] at h
  split at h
  · cases h
  · next row hrow =>
    obtain ⟨y, hy, hxy⟩ := exists_of_map_eq_ok h
    cases hxy
    have hid : row.id = id := by simpa using List.find?_some hrow
    exact ⟨row, List.mem_of_find?_eq_some hrow, hid, asRecord_eq_ok_iff.mp hy⟩

theorem id_of_findStep {id : String} (h : s.findStep id = .ok (some x)) : x.id = id := by
  obtain ⟨row, -, hid, hrow⟩ := exists_of_findStep h
  rw [(StepRow.step_eq_ok_iff.mp hrow).id, hid]

theorem id_of_findTransfer {id : String} (h : s.findTransfer id = .ok (some t)) : t.id = id := by
  rw [findTransfer] at h
  split at h
  · cases h
  · next row hrow =>
    have hid : row.id = id := by simpa using List.find?_some hrow
    obtain ⟨u, hu, htu⟩ := exists_of_map_eq_ok h
    cases htu
    rw [asRecord_eq_ok_iff, TransferRow.transfer] at hu
    obtain ⟨created, -, hu⟩ := exists_of_bind_eq_ok hu
    obtain ⟨completed, -, hu⟩ := exists_of_bind_eq_ok hu
    cases hu
    exact hid

theorem exists_of_mem_stepsOf {id : String} {steps : List Step} (h : s.stepsOf id = .ok steps)
    (hx : x ∈ steps) : ∃ row ∈ s.steps, row.step = .ok x ∧ x.transferId = id := by
  obtain ⟨row, hrow, hread⟩ := exists_of_mem_mapM h hx
  rw [mem_byText, List.mem_filter, decide_eq_true_eq] at hrow
  have hstep := asRecord_eq_ok_iff.mp hread
  refine ⟨row, hrow.1, hstep, ?_⟩
  rw [(StepRow.step_eq_ok_iff.mp hstep).transferId, hrow.2]

end Store

end SignOff
