/-
  SignOff/Proofs/Store/Keyed.lean
  ===============================
  **One row for each identifier.**  Both tables refuse a row whose identifier they have, and
  nothing else changes identifiers; so every statement leaves the tables `Keyed`, whatever it
  writes (`Keyed.run`).  In such tables a step that is read in two ways is read as the same
  (`Keyed.eq_of_mem_stepsOf`).
-/
import SignOff.Proofs.Store.Rows
import Mathlib.Data.List.Nodup

namespace SignOff

/-- No two rows of a table have the same identifier. -/
structure Store.Keyed (s : Store) : Prop where
  transfers : (s.transfers.map fun row => row.id).Nodup
  steps : (s.steps.map fun row => row.id).Nodup

namespace Store

variable {s s' : Store} {x : Step}

theorem keyed_empty : empty.Keyed := ⟨.nil, .nil⟩

theorem Keyed.step_ext (h : s.Keyed) {row other : StepRow} (hrow : row ∈ s.steps)
    (hother : other ∈ s.steps) (hid : row.id = other.id) : row = other :=
  List.inj_on_of_nodup_map h.steps hrow hother hid

theorem Keyed.transfer_ext (h : s.Keyed) {row other : TransferRow} (hrow : row ∈ s.transfers)
    (hother : other ∈ s.transfers) (hid : row.id = other.id) : row = other :=
  List.inj_on_of_nodup_map h.transfers hrow hother hid

/-- To change the one row that is open is to put it in its place. -/
theorem map_eq_replace {α : Type} {f : α → String} {l : List α} {p : α → Bool} {g : α → α} {a : α}
    (hone : ∀ b ∈ l, f b = f a → b = a) (ha : p a = true) (hp : ∀ b, p b = true → f b = f a) :
    l.map (fun b => if p b then g b else b) = l.map fun b => if f b = f a then g a else b := by
  apply List.map_congr_left
  intro b hb
  by_cases hid : f b = f a
  · rw [hone b hb hid, if_pos ha, if_pos rfl]
  · rw [if_neg hid, if_neg fun hopen => hid (hp b hopen)]

theorem Keyed.eq_of_mem_stepsOf (h : s.Keyed) {id transferId : String}
    (hx : s.findStep id = .ok (some x)) {steps : List Step}
    (hsteps : s.stepsOf transferId = .ok steps) {y : Step} (hy : y ∈ steps) (hid : y.id = id) :
    y = x := by
  obtain ⟨row, hrow, hrowid, hstep⟩ := exists_of_findStep hx
  obtain ⟨row', hrow', hstep', -⟩ := exists_of_mem_stepsOf hsteps hy
  have hrowid' : row'.id = id := by rw [← (StepRow.step_eq_ok_iff.mp hstep').id, hid]
  rw [h.step_ext hrow' hrow (hrowid'.trans hrowid.symm), hstep] at hstep'
  exact (Except.ok.inj hstep').symm

/-- A step that is found is found among the steps of its transfer. -/
theorem Keyed.find?_stepsOf (h : s.Keyed) {id : String} (hx : s.findStep id = .ok (some x))
    {steps : List Step} (hsteps : s.stepsOf x.transferId = .ok steps) :
    (steps.find? fun y => decide (y.id = id)) = some x := by
  obtain ⟨row, hrow, -, hstep⟩ := exists_of_findStep hx
  have hmem : x ∈ steps := by
    apply mem_of_mapM hsteps (b := row)
    · rw [mem_byText, List.mem_filter, decide_eq_true_eq]
      exact ⟨hrow, (StepRow.step_eq_ok_iff.mp hstep).transferId.symm⟩
    · exact asRecord_eq_ok_iff.mpr hstep
  cases hfind : steps.find? fun y => decide (y.id = id) with
  | none => exact absurd (by simp [id_of_findStep hx]) (List.find?_eq_none.mp hfind x hmem)
  | some y =>
    have hid : y.id = id := by simpa using List.find?_some hfind
    rw [h.eq_of_mem_stepsOf hx hsteps (List.mem_of_find?_eq_some hfind) hid]

/-! ### Writing -/

theorem nodup_map_append {α : Type} {f : α → String} {l : List α} {a : α} (h : (l.map f).Nodup)
    (hfree : ∀ b ∈ l, f b ≠ f a) : ((l ++ [a]).map f).Nodup := by
  rw [List.map_append, List.map_singleton, List.nodup_append]
  refine ⟨h, List.nodup_singleton _, ?_⟩
  intro b hb c hc
  obtain ⟨b', hb', rfl⟩ := List.mem_map.mp hb
  rw [List.mem_singleton.mp hc]
  exact hfree b' hb'

theorem eq_of_insertTransfer {t : Transfer} (h : s.insertTransfer t = .ok s') :
    (∀ row ∈ s.transfers, row.id ≠ t.id) ∧
      s' = { s with transfers := s.transfers ++ [.ofTransfer t] } := by
  rw [insertTransfer] at h
  split at h
  · cases h
  · next hfree =>
    cases h
    simpa using hfree

theorem eq_of_insertStep (h : s.insertStep x = .ok s') :
    (∀ row ∈ s.steps, row.id ≠ x.id) ∧ s' = { s with steps := s.steps ++ [.ofStep x] } := by
  rw [insertStep] at h
  split at h
  · cases h
  · split at h
    · cases h
    · next hfree =>
      split at h
      · cases h
        refine ⟨?_, rfl⟩
        intro row hrow hid
        exact hfree (List.any_eq_true.mpr ⟨row, hrow, by simp [hid]⟩)
      · cases h

/-- What the insertion of every step keeps, that of all steps does. -/
theorem insertSteps_kept {P : Store → Prop} {xs : List Step}
    (hstep : ∀ {s s' x}, x ∈ xs → P s → s.insertStep x = .ok s' → P s') (h : P s)
    (hs : s.insertSteps xs = .ok s') : P s' := by
  induction xs generalizing s with
  | nil =>
    cases hs
    exact h
  | cons x rest ih =>
    rw [insertSteps] at hs
    obtain ⟨k, hk, hrest⟩ := exists_of_bind_eq_ok hs
    apply ih
    · intro s s' y hy
      exact hstep (List.mem_cons_of_mem x hy)
    · exact hstep List.mem_cons_self h hk
    · exact hrest

/-- All steps are inserted, or one of them fails. -/
theorem exists_of_insertSteps_error {xs : List Step} {why : Error}
    (h : s.insertSteps xs = .error why) : ∃ k, ∃ x ∈ xs, Store.insertStep k x = .error why := by
  induction xs generalizing s with
  | nil => cases h
  | cons x rest ih =>
    rw [insertSteps] at h
    cases hx : s.insertStep x with
    | error why' =>
      rw [hx] at h
      cases h
      exact ⟨s, x, List.mem_cons_self, hx⟩
    | ok k =>
      rw [hx] at h
      obtain ⟨k', y, hy, hwhy⟩ := ih h
      exact ⟨k', y, List.mem_cons_of_mem x hy, hwhy⟩

theorem Keyed.insertSteps {xs : List Step} (h : s.Keyed) (hs : s.insertSteps xs = .ok s') :
    s'.Keyed := by
  apply insertSteps_kept ?_ h hs
  intro s s' x _ h hk
  obtain ⟨hfree, rfl⟩ := eq_of_insertStep hk
  exact ⟨h.transfers, nodup_map_append (f := StepRow.id) h.steps hfree⟩

/-- **Every statement leaves identifiers unique.** -/
theorem Keyed.run {q : Statement} (h : s.Keyed) {r : q.Reply × Store} (hr : q.run s = .ok r) :
    r.2.Keyed := by
  cases q with
  | insertTransfer t =>
    obtain ⟨s', hs, rfl⟩ := exists_of_map_eq_ok hr
    obtain ⟨hfree, rfl⟩ := eq_of_insertTransfer hs
    exact ⟨nodup_map_append h.transfers hfree, h.steps⟩
  | insertSteps xs =>
    obtain ⟨s', hs, rfl⟩ := exists_of_map_eq_ok hr
    exact h.insertSteps hs
  | resolve id outcome resolver notes time =>
    rw [Statement.run, resolve] at hr
    split at hr
    · cases hr
      refine ⟨h.transfers, ?_⟩
      -- a decision has no part in the identifiers
      rw [List.map_map, List.map_congr_left fun row _ => ?_]
      · exact h.steps
      · dsimp only [Function.comp]
        split <;> rfl
    · cases hr
  | complete id time =>
    cases hr
    refine ⟨?_, h.steps⟩
    dsimp only [complete]
    rw [List.map_map, List.map_congr_left fun row _ => ?_]
    · exact h.transfers
    · dsimp only [Function.comp]
      split <;> rfl
  | _ =>
    rw [Statement.store_of_run hr rfl]
    exact h

end Store

end SignOff
