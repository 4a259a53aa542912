/-
  SignOff/Proofs/StoreInvariant.lean
  ==================================
  **What the tables hold.**  Under every configuration that is accepted, and whatever calls
  are made in whatever order, the two tables stay what the workflow means them to be
  (`store_invariant`): no identifier comes twice; a transfer has one step of a type at most;
  every step is one that its transfer needs, asks the right owner, has the hours that are
  configured, and shows its decision as a whole or not at all.  So a decision can miss nothing
  but its step, and the list of steps that a state is worked out from is what it should be.
-/
import SignOff.Program
import SignOff.Proofs.Authorization
import SignOff.Proofs.Workflow.Verdict

namespace SignOff

/-- The row keeps the step `x` of the transfer `t`. -/
structure StepRow.Keeps (row : StepRow) (timeouts : Timeouts) (x : Step) (t : Transfer) : Prop where
  step : row.step = .ok x
  columns : row = .ofStep x
  serves : x.Serves t
  hours : x.timeoutHours = timeouts.hours x.type
  tidy : x.Tidy

structure Store.Sound (s : Store) (svc : Service) : Prop where
  transfer_ids : (s.transfers.map fun row => row.id).Nodup
  step_ids : (s.steps.map fun row => row.id).Nodup
  step_types : (s.steps.map fun row => (row.transferId, row.type)).Nodup
  steps : ∀ row ∈ s.steps, ∃ x t, row.Keeps svc.timeouts x t ∧
    ∃ stored ∈ s.transfers, stored.transfer = .ok t
  /-- a decision reports that something was not found if its step is unknown, and only then -/
  not_found : ∀ {σ : Type} (trail : Audit.Trail σ) (w : σ) (op : Operation) (r : Ruling)
    (readings : Nat → Instant), op.ruling? = some r → (∀ k, (readings k).Keepable) →
      ((∃ why, ((op.procedure svc).runAlong trail readings s w).answer = .error (.failed why) ∧
        why.kind = .notFound) ↔ ∀ row ∈ s.steps, row.id ≠ r.stepId)
  /-- the steps that a state is worked out from are the transfer's own, of needed types, and
      no two are of one type -/
  derived : ∀ stored ∈ s.transfers, ∃ t steps, stored.transfer = .ok t ∧
    s.stepsOf t.id = .ok steps ∧ (steps.map fun x => x.type).Nodup ∧
    ∀ x ∈ steps, x.transferId = t.id ∧ t.needs x.type = true

variable {svc : Service} {l : Ledger} {c : Config}

/-! ### What is accepted -/

/-- No party of an accepted configuration has zero hours. -/
theorem Config.hours_ne_zero {text : String} (h : Config.ofText text = .ok c)
    (type : ApprovalType) : c.timeouts.hours type ≠ 0 := by
  have hfault : c.fault? = none := by
    rw [Config.ofText] at h
    split at h
    · cases h
    · split at h
      · cases h
      · next hfault =>
        cases h
        exact hfault
  intro hzero
  rw [Config.fault?] at hfault
  split at hfault
  · cases hfault
  · next hfind =>
    have hnone := List.find?_eq_none.mp hfind type type.mem_all
    simp [hzero] at hnone

/-! ### Coherent ledgers -/

namespace Ledger.Coherent

theorem keeps (h : l.Coherent svc.timeouts) {row : StepRow} (hrow : row ∈ l.store.steps) :
    ∃ x t, row.Keeps svc.timeouts x t ∧ ∃ stored ∈ l.store.transfers, stored.transfer = .ok t := by
  obtain ⟨x, hx, rfl⟩ := List.mem_map.mp hrow
  obtain ⟨t, ht, hserves⟩ := h.serves x hx
  have hread := h.legible.step_ofStep hx
  exact ⟨x, t, ⟨hread, rfl, hserves, (h.hours x hx).1, h.tidy x hx⟩, h.legible.stored ht⟩

theorem types_stepsOf (h : l.Coherent svc.timeouts) (id : String) :
    ((l.stepsOf id).map fun x => x.type).Nodup := by
  -- rows of one transfer that differ in type and transfer differ in type
  have hall : (l.steps.filter fun x => x.transferId = id).Pairwise fun x y => x.type ≠ y.type := by
    have hpairs := (List.pairwise_map.mp h.step_types).filter fun x => x.transferId = id
    apply hpairs.imp_of_mem
    intro x y hx hy hne htype
    have hxid : x.transferId = id := by simpa using (List.mem_filter.mp hx).2
    have hyid : y.transferId = id := by simpa using (List.mem_filter.mp hy).2
    exact hne (Prod.ext (hxid.trans hyid.symm) htype)
  have hperm := (byText_perm (fun x => x.createdAt.columnText)
    (l.steps.filter fun x => x.transferId = id)).map fun x => x.type
  exact hperm.nodup_iff.mpr (List.pairwise_map.mpr hall)

theorem serves_stepsOf (h : l.Coherent svc.timeouts) {t : Transfer} (ht : t ∈ l.transfers)
    {x : Step} (hx : x ∈ l.stepsOf t.id) : x.transferId = t.id ∧ t.needs x.type = true := by
  obtain ⟨hmem, hid⟩ := mem_stepsOf.mp hx
  obtain ⟨u, hu, hserves⟩ := h.serves x hmem
  obtain rfl : u = t := h.transfer_ext hu ht (hserves.transferId.trans hid)
  exact ⟨hid, hserves.needed⟩

theorem not_found_iff (h : l.Coherent svc.timeouts) {σ : Type} (trail : Audit.Trail σ) (w : σ)
    {op : Operation} {r : Ruling} {readings : Nat → Instant} (hop : op.ruling? = some r)
    (hkeep : ∀ k, (readings k).Keepable) :
    (∃ why, ((op.procedure svc).runAlong trail readings l.store w).answer = .error (.failed why) ∧
      why.kind = .notFound) ↔ ∀ row ∈ l.store.steps, row.id ≠ r.stepId := by
  obtain ⟨b, ds, m, hanswer, -, hverdict, -⟩ := Operation.verdict hop h trail hkeep w
  have hrows : (∀ row ∈ l.store.steps, row.id ≠ r.stepId) ↔ l.step? r.stepId = none := by
    simp [Ledger.step?, Ledger.store, StepRow.ofStep]
  rw [hrows, ← hverdict.not_found_iff, hanswer]
  cases b <;> simp [Except.map]

/-- **The tables of a coherent ledger are sound.** -/
theorem sound (h : l.Coherent svc.timeouts) : l.store.Sound svc := by
  constructor
  · simpa [Ledger.store, TransferRow.ofTransfer, Function.comp_def] using h.transfer_ids
  · simpa [Ledger.store, StepRow.ofStep, Function.comp_def] using h.step_ids
  · have htypes := h.step_types.map (f := fun k : String × ApprovalType => (k.1, k.2.name)) ?_
    · simpa [Ledger.store, StepRow.ofStep, Function.comp_def] using htypes
    · rintro ⟨id, k⟩ ⟨id', k'⟩ hsame
      simpa [ApprovalType.name_inj] using hsame
  · intro row hrow
    exact h.keeps hrow
  · intro σ trail w op r readings hop hkeep
    exact h.not_found_iff trail w hop hkeep
  · intro stored hstored
    obtain ⟨t, ht, rfl⟩ := List.mem_map.mp hstored
    obtain ⟨hkeep, hread⟩ := h.legible.transfers t ht
    refine ⟨t, l.stepsOf t.id, ?_, stepsOf_store h.legible t.id, h.types_stepsOf t.id, ?_⟩
    · rw [TransferRow.transfer_ofTransfer hkeep.inYears, hread]
    · intro x hx
      exact h.serves_stepsOf ht hx

end Ledger.Coherent

/-! ### All runs -/

/-- **The store invariant.**  Under an accepted configuration every party has hours, and every
    store that a run leads to is sound. -/
theorem store_invariant {text : String} (accepted : Config.ofText text = .ok c) {σ : Type}
    {trail : Audit.Trail σ} {turns : List Turn} {s : Store} {w : σ}
    (run : Run (.ofConfig c) trail turns s w) :
    (∀ type, c.timeouts.hours type ≠ 0) ∧ s.Sound (.ofConfig c) := by
  obtain ⟨l, rfl, h⟩ := run.history
  constructor
  · exact Config.hours_ne_zero accepted
  · exact h.coherent.sound

/-- A configuration that gives owners two days to let go of a license. -/
def Sample.twoDays : Config := { Config.standard with timeouts := ⟨48, 72, 120⟩ }

theorem twoDays_sound :
    Config.ofText "[timeouts]\nsource_hours = 48\n" = .ok Sample.twoDays ∧
      ∃ r ∈ play (.ofConfig Sample.twoDays) .silent Sample.vetoedSale [] .empty (),
        (r.2.1.steps.map fun row => (row.timeoutHours, row.outcome)) =
          [(48, "approved"), (72, "approved"), (120, "rejected")] ∧
        (∀ type, Sample.twoDays.timeouts.hours type ≠ 0) ∧
        r.2.1.Sound (.ofConfig Sample.twoDays) := by
  have haccepted : Config.ofText "[timeouts]\nsource_hours = 48\n" = .ok Sample.twoDays := by rfl
  have hplays : ∃ r ∈ play (.ofConfig Sample.twoDays) .silent Sample.vetoedSale [] .empty (),
      (r.2.1.steps.map fun row => (row.timeoutHours, row.outcome)) =
        [(48, "approved"), (72, "approved"), (120, "rejected")] := by
    decide +kernel
  obtain ⟨r, hplay, hrows⟩ := hplays
  exact ⟨haccepted, r, hplay, hrows, store_invariant haccepted ((Run.start ()).play hplay)⟩

end SignOff
