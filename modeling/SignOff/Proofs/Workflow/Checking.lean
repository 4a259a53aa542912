/-
  SignOff/Proofs/Workflow/Checking.lean
  =====================================
  **A decision made alone, on the tables.**  All that a decision made alone reads before it
  writes is one store, so its checks are a function of that store and of one reading of the
  clock (`Ruling.check`).  A check that fails is the answer, and nothing is written; when all
  pass, the ruling is in the step's row afterwards and is answered (`Operation.checked`).

  A ruling that has passed touches one row only, and no expiry comes to count by it.  So it
  makes no difference to the checks of a ruling on another step (`Ruling.check_settle`).
  All that is asked of the store is that its rows have different identifiers.
-/
import SignOff.Proofs.Workflow.Session

namespace SignOff

open Audit

/-- A record that must be there. -/
def Store.found {α : Type} (missing : Error) : Except Error (Option α) → Except Halt α
  | .ok (some a) => .ok a
  | .ok none => .error (.failed missing)
  | .error why => .error (.failed why)

/-! ### Carrying out parts -/

namespace Procedure

variable {α β σ : Type} {trail : Trail σ} {readings : Nat → Instant} {s : Store} {w : σ}

theorem runAlong_query (q : Statement) (f : q.Reply → Procedure α) :
    (query q >>= f).runAlong trail readings s w =
      match q.run s with
      | .ok (r, s) => (f r).runAlong trail readings s w
      | .error why => ⟨.error (.failed why), s, w⟩ := by
  have hask : query q >>= f = .ask q f := rfl
  cases hq : q.run s with
  | error why => rw [hask, runAlong, hq]
  | ok r => rw [hask, runAlong, hq]

theorem runAlong_ofOption (missing : Error) (x : Option β) (f : β → Procedure α) :
    (ofOption missing x >>= f).runAlong trail readings s w =
      match x with
      | some b => (f b).runAlong trail readings s w
      | none => ⟨.error (.failed missing), s, w⟩ := by
  cases x <;> rfl

theorem runAlong_findStep (id : String) (missing : Error) (f : Step → Procedure α) :
    Procedure.runAlong trail (do f (← ofOption missing (← query (.findStep id)))) readings s w =
      match Store.found missing (s.findStep id) with
      | .ok x => (f x).runAlong trail readings s w
      | .error why => ⟨.error why, s, w⟩ := by
  rw [runAlong_query, Statement.run]
  rcases s.findStep id with why | (_ | x) <;> rfl

theorem runAlong_require (id : String) (f : Transfer → Procedure α) :
    (Service.require id >>= f).runAlong trail readings s w =
      match Store.found (.noSuchTransfer id) (s.findTransfer id) with
      | .ok t => (f t).runAlong trail readings s w
      | .error why => ⟨.error why, s, w⟩ := by
  rw [Service.require, bind_assoc, runAlong_query, Statement.run]
  rcases s.findTransfer id with why | (_ | t) <;> rfl

theorem runAlong_stepsOf (id : String) (f : List Step → Procedure α) :
    (query (.stepsOf id) >>= f).runAlong trail readings s w =
      match (s.stepsOf id).mapError .failed with
      | .ok steps => (f steps).runAlong trail readings s w
      | .error why => ⟨.error why, s, w⟩ := by
  rw [runAlong_query, Statement.run]
  cases s.stepsOf id <;> rfl

theorem runAlong_now (f : Instant → Procedure α) :
    (now >>= f).runAlong trail readings s w =
      (f (readings 0)).runAlong trail (fun k => readings (k + 1)) s w :=
  rfl

/-- Every value takes one reading, in order. -/
theorem runAlong_makeEach (makes : List (Instant → β)) (f : List β → Procedure α) :
    (makeEach makes >>= f).runAlong trail readings s w =
      (f (makes.zipIdx.map fun e => e.1 (readings e.2))).runAlong trail
        (fun k => readings (makes.length + k)) s w := by
  induction makes generalizing readings f with
  | nil => simp [makeEach]
  | cons make rest ih =>
    have hreadings : (fun k => readings (rest.length + k + 1)) =
        fun k => readings (rest.length + 1 + k) := by
      funext k
      rw [Nat.add_right_comm]
    rw [makeEach, bind_assoc, runAlong_now, bind_assoc, ih]
    simp only [pure_bind, List.length_cons, hreadings, List.zipIdx_cons, List.zipIdx_succ,
      List.map_cons, List.map_map]
    rfl

theorem runAlong_derive (t : Transfer) (steps : List Step) (time : Instant)
    (f : State → Procedure α) :
    (Service.derive t steps time >>= f).runAlong trail readings s w =
      match (t.state steps time).mapError .overflow with
      | .ok state => (f state).runAlong trail readings s w
      | .error why => ⟨.error why, s, w⟩ := by
  rw [Service.derive]
  cases t.state steps time <;> rfl

theorem runAlong_report (entry : Instant → Entry) (f : Unit → Procedure α) :
    (Service.report entry >>= f).runAlong trail readings s w =
      (f ()).runAlong trail (fun k => readings (k + 1)) s (trail.write (entry (readings 0)) w).2 :=
  rfl

theorem runAlong_consulting (asked : Bool) (p : Procedure α) :
    Procedure.runAlong trail (do
      if asked then asking
      p) readings s w = p.runAlong trail readings s w := by
  cases asked <;> rfl

theorem runAlong_consulting_bind (asked : Bool) (p : Procedure α) (f : α → Procedure β) :
    Procedure.runAlong trail ((do
      if asked then asking
      p) >>= f) readings s w = (p >>= f).runAlong trail readings s w := by
  cases asked <;> rfl

/-- An answer that is only put into other words. -/
theorem runAlong_map (p : Procedure α) (g : α → β) :
    (do return g (← p) : Procedure β).runAlong trail readings s w =
      ⟨(p.runAlong trail readings s w).answer.map g, (p.runAlong trail readings s w).store,
        (p.runAlong trail readings s w).trail⟩ := by
  induction p generalizing readings s w with
  | done a => rfl
  | halt why => rfl
  | ask q next ih =>
    have hask : (do return g (← ask q next) : Procedure β) =
        .ask q fun r => do return g (← next r) := rfl
    rw [hask, runAlong, runAlong]
    cases q.run s with
    | error why => rfl
    | ok r => exact ih r.1
  | clock next ih => exact ih (readings 0)
  | record e next ih => exact ih _
  | consult next ih => exact ih

end Procedure

/-- A transfer with its steps and state, as of an instant. -/
def Store.status (s : Store) (id : String) (time : Instant) : Except Halt Status := do
  let t ← Store.found (.noSuchTransfer id) (s.findTransfer id)
  let steps ← (s.stepsOf t.id).mapError .failed
  let state ← (t.state steps time).mapError .overflow
  return ⟨t, steps, state⟩

/-- A status that cannot be told ends the call; else nothing has been written. -/
theorem Procedure.runAlong_statusAt {α σ : Type} (trail : Trail σ) (readings : Nat → Instant)
    (s : Store) (w : σ) (id : String) (time : Instant) (f : Status → Procedure α) :
    (Service.statusAt id time >>= f).runAlong trail readings s w =
      match s.status id time with
      | .ok x => (f x).runAlong trail readings s w
      | .error why => ⟨.error why, s, w⟩ := by
  rw [Service.statusAt, bind_assoc, runAlong_require, Store.status]
  rcases Store.found (.noSuchTransfer id) (s.findTransfer id) with why | t
  · rfl
  dsimp only
  rw [Service.statusOf, bind_assoc, runAlong_stepsOf, ok_bind]
  rcases (s.stepsOf t.id).mapError Halt.failed with why | steps
  · rfl
  dsimp only
  rw [bind_assoc, runAlong_derive, ok_bind]
  cases (t.state steps time).mapError Halt.overflow <;> rfl

/-- The state of a transfer follows from the rows that are stored for it. -/
theorem Store.stateOf_eq (s : Store) (id : String) (time : Instant) :
    s.stateOf id time = (s.status id time).map Status.state := by
  rw [stateOf, ← Procedure.runAlong_const, Service.stateAt, Procedure.runAlong_statusAt]
  cases s.status id time <;> rfl

theorem Store.stateOf_of_found {s : Store} {t : Transfer} (ht : s.findTransfer t.id = .ok (some t))
    (time : Instant) :
    s.stateOf t.id time = (do
      let steps ← (s.stepsOf t.id).mapError .failed
      (t.state steps time).mapError .overflow) := by
  rw [stateOf_eq, status, ht, found, ok_bind]
  rcases (s.stepsOf t.id).mapError Halt.failed with why | steps
  · rfl
  · rw [ok_bind, ok_bind]
    cases (t.state steps time).mapError Halt.overflow <;> rfl

/-! ### The checks -/

/-- All checks of a decision, in their order: the step and its transfer, or how the decision
    ends without writing anything. -/
def Ruling.check (svc : Service) (r : Ruling) (time : Instant) (s : Store) :
    Except Halt (Step × Transfer) := do
  let x ← Store.found (.noSuchStep r.stepId) (s.findStep r.stepId)
  let t ← Store.found (.noSuchTransfer x.transferId) (s.findTransfer x.transferId)
  let steps ← (s.stepsOf t.id).mapError .failed
  let state ← (t.state steps time).mapError .overflow
  if state = .expired then .error (.failed (.transferExpired t.id))
  else if !x.outcome.mayBecome r.outcome then .error (.failed (.stepDecided x.id x.outcome))
  else if svc.policy.allows x t r.actor then .ok (x, t)
  else .error (.failed (.notEntitled r.actor.identity x.type x.id))

/-- The ruling has passed its checks on the step `x` of the transfer `t`. -/
structure Ruling.Clears (svc : Service) (r : Ruling) (time : Instant) (s : Store) (x : Step)
    (t : Transfer) : Prop where
  step : s.findStep r.stepId = .ok (some x)
  transfer : s.findTransfer x.transferId = .ok (some t)
  inTime : ∃ steps state, s.stepsOf t.id = .ok steps ∧ t.state steps time = .ok state ∧
    state ≠ .expired
  pending : x.outcome = .pending
  terminal : r.outcome.isTerminal = true
  allowed : svc.policy.allows x t r.actor = true

/-- The row with the ruling in it. -/
abbrev StepRow.ruled (r : Ruling) (time : Instant) (row : StepRow) : StepRow :=
  Store.decided r.outcome r.actor.identity r.notes time row

/-- The row with the ruling in it, if it is the open row of its step. -/
def StepRow.after (r : Ruling) (time : Instant) (row : StepRow) : StepRow :=
  if Store.isOpenStep r.stepId row then row.ruled r time else row

/-- The store with the ruling in it. -/
def Store.settle (s : Store) (r : Ruling) (time : Instant) : Store :=
  { s with steps := s.steps.map (StepRow.after r time) }

/-- The store with this row in the place of the one with its identifier. -/
def Store.replaceStep (s : Store) (row : StepRow) : Store :=
  { s with steps := s.steps.map fun other => if other.id = row.id then row else other }

/-- The step with the ruling in it, if it is the one and open. -/
def Ruling.after (r : Ruling) (time : Instant) (x : Step) : Step :=
  if Ledger.isOpenStep r.stepId x then r.settles time x else x

variable {svc : Service} {σ : Type} {trail : Trail σ} {readings : Nat → Instant} {s : Store}
  {w : σ} {r r' : Ruling} {x : Step} {t : Transfer} {time : Instant} {op : Operation}

theorem Store.found_eq_ok_iff {α : Type} {missing : Error} {y : Except Error (Option α)} {a : α} :
    Store.found missing y = .ok a ↔ y = .ok (some a) := by
  rcases y with why | (_ | b) <;> simp [Store.found]

theorem Ruling.check_eq_ok_iff : r.check svc time s = .ok (x, t) ↔ r.Clears svc time s x t := by
  constructor
  · intro h
    rw [check] at h
    obtain ⟨x', hx, h⟩ := exists_of_bind_eq_ok h
    obtain ⟨t', ht, h⟩ := exists_of_bind_eq_ok h
    obtain ⟨steps, hsteps, h⟩ := exists_of_bind_eq_ok h
    obtain ⟨state, hstate, h⟩ := exists_of_bind_eq_ok h
    split at h
    · cases h
    · next hne =>
      split at h
      · cases h
      · next hmay =>
        split at h
        · next hallowed =>
          cases h
          rw [Store.found_eq_ok_iff] at hx ht
          rw [mapError_eq_ok_iff] at hsteps hstate
          have hmay : x.outcome.mayBecome r.outcome = true := by simpa using hmay
          obtain ⟨hpending, hterm⟩ := Outcome.mayBecome_iff.mp hmay
          exact ⟨hx, ht, ⟨steps, state, hsteps, hstate, hne⟩, hpending, hterm, hallowed⟩
        · cases h
  · rintro ⟨hx, ht, ⟨steps, state, hsteps, hstate, hne⟩, hpending, hterm, hallowed⟩
    have hmay : x.outcome.mayBecome r.outcome = true := Outcome.mayBecome_iff.mpr ⟨hpending, hterm⟩
    simp [check, Store.found, Except.mapError, bind, Except.bind, hx, ht, hsteps, hstate, hne,
      hmay, hallowed]

/-- On a step that is there the checks begin with the state of its transfer. -/
theorem Ruling.check_of_found (hx : s.findStep r.stepId = .ok (some x))
    (ht : s.findTransfer t.id = .ok (some t)) (hid : t.id = x.transferId) :
    r.check svc time s = (do
      let state ← s.stateOf t.id time
      if state = .expired then .error (.failed (.transferExpired t.id))
      else if !x.outcome.mayBecome r.outcome then .error (.failed (.stepDecided x.id x.outcome))
      else if svc.policy.allows x t r.actor then .ok (x, t)
      else .error (.failed (.notEntitled r.actor.identity x.type x.id))) := by
  rw [check, hx, Store.stateOf_of_found ht, Store.found, ok_bind, ← hid, ht, Store.found, ok_bind]
  cases (s.stepsOf t.id).mapError Halt.failed <;> rfl

/-- **A decision ends with the first check that fails, or goes on to write.** -/
theorem Ruling.decide_runAlong (svc : Service) (r : Ruling) (trail : Trail σ)
    (readings : Nat → Instant) (s : Store) (w : σ) :
    ∃ w', (svc.decide r.stepId r.actor r.outcome r.notes).runAlong trail readings s w =
      match r.check svc (readings 0) s with
      | .ok (x, t) => (Service.settle x t r.actor r.outcome r.notes (readings 0)).runAlong trail
          (fun k => readings (k + 1)) s w
      | .error why => ⟨.error why, s, w'⟩ := by
  rw [Service.decide, Procedure.runAlong_findStep, check]
  rcases Store.found (.noSuchStep r.stepId) (s.findStep r.stepId) with why | x
  · exact ⟨w, rfl⟩
  dsimp only
  rw [Procedure.runAlong_require, ok_bind]
  rcases Store.found (.noSuchTransfer x.transferId) (s.findTransfer x.transferId) with why | t
  · exact ⟨w, rfl⟩
  dsimp only
  rw [Procedure.runAlong_now, Procedure.runAlong_stepsOf, ok_bind]
  rcases (s.stepsOf t.id).mapError Halt.failed with why | steps
  · exact ⟨w, rfl⟩
  dsimp only
  rw [Procedure.runAlong_derive, ok_bind]
  rcases (t.state steps (readings 0)).mapError Halt.overflow with why | state
  · exact ⟨w, rfl⟩
  -- all has been read; a refusal is noted in the trail
  dsimp only
  rw [ok_bind]
  by_cases hexpired : state = .expired
  · rw [if_pos hexpired, if_pos hexpired]
    exact ⟨_, rfl⟩
  rw [if_neg hexpired, if_neg hexpired]
  cases x.outcome.mayBecome r.outcome with
  | false => exact ⟨_, rfl⟩
  | true =>
    simp only [Bool.not_true, Bool.false_eq_true, if_false]
    rw [Procedure.runAlong_consulting]
    cases svc.policy.allows x t r.actor with
    | true => exact ⟨w, rfl⟩
    | false => exact ⟨_, rfl⟩

/-! ### The ruling in the tables -/

theorem StepRow.after_id (r : Ruling) (time : Instant) (row : StepRow) :
    (row.after r time).id = row.id := by
  rw [after]
  split <;> rfl

theorem StepRow.after_transferId (r : Ruling) (time : Instant) (row : StepRow) :
    (row.after r time).transferId = row.transferId := by
  rw [after]
  split <;> rfl

theorem StepRow.after_createdAt (r : Ruling) (time : Instant) (row : StepRow) :
    (row.after r time).createdAt = row.createdAt := by
  rw [after]
  split <;> rfl

theorem StepRow.after_of_ne {row : StepRow} (h : row.id ≠ r.stepId) : row.after r time = row := by
  apply if_neg
  simp only [Store.isOpenStep, Bool.and_eq_true, decide_eq_true_eq]
  exact fun hopen => h hopen.1

theorem StepRow.isOpenStep_eq {row : StepRow} (h : row.step = .ok x) (id : String) :
    Store.isOpenStep id row = Ledger.isOpenStep id x := by
  have hholds := StepRow.step_eq_ok_iff.mp h
  rw [Bool.eq_iff_iff, Ledger.isOpenStep_iff]
  simp only [Store.isOpenStep, Bool.and_eq_true, decide_eq_true_eq, hholds.id,
    ← Outcome.name_of_ofName? hholds.outcome, Outcome.name_inj]

theorem Ruling.after_of_ne (h : x.id ≠ r.stepId) : r.after time x = x := by
  apply if_neg
  rw [Ledger.isOpenStep_iff]
  exact fun hopen => h hopen.1

theorem Ruling.after_of_pending (hid : x.id = r.stepId) (hx : x.outcome = .pending) :
    r.after time x = r.settles time x :=
  if_pos (Ledger.isOpenStep_iff.mpr ⟨hid, hx⟩)

namespace Store

theorem findTransfer_settle (s : Store) (r : Ruling) (time : Instant) (id : String) :
    (s.settle r time).findTransfer id = s.findTransfer id :=
  rfl

theorem Keyed.settle (h : s.Keyed) (r : Ruling) (time : Instant) : (s.settle r time).Keyed := by
  refine ⟨h.transfers, ?_⟩
  simp only [Store.settle, List.map_map, Function.comp_def, StepRow.after_id]
  exact h.steps

/-- To settle an open step is to put the ruling in its row. -/
theorem Keyed.settle_eq_replaceStep (h : s.Keyed) {row : StepRow} (hrow : row ∈ s.steps)
    (hid : row.id = r.stepId) (hstep : row.step = .ok x) (hpending : x.outcome = .pending)
    (time : Instant) : s.settle r time = s.replaceStep (row.ruled r time) := by
  have hopen : isOpenStep r.stepId row = true := by
    rw [StepRow.isOpenStep_eq hstep, Ledger.isOpenStep_iff, (StepRow.step_eq_ok_iff.mp hstep).id]
    exact ⟨hid, hpending⟩
  have hnamed : ∀ other, isOpenStep r.stepId other = true → other.id = row.id := by
    intro other hother
    simp only [isOpenStep, Bool.and_eq_true, decide_eq_true_eq] at hother
    exact hother.1.trans hid.symm
  have hone : ∀ other ∈ s.steps, other.id = row.id → other = row :=
    fun other hother => h.step_ext hother hrow
  have hreplace := map_eq_replace (g := StepRow.ruled r time) hone hopen hnamed
  exact congrArg (Store.mk s.transfers) hreplace

/-- **Every row is read as before, but for the ruling.** -/
theorem Keyed.record_after (h : s.Keyed) (hx : s.findStep r.stepId = .ok (some x))
    (htime : time.Keepable) {row : StepRow} (hrow : row ∈ s.steps) :
    asRecord (row.after r time).step = (asRecord row.step).map (r.after time) := by
  obtain ⟨row', hrow', hid', hstep'⟩ := exists_of_findStep hx
  by_cases hid : row.id = r.stepId
  · -- the row of the step that is ruled on
    obtain rfl : row = row' := h.step_ext hrow hrow' (hid.trans hid'.symm)
    rw [hstep', StepRow.after, StepRow.isOpenStep_eq hstep', asRecord, Except.map, Ruling.after]
    split
    · rw [Ledger.step_decided hstep' _ _ _ htime]
      rfl
    · rw [hstep']
      rfl
  · -- any other row
    rw [StepRow.after_of_ne hid]
    cases hstep : row.step with
    | error why =>
      simp [asRecord, Except.map]
    | ok y =>
      have hy : y.id ≠ r.stepId := by rwa [(StepRow.step_eq_ok_iff.mp hstep).id]
      simp [asRecord, Except.map, Ruling.after_of_ne hy]

theorem Keyed.findStep_settle (h : s.Keyed) (hx : s.findStep r.stepId = .ok (some x))
    (htime : time.Keepable) (id : String) :
    (s.settle r time).findStep id = (s.findStep id).map (Option.map (r.after time)) := by
  have hfind : (s.settle r time).steps.find? (fun row => decide (row.id = id)) =
      (s.steps.find? fun row => decide (row.id = id)).map (StepRow.after r time) := by
    simp only [Store.settle, List.find?_map, Function.comp_def, StepRow.after_id]
  rw [findStep, findStep, hfind]
  cases hrow : s.steps.find? fun row => decide (row.id = id) with
  | none => rfl
  | some row =>
    simp only [Option.map_some, h.record_after hx htime (List.mem_of_find?_eq_some hrow)]
    cases asRecord row.step <;> rfl

theorem Keyed.stepsOf_settle (h : s.Keyed) (hx : s.findStep r.stepId = .ok (some x))
    (htime : time.Keepable) (id : String) :
    (s.settle r time).stepsOf id = (s.stepsOf id).map (List.map (r.after time)) := by
  simp only [stepsOf, Store.settle, List.filter_map, byText_map, Function.comp_def,
    StepRow.after_transferId, StepRow.after_createdAt]
  apply mapM_map_of_map
  intro row hrow
  exact h.record_after hx htime (List.mem_of_mem_filter (mem_byText.mp hrow))

end Store

/-! ### Rulings that pass -/

namespace Ruling.Clears

/-- After the ruling the transfer has a state, and is not expired as of the same instant. -/
theorem state_after (h : r.Clears svc time s x t) (hkeyed : s.Keyed) (htime : time.Keepable)
    (later : Instant) :
    ∃ steps state, (s.settle r time).stepsOf t.id = .ok steps ∧ t.state steps later = .ok state ∧
      (later ≤ time → state ≠ .expired) := by
  obtain ⟨steps, state, hsteps, hstate, hne⟩ := h.inTime
  have hlater : ∀ y : Step, y.Later (r.after time y) :=
    Ledger.later_settled r.stepId h.terminal r.actor.identity r.notes time
  obtain ⟨state', hstate', hne'⟩ := Transfer.state_decided hlater hstate hne later
  refine ⟨steps.map (r.after time), state', ?_, hstate', hne'⟩
  rw [hkeyed.stepsOf_settle h.step htime, hsteps]
  rfl

/-- The ruling finds its step open, and is shown where the step is read again. -/
theorem settle_runAlong (h : r.Clears svc time s x t) (hkeyed : s.Keyed) (htime : time.Keepable)
    (trail : Trail σ) (readings : Nat → Instant) (w : σ) :
    ∃ steps state, (s.settle r time).stepsOf t.id = .ok steps ∧
      t.state steps (readings 0) = .ok state ∧
      ∃ w', (Service.settle x t r.actor r.outcome r.notes time).runAlong trail readings s w =
        ⟨.ok ⟨r.settles time x, state⟩, s.settle r time, w'⟩ := by
  obtain ⟨steps, state, hsteps, hstate, -⟩ := h.state_after hkeyed htime (readings 0)
  obtain ⟨row, hrow, hid, hstep⟩ := Store.exists_of_findStep h.step
  have hxid : x.id = r.stepId := Store.id_of_findStep h.step
  have hopen : s.steps.any (Store.isOpenStep r.stepId) = true := by
    refine List.any_eq_true.mpr ⟨row, hrow, ?_⟩
    rw [StepRow.isOpenStep_eq hstep, Ledger.isOpenStep_iff]
    exact ⟨hxid, h.pending⟩
  have hresolve : s.resolve r.stepId r.outcome r.actor.identity r.notes time =
      .ok (true, s.settle r time) := by
    rw [Store.resolve, if_pos h.terminal, hopen]
    rfl
  have hshown : (s.settle r time).findStep r.stepId = .ok (some (r.settles time x)) := by
    rw [hkeyed.findStep_settle h.step htime, h.step, Except.map, Option.map_some,
      after_of_pending hxid h.pending]
  have hfind : (steps.find? fun y => decide (y.id = r.stepId)) = some (r.settles time x) := by
    rw [Store.id_of_findTransfer h.transfer] at hsteps
    exact (hkeyed.settle r time).find?_stepsOf hshown hsteps
  refine ⟨steps, state, hsteps, hstate, ?_⟩
  rw [Service.settle, hxid, Procedure.runAlong_query, Statement.run, hresolve]
  simp only [if_true]
  rw [Procedure.runAlong_stepsOf, hsteps]
  simp only [Except.mapError]
  rw [Procedure.runAlong_now, Procedure.runAlong_derive, hstate]
  simp only [Except.mapError]
  rw [Procedure.runAlong_ofOption, hfind]
  exact ⟨_, rfl⟩

end Ruling.Clears

/-- **A decision made alone.**  It ends with the first check that fails, and writes nothing; or
    the ruling is written, and the step is shown with the state that its transfer then has. -/
theorem Operation.checked (svc : Service) (hop : op.ruling? = some r) (hkeyed : s.Keyed)
    (readings : Nat → Instant) (hkeep : (readings 0).Keepable) (trail : Trail σ) (w : σ) :
    match r.check svc (readings 0) s with
    | .error why => ((op.procedure svc).runAlong trail readings s w).answer = .error why ∧
        ((op.procedure svc).runAlong trail readings s w).store = s
    | .ok (x, t) => ∃ steps state, (s.settle r (readings 0)).stepsOf t.id = .ok steps ∧
        t.state steps (readings 1) = .ok state ∧
        ((op.procedure svc).runAlong trail readings s w).answer =
          .ok (.decision ⟨r.settles (readings 0) x, state⟩) ∧
        ((op.procedure svc).runAlong trail readings s w).store = s.settle r (readings 0) := by
  have hrun : (op.procedure svc).runAlong trail readings s w =
      Procedure.runAlong trail
        (do return .decision (← svc.decide r.stepId r.actor r.outcome r.notes)) readings s w := by
    cases op with
    | approve stepId actor notes =>
      cases hop
      rfl
    | reject stepId actor notes =>
      cases hop
      rfl
    | _ => cases hop
  rw [hrun, Procedure.runAlong_map]
  obtain ⟨w', hdecide⟩ := r.decide_runAlong svc trail readings s w
  rw [hdecide]
  cases hcheck : r.check svc (readings 0) s with
  | error why => exact ⟨rfl, rfl⟩
  | ok found =>
    obtain ⟨x, t⟩ := found
    obtain ⟨steps, state, hsteps, hstate, w', hsettle⟩ :=
      (Ruling.check_eq_ok_iff.mp hcheck).settle_runAlong hkeyed hkeep trail
        (fun k => readings (k + 1)) w
    refine ⟨steps, state, hsteps, hstate, ?_⟩
    dsimp only
    rw [hsettle]
    exact ⟨rfl, rfl⟩

/-- **A ruling that has passed makes no difference to the checks of one on another step.** -/
theorem Ruling.check_settle (hkeyed : s.Keyed) (htime : time.Keepable)
    (h : r.Clears svc time s x t) (hne : r'.stepId ≠ r.stepId) :
    r'.check svc time (s.settle r time) = r'.check svc time s := by
  rw [check, check, hkeyed.findStep_settle h.step htime]
  rcases hfound : s.findStep r'.stepId with why | (_ | y)
  · rfl
  · rfl
  have hy : r.after time y = y := by
    apply after_of_ne
    rw [Store.id_of_findStep hfound]
    exact hne
  simp only [Except.map, Option.map_some, hy, Store.found, ok_bind, Store.findTransfer_settle]
  rcases hu : s.findTransfer y.transferId with why | (_ | u)
  · rfl
  · rfl
  simp only [ok_bind, hkeyed.stepsOf_settle h.step htime]
  by_cases hid : u.id = t.id
  · -- the same transfer, which is not expired before and not after
    have hsame : u = t := by
      rw [Store.id_of_findTransfer hu, Store.id_of_findTransfer h.transfer] at hid
      have ht := h.transfer
      rw [← hid, hu] at ht
      cases ht
      rfl
    obtain ⟨steps, state, hsteps, hstate, hexpired⟩ := h.inTime
    obtain ⟨steps', state', hsteps', hstate', hexpired'⟩ :=
      h.state_after hkeyed htime time
    rw [hkeyed.stepsOf_settle h.step htime] at hsteps'
    have hexpired' := hexpired' (Int.le_refl _)
    rw [hsame, hsteps', hsteps]
    simp only [Except.mapError, ok_bind, hstate, hstate', hexpired, hexpired', if_false]
  · -- another transfer: its steps are as they were
    rcases hsteps : s.stepsOf u.id with why | steps
    · rfl
    have hkept : ∀ z ∈ steps, r.after time z = z := by
      intro z hz
      apply after_of_ne
      intro hzid
      obtain ⟨-, -, -, htransfer⟩ := Store.exists_of_mem_stepsOf hsteps hz
      rw [hkeyed.eq_of_mem_stepsOf h.step hsteps hz hzid] at htransfer
      rw [← htransfer, Store.id_of_findTransfer h.transfer] at hid
      exact hid rfl
    simp only [Except.map, List.map_congr_left hkept, List.map_id']

end SignOff
