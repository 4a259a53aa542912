/-
  SignOff/Proofs/Planning.lean
  ============================
  **Planning is exact.**  A plan stores one pending step for every type that the transfer
  needs, or nothing at all: if one of these types has a step, the first one that has, from
  the source's to the administrators', is reported as a duplicate and the store stays as it
  is, even if the types before it were free (`insertSteps_asRead`).  Each step of a plan is
  pending from its own reading of the clock on.  Steps that are created one by one, in any
  order, at the instant of the plan are the same but for their identifiers
  (`makeAll_createStep`).

  What is asked of the store is no more than that the transfer is recorded in it and that the
  identifiers for the new steps are `Unused`.
-/
import SignOff.Proofs.Commutation
import SignOff.Proofs.DecisionTable
import SignOff.Proofs.StoreInvariant
import Mathlib.Data.List.Find

namespace SignOff

open Audit

/-- The step that waits for a sign-off on the transfer from `now` on, given its type and its
    identifier. -/
def Transfer.waiting (t : Transfer) (timeouts : Timeouts) (now : Instant)
    (item : ApprovalType × String) : Step :=
  .fresh item.2 t.id item.1 (t.approver item.1) (timeouts.hours item.1) now

/-- The types that the transfer needs, each with the identifier for its step. -/
def Transfer.items (t : Transfer) (ids : Nat → String) : List (ApprovalType × String) :=
  t.needed.zipIdx.map fun (k, n) => (k, ids n)

/-- The steps that wait for the sign-offs on the transfer, the `n`-th one from `times n` on. -/
def Transfer.waitingSteps (t : Transfer) (timeouts : Timeouts) (ids : Nat → String)
    (times : Nat → Instant) : List Step :=
  t.needed.zipIdx.map fun (k, n) => t.waiting timeouts (times n) (k, ids n)

/-- The step but for its identifier. -/
def Step.unnamed (x : Step) : Step := { x with id := "" }

namespace Store

/-- The store with more steps. -/
def addSteps (s : Store) (xs : List Step) : Store := { s with steps := s.steps ++ xs.map .ofStep }

/-- The transfer has a step of this type. -/
def HasStep (s : Store) (transferId : String) (k : ApprovalType) : Prop :=
  ∃ row ∈ s.steps, row.transferId = transferId ∧ row.type = k.name

instance (s : Store) (transferId : String) (k : ApprovalType) :
    Decidable (s.HasStep transferId k) :=
  inferInstanceAs (Decidable (∃ row ∈ s.steps, row.transferId = transferId ∧ row.type = k.name))

/-- The identifiers are different, and no step has one of them. -/
structure Unused (s : Store) (ids : List String) : Prop where
  distinct : ids.Nodup
  free : ∀ id ∈ ids, ∀ row ∈ s.steps, row.id ≠ id

/-- The first of the needed types, in planning order, that has a step. -/
structure FirstTaken (s : Store) (t : Transfer) (k : ApprovalType) : Prop where
  needed : t.needs k = true
  taken : s.HasStep t.id k
  first : ∀ j, t.needs j = true → j.place < k.place → ¬s.HasStep t.id j

end Store

/-- All steps have been created at this instant, and but for their identifiers they are those of
    the plan if the plan was made at the same instant. -/
structure CreatedAs (svc : Service) (s : Store) (t : Transfer) (ids : Nat → String)
    (times : Nat → Instant) (now : Instant) (items : List (ApprovalType × String))
    (made : List (Operation × Except Halt Answer) × Store) : Prop where
  succeed : ∀ call ∈ made.1, ∃ y, call.2 = .ok y
  store : made.2 = s.addSteps (items.map (t.waiting svc.timeouts now))
  same : (∀ n < t.needed.length, times n = now) →
    ((items.map (t.waiting svc.timeouts now)).map Step.unnamed).Perm
      ((t.waitingSteps svc.timeouts ids times).map Step.unnamed)

/-- How planning ends on the store `s`, with these identifiers, when its readings of the clock
    are `times`. -/
structure PlanEnds (svc : Service) (s : Store) (t : Transfer) (ids : Nat → String)
    (times : Nat → Instant) {σ : Type} (e : Procedure.Ending Answer σ) : Prop where
  succeeds_iff : (∃ y, e.answer = .ok y) ↔ ∀ k, t.needs k = true → ¬s.HasStep t.id k
  adds : ∀ y, e.answer = .ok y → y = .plan (Plan.ofTransfer t svc.timeouts) ∧
    e.store = s.addSteps (t.waitingSteps svc.timeouts ids times)
  /-- what is stored is read as it was planned -/
  reads : ∀ x ∈ t.waitingSteps svc.timeouts ids times, (StepRow.ofStep x).step = .ok x.asRead
  refuses : ∀ why, e.answer = .error why → e.store = s ∧
    ∃ k, s.FirstTaken t k ∧ why = .failed (.stepExists t.id k)
  /-- creating the steps one by one instead, in any order, succeeds and comes to the same -/
  oneByOne : ∀ y, e.answer = .ok y → ∀ items : List (ApprovalType × String),
    (items.map Prod.fst).Perm t.needed → s.Unused (items.map Prod.snd) →
    ∀ now : Instant, now.Keepable → ∀ {τ : Type} (trail : Trail τ) (v : τ) (actor : Option Actor),
      CreatedAs svc s t ids times now items
        (makeAll svc trail now (items.map fun item => .createStep item.2 t item.1 actor) s v)

/-- How the creation of a single step ends on the store `s`. -/
structure CreationEnds (svc : Service) (s : Store) (t : Transfer) (k : ApprovalType) (id : String)
    (now : Instant) {σ : Type} (e : Procedure.Ending Answer σ) : Prop where
  notNeeded : FailedAs e.answer .invalidState ↔ t.needs k = false
  duplicate : t.needs k = true → (FailedAs e.answer .duplicateStep ↔ s.HasStep t.id k)
  succeeds : t.needs k = true → ¬s.HasStep t.id k →
    e.answer = .ok (.step (t.waiting svc.timeouts now (k, id)).asRead) ∧
      e.store = s.addSteps [t.waiting svc.timeouts now (k, id)]
  refuses : ∀ why, e.answer = .error why → e.store = s

variable {svc : Service} {σ : Type} {trail : Trail σ} {readings : Nat → Instant} {s : Store} {w : σ}
  {t : Transfer} {timeouts : Timeouts} {now : Instant} {k : ApprovalType} {id : String}
  {ids : Nat → String} {times : Nat → Instant} {items : List (ApprovalType × String)}

/-! ### What is planned -/

/-- A requirement names the approver by columns, and its step has him as a row gives him back. -/
theorem Requirement.step_ofTransfer (t : Transfer) (timeouts : Timeouts) (k : ApprovalType)
    (id : String) (hnow : now.Keepable) :
    (ofTransfer t timeouts k).step id t.id k now = (t.waiting timeouts now (k, id)).asRead := by
  have hshown : (t.waiting timeouts now (k, id)).createdAt.shown = now := hnow.shown_eq
  rw [step, approver, ofTransfer, Owner.ofHalves_map, Step.asRead, hshown]
  rfl

/-- The places in a list are those in what comes of it. -/
theorem zipIdx_map_zipIdx {α β : Type} (l : List α) (f : α × Nat → β) :
    (l.zipIdx.map f).zipIdx = l.zipIdx.map fun e => (f e, e.2) := by
  apply List.ext_getElem?
  intro n
  simp [List.getElem?_zipIdx, Function.comp_def]

theorem Plan.steps_ofTransfer (htimes : ∀ n < t.needed.length, (times n).Keepable)
    (timeouts : Timeouts) (ids : Nat → String) :
    (((ofTransfer t timeouts).steps t.id ids).zipIdx.map fun e => e.1 (times e.2)) =
      (t.waitingSteps timeouts ids times).map Step.asRead := by
  rw [steps, zipIdx_map_zipIdx, ofTransfer, List.zipIdx_map, List.map_map, List.map_map,
    Transfer.waitingSteps, List.map_map]
  apply List.map_congr_left
  rintro ⟨k, n⟩ hmem
  obtain ⟨-, hn, -⟩ := List.mem_zipIdx hmem
  exact Requirement.step_ofTransfer t timeouts k (ids n) (htimes n (by simpa using hn))

/-- A waiting step is that of its place in the plan, from the reading there on. -/
theorem Transfer.exists_of_mem_waitingSteps {x : Step}
    (h : x ∈ t.waitingSteps timeouts ids times) :
    ∃ k, ∃ n < t.needed.length, x = t.waiting timeouts (times n) (k, ids n) := by
  obtain ⟨⟨k, n⟩, hmem, rfl⟩ := List.mem_map.mp h
  obtain ⟨-, hn, -⟩ := List.mem_zipIdx hmem
  exact ⟨k, n, by simpa using hn, rfl⟩

theorem Transfer.inYears_of_mem_waitingSteps (htimes : ∀ n < t.needed.length, (times n).Keepable)
    {x : Step} (h : x ∈ t.waitingSteps timeouts ids times) : x.AllInstants Instant.InYears := by
  obtain ⟨k, n, hn, rfl⟩ := exists_of_mem_waitingSteps h
  constructor
  · exact (htimes n hn).1
  · intro time htime
    cases htime

/-- The steps of a plan are of the needed types, under the identifiers for them. -/
theorem Transfer.waitingSteps_items (t : Transfer) (timeouts : Timeouts) (ids : Nat → String)
    (times : Nat → Instant) :
    ((t.waitingSteps timeouts ids times).map fun x => (x.type, x.id)) = t.items ids := by
  rw [waitingSteps, items, List.map_map]
  rfl

theorem Transfer.types_items (t : Transfer) (ids : Nat → String) :
    (t.items ids).map Prod.fst = t.needed := by
  rw [items, List.map_map]
  exact List.zipIdx_map_fst 0 t.needed

theorem Transfer.needed_nodup (t : Transfer) : t.needed.Nodup :=
  t.needed_sorted.imp fun hlt heq => Nat.ne_of_lt hlt (congrArg ApprovalType.place heq)

/-! ### Inserting -/

namespace Store

theorem addSteps_addSteps (s : Store) (xs ys : List Step) :
    (s.addSteps xs).addSteps ys = s.addSteps (xs ++ ys) := by
  simp [addSteps]

theorem hasStep_addSteps {xs : List Step} {transferId : String} :
    (s.addSteps xs).HasStep transferId k ↔
      s.HasStep transferId k ∨ ∃ x ∈ xs, x.transferId = transferId ∧ x.type = k := by
  simp only [HasStep, addSteps, List.mem_append, List.mem_map, or_and_right, exists_or]
  refine or_congr .rfl ⟨?_, ?_⟩
  · rintro ⟨-, ⟨x, hx, rfl⟩, htransfer, htype⟩
    exact ⟨x, hx, htransfer, ApprovalType.name_inj.mp htype⟩
  · rintro ⟨x, hx, htransfer, rfl⟩
    exact ⟨_, ⟨x, hx, rfl⟩, htransfer, rfl⟩

theorem Unused.head {rest : List String} (h : s.Unused (id :: rest)) : s.Unused [id] := by
  refine ⟨List.nodup_singleton id, fun id' hid' => ?_⟩
  rw [List.mem_singleton.mp hid']
  exact h.free id List.mem_cons_self

theorem Unused.tail {x : Step} {rest : List String} (h : s.Unused (x.id :: rest)) :
    (s.addSteps [x]).Unused rest := by
  obtain ⟨hid, hrest⟩ := List.nodup_cons.mp h.distinct
  refine ⟨hrest, fun other hmem row hrow => ?_⟩
  rcases List.mem_append.mp hrow with hrow | hrow
  · exact h.free other (List.mem_cons_of_mem _ hmem) row hrow
  · rw [List.mem_singleton.mp hrow]
    rintro rfl
    exact hid hmem

/-- A step of a recorded transfer is inserted, or its type is taken. -/
theorem insertStep_eq {x : Step} (recorded : ∃ row ∈ s.transfers, row.id = x.transferId)
    (hours : x.timeoutHours ≠ 0) (unused : s.Unused [x.id]) :
    s.insertStep x =
      if s.HasStep x.transferId x.type then .error (.stepExists x.transferId x.type)
      else .ok (s.addSteps [x]) := by
  have hany : (s.steps.any fun r => decide (r.id = x.id) ||
      (decide (r.transferId = x.transferId) && decide (r.type = x.type.name))) =
        decide (s.HasStep x.transferId x.type) := by
    rw [Bool.eq_iff_iff, decide_eq_true_eq, List.any_eq_true, HasStep]
    refine exists_congr fun row => and_congr_right fun hrow => ?_
    simp [unused.free x.id List.mem_cons_self row hrow]
  have hrow : (s.transfers.any fun r => decide (r.id = x.transferId)) = true := by
    simpa using recorded
  rw [insertStep, if_neg hours, hany, if_pos hrow]
  by_cases htaken : s.HasStep x.transferId x.type
  · rw [if_pos htaken, decide_eq_true htaken, if_pos rfl]
  · rw [if_neg htaken, decide_eq_false htaken]
    rfl

theorem insertStep_asRead {x : Step} (recorded : ∃ row ∈ s.transfers, row.id = x.transferId)
    (hours : x.timeoutHours ≠ 0) (unused : s.Unused [x.id]) :
    s.insertStep x.asRead =
      if s.HasStep x.transferId x.type then .error (.stepExists x.transferId x.type)
      else .ok (s.addSteps [x]) := by
  have hadd : s.addSteps [x.asRead] = s.addSteps [x] := by
    simp [addSteps, StepRow.ofStep_asRead]
  rw [← hadd]
  exact insertStep_eq recorded hours unused

/-- All steps of a recorded transfer are inserted, or the first type that is taken is reported. -/
theorem insertSteps_asRead {xs : List Step} (recorded : ∃ row ∈ s.transfers, row.id = t.id)
    (hxs : ∀ x ∈ xs, x.transferId = t.id ∧ x.timeoutHours ≠ 0)
    (types : (xs.map fun x => x.type).Nodup) (unused : s.Unused (xs.map fun x => x.id)) :
    s.insertSteps (xs.map Step.asRead) =
      match (xs.map fun x => x.type).find? fun k => s.HasStep t.id k with
      | none => .ok (s.addSteps xs)
      | some k => .error (.stepExists t.id k) := by
  induction xs generalizing s with
  | nil => simp [insertSteps, addSteps]
  | cons x rest ih =>
    obtain ⟨hk, htypes⟩ := List.nodup_cons.mp types
    obtain ⟨⟨htransfer, hours⟩, hrest⟩ := List.forall_mem_cons.mp hxs
    simp only [List.map_cons] at unused ⊢
    rw [insertSteps, insertStep_asRead (by rwa [htransfer]) hours unused.head, htransfer]
    by_cases htaken : s.HasStep t.id x.type
    · rw [if_pos htaken, List.find?_cons_of_pos (by simpa using htaken)]
      rfl
    · rw [if_neg htaken, List.find?_cons_of_neg (by simpa using htaken), ok_bind,
        ih (s := s.addSteps [x]) recorded hrest htypes unused.tail, addSteps_addSteps]
      -- the types that are left are as free or taken as they were
      have hsame : ((rest.map fun y => y.type).find? fun j => (s.addSteps [x]).HasStep t.id j) =
            (rest.map fun y => y.type).find? fun j => s.HasStep t.id j := by
        refine List.find?_congr fun j hj => ?_
        have hne : x.type ≠ j := by
          rintro rfl
          exact hk hj
        rw [decide_eq_decide, hasStep_addSteps]
        simp [hne]
      rw [hsame]
      rfl

/-! ### The first type that is taken -/

theorem FirstTaken.of_find? (h : (t.needed.find? fun k => s.HasStep t.id k) = some k) :
    s.FirstTaken t k := by
  obtain ⟨htaken, before, after, heq, hbefore⟩ := List.find?_eq_some_iff_append.mp h
  have hsorted := t.needed_sorted
  refine ⟨Transfer.mem_needed.mp (List.mem_of_find?_eq_some h), by simpa using htaken, ?_⟩
  intro j hj hlt
  rw [heq] at hsorted
  have hmem : j ∈ before ++ k :: after := heq ▸ Transfer.mem_needed.mpr hj
  simpa using hbefore j (mem_front_of_lt hsorted hmem hlt)

theorem free_of_find? (h : (t.needed.find? fun k => s.HasStep t.id k) = none) (k : ApprovalType)
    (hk : t.needs k = true) : ¬s.HasStep t.id k := by
  simpa using List.find?_eq_none.mp h k (Transfer.mem_needed.mpr hk)

end Store

/-! ### Carrying it out -/

theorem Procedure.runAlong_insertSteps {α : Type} (xs : List Step) (f : Unit → Procedure α) :
    (query (.insertSteps xs) >>= f).runAlong trail readings s w =
      match s.insertSteps xs with
      | .ok s' => (f ()).runAlong trail readings s' w
      | .error why => ⟨.error (.failed why), s, w⟩ := by
  rw [runAlong_query, Statement.run]
  cases s.insertSteps xs <;> rfl

namespace Operation

/-- Planning is to insert the waiting steps. -/
theorem plan_alone (svc : Service) (trail : Trail σ) (readings : Nat → Instant) (s : Store) (w : σ)
    (ids : Nat → String) (t : Transfer) (hkeep : ∀ n < t.needed.length, (readings n).Keepable)
    {e : Procedure.Ending Answer σ}
    (he : ((Operation.plan ids t).procedure svc).runAlong trail readings s w = e) :
    match s.insertSteps ((t.waitingSteps svc.timeouts ids readings).map Step.asRead) with
    | .ok s' => e.answer = .ok (.plan (Plan.ofTransfer t svc.timeouts)) ∧ e.store = s'
    | .error why => e.answer = .error (.failed why) ∧ e.store = s := by
  subst he
  rw [procedure, Procedure.runAlong_map, Service.plan, Procedure.runAlong_makeEach,
    Procedure.runAlong_insertSteps, Plan.steps_ofTransfer hkeep]
  split <;> exact ⟨rfl, rfl⟩

/-- Creating a step is to insert it. -/
theorem createStep_alone (hnow : (readings 0).Keepable) (hneeds : t.needs k = true)
    (actor : Option Actor) {e : Procedure.Ending Answer σ}
    (he : ((Operation.createStep id t k actor).procedure svc).runAlong trail readings s w = e) :
    match s.insertSteps [(t.waiting svc.timeouts (readings 0) (k, id)).asRead] with
    | .ok s' =>
      e.answer = .ok (.step (t.waiting svc.timeouts (readings 0) (k, id)).asRead) ∧ e.store = s'
    | .error why => e.answer = .error (.failed why) ∧ e.store = s := by
  subst he
  rw [procedure, Procedure.runAlong_map, Service.createStep, if_pos hneeds, Procedure.runAlong_now,
    Procedure.runAlong_insertSteps, Requirement.step_ofTransfer t svc.timeouts k id hnow]
  split <;> exact ⟨rfl, rfl⟩

end Operation

/-! ### Single steps -/

namespace Operation

variable (svc : Service) (trail : Trail σ) (w : σ)

/-- A step whose type is free is created. -/
theorem createStep_of_free (hnow : (readings 0).Keepable)
    (recorded : ∃ row ∈ s.transfers, row.id = t.id) (hours : svc.timeouts.hours k ≠ 0)
    (unused : s.Unused [id]) (hneeds : t.needs k = true)
    (hfree : ¬s.HasStep t.id k) (actor : Option Actor) {e : Procedure.Ending Answer σ}
    (he : ((Operation.createStep id t k actor).procedure svc).runAlong trail readings s w = e) :
    e.answer = .ok (.step (t.waiting svc.timeouts (readings 0) (k, id)).asRead) ∧
      e.store = s.addSteps [t.waiting svc.timeouts (readings 0) (k, id)] := by
  have hends := createStep_alone hnow hneeds actor he
  have hinsert : s.insertStep (t.waiting svc.timeouts (readings 0) (k, id)).asRead =
      if s.HasStep t.id k then .error (.stepExists t.id k)
      else .ok (s.addSteps [t.waiting svc.timeouts (readings 0) (k, id)]) :=
    Store.insertStep_asRead recorded hours unused
  rw [if_neg hfree] at hinsert
  rw [Store.insertSteps, hinsert] at hends
  exact hends

/-- A type that is taken is reported. -/
theorem createStep_of_taken (hnow : (readings 0).Keepable)
    (recorded : ∃ row ∈ s.transfers, row.id = t.id) (hours : svc.timeouts.hours k ≠ 0)
    (unused : s.Unused [id]) (hneeds : t.needs k = true)
    (htaken : s.HasStep t.id k) (actor : Option Actor) {e : Procedure.Ending Answer σ}
    (he : ((Operation.createStep id t k actor).procedure svc).runAlong trail readings s w = e) :
    e.answer = .error (.failed (.stepExists t.id k)) ∧ e.store = s := by
  have hends := createStep_alone hnow hneeds actor he
  have hinsert : s.insertStep (t.waiting svc.timeouts (readings 0) (k, id)).asRead =
      if s.HasStep t.id k then .error (.stepExists t.id k)
      else .ok (s.addSteps [t.waiting svc.timeouts (readings 0) (k, id)]) :=
    Store.insertStep_asRead recorded hours unused
  rw [if_pos htaken] at hinsert
  rw [Store.insertSteps, hinsert] at hends
  exact hends

theorem createStep_of_not_needed (hneeds : t.needs k = false) (actor : Option Actor)
    {e : Procedure.Ending Answer σ}
    (he : ((Operation.createStep id t k actor).procedure svc).runAlong trail readings s w = e) :
    e.answer = .error (.failed (.notNeeded t.id k)) ∧ e.store = s := by
  subst he
  rw [procedure, Procedure.runAlong_map, Service.createStep, hneeds]
  exact ⟨rfl, rfl⟩

end Operation

/-! ### One by one -/

/-- **Steps of free types are created one by one**, each as it is planned. -/
theorem makeAll_createStep (recorded : ∃ row ∈ s.transfers, row.id = t.id)
    (hours : ∀ k, svc.timeouts.hours k ≠ 0) (types : (items.map Prod.fst).Nodup)
    (unused : s.Unused (items.map Prod.snd)) (needed : ∀ item ∈ items, t.needs item.1 = true)
    (hfree : ∀ item ∈ items, ¬s.HasStep t.id item.1) (hnow : now.Keepable) (actor : Option Actor)
    (trail : Trail σ) (w : σ) :
    makeAll svc trail now (items.map fun item => .createStep item.2 t item.1 actor) s w =
      (items.map fun item => (.createStep item.2 t item.1 actor,
        .ok (.step (t.waiting svc.timeouts now item).asRead)),
      s.addSteps (items.map (t.waiting svc.timeouts now))) := by
  induction items generalizing s w with
  | nil => simp [makeAll, Store.addSteps]
  | cons item rest ih =>
    obtain ⟨k, id⟩ := item
    obtain ⟨hk, htypes⟩ := List.nodup_cons.mp types
    simp only [List.map_cons] at unused ⊢
    obtain ⟨hanswer, hstore⟩ := Operation.createStep_of_free svc trail w hnow recorded (hours k)
      unused.head (needed _ List.mem_cons_self) (hfree _ List.mem_cons_self) actor
      (Procedure.runAlong_const trail _ now s w)
    -- the types that are left are as free as they were
    have hstill : ∀ item ∈ rest,
        ¬(s.addSteps [t.waiting svc.timeouts now (k, id)]).HasStep t.id item.1 := by
      intro item hitem htaken
      rcases Store.hasStep_addSteps.mp htaken with htaken | ⟨x, hx, -, htype⟩
      · exact hfree item (List.mem_cons_of_mem _ hitem) htaken
      · rw [List.mem_singleton.mp hx] at htype
        have hmem : item.1 ∈ rest.map Prod.fst := List.mem_map_of_mem hitem
        rw [← htype] at hmem
        exact hk hmem
    have hrest (v : σ) := ih (s := s.addSteps [t.waiting svc.timeouts now (k, id)]) recorded
      htypes unused.tail (fun item hitem => needed item (List.mem_cons_of_mem _ hitem)) hstill v
    rw [makeAll, hanswer, hstore, hrest, Store.addSteps_addSteps]
    rfl

/-- Without their identifiers, the steps of the same types are the same. -/
theorem Transfer.unnamed_waiting_perm {items others : List (ApprovalType × String)}
    (h : (items.map Prod.fst).Perm (others.map Prod.fst)) (timeouts : Timeouts) (now : Instant) :
    ((items.map (t.waiting timeouts now)).map Step.unnamed).Perm
      ((others.map (t.waiting timeouts now)).map Step.unnamed) := by
  have htypes (l : List (ApprovalType × String)) :
      (l.map (t.waiting timeouts now)).map Step.unnamed =
        (l.map Prod.fst).map fun k => t.waiting timeouts now (k, "") := by
    rw [List.map_map, List.map_map]
    rfl
  rw [htypes, htypes]
  exact h.map _

/-- While all types that the transfer needs are free, their steps can be created in any order. -/
theorem Store.created_of_free (recorded : ∃ row ∈ s.transfers, row.id = t.id)
    (hours : ∀ k, svc.timeouts.hours k ≠ 0)
    (hfree : ∀ k, t.needs k = true → ¬s.HasStep t.id k)
    (hperm : (items.map Prod.fst).Perm t.needed) (unused : s.Unused (items.map Prod.snd))
    (ids : Nat → String) (times : Nat → Instant) (hnow : now.Keepable) (trail : Trail σ) (w : σ)
    (actor : Option Actor) :
    CreatedAs svc s t ids times now items
      (makeAll svc trail now (items.map fun item => .createStep item.2 t item.1 actor) s w) := by
  have hneeded : ∀ item ∈ items, t.needs item.1 = true := by
    intro item hitem
    exact Transfer.mem_needed.mp (hperm.mem_iff.mp (List.mem_map_of_mem hitem))
  rw [makeAll_createStep recorded hours (hperm.nodup_iff.mpr t.needed_nodup) unused hneeded
    (fun item hitem => hfree item.1 (hneeded item hitem)) hnow]
  constructor
  · intro call hcall
    obtain ⟨item, -, rfl⟩ := List.mem_map.mp hcall
    exact ⟨_, rfl⟩
  · rfl
  · intro htimes
    have hsteps : t.waitingSteps svc.timeouts ids times =
        (t.items ids).map (t.waiting svc.timeouts now) := by
      rw [Transfer.waitingSteps, Transfer.items, List.map_map]
      apply List.map_congr_left
      rintro ⟨k, n⟩ hmem
      obtain ⟨-, hn, -⟩ := List.mem_zipIdx hmem
      simp only [Function.comp_apply, htimes n (by simpa using hn)]
    rw [hsteps]
    apply Transfer.unnamed_waiting_perm
    rw [t.types_items ids]
    exact hperm

/-! ### On every store -/

theorem Store.planEnds (hours : ∀ k, svc.timeouts.hours k ≠ 0)
    (recorded : ∃ row ∈ s.transfers, row.id = t.id) (unused : s.Unused ((t.items ids).map Prod.snd))
    (hkeep : ∀ n < t.needed.length, (readings n).Keepable) (trail : Trail σ) (w : σ) :
    PlanEnds svc s t ids readings
      (((Operation.plan ids t).procedure svc).runAlong trail readings s w) := by
  generalize he : ((Operation.plan ids t).procedure svc).runAlong trail readings s w = e
  have hends := Operation.plan_alone svc trail readings s w ids t hkeep he
  have hitems := t.waitingSteps_items svc.timeouts ids readings
  have htypes : ((t.waitingSteps svc.timeouts ids readings).map fun x => x.type) = t.needed := by
    rw [← t.types_items ids, ← hitems, List.map_map]
    rfl
  have hids : ((t.waitingSteps svc.timeouts ids readings).map fun x => x.id) =
      (t.items ids).map Prod.snd := by
    rw [← hitems, List.map_map]
    rfl
  have hsteps : ∀ x ∈ t.waitingSteps svc.timeouts ids readings,
      x.transferId = t.id ∧ x.timeoutHours ≠ 0 := by
    intro x hx
    obtain ⟨k, n, -, rfl⟩ := Transfer.exists_of_mem_waitingSteps hx
    exact ⟨rfl, hours k⟩
  have hreads : ∀ x ∈ t.waitingSteps svc.timeouts ids readings,
      (StepRow.ofStep x).step = .ok x.asRead := by
    intro x hx
    exact StepRow.step_ofStep (Transfer.inYears_of_mem_waitingSteps hkeep hx)
  rw [insertSteps_asRead recorded hsteps (htypes ▸ t.needed_nodup) (hids ▸ unused), htypes] at hends
  cases hfind : t.needed.find? fun k => s.HasStep t.id k with
  | none =>
    rw [hfind] at hends
    obtain ⟨hanswer, hstore⟩ := hends
    have hfree := free_of_find? hfind
    constructor
    · exact ⟨fun _ => hfree, fun _ => ⟨_, hanswer⟩⟩
    · intro y hy
      rw [hanswer] at hy
      exact ⟨(Except.ok.inj hy).symm, hstore⟩
    · exact hreads
    · intro why hwhy
      rw [hanswer] at hwhy
      cases hwhy
    · intro y _ items hperm hunused now hnow τ trail' v actor
      exact created_of_free recorded hours hfree hperm hunused ids readings hnow trail' v actor
  | some k =>
    rw [hfind] at hends
    obtain ⟨hanswer, hstore⟩ := hends
    have hfirst := FirstTaken.of_find? hfind
    have hfails : ∀ y, e.answer ≠ .ok y := by
      intro y hy
      rw [hanswer] at hy
      cases hy
    constructor
    · constructor
      · rintro ⟨y, hy⟩
        exact absurd hy (hfails y)
      · intro hfree
        exact absurd hfirst.taken (hfree k hfirst.needed)
    · intro y hy
      exact absurd hy (hfails y)
    · exact hreads
    · intro why hwhy
      rw [hanswer] at hwhy
      exact ⟨hstore, k, hfirst, (Except.error.inj hwhy).symm⟩
    · intro y hy
      exact absurd hy (hfails y)

theorem Store.creationEnds (hours : ∀ k, svc.timeouts.hours k ≠ 0)
    (recorded : ∃ row ∈ s.transfers, row.id = t.id) (unused : s.Unused [id]) (k : ApprovalType)
    (actor : Option Actor) (hnow : (readings 0).Keepable) (trail : Trail σ) (w : σ) :
    CreationEnds svc s t k id (readings 0)
      (((Operation.createStep id t k actor).procedure svc).runAlong trail readings s w) := by
  generalize he :
    ((Operation.createStep id t k actor).procedure svc).runAlong trail readings s w = e
  by_cases hneeds : t.needs k = true
  · by_cases htaken : s.HasStep t.id k
    · obtain ⟨hanswer, hstore⟩ := Operation.createStep_of_taken svc trail w hnow recorded (hours k)
        unused hneeds htaken actor he
      constructor
      · simp [failedAs_iff hanswer, hneeds, Error.kind]
      · simp [failedAs_iff hanswer, htaken, Error.kind]
      · intro _ hfree
        exact absurd htaken hfree
      · exact fun _ _ => hstore
    · obtain ⟨hanswer, hstore⟩ := Operation.createStep_of_free svc trail w hnow recorded (hours k)
        unused hneeds htaken actor he
      constructor
      · simp [not_failedAs hanswer, hneeds]
      · simp [not_failedAs hanswer, htaken]
      · exact fun _ _ => ⟨hanswer, hstore⟩
      · intro why hwhy
        rw [hanswer] at hwhy
        cases hwhy
  · rw [Bool.not_eq_true] at hneeds
    obtain ⟨hanswer, hstore⟩ := Operation.createStep_of_not_needed svc trail w hneeds actor he
    constructor
    · simp [failedAs_iff hanswer, hneeds, Error.kind]
    · simp [hneeds]
    · simp [hneeds]
    · exact fun _ _ => hstore

/-- **Planning is exact.**  Under an accepted configuration, and on every store in which the
    transfer is recorded, a plan stores all steps that the transfer needs or reports the
    first type that has one already; and it comes to the same as creating them singly. -/
theorem planning_exact {text : String} {c : Config} (accepted : Config.ofText text = .ok c)
    (recorded : ∃ row ∈ s.transfers, row.id = t.id) (trail : Trail σ) (w : σ)
    (readings : Nat → Instant) (hkeep : ∀ n ≤ t.needed.length, (readings n).Keepable) :
    (∀ ids, s.Unused ((t.items ids).map Prod.snd) →
      PlanEnds (.ofConfig c) s t ids readings
        (((Operation.plan ids t).procedure (.ofConfig c)).runAlong trail readings s w)) ∧
    ∀ id k actor, s.Unused [id] →
      CreationEnds (.ofConfig c) s t k id (readings 0)
        (((Operation.createStep id t k actor).procedure (.ofConfig c)).runAlong trail readings s
          w) := by
  have hours : ∀ k, (Service.ofConfig c).timeouts.hours k ≠ 0 := Config.hours_ne_zero accepted
  constructor
  · intro ids hunused
    exact Store.planEnds hours recorded hunused (fun n hn => hkeep n (Nat.le_of_lt hn)) trail w
  · intro id k actor hunused
    exact Store.creationEnds hours recorded hunused k actor (hkeep 0 (Nat.zero_le _)) trail w

/-- A sale of which one sign-off has been asked for already. -/
def Sample.halfAskedSale : List (Operation × Instant) :=
  [(.initiate "sale" sale none, firstDay),
   (.createStep "early" recordedSale .target none, firstDay)]

theorem halfAskedSale_planned :
    Config.ofText "[timeouts]\nsource_hours = 48\n" = .ok Sample.twoDays ∧
      ∃ r ∈ play (.ofConfig Sample.twoDays) .silent Sample.halfAskedSale [] .empty (),
        r.2.1.FirstTaken Sample.recordedSale .target ∧
        PlanEnds (.ofConfig Sample.twoDays) r.2.1 Sample.recordedSale Sample.stepIds
          (fun _ => Sample.secondDay)
          (((Operation.plan Sample.stepIds Sample.recordedSale).procedure
            (.ofConfig Sample.twoDays)).runAlong .silent (fun _ => Sample.secondDay) r.2.1 ()) := by
  have haccepted : Config.ofText "[timeouts]\nsource_hours = 48\n" = .ok Sample.twoDays := by rfl
  have hplays : ∃ r ∈ play (.ofConfig Sample.twoDays) .silent Sample.halfAskedSale [] .empty (),
      (∃ row ∈ r.2.1.transfers, row.id = Sample.recordedSale.id) ∧
        r.2.1.HasStep "sale" .target ∧ ¬r.2.1.HasStep "sale" .source ∧
        ∀ id ∈ ["first", "second", "third"], ∀ row ∈ r.2.1.steps, row.id ≠ id := by
    decide +kernel
  obtain ⟨r, hplay, hrecorded, htaken, hfree, hids⟩ := hplays
  refine ⟨haccepted, r, hplay, ⟨rfl, htaken, ?_⟩, ?_⟩
  · intro j _ hlt
    cases j with
    | source => exact hfree
    | target => exact absurd hlt (by decide)
    | admin => exact absurd hlt (by decide)
  · have hnow : Sample.secondDay.Keepable := by decide
    exact (planning_exact haccepted hrecorded .silent () (fun _ => Sample.secondDay)
      fun _ _ => hnow).1
      Sample.stepIds ⟨by decide, hids⟩

end SignOff
