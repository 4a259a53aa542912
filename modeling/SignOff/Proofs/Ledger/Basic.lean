/-
  SignOff/Proofs/Ledger/Basic.lean
  ================================
  **Ledgers.**  A ledger is what a store is about: the transfers and steps themselves, with
  no columns and no texts.  Its `store` keeps one row for each.  Every statement has its
  meaning on ledgers (`Statement.on`), where it needs no reading of rows; on a `Legible`
  ledger, one whose records their rows give back, the two agree (`Statement.run_store`).
  So what is proved of ledgers holds of the tables.
-/
import SignOff.Proofs.Store.Rows

namespace SignOff

/-- The transfers and the steps of a store, in the order of their insertion. -/
structure Ledger where
  transfers : List Transfer
  steps : List Step
deriving DecidableEq, Repr

/-- The step with the decision in it. -/
def Step.settled (outcome : Outcome) (resolver : Owner) (notes : Option String) (time : Instant)
    (x : Step) : Step :=
  { x with
    outcome := outcome, resolvedBy := some resolver.asRead, resolvedAt := some time
    notes := notes }

/-- The transfer with the time of its completion. -/
def Transfer.completed (time : Instant) (t : Transfer) : Transfer :=
  { t with completedAt := some time }

namespace Ledger

/-- The ledger without records. -/
def empty : Ledger := ⟨[], []⟩

/-- The tables that keep the ledger. -/
def store (l : Ledger) : Store :=
  ⟨l.transfers.map TransferRow.ofTransfer, l.steps.map StepRow.ofStep⟩

/-- Every record is given back by its row as it is. -/
structure Legible (l : Ledger) : Prop where
  transfers : ∀ t ∈ l.transfers, t.Keepable ∧ t.asRead = t
  steps : ∀ x ∈ l.steps, x.Keepable ∧ x.asRead = x

/-! ### Reading -/

def transfer? (l : Ledger) (id : String) : Option Transfer := l.transfers.find? fun t => t.id = id

def step? (l : Ledger) (id : String) : Option Step := l.steps.find? fun x => x.id = id

/-- The transfers of a license, by the text of their creation. -/
def transfersOf (l : Ledger) (license : String) : List Transfer :=
  byText (fun t => t.createdAt.columnText) (l.transfers.filter fun t => t.license = license)

/-- The steps of a transfer, by the text of their creation. -/
def stepsOf (l : Ledger) (transferId : String) : List Step :=
  byText (fun x => x.createdAt.columnText) (l.steps.filter fun x => x.transferId = transferId)

/-- The steps that wait for a decision, by the text of their creation. -/
def pendingSteps (l : Ledger) : List Step :=
  byText (fun x => x.createdAt.columnText) (l.steps.filter fun x => x.outcome = .pending)

/-! ### Writing -/

/-- The ledger with one more transfer. -/
def insertTransfer (l : Ledger) (t : Transfer) : Except Error Ledger :=
  if l.transfers.any fun u => u.id = t.id then .error (.breach .transferIdTaken)
  else .ok { l with transfers := l.transfers ++ [t.asRead] }

/-- The step is there already, by its identifier or by its transfer and type. -/
def hasStep (l : Ledger) (x : Step) : Bool :=
  l.steps.any fun y => y.id = x.id || (y.transferId = x.transferId && y.type = x.type)

/-- The ledger with one more step. -/
def insertStep (l : Ledger) (x : Step) : Except Error Ledger :=
  if x.timeoutHours = 0 then .error (.breach .noHours)
  else if l.hasStep x then .error (.stepExists x.transferId x.type)
  else if l.transfers.any fun t => t.id = x.transferId then
    .ok { l with steps := l.steps ++ [x.asRead] }
  else .error (.breach .noTransfer)

/-- The ledger with more steps, all of them or none. -/
def insertSteps (l : Ledger) : List Step → Except Error Ledger
  | [] => .ok l
  | x :: rest => do (← l.insertStep x).insertSteps rest

/-- The step with this identifier waits for its decision. -/
def isOpenStep (id : String) (x : Step) : Bool := x.id = id && x.outcome = .pending

theorem isOpenStep_iff {id : String} {x : Step} :
    isOpenStep id x = true ↔ x.id = id ∧ x.outcome = .pending := by
  simp only [isOpenStep, Bool.and_eq_true, decide_eq_true_eq]

/-- The ledger with the decision in the step, if that is open. -/
def settle (l : Ledger) (id : String) (outcome : Outcome) (resolver : Owner)
    (notes : Option String) (time : Instant) : Ledger :=
  { l with
    steps := l.steps.map fun x =>
      if isOpenStep id x then x.settled outcome resolver notes time else x }

/-- The transfer with this identifier is not completed. -/
def isOpenTransfer (id : String) (t : Transfer) : Bool := t.id = id && t.completedAt.isNone

theorem isOpenTransfer_iff {id : String} {t : Transfer} :
    isOpenTransfer id t = true ↔ t.id = id ∧ t.completedAt = none := by
  simp only [isOpenTransfer, Bool.and_eq_true, decide_eq_true_eq, Option.isNone_iff_eq_none]

/-- The ledger with the time of completion in the transfer, if that is open. -/
def stamp (l : Ledger) (id : String) (time : Instant) : Ledger :=
  { l with
    transfers := l.transfers.map fun t => if isOpenTransfer id t then t.completed time else t }

end Ledger

/-- The answer of a statement on a ledger, and the ledger afterwards. -/
def Statement.on : (q : Statement) → Ledger → Except Error (q.Reply × Ledger)
  | .findTransfer id, l => .ok (l.transfer? id, l)
  | .findStep id, l => .ok (l.step? id, l)
  | .transfersOf license, l => .ok (l.transfersOf license, l)
  | .stepsOf transferId, l => .ok (l.stepsOf transferId, l)
  | .pendingSteps, l => .ok (l.pendingSteps, l)
  | .insertTransfer t, l => (l.insertTransfer t).map fun l => ((), l)
  | .insertSteps steps, l => (l.insertSteps steps).map fun l => ((), l)
  | .resolve id outcome resolver notes time, l =>
    if outcome.isTerminal then
      .ok (l.steps.any (Ledger.isOpenStep id), l.settle id outcome resolver notes time)
    else .error (.notTerminal outcome)
  | .complete id time, l => .ok (l.transfers.any (Ledger.isOpenTransfer id), l.stamp id time)

/-- What a statement that does not fail makes of a ledger. -/
inductive Statement.Makes : Statement → Ledger → Ledger → Prop
  | reads {q : Statement} {l : Ledger} (reads : q.writes = false) : Makes q l l
  | transfer {t : Transfer} {l m : Ledger} (inserted : l.insertTransfer t = .ok m) :
      Makes (.insertTransfer t) l m
  | steps {xs : List Step} {l m : Ledger} (inserted : l.insertSteps xs = .ok m) :
      Makes (.insertSteps xs) l m
  | settled {id : String} {outcome : Outcome} {resolver : Owner} {notes : Option String}
      {time : Instant} {l : Ledger} (terminal : outcome.isTerminal = true) :
      Makes (.resolve id outcome resolver notes time) l (l.settle id outcome resolver notes time)
  | stamped {id : String} {time : Instant} {l : Ledger} :
      Makes (.complete id time) l (l.stamp id time)

theorem Statement.makes {q : Statement} {l : Ledger} {r : q.Reply × Ledger} (h : q.on l = .ok r) :
    q.Makes l r.2 := by
  cases q with
  | insertTransfer t =>
    rw [on] at h
    cases hm : l.insertTransfer t with
    | error why => rw [hm] at h; cases h
    | ok m => rw [hm] at h; cases h; exact .transfer hm
  | insertSteps xs =>
    rw [on] at h
    cases hm : l.insertSteps xs with
    | error why => rw [hm] at h; cases h
    | ok m => rw [hm] at h; cases h; exact .steps hm
  | resolve id outcome resolver notes time =>
    rw [on] at h
    split at h
    · next hterm => cases h; exact .settled hterm
    · cases h
  | complete id time => cases h; exact .stamped
  | _ => cases h; exact .reads rfl

namespace Ledger

variable {l : Ledger}

/-! ### Rows and records -/

theorem Legible.record_transfer (h : l.Legible) {t : Transfer} (ht : t ∈ l.transfers) :
    Store.asRecord (TransferRow.ofTransfer t).transfer = .ok t := by
  obtain ⟨hkeep, hread⟩ := h.transfers t ht
  rw [TransferRow.transfer_ofTransfer hkeep.inYears, hread]
  rfl

theorem Legible.step_ofStep (h : l.Legible) {x : Step} (hx : x ∈ l.steps) :
    (StepRow.ofStep x).step = .ok x := by
  obtain ⟨hkeep, hread⟩ := h.steps x hx
  rw [StepRow.step_ofStep hkeep.inYears, hread]

theorem Legible.record_step (h : l.Legible) {x : Step} (hx : x ∈ l.steps) :
    Store.asRecord (StepRow.ofStep x).step = .ok x := by
  rw [h.step_ofStep hx]
  rfl

/-- No two legible ledgers are kept in the same tables. -/
theorem Legible.store_inj {m : Ledger} (h : l.Legible) (hm : m.Legible) (hs : l.store = m.store) :
    l = m := by
  have hread {k : Ledger} (hk : k.Legible) :
      k.store.transfers.map (fun row => row.transfer) = k.transfers.map .ok ∧
        k.store.steps.map (fun row => row.step) = k.steps.map .ok := by
    simp only [store, List.map_map]
    constructor
    · apply List.map_congr_left
      intro t ht
      obtain ⟨hkeep, hsame⟩ := hk.transfers t ht
      rw [Function.comp, TransferRow.transfer_ofTransfer hkeep.inYears, hsame]
    · apply List.map_congr_left
      intro x hx
      exact hk.step_ofStep hx
  obtain ⟨htransfers, hsteps⟩ := hread h
  obtain ⟨htransfers', hsteps'⟩ := hread hm
  rw [hs, htransfers'] at htransfers
  rw [hs, hsteps'] at hsteps
  cases l
  cases m
  rw [Ledger.mk.injEq]
  exact ⟨(List.map_injective_iff.mpr (fun _ _ => Except.ok.inj) htransfers).symm,
    (List.map_injective_iff.mpr (fun _ _ => Except.ok.inj) hsteps).symm⟩

/-- A step that a row of the tables gives is one of the ledger. -/
theorem Legible.exists_row_iff (h : l.Legible) {x : Step} :
    (∃ row ∈ l.store.steps, row.step = .ok x) ↔ x ∈ l.steps := by
  constructor
  · rintro ⟨row, hrow, hstep⟩
    obtain ⟨y, hy, rfl⟩ := List.mem_map.mp hrow
    rw [h.step_ofStep hy] at hstep
    cases hstep
    exact hy
  · intro hx
    exact ⟨.ofStep x, List.mem_map_of_mem hx, h.step_ofStep hx⟩

theorem isOpenStep_ofStep (id : String) (x : Step) :
    Store.isOpenStep id (StepRow.ofStep x) = isOpenStep id x := by
  rw [Bool.eq_iff_iff]
  simp only [Store.isOpenStep, isOpenStep, Bool.and_eq_true, decide_eq_true_eq]
  simp only [StepRow.ofStep, Outcome.name_inj]

theorem decided_ofStep (outcome : Outcome) (resolver : Owner) (notes : Option String)
    (time : Instant) (x : Step) :
    Store.decided outcome resolver notes time (StepRow.ofStep x) =
      StepRow.ofStep (x.settled outcome resolver notes time) := by
  simp [Store.decided, Step.settled, StepRow.ofStep]

/-- The row of a step gives the decision that is written into it. -/
theorem step_decided {row : StepRow} {x : Step} (h : row.step = .ok x) (outcome : Outcome)
    (resolver : Owner) (notes : Option String) {time : Instant} (htime : time.Keepable) :
    (Store.decided outcome resolver notes time row).step =
      .ok (x.settled outcome resolver notes time) := by
  have hholds := StepRow.step_eq_ok_iff.mp h
  have hresolved : instantColumn? "resolved_at" (some time.columnText) = .ok (some time) := by
    rw [instantColumn?, instantColumn_of_keepable htime]
    rfl
  exact StepRow.step_eq_ok_iff.mpr
    { hholds with
      outcome := outcome.ofName?_name, resolvedBy := rfl
      resolvedAt := hresolved, notes := rfl }

theorem isOpenTransfer_ofTransfer (id : String) (t : Transfer) :
    Store.isOpenTransfer id (TransferRow.ofTransfer t) = isOpenTransfer id t := by
  rw [Bool.eq_iff_iff]
  simp only [Store.isOpenTransfer, isOpenTransfer, Bool.and_eq_true,
    decide_eq_true_eq]
  simp [TransferRow.ofTransfer]

/-! ### The tables read as the ledger -/

theorem findTransfer_store (h : l.Legible) (id : String) :
    l.store.findTransfer id = .ok (l.transfer? id) := by
  have hrow : l.store.transfers.find? (fun r => decide (r.id = id)) =
      (l.transfer? id).map TransferRow.ofTransfer :=
    List.find?_map
  rw [Store.findTransfer, hrow]
  cases hfind : l.transfer? id with
  | none => rfl
  | some t =>
    simp only [Option.map_some, h.record_transfer (List.mem_of_find?_eq_some hfind)]
    rfl

theorem findStep_store (h : l.Legible) (id : String) :
    l.store.findStep id = .ok (l.step? id) := by
  have hrow : l.store.steps.find? (fun r => decide (r.id = id)) =
      (l.step? id).map StepRow.ofStep :=
    List.find?_map
  rw [Store.findStep, hrow]
  cases hfind : l.step? id with
  | none => rfl
  | some x =>
    simp only [Option.map_some, h.record_step (List.mem_of_find?_eq_some hfind)]
    rfl

theorem transfersOf_store (h : l.Legible) (license : String) :
    l.store.transfersOf license = .ok (l.transfersOf license) := by
  simp only [Store.transfersOf, store, List.filter_map, byText_map]
  exact mapM_map_ok fun t ht =>
    h.record_transfer (List.mem_of_mem_filter (mem_byText.mp ht))

theorem stepsOf_store (h : l.Legible) (transferId : String) :
    l.store.stepsOf transferId = .ok (l.stepsOf transferId) := by
  simp only [Store.stepsOf, store, List.filter_map, byText_map]
  exact mapM_map_ok fun x hx => h.record_step (List.mem_of_mem_filter (mem_byText.mp hx))

theorem pendingSteps_store (h : l.Legible) : l.store.pendingSteps = .ok l.pendingSteps := by
  have hpending : (fun r => decide (r.outcome = Outcome.pending.name)) ∘ StepRow.ofStep =
      fun x => decide (x.outcome = .pending) := by
    funext x
    simp [StepRow.ofStep, Outcome.name_inj]
  simp only [Store.pendingSteps, store, List.filter_map, byText_map, hpending]
  exact mapM_map_ok fun x hx => h.record_step (List.mem_of_mem_filter (mem_byText.mp hx))

/-! ### The tables change as the ledger -/

theorem insertTransfer_store (l : Ledger) (t : Transfer) :
    l.store.insertTransfer t = (l.insertTransfer t).map store := by
  have hany : (l.store.transfers.any fun r => r.id = t.id) = l.transfers.any fun u => u.id = t.id :=
    List.any_map
  rw [Store.insertTransfer, insertTransfer, hany]
  split
  · rfl
  · simp [Except.map, store, TransferRow.ofTransfer_asRead]

theorem insertStep_store (l : Ledger) (x : Step) :
    l.store.insertStep x = (l.insertStep x).map store := by
  have hsteps : (l.store.steps.any fun r =>
      r.id = x.id || (r.transferId = x.transferId && r.type = x.type.name)) = l.hasStep x := by
    rw [Bool.eq_iff_iff]
    simp only [store, hasStep, List.any_map, List.any_eq_true, Function.comp,
      Bool.or_eq_true, Bool.and_eq_true, decide_eq_true_eq]
    simp only [StepRow.ofStep, ApprovalType.name_inj]
  have htransfers : (l.store.transfers.any fun r => r.id = x.transferId) =
      l.transfers.any fun t => t.id = x.transferId :=
    List.any_map
  rw [Store.insertStep, insertStep, hsteps, htransfers]
  split
  · rfl
  · split
    · rfl
    · split
      · simp [Except.map, store, StepRow.ofStep_asRead]
      · rfl

theorem insertSteps_store (l : Ledger) (xs : List Step) :
    l.store.insertSteps xs = (l.insertSteps xs).map store := by
  induction xs generalizing l with
  | nil => rfl
  | cons x rest ih =>
    simp only [Store.insertSteps, insertSteps, insertStep_store]
    cases l.insertStep x with
    | error why => rfl
    | ok l' => exact ih l'

theorem settle_store (l : Ledger) (id : String) {outcome : Outcome} (h : outcome.isTerminal = true)
    (resolver : Owner) (notes : Option String) (time : Instant) :
    l.store.resolve id outcome resolver notes time =
      .ok (l.steps.any (isOpenStep id), (l.settle id outcome resolver notes time).store) := by
  have hsteps : (l.steps.map StepRow.ofStep).map (fun r =>
        if Store.isOpenStep id r then Store.decided outcome resolver notes time r else r) =
      (l.steps.map fun x => if isOpenStep id x then x.settled outcome resolver notes time
        else x).map StepRow.ofStep := by
    rw [List.map_map, List.map_map]
    refine List.map_congr_left fun x _ => ?_
    simp only [Function.comp, isOpenStep_ofStep, decided_ofStep]
    split <;> rfl
  have hany : l.store.steps.any (Store.isOpenStep id) = l.steps.any (isOpenStep id) := by
    simp only [store, List.any_map, Function.comp_def, isOpenStep_ofStep]
  rw [Store.resolve, if_pos h, hany]
  simp only [settle, store, hsteps]

theorem stamp_store (l : Ledger) (id : String) (time : Instant) :
    l.store.complete id time =
      (l.transfers.any (isOpenTransfer id), (l.stamp id time).store) := by
  have htransfers : (l.transfers.map TransferRow.ofTransfer).map (fun r =>
        if Store.isOpenTransfer id r then { r with completedAt := some time.columnText } else r) =
      (l.transfers.map fun t => if isOpenTransfer id t then t.completed time else t).map
        TransferRow.ofTransfer := by
    rw [List.map_map, List.map_map]
    refine List.map_congr_left fun t _ => ?_
    simp only [Function.comp, isOpenTransfer_ofTransfer]
    split <;> rfl
  have hany : l.store.transfers.any (Store.isOpenTransfer id) =
      l.transfers.any (isOpenTransfer id) := by
    simp only [store, List.any_map, Function.comp_def, isOpenTransfer_ofTransfer]
  rw [Store.complete, hany]
  simp only [stamp, store, htransfers]

end Ledger

/-- **A statement on the tables of a legible ledger is the statement on the ledger.** -/
theorem Statement.run_store {l : Ledger} (h : l.Legible) (q : Statement) :
    q.run l.store = (q.on l).map fun r => (r.1, r.2.store) := by
  have hunit (x : Except Error Ledger) :
      (x.map Ledger.store).map (fun s => ((), s)) =
        (x.map fun l => ((), l)).map fun r => (r.1, r.2.store) := by
    cases x <;> rfl
  cases q with
  | findTransfer id => rw [run, Ledger.findTransfer_store h]; rfl
  | findStep id => rw [run, Ledger.findStep_store h]; rfl
  | transfersOf license => rw [run, Ledger.transfersOf_store h]; rfl
  | stepsOf transferId => rw [run, Ledger.stepsOf_store h]; rfl
  | pendingSteps => rw [run, Ledger.pendingSteps_store h]; rfl
  | insertTransfer t => rw [run, Ledger.insertTransfer_store]; exact hunit _
  | insertSteps steps => rw [run, Ledger.insertSteps_store]; exact hunit _
  | resolve id outcome resolver notes time =>
    rw [run, on]
    split
    · next hterm => rw [Ledger.settle_store l id hterm]; rfl
    · next hterm => rw [Store.resolve, if_neg hterm]; rfl
  | complete id time => rw [run, on, Ledger.stamp_store]; rfl

end SignOff
