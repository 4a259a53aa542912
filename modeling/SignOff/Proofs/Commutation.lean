/-
  SignOff/Proofs/Commutation.lean
  ===============================
  **Decisions on different steps commute.**  A list of decisions that are made at one instant,
  no two of them on the same step, may be made in any order: every call is told the same, and
  the store ends up the same, with the same state of every transfer (`decisions_commute`).
  Some may be refused, and some of one transfer.

  What has to be seen is that no decision opens or closes the way for another.  By
  `Ruling.check_settle` each call passes its checks, or fails them with the same error, as it
  would have if it had been the first; so the list does what its calls do one by one on the
  store where it began (`makeAll_eq`), and that does not depend on their order.
-/
import SignOff.Proofs.Workflow.Checking
import Mathlib.Data.List.Pairwise

namespace SignOff

open Audit

/-- Make the calls one after the other, all at one instant.  What each of them was answered,
    and the store that they leave. -/
def makeAll (svc : Service) {σ : Type} (trail : Trail σ) (time : Instant) :
    List Operation → Store → σ → List (Operation × Except Halt Answer) × Store
  | [], s, _ => ([], s)
  | op :: rest, s, w =>
    let e := (op.procedure svc).run trail time s w
    let r := makeAll svc trail time rest e.store e.trail
    ((op, e.answer) :: r.1, r.2)

/-- The step that an answer shows as decided. -/
def Answer.decidedStep? : Answer → Option Step
  | .decision d => some d.step
  | _ => none

/-- The step that the call decides. -/
def Operation.stepId? (op : Operation) : Option String := op.ruling?.map fun r => r.stepId

/-- A call with the step that it was shown as decided, or with its error. -/
def told (call : Operation × Except Halt Answer) : Operation × Except Halt (Option Step) :=
  (call.1, call.2.map Answer.decidedStep?)

/-- Two ways of making the same calls come to the same. -/
structure SameOutcome (one other : List (Operation × Except Halt Answer) × Store) : Prop where
  told : (one.1.map told).Perm (other.1.map told)
  store : one.2 = other.2
  states : ∀ id now, one.2.stateOf id now = other.2.stateOf id now

/-- How a ruling ends that is made alone on `s`. -/
def Ruling.ending (svc : Service) (time : Instant) (s : Store) (r : Ruling) :
    Except Halt (Option Step) :=
  (r.check svc time s).map fun found => some (r.settles time found.1)

/-- A store with the ruling in it, if that passes its checks on `s`. -/
def Ruling.effect (svc : Service) (time : Instant) (s now : Store) (r : Ruling) : Store :=
  match r.check svc time s with
  | .ok _ => now.settle r time
  | .error _ => now

/-- How a decision ends that is made alone on `s`. -/
def Operation.ending (svc : Service) (time : Instant) (s : Store) (op : Operation) :
    Except Halt (Option Step) :=
  op.ruling?.elim (.ok none) (Ruling.ending svc time s)

/-- A store with the decision in it, if that passes its checks on `s`. -/
def Operation.effect (svc : Service) (time : Instant) (s now : Store) (op : Operation) : Store :=
  op.ruling?.elim now (Ruling.effect svc time s now)

variable {svc : Service} {σ σ' : Type} {trail : Trail σ} {time : Instant} {s : Store} {w : σ}
  {op : Operation} {r r' : Ruling}

/-! ### One call -/

theorem Ruling.run_alone (svc : Service) (hop : op.ruling? = some r) (hkeyed : s.Keyed)
    (htime : time.Keepable) (trail : Trail σ) (w : σ) :
    ((op.procedure svc).run trail time s w).answer.map Answer.decidedStep? =
        r.ending svc time s ∧
      ((op.procedure svc).run trail time s w).store = r.effect svc time s s := by
  have hrun := Operation.checked svc hop hkeyed (fun _ => time) htime trail w
  rw [Procedure.runAlong_const] at hrun
  rw [ending, effect]
  cases hcheck : r.check svc time s with
  | error why =>
    rw [hcheck] at hrun
    obtain ⟨hanswer, hstore⟩ := hrun
    rw [hanswer]
    exact ⟨rfl, hstore⟩
  | ok found =>
    rw [hcheck] at hrun
    obtain ⟨steps, state, -, -, hanswer, hstore⟩ := hrun
    rw [hanswer]
    exact ⟨rfl, hstore⟩

theorem Ruling.keyed_effect (hkeyed : s.Keyed) (r : Ruling) : (r.effect svc time s s).Keyed := by
  rw [effect]
  split
  · exact hkeyed.settle r time
  · exact hkeyed

/-- A ruling has no part in the checks of a ruling on another step. -/
theorem Ruling.check_effect (svc : Service) (hkeyed : s.Keyed) (htime : time.Keepable)
    (hne : r'.stepId ≠ r.stepId) :
    r'.check svc time (r.effect svc time s s) = r'.check svc time s := by
  rw [effect]
  split
  · next found hcheck => exact check_settle hkeyed htime (check_eq_ok_iff.mp hcheck) hne
  · rfl

/-- The rows of different steps can be written in any order. -/
theorem StepRow.after_after (hne : r'.stepId ≠ r.stepId) (time : Instant) (row : StepRow) :
    (row.after r time).after r' time = (row.after r' time).after r time := by
  by_cases hid : row.id = r.stepId
  · have hother : row.id ≠ r'.stepId := fun h => hne (h.symm.trans hid)
    rw [after_of_ne hother, after_of_ne (by rwa [after_id])]
  · have hkept : (row.after r' time).id ≠ r.stepId := by rwa [after_id]
    rw [after_of_ne hid, after_of_ne hkept]

theorem Store.settle_settle (hne : r'.stepId ≠ r.stepId) (s : Store) (time : Instant) :
    (s.settle r time).settle r' time = (s.settle r' time).settle r time := by
  simp only [Store.settle, List.map_map, Function.comp_def, StepRow.after_after hne]

theorem Ruling.effect_effect (hne : r'.stepId ≠ r.stepId) (now : Store) :
    r'.effect svc time s (r.effect svc time s now) =
      r.effect svc time s (r'.effect svc time s now) := by
  simp only [effect]
  cases r.check svc time s with
  | error why => rfl
  | ok found =>
    cases r'.check svc time s with
    | error why => rfl
    | ok found' => exact Store.settle_settle hne now time

/-! ### All calls -/

section Calls

variable {calls calls' : List Operation}

/-- What earlier calls have done makes no difference to a call on another step. -/
theorem Operation.ending_effect (svc : Service) (hkeyed : s.Keyed) (htime : time.Keepable)
    (hop : op.ruling? = some r) {other : Operation} (hne : op.stepId? ≠ other.stepId?) :
    other.ending svc time (r.effect svc time s s) = other.ending svc time s ∧
      ∀ now, other.effect svc time (r.effect svc time s s) now = other.effect svc time s now := by
  cases hother : other.ruling? with
  | none => simp [ending, effect, hother]
  | some r' =>
    have hsteps : r'.stepId ≠ r.stepId := by
      intro hsame
      simp [stepId?, hop, hother, hsame] at hne
    have hcheck := Ruling.check_effect svc hkeyed htime hsteps
    simp only [ending, effect, hother, Option.elim]
    constructor
    · rw [Ruling.ending, hcheck, Ruling.ending]
    · intro now
      rw [Ruling.effect, hcheck, Ruling.effect]

/-- **The calls do together what they would do one by one.** -/
theorem makeAll_eq (hkeyed : s.Keyed) (htime : time.Keepable)
    (hdecide : ∀ op ∈ calls, op.ruling?.isSome = true)
    (hdiffer : calls.Pairwise fun op other => op.stepId? ≠ other.stepId?) (trail : Trail σ) (w : σ) :
    (makeAll svc trail time calls s w).1.map told =
        calls.map (fun op => (op, op.ending svc time s)) ∧
      (makeAll svc trail time calls s w).2 = calls.foldl (Operation.effect svc time s) s := by
  induction calls generalizing s w with
  | nil => exact ⟨rfl, rfl⟩
  | cons op rest ih =>
    obtain ⟨r, hop⟩ := Option.isSome_iff_exists.mp (hdecide op List.mem_cons_self)
    obtain ⟨hanswer, hstore⟩ := Ruling.run_alone svc hop hkeyed htime trail w
    obtain ⟨hfirst, hrest⟩ := List.pairwise_cons.mp hdiffer
    have hkept (other : Operation) (hmem : other ∈ rest) :=
      Operation.ending_effect svc hkeyed htime hop (hfirst other hmem)
    obtain ⟨htold, hend⟩ := ih (r.keyed_effect hkeyed) (fun other hmem =>
      hdecide other (List.mem_cons_of_mem op hmem)) hrest
      ((op.procedure svc).run trail time s w).trail
    have hending : op.ending svc time s = r.ending svc time s := by
      rw [Operation.ending, hop, Option.elim]
    have heffect : op.effect svc time s s = r.effect svc time s s := by
      rw [Operation.effect, hop, Option.elim]
    simp only [makeAll, hstore, List.map_cons, List.foldl_cons]
    constructor
    · rw [htold, told, hanswer, hending]
      congr 1
      apply List.map_congr_left
      intro other hmem
      rw [(hkept other hmem).1]
    · rw [hend, heffect]
      apply List.foldl_ext
      intro now other hmem
      exact (hkept other hmem).2 now

theorem foldl_effect_perm (hdiffer : calls.Pairwise fun op other => op.stepId? ≠ other.stepId?)
    (hperm : calls.Perm calls') (now : Store) :
    calls.foldl (Operation.effect svc time s) now =
      calls'.foldl (Operation.effect svc time s) now := by
  apply hperm.foldl_eq'
  intro op hop other hother now
  by_cases hsame : op = other
  · rw [hsame]
  have hsymm : Std.Symm fun op other : Operation => op.stepId? ≠ other.stepId? :=
    ⟨fun _ _ h => h.symm⟩
  have hne : op.stepId? ≠ other.stepId? := hdiffer.forall hop hother hsame
  simp only [Operation.effect]
  cases hr : op.ruling? with
  | none => rfl
  | some r =>
    cases hr' : other.ruling? with
    | none => rfl
    | some r' =>
      have hsteps : r'.stepId ≠ r.stepId := by
        intro h
        simp [Operation.stepId?, hr, hr', h] at hne
      exact Ruling.effect_effect hsteps now

/-- **Decisions on different steps commute.**  In any order, and on any trail, every call is
    told the same, the store ends up the same, and so does the state of every transfer. -/
theorem decisions_commute (reached : svc.Reaches s) (htime : time.Keepable)
    (hdecide : ∀ op ∈ calls, op.ruling?.isSome = true)
    (hdiffer : calls.Pairwise fun op other => op.stepId? ≠ other.stepId?)
    (hperm : calls.Perm calls') (trail : Trail σ) (w : σ) (trail' : Trail σ') (w' : σ') :
    SameOutcome (makeAll svc trail time calls s w) (makeAll svc trail' time calls' s w') := by
  have hdecide' : ∀ op ∈ calls', op.ruling?.isSome = true := by
    intro op hop
    exact hdecide op (hperm.mem_iff.mpr hop)
  have hdiffer' : calls'.Pairwise fun op other => op.stepId? ≠ other.stepId? :=
    hdiffer.perm hperm fun h => h.symm
  obtain ⟨htold, hend⟩ := makeAll_eq reached.keyed htime hdecide hdiffer trail w
  obtain ⟨htold', hend'⟩ := makeAll_eq reached.keyed htime hdecide' hdiffer' trail' w'
  have hsame : (makeAll svc trail time calls s w).2 = (makeAll svc trail' time calls' s w').2 := by
    rw [hend, hend', foldl_effect_perm hdiffer hperm]
  constructor
  · rw [htold, htold']
    exact hperm.map _
  · exact hsame
  · intro id now
    rw [hsame]

end Calls

/-- A sale and a gift whose steps are all open. -/
def Sample.saleAndGift : List (Operation × Instant) :=
  [(.initiate "sale" sale none, firstDay),
   (.plan stepIds recordedSale, firstDay),
   (.initiate "gift" gift none, firstDay),
   (.createStep "step" recordedGift .target none, firstDay)]

/-- What everyone decides on the second day.  The seller may not decide for the buyer, and one
    step does not exist. -/
def Sample.decisions : List Operation :=
  [.approve "first" ((Actor.ofOwner seller).owning "license") none,
   .approve "second" (.ofOwner seller) none,
   .reject "third" admin (some "no"),
   .approve "fourth" admin none,
   .approve "step" (.ofOwner buyer) none]

theorem saleAndGift_commute :
    ∃ r ∈ play Sample.service .silent Sample.saleAndGift [] .empty (),
      let one := makeAll Sample.service .silent Sample.secondDay Sample.decisions r.2.1 ()
      let other :=
        makeAll Sample.service .silent Sample.secondDay Sample.decisions.reverse r.2.1 ()
      (one.1.map fun call => call.2.isOk) = [true, false, true, false, true] ∧
        (one.2.steps.map fun row => row.outcome) =
          ["approved", "pending", "rejected", "approved"] ∧
        SameOutcome one other := by
  have hplays : ∃ r ∈ play Sample.service .silent Sample.saleAndGift [] .empty (),
      let one := makeAll Sample.service .silent Sample.secondDay Sample.decisions r.2.1 ()
      (one.1.map fun call => call.2.isOk) = [true, false, true, false, true] ∧
        (one.2.steps.map fun row => row.outcome) =
          ["approved", "pending", "rejected", "approved"] := by
    decide +kernel
  obtain ⟨r, hplay, hanswers, hrows⟩ := hplays
  have hreached : Sample.service.Reaches r.2.1 := ((Run.start ()).play hplay).session.reaches
  exact ⟨r, hplay, hanswers, hrows, decisions_commute hreached (by decide) (by decide) (by decide)
    (List.reverse_perm _).symm .silent () .silent ()⟩

end SignOff
