/-
  SignOff/Proofs/AuditIndifference.lean
  =====================================
  **The audit trail has no say.**  A trail answers of every entry whether it has kept it.  A
  procedure is heedless when it goes on in the same way whatever the answer is
  (`Procedure.Heedless`), and all operations are (`Operation.heedless`): some hand over an
  entry after their write, some on the way to an error.

  So two runs of the same calls, with the same readings of the clock, differ in nothing but
  their trails: each call answers the same and leaves the same store behind
  (`course_eq_of_trails`), be it with a trail that keeps nothing, with a writer of a journal,
  or with one that fails now and then.
-/
import SignOff.Proofs.Workflow.Run

namespace SignOff

open Audit

namespace Procedure

variable {α β σ τ : Type}

/-- The answers of the trail make no difference to what is done next. -/
def Heedless : Procedure α → Prop
  | .done _ => True
  | .halt _ => True
  | .ask _ next => ∀ r, (next r).Heedless
  | .clock next => ∀ t, (next t).Heedless
  | .record _ next => next true = next false ∧ (next true).Heedless
  | .consult next => next.Heedless

/-! ### Parts of procedures -/

theorem heedless_bind {p : Procedure α} {f : α → Procedure β} (hp : p.Heedless)
    (hf : ∀ a, (f a).Heedless) : (p >>= f).Heedless := by
  induction p with
  | done a => exact hf a
  | halt why => trivial
  | ask q next ih =>
    intro r
    exact ih r (hp r)
  | clock next ih =>
    intro t
    exact ih t (hp t)
  | record e next ih =>
    obtain ⟨hsame, htrue⟩ := hp
    constructor
    · exact congrArg (Procedure.bind · f) hsame
    · exact ih true htrue
  | consult next ih => exact ih hp

theorem heedless_pure (a : α) : (pure a : Procedure α).Heedless :=
  trivial

theorem heedless_fail (why : Error) : (fail why : Procedure α).Heedless :=
  trivial

theorem heedless_query (q : Statement) : (query q).Heedless :=
  fun _ => trivial

theorem heedless_now : now.Heedless :=
  fun _ => trivial

theorem heedless_makeEach (makes : List (Instant → α)) : (makeEach makes).Heedless := by
  induction makes with
  | nil => trivial
  | cons make rest ih =>
    refine heedless_bind heedless_now fun t => ?_
    exact heedless_bind ih fun made => heedless_pure _

theorem heedless_note (e : Entry) : (note e).Heedless :=
  ⟨rfl, trivial⟩

theorem heedless_ofOption (missing : Error) (x : Option α) : (ofOption missing x).Heedless := by
  cases x <;> trivial

theorem heedless_ofExcept (x : Except Overflow α) : (ofExcept x).Heedless := by
  cases x <;> trivial

theorem heedless_consulting {asked : Bool} {p : Procedure α} (hp : p.Heedless) :
    Heedless (do
      if asked then asking
      p) := by
  cases asked <;> exact hp

/-! ### Carrying it out -/

/-- It goes on as after an entry that was kept. -/
theorem Heedless.next_eq {next : Bool → Procedure α} {e : Entry} (h : (record e next).Heedless)
    (kept : Bool) : next kept = next true := by
  cases kept with
  | true => rfl
  | false => exact h.1.symm

/-- A heedless procedure ends the same with any two trails, but for what the trails keep. -/
theorem Heedless.runAlong_eq {p : Procedure α} (h : p.Heedless) (t : Trail σ) (u : Trail τ)
    (readings : Nat → Instant) (s : Store) (w : σ) (v : τ) :
    (p.runAlong t readings s w).answer = (p.runAlong u readings s v).answer ∧
      (p.runAlong t readings s w).store = (p.runAlong u readings s v).store := by
  induction p generalizing readings s w v with
  | done a => exact ⟨rfl, rfl⟩
  | halt why => exact ⟨rfl, rfl⟩
  | ask q next ih =>
    simp only [runAlong]
    cases q.run s with
    | error why => exact ⟨rfl, rfl⟩
    | ok r => exact ih r.1 (h r.1) readings r.2 w v
  | clock next ih => exact ih (readings 0) (h (readings 0)) _ s w v
  | record e next ih =>
    rw [runAlong, runAlong, h.next_eq (t.write e w).1, h.next_eq (u.write e v).1]
    exact ih true h.2 readings s _ _
  | consult next ih => exact ih h readings s w v

end Procedure

/-! ### Operations -/

namespace Service

open Procedure

variable {svc : Service}

theorem heedless_report (entry : Instant → Entry) : (report entry).Heedless :=
  heedless_bind heedless_now fun t => heedless_note (entry t)

theorem heedless_derive (t : Transfer) (steps : List Step) (now : Instant) :
    (derive t steps now).Heedless :=
  heedless_ofExcept _

theorem heedless_require (id : String) : (require id).Heedless :=
  heedless_bind (heedless_query _) fun found => heedless_ofOption _ found

/-- A refusal is reported, and then is the same error whether that was kept or not. -/
theorem heedless_refuse {α : Type} (x : Step) (a : Actor) (why : Error) :
    (refuse x a why : Procedure α).Heedless :=
  heedless_bind (heedless_report _) fun _ => heedless_fail why

theorem heedless_initiate (id : String) (p : Proposal) (initiator : Option Owner) :
    (initiate id p initiator).Heedless := by
  refine heedless_bind heedless_now fun time => ?_
  refine heedless_bind (heedless_query _) fun _ => ?_
  exact heedless_bind (heedless_report _) fun _ => heedless_pure _

theorem heedless_plan (ids : Nat → String) (t : Transfer) : (svc.plan ids t).Heedless := by
  refine heedless_bind (heedless_makeEach _) fun steps => ?_
  refine heedless_bind (heedless_query _) fun _ => ?_
  exact heedless_bind (heedless_report _) fun _ => heedless_pure _

theorem heedless_createStep (id : String) (t : Transfer) (type : ApprovalType)
    (actor : Option Actor) : (svc.createStep id t type actor).Heedless := by
  rw [createStep]
  split
  · refine heedless_bind heedless_now fun time => ?_
    refine heedless_bind (heedless_query _) fun _ => ?_
    exact heedless_bind (heedless_report _) fun _ => heedless_pure _
  · exact heedless_fail _

theorem heedless_settle (x : Step) (t : Transfer) (a : Actor) (outcome : Outcome)
    (notes : Option String) (time : Instant) : (settle x t a outcome notes time).Heedless := by
  refine heedless_bind (heedless_query _) fun won => ?_
  cases won with
  | false => exact heedless_refuse x a _
  | true =>
    refine heedless_bind (heedless_query _) fun steps => ?_
    refine heedless_bind heedless_now fun later => ?_
    refine heedless_bind (heedless_derive t steps later) fun state => ?_
    refine heedless_bind (heedless_ofOption _ _) fun y => ?_
    exact heedless_bind (heedless_report _) fun _ => heedless_pure _

theorem heedless_decide (stepId : String) (a : Actor) (outcome : Outcome)
    (notes : Option String) : (svc.decide stepId a outcome notes).Heedless := by
  refine heedless_bind (heedless_query _) fun found => ?_
  refine heedless_bind (heedless_ofOption _ found) fun x => ?_
  refine heedless_bind (heedless_require _) fun t => ?_
  refine heedless_bind heedless_now fun time => ?_
  refine heedless_bind (heedless_query _) fun steps => ?_
  refine heedless_bind (heedless_derive t steps time) fun state => ?_
  -- in time or not, decided or not, entitled or not
  split
  · exact heedless_refuse x a _
  · split
    · exact heedless_refuse x a _
    · apply heedless_consulting
      split
      · exact heedless_settle x t a outcome notes time
      · exact heedless_refuse x a _

theorem heedless_statusOf (t : Transfer) (time : Instant) : (statusOf t time).Heedless := by
  refine heedless_bind (heedless_query _) fun steps => ?_
  exact heedless_bind (heedless_derive t steps time) fun _ => heedless_pure _

theorem heedless_statusAt (id : String) (time : Instant) : (statusAt id time).Heedless :=
  heedless_bind (heedless_require id) fun t => heedless_statusOf t time

theorem heedless_status (id : String) : (status id).Heedless :=
  heedless_bind heedless_now fun time => heedless_statusAt id time

theorem heedless_stateAt (id : String) (time : Instant) : (stateAt id time).Heedless :=
  heedless_bind (heedless_statusAt id time) fun _ => heedless_pure _

theorem heedless_state (id : String) : (state id).Heedless :=
  heedless_bind heedless_now fun time => heedless_stateAt id time

theorem heedless_statuses (time : Instant) (ts : List Transfer) :
    (statuses time ts).Heedless := by
  induction ts with
  | nil => exact heedless_pure _
  | cons t rest ih =>
    refine heedless_bind (heedless_statusOf t time) fun first => ?_
    exact heedless_bind ih fun _ => heedless_pure _

theorem heedless_history (license : String) : (history license).Heedless := by
  refine heedless_bind heedless_now fun time => ?_
  exact heedless_bind (heedless_query _) fun ts => heedless_statuses time ts

theorem heedless_isDecidable (x : Step) (t : Transfer) (a : Actor) (time : Instant) :
    (svc.isDecidable x t a time).Heedless := by
  rw [isDecidable]
  split
  · apply heedless_consulting
    split
    · refine heedless_bind (heedless_query _) fun steps => ?_
      exact heedless_bind (heedless_derive t steps time) fun _ => heedless_pure _
    · exact heedless_pure _
  · exact heedless_pure _

theorem heedless_decidable (a : Actor) (time : Instant) (xs : List Step) :
    (svc.decidable a time xs).Heedless := by
  induction xs with
  | nil => exact heedless_pure _
  | cons x rest ih =>
    refine heedless_bind (heedless_query _) fun found => ?_
    cases found with
    | none => exact ih
    | some t =>
      refine heedless_bind (heedless_isDecidable x t a time) fun shown => ?_
      cases shown with
      | true => exact heedless_bind ih fun _ => heedless_pure _
      | false => exact ih

theorem heedless_pending (a : Actor) : (svc.pending a).Heedless := by
  refine heedless_bind heedless_now fun time => ?_
  exact heedless_bind (heedless_query _) fun xs => heedless_decidable a time xs

theorem heedless_complete (id : String) : (complete id).Heedless := by
  refine heedless_bind (heedless_status id) fun current => ?_
  split
  · refine heedless_bind heedless_now fun time => ?_
    refine heedless_bind (heedless_query _) fun won => ?_
    cases won with
    | false => exact heedless_fail _
    | true => exact heedless_bind (heedless_report _) fun _ => heedless_require id
  · exact heedless_fail _

end Service

open Procedure in
/-- **No operation heeds the trail.** -/
theorem Operation.heedless (svc : Service) (op : Operation) : (op.procedure svc).Heedless := by
  cases op with
  | initiate id p initiator =>
    exact heedless_bind (Service.heedless_initiate id p initiator) fun _ => heedless_pure _
  | plan ids t => exact heedless_bind (Service.heedless_plan ids t) fun _ => heedless_pure _
  | createStep id t type actor =>
    exact heedless_bind (Service.heedless_createStep id t type actor) fun _ => heedless_pure _
  | approve stepId actor notes =>
    exact heedless_bind (Service.heedless_decide _ _ _ _) fun _ => heedless_pure _
  | reject stepId actor notes =>
    exact heedless_bind (Service.heedless_decide _ _ _ _) fun _ => heedless_pure _
  | complete id => exact heedless_bind (Service.heedless_complete id) fun _ => heedless_pure _
  | status id => exact heedless_bind (Service.heedless_status id) fun _ => heedless_pure _
  | state id => exact heedless_bind (Service.heedless_state id) fun _ => heedless_pure _
  | stateAt id time =>
    exact heedless_bind (Service.heedless_stateAt id time) fun _ => heedless_pure _
  | history license =>
    exact heedless_bind (Service.heedless_history license) fun _ => heedless_pure _
  | pending actor => exact heedless_bind (Service.heedless_pending actor) fun _ => heedless_pure _

/-! ### Runs -/

/-- Make calls one after the other, each with its readings of the clock: what each of them
    answers, and the store that it leaves behind. -/
def course (svc : Service) {σ : Type} (trail : Trail σ) :
    List (Operation × (Nat → Instant)) → Store → σ → List (Except Halt Answer × Store)
  | [], _, _ => []
  | (op, readings) :: rest, s, w =>
    let e := (op.procedure svc).runAlong trail readings s w
    (e.answer, e.store) :: course svc trail rest e.store e.trail

/-- **Auditing never influences the workflow.**  From any store, any calls answer the same and
    leave the same stores behind with any two trails, whatever these keep and whenever they
    fail. -/
theorem course_eq_of_trails (svc : Service) {σ τ : Type} (t : Trail σ) (u : Trail τ)
    (calls : List (Operation × (Nat → Instant))) (s : Store) (w : σ) (v : τ) :
    course svc t calls s w = course svc u calls s v := by
  induction calls generalizing s w v with
  | nil => rfl
  | cons call rest ih =>
    obtain ⟨op, readings⟩ := call
    obtain ⟨hanswer, hstore⟩ := (op.heedless svc).runAlong_eq t u readings s w v
    rw [course, course, hanswer, hstore]
    exact congrArg _ (ih _ _ _)

end SignOff
