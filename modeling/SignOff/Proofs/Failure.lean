/-
  SignOff/Proofs/Failure.lean
  ===========================
  **What a failure leaves behind.**  An operation that ends with an error, or whose expiry runs
  past the calendar, has left every row as it was (`failure_leaves_store`).  There are three
  reasons, by the kind of operation.  Reads do not write.  Recording and planning write
  once, all rows or none, and have nothing left to do afterwards that could fail
  (`Procedure.Atomic`).  Decisions and completions do go on after their write, by reading
  back what they wrote; but they write only what they can show, as a coherent ledger has
  every record that they look for, and every expiry was looked at before.
-/
import SignOff.Proofs.Workflow.Discipline
import SignOff.Proofs.Workflow.Verdict

namespace SignOff

/-- Nothing is asked, and nothing fails. -/
def Discipline.sure : Discipline :=
  ⟨fun _ => True, fun _ => False, fun _ _ => True, fun _ => False⟩

namespace Procedure

variable {α β σ : Type} {p : Procedure α}

/-- The procedure asks one statement at most, and cannot fail after it. -/
def Atomic : Procedure α → Prop
  | .done _ => True
  | .halt _ => True
  | .ask _ next => ∀ r, (next r).Keeps .sure fun _ => True
  | .clock next => ∀ t, (next t).Atomic
  | .record _ next => ∀ kept, (next kept).Atomic
  | .consult next => next.Atomic

theorem Keeps.answered {post : α → Prop} (h : p.Keeps .sure post) (t : Audit.Trail σ)
    (readings : Nat → Instant) (s : Store) (w : σ) (why : Halt) :
    (p.runAlong t readings s w).answer ≠ .error why := by
  intro hwhy
  -- the discipline allows neither a statement nor a failure
  refine (h.runAlong (fun _ => True) ?_ ?_ (fun _ => trivial) t trivial w).2 why hwhy
  · intro q s r hq
    exact hq.elim
  · intro q why hq
    exact hq.elim

theorem Atomic.store_of_error (h : p.Atomic) (t : Audit.Trail σ) {readings : Nat → Instant}
    {s : Store} {w : σ} {why : Halt} (hwhy : (p.runAlong t readings s w).answer = .error why) :
    (p.runAlong t readings s w).store = s := by
  induction p generalizing readings s w with
  | done a => rfl
  | halt why => rfl
  | ask q next ih =>
    simp only [runAlong] at hwhy ⊢
    cases hr : q.run s with
    | error why => rfl
    | ok r =>
      simp only [hr] at hwhy
      exact absurd hwhy ((h r.1).answered t readings r.2 w why)
  | clock next ih => exact ih _ (h _) hwhy
  | record e next ih => exact ih _ (h _) hwhy
  | consult next ih => exact ih h hwhy

theorem Atomic.map (h : p.Atomic) (f : α → β) : (do return f (← p) : Procedure β).Atomic := by
  induction p with
  | done a => trivial
  | halt why => trivial
  | ask q next ih =>
    intro r
    apply keeps_bind.mpr
    apply (h r).mono
    intro a _
    trivial
  | clock next ih =>
    intro t
    exact ih t (h t)
  | record e next ih =>
    intro kept
    exact ih kept (h kept)
  | consult next ih => exact ih h

/-- Looking at the clock first makes no difference. -/
theorem Atomic.makeEach {makes : List (Instant → α)} {f : List α → Procedure β}
    (h : ∀ made, (f made).Atomic) : (makeEach makes >>= f).Atomic := by
  induction makes generalizing f with
  | nil => exact h []
  | cons make rest ih =>
    intro t
    change Atomic ((Procedure.makeEach rest >>= fun made => pure (make t :: made)) >>= f)
    rw [bind_assoc]
    exact ih fun made => h (make t :: made)

end Procedure

namespace Service

open Procedure

/-- To note a success is the last thing that these operations do. -/
theorem reported_sure {α : Type} {entry : Instant → Audit.Entry} {a : α} :
    Keeps .sure (fun _ => True) (do
      report entry
      return a) := by
  rw [keeps_bind]
  exact keeps_report trivial

theorem initiate_atomic (id : String) (p : Proposal) (initiator : Option Owner) :
    (initiate id p initiator).Atomic := by
  intro time r
  exact reported_sure

theorem plan_atomic (svc : Service) (ids : Nat → String) (t : Transfer) :
    (svc.plan ids t).Atomic := by
  apply Atomic.makeEach
  intro steps r
  exact reported_sure

theorem createStep_atomic (svc : Service) (id : String) (t : Transfer) (type : ApprovalType)
    (actor : Option Actor) : (svc.createStep id t type actor).Atomic := by
  rw [createStep]
  split
  · intro time r
    exact reported_sure
  · trivial

end Service

theorem CompletionEnds.unchanged {id : String} {l m : Ledger} {a : Except Halt Transfer}
    {ds : List Deed} (h : CompletionEnds Eq id l a ds m) {why : Halt} (ha : a = .error why) :
    m = l := by
  -- with no one else at the store, the status that was shown was read in the ledger `l` itself
  cases h with
  | unchecked keepable check => exact check.alone.1
  | notApproved keepable check state => exact check.alone.1
  | already keepable check state after closed => exact after.symm.trans check.alone.1
  | completed => cases ha

section Alone

variable {svc : Service} {σ : Type} {op : Operation} {l : Ledger} {trail : Audit.Trail σ}
  {readings : Nat → Instant} {w : σ} {why : Halt}

theorem Operation.store_of_refused {r : Ruling} (hop : op.ruling? = some r)
    (hl : l.Coherent svc.timeouts) (hkeep : ∀ k, (readings k).Keepable)
    (hwhy : ((op.procedure svc).runAlong trail readings l.store w).answer = .error why) :
    ((op.procedure svc).runAlong trail readings l.store w).store = l.store := by
  obtain ⟨b, ds, m, hanswer, hstore, hverdict, -⟩ := Operation.verdict hop hl trail hkeep w
  rw [hanswer] at hwhy
  cases b with
  | ok d => cases hwhy
  | error why => rw [hstore, hverdict.unchanged rfl]

theorem Operation.store_of_uncompleted {id : String} (hl : l.Coherent svc.timeouts)
    (hkeep : ∀ k, (readings k).Keepable)
    (hwhy : (((complete id).procedure svc).runAlong trail readings l.store w).answer = .error why) :
    (((complete id).procedure svc).runAlong trail readings l.store w).store = l.store := by
  have hmeets : ((complete id).procedure svc).Meets Eq ((complete id).May svc.timeouts)
      (fun a ds m => ∃ b, a = b.map .transfer ∧ CompletionEnds Eq id l b ds m) [] l := by
    apply Procedure.Meets.map
    apply (Service.complete_meets (Rely.alone _) hl id).mono
    intro b ds m hends
    exact ⟨b, rfl, hends⟩
  obtain ⟨ds, m, hstore, ⟨b, hanswer, hends⟩, -⟩ :=
    hmeets.runAlong (fun h => h.admissible) hl hkeep trail w
  rw [hanswer] at hwhy
  cases b with
  | ok t => cases hwhy
  | error why => rw [hstore, hends.unchanged rfl]

/-- On a coherent ledger, an operation that is answered with an error has changed nothing. -/
theorem Operation.store_of_error (hl : l.Coherent svc.timeouts)
    (hkeep : ∀ k, (readings k).Keepable)
    (hwhy : ((op.procedure svc).runAlong trail readings l.store w).answer = .error why) :
    ((op.procedure svc).runAlong trail readings l.store w).store = l.store := by
  cases op with
  | initiate id p initiator =>
    exact ((Service.initiate_atomic id p initiator).map _).store_of_error trail hwhy
  | plan ids t => exact ((svc.plan_atomic ids t).map _).store_of_error trail hwhy
  | createStep id t type actor =>
    exact ((svc.createStep_atomic id t type actor).map _).store_of_error trail hwhy
  | approve stepId actor notes => exact Operation.store_of_refused rfl hl hkeep hwhy
  | reject stepId actor notes => exact Operation.store_of_refused rfl hl hkeep hwhy
  | complete id => exact Operation.store_of_uncompleted hl hkeep hwhy
  | _ => exact Operation.store_of_reads rfl trail readings l.store w

end Alone

/-- **Failures leave the store as it was.** -/
theorem failure_leaves_store {svc : Service} {σ : Type} {trail : Audit.Trail σ}
    {turns : List Turn} {s : Store} {w : σ} (run : Run svc trail turns s w) (op : Operation)
    {readings : Nat → Instant} (hkeep : ∀ k, (readings k).Keepable) {why : Halt}
    (hwhy : ((op.procedure svc).runAlong trail readings s w).answer = .error why) :
    ((op.procedure svc).runAlong trail readings s w).store = s := by
  obtain ⟨l, rfl, h⟩ := run.history
  exact Operation.store_of_error h.coherent hkeep hwhy

/-- A sale whose buyer has been asked before the others. -/
def Sample.askedAhead : List (Operation × Instant) :=
  [(.initiate "sale" sale none, firstDay),
   (.createStep "ahead" recordedSale .target none, firstDay)]

/-- To plan the sale as a whole then fails at its second step, with the first one in place. -/
theorem askedAhead_plan_fails :
    ∃ r ∈ play Sample.service .silent Sample.askedAhead [] .empty (),
      ∃ e, e = ((Operation.plan Sample.stepIds Sample.recordedSale).procedure
          Sample.service).runAlong .silent (fun _ => Sample.secondDay) r.2.1 () ∧
        e.answer = .error (.failed (.stepExists "sale" .target)) ∧ e.store = r.2.1 := by
  have hplays : ∃ r ∈ play Sample.service .silent Sample.askedAhead [] .empty (),
      (((Operation.plan Sample.stepIds Sample.recordedSale).procedure
        Sample.service).runAlong .silent (fun _ => Sample.secondDay) r.2.1 ()).answer =
          .error (.failed (.stepExists "sale" .target)) := by
    decide +kernel
  obtain ⟨r, hplay, hwhy⟩ := hplays
  exact ⟨r, hplay, _, rfl, hwhy, failure_leaves_store ((Run.start ()).play hplay) _
    (fun _ => by decide +kernel) hwhy⟩

end SignOff
