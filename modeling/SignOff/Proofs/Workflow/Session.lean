/-
  SignOff/Proofs/Workflow/Session.lean
  ====================================
  **Calls with any arguments.**  In a `Session` calls are made one after the other as in a
  `Run`, but a caller may hand over any transfer, whether an answer showed it or not; and a
  store is one that a service `Reaches` even if the clock shows a year that no row can
  keep.  Steps may then be stored that their transfer does not need.  What is left is what
  the tables see to on their own: whatever every dated statement keeps of a store holds in
  all of these (`Operation.store_kept`), and above all no two rows of a table have the same
  identifier (`Service.Reaches.keyed`).
-/
import SignOff.Proofs.Store.Keyed
import SignOff.Proofs.Workflow.Discipline

namespace SignOff

open Audit

/-- Calls as in a `Run`, but handed any transfers that the caller likes. -/
inductive Session (svc : Service) {σ : Type} (trail : Audit.Trail σ) :
    List Turn → Store → σ → Prop
  | start (w : σ) : Session svc trail [] .empty w
  | call {turns : List Turn} {s : Store} {w : σ} {e : Procedure.Ending Answer σ}
      (session : Session svc trail turns s w) (op : Operation) (readings : Nat → Instant)
      (keepable : ∀ k, (readings k).Keepable)
      (ending : (op.procedure svc).runAlong trail readings s w = e) :
      Session svc trail (turns ++ [⟨op, readings, s, e.answer, e.store⟩]) e.store e.trail

theorem Run.session {svc : Service} {σ : Type} {trail : Audit.Trail σ} {turns : List Turn}
    {s : Store} {w : σ} (h : Run svc trail turns s w) : Session svc trail turns s w := by
  induction h with
  | start w => exact .start w
  | call run op readings keepable shown ending ih => exact ih.call op readings keepable ending

/-- The stores that calls lead to from the empty one, whatever the clock shows. -/
inductive Service.Reaches (svc : Service) : Store → Prop
  | start : svc.Reaches .empty
  | call {s : Store} {σ : Type} (reached : svc.Reaches s) (op : Operation) (trail : Trail σ)
      (readings : Nat → Instant) (w : σ) :
      svc.Reaches ((op.procedure svc).runAlong trail readings s w).store

variable {svc : Service} {σ : Type} {trail : Trail σ} {turns : List Turn} {s : Store} {w : σ}

theorem Session.reaches (h : Session svc trail turns s w) : svc.Reaches s := by
  induction h with
  | start w => exact .start
  | call session op readings keepable ending ih =>
    rw [← ending]
    exact ih.call op trail readings _

/-! ### What is kept -/

/-- Any dated statement may be asked, a write only if the operation has some of its kind; and
    nothing is counted on. -/
def Discipline.dated (op : Operation) (clock : Instant → Prop) (timeouts : Timeouts) :
    Discipline :=
  ⟨clock, fun q => q.Dated clock timeouts ∧ (q.writes = true → op.Alters q), fun _ _ => True,
    fun _ => True⟩

theorem Discipline.reading_dated (op : Operation) (clock : Instant → Prop)
    (timeouts : Timeouts) : (dated op clock timeouts).Reading := by
  constructor
  · intro q hq
    refine ⟨Statement.dated_of_reads hq clock timeouts, ?_⟩
    intro hwrites
    rw [hq] at hwrites
    cases hwrites
  · intro why
    trivial
  · intro id steps _ t time why _
    trivial

theorem Operation.keeps_dated (svc : Service) (op : Operation) (clock : Instant → Prop) :
    (op.procedure svc).Keeps (.dated op clock svc.timeouts) fun _ => True := by
  apply op.keeps (Discipline.reading_dated op clock svc.timeouts)
  intro q halters hq
  exact ⟨hq, fun _ => halters⟩

/-- **What every dated statement keeps of a store, every operation keeps**; of the writes it is
    enough to look at those of the operation's kind. -/
theorem Operation.store_kept (clock : Instant → Prop) {P : Store → Prop} (op : Operation)
    (hrun : ∀ {q : Statement} {s r}, q.Dated clock svc.timeouts → (q.writes = true → op.Alters q) →
      P s → q.run s = .ok r → P r.2)
    (trail : Trail σ) {readings : Nat → Instant} (hclock : ∀ k, clock (readings k))
    (hs : P s) (w : σ) : P ((op.procedure svc).runAlong trail readings s w).store := by
  refine ((op.keeps_dated svc clock).runAlong P ?_ ?_ hclock trail hs w).1
  · intro q s r hq hs hr
    exact ⟨trivial, hrun hq.1 hq.2 hs hr⟩
  · intro q why _
    trivial

theorem Service.Reaches.keyed (h : svc.Reaches s) : s.Keyed := by
  induction h with
  | start => exact Store.keyed_empty
  | call reached op trail readings w ih =>
    exact op.store_kept (fun _ => True) (fun _ _ hs hr => hs.run hr) trail
      (fun _ => trivial) ih w

end SignOff
