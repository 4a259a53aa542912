/-
  SignOff/Proofs/Workflow/Discipline.lean
  =======================================
  **What a procedure does, on any store.**  A contract (`Procedure.Meets`) speaks of ledgers
  that the workflow has made.  A `Discipline` speaks of the tree alone: which statements it
  asks, which answers and readings of the clock it counts on, and how it halts.  One keeps
  to it or not whatever is stored, and whatever transfers the caller hands over.

  All operations keep to a discipline that lets them read and fail, and that lets them ask
  the writes that are theirs (`Operation.keeps`).  What the statements of a discipline
  keep of the store is then kept by every run (`Procedure.Keeps.runAlong`).
-/
import SignOff.Proofs.Workflow.Run

namespace SignOff

structure Discipline where
  /-- the readings of the clock that it counts on -/
  clock : Instant → Prop
  /-- the statements that it may ask -/
  asks : Statement → Prop
  /-- the answers that it counts on -/
  hears : (q : Statement) → q.Reply → Prop
  /-- how it may halt -/
  halts : Halt → Prop

namespace Procedure

variable {α β σ : Type} {d : Discipline}

/-- The procedure keeps to the discipline, and what it ends with satisfies `post`. -/
def Keeps (d : Discipline) (post : α → Prop) : Procedure α → Prop
  | .done a => post a
  | .halt why => d.halts why
  | .ask q next => d.asks q ∧ ∀ r, d.hears q r → (next r).Keeps d post
  | .clock next => ∀ t, d.clock t → (next t).Keeps d post
  | .record _ next => ∀ kept, (next kept).Keeps d post
  | .consult next => next.Keeps d post

/-! ### Parts of procedures -/

section Parts

variable {post post' : α → Prop}

theorem Keeps.mono {p : Procedure α} (h : p.Keeps d post) (hpost : ∀ a, post a → post' a) :
    p.Keeps d post' := by
  induction p with
  | done a => exact hpost a h
  | halt why => exact h
  | ask q next ih =>
    obtain ⟨hq, hnext⟩ := h
    constructor
    · exact hq
    · intro r hr
      exact ih r (hnext r hr)
  | clock next ih =>
    intro t ht
    exact ih t (h t ht)
  | record e next ih =>
    intro kept
    exact ih kept (h kept)
  | consult next ih => exact ih h

theorem keeps_bind {p : Procedure α} {f : α → Procedure β} {post : β → Prop} :
    (p >>= f).Keeps d post ↔ p.Keeps d fun a => (f a).Keeps d post := by
  induction p with
  | done a => rfl
  | halt why => rfl
  | ask q next ih => exact and_congr_right fun _ => forall₂_congr fun r _ => ih r
  | clock next ih => exact forall₂_congr fun t _ => ih t
  | record e next ih => exact forall_congr' fun kept => ih kept
  | consult next ih => exact ih

theorem keeps_pure {a : α} : (pure a : Procedure α).Keeps d post ↔ post a :=
  .rfl

theorem keeps_now {post : Instant → Prop} : now.Keeps d post ↔ ∀ t, d.clock t → post t :=
  .rfl

theorem keeps_makeEach {makes : List (Instant → α)} {post : List α → Prop} :
    (makeEach makes).Keeps d post ↔ ∀ times : List Instant, times.length = makes.length →
      (∀ t ∈ times, d.clock t) → post (made makes times) := by
  induction makes generalizing post with
  | nil =>
    simp only [List.length_nil, List.length_eq_zero_iff, forall_eq]
    simp [makeEach, keeps_pure, made]
  | cons make rest ih =>
    simp only [List.length_cons, forall_length_succ, List.forall_mem_cons, makeEach, keeps_bind,
      keeps_now, keeps_pure, ih]
    exact forall_congr' fun t => ⟨fun h times hlen ht => h ht.1 times hlen ht.2,
      fun h ht times hlen hrest => h times hlen ⟨ht, hrest⟩⟩

theorem keeps_note {e : Audit.Entry} {post : Unit → Prop} : (note e).Keeps d post ↔ post () := by
  constructor
  · intro h
    exact h true
  · intro h kept
    exact h

theorem keeps_consulting {asked : Bool} {p : Procedure α} :
    Keeps d post (do
      if asked then asking
      p) ↔ p.Keeps d post := by
  cases asked <;> rfl

theorem keeps_ofOption {missing : Error} {x : Option α} :
    (ofOption missing x).Keeps d post ↔ x.elim (d.halts (.failed missing)) post := by
  cases x <;> rfl

theorem keeps_report {entry : Instant → Audit.Entry} {post : Unit → Prop} (h : post ()) :
    (Service.report entry).Keeps d post := by
  simp only [Service.report, keeps_bind, keeps_now, keeps_note]
  intro t _
  exact h

end Parts

/-! ### Carrying it out -/

/-- What the statements of a discipline keep of the store is kept till the end, and there is no
    other halt than the discipline has. -/
theorem Keeps.runAlong {post : α → Prop} {p : Procedure α} (h : p.Keeps d post)
    (holds : Store → Prop)
    (hasks : ∀ {q s r}, d.asks q → holds s → q.run s = .ok r → d.hears q r.1 ∧ holds r.2)
    (hfails : ∀ {q} why, d.asks q → d.halts (.failed why))
    {readings : Nat → Instant} (hclock : ∀ k, d.clock (readings k)) (t : Audit.Trail σ) {s : Store}
    (hs : holds s) (w : σ) :
    holds (p.runAlong t readings s w).store ∧
      ∀ why, (p.runAlong t readings s w).answer = .error why → d.halts why := by
  -- along the tree, for any store that is fine and whatever readings are left
  induction p generalizing readings s w with
  | done a =>
    constructor
    · exact hs
    · intro why hwhy
      cases hwhy
  | halt why =>
    constructor
    · exact hs
    · intro why' hwhy
      cases hwhy
      exact h
  | ask q next ih =>
    obtain ⟨hq, hnext⟩ := h
    simp only [Procedure.runAlong]
    cases hr : q.run s with
    | error why =>
      constructor
      · exact hs
      · intro why' hwhy
        cases hwhy
        exact hfails why hq
    | ok r =>
      obtain ⟨hheard, hholds⟩ := hasks hq hs hr
      exact ih r.1 (hnext r.1 hheard) hclock hholds w
  | clock next ih =>
    apply ih
    · exact h _ (hclock 0)
    · intro k
      exact hclock (k + 1)
    · exact hs
  | record e next ih => exact ih _ (h _) hclock hs _
  | consult next ih => exact ih h hclock hs w

end Procedure

/-! ### Operations -/

/-- Reading and failing are allowed, and whatever state the steps that were heard give. -/
structure Discipline.Reading (d : Discipline) : Prop where
  asks : ∀ {q : Statement}, q.writes = false → d.asks q
  fails : ∀ why, d.halts (.failed why)
  derives : ∀ {id : String} {steps : List Step}, d.hears (.stepsOf id) steps →
    ∀ (t : Transfer) (time : Instant) (why : Overflow), t.state steps time = .error why →
      d.halts (.overflow why)

/-- What the statement writes is dated by a reading of the clock, and what it inserts is fresh:
    a transfer is not completed, and in a step nothing is decided, which has the configured
    hours. -/
def Statement.Dated (clock : Instant → Prop) (timeouts : Timeouts) : Statement → Prop
  | .insertTransfer t => clock t.createdAt ∧ t.completedAt = none
  | .insertSteps xs => ∀ x ∈ xs, clock x.createdAt ∧
      x = .fresh x.id x.transferId x.type x.approver (timeouts.hours x.type) x.createdAt
  | .resolve _ _ _ _ time => clock time
  | .complete _ time => clock time
  | _ => True

theorem Statement.dated_of_reads {q : Statement} (hq : q.writes = false) (clock : Instant → Prop)
    (timeouts : Timeouts) : q.Dated clock timeouts := by
  cases q with
  | insertSteps xs =>
    cases xs with
    | nil =>
      intro x hx
      cases hx
    | cons x rest => cases hq
  | insertTransfer t => cases hq
  | resolve id outcome resolver notes time => cases hq
  | complete id time => cases hq
  | _ => trivial

namespace Service

open Procedure

variable {svc : Service} {d : Discipline} {t : Transfer} {time : Instant} {id : String}

theorem derive_keeps (hd : d.Reading) {steps : List Step} {transferId : String}
    (hsteps : d.hears (.stepsOf transferId) steps) {post : State → Prop} (hpost : ∀ s, post s) :
    (derive t steps time).Keeps d post := by
  rw [derive]
  cases hs : t.state steps time with
  | error why => exact hd.derives hsteps t time why hs
  | ok s => exact hpost s

theorem require_keeps (hd : d.Reading) {post : Transfer → Prop} (hpost : ∀ t, post t) :
    (require id).Keeps d post := by
  simp only [require, keeps_bind, keeps_ofOption]
  constructor
  · exact hd.asks rfl
  · intro found _
    cases found with
    | none => exact hd.fails _
    | some t => exact hpost t

theorem refuse_keeps (hd : d.Reading) {α : Type} {x : Step} {a : Actor} {why : Error}
    {post : α → Prop} : (refuse x a why : Procedure α).Keeps d post := by
  rw [refuse, keeps_bind]
  apply keeps_report
  exact hd.fails why

/-! ### Reading -/

theorem statusOf_keeps (hd : d.Reading) : (statusOf t time).Keeps d fun _ => True := by
  simp only [statusOf, keeps_bind, keeps_pure]
  constructor
  · exact hd.asks rfl
  · intro steps hsteps
    exact derive_keeps hd hsteps fun _ => trivial

theorem statusAt_keeps (hd : d.Reading) : (statusAt id time).Keeps d fun _ => True := by
  rw [statusAt, keeps_bind]
  apply require_keeps hd
  intro t
  exact statusOf_keeps hd

theorem status_keeps (hd : d.Reading) : (status id).Keeps d fun _ => True := by
  rw [status, keeps_bind, keeps_now]
  intro time _
  exact statusAt_keeps hd

theorem stateAt_keeps (hd : d.Reading) : (stateAt id time).Keeps d fun _ => True := by
  simp only [stateAt, keeps_bind, keeps_pure]
  exact statusAt_keeps hd

theorem state_keeps (hd : d.Reading) : (state id).Keeps d fun _ => True := by
  rw [state, keeps_bind, keeps_now]
  intro time _
  exact stateAt_keeps hd

theorem statuses_keeps (hd : d.Reading) (ts : List Transfer) :
    (statuses time ts).Keeps d fun _ => True := by
  induction ts with
  | nil => trivial
  | cons t rest ih =>
    simp only [statuses, keeps_bind, keeps_pure]
    exact (statusOf_keeps hd).mono fun _ _ => ih

theorem history_keeps (hd : d.Reading) (license : String) :
    (history license).Keeps d fun _ => True := by
  simp only [history, keeps_bind, keeps_now]
  intro time _
  constructor
  · exact hd.asks rfl
  · intro ts _
    exact statuses_keeps hd ts

theorem isDecidable_keeps (hd : d.Reading) (x : Step) (a : Actor) :
    (svc.isDecidable x t a time).Keeps d fun _ => True := by
  rw [isDecidable]
  split
  · rw [keeps_consulting]
    split
    · simp only [keeps_bind, keeps_pure]
      constructor
      · exact hd.asks rfl
      · intro steps hsteps
        exact derive_keeps hd hsteps fun _ => trivial
    · trivial
  · trivial

theorem decidable_keeps (hd : d.Reading) (a : Actor) (xs : List Step) :
    (svc.decidable a time xs).Keeps d fun _ => True := by
  induction xs with
  | nil => trivial
  | cons x rest ih =>
    simp only [decidable, keeps_bind]
    constructor
    · exact hd.asks rfl
    · intro found _
      cases found with
      | none => exact ih
      | some t =>
        rw [Keeps, keeps_bind]
        apply (isDecidable_keeps hd x a).mono
        intro shown _
        cases shown with
        | true =>
          simp only [if_true, keeps_bind, keeps_pure]
          exact ih
        | false => exact ih

theorem pending_keeps (hd : d.Reading) (a : Actor) : (svc.pending a).Keeps d fun _ => True := by
  simp only [pending, keeps_bind, keeps_now]
  intro time _
  constructor
  · exact hd.asks rfl
  · intro xs _
    exact decidable_keeps hd a xs

/-! ### Writing -/

theorem initiate_keeps (p : Proposal) (initiator : Option Owner)
    (hwrites : ∀ t, d.clock t.createdAt ∧ t.completedAt = none → d.asks (.insertTransfer t)) :
    (initiate id p initiator).Keeps d fun _ => True := by
  simp only [initiate, keeps_bind, keeps_now, keeps_pure]
  intro time htime
  constructor
  · exact hwrites _ ⟨htime, rfl⟩
  · intro _ _
    exact keeps_report trivial

theorem plan_keeps (ids : Nat → String)
    (hwrites : ∀ xs, Statement.Dated d.clock svc.timeouts (.insertSteps xs) →
      d.asks (.insertSteps xs)) :
    (svc.plan ids t).Keeps d fun _ => True := by
  simp only [plan, keeps_bind, keeps_makeEach, keeps_pure]
  intro times _ htimes
  constructor
  · apply hwrites
    intro x hx
    obtain ⟨type, id, time, htime, -, rfl⟩ := Plan.exists_of_mem_made hx
    exact ⟨htimes time htime, rfl⟩
  · intro _ _
    exact keeps_report trivial

theorem createStep_keeps (hd : d.Reading) (type : ApprovalType) (actor : Option Actor)
    (hwrites : ∀ xs, Statement.Dated d.clock svc.timeouts (.insertSteps xs) →
      d.asks (.insertSteps xs)) :
    (svc.createStep id t type actor).Keeps d fun _ => True := by
  rw [createStep]
  split
  · simp only [keeps_bind, keeps_now, keeps_pure]
    intro time htime
    constructor
    · apply hwrites
      intro x hx
      rw [List.mem_singleton.mp hx]
      exact ⟨htime, rfl⟩
    · intro _ _
      exact keeps_report trivial
  · exact hd.fails _

theorem settle_keeps (hd : d.Reading) (x : Step) (a : Actor) {outcome : Outcome}
    {notes : Option String} (hwrites : d.asks (.resolve x.id outcome a.identity notes time)) :
    (settle x t a outcome notes time).Keeps d fun _ => True := by
  simp only [settle, keeps_bind]
  constructor
  · exact hwrites
  · intro won _
    cases won with
    | false => exact refuse_keeps hd
    | true =>
      simp only [Keeps, if_true, keeps_bind, keeps_now, keeps_ofOption, keeps_pure]
      constructor
      · exact hd.asks rfl
      · intro steps hsteps later _
        apply derive_keeps hd hsteps
        intro s
        cases steps.find? fun y => y.id = x.id with
        | none => exact hd.fails _
        | some y => exact keeps_report trivial

theorem decide_keeps (hd : d.Reading) (stepId : String) (a : Actor) (outcome : Outcome)
    (notes : Option String)
    (hwrites : ∀ id time, d.clock time → d.asks (.resolve id outcome a.identity notes time)) :
    (svc.decide stepId a outcome notes).Keeps d fun _ => True := by
  simp only [decide, keeps_bind, keeps_now, keeps_ofOption]
  constructor
  · exact hd.asks rfl
  · intro found _
    cases found with
    | none => exact hd.fails _
    | some x =>
      apply require_keeps hd
      intro t time htime
      constructor
      · exact hd.asks rfl
      · intro steps hsteps
        apply derive_keeps hd hsteps
        intro s
        -- in time or not, decided or not, entitled or not
        split
        · exact refuse_keeps hd
        · split
          · exact refuse_keeps hd
          · rw [keeps_consulting]
            split
            · exact settle_keeps hd x a (hwrites x.id time htime)
            · exact refuse_keeps hd

theorem complete_keeps (hd : d.Reading)
    (hwrites : ∀ time, d.clock time → d.asks (.complete id time)) :
    (complete id).Keeps d fun _ => True := by
  rw [complete, keeps_bind]
  apply (status_keeps hd).mono
  intro s _
  split
  · simp only [keeps_bind, keeps_now]
    intro time htime
    constructor
    · exact hwrites time htime
    · intro won _
      cases won with
      | false => exact hd.fails _
      | true =>
        rw [Keeps, if_pos rfl, keeps_bind]
        apply keeps_report
        exact require_keeps hd fun _ => trivial
  · exact hd.fails _

end Service

namespace Operation

open Procedure

variable {svc : Service} {d : Discipline} {op : Operation} {α σ : Type}

/-- The operation has something to write. -/
def changes : Operation → Bool
  | .initiate _ _ _ => true
  | .plan _ _ => true
  | .createStep _ _ _ _ => true
  | .approve _ _ _ => true
  | .reject _ _ _ => true
  | .complete _ => true
  | _ => false

/-- The operation has writes of this kind. -/
def Alters : Operation → Statement → Prop
  | .initiate _ _ _, .insertTransfer _ => True
  | .plan _ _, .insertSteps _ => True
  | .createStep _ _ _ _, .insertSteps _ => True
  | .approve _ _ _, .resolve _ _ _ _ _ => True
  | .reject _ _ _, .resolve _ _ _ _ _ => True
  | .complete _, .complete _ _ => True
  | _, _ => False

theorem Alters.changes {q : Statement} (h : op.Alters q) : op.changes = true := by
  cases op <;> first | rfl | exact h.elim

theorem keeps_answer {p : Procedure α} {f : α → Answer} (h : p.Keeps d fun _ => True) :
    (do return f (← p) : Procedure Answer).Keeps d fun _ => True := by
  rw [keeps_bind]
  apply h.mono
  intro a _
  trivial

/-- **Every operation keeps to a discipline** that allows reading and the writes of its kind, as
    far as they are dated by the clock. -/
theorem keeps (op : Operation) (hd : d.Reading)
    (hwrites : ∀ q, op.Alters q → Statement.Dated d.clock svc.timeouts q → d.asks q) :
    (op.procedure svc).Keeps d fun _ => True := by
  cases op with
  | initiate id p initiator =>
    exact keeps_answer (Service.initiate_keeps p initiator fun t =>
      hwrites (.insertTransfer t) trivial)
  | plan ids t => exact keeps_answer (Service.plan_keeps ids fun xs => hwrites _ trivial)
  | createStep id t type actor =>
    exact keeps_answer (Service.createStep_keeps hd type actor fun xs => hwrites _ trivial)
  | approve stepId actor notes =>
    exact keeps_answer (Service.decide_keeps hd _ _ _ _ fun id time =>
      hwrites (.resolve id .approved actor.identity notes time) trivial)
  | reject stepId actor notes =>
    exact keeps_answer (Service.decide_keeps hd _ _ _ _ fun id time =>
      hwrites (.resolve id .rejected actor.identity notes time) trivial)
  | complete id =>
    exact keeps_answer (Service.complete_keeps hd fun time => hwrites (.complete id time) trivial)
  | status id => exact keeps_answer (Service.status_keeps hd)
  | state id => exact keeps_answer (Service.state_keeps hd)
  | stateAt id time => exact keeps_answer (Service.stateAt_keeps hd)
  | history license => exact keeps_answer (Service.history_keeps hd license)
  | pending actor => exact keeps_answer (Service.pending_keeps hd actor)

end Operation

/-! ### Reading only -/

/-- Anything goes but writing. -/
def Discipline.readOnly : Discipline :=
  ⟨fun _ => True, fun q => q.writes = false, fun _ _ => True, fun _ => True⟩

theorem Discipline.reading_readOnly : readOnly.Reading := by
  constructor
  · intro q hq
    exact hq
  · intro why
    trivial
  · intro id steps _ t time why _
    trivial

/-- **Reads change nothing**, on any store. -/
theorem Operation.store_of_reads {svc : Service} {σ : Type} {op : Operation}
    (hop : op.changes = false) (trail : Audit.Trail σ) (readings : Nat → Instant) (s : Store)
    (w : σ) : ((op.procedure svc).runAlong trail readings s w).store = s := by
  have hkeeps : (op.procedure svc).Keeps .readOnly fun _ => True := by
    apply Operation.keeps op Discipline.reading_readOnly
    intro q halters
    have hchanges := halters.changes
    rw [hop] at hchanges
    cases hchanges
  refine (hkeeps.runAlong (fun s' => s' = s) ?_ ?_ (fun _ => trivial) trail rfl w).1
  · intro q s' r hq hs hr
    exact ⟨trivial, (Statement.store_of_run hr hq).trans hs⟩
  · intro q why _
    trivial

end SignOff
