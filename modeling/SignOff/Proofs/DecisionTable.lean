/-
  SignOff/Proofs/DecisionTable.lean
  =================================
  **The table of decisions.**  On a store that calls have led to, how a decision ends can be
  told before it is made.  The first of these that applies is the answer: there is no such
  step; its transfer is expired, whatever the step says and whoever asks; the step is decided;
  the actor is not entitled.  If none applies the decision succeeds, its step gets the outcome,
  the actor, the time and the notes, and nothing else is changed (`decision_table`).

  The table does not look at the outcome that is asked for, so an approval and a rejection of
  one step by one actor at one instant fare alike.
-/
import SignOff.Proofs.Workflow.Checking
import SignOff.Proofs.Workflow.Verdict

namespace SignOff

open Audit

/-- The call failed with an error of this kind. -/
def FailedAs (a : Except Halt Answer) (kind : ErrorKind) : Prop :=
  ∃ why, a = .error (.failed why) ∧ why.kind = kind

/-- How a decision ends on the step `x`, which is in `row`, of the transfer `t`. -/
structure DecidesOn (svc : Service) (r : Ruling) (s : Store) (readings : Nat → Instant)
    {σ : Type} (e : Procedure.Ending Answer σ) (row : StepRow) (x : Step) (t : Transfer) :
    Prop where
  expired : FailedAs e.answer .expired ↔ s.stateOf t.id (readings 0) = .ok .expired
  decided : s.stateOf t.id (readings 0) ≠ .ok .expired →
    (FailedAs e.answer .alreadyDecided ↔ x.outcome.isTerminal = true)
  notEntitled : s.stateOf t.id (readings 0) ≠ .ok .expired → x.outcome.isTerminal = false →
    (FailedAs e.answer .unauthorized ↔ svc.policy.allows x t r.actor = false)
  /-- the step is shown as its row now is, with the state that follows from all rows now -/
  succeeds : s.stateOf t.id (readings 0) ≠ .ok .expired → x.outcome.isTerminal = false →
    svc.policy.allows x t r.actor = true → ∃ d, e.answer = .ok (.decision d) ∧
      e.store = s.replaceStep (row.ruled r (readings 0)) ∧
      (row.ruled r (readings 0)).step = .ok d.step ∧
      e.store.stateOf t.id (readings 1) = .ok d.state

/-- How a decision ends on the store `s`. -/
structure DecisionTable (svc : Service) (r : Ruling) (s : Store) (readings : Nat → Instant)
    {σ : Type} (e : Procedure.Ending Answer σ) : Prop where
  notFound : FailedAs e.answer .notFound ↔ ∀ row ∈ s.steps, row.id ≠ r.stepId
  /-- a step that is there can be read, and so can its transfer; if that has a state, which it
      has unless an expiry lies past the end of the calendar, the decision ends by the table -/
  found : ∀ row ∈ s.steps, row.id = r.stepId → ∃ x t, row.step = .ok x ∧
    s.findTransfer row.transferId = .ok (some t) ∧
    ((∃ state, s.stateOf t.id (readings 0) = .ok state) ∨
      ∃ why, s.stateOf t.id (readings 0) = .error (.overflow why)) ∧
    ((∃ state, s.stateOf t.id (readings 0) = .ok state) → DecidesOn svc r s readings e row x t)
  /-- whoever is refused has changed nothing -/
  refused : ∀ why, e.answer = .error why → e.store = s
  /-- whatever the actor asks for on this step at this instant, the answer is of this kind -/
  alike : ∀ (op : Operation) (r' : Ruling), op.ruling? = some r' → r'.stepId = r.stepId →
    r'.actor = r.actor → ∀ (readings' : Nat → Instant), (∀ k, (readings' k).Keepable) →
      readings' 0 = readings 0 → ∀ {σ' : Type} (trail : Trail σ') (w : σ'),
        ((op.procedure svc).runAlong trail readings' s w).answer.map (fun _ => ()) =
          e.answer.map fun _ => ()

variable {svc : Service} {σ σ' : Type} {trail : Trail σ} {turns : List Turn} {s : Store} {w : σ}
  {op : Operation} {r r' : Ruling} {readings : Nat → Instant} {time : Instant} {x : Step}
  {t : Transfer} {e : Procedure.Ending Answer σ}

/-! ### One answer -/

theorem failedAs_iff {a : Except Halt Answer} {why : Error} (h : a = .error (.failed why))
    {kind : ErrorKind} : FailedAs a kind ↔ why.kind = kind := by
  simp [FailedAs, h]

theorem not_failedAs {a : Except Halt Answer} {y : Answer} (h : a = .ok y) (kind : ErrorKind) :
    ¬FailedAs a kind := by
  simp [FailedAs, h]

theorem Outcome.isTerminal_eq_false_iff {o : Outcome} : o.isTerminal = false ↔ o = .pending := by
  cases o <;> decide

/-- The checks do not depend on what is decided. -/
theorem Ruling.check_congr (hterm : r.outcome.isTerminal = true)
    (hterm' : r'.outcome.isTerminal = true) (hid : r'.stepId = r.stepId)
    (hactor : r'.actor = r.actor) : r'.check svc time s = r.check svc time s := by
  have hmay (o : Outcome) : o.mayBecome r'.outcome = o.mayBecome r.outcome := by
    rw [Bool.eq_iff_iff, Outcome.mayBecome_iff, Outcome.mayBecome_iff, hterm, hterm']
  simp only [check, hid, hactor, hmay]

theorem Operation.decidesOn (hop : op.ruling? = some r) (hkeyed : s.Keyed)
    (hkeep : (readings 0).Keepable) {row : StepRow} (hrow : row ∈ s.steps)
    (hid : row.id = r.stepId) (hstep : row.step = .ok x) (hx : s.findStep r.stepId = .ok (some x))
    (ht : s.findTransfer t.id = .ok (some t)) (htid : t.id = x.transferId) {state : State}
    (hstate : s.stateOf t.id (readings 0) = .ok state) (trail : Trail σ) (w : σ) :
    DecidesOn svc r s readings ((op.procedure svc).runAlong trail readings s w) row x t := by
  have hrun := Operation.checked svc hop hkeyed readings hkeep trail w
  rw [Ruling.check_of_found hx ht htid, hstate, ok_bind] at hrun
  by_cases hexpired : state = .expired
  · rw [if_pos hexpired] at hrun
    rw [hexpired] at hstate
    constructor
    · simp [failedAs_iff hrun.1, hstate, Error.kind]
    all_goals
      intro hne
      exact absurd hstate hne
  have hinTime : s.stateOf t.id (readings 0) ≠ .ok .expired := by simp [hstate, hexpired]
  rw [if_neg hexpired] at hrun
  cases hterm : x.outcome.isTerminal with
  | true =>
    have hmay : x.outcome.mayBecome r.outcome = false := by
      rw [← Bool.not_eq_true, Outcome.mayBecome_iff, ← Outcome.isTerminal_eq_false_iff, hterm]
      simp
    simp only [hmay, Bool.not_false, if_true] at hrun
    constructor
    · simp [failedAs_iff hrun.1, hinTime, Error.kind]
    · simp [failedAs_iff hrun.1, Error.kind, hterm]
    all_goals
      intro _ hopen
      simp [hterm] at hopen
  | false =>
    have hpending : x.outcome = .pending := Outcome.isTerminal_eq_false_iff.mp hterm
    have hmay : x.outcome.mayBecome r.outcome = true :=
      Outcome.mayBecome_iff.mpr ⟨hpending, Operation.terminal_of_ruling hop⟩
    simp only [hmay, Bool.not_true, Bool.false_eq_true, if_false] at hrun
    cases hallowed : svc.policy.allows x t r.actor with
    | false =>
      simp only [hallowed, Bool.false_eq_true, if_false] at hrun
      constructor
      · simp [failedAs_iff hrun.1, hinTime, Error.kind]
      · simp [failedAs_iff hrun.1, Error.kind, hterm]
      · simp [failedAs_iff hrun.1, Error.kind, hallowed]
      · intro _ _ h
        simp [hallowed] at h
    | true =>
      simp only [hallowed, if_true] at hrun
      obtain ⟨steps, after, hsteps, hafter, hanswer, hstore⟩ := hrun
      constructor
      · simp [not_failedAs hanswer, hinTime]
      · simp [not_failedAs hanswer, hterm]
      · simp [not_failedAs hanswer, hallowed]
      · intro _ _ _
        refine ⟨_, hanswer, ?_, Ledger.step_decided hstep _ _ _ hkeep, ?_⟩
        · rw [hstore, hkeyed.settle_eq_replaceStep hrow hid hstep hpending]
        · have htransfer : (s.settle r (readings 0)).findTransfer t.id = .ok (some t) := by
            rw [Store.findTransfer_settle, ht]
          rw [hstore, Store.stateOf_of_found htransfer, hsteps]
          simp only [Except.mapError, ok_bind, hafter]

/-! ### All answers -/

/-- Two decisions on one step by one actor, first read at one instant, fare alike. -/
theorem Operation.checked_alike {other : Operation} {readings' : Nat → Instant}
    (hop : op.ruling? = some r) (hother : other.ruling? = some r') (hkeyed : s.Keyed)
    (hkeep : (readings 0).Keepable) (hid : r'.stepId = r.stepId) (hactor : r'.actor = r.actor)
    (hsame : readings' 0 = readings 0) (trail : Trail σ) (w : σ) (trail' : Trail σ') (w' : σ') :
    ((other.procedure svc).runAlong trail' readings' s w').answer.map (fun _ => ()) =
      ((op.procedure svc).runAlong trail readings s w).answer.map fun _ => () := by
  have hrun := Operation.checked svc hop hkeyed readings hkeep trail w
  have hrun' := Operation.checked svc hother hkeyed readings' (hsame ▸ hkeep) trail' w'
  rw [hsame, Ruling.check_congr (Operation.terminal_of_ruling hop)
    (Operation.terminal_of_ruling hother) hid hactor] at hrun'
  cases hcheck : r.check svc (readings 0) s with
  | error why =>
    rw [hcheck] at hrun hrun'
    rw [hrun.1, hrun'.1]
  | ok found =>
    rw [hcheck] at hrun hrun'
    obtain ⟨steps, state, -, -, hanswer, -⟩ := hrun
    obtain ⟨steps', state', -, -, hanswer', -⟩ := hrun'
    rw [hanswer, hanswer']
    rfl

/-- **How every decision ends**, on every store that a run leads to. -/
theorem decision_table (run : Run svc trail turns s w) (hop : op.ruling? = some r)
    (hkeep : ∀ k, (readings k).Keepable) (trail' : Trail σ') (w' : σ') :
    DecisionTable svc r s readings ((op.procedure svc).runAlong trail' readings s w') := by
  have hkeyed : s.Keyed := run.session.reaches.keyed
  obtain ⟨l, rfl, h⟩ := run.history
  have hl := h.coherent
  obtain ⟨b, ds, m, hanswer, hstore, hverdict, -⟩ := Operation.verdict hop hl trail' hkeep w'
  refine ⟨?_, ?_, ?_, ?_⟩
  · have hmissing : l.step? r.stepId = none ↔ ∀ row ∈ l.store.steps, row.id ≠ r.stepId := by
      simp [Ledger.step?, Ledger.store, StepRow.ofStep]
    rw [← hmissing, ← hverdict.not_found_iff, hanswer, FailedAs]
    cases b <;> simp [Except.map]
  · intro row hrow hid
    obtain ⟨x, hx, rfl⟩ := List.mem_map.mp hrow
    obtain ⟨t, ht, hserves⟩ := hl.serves x hx
    have hstep : (StepRow.ofStep x).step = .ok x := hl.legible.step_ofStep hx
    have hfound : l.store.findStep r.stepId = .ok (some x) := hid ▸ hl.findStep_of_mem hx
    have htransfer : l.store.findTransfer t.id = .ok (some t) := hl.findTransfer_of_mem ht
    refine ⟨x, t, hstep, ?_, ?_, ?_⟩
    · rw [← htransfer, hserves.transferId]
      rfl
    · rw [hl.stateOf_store, hl.transfer?_eq_some ht]
      cases hs : l.state t (readings 0) with
      | error why => exact .inr ⟨why, by simp [hs, Except.mapError]⟩
      | ok state => exact .inl ⟨state, by simp [hs, Except.mapError]⟩
    · rintro ⟨state, hstate⟩
      exact Operation.decidesOn hop hkeyed (hkeep 0) hrow hid hstep hfound htransfer
        hserves.transferId hstate trail' w'
  · intro why hwhy
    rw [hanswer] at hwhy
    cases b with
    | error why' => rw [hstore, hverdict.unchanged rfl]
    | ok d => cases hwhy
  · intro other r' hother hid hactor readings' _ hsame σ'' trail'' w''
    exact Operation.checked_alike hop hother hkeyed (hkeep 0) hid hactor hsame trail' w' trail'' w''

/-- A sale that its seller signs off in time, and no one else. -/
def Sample.lapsedSale : List (Operation × Instant) :=
  [(.initiate "sale" sale none, firstDay),
   (.plan stepIds recordedSale, firstDay),
   (.approve "first" ((Actor.ofOwner seller).owning "license") none, secondDay)]

/-- On the last day an administrator rejects the seller's step, which is decided and none of an
    administrator's business; but what counts first is that the sale is expired.  On the second
    day the buyer's step can still be approved. -/
theorem lapsedSale_table :
    ∃ r ∈ play Sample.service .silent Sample.lapsedSale [] .empty (),
      let late := ((Operation.reject "first" Sample.admin none).procedure
        Sample.service).runAlong .silent (fun _ => Sample.lastDay) r.2.1 ()
      let early := ((Operation.approve "second" (.ofOwner Sample.buyer) none).procedure
        Sample.service).runAlong .silent (fun _ => Sample.secondDay) r.2.1 ()
      late.answer = .error (.failed (.transferExpired "sale")) ∧ early.answer.isOk = true ∧
        DecisionTable Sample.service ⟨"first", Sample.admin, .rejected, none⟩ r.2.1
          (fun _ => Sample.lastDay) late ∧
        DecisionTable Sample.service ⟨"second", .ofOwner Sample.buyer, .approved, none⟩ r.2.1
          (fun _ => Sample.secondDay) early := by
  have hplays : ∃ r ∈ play Sample.service .silent Sample.lapsedSale [] .empty (),
      let late := ((Operation.reject "first" Sample.admin none).procedure
        Sample.service).runAlong .silent (fun _ => Sample.lastDay) r.2.1 ()
      let early := ((Operation.approve "second" (.ofOwner Sample.buyer) none).procedure
        Sample.service).runAlong .silent (fun _ => Sample.secondDay) r.2.1 ()
      late.answer = .error (.failed (.transferExpired "sale")) ∧ early.answer.isOk = true := by
    decide +kernel
  obtain ⟨r, hplay, hlate, hearly⟩ := hplays
  have run := (Run.start ()).play hplay
  have hlast : Sample.lastDay.Keepable := by decide
  have hsecond : Sample.secondDay.Keepable := by decide
  exact ⟨r, hplay, hlate, hearly, decision_table run rfl (fun _ => hlast) .silent (),
    decision_table run rfl (fun _ => hsecond) .silent ()⟩

end SignOff
