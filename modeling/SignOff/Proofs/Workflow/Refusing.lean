/-
  SignOff/Proofs/Workflow/Refusing.lean
  =====================================
  **Calls that are turned down.**  A decision is turned down because the transfer has expired, the
  step is decided or the actor may not decide it.  It leaves the store as it was, and notes its
  refusal and nothing else (`Call.Made.refused`); no other call notes a refusal
  (`Call.Made.noted`).

  Of all other calls only a completion can fail in one of these ways, and it does so exactly if
  the transfer is approved and has been completed before (`Store.completion_refused`).
-/
import SignOff.Proofs.Workflow.Calls

namespace SignOff

open Audit

/-- The transfer is approved at the time, and has been completed before. -/
structure Store.Completed (s : Store) (id : String) (time : Instant) : Prop where
  approved : s.stateOf id time = .ok .approved
  closed : ∀ row ∈ s.transfers, row.id = id → row.completedAt ≠ none

def Call.TurnedDown (c : Call) : Prop :=
  ∃ why, c.ending.answer = .error (.failed why) ∧
    (why.kind = .expired ∨ why.kind = .alreadyDecided ∨ why.kind = .unauthorized)

variable {svc : Service} {writable : Bool} {readings : Nat → Instant} {time later : Instant}
  {s : Store} {c : Call} {why : Error} {id : String} {e : Entry}

theorem ErrorKind.isRefusal_iff {k : ErrorKind} :
    k.isRefusal = true ↔ k = .expired ∨ k = .alreadyDecided ∨ k = .unauthorized := by
  cases k <;> simp [isRefusal]

theorem Store.stateOf_not_refusal (h : s.stateOf id time = .error (.failed why)) :
    why.kind.isRefusal = false := by
  rw [stateOf, ← Procedure.runAlong_const] at h
  obtain ⟨ds, hglances, -⟩ := (Service.stateAt_tells id time Deed.allCalm_nil).runAlong
    (Service.stateAt_keeps Discipline.reading_readOnly) (fun _ _ => trivial) (fun _ => trivial)
    .silent s ()
  exact hglances.not_refusal h

/-- A completion looks at the state first, wherever it is carried out. -/
theorem Procedure.runAlong_status {α σ : Type} (trail : Trail σ) (w : σ)
    (f : Status → Procedure α) :
    ((Service.status id >>= f).asAllowed writable).runAlong trail readings s w =
      match s.status id (readings 0) with
      | .ok x => ((f x).asAllowed writable).runAlong trail (fun k => readings (k + 1)) s w
      | .error why => ⟨.error why, s, w⟩ := by
  have hreads : (Service.status id).asAllowed writable = Service.status id := by
    cases writable with
    | true => rfl
    | false => exact (Service.status_keeps Discipline.reading_readOnly).onlyReading_eq
  rw [asAllowed_bind, hreads, Service.status, bind_assoc, runAlong_now]
  exact runAlong_statusAt trail _ s w id (readings 0) _

theorem Store.not_refusal_of_found {missing : Error} (hmissing : missing.kind.isRefusal = false)
    (h : Store.found missing (s.findTransfer id) = .error (.failed why)) :
    why.kind.isRefusal = false := by
  cases hfind : s.findTransfer id with
  | error why' =>
    rw [hfind] at h
    cases h
    have hfails : (Statement.findTransfer id).run s = .error why := by
      rw [Statement.run, hfind]
      rfl
    exact Statement.kind_of_error hfails
  | ok found =>
    rw [hfind] at h
    cases found with
    | none =>
      cases h
      exact hmissing
    | some t => cases h

theorem Store.complete_fst : (s.complete id time).1 = true ↔
    ¬∀ row ∈ s.transfers, row.id = id → row.completedAt ≠ none := by
  simp [complete, isOpenTransfer_iff]

/-- What a completion answers that is made alone: it looks at the clock for the state, and again
    for the stamp. -/
def Store.completion (s : Store) (writable : Bool) (id : String) (time later : Instant) :
    Except Halt Transfer := do
  let state ← s.stateOf id time
  if state ≠ .approved then .error (.failed (.notApproved id state))
  else if !writable then .error (.failed (.noStore .readOnly))
  else if (s.complete id later).1 then
    Store.found (.noSuchTransfer id) ((s.complete id later).2.findTransfer id)
  else .error (.failed (.completedAlready id))

theorem Service.answer_complete (s : Store) (writable : Bool) (id : String)
    (readings : Nat → Instant) :
    (((Service.complete id).asAllowed writable).runAlong .recorder readings s []).answer =
      s.completion writable id (readings 0) (readings 1) := by
  rw [complete, Procedure.runAlong_status, Store.completion, Store.stateOf_eq]
  cases s.status id (readings 0) with
  | error why => rfl
  | ok x =>
    dsimp only [Except.map]
    rw [ok_bind]
    by_cases happroved : x.state = .approved
    · cases writable with
      | false => simp only [happroved]; rfl
      | true =>
        simp only [happroved, if_true, ne_eq, not_true_eq_false, if_false, Bool.not_true,
          Bool.false_eq_true, Procedure.asAllowed, Procedure.runAlong_now]
        rw [Procedure.runAlong_query, Statement.run]
        cases s.complete id (readings 1) with
        | mk won s' =>
          cases won with
          | false => rfl
          | true =>
            simp only [if_true, Procedure.runAlong_report]
            rw [← bind_pure (require id), Procedure.runAlong_require]
            cases Store.found (.noSuchTransfer id) (s'.findTransfer id) <;> rfl
    · simp only [happroved, if_false, ne_eq, not_false_eq_true, if_true]
      cases writable <;> rfl

theorem Call.Made.completion (h : c.Made svc writable) (hop : c.op = .complete id) :
    c.ending.answer =
      (c.before.completion writable id (c.readings 0) (c.readings 1)).map .transfer := by
  have hpure (t : Transfer) : (pure (Answer.transfer t) : Procedure Answer).asAllowed writable =
      pure (.transfer t) := by
    cases writable <;> rfl
  rw [← h.ending, hop, Operation.procedure, Procedure.asAllowed_bind,
    ← Service.answer_complete c.before writable id c.readings]
  simp only [hpure, Procedure.runAlong_map]

/-- **A completion is refused if and only if it comes again**, and nothing keeps it from being
    written. -/
theorem Store.completion_refused :
    (∃ why, s.completion writable id time later = .error (.failed why) ∧
      why.kind.isRefusal = true) ↔ writable = true ∧ s.Completed id time := by
  constructor
  · rintro ⟨why, hwhy, hkind⟩
    rw [completion] at hwhy
    cases hstate : s.stateOf id time with
    | error why' =>
      rw [hstate] at hwhy
      cases hwhy
      rw [stateOf_not_refusal hstate] at hkind
      cases hkind
    | ok state =>
      rw [hstate, ok_bind] at hwhy
      split_ifs at hwhy with happroved hreads hwon
      · cases hwhy
        cases hkind
      · cases hwhy
        cases hkind
      · rw [not_refusal_of_found rfl hwhy] at hkind
        cases hkind
      · rw [not_ne_iff] at happroved
        refine ⟨by simpa using hreads, by rw [hstate, happroved], ?_⟩
        simpa [complete_fst] using hwon
  · rintro ⟨rfl, happroved, hclosed⟩
    have hwon : (s.complete id later).1 = false := by
      rw [← Bool.not_eq_true, complete_fst]
      exact not_not_intro hclosed
    refine ⟨.completedAlready id, ?_, rfl⟩
    rw [completion, happroved, ok_bind]
    simp [hwon]

theorem Call.turnedDown_iff : c.TurnedDown ↔
    ∃ why, c.ending.answer = .error (.failed why) ∧ why.kind.isRefusal = true := by
  simp only [TurnedDown, ErrorKind.isRefusal_iff]

/-- **A call is turned down only if** it is a decision, or a completion that comes again. -/
theorem Call.Made.turnedDown (h : c.Made svc writable) (hdown : c.TurnedDown) :
    (∃ r, c.op.ruling? = some r) ∨
      ∃ id, c.op = .complete id ∧ writable = true ∧ c.before.Completed id (c.readings 0) := by
  obtain ⟨why, hwhy, hkind⟩ := turnedDown_iff.mp hdown
  by_cases hcompletes : ∃ id, c.op = .complete id
  · obtain ⟨id, hop⟩ := hcompletes
    rw [h.completion hop, map_eq_error_iff] at hwhy
    exact .inr ⟨id, hop, Store.completion_refused.mp ⟨why, hwhy, hkind⟩⟩
  rcases h.cases with ⟨hstands, -⟩ | ⟨-, hbarred⟩
  · obtain ⟨ds, haccount, -⟩ := hstands.account
    change c.op.Account svc c.ending.answer ds at haccount
    rw [hwhy] at haccount
    cases haccount.task with
    | needless ends idle =>
      cases ends
      cases hkind
    | inserts ends told changes noted =>
      cases told with
      | failed fails =>
        cases ends
        rw [Statement.kind_of_error fails] at hkind
        cases hkind
      | inserted runs => cases ends
    | @decides r b ruling ends told => exact .inl ⟨r, ruling⟩
    | completes completion ends told => exact absurd ⟨_, completion⟩ hcompletes
    | glances told =>
      rw [told.not_refusal rfl] at hkind
      cases hkind
  · rw [hbarred] at hwhy
    cases hwhy
    cases hkind

theorem Call.Made.turnedDown_again (h : c.Made svc true) (hop : c.op = .complete id)
    (hdone : c.before.Completed id (c.readings 0)) : c.TurnedDown := by
  obtain ⟨why, hwhy, hkind⟩ := Store.completion_refused.mpr ⟨rfl, hdone⟩
  exact turnedDown_iff.mpr ⟨why, by rw [h.completion hop, hwhy]; rfl, hkind⟩

/-! ### What is noted -/

/-- What a call notes has the time of a reading of the clock, and a refusal is noted only by a
    decision that is turned down. -/
theorem Call.Made.noted (h : c.Made svc writable) (he : e ∈ c.ending.trail) :
    (∃ k, e.timestamp = c.readings k) ∧
      (e.event = .decisionRefused → (∃ r, c.op.ruling? = some r) ∧ c.TurnedDown) := by
  rcases h.cases with ⟨hstands, hentries⟩ | ⟨-, hbarred⟩
  · have hclock (n : Nat) : ∃ k, c.turn.readings n = c.readings k := ⟨n, rfl⟩
    obtain ⟨ds, haccount, -, hread, htrail⟩ := c.turn.op.alone svc (fun t => ∃ k, t = c.readings k)
      .recorder hclock c.turn.before []
    rw [hstands.ending] at haccount htrail
    rw [Trail.take_recorder, List.nil_append] at htrail
    replace he : e ∈ Deed.notes ds := by
      rw [← htrail]
      exact hentries ▸ he
    obtain ⟨htime, hrefused⟩ := haccount.suits he
    refine ⟨hread _ htime, fun hevent => ?_⟩
    obtain ⟨r, why, hop, hwhy, hkind⟩ := hrefused hevent
    exact ⟨⟨r, hop⟩, turnedDown_iff.mpr ⟨why, hwhy, hkind⟩⟩
  · rw [hbarred] at he
    cases he

/-- **A decision that is turned down leaves the store as it was**, and notes that and nothing
    else. -/
theorem Call.Made.refused (h : c.Made svc writable) {r : Ruling} (hop : c.op.ruling? = some r)
    (hdown : c.TurnedDown) :
    c.ending.store = c.before ∧ ∃ e, c.ending.trail = [e] ∧ e.event = .decisionRefused := by
  obtain ⟨why, hwhy, hkind⟩ := turnedDown_iff.mp hdown
  rcases h.cases with ⟨hstands, hentries⟩ | ⟨-, hbarred⟩
  · constructor
    · exact hstands.unchanged hop hwhy
    · obtain ⟨row, -, x, time, -, -, hes⟩ := hstands.adds.refused r why hop hwhy hkind
      exact ⟨_, hentries.symm.trans hes, rfl⟩
  · rw [hbarred] at hwhy
    cases hwhy
    cases hkind

end SignOff
