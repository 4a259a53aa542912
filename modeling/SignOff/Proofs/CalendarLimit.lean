/-
  SignOff/Proofs/CalendarLimit.lean
  =================================
  **Windows that end beyond the calendar.**  A configuration is accepted with any number of
  hours that fits its field, which is more than the calendar has left.  Nothing notices
  until the expiry of a stored step is worked out, and then every call that looks at the
  transfer breaks off (`hugeWindow_overflows`).

  Exactly the services whose windows are no longer than `Instant.longestWindow` are safe from
  this, whatever calls are made with whatever arguments (`neverOverflows_iff`).
-/
import SignOff.Program
import SignOff.Proofs.Time.Calendar
import SignOff.Proofs.Workflow.Session

namespace SignOff

/-- The call broke off because an expiry lies beyond the calendar. -/
def Turn.Overflowed (turn : Turn) : Prop := ∃ why, turn.answer = .error (.overflow why)

/-- No call of any session breaks off because an expiry lies beyond the calendar. -/
def Service.NeverOverflows (svc : Service) : Prop :=
  ∀ {σ : Type} (trail : Audit.Trail σ) (turns : List Turn) (s : Store) (w : σ),
    Session svc trail turns s w → ∀ turn ∈ turns, ¬turn.Overflowed

/-- No window is too long to end in the calendar. -/
def Timeouts.Short (timeouts : Timeouts) : Prop :=
  ∀ type, (timeouts.hours type).toNat ≤ Instant.longestWindow

/-! ### Rows whose windows end in the calendar -/

/-- The columns from which the expiry is worked out can be read, and the calendar has it. -/
def StepRow.Timed (row : StepRow) : Prop :=
  ∃ (created : Instant) (n : UInt32), created.Keepable ∧
    (created.plusHours? n.toNat).isSome = true ∧
    row.createdAt = created.columnText ∧ row.timeoutHours = n.toNat

theorem StepRow.Timed.expiresAt {row : StepRow} (h : row.Timed) {x : Step} (hx : row.step = .ok x) :
    ∃ e, x.expiresAt = .ok e := by
  obtain ⟨created, n, hkeep, hfits, hcreated, hn⟩ := h
  have hcolumn : instantColumn "created_at" row.createdAt = .ok created := by
    rw [hcreated]
    exact instantColumn_of_keepable hkeep _
  have hhours : hours row.timeoutHours = .ok n := by rw [hn, hours_toNat]
  have hholds := step_eq_ok_iff.mp hx
  have hsame : x.createdAt = created := Except.ok.inj (hholds.createdAt.symm.trans hcolumn)
  have hsame' : x.timeoutHours = n := Except.ok.inj (hholds.hours.symm.trans hhours)
  obtain ⟨e, he⟩ := Option.isSome_iff_exists.mp hfits
  exact ⟨e, by rw [Step.expiresAt, hsame, hsame', he]⟩

/-! ### Stores -/

/-- Every window in the store ends in the calendar. -/
def Store.Timed (s : Store) : Prop := ∀ row ∈ s.steps, row.Timed

namespace Store

variable {s s' : Store} {timeouts : Timeouts}

theorem Timed.expiries (h : s.Timed) {id : String} {xs : List Step} (hxs : s.stepsOf id = .ok xs) :
    ∀ x ∈ xs, ∃ e, x.expiresAt = .ok e := by
  intro x hx
  obtain ⟨row, hrow, hstep, -⟩ := exists_of_mem_stepsOf hxs hx
  exact (h row hrow).expiresAt hstep

theorem Timed.insertStep {x : Step} (h : s.Timed) (hshort : timeouts.Short)
    (hkeep : x.createdAt.Keepable) (hhours : x.timeoutHours = timeouts.hours x.type)
    (hs : s.insertStep x = .ok s') : s'.Timed := by
  obtain ⟨-, rfl⟩ := eq_of_insertStep hs
  intro row hrow
  rcases List.mem_append.mp hrow with hrow | hrow
  · exact h row hrow
  · rw [List.mem_singleton.mp hrow]
    refine ⟨x.createdAt, x.timeoutHours, hkeep, ?_, rfl, rfl⟩
    apply hkeep.plusHours?_isSome
    rw [hhours]
    exact hshort x.type

theorem Timed.insertSteps {xs : List Step} (h : s.Timed) (hshort : timeouts.Short)
    (hxs : Statement.Dated Instant.Keepable timeouts (.insertSteps xs))
    (hs : s.insertSteps xs = .ok s') : s'.Timed := by
  apply insertSteps_kept ?_ h hs
  intro s s' x hx h hk
  obtain ⟨hkeep, hfresh⟩ := hxs x hx
  have hhours : x.timeoutHours = timeouts.hours x.type := congrArg Step.timeoutHours hfresh
  exact h.insertStep hshort hkeep hhours hk

theorem Timed.resolve (h : s.Timed) {id : String} {outcome : Outcome} {resolver : Owner}
    {notes : Option String} {time : Instant} {won : Bool}
    (hs : s.resolve id outcome resolver notes time = .ok (won, s')) : s'.Timed := by
  rw [Store.resolve] at hs
  split at hs
  · cases hs
    intro row hrow
    obtain ⟨old, hold, rfl⟩ := List.mem_map.mp hrow
    obtain ⟨created, n, htimed⟩ := h old hold
    split
    · exact ⟨created, n, htimed⟩
    · exact ⟨created, n, htimed⟩
  · cases hs

end Store

/-! ### Operations -/

/-- The answer shows no step without an expiry. -/
def Statement.Expiring : (q : Statement) → q.Reply → Prop
  | .stepsOf _, xs => ∀ x ∈ xs, ∃ e, x.expiresAt = .ok e
  | _, _ => True

/-- On a store whose windows end in the calendar, every statement that an operation asks keeps
    it so and shows it. -/
theorem Store.Timed.run {s : Store} {timeouts : Timeouts} (h : s.Timed) (hshort : timeouts.Short)
    {q : Statement} (hq : q.Dated Instant.Keepable timeouts) {r : q.Reply × Store}
    (hr : q.run s = .ok r) : q.Expiring r.1 ∧ r.2.Timed := by
  have hread (hw : q.writes = false) : r.2.Timed := by
    rw [Statement.store_of_run hr hw]
    exact h
  cases q with
  | stepsOf id =>
    refine ⟨?_, hread rfl⟩
    obtain ⟨xs, hxs, rfl⟩ := exists_of_map_eq_ok hr
    exact h.expiries hxs
  | insertTransfer t =>
    refine ⟨trivial, ?_⟩
    rw [Statement.run, Store.insertTransfer] at hr
    split at hr
    · cases hr
    · cases hr
      exact h
  | insertSteps xs =>
    refine ⟨trivial, ?_⟩
    obtain ⟨s', hs, rfl⟩ := exists_of_map_eq_ok hr
    exact h.insertSteps hshort hq hs
  | resolve id outcome resolver notes time => exact ⟨trivial, h.resolve hr⟩
  | complete id time =>
    cases hr
    exact ⟨trivial, h⟩
  | _ => exact ⟨trivial, hread rfl⟩

/-- Nothing overflows, as long as every answer shows expiries only. -/
def Discipline.inCalendar (timeouts : Timeouts) : Discipline :=
  ⟨Instant.Keepable, Statement.Dated Instant.Keepable timeouts, Statement.Expiring,
    fun why => ∀ o, why ≠ .overflow o⟩

theorem Discipline.reading_inCalendar (timeouts : Timeouts) : (inCalendar timeouts).Reading := by
  constructor
  · intro q hq
    exact Statement.dated_of_reads hq _ _
  · intro why o
    simp
  · intro id xs hxs t time why hstate
    -- the steps that count are among those that the answer shows, so the state can be had
    have hfits : ∀ x ∈ t.present xs, x.outcome = .pending → ∃ e, x.expiresAt = .ok e := by
      intro x hx _
      obtain ⟨k, -, hfor⟩ := Transfer.mem_present.mp hx
      exact hxs x (List.mem_of_find?_eq_some hfor)
    obtain ⟨s, hs⟩ : ∃ s, t.state xs time = .ok s := Transfer.state_of_fits hfits
    rw [hs] at hstate
    cases hstate

/-- **With short windows no session overflows.** -/
theorem Session.timed {svc : Service} {σ : Type} {trail : Audit.Trail σ} {turns : List Turn}
    {s : Store} {w : σ} (h : Session svc trail turns s w) (hshort : svc.timeouts.Short) :
    s.Timed ∧ ∀ turn ∈ turns, ¬turn.Overflowed := by
  induction h with
  | start w =>
    constructor
    · intro row hrow
      cases hrow
    · intro turn hturn
      cases hturn
  | @call turns s w e session op readings keepable ending ih =>
    obtain ⟨htimed, hturns⟩ := ih
    have hkeeps : (op.procedure svc).Keeps (.inCalendar svc.timeouts) fun _ => True :=
      op.keeps (Discipline.reading_inCalendar svc.timeouts) fun _ _ hq => hq
    obtain ⟨hstore, hanswer⟩ := hkeeps.runAlong Store.Timed (fun hq hs hr => hs.run hshort hq hr)
      (fun why _ o => by simp) keepable trail htimed w
    rw [ending] at hstore hanswer
    constructor
    · exact hstore
    · intro turn hturn
      rcases List.mem_append.mp hturn with hturn | hturn
      · exact hturns turn hturn
      · rw [List.mem_singleton.mp hturn]
        rintro ⟨why, hwhy⟩
        exact hanswer _ hwhy why rfl

/-! ### Long windows -/

namespace Sample

/-- A sale that needs one sign-off. -/
def lateProposal (type : ApprovalType) : Proposal :=
  ⟨"license", seller, buyer, type = .source, type = .target, type = .admin, none⟩

/-- Its transfer, recorded as late as can be. -/
def lateTransfer (type : ApprovalType) : Transfer :=
  .ofProposal "transfer" (lateProposal type) none Instant.lastKeepable

def lateStep (svc : Service) (type : ApprovalType) : Step :=
  .fresh "step" "transfer" type ((lateTransfer type).approver type) (svc.timeouts.hours type)
    Instant.lastKeepable

def lateLedger (svc : Service) (type : ApprovalType) : Ledger :=
  ⟨[lateTransfer type], [lateStep svc type]⟩

end Sample

section Long

open Sample

variable {svc : Service} {type : ApprovalType}

theorem lateTransfer_recorded (svc : Service) (type : ApprovalType) :
    ((Operation.initiate "transfer" (lateProposal type) none).procedure svc).runAlong .silent
      (fun _ => Instant.lastKeepable) .empty () =
        ⟨.ok (.transfer (lateTransfer type)), (Ledger.mk [lateTransfer type] []).store, ()⟩ := by
  rfl

theorem lateStep_created (hlong : Instant.longestWindow < (svc.timeouts.hours type).toNat) :
    ((Operation.createStep "step" (lateTransfer type) type none).procedure svc).runAlong .silent
      (fun _ => Instant.lastKeepable) (Ledger.mk [lateTransfer type] []).store () =
        ⟨.ok (.step (lateStep svc type)), (lateLedger svc type).store, ()⟩ := by
  have hhours : (lateStep svc type).timeoutHours ≠ 0 := by
    intro hzero
    have hsome : svc.timeouts.hours type = 0 := hzero
    rw [hsome] at hlong
    exact absurd hlong (by decide)
  have hneeds : (lateTransfer type).needs type = true := by cases type <;> rfl
  have hstep : (Requirement.ofTransfer (lateTransfer type) svc.timeouts type).step "step"
      (lateTransfer type).id type Instant.lastKeepable = lateStep svc type := by
    cases type <;> rfl
  have hinsert : Store.insertSteps (Ledger.mk [lateTransfer type] []).store [lateStep svc type] =
      .ok (lateLedger svc type).store := by
    rw [Store.insertSteps, Store.insertStep, if_neg hhours]
    rfl
  rw [Operation.procedure, Service.createStep, if_pos hneeds]
  simp only [bind, Procedure.bind, pure, Procedure.now, Procedure.query, Service.report,
    Procedure.note, Procedure.runAlong, hstep, Statement.run, hinsert, Except.map]

/-- And then no one can ask for the state of its transfer. -/
theorem lateStep_overflows (hlong : Instant.longestWindow < (svc.timeouts.hours type).toNat) :
    (((Operation.status "transfer").procedure svc).runAlong Audit.Trail.silent
      (fun _ => Instant.lastKeepable) (lateLedger svc type).store
      ()).answer = .error (.overflow .pastCalendar) := by
  have hlegible : (lateLedger svc type).Legible := by
    constructor
    · intro t ht
      rw [List.mem_singleton.mp ht]
      exact ⟨⟨Instant.keepable_lastKeepable, fun c hc => nomatch hc⟩, rfl⟩
    · intro x hx
      rw [List.mem_singleton.mp hx]
      refine ⟨⟨Instant.keepable_lastKeepable, fun c hc => nomatch hc⟩, ?_⟩
      cases type <;> rfl
  have hexpiry : (lateStep svc type).expiresAt = .error .pastCalendar := by
    rw [Step.expiresAt]
    simp only [lateStep, Step.fresh, Instant.plusHours?_lastKeepable hlong]
  have hstate : (lateTransfer type).state [lateStep svc type] Instant.lastKeepable =
      .error .pastCalendar := by
    have hrelevant : (lateTransfer type).relevant [lateStep svc type] =
        [some (lateStep svc type)] := by
      cases type <;> rfl
    have hpending : (lateStep svc type).outcome = .pending := rfl
    rw [Transfer.state, hrelevant]
    simp [anyTimedOut, Step.isTimedOut, hpending, hexpiry, Except.map, bind, Except.bind]
  have hfind : (lateLedger svc type).transfer? "transfer" =
      some (lateTransfer type) := by
    rfl
  have hsteps : (lateLedger svc type).stepsOf (lateTransfer type).id =
      [lateStep svc type] := by
    rfl
  simp only [Operation.procedure, Service.status, Service.statusAt, Service.require,
    Service.statusOf, Service.derive, bind, pure, Procedure.bind, Procedure.query,
    Procedure.now, Procedure.runAlong, Procedure.ofOption, Procedure.ofExcept,
    Statement.run_store hlegible, Statement.on, Except.map, hfind, hsteps, hstate]

/-- A window that is too long makes some run overflow, even one that is handed only transfers
    that it was shown. -/
theorem overflows_of_long (hlong : Instant.longestWindow < (svc.timeouts.hours type).toNat) :
    ∃ turns s, Run svc Audit.Trail.silent turns s () ∧ ∃ turn ∈ turns, turn.Overflowed := by
  have hkeep (_ : Nat) : Instant.lastKeepable.Keepable := Instant.keepable_lastKeepable
  have hrecorded := (Run.start ()).call (.initiate "transfer" (lateProposal type) none) _ hkeep
    (fun t ht => nomatch ht) (lateTransfer_recorded svc type)
  have hcreated := hrecorded.call (.createStep "step" (lateTransfer type) type none) _ hkeep
    (fun t ht => ?_) (lateStep_created hlong)
  · obtain ⟨e, he⟩ : ∃ e, ((Operation.status "transfer").procedure svc).runAlong .silent
        (fun _ => Instant.lastKeepable) (lateLedger svc type).store () = e := ⟨_, rfl⟩
    have hread := hcreated.call (.status "transfer") _ hkeep (fun t ht => nomatch ht) he
    have hanswer : e.answer = .error (.overflow .pastCalendar) := he ▸ lateStep_overflows hlong
    exact ⟨_, _, hread, _, List.mem_append_right _ List.mem_cons_self, _, hanswer⟩
  · cases ht
    exact ⟨_, List.mem_cons_self, _, rfl, List.mem_cons_self⟩

end Long

/-! ### All services -/

/-- **The services that never overflow are those with short windows.** -/
theorem neverOverflows_iff (svc : Service) : svc.NeverOverflows ↔ svc.timeouts.Short := by
  constructor
  · intro h type
    by_contra hlong
    obtain ⟨turns, s, run, turn, hturn, hoverflowed⟩ := overflows_of_long (Nat.lt_of_not_le hlong)
    exact h .silent turns s () run.session turn hturn hoverflowed
  · intro hshort σ trail turns s w session
    exact (session.timed hshort).2

/-- An owner that is given as many hours as the field can hold. -/
def Sample.hugeWindow : Config := { Config.standard with timeouts := ⟨4294967295, 72, 120⟩ }

/-- Such a configuration is accepted, and the first look at a planned transfer breaks off. -/
theorem hugeWindow_overflows :
    Config.ofText "[timeouts]\nsource_hours = 4294967295\n" = .ok Sample.hugeWindow ∧
      ∃ turns s, Run (.ofConfig Sample.hugeWindow) .silent turns s () ∧
        ∃ turn, turns[2]? = some turn ∧ turn.answer = .error (.overflow .pastCalendar) := by
  have hplays : ∃ r ∈ play (.ofConfig Sample.hugeWindow) .silent
      [(.initiate "sale" Sample.sale none, Sample.firstDay),
       (.plan Sample.stepIds Sample.recordedSale, Sample.firstDay),
       (.status "sale", Sample.firstDay)] [] .empty (),
      ∃ turn ∈ r.1[2]?, turn.answer = .error (.overflow .pastCalendar) := by
    decide +kernel
  obtain ⟨r, hplay, turn, hturn, hanswer⟩ := hplays
  exact ⟨by rfl, r.1, r.2.1, (Run.start ()).play hplay, turn, hturn, hanswer⟩

end SignOff