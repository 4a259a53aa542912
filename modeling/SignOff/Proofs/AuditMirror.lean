/-
  SignOff/Proofs/AuditMirror.lean
  ===============================
  **The trail mirrors the store.**  Entries are written by hand, after the statements that they
  report and in places of their own.  Still, a call reports exactly the changes that it has
  made (`Operation.Account.reports`), and every change is made once; so a trail that loses
  nothing has one entry for each change that the store shows and none for any other, and the
  entry of a decision says what the row of its step says (`audit_mirrors_store`).  A decision
  that is turned down adds why, also when it has lost a race; a call that fails otherwise adds
  nothing, and no more does one that only reads.
-/
import SignOff.Proofs.SingleWinner
import SignOff.Proofs.Completion
import SignOff.Proofs.Workflow.Noting

namespace SignOff

open Audit

namespace Audit

/-- The entries that report the change. -/
def reports (entries : List Entry) (ch : Change) : List Entry :=
  entries.filter fun e => e.change? = some ch

/-- The entry says what the row of its step says, and this state. -/
structure Entry.Tells (e : Entry) (row : StepRow) (state : State) : Prop where
  event : row.outcome = Outcome.approved.name ∧ e.event = .stepApproved ∨
    row.outcome = Outcome.rejected.name ∧ e.event = .stepRejected
  transferId : e.transferId = some row.transferId
  stepId : e.stepId = some row.id
  type : e.type.map ApprovalType.name = some row.type
  actorKind : (e.actor.map fun o => o.kind.name) = row.resolvedByType
  actorId : (e.actor.map fun o => o.id) = row.resolvedById
  notes : e.notes = row.notes
  state : e.state = some state

/-- The entries mirror the store; `Derived` says which state a decision was answered with. -/
structure Mirrors (entries : List Entry) (s : Store) (Derived : StepRow → State → Prop) : Prop where
  initiated : ∀ row ∈ s.transfers, ∃ e, reports entries (.recorded row.id) = [e]
  decided : ∀ row ∈ s.steps, row.outcome ≠ Outcome.pending.name → ∃ e state,
    reports entries (.decided row.id) = [e] ∧ e.Tells row state ∧ Derived row state
  pending : ∀ row ∈ s.steps, row.outcome = Outcome.pending.name →
    reports entries (.decided row.id) = []
  completed : ∀ row ∈ s.transfers, row.completedAt ≠ none →
    ∃ e, reports entries (.completed row.id) = [e]
  uncompleted : ∀ row ∈ s.transfers, row.completedAt = none →
    reports entries (.completed row.id) = []
  /-- nothing is reported that the store does not show -/
  only : ∀ ch, ¬s.Shows ch → reports entries ch = []

/-- What a call with this answer adds to the trail, if it fails or only reads. -/
structure Adds (op : Operation) (a : Except Halt Answer) (s : Store) (es : List Entry) : Prop where
  /-- a decision that is turned down adds one entry, which says why -/
  refused : ∀ r why, op.ruling? = some r → a = .error (.failed why) → why.kind.isRefusal = true →
    ∃ row ∈ s.steps, ∃ x time, row.step = .ok x ∧ x.id = r.stepId ∧
      es = [Service.refusal x r.actor why time]
  /-- any other failure adds nothing -/
  failed : ∀ why, a = .error (.failed why) → why.kind ≠ .db →
    op.ruling? = none ∨ why.kind.isRefusal = false → es = []
  reads : op.changes = false → es = []

end Audit

/-- What the call hands to the trail. -/
def Turn.entries (svc : Service) (turn : Turn) : List Entry :=
  ((turn.op.procedure svc).runAlong .recorder turn.readings turn.before []).trail

/-- The state of the transfer right after the decision in the row, with which the call that made
    it was answered. -/
def StepRow.DerivedIn (turns : List Turn) (row : StepRow) (state : State) : Prop :=
  ∃ turn ∈ turns, ∃ r d, turn.op.ruling? = some r ∧ r.stepId = row.id ∧
    turn.answer = .ok (.decision d) ∧ d.state = state ∧
    turn.after.stateOf row.transferId (turn.readings 1) = .ok state

/-- The state that the call was answered which made the decision in the row. -/
def StepRow.AnsweredIn (S : System) (row : StepRow) (state : State) : Prop :=
  ∃ c ∈ S.clients, ∃ r d, c.op.ruling? = some r ∧ r.stepId = row.id ∧
    c.answer? = some (.ok (.decision d)) ∧ d.state = state

variable {svc : Service} {S : System} {l : Ledger} {turns : List Turn} {turn : Turn} {s s' : Store}
  {w : List Entry} {op : Operation} {a : Except Halt Answer} {ds : List Deed} {r : Ruling}
  {why : Error} {e : Entry}

/-! ### Calls that fail or only read -/

/-- The step that a refused decision has found is one of the store. -/
def Store.Has (s : Store) (x : Step) : Prop :=
  ∃ row ∈ s.steps, ∃ y, row.step = .ok y ∧ y.id = x.id ∧ y.transferId = x.transferId ∧
    y.type = x.type

/-- What a call adds, if the store has the step that it has found, and if a completion that
    fails has made no change. -/
theorem Operation.Account.adds (h : op.Account svc a ds)
    (hseen : ∀ {r x t before after}, ds = before ++ after → Deed.AllCalm before →
      Ruling.Found r x t before → s.Has x)
    (hfailed : ∀ id why, op = .complete id → a = .error (.failed why) → why.kind ≠ .db →
      Deed.changes ds = []) : Adds op a s (Deed.notes ds) := by
  constructor
  · rintro r why hop rfl hkind
    obtain ⟨b, hb, hends⟩ := h.decision hop
    have hnoted := hends.noted
    generalize Deed.notes ds = es at hnoted ⊢
    cases hnoted with
    | nothing kind =>
      cases hb
      rw [kind why rfl] at hkind
      cases hkind
    | @refused x t why' time before after deeds calm found =>
      cases hb
      obtain ⟨row, hrow, y, hstep, hid, htransfer, htype⟩ := hseen deeds calm found
      obtain ⟨s₀, -, hfind⟩ := found.step
      refine ⟨row, hrow, y, time, hstep, hid.trans (Store.id_of_findStep hfind), ?_⟩
      simp only [Service.refusal, hid, htransfer, htype]
    | shown id => cases hb
  · rintro why rfl hdb hkind
    cases h.task with
    | needless ends idle =>
      rw [idle]
      rfl
    | inserts ends told changes noted =>
      cases told with
      | failed fails =>
        rw [Deed.notes_append, (Deed.allCalm_reads _).notes]
        rfl
      | inserted runs => cases ends
    | decides ruling ends told =>
      have hrefuses : why.kind.isRefusal = false := by
        rcases hkind with hnone | hkind
        · rw [ruling] at hnone
          cases hnone
        · exact hkind
      cases told with
      | broken unnoted broke => exact unnoted
      | unknown unnoted kind => exact unnoted
      | unchecked calm => exact calm.notes
      | refused found calm kind =>
        cases ends
        rw [hrefuses] at kind
        cases kind
      | late found calm lost =>
        cases ends
        cases hrefuses
      | unshown found calm won reread state => cases ends
      | shown found calm won reread state again => cases ends
    | completes completion ends told =>
      have hreports := told.reports
      cases told with
      | broken calm broke => exact calm.notes
      | unstamped calm kind => exact calm.notes
      | late calm closed =>
        rw [Deed.notes_append, calm.notes]
        rfl
      | stamped calm stamped lookedUp =>
        -- what it has noted would be a change
        rw [hfailed _ why completion rfl hdb, Deed.notes_append, calm.notes] at hreports
        cases hreports
    | glances told => exact told.calm.notes
  · intro hop
    cases op with
    | initiate id p initiator => cases hop
    | plan ids t => cases hop
    | createStep id t type actor => cases hop
    | approve stepId actor notes => cases hop
    | reject stepId actor notes => cases hop
    | complete id => cases hop
    | _ =>
      have hcalm : Glances a ds := h
      exact hcalm.calm.notes

/-! ### The mirror -/

/-- The row of a decided step says what the call that decided it has noted. -/
theorem Ruling.notice_tells {row : StepRow} {time : Instant} {y : Step} {state : State}
    {last : Instant} (hterm : r.outcome.isTerminal = true) (hcarries : row.Carries r time)
    (hstep : row.step = .ok y) : (r.notice y state last).Tells row state := by
  have hholds := StepRow.step_eq_ok_iff.mp hstep
  constructor
  · rw [hcarries.outcome, notice]
    cases houtcome : r.outcome with
    | pending =>
      rw [houtcome] at hterm
      cases hterm
    | approved => exact .inl ⟨rfl, rfl⟩
    | rejected => exact .inr ⟨rfl, rfl⟩
  · exact congrArg some hholds.transferId
  · exact congrArg some hholds.id
  · exact congrArg some (ApprovalType.name_of_ofName? hholds.type)
  · exact hcarries.resolvedByType.symm
  · exact hcarries.resolvedById.symm
  · exact hcarries.notes.symm
  · rfl

section Lists

variable {α β : Type} [DecidableEq β] {f : α → Option β} {l : List α} {b : β}

theorem filter_of_mem_filterMap (h : (l.filterMap f).Nodup) (hb : b ∈ l.filterMap f) :
    ∃ a, l.filter (fun a => f a = some b) = [a] := by
  obtain ⟨a, ha, hab⟩ := List.mem_filterMap.mp hb
  obtain ⟨before, after, rfl⟩ := List.append_of_mem ha
  -- any other such element would make two of `b`
  rw [List.filterMap_append, List.filterMap_cons_some hab, List.nodup_middle,
    List.nodup_cons, List.mem_append, not_or] at h
  have hnone {l : List α} (hb : b ∉ l.filterMap f) : l.filter (fun a => f a = some b) = [] := by
    rw [List.filter_eq_nil_iff]
    intro a ha hab
    exact hb (List.mem_filterMap.mpr ⟨a, ha, by simpa using hab⟩)
  refine ⟨a, ?_⟩
  rw [List.filter_append, List.filter_cons_of_pos (by simp [hab]), hnone h.1.1, hnone h.1.2,
    List.nil_append]

theorem filter_of_notMem_filterMap (hb : b ∉ l.filterMap f) :
    l.filter (fun a => f a = some b) = [] := by
  rw [List.filter_eq_nil_iff]
  intro a ha hab
  exact hb (List.mem_filterMap.mpr ⟨a, ha, by simpa using hab⟩)

end Lists

theorem Audit.Mirrors.of_gains {entries : List Entry} {Derived : StepRow → State → Prop}
    (hgains : Store.empty.Gains (entries.filterMap Entry.change?) s) (hkeyed : s.Keyed)
    (htold : ∀ e ∈ entries, ∀ id, e.change? = some (.decided id) →
      ∃ row ∈ s.steps, row.id = id ∧ ∃ state, e.Tells row state ∧ Derived row state) :
    Mirrors entries s Derived := by
  have hone (ch : Change) (hch : s.Shows ch) : ∃ e, reports entries ch = [e] :=
    filter_of_mem_filterMap hgains.nodup ((hgains.shows_iff ch).mp hch)
  have hnone (ch : Change) (hch : ¬s.Shows ch) : reports entries ch = [] :=
    filter_of_notMem_filterMap fun hmem => hch ((hgains.shows_iff ch).mpr hmem)
  constructor
  · exact fun row hrow => hone _ ⟨row, hrow, rfl⟩
  · intro row hrow hdecided
    obtain ⟨e, he⟩ := hone (.decided row.id) ⟨row, hrow, rfl, hdecided⟩
    have hmem : e ∈ reports entries (.decided row.id) := by
      rw [he]
      exact List.mem_cons_self
    obtain ⟨hmem, hid⟩ := List.mem_filter.mp hmem
    obtain ⟨other, hother, hotherid, state, htells, hderived⟩ :=
      htold e hmem row.id (by simpa using hid)
    obtain rfl := hkeyed.step_ext hother hrow hotherid
    exact ⟨e, state, he, htells, hderived⟩
  · intro row hrow hpending
    apply hnone
    rintro ⟨other, hother, hotherid, hdecided⟩
    rw [hkeyed.step_ext hother hrow hotherid] at hdecided
    exact hdecided hpending
  · exact fun row hrow hdone => hone _ ⟨row, hrow, rfl, hdone⟩
  · intro row hrow hopen
    apply hnone
    rintro ⟨other, hother, hotherid, hdone⟩
    rw [hkeyed.transfer_ext hother hrow hotherid] at hdone
    exact hdone hopen
  · exact hnone

/-! ### Calls one after the other -/

/-- The turn is its call, carried out alone. -/
structure Turn.Stands (svc : Service) (turn : Turn) : Prop where
  keyed : turn.before.Keyed
  keepable : ∀ k, (turn.readings k).Keepable
  ending : (turn.op.procedure svc).runAlong .recorder turn.readings turn.before [] =
    ⟨turn.answer, turn.after, turn.entries svc⟩

/-- A transfer that has a row is found, unless the row is unreadable. -/
theorem Store.findTransfer_of_row {row : TransferRow} (hrow : row ∈ s.transfers) :
    (∃ t, s.findTransfer row.id = .ok (some t)) ∨
      ∃ why, s.findTransfer row.id = .error why ∧ why.kind = .db := by
  rw [findTransfer]
  cases hfind : s.transfers.find? fun other => decide (other.id = row.id) with
  | none =>
    have hother := List.find?_eq_none.mp hfind row hrow
    simp at hother
  | some other =>
    dsimp only
    cases other.transfer with
    | ok t => exact .inl ⟨t, rfl⟩
    | error fault => exact .inr ⟨.row fault, rfl, rfl⟩

/-- A completion that is carried out alone finds the transfer that it has stamped; if it fails
    otherwise, it has changed nothing. -/
theorem CompletionAccount.changes_of_error {id : String} {b : Except Halt Transfer}
    {may : Statement → Prop} (h : CompletionAccount id b ds)
    (hwhy : .error (.failed why) = b.map Answer.transfer) (hdb : why.kind ≠ .db)
    (hchain : Deed.Chain may ds s s') : Deed.changes ds = [] := by
  rw [← h.reports]
  cases h with
  | broken calm broke => rw [calm.notes, List.filterMap_nil]
  | unstamped calm kind => rw [calm.notes, List.filterMap_nil]
  | late calm closed =>
    rw [Deed.notes_append, calm.notes]
    rfl
  | @stamped b time last k k' s₁ ds calm stamped lookedUp =>
    obtain ⟨s₀, -, hlast⟩ := hchain.split
    have hsame : s₁ = k' := by
      cases hlast with
      | failed run rest => cases run
      | asked allowed run rest =>
        rw [Statement.run, stamped] at run
        cases run
        cases rest with
        | read rest =>
          cases rest with
          | noted rest => cases rest <;> rfl
    have hopen : k.transfers.any (Store.isOpenTransfer id) = true := congrArg Prod.fst stamped
    obtain ⟨row, hrow, hthis⟩ := List.any_eq_true.mp hopen
    have hthere : (k.complete id time).2.Shows (.recorded id) :=
      Store.shows_complete.mpr (.inl ⟨row, hrow, (Store.isOpenTransfer_iff.mp hthis).1⟩)
    rw [stamped] at hthere
    obtain ⟨row', hrow', rfl⟩ := hthere
    subst lookedUp hsame
    rcases Store.findTransfer_of_row hrow' with ⟨t, ht⟩ | ⟨why', hwhy', hkind⟩
    · rw [ht] at hwhy
      cases hwhy
    · rw [hwhy'] at hwhy
      cases hwhy
      exact absurd hkind hdb

namespace Turn.Stands

/-- A decision that stands alone ends with the first check that fails, or writes. -/
theorem checked (h : turn.Stands svc) (hop : turn.op.ruling? = some r) :
    match r.check svc (turn.readings 0) turn.before with
    | .error why => turn.answer = .error why ∧ turn.after = turn.before
    | .ok (x, t) => ∃ steps state,
        (turn.before.settle r (turn.readings 0)).stepsOf t.id = .ok steps ∧
        t.state steps (turn.readings 1) = .ok state ∧
        turn.answer = .ok (.decision ⟨r.settles (turn.readings 0) x, state⟩) ∧
        turn.after = turn.before.settle r (turn.readings 0) := by
  have hchecked := Operation.checked svc hop h.keyed turn.readings (h.keepable 0) .recorder []
  rw [h.ending] at hchecked
  exact hchecked

/-- A decision that fails leaves the store as it was. -/
theorem unchanged (h : turn.Stands svc) (hop : turn.op.ruling? = some r) {why : Halt}
    (hwhy : turn.answer = .error why) : turn.after = turn.before := by
  have hchecked := h.checked hop
  cases hcheck : r.check svc (turn.readings 0) turn.before with
  | error why' =>
    rw [hcheck] at hchecked
    exact hchecked.2
  | ok found =>
    rw [hcheck] at hchecked
    obtain ⟨steps, state, -, -, hanswer, -⟩ := hchecked
    rw [hwhy] at hanswer
    cases hanswer

theorem changes_of_error (h : turn.Stands svc) (hop : turn.op.ruling? = some r) {why : Halt}
    (hwhy : turn.answer = .error why)
    (hchain : Deed.Chain (Statement.Dated (fun _ => True) svc.timeouts) ds turn.before turn.after) :
    Deed.changes ds = [] := by
  have hgains := (hchain.gains h.keyed).2
  rw [h.unchanged hop hwhy] at hgains
  exact hgains.eq_nil

/-- How the turn ends, what it has done and what it has noted. -/
theorem account (h : turn.Stands svc) :
    ∃ ds, turn.op.Account svc turn.answer ds ∧ turn.entries svc = Deed.notes ds ∧
      Deed.Chain (Statement.Dated (fun _ => True) svc.timeouts) ds turn.before turn.after := by
  obtain ⟨ds, haccount, hchain, -, htrail⟩ :=
    turn.op.alone svc (fun _ => True) .recorder (fun _ => trivial) turn.before []
  rw [h.ending] at haccount hchain htrail
  rw [Trail.take_recorder, List.nil_append] at htrail
  exact ⟨ds, haccount, htrail, hchain⟩

theorem gains (h : turn.Stands svc) :
    turn.before.Gains ((turn.entries svc).filterMap Entry.change?) turn.after := by
  obtain ⟨ds, haccount, hentries, hchain⟩ := h.account
  rw [hentries, haccount.reports fun r why hop hwhy => h.changes_of_error hop hwhy hchain]
  exact (hchain.gains h.keyed).2

theorem adds (h : turn.Stands svc) :
    Adds turn.op turn.answer turn.before (turn.entries svc) := by
  obtain ⟨ds, haccount, hentries, hchain⟩ := h.account
  rw [hentries]
  refine haccount.adds ?_ ?_
  · rintro r x t before after rfl hcalm hfound
    obtain ⟨s, hfirst, -⟩ := hchain.split
    obtain ⟨s₀, hmem, hfind⟩ := hfound.step
    rw [(hfirst.calm hcalm).2 _ _ hmem] at hfind
    obtain ⟨row, hrow, -, hstep⟩ := Store.exists_of_findStep hfind
    exact ⟨row, hrow, x, hstep, rfl, rfl, rfl⟩
  · intro id why hop hwhy hdb
    rw [hop, hwhy] at haccount
    obtain ⟨b, hb, hends⟩ := haccount
    exact hends.changes_of_error hb hdb hchain

/-- What the turn reports of a decision is in the rows that it leaves behind, and the state is
    the one that the transfer has there. -/
theorem tells (h : turn.Stands svc) (he : e ∈ turn.entries svc) {id : String}
    (hid : e.change? = some (.decided id)) :
    ∃ row ∈ turn.after.steps, row.id = id ∧ row.outcome ≠ Outcome.pending.name ∧
      ∃ state, e.Tells row state ∧ row.DerivedIn [turn] state := by
  obtain ⟨ds, haccount, hentries, -⟩ := h.account
  rw [hentries] at he
  obtain ⟨r, y, state, last, hop, rfl, hanswer, rfl⟩ := haccount.decided he hid
  have hterm := Operation.terminal_of_ruling hop
  have hchecked := h.checked hop
  cases hcheck : r.check svc (turn.readings 0) turn.before with
  | error why =>
    rw [hcheck] at hchecked
    rw [hchecked.1] at hanswer
    cases hanswer
  | ok found =>
    obtain ⟨x, t⟩ := found
    rw [hcheck] at hchecked
    obtain ⟨steps, state', hsteps, hstate, hanswer', hafter⟩ := hchecked
    rw [hanswer'] at hanswer
    cases hanswer
    have hclears := Ruling.check_eq_ok_iff.mp hcheck
    obtain ⟨row, hrow, hrowid, hstep⟩ := Store.exists_of_findStep hclears.step
    have hxid := Store.id_of_findStep hclears.step
    have hopen : Store.isOpenStep r.stepId row = true := by
      rw [StepRow.isOpenStep_eq hstep, Ledger.isOpenStep_iff]
      exact ⟨hxid, hclears.pending⟩
    have hruled := Ledger.step_decided hstep r.outcome r.actor.identity r.notes (h.keepable 0)
    have hcarries : (row.ruled r (turn.readings 0)).Carries r (turn.readings 0) :=
      ⟨hrowid, rfl, rfl, rfl, rfl, rfl⟩
    refine ⟨row.ruled r (turn.readings 0), ?_, hrowid, ?_, state, ?_, turn, List.mem_cons_self, r, _,
      hop, hrowid.symm, hanswer', rfl, ?_⟩
    · rw [hafter]
      exact List.mem_map.mpr ⟨row, hrow, if_pos hopen⟩
    · rw [hcarries.outcome, Ne, Outcome.name_inj]
      intro hpending
      rw [hpending] at hterm
      cases hterm
    · exact Ruling.notice_tells hterm hcarries hruled
    · have htid : t.id = row.transferId := by
        rw [Store.id_of_findTransfer hclears.transfer, (StepRow.step_eq_ok_iff.mp hstep).transferId]
      have hfind : turn.after.findTransfer t.id = .ok (some t) := by
        rw [hafter, Store.findTransfer_settle, Store.id_of_findTransfer hclears.transfer]
        exact hclears.transfer
      have hreread : turn.after.stepsOf t.id = .ok steps := hafter ▸ hsteps
      have hstateOf := Store.stateOf_of_found hfind (turn.readings 1)
      rw [hreread, htid] at hstateOf
      change turn.after.stateOf row.transferId (turn.readings 1) = _
      rw [hstateOf]
      simp [Except.mapError, bind, Except.bind, hstate]

end Turn.Stands

theorem Statement.mem_decided {q : Statement} {r : q.Reply × Store} (hr : q.run s = .ok r)
    {row : StepRow} (hrow : row ∈ s.steps) (hdecided : row.outcome ≠ Outcome.pending.name) :
    row ∈ r.2.steps := by
  cases q with
  | insertTransfer t =>
    obtain ⟨s', hs, rfl⟩ := exists_of_map_eq_ok hr
    obtain ⟨-, rfl⟩ := Store.eq_of_insertTransfer hs
    exact hrow
  | insertSteps xs =>
    obtain ⟨s', hs, rfl⟩ := exists_of_map_eq_ok hr
    refine Store.insertSteps_kept (P := fun k => row ∈ k.steps) ?_ hrow hs
    intro k k' x _ hk hx
    obtain ⟨-, rfl⟩ := Store.eq_of_insertStep hx
    exact List.mem_append_left _ hk
  | resolve id outcome resolver notes time =>
    rw [run, Store.resolve] at hr
    split at hr
    · cases hr
      refine List.mem_map.mpr ⟨row, hrow, if_neg ?_⟩
      rw [Store.isOpenStep_iff]
      exact fun hopen => hdecided hopen.2
    · cases hr
  | complete id time =>
    cases hr
    exact hrow
  | _ =>
    rw [store_of_run hr rfl]
    exact hrow

namespace Session

theorem stands (h : Session svc .recorder turns s w) :
    (∀ turn ∈ turns, turn.Stands svc) ∧ ∃ w₀, w = w₀ ++ turns.flatMap (Turn.entries svc) := by
  induction h with
  | start w => exact ⟨fun turn hturn => absurd hturn List.not_mem_nil, w, (List.append_nil w).symm⟩
  | @call turns s w e session op readings keepable ending ih =>
    obtain ⟨hstands, w₀, rfl⟩ := ih
    rw [Procedure.runAlong_recorder] at ending
    subst ending
    constructor
    · intro turn hturn
      rcases List.mem_append.mp hturn with hturn | hturn
      · exact hstands turn hturn
      · rw [List.mem_singleton.mp hturn]
        exact ⟨session.reaches.keyed, keepable, rfl⟩
    · refine ⟨w₀, ?_⟩
      rw [List.flatMap_append, ← List.append_assoc]
      simp [Turn.entries]

theorem gains (h : Session svc .recorder turns s w) :
    Store.empty.Gains ((turns.flatMap (Turn.entries svc)).filterMap Entry.change?) s := by
  induction h with
  | start w => exact .refl _
  | @call turns s w e session op readings keepable ending ih =>
    have hstands := (session.call op readings keepable ending).stands.1 _
      (List.mem_append_right _ List.mem_cons_self)
    have hgains := ih.trans hstands.gains
    rw [← List.filterMap_append] at hgains
    rw [List.flatMap_append, List.flatMap_singleton]
    exact hgains

theorem mem_decided (h : Session svc .recorder turns s w) (hturn : turn ∈ turns) {row : StepRow}
    (hrow : row ∈ turn.after.steps) (hdecided : row.outcome ≠ Outcome.pending.name) :
    row ∈ s.steps := by
  induction h with
  | start w => cases hturn
  | @call turns s w e session op readings keepable ending ih =>
    rcases List.mem_append.mp hturn with hturn | hturn
    · rw [← ending]
      exact op.store_kept (fun _ => True) (P := fun k => row ∈ k.steps)
        (fun _ _ hk hr => Statement.mem_decided hr hk hdecided) .recorder (fun _ => trivial)
        (ih hturn) w
    · rw [List.mem_singleton.mp hturn] at hrow
      exact hrow

theorem mirrors (h : Session svc .recorder turns s w) :
    Mirrors (turns.flatMap (Turn.entries svc)) s (StepRow.DerivedIn turns) := by
  refine .of_gains h.gains h.reaches.keyed fun e he id hid => ?_
  obtain ⟨turn, hturn, he⟩ := List.mem_flatMap.mp he
  obtain ⟨row, hrow, hrowid, hdecided, state, htells, turn', hturn', hderived⟩ :=
    (h.stands.1 turn hturn).tells he hid
  obtain rfl := List.mem_singleton.mp hturn'
  exact ⟨row, h.mem_decided hturn hrow hdecided, hrowid, state, htells, turn', hturn, hderived⟩

end Session

/-! ### Calls at the same time -/

theorem Client.Follows.changes_of_idle {c : Client} (h : c.Follows svc l)
    (hidle : ∀ d ∈ c.deeds, d.Idle) : Deed.changes c.deeds = [] := by
  apply List.filterMap_eq_nil_iff.mpr
  intro d hd
  cases d with
  | read t => rfl
  | noted e => rfl
  | asked q s =>
    obtain ⟨k, rfl, hk, hmay, -⟩ := (h.deeds _ hd).evolved
    cases hr : q.run k.store with
    | error why => exact Statement.change?_of_error hr
    | ok r =>
      have hgains := Statement.gains hk.keyed hmay.admissible.dated hr
      rw [hidle _ hd r hr] at hgains
      exact Option.toList_eq_nil_iff.mp hgains.eq_nil

namespace System.Reachable

variable {c : Client}

theorem adds (h : System.Reachable svc S) (hc : c ∈ S.clients) (ha : c.answer? = some a) :
    Adds c.op a S.store (Deed.notes c.deeds) := by
  obtain ⟨l, hl⟩ := h.follows
  have hfollows := hl.clients c hc
  refine (h.account Operation.tells hc ha).adds ?_ ?_
  · intro r x t before after hdeeds _ hfound
    obtain ⟨s, hmem, hfind⟩ := hfound.step
    obtain ⟨k, rfl, hk, -, hev⟩ :=
      (hfollows.deeds _ (hdeeds ▸ List.mem_append_left _ hmem)).evolved
    rw [Ledger.findStep_store hk.legible, Except.ok.injEq] at hfind
    obtain ⟨hx, -⟩ := Ledger.mem_of_step? hfind
    obtain ⟨y, hy, hxy⟩ := hev.grows.mem_steps hx
    have hsame := hxy.sameOrigin
    refine ⟨.ofStep y, ?_, y, hl.coherent.legible.step_ofStep hy, hsame.id, hsame.transferId,
      hsame.type⟩
    rw [hl.store]
    exact List.mem_map_of_mem hy
  · rintro id why hop rfl -
    obtain ⟨k₀, k, -, hk₀, -, -, -, hends⟩ := hfollows.ended ha
    rw [hop] at hends
    obtain ⟨b, hb, hends⟩ := hends
    refine hfollows.changes_of_idle (hends.idle (.others _) hk₀ fun t ht => ?_)
    rw [ht] at hb
    cases hb

theorem mirrors (h : System.Reachable svc S) (hended : ∀ c ∈ S.clients, ∃ a, c.answer? = some a)
    (hfit : S.store.FitsCalendar) : Mirrors S.entries S.store (StepRow.AnsweredIn S) := by
  obtain ⟨l, hl⟩ := h.follows
  have hlfit : l.FitsCalendar := by
    rw [hl.store] at hfit
    exact hfit.ledger hl.coherent.legible
  have hentries : S.entries.filterMap Entry.change? = S.changes := by
    rw [entries, changes, List.filterMap_flatMap]
    apply List.flatMap_congr
    intro c hc
    obtain ⟨a, ha⟩ := hended c hc
    refine (h.account Operation.tells hc ha).reports fun r why hop hwhy => ?_
    have hnot : ∀ d, a ≠ .ok (.decision d) := by
      rw [hwhy]
      intro d hd
      cases hd
    obtain ⟨-, -, -, hidle⟩ := (hl.clients c hc).lost hlfit hop ha hnot
    exact (hl.clients c hc).changes_of_idle hidle
  have hkeyed : S.store.Keyed := hl.store ▸ hl.coherent.keyed
  refine .of_gains (hentries ▸ h.gains) hkeyed fun e he id hid => ?_
  obtain ⟨c, hc, he⟩ := List.mem_flatMap.mp he
  obtain ⟨a, ha⟩ := hended c hc
  obtain ⟨r, y, state, last, hop, rfl, rfl, rfl⟩ :=
    (h.account Operation.tells hc ha).decided he hid
  obtain ⟨x, time, s, -, -, -, hxid, hy, hx⟩ := (hl.clients c hc).won hop ha
  have hterm := Operation.terminal_of_ruling hop
  obtain ⟨row, hrow, hcarries, hstep⟩ := hl.row_carries hx hxid hterm .refl
  obtain rfl : y = r.settles time x := hy
  exact ⟨row, hrow, hcarries.id, state, Ruling.notice_tells hterm hcarries hstep, c, hc, r, _, hop,
    hcarries.id.symm, ha, rfl⟩

end System.Reachable

/-- **The trail mirrors the store.**  Of calls made one after the other, with whatever transfers
    the callers hand over, a trail that keeps everything takes one entry for every change that
    the store shows in the end, and a decision's says what its row says; and what a call adds
    that fails or only reads goes with its answer.  It is the same for calls at the same time, as
    soon as all of them have ended. -/
theorem audit_mirrors_store (svc : Service) :
    (∀ (turns : List Turn) (s : Store) (w : List Entry), Session svc .recorder turns s w →
      (∃ w₀, w = w₀ ++ turns.flatMap (Turn.entries svc)) ∧
      Mirrors (turns.flatMap (Turn.entries svc)) s (StepRow.DerivedIn turns) ∧
      ∀ turn ∈ turns, Adds turn.op turn.answer turn.before (turn.entries svc)) ∧
    ∀ S : System, System.Reachable svc S →
      (∀ c ∈ S.clients, ∀ a, c.answer? = some a → Adds c.op a S.store (Deed.notes c.deeds)) ∧
      ((∀ c ∈ S.clients, ∃ a, c.answer? = some a) → S.store.FitsCalendar →
        Mirrors S.entries S.store (StepRow.AnsweredIn S)) := by
  constructor
  · intro turns s w h
    obtain ⟨hstands, htrail⟩ := h.stands
    exact ⟨htrail, h.mirrors, fun turn hturn => (hstands turn hturn).adds⟩
  · intro S h
    exact ⟨fun c hc a ha => h.adds hc ha, fun hended hfit => h.mirrors hended hfit⟩

/-- A gift on which the wrong owner tries to decide, and the right one twice. -/
def Sample.contestedGift : List (Operation × Instant) :=
  [(.initiate "gift" gift none, firstDay),
   (.createStep "step" recordedGift .target none, firstDay),
   (.approve "step" (.ofOwner seller) none, firstDay),
   (.complete "gift", firstDay),
   (.approve "step" (.ofOwner buyer) (some "thanks"), secondDay),
   (.reject "step" (.ofOwner buyer) none, secondDay),
   (.complete "gift", secondDay),
   (.state "other", secondDay)]

/-- What is noted of it, and of a race that one of two clients of the buyer has lost. -/
theorem contestedGift_mirrored :
    (∃ r ∈ play Sample.service .recorder Sample.contestedGift [] .empty [],
      r.2.2.map Entry.event = [.transferInitiated, .stepCreated, .decisionRefused, .stepApproved,
        .decisionRefused, .transferCompleted] ∧
      Mirrors (r.1.flatMap (Turn.entries Sample.service)) r.2.1 (StepRow.DerivedIn r.1)) ∧
    ∃ S ∈ System.replay Sample.service Sample.decisionRace ⟨.empty, []⟩,
      (S.clients[3]?.map fun c => (Deed.notes c.deeds).map Entry.reason) =
        some [some (Error.decidedMeanwhile "step").text] ∧
      Mirrors S.entries S.store (StepRow.AnsweredIn S) := by
  obtain ⟨halone, htogether⟩ := audit_mirrors_store Sample.service
  constructor
  · have hplays : ∃ r ∈ play Sample.service .recorder Sample.contestedGift [] .empty [],
        r.2.2.map Entry.event = [.transferInitiated, .stepCreated, .decisionRefused, .stepApproved,
          .decisionRefused, .transferCompleted] := by
      decide +kernel
    obtain ⟨r, hplay, hevents⟩ := hplays
    obtain ⟨-, hmirrors, -⟩ := halone _ _ _ ((Run.start []).play hplay).session
    exact ⟨r, hplay, hevents, hmirrors⟩
  · have hreplays : ∃ S ∈ System.replay Sample.service Sample.decisionRace ⟨.empty, []⟩,
        (S.clients[3]?.map fun c => (Deed.notes c.deeds).map Entry.reason) =
          some [some (Error.decidedMeanwhile "step").text] ∧
        (S.clients.all fun c => c.answer?.isSome) = true ∧ S.store.FitsCalendar := by
      decide +kernel
    obtain ⟨S, hS, hreason, hended, hfit⟩ := hreplays
    have hreach : System.Reachable Sample.service S := System.leads_iff.mpr ⟨_, hS⟩
    refine ⟨S, hS, hreason, (htogether S hreach).2 (fun c hc => ?_) hfit⟩
    exact Option.isSome_iff_exists.mp (List.all_eq_true.mp hended c hc)

end SignOff
