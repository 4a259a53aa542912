/-
  SignOff/Proofs/AppendOnly.lean
  ==============================
  **The tables are only added to.**  Whatever calls are made, with whatever arguments and
  whether they succeed or fail, every row stays at its place and says what it said.  A step
  that waits has nothing in the columns of the decision, and gets all of it at once; a
  transfer gets the time of its completion; either happens once, and there is nothing else
  that a row can go through.  New rows come behind the old ones (`history_append_only`).

  A call that succeeds changes no more than it says (`Turn.Framed`): a decision one row of a
  step, a completion one column of a transfer, a read nothing.

  The step lemma is `Store.Clean.run`, about one statement.  That a waiting row has no part
  of a decision is an invariant of its own, for the statement that decides asks only whether
  the row waits.
-/
import SignOff.Proofs.Workflow.Checking

namespace SignOff

open Audit

/-! ### Rows -/

/-- The row waits for its decision, and has no part of one. -/
structure StepRow.Undecided (row : StepRow) : Prop where
  outcome : row.outcome = Outcome.pending.name
  resolvedByType : row.resolvedByType = none
  resolvedById : row.resolvedById = none
  resolvedAt : row.resolvedAt = none
  notes : row.notes = none

/-- What may become of a row of a step: it stays as it is, or it is decided as a whole. -/
def StepRow.Later (row new : StepRow) : Prop :=
  new = row ∨ row.Undecided ∧ ∃ outcome resolver notes time,
    outcome.isTerminal = true ∧ new = Store.decided outcome resolver notes time row

/-- The row with the time of its completion. -/
def TransferRow.completed (time : Instant) (row : TransferRow) : TransferRow :=
  { row with completedAt := some time.columnText }

/-- What may become of a row of a transfer: it stays as it is, or it is completed. -/
def TransferRow.Later (row new : TransferRow) : Prop :=
  new = row ∨ row.completedAt = none ∧ ∃ time, new = row.completed time

/-- Every entry of the list is at its place, or there is what it may have become. -/
def Extends {α : Type} (later : α → α → Prop) (l m : List α) : Prop :=
  ∀ (i : Nat) (a : α), l[i]? = some a → ∃ b, m[i]? = some b ∧ later a b

/-- Both tables have been added to, and nothing else. -/
structure Store.Grows (s s' : Store) : Prop where
  transfers : Extends TransferRow.Later s.transfers s'.transfers
  steps : Extends StepRow.Later s.steps s'.steps

/-- No row that waits for its decision has a part of one. -/
def Store.Clean (s : Store) : Prop :=
  ∀ row ∈ s.steps, row.outcome = Outcome.pending.name → row.Undecided

/-- The store with this row in the place of the one with its identifier. -/
def Store.replaceTransfer (s : Store) (row : TransferRow) : Store :=
  { s with transfers := s.transfers.map fun other => if other.id = row.id then row else other }

/-- The call changed no more than it says. -/
structure Turn.Framed (turn : Turn) : Prop where
  decides : ∀ r y, turn.op.ruling? = some r → turn.answer = .ok y →
    ∃ row ∈ turn.before.steps, row.id = r.stepId ∧ row.Undecided ∧ r.outcome.isTerminal = true ∧
      turn.after = turn.before.replaceStep (row.ruled r (turn.readings 0))
  completes : ∀ id y, turn.op = .complete id → turn.answer = .ok y →
    ∃ row ∈ turn.before.transfers, row.id = id ∧ row.completedAt = none ∧
      turn.after = turn.before.replaceTransfer (row.completed (turn.readings 1))
  reads : turn.op.changes = false → turn.after = turn.before

variable {svc : Service} {σ σ' : Type} {trail : Trail σ} {trail' : Trail σ'}
  {turns turns' : List Turn} {s s' : Store} {w : σ} {w' : σ'} {op : Operation} {r : Ruling}
  {readings : Nat → Instant}

/-! ### Growing -/

namespace StepRow

variable {row new newer : StepRow}

theorem Later.refl (row : StepRow) : row.Later row := .inl rfl

theorem Later.eq_of_decided (h : row.Later new) (hrow : row.outcome ≠ Outcome.pending.name) :
    new = row := by
  rcases h with rfl | ⟨hundecided, -⟩
  · rfl
  · exact absurd hundecided.outcome hrow

theorem decided_ne_pending {outcome : Outcome} (hterm : outcome.isTerminal = true)
    (resolver : Owner) (notes : Option String) (time : Instant) (row : StepRow) :
    (Store.decided outcome resolver notes time row).outcome ≠ Outcome.pending.name := by
  intro hpending
  rw [Outcome.name_inj.mp hpending] at hterm
  cases hterm

/-- **A row is decided once.** -/
theorem Later.trans (h : row.Later new) (h' : new.Later newer) : row.Later newer := by
  rcases h with rfl | ⟨hundecided, outcome, resolver, notes, time, hterm, rfl⟩
  · exact h'
  · rw [h'.eq_of_decided (decided_ne_pending hterm resolver notes time row)]
    exact .inr ⟨hundecided, outcome, resolver, notes, time, hterm, rfl⟩

end StepRow

namespace TransferRow

variable {row new newer : TransferRow}

theorem Later.refl (row : TransferRow) : row.Later row := .inl rfl

/-- **A row is completed once.** -/
theorem Later.trans (h : row.Later new) (h' : new.Later newer) : row.Later newer := by
  rcases h with rfl | ⟨hopen, time, rfl⟩
  · exact h'
  · rcases h' with rfl | ⟨hopen', -⟩
    · exact .inr ⟨hopen, time, rfl⟩
    · cases hopen'

end TransferRow

namespace Extends

variable {α : Type} {later : α → α → Prop} {l m n : List α}

theorem refl (hrefl : ∀ a, later a a) (l : List α) : Extends later l l :=
  fun _ a ha => ⟨a, ha, hrefl a⟩

theorem trans (htrans : ∀ {a b c}, later a b → later b c → later a c) (h : Extends later l m)
    (h' : Extends later m n) : Extends later l n := by
  intro i a ha
  obtain ⟨b, hb, hab⟩ := h i a ha
  obtain ⟨c, hc, hbc⟩ := h' i b hb
  exact ⟨c, hc, htrans hab hbc⟩

theorem append (hrefl : ∀ a, later a a) (l m : List α) : Extends later l (l ++ m) := by
  intro i a ha
  obtain ⟨hi, -⟩ := List.getElem?_eq_some_iff.mp ha
  exact ⟨a, by rw [List.getElem?_append_left hi, ha], hrefl a⟩

theorem map {f : α → α} (hf : ∀ a ∈ l, later a (f a)) : Extends later l (l.map f) := by
  intro i a ha
  exact ⟨f a, by rw [List.getElem?_map, ha, Option.map_some], hf a (List.mem_of_getElem? ha)⟩

end Extends

namespace Store

theorem Grows.refl (s : Store) : s.Grows s :=
  ⟨.refl TransferRow.Later.refl _, .refl StepRow.Later.refl _⟩

theorem Grows.trans {s'' : Store} (h : s.Grows s') (h' : s'.Grows s'') : s.Grows s'' :=
  ⟨h.transfers.trans TransferRow.Later.trans h'.transfers,
    h.steps.trans StepRow.Later.trans h'.steps⟩

/-! ### Statements -/

/-- A fresh step comes behind all others, and nothing is decided in it. -/
theorem Clean.insertStep {x : Step} (h : s.Clean) (hpending : (StepRow.ofStep x).Undecided)
    (hs : s.insertStep x = .ok s') : s'.Clean ∧ s.Grows s' := by
  obtain ⟨-, rfl⟩ := eq_of_insertStep hs
  constructor
  · intro row hrow hwaits
    rcases List.mem_append.mp hrow with hrow | hrow
    · exact h row hrow hwaits
    · rw [List.mem_singleton.mp hrow]
      exact hpending
  · exact ⟨.refl TransferRow.Later.refl _, .append StepRow.Later.refl _ _⟩

theorem Clean.insertSteps {clock : Instant → Prop} {timeouts : Timeouts} {xs : List Step}
    (h : s.Clean) (hxs : Statement.Dated clock timeouts (.insertSteps xs))
    (hs : s.insertSteps xs = .ok s') : s'.Clean ∧ s.Grows s' := by
  apply insertSteps_kept (P := fun s' => s'.Clean ∧ s.Grows s') ?_ ⟨h, .refl s⟩ hs
  rintro k k' x hx ⟨hclean, hgrows⟩ hk
  obtain ⟨-, hfresh⟩ := hxs x hx
  have hpending : (StepRow.ofStep x).Undecided := by
    rw [hfresh]
    exact ⟨rfl, rfl, rfl, rfl, rfl⟩
  obtain ⟨hclean', hgrows'⟩ := hclean.insertStep hpending hk
  exact ⟨hclean', hgrows.trans hgrows'⟩

theorem Clean.resolve {id : String} {outcome : Outcome} {resolver : Owner} {notes : Option String}
    {time : Instant} {won : Bool} (h : s.Clean)
    (hs : s.resolve id outcome resolver notes time = .ok (won, s')) : s'.Clean ∧ s.Grows s' := by
  rw [Store.resolve] at hs
  split at hs
  · next hterm =>
    cases hs
    constructor
    · intro row hrow hpending
      obtain ⟨old, hold, rfl⟩ := List.mem_map.mp hrow
      split at hpending
      · exact absurd hpending (StepRow.decided_ne_pending hterm resolver notes time old)
      · next hopen =>
        rw [if_neg hopen]
        exact h old hold hpending
    · refine ⟨.refl TransferRow.Later.refl _, .map fun row hrow => ?_⟩
      split
      · next hopen =>
        simp only [isOpenStep, Bool.and_eq_true, decide_eq_true_eq] at hopen
        exact .inr ⟨h row hrow hopen.2, outcome, resolver, notes, time, hterm, rfl⟩
      · exact .refl row
  · cases hs

theorem grows_complete (s : Store) (id : String) (time : Instant) :
    s.Grows (s.complete id time).2 := by
  refine ⟨.map fun row _ => ?_, .refl StepRow.Later.refl _⟩
  split
  · next hopen =>
    simp only [isOpenTransfer, Bool.and_eq_true, Option.isNone_iff_eq_none] at hopen
    exact .inr ⟨hopen.2, time, rfl⟩
  · exact .refl row

/-- **No statement takes anything back**, nor leaves half a decision. -/
theorem Clean.run {clock : Instant → Prop} {timeouts : Timeouts} {q : Statement} (h : s.Clean)
    (hq : q.Dated clock timeouts) {r : q.Reply × Store} (hr : q.run s = .ok r) :
    r.2.Clean ∧ s.Grows r.2 := by
  cases q with
  | insertTransfer t =>
    obtain ⟨s', hs, rfl⟩ := exists_of_map_eq_ok hr
    obtain ⟨-, rfl⟩ := eq_of_insertTransfer hs
    exact ⟨h, .append TransferRow.Later.refl _ _, .refl StepRow.Later.refl _⟩
  | insertSteps xs =>
    obtain ⟨s', hs, rfl⟩ := exists_of_map_eq_ok hr
    exact h.insertSteps hq hs
  | resolve id outcome resolver notes time => exact h.resolve hr
  | complete id time =>
    cases hr
    exact ⟨h, s.grows_complete id time⟩
  | _ =>
    rw [Statement.store_of_run hr rfl]
    exact ⟨h, .refl s⟩

end Store

/-- What holds of statements holds of whole calls. -/
theorem Operation.clean_grows (op : Operation) (trail : Trail σ) (readings : Nat → Instant)
    (h : s.Clean) (w : σ) :
    ((op.procedure svc).runAlong trail readings s w).store.Clean ∧
      s.Grows ((op.procedure svc).runAlong trail readings s w).store := by
  apply op.store_kept (fun _ => True) (P := fun s' => s'.Clean ∧ s.Grows s')
  · intro q s' r hq _ hs hr
    obtain ⟨hclean, hgrows⟩ := hs.1.run hq hr
    exact ⟨hclean, hs.2.trans hgrows⟩
  · intro k
    trivial
  · exact ⟨h, .refl s⟩

/-! ### Single calls -/

theorem Store.Keyed.complete_eq_replaceTransfer (h : s.Keyed) {row : TransferRow} {id : String}
    (hrow : row ∈ s.transfers) (hopen : Store.isOpenTransfer id row = true) (time : Instant) :
    (s.complete id time).2 = s.replaceTransfer (row.completed time) := by
  have hid : ∀ {other : TransferRow}, Store.isOpenTransfer id other = true → other.id = id := by
    intro other hother
    simp only [isOpenTransfer, Bool.and_eq_true, decide_eq_true_eq] at hother
    exact hother.1
  have hnamed : ∀ other, Store.isOpenTransfer id other = true → other.id = row.id :=
    fun other hother => (hid hother).trans (hid hopen).symm
  have hone : ∀ other ∈ s.transfers, other.id = row.id → other = row :=
    fun other hother => h.transfer_ext hother hrow
  have hreplace := map_eq_replace (g := TransferRow.completed time) hone hopen hnamed
  exact congrArg (fun transfers => Store.mk transfers s.steps) hreplace

/-- A decision that succeeds is in the row of its step, and changes no other. -/
theorem Operation.decides_framed (hop : op.ruling? = some r) (hkeyed : s.Keyed) (hclean : s.Clean)
    (hkeep : (readings 0).Keepable) {y : Answer}
    (hy : ((op.procedure svc).runAlong trail readings s w).answer = .ok y) :
    ∃ row ∈ s.steps, row.id = r.stepId ∧ row.Undecided ∧ r.outcome.isTerminal = true ∧
      ((op.procedure svc).runAlong trail readings s w).store =
        s.replaceStep (row.ruled r (readings 0)) := by
  have hrun := Operation.checked svc hop hkeyed readings hkeep trail w
  cases hcheck : r.check svc (readings 0) s with
  | error why =>
    rw [hcheck] at hrun
    rw [hrun.1] at hy
    cases hy
  | ok found =>
    obtain ⟨x, t⟩ := found
    rw [hcheck] at hrun
    obtain ⟨steps, state, -, -, -, hstore⟩ := hrun
    have hclears := Ruling.check_eq_ok_iff.mp hcheck
    obtain ⟨row, hrow, hid, hstep⟩ := Store.exists_of_findStep hclears.step
    have hpending : row.outcome = Outcome.pending.name := by
      rw [← hclears.pending]
      exact (Outcome.name_of_ofName? (StepRow.step_eq_ok_iff.mp hstep).outcome).symm
    refine ⟨row, hrow, hid, hclean row hrow hpending, hclears.terminal, ?_⟩
    rw [hstore, hkeyed.settle_eq_replaceStep hrow hid hstep hclears.pending]

theorem Service.store_of_complete {id : String} {t : Transfer}
    (ht : ((complete id).runAlong trail readings s w).answer = .ok t) :
    s.transfers.any (Store.isOpenTransfer id) = true ∧
      ((complete id).runAlong trail readings s w).store = (s.complete id (readings 1)).2 := by
  rw [complete, status, bind_assoc, Procedure.runAlong_now, Procedure.runAlong_statusAt] at ht ⊢
  cases hx : s.status id (readings 0) with
  | error why =>
    rw [hx] at ht
    cases ht
  | ok x =>
    rw [hx] at ht
    dsimp only at ht ⊢
    by_cases happroved : x.state = .approved
    · rw [if_pos happroved, Procedure.runAlong_now, Procedure.runAlong_query,
        Statement.run] at ht ⊢
      dsimp only [Store.complete] at ht ⊢
      cases hopen : s.transfers.any (Store.isOpenTransfer id) with
      | false =>
        -- someone was faster
        rw [hopen] at ht
        cases ht
      | true =>
        -- what follows only reads
        simp only [hopen, if_true] at ht ⊢
        rw [Procedure.runAlong_report, ← bind_pure (require id), Procedure.runAlong_require]
        refine ⟨trivial, ?_⟩
        split <;> rfl
    · rw [if_neg happroved] at ht
      cases ht

/-- **A call that succeeds changes no more than it says.** -/
theorem Operation.framed (op : Operation) (hkeyed : s.Keyed) (hclean : s.Clean)
    (hkeep : (readings 0).Keepable) {e : Procedure.Ending Answer σ}
    (he : (op.procedure svc).runAlong trail readings s w = e) :
    Turn.Framed ⟨op, readings, s, e.answer, e.store⟩ := by
  subst he
  constructor
  · intro r y hop hy
    exact decides_framed hop hkeyed hclean hkeep hy
  · intro id y hop hy
    dsimp only at hop hy ⊢
    subst hop
    rw [procedure, Procedure.runAlong_map] at hy ⊢
    obtain ⟨t, ht, -⟩ := exists_of_map_eq_ok hy
    obtain ⟨hany, hstore⟩ := Service.store_of_complete ht
    obtain ⟨row, hrow, hopen⟩ := List.any_eq_true.mp hany
    have hthis := hopen
    simp only [Store.isOpenTransfer, Bool.and_eq_true, decide_eq_true_eq,
      Option.isNone_iff_eq_none] at hthis
    refine ⟨row, hrow, hthis.1, hthis.2, ?_⟩
    rw [hstore, hkeyed.complete_eq_replaceTransfer hrow hopen]
  · intro hop
    exact op.store_of_reads hop trail readings s w

/-! ### Sessions -/

theorem Session.store_eq (h : Session svc trail turns s w) :
    s = (turns.getLast?.map Turn.after).getD .empty := by
  cases h with
  | start w => rfl
  | call session op readings keepable ending => simp

theorem Session.clean (h : Session svc trail turns s w) : s.Clean := by
  induction h with
  | start w =>
    intro row hrow
    cases hrow
  | call session op readings keepable ending ih =>
    rw [← ending]
    exact (op.clean_grows trail readings ih _).1

theorem Session.framed (h : Session svc trail turns s w) : ∀ turn ∈ turns, turn.Framed := by
  induction h with
  | start w =>
    intro turn hturn
    cases hturn
  | call session op readings keepable ending ih =>
    intro turn hturn
    rcases List.mem_append.mp hturn with hturn | hturn
    · exact ih turn hturn
    · rw [List.mem_singleton.mp hturn]
      exact op.framed session.reaches.keyed session.clean (keepable 0) ending

/-- **History is append-only.**  Of any session that continues another one, the store is that of
    the other one with rows added behind, with decisions in rows that had none, and with times
    of completion in rows that had none.  Each of its calls that succeeded changed no more than
    it says. -/
theorem history_append_only (whole : Session svc trail turns s w)
    (before : Session svc trail' turns' s' w') (hearlier : turns' <+: turns) :
    s'.Grows s ∧ ∀ turn ∈ turns, turn.Framed := by
  refine ⟨?_, whole.framed⟩
  induction whole with
  | start w =>
    rw [List.prefix_nil.mp hearlier] at before
    rw [before.store_eq]
    exact .refl _
  | @call turns s w e session op readings keepable ending ih =>
    rcases List.prefix_concat_iff.mp hearlier with hsame | hshorter
    · -- the whole session
      rw [before.store_eq, hsame]
      simp [Store.Grows.refl]
    · -- all later calls but the last one, and that one
      rw [← ending]
      exact (ih hshorter).trans (op.clean_grows trail readings session.clean w).2

/-- A gift that waits for its receiver. -/
def Sample.openGift : List (Operation × Instant) :=
  [(.initiate "gift" gift none, firstDay),
   (.createStep "step" recordedGift .target none, firstDay)]

/-- The giver is turned away, the receiver signs off, and the gift is completed; then a sale is
    begun. -/
def Sample.giftAndMore : List (Operation × Instant) :=
  [(.approve "step" (.ofOwner seller) none, secondDay),
   (.approve "step" (.ofOwner buyer) (some "thanks"), secondDay),
   (.complete "gift", secondDay),
   (.initiate "sale" sale none, firstDay),
   (.plan stepIds recordedSale, firstDay)]

theorem openGift_append_only :
    ∃ r ∈ play Sample.service .silent Sample.openGift [] .empty (),
      ∃ r' ∈ play Sample.service .silent Sample.giftAndMore r.1 r.2.1 r.2.2,
        ((r.2.1.steps.map fun row => row.outcome) = ["pending"] ∧
          (r'.2.1.steps.map fun row => row.outcome) =
            ["approved", "pending", "pending", "pending"] ∧
          (r'.2.1.transfers.map fun row => row.completedAt.isSome) = [true, false]) ∧
        r.2.1.Grows r'.2.1 ∧ ∀ turn ∈ r'.1, turn.Framed := by
  have hplays : ∃ r ∈ play Sample.service .silent Sample.openGift [] .empty (),
      ∃ r' ∈ play Sample.service .silent Sample.giftAndMore r.1 r.2.1 r.2.2,
        (r.2.1.steps.map fun row => row.outcome) = ["pending"] ∧
          (r'.2.1.steps.map fun row => row.outcome) =
            ["approved", "pending", "pending", "pending"] ∧
          (r'.2.1.transfers.map fun row => row.completedAt.isSome) = [true, false] := by
    decide +kernel
  obtain ⟨r, hplay, r', hplay', hrows⟩ := hplays
  have before : Run Sample.service .silent r.1 r.2.1 r.2.2 := (Run.start ()).play hplay
  have whole : Run Sample.service .silent r'.1 r'.2.1 r'.2.2 := before.play hplay'
  exact ⟨r, hplay, r', hplay', hrows,
    history_append_only whole.session before.session (prefix_play hplay')⟩

end SignOff
