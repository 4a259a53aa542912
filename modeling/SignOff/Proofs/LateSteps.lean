/-
  SignOff/Proofs/LateSteps.lean
  =============================
  **Late steps.**  Nothing ever sweeps the store for steps that have run out of time: such a
  step is left as it is, and it is the state of its whole transfer that keeps decisions
  away from it.  So it matters what the transfer's other steps are like.  While none of them
  is rejected, a late step stays pending for good (`late_step_stays_pending`); but a
  rejection outranks the clock, and on a rejected transfer a late step is decided like any
  other (`vetoedSale_decided_late`).
-/
import SignOff.Proofs.Authorization
import SignOff.Proofs.Finality

namespace SignOff

/-- The step has run out of time, and no step of its transfer is rejected. -/
structure Ledger.Stale (l : Ledger) (x : Step) (now : Instant) : Prop where
  mem : x ∈ l.steps
  late : x.Late now
  unvetoed : ∀ y ∈ l.steps, y.transferId = x.transferId → y.outcome ≠ .rejected

variable {svc : Service} {turns : List Turn} {turn : Turn} {l m : Ledger} {x y : Step}
  {t : Transfer} {now time : Instant} {r : Ruling}

/-! ### One turn -/

/-- With such a step the transfer is neither decided nor in time. -/
theorem Ledger.Stale.expired_of_state (h : l.Stale x now) (hl : l.Coherent svc.timeouts)
    (ht : t ∈ l.transfers) (hid : t.id = x.transferId) (hle : now ≤ time) {s : State}
    (hs : l.state t time = .ok s) : s = .expired := by
  obtain ⟨u, hu, hserves⟩ := hl.serves x h.mem
  have hsame : u = t := hl.transfer_ext hu ht (hserves.transferId.trans hid.symm)
  have hneeds : t.needs x.type = true := hsame ▸ hserves.needed
  -- neither a rejection nor the approval of all keeps the clock from mattering
  have hr : ¬l.Rejected t := by
    rintro ⟨y, hy, hyid, -, hout⟩
    exact h.unvetoed y hy (hyid.trans hid) hout
  have ha : ¬l.Approved t := by
    intro ha
    obtain ⟨y, hy, hyid, htype, hout⟩ := ha x.type hneeds
    have hyx : y = x := hl.step_ext_type hy h.mem (hyid.trans hid) htype
    simp [hyx, h.late.1] at hout
  by_contra hne
  have hpresent : x ∈ t.present (l.stepsOf t.id) := by
    rw [hl.mem_present]
    exact ⟨h.mem, hid.symm, hneeds⟩
  have hnot := Transfer.not_late_of_state (hl.rejectedBy_iff.not.mpr hr)
    (hl.approvedBy_iff.not.mpr ha) hs hne x hpresent
  exact hnot (h.late.mono hle)

theorem Ledger.Stale.not_passed (h : l.Stale x now) (hl : l.Coherent svc.timeouts)
    (hle : now ≤ time) (hy : y.transferId = x.transferId) : ¬r.Passed Eq svc y time l := by
  intro hpassed
  obtain ⟨k, rfl, t, ht, htid, s, hs, hne⟩ := hpassed.inTime
  exact hne (h.expired_of_state hl ht (htid.trans hy) hle hs)

/-- A later turn leaves a stale step stale. -/
theorem Turn.Takes.stale (h : turn.Takes svc l m) (hl : l.Coherent svc.timeouts)
    (hx : l.Stale x now) (hclock : ∀ k, now ≤ turn.readings k) : m.Stale x now := by
  have hspares : l.Spares x.transferId m := by
    apply h.spares hl
    intro r y k _ hpassed hy
    exact hx.not_passed hl (hclock k) hy hpassed
  constructor
  · exact hspares.old x hx.mem rfl
  · exact hx.late
  · intro y hy hid
    rcases hspares.new y hy hid with hy | hpending
    · exact hx.unvetoed y hy hid
    · simp [hpending]

theorem Turn.Takes.stale_refused (h : turn.Takes svc l m) (hl : l.Coherent svc.timeouts)
    (hx : l.Stale x now) (hclock : ∀ k, now ≤ turn.readings k)
    (hop : turn.op.ruling? = some r) (hid : r.stepId = x.id) : ∃ why, turn.answer = .error why := by
  rcases h.ruled hl hop with ⟨-, hwhy⟩ | ⟨y, time, s, hpassed, -, ⟨k, rfl⟩, -⟩
  · exact hwhy
  · have hyx : y = x := hl.step_ext hpassed.step hx.mem (hpassed.id.trans hid)
    exact absurd hpassed (hx.not_passed hl (hclock k) (by rw [hyx]))

/-! ### All runs -/

/-- The row waits for its decision and shows no part of one. -/
structure StepRow.Waits (row : StepRow) : Prop where
  outcome : row.outcome = Outcome.pending.name
  resolver : row.resolvedByType = none ∧ row.resolvedById = none
  resolvedAt : row.resolvedAt = none

theorem StepRow.waits_ofStep (hx : x.Tidy) (hpending : x.outcome = .pending) :
    (StepRow.ofStep x).Waits := by
  obtain ⟨hby, hat, -⟩ := hx.pending hpending
  constructor
  · simp [StepRow.ofStep, hpending]
  · simp [StepRow.ofStep, hby]
  · simp [StepRow.ofStep, hat]

/-- A row that reads to a late step, among rows none of which rejects the transfer. -/
structure Store.Stale (s : Store) (row : StepRow) (x : Step) (now : Instant) : Prop where
  mem : row ∈ s.steps
  step : row.step = .ok x
  late : x.Late now
  unvetoed : ∀ other ∈ s.steps, other.transferId = row.transferId →
    other.outcome ≠ Outcome.rejected.name

theorem Store.Stale.ledger {row : StepRow} (h : l.store.Stale row x now) (hl : l.Legible) :
    row = .ofStep x ∧ l.Stale x now := by
  obtain ⟨y, hy, rfl⟩ := List.mem_map.mp h.mem
  have hyx : y = x := Except.ok.inj ((hl.step_ofStep hy).symm.trans h.step)
  subst hyx
  refine ⟨rfl, hy, h.late, ?_⟩
  intro z hz hid hout
  exact h.unvetoed (.ofStep z) (List.mem_map_of_mem hz) hid (by simp [StepRow.ofStep, hout])

/-- After the turn `i` the step stays as it is. -/
structure StaysPending (turns : List Turn) (i : Nat) (row : StepRow) (x : Step) : Prop where
  refused : ∀ (j : Nat) (b : Turn), i < j → turns[j]? = some b →
    ∀ r, b.op.ruling? = some r → r.stepId = x.id → ∃ why, b.answer = .error why
  stored : ∀ (j : Nat) (b : Turn), i < j → turns[j]? = some b →
    row ∈ b.after.steps ∧ b.after.findStep x.id = .ok (some x)
  waits : row.Waits

/-- **A late step stays pending**, unless another step of its transfer has been rejected. -/
theorem late_step_stays_pending {σ : Type} {trail : Audit.Trail σ} {s : Store} {w : σ}
    (run : Run svc trail turns s w) {i : Nat} {a : Turn} (hi : turns[i]? = some a)
    {row : StepRow} (hstale : a.after.Stale row x now) (hclock : ClockPast turns i now) :
    StaysPending turns i row x := by
  obtain ⟨l, rfl, h⟩ := run.history
  have ha (n m : Ledger) (hn : n.Coherent svc.timeouts) (htakes : a.Takes svc n m) :
      row = .ofStep x ∧ m.Stale x now :=
    Store.Stale.ledger (htakes.after ▸ hstale) (htakes.evolves.coherent hn).legible
  have hlater (j : Nat) (b : Turn) (hij : i < j) (hj : turns[j]? = some b) :
      ∃ n m : Ledger, n.Coherent svc.timeouts ∧ n.Stale x now ∧ b.Takes svc n m := by
    apply h.since_turn hi hj hij
    · intro n m hn htakes
      exact (ha n m hn htakes).2
    · intro k c n m hik hk hn htakes hx
      exact htakes.stale hn hx (hclock k c hik hk)
  obtain ⟨b, n, hb, htakes, -⟩ := h.turn_of_getElem? hi
  obtain ⟨rfl, hx⟩ := ha b n hb.coherent htakes
  constructor
  · intro j b hij hj r hop hid
    obtain ⟨n, m, hn, hx, hb⟩ := hlater j b hij hj
    exact hb.stale_refused hn hx (hclock j b hij hj) hop hid
  · intro j b hij hj
    obtain ⟨n, m, hn, hx, hb⟩ := hlater j b hij hj
    have hm := hb.evolves.coherent hn
    have hxm := (hb.stale hn hx (hclock j b hij hj)).mem
    rw [hb.after]
    refine ⟨List.mem_map_of_mem hxm, ?_⟩
    rw [Ledger.findStep_store hm.legible, hm.step?_eq_some hxm]
  · have hn := htakes.evolves.coherent hb.coherent
    exact StepRow.waits_ofStep (hn.tidy x hx.mem) hx.late.1

/-- The step of the forgotten sale that is refused on the last day. -/
theorem forgottenSale_stays_pending :
    ∃ r ∈ play Sample.service .silent Sample.forgottenSale [] .empty (),
      ∃ a row x, r.1[7]? = some a ∧ x.id = "second" ∧ a.after.Stale row x Sample.lastDay ∧
        ClockPast r.1 7 Sample.lastDay ∧ StaysPending r.1 7 row x := by
  have hplays : ∃ r ∈ play Sample.service .silent Sample.forgottenSale [] .empty (),
      ∃ a ∈ r.1[7]?, a.readings 0 = Sample.lastDay ∧ ∃ row ∈ a.after.steps,
        ∃ x ∈ row.step.toOption, x.id = "second" ∧ x.isTimedOut Sample.lastDay = .ok true ∧
          ∀ other ∈ a.after.steps, other.transferId = row.transferId →
            other.outcome ≠ Outcome.rejected.name := by
    decide +kernel
  obtain ⟨r, hplay, a, ha, hnow, row, hrow, x, hx, hid, hlate, hopen⟩ := hplays
  have hforward : ClockForward r.1 := clockForward_play hplay (by decide +kernel)
  have hstale : a.after.Stale row x Sample.lastDay :=
    ⟨hrow, ok_of_mem_toOption hx, Step.isTimedOut_eq_true_iff.mp hlate, hopen⟩
  have hclock : ClockPast r.1 7 Sample.lastDay := hnow ▸ hforward.past ha 0
  have hpending := late_step_stays_pending ((Run.start ()).play hplay) ha hstale hclock
  exact ⟨r, hplay, a, row, x, ha, hid, hstale, hclock, hpending⟩

/-- A sale that its seller has vetoed in time, and that its buyer approves too late. -/
def Sample.vetoedInTime : List (Operation × Instant) :=
  [(.initiate "sale" sale none, firstDay),
   (.plan stepIds recordedSale, firstDay),
   (.reject "first" ((Actor.ofOwner seller).owning "license") none, secondDay),
   (.state "sale", lastDay),
   (.approve "second" (.ofOwner buyer) none, lastDay)]

/-- On a rejected transfer a late step is decided after all. -/
theorem vetoedSale_decided_late :
    ∃ turns s, Run Sample.service .silent turns s () ∧ ClockForward turns ∧
      ∃ a b row x, turns[3]? = some a ∧ turns[4]? = some b ∧
        row ∈ a.after.steps ∧ row.step = .ok x ∧ x.Late (a.readings 0) ∧ b.Decided x.id ∧
        (b.after.steps.map fun row => (row.id, row.outcome)) =
          [("first", "rejected"), (x.id, "approved"), ("third", "pending")] := by
  have hplays : ∃ r ∈ play Sample.service .silent Sample.vetoedInTime [] .empty (),
      ∃ a ∈ r.1[3]?, ∃ b ∈ r.1[4]?,
        (∃ row ∈ a.after.steps, ∃ x ∈ row.step.toOption,
          x.id = "second" ∧ x.isTimedOut (a.readings 0) = .ok true) ∧
        b.Decided "second" ∧
        (b.after.steps.map fun row => (row.id, row.outcome)) =
          [("first", "rejected"), ("second", "approved"), ("third", "pending")] := by
    decide +kernel
  obtain ⟨r, hplay, a, ha, b, hb, ⟨row, hrow, x, hx, hid, hlate⟩, hdecided, hrows⟩ := hplays
  refine ⟨r.1, r.2.1, (Run.start ()).play hplay, clockForward_play hplay (by decide +kernel),
    a, b, row, x, ha, hb, hrow, ok_of_mem_toOption hx, Step.isTimedOut_eq_true_iff.mp hlate, ?_⟩
  rw [hid]
  exact ⟨hdecided, hrows⟩

end SignOff
