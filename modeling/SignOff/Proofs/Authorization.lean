/-
  SignOff/Proofs/Authorization.lean
  =================================
  **Who decided.**  In every store that a run can reach, each step that is not pending was
  decided by exactly one call, and the actor of that call was entitled to do so
  (`every_decision_entitled`).  Three things must fit together for this: the transfer against
  which the call was checked is the stored one, the update takes effect only on the pending
  step that was checked, and the approver that was planned with the step is the owner on
  its side.
-/
import SignOff.Proofs.Workflow.Run

namespace SignOff

/-- The actor was entitled to decide the step, as decided, of the transfer. -/
def Entitled (svc : Service) (x : Step) (t : Transfer) (a : Actor) : Prop :=
  match x.type with
  | .source => x.resolvedBy = some t.source ∧ x.approver = some t.source ∧
      (a.licenses = none ∨ ∃ l, a.licenses = some l ∧ l.contains t.license = true)
  | .target => x.resolvedBy = some t.target ∧ x.approver = some t.target
  | .admin => ∃ p, a.permissions = some p ∧ p.contains svc.policy.adminPermission = true

/-- The call approved or rejected the step with this identifier. -/
def Turn.Decided (turn : Turn) (stepId : String) : Prop :=
  ∃ r d, turn.op.ruling? = some r ∧ r.stepId = stepId ∧ turn.answer = .ok (.decision d)

instance (turn : Turn) (stepId : String) : Decidable (turn.Decided stepId) :=
  decidable_of_iff ((∃ r ∈ turn.op.ruling?, r.stepId = stepId) ∧
      ∃ y ∈ turn.answer.toOption, y.isDecision = true) <| by
    constructor
    · rintro ⟨⟨r, hop, hid⟩, y, hy, hdecision⟩
      obtain ⟨d, rfl⟩ := Answer.isDecision_iff.mp hdecision
      exact ⟨r, d, hop, hid, ok_of_mem_toOption hy⟩
    · rintro ⟨r, d, hop, hid, ha⟩
      exact ⟨⟨r, hop, hid⟩, .decision d, by simp [ha, Except.toOption], rfl⟩

/-- The call put the step, which was pending before, in the outcome that it has, and its actor
    was entitled to it. -/
def Turn.Settled (turn : Turn) (svc : Service) (row : StepRow) (x : Step) (t : Transfer) : Prop :=
  ∃ r d, turn.op.ruling? = some r ∧ turn.answer = .ok (.decision d) ∧
    r.stepId = x.id ∧ r.outcome = x.outcome ∧ x.resolvedBy = some r.actor.identity.asRead ∧
    Entitled svc x t r.actor ∧
    (∃ old ∈ turn.before.steps, old.id = row.id ∧ old.outcome = Outcome.pending.name) ∧
    row ∈ turn.after.steps

variable {svc : Service} {l m : Ledger} {x : Step} {t u : Transfer} {r : Ruling} {time : Instant}
  {turn : Turn} {turns : List Turn}

theorem Entitled.later {a : Actor} (h : Entitled svc x t a) (htu : t.Later u) :
    Entitled svc x u a := by
  rcases htu with rfl | ⟨-, time, rfl⟩
  · exact h
  · exact h

theorem Ruling.Passed.entitled {R : Ledger → Ledger → Prop} (h : r.Passed R svc x time l)
    (hl : l.Coherent svc.timeouts) :
    ∃ t ∈ l.transfers, t.id = x.transferId ∧ Entitled svc (r.settles time x) t r.actor := by
  obtain ⟨t, ht, hid, hallowed⟩ := h.allowed
  obtain ⟨u, hu, hserves⟩ := hl.serves x h.step
  have hsame : u = t := hl.transfer_ext hu ht (hserves.transferId.trans hid.symm)
  have happrover := hserves.approver
  rw [hsame] at happrover
  have hread := (hl.legible.transfers t ht).2
  have hsource : t.source.asRead = t.source := congrArg Transfer.source hread
  have htarget : t.target.asRead = t.target := congrArg Transfer.target hread
  refine ⟨t, ht, hid, ?_⟩
  rw [Policy.allows, Bool.and_eq_true] at hallowed
  obtain ⟨-, hallowed⟩ := hallowed
  unfold Entitled
  cases htype : x.type with
  | source =>
    simp only [htype, Bool.and_eq_true, decide_eq_true_eq] at hallowed
    simp only [Step.settled, htype]
    refine ⟨by rw [hallowed.1, hsource], by rw [happrover, htype]; rfl, ?_⟩
    cases hlicenses : r.actor.licenses with
    | none => exact .inl rfl
    | some owned =>
      have howns := hallowed.2
      rw [Actor.owns?, hlicenses] at howns
      exact .inr ⟨owned, rfl, howns⟩
  | target =>
    simp only [htype, decide_eq_true_eq] at hallowed
    simp only [Step.settled, htype]
    exact ⟨by rw [hallowed, htarget], by rw [happrover, htype]; rfl⟩
  | admin =>
    simp only [htype] at hallowed
    simp only [Step.settled, htype]
    cases hpermissions : r.actor.permissions with
    | none =>
      rw [Actor.holds?, hpermissions] at hallowed
      cases hallowed
    | some held =>
      rw [Actor.holds?, hpermissions] at hallowed
      exact ⟨held, rfl, hallowed⟩

/-! ### One turn -/

/-- What a turn makes of the step at a place: nothing, or the ruling that passed all checks. -/
theorem Turn.Takes.step_at (h : turn.Takes svc l m) (hl : l.Coherent svc.timeouts) {i : Nat}
    (hx : l.steps[i]? = some x) :
    m.steps[i]? = some x ∨ ∃ r time d, turn.op.ruling? = some r ∧ r.Passed Eq svc x time l ∧
      m = r.settle time l ∧ turn.answer = .ok (.decision d) ∧
      m.steps[i]? = some (r.settles time x) := by
  cases hop : turn.op.ruling? with
  | none =>
    obtain ⟨xs, hxs, -⟩ := h.appends hop
    refine .inl ?_
    obtain ⟨hi, -⟩ := List.getElem?_eq_some_iff.mp hx
    rw [hxs, List.getElem?_append_left hi, hx]
  | some r =>
    rcases h.ruled hl hop with ⟨rfl, -⟩ | ⟨y, time, s, hpassed, rfl, -, hanswer⟩
    · exact .inl hx
    · simp only [Ledger.settle, List.getElem?_map, hx, Option.map_some]
      by_cases hopen : Ledger.isOpenStep r.stepId x = true
      · -- the step that the update found open is the one that was checked
        have hid := (Ledger.isOpenStep_iff.mp hopen).1
        obtain rfl : x = y :=
          hl.step_ext (List.mem_of_getElem? hx) hpassed.step (hid.trans hpassed.id.symm)
        exact .inr ⟨r, time, _, rfl, hpassed, rfl, hanswer, by rw [if_pos hopen]⟩
      · exact .inl (by rw [if_neg hopen])

/-- A step of the new ledger that is decided was so before, or is decided by this turn. -/
theorem Turn.Takes.decided_step (h : turn.Takes svc l m) (hl : l.Coherent svc.timeouts)
    (hx : x ∈ m.steps) (hdecided : x.outcome ≠ .pending) :
    x ∈ l.steps ∨ ∃ r time d y, turn.op.ruling? = some r ∧ r.Passed Eq svc y time l ∧
      turn.answer = .ok (.decision d) ∧ x = r.settles time y := by
  cases hop : turn.op.ruling? with
  | none =>
    obtain ⟨xs, hxs, hpending⟩ := h.appends hop
    rw [hxs] at hx
    rcases List.mem_append.mp hx with hx | hx
    · exact .inl hx
    · exact absurd (hpending x hx) hdecided
  | some r =>
    rcases h.ruled hl hop with ⟨rfl, -⟩ | ⟨z, time, s, hpassed, rfl, -, hanswer⟩
    · exact .inl hx
    · obtain ⟨y, hy, rfl⟩ := List.mem_map.mp hx
      split at hdecided
      · next hopen =>
        rw [Ledger.isOpenStep_iff] at hopen
        obtain rfl : y = z := hl.step_ext hy hpassed.step (hopen.1.trans hpassed.id.symm)
        refine .inr ⟨r, time, _, y, rfl, hpassed, hanswer, ?_⟩
        rw [if_pos (Ledger.isOpenStep_iff.mpr hopen)]
      · next hclosed =>
        rw [if_neg hclosed]
        exact .inl hy

/-! ### All turns -/

theorem History.decided (h : History svc turns l) {i : Nat} (hi : turns[i]? = some turn)
    {stepId : String} (hturn : turn.Decided stepId) :
    ∃ x ∈ l.steps, x.id = stepId ∧ x.outcome ≠ .pending := by
  obtain ⟨b, a, hb, htakes, hal⟩ := h.turn_of_getElem? hi
  obtain ⟨r, d, hop, rfl, hanswer⟩ := hturn
  rcases htakes.ruled hb.coherent hop with ⟨-, why, hwhy⟩ | ⟨x, time, s, hpassed, rfl, -, -⟩
  · rw [hanswer] at hwhy
    cases hwhy
  · have hterm := Operation.terminal_of_ruling hop
    exact ⟨_, hal.grows.mem_settled hterm hpassed.step hpassed.id hpassed.pending, hpassed.id,
      x.settled_ne_pending hterm _ _ _⟩

/-- A step is decided once: when the later of two calls began, it would have been decided. -/
theorem History.not_decided_twice (h : History svc turns l) {i j : Nat} {a b : Turn}
    (hi : turns[i]? = some a) (hj : turns[j]? = some b) (hlt : i < j) {stepId : String}
    (ha : a.Decided stepId) : ¬b.Decided stepId := by
  rintro ⟨r, d, hop, rfl, hanswer⟩
  obtain ⟨k, m, hk, htakes, -⟩ := h.turn_of_getElem? hj
  rcases htakes.ruled hk.coherent hop with ⟨-, why, hwhy⟩ | ⟨x, time, s, hpassed, -, -, -⟩
  · rw [hanswer] at hwhy
    cases hwhy
  · have hi' : (turns.take j)[i]? = some a := by rw [List.getElem?_take_of_lt hlt, hi]
    obtain ⟨y, hy, hid, hdecided⟩ := hk.decided hi' ha
    have hsame : y = x := hk.coherent.step_ext hy hpassed.step (hid.trans hpassed.id.symm)
    exact hdecided (hsame ▸ hpassed.pending)

theorem History.decided_once (h : History svc turns l) {i j : Nat} {a b : Turn}
    (hi : turns[i]? = some a) (hj : turns[j]? = some b) {stepId : String}
    (ha : a.Decided stepId) (hb : b.Decided stepId) : i = j := by
  rcases Nat.lt_trichotomy i j with hlt | heq | hgt
  · exact absurd hb (h.not_decided_twice hi hj hlt ha)
  · exact heq
  · exact absurd ha (h.not_decided_twice hj hi hgt hb)

theorem History.settled (h : History svc turns l) (hx : x ∈ l.steps)
    (hdecided : x.outcome ≠ .pending) :
    ∃ (i : Nat) (turn : Turn), turns[i]? = some turn ∧ ∃ t ∈ l.transfers, t.id = x.transferId ∧
      turn.Settled svc (.ofStep x) x t := by
  induction h with
  | start => cases hx
  | @turn turns last l m history takes ih =>
    rcases takes.decided_step history.coherent hx hdecided with
      hx | ⟨r, time, d, y, hop, hpassed, hanswer, rfl⟩
    · obtain ⟨i, turn, hi, t, ht, hid, hsettled⟩ := ih hx
      obtain ⟨u, hu, htu⟩ := takes.evolves.grows.mem_transfers ht
      obtain ⟨hlen, -⟩ := List.getElem?_eq_some_iff.mp hi
      obtain ⟨r, d, hop, hanswer, hstep, hout, hby, hentitled, hold, hnew⟩ := hsettled
      refine ⟨i, turn, by rw [List.getElem?_append_left hlen, hi], u, hu, htu.id_eq.trans hid,
        r, d, hop, hanswer, hstep, hout, hby, hentitled.later htu, hold, hnew⟩
    · obtain ⟨t, ht, hid, hentitled⟩ := hpassed.entitled history.coherent
      obtain ⟨u, hu, htu⟩ := takes.evolves.grows.mem_transfers ht
      refine ⟨turns.length, last, by simp, u, hu, htu.id_eq.trans hid, r, d, hop, hanswer,
        hpassed.id.symm, rfl, rfl, hentitled.later htu, ?_, ?_⟩
      · rw [takes.before]
        exact ⟨.ofStep y, List.mem_map_of_mem hpassed.step, rfl,
          by rw [StepRow.ofStep, hpassed.pending]⟩
      · rw [takes.after]
        exact List.mem_map_of_mem hx

/-! ### All runs -/

/-- Of every decision in the store there is one call that made it, and its actor was entitled. -/
structure Accountable (svc : Service) (turns : List Turn) (s : Store) : Prop where
  /-- a step that is not pending was settled by one call, and no other call decided it -/
  settled : ∀ row ∈ s.steps, row.outcome ≠ Outcome.pending.name →
    ∃ x t, row.step = .ok x ∧ (∃ stored ∈ s.transfers, stored.transfer = .ok t) ∧
      t.id = x.transferId ∧ ∃ (i : Nat) (turn : Turn), turns[i]? = some turn ∧
        turn.Settled svc row x t ∧
        ∀ (j : Nat) (other : Turn), turns[j]? = some other → other.Decided x.id → j = i
  /-- a call leaves a step as it was unless it settles it -/
  unchanged : ∀ turn ∈ turns, ∀ (i : Nat) (row : StepRow), turn.before.steps[i]? = some row →
    ∃ row', turn.after.steps[i]? = some row' ∧ (row' = row ∨
      ∃ x t, row'.step = .ok x ∧ (∃ stored ∈ turn.before.transfers, stored.transfer = .ok t) ∧
        t.id = x.transferId ∧ turn.Settled svc row' x t)

theorem Ledger.Legible.stored {l : Ledger} (h : l.Legible) (ht : t ∈ l.transfers) :
    ∃ stored ∈ l.store.transfers, stored.transfer = .ok t := by
  obtain ⟨hkeep, hread⟩ := h.transfers t ht
  exact ⟨.ofTransfer t, List.mem_map_of_mem ht,
    by rw [TransferRow.transfer_ofTransfer hkeep.inYears, hread]⟩

/-- **Every decision was made by one successful call of an entitled actor, and no other call
    changes a step**, whatever calls were made in whatever order. -/
theorem every_decision_entitled {σ : Type} {trail : Audit.Trail σ} {s : Store} {w : σ}
    (run : Run svc trail turns s w) : Accountable svc turns s := by
  obtain ⟨l, rfl, h⟩ := run.history
  constructor
  · intro row hrow hdecided
    obtain ⟨x, hx, rfl⟩ := List.mem_map.mp hrow
    have hx' : x.outcome ≠ .pending := fun hp => hdecided (by rw [StepRow.ofStep, hp])
    obtain ⟨i, turn, hi, t, ht, hid, hsettled⟩ := h.settled hx hx'
    have hlegible := h.coherent.legible
    refine ⟨x, t, hlegible.step_ofStep hx, hlegible.stored ht, hid, i, turn, hi, hsettled, ?_⟩
    intro j other hj hother
    obtain ⟨r, d, hop, hanswer, hstep, -⟩ := hsettled
    exact h.decided_once hj hi hother ⟨r, d, hop, hstep, hanswer⟩
  · intro turn hturn i row hrow
    obtain ⟨k, hk⟩ := List.mem_iff_getElem?.mp hturn
    obtain ⟨b, a, hb, htakes, hal⟩ := h.turn_of_getElem? hk
    rw [htakes.before] at hrow
    simp only [Ledger.store, List.getElem?_map, Option.map_eq_some_iff] at hrow
    obtain ⟨x, hx, rfl⟩ := hrow
    rw [htakes.after]
    simp only [Ledger.store, List.getElem?_map, Option.map_eq_some_iff]
    rcases htakes.step_at hb.coherent hx with hsame | ⟨r, time, d, hop, hpassed, hm, hanswer, hnew⟩
    · exact ⟨_, ⟨x, hsame, rfl⟩, .inl rfl⟩
    · obtain ⟨t, ht, hid, hentitled⟩ := hpassed.entitled hb.coherent
      have hmem := List.mem_of_getElem? hnew
      have hco := htakes.evolves.coherent hb.coherent
      refine ⟨_, ⟨_, hnew, rfl⟩, .inr ⟨_, t, hco.legible.step_ofStep hmem,
        htakes.before ▸ hb.coherent.legible.stored ht, hid, r, d, hop, hanswer,
        hpassed.id.symm, rfl, rfl, hentitled, ?_, ?_⟩⟩
      · rw [htakes.before]
        exact ⟨.ofStep x, List.mem_map_of_mem hpassed.step, rfl,
          by rw [StepRow.ofStep, hpassed.pending]⟩
      · rw [htakes.after]
        exact List.mem_map_of_mem hmem

/-- A sale is signed off by both owners.  For the administrators the seller may not do it, and
    an administrator does not want to. -/
def Sample.vetoedSale : List (Operation × Instant) :=
  [(.initiate "sale" sale none, firstDay),
   (.plan stepIds recordedSale, firstDay),
   (.approve "first" ((Actor.ofOwner seller).owning "license") none, secondDay),
   (.approve "third" (.ofOwner seller) none, secondDay),
   (.approve "second" (.ofOwner buyer) none, secondDay),
   (.reject "third" admin (some "no"), secondDay)]

theorem vetoedSale_accountable :
    ∃ r ∈ play Sample.service .silent Sample.vetoedSale [] .empty (),
      (r.2.1.steps.map fun row => row.outcome) = ["approved", "approved", "rejected"] ∧
      Accountable Sample.service r.1 r.2.1 := by
  have hplays : ∃ r ∈ play Sample.service .silent Sample.vetoedSale [] .empty (),
      (r.2.1.steps.map fun row => row.outcome) = ["approved", "approved", "rejected"] := by
    decide +kernel
  obtain ⟨r, hplay, houtcomes⟩ := hplays
  exact ⟨r, hplay, houtcomes, every_decision_entitled ((Run.start ()).play hplay)⟩

end SignOff
