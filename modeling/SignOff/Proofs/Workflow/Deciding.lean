/-
  SignOff/Proofs/Workflow/Deciding.lean
  =====================================
  **How a decision ends.**  All its checks are made before the update, on what the store held
  at the time of each; `Ruling.Passed` says what of them still holds when the update is
  run.  If the step is open then, the ruling is written and is what the answer shows;
  otherwise nothing is written at all (`DecisionEnds`, `Service.decide_meets`).
-/
import SignOff.Proofs.Workflow.Contract
import SignOff.Proofs.Ledger.State

namespace SignOff

/-- In the ledger `m` the step `x` is open, and the ruling on it has passed every check at the
    reading `time`: the actor may decide, and the transfer was not expired when its steps
    were read. -/
structure Ruling.Passed (r : Ruling) (R : Ledger → Ledger → Prop) (svc : Service) (x : Step)
    (time : Instant) (m : Ledger) : Prop where
  step : x ∈ m.steps
  id : x.id = r.stepId
  pending : x.outcome = .pending
  allowed : ∃ t ∈ m.transfers, t.id = x.transferId ∧ svc.policy.allows x t r.actor = true
  inTime : ∃ k, R k m ∧ ∃ t ∈ k.transfers, t.id = x.transferId ∧
    ∃ s, k.state t time = .ok s ∧ s ≠ .expired
  keepable : time.Keepable

/-- The ends of a decision that began in the ledger `l`. -/
inductive DecisionEnds (R : Ledger → Ledger → Prop) (svc : Service) (r : Ruling) (l : Ledger) :
    Procedure.Post Decision
  /-- turned down by a check, or too late for the update -/
  | refused {why : Error} {ds : List Deed} {m : Ledger} (rely : R l m)
      (idle : ∀ d ∈ ds, d.Idle)
      (late : ∀ time s, .asked (r.update time) s ∈ ds → why = .decidedMeanwhile r.stepId) :
      DecisionEnds R svc r l (.error (.failed why)) ds m
  /-- the state could not be checked -/
  | unchecked {why : Overflow} {ds : List Deed} {m : Ledger} {t : Transfer} {time : Instant}
      (rely : R l m) (idle : ∀ d ∈ ds, d.Idle) (state : m.state t time = .error why) :
      DecisionEnds R svc r l (.error (.overflow why)) ds m
  /-- written and shown -/
  | decided {x : Step} {t : Transfer} {time later : Instant} {s : State} {ds : List Deed}
      {k m : Ledger} (rely : R l k) (passed : r.Passed R svc x time k)
      (after : R (r.settle time k) m) (read : .read time ∈ ds)
      (asked : .asked (r.update time) k.store ∈ ds)
      (transfer : t ∈ m.transfers) (id : t.id = x.transferId) (state : m.state t later = .ok s) :
      DecisionEnds R svc r l (.ok ⟨r.settles time x, s⟩) ds m
  /-- written, but the state could not be shown -/
  | unshown {x : Step} {t : Transfer} {time later : Instant} {why : Overflow} {ds : List Deed}
      {k m : Ledger} (rely : R l k) (passed : r.Passed R svc x time k)
      (after : R (r.settle time k) m) (transfer : t ∈ m.transfers) (id : t.id = x.transferId)
      (state : m.state t later = .error why) :
      DecisionEnds R svc r l (.error (.overflow why)) ds m

/-- A pending step may be decided, and that is all that may happen to one. -/
theorem Outcome.mayBecome_iff {a b : Outcome} :
    a.mayBecome b = true ↔ a = .pending ∧ b.isTerminal = true := by
  cases a <;> cases b <;> decide

/-- What the actor may do depends on nothing of a transfer that changes. -/
theorem Policy.allows_later {p : Policy} {x : Step} {t u : Transfer} {a : Actor} (h : t.Later u) :
    p.allows x u a = p.allows x t a := by
  rcases h with rfl | ⟨-, time, rfl⟩
  · rfl
  · rfl

namespace Service

open Procedure

variable {svc : Service} {R : Ledger → Ledger → Prop} {op : Operation} {r : Ruling}
  {ds : List Deed} {l₀ l k m : Ledger} {x : Step} {t : Transfer} {time : Instant}

/-! ### Before the update -/

/-- Nothing has been changed, and the update has not been asked for. -/
structure Quiet (r : Ruling) (ds : List Deed) : Prop where
  idle : ∀ d ∈ ds, d.Idle
  unasked : ∀ time s, .asked (r.update time) s ∉ ds

theorem quiet_nil (r : Ruling) : Quiet r [] :=
  ⟨fun _ hd => absurd hd List.not_mem_nil, fun _ _ => List.not_mem_nil⟩

theorem Quiet.read (h : Quiet r ds) (t : Instant) : Quiet r (ds ++ [.read t]) := by
  constructor
  · intro d hd
    rcases List.mem_append.mp hd with hd | hd
    · exact h.idle d hd
    · rw [List.mem_singleton.mp hd]
      trivial
  · intro time s hd
    rcases List.mem_append.mp hd with hd | hd
    · exact h.unasked time s hd
    · cases List.mem_singleton.mp hd

theorem Quiet.asked (h : Quiet r ds) {q : Statement} (hq : q.writes = false) (s : Store) :
    Quiet r (ds ++ [.asked q s]) := by
  constructor
  · intro d hd
    rcases List.mem_append.mp hd with hd | hd
    · exact h.idle d hd
    · rw [List.mem_singleton.mp hd]
      exact Deed.idle_of_reads hq s
  · intro time s' hd
    rcases List.mem_append.mp hd with hd | hd
    · exact h.unasked time s' hd
    · cases List.mem_singleton.mp hd
      cases hq

theorem Quiet.refused (h : Quiet r ds) (hm : R l₀ m) (why : Error) :
    DecisionEnds R svc r l₀ (.error (.failed why)) ds m :=
  .refused hm h.idle fun time s hd => absurd hd (h.unasked time s)

theorem idle_refusal {e : Audit.Entry} (h : ∀ d ∈ ds, d.Idle) (t : Instant) :
    ∀ d ∈ ds ++ [.read t, .noted e], d.Idle := by
  intro d hd
  simp only [List.mem_append, List.mem_cons, List.not_mem_nil, or_false] at hd
  rcases hd with hd | rfl | rfl
  · exact h d hd
  · trivial
  · trivial

theorem refuse_meets (h : Quiet r ds) (hm : R l₀ l) (a : Actor) (why : Error) :
    (refuse x a why).Meets R (op.May svc.timeouts) (DecisionEnds R svc r l₀) ds l := by
  rw [meets_refuse]
  intro t _
  refine .refused hm (idle_refusal h.idle t) fun time s hd => ?_
  simp only [List.mem_append, List.mem_cons, List.not_mem_nil, or_false, reduceCtorEq] at hd
  exact absurd hd (h.unasked time s)

/-! ### The update and after -/

/-- All checks are passed, the last of them in the ledger `l`, and the update comes next. -/
structure Checked (svc : Service) (r : Ruling) (x : Step) (t : Transfer) (time : Instant)
    (ds : List Deed) (l : Ledger) : Prop where
  quiet : Quiet r ds
  read : .read time ∈ ds
  step : ∃ y ∈ l.steps, x.Later y
  id : x.id = r.stepId
  pending : x.outcome = .pending
  transfer : ∃ u ∈ l.transfers, t.Later u
  transferId : t.id = x.transferId
  allowed : svc.policy.allows x t r.actor = true
  inTime : ∃ s, l.state t time = .ok s ∧ s ≠ .expired
  keepable : time.Keepable

/-- If the step is open when the update is run, the checks hold of it then. -/
theorem Checked.passed (h : Checked svc r x t time ds l) (hR : Rely svc.timeouts R)
    (hl : l.Coherent svc.timeouts) (hm : R l m)
    (hopen : m.steps.any (Ledger.isOpenStep r.stepId) = true) : r.Passed R svc x time m := by
  have hev := hR.evolves hm
  -- had anyone decided the step since it was read, it would not be open
  have hstep : x ∈ m.steps := by
    obtain ⟨y, hy, hxy⟩ := h.step
    obtain ⟨z, hz, hyz⟩ := hev.grows.mem_steps hy
    obtain ⟨z', hz', hthis⟩ := List.any_eq_true.mp hopen
    rw [Ledger.isOpenStep_iff] at hthis
    have hlater := hxy.trans hyz
    have hsame : z = z' := (hev.coherent hl).step_ext hz hz'
      (by rw [hlater.sameOrigin.id, h.id, hthis.1])
    rcases hlater with rfl | ⟨-, outcome, resolver, notes, time, hterm, rfl⟩
    · exact hz
    · rw [← hsame] at hthis
      exact absurd hthis.2 (x.settled_ne_pending hterm resolver notes time)
  obtain ⟨u, hu, htu⟩ := h.transfer
  obtain ⟨s, hs, hne⟩ := h.inTime
  obtain ⟨v, hv, huv⟩ := hev.grows.mem_transfers hu
  refine ⟨hstep, h.id, h.pending, ⟨v, hv, ?_, ?_⟩, ⟨l, hm, u, hu, ?_, s, ?_, hne⟩, h.keepable⟩
  · rw [(htu.trans huv).id_eq, h.transferId]
  · rw [Policy.allows_later (htu.trans huv), h.allowed]
  · rw [htu.id_eq, h.transferId]
  · rw [Ledger.state_later htu, hs]

/-- What is read back after the update: the step with the ruling in it, whatever others have
    done since, and its transfer. -/
theorem Checked.after (h : Checked svc r x t time ds l) (hR : Rely svc.timeouts R)
    (hl : l.Coherent svc.timeouts) (hk : R l k) (hterm : r.outcome.isTerminal = true)
    (hx : x ∈ k.steps) (hm : R (r.settle time k) m) :
    (m.stepsOf x.transferId).find? (fun y => y.id = x.id) = some (r.settles time x) ∧
      ∃ v ∈ m.transfers, t.Later v ∧ v.id = x.transferId := by
  have hsettle : k.Evolves svc.timeouts (r.settle time k) :=
    ⟨Ledger.grows_settle k _ hterm _ _ _, fun hk => hk.settle _ hterm _ _ h.keepable⟩
  have hlk := hR.evolves hk
  have hsm := hR.evolves hm
  have hsettled := hsm.grows.mem_settled hterm hx h.id h.pending
  obtain ⟨u, hu, htu⟩ := h.transfer
  obtain ⟨v, hv, huv⟩ := (hlk.grows.trans (hsettle.grows.trans hsm.grows)).mem_transfers hu
  have hvt := htu.trans huv
  exact ⟨(hsm.coherent (hsettle.coherent (hlk.coherent hl))).find?_stepsOf hsettled,
    v, hv, hvt, hvt.id_eq.trans h.transferId⟩

theorem settle_meets (h : Checked svc r x t time ds l) (hR : Rely svc.timeouts R)
    (hop : op.ruling? = some r) (hl : l.Coherent svc.timeouts) (h₀ : R l₀ l) :
    (settle x t r.actor r.outcome r.notes time).Meets R (op.May svc.timeouts)
      (DecisionEnds R svc r l₀) ds l := by
  have hterm := Operation.terminal_of_ruling hop
  rw [settle, h.id]
  simp only [meets_bind, meets_resolve hterm]
  intro k hk
  have hkco := (hR.evolves hk).coherent hl
  refine ⟨⟨h.keepable, fun _ => (Operation.writes_of_ruling hop).mpr ⟨time, rfl⟩⟩, ?_⟩
  -- others may have decided the step since it was checked
  cases hopen : k.steps.any (Ledger.isOpenStep r.stepId) with
  | false =>
    have hsame : r.settle time k = k := Ledger.settle_of_closed hopen _ _ _ _
    have hidle : ∀ d ∈ ds ++ [.asked (r.update time) k.store], d.Idle := by
      intro d hd
      rcases List.mem_append.mp hd with hd | hd
      · exact h.quiet.idle d hd
      · rw [List.mem_singleton.mp hd]
        refine Deed.idle_of_makes hkco.legible fun n hn => ?_
        cases hn with
        | reads reads => rfl
        | settled terminal => exact hsame
    rw [hsame, if_neg (by decide), meets_refuse]
    intro late _
    exact .refused (hR.trans h₀ hk) (idle_refusal hidle late) fun _ _ _ => rfl
  | true =>
    have hpassed := h.passed hR hl hk hopen
    rw [if_pos rfl]
    simp only [meets_bind, meets_stepsOf, meets_now, meets_derive, meets_ofOption]
    intro m hm later _
    obtain ⟨hfind, v, hv, hvt, hvid⟩ := h.after hR hl hk hterm hpassed.step hm
    have hstate : m.state v later = t.state (m.stepsOf t.id) later := Ledger.state_later hvt
    cases hs : t.state (m.stepsOf t.id) later with
    | error why =>
      exact .unshown (hR.trans h₀ hk) hpassed hm hv hvid (hstate.trans hs)
    | ok s =>
      simp only [Except.mapError]
      rw [h.transferId, ← h.id]
      simp only [hfind, Option.elim, meets_report, meets_pure]
      intro last _
      refine .decided (hR.trans h₀ hk) hpassed hm ?_ ?_ hv hvid (hstate.trans hs)
      · simp [h.read]
      · simp

/-- The last check, which may ask the actor. -/
theorem policy_meets (hquiet : Quiet r ds)
    (hchecked : svc.policy.allows x t r.actor = true → Checked svc r x t time ds l)
    (hR : Rely svc.timeouts R) (hop : op.ruling? = some r) (hl : l.Coherent svc.timeouts)
    (h₀ : R l₀ l) :
    Procedure.Meets R (op.May svc.timeouts) (DecisionEnds R svc r l₀) (do
      if Policy.consults x t r.actor then asking
      if svc.policy.allows x t r.actor then
        settle x t r.actor r.outcome r.notes time
      else
        refuse x r.actor (.notEntitled r.actor.identity x.type x.id)) ds l := by
  rw [meets_consulting]
  by_cases hallowed : svc.policy.allows x t r.actor = true
  · rw [if_pos hallowed]
    exact settle_meets (hchecked hallowed) hR hop hl h₀
  · rw [if_neg hallowed]
    exact refuse_meets hquiet h₀ _ _

/-- **A decision ends in one of the ways of `DecisionEnds`.** -/
theorem decide_meets (hR : Rely svc.timeouts R) (hop : op.ruling? = some r)
    (hl : l.Coherent svc.timeouts) :
    (svc.decide r.stepId r.actor r.outcome r.notes).Meets R (op.May svc.timeouts)
      (DecisionEnds R svc r l) [] l := by
  rw [decide]
  simp only [meets_bind, meets_findStep, meets_stepsOf, meets_require, meets_ofOption,
    meets_derive, meets_now]
  intro k₁ h₁
  have hquiet := (quiet_nil r).asked (q := .findStep r.stepId) rfl k₁.store
  cases hx : k₁.step? r.stepId with
  | none => exact hquiet.refused h₁ _
  | some x =>
    obtain ⟨hxmem, hid⟩ := Ledger.mem_of_step? hx
    intro k₂ h₂
    have hquiet := hquiet.asked (q := .findTransfer x.transferId) rfl k₂.store
    cases ht : k₂.transfer? x.transferId with
    | none => exact hquiet.refused (hR.trans h₁ h₂) _
    | some t =>
      obtain ⟨htmem, htid⟩ := Ledger.mem_of_transfer? ht
      intro time htime k₃ h₃
      have hl₃ := hR.trans (hR.trans h₁ h₂) h₃
      have hquiet := (hquiet.read time).asked (q := .stepsOf t.id) rfl k₃.store
      cases hs : t.state (k₃.stepsOf t.id) time with
      | error why => exact .unchecked hl₃ hquiet.idle hs
      | ok s =>
        simp only [Except.mapError]
        by_cases hexpired : s = .expired
        · rw [if_pos hexpired]
          exact refuse_meets hquiet hl₃ _ _
        · rw [if_neg hexpired]
          by_cases hmay : x.outcome.mayBecome r.outcome = true
          · have hchecked (hallowed : svc.policy.allows x t r.actor = true) :
                Checked svc r x t time _ k₃ :=
              { quiet := hquiet
                read := by simp
                step := (hR.evolves (hR.trans h₂ h₃)).grows.mem_steps hxmem
                id := hid
                pending := (Outcome.mayBecome_iff.mp hmay).1
                transfer := (hR.evolves h₃).grows.mem_transfers htmem
                transferId := htid
                allowed := hallowed
                inTime := ⟨s, hs, hexpired⟩
                keepable := htime }
            simp only [hmay, Bool.not_true, Bool.false_eq_true, if_false]
            exact policy_meets hquiet hchecked hR hop ((hR.evolves hl₃).coherent hl) hl₃
          · simp only [Bool.not_eq_true] at hmay
            simp only [hmay, Bool.not_false, if_true]
            exact refuse_meets hquiet hl₃ _ _

end Service

end SignOff
