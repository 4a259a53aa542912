/-
  SignOff/Proofs/Workflow/Verdict.lean
  ====================================
  **The verdict on a decision made alone.**  With no one else at the store, a decision sees one
  ledger from its first read to its update, so its checks can be read as a table: an unknown
  step, an expired transfer, a decided step, an actor that is not entitled, in this order, and
  otherwise the ruling is written and shown (`Verdict`).  Whatever is not written leaves
  the ledger as it is, and what is written is always shown: each expiry that the second
  derivation looks at was looked at by the first (`Service.decide_alone`).
-/
import SignOff.Proofs.Workflow.Run

namespace SignOff

/-- The ruling is about the step `x` of the transfer `t`, as of `time`. -/
structure Ruling.Concerns (r : Ruling) (l : Ledger) (x : Step) (t : Transfer) (time : Instant)
    (ds : List Deed) : Prop where
  step : l.step? r.stepId = some x
  transfer : l.transfer? x.transferId = some t
  read : .read time ∈ ds

/-- How a decision ends that is made alone in the ledger `l`. -/
inductive Verdict (svc : Service) (r : Ruling) (l : Ledger) : Procedure.Post Decision
  | unknown {ds : List Deed} (missing : l.step? r.stepId = none) :
      Verdict svc r l (.error (.failed (.noSuchStep r.stepId))) ds l
  | overflowed {x : Step} {t : Transfer} {time : Instant} {why : Overflow} {ds : List Deed}
      (about : r.Concerns l x t time ds) (state : l.state t time = .error why) :
      Verdict svc r l (.error (.overflow why)) ds l
  | expired {x : Step} {t : Transfer} {time : Instant} {ds : List Deed}
      (about : r.Concerns l x t time ds) (state : l.state t time = .ok .expired) :
      Verdict svc r l (.error (.failed (.transferExpired t.id))) ds l
  | decided {x : Step} {t : Transfer} {time : Instant} {s : State} {ds : List Deed}
      (about : r.Concerns l x t time ds) (state : l.state t time = .ok s) (inTime : s ≠ .expired)
      (decided : x.outcome ≠ .pending) :
      Verdict svc r l (.error (.failed (.stepDecided x.id x.outcome))) ds l
  | notEntitled {x : Step} {t : Transfer} {time : Instant} {s : State} {ds : List Deed}
      (about : r.Concerns l x t time ds) (state : l.state t time = .ok s) (inTime : s ≠ .expired)
      (pending : x.outcome = .pending) (denied : svc.policy.allows x t r.actor = false) :
      Verdict svc r l (.error (.failed (.notEntitled r.actor.identity x.type x.id))) ds l
  | written {x : Step} {t : Transfer} {time later : Instant} {s s' : State} {ds : List Deed}
      (about : r.Concerns l x t time ds) (keepable : time.Keepable)
      (state : l.state t time = .ok s) (inTime : s ≠ .expired) (pending : x.outcome = .pending)
      (allowed : svc.policy.allows x t r.actor = true)
      (after : (r.settle time l).state t later = .ok s') :
      Verdict svc r l (.ok ⟨r.settles time x, s'⟩) ds (r.settle time l)

variable {svc : Service} {r : Ruling} {l m : Ledger} {x : Step} {t : Transfer} {time : Instant}
  {ds ds' : List Deed} {a : Except Halt Decision} {op : Operation} {s : State}

theorem Ruling.Concerns.append (h : r.Concerns l x t time ds) (ds' : List Deed) :
    r.Concerns l x t time (ds ++ ds') :=
  ⟨h.step, h.transfer, List.mem_append_left ds' h.read⟩

theorem Verdict.unchanged (h : Verdict svc r l a ds m) {why : Halt} (ha : a = .error why) :
    m = l := by
  cases h with
  | written => cases ha
  | _ => rfl

/-- Nothing but the step can be missing. -/
theorem Verdict.not_found_iff (h : Verdict svc r l a ds m) :
    (∃ why, a = .error (.failed why) ∧ why.kind = .notFound) ↔ l.step? r.stepId = none := by
  cases h with
  | unknown missing => exact ⟨fun _ => missing, fun _ => ⟨_, rfl, rfl⟩⟩
  | written about => simp [about.step]
  | overflowed about => simp [about.step]
  | _ about =>
    -- it is refused, but with an error of another kind
    constructor
    · rintro ⟨why, hwhy, hkind⟩
      cases hwhy
      cases hkind
    · simp [about.step]

namespace Service

open Procedure

/-- What comes after the checks: the ruling is written, and it is shown. -/
theorem settle_alone (hop : op.ruling? = some r) (hl : l.Coherent svc.timeouts)
    (about : r.Concerns l x t time ds) (htime : time.Keepable) (hs : l.state t time = .ok s)
    (hne : s ≠ .expired) (hpending : x.outcome = .pending)
    (hallowed : svc.policy.allows x t r.actor = true) :
    (settle x t r.actor r.outcome r.notes time).Meets Eq (op.May svc.timeouts) (Verdict svc r l)
      ds l := by
  have hterm := Operation.terminal_of_ruling hop
  obtain ⟨hx, hid⟩ := Ledger.mem_of_step? about.step
  obtain ⟨ht, htid⟩ := Ledger.mem_of_transfer? about.transfer
  have hopen : l.steps.any (Ledger.isOpenStep r.stepId) = true :=
    List.any_eq_true.mpr ⟨x, hx, Ledger.isOpenStep_iff.mpr ⟨hid, hpending⟩⟩
  have hafter : (r.settle time l).Coherent svc.timeouts := hl.settle _ hterm _ _ htime
  have hfind : ((r.settle time l).stepsOf t.id).find? (fun y => y.id = r.stepId) =
      some (r.settles time x) := by
    have hmem := Ledger.mem_settle hx hpending r.outcome r.actor.identity r.notes time
    rw [hid] at hmem
    have hfound := hafter.find?_stepsOf hmem
    rw [← hid, htid]
    exact hfound
  rw [settle, hid]
  simp only [meets_bind, meets_resolve hterm, forall_eq', hopen, if_true]
  refine ⟨⟨htime, fun _ => (Operation.writes_of_ruling hop).mpr ⟨time, rfl⟩⟩, ?_⟩
  simp only [meets_stepsOf, meets_now, meets_derive, meets_ofOption, forall_eq']
  intro later _
  -- the second derivation looks at no expiry that the first one has not looked at
  obtain ⟨s', hs'⟩ := Ledger.state_settle hs hne r.stepId hterm r.actor.identity r.notes time later
  have hstate : t.state ((r.settle time l).stepsOf t.id) later = .ok s' := hs'
  simp only [hstate, Except.mapError, hfind, Option.elim, meets_report, meets_pure]
  intro last _
  exact .written (by simpa only [List.append_assoc] using about.append _) htime hs hne hpending
    hallowed hs'

theorem refuse_alone {why : Error}
    (h : ∀ ds', Verdict svc r l (.error (.failed why)) (ds ++ ds') l) :
    (refuse x r.actor why).Meets Eq (op.May svc.timeouts) (Verdict svc r l) ds l := by
  rw [meets_refuse]
  intro late _
  exact h _

/-- The checks of the step itself and of the actor, on a transfer that is in time. -/
theorem checks_alone (hop : op.ruling? = some r) (hl : l.Coherent svc.timeouts)
    (about : r.Concerns l x t time ds) (htime : time.Keepable) (hs : l.state t time = .ok s)
    (hne : s ≠ .expired) :
    Procedure.Meets Eq (op.May svc.timeouts) (Verdict svc r l) (do
      if !x.outcome.mayBecome r.outcome then
        refuse x r.actor (.stepDecided x.id x.outcome)
      else
        if Policy.consults x t r.actor then asking
        if svc.policy.allows x t r.actor then
          settle x t r.actor r.outcome r.notes time
        else
          refuse x r.actor (.notEntitled r.actor.identity x.type x.id)) ds l := by
  by_cases hpending : x.outcome = .pending
  · have hmay : x.outcome.mayBecome r.outcome = true :=
      Outcome.mayBecome_iff.mpr ⟨hpending, Operation.terminal_of_ruling hop⟩
    simp only [hmay, Bool.not_true, Bool.false_eq_true, if_false]
    rw [meets_consulting]
    cases hallowed : svc.policy.allows x t r.actor with
    | true => exact settle_alone hop hl about htime hs hne hpending hallowed
    | false => exact refuse_alone fun _ => .notEntitled (about.append _) hs hne hpending hallowed
  · have hmay : x.outcome.mayBecome r.outcome = false := by
      rw [← Bool.not_eq_true]
      exact fun h => hpending (Outcome.mayBecome_iff.mp h).1
    simp only [hmay, Bool.not_false, if_true]
    exact refuse_alone fun _ => .decided (about.append _) hs hne hpending

/-- **A decision made alone ends as the table says.** -/
theorem decide_alone (hop : op.ruling? = some r) (hl : l.Coherent svc.timeouts) :
    (svc.decide r.stepId r.actor r.outcome r.notes).Meets Eq (op.May svc.timeouts)
      (Verdict svc r l) [] l := by
  rw [decide]
  simp only [meets_bind, meets_findStep, meets_stepsOf, meets_require, meets_ofOption,
    meets_derive, meets_now, forall_eq']
  cases hx : l.step? r.stepId with
  | none => exact .unknown hx
  | some x =>
    -- the transfer of a step that is found is found as well
    obtain ⟨hxmem, hid⟩ := Ledger.mem_of_step? hx
    obtain ⟨t, ht, hserves⟩ := hl.serves x hxmem
    have hfound : l.transfer? x.transferId = some t := hserves.transferId ▸ hl.transfer?_eq_some ht
    simp only [Option.elim, hfound]
    intro time htime
    have about : r.Concerns l x t time ([] ++ [.asked (.findStep r.stepId) l.store] ++
        [.asked (.findTransfer x.transferId) l.store] ++ [.read time] ++
        [.asked (.stepsOf t.id) l.store]) := ⟨hx, hfound, by simp⟩
    cases hs : t.state (l.stepsOf t.id) time with
    | error why => exact .overflowed about hs
    | ok s =>
      simp only [Except.mapError]
      by_cases hexpired : s = .expired
      · rw [if_pos hexpired]
        exact refuse_alone fun _ => .expired (about.append _) (hexpired ▸ hs)
      · rw [if_neg hexpired]
        exact checks_alone hop hl about htime hs hexpired

end Service

/-- A decision that is carried out alone ends as the table says. -/
theorem Operation.verdict {σ : Type} (hop : op.ruling? = some r) (hl : l.Coherent svc.timeouts)
    (trail : Audit.Trail σ) {readings : Nat → Instant} (hkeep : ∀ k, (readings k).Keepable)
    (w : σ) :
    ∃ b ds m, ((op.procedure svc).runAlong trail readings l.store w).answer = b.map .decision ∧
      ((op.procedure svc).runAlong trail readings l.store w).store = m.store ∧
      Verdict svc r l b ds m ∧ ∀ time, .read time ∈ ds → ∃ k, readings k = time := by
  have hmeets : (op.procedure svc).Meets Eq (op.May svc.timeouts)
      (fun a ds m => ∃ b, a = b.map .decision ∧ Verdict svc r l b ds m) [] l := by
    have hdecide := Service.decide_alone hop hl
    cases op with
    | approve stepId actor notes =>
      cases hop
      exact Procedure.Meets.map (hdecide.mono fun b ds m h => ⟨b, rfl, h⟩)
    | reject stepId actor notes =>
      cases hop
      exact Procedure.Meets.map (hdecide.mono fun b ds m h => ⟨b, rfl, h⟩)
    | _ => cases hop
  obtain ⟨ds, m, hstore, ⟨b, hanswer, hverdict⟩, hread⟩ :=
    hmeets.runAlong (fun h => h.admissible) hl hkeep trail w
  exact ⟨b, ds, m, hanswer, hstore, hverdict,
    fun time ht => (hread time ht).resolve_left List.not_mem_nil⟩

end SignOff
