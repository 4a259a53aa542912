/-
  SignOff/Proofs/SingleWinner.lean
  ================================
  **One decision on a step.**  Any number of calls may decide the same step at the same time,
  in any order of their statements and among any others.  All of them may pass their checks,
  but only the first update finds the step pending, and what it writes is never written
  over (`single_winner`).  The winner reads its own decision back, however late it does so;
  every other call ends with an error and has changed nothing.
-/
import SignOff.Proofs.Workflow.Schedule

namespace SignOff

/-- The deed is an update that found the step pending and decided it. -/
def Deed.Settles (stepId : String) : Deed → Prop
  | .asked (.resolve id outcome resolver notes time) s =>
    id = stepId ∧ ∃ s', s.resolve id outcome resolver notes time = .ok (true, s')
  | _ => False

/-- The row of the step shows the ruling, made at this instant. -/
structure StepRow.Carries (row : StepRow) (r : Ruling) (time : Instant) : Prop where
  id : row.id = r.stepId
  outcome : row.outcome = r.outcome.name
  resolvedByType : row.resolvedByType = some r.actor.identity.kind.name
  resolvedById : row.resolvedById = some r.actor.identity.id
  resolvedAt : row.resolvedAt = some time.columnText
  notes : row.notes = r.notes

/-- The call approved or rejected the step with this identifier. -/
def Client.Decided (c : Client) (stepId : String) : Prop :=
  ∃ r d, c.op.ruling? = some r ∧ r.stepId = stepId ∧ c.answer? = some (.ok (.decision d))

variable {svc : Service} {S S' : System} {l : Ledger} {stepId : String} {r : Ruling}
  {time : Instant} {x : Step}

theorem StepRow.carries_ofStep (hx : x.id = r.stepId) :
    (StepRow.ofStep (r.settles time x)).Carries r time := by
  constructor <;> simp [StepRow.ofStep, Step.settled, hx]

/-! ### Updates that take effect -/

theorem Deed.settles_iff {k : Ledger} {id : String} {outcome : Outcome} {resolver : Owner}
    {notes : Option String} :
    (asked (.resolve id outcome resolver notes time) k.store).Settles stepId ↔
      id = stepId ∧ outcome.isTerminal = true ∧
        ∃ x ∈ k.steps, x.id = id ∧ x.outcome = .pending := by
  rw [Settles]
  refine and_congr_right fun _ => ?_
  by_cases hterm : outcome.isTerminal = true
  · rw [Ledger.settle_store k id hterm]
    simp only [Except.ok.injEq, Prod.mk.injEq, exists_and_left, exists_eq', and_true, hterm,
      true_and, List.any_eq_true, Ledger.isOpenStep_iff]
  · rw [Store.resolve, if_neg hterm]
    simp [hterm]

theorem Deed.Past.settled {op : Operation} {timeouts : Timeouts} {s : Store} {id : String}
    {outcome : Outcome} {resolver : Owner} {notes : Option String}
    (h : (asked (.resolve id outcome resolver notes time) s).Past op timeouts l)
    (hs : (asked (.resolve id outcome resolver notes time) s).Settles stepId) :
    ∃ x : Step, x.id = stepId ∧ (x.settled outcome resolver notes time).outcome ≠ .pending ∧
      x.settled outcome resolver notes time ∈ l.steps := by
  obtain ⟨k, rfl, -, -, hafter⟩ := h
  obtain ⟨rfl, hterm, x, hx, rfl, hpending⟩ := Deed.settles_iff.mp hs
  rw [Statement.on, if_pos hterm] at hafter
  exact ⟨x, rfl, x.settled_ne_pending hterm resolver notes time,
    hafter.grows.mem_settled hterm hx rfl hpending⟩

theorem System.Reachable.settled_once (h : Reachable svc S) {i j : Nat} {a b : Client} {d e : Deed}
    (hi : S.clients[i]? = some a) (hj : S.clients[j]? = some b) (hd : d ∈ a.deeds)
    (he : e ∈ b.deeds) (hds : d.Settles stepId) (hes : e.Settles stepId) : i = j ∧ d = e := by
  refine h.once (P := Deed.Settles stepId)
    (Q := fun l => ∃ x ∈ l.steps, x.id = stepId ∧ x.outcome ≠ .pending)
    (fun d hd => ?_) (fun {d op l} hpast _ hd => ?_) (fun {q l} hl hq hd => ?_)
    hi hj hd he hds hes
  · cases d with
    | asked q s => exact ⟨q, s, rfl⟩
    | _ => exact hd.elim
  · cases d with
    | asked q s =>
      cases q with
      | resolve id outcome resolver notes time =>
        obtain ⟨x, hid, hdecided, hmem⟩ := hpast.settled hd
        exact ⟨_, hmem, hid, hdecided⟩
      | _ => exact hd.elim
    | _ => exact hd.elim
  · cases q with
    | resolve id outcome resolver notes time =>
      obtain ⟨x, hx, hid, hdecided⟩ := hq
      obtain ⟨rfl, -, y, hy, hyid, hpending⟩ := Deed.settles_iff.mp hd
      rw [hl.step_ext hx hy (hid.trans hyid.symm)] at hdecided
      exact hdecided hpending
    | _ => exact hd.elim

/-! ### The calls on a step -/

/-- What holds of the calls that decide the step, in a system and ever after. -/
structure SingleWinner (svc : Service) (S : System) (stepId : String) : Prop where
  /-- at most one call returns a decision -/
  one : ∀ (i j : Nat) (a b : Client), S.clients[i]? = some a → S.clients[j]? = some b →
    a.Decided stepId → b.Decided stepId → i = j
  /-- at most one update takes effect -/
  once : ∀ (i j : Nat) (a b : Client) (d e : Deed), S.clients[i]? = some a →
    S.clients[j]? = some b → d ∈ a.deeds → e ∈ b.deeds → d.Settles stepId → e.Settles stepId →
      i = j ∧ d = e
  /-- the step has one row -/
  row : ∀ a ∈ S.store.steps, ∀ b ∈ S.store.steps, a.id = stepId → b.id = stepId → a = b
  /-- from such an update on the row shows the ruling -/
  carried : ∀ c ∈ S.clients, ∀ r, c.op.ruling? = some r → r.stepId = stepId → ∀ time s,
    .asked (r.update time) s ∈ c.deeds → (Deed.asked (r.update time) s).Settles stepId →
      ∀ S', System.Leads svc S S' → ∃ row ∈ S'.store.steps, row.Carries r time
  /-- a call that returns a decision made that update at its own reading of the clock, and
      shows the row -/
  won : ∀ c ∈ S.clients, ∀ r d, c.op.ruling? = some r → r.stepId = stepId →
    c.answer? = some (.ok (.decision d)) → ∃ time s, .read time ∈ c.deeds ∧
      .asked (r.update time) s ∈ c.deeds ∧ (Deed.asked (r.update time) s).Settles stepId ∧
      ∀ S', System.Leads svc S S' →
        ∃ row ∈ S'.store.steps, row.Carries r time ∧ row.step = .ok d.step
  /-- every other call that has ended did so with an error, and has changed nothing -/
  lost : ∀ c ∈ S.clients, ∀ r a, c.op.ruling? = some r → r.stepId = stepId → c.answer? = some a →
    ¬c.Decided stepId → ∃ why, a = .error (.failed why) ∧
      (∀ time s, .asked (r.update time) s ∈ c.deeds → why = .decidedMeanwhile stepId) ∧
      ∀ d ∈ c.deeds, d.Idle
  /-- whether it has ended or not, a call changes nothing but by that update -/
  idle : ∀ c ∈ S.clients, ∀ r, c.op.ruling? = some r → r.stepId = stepId →
    ∀ d ∈ c.deeds, d.Idle ∨ d.Settles stepId

theorem System.Follows.row_carries (h : S.Follows svc l) (hx : r.settles time x ∈ l.steps)
    (hid : x.id = r.stepId) (hterm : r.outcome.isTerminal = true) (hleads : System.Leads svc S S') :
    ∃ row ∈ S'.store.steps, row.Carries r time ∧ row.step = .ok (r.settles time x) := by
  obtain ⟨m, hm, hfollows⟩ := hleads.follows h
  have hmem := hm.grows.mem_decided hx (x.settled_ne_pending hterm _ _ _)
  obtain ⟨hkeep, hread⟩ := hfollows.coherent.legible.steps _ hmem
  refine ⟨.ofStep (r.settles time x), ?_, StepRow.carries_ofStep hid, ?_⟩
  · rw [hfollows.store]
    exact List.mem_map_of_mem hmem
  · rw [StepRow.step_ofStep hkeep.inYears, hread]

/-- A deed of a call that decides is its update, and took effect, or it changed nothing. -/
theorem Client.Follows.idle_or_settles {c : Client} (h : c.Follows svc l)
    (hop : c.op.ruling? = some r) {d : Deed} (hd : d ∈ c.deeds) : d.Idle ∨ d.Settles r.stepId := by
  have hpast := h.deeds d hd
  cases d with
  | read t => exact .inl trivial
  | noted e => exact .inl trivial
  | asked q s =>
    obtain ⟨k, rfl, hk, hmay, -⟩ := hpast
    cases hw : q.writes with
    | false => exact .inl (Deed.idle_of_reads hw _)
    | true =>
      obtain ⟨time, rfl⟩ := (Operation.writes_of_ruling hop).mp (hmay.writes hw)
      have hterm := Operation.terminal_of_ruling hop
      cases hopen : k.steps.any (Ledger.isOpenStep r.stepId) with
      | false =>
        refine .inl (Deed.idle_of_makes hk.legible fun n hn => ?_)
        cases hn with
        | reads reads => rfl
        | settled terminal => exact Ledger.settle_of_closed hopen _ _ _ _
      | true =>
        obtain ⟨x, hx, hthis⟩ := List.any_eq_true.mp hopen
        rw [Ledger.isOpenStep_iff] at hthis
        exact .inr (Deed.settles_iff.mpr ⟨rfl, hterm, x, hx, hthis.1, hthis.2⟩)

/-- A call that returns a decision has made its update, which took effect. -/
theorem Client.Follows.won {c : Client} {d : Decision} (h : c.Follows svc l)
    (hop : c.op.ruling? = some r) (ha : c.answer? = some (.ok (.decision d))) :
    ∃ (x : Step) (time : Instant) (s : Store), .read time ∈ c.deeds ∧
      .asked (r.update time) s ∈ c.deeds ∧ (Deed.asked (r.update time) s).Settles r.stepId ∧
      x.id = r.stepId ∧ d.step = r.settles time x ∧ r.settles time x ∈ l.steps := by
  obtain ⟨k₀, n, -, -, -, hn, -, hends⟩ := h.ended ha
  obtain ⟨b, hb, hends⟩ := hends.decision hop
  have hterm := Operation.terminal_of_ruling hop
  cases hends with
  | @decided x t time later s ds k n rely passed after read asked transfer id state =>
    cases hb
    -- nothing that came after the update can have touched the step
    have hsettles : (Deed.asked (r.update time) k.store).Settles r.stepId :=
      Deed.settles_iff.mpr ⟨rfl, hterm, x, passed.step, passed.id, passed.pending⟩
    exact ⟨x, time, k.store, read, asked, hsettles, passed.id, rfl,
      (after.grows.trans hn.grows).mem_settled hterm passed.step passed.id passed.pending⟩
  | _ => cases hb

/-- A call that has ended otherwise has failed and changed nothing, if no expiry overflows. -/
theorem Client.Follows.lost {c : Client} {a : Except Halt Answer} (h : c.Follows svc l)
    (hfit : l.FitsCalendar) (hop : c.op.ruling? = some r) (ha : c.answer? = some a)
    (hnot : ∀ d, a ≠ .ok (.decision d)) :
    ∃ why, a = .error (.failed why) ∧
      (∀ time s, .asked (r.update time) s ∈ c.deeds → why = .decidedMeanwhile r.stepId) ∧
      ∀ d ∈ c.deeds, d.Idle := by
  obtain ⟨k₀, n, -, hk₀, hn₀, hn, -, hends⟩ := h.ended ha
  obtain ⟨b, rfl, hdecision⟩ := hends.decision hop
  have hnfit := hfit.of_grows hn.grows
  have hstate (t : Transfer) (time : Instant) (why : Overflow) : n.state t time ≠ .error why := by
    obtain ⟨s, hs⟩ := (hn₀.coherent hk₀).state_of_fits hnfit t time
    rw [hs]
    intro he
    cases he
  cases hdecision with
  | refused rely idle late => exact ⟨_, rfl, late, idle⟩
  | unchecked rely idle state => exact absurd state (hstate _ _ _)
  | decided rely passed after read asked transfer id state => exact absurd rfl (hnot _)
  | unshown rely passed after transfer id state => exact absurd state (hstate _ _ _)

/-- **At most one of the calls on a step succeeds; the row shows its ruling ever after; and the
    others end with an error and change nothing.** -/
theorem single_winner (h : System.Reachable svc S) (hfit : S.store.FitsCalendar) (stepId : String) :
    SingleWinner svc S stepId := by
  obtain ⟨l, hl⟩ := h.follows
  rw [hl.store] at hfit
  replace hfit := hfit.ledger hl.coherent.legible
  refine ⟨?_, ?_, ?_, ?_, ?_, ?_, ?_⟩
  · rintro i j a b hi hj ⟨r, d, hop, rfl, ha⟩ ⟨r', d', hop', hid, ha'⟩
    obtain ⟨x, time, s, -, hmem, hsettles, -⟩ :=
      (hl.clients a (List.mem_of_getElem? hi)).won hop ha
    obtain ⟨x', time', s', -, hmem', hsettles', -⟩ :=
      (hl.clients b (List.mem_of_getElem? hj)).won hop' ha'
    rw [hid] at hsettles'
    exact (h.settled_once hi hj hmem hmem' hsettles hsettles').1
  · exact fun i j a b d e hi hj hd he hds hes => h.settled_once hi hj hd he hds hes
  · rw [hl.store]
    intro a ha b hb haid hbid
    obtain ⟨x, hx, rfl⟩ := List.mem_map.mp ha
    obtain ⟨y, hy, rfl⟩ := List.mem_map.mp hb
    rw [hl.coherent.step_ext hx hy (haid.trans hbid.symm)]
  · rintro c hc r hop rfl time s hmem hsettles S' hleads
    obtain ⟨x, hid, -, hx⟩ := ((hl.clients c hc).deeds _ hmem).settled hsettles
    obtain ⟨row, hrow, hcarries, -⟩ :=
      hl.row_carries hx hid (Operation.terminal_of_ruling hop) hleads
    exact ⟨row, hrow, hcarries⟩
  · rintro c hc r d hop rfl ha
    obtain ⟨x, time, s, hread, hmem, hsettles, hid, hd, hx⟩ := (hl.clients c hc).won hop ha
    refine ⟨time, s, hread, hmem, hsettles, fun S' hleads => ?_⟩
    rw [hd]
    exact hl.row_carries hx hid (Operation.terminal_of_ruling hop) hleads
  · rintro c hc r a hop rfl ha hnot
    refine (hl.clients c hc).lost hfit hop ha fun d hd => hnot ?_
    rw [hd] at ha
    exact ⟨r, d, hop, rfl, ha⟩
  · rintro c hc r hop rfl d hd
    exact (hl.clients c hc).idle_or_settles hop hd

/-- Two clients of the buyer decide at the same time.  Both find the step pending, and both
    have passed their checks when the first one writes. -/
def Sample.decisionRace : List Event :=
  giftEvents ++
    [.begin (.approve "step" (.ofOwner buyer) none),
     .begin (.reject "step" (.ofOwner buyer) (some "no"))] ++
    acts 2 4 ++ acts 3 4 ++ acts 2 1 ++ acts 3 3 ++ acts 2 4

theorem decisionRace_singleWinner :
    ∃ S ∈ System.replay Sample.service Sample.decisionRace ⟨.empty, []⟩,
      (S.store.steps.map fun row => (row.outcome, row.notes)) = [("approved", none)] ∧
      (S.clients[2]?.bind Client.answer?).any Except.isOk = true ∧
      S.clients[3]?.bind Client.answer? = some (.error (.failed (.decidedMeanwhile "step"))) ∧
      S.store.FitsCalendar ∧ SingleWinner Sample.service S "step" := by
  have hreplays : ∃ S ∈ System.replay Sample.service Sample.decisionRace ⟨.empty, []⟩,
      (S.store.steps.map fun row => (row.outcome, row.notes)) = [("approved", none)] ∧
      (S.clients[2]?.bind Client.answer?).any Except.isOk = true ∧
      S.clients[3]?.bind Client.answer? = some (.error (.failed (.decidedMeanwhile "step"))) ∧
      S.store.FitsCalendar := by
    decide +kernel
  obtain ⟨S, hS, hrow, hwon, hlost, hfit⟩ := hreplays
  have hreach : System.Reachable Sample.service S := System.leads_iff.mpr ⟨_, hS⟩
  exact ⟨S, hS, hrow, hwon, hlost, hfit, single_winner hreach hfit "step"⟩

end SignOff
