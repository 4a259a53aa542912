/-
  SignOff/Proofs/Workflow/Telling.lean
  ====================================
  **What the operations do.**  The account of each operation: which statements it has asked
  when it ends and which entries it has handed to the trail.  Reading notes nothing.
  Whatever is inserted is noted right after it.  A decision that is turned down notes
  why, and one that is written reads all steps of its transfer once more before it is
  noted.  A completion is noted before the transfer is shown.
-/
import SignOff.Proofs.Workflow.Account

namespace SignOff

open Audit

/-! ### Deeds -/

/-- The deed neither writes nor notes anything. -/
def Deed.Calm : Deed → Prop
  | .asked q _ => q.writes = false
  | .noted _ => False
  | .read _ => True

/-- One of the statements has failed like this. -/
def Deed.Broke (why : Error) (ds : List Deed) : Prop :=
  ∃ q s, .asked q s ∈ ds ∧ q.run s = .error why

def Deed.AllCalm (ds : List Deed) : Prop := ∀ d ∈ ds, d.Calm

namespace Deed

variable {ds ds' : List Deed}

theorem allCalm_nil : AllCalm [] := by
  intro d hd
  cases hd

theorem AllCalm.append (h : AllCalm ds) (h' : AllCalm ds') : AllCalm (ds ++ ds') := by
  intro d hd
  rcases List.mem_append.mp hd with hd | hd
  · exact h d hd
  · exact h' d hd

theorem AllCalm.asked (h : AllCalm ds) {q : Statement} (hq : q.writes = false) (s : Store) :
    AllCalm (ds ++ [.asked q s]) := by
  apply h.append
  intro d hd
  rw [List.mem_singleton.mp hd]
  exact hq

theorem AllCalm.read (h : AllCalm ds) (t : Instant) : AllCalm (ds ++ [.read t]) := by
  apply h.append
  intro d hd
  rw [List.mem_singleton.mp hd]
  trivial

theorem allCalm_reads (times : List Instant) : AllCalm (times.map .read) := by
  intro d hd
  obtain ⟨t, -, rfl⟩ := List.mem_map.mp hd
  trivial

theorem AllCalm.notes (h : AllCalm ds) : notes ds = [] := by
  apply List.filterMap_eq_nil_iff.mpr
  intro d hd
  cases d with
  | noted e => exact (h _ hd).elim
  | _ => rfl

theorem AllCalm.not_asked (h : AllCalm ds) {q : Statement} (hq : q.writes = true) (s : Store) :
    .asked q s ∉ ds := by
  intro hmem
  have hcalm : q.writes = false := h _ hmem
  rw [hq] at hcalm
  cases hcalm

theorem broke_last {q : Statement} {s : Store} {why : Error} (h : q.run s = .error why) :
    Broke why (ds ++ [.asked q s]) :=
  ⟨q, s, List.mem_append_right _ List.mem_cons_self, h⟩

end Deed

/-! ### What is noted -/

/-- The entry of a decision, with the step and the state that it is answered with. -/
def Ruling.notice (r : Ruling) (x : Step) (state : State) (t : Instant) : Entry :=
  { timestamp := t, event := Service.decisionEvent r.outcome, transferId := some x.transferId,
    stepId := some x.id, type := some x.type, actor := some r.actor.identity,
    state := some state, notes := r.notes }

def Service.completion (id : String) (t : Instant) : Entry :=
  { timestamp := t, event := .transferCompleted, transferId := some id, state := some .approved }

def Service.initiation (id : String) (initiator : Option Owner) (t : Instant) : Entry :=
  { timestamp := t, event := .transferInitiated, transferId := some id, actor := initiator }

def Service.planning (id : String) (t : Instant) : Entry :=
  { timestamp := t, event := .approvalsPlanned, transferId := some id }

def Service.creation (transferId stepId : String) (type : ApprovalType) (actor : Option Actor)
    (t : Instant) : Entry :=
  { timestamp := t, event := .stepCreated, transferId := some transferId, stepId := some stepId,
    type := some type, actor := actor.map fun a => a.identity }

/-! ### How operations end -/

/-- Nothing is written or noted; nothing can go wrong but that a transfer or a row is missing or
    unreadable. -/
structure Glances {α : Type} (a : Except Halt α) (ds : List Deed) : Prop where
  calm : Deed.AllCalm ds
  failed : ∀ why, a = .error (.failed why) → (∃ id, why = .noSuchTransfer id) ∨ Deed.Broke why ds

/-- At some readings of the clock something is made and inserted, and then it is noted. -/
inductive Inserts {α τ : Type} (reads : τ → List Instant) (q : τ → Statement)
    (entry : Instant → Entry) (made : τ → α) : Procedure.Account α
  | failed {time : τ} {s : Store} {why : Error} (fails : (q time).run s = .error why) :
      Inserts reads q entry made (.error (.failed why))
        ((reads time).map .read ++ [.asked (q time) s])
  | inserted {time : τ} {last : Instant} {s : Store} {r : (q time).Reply × Store}
      (runs : (q time).run s = .ok r) :
      Inserts reads q entry made (.ok (made time))
        ((reads time).map .read ++ [.asked (q time) s, .read last, .noted (entry last)])

/-- One instant for each of the steps of a plan. -/
def Plan.Times (steps : List (Instant → Step)) : Type :=
  { times : List Instant // times.length = steps.length }

/-- The call has found the step that it rules on, and the transfer of that step. -/
structure Ruling.Found (r : Ruling) (x : Step) (t : Transfer) (ds : List Deed) : Prop where
  step : ∃ s, .asked (.findStep r.stepId) s ∈ ds ∧ s.findStep r.stepId = .ok (some x)
  transfer : ∃ s, .asked (.findTransfer x.transferId) s ∈ ds ∧
    s.findTransfer x.transferId = .ok (some t)

/-- How a decision ends. -/
inductive Ruling.Account (r : Ruling) : Procedure.Account Decision
  /-- a statement has failed -/
  | broken {why : Error} {ds : List Deed} (unnoted : Deed.notes ds = [])
      (broke : Deed.Broke why ds) : Account r (.error (.failed why)) ds
  /-- there is no such step or transfer -/
  | unknown {why : Error} {ds : List Deed} (unnoted : Deed.notes ds = [])
      (kind : why.kind = .notFound) : Account r (.error (.failed why)) ds
  /-- the state could not be checked -/
  | unchecked {why : Overflow} {ds : List Deed} (calm : Deed.AllCalm ds) :
      Account r (.error (.overflow why)) ds
  /-- turned down by a check -/
  | refused {x : Step} {t : Transfer} {why : Error} {time : Instant} {ds : List Deed}
      (found : r.Found x t ds) (calm : Deed.AllCalm ds) (kind : why.kind.isRefusal = true) :
      Account r (.error (.failed why))
        (ds ++ [.read time, .noted (Service.refusal x r.actor why time)])
  /-- someone else was faster -/
  | late {x : Step} {t : Transfer} {time last : Instant} {k k' : Store} {ds : List Deed}
      (found : r.Found x t ds) (calm : Deed.AllCalm ds)
      (lost : (r.update time).run k = .ok (false, k')) :
      Account r (.error (.failed (.decidedMeanwhile r.stepId)))
        (ds ++ [.asked (r.update time) k, .read last,
          .noted (Service.refusal x r.actor (.decidedMeanwhile r.stepId) last)])
  /-- written, but the state could not be told -/
  | unshown {x : Step} {t : Transfer} {time later : Instant} {k k' s : Store} {steps : List Step}
      {why : Overflow} {ds : List Deed} (found : r.Found x t ds) (calm : Deed.AllCalm ds)
      (won : (r.update time).run k = .ok (true, k')) (reread : s.stepsOf t.id = .ok steps)
      (state : t.state steps later = .error why) :
      Account r (.error (.overflow why))
        (ds ++ [.asked (r.update time) k, .asked (.stepsOf t.id) s, .read later])
  /-- written and shown -/
  | shown {x y : Step} {t : Transfer} {time later last : Instant} {k k' s : Store}
      {steps : List Step} {shown : State} {ds : List Deed} (found : r.Found x t ds)
      (calm : Deed.AllCalm ds) (won : (r.update time).run k = .ok (true, k'))
      (reread : s.stepsOf t.id = .ok steps) (state : t.state steps later = .ok shown)
      (again : steps.find? (fun y => y.id = r.stepId) = some y) :
      Account r (.ok ⟨y, shown⟩)
        (ds ++ [.asked (r.update time) k, .asked (.stepsOf t.id) s, .read later, .read last,
          .noted (r.notice y shown last)])

/-- How a completion ends. -/
inductive CompletionAccount (id : String) : Procedure.Account Transfer
  /-- a statement has failed before the stamp -/
  | broken {why : Error} {ds : List Deed} (calm : Deed.AllCalm ds) (broke : Deed.Broke why ds) :
      CompletionAccount id (.error (.failed why)) ds
  /-- the state could not be checked, or is not the one -/
  | unstamped {why : Halt} {ds : List Deed} (calm : Deed.AllCalm ds)
      (kind : ∀ e, why = .failed e → e.kind ≠ .db) : CompletionAccount id (.error why) ds
  /-- someone else was faster -/
  | late {time : Instant} {k k' : Store} {ds : List Deed} (calm : Deed.AllCalm ds)
      (closed : k.complete id time = (false, k')) :
      CompletionAccount id (.error (.failed (.completedAlready id)))
        (ds ++ [.asked (.complete id time) k])
  /-- stamped, noted and then looked up -/
  | stamped {a : Except Halt Transfer} {time last : Instant} {k k' s : Store} {ds : List Deed}
      (calm : Deed.AllCalm ds) (stamped : k.complete id time = (true, k'))
      (lookedUp : a = Store.found (.noSuchTransfer id) (s.findTransfer id)) :
      CompletionAccount id a
        (ds ++ [.asked (.complete id time) k, .read last, .noted (Service.completion id last),
          .asked (.findTransfer id) s])

/-- How a call ends. -/
def Operation.Account (svc : Service) (op : Operation) : Procedure.Account Answer :=
  fun a ds =>
    match op with
    | .initiate id p initiator =>
      ∃ b, a = b.map .transfer ∧
        Inserts List.singleton (fun time => .insertTransfer (.ofProposal id p initiator time))
          (Service.initiation id initiator) (Transfer.ofProposal id p initiator) b ds
    | .plan ids t =>
      let steps := (Plan.ofTransfer t svc.timeouts).steps t.id ids
      ∃ b, a = b.map .plan ∧
        Inserts (fun times : Plan.Times steps => times.1)
          (fun times => .insertSteps (Procedure.made steps times.1))
          (Service.planning t.id) (fun _ => Plan.ofTransfer t svc.timeouts) b ds
    | .createStep id t type actor =>
      let made := (Requirement.ofTransfer t svc.timeouts type).step id t.id type
      ∃ b, a = b.map .step ∧
        (b = .error (.failed (.notNeeded t.id type)) ∧ ds = [] ∨
          Inserts List.singleton (fun time => .insertSteps [made time])
            (Service.creation t.id id type actor) made b ds)
    | .approve stepId actor notes =>
      ∃ b, a = b.map .decision ∧ Ruling.Account ⟨stepId, actor, .approved, notes⟩ b ds
    | .reject stepId actor notes =>
      ∃ b, a = b.map .decision ∧ Ruling.Account ⟨stepId, actor, .rejected, notes⟩ b ds
    | .complete id => ∃ b, a = b.map .transfer ∧ CompletionAccount id b ds
    | _ => Glances a ds

namespace Service

open Procedure

variable {svc : Service} {ds : List Deed}

/-! ### Inserting -/

/-- What is inserted and noted after some readings of the clock. -/
theorem inserts_tells {α τ : Type} {reads : τ → List Instant} {q : τ → Statement}
    {entry : Instant → Entry} {made : τ → α} (time : τ) :
    Tells (Inserts reads q entry made) (do
      let _ ← query (q time)
      report entry
      return made time) ((reads time).map .read) := by
  simp only [tells_bind, tells_query, tells_report, tells_pure]
  intro s
  cases hs : (q time).run s with
  | error why => exact .failed hs
  | ok r =>
    intro last
    rw [List.append_assoc]
    exact .inserted hs

theorem initiate_tells (id : String) (p : Proposal) (initiator : Option Owner) :
    (initiate id p initiator).Tells
      (Inserts List.singleton (fun time => .insertTransfer (.ofProposal id p initiator time))
        (initiation id initiator) (Transfer.ofProposal id p initiator)) [] := by
  rw [initiate, tells_bind, tells_now]
  intro time
  exact inserts_tells time

theorem plan_tells (ids : Nat → String) (t : Transfer) :
    (svc.plan ids t).Tells
      (Inserts (fun times : Plan.Times ((Plan.ofTransfer t svc.timeouts).steps t.id ids) => times.1)
        (fun times =>
          .insertSteps (made ((Plan.ofTransfer t svc.timeouts).steps t.id ids) times.1))
        (planning t.id) fun _ => Plan.ofTransfer t svc.timeouts) [] := by
  rw [plan, tells_bind, tells_makeEach]
  intro times hlen
  exact inserts_tells (τ := Plan.Times _) ⟨times, hlen⟩

theorem createStep_tells (id : String) (t : Transfer) (type : ApprovalType) (actor : Option Actor) :
    (svc.createStep id t type actor).Tells
      (fun b ds => b = .error (.failed (.notNeeded t.id type)) ∧ ds = [] ∨
        Inserts List.singleton (fun time => .insertSteps
            [(Requirement.ofTransfer t svc.timeouts type).step id t.id type time])
          (creation t.id id type actor)
          ((Requirement.ofTransfer t svc.timeouts type).step id t.id type) b ds) [] := by
  rw [createStep]
  by_cases hneeds : t.needs type = true
  · rw [if_pos hneeds, tells_bind, tells_now]
    intro time
    refine Tells.mono ?_ fun b ds h => Or.inr h
    exact inserts_tells time
  · rw [if_neg hneeds]
    exact .inl ⟨rfl, rfl⟩

/-! ### Reading -/

theorem glances_ok {α : Type} {a : α} (h : Deed.AllCalm ds) : Glances (.ok a) ds :=
  ⟨h, fun _ hwhy => nomatch hwhy⟩

theorem glances_overflow {α : Type} {why : Overflow} (h : Deed.AllCalm ds) :
    Glances (.error (.overflow why) : Except Halt α) ds :=
  ⟨h, fun _ hwhy => nomatch hwhy⟩

/-- A statement that only reads is asked; the rest goes on from its answer. -/
theorem glances_asked {α : Type} {q : Statement} {f : q.Reply → Procedure α} (hq : q.writes = false)
    (h : Deed.AllCalm ds)
    (hf : ∀ s r, q.run s = .ok r → (f r.1).Tells Glances (ds ++ [.asked q s])) :
    (query q >>= f).Tells Glances ds := by
  simp only [tells_bind, tells_query]
  intro s
  cases hs : q.run s with
  | error why =>
    refine ⟨h.asked hq s, fun why' hwhy => ?_⟩
    cases hwhy
    exact .inr (Deed.broke_last hs)
  | ok r => exact hf s r hs

theorem glances_bind {α β : Type} {p : Procedure α} {f : α → Procedure β} (h : p.Tells Glances ds)
    (hf : ∀ a ds, Deed.AllCalm ds → (f a).Tells Glances ds) : (p >>= f).Tells Glances ds := by
  rw [tells_bind]
  refine h.mono fun a ds ha => ?_
  cases a with
  | ok a => exact hf a ds ha.calm
  | error why =>
    refine ⟨ha.calm, fun why' hwhy => ?_⟩
    cases hwhy
    exact ha.failed why' rfl

theorem glances_map {α β : Type} {p : Procedure α} {f : α → β} (h : p.Tells Glances ds) :
    (do return f (← p) : Procedure β).Tells Glances ds :=
  glances_bind h fun _ _ hcalm => glances_ok hcalm

theorem derive_tells {t : Transfer} {steps : List Step} {time : Instant} (h : Deed.AllCalm ds) :
    (derive t steps time).Tells Glances ds := by
  rw [derive, tells_ofExcept]
  cases t.state steps time with
  | error why => exact glances_overflow h
  | ok s => exact glances_ok h

theorem require_tells {id : String} (h : Deed.AllCalm ds) : (require id).Tells Glances ds := by
  rw [require]
  refine glances_asked rfl h fun s r _ => ?_
  rw [tells_ofOption]
  have hcalm := h.asked (q := .findTransfer id) rfl s
  cases r.1 with
  | none =>
    refine ⟨hcalm, fun why hwhy => ?_⟩
    cases hwhy
    exact .inl ⟨id, rfl⟩
  | some t => exact glances_ok hcalm

theorem statusOf_tells {t : Transfer} {time : Instant} (h : Deed.AllCalm ds) :
    (statusOf t time).Tells Glances ds := by
  rw [statusOf]
  refine glances_asked rfl h fun s r _ => ?_
  exact glances_bind (derive_tells (h.asked rfl s)) fun _ _ h => glances_ok h

theorem statusAt_tells {id : String} {time : Instant} (h : Deed.AllCalm ds) :
    (statusAt id time).Tells Glances ds :=
  glances_bind (require_tells h) fun _ _ h => statusOf_tells h

theorem status_tells (id : String) (h : Deed.AllCalm ds) : (status id).Tells Glances ds := by
  rw [status, tells_bind, tells_now]
  intro time
  exact statusAt_tells (h.read time)

theorem stateAt_tells (id : String) (time : Instant) (h : Deed.AllCalm ds) :
    (stateAt id time).Tells Glances ds :=
  glances_bind (statusAt_tells h) fun _ _ h => glances_ok h

theorem state_tells (id : String) (h : Deed.AllCalm ds) : (state id).Tells Glances ds := by
  rw [state, tells_bind, tells_now]
  intro time
  exact stateAt_tells id time (h.read time)

theorem statuses_tells {time : Instant} (ts : List Transfer) (h : Deed.AllCalm ds) :
    (statuses time ts).Tells Glances ds := by
  induction ts generalizing ds with
  | nil => exact glances_ok h
  | cons t rest ih =>
    rw [statuses]
    refine glances_bind (statusOf_tells h) fun _ _ h => ?_
    exact glances_bind (ih h) fun _ _ h => glances_ok h

theorem history_tells (license : String) (h : Deed.AllCalm ds) :
    (history license).Tells Glances ds := by
  rw [history, tells_bind, tells_now]
  intro time
  have hcalm := h.read time
  refine glances_asked rfl hcalm fun s r _ => ?_
  exact statuses_tells r.1 (hcalm.asked rfl s)

theorem isDecidable_tells (x : Step) (t : Transfer) (actor : Actor) (time : Instant)
    (h : Deed.AllCalm ds) : (svc.isDecidable x t actor time).Tells Glances ds := by
  rw [isDecidable]
  split
  · rw [tells_consulting]
    split
    · refine glances_asked rfl h fun s r _ => ?_
      exact glances_bind (derive_tells (h.asked rfl s)) fun _ _ h => glances_ok h
    · exact glances_ok h
  · exact glances_ok h

theorem decidable_tells (actor : Actor) (time : Instant) (xs : List Step) (h : Deed.AllCalm ds) :
    (svc.decidable actor time xs).Tells Glances ds := by
  induction xs generalizing ds with
  | nil => exact glances_ok h
  | cons x rest ih =>
    rw [decidable]
    refine glances_asked rfl h fun s r _ => ?_
    have hcalm := h.asked (q := .findTransfer x.transferId) rfl s
    cases r.1 with
    | none => exact ih hcalm
    | some t =>
      refine glances_bind (isDecidable_tells x t actor time hcalm) fun b ds h => ?_
      cases b with
      | false => exact ih h
      | true => exact glances_bind (ih h) fun _ _ h => glances_ok h

theorem pending_tells (actor : Actor) (h : Deed.AllCalm ds) :
    (svc.pending actor).Tells Glances ds := by
  rw [pending, tells_bind, tells_now]
  intro time
  have hcalm := h.read time
  refine glances_asked rfl hcalm fun s r _ => ?_
  exact decidable_tells actor time r.1 (hcalm.asked rfl s)

/-! ### Completing -/

theorem glances_unstamped {id : String} {why : Halt}
    (h : Glances (.error why : Except Halt Status) ds) : CompletionAccount id (.error why) ds := by
  cases why with
  | overflow why => exact .unstamped h.calm fun e he => nomatch he
  | failed why =>
    rcases h.failed why rfl with ⟨id, rfl⟩ | hbroke
    · refine .unstamped h.calm fun e he => ?_
      cases he
      exact nofun
    · exact .broken h.calm hbroke

theorem complete_tells (id : String) : (complete id).Tells (CompletionAccount id) [] := by
  rw [complete, tells_bind]
  refine (status_tells id Deed.allCalm_nil).mono fun a ds hstatus => ?_
  cases a with
  | error why => exact glances_unstamped hstatus
  | ok x =>
    dsimp only
    split
    · rw [tells_bind, tells_now]
      intro time
      have hcalm := hstatus.calm.read time
      generalize ds ++ [.read time] = before at hcalm ⊢
      refine tells_ask.mpr fun k => ?_
      rcases hstamp : k.complete id time with ⟨won, k'⟩
      simp only [Statement.run, hstamp]
      cases won with
      | false => exact .late hcalm hstamp
      | true =>
        simp only [if_true, tells_bind, tells_report, tells_require, List.append_assoc,
          List.cons_append, List.nil_append]
        intro last s
        exact .stamped hcalm hstamp rfl
    · refine .unstamped hstatus.calm fun e he => ?_
      cases he
      simp [Error.kind]

/-! ### Deciding -/

variable {r : Ruling} {x : Step} {t : Transfer}

theorem refuse_tells (h : Deed.AllCalm ds) (found : r.Found x t ds) {why : Error}
    (kind : why.kind.isRefusal = true) :
    (refuse x r.actor why : Procedure Decision).Tells r.Account ds := by
  rw [tells_refuse]
  intro time
  exact .refused found h kind

theorem settle_tells {time : Instant} (h : Deed.AllCalm ds) (found : r.Found x t ds)
    (hid : x.id = r.stepId) :
    (settle x t r.actor r.outcome r.notes time).Tells r.Account ds := by
  rw [settle, hid]
  refine tells_ask.mpr fun k => ?_
  have hnotes (ds' : List Deed) : Deed.notes (ds ++ ds') = Deed.notes ds' := by
    rw [Deed.notes_append, h.notes, List.nil_append]
  rcases hupdate : (r.update time).run k with why | ⟨won, k'⟩
  · exact .broken (hnotes _) (Deed.broke_last hupdate)
  cases won with
  | false =>
    simp only [Bool.false_eq_true, if_false, tells_refuse, List.append_assoc, List.cons_append,
      List.nil_append]
    intro last
    exact .late found h hupdate
  | true =>
    simp only [if_true]
    rw [tells_stepsOf]
    intro s
    rcases hsteps : s.stepsOf t.id with why | steps
    · refine .broken ?_ (Deed.broke_last (by rw [Statement.run, hsteps]; rfl))
      rw [List.append_assoc, hnotes]
      rfl
    · simp only [tells_bind, tells_now, derive, tells_ofExcept, List.append_assoc,
        List.cons_append, List.nil_append]
      intro later
      cases hstate : t.state steps later with
      | error why => exact .unshown found h hupdate hsteps hstate
      | ok state =>
        simp only [Except.mapError, tells_ofOption]
        cases hagain : steps.find? fun y => y.id = r.stepId with
        | none => exact .unknown (hnotes _) rfl
        | some y =>
          simp only [Option.elim, tells_report, tells_pure, List.append_assoc, List.cons_append,
            List.nil_append]
          intro last
          obtain ⟨-, -, -, htransfer⟩ :=
            Store.exists_of_mem_stepsOf hsteps (List.mem_of_find?_eq_some hagain)
          have hends : r.Account (.ok ⟨y, state⟩) (ds ++ [.asked (r.update time) k,
              .asked (.stepsOf t.id) s, .read later, .read last, .noted (r.notice y state last)]) :=
            .shown found h hupdate hsteps hstate hagain
          rw [Ruling.notice, htransfer] at hends
          exact hends

theorem decide_tells (svc : Service) (r : Ruling) :
    (svc.decide r.stepId r.actor r.outcome r.notes).Tells r.Account [] := by
  rw [decide, tells_findStep]
  intro s₁
  rcases hx : s₁.findStep r.stepId with why | (_ | x)
  · exact .broken rfl ⟨_, _, List.mem_cons_self, by rw [Statement.run, hx]; rfl⟩
  · exact .unknown rfl rfl
  dsimp only [Store.found]
  rw [tells_bind, tells_require]
  intro s₂
  rcases ht : s₂.findTransfer x.transferId with why | (_ | t)
  · exact .broken rfl (Deed.broke_last (by rw [Statement.run, ht]; rfl))
  · exact .unknown rfl rfl
  dsimp only [Store.found]
  rw [tells_bind, tells_now]
  intro time
  dsimp only
  rw [tells_stepsOf]
  intro s₃
  rcases hsteps : s₃.stepsOf t.id with why | steps
  · exact .broken rfl (Deed.broke_last (by rw [Statement.run, hsteps]; rfl))
  have hcalm : Deed.AllCalm ([] ++ [.asked (.findStep r.stepId) s₁] ++
      [.asked (.findTransfer x.transferId) s₂] ++ [.read time] ++ [.asked (.stepsOf t.id) s₃]) :=
    (((Deed.allCalm_nil.asked rfl s₁).asked rfl s₂).read time).asked rfl s₃
  have hfound : r.Found x t ([] ++ [.asked (.findStep r.stepId) s₁] ++
      [.asked (.findTransfer x.transferId) s₂] ++ [.read time] ++ [.asked (.stepsOf t.id) s₃]) :=
    ⟨⟨s₁, by simp, hx⟩, ⟨s₂, by simp, ht⟩⟩
  generalize ([] ++ [.asked (.findStep r.stepId) s₁] ++
      [.asked (.findTransfer x.transferId) s₂] ++ [.read time] ++
      [.asked (.stepsOf t.id) s₃] : List Deed) = ds at hcalm hfound ⊢
  dsimp only
  rw [tells_bind, derive, tells_ofExcept]
  cases hstate : t.state steps time with
  | error why => exact .unchecked hcalm
  | ok state =>
    simp only [Except.mapError]
    split
    · exact refuse_tells hcalm hfound rfl
    · split
      · exact refuse_tells hcalm hfound rfl
      · rw [tells_consulting]
        split
        · exact settle_tells hcalm hfound (Store.id_of_findStep hx)
        · exact refuse_tells hcalm hfound rfl

end Service

namespace Operation

variable {svc : Service}

/-- **Every operation ends as its account tells.** -/
theorem tells (op : Operation) : (op.procedure svc).Tells (op.Account svc) [] := by
  cases op with
  | initiate id p initiator =>
    exact Procedure.Tells.map ((Service.initiate_tells id p initiator).mono
      fun b ds h => ⟨b, rfl, h⟩)
  | plan ids t =>
    exact Procedure.Tells.map ((Service.plan_tells ids t).mono fun b ds h => ⟨b, rfl, h⟩)
  | createStep id t type actor =>
    exact Procedure.Tells.map ((Service.createStep_tells id t type actor).mono
      fun b ds h => ⟨b, rfl, h⟩)
  | approve stepId actor notes =>
    exact Procedure.Tells.map ((Service.decide_tells svc ⟨stepId, actor, .approved, notes⟩).mono
      fun b ds h => ⟨b, rfl, h⟩)
  | reject stepId actor notes =>
    exact Procedure.Tells.map ((Service.decide_tells svc ⟨stepId, actor, .rejected, notes⟩).mono
      fun b ds h => ⟨b, rfl, h⟩)
  | complete id =>
    exact Procedure.Tells.map ((Service.complete_tells id).mono fun b ds h => ⟨b, rfl, h⟩)
  | status id => exact Service.glances_map (Service.status_tells id Deed.allCalm_nil)
  | state id => exact Service.glances_map (Service.state_tells id Deed.allCalm_nil)
  | stateAt id time => exact Service.glances_map (Service.stateAt_tells id time Deed.allCalm_nil)
  | history license => exact Service.glances_map (Service.history_tells license Deed.allCalm_nil)
  | pending actor => exact Service.glances_map (Service.pending_tells actor Deed.allCalm_nil)

end Operation

end SignOff
