/-
  SignOff/Proofs/PendingList.lean
  ===============================
  **The list of pending steps can be relied on.**  What an actor is shown as pending is found in
  another way than what it may decide: there the open steps of all transfers are gone through,
  here one step is checked.  Both come to the same.  The list has the steps of pending
  transfers whose approval by the actor would succeed now, all of them, each once, and the
  oldest first; and a rejection would succeed as well (`pending_list`).
-/
import SignOff.Proofs.Workflow.Checking
import SignOff.Proofs.Time.Order

namespace SignOff

open Audit

/-- The decision would succeed at this instant. -/
def Store.Accepts (svc : Service) (s : Store) (op : Operation) (time : Instant) : Prop :=
  ∃ d, ((op.procedure svc).run Trail.silent time s ()).answer = .ok (.decision d)

/-- The list has what the actor can decide of pending transfers at this instant. -/
structure Store.ListsPending (svc : Service) (s : Store) (actor : Actor) (time : Instant)
    (xs : List Step) : Prop where
  once : (xs.map fun x => x.id).Nodup
  sorted : xs.Pairwise fun x y => x.createdAt ≤ y.createdAt
  mem_iff : ∀ x notes, x ∈ xs ↔ (∃ row ∈ s.steps, row.step = .ok x) ∧
    s.stateOf x.transferId time = .ok .pending ∧
    s.Accepts svc (.approve x.id actor notes) time
  rejects : ∀ x ∈ xs, ∀ notes, s.Accepts svc (.reject x.id actor notes) time

/-- The actor may decide the step, and its transfer is pending. -/
def Ledger.isListed (svc : Service) (l : Ledger) (actor : Actor) (time : Instant) (x : Step) :
    Bool :=
  (l.transfer? x.transferId).any fun t =>
    svc.policy.allows x t actor && l.state t time = .ok .pending

variable {svc : Service} {σ : Type} {trail : Trail σ} {s : Store} {w : σ} {l : Ledger}
  {op : Operation} {r : Ruling} {readings : Nat → Instant} {time : Instant} {x : Step}
  {t : Transfer} {actor : Actor}

/-! ### What is accepted -/

theorem Store.accepts_iff_check (hop : op.ruling? = some r) (hkeyed : s.Keyed)
    (htime : time.Keepable) : s.Accepts svc op time ↔ ∃ found, r.check svc time s = .ok found := by
  have hrun := Operation.checked svc hop hkeyed (fun _ => time) htime Trail.silent ()
  rw [Procedure.runAlong_const] at hrun
  cases hcheck : r.check svc time s with
  | error why =>
    rw [hcheck] at hrun
    simp [Accepts, hrun.1]
  | ok found =>
    rw [hcheck] at hrun
    obtain ⟨steps, state, -, -, hanswer, -⟩ := hrun
    simp [Accepts, hanswer]

/-- What is accepted on a step of a stored transfer. -/
theorem Store.accepts_iff (hop : op.ruling? = some r) (hkeyed : s.Keyed) (htime : time.Keepable)
    (hx : s.findStep r.stepId = .ok (some x)) (ht : s.findTransfer t.id = .ok (some t))
    (hid : t.id = x.transferId) :
    s.Accepts svc op time ↔ (∃ state, s.stateOf t.id time = .ok state ∧ state ≠ .expired) ∧
      x.outcome = .pending ∧ svc.policy.allows x t r.actor = true := by
  rw [accepts_iff_check hop hkeyed htime, Ruling.check_of_found hx ht hid]
  constructor
  · rintro ⟨found, h⟩
    obtain ⟨state, hstate, h⟩ := exists_of_bind_eq_ok h
    split at h
    · cases h
    · next hne =>
      split at h
      · cases h
      · next hmay =>
        split at h
        · next hallowed =>
          have hmay : x.outcome.mayBecome r.outcome = true := by simpa using hmay
          exact ⟨⟨state, hstate, hne⟩, (Outcome.mayBecome_iff.mp hmay).1, hallowed⟩
        · cases h
  · rintro ⟨⟨state, hstate, hne⟩, hpending, hallowed⟩
    have hmay : x.outcome.mayBecome r.outcome = true :=
      Outcome.mayBecome_iff.mpr ⟨hpending, Operation.terminal_of_ruling hop⟩
    refine ⟨(x, t), ?_⟩
    rw [hstate, ok_bind, if_neg hne, hmay, hallowed]
    rfl

/-! ### What is listed -/

/-- Whether a needed step can be decided is told without halting, if no expiry overflows. -/
theorem Service.isDecidable_runAlong (hl : l.Coherent svc.timeouts) (fits : l.FitsCalendar)
    (hneeds : t.needs x.type = true) {β : Type} (f : Bool → Procedure β) :
    (svc.isDecidable x t actor time >>= f).runAlong trail readings l.store w =
      (f (svc.policy.allows x t actor && l.state t time = .ok .pending)).runAlong trail readings
        l.store w := by
  rw [isDecidable, if_pos hneeds, Procedure.runAlong_consulting_bind]
  cases svc.policy.allows x t actor with
  | false => rfl
  | true =>
    obtain ⟨state, hstate⟩ := hl.state_of_fits fits t time
    simp only [if_true, bind_assoc, Bool.true_and]
    rw [Procedure.runAlong_stepsOf, Ledger.stepsOf_store hl.legible]
    simp only [Except.mapError]
    rw [Procedure.runAlong_derive]
    rw [Ledger.state] at hstate ⊢
    rw [hstate]
    simp only [Except.mapError, pure_bind, Except.ok.injEq]

/-- **The steps of a list are passed on that the actor may decide.** -/
theorem Service.decidable_runAlong (hl : l.Coherent svc.timeouts) (fits : l.FitsCalendar)
    {xs : List Step} (hxs : ∀ x ∈ xs, x ∈ l.steps) :
    (svc.decidable actor time xs).runAlong trail readings l.store w =
      ⟨.ok (xs.filter (l.isListed svc actor time)), l.store, w⟩ := by
  induction xs with
  | nil => rfl
  | cons x rest ih =>
    have hrest := ih fun y hy => hxs y (List.mem_cons_of_mem x hy)
    obtain ⟨t, ht, hserves⟩ := hl.serves x (hxs x List.mem_cons_self)
    have hfound : l.transfer? x.transferId = some t := hserves.transferId ▸ hl.transfer?_eq_some ht
    have hlisted : l.isListed svc actor time x =
        (svc.policy.allows x t actor && l.state t time = .ok .pending) := by
      rw [Ledger.isListed, hfound, Option.any_some]
    rw [decidable, Procedure.runAlong_query, Statement.run, Ledger.findTransfer_store hl.legible,
      hfound]
    simp only [Except.map]
    rw [isDecidable_runAlong hl fits hserves.needed, ← hlisted]
    cases hthis : l.isListed svc actor time x with
    | true =>
      simp only [if_true]
      rw [Procedure.runAlong_map, hrest, List.filter_cons_of_pos hthis]
      rfl
    | false =>
      simp only [Bool.false_eq_true, if_false]
      rw [hrest, List.filter_cons_of_neg (by simp [hthis])]

/-! ### The list -/

namespace Ledger

/-- Listed are the open steps, of pending transfers, that the actor may decide. -/
theorem mem_listed :
    x ∈ l.pendingSteps.filter (l.isListed svc actor time) ↔
      x ∈ l.steps ∧ x.outcome = .pending ∧ ∃ t, l.transfer? x.transferId = some t ∧
        svc.policy.allows x t actor = true ∧ l.state t time = .ok .pending := by
  rw [List.mem_filter, pendingSteps, mem_byText, List.mem_filter, isListed, Option.any_eq_true]
  simp only [Bool.and_eq_true, decide_eq_true_eq, and_assoc]

namespace Coherent

theorem listed_once (h : l.Coherent svc.timeouts) (p : Step → Bool) :
    ((l.pendingSteps.filter p).map fun x => x.id).Nodup := by
  have hopen : ((l.steps.filter fun x => x.outcome = .pending).map fun x => x.id).Nodup :=
    h.step_ids.sublist (List.filter_sublist.map _)
  have hpending : (l.pendingSteps.map fun x => x.id).Nodup :=
    ((byText_perm _ _).map fun x : Step => x.id).nodup_iff.mpr hopen
  exact hpending.sublist (List.filter_sublist.map _)

/-- Steps are listed by the texts of their creation, and these sort by time. -/
theorem listed_sorted (h : l.Coherent svc.timeouts) (p : Step → Bool) :
    (l.pendingSteps.filter p).Pairwise fun x y => x.createdAt ≤ y.createdAt := by
  apply List.Pairwise.filter
  apply byText_chronological
  intro x hx
  exact (h.legible.steps x (List.mem_of_mem_filter hx)).1.created

/-- **A step is listed for an actor if its transfer is pending and a decision of the actor would
    be accepted.** -/
theorem mem_listed_iff (h : l.Coherent svc.timeouts) (hkeyed : l.store.Keyed)
    (htime : time.Keepable) (hop : op.ruling? = some r) (hid : x.id = r.stepId) :
    x ∈ l.pendingSteps.filter (l.isListed svc r.actor time) ↔
      x ∈ l.steps ∧ l.store.stateOf x.transferId time = .ok .pending ∧
        l.store.Accepts svc op time := by
  have haccepts : x ∈ l.steps → ∀ t, l.transfer? x.transferId = some t →
      (l.store.Accepts svc op time ↔ (∃ state, l.store.stateOf t.id time = .ok state ∧
        state ≠ .expired) ∧ x.outcome = .pending ∧ svc.policy.allows x t r.actor = true) := by
    intro hx t ht
    obtain ⟨hmem, htid⟩ := mem_of_transfer? ht
    apply Store.accepts_iff hop hkeyed htime
    · rw [← hid]
      exact h.findStep_of_mem hx
    · exact h.findTransfer_of_mem hmem
    · exact htid
  rw [mem_listed, h.stateOf_eq_ok_iff]
  constructor
  · rintro ⟨hx, hpending, t, ht, hallowed, hstate⟩
    refine ⟨hx, ⟨t, ht, hstate⟩, (haccepts hx t ht).mpr ⟨⟨.pending, ?_, ?_⟩, hpending, hallowed⟩⟩
    · rw [h.stateOf_eq_ok_iff]
      obtain ⟨hmem, htid⟩ := mem_of_transfer? ht
      exact ⟨t, h.transfer?_eq_some hmem, hstate⟩
    · decide
  · rintro ⟨hx, ⟨t, ht, hstate⟩, haccepted⟩
    obtain ⟨-, hpending, hallowed⟩ := (haccepts hx t ht).mp haccepted
    exact ⟨hx, hpending, t, ht, hallowed, hstate⟩

end Coherent

end Ledger

/-- **The pending list is right.**  On every store that a run leads to, whoever asks is shown
    the steps of pending transfers that it can decide now, each once and the oldest first. -/
theorem pending_list {turns : List Turn} (run : Run svc trail turns s w) (fits : s.FitsCalendar)
    (hkeep : ∀ k, (readings k).Keepable) (actor : Actor) {σ' : Type} (trail' : Trail σ') (w' : σ') :
    ∃ xs, (((Operation.pending actor).procedure svc).runAlong trail' readings s w').answer =
        .ok (.steps xs) ∧ s.ListsPending svc actor (readings 0) xs := by
  have hkeyed : s.Keyed := run.session.reaches.keyed
  obtain ⟨l, rfl, history⟩ := run.history
  have hl := history.coherent
  have hfits : l.FitsCalendar := fits.ledger hl.legible
  refine ⟨l.pendingSteps.filter (l.isListed svc actor (readings 0)), ?_, ?_⟩
  · have hsteps : ∀ x ∈ l.pendingSteps, x ∈ l.steps := by
      intro x hx
      exact List.mem_of_mem_filter (mem_byText.mp hx)
    rw [Operation.procedure, Procedure.runAlong_map, Service.pending, Procedure.runAlong_now,
      Procedure.runAlong_query, Statement.run, Ledger.pendingSteps_store hl.legible]
    simp only [Except.map]
    rw [Service.decidable_runAlong hl hfits hsteps]
  · constructor
    · exact hl.listed_once _
    · exact hl.listed_sorted _
    · intro x notes
      rw [hl.legible.exists_row_iff]
      exact hl.mem_listed_iff hkeyed (hkeep 0) (r := ⟨x.id, actor, .approved, notes⟩) rfl rfl
    · intro x hx notes
      exact ((hl.mem_listed_iff hkeyed (hkeep 0) (r := ⟨x.id, actor, .rejected, notes⟩) rfl
        rfl).mp hx).2.2

/-- A sale that everyone has to sign off, and a gift of the next day. -/
def Sample.saleThenGift : List (Operation × Instant) :=
  [(.initiate "sale" sale none, firstDay),
   (.plan stepIds recordedSale, firstDay),
   (.initiate "gift" gift none, secondDay),
   (.createStep "step" (.ofProposal "gift" gift none secondDay) .target none, secondDay)]

/-- The steps that the answer lists. -/
def Answer.listed : Answer → List String
  | .steps xs => xs.map fun x => x.id
  | _ => []

/-- The buyer has a step in either, and is shown both, first that of the sale.  Eight days later
    they are as open as before, but expired. -/
theorem saleThenGift_pending :
    ∃ r ∈ play Sample.service .silent Sample.saleThenGift [] .empty (),
      let asked (time : Instant) := (((Operation.pending (.ofOwner Sample.buyer)).procedure
        Sample.service).runAlong Trail.silent (fun _ => time) r.2.1 ()).answer
      r.2.1.FitsCalendar ∧ (asked Sample.secondDay).map Answer.listed = .ok ["second", "step"] ∧
        (asked Sample.lastDay).map Answer.listed = .ok [] ∧
        ∀ time ∈ [Sample.secondDay, Sample.lastDay], ∃ xs, asked time = .ok (.steps xs) ∧
          r.2.1.ListsPending Sample.service (.ofOwner Sample.buyer) time xs := by
  have hplays : ∃ r ∈ play Sample.service .silent Sample.saleThenGift [] .empty (),
      let asked (time : Instant) := (((Operation.pending (.ofOwner Sample.buyer)).procedure
        Sample.service).runAlong Trail.silent (fun _ => time) r.2.1 ()).answer
      r.2.1.FitsCalendar ∧ (asked Sample.secondDay).map Answer.listed = .ok ["second", "step"] ∧
        (asked Sample.lastDay).map Answer.listed = .ok [] := by
    decide +kernel
  obtain ⟨r, hplay, hfits, hsecond, hlast⟩ := hplays
  refine ⟨r, hplay, hfits, hsecond, hlast, ?_⟩
  intro time htime
  have hkeep : ∀ time ∈ [Sample.secondDay, Sample.lastDay], time.Keepable := by decide
  exact pending_list ((Run.start ()).play hplay) hfits (fun _ => hkeep time htime)
    (.ofOwner Sample.buyer) .silent ()

end SignOff
