/-
  SignOff/Proofs/Workflow/Reading.lean
  ====================================
  **How reads end.**  A status is of two moments: the transfer is read first and its steps
  later, when others may have used the store in between.  What is needed of the transfer
  never changes, so the state is that of the ledger in which the steps were read
  (`StatusEnds`).  Lists of statuses and of pending steps are read transfer by transfer.

  A transfer that an answer shows is one that the ledger `Knows`: all of it is stored, but
  for the time of its completion, which may have come meanwhile.
-/
import SignOff.Proofs.Workflow.Contract
import SignOff.Proofs.Ledger.State

namespace SignOff

/-- The ledger has the transfer, completed or not. -/
def Ledger.Knows (l : Ledger) (t : Transfer) : Prop :=
  ∃ u ∈ l.transfers, { t.asRead with completedAt := u.completedAt } = u

theorem Ledger.Knows.grows {l m : Ledger} {t : Transfer} (h : l.Knows t) (hg : l.Grows m) :
    m.Knows t := by
  obtain ⟨u, hu, htu⟩ := h
  obtain ⟨v, hv, huv⟩ := hg.mem_transfers hu
  refine ⟨v, hv, ?_⟩
  rcases huv with rfl | ⟨-, time, rfl⟩
  · exact htu
  · rw [← htu]
    rfl

theorem Ledger.Coherent.knows {timeouts : Timeouts} {l : Ledger} (h : l.Coherent timeouts)
    {t : Transfer} (ht : t ∈ l.transfers) : l.Knows t :=
  ⟨t, ht, by rw [(h.legible.transfers t ht).2]⟩

/-- The state of a stored transfer, as of an instant. -/
def Store.stateOf (s : Store) (id : String) (time : Instant) : Except Halt State :=
  ((Service.stateAt id time).run Audit.Trail.silent time s ()).answer

theorem Ledger.Coherent.stateOf_store {timeouts : Timeouts} {l : Ledger} (h : l.Coherent timeouts)
    (id : String) (time : Instant) :
    l.store.stateOf id time =
      (l.transfer? id).elim (.error (.failed (.noSuchTransfer id))) fun t =>
        (l.state t time).mapError .overflow := by
  simp only [Store.stateOf, Service.stateAt, Service.statusAt, Service.require, Service.statusOf,
    Service.derive, Procedure.run, bind, pure, Procedure.bind, Procedure.query, Procedure.runWith,
    Statement.run_store h.legible, Statement.on, Except.map]
  cases hfind : l.transfer? id with
  | none => rfl
  | some t =>
    simp only [Procedure.ofOption, Procedure.bind, Procedure.runWith,
      Statement.run_store h.legible, Statement.on, Except.map, Option.elim, Ledger.state]
    cases t.state (l.stepsOf t.id) time with
    | error why => rfl
    | ok s => rfl

/-- A stored transfer has the state that its ledger gives it. -/
theorem Ledger.Coherent.stateOf_eq_ok_iff {timeouts : Timeouts} {l : Ledger}
    (h : l.Coherent timeouts) {id : String} {time : Instant} {s : State} :
    l.store.stateOf id time = .ok s ↔ ∃ t, l.transfer? id = some t ∧ l.state t time = .ok s := by
  rw [h.stateOf_store]
  cases l.transfer? id with
  | none => simp
  | some t => cases hs : l.state t time <;> simp [Except.mapError, hs]

/-- The ends of reading a status as of `time`, after `ds` and in the ledger `l`. -/
inductive StatusEnds (R : Ledger → Ledger → Prop) (id : String) (time : Instant) (ds : List Deed)
    (l : Ledger) : Procedure.Post Status
  | missing {m : Ledger} (rely : R l m) (missing : m.transfer? id = none) :
      StatusEnds R id time ds l (.error (.failed (.noSuchTransfer id)))
        (ds ++ [.asked (.findTransfer id) m.store]) m
  | overflowed {k m : Ledger} {t : Transfer} {why : Overflow} (rely : R l k)
      (found : k.transfer? id = some t) (after : R k m) (state : m.state t time = .error why) :
      StatusEnds R id time ds l (.error (.overflow why))
        (ds ++ [.asked (.findTransfer id) k.store, .asked (.stepsOf id) m.store]) m
  | shown {k m : Ledger} {t : Transfer} {s : State} (rely : R l k)
      (found : k.transfer? id = some t) (after : R k m) (state : m.state t time = .ok s) :
      StatusEnds R id time ds l (.ok ⟨t, m.stepsOf id, s⟩)
        (ds ++ [.asked (.findTransfer id) k.store, .asked (.stepsOf id) m.store]) m

theorem StatusEnds.knows {timeouts : Timeouts} {R : Ledger → Ledger → Prop} {id : String}
    {time : Instant} {ds ds' : List Deed} {l m : Ledger} {s : Status}
    (h : StatusEnds R id time ds l (.ok s) ds' m) (hR : Rely timeouts R)
    (hl : l.Coherent timeouts) : m.Knows s.transfer := by
  cases h with
  | shown rely found after state =>
    have hk := (hR.evolves rely).coherent hl
    exact (hk.knows (Ledger.mem_of_transfer? found).1).grows (hR.evolves after).grows

theorem StatusEnds.mem {R : Ledger → Ledger → Prop} {id : String} {time : Instant}
    {ds ds' : List Deed} {l m : Ledger} {b : Except Halt Status} {d : Deed}
    (h : StatusEnds R id time ds l b ds' m) (hd : d ∈ ds) : d ∈ ds' := by
  cases h with
  | missing rely missing => exact List.mem_append_left _ hd
  | overflowed rely found after state => exact List.mem_append_left _ hd
  | shown rely found after state => exact List.mem_append_left _ hd

/-- Read alone, the status shows the state that the ledger gives. -/
theorem StatusEnds.alone {id : String} {time : Instant} {ds ds' : List Deed} {l m : Ledger}
    {b : Except Halt Status} (h : StatusEnds Eq id time ds l b ds' m) :
    m = l ∧ ∀ s, (∃ x, b = .ok x ∧ x.state = s) ↔
      ∃ t, l.transfer? id = some t ∧ l.state t time = .ok s := by
  cases h with
  | missing rely missing =>
    subst rely
    simp [missing]
  | overflowed rely found after state =>
    subst rely after
    simp [found, state]
  | shown rely found after state =>
    subst rely after
    simp [found, state]

namespace Service

open Procedure

variable {svc : Service} {timeouts : Timeouts} {R : Ledger → Ledger → Prop} {op : Operation}
  {ds : List Deed} {l m : Ledger} {id : String} {time : Instant}

theorem statusOf_meets {t : Transfer} {post : Post Status}
    (h : ∀ m, R l m →
      post ((m.state t time).mapError .overflow |>.map fun s => ⟨t, m.stepsOf t.id, s⟩)
        (ds ++ [.asked (.stepsOf t.id) m.store]) m) :
    (statusOf t time).Meets R (op.May timeouts) post ds l := by
  rw [statusOf]
  simp only [meets_bind, meets_stepsOf, meets_derive, meets_pure]
  intro m hm
  have hend := h m hm
  rw [Ledger.state] at hend
  cases hs : t.state (m.stepsOf t.id) time with
  | error why => rw [hs] at hend; exact hend
  | ok s => rw [hs] at hend; exact hend

theorem statusAt_meets (id : String) (time : Instant) :
    (statusAt id time).Meets R (op.May timeouts) (StatusEnds R id time ds l) ds l := by
  rw [statusAt]
  simp only [meets_bind, meets_require]
  intro k hk
  cases ht : k.transfer? id with
  | none => exact .missing hk ht
  | some t =>
    obtain ⟨-, rfl⟩ := Ledger.mem_of_transfer? ht
    refine statusOf_meets fun m hm => ?_
    rw [List.append_assoc]
    cases hs : m.state t time with
    | error why => exact .overflowed hk ht hm hs
    | ok s => exact .shown hk ht hm hs

theorem status_meets (ds : List Deed) (id : String) :
    (status id).Meets R (op.May timeouts)
      (fun a ds' m => ∃ time, time.Keepable ∧ StatusEnds R id time (ds ++ [.read time]) l a ds' m)
      ds l := by
  rw [status, meets_bind, meets_now]
  intro time htime
  exact (statusAt_meets id time).mono fun a ds m h => ⟨time, htime, h⟩

theorem stateAt_meets (id : String) (time : Instant) :
    (stateAt id time).Meets R (op.May timeouts)
      (fun a ds' m => ∃ b : Except Halt Status, a = b.map (fun s => s.state) ∧
        StatusEnds R id time ds l b ds' m) ds l :=
  Meets.map ((statusAt_meets id time).mono fun b _ _ h => ⟨b, rfl, h⟩)

theorem state_meets (id : String) :
    (state id).Meets R (op.May timeouts)
      (fun a ds' m => ∃ b : Except Halt Status, a = b.map (fun s => s.state) ∧
        ∃ time, StatusEnds R id time (ds ++ [.read time]) l b ds' m) ds l := by
  rw [state, meets_bind, meets_now]
  intro time _
  refine (stateAt_meets id time).mono fun a ds m h => ?_
  obtain ⟨b, hb, hends⟩ := h
  exact ⟨b, hb, time, hends⟩

/-! ### Lists -/

/-- Every transfer of the list is known in the end, if the first ones were. -/
theorem statuses_meets (hR : Rely timeouts R) (ts : List Transfer) (hts : ∀ t ∈ ts, l.Knows t) :
    (statuses time ts).Meets R (op.May timeouts)
      (fun a _ m => ∀ l, a = .ok l → ∀ s ∈ l, m.Knows s.transfer) ds l := by
  induction ts generalizing ds l with
  | nil =>
    rw [statuses, meets_pure]
    intro ss hss
    rw [← Except.ok.inj hss]
    exact fun s hs => absurd hs List.not_mem_nil
  | cons t rest ih =>
    rw [statuses, meets_bind]
    refine statusOf_meets fun m hm => ?_
    have hgrows := (hR.evolves hm).grows
    cases m.state t time with
    | error why => exact fun ss hss => nomatch hss
    | ok s =>
      simp only [Except.mapError, Except.map, meets_bind, meets_pure]
      refine Meets.mono (Meets.kept (Q := Ledger.Grows)
        (ih fun u hu => (hts u (List.mem_cons_of_mem t hu)).grows hgrows)
        (.refl m) (fun h h' => h.trans (hR.evolves h').grows)
        (fun _ hq h => h.trans (Statement.makes hq).grows)) fun a ds' n hn => ?_
      cases a with
      | error why => exact fun ss hss => nomatch hss
      | ok ss =>
        intro ss' hss'
        rw [← Except.ok.inj hss']
        intro s' hs'
        rcases List.mem_cons.mp hs' with rfl | hs'
        · exact ((hts t List.mem_cons_self).grows hgrows).grows hn.2
        · exact hn.1 ss rfl s' hs'

theorem history_meets (hR : Rely timeouts R) (hl : l.Coherent timeouts) (license : String) :
    (history license).Meets R (op.May timeouts)
      (fun a _ m => ∀ l, a = .ok l → ∀ s ∈ l, m.Knows s.transfer) ds l := by
  rw [history]
  simp only [meets_bind, meets_now, meets_transfersOf]
  intro time _ m hm
  have hmco := (hR.evolves hm).coherent hl
  exact statuses_meets hR _ fun t ht =>
    hmco.knows (List.mem_of_mem_filter (mem_byText.mp ht))

/-- Asking whether a step can be decided is only reading. -/
theorem isDecidable_meets (step : Step) (t : Transfer) (actor : Actor) (time : Instant) :
    (svc.isDecidable step t actor time).Meets R (op.May timeouts) (fun _ _ _ => True) ds l := by
  rw [isDecidable]
  split
  · rw [meets_consulting]
    split
    · simp only [meets_bind, meets_stepsOf, meets_derive]
      intro m _
      cases t.state (m.stepsOf t.id) time <;> trivial
    · trivial
  · trivial

theorem decidable_meets (actor : Actor) (time : Instant) (steps : List Step) :
    (svc.decidable actor time steps).Meets R (op.May timeouts) (fun _ _ _ => True) ds l := by
  induction steps generalizing ds l with
  | nil => trivial
  | cons step rest ih =>
    rw [decidable]
    simp only [meets_bind, meets_findTransfer]
    intro m _
    cases m.transfer? step.transferId with
    | none => exact ih
    | some t =>
      simp only [meets_bind]
      refine (isDecidable_meets step t actor time).mono fun a ds m _ => ?_
      cases a with
      | error why => trivial
      | ok b =>
        cases b with
        | false => exact ih
        | true =>
          simp only [if_true, meets_bind]
          refine ih.mono fun a ds m _ => ?_
          cases a <;> trivial

theorem pending_meets (actor : Actor) :
    (svc.pending actor).Meets R (op.May timeouts) (fun _ _ _ => True) ds l := by
  rw [pending]
  simp only [meets_bind, meets_now, meets_pendingSteps]
  intro time _ m _
  exact decidable_meets actor time _

end Service

end SignOff
