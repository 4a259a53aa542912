/-
  SignOff/Proofs/LicenseHistory.lean
  ==================================
  **The history of a license.**  In a session the calls may be handed any transfers, and the
  clock may go back or show a leap second; still every row is one that its record is read
  back from, and the transfers in the table are those that the calls have recorded, one
  after the other (`Session.ledger`).  So the history of a license lists every transfer
  that was ever recorded for it, once each; it lists them by the texts of their creation,
  which sort by time; and of each it says what the status says at that instant
  (`license_history`).
-/
import SignOff.Proofs.Workflow.Checking
import SignOff.Proofs.Time.Order

namespace SignOff

open Audit

/-- The transfer but for its completion. -/
def Transfer.opened (t : Transfer) : Transfer := { t with completedAt := none }

/-- The transfer that the call has recorded. -/
def Turn.recorded? (turn : Turn) : Option Transfer :=
  match turn.op, turn.answer with
  | .initiate _ _ _, .ok (.transfer t) => some t
  | _, _ => none

/-- What the history of a license is on the store `s`, after these calls and at this instant. -/
structure LicenseHistory (svc : Service) (turns : List Turn) (s : Store) (license : String)
    (time : Instant) (entries : List Status) : Prop where
  once : (entries.map fun x => x.transfer.id).Nodup
  /-- what has been recorded for the license is listed, as it is read back, and nothing else -/
  complete : (entries.map fun x => x.transfer.opened).Perm
    (((turns.filterMap Turn.recorded?).filter fun t => t.license = license).map Transfer.asRead)
  chronological : entries.Pairwise fun x y => x.transfer.createdAt ≤ y.transfer.createdAt
  steps_chronological : ∀ x ∈ entries, x.steps.Pairwise fun a b => a.createdAt ≤ b.createdAt
  /-- whoever asks for the status of one of them at that instant is told the same -/
  consistent : ∀ x ∈ entries, ∀ {τ : Type} (trail : Trail τ) (v : τ) (readings : Nat → Instant),
    readings 0 = time →
      (((Operation.status x.transfer.id).procedure svc).runAlong trail readings s v).answer =
        .ok (.status x)

variable {svc : Service} {σ τ : Type} {trail : Trail σ} {readings : Nat → Instant} {s : Store}
  {w : σ} {turns : List Turn} {l m : Ledger} {t : Transfer} {time : Instant} {q : Statement}

/-! ### Statements -/

namespace Ledger

/-- What is dated by a clock that shows years with four digits can be read back. -/
theorem Legible.makes (h : l.Legible) (hq : q.Dated Instant.Keepable svc.timeouts)
    (hm : q.Makes l m) : m.Legible := by
  cases hm with
  | reads reads => exact h
  | transfer inserted =>
    obtain ⟨hcreated, hopen⟩ := hq
    apply h.insertTransfer ⟨hcreated, ?_⟩ inserted
    simp [hopen]
  | steps inserted =>
    apply h.insertSteps ?_ inserted
    intro x hx
    obtain ⟨hcreated, hfresh⟩ := hq x hx
    refine ⟨hcreated, ?_⟩
    rw [hfresh]
    simp [Step.fresh]
  | settled terminal => exact h.settle _ _ _ _ hq
  | stamped => exact h.stamp _ hq

theorem Legible.run (h : l.Legible) (hq : q.Dated Instant.Keepable svc.timeouts)
    {r : q.Reply × Store} (hr : q.run l.store = .ok r) :
    ∃ m : Ledger, r.2 = m.store ∧ m.Legible ∧ q.Makes l m := by
  rw [Statement.run_store h] at hr
  obtain ⟨⟨reply, m⟩, hm, rfl⟩ := exists_of_map_eq_ok hr
  exact ⟨m, rfl, h.makes hq (Statement.makes hm), Statement.makes hm⟩

end Ledger

/-- Only an insertion of transfers changes which ones there are. -/
theorem Statement.Makes.opened (h : q.Makes l m) (hq : ∀ t, q ≠ .insertTransfer t) :
    m.transfers.map Transfer.opened = l.transfers.map Transfer.opened := by
  cases h with
  | reads reads => rfl
  | transfer inserted => exact absurd rfl (hq _)
  | steps inserted => rw [Ledger.eq_of_insertSteps inserted]
  | settled terminal => rfl
  | stamped =>
    rw [Ledger.stamp, List.map_map]
    apply List.map_congr_left
    intro t _
    dsimp only [Function.comp]
    split <;> rfl

/-! ### Calls -/

namespace Operation

theorem opened_kept {op : Operation} {e : Procedure.Ending Answer σ}
    (he : (op.procedure svc).runAlong trail readings l.store w = e)
    (hop : ∀ t, ¬op.Alters (.insertTransfer t)) (h : l.Legible)
    (hkeep : ∀ k, (readings k).Keepable) :
    ∃ m : Ledger, e.store = m.store ∧ m.Legible ∧
      m.transfers.map Transfer.opened = l.transfers.map Transfer.opened := by
  rw [← he]
  apply op.store_kept Instant.Keepable (P := fun s => ∃ m : Ledger, s = m.store ∧ m.Legible ∧
    m.transfers.map Transfer.opened = l.transfers.map Transfer.opened) ?_ trail hkeep
    ⟨l, rfl, h, rfl⟩ w
  rintro q s r hq halters ⟨k, rfl, hk, hopened⟩ hr
  obtain ⟨m, hm, hlegible, hmakes⟩ := hk.run hq hr
  refine ⟨m, hm, hlegible, (hmakes.opened ?_).trans hopened⟩
  rintro t rfl
  exact hop t (halters rfl)

/-- A proposal is recorded, or the call fails and changes nothing. -/
theorem initiate_alone (svc : Service) (trail : Trail σ) (readings : Nat → Instant) (s : Store)
    (w : σ) (id : String) (p : Proposal) (initiator : Option Owner)
    {e : Procedure.Ending Answer σ}
    (he : ((Operation.initiate id p initiator).procedure svc).runAlong trail readings s w = e) :
    match s.insertTransfer (.ofProposal id p initiator (readings 0)) with
    | .ok s' =>
      e.answer = .ok (.transfer (.ofProposal id p initiator (readings 0))) ∧ e.store = s'
    | .error why => e.answer = .error (.failed why) ∧ e.store = s := by
  subst he
  rw [procedure, Procedure.runAlong_map, Service.initiate, Procedure.runAlong_now,
    Procedure.runAlong_query, Statement.run]
  cases s.insertTransfer (.ofProposal id p initiator (readings 0)) <;> exact ⟨rfl, rfl⟩

/-- **A call adds the transfer that it has recorded**, and none else. -/
theorem recording (op : Operation) (h : l.Legible) (hkeep : ∀ k, (readings k).Keepable)
    {e : Procedure.Ending Answer σ}
    (he : (op.procedure svc).runAlong trail readings l.store w = e) :
    ∃ m : Ledger, e.store = m.store ∧ m.Legible ∧ m.transfers.map Transfer.opened =
      l.transfers.map Transfer.opened ++
        ((Turn.recorded? ⟨op, readings, l.store, e.answer, e.store⟩).map Transfer.asRead).toList := by
  cases op with
  | initiate id p initiator =>
    have hends := initiate_alone svc trail readings l.store w id p initiator he
    rw [Ledger.insertTransfer_store] at hends
    cases hm : l.insertTransfer (.ofProposal id p initiator (readings 0)) with
    | error why =>
      rw [hm] at hends
      obtain ⟨hanswer, hstore⟩ := hends
      exact ⟨l, hstore, h, by simp [Turn.recorded?, hanswer]⟩
    | ok m =>
      rw [hm] at hends
      obtain ⟨hanswer, hstore⟩ := hends
      refine ⟨m, hstore, h.insertTransfer ⟨hkeep 0, by simp [Transfer.ofProposal]⟩ hm, ?_⟩
      rw [(Ledger.eq_of_insertTransfer hm).2, hanswer, List.map_append]
      rfl
  | _ =>
    obtain ⟨m, hm, hlegible, hopened⟩ := opened_kept he (fun _ => id) h hkeep
    exact ⟨m, hm, hlegible, by rw [hopened]; exact (List.append_nil _).symm⟩

end Operation

/-- **The transfers in the table are those that the calls have recorded**, in their order. -/
theorem Session.ledger (h : Session svc trail turns s w) :
    ∃ l : Ledger, s = l.store ∧ l.Legible ∧ l.transfers.map Transfer.opened =
      (turns.filterMap Turn.recorded?).map Transfer.asRead := by
  induction h with
  | start w => exact ⟨.empty, rfl, ⟨by simp [Ledger.empty], by simp [Ledger.empty]⟩, rfl⟩
  | call session op readings keepable ending ih =>
    obtain ⟨l, rfl, hl, hrecorded⟩ := ih
    obtain ⟨m, hm, hlegible, hopened⟩ := op.recording hl keepable ending
    refine ⟨m, hm, hlegible, ?_⟩
    rw [hopened, hrecorded, List.filterMap_append, List.map_append, List.filterMap_cons]
    cases Turn.recorded? _ <;> rfl

/-! ### Reading -/

/-- A status that is read of a transfer at hand is the one that is read under its identifier. -/
theorem Procedure.runAlong_statusOf {α : Type} (ht : s.findTransfer t.id = .ok (some t))
    (trail : Trail σ) (readings : Nat → Instant) (w : σ) (time : Instant)
    (f : Status → Procedure α) :
    (Service.statusOf t time >>= f).runAlong trail readings s w =
      match s.status t.id time with
      | .ok x => (f x).runAlong trail readings s w
      | .error why => ⟨.error why, s, w⟩ := by
  have h := runAlong_statusAt trail readings s w t.id time f
  rw [Service.statusAt, bind_assoc, runAlong_require, ht] at h
  exact h

theorem Service.statuses_alone (trail : Trail σ) (readings : Nat → Instant) (w : σ)
    (time : Instant) {ts : List Transfer} (hfound : ∀ t ∈ ts, s.findTransfer t.id = .ok (some t))
    (htold : ∀ t ∈ ts, ∃ x, s.status t.id time = .ok x) :
    ∃ entries, ((statuses time ts).runAlong trail readings s w).answer = .ok entries ∧
      (entries.map fun x => x.transfer) = ts ∧
      ∀ x ∈ entries, s.status x.transfer.id time = .ok x := by
  induction ts generalizing readings w with
  | nil => exact ⟨[], rfl, rfl, by simp⟩
  | cons t rest ih =>
    obtain ⟨x, hx⟩ := htold t List.mem_cons_self
    have hthis := hfound t List.mem_cons_self
    obtain ⟨entries, hanswer, hentries, hstatus⟩ := ih readings w
      (fun u hu => hfound u (List.mem_cons_of_mem t hu))
      (fun u hu => htold u (List.mem_cons_of_mem t hu))
    have hxt : x.transfer = t := by
      rw [Store.status, hthis, Store.found, ok_bind] at hx
      obtain ⟨steps, -, hx⟩ := exists_of_bind_eq_ok hx
      obtain ⟨state, -, hx⟩ := exists_of_bind_eq_ok hx
      cases hx
      rfl
    refine ⟨x :: entries, ?_, by rw [List.map_cons, hxt, hentries], ?_⟩
    · rw [statuses, Procedure.runAlong_statusOf hthis, hx]
      dsimp only
      rw [Procedure.runAlong_map, hanswer]
      rfl
    · intro y hy
      rcases List.mem_cons.mp hy with rfl | hy
      · rw [hxt]
        exact hx
      · exact hstatus y hy

theorem Operation.status_alone (svc : Service) (trail : Trail σ) (readings : Nat → Instant)
    (s : Store) (w : σ) (id : String) :
    (((Operation.status id).procedure svc).runAlong trail readings s w).answer =
      (s.status id (readings 0)).map Answer.status := by
  rw [procedure, Procedure.runAlong_map, Service.status, Procedure.runAlong_now,
    ← bind_pure (Service.statusAt id (readings 0)), Procedure.runAlong_statusAt]
  cases s.status id (readings 0) <;> rfl

namespace Ledger

theorem nodup_ids (hkeyed : l.store.Keyed) : (l.transfers.map fun t => t.id).Nodup := by
  have hrows := hkeyed.transfers
  rw [store, List.map_map] at hrows
  exact hrows

/-- The transfers of a license are those of all transfers that are for it. -/
theorem transfersOf_perm {recorded : List Transfer}
    (h : l.transfers.map Transfer.opened = recorded.map Transfer.asRead) (license : String) :
    ((l.transfersOf license).map Transfer.opened).Perm
      ((recorded.filter fun t => t.license = license).map Transfer.asRead) := by
  have hopened : (l.transfers.filter fun t => t.license = license).map Transfer.opened =
      (l.transfers.map Transfer.opened).filter fun t => t.license = license := by
    rw [List.filter_map]
    rfl
  have hrecorded : (recorded.filter fun t => t.license = license).map Transfer.asRead =
      (recorded.map Transfer.asRead).filter fun t => t.license = license := by
    rw [List.filter_map]
    rfl
  rw [hrecorded, ← h, ← hopened]
  exact (byText_perm _ _).map _

namespace Legible

theorem findTransfer_of_mem (h : l.Legible) (hkeyed : l.store.Keyed) (ht : t ∈ l.transfers) :
    l.store.findTransfer t.id = .ok (some t) := by
  rw [findTransfer_store h, transfer?_of_mem (nodup_ids hkeyed) ht]

/-- The status of a transfer is told, unless an expiry overflows. -/
theorem status_of_mem (h : l.Legible) (hkeyed : l.store.Keyed) (ht : t ∈ l.transfers)
    (time : Instant) :
    l.store.status t.id time =
      ((t.state (l.stepsOf t.id) time).mapError Halt.overflow).map fun state =>
        ⟨t, l.stepsOf t.id, state⟩ := by
  have hsteps : (l.store.stepsOf t.id).mapError Halt.failed = .ok (l.stepsOf t.id) := by
    rw [stepsOf_store h]
    rfl
  rw [Store.status, h.findTransfer_of_mem hkeyed ht, Store.found, ok_bind, hsteps, ok_bind]
  cases t.state (l.stepsOf t.id) time <;> rfl

theorem exists_status (h : l.Legible) (hkeyed : l.store.Keyed) (ht : t ∈ l.transfers)
    (hfits : ∀ why, l.store.stateOf t.id time ≠ .error (.overflow why)) :
    ∃ x, l.store.status t.id time = .ok x := by
  rw [Store.stateOf_eq, h.status_of_mem hkeyed ht] at hfits
  rw [h.status_of_mem hkeyed ht]
  cases hstate : t.state (l.stepsOf t.id) time with
  | error why =>
    rw [hstate] at hfits
    exact absurd rfl (hfits why)
  | ok state => exact ⟨_, rfl⟩

theorem steps_of_status (h : l.Legible) (hkeyed : l.store.Keyed) (ht : t ∈ l.transfers)
    {x : Status} (hx : l.store.status t.id time = .ok x) : x.steps = l.stepsOf t.id := by
  rw [h.status_of_mem hkeyed ht] at hx
  obtain ⟨state, -, rfl⟩ := exists_of_map_eq_ok hx
  rfl

/-- Steps are told in the order of their creation. -/
theorem stepsOf_chronological (h : l.Legible) (id : String) :
    (l.stepsOf id).Pairwise fun x y => x.createdAt ≤ y.createdAt := by
  apply byText_chronological
  intro x hx
  exact (h.steps x (List.mem_of_mem_filter hx)).1.created

theorem transfersOf_chronological (h : l.Legible) (license : String) :
    (l.transfersOf license).Pairwise fun t u => t.createdAt ≤ u.createdAt := by
  apply byText_chronological
  intro t ht
  exact (h.transfers t (List.mem_of_mem_filter ht)).1.created

/-- The statuses of the transfers that the table has for a license are its history. -/
theorem licenseHistory (h : l.Legible) (hkeyed : l.store.Keyed)
    (hrecorded : l.transfers.map Transfer.opened =
      (turns.filterMap Turn.recorded?).map Transfer.asRead)
    {license : String} {entries : List Status}
    (htransfers : (entries.map fun x => x.transfer) = l.transfersOf license)
    (hstatus : ∀ x ∈ entries, l.store.status x.transfer.id time = .ok x) :
    LicenseHistory svc turns l.store license time entries := by
  constructor
  · have hids : (entries.map fun x => x.transfer.id) =
        (l.transfersOf license).map fun t => t.id := by
      rw [← htransfers, List.map_map]
      rfl
    rw [hids]
    exact ((byText_perm _ _).map _).nodup_iff.mpr
      ((nodup_ids hkeyed).sublist (List.filter_sublist.map _))
  · have hopened : (entries.map fun x => x.transfer.opened) =
        (l.transfersOf license).map Transfer.opened := by
      rw [← htransfers, List.map_map]
      rfl
    rw [hopened]
    exact transfersOf_perm hrecorded license
  · have hsorted := h.transfersOf_chronological license
    rw [← htransfers, List.pairwise_map] at hsorted
    exact hsorted
  · intro x hx
    have hmem : x.transfer ∈ l.transfersOf license := htransfers ▸ List.mem_map_of_mem hx
    rw [h.steps_of_status hkeyed (List.mem_of_mem_filter (mem_byText.mp hmem)) (hstatus x hx)]
    exact h.stepsOf_chronological _
  · intro x hx τ trail v readings hreading
    rw [Operation.status_alone, hreading, hstatus x hx]
    rfl

end Legible

end Ledger

/-- **The history of a license is complete, chronological and consistent**, at every instant at
    which no expiry of its transfers overflows. -/
theorem license_history (session : Session svc trail turns s w) {license : String}
    {readings : Nat → Instant}
    (fits : ∀ row ∈ s.transfers, row.license = license →
      ∀ why, s.stateOf row.id (readings 0) ≠ .error (.overflow why))
    (trail' : Trail τ) (v : τ) :
    ∃ entries,
      (((Operation.history license).procedure svc).runAlong trail' readings s v).answer =
        .ok (.statuses entries) ∧
      LicenseHistory svc turns s license (readings 0) entries := by
  have hkeyed := session.reaches.keyed
  obtain ⟨l, rfl, hl, hrecorded⟩ := session.ledger
  have hlisted : ∀ t ∈ l.transfersOf license, t ∈ l.transfers ∧ t.license = license := by
    intro t ht
    simpa using List.mem_filter.mp (mem_byText.mp ht)
  obtain ⟨entries, hanswer, htransfers, hstatus⟩ := Service.statuses_alone trail'
    (fun k => readings (k + 1)) v (readings 0)
    (fun t ht => hl.findTransfer_of_mem hkeyed (hlisted t ht).1)
    (fun t ht => hl.exists_status hkeyed (hlisted t ht).1
      (fits (.ofTransfer t) (List.mem_map_of_mem (hlisted t ht).1) (hlisted t ht).2))
  refine ⟨entries, ?_, hl.licenseHistory hkeyed hrecorded htransfers hstatus⟩
  rw [Operation.procedure, Procedure.runAlong_map, Service.history, Procedure.runAlong_now,
    Procedure.runAlong_query, Statement.run, Ledger.transfersOf_store hl]
  simp only [Except.map]
  rw [hanswer]

/-- The leap second at the end of the year 1998. -/
def Sample.yearsEnd : Instant :=
  (Instant.ofFields? ⟨1998, 12, 31, by decide⟩ 23 59 60 0).get (by decide)

def Sample.halfLater : Instant :=
  (Instant.ofFields? ⟨1998, 12, 31, by decide⟩ 23 59 60 500000000).get (by decide)

/-- A gift is recorded in the midst of that second, and the clock then put back to its start. -/
def Sample.lateGift : List (Operation × Instant) :=
  [(.initiate "gift" gift none, halfLater),
   (.createStep "step" (.ofProposal "gift" gift none halfLater) .target none, halfLater),
   (.initiate "other" { gift with license := "other" } none, yearsEnd),
   (.initiate "sale" sale none, yearsEnd)]

/-- The entries that the answer lists. -/
def Answer.entries : Answer → List (String × State)
  | .statuses xs => xs.map fun x => (x.transfer.id, x.state)
  | _ => []

theorem lateGift_history :
    ∃ r ∈ play Sample.service .silent Sample.lateGift [] .empty (),
      let answer := (((Operation.history "license").procedure Sample.service).runAlong
        Trail.silent (fun _ => Sample.firstDay) r.2.1 ()).answer
      answer.map Answer.entries = .ok [("sale", .pending), ("gift", .expired)] ∧
        ∃ entries, answer = .ok (.statuses entries) ∧
          LicenseHistory Sample.service r.1 r.2.1 "license" Sample.firstDay entries := by
  have hplays : ∃ r ∈ play Sample.service .silent Sample.lateGift [] .empty (),
      ((((Operation.history "license").procedure Sample.service).runAlong
        Trail.silent (fun _ => Sample.firstDay) r.2.1 ()).answer.map Answer.entries =
          .ok [("sale", .pending), ("gift", .expired)]) ∧
        ∀ row ∈ r.2.1.transfers,
          r.2.1.stateOf row.id Sample.firstDay ≠ .error (.overflow .pastCalendar) := by
    decide +kernel
  obtain ⟨r, hplay, hentries, hfits⟩ := hplays
  refine ⟨r, hplay, hentries, ?_⟩
  apply license_history ((Run.start ()).play hplay).session ?_ .silent ()
  intro row hrow _ why
  cases why
  exact hfits row hrow

end SignOff
