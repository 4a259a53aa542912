/-
  SignOff/Proofs/Completion.lean
  ==============================
  **Completing once.**  A completion first checks that the transfer is approved and then puts
  the time on it, and others may use the store in between.  Still, only approved transfers
  are completed, each by one call, at that call's reading of the clock, and for good
  (`completion_sound`): approved is final, and the stamp takes effect only on a transfer
  without one.  Any other call says what was wrong and changes nothing.
-/
import SignOff.Proofs.Workflow.Schedule

namespace SignOff

/-- The deed is a stamp that found the transfer without one. -/
def Deed.Stamps (id : String) : Deed → Prop
  | .asked (.complete id' time) s => id' = id ∧ (s.complete id' time).1 = true
  | _ => False

/-- The call has completed the transfer. -/
def Client.Completed (c : Client) (id : String) : Prop :=
  c.op = .complete id ∧ ∃ t, c.answer? = some (.ok (.transfer t))

/-- The call has worked out the state of the transfer as of `time`, from the steps that it read
    in the store `s`. -/
def Client.Checked (c : Client) (id : String) (time : Instant) (s : Store) : Prop :=
  c.deeds.head? = some (.read time) ∧ .asked (.stepsOf id) s ∈ c.deeds

variable {svc : Service} {S S' : System} {l m : Ledger} {id : String} {time : Instant}
  {t u : Transfer} {ds : List Deed} {R : Ledger → Ledger → Prop}

/-! ### Stamps that take effect -/

theorem Deed.stamps_iff {k : Ledger} {id' : String} :
    (asked (.complete id' time) k.store).Stamps id ↔
      id' = id ∧ ∃ t ∈ k.transfers, t.id = id' ∧ t.completedAt = none := by
  rw [Stamps, Ledger.stamp_store]
  simp only [List.any_eq_true, Ledger.isOpenTransfer_iff]

theorem Deed.Past.stamped {op : Operation} {timeouts : Timeouts} {s : Store} {id' : String}
    (h : (asked (.complete id' time) s).Past op timeouts l)
    (hs : (asked (.complete id' time) s).Stamps id) :
    ∃ t : Transfer, t.id = id ∧ t.completed time ∈ l.transfers := by
  obtain ⟨k, rfl, -, -, hafter⟩ := h
  obtain ⟨rfl, t, ht, rfl, hopen⟩ := Deed.stamps_iff.mp hs
  rw [Statement.on] at hafter
  exact ⟨t, rfl, hafter.grows.mem_completed (Ledger.mem_stamp ht hopen time)
    (by simp [Transfer.completed])⟩

theorem System.Reachable.stamped_once (h : Reachable svc S) {i j : Nat} {a b : Client} {d e : Deed}
    (hi : S.clients[i]? = some a) (hj : S.clients[j]? = some b) (hd : d ∈ a.deeds)
    (he : e ∈ b.deeds) (hds : d.Stamps id) (hes : e.Stamps id) : i = j ∧ d = e := by
  refine h.once (P := Deed.Stamps id)
    (Q := fun l => ∃ t ∈ l.transfers, t.id = id ∧ t.completedAt ≠ none)
    (fun d hd => ?_) (fun {d op l} hpast _ hd => ?_) (fun {q l} hl hq hd => ?_)
    hi hj hd he hds hes
  · cases d with
    | asked q s => exact ⟨q, s, rfl⟩
    | _ => exact hd.elim
  · cases d with
    | asked q s =>
      cases q with
      | complete id' time =>
        obtain ⟨t, hid, hmem⟩ := hpast.stamped hd
        exact ⟨_, hmem, hid, by simp [Transfer.completed]⟩
      | _ => exact hd.elim
    | _ => exact hd.elim
  · cases q with
    | complete id' time =>
      obtain ⟨t, ht, hid, hdone⟩ := hq
      obtain ⟨rfl, u, hu, huid, hopen⟩ := Deed.stamps_iff.mp hd
      rw [hl.transfer_ext ht hu (hid.trans huid.symm)] at hdone
      exact hdone hopen
    | _ => exact hd.elim

/-! ### What the check sees -/

/-- The one time that the steps are read is in the ledger whose state is shown. -/
theorem StatusEnds.checked {timeouts : Timeouts} {b : Except Halt Status} {s : Store}
    (h : StatusEnds R id time [.read time] l b ds m) (hR : Rely timeouts R)
    (hl : l.Coherent timeouts) (hs : .asked (.stepsOf id) s ∈ ds) (state : State) :
    s.stateOf id time = .ok state ↔ ∃ x, b = .ok x ∧ x.state = state := by
  have hstate {k m : Ledger} {t : Transfer} (rely : R l k) (found : k.transfer? id = some t)
      (after : R k m) : m.store.stateOf id time = .ok state ↔ m.state t time = .ok state := by
    have hk := (hR.evolves rely).coherent hl
    have hm := (hR.evolves after).coherent hk
    obtain ⟨ht, rfl⟩ := Ledger.mem_of_transfer? found
    obtain ⟨u, hu, htu⟩ := (hR.evolves after).grows.mem_transfers ht
    have hfind : m.transfer? t.id = some u := by
      rw [← htu.id_eq]
      exact hm.transfer?_eq_some hu
    rw [hm.stateOf_eq_ok_iff, hfind, ← Ledger.state_later htu]
    simp
  cases h with
  | missing rely missing => simp at hs
  | overflowed rely found after state =>
    obtain rfl : s = _ := by simpa using hs
    rw [hstate rely found after, state]
    simp
  | shown rely found after state =>
    obtain rfl : s = _ := by simpa using hs
    rw [hstate rely found after, state]
    simp

theorem StatusEnds.rely {timeouts : Timeouts} {b : Except Halt Status}
    (h : StatusEnds R id time [.read time] l b ds m) (hR : Rely timeouts R) : R l m := by
  cases h with
  | missing rely missing => exact rely
  | overflowed rely found after state => exact hR.trans rely after
  | shown rely found after state => exact hR.trans rely after

theorem StatusEnds.head {b : Except Halt Status} (h : StatusEnds R id time [.read time] l b ds m) :
    ds.head? = some (.read time) := by
  cases h <;> rfl

theorem StatusEnds.reads {b : Except Halt Status} (h : StatusEnds R id time [.read time] l b ds m)
    {q : Statement} {s : Store} (hd : .asked q s ∈ ds) : q.writes = false := by
  cases h with
  | missing rely missing =>
    simp only [List.cons_append, List.nil_append, List.mem_cons, Deed.asked.injEq, reduceCtorEq,
      List.not_mem_nil, or_false, false_or] at hd
    rw [hd.1]
    rfl
  | overflowed rely found after state =>
    simp only [List.cons_append, List.nil_append, List.mem_cons, Deed.asked.injEq, reduceCtorEq,
      List.not_mem_nil, or_false, false_or] at hd
    rcases hd with ⟨rfl, -⟩ | ⟨rfl, -⟩
    · rfl
    · rfl
  | shown rely found after state =>
    simp only [List.cons_append, List.nil_append, List.mem_cons, Deed.asked.injEq, reduceCtorEq,
      List.not_mem_nil, or_false, false_or] at hd
    rcases hd with ⟨rfl, -⟩ | ⟨rfl, -⟩
    · rfl
    · rfl

theorem StatusEnds.idle {b : Except Halt Status} (h : StatusEnds R id time [.read time] l b ds m) :
    ∀ d ∈ ds, d.Idle := by
  intro d hd
  cases d with
  | asked q s => exact Deed.idle_of_reads (h.reads hd) s
  | read t => trivial
  | noted e => trivial

/-- A transfer that was completed when the call began is approved and completed when its steps
    are read. -/
theorem StatusEnds.of_completed {timeouts : Timeouts} {b : Except Halt Status}
    (h : StatusEnds R id time [.read time] l b ds m) (hR : Rely timeouts R)
    (hl : l.Coherent timeouts) (hu : u ∈ l.transfers) (hid : u.id = id)
    (hdone : u.completedAt ≠ none) :
    m.Coherent timeouts ∧ u ∈ m.transfers ∧ ∃ s, b = .ok s ∧ s.state = .approved := by
  -- a completed transfer is found just as it was
  have hfound {k : Ledger} {t : Transfer} (rely : R l k) (found : k.transfer? id = some t) :
      k.Coherent timeouts ∧ u = t ∧ u ∈ k.transfers := by
    have hk := (hR.evolves rely).coherent hl
    have hmem := (hR.evolves rely).grows.mem_completed hu hdone
    have hfind := hk.transfer?_eq_some hmem
    rw [hid, found] at hfind
    exact ⟨hk, (Option.some.inj hfind).symm, hmem⟩
  have hstate {k m : Ledger} {t : Transfer} (rely : R l k) (found : k.transfer? id = some t)
      (after : R k m) :
      m.Coherent timeouts ∧ u ∈ m.transfers ∧ m.state t time = .ok .approved := by
    obtain ⟨hk, rfl, hmem⟩ := hfound rely found
    have hm := (hR.evolves after).coherent hk
    have hmem' := (hR.evolves after).grows.mem_completed hmem hdone
    exact ⟨hm, hmem', hm.state_eq_approved_iff.mpr (hm.completed u hmem' hdone)⟩
  cases h with
  | missing rely missing =>
    have hmem := (hR.evolves rely).grows.mem_completed hu hdone
    have hfind := ((hR.evolves rely).coherent hl).transfer?_eq_some hmem
    rw [hid, missing] at hfind
    cases hfind
  | overflowed rely found after state =>
    have hs := (hstate rely found after).2.2
    rw [state] at hs
    cases hs
  | shown rely found after state =>
    obtain ⟨hm, hmem, hs⟩ := hstate rely found after
    rw [state] at hs
    exact ⟨hm, hmem, _, rfl, Except.ok.inj hs⟩

/-! ### How calls to complete end -/

namespace CompletionEnds

variable {timeouts : Timeouts} {b : Except Halt Transfer}

theorem of_completed (h : CompletionEnds R id l b ds m) (hR : Rely timeouts R)
    (hl : l.Coherent timeouts) (hu : u ∈ l.transfers) (hid : u.id = id)
    (hdone : u.completedAt ≠ none) : b = .error (.failed (.completedAlready id)) := by
  cases h with
  | unchecked keepable check =>
    obtain ⟨-, -, s, hs, -⟩ := check.of_completed hR hl hu hid hdone
    cases hs
  | notApproved keepable check state =>
    obtain ⟨-, -, s, hs, happroved⟩ := check.of_completed hR hl hu hid hdone
    cases hs
    exact absurd happroved state
  | already keepable check state after closed => rfl
  | completed keepable check state after transfer id_eq unstamped stampable later stored =>
    obtain ⟨hk, hmem, -⟩ := check.of_completed hR hl hu hid hdone
    have hmem' := (hR.evolves after).grows.mem_completed hmem hdone
    have hm := (hR.evolves after).coherent hk
    rw [hm.transfer_ext hmem' transfer (hid.trans id_eq.symm)] at hdone
    exact absurd unstamped hdone

theorem idle (h : CompletionEnds R id l b ds m) (hR : Rely timeouts R) (hl : l.Coherent timeouts)
    (hfailed : ∀ t, b ≠ .ok t) : ∀ d ∈ ds, d.Idle := by
  cases h with
  | unchecked keepable check => exact check.idle
  | notApproved keepable check state => exact check.idle
  | completed keepable check state after transfer id_eq unstamped stampable later stored =>
    exact absurd rfl (hfailed _)
  | @already time stamp s ds k m keepable check state after closed =>
    have hm := ((hR.evolves after).coherent ((hR.evolves (check.rely hR)).coherent hl))
    intro d hd
    simp only [List.mem_append, List.mem_cons, List.not_mem_nil, or_false] at hd
    rcases hd with hd | rfl | rfl
    · exact check.idle d hd
    · trivial
    · refine Deed.idle_of_makes hm.legible fun n hn => ?_
      cases hn with
      | reads reads => rfl
      | stamped => exact Ledger.stamp_of_closed closed stamp

/-- What the call answers when its check saw a transfer that is not approved. -/
theorem of_checked (h : CompletionEnds R id l b ds m) (hR : Rely timeouts R)
    (hl : l.Coherent timeouts) {s : Store} {state : State} (hhead : ds.head? = some (.read time))
    (hmem : .asked (.stepsOf id) s ∈ ds) (hs : s.stateOf id time = .ok state)
    (hne : state ≠ .approved) : b = .error (.failed (.notApproved id state)) := by
  have hseen {time' : Instant} {b : Except Halt Status} {ds : List Deed} {m : Ledger}
      (check : StatusEnds R id time' [.read time'] l b ds m) (htime : time' = time)
      (hmem : .asked (.stepsOf id) s ∈ ds) : ∃ x, b = .ok x ∧ x.state = state := by
    subst htime
    exact (check.checked hR hl hmem state).mp hs
  cases h with
  | unchecked keepable check =>
    obtain ⟨x, hx, -⟩ := hseen check (by simpa [check.head] using hhead) hmem
    cases hx
  | notApproved keepable check state =>
    obtain ⟨x, hx, rfl⟩ := hseen check (by simpa [check.head] using hhead) hmem
    cases hx
    rfl
  | already keepable check state after closed =>
    obtain ⟨x, hx, rfl⟩ := hseen check (by simpa [check.head] using hhead) (by simpa using hmem)
    cases hx
    exact absurd state hne
  | completed keepable check state after transfer id_eq unstamped stampable later stored =>
    obtain ⟨x, hx, rfl⟩ := hseen check (by simpa [check.head] using hhead) (by simpa using hmem)
    cases hx
    exact absurd state hne

/-- A call on a transfer that is there has read its steps, where it still was. -/
theorem exists_checked (h : CompletionEnds R id l b ds m) (hR : Rely timeouts R)
    (hl : l.Coherent timeouts) (hu : u ∈ l.transfers) (hid : u.id = id) :
    ∃ time s, ds.head? = some (.read time) ∧ .asked (.stepsOf id) s ∈ ds ∧
      ∃ row ∈ s.transfers, row.id = id := by
  have hrow {k m : Ledger} {t : Transfer} (found : k.transfer? id = some t) (after : R k m) :
      ∃ row ∈ m.store.transfers, row.id = id := by
    obtain ⟨ht, rfl⟩ := Ledger.mem_of_transfer? found
    obtain ⟨v, hv, htv⟩ := (hR.evolves after).grows.mem_transfers ht
    exact ⟨.ofTransfer v, List.mem_map_of_mem hv, htv.id_eq⟩
  have hseen {time : Instant} {b : Except Halt Status} {ds : List Deed} {m : Ledger}
      (check : StatusEnds R id time [.read time] l b ds m) :
      ∃ s, .asked (.stepsOf id) s ∈ ds ∧ ∃ row ∈ s.transfers, row.id = id := by
    cases check with
    | missing rely missing =>
      obtain ⟨v, hv, huv⟩ := (hR.evolves rely).grows.mem_transfers hu
      have hfind := ((hR.evolves rely).coherent hl).transfer?_eq_some hv
      rw [huv.id_eq, hid, missing] at hfind
      cases hfind
    | overflowed rely found after state => exact ⟨m.store, by simp, hrow found after⟩
    | shown rely found after state => exact ⟨m.store, by simp, hrow found after⟩
  cases h with
  | unchecked keepable check =>
    obtain ⟨s, hs, hthere⟩ := hseen check
    exact ⟨_, s, check.head, hs, hthere⟩
  | notApproved keepable check state =>
    obtain ⟨s, hs, hthere⟩ := hseen check
    exact ⟨_, s, check.head, hs, hthere⟩
  | already keepable check state after closed =>
    obtain ⟨s, hs, hthere⟩ := hseen check
    exact ⟨_, s, by rw [List.head?_append, check.head]; rfl, List.mem_append_left _ hs, hthere⟩
  | completed keepable check state after transfer id_eq unstamped stampable later stored =>
    obtain ⟨s, hs, hthere⟩ := hseen check
    exact ⟨_, s, by rw [List.head?_append, check.head]; rfl, List.mem_append_left _ hs, hthere⟩

/-- A call that got as far as its stamp and failed was too late. -/
theorem of_stamp (h : CompletionEnds R id l b ds m) (hfailed : ∀ t, b ≠ .ok t) {stamp : Instant}
    {s : Store} (hmem : .asked (.complete id stamp) s ∈ ds) :
    b = .error (.failed (.completedAlready id)) := by
  cases h with
  | unchecked keepable check => exact absurd (check.reads hmem) (by simp [Statement.writes])
  | notApproved keepable check state => exact absurd (check.reads hmem) (by simp [Statement.writes])
  | already keepable check state after closed => rfl
  | completed keepable check state after transfer id_eq unstamped stampable later stored =>
    exact absurd rfl (hfailed _)

/-- A call that succeeds has stamped the transfer with its own reading of the clock. -/
theorem stamped (h : CompletionEnds R id l b ds m) (hb : b = .ok t) :
    ∃ (u : Transfer) (time : Instant) (s : Store), .read time ∈ ds ∧
      .asked (.complete id time) s ∈ ds ∧ (Deed.asked (.complete id time) s).Stamps id ∧
      t = u.completed time ∧ u.id = id ∧ t ∈ m.transfers := by
  cases h with
  | @completed time stamp last e s ds u k m n keepable check state after transfer id_eq unstamped
      stampable later stored =>
    cases hb
    exact ⟨u, stamp, m.store, by simp, by simp,
      Deed.stamps_iff.mpr ⟨rfl, u, transfer, id_eq, unstamped⟩, rfl, id_eq, stored⟩
  | _ => cases hb

end CompletionEnds

/-! ### The calls to complete -/

/-- What holds of the transfers and of the calls that complete them, in a system and ever
    after. -/
structure SoundCompletion (svc : Service) (S : System) : Prop where
  /-- a completed transfer is approved, whenever one asks -/
  approved : ∀ row ∈ S.store.transfers, row.completedAt ≠ none →
    ∀ time, S.store.stateOf row.id time = .ok .approved
  /-- at most one call completes a transfer -/
  one : ∀ (i j : Nat) (a b : Client) (id : String), S.clients[i]? = some a →
    S.clients[j]? = some b → a.Completed id → b.Completed id → i = j
  /-- it puts its own reading of the clock on the transfer, for good -/
  stamped : ∀ c ∈ S.clients, ∀ id t, c.op = .complete id →
    c.answer? = some (.ok (.transfer t)) → ∃ time, .read time ∈ c.deeds ∧
      t.completedAt = some time ∧ ∀ S', System.Leads svc S S' →
        ∃ row ∈ S'.store.transfers, row.id = id ∧ row.transfer = .ok t ∧
          row.completedAt = some time.columnText
  /-- every call that begins later is told that the transfer is completed -/
  later : ∀ c ∈ S.clients, ∀ id, c.Completed id → ∀ S', System.Leads svc S S' →
    ∀ (k : Nat) (other : Client), S.clients.length ≤ k → S'.clients[k]? = some other →
      other.op = .complete id → ∀ a, other.answer? = some a →
        a = .error (.failed (.completedAlready id))
  /-- a call that has ended without completing the transfer has changed nothing, and was told
      so too if it got as far as its stamp -/
  lost : ∀ c ∈ S.clients, ∀ id a, c.op = .complete id → c.answer? = some a → ¬c.Completed id →
    (∃ why, a = .error why) ∧ (∀ d ∈ c.deeds, d.Idle) ∧
      ∀ time s, .asked (.complete id time) s ∈ c.deeds →
        a = .error (.failed (.completedAlready id))
  /-- a call on a transfer that is there has checked it, and found a state if no expiry
      overflows -/
  checked : ∀ c ∈ S.clients, ∀ id a, c.op = .complete id → c.answer? = some a →
    (∃ row ∈ c.begun.transfers, row.id = id) → ∃ time s, c.Checked id time s ∧
      (S.store.FitsCalendar → ∃ state, s.stateOf id time = .ok state)
  /-- if that state was not approved, it said so and changed nothing -/
  notApproved : ∀ c ∈ S.clients, ∀ id a, c.op = .complete id → c.answer? = some a →
    ∀ time s, c.Checked id time s → ∀ state, s.stateOf id time = .ok state → state ≠ .approved →
      a = .error (.failed (.notApproved id state)) ∧ ∀ d ∈ c.deeds, d.Idle

theorem Client.Follows.completion {c : Client} {a : Except Halt Answer} (h : c.Follows svc l)
    (hop : c.op = .complete id) (ha : c.answer? = some a) :
    ∃ (k₀ k : Ledger) (b : Except Halt Transfer), c.begun = k₀.store ∧
      k₀.Coherent svc.timeouts ∧ k.Evolves svc.timeouts l ∧ a = b.map .transfer ∧
      CompletionEnds (Ledger.Evolves svc.timeouts) id k₀ b c.deeds k := by
  obtain ⟨k₀, k, hbegun, hk₀, -, hk, -, hends⟩ := h.ended ha
  rw [hop] at hends
  obtain ⟨b, hb, hends⟩ := hends
  exact ⟨k₀, k, b, hbegun, hk₀, hk, hb, hends⟩

/-- A call that succeeded made its stamp, which is on the transfer. -/
theorem Client.Follows.stamped {c : Client} (h : c.Follows svc l) (hop : c.op = .complete id)
    (ha : c.answer? = some (.ok (.transfer t))) :
    ∃ (time : Instant) (s : Store), .read time ∈ c.deeds ∧
      .asked (.complete id time) s ∈ c.deeds ∧ (Deed.asked (.complete id time) s).Stamps id ∧
      t.completedAt = some time ∧ t.id = id ∧ t ∈ l.transfers := by
  obtain ⟨k₀, k, b, -, -, hk, hb, hends⟩ := h.completion hop ha
  cases b with
  | error why => cases hb
  | ok t' =>
    cases hb
    obtain ⟨u, time, s, hread, hmem, hstamps, rfl, hid, hstored⟩ := hends.stamped rfl
    exact ⟨time, s, hread, hmem, hstamps, rfl, hid,
      hk.grows.mem_completed hstored (by simp [Transfer.completed])⟩

theorem System.Follows.row_completed (h : S.Follows svc l) (ht : t ∈ l.transfers)
    (hstamp : t.completedAt = some time) (hleads : System.Leads svc S S') :
    ∃ row ∈ S'.store.transfers, row.id = t.id ∧ row.transfer = .ok t ∧
      row.completedAt = some time.columnText := by
  obtain ⟨m, hm, hfollows⟩ := hleads.follows h
  have hmem := hm.grows.mem_completed ht (by simp [hstamp])
  obtain ⟨hkeep, hread⟩ := hfollows.coherent.legible.transfers t hmem
  refine ⟨.ofTransfer t, ?_, rfl, ?_, ?_⟩
  · rw [hfollows.store]
    exact List.mem_map_of_mem hmem
  · rw [TransferRow.transfer_ofTransfer hkeep.inYears, hread]
  · rw [TransferRow.ofTransfer, hstamp]
    rfl

/-- A call that begins later begins on a ledger that has the completed transfer. -/
theorem System.Follows.completed_begun (h : S.Follows svc l) (ht : t ∈ l.transfers)
    (hstamp : t.completedAt = some time) (hleads : System.Leads svc S S') {i : Nat} {c : Client}
    (hi : S.clients.length ≤ i) (hc : S'.clients[i]? = some c) {k : Ledger}
    (hk : c.begun = k.store) : ∃ u ∈ k.transfers, u.id = t.id ∧ u.completedAt ≠ none := by
  obtain ⟨b, hb, hlb⟩ := hleads.begun h hi hc
  have hmem := hlb.grows.mem_completed ht (by simp [hstamp])
  have hrow : TransferRow.ofTransfer t ∈ k.store.transfers := by
    rw [← hk, hb]
    exact List.mem_map_of_mem hmem
  obtain ⟨u, hu, hut⟩ := List.mem_map.mp hrow
  refine ⟨u, hu, congrArg TransferRow.id hut, fun hn => ?_⟩
  have hcolumn := congrArg TransferRow.completedAt hut
  simp [TransferRow.ofTransfer, hn, hstamp] at hcolumn

/-- Where no expiry overflows, whoever reads the steps of a stored transfer finds a state. -/
theorem Deed.Past.state {op : Operation} {q : Statement} {s : Store}
    (h : (asked q s).Past op svc.timeouts l) (hfit : l.FitsCalendar)
    (hrow : ∃ row ∈ s.transfers, row.id = id) (time : Instant) :
    ∃ state, s.stateOf id time = .ok state := by
  obtain ⟨k, rfl, hk, hmay, hafter⟩ := h
  obtain ⟨row, hrow, rfl⟩ := hrow
  obtain ⟨u, hu, rfl⟩ := List.mem_map.mp hrow
  have hkl : k.Evolves svc.timeouts l := by
    cases hq : q.on k with
    | error why => rw [hq] at hafter; exact hafter
    | ok r => rw [hq] at hafter; exact .trans (.on hmay.admissible hq) hafter
  obtain ⟨state, hstate⟩ := hk.state_of_fits (hfit.of_grows hkl.grows) u time
  exact ⟨state, hk.stateOf_eq_ok_iff.mpr ⟨u, hk.transfer?_eq_some hu, hstate⟩⟩

/-- **Only approved transfers are completed, each by one call and for good; every other call
    says why not and changes nothing.** -/
theorem completion_sound (h : System.Reachable svc S) : SoundCompletion svc S := by
  obtain ⟨l, hl⟩ := h.follows
  have hclient {c : Client} (hc : c ∈ S.clients) : c.Follows svc l := hl.clients c hc
  refine ⟨?_, ?_, ?_, ?_, ?_, ?_, ?_⟩
  · rw [hl.store]
    intro row hrow hdone time
    obtain ⟨t, ht, rfl⟩ := List.mem_map.mp hrow
    have hcompleted : t.completedAt ≠ none := by
      intro hn
      simp [TransferRow.ofTransfer, hn] at hdone
    exact hl.coherent.stateOf_eq_ok_iff.mpr ⟨t, hl.coherent.transfer?_eq_some ht,
      hl.coherent.state_eq_approved_iff.mpr (hl.coherent.completed t ht hcompleted)⟩
  · rintro i j a b id hi hj ⟨hop, t, ha⟩ ⟨hop', t', ha'⟩
    obtain ⟨time, s, -, hmem, hstamps, -⟩ := (hclient (List.mem_of_getElem? hi)).stamped hop ha
    obtain ⟨time', s', -, hmem', hstamps', -⟩ :=
      (hclient (List.mem_of_getElem? hj)).stamped hop' ha'
    exact (h.stamped_once hi hj hmem hmem' hstamps hstamps').1
  · intro c hc id t hop ha
    obtain ⟨time, s, hread, -, -, hstamp, rfl, ht⟩ := (hclient hc).stamped hop ha
    exact ⟨time, hread, hstamp, fun S' hleads => hl.row_completed ht hstamp hleads⟩
  · rintro c hc id ⟨hop, t, ha⟩ S' hleads k other hk hother hop' a ha'
    obtain ⟨time, s, -, -, -, hstamp, rfl, ht⟩ := (hclient hc).stamped hop ha
    obtain ⟨m, -, hm⟩ := hleads.follows hl
    obtain ⟨k₀, k', b, hbegun, hk₀, -, rfl, hends⟩ :=
      (hm.clients other (List.mem_of_getElem? hother)).completion hop' ha'
    obtain ⟨u, hu, hid, hdone⟩ := hl.completed_begun ht hstamp hleads hk hother hbegun
    rw [hends.of_completed (.others _) hk₀ hu hid hdone]
    rfl
  · intro c hc id a hop ha hnot
    obtain ⟨k₀, k, b, -, hk₀, -, rfl, hends⟩ := (hclient hc).completion hop ha
    have hfailed : ∀ t, b ≠ .ok t := by
      rintro t rfl
      exact hnot ⟨hop, t, ha⟩
    refine ⟨?_, hends.idle (.others _) hk₀ hfailed, fun time s hmem => ?_⟩
    · cases b with
      | ok t => exact absurd rfl (hfailed t)
      | error why => exact ⟨why, rfl⟩
    · rw [hends.of_stamp hfailed hmem]
      rfl
  · intro c hc id a hop ha hrow
    obtain ⟨k₀, k, b, hbegun, hk₀, -, -, hends⟩ := (hclient hc).completion hop ha
    rw [hbegun] at hrow
    obtain ⟨row, hrow, rfl⟩ := hrow
    obtain ⟨u, hu, rfl⟩ := List.mem_map.mp hrow
    obtain ⟨time, s, hhead, hmem, hthere⟩ := hends.exists_checked (.others _) hk₀ hu rfl
    refine ⟨time, s, ⟨hhead, hmem⟩, fun hfit => ?_⟩
    rw [hl.store] at hfit
    exact ((hclient hc).deeds _ hmem).state (hfit.ledger hl.coherent.legible) hthere time
  · rintro c hc id a hop ha time s ⟨hhead, hmem⟩ state hstate hne
    obtain ⟨k₀, k, b, -, hk₀, -, rfl, hends⟩ := (hclient hc).completion hop ha
    have hb := hends.of_checked (.others _) hk₀ hhead hmem hstate hne
    refine ⟨by rw [hb]; rfl, hends.idle (.others _) hk₀ fun t ht => ?_⟩
    rw [ht] at hb
    cases hb

/-- An approved gift is completed by two clients at the same time, which both find it approved
    and not completed; a third one comes later. -/
def Sample.completionRace : List Event :=
  giftEvents ++
    [.begin (.complete "gift")] ++ acts 2 3 ++
    [.begin (.approve "step" (.ofOwner buyer) none)] ++ acts 3 9 ++
    [.begin (.complete "gift"), .begin (.complete "gift")] ++
    acts 4 3 ++ acts 5 5 ++ acts 4 2 ++ acts 5 3 ++
    [.begin (.complete "gift")] ++ acts 6 5

theorem completionRace_sound :
    ∃ S ∈ System.replay Sample.service Sample.completionRace ⟨.empty, []⟩,
      S.clients[2]?.bind Client.answer? = some (.error (.failed (.notApproved "gift" .pending))) ∧
      S.clients[4]?.bind Client.answer? = some (.error (.failed (.completedAlready "gift"))) ∧
      (S.clients[5]?.bind Client.answer?).any Except.isOk = true ∧
      S.clients[6]?.bind Client.answer? = some (.error (.failed (.completedAlready "gift"))) ∧
      SoundCompletion Sample.service S := by
  have hreplays : ∃ S ∈ System.replay Sample.service Sample.completionRace ⟨.empty, []⟩,
      S.clients[2]?.bind Client.answer? = some (.error (.failed (.notApproved "gift" .pending))) ∧
      S.clients[4]?.bind Client.answer? = some (.error (.failed (.completedAlready "gift"))) ∧
      (S.clients[5]?.bind Client.answer?).any Except.isOk = true ∧
      S.clients[6]?.bind Client.answer? = some (.error (.failed (.completedAlready "gift"))) := by
    decide +kernel
  obtain ⟨S, hS, hearly, hlost, hwon, hlate⟩ := hreplays
  have hreach : System.Reachable Sample.service S := System.leads_iff.mpr ⟨_, hS⟩
  exact ⟨S, hS, hearly, hlost, hwon, hlate, completion_sound hreach⟩

end SignOff
