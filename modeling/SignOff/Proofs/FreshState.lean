/-
  SignOff/Proofs/FreshState.lean
  ==============================
  **Nobody misses the last sign-off.**  A call that decides a step writes first and reads all
  steps of the transfer afterwards, as two statements, with others in between.  The state
  it answers is that of the steps it has read then, no more and no less; and of the calls
  that sign a transfer off, the one that writes last reads after all the others have
  written.  So at least one of them is told that the transfer is approved, every one that
  reads after the last write is, and none is told so before it is true (`fresh_state`).
-/
import SignOff.Proofs.SingleWinner
import SignOff.Proofs.Workflow.Course

namespace SignOff

/-- The transfer is there, and of every type that it needs a step is approved. -/
def Store.SignedOff (s : Store) (id : String) : Prop :=
  ∃ t, s.findTransfer id = .ok (some t) ∧ ∀ type, t.needs type = true →
    ∃ row ∈ s.steps, row.transferId = id ∧ row.type = type.name ∧
      row.outcome = Outcome.approved.name

/-- The deed is the update of the ruling, and has decided a step of the transfer. -/
def Deed.Decides (r : Ruling) (id : String) (d : Deed) : Prop :=
  ∃ time k, d = .asked (r.update time) k ∧ d.Settles r.stepId ∧
    ∃ row ∈ k.steps, row.id = r.stepId ∧ row.transferId = id

/-- The call has decided a step of the transfer, and right afterwards has read all steps of the
    transfer, in the store `s`; it has written nothing else. -/
def Client.Rereads (c : Client) (r : Ruling) (id : String) (s : Store) : Prop :=
  ∃ before d after, c.deeds = before ++ d :: .asked (.stepsOf id) s :: after ∧ d.Decides r id ∧
    ∀ q s', .asked q s' ∈ before ++ after → q.writes = false

/-- The answer is a decision on an approved transfer. -/
def ToldApproved (a : Except Halt Answer) : Prop :=
  ∃ d, a = .ok (.decision d) ∧ d.state = .approved

/-- What holds in a system, and ever after, of the calls that decide and the states they are
    answered with. -/
structure FreshState (svc : Service) (S : System) : Prop where
  /-- a call that returns a decision has decided a step of the transfer -/
  decided : ∀ c ∈ S.clients, ∀ r d, c.op.ruling? = some r →
    c.answer? = some (.ok (.decision d)) → ∃ e ∈ c.deeds, e.Decides r d.step.transferId
  /-- a call that has decided a step and has ended has read the transfer's steps again -/
  reread : ∀ c ∈ S.clients, ∀ r a id, c.op.ruling? = some r → c.answer? = some a →
    (∃ e ∈ c.deeds, e.Decides r id) → ∃ s, c.Rereads r id s
  /-- it is told that the transfer is approved exactly if it was when the steps were read -/
  told : ∀ c ∈ S.clients, ∀ r a id s, c.op.ruling? = some r → c.answer? = some a →
    c.Rereads r id s → (ToldApproved a ↔ s.SignedOff id)
  /-- and then it is, from that moment on -/
  lasting : ∀ c ∈ S.clients, ∀ r id s, c.Rereads r id s → s.SignedOff id →
    ∀ S', System.Leads svc S S' → S'.store.SignedOff id
  /-- from the moment on at which all that is needed is approved, whoever reads the steps again
      is told so -/
  later : ∀ id, S.store.SignedOff id → ∀ S', System.Leads svc S S' →
    ∀ (i : Nat) (c : Client) r a s, S'.clients[i]? = some c → c.op.ruling? = some r →
      c.answer? = some a → c.Rereads r id s →
      (∀ b, S.clients[i]? = some b → ¬b.Rereads r id s) → ToldApproved a
  /-- and among the calls that have decided a step of the transfer there is one that is told so
      when it ends -/
  informed : ∀ id, S.store.SignedOff id → (∃ row ∈ S.store.steps, row.transferId = id) →
    ∃ (i : Nat) (r : Ruling), ∀ S', System.Leads svc S S' → ∃ c, S'.clients[i]? = some c ∧
      c.op.ruling? = some r ∧ (∃ e ∈ c.deeds, e.Decides r id) ∧
      ∀ a, c.answer? = some a → ToldApproved a

variable {svc : Service} {S S' : System} {l m k : Ledger} {r : Ruling} {id : String} {s : Store}
  {c : Client} {a : Except Halt Answer}

/-! ### In ledgers -/

theorem Ledger.Coherent.signedOff_iff {timeouts : Timeouts} (h : l.Coherent timeouts) :
    l.store.SignedOff id ↔ ∃ t ∈ l.transfers, t.id = id ∧ l.Approved t := by
  have hrow (type : ApprovalType) : (∃ row ∈ l.store.steps, row.transferId = id ∧
      row.type = type.name ∧ row.outcome = Outcome.approved.name) ↔
        ∃ x ∈ l.steps, x.transferId = id ∧ x.type = type ∧ x.outcome = .approved := by
    simp only [Ledger.store, List.mem_map, exists_exists_and_eq_and]
    simp only [StepRow.ofStep, ApprovalType.name_inj, Outcome.name_inj]
  simp only [Store.SignedOff, findTransfer_store h.legible, hrow, Except.ok.injEq]
  constructor
  · rintro ⟨t, ht, happroved⟩
    obtain ⟨hmem, rfl⟩ := mem_of_transfer? ht
    exact ⟨t, hmem, rfl, happroved⟩
  · rintro ⟨t, hmem, rfl, happroved⟩
    exact ⟨t, h.transfer?_eq_some hmem, happroved⟩

theorem Ledger.Evolves.signedOff {timeouts : Timeouts} (h : l.Evolves timeouts m)
    (hl : l.Coherent timeouts) (hs : l.store.SignedOff id) : m.store.SignedOff id := by
  obtain ⟨t, ht, rfl, happroved⟩ := hl.signedOff_iff.mp hs
  obtain ⟨u, hu, htu⟩ := h.grows.mem_transfers ht
  exact (h.coherent hl).signedOff_iff.mpr ⟨u, hu, htu.id_eq, happroved.grows h.grows htu⟩

/-- The steps of a transfer that is there give the state approved exactly if it is signed off. -/
theorem Ledger.Coherent.state_approved_iff_signedOff {timeouts : Timeouts}
    (h : l.Coherent timeouts) {t u : Transfer} (hu : u ∈ l.transfers) (hid : u.id = t.id)
    (hneeds : u.needs = t.needs) {time : Instant} :
    t.state (l.stepsOf t.id) time = .ok .approved ↔ l.store.SignedOff t.id := by
  rw [← Transfer.state_congr hid hneeds, ← hid]
  have hstate : l.state u time = .ok .approved ↔ l.Approved u := h.state_eq_approved_iff
  rw [Ledger.state] at hstate
  rw [hstate, h.signedOff_iff]
  constructor
  · intro happroved
    exact ⟨u, hu, rfl, happroved⟩
  · rintro ⟨v, hv, hvid, happroved⟩
    exact h.transfer_ext hv hu hvid ▸ happroved

/-- What was stored under one identifier in two ledgers that have become this one has one
    transfer. -/
theorem Ledger.Coherent.transferId_eq {timeouts : Timeouts} (h : l.Coherent timeouts)
    (hk : k.Grows l) (hm : m.Grows l) {x y : Step} (hx : x ∈ k.steps) (hy : y ∈ m.steps)
    (hid : x.id = y.id) : x.transferId = y.transferId := by
  obtain ⟨x', hx', hxx'⟩ := hk.mem_steps hx
  obtain ⟨y', hy', hyy'⟩ := hm.mem_steps hy
  have hsame : x' = y' :=
    h.step_ext hx' hy' (by rw [hxx'.sameOrigin.id, hyy'.sameOrigin.id, hid])
  rw [← hxx'.sameOrigin.transferId, ← hyy'.sameOrigin.transferId, hsame]

theorem Ledger.Coherent.needs_eq {timeouts : Timeouts} (h : l.Coherent timeouts)
    (hk : k.Grows l) (hm : m.Grows l) {t u : Transfer} (ht : t ∈ k.transfers)
    (hu : u ∈ m.transfers) (hid : t.id = u.id) : t.needs = u.needs := by
  obtain ⟨t', ht', htt'⟩ := hk.mem_transfers ht
  obtain ⟨u', hu', huu'⟩ := hm.mem_transfers hu
  have hsame : t' = u' := h.transfer_ext ht' hu' (by rw [htt'.id_eq, huu'.id_eq, hid])
  rw [← htt'.needs_eq, ← huu'.needs_eq, hsame]

/-! ### Deeds -/

/-- The update of a call that was answered with success decides a step, of whichever transfer
    its row names. -/
theorem Deed.Past.decides {op : Operation} {time : Instant} {s' : Store}
    (h : (asked (r.update time) s).Past op svc.timeouts l)
    (hwon : (r.update time).run s = .ok (true, s')) :
    ∃ (k : Ledger) (x : Step), s = k.store ∧ k.Grows l ∧ x ∈ k.steps ∧ x.id = r.stepId ∧
      (asked (r.update time) s).Decides r x.transferId := by
  obtain ⟨k, rfl, hk, hmay, hev⟩ := h.evolved
  have hsettles : (asked (r.update time) k.store).Settles r.stepId := ⟨rfl, s', hwon⟩
  obtain ⟨-, -, x, hx, hid, -⟩ := Deed.settles_iff.mp hsettles
  exact ⟨k, x, rfl, hev.grows, hx, hid, time, k.store, rfl, hsettles, .ofStep x,
    List.mem_map_of_mem hx, hid, rfl⟩

/-- What comes right after the update of such a call is the reading. -/
theorem Client.Rereads.next (h : c.Rereads r id s) {ds rest : List Deed} {d : Deed} {id' : String}
    (hdeeds : c.deeds = ds ++ d :: rest) (hd : d.Decides r id') :
    rest.head? = some (.asked (.stepsOf id) s) := by
  obtain ⟨before, d', after, hdeeds', -, hreads⟩ := h
  obtain ⟨time, k, rfl, -⟩ := hd
  rw [hdeeds'] at hdeeds
  have hbefore : .asked (r.update time) k ∉ before := by
    intro hmem
    exact absurd (hreads _ _ (List.mem_append_left _ hmem)) (by simp [Statement.writes])
  have hafter : .asked (r.update time) k ∉ .asked (.stepsOf id) s :: after := by
    intro hmem
    rcases List.mem_cons.mp hmem with hmem | hmem
    · cases hmem
    · exact absurd (hreads _ _ (List.mem_append_right _ hmem)) (by simp [Statement.writes])
  obtain ⟨-, -, hrest⟩ := (List.append_cons_inj_of_notMem hbefore hafter).mp hdeeds
  rw [← hrest]
  rfl

theorem Client.Rereads.unique {id' : String} {s' : Store} (h : c.Rereads r id s)
    (h' : c.Rereads r id' s') : s = s' := by
  obtain ⟨before, d, after, hdeeds, hd, -⟩ := h'
  have hnext := h.next hdeeds hd
  cases hnext
  rfl

/-! ### One call -/

namespace Client.Follows

variable {b : Except Halt Decision}

/-- The steps that the call has read again give the state approved exactly if the transfer is
    signed off, provided that it is there. -/
theorem state_of_reread (h : c.Follows svc l) (hl : l.Coherent svc.timeouts) {x : Step}
    {t : Transfer} {ds : List Deed} {steps : List Step} {later : Instant}
    (found : r.Found x t ds) (hds : ∀ d ∈ ds, d ∈ c.deeds)
    (hs : .asked (.stepsOf t.id) s ∈ c.deeds) (reread : s.stepsOf t.id = .ok steps)
    (hthere : s.SignedOff t.id ∨ ∃ y ∈ steps, y.transferId = t.id) :
    t.state steps later = .ok .approved ↔ s.SignedOff t.id := by
  obtain ⟨s₀, hmem, hfind⟩ := found.transfer
  obtain ⟨k, rfl, hk, -, hkl⟩ := (h.deeds _ (hds _ hmem)).evolved
  obtain ⟨m, rfl, hm, -, hml⟩ := (h.deeds _ hs).evolved
  rw [Ledger.findTransfer_store hk.legible, Except.ok.injEq] at hfind
  obtain ⟨ht, -⟩ := Ledger.mem_of_transfer? hfind
  rw [Ledger.stepsOf_store hm.legible, Except.ok.injEq] at reread
  subst reread
  obtain ⟨u, hu, hid⟩ : ∃ u ∈ m.transfers, u.id = t.id := by
    rcases hthere with hsigned | ⟨y, hy, hyid⟩
    · obtain ⟨u, hu, hid, -⟩ := hm.signedOff_iff.mp hsigned
      exact ⟨u, hu, hid⟩
    · obtain ⟨u, hu, hserves⟩ := hm.serves y (Ledger.mem_stepsOf.mp hy).1
      exact ⟨u, hu, hserves.transferId.trans hyid⟩
  exact hm.state_approved_iff_signedOff hu hid (hl.needs_eq hml.grows hkl.grows hu ht hid)

/-- The update of the call has decided a step of the transfer whose steps it reads next. -/
theorem rereads_of (h : c.Follows svc l) (hl : l.Coherent svc.timeouts) {x : Step} {t : Transfer}
    {time : Instant} {k k' : Store} {before after : List Deed} (found : r.Found x t before)
    (calm : Deed.AllCalm before) (won : (r.update time).run k = .ok (true, k'))
    (hdeeds : c.deeds = before ++ .asked (r.update time) k :: .asked (.stepsOf t.id) s :: after)
    (hafter : ∀ q s', .asked q s' ∉ after) :
    c.Rereads r t.id s ∧ ∀ e ∈ c.deeds, ∀ id, e.Decides r id → id = t.id := by
  obtain ⟨s₀, hmem, hfind⟩ := found.step
  obtain ⟨s₁, -, htransfer⟩ := found.transfer
  have hpast : ∀ d ∈ before, d ∈ c.deeds := by
    intro d hd
    rw [hdeeds]
    exact List.mem_append_left _ hd
  obtain ⟨k₀, rfl, hk₀, -, hkl⟩ := (h.deeds _ (hpast _ hmem)).evolved
  rw [Ledger.findStep_store hk₀.legible, Except.ok.injEq] at hfind
  obtain ⟨hx, hid⟩ := Ledger.mem_of_step? hfind
  have htid : t.id = x.transferId := Store.id_of_findTransfer htransfer
  constructor
  · obtain ⟨m, y, -, hml, hy, hyid, hdecides⟩ := (h.deeds (.asked (r.update time) k)
      (by rw [hdeeds]; simp)).decides won
    rw [hl.transferId_eq hml hkl.grows hy hx (hyid.trans hid.symm), ← htid] at hdecides
    refine ⟨before, _, after, hdeeds, hdecides, fun q s' hd => ?_⟩
    rcases List.mem_append.mp hd with hd | hd
    · exact calm _ hd
    · exact absurd hd (hafter q s')
  · rintro e he id' ⟨time', k₁, rfl, -, row, hrow, hrowid, rfl⟩
    obtain ⟨m, rfl, -, -, hml⟩ := (h.deeds _ he).evolved
    obtain ⟨z, hz, rfl⟩ := List.mem_map.mp hrow
    rw [htid]
    exact hl.transferId_eq hml.grows hkl.grows hz hx (hrowid.trans hid.symm)

/-- **A call that has decided a step and has ended has read the steps again, and its answer says
    what it has read.** -/
theorem rereads (h : c.Follows svc l) (hl : l.Coherent svc.timeouts) (hop : c.op.ruling? = some r)
    (haccount : r.Account b c.deeds) (ha : c.answer? = some (b.map .decision)) {e : Deed}
    (he : e ∈ c.deeds) (hdecides : e.Decides r id) :
    ∃ s, c.Rereads r id s ∧ (ToldApproved (b.map .decision) ↔ s.SignedOff id) := by
  have hupdate := hdecides
  obtain ⟨time, k, rfl, ⟨-, k', hwon⟩, -⟩ := hupdate
  generalize hds : c.deeds = ds at haccount
  cases haccount with
  | broken unnoted broke =>
    obtain ⟨q, s, hmem, hfails⟩ := broke
    exact absurd hfails ((h.deeds _ (hds ▸ hmem)).runs hop _)
  | unknown unnoted kind =>
    -- a call that has got as far as its update fails in one way only
    obtain ⟨k₀, n, -, -, -, -, -, hends⟩ := h.ended ha
    obtain ⟨b', hb, hends⟩ := hends.decision hop
    cases hends with
    | refused rely idle late =>
      cases hb
      rw [late _ _ he] at kind
      cases kind
    | unchecked => cases hb
    | decided => cases hb
    | unshown => cases hb
  | unchecked calm => exact absurd (hds ▸ he) (calm.not_asked rfl k)
  | @refused x t why time' ds found calm kind =>
    have hmem : .asked (r.update time) k ∈ ds := by simpa [hds] using he
    exact absurd hmem (calm.not_asked rfl k)
  | @late x t time' last k₁ k'' ds found calm lost =>
    have hmem : .asked (r.update time) k ∈ ds ∨ time = time' ∧ k = k₁ := by
      simpa [hds] using he
    rcases hmem with hmem | ⟨rfl, rfl⟩
    · exact absurd hmem (calm.not_asked rfl k)
    · -- the update would have found the step both pending and decided
      have hwon : (r.update time).run k = .ok (true, k') := hwon
      rw [hwon] at lost
      cases lost
  | unshown found calm won reread state =>
    obtain ⟨hrereads, honly⟩ := h.rereads_of hl found calm won hds (by simp)
    obtain rfl := honly _ he _ hdecides
    refine ⟨_, hrereads, fun htold => ?_, fun hsigned => ?_⟩
    · obtain ⟨d, hd, -⟩ := htold
      cases hd
    · rw [(h.state_of_reread hl found (fun d hd => by simp [hds, hd]) (by simp [hds]) reread
        (.inl hsigned)).mpr hsigned] at state
      cases state
  | @shown x y t time later last k k' s steps state ds found calm won reread hstate again =>
    obtain ⟨hrereads, honly⟩ := h.rereads_of hl found calm won hds (by simp)
    obtain rfl := honly _ he _ hdecides
    obtain ⟨-, -, -, htransfer⟩ :=
      Store.exists_of_mem_stepsOf reread (List.mem_of_find?_eq_some again)
    have hthere : ∃ y ∈ steps, y.transferId = t.id :=
      ⟨y, List.mem_of_find?_eq_some again, htransfer⟩
    refine ⟨_, hrereads, ?_⟩
    rw [← h.state_of_reread hl found (fun d hd => by simp [hds, hd]) (by simp [hds]) reread
      (.inr hthere), hstate]
    simp [ToldApproved, Except.map]

end Client.Follows

/-! ### The last sign-off -/

theorem Statement.Makes.eq_of_reads {q : Statement} (h : q.Makes l m) (hq : q.writes = false) :
    m = l := by
  cases h with
  | reads reads => rfl
  | transfer inserted => cases hq
  | @steps xs l m inserted =>
    cases xs with
    | nil =>
      cases inserted
      rfl
    | cons x rest => cases hq
  | settled terminal => cases hq
  | stamped => cases hq

/-- A transfer with steps is signed off where all of its approved steps have been approved
    before. -/
theorem Ledger.Coherent.signedOff_before {timeouts : Timeouts} (hl : l.Coherent timeouts)
    (hm : m.Coherent timeouts) (hgrows : l.Grows m) (hs : m.store.SignedOff id) {x : Step}
    (hx : x ∈ m.steps) (hxid : x.transferId = id)
    (hold : ∀ y ∈ m.steps, y.transferId = id → y.outcome = .approved → y ∈ l.steps) :
    l.store.SignedOff id ∧ ∃ y ∈ l.steps, y.transferId = id := by
  obtain ⟨u, hu, huid, happroved⟩ := hm.signedOff_iff.mp hs
  obtain ⟨v, hv, hserves⟩ := hm.serves x hx
  obtain rfl : v = u := hm.transfer_ext hv hu (by rw [hserves.transferId, hxid, huid])
  obtain ⟨y, hy, hyid, -, hout⟩ := happroved x.type hserves.needed
  have hyl := hold y hy (hyid.trans huid) hout
  obtain ⟨w, hw, hwserves⟩ := hl.serves y hyl
  obtain ⟨w', hw', hlater⟩ := hgrows.mem_transfers hw
  have hwid : w.id = v.id := hwserves.transferId.trans hyid
  obtain rfl : w' = v := hm.transfer_ext hw' hu (hlater.id_eq.trans hwid)
  refine ⟨hl.signedOff_iff.mpr ⟨w, hw, hwid.trans huid, fun type htype => ?_⟩, y, hyl,
    hyid.trans huid⟩
  obtain ⟨z, hz, hzid, hztype, hzout⟩ := happroved type (by rw [hlater.needs_eq, htype])
  exact ⟨z, hold z hz (hzid.trans huid) hzout, by rw [hzid, hwid], hztype, hzout⟩

/-- A transfer with steps comes to be signed off by an update that decides one of them, and by
    no other statement. -/
theorem Operation.May.signs {op : Operation} {q : Statement} (h : op.May svc.timeouts q l)
    (hl : l.Coherent svc.timeouts) (hq : q.Makes l m) (hs : m.store.SignedOff id) {x : Step}
    (hx : x ∈ m.steps) (hxid : x.transferId = id) :
    (l.store.SignedOff id ∧ ∃ y ∈ l.steps, y.transferId = id) ∨
      ∃ r, op.ruling? = some r ∧ (Deed.asked q l.store).Decides r id := by
  have hbefore := hl.signedOff_before (hl.makes h.admissible hq) hq.grows hs hx hxid
  cases hop : op.ruling? with
  | none =>
    obtain ⟨xs, hxs, hpending⟩ := h.appends hop hq
    refine .inl (hbefore fun y hy _ hout => ?_)
    rw [hxs] at hy
    rcases List.mem_append.mp hy with hy | hy
    · exact hy
    · rw [hpending y hy] at hout
      cases hout
  | some r =>
    cases hw : q.writes with
    | false =>
      obtain rfl := hq.eq_of_reads hw
      exact .inl (hbefore fun y hy _ _ => hy)
    | true =>
      obtain ⟨time, rfl⟩ := (Operation.writes_of_ruling hop).mp (h.writes hw)
      by_cases hopen : ∃ y ∈ l.steps, Ledger.isOpenStep r.stepId y = true ∧ y.transferId = id
      · obtain ⟨y, hy, hthis, hyid⟩ := hopen
        rw [Ledger.isOpenStep_iff] at hthis
        refine .inr ⟨r, rfl, time, l.store, rfl, ?_, .ofStep y, List.mem_map_of_mem hy, hthis.1,
          hyid⟩
        exact Deed.settles_iff.mpr
          ⟨rfl, Operation.terminal_of_ruling hop, y, hy, hthis.1, hthis.2⟩
      · -- the steps of the transfer are left as they were
        refine .inl (hbefore fun y hy hyid _ => ?_)
        cases hq with
        | reads reads => exact hy
        | settled terminal =>
          obtain ⟨z, hz, rfl⟩ := List.mem_map.mp hy
          split at hyid
          · next hthis => exact absurd ⟨z, hz, hthis, hyid⟩ hopen
          · next hthis =>
            rw [if_neg hthis]
            exact hz

/-- **The last sign-off.**  A transfer with steps that is signed off came to be so by the update
    of some call. -/
theorem System.Reachable.signed (h : Reachable svc S) (hs : S.store.SignedOff id)
    (hsteps : ∃ row ∈ S.store.steps, row.transferId = id) :
    ∃ S₁, Reachable svc S₁ ∧ Leads svc S₁ S ∧ S₁.store.SignedOff id ∧
      ∃ i op d, S₁.LastDid i op d ∧ ∃ r, op.ruling? = some r ∧ d.Decides r id := by
  have hcaused := h.caused
    (F := fun s => s.SignedOff id ∧ ∃ row ∈ s.steps, row.transferId = id)
    (P := fun op d => ∃ r, op.ruling? = some r ∧ d.Decides r id) ?_ ?_ ⟨hs, hsteps⟩
  · obtain ⟨S₁, hreach, hleads, ⟨hsigned, -⟩, hdid⟩ := hcaused
    exact ⟨S₁, hreach, hleads, hsigned, hdid⟩
  · rintro ⟨-, row, hrow, -⟩
    cases hrow
  · rintro op q l m hl hmay hmakes ⟨hsigned, row, hrow, hid⟩
    obtain ⟨x, hx, rfl⟩ := List.mem_map.mp hrow
    rcases hmay.signs hl hmakes hsigned hx hid with ⟨hbefore, y, hy, hyid⟩ | hdecides
    · exact .inl ⟨hbefore, .ofStep y, List.mem_map_of_mem hy, hyid⟩
    · exact .inr hdecides

/-! ### All calls -/

/-- A call that has not read the steps again by now does so later, on what the store has become. -/
theorem System.Follows.reread_later (h : S.Follows svc l) (hleads : System.Leads svc S S')
    {i : Nat} (hi : S'.clients[i]? = some c) (hrereads : c.Rereads r id s)
    (hnot : ∀ b, S.clients[i]? = some b → ¬b.Rereads r id s) :
    ∃ k : Ledger, s = k.store ∧ l.Evolves svc.timeouts k := by
  obtain ⟨new, hnew, hon⟩ := hleads.deeds h i
  obtain ⟨before, d, after, hdeeds, hdecides, hreads⟩ := hrereads
  -- it has not read them again by now
  have hunread (rest : List Deed) (hold : S.deedsOf i = before ++ d :: .asked (.stepsOf id) s :: rest)
      (hrest : ∀ e ∈ rest, e ∈ after) : False := by
    cases hb : S.clients[i]? with
    | none =>
      rw [System.deedsOf, hb] at hold
      simp at hold
    | some b =>
      rw [System.deedsOf_eq hb] at hold
      refine hnot b hb ⟨before, d, rest, hold, hdecides, fun q s' hd => hreads q s' ?_⟩
      rcases List.mem_append.mp hd with hd | hd
      · exact List.mem_append_left _ hd
      · exact List.mem_append_right _ (hrest _ hd)
  rw [System.deedsOf_eq hi, hdeeds, List.append_cons, List.append_cons] at hnew
  apply hon (.stepsOf id) s
  rcases List.append_eq_append_iff.mp hnew with ⟨rest, hold, hafter⟩ | ⟨rest, hbefore, hrest⟩
  · exact (hunread rest (by simp [hold]) fun e he => by simp [hafter, he]).elim
  · rcases List.eq_nil_or_concat rest with rfl | ⟨rest, e, rfl⟩
    · exact (hunread [] (by simpa using hbefore.symm) fun e he => absurd he List.not_mem_nil).elim
    · have hlast := congrArg List.getLast? hbefore
      simp only [List.concat_eq_append, ← List.append_assoc, List.getLast?_concat,
        Option.some.injEq] at hlast
      simp [hrest, hlast]

namespace System.Reachable

variable {i : Nat}

theorem rereads (h : Reachable svc S) (hc : c ∈ S.clients) (hop : c.op.ruling? = some r)
    (ha : c.answer? = some a) (hdecided : ∃ e ∈ c.deeds, e.Decides r id) :
    ∃ s, c.Rereads r id s ∧ (ToldApproved a ↔ s.SignedOff id) := by
  obtain ⟨l, hl⟩ := h.follows
  obtain ⟨b, rfl, haccount⟩ := (h.account Operation.tells hc ha).decision hop
  obtain ⟨e, he, hdecides⟩ := hdecided
  exact (hl.clients c hc).rereads hl.coherent hop haccount ha he hdecides

theorem told (h : Reachable svc S) (hc : c ∈ S.clients) (hop : c.op.ruling? = some r)
    (ha : c.answer? = some a) (hrereads : c.Rereads r id s) : ToldApproved a ↔ s.SignedOff id := by
  have hdecided : ∃ e ∈ c.deeds, e.Decides r id := by
    obtain ⟨before, d, after, hdeeds, hdecides, -⟩ := hrereads
    exact ⟨d, by simp [hdeeds], hdecides⟩
  obtain ⟨s', hrereads', htold⟩ := h.rereads hc hop ha hdecided
  rw [hrereads.unique hrereads']
  exact htold

/-- Who reads the steps again after all that is needed has been approved is told so. -/
theorem told_later (h : Reachable svc S) (hsigned : S.store.SignedOff id) (hleads : Leads svc S S')
    (hi : S'.clients[i]? = some c) (hop : c.op.ruling? = some r) (ha : c.answer? = some a)
    (hrereads : c.Rereads r id s) (hnot : ∀ b, S.clients[i]? = some b → ¬b.Rereads r id s) :
    ToldApproved a := by
  obtain ⟨l, hl⟩ := h.follows
  obtain ⟨k, rfl, hk⟩ := hl.reread_later hleads hi hrereads hnot
  rw [hl.store] at hsigned
  have hreach' : Reachable svc S' := Relation.ReflTransGen.trans h hleads
  exact (hreach'.told (List.mem_of_getElem? hi) hop ha hrereads).mpr
    (hk.signedOff hl.coherent hsigned)

/-- The call that signs the transfer off is told so when it ends. -/
theorem told_of_lastDid (h : Reachable svc S) (hsigned : S.store.SignedOff id) {op : Operation}
    {d : Deed} (hdid : S.LastDid i op d) (hop : op.ruling? = some r) (hdecides : d.Decides r id)
    (hleads : Leads svc S S') :
    ∃ c, S'.clients[i]? = some c ∧ c.op.ruling? = some r ∧ (∃ e ∈ c.deeds, e.Decides r id) ∧
      ∀ a, c.answer? = some a → ToldApproved a := by
  obtain ⟨l, hl⟩ := h.follows
  obtain ⟨c, hi, rfl, hmem⟩ := hdid.mem hl hleads
  have hdecided : ∃ e ∈ c.deeds, e.Decides r id := ⟨d, hmem, hdecides⟩
  refine ⟨c, hi, hop, hdecided, fun a ha => ?_⟩
  have hreach' : Reachable svc S' := Relation.ReflTransGen.trans h hleads
  obtain ⟨s, hrereads, -⟩ := hreach'.rereads (List.mem_of_getElem? hi) hop ha hdecided
  refine h.told_later hsigned hleads hi hop ha hrereads fun b' hb' hagain => ?_
  -- its update is the last thing it had done, so it had not read the steps yet
  obtain ⟨b, ds, hb, -, hdeeds⟩ := hdid.client
  obtain rfl : b = b' := Option.some.inj (hb.symm.trans hb')
  have hnext := hagain.next hdeeds hdecides
  cases hnext

end System.Reachable

theorem Client.Follows.decided {d : Decision} (h : c.Follows svc l) (hl : l.Coherent svc.timeouts)
    (hop : c.op.ruling? = some r) (ha : c.answer? = some (.ok (.decision d))) :
    ∃ e ∈ c.deeds, e.Decides r d.step.transferId := by
  obtain ⟨x, time, k, -, hmem, ⟨-, k', hwon⟩, hid, hd, hx⟩ := h.won hop ha
  obtain ⟨m, y, -, hml, hy, hyid, hdecides⟩ := (h.deeds _ hmem).decides hwon
  have hsame : y.transferId = (r.settles time x).transferId :=
    hl.transferId_eq hml (.refl l) hy hx (hyid.trans hid.symm)
  rw [hd, ← hsame]
  exact ⟨_, hmem, hdecides⟩

/-- **Every call is told the state of the transfer as it read it last, and of those that sign a
    transfer off one is told.** -/
theorem fresh_state (h : System.Reachable svc S) : FreshState svc S := by
  obtain ⟨l, hl⟩ := h.follows
  refine ⟨?_, ?_, ?_, ?_, ?_, ?_⟩
  · intro c hc r d hop ha
    exact (hl.clients c hc).decided hl.coherent hop ha
  · intro c hc r a id hop ha hdecided
    obtain ⟨s, hrereads, -⟩ := h.rereads hc hop ha hdecided
    exact ⟨s, hrereads⟩
  · intro c hc r a id s hop ha hrereads
    exact h.told hc hop ha hrereads
  · intro c hc r id s hrereads hsigned S' hleads
    obtain ⟨before, d, after, hdeeds, -⟩ := hrereads
    obtain ⟨k, rfl, hk, -, hkl⟩ := ((hl.clients c hc).deeds (.asked (.stepsOf id) s)
      (by simp [hdeeds])).evolved
    obtain ⟨m, hm, hfollows⟩ := hleads.follows hl
    rw [hfollows.store]
    exact (hkl.trans hm).signedOff hk hsigned
  · intro id hsigned S' hleads i c r a s hi hop ha hrereads hnot
    exact h.told_later hsigned hleads hi hop ha hrereads hnot
  · intro id hsigned hsteps
    obtain ⟨S₁, hreach, hleads, hsigned₁, i, op, d, hdid, r, hop, hdecides⟩ :=
      h.signed hsigned hsteps
    exact ⟨i, r, fun S' hleads' =>
      hreach.told_of_lastDid hsigned₁ hdid hop hdecides (hleads.trans hleads')⟩

/-- A sale is signed off by three clients at the same time.  The seller reads the steps again
    before the others have written, and the buyer after the administrator has. -/
def Sample.signingRace : List Event :=
  [.begin (.initiate "sale" sale none)] ++ acts 0 4 ++
    [.begin (.plan stepIds recordedSale)] ++ acts 1 4 ++
    [.begin (.approve "first" (.ofOwner seller) none),
     .begin (.approve "second" (.ofOwner buyer) none),
     .begin (.approve "third" admin none)] ++
    acts 2 5 ++ acts 3 4 ++ acts 4 5 ++ acts 2 2 ++ acts 3 1 ++ acts 4 1 ++ acts 3 4 ++
    acts 2 3 ++ acts 4 4

/-- The state that a decision was answered with. -/
def Client.toldState? (c : Client) : Option State :=
  match c.answer? with
  | some (.ok (.decision d)) => some d.state
  | _ => none

theorem signingRace_fresh :
    ∃ S ∈ System.replay Sample.service Sample.signingRace ⟨.empty, []⟩,
      (S.store.steps.map fun row => row.outcome) = ["approved", "approved", "approved"] ∧
      (S.clients.map Client.toldState?) =
        [none, none, some .pending, some .approved, some .approved] ∧
      FreshState Sample.service S := by
  have hreplays : ∃ S ∈ System.replay Sample.service Sample.signingRace ⟨.empty, []⟩,
      (S.store.steps.map fun row => row.outcome) = ["approved", "approved", "approved"] ∧
      (S.clients.map Client.toldState?) =
        [none, none, some .pending, some .approved, some .approved] := by
    decide +kernel
  obtain ⟨S, hS, hrows, htold⟩ := hreplays
  have hreach : System.Reachable Sample.service S := System.leads_iff.mpr ⟨_, hS⟩
  exact ⟨S, hS, hrows, htold, fresh_state hreach⟩

end SignOff
