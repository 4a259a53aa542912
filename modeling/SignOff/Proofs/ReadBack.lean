/-
  SignOff/Proofs/ReadBack.lean
  ============================
  **Nothing is written that cannot be read.**  A record that a table takes in is found
  under its identifier and given back as its columns show it (`Store.ReadsBack`), whatever
  else the table holds.  That is the record itself if and only if the record is `Faithful`:
  the kinds of its owners are those that their names stand for, and its instants, leap
  seconds included, are such of universal time.  A leap second that universal time does not
  have, one behind another second than the last of a minute, has the column of the second
  after it.

  So under an accepted configuration, and in a store that may be changed, every row that a
  run stores is read as a record and keeps to the rules of the tables, and no call is answered
  with an error of the store (`read_back`).  One thing the workflow cannot see to by itself:
  an error of the store is all there is to answer if two proposals are recorded under one
  identifier.  It also is if the configuration names a store that must not be changed.
-/
import SignOff.Proofs.StoreInvariant
import SignOff.Proofs.Store.Keyed
import SignOff.Proofs.Workflow.Noting

namespace SignOff

structure Transfer.Parsed (t : Transfer) : Prop where
  source : t.source.Parsed
  target : t.target.Parsed
  initiator : ∀ o ∈ t.initiatedBy, o.Parsed

structure Step.Parsed (x : Step) : Prop where
  approver : ∀ o ∈ x.approver, o.Parsed
  resolver : ∀ o ∈ x.resolvedBy, o.Parsed

/-- Nothing of the transfer is lost in its columns: its owners have kinds that names stand for, and
    its instants are such of universal time. -/
structure Transfer.Faithful (t : Transfer) : Prop where
  parsed : t.Parsed
  utc : t.AllInstants Instant.IsUtc

/-- Nothing of the step is lost in its columns. -/
structure Step.Faithful (x : Step) : Prop where
  parsed : x.Parsed
  utc : x.AllInstants Instant.IsUtc

/-- What the store takes in, it gives back as its columns show it. -/
structure Store.ReadsBack (s : Store) : Prop where
  transfer : ∀ t s', t.AllInstants Instant.InYears → s.insertTransfer t = .ok s' →
    s'.findTransfer t.id = .ok (some t.asRead)
  steps : ∀ xs s', s.insertSteps xs = .ok s' → ∀ x ∈ xs, x.AllInstants Instant.InYears →
    s'.findStep x.id = .ok (some x.asRead)

/-- Every row is read as a record, and keeps to the rules of its table. -/
structure Store.Lawful (s : Store) : Prop where
  transfers : ∀ row ∈ s.transfers, ∃ t, row.transfer = .ok t
  steps : ∀ row ∈ s.steps, ∃ x, row.step = .ok x
  types : ∀ row ∈ s.steps, row.type ∈ ["source", "target", "admin"]
  outcomes : ∀ row ∈ s.steps, row.outcome ∈ ["pending", "approved", "rejected"]
  hours : ∀ row ∈ s.steps, 0 < row.timeoutHours
  references : ∀ row ∈ s.steps, ∃ stored ∈ s.transfers, stored.id = row.transferId

/-! ### One record -/

theorem Transfer.asRead_eq_self_iff {t : Transfer} : t.asRead = t ↔ t.Faithful := by
  have hfields : t.asRead = t ↔ t.source.asRead = t.source ∧ t.target.asRead = t.target ∧
      t.initiatedBy.map Owner.asRead = t.initiatedBy ∧ t.createdAt.shown = t.createdAt ∧
        t.completedAt.map Instant.shown = t.completedAt := by
    cases t
    simp [asRead]
  simp only [hfields, Owner.asRead_eq_self_iff, map_eq_self_iff, Instant.shown_eq_self_iff]
  constructor
  · rintro ⟨hsource, htarget, hinitiator, hcreated, hcompleted⟩
    exact ⟨⟨hsource, htarget, hinitiator⟩, ⟨hcreated, hcompleted⟩⟩
  · rintro ⟨hparsed, hutc⟩
    exact ⟨hparsed.source, hparsed.target, hparsed.initiator, hutc.created, hutc.completed⟩

theorem Step.asRead_eq_self_iff {x : Step} : x.asRead = x ↔ x.Faithful := by
  have hfields : x.asRead = x ↔ x.approver.map Owner.asRead = x.approver ∧
      x.resolvedBy.map Owner.asRead = x.resolvedBy ∧
        x.resolvedAt.map Instant.shown = x.resolvedAt ∧ x.createdAt.shown = x.createdAt := by
    cases x
    simp [asRead]
  simp only [hfields, Owner.asRead_eq_self_iff, map_eq_self_iff, Instant.shown_eq_self_iff]
  constructor
  · rintro ⟨happrover, hresolver, hresolved, hcreated⟩
    exact ⟨⟨happrover, hresolver⟩, ⟨hcreated, hresolved⟩⟩
  · rintro ⟨hparsed, hutc⟩
    exact ⟨hparsed.approver, hparsed.resolver, hutc.resolved, hutc.created⟩

namespace Store

variable {s s' : Store} {x y : Step} {id : String}

theorem findTransfer_of_insertTransfer {t : Transfer} (hyears : t.AllInstants Instant.InYears)
    (h : s.insertTransfer t = .ok s') : s'.findTransfer t.id = .ok (some t.asRead) := by
  obtain ⟨hfree, rfl⟩ := eq_of_insertTransfer h
  have hold : (s.transfers.find? fun row => decide (row.id = t.id)) = none := by
    simpa using hfree
  have hrow : ((s.transfers ++ [TransferRow.ofTransfer t]).find? fun row =>
      decide (row.id = t.id)) = some (TransferRow.ofTransfer t) := by
    rw [List.find?_append, hold]
    simp [TransferRow.ofTransfer]
  simp only [findTransfer, hrow, TransferRow.transfer_ofTransfer hyears]
  rfl

theorem findStep_of_insertStep (hyears : x.AllInstants Instant.InYears)
    (h : s.insertStep x = .ok s') : s'.findStep x.id = .ok (some x.asRead) := by
  obtain ⟨hfree, rfl⟩ := eq_of_insertStep h
  have hold : (s.steps.find? fun row => decide (row.id = x.id)) = none := by
    simpa using hfree
  have hrow : (s.steps ++ [StepRow.ofStep x]).find? (fun row => decide (row.id = x.id)) =
      some (StepRow.ofStep x) := by
    rw [List.find?_append, hold]
    simp [StepRow.ofStep]
  simp only [findStep, hrow, StepRow.step_ofStep hyears]
  rfl

theorem findStep_insertStep (hx : s.findStep id = .ok (some x)) (h : s.insertStep y = .ok s') :
    s'.findStep id = .ok (some x) := by
  obtain ⟨-, rfl⟩ := eq_of_insertStep h
  rw [findStep] at hx ⊢
  cases hrow : s.steps.find? fun row => decide (row.id = id) with
  | none =>
    rw [hrow] at hx
    cases hx
  | some row =>
    rw [hrow] at hx
    rw [List.find?_append, hrow]
    exact hx

theorem findStep_of_insertSteps {xs : List Step} (h : s.insertSteps xs = .ok s') (hx : x ∈ xs)
    (hyears : x.AllInstants Instant.InYears) : s'.findStep x.id = .ok (some x.asRead) := by
  induction xs generalizing s with
  | nil => cases hx
  | cons y rest ih =>
    obtain ⟨k, hk, hrest⟩ := exists_of_bind_eq_ok h
    rcases List.mem_cons.mp hx with rfl | hx
    · -- the rest comes behind it
      apply insertSteps_kept ?_ (findStep_of_insertStep hyears hk) hrest
      intro s s' y _ hfound hy
      exact findStep_insertStep hfound hy
    · exact ih hrest hx

theorem readsBack (s : Store) : s.ReadsBack := by
  constructor
  · intro t s' hyears h
    exact findTransfer_of_insertTransfer hyears h
  · intro xs s' h x hx hyears
    exact findStep_of_insertSteps h hx hyears

end Store

/-! ### In ledgers -/

section Ledgers

variable {svc : Service} {timeouts : Timeouts} {l m : Ledger} {S : System} {why : Error}

theorem Ledger.Coherent.lawful (h : l.Coherent timeouts) : l.store.Lawful := by
  constructor
  · intro row hrow
    obtain ⟨t, ht, rfl⟩ := List.mem_map.mp hrow
    obtain ⟨hkeep, -⟩ := h.legible.transfers t ht
    exact ⟨_, TransferRow.transfer_ofTransfer hkeep.inYears⟩
  · intro row hrow
    obtain ⟨x, hx, rfl⟩ := List.mem_map.mp hrow
    exact ⟨x, h.legible.step_ofStep hx⟩
  · intro row hrow
    obtain ⟨x, -, rfl⟩ := List.mem_map.mp hrow
    dsimp only [StepRow.ofStep]
    cases x.type <;> decide
  · intro row hrow
    obtain ⟨x, -, rfl⟩ := List.mem_map.mp hrow
    dsimp only [StepRow.ofStep]
    cases x.outcome <;> decide
  · intro row hrow
    obtain ⟨x, hx, rfl⟩ := List.mem_map.mp hrow
    have hpositive : x.timeoutHours.toNat ≠ 0 := by
      intro hzero
      exact (h.hours x hx).2 (UInt32.toNat_inj.mp hzero)
    dsimp only [StepRow.ofStep]
    omega
  · intro row hrow
    obtain ⟨x, hx, rfl⟩ := List.mem_map.mp hrow
    obtain ⟨t, ht, hserves⟩ := h.serves x hx
    exact ⟨.ofTransfer t, List.mem_map_of_mem ht, hserves.transferId⟩

/-- What is planned breaks no rule; it can only be there already. -/
theorem Ledger.insertStep_error {x : Step} (hx : l.Planned timeouts x)
    (hhours : timeouts.hours x.type ≠ 0) (h : l.insertStep x = .error why) :
    why = .stepExists x.transferId x.type := by
  obtain ⟨t, ht, -, -, hfresh⟩ := hx
  have hnonzero : x.timeoutHours ≠ 0 := by
    rw [hfresh]
    exact hhours
  have hstored : (l.transfers.any fun u => decide (u.id = x.transferId)) = true := by
    apply List.any_eq_true.mpr
    refine ⟨t, ht, ?_⟩
    rw [hfresh]
    simp [Step.fresh]
  rw [insertStep, if_neg hnonzero, if_pos hstored] at h
  split at h
  · exact (Except.error.inj h).symm
  · cases h

theorem Ledger.insertSteps_error {xs : List Step} (hxs : ∀ x ∈ xs, l.Planned timeouts x)
    (hhours : ∀ type, timeouts.hours type ≠ 0) (h : l.insertSteps xs = .error why) :
    ∃ id type, why = .stepExists id type := by
  induction xs generalizing l with
  | nil => cases h
  | cons x rest ih =>
    rw [insertSteps] at h
    cases hx : l.insertStep x with
    | error why' =>
      rw [hx] at h
      cases h
      exact ⟨_, _, insertStep_error (hxs x List.mem_cons_self) (hhours _) hx⟩
    | ok k =>
      rw [hx] at h
      have htransfers : k.transfers = l.transfers := by rw [(eq_of_insertStep hx).2.2]
      refine ih ?_ h
      intro y hy
      exact (hxs y (List.mem_cons_of_mem x hy)).congr htransfers

theorem Ledger.insertTransfer_error {t : Transfer} (h : l.insertTransfer t = .error why) :
    why = .breach .transferIdTaken ∧ ∃ u ∈ l.transfers, u.id = t.id := by
  rw [insertTransfer] at h
  split at h
  · next htaken =>
    refine ⟨(Except.error.inj h).symm, ?_⟩
    simpa using htaken
  · cases h

/-- Of all that an operation may ask of the store, only the recording of a transfer can end in
    an error of the store. -/
theorem Operation.May.on_error {op : Operation} {q : Statement} (h : op.May timeouts q l)
    (hhours : ∀ type, timeouts.hours type ≠ 0) (hq : q.on l = .error why) (hdb : why.kind = .db) :
    why = .breach .transferIdTaken ∧ op.recorded?.isSome = true ∧
      ∃ t, q = .insertTransfer t ∧ ∃ u ∈ l.transfers, u.id = t.id := by
  cases hw : q.writes with
  | false =>
    obtain ⟨r, hr⟩ := Statement.on_reads hw l
    rw [hr] at hq
    cases hq
  | true =>
    have hwrites := h.writes hw
    cases q with
    | insertTransfer t =>
      rw [Statement.on] at hq
      cases hm : l.insertTransfer t with
      | ok m =>
        rw [hm] at hq
        cases hq
      | error why' =>
        rw [hm] at hq
        cases hq
        obtain ⟨rfl, htaken⟩ := Ledger.insertTransfer_error hm
        exact ⟨rfl, h.recorded, t, rfl, htaken⟩
    | insertSteps xs =>
      rw [Statement.on] at hq
      cases hm : l.insertSteps xs with
      | ok m =>
        rw [hm] at hq
        cases hq
      | error why' =>
        rw [hm] at hq
        cases hq
        obtain ⟨id, type, rfl⟩ := Ledger.insertSteps_error h.admissible hhours hm
        cases hdb
    | resolve id outcome resolver notes time =>
      have hterm : outcome.isTerminal = true := by
        cases op <;> simp [Operation.Writes] at hwrites
        · rw [hwrites.2.1]
          rfl
        · rw [hwrites.2.1]
          rfl
      rw [Statement.on, if_pos hterm] at hq
      cases hq
    | complete id time => cases hq
    | _ => cases hw

/-! ### Calls -/

/-- An error of the store is the error of a statement. -/
theorem Operation.Account.broke {op : Operation} {a : Except Halt Answer} {ds : List Deed}
    (h : op.Account svc a ds) (ha : a = .error (.failed why)) (hdb : why.kind = .db) :
    Deed.Broke why ds := by
  cases h.task with
  | needless ends idle =>
    rw [ha] at ends
    cases ends
    cases hdb
  | inserts ends told changes noted =>
    rw [ha] at ends
    cases told with
    | inserted runs => cases ends
    | failed fails =>
      cases ends
      exact ⟨_, _, List.mem_append_right _ List.mem_cons_self, fails⟩
  | decides ruling ends told =>
    rw [ha] at ends
    cases told with
    | broken unnoted broke =>
      cases ends
      exact broke
    | unknown unnoted kind =>
      cases ends
      rw [hdb] at kind
      cases kind
    | refused found calm kind =>
      cases ends
      rw [hdb] at kind
      cases kind
    | late found calm lost =>
      cases ends
      cases hdb
    | _ => cases ends
  | @completes id b completion ends told =>
    rw [ha] at ends
    cases told with
    | broken calm broke =>
      cases ends
      exact broke
    | unstamped calm kind =>
      cases ends
      exact absurd hdb (kind _ rfl)
    | late calm closed =>
      cases ends
      cases hdb
    | @stamped b time last k k' s ds calm stamped lookedUp =>
      -- only the reading after the stamp can still fail
      subst lookedUp
      rcases hfound : s.findTransfer id with why' | (_ | t)
      · rw [hfound] at ends
        cases ends
        exact ⟨.findTransfer id, s, by simp, by rw [Statement.run, hfound]; rfl⟩
      · rw [hfound] at ends
        cases ends
        cases hdb
      · rw [hfound] at ends
        cases ends
  | glances told =>
    rcases told.failed why ha with ⟨id, rfl⟩ | hbroke
    · cases hdb
    · exact hbroke

/-- **A call that is answered with an error of the store has recorded a transfer under an
    identifier that another call had recorded one under.** -/
theorem System.Reachable.taken (h : System.Reachable svc S)
    (hhours : ∀ type, svc.timeouts.hours type ≠ 0)
    (hended : ∀ c ∈ S.clients, ∃ a, c.answer? = some a) {i : Nat} {c : Client}
    (hi : S.clients[i]? = some c) (ha : c.answer? = some (.error (.failed why)))
    (hdb : why.kind = .db) :
    ∃ id j b, c.op.recorded? = some id ∧ j ≠ i ∧ S.clients[j]? = some b ∧
      b.op.recorded? = some id := by
  obtain ⟨l, hl⟩ := h.follows
  have hc : c ∈ S.clients := List.mem_of_getElem? hi
  have haccount := h.account Operation.tells hc ha
  obtain ⟨q, s, hd, hwhy⟩ := haccount.broke rfl hdb
  obtain ⟨k, rfl, hk, hmay, hkl⟩ := ((hl.clients c hc).deeds _ hd).evolved
  rw [Statement.run_store hk.legible] at hwhy
  cases hq : q.on k with
  | ok r =>
    rw [hq] at hwhy
    cases hwhy
  | error why' =>
    rw [hq] at hwhy
    cases hwhy
    obtain ⟨-, hop, t, rfl, u, hu, hid⟩ := hmay.on_error hhours hq hdb
    obtain ⟨hrecorded, honce⟩ := haccount.recorded hop hd
    -- the transfer that is in the way is still there
    obtain ⟨v, hv, huv⟩ := hkl.grows.mem_transfers hu
    have hvid : v.id = t.id := huv.id_eq.trans hid
    have hrow : TransferRow.ofTransfer v ∈ S.store.transfers := by
      rw [hl.store]
      exact List.mem_map_of_mem hv
    obtain ⟨j, b, t', s', hj, hb, hd', hfree⟩ := h.recorded hended hrow
    refine ⟨t.id, j, b, hrecorded, ?_, hj, by rw [hb, ← hvid]; rfl⟩
    rintro rfl
    rw [hi] at hj
    cases hj
    obtain rfl := honce _ _ hd'
    exact hfree (.ofTransfer u) (List.mem_map_of_mem hu) (hid.trans hvid.symm)

end Ledgers

/-! ### All runs -/

/-- What comes once among the images comes from one place. -/
theorem eq_of_nodup_filterMap {α β : Type} {f : α → Option β} {as : List α}
    (h : (as.filterMap f).Nodup) {i j : Nat} {a a' : α} {b : β} (hi : as[i]? = some a)
    (hj : as[j]? = some a') (ha : f a = some b) (ha' : f a' = some b) : i = j := by
  have hpairs := List.pairwise_iff_getElem.mp (List.pairwise_filterMap.mp h)
  obtain ⟨hi', rfl⟩ := List.getElem?_eq_some_iff.mp hi
  obtain ⟨hj', rfl⟩ := List.getElem?_eq_some_iff.mp hj
  rcases Nat.lt_trichotomy i j with hlt | heq | hlt
  · exact absurd rfl (hpairs i j hi' hj' hlt b ha b ha')
  · exact heq
  · exact absurd rfl (hpairs j i hj' hi' hlt b ha' b ha)

/-- **What is written can be read back**, by all stores, as it was if it is faithful; and under an
    accepted configuration every row that a run stores is read, and no call is answered with an
    error of the store as long as every proposal is recorded under an identifier of its own. -/
theorem read_back {text : String} {c : Config} (accepted : Config.ofText text = .ok c) {σ : Type}
    {trail : Audit.Trail σ} {turns : List Turn} {s : Store} {w : σ}
    (run : Run (.ofConfig c) trail turns s w) :
    (∀ k : Store, k.ReadsBack) ∧ (∀ t : Transfer, t.asRead = t ↔ t.Faithful) ∧
      (∀ x : Step, x.asRead = x ↔ x.Faithful) ∧ s.Lawful ∧
      ((turns.filterMap fun turn => turn.op.recorded?).Nodup →
        ∀ turn ∈ turns, ∀ why, turn.answer = .error (.failed why) → why.kind ≠ .db) := by
  refine ⟨Store.readsBack, fun _ => Transfer.asRead_eq_self_iff, fun _ => Step.asRead_eq_self_iff,
    ?_, ?_⟩
  · obtain ⟨l, rfl, h⟩ := run.history
    exact h.coherent.lawful
  · intro hfresh turn hturn why hwhy hdb
    obtain ⟨S, hreach, -, hplays, -⟩ := run.reachable
    have hended : ∀ b ∈ S.clients, ∃ a, b.answer? = some a := by
      intro b hb
      obtain ⟨other, -, hthis⟩ := exists_mem_of_forall₂ hplays.flip hb
      exact ⟨_, hthis.answer⟩
    obtain ⟨i, hi⟩ := List.mem_iff_getElem?.mp hturn
    obtain ⟨b, hb, hthis⟩ := exists_of_forall₂_right hplays hi
    have hanswer := hthis.answer
    rw [hwhy] at hanswer
    obtain ⟨id, j, b', hid, hne, hb', hid'⟩ :=
      hreach.taken (Config.hours_ne_zero accepted) hended hb hanswer hdb
    obtain ⟨other, hj, hother⟩ := exists_of_forall₂ hplays hb'
    rw [hthis.op] at hid
    rw [hother.op] at hid'
    exact hne (eq_of_nodup_filterMap hfresh hj hi hid' hid)

/-- A fraction of the last second of the year 2016, which was a leap second. -/
def Sample.leapSecond : Instant :=
  (Instant.ofFields? ((Date.ofFields? 2016 12 31).get (by decide)) 23 59 60 123456789).get
    (by decide)

def Sample.shop : Owner := .ofNames "service" "shop"

/-- A shop records a sale and a gift in that second, and the owner signs the sale off. -/
def Sample.leapSale : List (Operation × Instant) :=
  [(.initiate "sale" sale (some shop), leapSecond),
   (.plan stepIds (.ofProposal "sale" sale (some shop) leapSecond), leapSecond),
   (.approve "first" ((Actor.ofOwner seller).owning "license") (some "sold"), leapSecond),
   (.initiate "gift" gift none, leapSecond),
   (.complete "sale", leapSecond)]

/-- A step with as many hours as there can be. -/
def Sample.longStep : Step :=
  { id := "long", transferId := "gift", type := .target, approver := some buyer,
    timeoutHours := 4294967295, outcome := .approved, resolvedBy := some shop,
    resolvedAt := some leapSecond, notes := none, createdAt := leapSecond }

theorem leapSale_reads_back :
    Config.ofText "[timeouts]\nsource_hours = 48\n" = .ok Sample.twoDays ∧
      ∃ r ∈ play (.ofConfig Sample.twoDays) .silent Sample.leapSale [] .empty (),
        (∃ s', r.2.1.insertSteps [Sample.longStep] = .ok s' ∧
          s'.findStep "long" = .ok (some Sample.longStep)) ∧
        r.2.1.steps.length = 3 ∧ r.2.1.Lawful ∧
        ∀ turn ∈ r.1, ∀ why, turn.answer = .error (.failed why) → why.kind ≠ .db := by
  have haccepted : Config.ofText "[timeouts]\nsource_hours = 48\n" = .ok Sample.twoDays := by rfl
  have hplays : ∃ r ∈ play (.ofConfig Sample.twoDays) .silent Sample.leapSale [] .empty (),
      (r.2.1.insertSteps [Sample.longStep]).toOption.isSome = true ∧ r.2.1.steps.length = 3 ∧
        (r.1.filterMap fun turn => turn.op.recorded?).Nodup := by
    decide +kernel
  obtain ⟨r, hplay, htaken, hlength, hfresh⟩ := hplays
  obtain ⟨hback, -, hsame, hlawful, hnone⟩ := read_back haccepted ((Run.start ()).play hplay)
  refine ⟨haccepted, r, hplay, ?_, hlength, hlawful, hnone hfresh⟩
  have hparsed : Sample.longStep.Parsed := by
    constructor
    · intro o ho
      cases ho
      exact ⟨"team", by decide⟩
    · intro o ho
      cases ho
      exact ⟨"service", rfl⟩
  have hkeep : Sample.longStep.Keepable := by
    constructor
    · decide
    · intro t ht
      cases ht
      decide
  have hstep : Sample.longStep.asRead = Sample.longStep :=
    (hsame _).mpr ⟨hparsed, hkeep.imp fun _ => And.right⟩
  obtain ⟨s', hs'⟩ := Option.isSome_iff_exists.mp htaken
  have hs := ok_of_mem_toOption hs'
  have hfound := (hback r.2.1).steps _ _ hs _ List.mem_cons_self hkeep.inYears
  rw [hstep] at hfound
  exact ⟨s', hs, hfound⟩

/-- A sale recorded within a leap second behind second 20, which universal time does not have. -/
def Sample.oddSale : Transfer :=
  .ofProposal "sale" sale none
    ⟨⟨2024, 3, 5, by decide⟩, 15, 10, 20, 1250000000, by decide, by decide, by decide, by decide⟩

/-- A configuration with a store that is opened for reading only. -/
def Sample.readOnly : Config := { Config.standard with store := "file:store.db?mode=ro" }

/-- **Not all that is written comes back, and not everything can be written.**  An instant that is
    none of universal time is read as the one that its column shows; and a configuration may name
    a store that must not be changed, in which nothing is recorded. -/
theorem not_always_read_back :
    (Sample.oddSale.Parsed ∧ Sample.oddSale.AllInstants Instant.InYears ∧
      ∃ s' t, Store.empty.insertTransfer Sample.oddSale = .ok s' ∧
        s'.findTransfer "sale" = .ok (some t) ∧ t ≠ Sample.oddSale) ∧
    Config.ofText "db_path = 'file:store.db?mode=ro'\n" = .ok Sample.readOnly ∧
      (OpenStore.ofName ⟨[(["store.db"], .store .empty)]⟩ Sample.readOnly.store).1 =
        .ok ⟨.empty, some ["store.db"], false⟩ ∧
      ∀ readings : Nat → Instant, ∃ why,
        (((Operation.initiate "sale" Sample.sale none).procedure
          (.ofConfig Sample.readOnly)).onlyReading.runAlong .silent readings .empty ()).answer =
            .error (.failed why) ∧ why.kind = .db := by
  refine ⟨⟨?_, ?_, ?_⟩, by rfl, by decide +kernel, fun readings => ⟨_, rfl, rfl⟩⟩
  · exact ⟨⟨"user", by decide⟩, ⟨"team", by decide⟩, nofun⟩
  · constructor
    · decide
    · intro t ht
      cases ht
  · exact ⟨_, Sample.oddSale.asRead, rfl, by decide +kernel, by decide +kernel⟩

end SignOff
