/-
  SignOff/Proofs/Workflow/Change.lean
  ===================================
  **What is done once.**  A transfer is recorded, a step is decided, a transfer is completed:
  each `Change` is made by one statement, on a store that did not show it yet, and every
  later store shows it (`Statement.shows_run`, `Statement.not_shows`).  So the changes among
  deeds that were done one after the other are all different, and they are what the store
  shows at the end and did not show before (`Deed.Chain.changes`).  That holds of a call that
  is carried out alone, and of all clients of a system together (`System.Reachable.changes`).
-/
import SignOff.Proofs.Workflow.Session
import SignOff.Proofs.Workflow.Succession

namespace SignOff

open Audit

/-- What is done once, and shows in the rows from then on. -/
inductive Change where
  | recorded (transferId : String)
  | decided (stepId : String)
  | completed (transferId : String)
deriving DecidableEq, Repr

/-- The rows show the change. -/
def Store.Shows (s : Store) : Change → Prop
  | .recorded id => ∃ row ∈ s.transfers, row.id = id
  | .decided id => ∃ row ∈ s.steps, row.id = id ∧ row.outcome ≠ Outcome.pending.name
  | .completed id => ∃ row ∈ s.transfers, row.id = id ∧ row.completedAt ≠ none

/-- The change that the statement makes on the store, if it makes one there. -/
def Statement.change? (s : Store) : Statement → Option Change
  | .insertTransfer t =>
    if s.transfers.any fun row => row.id = t.id then none else some (.recorded t.id)
  | .resolve id outcome _ _ _ =>
    if outcome.isTerminal && s.steps.any (Store.isOpenStep id) then some (.decided id) else none
  | .complete id _ =>
    if s.transfers.any (Store.isOpenTransfer id) then some (.completed id) else none
  | _ => none

def Deed.change? : Deed → Option Change
  | .asked q s => q.change? s
  | _ => none

/-- The changes that the deeds have made, in order. -/
def Deed.changes (ds : List Deed) : List Change := ds.filterMap Deed.change?

variable {clock : Instant → Prop} {timeouts : Timeouts} {s s' : Store} {q : Statement}
  {ch : Change} {ds ds' : List Deed}

namespace Deed

theorem changes_append : changes (ds ++ ds') = changes ds ++ changes ds' := List.filterMap_append

@[simp] theorem changes_nil : changes [] = [] := rfl

@[simp] theorem changes_read (t : Instant) : changes (.read t :: ds) = changes ds := rfl

@[simp] theorem changes_noted (e : Entry) : changes (.noted e :: ds) = changes ds := rfl

@[simp] theorem changes_asked :
    changes (.asked q s :: ds) = (q.change? s).toList ++ changes ds := by
  rw [changes, List.filterMap_cons, change?]
  cases q.change? s <;> rfl

end Deed

/-! ### Statements -/

namespace Statement

theorem change?_of_reads (hq : q.writes = false) : q.change? s = none := by
  cases q with
  | insertTransfer t => cases hq
  | resolve id outcome resolver notes time => cases hq
  | complete id time => cases hq
  | _ => rfl

theorem change?_insertTransfer {t : Transfer} (h : s.insertTransfer t = .ok s') :
    (Statement.insertTransfer t).change? s = some (.recorded t.id) := by
  obtain ⟨hfree, -⟩ := Store.eq_of_insertTransfer h
  rw [change?, if_neg (by simpa using hfree)]

theorem change?_of_error {why : Error} (h : q.run s = .error why) : q.change? s = none := by
  cases q with
  | insertTransfer t =>
    rw [run, Store.insertTransfer] at h
    rw [change?]
    split at h
    · next htaken => rw [if_pos htaken]
    · cases h
  | resolve id outcome resolver notes time =>
    rw [run, Store.resolve] at h
    split at h
    · cases h
    · next hterm =>
      rw [change?, if_neg]
      simp [hterm]
  | complete id time => cases h
  | _ => rfl

end Statement

/-- Steps come behind those that are there, and nothing is decided in them. -/
theorem Store.shows_insertSteps {xs : List Step} (hxs : ∀ x ∈ xs, x.outcome = .pending)
    (h : s.insertSteps xs = .ok s') : s'.Shows ch ↔ s.Shows ch := by
  have hmore : s'.transfers = s.transfers ∧ ∃ rows, s'.steps = s.steps ++ rows ∧
      ∀ row ∈ rows, row.outcome = Outcome.pending.name := by
    refine insertSteps_kept (P := fun k => k.transfers = s.transfers ∧ ∃ rows,
      k.steps = s.steps ++ rows ∧ ∀ row ∈ rows, row.outcome = Outcome.pending.name)
      ?_ ⟨rfl, [], by simp, by simp⟩ h
    rintro k k' x hx ⟨htransfers, rows, hrows, hpending⟩ hk
    obtain ⟨-, rfl⟩ := eq_of_insertStep hk
    refine ⟨htransfers, rows ++ [.ofStep x], by simp [hrows], ?_⟩
    intro row hrow
    rcases List.mem_append.mp hrow with hrow | hrow
    · exact hpending row hrow
    · rw [List.mem_singleton.mp hrow, StepRow.ofStep, hxs x hx]
  obtain ⟨htransfers, rows, hrows, hpending⟩ := hmore
  cases ch with
  | recorded id => simp only [Shows, htransfers]
  | completed id => simp only [Shows, htransfers]
  | decided id =>
    simp only [Shows, hrows, List.mem_append]
    constructor
    · rintro ⟨row, hrow | hrow, hid, hdecided⟩
      · exact ⟨row, hrow, hid, hdecided⟩
      · exact absurd (hpending row hrow) hdecided
    · rintro ⟨row, hrow, hthis⟩
      exact ⟨row, .inl hrow, hthis⟩

/-- What is put in the place of elements that did not have a property may have it. -/
theorem exists_mem_map_ite {α : Type} {l : List α} {p : α → Bool} {g : α → α} {P : α → Prop}
    (hp : ∀ a, p a = true → ¬P a) :
    (∃ a ∈ l.map fun a => if p a then g a else a, P a) ↔
      (∃ a ∈ l, P a) ∨ ∃ a ∈ l, p a = true ∧ P (g a) := by
  constructor
  · rintro ⟨b, hb, hP⟩
    obtain ⟨a, ha, rfl⟩ := List.mem_map.mp hb
    split at hP
    · next hpa => exact .inr ⟨a, ha, hpa, hP⟩
    · exact .inl ⟨a, ha, hP⟩
  · rintro (⟨a, ha, hP⟩ | ⟨a, ha, hpa, hP⟩)
    · exact ⟨a, List.mem_map.mpr ⟨a, ha, if_neg fun hpa => hp a hpa hP⟩, hP⟩
    · exact ⟨g a, List.mem_map.mpr ⟨a, ha, if_pos hpa⟩, hP⟩

theorem Store.isOpenStep_iff {id : String} {row : StepRow} :
    isOpenStep id row = true ↔ row.id = id ∧ row.outcome = Outcome.pending.name := by
  simp only [isOpenStep, Bool.and_eq_true, decide_eq_true_eq]

theorem Store.isOpenTransfer_iff {id : String} {row : TransferRow} :
    isOpenTransfer id row = true ↔ row.id = id ∧ row.completedAt = none := by
  simp only [isOpenTransfer, Bool.and_eq_true, decide_eq_true_eq, Option.isNone_iff_eq_none]

theorem Store.shows_resolve {id : String} {outcome : Outcome} (hterm : outcome.isTerminal = true)
    {resolver : Owner} {notes : Option String} {time : Instant} {won : Bool}
    (h : s.resolve id outcome resolver notes time = .ok (won, s')) :
    s'.Shows ch ↔ s.Shows ch ∨
      Statement.change? s (.resolve id outcome resolver notes time) = some ch := by
  rw [resolve, if_pos hterm] at h
  cases h
  cases ch with
  | recorded id' =>
    simp [Shows, Statement.change?]
  | completed id' =>
    simp [Shows, Statement.change?]
  | decided id' =>
    have hterminal : outcome.name ≠ Outcome.pending.name := by
      rw [Ne, Outcome.name_inj]
      rintro rfl
      cases hterm
    have hopen : (∃ row ∈ s.steps, isOpenStep id row = true ∧
        (decided outcome resolver notes time row).id = id' ∧
        (decided outcome resolver notes time row).outcome ≠ Outcome.pending.name) ↔
          s.steps.any (isOpenStep id) = true ∧ id = id' := by
      rw [List.any_eq_true]
      constructor
      · rintro ⟨row, hrow, hthis, hid, -⟩
        exact ⟨⟨row, hrow, hthis⟩, (isOpenStep_iff.mp hthis).1.symm.trans hid⟩
      · rintro ⟨⟨row, hrow, hthis⟩, rfl⟩
        exact ⟨row, hrow, hthis, (isOpenStep_iff.mp hthis).1, hterminal⟩
    simp only [Shows, Statement.change?, hterm, Bool.true_and]
    rw [exists_mem_map_ite, hopen]
    · cases s.steps.any (isOpenStep id) <;> simp
    · intro row hrow hdecided
      exact hdecided.2 (isOpenStep_iff.mp hrow).2

theorem Store.shows_complete {id : String} {time : Instant} :
    (s.complete id time).2.Shows ch ↔ s.Shows ch ∨
      Statement.change? s (.complete id time) = some ch := by
  cases ch with
  | decided id' =>
    simp [complete, Shows, Statement.change?]
  | recorded id' =>
    have hsame : (∃ row ∈ (s.complete id time).2.transfers, row.id = id') ↔
        ∃ row ∈ s.transfers, row.id = id' := by
      simp only [complete, List.mem_map, exists_exists_and_eq_and]
      refine exists_congr fun row => and_congr_right fun _ => ?_
      split <;> rfl
    simp only [Shows, hsame, Statement.change?]
    cases s.transfers.any (isOpenTransfer id) <;> simp
  | completed id' =>
    have hopen : (∃ row ∈ s.transfers, isOpenTransfer id row = true ∧ row.id = id' ∧
        some time.columnText ≠ none) ↔ s.transfers.any (isOpenTransfer id) = true ∧ id = id' := by
      rw [List.any_eq_true]
      constructor
      · rintro ⟨row, hrow, hthis, hid, -⟩
        exact ⟨⟨row, hrow, hthis⟩, (isOpenTransfer_iff.mp hthis).1.symm.trans hid⟩
      · rintro ⟨⟨row, hrow, hthis⟩, rfl⟩
        exact ⟨row, hrow, hthis, (isOpenTransfer_iff.mp hthis).1, Option.some_ne_none _⟩
    simp only [Shows, complete, Statement.change?]
    rw [exists_mem_map_ite, hopen]
    · cases s.transfers.any (isOpenTransfer id) <;> simp
    · intro row hrow hdone
      exact hdone.2 (isOpenTransfer_iff.mp hrow).2

namespace Statement

/-- **The rows show what they showed, and the change of the statement.** -/
theorem shows_run (hq : q.Dated clock timeouts) {r : q.Reply × Store} (hr : q.run s = .ok r) :
    r.2.Shows ch ↔ s.Shows ch ∨ q.change? s = some ch := by
  cases q with
  | insertTransfer t =>
    obtain ⟨s', hs, rfl⟩ := exists_of_map_eq_ok hr
    have hopen : t.completedAt = none := hq.2
    rw [change?_insertTransfer hs]
    obtain ⟨hfree, rfl⟩ := Store.eq_of_insertTransfer hs
    cases ch with
    | recorded id => simp [Store.Shows, TransferRow.ofTransfer, or_and_right, exists_or]
    | decided id => simp [Store.Shows]
    | completed id => simp [Store.Shows, TransferRow.ofTransfer, hopen, or_and_right, exists_or]
  | insertSteps xs =>
    obtain ⟨s', hs, rfl⟩ := exists_of_map_eq_ok hr
    have hpending : ∀ x ∈ xs, x.outcome = .pending := by
      intro x hx
      rw [(hq x hx).2]
      rfl
    rw [Store.shows_insertSteps hpending hs]
    simp [change?]
  | resolve id outcome resolver notes time =>
    obtain ⟨won, s'⟩ := r
    by_cases hterm : outcome.isTerminal = true
    · exact Store.shows_resolve hterm hr
    · rw [run, Store.resolve, if_neg hterm] at hr
      cases hr
  | complete id time =>
    cases hr
    exact Store.shows_complete
  | _ =>
    rw [store_of_run hr rfl]
    simp [change?]

/-- No statement makes a change on a store that shows it. -/
theorem not_shows (hs : s.Keyed) (h : q.change? s = some ch) : ¬s.Shows ch := by
  cases q with
  | insertTransfer t =>
    rw [change?] at h
    split at h
    · cases h
    · next hfree =>
      cases h
      simpa [Store.Shows] using hfree
  | resolve id outcome resolver notes time =>
    rw [change?] at h
    split at h
    · next hopen =>
      cases h
      obtain ⟨row, hrow, hthis⟩ := List.any_eq_true.mp (Bool.and_eq_true_iff.mp hopen).2
      obtain ⟨hid, hpending⟩ := Store.isOpenStep_iff.mp hthis
      rintro ⟨other, hother, hotherid, hdecided⟩
      rw [hs.step_ext hother hrow (hotherid.trans hid.symm)] at hdecided
      exact hdecided hpending
    · cases h
  | complete id time =>
    rw [change?] at h
    split at h
    · next hopen =>
      cases h
      obtain ⟨row, hrow, hthis⟩ := List.any_eq_true.mp hopen
      obtain ⟨hid, hnone⟩ := Store.isOpenTransfer_iff.mp hthis
      rintro ⟨other, hother, hotherid, hdone⟩
      rw [hs.transfer_ext hother hrow (hotherid.trans hid.symm)] at hdone
      exact hdone hnone
    · cases h
  | _ => cases h

end Statement

/-- A store has come to another one by these changes. -/
structure Store.Gains (s : Store) (chs : List Change) (s' : Store) : Prop where
  nodup : chs.Nodup
  new : ∀ ch ∈ chs, ¬s.Shows ch
  shows : ∀ ch, s'.Shows ch ↔ s.Shows ch ∨ ch ∈ chs

namespace Store

variable {s'' : Store} {chs chs' : List Change}

theorem Gains.refl (s : Store) : s.Gains [] s :=
  ⟨.nil, fun ch hch => absurd hch List.not_mem_nil, fun ch => by simp⟩

theorem Gains.trans (h : s.Gains chs s') (h' : s'.Gains chs' s'') : s.Gains (chs ++ chs') s'' := by
  refine ⟨List.nodup_append.mpr ⟨h.nodup, h'.nodup, ?_⟩, ?_, ?_⟩
  · rintro ch hch ch' hch' rfl
    exact h'.new ch hch' ((h.shows ch).mpr (.inr hch))
  · intro ch hch hshown
    rcases List.mem_append.mp hch with hch | hch
    · exact h.new ch hch hshown
    · exact h'.new ch hch ((h.shows ch).mpr (.inl hshown))
  · intro ch
    rw [h'.shows, h.shows, List.mem_append, or_assoc]

theorem Gains.perm (h : s.Gains chs s') (hp : chs'.Perm chs) : s.Gains chs' s' :=
  ⟨hp.nodup_iff.mpr h.nodup, fun ch hch => h.new ch (hp.mem_iff.mp hch), fun ch => by
    rw [h.shows, hp.mem_iff]⟩

theorem Gains.shows_iff (h : empty.Gains chs s) (ch : Change) : s.Shows ch ↔ ch ∈ chs := by
  rw [h.shows]
  cases ch <;> simp [Shows, empty]

theorem Gains.eq_nil (h : s.Gains chs s) : chs = [] := by
  apply List.eq_nil_iff_forall_not_mem.mpr
  intro ch hch
  exact h.new ch hch ((h.shows ch).mpr (.inr hch))

end Store

theorem Statement.gains (hs : s.Keyed) (hq : q.Dated clock timeouts) {r : q.Reply × Store}
    (hr : q.run s = .ok r) : s.Gains (q.change? s).toList r.2 := by
  constructor
  · cases q.change? s <;> simp
  · intro ch hch
    exact not_shows hs (Option.mem_toList.mp hch)
  · intro ch
    rw [shows_run hq hr, Option.mem_toList]

/-! ### One after the other -/

/-- The deeds, done one after the other on the first store, leave the second one. -/
inductive Deed.Chain (may : Statement → Prop) : List Deed → Store → Store → Prop
  | nil {s : Store} : Chain may [] s s
  | asked {q : Statement} {ds : List Deed} {s s' : Store} {r : q.Reply × Store} (allowed : may q)
      (run : q.run s = .ok r) (rest : Chain may ds r.2 s') : Chain may (.asked q s :: ds) s s'
  | failed {q : Statement} {ds : List Deed} {s s' : Store} {why : Error}
      (run : q.run s = .error why) (rest : Chain may ds s s') : Chain may (.asked q s :: ds) s s'
  | read {t : Instant} {ds : List Deed} {s s' : Store} (rest : Chain may ds s s') :
      Chain may (.read t :: ds) s s'
  | noted {e : Entry} {ds : List Deed} {s s' : Store} (rest : Chain may ds s s') :
      Chain may (.noted e :: ds) s s'

namespace Deed.Chain

variable {may : Statement → Prop} {s'' : Store}

theorem mono {may' : Statement → Prop} (h : Chain may ds s s') (hmay : ∀ q, may q → may' q) :
    Chain may' ds s s' := by
  induction h with
  | nil => exact .nil
  | asked allowed run rest ih => exact .asked (hmay _ allowed) run ih
  | failed run rest ih => exact .failed run ih
  | read rest ih => exact .read ih
  | noted rest ih => exact .noted ih

/-- A chain of two parts passes a store between them. -/
theorem split (h : Chain may (ds ++ ds') s s'') :
    ∃ s', Chain may ds s s' ∧ Chain may ds' s' s'' := by
  induction ds generalizing s with
  | nil => exact ⟨s, .nil, h⟩
  | cons d rest ih =>
    cases h with
    | asked allowed run h =>
      obtain ⟨s', hrest, hlast⟩ := ih h
      exact ⟨s', .asked allowed run hrest, hlast⟩
    | failed run h =>
      obtain ⟨s', hrest, hlast⟩ := ih h
      exact ⟨s', .failed run hrest, hlast⟩
    | read h =>
      obtain ⟨s', hrest, hlast⟩ := ih h
      exact ⟨s', .read hrest, hlast⟩
    | noted h =>
      obtain ⟨s', hrest, hlast⟩ := ih h
      exact ⟨s', .noted hrest, hlast⟩

/-- Calm deeds leave the store as it is, and all of them have seen it so. -/
theorem calm (h : Chain may ds s s') (hcalm : AllCalm ds) :
    s' = s ∧ ∀ q k, .asked q k ∈ ds → k = s := by
  induction h with
  | nil => exact ⟨rfl, fun q k hk => absurd hk List.not_mem_nil⟩
  | asked allowed run rest ih =>
    have hsame := Statement.store_of_run run (hcalm _ List.mem_cons_self)
    obtain ⟨hend, hseen⟩ := ih fun d hd => hcalm d (List.mem_cons_of_mem _ hd)
    refine ⟨hend.trans hsame, fun q k hk => ?_⟩
    rcases List.mem_cons.mp hk with hk | hk
    · cases hk
      rfl
    · exact (hseen q k hk).trans hsame
  | failed run rest ih =>
    obtain ⟨hend, hseen⟩ := ih fun d hd => hcalm d (List.mem_cons_of_mem _ hd)
    refine ⟨hend, fun q k hk => ?_⟩
    rcases List.mem_cons.mp hk with hk | hk
    · cases hk
      rfl
    · exact hseen q k hk
  | read rest ih =>
    obtain ⟨hend, hseen⟩ := ih fun d hd => hcalm d (List.mem_cons_of_mem _ hd)
    refine ⟨hend, fun q k hk => hseen q k ?_⟩
    simpa using hk
  | noted rest ih => exact (hcalm _ List.mem_cons_self).elim

/-- **What deeds have done one after the other is new, and shows at the end.** -/
theorem gains (h : Chain (Statement.Dated clock timeouts) ds s s') (hs : s.Keyed) :
    s'.Keyed ∧ s.Gains (changes ds) s' := by
  induction h with
  | nil => exact ⟨hs, .refl _⟩
  | @asked q ds s s' r allowed run rest ih =>
    obtain ⟨hkeyed, hgains⟩ := ih (hs.run run)
    refine ⟨hkeyed, ?_⟩
    rw [changes_asked]
    exact (Statement.gains hs allowed run).trans hgains
  | failed run rest ih =>
    rw [changes_asked, Statement.change?_of_error run]
    exact ih hs
  | read rest ih => exact ih hs
  | noted rest ih => exact ih hs

end Deed.Chain

/-- The deeds of a procedure that is carried out alone are a chain, the clock is read as it shows,
    and the trail takes what is noted. -/
theorem Procedure.Tells.runAlong {α σ : Type} {p : Procedure α} {tale : Account α}
    (h : p.Tells tale ds) {d : Discipline} {post : α → Prop} (hkeeps : p.Keeps d post)
    (hhears : ∀ q r, d.hears q r) {readings : Nat → Instant} (hclock : ∀ k, d.clock (readings k))
    (trail : Trail σ) (s : Store) (w : σ) :
    ∃ new, tale (p.runAlong trail readings s w).answer (ds ++ new) ∧
      Deed.Chain d.asks new s (p.runAlong trail readings s w).store ∧
      (∀ t, .read t ∈ new → d.clock t) ∧
      (p.runAlong trail readings s w).trail = trail.take w (Deed.notes new) := by
  induction p generalizing ds readings s w with
  | done a => exact ⟨[], by rw [List.append_nil]; exact h, .nil, by simp, rfl⟩
  | halt why => exact ⟨[], by rw [List.append_nil]; exact h, .nil, by simp, rfl⟩
  | ask q next ih =>
    obtain ⟨hq, hnext⟩ := hkeeps
    have hs := h s
    rw [Procedure.runAlong]
    cases hr : q.run s with
    | error why =>
      rw [hr] at hs
      exact ⟨_, hs, .failed hr .nil, by simp, rfl⟩
    | ok r =>
      rw [hr] at hs
      obtain ⟨new, htale, hchain, hread, htrail⟩ :=
        ih r.1 hs (hnext r.1 (hhears q r.1)) hclock r.2 w
      rw [List.append_assoc] at htale
      exact ⟨_, htale, .asked hq hr hchain, by simpa using hread, htrail⟩
  | clock next ih =>
    obtain ⟨new, htale, hchain, hread, htrail⟩ := ih (readings 0) (h (readings 0))
      (hkeeps _ (hclock 0)) (fun k => hclock (k + 1)) s w
    rw [List.append_assoc] at htale
    refine ⟨_, htale, .read hchain, fun t ht => ?_, htrail⟩
    rcases List.mem_append.mp ht with ht | ht
    · cases List.mem_singleton.mp ht
      exact hclock 0
    · exact hread t ht
  | record e next ih =>
    obtain ⟨new, htale, hchain, hread, htrail⟩ := ih (trail.write e w).1 (h _) (hkeeps _) hclock s
      (trail.write e w).2
    rw [List.append_assoc] at htale
    exact ⟨_, htale, .noted hchain, by simpa using hread, htrail⟩
  | consult next ih => exact ih h hkeeps hclock s w

/-- **A call that is carried out alone** ends as its account tells, by a chain of deeds. -/
theorem Operation.alone {σ : Type} (svc : Service) (op : Operation) (clock : Instant → Prop)
    (trail : Trail σ) {readings : Nat → Instant} (hclock : ∀ k, clock (readings k))
    (s : Store) (w : σ) :
    ∃ ds, op.Account svc ((op.procedure svc).runAlong trail readings s w).answer ds ∧
      Deed.Chain (Statement.Dated clock svc.timeouts) ds s
        ((op.procedure svc).runAlong trail readings s w).store ∧
      (∀ t, .read t ∈ ds → clock t) ∧
      ((op.procedure svc).runAlong trail readings s w).trail = trail.take w (Deed.notes ds) := by
  obtain ⟨ds, haccount, hchain, hread, htrail⟩ := op.tells.runAlong (op.keeps_dated svc clock)
    (fun _ _ => trivial) hclock trail s w
  exact ⟨ds, haccount, hchain.mono fun _ hq => hq.1, hread, htrail⟩

/-! ### All clients -/

/-- What may be written now is fresh. -/
theorem Statement.Admissible.dated {l : Ledger} (h : q.Admissible timeouts l) :
    q.Dated (fun _ => True) timeouts := by
  cases q with
  | insertTransfer t => exact ⟨trivial, h.2⟩
  | insertSteps xs =>
    intro x hx
    obtain ⟨t, -, -, -, hfresh⟩ := h x hx
    have hid : x.transferId = t.id := by
      rw [hfresh]
      rfl
    have happrover : x.approver = t.approver x.type := by
      rw [hfresh]
      rfl
    rw [hid, happrover]
    exact ⟨trivial, hfresh⟩
  | _ => trivial

theorem Ledger.Coherent.keyed {l : Ledger} (h : l.Coherent timeouts) : l.store.Keyed := by
  constructor
  · simp only [Ledger.store, List.map_map]
    exact h.transfer_ids
  · simp only [Ledger.store, List.map_map]
    exact h.step_ids

/-- A list in which one element is replaced by one that has more behind it. -/
theorem flatMap_set_perm {α β : Type} {l : List α} {i : Nat} {a b : α} {f : α → List β}
    {new : List β} (hi : l[i]? = some a) (hb : f b = f a ++ new) :
    ((l.set i b).flatMap f).Perm (l.flatMap f ++ new) := by
  induction l generalizing i with
  | nil => cases hi
  | cons c rest ih =>
    cases i with
    | zero =>
      cases hi
      rw [List.set_cons_zero, List.flatMap_cons, List.flatMap_cons, hb, List.append_assoc,
        List.append_assoc]
      exact (List.perm_append_comm).append_left _
    | succ i =>
      rw [List.set_cons_succ, List.flatMap_cons, List.flatMap_cons, List.append_assoc]
      exact (ih hi).append_left _

namespace System

variable {svc : Service} {S : System} {l : Ledger}

/-- All changes that the clients have made, client by client. -/
def changes (S : System) : List Change := S.clients.flatMap fun c => Deed.changes c.deeds

theorem Follows.chain (h : S.Follows svc l) {c : Client} (hc : c ∈ S.clients) {p : Procedure Answer}
    (hacts : c.rest.Acts S.store ds p s) :
    Deed.Chain (Statement.Dated (fun _ => True) svc.timeouts) ds S.store s := by
  obtain ⟨k₀, k, -, -, hk, -, hmeets⟩ := (h.clients c hc).meets
  generalize c.rest = rest at hacts hmeets
  cases hacts with
  | asked run => exact .asked (hmeets l hk).1.admissible.dated run .nil
  | failed run => exact .failed run .nil
  | read t keepable => exact .read .nil
  | noted kept => exact .noted .nil
  | consulted => exact .nil

/-- **The store of a system shows what its clients have done**, each once. -/
theorem Reachable.gains (h : Reachable svc S) : Store.empty.Gains S.changes S.store := by
  induction h with
  | refl => exact .refl _
  | @tail S S' hreach hmove ih =>
    obtain ⟨l, hl⟩ := Reachable.follows hreach
    cases hmove with
    | begin op shown =>
      have hsame : changes ⟨S.store, S.clients ++ [⟨op, S.store, [], op.procedure svc⟩]⟩ =
          S.changes := by
        simp [changes, Deed.changes]
      rw [hsame]
      exact ih
    | @act i c ds p s client acts =>
      have hkeyed : S.store.Keyed := hl.store ▸ hl.coherent.keyed
      have hgains := ((hl.chain (List.mem_of_getElem? client) acts).gains hkeyed).2
      exact (ih.trans hgains).perm (flatMap_set_perm client Deed.changes_append)

end System

end SignOff
