/-
  SignOff/Proofs/Ledger/State.lean
  ================================
  **The state of a stored transfer.**  In a coherent ledger the step that counts for a type
  is the only one there is, so the verdicts can be told from the ledger's steps without
  their order.  Approved and rejected are final: they hold in every ledger that grows from
  this one and at every instant (`state_approved_grows`, `state_rejected_grows`).  An
  expired transfer has a late step and no verdict (`state_eq_expired_iff`).
-/
import SignOff.Proofs.Ledger.Coherence
import SignOff.Proofs.Derivation

namespace SignOff

/-- The state depends on nothing of a transfer but its identifier and its needs. -/
theorem Transfer.state_congr {t u : Transfer} (hid : u.id = t.id) (hneeds : u.needs = t.needs)
    (steps : List Step) (now : Instant) : u.state steps now = t.state steps now := by
  have hrelevant : u.relevant steps = t.relevant steps := by
    simp only [relevant, needed, hneeds]
    refine List.map_congr_left fun k _ => ?_
    rw [stepFor, stepFor, hid]
  rw [state, state, hrelevant]

namespace Transfer

variable {t : Transfer} {steps : List Step} {g : Step → Step} {now : Instant}

/-- Deciding steps does not change which ones count. -/
theorem stepFor_map (hg : ∀ x : Step, x.Later (g x)) (k : ApprovalType) :
    t.stepFor (steps.map g) k = (t.stepFor steps k).map g := by
  have hsame : ((fun x => decide (x.type = k) && decide (x.transferId = t.id)) ∘ g) =
      fun x => decide (x.type = k) && decide (x.transferId = t.id) := by
    funext x
    simp only [Function.comp, (hg x).sameOrigin.type, (hg x).sameOrigin.transferId]
  rw [stepFor, List.find?_map, hsame, stepFor]

/-- **Decisions do not make a transfer expire.**  If it has a state and is not expired, it has a
    state whatever is decided next, and is not expired as of the same instant. -/
theorem state_decided (hg : ∀ x : Step, x.Later (g x)) {s : State}
    (hs : t.state steps now = .ok s) (hne : s ≠ .expired) (later : Instant) :
    ∃ s', t.state (steps.map g) later = .ok s' ∧ (later ≤ now → s' ≠ .expired) := by
  by_cases hr' : t.RejectedBy (steps.map g)
  · exact ⟨_, state_of_rejectedBy hr', fun _ => by decide⟩
  by_cases ha' : t.ApprovedBy (steps.map g)
  · exact ⟨_, state_of_approvedBy hr' ha', fun _ => by decide⟩
  -- then it was undecided before, and what is pending now was pending then
  have hr : ¬t.RejectedBy steps := by
    rintro ⟨k, x, hk, hx, hout⟩
    have hsame : g x = x := (hg x).eq_of_decided (by rw [hout]; decide)
    exact hr' ⟨k, x, hk, by rw [stepFor_map hg, hx, Option.map_some, hsame], hout⟩
  have ha : ¬t.ApprovedBy steps := by
    intro ha
    apply ha'
    intro k hk
    obtain ⟨x, hx, hout⟩ := ha k hk
    have hsame : g x = x := (hg x).eq_of_decided (by rw [hout]; decide)
    exact ⟨x, by rw [stepFor_map hg, hx, Option.map_some, hsame], hout⟩
  have hold : ∀ y ∈ t.present (steps.map g), y.outcome = .pending → y ∈ t.present steps := by
    intro y hy hpending
    obtain ⟨k, hk, hfound⟩ := mem_present.mp hy
    rw [stepFor_map hg] at hfound
    obtain ⟨x, hx, rfl⟩ := Option.map_eq_some_iff.mp hfound
    rw [(hg x).eq_of_pending hpending]
    exact mem_present.mpr ⟨k, hk, hx⟩
  have hfits := fits_of_state hr ha hs hne
  obtain ⟨s', hs'⟩ : ∃ s', t.state (steps.map g) later = .ok s' := by
    apply state_of_fits
    intro y hy hpending
    exact hfits y (hold y hy hpending) hpending
  refine ⟨s', hs', ?_⟩
  rintro hle rfl
  obtain ⟨-, -, y, hy, hlate⟩ := late_of_state_expired hs'
  exact not_late_of_state hr ha hs hne y (hold y hy hlate.1) (hlate.mono hle)

end Transfer

namespace Ledger

/-- The state of the transfer with the steps that the ledger has for it. -/
def state (l : Ledger) (t : Transfer) (now : Instant) : Except Overflow State :=
  t.state (l.stepsOf t.id) now

/-- A step that the transfer needs is rejected. -/
def Rejected (l : Ledger) (t : Transfer) : Prop :=
  ∃ x ∈ l.steps, x.transferId = t.id ∧ t.needs x.type = true ∧ x.outcome = .rejected

/-- A step that the transfer needs has run out of time. -/
def Overdue (l : Ledger) (t : Transfer) (now : Instant) : Prop :=
  ∃ x ∈ l.steps, x.transferId = t.id ∧ t.needs x.type = true ∧ x.Late now

/-- The calendar has the expiry of every step. -/
def FitsCalendar (l : Ledger) : Prop := ∀ x ∈ l.steps, ∃ e, x.expiresAt = .ok e

/-- The transfer with this identifier has run out of time before it was decided. -/
def Expired (l : Ledger) (id : String) (time : Instant) : Prop :=
  ∃ t ∈ l.transfers, t.id = id ∧ ¬l.Rejected t ∧ ¬l.Approved t ∧ l.Overdue t time

variable {timeouts : Timeouts} {l m : Ledger} {t u : Transfer} {now : Instant}

/-! ### The steps that count -/

theorem Coherent.stepFor_eq_some_iff (h : l.Coherent timeouts) {k : ApprovalType} {x : Step} :
    t.stepFor (l.stepsOf t.id) k = some x ↔ x ∈ l.steps ∧ x.transferId = t.id ∧ x.type = k := by
  constructor
  · intro hx
    obtain ⟨hmem, -⟩ := mem_stepsOf.mp (List.mem_of_find?_eq_some hx)
    have hp := List.find?_some hx
    simp only [Bool.and_eq_true, decide_eq_true_eq] at hp
    exact ⟨hmem, hp.2, hp.1⟩
  · rintro ⟨hmem, hid, rfl⟩
    cases hfind : t.stepFor (l.stepsOf t.id) x.type with
    | none =>
      have hnone := List.find?_eq_none.mp hfind x (mem_stepsOf.mpr ⟨hmem, hid⟩)
      simp [hid] at hnone
    | some y =>
      obtain ⟨hy, -⟩ := mem_stepsOf.mp (List.mem_of_find?_eq_some hfind)
      have hp := List.find?_some hfind
      simp only [Bool.and_eq_true, decide_eq_true_eq] at hp
      rw [h.step_ext_type hy hmem (hp.2.trans hid.symm) hp.1]

theorem Coherent.mem_present (h : l.Coherent timeouts) {x : Step} :
    x ∈ t.present (l.stepsOf t.id) ↔
      x ∈ l.steps ∧ x.transferId = t.id ∧ t.needs x.type = true := by
  simp only [Transfer.mem_present, h.stepFor_eq_some_iff]
  constructor
  · rintro ⟨k, hk, hx, hid, rfl⟩
    exact ⟨hx, hid, hk⟩
  · rintro ⟨hx, hid, hk⟩
    exact ⟨x.type, hk, hx, hid, rfl⟩

theorem Coherent.rejectedBy_iff (h : l.Coherent timeouts) :
    t.RejectedBy (l.stepsOf t.id) ↔ l.Rejected t := by
  simp only [Transfer.RejectedBy, h.stepFor_eq_some_iff, Rejected]
  constructor
  · rintro ⟨k, x, hk, ⟨hx, hid, rfl⟩, hout⟩
    exact ⟨x, hx, hid, hk, hout⟩
  · rintro ⟨x, hx, hid, hk, hout⟩
    exact ⟨x.type, x, hk, ⟨hx, hid, rfl⟩, hout⟩

theorem Coherent.approvedBy_iff (h : l.Coherent timeouts) :
    t.ApprovedBy (l.stepsOf t.id) ↔ l.Approved t := by
  simp only [Transfer.ApprovedBy, h.stepFor_eq_some_iff, Approved]
  constructor
  · intro ha k hk
    obtain ⟨x, ⟨hx, hid, htype⟩, hout⟩ := ha k hk
    exact ⟨x, hx, hid, htype, hout⟩
  · intro ha k hk
    obtain ⟨x, hx, hid, htype, hout⟩ := ha k hk
    exact ⟨x, ⟨hx, hid, htype⟩, hout⟩

/-- The one step of a type cannot be both. -/
theorem Coherent.not_rejected_of_approved (h : l.Coherent timeouts) (ha : l.Approved t) :
    ¬l.Rejected t := by
  rintro ⟨x, hx, hid, hk, hout⟩
  obtain ⟨y, hy, hyid, htype, hyout⟩ := ha x.type hk
  rw [h.step_ext_type hy hx (hyid.trans hid.symm) htype, hout] at hyout
  cases hyout

theorem stepsOf_settle (l : Ledger) (id : String) (outcome : Outcome) (resolver : Owner)
    (notes : Option String) (time : Instant) (transferId : String) :
    (l.settle id outcome resolver notes time).stepsOf transferId =
      (l.stepsOf transferId).map fun x =>
        if isOpenStep id x then x.settled outcome resolver notes time else x := by
  have htransfer : ((fun x : Step => decide (x.transferId = transferId)) ∘ fun x =>
      if isOpenStep id x then x.settled outcome resolver notes time else x) =
        fun x => decide (x.transferId = transferId) := by
    funext x
    dsimp only [Function.comp]
    split <;> rfl
  have hcreated : (fun x : Step => (if isOpenStep id x then x.settled outcome resolver notes time
      else x).createdAt.columnText) = fun x => x.createdAt.columnText := by
    funext x
    split <;> rfl
  rw [stepsOf, settle, List.filter_map, byText_map, htransfer, hcreated, stepsOf]

/-! ### Verdicts -/

theorem Coherent.state_eq_rejected_iff (h : l.Coherent timeouts) :
    l.state t now = .ok .rejected ↔ l.Rejected t := by
  rw [state, Transfer.state_eq_rejected_iff, h.rejectedBy_iff]

theorem Coherent.state_eq_approved_iff (h : l.Coherent timeouts) :
    l.state t now = .ok .approved ↔ l.Approved t := by
  rw [state, Transfer.state_eq_approved_iff, h.rejectedBy_iff, h.approvedBy_iff]
  exact ⟨fun hs => hs.2, fun ha => ⟨h.not_rejected_of_approved ha, ha⟩⟩

theorem Coherent.state_eq_expired_iff (h : l.Coherent timeouts) (hfit : l.FitsCalendar) :
    l.state t now = .ok .expired ↔ ¬l.Rejected t ∧ ¬l.Approved t ∧ l.Overdue t now := by
  rw [state, ← h.rejectedBy_iff, ← h.approvedBy_iff]
  constructor
  · intro hs
    obtain ⟨hr, ha, x, hx, hlate⟩ := Transfer.late_of_state_expired hs
    obtain ⟨hmem, hid, hk⟩ := h.mem_present.mp hx
    exact ⟨hr, ha, x, hmem, hid, hk, hlate⟩
  · rintro ⟨hr, ha, x, hmem, hid, hk, hlate⟩
    exact Transfer.state_expired_of_late hr ha
      (fun y hy _ => hfit y (h.mem_present.mp hy).1) (h.mem_present.mpr ⟨hmem, hid, hk⟩) hlate

theorem Coherent.expired_iff (h : l.Coherent timeouts) (hfit : l.FitsCalendar) {id : String} :
    (∃ t, l.transfer? id = some t ∧ l.state t now = .ok .expired) ↔ l.Expired id now := by
  constructor
  · rintro ⟨t, ht, hs⟩
    obtain ⟨hmem, hid⟩ := mem_of_transfer? ht
    exact ⟨t, hmem, hid, (h.state_eq_expired_iff hfit).mp hs⟩
  · rintro ⟨t, ht, rfl, hs⟩
    exact ⟨t, h.transfer?_eq_some ht, (h.state_eq_expired_iff hfit).mpr hs⟩

theorem Expired.mono {id : String} {later : Instant} (h : l.Expired id now) (hle : now ≤ later) :
    l.Expired id later := by
  obtain ⟨t, ht, hid, hr, ha, x, hx, hxid, hneeds, hlate⟩ := h
  exact ⟨t, ht, hid, hr, ha, x, hx, hxid, hneeds, hlate.mono hle⟩

theorem Coherent.state_of_fits (h : l.Coherent timeouts) (hfit : l.FitsCalendar) (t : Transfer)
    (now : Instant) : ∃ s, l.state t now = .ok s :=
  Transfer.state_of_fits fun y hy _ => hfit y (h.mem_present.mp hy).1

/-! ### Growing -/

theorem state_later (h : t.Later u) : l.state u now = l.state t now := by
  rw [state, state, h.id_eq]
  exact Transfer.state_congr h.id_eq h.needs_eq _ _

theorem Rejected.grows (h : l.Rejected t) (hg : l.Grows m) (ht : t.Later u) : m.Rejected u := by
  obtain ⟨x, hx, hid, hk, hout⟩ := h
  have hdecided : x.outcome ≠ .pending := by rw [hout]; decide
  exact ⟨x, hg.mem_decided hx hdecided, by rw [hid, ht.id_eq], by rw [ht.needs_eq, hk], hout⟩

/-- An expired transfer stays expired while its steps stay as they are and new ones are
    pending. -/
theorem Expired.grows {id : String} (h : l.Expired id now) (hg : l.Grows m)
    (hold : ∀ x ∈ l.steps, x.transferId = id → x ∈ m.steps)
    (hnew : ∀ x ∈ m.steps, x.transferId = id → x ∈ l.steps ∨ x.outcome = .pending) :
    m.Expired id now := by
  obtain ⟨t, ht, rfl, hr, ha, x, hx, hxid, hneeds, hlate⟩ := h
  obtain ⟨u, hu, htu⟩ := hg.mem_transfers ht
  refine ⟨u, hu, htu.id_eq, fun hru => hr ?_, fun hau => ha fun k hk => ?_, x, hold x hx hxid,
    hxid.trans htu.id_eq.symm, by rw [htu.needs_eq, hneeds], hlate⟩
  · obtain ⟨y, hy, hyid, hyneeds, hout⟩ := hru
    rw [htu.id_eq] at hyid
    rw [htu.needs_eq] at hyneeds
    rcases hnew y hy hyid with hy | hpending
    · exact ⟨y, hy, hyid, hyneeds, hout⟩
    · rw [hout] at hpending
      cases hpending
  · obtain ⟨y, hy, hyid, htype, hout⟩ := hau k (by rw [htu.needs_eq, hk])
    rw [htu.id_eq] at hyid
    rcases hnew y hy hyid with hy | hpending
    · exact ⟨y, hy, hyid, htype, hout⟩
    · rw [hout] at hpending
      cases hpending

theorem FitsCalendar.of_grows (h : m.FitsCalendar) (hg : l.Grows m) : l.FitsCalendar := by
  intro x hx
  obtain ⟨y, hy, hlater⟩ := hg.mem_steps hx
  have ho := hlater.sameOrigin
  obtain ⟨e, he⟩ := h y hy
  refine ⟨e, ?_⟩
  rw [Step.expiresAt, ho.createdAt, ho.timeoutHours] at he
  exact he

/-- **Approved is final**, whatever happens and whatever the clock shows. -/
theorem Coherent.state_approved_grows (h : l.Coherent timeouts) (hm : m.Coherent timeouts)
    (hg : l.Grows m) (ht : t.Later u) (hs : l.state t now = .ok .approved) (later : Instant) :
    m.state u later = .ok .approved :=
  hm.state_eq_approved_iff.mpr ((h.state_eq_approved_iff.mp hs).grows hg ht)

/-- **Rejected is final**, whatever happens and whatever the clock shows. -/
theorem Coherent.state_rejected_grows (h : l.Coherent timeouts) (hm : m.Coherent timeouts)
    (hg : l.Grows m) (ht : t.Later u) (hs : l.state t now = .ok .rejected) (later : Instant) :
    m.state u later = .ok .rejected :=
  hm.state_eq_rejected_iff.mpr ((h.state_eq_rejected_iff.mp hs).grows hg ht)

/-- After a decision that was in time there is a state again: no expiry has come to count. -/
theorem state_settle {s : State} (hs : l.state t now = .ok s) (hne : s ≠ .expired)
    (id : String) {outcome : Outcome} (hterm : outcome.isTerminal = true) (resolver : Owner)
    (notes : Option String) (time later : Instant) :
    ∃ s, (l.settle id outcome resolver notes time).state t later = .ok s := by
  have hlater := later_settled id hterm resolver notes time
  obtain ⟨s', hs', -⟩ := Transfer.state_decided hlater hs hne later
  refine ⟨s', ?_⟩
  rw [state, stepsOf_settle]
  exact hs'

end Ledger

/-- No expiry of a stored step lies past the end of the calendar. -/
def Store.FitsCalendar (s : Store) : Prop :=
  ∀ row ∈ s.steps, ∀ x, row.step = .ok x → ∃ e, x.expiresAt = .ok e

instance (s : Store) : Decidable s.FitsCalendar :=
  decidable_of_iff (∀ row ∈ s.steps, row.step.toOption.all fun x => x.expiresAt.isOk) <| by
    refine forall₂_congr fun row _ => ?_
    cases row.step with
    | error why => simp [Except.toOption]
    | ok x => cases hx : x.expiresAt <;> simp [Except.toOption, Except.isOk, Except.toBool, hx]

theorem Store.FitsCalendar.ledger {l : Ledger} (h : l.store.FitsCalendar) (hl : l.Legible) :
    l.FitsCalendar := by
  intro x hx
  exact h (.ofStep x) (List.mem_map_of_mem hx) x (hl.step_ofStep hx)

end SignOff
