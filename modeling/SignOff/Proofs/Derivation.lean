/-
  SignOff/Proofs/Derivation.lean
  ==============================
  **What the state of a transfer says.**  The state is worked out from at most one step for
  each needed type.  These lemmas say what each verdict means for those steps, whatever
  else is in the list: rejected, that one of them is (`state_eq_rejected_iff`); approved,
  that all of them are (`state_eq_approved_iff`); and otherwise it is a matter of the clock
  (`state_of_undecided`), where an expiry past the calendar is the only way to fail.
-/
import SignOff.State
import Mathlib.Data.List.Basic

namespace SignOff

/-! ### Running out of time -/

namespace Step

/-- The step is pending and its last instant, which the calendar has, is over. -/
def Late (x : Step) (now : Instant) : Prop :=
  x.outcome = .pending ∧ ∃ e, x.expiresAt = .ok e ∧ e < now

theorem isTimedOut_of_decided {x : Step} (h : x.outcome ≠ .pending) (now : Instant) :
    x.isTimedOut now = .ok false :=
  if_neg h

theorem isTimedOut_eq_true_iff {x : Step} {now : Instant} :
    x.isTimedOut now = .ok true ↔ x.Late now := by
  by_cases hx : x.outcome = .pending
  · rw [isTimedOut, if_pos hx]
    cases he : x.expiresAt with
    | error why => simp [Except.map, Late, he]
    | ok e => simp [Except.map, Late, he, hx]
  · rw [isTimedOut_of_decided hx]
    simp [Late, hx]

/-- A pending step whose expiry the calendar has is late or it is not, and a decided one is
    not. -/
theorem isTimedOut_of_fits {x : Step} (h : x.outcome = .pending → ∃ e, x.expiresAt = .ok e)
    (now : Instant) : x.isTimedOut now = .ok true ∨ x.isTimedOut now = .ok false := by
  by_cases hx : x.outcome = .pending
  · obtain ⟨e, he⟩ := h hx
    rw [isTimedOut, if_pos hx, he]
    by_cases hlt : e < now <;> simp [Except.map, hlt]
  · exact .inr (isTimedOut_of_decided hx now)

/-- Whoever says of a pending step whether it is late has its expiry. -/
theorem fits_of_isTimedOut {x : Step} {now : Instant} {late : Bool}
    (h : x.isTimedOut now = .ok late) (hx : x.outcome = .pending) : ∃ e, x.expiresAt = .ok e := by
  rw [isTimedOut, if_pos hx] at h
  cases he : x.expiresAt with
  | error why => rw [he] at h; cases h
  | ok e => exact ⟨e, rfl⟩

theorem Late.mono {x : Step} {now later : Instant} (h : x.Late now) (hle : now ≤ later) :
    x.Late later := by
  obtain ⟨hx, e, he, hlt⟩ := h
  exact ⟨hx, e, he, Int.lt_of_lt_of_le hlt hle⟩

end Step

theorem anyTimedOut_cons (now : Instant) (x : Step) (rest : List Step) :
    anyTimedOut now (x :: rest) =
      match x.isTimedOut now with
      | .ok true => .ok true
      | .ok false => anyTimedOut now rest
      | .error why => .error why := by
  rw [anyTimedOut]
  cases x.isTimedOut now with
  | error why => rfl
  | ok late => cases late <;> rfl

theorem anyTimedOut_eq_true {now : Instant} {l : List Step} (h : anyTimedOut now l = .ok true) :
    ∃ x ∈ l, x.Late now := by
  induction l with
  | nil => rw [anyTimedOut] at h; cases h
  | cons x rest ih =>
    rw [anyTimedOut_cons] at h
    split at h
    · next hx => exact ⟨x, List.mem_cons_self, Step.isTimedOut_eq_true_iff.mp hx⟩
    · obtain ⟨y, hy, hlate⟩ := ih h
      exact ⟨y, List.mem_cons_of_mem x hy, hlate⟩
    · cases h

theorem anyTimedOut_eq_false {now : Instant} {l : List Step} (h : anyTimedOut now l = .ok false) :
    ∀ x ∈ l, x.isTimedOut now = .ok false := by
  induction l with
  | nil => intro x hx; cases hx
  | cons x rest ih =>
    rw [anyTimedOut_cons] at h
    split at h
    · cases h
    · next hx =>
      intro y hy
      rcases List.mem_cons.mp hy with rfl | hy
      · exact hx
      · exact ih h y hy
    · cases h

/-- With every expiry that counts in the calendar, the answer is there. -/
theorem anyTimedOut_of_fits {l : List Step}
    (h : ∀ x ∈ l, x.outcome = .pending → ∃ e, x.expiresAt = .ok e) (now : Instant) :
    ∃ late, anyTimedOut now l = .ok late := by
  induction l with
  | nil => exact ⟨false, rfl⟩
  | cons x rest ih =>
    rw [anyTimedOut_cons]
    rcases Step.isTimedOut_of_fits (h x List.mem_cons_self) now with hx | hx
    · exact ⟨true, by rw [hx]⟩
    · rw [hx]
      exact ih fun y hy => h y (List.mem_cons_of_mem x hy)

/-! ### The three passes -/

theorem ApprovalType.mem_all (k : ApprovalType) : k ∈ all := by
  cases k <;> decide

theorem ApprovalType.eq_of_place_eq {j k : ApprovalType} (h : j.place = k.place) : j = k := by
  revert h
  cases j <;> cases k <;> decide

/-- In a sorted list, what comes before an element stands in front of it. -/
theorem mem_front_of_lt {α : Type} {f : α → Nat} {before after : List α} {a b : α}
    (hsorted : (before ++ a :: after).Pairwise fun x y => f x < f y)
    (hb : b ∈ before ++ a :: after) (hlt : f b < f a) : b ∈ before := by
  rcases List.mem_append.mp hb with hb | hb
  · exact hb
  · rcases List.mem_cons.mp hb with rfl | hb
    · exact absurd hlt (Nat.lt_irrefl _)
    · have hgt := (List.pairwise_cons.mp (List.pairwise_append.mp hsorted).2.1).1 b hb
      exact absurd hlt (Nat.lt_asymm hgt)

namespace Transfer

variable {t : Transfer} {steps : List Step} {now : Instant}

/-- The steps that count, without the places of missing ones. -/
def present (t : Transfer) (steps : List Step) : List Step :=
  (t.relevant steps).filterMap fun s => s

theorem mem_needed {k : ApprovalType} : k ∈ t.needed ↔ t.needs k = true := by
  rw [needed, List.mem_filter]
  exact ⟨fun h => h.2, fun h => ⟨k.mem_all, h⟩⟩

theorem needed_sorted (t : Transfer) : t.needed.Pairwise fun j k => j.place < k.place :=
  List.Pairwise.filter _ (by decide)

theorem mem_present {x : Step} :
    x ∈ t.present steps ↔ ∃ k, t.needs k = true ∧ t.stepFor steps k = some x := by
  simp only [present, relevant, List.mem_filterMap, List.mem_map, mem_needed, exists_eq_right]

/-- One of the steps that count is rejected. -/
def RejectedBy (t : Transfer) (steps : List Step) : Prop :=
  ∃ k x, t.needs k = true ∧ t.stepFor steps k = some x ∧ x.outcome = .rejected

/-- For every needed type the step that counts is there and approved. -/
def ApprovedBy (t : Transfer) (steps : List Step) : Prop :=
  ∀ k, t.needs k = true → ∃ x, t.stepFor steps k = some x ∧ x.outcome = .approved

theorem any_rejected_iff :
    ((t.present steps).any fun s => s.outcome = .rejected) = true ↔ t.RejectedBy steps := by
  simp only [List.any_eq_true, mem_present, decide_eq_true_eq]
  constructor
  · rintro ⟨x, ⟨k, hk, hx⟩, hout⟩
    exact ⟨k, x, hk, hx, hout⟩
  · rintro ⟨k, x, hk, hx, hout⟩
    exact ⟨x, ⟨k, hk, hx⟩, hout⟩

theorem all_approved_iff :
    ((t.relevant steps).all fun s => s.any fun s => s.outcome = .approved) = true ↔
      t.ApprovedBy steps := by
  simp only [List.all_eq_true, relevant, List.mem_map, mem_needed, ApprovedBy]
  constructor
  · intro h k hk
    have hany := h (t.stepFor steps k) ⟨k, hk, rfl⟩
    cases hx : t.stepFor steps k with
    | none => rw [hx] at hany; exact absurd hany (by decide)
    | some x => rw [hx] at hany; exact ⟨x, rfl, by simpa using hany⟩
  · rintro h s ⟨k, hk, rfl⟩
    obtain ⟨x, hx, hout⟩ := h k hk
    simp [hx, hout]

theorem state_of_rejectedBy (h : t.RejectedBy steps) : t.state steps now = .ok .rejected :=
  if_pos (any_rejected_iff.mpr h)

theorem state_of_approvedBy (hr : ¬t.RejectedBy steps) (ha : t.ApprovedBy steps) :
    t.state steps now = .ok .approved :=
  (if_neg (any_rejected_iff.not.mpr hr)).trans (if_pos (all_approved_iff.mpr ha))

/-- Without a rejection and without all approvals it is a matter of the clock. -/
theorem state_of_undecided (hr : ¬t.RejectedBy steps) (ha : ¬t.ApprovedBy steps) :
    t.state steps now =
      (anyTimedOut now (t.present steps)).map fun late => if late then .expired else .pending :=
  (if_neg (any_rejected_iff.not.mpr hr)).trans (if_neg (all_approved_iff.not.mpr ha))

theorem state_of_undecided_ne (hr : ¬t.RejectedBy steps) (ha : ¬t.ApprovedBy steps) :
    t.state steps now ≠ .ok .rejected ∧ t.state steps now ≠ .ok .approved := by
  rw [state_of_undecided hr ha]
  cases anyTimedOut now (t.present steps) with
  | error why => simp [Except.map]
  | ok late => cases late <;> simp [Except.map]

theorem state_eq_rejected_iff : t.state steps now = .ok .rejected ↔ t.RejectedBy steps := by
  refine ⟨fun h => ?_, state_of_rejectedBy⟩
  by_contra hr
  by_cases ha : t.ApprovedBy steps
  · rw [state_of_approvedBy hr ha] at h
    cases h
  · exact (state_of_undecided_ne hr ha).1 h

theorem state_eq_approved_iff :
    t.state steps now = .ok .approved ↔ ¬t.RejectedBy steps ∧ t.ApprovedBy steps := by
  refine ⟨fun h => ?_, fun h => state_of_approvedBy h.1 h.2⟩
  by_cases hr : t.RejectedBy steps
  · rw [state_of_rejectedBy hr] at h
    cases h
  · refine ⟨hr, ?_⟩
    by_contra ha
    exact (state_of_undecided_ne hr ha).2 h

/-- An expired transfer has a late step, and neither a rejection nor all approvals. -/
theorem late_of_state_expired (h : t.state steps now = .ok .expired) :
    ¬t.RejectedBy steps ∧ ¬t.ApprovedBy steps ∧ ∃ x ∈ t.present steps, x.Late now := by
  have hr : ¬t.RejectedBy steps := fun hr => by rw [state_of_rejectedBy hr] at h; cases h
  have ha : ¬t.ApprovedBy steps := fun ha => by rw [state_of_approvedBy hr ha] at h; cases h
  refine ⟨hr, ha, ?_⟩
  rw [state_of_undecided hr ha] at h
  cases hany : anyTimedOut now (t.present steps) with
  | error why => rw [hany] at h; cases h
  | ok late =>
    cases late with
    | true => exact anyTimedOut_eq_true hany
    | false => rw [hany] at h; cases h

/-- With every expiry that counts in the calendar, a late step makes an undecided transfer
    expired. -/
theorem state_expired_of_late (hr : ¬t.RejectedBy steps) (ha : ¬t.ApprovedBy steps)
    (hfit : ∀ x ∈ t.present steps, x.outcome = .pending → ∃ e, x.expiresAt = .ok e) {x : Step}
    (hx : x ∈ t.present steps) (hlate : x.Late now) : t.state steps now = .ok .expired := by
  rw [state_of_undecided hr ha]
  obtain ⟨late, hany⟩ := anyTimedOut_of_fits hfit now
  cases late with
  | true => rw [hany]; rfl
  | false =>
    have hfalse := anyTimedOut_eq_false hany x hx
    rw [Step.isTimedOut_eq_true_iff.mpr hlate] at hfalse
    cases hfalse

theorem state_of_fits
    (hfit : ∀ x ∈ t.present steps, x.outcome = .pending → ∃ e, x.expiresAt = .ok e) :
    ∃ s, t.state steps now = .ok s := by
  by_cases hr : t.RejectedBy steps
  · exact ⟨_, state_of_rejectedBy hr⟩
  · by_cases ha : t.ApprovedBy steps
    · exact ⟨_, state_of_approvedBy hr ha⟩
    · obtain ⟨late, hany⟩ := anyTimedOut_of_fits hfit now
      exact ⟨_, by rw [state_of_undecided hr ha, hany]; rfl⟩

/-- Whoever finds an undecided transfer in time has looked at every expiry that counts. -/
theorem fits_of_state (hr : ¬t.RejectedBy steps) (ha : ¬t.ApprovedBy steps) {s : State}
    (h : t.state steps now = .ok s) (hs : s ≠ .expired) :
    ∀ x ∈ t.present steps, x.outcome = .pending → ∃ e, x.expiresAt = .ok e := by
  rw [state_of_undecided hr ha] at h
  cases hany : anyTimedOut now (t.present steps) with
  | error why => rw [hany] at h; cases h
  | ok late =>
    cases late with
    | true =>
      rw [hany] at h
      exact absurd (Except.ok.inj h).symm hs
    | false => exact fun x hx => Step.fits_of_isTimedOut (anyTimedOut_eq_false hany x hx)

theorem not_late_of_state (hr : ¬t.RejectedBy steps) (ha : ¬t.ApprovedBy steps) {s : State}
    (h : t.state steps now = .ok s) (hs : s ≠ .expired) :
    ∀ x ∈ t.present steps, ¬x.Late now := by
  intro x hx hlate
  rw [state_of_undecided hr ha] at h
  cases hany : anyTimedOut now (t.present steps) with
  | error why => simp [hany, Except.map] at h
  | ok late =>
    cases late with
    | true => exact hs (by simpa [hany, Except.map] using h.symm)
    | false =>
      have hfalse := anyTimedOut_eq_false hany x hx
      simp [Step.isTimedOut_eq_true_iff.mpr hlate] at hfalse

end Transfer

end SignOff
