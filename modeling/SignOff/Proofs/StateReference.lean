/-
  SignOff/Proofs/StateReference.lean
  ==================================
  **The state of a transfer, worked out by hand.**  The list of steps may be any list: long
  or short, in any order, with steps of other transfers, steps that are not needed and
  several of one type.  Of a needed type the first step listed for the transfer counts
  (`Transfer.Counts`).  A rejection among these decides, then all approvals, and then the
  first pending step, from the source's to the administrators', that is past its expiry or
  has none in the calendar (`Transfer.FirstTrip`).

  What follows from that is said of the list and of the clock: steps that do not count may
  come and go, the order is of no matter while no type repeats, and as time passes the state
  changes at most once, from pending to expired, after the earliest expiry.
-/
import SignOff.Proofs.Derivation
import Mathlib.Data.List.Nodup
import Mathlib.Data.Finset.Max

namespace SignOff

/-! ### Scanning for a step that trips -/

/-- The step is pending, and its expiry is over or lies past the end of the calendar. -/
def Step.Trips (x : Step) (now : Instant) : Prop :=
  x.outcome = .pending ∧ ∀ e, x.expiresAt = .ok e → e < now

theorem Step.Trips.isTimedOut {x : Step} {now : Instant} (h : x.Trips now) :
    x.isTimedOut now = x.expiresAt.map fun _ => true := by
  rw [Step.isTimedOut, if_pos h.1]
  cases he : x.expiresAt with
  | error why => rfl
  | ok e => simp [Except.map, h.2 e he]

theorem Step.isTimedOut_of_not_trips {x : Step} {now : Instant} (h : ¬x.Trips now) :
    x.isTimedOut now = .ok false := by
  by_cases hx : x.outcome = .pending
  · rw [Step.isTimedOut, if_pos hx]
    cases he : x.expiresAt with
    | error why => exact absurd ⟨hx, fun e hok => by rw [he] at hok; cases hok⟩ h
    | ok e =>
      have hin : ¬e < now := by
        intro hlt
        apply h
        refine ⟨hx, fun e' hok => ?_⟩
        rw [he] at hok
        exact Except.ok.inj hok ▸ hlt
      simp [Except.map, hin]
  · exact isTimedOut_of_decided hx now

/-- The scan ends at the first step that trips, and with it if its expiry overflows. -/
theorem anyTimedOut_spec (now : Instant) (l : List Step) :
    ((∀ x ∈ l, ¬x.Trips now) ∧ anyTimedOut now l = .ok false) ∨
      ∃ before x after, l = before ++ x :: after ∧ (∀ y ∈ before, ¬y.Trips now) ∧
        x.Trips now ∧ anyTimedOut now l = x.expiresAt.map fun _ => true := by
  induction l with
  | nil => exact .inl ⟨List.forall_mem_nil _, rfl⟩
  | cons x rest ih =>
    rw [anyTimedOut_cons]
    by_cases hx : x.Trips now
    · refine .inr ⟨[], x, rest, rfl, List.forall_mem_nil _, hx, ?_⟩
      rw [hx.isTimedOut]
      cases x.expiresAt <;> rfl
    · rw [Step.isTimedOut_of_not_trips hx]
      rcases ih with ⟨hquiet, hscan⟩ | ⟨before, y, after, rfl, hbefore, hy, hscan⟩
      · exact .inl ⟨List.forall_mem_cons.mpr ⟨hx, hquiet⟩, hscan⟩
      · exact .inr ⟨x :: before, y, after, rfl, List.forall_mem_cons.mpr ⟨hx, hbefore⟩, hy, hscan⟩

namespace Transfer

variable {t : Transfer} {steps : List Step} {now : Instant} {k : ApprovalType} {x y : Step}

/-! ### The steps that count -/

/-- `x` is the first step listed for the transfer of the needed type `k`. -/
structure Counts (t : Transfer) (steps : List Step) (k : ApprovalType) (x : Step) : Prop where
  needed : t.needs k = true
  type : x.type = k
  transferId : x.transferId = t.id
  first : ∃ before after, steps = before ++ x :: after ∧
    ∀ y ∈ before, ¬(y.type = k ∧ y.transferId = t.id)

theorem counts_iff : t.Counts steps k x ↔ t.needs k = true ∧ t.stepFor steps k = some x := by
  rw [stepFor, List.find?_eq_some_iff_append]
  constructor
  · rintro ⟨hneeds, htype, hid, before, after, heq, hbefore⟩
    refine ⟨hneeds, by simp [htype, hid], before, after, heq, fun y hy => ?_⟩
    simpa [imp_iff_not_or] using hbefore y hy
  · rintro ⟨hneeds, hx, before, after, heq, hbefore⟩
    simp only [Bool.and_eq_true, decide_eq_true_eq] at hx
    refine ⟨hneeds, hx.1, hx.2, before, after, heq, fun y hy => ?_⟩
    simpa [imp_iff_not_or] using hbefore y hy

theorem Counts.unique (hx : t.Counts steps k x) (hy : t.Counts steps k y) : x = y := by
  have hfound := (counts_iff.mp hx).2
  rw [(counts_iff.mp hy).2] at hfound
  exact (Option.some.inj hfound).symm

theorem mem_present_iff_counts : x ∈ t.present steps ↔ ∃ k, t.Counts steps k x := by
  rw [mem_present]
  exact exists_congr fun k => counts_iff.symm

theorem rejectedBy_iff_counts :
    t.RejectedBy steps ↔ ∃ k x, t.Counts steps k x ∧ x.outcome = .rejected := by
  simp only [RejectedBy, counts_iff, and_assoc]

theorem approvedBy_iff_counts : t.ApprovedBy steps ↔
    ∀ k, t.needs k = true → ∃ x, t.Counts steps k x ∧ x.outcome = .approved := by
  refine forall₂_congr fun k hk => exists_congr fun x => ?_
  rw [counts_iff, and_iff_right hk]

/-- The steps that count stand in the order of their types. -/
theorem present_sorted (t : Transfer) (steps : List Step) :
    (t.present steps).Pairwise fun x y => x.type.place < y.type.place := by
  rw [present, relevant, List.pairwise_filterMap, List.pairwise_map]
  refine t.needed_sorted.imp fun {j k} hlt x hx y hy => ?_
  have htype {i : ApprovalType} {z : Step} (hz : t.stepFor steps i = some z) : z.type = i := by
    have hp := List.find?_some hz
    simp only [Bool.and_eq_true, decide_eq_true_eq] at hp
    exact hp.1
  rwa [htype hx, htype hy]

/-! ### The step that decides -/

/-- `x` counts and trips, and none does that counts for an earlier type. -/
structure FirstTrip (t : Transfer) (steps : List Step) (now : Instant) (x : Step) : Prop where
  counts : t.Counts steps x.type x
  trips : x.Trips now
  first : ∀ y, t.Counts steps y.type y → y.type.place < x.type.place → ¬y.Trips now

theorem FirstTrip.unique (hx : t.FirstTrip steps now x) (hy : t.FirstTrip steps now y) :
    x = y := by
  rcases Nat.lt_trichotomy x.type.place y.type.place with hlt | heq | hgt
  · exact absurd hx.trips (hy.first x hx.counts hlt)
  · have hcounts := hy.counts
    rw [← ApprovalType.eq_of_place_eq heq] at hcounts
    exact hx.counts.unique hcounts
  · exact absurd hy.trips (hx.first y hy.counts hgt)

theorem counts_of_mem_present (h : x ∈ t.present steps) : t.Counts steps x.type x := by
  obtain ⟨k, hk⟩ := mem_present_iff_counts.mp h
  rw [hk.type]
  exact hk

/-- The scan over the steps that count is one over their types. -/
theorem anyTimedOut_present (t : Transfer) (steps : List Step) (now : Instant) :
    ((∀ k x, t.Counts steps k x → ¬x.Trips now) ∧
      anyTimedOut now (t.present steps) = .ok false) ∨
      ∃ x, t.FirstTrip steps now x ∧
        anyTimedOut now (t.present steps) = x.expiresAt.map fun _ => true := by
  rcases anyTimedOut_spec now (t.present steps) with
    ⟨hquiet, hscan⟩ | ⟨before, x, after, heq, hbefore, hx, hscan⟩
  · exact .inl ⟨fun k x hk => hquiet x (mem_present_iff_counts.mpr ⟨k, hk⟩), hscan⟩
  · refine .inr ⟨x, ⟨counts_of_mem_present (by simp [heq]), hx, fun y hy hlt => ?_⟩, hscan⟩
    apply hbefore
    have hsorted := t.present_sorted steps
    have hmem : y ∈ t.present steps := mem_present_iff_counts.mpr ⟨_, hy⟩
    rw [heq] at hsorted hmem
    exact mem_front_of_lt hsorted hmem hlt

/-- Neither a rejection nor all approvals. -/
def Undecided (t : Transfer) (steps : List Step) : Prop :=
  (¬∃ k x, t.Counts steps k x ∧ x.outcome = .rejected) ∧
    ¬∀ k, t.needs k = true → ∃ x, t.Counts steps k x ∧ x.outcome = .approved

theorem undecided_iff : t.Undecided steps ↔ ¬t.RejectedBy steps ∧ ¬t.ApprovedBy steps := by
  rw [Undecided, rejectedBy_iff_counts, approvedBy_iff_counts]

/-- While it is undecided, the first step that trips makes the state, if there is one. -/
theorem Undecided.state_spec (h : t.Undecided steps) (now : Instant) :
    ((∀ k x, t.Counts steps k x → ¬x.Trips now) ∧ t.state steps now = .ok .pending) ∨
      ∃ x, t.FirstTrip steps now x ∧ t.state steps now = x.expiresAt.map fun _ => .expired := by
  obtain ⟨hr, ha⟩ := undecided_iff.mp h
  rw [state_of_undecided hr ha]
  rcases t.anyTimedOut_present steps now with ⟨hquiet, hscan⟩ | ⟨x, hx, hscan⟩
  · exact .inl ⟨hquiet, by rw [hscan]; rfl⟩
  · refine .inr ⟨x, hx, ?_⟩
    rw [hscan]
    cases x.expiresAt <;> rfl

/-- A state other than rejected and approved, and any overflow, is one of an undecided
    transfer. -/
theorem undecided_of_state {r : Except Overflow State} (h : t.state steps now = r)
    (hr : r ≠ .ok .rejected) (ha : r ≠ .ok .approved) : t.Undecided steps := by
  refine undecided_iff.mpr ⟨fun hrejected => hr ?_, fun happroved => ?_⟩
  · rw [← h, state_of_rejectedBy hrejected]
  · by_cases hrejected : t.RejectedBy steps
    · exact hr (by rw [← h, state_of_rejectedBy hrejected])
    · exact ha (by rw [← h, state_of_approvedBy hrejected happroved])

theorem state_eq_expired_iff_firstTrip : t.state steps now = .ok .expired ↔
    t.Undecided steps ∧ ∃ x e, t.FirstTrip steps now x ∧ x.expiresAt = .ok e := by
  constructor
  · intro h
    have hopen := undecided_of_state h (by decide) (by decide)
    refine ⟨hopen, ?_⟩
    rcases hopen.state_spec now with ⟨-, hstate⟩ | ⟨x, hx, hstate⟩
    · rw [h] at hstate
      cases hstate
    · cases he : x.expiresAt with
      | error why =>
        rw [h, he] at hstate
        cases hstate
      | ok e => exact ⟨x, e, hx, he⟩
  · rintro ⟨hopen, x, e, hx, he⟩
    rcases hopen.state_spec now with ⟨hquiet, -⟩ | ⟨y, hy, hstate⟩
    · exact absurd hx.trips (hquiet _ x hx.counts)
    · rw [hstate, hy.unique hx, he]
      rfl

theorem state_eq_error_iff_firstTrip {why : Overflow} : t.state steps now = .error why ↔
    t.Undecided steps ∧ ∃ x, t.FirstTrip steps now x ∧ x.expiresAt = .error why := by
  constructor
  · intro h
    have hopen := undecided_of_state h (by simp) (by simp)
    refine ⟨hopen, ?_⟩
    rcases hopen.state_spec now with ⟨-, hstate⟩ | ⟨x, hx, hstate⟩
    · rw [h] at hstate
      cases hstate
    · cases he : x.expiresAt with
      | error why' =>
        rw [h, he] at hstate
        cases hstate
        exact ⟨x, hx, he⟩
      | ok e =>
        rw [h, he] at hstate
        cases hstate
  · rintro ⟨hopen, x, hx, he⟩
    rcases hopen.state_spec now with ⟨hquiet, -⟩ | ⟨y, hy, hstate⟩
    · exact absurd hx.trips (hquiet _ x hx.counts)
    · rw [hstate, hy.unique hx, he]
      rfl

theorem state_eq_pending_iff : t.state steps now = .ok .pending ↔
    t.Undecided steps ∧ ∀ k x, t.Counts steps k x → ¬x.Trips now := by
  constructor
  · intro h
    have hopen := undecided_of_state h (by decide) (by decide)
    refine ⟨hopen, ?_⟩
    rcases hopen.state_spec now with ⟨hquiet, -⟩ | ⟨x, -, hstate⟩
    · exact hquiet
    · rw [h] at hstate
      cases he : x.expiresAt with
      | error why => rw [he] at hstate; cases hstate
      | ok e => rw [he] at hstate; cases hstate
  · rintro ⟨hopen, hquiet⟩
    rcases hopen.state_spec now with ⟨-, hstate⟩ | ⟨x, hx, -⟩
    · exact hstate
    · exact absurd hx.trips (hquiet _ x hx.counts)

/-! ### Other lists of steps -/

/-- The step is one of the transfer's, of a type that it needs. -/
def Concerns (t : Transfer) (x : Step) : Bool := x.transferId = t.id && t.needs x.type

/-- The state follows from the step found for each needed type. -/
theorem state_of_stepFor {others : List Step}
    (h : ∀ k, t.needs k = true → t.stepFor others k = t.stepFor steps k) (now : Instant) :
    t.state others now = t.state steps now := by
  have hrelevant : t.relevant others = t.relevant steps :=
    List.map_congr_left fun k hk => h k (mem_needed.mp hk)
  rw [state, state, hrelevant]

theorem stepFor_filter_concerns (steps : List Step) (hk : t.needs k = true) :
    t.stepFor (steps.filter t.Concerns) k = t.stepFor steps k := by
  rw [stepFor, stepFor, List.find?_filter]
  congr 1
  funext x
  by_cases htype : x.type = k <;> by_cases hid : x.transferId = t.id <;>
    simp [Concerns, htype, hid, hk]

/-- Steps of other transfers and of types that are not needed may come and go. -/
theorem state_of_concerns {others : List Step}
    (h : others.filter t.Concerns = steps.filter t.Concerns) (now : Instant) :
    t.state others now = t.state steps now := by
  refine state_of_stepFor (fun k hk => ?_) now
  rw [← stepFor_filter_concerns others hk, h, stepFor_filter_concerns steps hk]

/-- While no type repeats, the step for a type is found in any order. -/
theorem stepFor_of_perm {others : List Step} (hperm : steps.Perm others)
    (honce : (steps.map fun x => (x.transferId, x.type)).Nodup) (k : ApprovalType) :
    t.stepFor others k = t.stepFor steps k := by
  have hfound {l : List Step} (hl : (l.map fun x => (x.transferId, x.type)).Nodup) (x : Step) :
      t.stepFor l k = some x ↔ x ∈ l ∧ x.type = k ∧ x.transferId = t.id := by
    constructor
    · intro h
      have hp := List.find?_some h
      simp only [Bool.and_eq_true, decide_eq_true_eq] at hp
      exact ⟨List.mem_of_find?_eq_some h, hp⟩
    · rintro ⟨hx, htype, hid⟩
      obtain ⟨y, hy⟩ : ∃ y, t.stepFor l k = some y :=
        Option.isSome_iff_exists.mp (List.find?_isSome.mpr ⟨x, hx, by simp [htype, hid]⟩)
      have hp := List.find?_some hy
      simp only [Bool.and_eq_true, decide_eq_true_eq] at hp
      have hkey : (y.transferId, y.type) = (x.transferId, x.type) := by
        rw [hp.1, hp.2, htype, hid]
      rw [hy, List.inj_on_of_nodup_map hl (List.mem_of_find?_eq_some hy) hx hkey]
  apply Option.ext
  intro x
  rw [hfound honce, hfound ((hperm.map _).nodup_iff.mp honce), hperm.mem_iff]

/-! ### Passing time -/

/-- `e` is the earliest expiry of a pending step that counts. -/
structure EarliestExpiry (t : Transfer) (steps : List Step) (e : Instant) : Prop where
  attained : ∃ k x, t.Counts steps k x ∧ x.outcome = .pending ∧ x.expiresAt = .ok e
  least : ∀ k x e', t.Counts steps k x → x.outcome = .pending → x.expiresAt = .ok e' → e ≤ e'

theorem exists_earliestExpiry (hx : t.Counts steps k x) (hpending : x.outcome = .pending)
    (hfit : ∃ e, x.expiresAt = .ok e) : ∃ e, t.EarliestExpiry steps e := by
  let expiries := ((t.present steps).filter fun x => x.outcome = .pending).filterMap fun x =>
    x.expiresAt.toOption
  have hmem {e : Instant} : e ∈ expiries ↔
      ∃ k x, t.Counts steps k x ∧ x.outcome = .pending ∧ x.expiresAt = .ok e := by
    have htoOption {x : Step} : x.expiresAt.toOption = some e ↔ x.expiresAt = .ok e := by
      cases x.expiresAt <;> simp [Except.toOption]
    simp only [expiries, List.mem_filterMap, List.mem_filter, mem_present_iff_counts,
      decide_eq_true_eq, htoOption]
    constructor
    · rintro ⟨x, ⟨⟨k, hk⟩, hpending⟩, he⟩
      exact ⟨k, x, hk, hpending, he⟩
    · rintro ⟨k, x, hk, hpending, he⟩
      exact ⟨x, ⟨⟨k, hk⟩, hpending⟩, he⟩
  obtain ⟨e, he⟩ := hfit
  obtain ⟨least, hleast, hle⟩ := Finset.exists_min_image expiries.toFinset Instant.rank
    ⟨e, List.mem_toFinset.mpr (hmem.mpr ⟨k, x, hx, hpending, he⟩)⟩
  refine ⟨least, hmem.mp (List.mem_toFinset.mp hleast), fun j y e' hy hpending he' => ?_⟩
  exact hle e' (List.mem_toFinset.mpr (hmem.mpr ⟨j, y, hy, hpending, he'⟩))

/-- An undecided transfer is pending up to the earliest expiry and expired from then on. -/
theorem Undecided.state_of_earliestExpiry (h : t.Undecided steps)
    (hfit : ∀ k x, t.Counts steps k x → x.outcome = .pending → ∃ e, x.expiresAt = .ok e)
    {e : Instant} (he : t.EarliestExpiry steps e) (now : Instant) :
    t.state steps now = .ok (if e < now then .expired else .pending) := by
  rcases h.state_spec now with ⟨hquiet, hstate⟩ | ⟨x, hx, hstate⟩
  · obtain ⟨k, x, hk, hpending, hexpires⟩ := he.attained
    have hin : ¬e < now := by
      intro hlt
      apply hquiet k x hk
      refine ⟨hpending, fun e' hok => ?_⟩
      rw [hexpires] at hok
      exact Except.ok.inj hok ▸ hlt
    rw [hstate, if_neg hin]
  · obtain ⟨e', he'⟩ := hfit _ x hx.counts hx.trips.1
    have hlt : e < now :=
      Int.lt_of_le_of_lt (he.least _ x e' hx.counts hx.trips.1 he') (hx.trips.2 e' he')
    rw [hstate, he', if_pos hlt]
    rfl

/-- With every expiry that counts in the calendar, time changes the state at most once. -/
theorem state_of_time
    (hfit : ∀ k x, t.Counts steps k x → x.outcome = .pending → ∃ e, x.expiresAt = .ok e) :
    (∃ s, ∀ now, t.state steps now = .ok s) ∨
      ∃ e, t.EarliestExpiry steps e ∧
        ∀ now, t.state steps now = .ok (if e < now then .expired else .pending) := by
  by_cases hr : t.RejectedBy steps
  · exact .inl ⟨.rejected, fun now => state_of_rejectedBy hr⟩
  by_cases ha : t.ApprovedBy steps
  · exact .inl ⟨.approved, fun now => state_of_approvedBy hr ha⟩
  have hopen := undecided_iff.mpr ⟨hr, ha⟩
  by_cases hpending : ∃ k x, t.Counts steps k x ∧ x.outcome = .pending
  · obtain ⟨k, x, hx, hpending⟩ := hpending
    obtain ⟨e, he⟩ := exists_earliestExpiry hx hpending (hfit k x hx hpending)
    exact .inr ⟨e, he, hopen.state_of_earliestExpiry hfit he⟩
  · refine .inl ⟨.pending, fun now => state_eq_pending_iff.mpr ⟨hopen, fun k x hx htrips => ?_⟩⟩
    exact hpending ⟨k, x, hx, htrips.1⟩

/-! ### The reference -/

/-- What the state of a transfer is with these steps, at every instant; what it is with other
    lists; and how it changes as time passes. -/
structure Reference (t : Transfer) (steps : List Step) : Prop where
  rejected_iff : ∀ now, t.state steps now = .ok .rejected ↔
    ∃ k x, t.Counts steps k x ∧ x.outcome = .rejected
  approved_iff : ∀ now, t.state steps now = .ok .approved ↔
    (¬∃ k x, t.Counts steps k x ∧ x.outcome = .rejected) ∧
      ∀ k, t.needs k = true → ∃ x, t.Counts steps k x ∧ x.outcome = .approved
  expired_iff : ∀ now, t.state steps now = .ok .expired ↔
    t.Undecided steps ∧ ∃ x e, t.FirstTrip steps now x ∧ x.expiresAt = .ok e
  overflow_iff : ∀ now why, t.state steps now = .error why ↔
    t.Undecided steps ∧ ∃ x, t.FirstTrip steps now x ∧ x.expiresAt = .error why
  pending_iff : ∀ now, t.state steps now = .ok .pending ↔
    t.Undecided steps ∧ ∀ k x, t.Counts steps k x → ¬x.Trips now
  foreign : ∀ others, others.filter t.Concerns = steps.filter t.Concerns →
    ∀ now, t.state others now = t.state steps now
  reordered : (steps.map fun x => (x.transferId, x.type)).Nodup →
    ∀ others, steps.Perm others → ∀ now, t.state others now = t.state steps now
  passing :
    (∀ k x, t.Counts steps k x → x.outcome = .pending → ∃ e, x.expiresAt = .ok e) →
    (∃ s, ∀ now, t.state steps now = .ok s) ∨
      ∃ e, t.EarliestExpiry steps e ∧
        ∀ now, t.state steps now = .ok (if e < now then .expired else .pending)

/-- **The state is its reference**, for every transfer and every list of steps. -/
theorem state_reference (t : Transfer) (steps : List Step) : t.Reference steps where
  rejected_iff _ := by rw [state_eq_rejected_iff, rejectedBy_iff_counts]
  approved_iff _ := by rw [state_eq_approved_iff, rejectedBy_iff_counts, approvedBy_iff_counts]
  expired_iff _ := state_eq_expired_iff_firstTrip
  overflow_iff _ _ := state_eq_error_iff_firstTrip
  pending_iff _ := state_eq_pending_iff
  foreign _ h := state_of_concerns h
  reordered honce _ hperm := state_of_stepFor fun k _ => stepFor_of_perm hperm honce k
  passing := state_of_time

end Transfer

end SignOff
