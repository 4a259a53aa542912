/-
  SignOff/Proofs/Ledger/Growth.lean
  =================================
  **Ledgers only grow.**  Whatever a statement does, every record keeps its place and what
  it said (`Statement.Makes.grows`): new ones come behind the old ones, a pending step may get
  its decision once, and an open transfer the time of its completion.  `Later` says this of
  one record and `Ledger.Grows` of all.
-/
import SignOff.Proofs.Ledger.Basic

namespace SignOff

/-! ### One record -/

/-- What may become of a step: it stays as it is, or a pending one is decided. -/
def Step.Later (x y : Step) : Prop :=
  y = x ∨ x.outcome = .pending ∧ ∃ outcome resolver notes time,
    outcome.isTerminal = true ∧ y = x.settled outcome resolver notes time

/-- What may become of a transfer: it stays as it is, or an open one is completed. -/
def Transfer.Later (t u : Transfer) : Prop :=
  u = t ∨ t.completedAt = none ∧ ∃ time, u = t.completed time

namespace Step

variable {x y z : Step}

theorem Later.refl (x : Step) : x.Later x := .inl rfl

theorem Later.eq_of_decided (h : x.Later y) (hx : x.outcome ≠ .pending) : y = x := by
  rcases h with rfl | ⟨hpending, -⟩
  · rfl
  · exact absurd hpending hx

theorem Later.eq_of_pending (h : x.Later y) (hy : y.outcome = .pending) : y = x := by
  rcases h with rfl | ⟨-, outcome, resolver, notes, time, hterm, rfl⟩
  · rfl
  · rw [show outcome = .pending from hy] at hterm
    cases hterm

theorem settled_ne_pending {outcome : Outcome} (hterm : outcome.isTerminal = true) (x : Step)
    (resolver : Owner) (notes : Option String) (time : Instant) :
    (x.settled outcome resolver notes time).outcome ≠ .pending := by
  intro hpending
  simp only [settled] at hpending
  rw [hpending] at hterm
  exact absurd hterm (by decide)

theorem Later.trans (h : x.Later y) (h' : y.Later z) : x.Later z := by
  rcases h with rfl | ⟨hx, outcome, resolver, notes, time, hterm, rfl⟩
  · exact h'
  · rw [h'.eq_of_decided (settled_ne_pending hterm x resolver notes time)]
    exact .inr ⟨hx, outcome, resolver, notes, time, hterm, rfl⟩

theorem Later.antisymm (h : x.Later y) (h' : y.Later x) : y = x := by
  rcases h with rfl | ⟨-, outcome, resolver, notes, time, hterm, rfl⟩
  · rfl
  · exact (h'.eq_of_decided (settled_ne_pending hterm x resolver notes time)).symm

/-- What a step says from its creation on. -/
structure SameOrigin (x y : Step) : Prop where
  id : y.id = x.id
  transferId : y.transferId = x.transferId
  type : y.type = x.type
  approver : y.approver = x.approver
  timeoutHours : y.timeoutHours = x.timeoutHours
  createdAt : y.createdAt = x.createdAt

theorem Later.sameOrigin (h : x.Later y) : x.SameOrigin y := by
  rcases h with rfl | ⟨-, outcome, resolver, notes, time, -, rfl⟩
  · exact ⟨rfl, rfl, rfl, rfl, rfl, rfl⟩
  · exact ⟨rfl, rfl, rfl, rfl, rfl, rfl⟩

end Step

namespace Transfer

variable {t u v : Transfer}

theorem Later.refl (t : Transfer) : t.Later t := .inl rfl

theorem Later.eq_of_completed (h : t.Later u) (ht : t.completedAt ≠ none) : u = t := by
  rcases h with rfl | ⟨hopen, -⟩
  · rfl
  · exact absurd hopen ht

theorem Later.trans (h : t.Later u) (h' : u.Later v) : t.Later v := by
  rcases h with rfl | ⟨ht, time, rfl⟩
  · exact h'
  · rw [h'.eq_of_completed (by simp [completed])]
    exact .inr ⟨ht, time, rfl⟩

theorem Later.antisymm (h : t.Later u) (h' : u.Later t) : u = t := by
  rcases h with rfl | ⟨-, time, rfl⟩
  · rfl
  · exact (h'.eq_of_completed (by simp [completed])).symm

theorem Later.id_eq (h : t.Later u) : u.id = t.id := by
  rcases h with rfl | ⟨-, time, rfl⟩
  · rfl
  · rfl

theorem Later.needs_eq (h : t.Later u) : u.needs = t.needs := by
  rcases h with rfl | ⟨-, time, rfl⟩
  · rfl
  · funext k; cases k <;> rfl

theorem Later.approver_eq (h : t.Later u) : u.approver = t.approver := by
  rcases h with rfl | ⟨-, time, rfl⟩
  · rfl
  · funext k; cases k <;> rfl

end Transfer

/-! ### All records -/

namespace Ledger

/-- Two lists that are related both ways at all places are equal, if the relation is
    antisymmetric. -/
theorem eq_of_places {α : Type} {R : α → α → Prop} {as bs : List α}
    (h : ∀ (i : Nat) (a : α), as[i]? = some a → ∃ b, bs[i]? = some b ∧ R a b)
    (h' : ∀ (i : Nat) (b : α), bs[i]? = some b → ∃ a, as[i]? = some a ∧ R b a)
    (hanti : ∀ {a b}, R a b → R b a → b = a) : as = bs := by
  apply List.ext_getElem?
  intro i
  cases hb : bs[i]? with
  | none =>
    cases ha : as[i]? with
    | none => rfl
    | some a =>
      obtain ⟨b, hb', -⟩ := h i a ha
      rw [hb] at hb'
      cases hb'
  | some b =>
    obtain ⟨a, ha, hba⟩ := h' i b hb
    obtain ⟨b', hb', hab⟩ := h i a ha
    rw [hb] at hb'
    cases hb'
    rw [ha, hanti hab hba]

/-- Every record is still at its place. -/
structure Grows (l m : Ledger) : Prop where
  transfers : ∀ (i : Nat) (t : Transfer), l.transfers[i]? = some t →
    ∃ u, m.transfers[i]? = some u ∧ t.Later u
  steps : ∀ (i : Nat) (x : Step), l.steps[i]? = some x →
    ∃ y, m.steps[i]? = some y ∧ x.Later y

namespace Grows

variable {l m n : Ledger}

theorem refl (l : Ledger) : l.Grows l :=
  ⟨fun _ t h => ⟨t, h, .refl t⟩, fun _ x h => ⟨x, h, .refl x⟩⟩

theorem trans (h : l.Grows m) (h' : m.Grows n) : l.Grows n where
  transfers i t ht := by
    obtain ⟨u, hu, htu⟩ := h.transfers i t ht
    obtain ⟨v, hv, huv⟩ := h'.transfers i u hu
    exact ⟨v, hv, htu.trans huv⟩
  steps i x hx := by
    obtain ⟨y, hy, hxy⟩ := h.steps i x hx
    obtain ⟨z, hz, hyz⟩ := h'.steps i y hy
    exact ⟨z, hz, hxy.trans hyz⟩

theorem antisymm (h : l.Grows m) (h' : m.Grows l) : l = m := by
  have htransfers : l.transfers = m.transfers :=
    eq_of_places h.transfers h'.transfers fun hx hy => hx.antisymm hy
  have hsteps : l.steps = m.steps := eq_of_places h.steps h'.steps fun hx hy => hx.antisymm hy
  cases l
  cases m
  rw [Ledger.mk.injEq]
  exact ⟨htransfers, hsteps⟩

theorem mem_transfers (h : l.Grows m) {t : Transfer} (ht : t ∈ l.transfers) :
    ∃ u ∈ m.transfers, t.Later u := by
  obtain ⟨i, hi⟩ := List.mem_iff_getElem?.mp ht
  obtain ⟨u, hu, htu⟩ := h.transfers i t hi
  exact ⟨u, List.mem_of_getElem? hu, htu⟩

theorem mem_steps (h : l.Grows m) {x : Step} (hx : x ∈ l.steps) : ∃ y ∈ m.steps, x.Later y := by
  obtain ⟨i, hi⟩ := List.mem_iff_getElem?.mp hx
  obtain ⟨y, hy, hxy⟩ := h.steps i x hi
  exact ⟨y, List.mem_of_getElem? hy, hxy⟩

theorem mem_decided (h : l.Grows m) {x : Step} (hx : x ∈ l.steps) (hd : x.outcome ≠ .pending) :
    x ∈ m.steps := by
  obtain ⟨y, hy, hxy⟩ := h.mem_steps hx
  exact hxy.eq_of_decided hd ▸ hy

theorem mem_completed (h : l.Grows m) {t : Transfer} (ht : t ∈ l.transfers)
    (hc : t.completedAt ≠ none) : t ∈ m.transfers := by
  obtain ⟨u, hu, htu⟩ := h.mem_transfers ht
  exact htu.eq_of_completed hc ▸ hu

end Grows

/-! ### What the writes do -/

variable {l m : Ledger}

theorem eq_of_insertTransfer {t : Transfer} (h : l.insertTransfer t = .ok m) :
    (∀ u ∈ l.transfers, u.id ≠ t.id) ∧ m = { l with transfers := l.transfers ++ [t.asRead] } := by
  rw [insertTransfer] at h
  split at h
  · cases h
  · next hfree =>
    refine ⟨fun u hu he => hfree ?_, (Except.ok.inj h).symm⟩
    exact List.any_eq_true.mpr ⟨u, hu, decide_eq_true he⟩

theorem eq_of_insertStep {x : Step} (h : l.insertStep x = .ok m) :
    x.timeoutHours ≠ 0 ∧ l.hasStep x = false ∧
      m = { l with steps := l.steps ++ [x.asRead] } := by
  rw [insertStep] at h
  split at h
  · cases h
  · next hhours =>
    split at h
    · cases h
    · next hfree =>
      split at h
      · exact ⟨hhours, by simpa using hfree, (Except.ok.inj h).symm⟩
      · cases h

theorem insertSteps_cons {x : Step} {rest : List Step} (h : l.insertSteps (x :: rest) = .ok m) :
    ∃ k, l.insertStep x = .ok k ∧ k.insertSteps rest = .ok m := by
  rw [insertSteps] at h
  exact exists_of_bind_eq_ok h

theorem grows_append (l : Ledger) (ts : List Transfer) (xs : List Step) :
    l.Grows ⟨l.transfers ++ ts, l.steps ++ xs⟩ where
  transfers i t h := by
    obtain ⟨hi, -⟩ := List.getElem?_eq_some_iff.mp h
    exact ⟨t, by rw [List.getElem?_append_left hi, h], .refl t⟩
  steps i x h := by
    obtain ⟨hi, -⟩ := List.getElem?_eq_some_iff.mp h
    exact ⟨x, by rw [List.getElem?_append_left hi, h], .refl x⟩

/-- The steps come in as they are read back, behind those that are there. -/
theorem eq_of_insertSteps {xs : List Step} (h : l.insertSteps xs = .ok m) :
    m = { l with steps := l.steps ++ xs.map Step.asRead } := by
  induction xs generalizing l with
  | nil =>
    rw [insertSteps] at h
    cases h
    simp
  | cons x rest ih =>
    obtain ⟨k, hk, hrest⟩ := insertSteps_cons h
    rw [ih hrest, (eq_of_insertStep hk).2.2, List.map_cons, List.append_assoc, List.singleton_append]

theorem grows_insertSteps {xs : List Step} (h : l.insertSteps xs = .ok m) : l.Grows m := by
  rw [eq_of_insertSteps h]
  simpa using grows_append l [] (xs.map Step.asRead)

/-- What a decision makes of any step. -/
theorem later_settled (id : String) {outcome : Outcome} (hterm : outcome.isTerminal = true)
    (resolver : Owner) (notes : Option String) (time : Instant) (x : Step) :
    x.Later (if isOpenStep id x then x.settled outcome resolver notes time else x) := by
  split
  · next hopen =>
    rw [isOpenStep_iff] at hopen
    exact .inr ⟨hopen.2, outcome, resolver, notes, time, hterm, rfl⟩
  · exact .refl x

/-- What a completion makes of any transfer. -/
theorem later_stamped (id : String) (time : Instant) (t : Transfer) :
    t.Later (if isOpenTransfer id t then t.completed time else t) := by
  split
  · next hopen =>
    rw [isOpenTransfer_iff] at hopen
    exact .inr ⟨hopen.2, time, rfl⟩
  · exact .refl t

theorem grows_settle (l : Ledger) (id : String) {outcome : Outcome}
    (hterm : outcome.isTerminal = true) (resolver : Owner) (notes : Option String)
    (time : Instant) : l.Grows (l.settle id outcome resolver notes time) where
  transfers i t h := ⟨t, h, .refl t⟩
  steps i x h := by
    simp only [settle, List.getElem?_map, h, Option.map_some]
    exact ⟨_, rfl, later_settled id hterm resolver notes time x⟩

theorem mem_settle {x : Step} (hx : x ∈ l.steps) (hpending : x.outcome = .pending)
    (outcome : Outcome) (resolver : Owner) (notes : Option String) (time : Instant) :
    x.settled outcome resolver notes time ∈ (l.settle x.id outcome resolver notes time).steps := by
  have hopen : isOpenStep x.id x = true := isOpenStep_iff.mpr ⟨rfl, hpending⟩
  exact List.mem_map.mpr ⟨x, hx, if_pos hopen⟩

theorem Grows.mem_settled {id : String} {outcome : Outcome} {resolver : Owner}
    {notes : Option String} {time : Instant} {x : Step}
    (h : (l.settle id outcome resolver notes time).Grows m) (hterm : outcome.isTerminal = true)
    (hx : x ∈ l.steps) (hid : x.id = id) (hpending : x.outcome = .pending) :
    x.settled outcome resolver notes time ∈ m.steps := by
  subst hid
  exact h.mem_decided (mem_settle hx hpending outcome resolver notes time)
    (x.settled_ne_pending hterm resolver notes time)

theorem settle_of_closed {id : String} (h : l.steps.any (isOpenStep id) = false)
    (outcome : Outcome) (resolver : Owner) (notes : Option String) (time : Instant) :
    l.settle id outcome resolver notes time = l := by
  have hclosed : ∀ x ∈ l.steps,
      (if isOpenStep id x then x.settled outcome resolver notes time else x) = x :=
    fun x hx => if_neg (by simpa using List.any_eq_false.mp h x hx)
  rw [settle, List.map_congr_left hclosed, List.map_id']

theorem mem_stamp {t : Transfer} (ht : t ∈ l.transfers) (hopen : t.completedAt = none)
    (time : Instant) : t.completed time ∈ (l.stamp t.id time).transfers := by
  have hthis : isOpenTransfer t.id t = true := isOpenTransfer_iff.mpr ⟨rfl, hopen⟩
  exact List.mem_map.mpr ⟨t, ht, if_pos hthis⟩

theorem stamp_of_closed {id : String} (h : l.transfers.any (isOpenTransfer id) = false)
    (time : Instant) : l.stamp id time = l := by
  have hclosed : ∀ t ∈ l.transfers,
      (if isOpenTransfer id t then t.completed time else t) = t :=
    fun t ht => if_neg (by simpa using List.any_eq_false.mp h t ht)
  rw [stamp, List.map_congr_left hclosed, List.map_id']

theorem grows_stamp (l : Ledger) (id : String) (time : Instant) : l.Grows (l.stamp id time) where
  transfers i t h := by
    simp only [stamp, List.getElem?_map, h, Option.map_some]
    exact ⟨_, rfl, later_stamped id time t⟩
  steps i x h := ⟨x, h, .refl x⟩

end Ledger

/-- **No statement takes anything back.** -/
theorem Statement.Makes.grows {q : Statement} {l m : Ledger} (h : q.Makes l m) : l.Grows m := by
  cases h with
  | reads reads => exact .refl l
  | @transfer t l m inserted =>
    rw [(Ledger.eq_of_insertTransfer inserted).2]
    simpa using Ledger.grows_append l [t.asRead] []
  | steps inserted => exact Ledger.grows_insertSteps inserted
  | settled terminal => exact Ledger.grows_settle l _ terminal _ _ _
  | stamped => exact Ledger.grows_stamp l _ _

end SignOff
