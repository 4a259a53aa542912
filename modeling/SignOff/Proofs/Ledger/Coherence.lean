/-
  SignOff/Proofs/Ledger/Coherence.lean
  ====================================
  **What holds of every ledger that the workflow makes.**  `Coherent` gathers it: records
  are legible, identifiers unique, a transfer has one step of a type; a step is one that
  its transfer needs, asks the right owner and has the configured hours; a decision is
  there as a whole or not at all; and only an approved transfer is completed.

  Statements keep this as long as they are `Admissible`, that is, as long as what they write
  has been worked out from the ledger (`Coherent.makes`).  Which statements an operation asks
  is a matter of the operation, not of the ledger.
-/
import SignOff.Proofs.Ledger.Growth
import Mathlib.Data.List.Nodup

namespace SignOff

/-- The step is one that the transfer needs, and asks the owner on that side. -/
structure Step.Serves (x : Step) (t : Transfer) : Prop where
  transferId : t.id = x.transferId
  needed : t.needs x.type = true
  approver : x.approver = t.approver x.type

/-- A pending step shows no decision; a decided one shows by whom and when. -/
structure Step.Tidy (x : Step) : Prop where
  pending : x.outcome = .pending → x.resolvedBy = none ∧ x.resolvedAt = none ∧ x.notes = none
  decided : x.outcome ≠ .pending → x.resolvedBy ≠ none ∧ x.resolvedAt ≠ none

theorem Step.Serves.later {x y : Step} {t u : Transfer} (h : x.Serves t) (hx : x.Later y)
    (ht : t.Later u) : y.Serves u := by
  have ho := hx.sameOrigin
  constructor
  · rw [ht.id_eq, ho.transferId, h.transferId]
  · rw [ht.needs_eq, ho.type, h.needed]
  · rw [ht.approver_eq, ho.approver, ho.type, h.approver]

namespace Ledger

/-- Every step that the transfer needs is approved. -/
def Approved (l : Ledger) (t : Transfer) : Prop :=
  ∀ k, t.needs k = true → ∃ x ∈ l.steps, x.transferId = t.id ∧ x.type = k ∧ x.outcome = .approved

theorem Approved.grows {l m : Ledger} {t u : Transfer} (h : l.Approved t) (hg : l.Grows m)
    (ht : t.Later u) : m.Approved u := by
  intro k hk
  rw [ht.needs_eq] at hk
  obtain ⟨x, hx, hid, htype, hout⟩ := h k hk
  have hdecided : x.outcome ≠ .pending := by rw [hout]; decide
  exact ⟨x, hg.mem_decided hx hdecided, by rw [hid, ht.id_eq], htype, hout⟩

/-- What holds of the ledger between any two statements of the workflow. -/
structure Coherent (timeouts : Timeouts) (l : Ledger) : Prop where
  legible : l.Legible
  transfer_ids : (l.transfers.map fun t => t.id).Nodup
  step_ids : (l.steps.map fun x => x.id).Nodup
  step_types : (l.steps.map fun x => (x.transferId, x.type)).Nodup
  serves : ∀ x ∈ l.steps, ∃ t ∈ l.transfers, x.Serves t
  hours : ∀ x ∈ l.steps, x.timeoutHours = timeouts.hours x.type ∧ x.timeoutHours ≠ 0
  tidy : ∀ x ∈ l.steps, x.Tidy
  completed : ∀ t ∈ l.transfers, t.completedAt ≠ none → l.Approved t

theorem coherent_empty (timeouts : Timeouts) : empty.Coherent timeouts := by
  constructor <;> simp [empty]
  constructor <;> simp

/-- A pending step as the workflow plans it for a transfer of the ledger. -/
def Planned (timeouts : Timeouts) (l : Ledger) (x : Step) : Prop :=
  ∃ t ∈ l.transfers, t.needs x.type = true ∧ x.createdAt.Keepable ∧
    x = Step.fresh x.id t.id x.type (t.approver x.type) (timeouts.hours x.type) x.createdAt

end Ledger

/-- What the statement writes may be written now. -/
def Statement.Admissible (timeouts : Timeouts) (l : Ledger) : Statement → Prop
  | .insertTransfer t => t.Keepable ∧ t.completedAt = none
  | .insertSteps xs => ∀ x ∈ xs, l.Planned timeouts x
  | .resolve _ _ _ _ time => time.Keepable
  | .complete id time => time.Keepable ∧ ∀ t ∈ l.transfers, t.id = id → l.Approved t
  | _ => True

namespace Ledger

variable {timeouts : Timeouts} {l m : Ledger}

/-! ### Records by name -/

theorem Coherent.transfer_ext (h : l.Coherent timeouts) {t u : Transfer} (ht : t ∈ l.transfers)
    (hu : u ∈ l.transfers) (hid : t.id = u.id) : t = u :=
  List.inj_on_of_nodup_map h.transfer_ids ht hu hid

theorem Coherent.step_ext (h : l.Coherent timeouts) {x y : Step} (hx : x ∈ l.steps)
    (hy : y ∈ l.steps) (hid : x.id = y.id) : x = y :=
  List.inj_on_of_nodup_map h.step_ids hx hy hid

theorem Coherent.step_ext_type (h : l.Coherent timeouts) {x y : Step} (hx : x ∈ l.steps)
    (hy : y ∈ l.steps) (ht : x.transferId = y.transferId) (hk : x.type = y.type) : x = y :=
  List.inj_on_of_nodup_map h.step_types hx hy (Prod.ext ht hk)

theorem mem_of_transfer? {id : String} {t : Transfer} (h : l.transfer? id = some t) :
    t ∈ l.transfers ∧ t.id = id :=
  ⟨List.mem_of_find?_eq_some h, by simpa using List.find?_some h⟩

theorem mem_of_step? {id : String} {x : Step} (h : l.step? id = some x) :
    x ∈ l.steps ∧ x.id = id :=
  ⟨List.mem_of_find?_eq_some h, by simpa using List.find?_some h⟩

theorem transfer?_of_mem (hids : (l.transfers.map fun t => t.id).Nodup) {t : Transfer}
    (ht : t ∈ l.transfers) : l.transfer? t.id = some t := by
  cases hfind : l.transfer? t.id with
  | none => exact absurd (by simp) (List.find?_eq_none.mp hfind t ht)
  | some u =>
    obtain ⟨hu, hid⟩ := mem_of_transfer? hfind
    rw [List.inj_on_of_nodup_map hids hu ht hid]

theorem Coherent.transfer?_eq_some (h : l.Coherent timeouts) {t : Transfer}
    (ht : t ∈ l.transfers) : l.transfer? t.id = some t :=
  transfer?_of_mem h.transfer_ids ht

theorem Coherent.step?_eq_some (h : l.Coherent timeouts) {x : Step} (hx : x ∈ l.steps) :
    l.step? x.id = some x := by
  cases hfind : l.step? x.id with
  | none => exact absurd (by simp) (List.find?_eq_none.mp hfind x hx)
  | some y =>
    obtain ⟨hy, hid⟩ := mem_of_step? hfind
    rw [h.step_ext hy hx hid]

theorem Coherent.findTransfer_of_mem (h : l.Coherent timeouts) {t : Transfer}
    (ht : t ∈ l.transfers) : l.store.findTransfer t.id = .ok (some t) := by
  rw [findTransfer_store h.legible, h.transfer?_eq_some ht]

theorem Coherent.findStep_of_mem (h : l.Coherent timeouts) {x : Step} (hx : x ∈ l.steps) :
    l.store.findStep x.id = .ok (some x) := by
  rw [findStep_store h.legible, h.step?_eq_some hx]

theorem mem_stepsOf {id : String} {x : Step} :
    x ∈ l.stepsOf id ↔ x ∈ l.steps ∧ x.transferId = id := by
  rw [stepsOf, mem_byText, List.mem_filter, decide_eq_true_eq]

/-- Among the steps of its transfer, too, a step is found by its identifier. -/
theorem Coherent.find?_stepsOf (h : l.Coherent timeouts) {x : Step} (hx : x ∈ l.steps) :
    ((l.stepsOf x.transferId).find? fun y => y.id = x.id) = some x := by
  cases hfind : (l.stepsOf x.transferId).find? fun y => y.id = x.id with
  | none => exact absurd (by simp) (List.find?_eq_none.mp hfind x (mem_stepsOf.mpr ⟨hx, rfl⟩))
  | some y =>
    have hid : y.id = x.id := by simpa using List.find?_some hfind
    rw [h.step_ext (mem_stepsOf.mp (List.mem_of_find?_eq_some hfind)).1 hx hid]

/-! ### Legible ledgers

Records are put into a ledger as their rows give them back. -/

theorem Legible.insertTransfer (h : l.Legible) {t : Transfer} (ht : t.Keepable)
    (hm : l.insertTransfer t = .ok m) : m.Legible := by
  obtain ⟨-, rfl⟩ := eq_of_insertTransfer hm
  refine ⟨?_, h.steps⟩
  intro u hu
  rcases List.mem_append.mp hu with hu | hu
  · exact h.transfers u hu
  · rw [List.mem_singleton.mp hu]
    exact ⟨ht.asRead, t.asRead_asRead⟩

theorem Legible.insertSteps (h : l.Legible) {xs : List Step} (hxs : ∀ x ∈ xs, x.Keepable)
    (hm : l.insertSteps xs = .ok m) : m.Legible := by
  rw [eq_of_insertSteps hm]
  refine ⟨h.transfers, ?_⟩
  intro y hy
  rcases List.mem_append.mp hy with hy | hy
  · exact h.steps y hy
  · obtain ⟨x, hx, rfl⟩ := List.mem_map.mp hy
    exact ⟨(hxs x hx).asRead, x.asRead_asRead⟩

theorem Legible.settle (h : l.Legible) (id : String) (outcome : Outcome) (resolver : Owner)
    (notes : Option String) {time : Instant} (htime : time.Keepable) :
    (l.settle id outcome resolver notes time).Legible := by
  refine ⟨h.transfers, ?_⟩
  intro y hy
  obtain ⟨x, hx, rfl⟩ := List.mem_map.mp hy
  obtain ⟨hkeep, hread⟩ := h.steps x hx
  split
  · refine ⟨⟨hkeep.created, fun t ht => ?_⟩, ?_⟩
    · rw [← Option.mem_some.mp ht]
      exact htime
    · have happrover : x.approver.map Owner.asRead = x.approver := congrArg Step.approver hread
      simp [Step.asRead, Step.settled, happrover, htime.shown_eq, hkeep.created.shown_eq]
  · exact ⟨hkeep, hread⟩

theorem Legible.stamp (h : l.Legible) (id : String) {time : Instant} (htime : time.Keepable) :
    (l.stamp id time).Legible := by
  refine ⟨?_, h.steps⟩
  intro u hu
  obtain ⟨t, ht, rfl⟩ := List.mem_map.mp hu
  obtain ⟨hkeep, hread⟩ := h.transfers t ht
  split
  · refine ⟨⟨hkeep.created, fun c hc => ?_⟩, ?_⟩
    · rw [← Option.mem_some.mp hc]
      exact htime
    · have hcompleted : (some time).map Instant.shown = some time := congrArg some htime.shown_eq
      rw [Transfer.asRead, Transfer.mk.injEq] at hread
      simp only [Transfer.asRead, Transfer.completed, hcompleted, hread]
  · exact ⟨hkeep, hread⟩

/-! ### Inserting -/

theorem Planned.asRead_eq (h : l.Coherent timeouts) {x : Step} (hx : l.Planned timeouts x) :
    x.asRead = x := by
  obtain ⟨t, ht, -, hkeep, hfresh⟩ := hx
  have happrover : (t.approver x.type).map Owner.asRead = t.approver x.type := by
    rw [← Transfer.approver_asRead, (h.legible.transfers t ht).2]
  rw [hfresh]
  simp only [Step.asRead, Step.fresh, happrover, Option.map_none, hkeep.shown_eq]

/-- Inserting steps changes no transfer, so that what was planned stays so. -/
theorem Planned.congr (hm : m.transfers = l.transfers) {x : Step} (hx : l.Planned timeouts x) :
    m.Planned timeouts x := by
  rw [Planned, hm]
  exact hx

theorem Coherent.insertTransfer (h : l.Coherent timeouts) {t : Transfer} (ht : t.Keepable)
    (hopen : t.completedAt = none) (hm : l.insertTransfer t = .ok m) : m.Coherent timeouts := by
  have hlegible := h.legible.insertTransfer ht hm
  obtain ⟨hfree, rfl⟩ := eq_of_insertTransfer hm
  have hgrows : l.Grows ⟨l.transfers ++ [t.asRead], l.steps⟩ := by
    simpa using grows_append l [t.asRead] []
  refine { h with legible := hlegible, transfer_ids := ?_, serves := ?_, completed := ?_ }
  · simp only [List.map_append, List.map_cons, List.map_nil]
    refine List.nodup_append.mpr ⟨h.transfer_ids, List.nodup_singleton _, ?_⟩
    intro a ha b hb hab
    obtain ⟨u, hu, rfl⟩ := List.mem_map.mp ha
    rw [List.mem_singleton.mp hb] at hab
    exact hfree u hu hab
  · intro x hx
    obtain ⟨u, hu, hserves⟩ := h.serves x hx
    exact ⟨u, List.mem_append_left _ hu, hserves⟩
  · intro u hu hdone
    rcases List.mem_append.mp hu with hu | hu
    · exact (h.completed u hu hdone).grows hgrows (.refl u)
    · rw [List.mem_singleton.mp hu] at hdone
      exact absurd (congrArg (Option.map Instant.shown) hopen) hdone

theorem Coherent.insertStep (h : l.Coherent timeouts) {x : Step} (hx : l.Planned timeouts x)
    (hm : l.insertStep x = .ok m) : m.Coherent timeouts := by
  obtain ⟨hhours, hfree, rfl⟩ := eq_of_insertStep hm
  rw [hx.asRead_eq h]
  have hgrows : l.Grows ⟨l.transfers, l.steps ++ [x]⟩ := by simpa using grows_append l [] [x]
  have hnew : ∀ y ∈ l.steps, y.id ≠ x.id ∧ ¬(y.transferId = x.transferId ∧ y.type = x.type) := by
    simpa [hasStep, not_or] using hfree
  have hread := hx.asRead_eq h
  obtain ⟨t, ht, hneeds, hkeep, hfresh⟩ := hx
  have hall {P : Step → Prop} (hold : ∀ y ∈ l.steps, P y) (hthis : P x) :
      ∀ y ∈ l.steps ++ [x], P y := by
    intro y hy
    rcases List.mem_append.mp hy with hy | hy
    · exact hold y hy
    · exact List.mem_singleton.mp hy ▸ hthis
  refine { h with legible := ⟨h.legible.transfers, hall h.legible.steps ⟨⟨hkeep, ?_⟩, hread⟩⟩,
                  step_ids := ?_, step_types := ?_, serves := hall h.serves ⟨t, ht, ?_⟩,
                  hours := hall h.hours ⟨?_, hhours⟩, tidy := hall h.tidy ?_,
                  completed := fun u hu hdone => (h.completed u hu hdone).grows hgrows (.refl u) }
  · rw [hfresh]
    simp [Step.fresh]
  · simp only [List.map_append, List.map_cons, List.map_nil]
    refine List.nodup_append.mpr ⟨h.step_ids, List.nodup_singleton _, ?_⟩
    intro a ha b hb hab
    obtain ⟨y, hy, rfl⟩ := List.mem_map.mp ha
    exact (hnew y hy).1 (hab.trans (List.mem_singleton.mp hb))
  · simp only [List.map_append, List.map_cons, List.map_nil]
    refine List.nodup_append.mpr ⟨h.step_types, List.nodup_singleton _, ?_⟩
    intro a ha b hb hab
    obtain ⟨y, hy, rfl⟩ := List.mem_map.mp ha
    exact (hnew y hy).2 (Prod.mk.inj (hab.trans (List.mem_singleton.mp hb)))
  · exact ⟨by rw [hfresh]; rfl, hneeds, by rw [hfresh]; rfl⟩
  · rw [hfresh]
    rfl
  · rw [hfresh]
    exact ⟨fun _ => ⟨rfl, rfl, rfl⟩, fun hdecided => absurd rfl hdecided⟩

theorem Coherent.insertSteps (h : l.Coherent timeouts) {xs : List Step}
    (hx : ∀ x ∈ xs, l.Planned timeouts x) (hm : l.insertSteps xs = .ok m) :
    m.Coherent timeouts := by
  induction xs generalizing l with
  | nil => rw [Ledger.insertSteps] at hm; cases hm; exact h
  | cons x rest ih =>
    obtain ⟨k, hk, hrest⟩ := insertSteps_cons hm
    have htransfers : k.transfers = l.transfers := by rw [(eq_of_insertStep hk).2.2]
    exact ih (h.insertStep (hx x List.mem_cons_self) hk)
      (fun y hy => (hx y (List.mem_cons_of_mem x hy)).congr htransfers) hrest

/-! ### Changing in place -/

/-- Records that become later ones at their places leave the ledger coherent, if the new ones
    are legible and tidy, and if a transfer that is newly completed is approved. -/
theorem Coherent.map (h : l.Coherent timeouts) {f : Transfer → Transfer} {g : Step → Step}
    (hf : ∀ t ∈ l.transfers, t.Later (f t)) (hg : ∀ x ∈ l.steps, x.Later (g x))
    (hlegible : Legible ⟨l.transfers.map f, l.steps.map g⟩)
    (htidy : ∀ x ∈ l.steps, (g x).Tidy)
    (hcompleted : ∀ t ∈ l.transfers, t.completedAt = none → (f t).completedAt ≠ none →
      l.Approved t)
    (hgrows : l.Grows ⟨l.transfers.map f, l.steps.map g⟩) :
    Coherent timeouts ⟨l.transfers.map f, l.steps.map g⟩ := by
  have hids : (l.transfers.map f).map (fun t => t.id) = l.transfers.map fun t => t.id := by
    rw [List.map_map]
    exact List.map_congr_left fun t ht => (hf t ht).id_eq
  have hstep {β : Type} {p : Step → β} (hp : ∀ x y : Step, x.SameOrigin y → p y = p x) :
      (l.steps.map g).map p = l.steps.map p := by
    rw [List.map_map]
    exact List.map_congr_left fun x hx => hp x (g x) (hg x hx).sameOrigin
  refine ⟨hlegible, ?_, ?_, ?_, ?_, ?_, ?_, ?_⟩
  · exact hids ▸ h.transfer_ids
  · exact (hstep (p := fun x => x.id) fun x y ho => ho.id) ▸ h.step_ids
  · refine (hstep (p := fun x => (x.transferId, x.type)) fun x y ho => ?_) ▸ h.step_types
    rw [ho.transferId, ho.type]
  · intro y hy
    obtain ⟨x, hx, rfl⟩ := List.mem_map.mp hy
    obtain ⟨t, ht, hserves⟩ := h.serves x hx
    exact ⟨f t, List.mem_map_of_mem ht, hserves.later (hg x hx) (hf t ht)⟩
  · intro y hy
    obtain ⟨x, hx, rfl⟩ := List.mem_map.mp hy
    have ho := (hg x hx).sameOrigin
    rw [ho.timeoutHours, ho.type]
    exact h.hours x hx
  · intro y hy
    obtain ⟨x, hx, rfl⟩ := List.mem_map.mp hy
    exact htidy x hx
  · intro u hu hdone
    obtain ⟨t, ht, rfl⟩ := List.mem_map.mp hu
    by_cases hopen : t.completedAt = none
    · exact (hcompleted t ht hopen hdone).grows hgrows (hf t ht)
    · exact (h.completed t ht hopen).grows hgrows (hf t ht)

theorem Coherent.settle (h : l.Coherent timeouts) (id : String) {outcome : Outcome}
    (hterm : outcome.isTerminal = true) (resolver : Owner) (notes : Option String)
    {time : Instant} (htime : time.Keepable) :
    (l.settle id outcome resolver notes time).Coherent timeouts := by
  have hmap : l.settle id outcome resolver notes time = ⟨l.transfers.map fun t => t, l.steps.map
      fun x => if isOpenStep id x then x.settled outcome resolver notes time else x⟩ := by
    simp [Ledger.settle]
  have hgrows := grows_settle l id hterm resolver notes time
  have hlegible := h.legible.settle id outcome resolver notes htime
  rw [hmap] at hgrows hlegible ⊢
  refine h.map (fun t _ => .refl t) (fun x _ => later_settled id hterm resolver notes time x)
    hlegible (fun x hx => ?_) (fun t _ hopen hdone => absurd hopen hdone) hgrows
  split
  · refine ⟨fun hpending => ?_, fun _ => ⟨by simp [Step.settled], by simp [Step.settled]⟩⟩
    exact absurd hpending (x.settled_ne_pending hterm resolver notes time)
  · exact h.tidy x hx

theorem Coherent.stamp (h : l.Coherent timeouts) {id : String} {time : Instant}
    (htime : time.Keepable) (happroved : ∀ t ∈ l.transfers, t.id = id → l.Approved t) :
    (l.stamp id time).Coherent timeouts := by
  have hmap : l.stamp id time = ⟨l.transfers.map fun t => if isOpenTransfer id t then t.completed time
      else t, l.steps.map fun x => x⟩ := by
    simp [Ledger.stamp]
  have hgrows := grows_stamp l id time
  have hlegible := h.legible.stamp id htime
  rw [hmap] at hgrows hlegible ⊢
  refine h.map (fun t _ => later_stamped id time t) (fun x _ => .refl x) hlegible h.tidy
    (fun t ht hopen hdone => ?_) hgrows
  split at hdone
  · next hthis =>
    rw [isOpenTransfer_iff] at hthis
    exact happroved t ht hthis.1
  · exact absurd hopen hdone

/-- **Admissible statements keep the ledger coherent.** -/
theorem Coherent.makes (h : l.Coherent timeouts) {q : Statement} (hq : q.Admissible timeouts l)
    (hm : q.Makes l m) : m.Coherent timeouts := by
  cases hm with
  | reads reads => exact h
  | transfer inserted => exact h.insertTransfer hq.1 hq.2 inserted
  | steps inserted => exact h.insertSteps hq inserted
  | settled terminal => exact h.settle _ terminal _ _ hq
  | stamped => exact h.stamp hq.1 hq.2

end Ledger

end SignOff
