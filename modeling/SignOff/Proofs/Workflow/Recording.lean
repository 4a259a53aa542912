/-
  SignOff/Proofs/Workflow/Recording.lean
  ======================================
  **Recording and planning.**  What these operations write may be written: a new transfer is
  open, and the steps of a transfer that the ledger knows are `Planned` for it.  The steps
  are worked out from the transfer as the caller has it, which may be a copy that is out of
  date; nothing that matters here changes.
-/
import SignOff.Proofs.Workflow.Reading

namespace SignOff

namespace Procedure

variable {R : Ledger → Ledger → Prop} {may : Statement → Ledger → Prop} {ds : List Deed}
  {l : Ledger}

theorem meets_insertTransfer {t : Transfer} {post : Post Unit} :
    (query (.insertTransfer t)).Meets R may post ds l ↔
      ∀ m, R l m → may (.insertTransfer t) m ∧
        match m.insertTransfer t with
        | .ok n => post (.ok ()) (ds ++ [.asked (.insertTransfer t) m.store]) n
        | .error why =>
          post (.error (.failed why)) (ds ++ [.asked (.insertTransfer t) m.store]) m := by
  refine forall_congr' fun m => imp_congr_right fun _ => and_congr_right fun _ => ?_
  rw [Statement.on]
  cases m.insertTransfer t <;> exact .rfl

theorem meets_insertSteps {xs : List Step} {post : Post Unit} :
    (query (.insertSteps xs)).Meets R may post ds l ↔
      ∀ m, R l m → may (.insertSteps xs) m ∧
        match m.insertSteps xs with
        | .ok n => post (.ok ()) (ds ++ [.asked (.insertSteps xs) m.store]) n
        | .error why =>
          post (.error (.failed why)) (ds ++ [.asked (.insertSteps xs) m.store]) m := by
  refine forall_congr' fun m => imp_congr_right fun _ => and_congr_right fun _ => ?_
  rw [Statement.on]
  cases m.insertSteps xs <;> exact .rfl

end Procedure

/-- Whenever they are made, the steps of a plan fulfil requirements of the transfer. -/
theorem Plan.exists_of_mem_made {t : Transfer} {timeouts : Timeouts} {ids : Nat → String}
    {times : List Instant} {x : Step}
    (h : x ∈ Procedure.made ((Plan.ofTransfer t timeouts).steps t.id ids) times) :
    ∃ type id, ∃ time ∈ times, t.needs type = true ∧
      x = (Requirement.ofTransfer t timeouts type).step id t.id type time := by
  obtain ⟨make, hmake, time, htime, rfl⟩ := Procedure.exists_of_mem_made h
  obtain ⟨⟨⟨type, req⟩, k⟩, hmem, rfl⟩ := List.mem_map.mp hmake
  obtain ⟨type', hneeded, heq⟩ := List.mem_map.mp (List.fst_mem_of_mem_zipIdx hmem)
  cases heq
  exact ⟨type, ids k, time, htime, Transfer.mem_needed.mp hneeded, rfl⟩

/-- The step that fulfils a requirement is planned, if the transfer is known. -/
theorem Ledger.Knows.planned {timeouts : Timeouts} {l : Ledger} {t : Transfer} (h : l.Knows t)
    {type : ApprovalType} (hneeds : t.needs type = true) {now : Instant} (hnow : now.Keepable)
    (id : String) :
    l.Planned timeouts ((Requirement.ofTransfer t timeouts type).step id t.id type now) := by
  obtain ⟨u, hu, htu⟩ := h
  have hneeds' : u.needs type = true := by
    rw [← htu]
    cases type <;> exact hneeds
  have happrover : (Requirement.ofTransfer t timeouts type).approver = u.approver type := by
    rw [Requirement.approver, Requirement.ofTransfer, Owner.ofHalves_map,
      ← Transfer.approver_asRead, ← htu]
    cases type <;> rfl
  have hid : u.id = t.id := by
    rw [← htu]
    rfl
  refine ⟨u, hu, hneeds', hnow, ?_⟩
  rw [Requirement.step, happrover, ← hid]
  rfl

namespace Service

open Procedure

variable {svc : Service} {timeouts : Timeouts} {R : Ledger → Ledger → Prop} {ds : List Deed}
  {l : Ledger}

theorem initiate_meets (id : String) (p : Proposal) (initiator : Option Owner) :
    (initiate id p initiator).Meets R ((Operation.initiate id p initiator).May timeouts)
      (fun a _ m => ∀ t, a = .ok t → m.Knows t) ds l := by
  rw [initiate]
  simp only [meets_bind, meets_now, meets_insertTransfer, meets_report, meets_pure]
  intro time htime m hm
  refine ⟨⟨⟨⟨htime, fun x hx => nomatch hx⟩, rfl⟩, fun _ => ⟨_, rfl⟩⟩, ?_⟩
  cases hn : m.insertTransfer (Transfer.ofProposal id p initiator time) with
  | error why => exact fun t ht => nomatch ht
  | ok n =>
    intro last _ t ht
    rw [← Except.ok.inj ht, (Ledger.eq_of_insertTransfer hn).2]
    exact ⟨_, List.mem_append_right _ List.mem_cons_self, rfl⟩

theorem plan_meets (hR : Rely svc.timeouts R) (ids : Nat → String) {t : Transfer} (ht : l.Knows t) :
    (svc.plan ids t).Meets R ((Operation.plan ids t).May svc.timeouts) (fun _ _ _ => True)
      ds l := by
  rw [plan]
  simp only [meets_bind, meets_makeEach, meets_insertSteps, meets_report]
  intro times _ htimes m hm
  have hknows := ht.grows (hR.evolves hm).grows
  refine ⟨⟨fun x hx => ?_, fun _ => ⟨_, rfl⟩⟩, ?_⟩
  · obtain ⟨type, id, time, htime, hneeds, rfl⟩ := Plan.exists_of_mem_made hx
    exact hknows.planned hneeds (htimes time htime) id
  · cases m.insertSteps _ with
    | error why => trivial
    | ok n => exact fun _ _ => trivial

theorem createStep_meets (hR : Rely svc.timeouts R) (id : String) {t : Transfer} (ht : l.Knows t)
    (type : ApprovalType) (actor : Option Actor) :
    (svc.createStep id t type actor).Meets R
      ((Operation.createStep id t type actor).May svc.timeouts) (fun _ _ _ => True) ds l := by
  rw [createStep]
  by_cases hneeds : t.needs type = true
  · rw [if_pos hneeds]
    simp only [meets_bind, meets_now, meets_insertSteps, meets_report]
    intro time htime m hm
    refine ⟨⟨fun x hx => ?_, fun _ => ⟨_, rfl⟩⟩, ?_⟩
    · rw [List.mem_singleton.mp hx]
      exact (ht.grows (hR.evolves hm).grows).planned hneeds htime id
    · cases m.insertSteps _ with
      | error why => trivial
      | ok n => exact fun _ _ => trivial
  · rw [if_neg hneeds]
    trivial

end Service

end SignOff
