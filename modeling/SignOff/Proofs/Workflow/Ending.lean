/-
  SignOff/Proofs/Workflow/Ending.lean
  ===================================
  **How calls end.**  The contract of every operation in one (`Operation.meets`), under any
  interference: a call that is handed a known transfer asks only what it `May`, the
  transfers that its answer shows are known, and decisions, completions and statuses end
  as their own modules say.
-/
import SignOff.Proofs.Workflow.Deciding
import SignOff.Proofs.Workflow.Recording
import SignOff.Proofs.Workflow.Completing

namespace SignOff

namespace Operation

open Procedure

/-- What is promised of the end of a call that began in the ledger `l`, by its operation. -/
def Ends (R : Ledger → Ledger → Prop) (svc : Service) (op : Operation) (l : Ledger) : Post Answer :=
  fun a ds m =>
    match op with
    | .approve stepId actor notes =>
      ∃ b, a = b.map .decision ∧ DecisionEnds R svc ⟨stepId, actor, .approved, notes⟩ l b ds m
    | .reject stepId actor notes =>
      ∃ b, a = b.map .decision ∧ DecisionEnds R svc ⟨stepId, actor, .rejected, notes⟩ l b ds m
    | .complete id => ∃ b, a = b.map .transfer ∧ CompletionEnds R id l b ds m
    | .status id =>
      ∃ b, a = b.map .status ∧ ∃ time, StatusEnds R id time [.read time] l b ds m
    | .state id =>
      ∃ b : Except Halt Status, a = b.map (fun s => .state s.state) ∧
        ∃ time, StatusEnds R id time [.read time] l b ds m
    | _ => True

/-- The transfers that the answer shows are known. -/
def Shows (a : Except Halt Answer) (m : Ledger) : Prop :=
  ∀ y, a = .ok y → ∀ t ∈ y.transfers, m.Knows t

variable {svc : Service} {R : Ledger → Ledger → Prop} {op : Operation} {l m : Ledger}
  {a : Except Halt Answer} {ds : List Deed}

theorem Ends.decision (h : op.Ends R svc l a ds m) {r : Ruling} (hop : op.ruling? = some r) :
    ∃ b, a = b.map .decision ∧ DecisionEnds R svc r l b ds m := by
  cases op with
  | approve stepId actor notes => cases hop; exact h
  | reject stepId actor notes => cases hop; exact h
  | _ => cases hop

theorem shows_map {α : Type} {b : Except Halt α} {f : α → Answer} (hf : ∀ x, (f x).transfers = []) :
    Shows (b.map f) m := by
  intro y hy t ht
  cases b with
  | error why => cases hy
  | ok x =>
    rw [← Except.ok.inj hy, hf] at ht
    cases ht

theorem shows_transfer {b : Except Halt Transfer} (h : ∀ t, b = .ok t → m.Knows t) :
    Shows (b.map .transfer) m := by
  intro y hy t ht
  cases b with
  | error why => cases hy
  | ok u =>
    rw [← Except.ok.inj hy] at ht
    rw [List.mem_singleton.mp ht]
    exact h u rfl

theorem shows_status {b : Except Halt Status} (h : ∀ s, b = .ok s → m.Knows s.transfer) :
    Shows (b.map .status) m := by
  intro y hy t ht
  cases b with
  | error why => cases hy
  | ok s =>
    rw [← Except.ok.inj hy] at ht
    rw [List.mem_singleton.mp ht]
    exact h s rfl

theorem shows_statuses {b : Except Halt (List Status)}
    (h : ∀ l, b = .ok l → ∀ s ∈ l, m.Knows s.transfer) : Shows (b.map .statuses) m := by
  intro y hy t ht
  cases b with
  | error why => cases hy
  | ok l =>
    rw [← Except.ok.inj hy] at ht
    obtain ⟨s, hs, rfl⟩ := List.mem_map.mp ht
    exact h l rfl s hs

/-- **Every call keeps to its contract.** -/
theorem meets (op : Operation) (hR : Rely svc.timeouts R) (hl : l.Coherent svc.timeouts)
    (hknown : ∀ t, op.transfer? = some t → l.Knows t) :
    (op.procedure svc).Meets R (op.May svc.timeouts)
      (fun a ds m => Shows a m ∧ op.Ends R svc l a ds m) [] l := by
  cases op with
  | initiate id p initiator =>
    refine Meets.map ((Service.initiate_meets id p initiator).mono fun b ds m h => ?_)
    exact ⟨shows_transfer h, trivial⟩
  | plan ids t =>
    refine Meets.map ((Service.plan_meets hR ids (hknown t rfl)).mono fun b ds m _ => ?_)
    exact ⟨shows_map fun _ => rfl, trivial⟩
  | createStep id t type actor =>
    refine Meets.map
      ((Service.createStep_meets hR id (hknown t rfl) type actor).mono fun b ds m _ => ?_)
    exact ⟨shows_map fun _ => rfl, trivial⟩
  | approve stepId actor notes =>
    refine Meets.map ((Service.decide_meets (r := ⟨stepId, actor, .approved, notes⟩) hR rfl
      hl).mono fun b ds m h => ?_)
    exact ⟨shows_map fun _ => rfl, b, rfl, h⟩
  | reject stepId actor notes =>
    refine Meets.map ((Service.decide_meets (r := ⟨stepId, actor, .rejected, notes⟩) hR rfl
      hl).mono fun b ds m h => ?_)
    exact ⟨shows_map fun _ => rfl, b, rfl, h⟩
  | complete id =>
    refine Meets.map (((Service.complete_meets hR hl id).evolves hR).mono fun b ds m h => ?_)
    obtain ⟨h, hm⟩ := h
    refine ⟨shows_transfer fun t ht => (hm.coherent hl).knows ?_, b, rfl, h⟩
    cases h with
    | completed keepable check state after transfer id_eq unstamped stampable later stored =>
      exact Except.ok.inj ht ▸ stored
    | _ => cases ht
  | status id =>
    refine Meets.map ((Service.status_meets [] id).mono fun b ds m h => ?_)
    obtain ⟨time, -, h⟩ := h
    exact ⟨shows_status fun s hs => (hs ▸ h).knows hR hl, b, rfl, time, h⟩
  | state id =>
    refine Meets.map ((Service.state_meets id).mono fun b ds m h => ?_)
    refine ⟨shows_map fun _ => rfl, ?_⟩
    obtain ⟨c, rfl, h⟩ := h
    exact ⟨c, by cases c <;> rfl, h⟩
  | stateAt id time =>
    refine Meets.map ((Service.stateAt_meets id time).mono fun b ds m _ => ?_)
    exact ⟨shows_map fun _ => rfl, trivial⟩
  | history license =>
    refine Meets.map ((Service.history_meets hR hl license).mono fun b ds m h => ?_)
    exact ⟨shows_statuses h, trivial⟩
  | pending actor =>
    refine Meets.map ((Service.pending_meets actor).mono fun b ds m _ => ?_)
    exact ⟨shows_map fun _ => rfl, trivial⟩

end Operation

end SignOff
