/-
  SignOff/Proofs/Workflow/Account.lean
  ====================================
  **Accounts.**  An account tells how a procedure ends: which answer goes with which deeds.
  Unlike a contract it knows of no ledgers; it holds whatever the store answers, whatever
  the clock shows and whether or not the trail keeps an entry (`Procedure.Tells`).  So it is
  read off the procedure alone, part by part, and every call of a system that has ended
  did so as its account tells (`System.Reachable.account`).

  What an account cannot tell is which of its cases occur.  That is for the contracts: an
  unreadable row, or a step that is gone when it is read again, is among the ends that
  the account of a decision tells of, and no coherent ledger gives rise to it.
-/
import SignOff.Proofs.Workflow.System
import SignOff.Proofs.Workflow.Checking

namespace SignOff

open Audit

namespace Procedure

/-- What is told of the end: the answer and the deeds. -/
abbrev Account (α : Type) : Type := Except Halt α → List Deed → Prop

variable {α β : Type} {tale tale' : Account α} {ds : List Deed}

/-- The procedure, having done `ds`, ends as the account tells. -/
def Tells (tale : Account α) : Procedure α → List Deed → Prop
  | .done a, ds => tale (.ok a) ds
  | .halt why, ds => tale (.error why) ds
  | .ask q next, ds => ∀ s,
      match q.run s with
      | .ok r => (next r.1).Tells tale (ds ++ [.asked q s])
      | .error why => tale (.error (.failed why)) (ds ++ [.asked q s])
  | .clock next, ds => ∀ t, (next t).Tells tale (ds ++ [.read t])
  | .record e next, ds => ∀ kept, (next kept).Tells tale (ds ++ [.noted e])
  | .consult next, ds => next.Tells tale ds

theorem Tells.mono {p : Procedure α} (h : p.Tells tale ds)
    (htale : ∀ a ds, tale a ds → tale' a ds) : p.Tells tale' ds := by
  induction p generalizing ds with
  | done a => exact htale _ _ h
  | halt why => exact htale _ _ h
  | ask q next ih =>
    intro s
    have hs := h s
    cases hq : q.run s with
    | error why =>
      rw [hq] at hs
      exact htale _ _ hs
    | ok r =>
      rw [hq] at hs
      exact ih r.1 hs
  | clock next ih =>
    intro t
    exact ih t (h t)
  | record e next ih =>
    intro kept
    exact ih kept (h kept)
  | consult next ih => exact ih h

/-! ### Parts of procedures -/

theorem tells_bind {p : Procedure α} {f : α → Procedure β} {tale : Account β} :
    (p >>= f).Tells tale ds ↔
      p.Tells (fun a ds =>
        match a with
        | .ok a => (f a).Tells tale ds
        | .error why => tale (.error why) ds) ds := by
  induction p generalizing ds with
  | done a => exact .rfl
  | halt why => exact .rfl
  | ask q next ih =>
    refine forall_congr' fun s => ?_
    cases q.run s with
    | error why => exact .rfl
    | ok r => exact ih r.1
  | clock next ih => exact forall_congr' fun t => ih t
  | record e next ih => exact forall_congr' fun kept => ih kept
  | consult next ih => exact ih

theorem tells_pure {a : α} : (pure a : Procedure α).Tells tale ds ↔ tale (.ok a) ds := .rfl

theorem Tells.map {p : Procedure α} {f : α → β} {tale : Account β}
    (h : p.Tells (fun a => tale (a.map f)) ds) :
    (do return f (← p) : Procedure β).Tells tale ds := by
  rw [tells_bind]
  refine h.mono fun a ds htale => ?_
  cases a with
  | error why => exact htale
  | ok a => exact htale

theorem tells_fail {why : Error} :
    (fail why : Procedure α).Tells tale ds ↔ tale (.error (.failed why)) ds :=
  .rfl

theorem tells_now {tale : Account Instant} :
    now.Tells tale ds ↔ ∀ t, tale (.ok t) (ds ++ [.read t]) :=
  .rfl

theorem tells_makeEach {makes : List (Instant → α)} {tale : Account (List α)} :
    (makeEach makes).Tells tale ds ↔ ∀ times : List Instant, times.length = makes.length →
      tale (.ok (made makes times)) (ds ++ times.map .read) := by
  induction makes generalizing ds tale with
  | nil =>
    simp only [List.length_nil, List.length_eq_zero_iff, forall_eq]
    simp [makeEach, tells_pure, made]
  | cons make rest ih =>
    simp only [List.length_cons, forall_length_succ, makeEach, tells_bind, tells_now, tells_pure,
      ih]
    simp only [List.append_assoc, List.singleton_append]
    exact .rfl

theorem tells_note {e : Entry} {tale : Account Unit} :
    (note e).Tells tale ds ↔ tale (.ok ()) (ds ++ [.noted e]) :=
  ⟨fun h => h true, fun h _ => h⟩

theorem tells_query {q : Statement} {tale : Account q.Reply} :
    (query q).Tells tale ds ↔ ∀ s,
      match q.run s with
      | .ok r => tale (.ok r.1) (ds ++ [.asked q s])
      | .error why => tale (.error (.failed why)) (ds ++ [.asked q s]) :=
  .rfl

theorem tells_ask {q : Statement} {f : q.Reply → Procedure α} :
    (query q >>= f).Tells tale ds ↔ ∀ s,
      match q.run s with
      | .ok r => (f r.1).Tells tale (ds ++ [.asked q s])
      | .error why => tale (.error (.failed why)) (ds ++ [.asked q s]) :=
  .rfl

theorem tells_consulting {asked : Bool} {p : Procedure α} :
    Tells tale (do
      if asked then asking
      p) ds ↔ p.Tells tale ds := by
  cases asked <;> rfl

theorem tells_ofExcept {x : Except Overflow α} :
    (ofExcept x).Tells tale ds ↔ tale (x.mapError .overflow) ds := by
  cases x <;> exact .rfl

theorem tells_ofOption {missing : Error} {x : Option α} :
    (ofOption missing x).Tells tale ds ↔ tale (x.elim (.error (.failed missing)) .ok) ds := by
  cases x <;> exact .rfl

theorem tells_require {id : String} {tale : Account Transfer} :
    (Service.require id).Tells tale ds ↔ ∀ s,
      tale (Store.found (.noSuchTransfer id) (s.findTransfer id))
        (ds ++ [.asked (.findTransfer id) s]) := by
  refine forall_congr' fun s => ?_
  rw [Statement.run]
  rcases s.findTransfer id with why | (_ | t) <;> exact .rfl

theorem tells_findStep {id : String} {f : Step → Procedure α} :
    Tells tale (do f (← ofOption (.noSuchStep id) (← query (.findStep id)))) ds ↔ ∀ s,
      match Store.found (.noSuchStep id) (s.findStep id) with
      | .ok x => (f x).Tells tale (ds ++ [.asked (.findStep id) s])
      | .error why => tale (.error why) (ds ++ [.asked (.findStep id) s]) := by
  refine forall_congr' fun s => ?_
  rw [Statement.run]
  rcases s.findStep id with why | (_ | x) <;> exact .rfl

theorem tells_stepsOf {id : String} {f : List Step → Procedure α} :
    (query (.stepsOf id) >>= f).Tells tale ds ↔ ∀ s : Store,
      match s.stepsOf id with
      | .ok steps => (f steps).Tells tale (ds ++ [.asked (.stepsOf id) s])
      | .error why => tale (.error (.failed why)) (ds ++ [.asked (.stepsOf id) s]) := by
  refine forall_congr' fun s => ?_
  rw [Statement.run]
  cases s.stepsOf id <;> exact .rfl

theorem tells_report {entry : Instant → Entry} {tale : Account Unit} :
    (Service.report entry).Tells tale ds ↔
      ∀ t, tale (.ok ()) (ds ++ [.read t, .noted (entry t)]) := by
  simp only [Service.report, tells_bind, tells_now, tells_note, List.append_assoc,
    List.singleton_append]

theorem tells_refuse {x : Step} {actor : Actor} {why : Error} :
    (Service.refuse x actor why : Procedure α).Tells tale ds ↔
      ∀ t, tale (.error (.failed why))
        (ds ++ [.read t, .noted (Service.refusal x actor why t)]) := by
  simp only [Service.refuse, tells_bind, tells_report, tells_fail, Service.refusal]

/-- What the procedure does next is told of too. -/
theorem Tells.acts {p p' : Procedure α} {ds' : List Deed} {s s' : Store} (h : p.Tells tale ds)
    (hacts : p.Acts s ds' p' s') : p'.Tells tale (ds ++ ds') := by
  cases hacts with
  | asked run =>
    have hs := h s
    rw [run] at hs
    exact hs
  | failed run =>
    have hs := h s
    rw [run] at hs
    exact hs
  | read t keepable => exact h t
  | noted kept => exact h kept
  | consulted =>
    rw [List.append_nil]
    exact h

end Procedure

/-! ### Calls of a system -/

namespace System

variable {svc : Service} {S : System} {tale : Operation → Procedure.Account Answer}

theorem Reachable.tells (h : Reachable svc S)
    (htale : ∀ op : Operation, (op.procedure svc).Tells (tale op) []) :
    ∀ c ∈ S.clients, c.rest.Tells (tale c.op) c.deeds := by
  induction h with
  | refl =>
    intro c hc
    cases hc
  | @tail S S' _ hmove ih =>
    intro c hc
    cases hmove with
    | begin op shown =>
      rcases List.mem_append.mp hc with hc | hc
      · exact ih c hc
      · rw [List.mem_singleton.mp hc]
        exact htale op
    | act client acts =>
      rcases List.mem_or_eq_of_mem_set hc with hc | rfl
      · exact ih c hc
      · exact (ih _ (List.mem_of_getElem? client)).acts acts

/-- **Every call that has ended did so as its account tells.** -/
theorem Reachable.account (h : Reachable svc S)
    (htale : ∀ op : Operation, (op.procedure svc).Tells (tale op) []) {c : Client} (hc : c ∈ S.clients)
    {a : Except Halt Answer} (ha : c.answer? = some a) : tale c.op a c.deeds := by
  have htells := h.tells htale c hc
  unfold Client.answer? at ha
  cases hrest : c.rest with
  | done y =>
    rw [hrest] at ha htells
    cases ha
    exact htells
  | halt why =>
    rw [hrest] at ha htells
    cases ha
    exact htells
  | _ =>
    rw [hrest] at ha
    cases ha

end System

end SignOff
