/-
  SignOff/Proofs/Workflow/Contract.lean
  =====================================
  **Contracts.**  What a procedure promises while others use the store: before each of its
  statements the ledger may be any that `R` leads to, each statement is one that `may` be
  asked then, and when it ends, its answer, its deeds and the ledger are related by `post`.
  `Procedure.Meets` says all this along the tree, so that a sequence meets a contract part
  by part (`meets_bind`).

  A `Rely` is an interference that contracts are proved against.  There are two: with
  equality nothing happens in between, and the procedure is carried out alone; with
  `Ledger.Evolves` anything may that keeps a ledger coherent and takes nothing back.
-/
import SignOff.Proofs.Workflow.Operation

namespace SignOff

/-- What an operation has done so far: readings of the clock, statements with the store that
    each was run on, and entries for the audit trail. -/
inductive Deed where
  | read (t : Instant)
  | asked (q : Statement) (s : Store)
  | noted (e : Audit.Entry)

/-- The entry that the deed hands to the trail. -/
def Deed.entry? : Deed → Option Audit.Entry
  | .noted e => some e
  | _ => none

/-- The entries that the deeds hand to the trail, in order. -/
def Deed.notes (ds : List Deed) : List Audit.Entry := ds.filterMap Deed.entry?

namespace Deed

variable {ds ds' : List Deed}

theorem notes_append : notes (ds ++ ds') = notes ds ++ notes ds' := List.filterMap_append

@[simp] theorem notes_nil : notes [] = [] := rfl

@[simp] theorem notes_read (t : Instant) : notes (.read t :: ds) = notes ds := rfl

@[simp] theorem notes_asked (q : Statement) (s : Store) : notes (.asked q s :: ds) = notes ds := rfl

@[simp] theorem notes_noted (e : Audit.Entry) : notes (.noted e :: ds) = e :: notes ds := rfl

end Deed

/-- The deed leaves every row as it is. -/
def Deed.Idle : Deed → Prop
  | .asked q s => ∀ r, q.run s = .ok r → r.2 = s
  | _ => True

theorem Deed.idle_of_reads {q : Statement} (h : q.writes = false) (s : Store) :
    (asked q s).Idle :=
  fun _ hr => Statement.store_of_run hr h

/-- A statement that leaves the ledger as it is leaves its rows. -/
theorem Deed.idle_of_makes {q : Statement} {l : Ledger} (hl : l.Legible)
    (h : ∀ m, q.Makes l m → m = l) : (asked q l.store).Idle := by
  intro r hr
  rw [Statement.run_store hl] at hr
  cases hq : q.on l with
  | error why => rw [hq] at hr; cases hr
  | ok r' =>
    rw [hq] at hr
    rw [← Except.ok.inj hr]
    exact congrArg Ledger.store (h r'.2 (Statement.makes hq))

/-! ### Interference -/

/-- What may become of a ledger. -/
structure Ledger.Evolves (timeouts : Timeouts) (l m : Ledger) : Prop where
  grows : l.Grows m
  coherent : l.Coherent timeouts → m.Coherent timeouts

namespace Ledger

variable {timeouts : Timeouts} {l m n : Ledger}

theorem Evolves.refl (l : Ledger) : l.Evolves timeouts l := ⟨.refl l, fun h => h⟩

theorem Evolves.trans (h : l.Evolves timeouts m) (h' : m.Evolves timeouts n) :
    l.Evolves timeouts n :=
  ⟨h.grows.trans h'.grows, fun hl => h'.coherent (h.coherent hl)⟩

theorem Evolves.on {q : Statement} (hq : q.Admissible timeouts l) {r : q.Reply × Ledger}
    (h : q.on l = .ok r) : l.Evolves timeouts r.2 :=
  ⟨(Statement.makes h).grows, fun hl => hl.makes hq (Statement.makes h)⟩

end Ledger

/-- An interference under which ledgers evolve. -/
structure Rely (timeouts : Timeouts) (R : Ledger → Ledger → Prop) : Prop where
  refl : ∀ l, R l l
  trans : ∀ {l m n}, R l m → R m n → R l n
  evolves : ∀ {l m}, R l m → l.Evolves timeouts m

theorem Rely.alone (timeouts : Timeouts) : Rely timeouts Eq :=
  ⟨fun _ => rfl, fun h h' => h.trans h', fun h => h ▸ .refl _⟩

theorem Rely.others (timeouts : Timeouts) : Rely timeouts (Ledger.Evolves timeouts) :=
  ⟨.refl, .trans, fun h => h⟩

namespace Procedure

/-- What is made at these instants, one value at each. -/
def made {α : Type} (makes : List (Instant → α)) (times : List Instant) : List α :=
  (makes.zip times).map fun e => e.1 e.2

theorem exists_of_mem_made {α : Type} {makes : List (Instant → α)} {times : List Instant} {a : α}
    (h : a ∈ made makes times) : ∃ make ∈ makes, ∃ t ∈ times, a = make t := by
  obtain ⟨e, he, rfl⟩ := List.mem_map.mp h
  exact ⟨e.1, (List.of_mem_zip he).1, e.2, (List.of_mem_zip he).2, rfl⟩

theorem forall_length_succ {P : List Instant → Prop} {n : Nat} :
    (∀ times, times.length = n + 1 → P times) ↔
      ∀ t times, times.length = n → P (t :: times) := by
  constructor
  · intro h t times hlen
    exact h (t :: times) (congrArg (· + 1) hlen)
  · intro h times hlen
    obtain ⟨t, rest, rfl⟩ := List.exists_cons_of_length_eq_add_one hlen
    exact h t rest (Nat.succ.inj hlen)

/-- What is promised of the end: the answer, the deeds, and the ledger after the last one. -/
abbrev Post (α : Type) : Type := Except Halt α → List Deed → Ledger → Prop

variable {α β : Type} {R : Ledger → Ledger → Prop} {may : Statement → Ledger → Prop}
  {post post' : Post α} {ds : List Deed} {l : Ledger}

/-- The procedure, having done `ds` and left the ledger `l`, keeps to the contract. -/
def Meets (R : Ledger → Ledger → Prop) (may : Statement → Ledger → Prop) (post : Post α) :
    Procedure α → List Deed → Ledger → Prop
  | .done a, ds, l => post (.ok a) ds l
  | .halt why, ds, l => post (.error why) ds l
  | .ask q next, ds, l => ∀ m, R l m → may q m ∧
      match q.on m with
      | .ok r => (next r.1).Meets R may post (ds ++ [.asked q m.store]) r.2
      | .error why => post (.error (.failed why)) (ds ++ [.asked q m.store]) m
  | .clock next, ds, l => ∀ t : Instant, t.Keepable → (next t).Meets R may post (ds ++ [.read t]) l
  | .record e next, ds, l => ∀ kept, (next kept).Meets R may post (ds ++ [.noted e]) l
  | .consult next, ds, l => next.Meets R may post ds l

/-- A contract promises less if it promises less of the end. -/
theorem Meets.mono {p : Procedure α} (h : p.Meets R may post ds l)
    (hpost : ∀ a ds m, post a ds m → post' a ds m) : p.Meets R may post' ds l := by
  induction p generalizing ds l with
  | done a => exact hpost _ _ _ h
  | halt why => exact hpost _ _ _ h
  | ask q next ih =>
    intro m hm
    obtain ⟨hmay, hrest⟩ := h m hm
    refine ⟨hmay, ?_⟩
    cases hq : q.on m with
    | error why => rw [hq] at hrest; exact hpost _ _ _ hrest
    | ok r => rw [hq] at hrest; exact ih r.1 hrest
  | clock next ih => exact fun t ht => ih t (h t ht)
  | record e next ih => exact fun kept => ih kept (h kept)
  | consult next ih => exact ih h

/-- What interference and every statement of the procedure keep is kept till the end. -/
theorem Meets.kept {Q : Ledger → Ledger → Prop} {p : Procedure α} {l₀ : Ledger}
    (h : p.Meets R may post ds l) (hl : Q l₀ l) (hR : ∀ {m n}, Q l₀ m → R m n → Q l₀ n)
    (hmay : ∀ {q m r}, may q m → q.on m = .ok r → Q l₀ m → Q l₀ r.2) :
    p.Meets R may (fun a ds m => post a ds m ∧ Q l₀ m) ds l := by
  induction p generalizing ds l with
  | done a => exact ⟨h, hl⟩
  | halt why => exact ⟨h, hl⟩
  | ask q next ih =>
    intro m hm
    obtain ⟨hq, hrest⟩ := h m hm
    refine ⟨hq, ?_⟩
    cases hr : q.on m with
    | error why => rw [hr] at hrest; exact ⟨hrest, hR hl hm⟩
    | ok r => rw [hr] at hrest; exact ih r.1 hrest (hmay hq hr (hR hl hm))
  | clock next ih => exact fun t ht => ih t (h t ht) hl
  | record e next ih => exact fun kept => ih kept (h kept) hl
  | consult next ih => exact ih h hl

/-! ### Parts of procedures -/

theorem meets_bind {p : Procedure α} {f : α → Procedure β} {post : Post β} :
    (p >>= f).Meets R may post ds l ↔
      p.Meets R may (fun a ds l =>
        match a with
        | .ok a => (f a).Meets R may post ds l
        | .error why => post (.error why) ds l) ds l := by
  induction p generalizing ds l with
  | done a => exact .rfl
  | halt why => exact .rfl
  | ask q next ih =>
    refine forall_congr' fun m => imp_congr_right fun _ => and_congr_right fun _ => ?_
    cases q.on m with
    | error why => exact .rfl
    | ok r => exact ih r.1
  | clock next ih => exact forall_congr' fun t => imp_congr_right fun _ => ih t
  | record e next ih => exact forall_congr' fun kept => ih kept
  | consult next ih => exact ih

theorem meets_pure {a : α} : (pure a : Procedure α).Meets R may post ds l ↔ post (.ok a) ds l :=
  .rfl

theorem Meets.map {p : Procedure α} {f : α → β} {post : Post β}
    (h : p.Meets R may (fun a => post (a.map f)) ds l) :
    (do return f (← p) : Procedure β).Meets R may post ds l := by
  rw [meets_bind]
  refine h.mono fun a ds m hpost => ?_
  cases a with
  | error why => exact hpost
  | ok a => exact hpost

theorem meets_fail {why : Error} :
    (fail why : Procedure α).Meets R may post ds l ↔ post (.error (.failed why)) ds l :=
  .rfl

theorem meets_now {post : Post Instant} :
    now.Meets R may post ds l ↔
      ∀ t : Instant, t.Keepable → post (.ok t) (ds ++ [.read t]) l :=
  .rfl

theorem meets_makeEach {makes : List (Instant → α)} {post : Post (List α)} :
    (makeEach makes).Meets R may post ds l ↔
      ∀ times : List Instant, times.length = makes.length → (∀ t ∈ times, t.Keepable) →
        post (.ok (made makes times)) (ds ++ times.map .read) l := by
  induction makes generalizing ds post with
  | nil =>
    simp only [List.length_nil, List.length_eq_zero_iff, forall_eq]
    simp [makeEach, meets_pure, made]
  | cons make rest ih =>
    simp only [List.length_cons, forall_length_succ, List.forall_mem_cons, makeEach, meets_bind,
      meets_now, meets_pure, ih]
    simp only [List.append_assoc, List.singleton_append]
    exact forall_congr' fun t => ⟨fun h times hlen ht => h ht.1 times hlen ht.2,
      fun h ht times hlen hrest => h times hlen ⟨ht, hrest⟩⟩

theorem meets_note {e : Audit.Entry} {post : Post Unit} :
    (note e).Meets R may post ds l ↔ post (.ok ()) (ds ++ [.noted e]) l :=
  ⟨fun h => h true, fun h _ => h⟩

/-- Asking the actor first makes no difference to what is promised. -/
theorem meets_consulting {asked : Bool} {p : Procedure α} :
    Meets R may post (do
      if asked then asking
      p) ds l ↔ p.Meets R may post ds l := by
  cases asked <;> rfl

theorem meets_ofExcept {x : Except Overflow α} :
    (ofExcept x).Meets R may post ds l ↔ post (x.mapError .overflow) ds l := by
  cases x <;> exact .rfl

theorem meets_ofOption {missing : Error} {x : Option α} :
    (ofOption missing x).Meets R may post ds l ↔
      post (x.elim (.error (.failed missing)) .ok) ds l := by
  cases x <;> exact .rfl

/-! ### Statements of operations -/

section Statements

variable {op : Operation} {timeouts : Timeouts}

/-- What an operation asks lets the ledger evolve. -/
theorem Meets.evolves {p : Procedure α} (h : p.Meets R (op.May timeouts) post ds l)
    (hR : Rely timeouts R) :
    p.Meets R (op.May timeouts) (fun a ds m => post a ds m ∧ l.Evolves timeouts m) ds l :=
  h.kept (.refl l) (fun hm hn => hm.trans (hR.evolves hn))
    fun hq hr hm => hm.trans (.on hq.admissible hr)

theorem meets_findTransfer {id : String} {post : Post (Option Transfer)} :
    (query (.findTransfer id)).Meets R (op.May timeouts) post ds l ↔
      ∀ m, R l m → post (.ok (m.transfer? id)) (ds ++ [.asked (.findTransfer id) m.store]) m :=
  ⟨fun h m hm => (h m hm).2, fun h m hm => ⟨.reads rfl, h m hm⟩⟩

theorem meets_findStep {id : String} {post : Post (Option Step)} :
    (query (.findStep id)).Meets R (op.May timeouts) post ds l ↔
      ∀ m, R l m → post (.ok (m.step? id)) (ds ++ [.asked (.findStep id) m.store]) m :=
  ⟨fun h m hm => (h m hm).2, fun h m hm => ⟨.reads rfl, h m hm⟩⟩

theorem meets_transfersOf {license : String} {post : Post (List Transfer)} :
    (query (.transfersOf license)).Meets R (op.May timeouts) post ds l ↔
      ∀ m, R l m →
        post (.ok (m.transfersOf license)) (ds ++ [.asked (.transfersOf license) m.store]) m :=
  ⟨fun h m hm => (h m hm).2, fun h m hm => ⟨.reads rfl, h m hm⟩⟩

theorem meets_stepsOf {id : String} {post : Post (List Step)} :
    (query (.stepsOf id)).Meets R (op.May timeouts) post ds l ↔
      ∀ m, R l m → post (.ok (m.stepsOf id)) (ds ++ [.asked (.stepsOf id) m.store]) m :=
  ⟨fun h m hm => (h m hm).2, fun h m hm => ⟨.reads rfl, h m hm⟩⟩

theorem meets_pendingSteps {post : Post (List Step)} :
    (query .pendingSteps).Meets R (op.May timeouts) post ds l ↔
      ∀ m, R l m → post (.ok m.pendingSteps) (ds ++ [.asked .pendingSteps m.store]) m :=
  ⟨fun h m hm => (h m hm).2, fun h m hm => ⟨.reads rfl, h m hm⟩⟩

theorem meets_resolve {r : Ruling} (hterm : r.outcome.isTerminal = true) {time : Instant}
    {post : Post Bool} :
    (query (r.update time)).Meets R may post ds l ↔
      ∀ m, R l m → may (r.update time) m ∧
        post (.ok (m.steps.any (Ledger.isOpenStep r.stepId)))
          (ds ++ [.asked (r.update time) m.store]) (r.settle time m) := by
  refine forall_congr' fun m => imp_congr_right fun _ => and_congr_right fun _ => ?_
  rw [Statement.on, if_pos hterm]
  exact .rfl

theorem meets_complete {id : String} {time : Instant} {post : Post Bool} :
    (query (.complete id time)).Meets R may post ds l ↔
      ∀ m, R l m → may (.complete id time) m ∧
        post (.ok (m.transfers.any (Ledger.isOpenTransfer id)))
          (ds ++ [.asked (.complete id time) m.store]) (m.stamp id time) :=
  .rfl

end Statements

end Procedure

namespace Service

open Procedure

variable {α : Type} {R : Ledger → Ledger → Prop} {op : Operation} {timeouts : Timeouts}
  {ds : List Deed} {l : Ledger}

/-! ### Parts of operations -/

theorem meets_require {id : String} {post : Post Transfer} :
    (require id).Meets R (op.May timeouts) post ds l ↔
      ∀ m, R l m → post ((m.transfer? id).elim (.error (.failed (.noSuchTransfer id))) .ok)
        (ds ++ [.asked (.findTransfer id) m.store]) m := by
  simp only [require, meets_bind, meets_findTransfer, meets_ofOption]

theorem meets_derive {t : Transfer} {steps : List Step} {now : Instant} {post : Post State} :
    (derive t steps now).Meets R (op.May timeouts) post ds l ↔
      post ((t.state steps now).mapError .overflow) ds l :=
  meets_ofExcept

theorem meets_report {entry : Instant → Audit.Entry} {post : Post Unit} :
    (report entry).Meets R (op.May timeouts) post ds l ↔
      ∀ t : Instant, t.Keepable → post (.ok ()) (ds ++ [.read t, .noted (entry t)]) l := by
  simp only [report, meets_bind, meets_now, meets_note, List.append_assoc, List.singleton_append]

/-- The entry that says why a decision was turned down. -/
def refusal (step : Step) (actor : Actor) (why : Error) (t : Instant) : Audit.Entry :=
  { timestamp := t, event := .decisionRefused, transferId := some step.transferId,
    stepId := some step.id, type := some step.type, actor := some actor.identity,
    reason := some why.text }

theorem meets_refuse {step : Step} {actor : Actor} {why : Error} {post : Post α} :
    (refuse step actor why).Meets R (op.May timeouts) post ds l ↔
      ∀ t : Instant, t.Keepable →
        post (.error (.failed why)) (ds ++ [.read t, .noted (refusal step actor why t)]) l := by
  simp only [refuse, meets_bind, meets_report, meets_fail, refusal]

end Service

end SignOff
