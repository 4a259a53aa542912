/-
  SignOff/Proofs/Workflow/Calls.lean
  ==================================
  **Commands as calls.**  A command makes one call of the workflow or a few, each with what the
  one before it has answered, and shows the last answer (`Command.calls`).  Carried out, calls
  are made until one fails, each with the readings of the clock that the one before it has left.
  A failure decides the answer, and the trail takes what they have noted
  (`Calls.runAlong_made`).

  A call writes before it notes anything.  On a store that must not be changed it therefore
  takes the same turn as elsewhere, or it halts at its write and leaves nothing behind
  (`Call.Made.cases`).
-/
import SignOff.Program
import SignOff.Proofs.AuditIndifference
import SignOff.Proofs.AuditMirror

namespace SignOff

open Audit

/-- An answer as it is shown. -/
def Answer.toJson : Answer → Json
  | .transfer t => t.toJson
  | .plan p => p.toJson
  | .step x => x.toJson
  | .decision d => d.toJson
  | .status s => s.toJson
  | .statuses l => Service.statusesJson l
  | .steps l => Service.stepsJson l
  | .state s => .str s.name

/-- Calls that are made one after the other, and what is shown in the end. -/
inductive Calls where
  | shown (j : Json)
  | call (op : Operation) (next : Answer → Calls)

namespace Calls

def last (op : Operation) : Calls := .call op fun y => .shown y.toJson

def procedure (svc : Service) : Calls → Procedure Json
  | .shown j => pure j
  | .call op next => do (next (← op.procedure svc)).procedure svc

def All (P : Operation → Prop) : Calls → Prop
  | .shown _ => True
  | .call op next => P op ∧ ∀ y, (next y).All P

end Calls

namespace CommandLine.Command

/-- The calls that a command makes. -/
def calls (ids : FreshIds) : Command → Calls
  | .initiate proposal planned =>
    .call (.initiate ids.transfer proposal none) fun
      | .transfer t =>
        if planned || t.needsNothing then .call (.plan ids.step t) fun _ => .last (.status t.id)
        else .last (.status t.id)
      | y => .shown y.toJson
  | .plan transfer =>
    .call (.status transfer) fun
      | .status s => .last (.plan ids.step s.transfer)
      | y => .shown y.toJson
  | .approve step notes actor => .last (.approve step actor.actor notes)
  | .reject step notes actor => .last (.reject step actor.actor notes)
  | .status transfer => .last (.status transfer)
  | .history license => .last (.history license)
  | .pending actor => .last (.pending actor.actor)
  | .complete transfer => .last (.complete transfer)

/-- What is decided, if the command is a decision. -/
def ruling? : Command → Option Ruling
  | .approve step notes actor => some ⟨step, actor.actor, .approved, notes⟩
  | .reject step notes actor => some ⟨step, actor.actor, .rejected, notes⟩
  | _ => none

variable {svc : Service} {ids : FreshIds}

/-- **A command is the calls that it makes.** -/
theorem procedure_eq_calls (c : Command) :
    c.procedure svc ids = (c.calls ids).procedure svc := by
  cases c with
  | initiate proposal planned =>
    simp only [procedure, calls, Calls.procedure, Operation.procedure, bind_assoc, pure_bind]
    refine congrArg _ (funext fun t => ?_)
    split
    · simp [Calls.last, Calls.procedure, Operation.procedure, Answer.toJson]
    · simp [Calls.last, Calls.procedure, Operation.procedure, Answer.toJson]
  | _ => simp [procedure, calls, Calls.last, Calls.procedure, Operation.procedure, Answer.toJson]

/-- A decision is one call. -/
theorem calls_of_ruling {c : Command} {r : Ruling} (h : c.ruling? = some r) (ids : FreshIds) :
    ∃ op : Operation, op.ruling? = some r ∧ c.calls ids = .last op := by
  cases c with
  | approve step notes actor => exact ⟨.approve step actor.actor notes, h, rfl⟩
  | reject step notes actor => exact ⟨.reject step actor.actor notes, h, rfl⟩
  | _ => cases h

/-- The operation decides what the command does, and completes what it completes. -/
def Serves (c : Command) (op : Operation) : Prop :=
  op.ruling? = c.ruling? ∧ ∀ id, op = .complete id → c = .complete id

theorem calls_serve (c : Command) : (c.calls ids).All c.Serves := by
  have hlast {op : Operation} (hop : op.ruling? = c.ruling?)
      (hcomplete : ∀ id, op = .complete id → c = .complete id) :
      (Calls.last op).All c.Serves :=
    ⟨⟨hop, hcomplete⟩, fun _ => trivial⟩
  cases c with
  | initiate proposal planned =>
    refine ⟨⟨rfl, nofun⟩, fun y => ?_⟩
    cases y with
    | transfer t =>
      dsimp only
      split
      · exact ⟨⟨rfl, nofun⟩, fun _ => hlast rfl nofun⟩
      · exact hlast rfl nofun
    | _ => trivial
  | plan transfer =>
    refine ⟨⟨rfl, nofun⟩, fun y => ?_⟩
    cases y with
    | status s => exact hlast rfl nofun
    | _ => trivial
  | complete transfer =>
    refine hlast rfl fun id hid => ?_
    cases hid
    rfl
  | _ => exact hlast rfl nofun

end CommandLine.Command

/-! ### Stores that must not be changed -/

namespace Deed

def Writes : Deed → Prop
  | .asked q _ => q.writes = true
  | _ => False

/-- Nothing is written after the first note. -/
def NotesLast : List Deed → Prop
  | [] => True
  | .noted _ :: ds => ∀ d ∈ ds, ¬d.Writes
  | _ :: ds => NotesLast ds

variable {ds ds' : List Deed}

theorem notesLast_of_unnoted (h : notes ds = []) : NotesLast ds := by
  induction ds with
  | nil => trivial
  | cons d rest ih =>
    cases d with
    | noted e => cases h
    | _ => exact ih h

theorem AllCalm.notesLast_append (h : AllCalm ds) (h' : NotesLast ds') : NotesLast (ds ++ ds') := by
  induction ds with
  | nil => exact h'
  | cons d rest ih =>
    have hrest := ih fun d hd => h d (List.mem_cons_of_mem _ hd)
    cases d with
    | noted e => exact (h _ List.mem_cons_self).elim
    | _ => exact hrest

theorem NotesLast.unnoted {q : Statement} {s : Store} (hq : q.writes = true)
    (h : NotesLast (ds ++ .asked q s :: ds')) : notes ds = [] := by
  induction ds with
  | nil => rfl
  | cons d rest ih =>
    cases d with
    | noted e => exact (h (.asked q s) (by simp) hq).elim
    | _ => exact ih h

end Deed

/-- **A call has written before it notes anything.** -/
theorem Operation.Account.notesLast {svc : Service} {op : Operation} {a : Except Halt Answer}
    {ds : List Deed} (h : op.Account svc a ds) : Deed.NotesLast ds := by
  cases h.task with
  | needless ends idle =>
    rw [idle]
    trivial
  | inserts ends told changes noted =>
    cases told with
    | failed fails => exact (Deed.allCalm_reads _).notesLast_append trivial
    | inserted runs => exact (Deed.allCalm_reads _).notesLast_append (by simp [Deed.NotesLast])
  | decides ruling ends told =>
    cases told with
    | broken unnoted broke => exact Deed.notesLast_of_unnoted unnoted
    | unknown unnoted kind => exact Deed.notesLast_of_unnoted unnoted
    | unchecked calm => exact Deed.notesLast_of_unnoted calm.notes
    | refused found calm kind => exact calm.notesLast_append (by simp [Deed.NotesLast])
    | late found calm lost => exact calm.notesLast_append (by simp [Deed.NotesLast])
    | unshown found calm won reread state => exact calm.notesLast_append (by simp [Deed.NotesLast])
    | shown found calm won reread state again =>
      exact calm.notesLast_append (by simp [Deed.NotesLast])
  | completes completion ends told =>
    cases told with
    | broken calm broke => exact Deed.notesLast_of_unnoted calm.notes
    | unstamped calm kind => exact Deed.notesLast_of_unnoted calm.notes
    | late calm closed => exact calm.notesLast_append (by simp [Deed.NotesLast])
    | stamped calm stamped lookedUp =>
      exact calm.notesLast_append (by simp [Deed.NotesLast, Deed.Writes, Statement.writes])
  | glances told => exact Deed.notesLast_of_unnoted told.calm.notes

namespace Procedure

variable {α β σ : Type} {p : Procedure α} {ds : List Deed}

/-- A procedure that only reads is let go on. -/
theorem Keeps.onlyReading_eq {post : α → Prop} (h : p.Keeps .readOnly post) :
    p.onlyReading = p := by
  induction p with
  | done a => rfl
  | halt why => rfl
  | ask q next ih =>
    have hreads : q.writes = false := h.1
    rw [onlyReading, hreads]
    exact congrArg (ask q) (funext fun r => ih r (h.2 r trivial))
  | clock next ih => exact congrArg clock (funext fun t => ih t (h t trivial))
  | record e next ih => exact congrArg (record e) (funext fun kept => ih kept (h kept))
  | consult next ih => exact congrArg consult (ih h)

/-- The procedure, as it is carried out on a store that may be written or not. -/
def asAllowed (writable : Bool) (p : Procedure α) : Procedure α :=
  if writable then p else p.onlyReading

theorem onlyReading_bind (p : Procedure α) (f : α → Procedure β) :
    (p >>= f).onlyReading = p.onlyReading >>= fun a => (f a).onlyReading := by
  induction p with
  | done a => rfl
  | halt why => rfl
  | ask q next ih =>
    have hask : ask q next >>= f = .ask q fun r => next r >>= f := rfl
    rw [hask, onlyReading, onlyReading]
    cases q.writes with
    | true => rfl
    | false => exact congrArg (ask q) (funext ih)
  | clock next ih => exact congrArg clock (funext ih)
  | record e next ih => exact congrArg (record e) (funext ih)
  | consult next ih => exact congrArg consult ih

theorem asAllowed_bind (writable : Bool) (p : Procedure α) (f : α → Procedure β) :
    (p >>= f).asAllowed writable = p.asAllowed writable >>= fun a => (f a).asAllowed writable := by
  cases writable with
  | true => rfl
  | false => exact onlyReading_bind p f

theorem Heedless.onlyReading (h : p.Heedless) : p.onlyReading.Heedless := by
  induction p with
  | done a => trivial
  | halt why => trivial
  | ask q next ih =>
    rw [Procedure.onlyReading]
    split
    · trivial
    · exact fun r => ih r (h r)
  | clock next ih => exact fun t => ih t (h t)
  | record e next ih => exact ⟨congrArg Procedure.onlyReading h.1, ih true h.2⟩
  | consult next ih => exact ih h

theorem Heedless.asAllowed (h : p.Heedless) (writable : Bool) :
    (p.asAllowed writable).Heedless := by
  cases writable with
  | true => exact h
  | false => exact h.onlyReading

/-- Whatever is told of a procedure, it has an end. -/
theorem Tells.exists_end {tale : Account α} (h : p.Tells tale ds) (clock : Instant) (s : Store) :
    ∃ a more, tale a (ds ++ more) := by
  induction p generalizing ds with
  | done a => exact ⟨.ok a, [], by rwa [List.append_nil]⟩
  | halt why => exact ⟨.error why, [], by rwa [List.append_nil]⟩
  | ask q next ih =>
    have hs := h s
    cases hr : q.run s with
    | error why =>
      rw [hr] at hs
      exact ⟨_, _, hs⟩
    | ok r =>
      rw [hr] at hs
      obtain ⟨a, more, htale⟩ := ih r.1 hs
      exact ⟨a, _, by rwa [List.append_assoc] at htale⟩
  | clock next ih =>
    obtain ⟨a, more, htale⟩ := ih clock (h clock)
    exact ⟨a, _, by rwa [List.append_assoc] at htale⟩
  | record e next ih =>
    obtain ⟨a, more, htale⟩ := ih true (h true)
    exact ⟨a, _, by rwa [List.append_assoc] at htale⟩
  | consult next ih => exact ih h

/-- **Where nothing may be written**, a procedure that writes before it notes ends as it does
    elsewhere, or halts at its write without having noted anything. -/
theorem Tells.runAlong_onlyReading {tale : Account α} (h : p.Tells tale ds)
    (htale : ∀ a ds, tale a ds → Deed.NotesLast ds) (trail : Trail σ) (readings : Nat → Instant)
    (s : Store) (w : σ) :
    p.onlyReading.runAlong trail readings s w = p.runAlong trail readings s w ∨
      p.onlyReading.runAlong trail readings s w = ⟨.error (.failed (.noStore .readOnly)), s, w⟩ ∧
        Deed.notes ds = [] := by
  induction p generalizing ds readings w with
  | done a => exact .inl rfl
  | halt why => exact .inl rfl
  | ask q next ih =>
    have hs := h s
    rw [onlyReading]
    cases hq : q.writes with
    | true =>
      refine .inr ⟨rfl, ?_⟩
      cases hr : q.run s with
      | error why =>
        rw [hr] at hs
        exact (htale _ _ hs).unnoted hq
      | ok r =>
        rw [hr] at hs
        obtain ⟨a, more, hend⟩ := Tells.exists_end hs (readings 0) s
        rw [List.append_assoc] at hend
        exact (htale _ _ hend).unnoted hq
    | false =>
      simp only [Bool.false_eq_true, if_false, Procedure.runAlong]
      cases hr : q.run s with
      | error why => exact .inl rfl
      | ok r =>
        rw [hr] at hs
        obtain ⟨reply, after⟩ := r
        obtain rfl : after = s := Statement.store_of_run hr hq
        rcases ih reply hs readings w with hsame | ⟨hends, hnone⟩
        · exact .inl hsame
        · exact .inr ⟨hends, by simpa [Deed.notes_append] using hnone⟩
  | clock next ih =>
    rcases ih (readings 0) (h (readings 0)) (fun k => readings (k + 1)) w with
      hsame | ⟨hends, hnone⟩
    · exact .inl hsame
    · exact .inr ⟨hends, by simpa [Deed.notes_append] using hnone⟩
  | record e next ih =>
    -- something is noted, so that nothing is written any more
    rcases ih (trail.write e w).1 (h _) readings (trail.write e w).2 with hsame | ⟨-, hnone⟩
    · exact .inl hsame
    · simp [Deed.notes_append] at hnone
  | consult next ih => exact ih h readings w

end Procedure

/-! ### Carrying calls out -/

/-- A call that has been made: with which readings of the clock, on which store, and how it has
    ended. -/
structure Call where
  op : Operation
  readings : Nat → Instant
  before : Store
  ending : Procedure.Ending Answer (List Entry)

def Call.turn (c : Call) : Turn :=
  ⟨c.op, c.readings, c.before, c.ending.answer, c.ending.store⟩

/-- The call is its operation, carried out as the store allows it. -/
structure Call.Made (svc : Service) (writable : Bool) (c : Call) : Prop where
  keyed : c.before.Keyed
  keepable : ∀ k, (c.readings k).Keepable
  ending : ((c.op.procedure svc).asAllowed writable).runAlong .recorder c.readings c.before [] =
    c.ending

/-- The calls that are made on the store until one fails, each with the readings of the clock that
    are left. -/
def Calls.made (svc : Service) (writable : Bool) : Calls → (Nat → Instant) → Store → List Call
  | .shown _, _, _ => []
  | .call op next, readings, s =>
    let p := (op.procedure svc).asAllowed writable
    let e := p.runAlong .recorder readings s []
    ⟨op, readings, s, e⟩ ::
      match e.answer with
      | .ok y => (next y).made svc writable (p.readingsLeft .recorder readings s []) e.store
      | .error _ => []

variable {svc : Service} {writable : Bool} {readings : Nat → Instant} {s : Store}

theorem Calls.made_last (svc : Service) (writable : Bool) (readings : Nat → Instant)
    (op : Operation) (s : Store) : (Calls.last op).made svc writable readings s =
      [⟨op, readings, s,
        ((op.procedure svc).asAllowed writable).runAlong .recorder readings s []⟩] := by
  rw [last, made]
  cases (((op.procedure svc).asAllowed writable).runAlong .recorder readings s []).answer <;> rfl

theorem Calls.All.made {P : Operation → Prop} {cs : Calls} (h : cs.All P) {c : Call}
    (hc : c ∈ cs.made svc writable readings s) : P c.op := by
  induction cs generalizing readings s with
  | shown j => cases hc
  | call op next ih =>
    rw [Calls.made] at hc
    rcases List.mem_cons.mp hc with rfl | hc
    · exact h.1
    · split at hc
      · next y _ => exact ih y (h.2 y) hc
      · cases hc

/-- All looks at the clock are made at one reading after the other. -/
theorem Calls.readings_made (cs : Calls) {c : Call} (hc : c ∈ cs.made svc writable readings s) :
    ∃ n, c.readings = fun k => readings (n + k) := by
  induction cs generalizing readings s with
  | shown j => cases hc
  | call op next ih =>
    rw [made] at hc
    rcases List.mem_cons.mp hc with rfl | hc
    · exact ⟨0, by simp⟩
    · split at hc
      · next y _ =>
        obtain ⟨n, hn⟩ := ih y hc
        obtain ⟨m, hm⟩ := ((op.procedure svc).asAllowed writable).exists_readingsLeft .recorder
          readings s []
        exact ⟨m + n, by simp only [hn, hm, Nat.add_assoc]⟩
      · cases hc

namespace Procedure

variable {α σ : Type} {p : Procedure α}

/-- What a heedless procedure does to any trail is what it records. -/
theorem Heedless.runAlong_recorder (h : p.Heedless) (trail : Trail σ) (readings : Nat → Instant)
    (s : Store) (w : σ) :
    p.runAlong trail readings s w =
      ⟨(p.runAlong .recorder readings s []).answer, (p.runAlong .recorder readings s []).store,
        trail.take w (p.runAlong .recorder readings s []).trail⟩ := by
  induction p generalizing readings s w with
  | done a => rfl
  | halt why => rfl
  | ask q next ih =>
    simp only [runAlong]
    cases q.run s with
    | error why => rfl
    | ok r => exact ih r.1 (h r.1) readings r.2 w
  | clock next ih => exact ih _ (h _) _ s w
  | record e next ih =>
    have hnext := h.next_eq (trail.write e w).1
    have hrecorded := Procedure.runAlong_recorder (next true) readings s [e]
    have hwrite : Trail.recorder.write e [] = (true, [e]) := rfl
    simp only [runAlong, hnext, hwrite, ih true h.2 readings s (trail.write e w).2]
    rw [hrecorded]
    rfl
  | consult next ih => exact ih h readings s w

/-- How often a heedless procedure looks at the clock does not depend on the trail. -/
theorem Heedless.readingsLeft_recorder (h : p.Heedless) (trail : Trail σ)
    (readings : Nat → Instant) (s : Store) (w : σ) (es : List Entry) :
    p.readingsLeft trail readings s w = p.readingsLeft .recorder readings s es := by
  induction p generalizing readings s w es with
  | done a => rfl
  | halt why => rfl
  | ask q next ih =>
    simp only [readingsLeft]
    cases q.run s with
    | error why => rfl
    | ok r => exact ih r.1 (h r.1) readings r.2 w es
  | clock next ih => exact ih _ (h _) _ s w es
  | record e next ih =>
    simp only [readingsLeft, h.next_eq]
    exact ih true h.2 readings s _ _
  | consult next ih => exact ih h readings s w es

theorem keyed_runAlong {trail : Trail σ} (h : s.Keyed) (readings : Nat → Instant) (w : σ) :
    (p.runAlong trail readings s w).store.Keyed := by
  induction p generalizing readings s w with
  | done a => exact h
  | halt why => exact h
  | ask q next ih =>
    rw [runAlong]
    cases hr : q.run s with
    | error why => exact h
    | ok r => exact ih r.1 (h.run hr) readings w
  | clock next ih => exact ih _ h _ w
  | record e next ih => exact ih _ h readings _
  | consult next ih => exact ih h readings w

end Procedure

/-- A call that has been made has taken its turn, unless the store did not let it write. -/
theorem Call.Made.cases {c : Call} (h : c.Made svc writable) :
    c.turn.Stands svc ∧ c.turn.entries svc = c.ending.trail ∨
      writable = false ∧ c.ending = ⟨.error (.failed (.noStore .readOnly)), c.before, []⟩ := by
  have hstands (hsame : (c.op.procedure svc).runAlong .recorder c.readings c.before [] = c.ending) :
      c.turn.Stands svc ∧ c.turn.entries svc = c.ending.trail := by
    have hentries : c.turn.entries svc = c.ending.trail := congrArg (·.trail) hsame
    refine ⟨⟨h.keyed, h.keepable, ?_⟩, hentries⟩
    rw [hentries]
    exact hsame
  cases writable with
  | true => exact .inl (hstands h.ending)
  | false =>
    rcases Procedure.Tells.runAlong_onlyReading c.op.tells (fun _ _ => Operation.Account.notesLast)
      .recorder c.readings c.before [] with hsame | ⟨hends, -⟩
    · exact .inl (hstands (hsame.symm.trans h.ending))
    · exact .inr ⟨rfl, h.ending.symm.trans hends⟩

/-- **Calls are made until one fails**, which decides the answer.  The store is what it was if
    none of them has changed it, and the trail takes what all of them have noted. -/
theorem Calls.runAlong_made {σ : Type} (cs : Calls) (hs : s.Keyed)
    (hkeep : ∀ k, (readings k).Keepable) (trail : Trail σ) (w : σ)
    {e : Procedure.Ending Json σ}
    (he : ((cs.procedure svc).asAllowed writable).runAlong trail readings s w = e) :
    (∀ c ∈ cs.made svc writable readings s, c.Made svc writable) ∧
    (∀ why, e.answer = .error why ↔
      ∃ c ∈ cs.made svc writable readings s, c.ending.answer = .error why) ∧
    ((∀ c ∈ cs.made svc writable readings s, c.ending.store = c.before) → e.store = s) ∧
    e.trail = trail.take w ((cs.made svc writable readings s).flatMap fun c => c.ending.trail) := by
  subst he
  induction cs generalizing readings s w with
  | shown j =>
    have hdone : ((pure j : Procedure Json).asAllowed writable).runAlong trail readings s w =
        ⟨.ok j, s, w⟩ := by
      cases writable <;> rfl
    simp [made, procedure, hdone, Trail.take]
  | call op next ih =>
    have hheedless := (op.heedless svc).asAllowed writable
    have hbind : ((op.procedure svc).asAllowed writable >>= fun y =>
        ((next y).procedure svc).asAllowed writable).runAlong trail readings s w = _ :=
      Procedure.runAlong_bind trail _ _ readings s w
    rw [hheedless.runAlong_recorder trail readings s w,
      hheedless.readingsLeft_recorder trail readings s w []] at hbind
    have hkeyed :
        (((op.procedure svc).asAllowed writable).runAlong .recorder readings s []).store.Keyed :=
      Procedure.keyed_runAlong hs _ _
    have hleft := ((op.procedure svc).asAllowed writable).forall_readingsLeft .recorder hkeep s []
    have hmade : Call.Made svc writable ⟨op, readings, s,
        ((op.procedure svc).asAllowed writable).runAlong .recorder readings s []⟩ :=
      ⟨hs, hkeep, rfl⟩
    rw [procedure, Procedure.asAllowed_bind, made]
    generalize ((op.procedure svc).asAllowed writable).runAlong .recorder readings s [] = e at *
    cases he : e.answer with
    | error why =>
      rw [he] at hbind
      simp [hbind, hmade, he]
    | ok y =>
      rw [he] at hbind
      obtain ⟨hrest, hanswer, hstore, htrail⟩ := ih y hkeyed hleft (trail.take w e.trail)
      simp only [hbind, hanswer, htrail, List.flatMap_cons, Trail.take_append, and_true]
      refine ⟨?_, ?_, ?_⟩
      · intro c hc
        rcases List.mem_cons.mp hc with rfl | hc
        · exact hmade
        · exact hrest c hc
      · simp [he]
      · intro hsame
        have hfirst : e.store = s := hsame _ List.mem_cons_self
        rw [hstore fun c hc => hsame c (List.mem_cons_of_mem _ hc), hfirst]

end SignOff
