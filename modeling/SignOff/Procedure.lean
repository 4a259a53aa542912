/-
  SignOff/Procedure.lean
  ======================
  **Procedures.**  An operation of the service is a procedure: a tree of the things it does
  one after the other.  It reads the clock, runs statements on the store, hands entries to
  the audit trail, and ends with an answer or halts.  Between two of these anyone else may
  use the store, so that what a procedure knows from one statement need not hold at the
  next.  `consult` marks the moment at which an actor is asked about its licenses or
  permissions, which is when an account outside the store may do something on its own.

  `Procedure.runAlong` carries a procedure out alone, and each look at the clock takes the
  next reading.  By `runAlong_bind` a sequence is carried out part by part, with the readings
  that are left, and nothing is done after a part that halted.  While the clock stands still
  this is `Procedure.run`.  On a store that must not be changed, `onlyReading` halts a
  procedure at its first write, so that the store stays as it is
  (`store_runAlong_onlyReading`).
-/
import SignOff.Store.Basic
import SignOff.Audit.Trail

namespace SignOff

open Audit

/-- What an operation does, with the answer of each thing passed on to what follows. -/
inductive Procedure (α : Type) : Type where
  | done (answer : α)
  | halt (why : Halt)
  | ask (q : Statement) (next : q.Reply → Procedure α)
  | clock (next : Instant → Procedure α)
  /-- the trail answers whether it has kept the entry -/
  | record (e : Entry) (next : Bool → Procedure α)
  | consult (next : Procedure α)

namespace Procedure

variable {α β γ : Type}

def bind : Procedure α → (α → Procedure β) → Procedure β
  | .done a, f => f a
  | .halt why, _ => .halt why
  | .ask q next, f => .ask q fun r => (next r).bind f
  | .clock next, f => .clock fun t => (next t).bind f
  | .record e next, f => .record e fun kept => (next kept).bind f
  | .consult next, f => .consult (next.bind f)

instance : Monad Procedure where
  pure := .done
  bind := bind

theorem bind_done (p : Procedure α) : p.bind .done = p := by
  induction p with
  | done a => rfl
  | halt why => rfl
  | ask q next ih => simp only [bind]; congr; funext r; exact ih r
  | clock next ih => simp only [bind]; congr; funext t; exact ih t
  | record e next ih => simp only [bind]; congr; funext kept; exact ih kept
  | consult next ih => simp only [bind, ih]

theorem bind_bind (p : Procedure α) (f : α → Procedure β) (g : β → Procedure γ) :
    (p.bind f).bind g = p.bind fun a => (f a).bind g := by
  induction p with
  | done a => rfl
  | halt why => rfl
  | ask q next ih => simp only [bind]; congr; funext r; exact ih r
  | clock next ih => simp only [bind]; congr; funext t; exact ih t
  | record e next ih => simp only [bind]; congr; funext kept; exact ih kept
  | consult next ih => simp only [bind, ih]

instance : LawfulMonad Procedure :=
  LawfulMonad.mk' Procedure bind_done (fun _ _ => rfl) bind_bind

def fail (why : Error) : Procedure α := .halt (.failed why)

def query (q : Statement) : Procedure q.Reply := .ask q .done

def now : Procedure Instant := .clock .done

/-- Hand an entry to the audit trail.  Whether the trail keeps it makes no difference. -/
def note (e : Entry) : Procedure Unit := .record e fun _ => .done ()

def asking : Procedure Unit := .consult (.done ())

/-- Make every value at its own reading of the clock, one after the other. -/
def makeEach : List (Instant → α) → Procedure (List α)
  | [] => return []
  | make :: rest => do
    let made := make (← now)
    return made :: (← makeEach rest)

/-- A value that may have overflowed. -/
def ofExcept : Except Overflow α → Procedure α
  | .ok a => .done a
  | .error why => .halt (.overflow why)

/-- A value that must be there. -/
def ofOption (missing : Error) : Option α → Procedure α
  | some a => .done a
  | none => fail missing

/-- The procedure on a store that must not be changed: it halts instead of writing. -/
def onlyReading : Procedure α → Procedure α
  | .done a => .done a
  | .halt why => .halt why
  | .ask q next =>
    if q.writes then fail (.noStore .readOnly) else .ask q fun r => (next r).onlyReading
  | .clock next => .clock fun t => (next t).onlyReading
  | .record e next => .record e fun kept => (next kept).onlyReading
  | .consult next => .consult next.onlyReading

/-! ### Carrying a procedure out -/

/-- How a procedure ended, with the store and the trail it left behind. -/
structure Ending (α σ : Type) where
  answer : Except Halt α
  store : Store
  trail : σ

/-- What someone else does to the store while an actor is asked: a statement, whose answer
    and failure are no one's concern. -/
def meanwhile (other : Option Statement) (s : Store) : Store :=
  match other with
  | none => s
  | some q =>
    match q.run s with
    | .ok (_, s) => s
    | .error _ => s

/-- Carry the procedure out at one reading of the clock.  The first time an actor is asked,
    the statement of another party, if there is one, is run. -/
def runWith {σ : Type} (t : Trail σ) (clock : Instant) :
    Procedure α → Option Statement → Store → σ → Ending α σ
  | .done a, _, s, w => ⟨.ok a, s, w⟩
  | .halt why, _, s, w => ⟨.error why, s, w⟩
  | .ask q next, other, s, w =>
    match q.run s with
    | .ok (r, s) => (next r).runWith t clock other s w
    | .error why => ⟨.error (.failed why), s, w⟩
  | .clock next, other, s, w => (next clock).runWith t clock other s w
  | .record e next, other, s, w =>
    (next (t.write e w).1).runWith t clock other s (t.write e w).2
  | .consult next, other, s, w => next.runWith t clock none (meanwhile other s) w

/-- Carry the procedure out alone. -/
def run {σ : Type} (t : Trail σ) (clock : Instant) (p : Procedure α) (s : Store) (w : σ) :
    Ending α σ :=
  p.runWith t clock none s w

/-- Carry the procedure out alone.  Each look at the clock takes the next reading. -/
def runAlong {σ : Type} (t : Trail σ) : Procedure α → (Nat → Instant) → Store → σ → Ending α σ
  | .done a, _, s, w => ⟨.ok a, s, w⟩
  | .halt why, _, s, w => ⟨.error why, s, w⟩
  | .ask q next, readings, s, w =>
    match q.run s with
    | .ok (r, s) => (next r).runAlong t readings s w
    | .error why => ⟨.error (.failed why), s, w⟩
  | .clock next, readings, s, w =>
    (next (readings 0)).runAlong t (fun k => readings (k + 1)) s w
  | .record e next, readings, s, w => (next (t.write e w).1).runAlong t readings s (t.write e w).2
  | .consult next, readings, s, w => next.runAlong t readings s w

/-- The readings that are left when the procedure has been carried out alone. -/
def readingsLeft {σ : Type} (t : Trail σ) :
    Procedure α → (Nat → Instant) → Store → σ → Nat → Instant
  | .done _, readings, _, _ => readings
  | .halt _, readings, _, _ => readings
  | .ask q next, readings, s, w =>
    match q.run s with
    | .ok (r, s) => (next r).readingsLeft t readings s w
    | .error _ => readings
  | .clock next, readings, s, w =>
    (next (readings 0)).readingsLeft t (fun k => readings (k + 1)) s w
  | .record e next, readings, s, w =>
    (next (t.write e w).1).readingsLeft t readings s (t.write e w).2
  | .consult next, readings, s, w => next.readingsLeft t readings s w

variable {σ : Type} (t : Trail σ)

/-- While the clock stands still, this is how procedures are run. -/
theorem runAlong_const (p : Procedure α) (time : Instant) (s : Store) (w : σ) :
    p.runAlong t (fun _ => time) s w = p.run t time s w := by
  induction p generalizing s w with
  | done a => rfl
  | halt why => rfl
  | ask q next ih =>
    simp only [runAlong, run, runWith]
    cases q.run s with
    | error why => rfl
    | ok r => exact ih r.1 r.2 w
  | clock next ih => exact ih time s w
  | record e next ih => exact ih _ s _
  | consult next ih => exact ih s w

/-- Of two procedures the second goes on where the first one ended, unless that one halted. -/
theorem runAlong_bind (p : Procedure α) (f : α → Procedure β) (readings : Nat → Instant)
    (s : Store) (w : σ) :
    (p >>= f).runAlong t readings s w =
      match (p.runAlong t readings s w).answer with
      | .ok a => (f a).runAlong t (p.readingsLeft t readings s w)
          (p.runAlong t readings s w).store (p.runAlong t readings s w).trail
      | .error why =>
        ⟨.error why, (p.runAlong t readings s w).store, (p.runAlong t readings s w).trail⟩ := by
  induction p generalizing readings s w with
  | done a => rfl
  | halt why => rfl
  | ask q next ih =>
    have hask : ask q next >>= f = .ask q fun r => next r >>= f := rfl
    rw [hask]
    simp only [runAlong, readingsLeft]
    cases q.run s with
    | error why => rfl
    | ok r => exact ih r.1 readings r.2 w
  | clock next ih => exact ih (readings 0) _ s w
  | record e next ih => exact ih _ readings s _
  | consult next ih => exact ih readings s w

/-- What is left of the readings is what comes after the first few. -/
theorem exists_readingsLeft (p : Procedure α) (readings : Nat → Instant) (s : Store) (w : σ) :
    ∃ n, p.readingsLeft t readings s w = fun k => readings (n + k) := by
  induction p generalizing readings s w with
  | done a => exact ⟨0, by simp [readingsLeft]⟩
  | halt why => exact ⟨0, by simp [readingsLeft]⟩
  | ask q next ih =>
    simp only [readingsLeft]
    cases q.run s with
    | error why => exact ⟨0, by simp⟩
    | ok r => exact ih r.1 readings r.2 w
  | clock next ih =>
    obtain ⟨n, hn⟩ := ih (readings 0) (fun k => readings (k + 1)) s w
    exact ⟨n + 1, by simp only [readingsLeft, hn, Nat.add_right_comm]⟩
  | record e next ih => exact ih _ readings s _
  | consult next ih => exact ih readings s w

theorem forall_readingsLeft {P : Instant → Prop} (p : Procedure α) {readings : Nat → Instant}
    (h : ∀ k, P (readings k)) (s : Store) (w : σ) (k : Nat) :
    P (p.readingsLeft t readings s w k) := by
  obtain ⟨n, hn⟩ := p.exists_readingsLeft t readings s w
  rw [hn]
  exact h (n + k)

/-- A procedure that only reads leaves the store as it is. -/
theorem store_runAlong_onlyReading (p : Procedure α) (readings : Nat → Instant) (s : Store)
    (w : σ) : (p.onlyReading.runAlong t readings s w).store = s := by
  induction p generalizing readings w with
  | done a => rfl
  | halt why => rfl
  | ask q next ih =>
    cases hq : q.writes with
    | true => simp [onlyReading, hq, fail, runAlong]
    | false =>
      simp only [onlyReading, hq, Bool.false_eq_true, if_false, runAlong]
      cases hr : q.run s with
      | error why => rfl
      | ok r =>
        obtain ⟨reply, after⟩ := r
        obtain rfl : after = s := Statement.store_of_run hr hq
        exact ih reply readings w
  | clock next ih => exact ih _ _ w
  | record e next ih => exact ih _ readings _
  | consult next ih => exact ih readings w

end Procedure

end SignOff
