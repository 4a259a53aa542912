/-
  SignOff/Proofs/Workflow/Run.lean
  ================================
  **Runs, one call after the other.**  A `Run` begins with the empty store and makes any calls
  in any order; each is carried out alone, with a reading of its own wherever it looks at
  the clock (`Procedure.runAlong`), and may be handed a transfer that an earlier answer
  showed.  Every call leaves a `Turn` behind.

  `Run.history` tells the run again in ledgers: every turn took one coherent ledger to the
  next, and ended as its operation promises when it is alone (`Turn.Takes`).  What holds of
  runs is proved along a `History`.
-/
import SignOff.Proofs.Workflow.Ending

namespace SignOff

open Audit

namespace Procedure

variable {α σ : Type}

/-- Carried out alone, a procedure ends as its contract says. -/
theorem Meets.runAlong {may : Statement → Ledger → Prop} {timeouts : Timeouts} {post : Post α}
    {p : Procedure α} {ds : List Deed} {l : Ledger} (h : p.Meets Eq may post ds l)
    (hmay : ∀ {q m}, may q m → q.Admissible timeouts m) (hl : l.Coherent timeouts)
    {readings : Nat → Instant} (hkeep : ∀ k, (readings k).Keepable) (t : Trail σ) (w : σ) :
    ∃ ds' m, (p.runAlong t readings l.store w).store = m.store ∧
      post (p.runAlong t readings l.store w).answer ds' m ∧
      ∀ time, .read time ∈ ds' → .read time ∈ ds ∨ ∃ k, readings k = time := by
  induction p generalizing ds l readings w with
  | done a => exact ⟨ds, l, rfl, h, fun _ ht => .inl ht⟩
  | halt why => exact ⟨ds, l, rfl, h, fun _ ht => .inl ht⟩
  | ask q next ih =>
    obtain ⟨hq, hrest⟩ := h l rfl
    simp only [Procedure.runAlong, Statement.run_store hl.legible]
    cases hr : q.on l with
    | error why =>
      rw [hr] at hrest
      refine ⟨_, l, rfl, hrest, fun time ht => .inl ?_⟩
      simpa using ht
    | ok r =>
      rw [hr] at hrest
      obtain ⟨ds', m, hstore, hpost, hread⟩ :=
        ih r.1 hrest (hl.makes (hmay hq) (Statement.makes hr)) hkeep w
      refine ⟨ds', m, hstore, hpost, fun time ht => ?_⟩
      simpa using hread time ht
  | clock next ih =>
    obtain ⟨ds', m, hstore, hpost, hread⟩ :=
      ih (readings 0) (h (readings 0) (hkeep 0)) hl (fun k => hkeep (k + 1)) w
    refine ⟨ds', m, hstore, hpost, fun time ht => ?_⟩
    rcases hread time ht with hd | ⟨k, rfl⟩
    · rcases List.mem_append.mp hd with hd | hd
      · exact .inl hd
      · cases List.mem_singleton.mp hd
        exact .inr ⟨0, rfl⟩
    · exact .inr ⟨k + 1, rfl⟩
  | record e next ih =>
    obtain ⟨ds', m, hstore, hpost, hread⟩ := ih (t.write e w).1 (h _) hl hkeep (t.write e w).2
    refine ⟨ds', m, hstore, hpost, fun time ht => ?_⟩
    simpa using hread time ht
  | consult next ih => exact ih h hl hkeep w

end Procedure

/-- One call of a run: what was called with which readings of the clock, the stores before
    and after it, and the answer. -/
structure Turn where
  op : Operation
  readings : Nat → Instant
  before : Store
  answer : Except Halt Answer
  after : Store

/-- The answer of the call shows the transfer. -/
def Turn.Showed (turn : Turn) (t : Transfer) : Prop :=
  ∃ y, turn.answer = .ok y ∧ t ∈ y.transfers

/-- The calls so far, with the store and the state of the trail that they left. -/
inductive Run (svc : Service) {σ : Type} (trail : Trail σ) : List Turn → Store → σ → Prop
  | start (w : σ) : Run svc trail [] .empty w
  | call {turns : List Turn} {s : Store} {w : σ} {e : Procedure.Ending Answer σ}
      (run : Run svc trail turns s w) (op : Operation) (readings : Nat → Instant)
      (keepable : ∀ k, (readings k).Keepable)
      (shown : ∀ t, op.transfer? = some t → ∃ turn ∈ turns, turn.Showed t)
      (ending : (op.procedure svc).runAlong trail readings s w = e) :
      Run svc trail (turns ++ [⟨op, readings, s, e.answer, e.store⟩]) e.store e.trail

/-! ### Making calls -/

section Playing

variable {svc : Service} {σ : Type} {trail : Trail σ}

instance (turn : Turn) (t : Transfer) : Decidable (turn.Showed t) :=
  match h : turn.answer with
  | .ok y => decidable_of_iff (t ∈ y.transfers) (by simp [Turn.Showed, h])
  | .error _ => .isFalse (by simp [Turn.Showed, h])

/-- Make calls one after the other, each while the clock stands still, as long as none is
    handed a transfer that no answer showed. -/
def play (svc : Service) (trail : Trail σ) :
    List (Operation × Instant) → List Turn → Store → σ → Option (List Turn × Store × σ)
  | [], turns, s, w => some (turns, s, w)
  | (op, time) :: rest, turns, s, w =>
    if time.Keepable ∧ ∀ t ∈ op.transfer?, ∃ turn ∈ turns, turn.Showed t then
      let e := (op.procedure svc).run trail time s w
      play svc trail rest (turns ++ [⟨op, fun _ => time, s, e.answer, e.store⟩]) e.store e.trail
    else none

theorem Run.play {calls : List (Operation × Instant)} {turns : List Turn} {s : Store} {w : σ}
    {r : List Turn × Store × σ} (h : Run svc trail turns s w)
    (hplay : SignOff.play svc trail calls turns s w = some r) : Run svc trail r.1 r.2.1 r.2.2 := by
  induction calls generalizing turns s w with
  | nil =>
    cases hplay
    exact h
  | cons call rest ih =>
    rw [SignOff.play] at hplay
    split at hplay
    · next hfair =>
      exact ih (h.call call.1 (fun _ => call.2) (fun _ => hfair.1) hfair.2
        (Procedure.runAlong_const trail _ call.2 s w)) hplay
    · cases hplay

theorem readings_play {calls : List (Operation × Instant)} {turns : List Turn} {s : Store} {w : σ}
    {r : List Turn × Store × σ} (hplay : play svc trail calls turns s w = some r) :
    (r.1.map fun turn => turn.readings) =
      (turns.map fun turn => turn.readings) ++ calls.map fun call _ => call.2 := by
  induction calls generalizing turns s w with
  | nil =>
    cases hplay
    simp
  | cons call rest ih =>
    rw [play] at hplay
    split at hplay
    · rw [ih hplay]
      simp
    · cases hplay

theorem prefix_play {calls : List (Operation × Instant)} {turns : List Turn} {s : Store} {w : σ}
    {r : List Turn × Store × σ} (hplay : play svc trail calls turns s w = some r) :
    turns <+: r.1 := by
  induction calls generalizing turns s w with
  | nil =>
    cases hplay
    exact List.prefix_refl turns
  | cons call rest ih =>
    rw [play] at hplay
    split at hplay
    · exact (List.prefix_append turns _).trans (ih hplay)
    · cases hplay

end Playing

/-! ### In ledgers -/

/-- New steps may have come, all of them pending; the old ones are as they were. -/
def Ledger.Appends (l m : Ledger) : Prop :=
  ∃ xs : List Step, m.steps = l.steps ++ xs ∧ ∀ x ∈ xs, x.outcome = .pending

namespace Ledger

variable {l m n : Ledger}

theorem Appends.refl (l : Ledger) : l.Appends l := ⟨[], by simp, by simp⟩

theorem Appends.trans (h : l.Appends m) (h' : m.Appends n) : l.Appends n := by
  obtain ⟨xs, hxs, hpx⟩ := h
  obtain ⟨ys, hys, hpy⟩ := h'
  refine ⟨xs ++ ys, by rw [hys, hxs, List.append_assoc], fun x hx => ?_⟩
  rcases List.mem_append.mp hx with hx | hx
  · exact hpx x hx
  · exact hpy x hx

theorem Appends.of_steps_eq (h : m.steps = l.steps) : l.Appends m := ⟨[], by simp [h], by simp⟩

theorem Appends.insertSteps {timeouts : Timeouts} {xs : List Step}
    (hxs : ∀ x ∈ xs, l.Planned timeouts x) (h : l.insertSteps xs = .ok m) : l.Appends m := by
  refine ⟨xs.map Step.asRead, by rw [Ledger.eq_of_insertSteps h], fun y hy => ?_⟩
  obtain ⟨x, hx, rfl⟩ := List.mem_map.mp hy
  obtain ⟨t, -, -, -, hfresh⟩ := hxs x hx
  rw [hfresh]
  rfl

end Ledger

/-- An operation that is no decision decides nothing. -/
theorem Operation.May.appends {op : Operation} {timeouts : Timeouts} {q : Statement} {l m : Ledger}
    (h : op.May timeouts q l) (hop : op.ruling? = none) (hm : q.Makes l m) : l.Appends m := by
  cases hm with
  | reads reads => exact .refl l
  | transfer inserted => exact .of_steps_eq (by rw [(Ledger.eq_of_insertTransfer inserted).2])
  | steps inserted => exact .insertSteps h.admissible inserted
  | stamped => exact .of_steps_eq rfl
  | settled terminal =>
    -- only decisions ask for this statement
    have hw := h.writes rfl
    cases op with
    | approve stepId actor notes => cases hop
    | reject stepId actor notes => cases hop
    | plan ids t => obtain ⟨xs, hxs⟩ := hw; cases hxs
    | createStep id t type actor => obtain ⟨xs, hxs⟩ := hw; cases hxs
    | initiate id p initiator => obtain ⟨t, ht⟩ := hw; cases ht
    | complete id => obtain ⟨t, ht⟩ := hw; cases ht
    | _ => exact hw.elim

/-- The turn took the ledger `l` to the ledger `m`. -/
structure Turn.Takes (svc : Service) (turn : Turn) (l m : Ledger) : Prop where
  before : turn.before = l.store
  after : turn.after = m.store
  evolves : l.Evolves svc.timeouts m
  shows : Operation.Shows turn.answer m
  ends : ∃ ds, turn.op.Ends Eq svc l turn.answer ds m ∧
    ∀ time, .read time ∈ ds → ∃ k, turn.readings k = time
  appends : turn.op.ruling? = none → l.Appends m

/-- A decision that is made alone writes nothing and is answered with an error, or its ruling
    passes all checks on the ledger where it began, is written, and is what it answers. -/
theorem Turn.Takes.ruled {svc : Service} {turn : Turn} {l m : Ledger} {r : Ruling}
    (h : turn.Takes svc l m) (hl : l.Coherent svc.timeouts) (hop : turn.op.ruling? = some r) :
    (m = l ∧ ∃ why, turn.answer = .error why) ∨
      ∃ x time s, r.Passed Eq svc x time l ∧ m = r.settle time l ∧
        (∃ k, turn.readings k = time) ∧ turn.answer = .ok (.decision ⟨r.settles time x, s⟩) := by
  obtain ⟨ds, hends, hread⟩ := h.ends
  obtain ⟨b, hb, hends⟩ := hends.decision hop
  cases hends with
  | refused rely idle late => exact .inl ⟨rely.symm, _, hb⟩
  | unchecked rely idle state => exact .inl ⟨rely.symm, _, hb⟩
  | @decided x t time later s ds k m rely passed after read asked transfer id state =>
    subst rely after
    exact .inr ⟨x, time, s, passed, rfl, hread time read, hb⟩
  | @unshown x t time later why ds k m rely passed after transfer id state =>
    -- the state was there before the update, so it is there after it
    subst rely after
    obtain ⟨k, rfl, u, hu, huid, s, hs, hne⟩ := passed.inTime
    have hsame : t = u := hl.transfer_ext transfer hu (id.trans huid.symm)
    obtain ⟨s', hs'⟩ := Ledger.state_settle hs hne r.stepId (Operation.terminal_of_ruling hop)
      r.actor.identity r.notes _ later
    rw [← hsame, state] at hs'
    cases hs'

/-- The steps of the transfer with this identifier are as they were, and what has come to them
    is pending. -/
structure Ledger.Spares (id : String) (l m : Ledger) : Prop where
  old : ∀ x ∈ l.steps, x.transferId = id → x ∈ m.steps
  new : ∀ x ∈ m.steps, x.transferId = id → x ∈ l.steps ∨ x.outcome = .pending

/-- A turn spares every transfer on whose steps it makes no ruling. -/
theorem Turn.Takes.spares {svc : Service} {turn : Turn} {l m : Ledger} {id : String}
    (h : turn.Takes svc l m) (hl : l.Coherent svc.timeouts)
    (hother : ∀ r x k, turn.op.ruling? = some r → r.Passed Eq svc x (turn.readings k) l →
      x.transferId ≠ id) : l.Spares id m := by
  cases hop : turn.op.ruling? with
  | none =>
    obtain ⟨xs, hxs, hpending⟩ := h.appends hop
    constructor
    · intro x hx _
      rw [hxs]
      exact List.mem_append_left _ hx
    · intro x hx _
      rw [hxs] at hx
      exact (List.mem_append.mp hx).imp_right (hpending x)
  | some r =>
    rcases h.ruled hl hop with ⟨rfl, -⟩ | ⟨x, at_, s, hpassed, rfl, ⟨k, rfl⟩, -⟩
    · exact ⟨fun _ hx _ => hx, fun _ hx _ => .inl hx⟩
    · have hclosed : ∀ y ∈ l.steps, y.transferId = id → Ledger.isOpenStep r.stepId y = false := by
        intro y hy hyid
        cases hopen : Ledger.isOpenStep r.stepId y with
        | false => rfl
        | true =>
          rw [Ledger.isOpenStep_iff] at hopen
          have hsame : y = x := hl.step_ext hy hpassed.step (hopen.1.trans hpassed.id.symm)
          exact absurd (hsame ▸ hyid) (hother r x k hop hpassed)
      constructor
      · intro y hy hyid
        refine List.mem_map.mpr ⟨y, hy, if_neg ?_⟩
        rw [hclosed y hy hyid]
        decide
      · intro y hy hyid
        obtain ⟨z, hz, rfl⟩ := List.mem_map.mp hy
        split at hyid
        · next hopen =>
          have hzid : z.transferId = id := hyid
          rw [hclosed z hz hzid] at hopen
          cases hopen
        · next hopen =>
          rw [if_neg hopen]
          exact .inl hz

/-- The ledger that turns lead to from the empty one. -/
inductive History (svc : Service) : List Turn → Ledger → Prop
  | start : History svc [] .empty
  | turn {turns : List Turn} {turn : Turn} {l m : Ledger} (history : History svc turns l)
      (takes : turn.Takes svc l m) : History svc (turns ++ [turn]) m

namespace History

variable {svc : Service} {turns : List Turn} {l : Ledger}

theorem coherent (h : History svc turns l) : l.Coherent svc.timeouts := by
  induction h with
  | start => exact Ledger.coherent_empty _
  | turn history takes ih => exact takes.evolves.coherent ih

theorem knows (h : History svc turns l) {turn : Turn} (hturn : turn ∈ turns) {t : Transfer}
    (ht : turn.Showed t) : l.Knows t := by
  induction h with
  | start => cases hturn
  | turn history takes ih =>
    rcases List.mem_append.mp hturn with hturn | hturn
    · exact (ih hturn).grows takes.evolves.grows
    · cases List.mem_singleton.mp hturn
      obtain ⟨y, hy, hmem⟩ := ht
      exact takes.shows y hy t hmem

/-- Every turn of a history began where the earlier ones had led, and the later ones led on
    from where it ended. -/
theorem turn_of_getElem? (h : History svc turns l) {i : Nat} {turn : Turn}
    (hi : turns[i]? = some turn) :
    ∃ b a, History svc (turns.take i) b ∧ turn.Takes svc b a ∧ a.Evolves svc.timeouts l := by
  induction h with
  | start => cases hi
  | @turn turns last l m history takes ih =>
    by_cases hlt : i < turns.length
    · rw [List.getElem?_append_left hlt] at hi
      obtain ⟨b, a, hb, hba, hal⟩ := ih hi
      rw [List.take_append_of_le_length (Nat.le_of_lt hlt)]
      exact ⟨b, a, hb, hba, hal.trans takes.evolves⟩
    · have hge : turns.length ≤ i := Nat.le_of_not_lt hlt
      obtain ⟨hlen, -⟩ := List.getElem?_eq_some_iff.mp hi
      rw [List.length_append, List.length_singleton] at hlen
      have hlast : i = turns.length := by omega
      subst hlast
      rw [List.getElem?_append_right hge, Nat.sub_self] at hi
      cases hi
      rw [List.take_left]
      exact ⟨l, m, history, takes, .refl m⟩

/-- Of two turns the later one began on what the earlier one had led to. -/
theorem turns_of_lt (h : History svc turns l) {i j : Nat} {a b : Turn} (hi : turns[i]? = some a)
    (hj : turns[j]? = some b) (hlt : i < j) :
    ∃ k k' n n', History svc (turns.take i) k ∧ a.Takes svc k k' ∧ k'.Evolves svc.timeouts n ∧
      History svc (turns.take j) n ∧ b.Takes svc n n' := by
  obtain ⟨n, n', hn, hb, -⟩ := h.turn_of_getElem? hj
  have hi' : (turns.take j)[i]? = some a := by rw [List.getElem?_take_of_lt hlt, hi]
  obtain ⟨k, k', hk, ha, hkn⟩ := hn.turn_of_getElem? hi'
  rw [List.take_take, Nat.min_eq_left (Nat.le_of_lt hlt)] at hk
  exact ⟨k, k', n, n', hk, ha, hkn, hn, hb⟩

/-- The stores after two turns are those of ledgers that evolve. -/
theorem after_of_le (h : History svc turns l) {i j : Nat} {a b : Turn} (hi : turns[i]? = some a)
    (hj : turns[j]? = some b) (hle : i ≤ j) :
    ∃ m n : Ledger, a.after = m.store ∧ b.after = n.store ∧ m.Coherent svc.timeouts ∧
      m.Evolves svc.timeouts n := by
  rcases Nat.lt_or_eq_of_le hle with hlt | rfl
  · obtain ⟨k, k', n, n', hk, ha, hkn, -, hb⟩ := h.turns_of_lt hi hj hlt
    exact ⟨k', n', ha.after, hb.after, ha.evolves.coherent hk.coherent, hkn.trans hb.evolves⟩
  · rw [hi] at hj
    cases hj
    obtain ⟨k, k', hk, ha, -⟩ := h.turn_of_getElem? hi
    exact ⟨k', k', ha.after, ha.after, ha.evolves.coherent hk.coherent, .refl k'⟩

/-- What a turn leaves and every later turn keeps holds at the end. -/
theorem since {P : Ledger → Prop} (h : History svc turns l) {i : Nat} {a : Turn}
    (hi : turns[i]? = some a)
    (hafter : ∀ n m, n.Coherent svc.timeouts → a.Takes svc n m → P m)
    (hkept : ∀ (j : Nat) (b : Turn) n m, i < j → turns[j]? = some b → n.Coherent svc.timeouts →
      b.Takes svc n m → P n → P m) : P l := by
  induction h with
  | start => cases hi
  | @turn turns last l m history takes ih =>
    rcases Nat.lt_or_ge i turns.length with hlt | hge
    · rw [List.getElem?_append_left hlt] at hi
      have hl : P l := by
        apply ih hi
        intro j b n m hij hj
        obtain ⟨hlen, -⟩ := List.getElem?_eq_some_iff.mp hj
        exact hkept j b n m hij (by rw [List.getElem?_append_left hlen, hj])
      exact hkept turns.length last l m hlt (by simp) history.coherent takes hl
    · obtain ⟨hlen, -⟩ := List.getElem?_eq_some_iff.mp hi
      rw [List.length_append, List.length_singleton] at hlen
      have hend : i = turns.length := by omega
      rw [hend, List.getElem?_append_right (Nat.le_refl _), Nat.sub_self] at hi
      cases hi
      exact hafter l m history.coherent takes

theorem since_turn {P : Ledger → Prop} (h : History svc turns l) {i j : Nat} {a b : Turn}
    (hi : turns[i]? = some a) (hj : turns[j]? = some b) (hij : i < j)
    (hafter : ∀ n m, n.Coherent svc.timeouts → a.Takes svc n m → P m)
    (hkept : ∀ (j : Nat) (b : Turn) n m, i < j → turns[j]? = some b → n.Coherent svc.timeouts →
      b.Takes svc n m → P n → P m) :
    ∃ n m, n.Coherent svc.timeouts ∧ P n ∧ b.Takes svc n m := by
  obtain ⟨n, m, hn, hb, -⟩ := h.turn_of_getElem? hj
  have hi' : (turns.take j)[i]? = some a := by rw [List.getElem?_take_of_lt hij, hi]
  refine ⟨n, m, hn.coherent, hn.since hi' hafter fun k c n m hik hk => ?_, hb⟩
  rw [List.getElem?_take] at hk
  split at hk
  · exact hkept k c n m hik hk
  · cases hk

end History

/-- **Every run has its history.** -/
theorem Run.history {svc : Service} {σ : Type} {trail : Trail σ} {turns : List Turn} {s : Store}
    {w : σ} (h : Run svc trail turns s w) : ∃ l, s = l.store ∧ History svc turns l := by
  induction h with
  | start w => exact ⟨.empty, rfl, .start⟩
  | @call turns s w e run op readings keepable shown ending ih =>
    obtain ⟨l, rfl, hl⟩ := ih
    have hknown : ∀ t, op.transfer? = some t → l.Knows t := by
      intro t ht
      obtain ⟨turn, hturn, hshowed⟩ := shown t ht
      exact hl.knows hturn hshowed
    have hmeets := Operation.meets op (Rely.alone svc.timeouts) hl.coherent hknown
    have hmeets := (hmeets.evolves (Rely.alone _)).kept
      (Q := fun l m => op.ruling? = none → l.Appends m) (fun _ => .refl l)
      (fun h hmn => hmn ▸ h) (fun hmay hr h hop => (h hop).trans (hmay.appends hop (Statement.makes hr)))
    obtain ⟨ds, m, hstore, ⟨⟨⟨hshows, hends⟩, hevolves⟩, happends⟩, hread⟩ :=
      hmeets.runAlong (fun h => h.admissible) hl.coherent keepable trail w
    rw [ending] at hstore hshows hends
    refine ⟨m, hstore, hl.turn ⟨rfl, hstore, hevolves, hshows, ⟨ds, hends, ?_⟩, happends⟩⟩
    intro time ht
    exact (hread time ht).resolve_left List.not_mem_nil

end SignOff
