/-
  SignOff/Proofs/Finality.lean
  ============================
  **Final states.**  The state of a transfer is never kept, but worked out anew from its steps
  and the clock.  Still, pending is the only state that a transfer leaves
  (`final_states_final`).  A transfer that is approved or rejected stays so in every later
  store and at every instant, because no decision is taken back.  One that is expired stays
  so while the clock does not go back, because no decision on it is accepted any more and
  a step that is added to it is pending.
-/
import SignOff.Proofs.Workflow.Run

namespace SignOff

/-- The call asked for the state of the transfer as of now. -/
def Turn.AsksState (turn : Turn) (id : String) : Prop := turn.op = .status id ∨ turn.op = .state id

/-- The transfer whose state was asked for as of now, and the state that was answered. -/
def Turn.report? (turn : Turn) : Option (String × State) :=
  match turn.op, turn.answer with
  | .status id, .ok (.status x) => some (id, x.state)
  | .state id, .ok (.state s) => some (id, s)
  | _, _ => none

/-- The call reported that the transfer is in this state now. -/
def Turn.Reports (turn : Turn) (id : String) (s : State) : Prop := turn.report? = some (id, s)

/-- Between calls the clock never went back. -/
def ClockForward (turns : List Turn) : Prop :=
  turns.Pairwise fun a b => ∀ i j, a.readings i ≤ b.readings j

/-- After the turn `i` the clock shows nothing before `now`. -/
def ClockPast (turns : List Turn) (i : Nat) (now : Instant) : Prop :=
  ∀ (j : Nat) (b : Turn), i < j → turns[j]? = some b → ∀ k, now ≤ b.readings k

variable {svc : Service} {turns : List Turn} {turn : Turn} {l m : Ledger} {id : String}
  {t : Transfer} {time : Instant}

theorem ClockForward.past (h : ClockForward turns) {i : Nat} (hi : turns[i]? = some turn)
    (k : Nat) : ClockPast turns i (turn.readings k) := by
  intro j b hij hj k'
  obtain ⟨hilen, rfl⟩ := List.getElem?_eq_some_iff.mp hi
  obtain ⟨hjlen, rfl⟩ := List.getElem?_eq_some_iff.mp hj
  exact List.pairwise_iff_getElem.mp h i j hilen hjlen hij k k'

theorem clockForward_play {σ : Type} {trail : Audit.Trail σ} {calls : List (Operation × Instant)}
    {s : Store} {w : σ} {r : List Turn × Store × σ} (hplay : play svc trail calls [] s w = some r)
    (h : calls.Pairwise fun a b => a.2 ≤ b.2) : ClockForward r.1 := by
  have hreadings : (r.1.map fun turn => turn.readings).Pairwise fun a b => ∀ i j, a i ≤ b j := by
    rw [readings_play hplay, List.map_nil, List.nil_append, List.pairwise_map]
    exact h.imp fun hle _ _ => hle
  exact List.pairwise_map.mp hreadings

theorem Turn.Reports.asksState {state : State} (h : turn.Reports id state) : turn.AsksState id := by
  unfold Turn.Reports Turn.report? at h
  split at h
  · next hop ha => cases h; exact .inl hop
  · next hop ha => cases h; exact .inr hop
  · cases h

theorem Turn.Reports.unique {state state' : State} (h : turn.Reports id state)
    (h' : turn.Reports id state') : state = state' := by
  have hsame := h.symm.trans h'
  simpa using hsame

/-- A call for the state changes nothing, and shows the state at its reading of the clock. -/
theorem Turn.Takes.reports_iff (h : turn.Takes svc l m) (hop : turn.AsksState id) :
    m = l ∧ ∃ k, ∀ s, turn.Reports id s ↔
      ∃ t, l.transfer? id = some t ∧ l.state t (turn.readings k) = .ok s := by
  obtain ⟨ds, hends, hread⟩ := h.ends
  rcases hop with hop | hop
  · rw [hop] at hends
    obtain ⟨b, hb, time, hends⟩ := hends
    obtain ⟨k, rfl⟩ := hread time (hends.mem List.mem_cons_self)
    refine ⟨hends.alone.1, k, fun s => ?_⟩
    rw [← hends.alone.2 s]
    simp only [Turn.Reports, Turn.report?, hop, hb]
    cases b <;> simp [Except.map]
  · rw [hop] at hends
    obtain ⟨b, hb, time, hends⟩ := hends
    obtain ⟨k, rfl⟩ := hread time (hends.mem List.mem_cons_self)
    refine ⟨hends.alone.1, k, fun s => ?_⟩
    rw [← hends.alone.2 s]
    simp only [Turn.Reports, Turn.report?, hop, hb]
    cases b <;> simp [Except.map]

/-! ### Expired -/

/-- A turn that begins after a transfer has expired leaves it expired: a decision on it is
    refused, and what comes to it is pending. -/
theorem Turn.Takes.expired (h : turn.Takes svc l m) (hl : l.Coherent svc.timeouts)
    (hfit : l.FitsCalendar) (hexpired : l.Expired id time)
    (hclock : ∀ k, time ≤ turn.readings k) : m.Expired id time := by
  have hspares : l.Spares id m := by
    refine h.spares hl fun r x k _ hpassed hid => ?_
    -- a ruling that is in time is about another transfer
    obtain ⟨n, rfl, t, ht, htid, s, hs, hne⟩ := hpassed.inTime
    obtain ⟨u, hu, hstate⟩ := (hl.expired_iff hfit).mpr (hexpired.mono (hclock k))
    obtain ⟨hmem, huid⟩ := Ledger.mem_of_transfer? hu
    have hsame : u = t := hl.transfer_ext hmem ht (by rw [huid, htid, hid])
    rw [hsame, hs] at hstate
    exact hne (Except.ok.inj hstate)
  exact hexpired.grows h.evolves.grows hspares.old hspares.new

theorem History.expired (h : History svc turns l) (hfit : l.FitsCalendar)
    (hclock : ClockForward turns) {i : Nat} (hi : turns[i]? = some turn)
    (hreports : turn.Reports id .expired) : ∃ k, l.Expired id (turn.readings k) := by
  revert hfit
  apply h.since hi
  · intro n m hn htakes hfit
    obtain ⟨rfl, k, hk⟩ := htakes.reports_iff hreports.asksState
    exact ⟨k, (hn.expired_iff hfit).mp ((hk .expired).mp hreports)⟩
  · intro j b n m hij hj hn htakes hexpired hfit
    have hfit' := hfit.of_grows htakes.evolves.grows
    obtain ⟨k, hk⟩ := hexpired hfit'
    exact ⟨k, htakes.expired hn hfit' hk (hclock.past hi k j b hij hj)⟩

/-! ### All runs -/

/-- Pending is the only state that a transfer leaves. -/
structure Final (turns : List Turn) (s : Store) : Prop where
  /-- an approved or rejected transfer is so in every later store and at every instant -/
  verdicts : ∀ (i j : Nat) (a b : Turn), turns[i]? = some a → turns[j]? = some b → i ≤ j →
    ∀ id state, state = .approved ∨ state = .rejected → ∀ time,
      a.after.stateOf id time = .ok state → ∀ later, b.after.stateOf id later = .ok state
  /-- and reported to be so by every later call for its state -/
  reported : ∀ (i j : Nat) (a b : Turn), turns[i]? = some a → turns[j]? = some b → i < j →
    ∀ id state, state = .approved ∨ state = .rejected → a.Reports id state →
      b.AsksState id → b.Reports id state
  /-- a transfer reported as expired is so in every later report, if no expiry overflows and
      the clock does not go back between calls -/
  expired : s.FitsCalendar → ClockForward turns →
    ∀ (i j : Nat) (a b : Turn), turns[i]? = some a → turns[j]? = some b → i < j →
      ∀ id, a.Reports id .expired → b.AsksState id → b.Reports id .expired
  /-- so that whoever sees two states has seen pending first -/
  pending : s.FitsCalendar → ClockForward turns →
    ∀ (i j : Nat) (a b : Turn), turns[i]? = some a → turns[j]? = some b → i < j →
      ∀ id before after, a.Reports id before → b.Reports id after → before ≠ after →
        before = .pending

theorem Ledger.Coherent.verdict_grows {timeouts : Timeouts} {state : State}
    (h : l.Coherent timeouts) (hm : m.Coherent timeouts) (hg : l.Grows m)
    (hstate : state = .approved ∨ state = .rejected)
    (hs : ∃ t, l.transfer? id = some t ∧ l.state t time = .ok state) (later : Instant) :
    ∃ t, m.transfer? id = some t ∧ m.state t later = .ok state := by
  obtain ⟨t, ht, hs⟩ := hs
  obtain ⟨hmem, rfl⟩ := Ledger.mem_of_transfer? ht
  obtain ⟨u, hu, htu⟩ := hg.mem_transfers hmem
  refine ⟨u, by rw [← htu.id_eq]; exact hm.transfer?_eq_some hu, ?_⟩
  rcases hstate with rfl | rfl
  · exact h.state_approved_grows hm hg htu hs later
  · exact h.state_rejected_grows hm hg htu hs later

/-- **Final states are final.** -/
theorem final_states_final {σ : Type} {trail : Audit.Trail σ} {s : Store} {w : σ}
    (run : Run svc trail turns s w) : Final turns s := by
  obtain ⟨l, rfl, h⟩ := run.history
  have hreported : ∀ (i j : Nat) (a b : Turn), turns[i]? = some a → turns[j]? = some b → i < j →
      ∀ id state, state = .approved ∨ state = .rejected → a.Reports id state →
        b.AsksState id → b.Reports id state := by
    intro i j a b hi hj hlt id state hstate hreports hask
    obtain ⟨k, k', n, n', hk, ha, hkn, hn, hb⟩ := h.turns_of_lt hi hj hlt
    obtain ⟨rfl, c, hc⟩ := ha.reports_iff hreports.asksState
    obtain ⟨rfl, d, hd⟩ := hb.reports_iff hask
    rw [hc] at hreports
    rw [hd]
    exact hk.coherent.verdict_grows hn.coherent hkn.grows hstate hreports _
  have hexpired : l.store.FitsCalendar → ClockForward turns →
      ∀ (i j : Nat) (a b : Turn), turns[i]? = some a → turns[j]? = some b → i < j →
        ∀ id, a.Reports id .expired → b.AsksState id → b.Reports id .expired := by
    intro hfit hclock i j a b hi hj hlt id hreports hask
    obtain ⟨n, n', hn, hb, hl⟩ := h.turn_of_getElem? hj
    have hfit' := (hfit.ledger h.coherent.legible).of_grows (hb.evolves.grows.trans hl.grows)
    have hi' : (turns.take j)[i]? = some a := by rw [List.getElem?_take_of_lt hlt, hi]
    have hclock' : ClockForward (turns.take j) := hclock.sublist (List.take_sublist j turns)
    obtain ⟨c, hc⟩ := hn.expired hfit' hclock' hi' hreports
    obtain ⟨rfl, d, hd⟩ := hb.reports_iff hask
    have hle : a.readings c ≤ b.readings d := by
      obtain ⟨hilen, rfl⟩ := List.getElem?_eq_some_iff.mp hi
      obtain ⟨hjlen, rfl⟩ := List.getElem?_eq_some_iff.mp hj
      exact List.pairwise_iff_getElem.mp hclock i j hilen hjlen hlt c d
    rw [hd]
    exact (hn.coherent.expired_iff hfit').mpr (hc.mono hle)
  refine ⟨fun i j a b hi hj hle id state hstate time hs later => ?_, hreported, hexpired, ?_⟩
  · obtain ⟨m, n, ha, hb, hm, hmn⟩ := h.after_of_le hi hj hle
    rw [ha, hm.stateOf_eq_ok_iff] at hs
    rw [hb, (hmn.coherent hm).stateOf_eq_ok_iff]
    exact hm.verdict_grows (hmn.coherent hm) hmn.grows hstate hs later
  · intro hfit hclock i j a b hi hj hlt id before after hbefore hafter hne
    have hask := hafter.asksState
    cases before with
    | pending => rfl
    | approved =>
      exact absurd ((hreported i j a b hi hj hlt id _ (.inl rfl) hbefore hask).unique hafter) hne
    | rejected =>
      exact absurd ((hreported i j a b hi hj hlt id _ (.inr rfl) hbefore hask).unique hafter) hne
    | expired =>
      exact absurd ((hexpired hfit hclock i j a b hi hj hlt id hbefore hask).unique hafter) hne

/-- The sale is never decided, and the gift is approved in time. -/
def Sample.forgottenSale : List (Operation × Instant) :=
  [(.initiate "sale" sale none, firstDay),
   (.plan stepIds recordedSale, firstDay),
   (.initiate "gift" gift none, firstDay),
   (.createStep "step" recordedGift .target none, firstDay),
   (.state "sale", secondDay),
   (.approve "step" (.ofOwner buyer) none, secondDay),
   (.state "gift", secondDay),
   (.state "sale", lastDay),
   (.reject "second" (.ofOwner buyer) none, lastDay),
   (.status "sale", lastDay),
   (.status "gift", lastDay)]

theorem forgottenSale_final :
    ∃ r ∈ play Sample.service .silent Sample.forgottenSale [] .empty (),
      r.1.filterMap Turn.report? = [("sale", .pending), ("gift", .approved), ("sale", .expired),
        ("sale", .expired), ("gift", .approved)] ∧
      r.2.1.FitsCalendar ∧ ClockForward r.1 ∧ Final r.1 r.2.1 := by
  have hplays : ∃ r ∈ play Sample.service .silent Sample.forgottenSale [] .empty (),
      r.1.filterMap Turn.report? = [("sale", .pending), ("gift", .approved), ("sale", .expired),
        ("sale", .expired), ("gift", .approved)] ∧ r.2.1.FitsCalendar := by
    decide +kernel
  obtain ⟨r, hplay, hreports, hfit⟩ := hplays
  exact ⟨r, hplay, hreports, hfit, clockForward_play hplay (by decide +kernel),
    final_states_final ((Run.start ()).play hplay)⟩

end SignOff
