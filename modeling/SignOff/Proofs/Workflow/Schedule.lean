/-
  SignOff/Proofs/Workflow/Schedule.lean
  =====================================
  **Schedules.**  What a system does can be replayed: an `Event` says which call begins or
  which client is next, and what the clock shows or the trail does then.  The replays are
  exactly the ways of the relation (`System.leads_iff`), so that a system can be shown to be
  reachable by computing it.
-/
import SignOff.Proofs.Workflow.System

namespace SignOff

/-- Do the next thing on a store, if anything is left to be done.  The clock shows `time`, if
    it is looked at, and the trail keeps the entry, if there is one, as `kept` says. -/
def Procedure.act? {α : Type} (time : Option Instant) (kept : Bool) (s : Store) :
    Procedure α → Option (List Deed × Procedure α × Store)
  | .done _ => none
  | .halt _ => none
  | .ask q next =>
    match q.run s with
    | .ok r => some ([.asked q s], next r.1, r.2)
    | .error why => some ([.asked q s], .halt (.failed why), s)
  | .clock next =>
    match time with
    | none => none
    | some t => if t.Keepable then some ([.read t], next t, s) else none
  | .record e next => some ([.noted e], next kept, s)
  | .consult next => some ([], next, s)

theorem Procedure.acts_iff {α : Type} {p p' : Procedure α} {s s' : Store} {ds : List Deed} :
    p.Acts s ds p' s' ↔ ∃ time kept, p.act? time kept s = some (ds, p', s') := by
  constructor
  · intro h
    cases h with
    | asked run => exact ⟨none, true, by rw [act?, run]⟩
    | failed run => exact ⟨none, true, by rw [act?, run]⟩
    | read t keepable => exact ⟨some t, true, if_pos keepable⟩
    | noted kept => exact ⟨none, kept, rfl⟩
    | consulted => exact ⟨none, true, rfl⟩
  · rintro ⟨time, kept, h⟩
    cases p with
    | done a => cases h
    | halt why => cases h
    | ask q next =>
      rw [act?] at h
      cases hq : q.run s with
      | ok r => rw [hq] at h; cases h; exact .asked hq
      | error why => rw [hq] at h; cases h; exact .failed hq
    | clock next =>
      cases time with
      | none => cases h
      | some t =>
        rw [act?] at h
        split at h
        · next hkeep => cases h; exact .read t hkeep
        · cases h
    | record e next => cases h; exact .noted kept
    | consult next => cases h; exact .consulted

/-- Something that happens in a system: a call begins, or a client does the next thing. -/
inductive Event where
  | begin (op : Operation)
  | act (client : Nat) (time : Option Instant) (kept : Bool)

namespace System

variable {svc : Service} {S S' : System}

/-- Some answer has shown the transfer. -/
def shows (S : System) (t : Transfer) : Bool :=
  S.clients.any fun c =>
    match c.answer? with
    | some (.ok y) => y.transfers.contains t
    | _ => false

theorem shows_iff {t : Transfer} : S.shows t = true ↔ ∃ c ∈ S.clients, c.Showed t := by
  simp only [shows, List.any_eq_true, Client.Showed]
  refine exists_congr fun c => and_congr_right fun _ => ?_
  cases c.answer? with
  | none => simp
  | some a => cases a <;> simp

/-- The system after the event, if it can happen. -/
def next? (svc : Service) (S : System) : Event → Option System
  | .begin op =>
    if op.transfer?.all S.shows then
      some ⟨S.store, S.clients ++ [⟨op, S.store, [], op.procedure svc⟩]⟩
    else none
  | .act i time kept => do
    let c ← S.clients[i]?
    let (ds, p, s) ← c.rest.act? time kept S.store
    return ⟨s, S.clients.set i { c with deeds := c.deeds ++ ds, rest := p }⟩

/-- The system after the events, if they can happen in this order. -/
def replay (svc : Service) : List Event → System → Option System
  | [], S => some S
  | e :: rest, S => (S.next? svc e).bind (replay svc rest)

theorem moves_iff : Moves svc S S' ↔ ∃ e, S.next? svc e = some S' := by
  constructor
  · intro h
    cases h with
    | begin op shown =>
      refine ⟨.begin op, if_pos ?_⟩
      simpa only [Option.all_eq_true, shows_iff] using shown
    | @act i c ds p s client acts =>
      obtain ⟨time, kept, hact⟩ := Procedure.acts_iff.mp acts
      exact ⟨.act i time kept, by simp [next?, client, hact]⟩
  · rintro ⟨e, he⟩
    cases e with
    | begin op =>
      rw [next?] at he
      split at he
      · next hshown =>
        simp only [Option.all_eq_true, shows_iff] at hshown
        cases he
        exact .begin op hshown
      · cases he
    | act i time kept =>
      simp only [next?, Option.bind_eq_bind, Option.bind_eq_some_iff] at he
      obtain ⟨c, hc, ⟨ds, p, s⟩, hact, he⟩ := he
      cases he
      exact .act hc (Procedure.acts_iff.mpr ⟨time, kept, hact⟩)

/-- **One system leads to another if and only if some schedule replays it.** -/
theorem leads_iff : Leads svc S S' ↔ ∃ events, replay svc events S = some S' := by
  constructor
  · intro h
    induction h using Relation.ReflTransGen.head_induction_on with
    | refl => exact ⟨[], rfl⟩
    | head hmove _ ih =>
      obtain ⟨e, he⟩ := moves_iff.mp hmove
      obtain ⟨events, hevents⟩ := ih
      exact ⟨e :: events, by rw [replay, he, Option.bind_some, hevents]⟩
  · rintro ⟨events, h⟩
    induction events generalizing S with
    | nil => cases h; exact .refl
    | cons e rest ih =>
      rw [replay, Option.bind_eq_some_iff] at h
      obtain ⟨T, hT, hrest⟩ := h
      exact .head (moves_iff.mpr ⟨e, hT⟩) (ih hrest)

end System

/-- The client does the next `n` things, on the first day. -/
def Sample.acts (client n : Nat) : List Event :=
  List.replicate n (.act client (some firstDay) true)

/-- A gift is recorded, with the one step that it needs. -/
def Sample.giftEvents : List Event :=
  [.begin (.initiate "gift" gift none)] ++ acts 0 4 ++
    [.begin (.createStep "step" recordedGift .target none)]
    ++ acts 1 4

end SignOff
