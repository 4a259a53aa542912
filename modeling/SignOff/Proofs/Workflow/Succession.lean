/-
  SignOff/Proofs/Workflow/Succession.lean
  =======================================
  **One call after the other.**  A run is a system in which each call has ended before the next
  one begins: the clients are its turns (`Run.reachable`), and the trail has taken what they
  have noted, in their order.  So what is proved of systems holds of runs.  A turn that leaves
  the store as it was has changed nothing on the way either, for rows never change back.
-/
import SignOff.Proofs.Workflow.Course

namespace SignOff

open Audit

variable {svc : Service} {σ : Type} {trail : Trail σ} {S S' : System} {l : Ledger}

/-! ### Lists in step -/

section Lists

variable {α β : Type} {R : α → β → Prop} {as : List α} {bs : List β}

/-- At every place of the one list there is a partner in the other. -/
theorem exists_of_forall₂ (h : List.Forall₂ R as bs) {i : Nat} {a : α} (hi : as[i]? = some a) :
    ∃ b, bs[i]? = some b ∧ R a b := by
  induction h generalizing i with
  | nil => cases hi
  | @cons a' b' as bs hab _ ih =>
    cases i with
    | zero =>
      cases hi
      exact ⟨b', rfl, hab⟩
    | succ i => exact ih hi

theorem exists_of_forall₂_right (h : List.Forall₂ R as bs) {i : Nat} {b : β}
    (hi : bs[i]? = some b) : ∃ a, as[i]? = some a ∧ R a b :=
  exists_of_forall₂ h.flip hi

theorem exists_mem_of_forall₂ (h : List.Forall₂ R as bs) {b : β} (hb : b ∈ bs) :
    ∃ a ∈ as, R a b := by
  obtain ⟨i, hi⟩ := List.mem_iff_getElem?.mp hb
  obtain ⟨a, ha, hab⟩ := exists_of_forall₂_right h hi
  exact ⟨a, List.mem_of_getElem? ha, hab⟩

end Lists

/-! ### What a trail takes -/

/-- The state of the trail after some entries. -/
def Audit.Trail.take (trail : Trail σ) (w : σ) (es : List Entry) : σ :=
  es.foldl (fun w e => (trail.write e w).2) w

theorem Audit.Trail.take_append (trail : Trail σ) (w : σ) (es es' : List Entry) :
    trail.take w (es ++ es') = trail.take (trail.take w es) es' :=
  List.foldl_append

theorem Audit.Trail.take_recorder (w es : List Entry) : Trail.recorder.take w es = w ++ es := by
  induction es generalizing w with
  | nil => exact (List.append_nil w).symm
  | cons e rest ih =>
    have hrest := ih (w ++ [e])
    rw [List.append_assoc, List.singleton_append] at hrest
    exact hrest

/-- What is recorded comes behind what was there, and has no part in anything else. -/
theorem Procedure.runAlong_recorder {α : Type} (p : Procedure α) (readings : Nat → Instant)
    (s : Store) (w : List Entry) :
    p.runAlong .recorder readings s w =
      { p.runAlong .recorder readings s [] with
        trail := w ++ (p.runAlong .recorder readings s []).trail } := by
  induction p generalizing readings s w with
  | done a => simp [runAlong]
  | halt why => simp [runAlong]
  | ask q next ih =>
    simp only [runAlong]
    cases q.run s with
    | error why => simp
    | ok r => exact ih r.1 readings r.2 w
  | clock next ih => exact ih _ _ s w
  | record e next ih =>
    have hthis := ih true readings s (w ++ [e])
    have hempty := ih true readings s [e]
    simp only [runAlong, Trail.recorder, List.nil_append] at hthis hempty ⊢
    rw [hthis, hempty, List.append_assoc]
  | consult next ih => exact ih readings s w

namespace System

/-- All that the clients have noted, client by client. -/
def entries (S : System) : List Entry := S.clients.flatMap fun c => Deed.notes c.deeds

/-! ### Nothing has changed -/

/-- What a client has done between two systems with the same store has left every row as it
    was. -/
theorem Leads.idle (h : Leads svc S S') (hl : S.Follows svc l) (hs : S'.store = S.store)
    (i : Nat) : ∃ new, S'.deedsOf i = S.deedsOf i ++ new ∧ ∀ d ∈ new, d.Idle := by
  obtain ⟨m, hm, hfollows⟩ := Leads.follows h hl
  obtain ⟨new, hnew, hon⟩ := h.deeds hl i
  refine ⟨new, hnew, fun d hd => ?_⟩
  have hml : m = l := by
    apply hfollows.coherent.legible.store_inj hl.coherent.legible
    rw [← hfollows.store, hs, hl.store]
  subst hml
  cases d with
  | read t => trivial
  | noted e => trivial
  | asked q s =>
    have hmem : .asked q s ∈ S'.deedsOf i := hnew ▸ List.mem_append_right _ hd
    obtain ⟨c, hi, hc⟩ : ∃ c, S'.clients[i]? = some c ∧ .asked q s ∈ c.deeds := by
      rw [deedsOf] at hmem
      cases hi : S'.clients[i]? with
      | none =>
        rw [hi] at hmem
        cases hmem
      | some c =>
        rw [hi] at hmem
        exact ⟨c, rfl, hmem⟩
    obtain ⟨k, rfl, hk⟩ := hon q s hd
    obtain ⟨k', hsame, hk', hmay, hafter⟩ :=
      (hfollows.clients c (List.mem_of_getElem? hi)).deeds _ hc
    obtain rfl := (hk.coherent hl.coherent).legible.store_inj hk'.legible hsame
    intro r hr
    rw [Statement.run_store hk'.legible] at hr
    obtain ⟨r', hr', rfl⟩ := exists_of_map_eq_ok hr
    rw [hr'] at hafter
    -- the ledger after the statement lies between two that are equal
    have hgrows := (Statement.makes hr').grows
    rw [(hafter.grows).antisymm (hk.grows.trans hgrows), hk.grows.antisymm (hgrows.trans hafter.grows)]

/-! ### Runs -/

/-- The youngest client does the next thing. -/
theorem Moves.last {clients : List Client} {op : Operation} {b s s' : Store}
    {ds ds' : List Deed} {p p' : Procedure Answer} (h : p.Acts s ds' p' s') :
    Moves svc ⟨s, clients ++ [⟨op, b, ds, p⟩]⟩ ⟨s', clients ++ [⟨op, b, ds ++ ds', p'⟩]⟩ := by
  have hlast : (clients ++ [⟨op, b, ds, p⟩])[clients.length]? = some ⟨op, b, ds, p⟩ := by simp
  have hmove := @Moves.act svc ⟨s, clients ++ [⟨op, b, ds, p⟩]⟩ _ _ _ _ _ hlast h
  simpa using hmove

end System

/-- A call carried out alone is the youngest client, and the only one to move. -/
theorem Procedure.leads_runAlong (svc : Service) (trail : Trail σ) {readings : Nat → Instant}
    (hkeep : ∀ k, (readings k).Keepable) (p : Procedure Answer) (op : Operation) (b s : Store)
    (w : σ) (ds : List Deed) (clients : List Client) :
    ∃ new p', System.Leads svc ⟨s, clients ++ [⟨op, b, ds, p⟩]⟩
        ⟨(p.runAlong trail readings s w).store, clients ++ [⟨op, b, ds ++ new, p'⟩]⟩ ∧
      p'.answer? = some (p.runAlong trail readings s w).answer ∧
      (p.runAlong trail readings s w).trail = trail.take w (Deed.notes new) := by
  -- what is done first comes in front of what is done then
  have hfirst {s s' : Store} {w : σ} {ds : List Deed} {d : Deed} {p p' : Procedure Answer}
      {e : Ending Answer σ} (hacts : p.Acts s [d] p' s')
      (hrest : ∃ new p'', System.Leads svc ⟨s', clients ++ [⟨op, b, ds ++ [d], p'⟩]⟩
          ⟨e.store, clients ++ [⟨op, b, (ds ++ [d]) ++ new, p''⟩]⟩ ∧
        p''.answer? = some e.answer ∧ e.trail = trail.take w (Deed.notes ([d] ++ new))) :
      ∃ new p'', System.Leads svc ⟨s, clients ++ [⟨op, b, ds, p⟩]⟩
          ⟨e.store, clients ++ [⟨op, b, ds ++ new, p''⟩]⟩ ∧
        p''.answer? = some e.answer ∧ e.trail = trail.take w (Deed.notes new) := by
    obtain ⟨new, p'', hleads, hanswer, htrail⟩ := hrest
    refine ⟨[d] ++ new, p'', .head (.last hacts) ?_, hanswer, htrail⟩
    rw [← List.append_assoc]
    exact hleads
  induction p generalizing readings s w ds with
  | done a => exact ⟨[], .done a, by rw [List.append_nil]; exact .refl, rfl, rfl⟩
  | halt why => exact ⟨[], .halt why, by rw [List.append_nil]; exact .refl, rfl, rfl⟩
  | ask q next ih =>
    rw [runAlong]
    cases hq : q.run s with
    | error why => exact ⟨_, .halt (.failed why), .single (.last (.failed hq)), rfl, rfl⟩
    | ok r => exact hfirst (.asked hq) (ih r.1 hkeep r.2 w (ds ++ [.asked q s]))
  | clock next ih =>
    exact hfirst (.read _ (hkeep 0)) (ih (readings 0) (fun k => hkeep (k + 1)) s w _)
  | record e next ih =>
    exact hfirst (.noted _) (ih (trail.write e w).1 hkeep s (trail.write e w).2 _)
  | consult next ih =>
    obtain ⟨new, p', hleads, hanswer, htrail⟩ := ih hkeep s w (ds ++ [])
    rw [List.append_nil] at hleads
    exact ⟨new, p', .head (.last .consulted) (by rw [List.append_nil]; exact hleads), hanswer, htrail⟩

/-- The client is the turn of a run. -/
structure Client.Plays (c : Client) (svc : Service) (trail : Trail σ) (turn : Turn) : Prop where
  op : c.op = turn.op
  begun : c.begun = turn.before
  answer : c.answer? = some turn.answer
  /-- the trail has taken what the client has noted -/
  ending : ∃ w, (turn.op.procedure svc).runAlong trail turn.readings turn.before w =
    ⟨turn.answer, turn.after, trail.take w (Deed.notes c.deeds)⟩
  idle : turn.after = turn.before → ∀ d ∈ c.deeds, d.Idle

/-- **A run is a system in which each call has ended before the next one begins.** -/
theorem Run.reachable {turns : List Turn} {s : Store} {w : σ} (h : Run svc trail turns s w) :
    ∃ S, System.Reachable svc S ∧ S.store = s ∧
      List.Forall₂ (fun c turn => c.Plays svc trail turn) S.clients turns ∧
      ∃ w₀, w = trail.take w₀ S.entries := by
  induction h with
  | start w => exact ⟨⟨.empty, []⟩, .refl, rfl, .nil, w, rfl⟩
  | @call turns s w e run op readings keepable shown ending ih =>
    obtain ⟨S, hreach, rfl, hplays, w₀, rfl⟩ := ih
    obtain ⟨l, hl⟩ := hreach.follows
    have hshown : ∀ t, op.transfer? = some t → ∃ c ∈ S.clients, c.Showed t := by
      intro t ht
      obtain ⟨turn, hturn, y, hy, hmem⟩ := shown t ht
      obtain ⟨c, hc, hthis⟩ := exists_mem_of_forall₂ hplays hturn
      exact ⟨c, hc, y, by rw [hthis.answer, hy], hmem⟩
    obtain ⟨new, p, hleads, hanswer, htrail⟩ := Procedure.leads_runAlong svc trail keepable
      (op.procedure svc) op S.store S.store (trail.take w₀ S.entries) [] S.clients
    rw [ending] at hleads hanswer htrail
    rw [List.nil_append] at hleads
    have hbegin := hreach.tail (.begin op hshown)
    refine ⟨_, hbegin.trans hleads, rfl, ?_, w₀, ?_⟩
    · refine List.rel_append hplays (.cons ⟨rfl, rfl, hanswer, ⟨trail.take w₀ S.entries, ?_⟩,
        fun hsame => ?_⟩ .nil)
      · rw [ending, ← htrail]
      · obtain ⟨l', hl'⟩ := System.Reachable.follows hbegin
        obtain ⟨new', hnew', hidle⟩ := hleads.idle hl' hsame S.clients.length
        simp only [System.deedsOf, List.getElem?_concat_length, Option.elim, List.nil_append] at hnew'
        rw [hnew']
        exact hidle
    · rw [htrail, ← Trail.take_append]
      simp [System.entries]

end SignOff
