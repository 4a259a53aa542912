/-
  SignOff/Proofs/Workflow/System.lean
  ===================================
  **Calls at the same time.**  A `System` is a store with the clients that use it, each at its
  place in the procedure of its call.  One client at a time does the next thing
  (`Procedure.Acts`), or a new call begins; so the statements of all calls come in any order
  that keeps each call's own.  Every reading of the clock is any instant that a row can
  keep, and the audit trail may lose any entry.

  `System.Moves.follows` is the step lemma and `System.Reachable.follows` what it makes of all
  runs: the store is that of a coherent ledger, and every client keeps to its contract
  against the others.  A deed that can be done only once is done by one client
  (`System.Reachable.once`).
-/
import SignOff.Proofs.Workflow.Run
import Mathlib.Logic.Relation

namespace SignOff

namespace Procedure

variable {α : Type}

/-- The answer of a procedure that has ended. -/
def answer? : Procedure α → Option (Except Halt α)
  | .done a => some (.ok a)
  | .halt why => some (.error why)
  | _ => none

/-- Doing the next thing on a store: the deeds, what remains to be done, and the store then. -/
inductive Acts : Procedure α → Store → List Deed → Procedure α → Store → Prop
  | asked {q : Statement} {next : q.Reply → Procedure α} {s : Store} {r : q.Reply × Store}
      (run : q.run s = .ok r) : Acts (.ask q next) s [.asked q s] (next r.1) r.2
  | failed {q : Statement} {next : q.Reply → Procedure α} {s : Store} {why : Error}
      (run : q.run s = .error why) : Acts (.ask q next) s [.asked q s] (.halt (.failed why)) s
  | read {next : Instant → Procedure α} {s : Store} (t : Instant) (keepable : t.Keepable) :
      Acts (.clock next) s [.read t] (next t) s
  | noted {e : Audit.Entry} {next : Bool → Procedure α} {s : Store} (kept : Bool) :
      Acts (.record e next) s [.noted e] (next kept) s
  | consulted {next : Procedure α} {s : Store} : Acts (.consult next) s [] next s

end Procedure

/-- A call: what was called on which store, what has been done, and what is left to do. -/
structure Client where
  op : Operation
  begun : Store
  deeds : List Deed
  rest : Procedure Answer

/-- The call has ended with this answer. -/
def Client.answer? (c : Client) : Option (Except Halt Answer) := c.rest.answer?

/-- The answer of the call shows the transfer. -/
def Client.Showed (c : Client) (t : Transfer) : Prop :=
  ∃ y, c.answer? = some (.ok y) ∧ t ∈ y.transfers

/-- A store and the calls that have begun on it, in that order. -/
structure System where
  store : Store
  clients : List Client

namespace System

/-- What may happen next. -/
inductive Moves (svc : Service) : System → System → Prop
  | begin {S : System} (op : Operation)
      (shown : ∀ t, op.transfer? = some t → ∃ c ∈ S.clients, c.Showed t) :
      Moves svc S ⟨S.store, S.clients ++ [⟨op, S.store, [], op.procedure svc⟩]⟩
  | act {S : System} {i : Nat} {c : Client} {ds : List Deed} {p : Procedure Answer} {s : Store}
      (client : S.clients[i]? = some c) (acts : c.rest.Acts S.store ds p s) :
      Moves svc S ⟨s, S.clients.set i { c with deeds := c.deeds ++ ds, rest := p }⟩

/-- The later system comes about from the earlier one. -/
abbrev Leads (svc : Service) : System → System → Prop := Relation.ReflTransGen (Moves svc)

/-- The system comes about from the empty store without clients. -/
def Reachable (svc : Service) (S : System) : Prop := Leads svc ⟨.empty, []⟩ S

end System

/-! ### In ledgers -/

/-- The deed was allowed, and the present ledger has evolved from what it left. -/
def Deed.Past (op : Operation) (timeouts : Timeouts) (l : Ledger) : Deed → Prop
  | .asked q s => ∃ k : Ledger, s = k.store ∧ k.Coherent timeouts ∧ op.May timeouts q k ∧
      match q.on k with
      | .ok r => r.2.Evolves timeouts l
      | .error _ => k.Evolves timeouts l
  | _ => True

/-- In the present ledger the client keeps to the contract of its operation. -/
structure Client.Follows (svc : Service) (l : Ledger) (c : Client) : Prop where
  meets : ∃ k₀ k : Ledger, c.begun = k₀.store ∧ k₀.Evolves svc.timeouts k ∧
    k.Evolves svc.timeouts l ∧ k₀.Coherent svc.timeouts ∧
    c.rest.Meets (Ledger.Evolves svc.timeouts) (c.op.May svc.timeouts)
      (fun a ds m => Operation.Shows a m ∧ c.op.Ends (Ledger.Evolves svc.timeouts) svc k₀ a ds m)
      c.deeds k
  deeds : ∀ d ∈ c.deeds, d.Past c.op svc.timeouts l

/-- The system is about the ledger. -/
structure System.Follows (svc : Service) (S : System) (l : Ledger) : Prop where
  store : S.store = l.store
  coherent : l.Coherent svc.timeouts
  clients : ∀ c ∈ S.clients, c.Follows svc l

variable {svc : Service} {l m : Ledger} {S S' : System} {c : Client}

theorem Deed.Past.evolves {op : Operation} {timeouts : Timeouts} {d : Deed}
    (h : d.Past op timeouts l) (hm : l.Evolves timeouts m) : d.Past op timeouts m := by
  cases d with
  | read t => trivial
  | noted e => trivial
  | asked q s =>
    obtain ⟨k, hs, hk, hmay, hafter⟩ := h
    refine ⟨k, hs, hk, hmay, ?_⟩
    cases hq : q.on k with
    | error why => rw [hq] at hafter; exact hafter.trans hm
    | ok r => rw [hq] at hafter; exact hafter.trans hm

theorem Client.Follows.evolves (h : c.Follows svc l) (hm : l.Evolves svc.timeouts m) :
    c.Follows svc m := by
  obtain ⟨k₀, k, hbegun, hk₀, hk, hco, hmeets⟩ := h.meets
  exact ⟨⟨k₀, k, hbegun, hk₀, hk.trans hm, hco, hmeets⟩, fun d hd => (h.deeds d hd).evolves hm⟩

/-- What a procedure does next takes the ledger to another one, and leaves the procedure
    within its contract. -/
theorem Procedure.Meets.acts {α : Type} {timeouts : Timeouts} {op : Operation}
    {post : Procedure.Post α} {p p' : Procedure α} {ds ds' : List Deed} {k : Ledger} {s : Store}
    (h : p.Meets (Ledger.Evolves timeouts) (op.May timeouts) post ds k)
    (hk : k.Evolves timeouts l) (hl : l.Coherent timeouts) (hacts : p.Acts l.store ds' p' s) :
    ∃ m k' : Ledger, s = m.store ∧ l.Evolves timeouts m ∧ k.Evolves timeouts k' ∧
      k'.Evolves timeouts m ∧
      p'.Meets (Ledger.Evolves timeouts) (op.May timeouts) post (ds ++ ds') k' ∧
      ∀ d ∈ ds', d.Past op timeouts m := by
  cases hacts with
  | @asked q next s r run =>
    -- the contract holds on the present ledger, for it has evolved from the client's own
    obtain ⟨hmay, hrest⟩ := h l hk
    rw [Statement.run_store hl.legible] at run
    cases hq : q.on l with
    | error why => rw [hq] at run; cases run
    | ok r' =>
      rw [hq] at run hrest
      obtain rfl := Except.ok.inj run
      have hev : l.Evolves timeouts r'.2 := .on hmay.admissible hq
      refine ⟨r'.2, r'.2, rfl, hev, hk.trans hev, .refl _, hrest, fun d hd => ?_⟩
      rw [List.mem_singleton.mp hd]
      refine ⟨l, rfl, hl, hmay, ?_⟩
      rw [hq]
      exact .refl _
  | @failed q next s why run =>
    obtain ⟨hmay, hrest⟩ := h l hk
    rw [Statement.run_store hl.legible] at run
    cases hq : q.on l with
    | ok r' => rw [hq] at run; cases run
    | error why' =>
      rw [hq] at run hrest
      obtain rfl := Except.error.inj run
      refine ⟨l, l, rfl, .refl l, hk, .refl l, hrest, fun d hd => ?_⟩
      rw [List.mem_singleton.mp hd]
      refine ⟨l, rfl, hl, hmay, ?_⟩
      rw [hq]
      exact .refl _
  | read t keepable =>
    refine ⟨l, k, rfl, .refl l, .refl k, hk, h t keepable, fun d hd => ?_⟩
    rw [List.mem_singleton.mp hd]
    trivial
  | noted kept =>
    refine ⟨l, k, rfl, .refl l, .refl k, hk, h kept, fun d hd => ?_⟩
    rw [List.mem_singleton.mp hd]
    trivial
  | consulted =>
    refine ⟨l, k, rfl, .refl l, .refl k, hk, ?_, fun d hd => absurd hd List.not_mem_nil⟩
    rw [List.append_nil]
    exact h

namespace Client.Follows

theorem ended (h : c.Follows svc l) {a : Except Halt Answer} (ha : c.answer? = some a) :
    ∃ k₀ k : Ledger, c.begun = k₀.store ∧ k₀.Coherent svc.timeouts ∧
      k₀.Evolves svc.timeouts k ∧ k.Evolves svc.timeouts l ∧ Operation.Shows a k ∧
      c.op.Ends (Ledger.Evolves svc.timeouts) svc k₀ a c.deeds k := by
  obtain ⟨k₀, k, hbegun, hk₀, hk, hco, hmeets⟩ := h.meets
  unfold Client.answer? at ha
  cases hrest : c.rest with
  | done y =>
    rw [hrest] at ha hmeets
    cases ha
    exact ⟨k₀, k, hbegun, hco, hk₀, hk, hmeets⟩
  | halt why =>
    rw [hrest] at ha hmeets
    cases ha
    exact ⟨k₀, k, hbegun, hco, hk₀, hk, hmeets⟩
  | _ => rw [hrest] at ha; cases ha

theorem knows (h : c.Follows svc l) {t : Transfer} (ht : c.Showed t) : l.Knows t := by
  obtain ⟨y, hy, hmem⟩ := ht
  obtain ⟨k₀, k, -, -, -, hk, hshows, -⟩ := h.ended hy
  exact (hshows y rfl t hmem).grows hk.grows

end Client.Follows

namespace System

/-- **Whatever happens next, the store evolves and every client keeps to its contract.** -/
theorem Moves.follows (h : Moves svc S S') (hl : S.Follows svc l) :
    ∃ m : Ledger, l.Evolves svc.timeouts m ∧ S'.Follows svc m := by
  cases h with
  | begin op shown =>
    refine ⟨l, .refl l, hl.store, hl.coherent, fun c hc => ?_⟩
    rcases List.mem_append.mp hc with hc | hc
    · exact hl.clients c hc
    · -- a call that begins is handed only what the ledger knows
      rw [List.mem_singleton.mp hc]
      have hknown : ∀ t, op.transfer? = some t → l.Knows t := by
        intro t ht
        obtain ⟨c, hc, hshowed⟩ := shown t ht
        exact (hl.clients c hc).knows hshowed
      exact ⟨⟨l, l, hl.store, .refl l, .refl l, hl.coherent,
        Operation.meets op (Rely.others _) hl.coherent hknown⟩, fun d hd => absurd hd List.not_mem_nil⟩
  | @act i c ds p s client acts =>
    have hc := hl.clients c (List.mem_of_getElem? client)
    obtain ⟨k₀, k, hbegun, hk₀, hk, hco, hmeets⟩ := hc.meets
    rw [hl.store] at acts
    obtain ⟨m, k', rfl, hm, hk', hkm, hrest, hpast⟩ := hmeets.acts hk hl.coherent acts
    refine ⟨m, hm, rfl, hm.coherent hl.coherent, fun c' hc' => ?_⟩
    rcases List.mem_or_eq_of_mem_set hc' with hc' | rfl
    · exact (hl.clients c' hc').evolves hm
    · refine ⟨⟨k₀, k', hbegun, hk₀.trans hk', hkm, hco, hrest⟩, fun d hd => ?_⟩
      rcases List.mem_append.mp hd with hd | hd
      · exact (hc.deeds d hd).evolves hm
      · exact hpast d hd

theorem Leads.follows (h : Leads svc S S') (hl : S.Follows svc l) :
    ∃ m : Ledger, l.Evolves svc.timeouts m ∧ S'.Follows svc m := by
  induction h with
  | refl => exact ⟨l, .refl l, hl⟩
  | tail _ hmove ih =>
    obtain ⟨m, hm, hfollows⟩ := ih
    obtain ⟨n, hn, hfollows'⟩ := hmove.follows hfollows
    exact ⟨n, hm.trans hn, hfollows'⟩

/-- **Every reachable system is about a coherent ledger.** -/
theorem Reachable.follows (h : Reachable svc S) : ∃ l : Ledger, S.Follows svc l := by
  have hstart : System.Follows svc ⟨.empty, []⟩ .empty :=
    ⟨rfl, Ledger.coherent_empty _, fun c hc => absurd hc List.not_mem_nil⟩
  obtain ⟨l, -, hl⟩ := Leads.follows h hstart
  exact ⟨l, hl⟩

end System

/-! ### Deeds that are done once -/

theorem Procedure.Acts.eq_asked {α : Type} {p p' : Procedure α} {s s' s₀ : Store} {ds : List Deed}
    {q : Statement} (h : p.Acts s ds p' s') (hd : .asked q s₀ ∈ ds) :
    ds = [.asked q s₀] ∧ s₀ = s := by
  cases h with
  | asked run => cases List.mem_singleton.mp hd; exact ⟨rfl, rfl⟩
  | failed run => cases List.mem_singleton.mp hd; exact ⟨rfl, rfl⟩
  | read t keepable => cases List.mem_singleton.mp hd
  | noted kept => cases List.mem_singleton.mp hd
  | consulted => cases hd

namespace System

/-- After a move a deed of a client is one that the client had done before, or the new one. -/
theorem deed_of_set {i j : Nat} {c c' : Client} {d : Deed} {ds : List Deed} {p : Procedure Answer}
    {clients : List Client} (hi : clients[i]? = some c)
    (hj : (clients.set i { c with deeds := c.deeds ++ ds, rest := p })[j]? = some c')
    (hd : d ∈ c'.deeds) :
    (∃ b, clients[j]? = some b ∧ d ∈ b.deeds) ∨ j = i ∧ d ∈ ds := by
  by_cases hij : i = j
  · subst hij
    obtain ⟨hlt, -⟩ := List.getElem?_eq_some_iff.mp hi
    rw [List.getElem?_set_self hlt] at hj
    cases hj
    rcases List.mem_append.mp hd with hd | hd
    · exact .inl ⟨c, hi, hd⟩
    · exact .inr ⟨rfl, hd⟩
  · rw [List.getElem?_set_ne hij] at hj
    exact .inl ⟨c', hj, hd⟩

/-- A kind of statement that comes about in no ledger where it has come about before is asked
    once by one client, however the clients interleave. -/
theorem Reachable.once {P : Deed → Prop} {Q : Ledger → Prop}
    (hasked : ∀ d, P d → ∃ q s, d = .asked q s)
    (hdone : ∀ {d : Deed} {op : Operation} {l : Ledger}, d.Past op svc.timeouts l →
      l.Coherent svc.timeouts → P d → Q l)
    (hagain : ∀ {q : Statement} {l : Ledger}, l.Coherent svc.timeouts → Q l → ¬P (.asked q l.store))
    (h : Reachable svc S) {i j : Nat} {a b : Client} {d e : Deed} (hi : S.clients[i]? = some a)
    (hj : S.clients[j]? = some b) (hd : d ∈ a.deeds) (he : e ∈ b.deeds) (hPd : P d) (hPe : P e) :
    i = j ∧ d = e := by
  induction h generalizing i j a b d e with
  | refl => cases hi
  | @tail S S' hreach hmove ih =>
    obtain ⟨l, hl⟩ := Reachable.follows hreach
    cases hmove with
    | begin op shown =>
      have hold {i : Nat} {a : Client} {d : Deed}
          (hi : (S.clients ++ [⟨op, S.store, [], op.procedure svc⟩])[i]? = some a)
          (hd : d ∈ a.deeds) : S.clients[i]? = some a := by
        rw [List.getElem?_append] at hi
        split at hi
        · exact hi
        · obtain rfl := List.mem_singleton.mp (List.mem_of_getElem? hi)
          cases hd
      exact ih (hold hi hd) (hold hj he) hd he hPd hPe
    | @act k c ds p s client acts =>
      -- of two such deeds at most one is new, and then the other forbids it
      have hQ {j : Nat} {b : Client} {e : Deed} (hj : S.clients[j]? = some b) (he : e ∈ b.deeds)
          (hPe : P e) : Q l :=
        hdone ((hl.clients b (List.mem_of_getElem? hj)).deeds e he) hl.coherent hPe
      have hnew {d : Deed} (hd : d ∈ ds) (hPd : P d) : ds = [d] ∧ ¬Q l := by
        obtain ⟨q, s₀, rfl⟩ := hasked d hPd
        obtain ⟨hds, rfl⟩ := acts.eq_asked hd
        rw [hl.store] at hPd
        exact ⟨hds, fun hq => hagain hl.coherent hq hPd⟩
      rcases deed_of_set client hi hd with ⟨a', hi', hd'⟩ | ⟨hik, hd'⟩
      · rcases deed_of_set client hj he with ⟨b', hj', he'⟩ | ⟨-, he'⟩
        · exact ih hi' hj' hd' he' hPd hPe
        · exact absurd (hQ hi' hd' hPd) (hnew he' hPe).2
      · rcases deed_of_set client hj he with ⟨b', hj', he'⟩ | ⟨hjk, he'⟩
        · exact absurd (hQ hj' he' hPe) (hnew hd' hPd).2
        · rw [(hnew hd' hPd).1] at he'
          exact ⟨hik.trans hjk.symm, (List.mem_singleton.mp he').symm⟩

theorem Leads.begun (h : Leads svc S S') (hl : S.Follows svc l) {k : Nat}
    (hk : S.clients.length ≤ k) {c : Client} (hc : S'.clients[k]? = some c) :
    ∃ b : Ledger, c.begun = b.store ∧ l.Evolves svc.timeouts b := by
  induction h generalizing c with
  | refl =>
    obtain ⟨hlt, -⟩ := List.getElem?_eq_some_iff.mp hc
    omega
  | @tail T T' hleads hmove ih =>
    cases hmove with
    | begin op shown =>
      rw [List.getElem?_append] at hc
      split at hc
      · exact ih hc
      · obtain rfl := List.mem_singleton.mp (List.mem_of_getElem? hc)
        obtain ⟨m, hm, hfollows⟩ := Leads.follows hleads hl
        exact ⟨m, hfollows.store, hm⟩
    | @act i c' ds p s client acts =>
      by_cases hik : i = k
      · subst hik
        obtain ⟨hlt, -⟩ := List.getElem?_eq_some_iff.mp client
        rw [List.getElem?_set_self hlt] at hc
        cases hc
        exact ih (c := c') client
      · rw [List.getElem?_set_ne hik] at hc
        exact ih hc

end System

end SignOff
