/-
  SignOff/Proofs/Workflow/Course.lean
  ===================================
  **The course of a call.**  What becomes of one client while a system moves on: it stays at
  its place with its operation, its deeds only come behind those it has done
  (`System.Leads.deeds`), and each new one was done on a ledger that has evolved from the one
  before.  A statement that a decision or a read asks does not fail, for it is asked of a
  coherent ledger (`Deed.Past.runs`).
-/
import SignOff.Proofs.Workflow.Telling

namespace SignOff

variable {svc : Service} {S S' : System} {l m : Ledger} {op : Operation} {timeouts : Timeouts}

/-! ### Deeds and ledgers -/

/-- The ledger that a statement was run on has become the present one. -/
theorem Deed.Past.evolved {q : Statement} {s : Store} (h : (asked q s).Past op timeouts l) :
    ∃ k : Ledger, s = k.store ∧ k.Coherent timeouts ∧ op.May timeouts q k ∧
      k.Evolves timeouts l := by
  obtain ⟨k, hs, hk, hmay, hafter⟩ := h
  refine ⟨k, hs, hk, hmay, ?_⟩
  cases hq : q.on k with
  | error why =>
    rw [hq] at hafter
    exact hafter
  | ok r =>
    rw [hq] at hafter
    exact .trans (.on hmay.admissible hq) hafter

/-- On ledgers only an insertion, or an update that decides nothing, can fail. -/
theorem Statement.on_reads {q : Statement} (hq : q.writes = false) (l : Ledger) :
    ∃ r, q.on l = .ok r := by
  cases q with
  | insertSteps xs =>
    cases xs with
    | nil => exact ⟨_, rfl⟩
    | cons x rest => cases hq
  | insertTransfer t => cases hq
  | resolve id outcome resolver notes time => cases hq
  | complete id time => cases hq
  | _ => exact ⟨_, rfl⟩

/-- What a call that decides has asked has not failed. -/
theorem Deed.Past.runs {q : Statement} {s : Store} (h : (asked q s).Past op timeouts l)
    {r : Ruling} (hop : op.ruling? = some r) (why : Error) : q.run s ≠ .error why := by
  obtain ⟨k, rfl, hk, hmay, -⟩ := h.evolved
  obtain ⟨reply, hreply⟩ : ∃ reply, q.on k = .ok reply := by
    cases hw : q.writes with
    | false => exact Statement.on_reads hw k
    | true =>
      obtain ⟨time, rfl⟩ := (Operation.writes_of_ruling hop).mp (hmay.writes hw)
      exact ⟨_, if_pos (Operation.terminal_of_ruling hop)⟩
  rw [Statement.run_store hk.legible, hreply]
  exact nofun

theorem Operation.Account.decision {a : Except Halt Answer} {ds : List Deed}
    (h : op.Account svc a ds) {r : Ruling} (hop : op.ruling? = some r) :
    ∃ b, a = b.map .decision ∧ r.Account b ds := by
  cases op with
  | approve stepId actor notes =>
    cases hop
    exact h
  | reject stepId actor notes =>
    cases hop
    exact h
  | _ => cases hop

/-! ### Clients -/

namespace System

/-- What the client at a place has done, if there is one. -/
def deedsOf (S : System) (i : Nat) : List Deed := S.clients[i]?.elim [] Client.deeds

theorem deedsOf_eq {i : Nat} {c : Client} (hi : S.clients[i]? = some c) : S.deedsOf i = c.deeds := by
  rw [deedsOf, hi]
  rfl

theorem deedsOf_begin (S : System) (op : Operation) (p : Procedure Answer) (i : Nat) :
    deedsOf ⟨S.store, S.clients ++ [⟨op, S.store, [], p⟩]⟩ i = S.deedsOf i := by
  simp only [deedsOf, List.getElem?_append]
  split
  · rfl
  · next hge =>
    rw [List.getElem?_eq_none (Nat.le_of_not_lt hge)]
    cases i - S.clients.length <;> rfl

/-- A client does something, and the others nothing. -/
theorem deedsOf_act {i : Nat} {c : Client} (hi : S.clients[i]? = some c) (ds : List Deed)
    (p : Procedure Answer) (s : Store) (j : Nat) :
    deedsOf ⟨s, S.clients.set i { c with deeds := c.deeds ++ ds, rest := p }⟩ j =
      S.deedsOf j ++ if j = i then ds else [] := by
  by_cases hji : j = i
  · subst hji
    obtain ⟨hlt, -⟩ := List.getElem?_eq_some_iff.mp hi
    rw [deedsOf_eq hi, if_pos rfl, deedsOf]
    dsimp only
    rw [List.getElem?_set_self hlt]
    rfl
  · rw [if_neg hji, List.append_nil, deedsOf, deedsOf]
    dsimp only
    rw [List.getElem?_set_ne (Ne.symm hji)]

/-- What a client does next leaves the store as it is, or is a statement that its operation may
    ask of the ledger. -/
theorem Follows.acts (h : S.Follows svc l) {i : Nat} {c : Client} (hi : S.clients[i]? = some c)
    {ds : List Deed} {p : Procedure Answer} {s : Store} (hacts : c.rest.Acts S.store ds p s) :
    s = S.store ∨ ∃ q m, ds = [.asked q l.store] ∧ c.op.May svc.timeouts q l ∧ q.Makes l m ∧
      s = m.store := by
  obtain ⟨k₀, k, -, -, hk, -, hmeets⟩ := (h.clients c (List.mem_of_getElem? hi)).meets
  rw [h.store] at hacts ⊢
  generalize c.rest = rest at hacts hmeets
  cases hacts with
  | @asked q next s r run =>
    obtain ⟨hmay, -⟩ := hmeets l hk
    rw [Statement.run_store h.coherent.legible] at run
    obtain ⟨r', hr', rfl⟩ := exists_of_map_eq_ok run
    exact .inr ⟨q, r'.2, rfl, hmay, Statement.makes hr', rfl⟩
  | _ => exact .inl rfl

/-- **Deeds come behind deeds, each done on a ledger that has evolved from the one before.** -/
theorem Leads.deeds (h : Leads svc S S') (hl : S.Follows svc l) (i : Nat) :
    ∃ new, S'.deedsOf i = S.deedsOf i ++ new ∧
      ∀ q s, .asked q s ∈ new → ∃ k : Ledger, s = k.store ∧ l.Evolves svc.timeouts k := by
  induction h with
  | refl => exact ⟨[], (List.append_nil _).symm, fun q s hd => absurd hd List.not_mem_nil⟩
  | @tail T T' hleads hmove ih =>
    obtain ⟨new, hnew, hon⟩ := ih
    obtain ⟨m, hm, hfollows⟩ := Leads.follows hleads hl
    cases hmove with
    | begin op shown => exact ⟨new, by rw [deedsOf_begin, hnew], hon⟩
    | @act j c ds p s client acts =>
      refine ⟨new ++ if i = j then ds else [], ?_, fun q s₀ hd => ?_⟩
      · rw [deedsOf_act client, hnew, List.append_assoc]
      · rcases List.mem_append.mp hd with hd | hd
        · exact hon q s₀ hd
        · split at hd
          · exact ⟨m, by rw [(acts.eq_asked hd).2, hfollows.store], hm⟩
          · cases hd

theorem Leads.client (h : Leads svc S S') {i : Nat} {c : Client} (hi : S.clients[i]? = some c) :
    ∃ c', S'.clients[i]? = some c' ∧ c'.op = c.op ∧ c'.begun = c.begun := by
  induction h with
  | refl => exact ⟨c, hi, rfl, rfl⟩
  | tail _ hmove ih =>
    obtain ⟨c', hi', hop, hbegun⟩ := ih
    cases hmove with
    | begin op shown =>
      obtain ⟨hlt, -⟩ := List.getElem?_eq_some_iff.mp hi'
      exact ⟨c', by rw [List.getElem?_append_left hlt, hi'], hop, hbegun⟩
    | @act j b ds p s client acts =>
      by_cases hij : j = i
      · subst hij
        obtain ⟨hlt, -⟩ := List.getElem?_eq_some_iff.mp client
        rw [client] at hi'
        cases hi'
        exact ⟨_, List.getElem?_set_self hlt, hop, hbegun⟩
      · exact ⟨c', by rw [List.getElem?_set_ne hij, hi'], hop, hbegun⟩

/-- The client at the place `i` has done the deed `d` last. -/
structure LastDid (S : System) (i : Nat) (op : Operation) (d : Deed) : Prop where
  client : ∃ c ds, S.clients[i]? = some c ∧ c.op = op ∧ c.deeds = ds ++ [d]

/-- **What holds of a store has been brought about.**  A fact about stores that does not hold of
    the empty one came to hold by the deed of some client. -/
theorem Reachable.caused {F : Store → Prop} {P : Operation → Deed → Prop} (h : Reachable svc S)
    (hempty : ¬F .empty)
    (hstep : ∀ {op q l m}, l.Coherent svc.timeouts → op.May svc.timeouts q l → q.Makes l m →
      F m.store → F l.store ∨ P op (.asked q l.store))
    (hF : F S.store) :
    ∃ S₁, Reachable svc S₁ ∧ Leads svc S₁ S ∧ F S₁.store ∧
      ∃ i op d, S₁.LastDid i op d ∧ P op d := by
  induction h with
  | refl => exact absurd hF hempty
  | @tail S S' hreach hmove ih =>
    have hsooner (hF : F S.store) : ∃ S₁, Reachable svc S₁ ∧ Leads svc S₁ S' ∧ F S₁.store ∧
        ∃ i op d, S₁.LastDid i op d ∧ P op d := by
      obtain ⟨S₁, hreach₁, hleads, hthere⟩ := ih hF
      exact ⟨S₁, hreach₁, hleads.tail hmove, hthere⟩
    obtain ⟨l, hl⟩ := Reachable.follows hreach
    have hreach' : Reachable svc S' := hreach.tail hmove
    cases hmove with
    | begin op shown => exact hsooner hF
    | @act i c ds p s client acts =>
      rcases hl.acts client acts with rfl | ⟨q, m, rfl, hmay, hmakes, rfl⟩
      · exact hsooner hF
      rcases hstep hl.coherent hmay hmakes hF with hbefore | hP
      · exact hsooner (hl.store ▸ hbefore)
      · obtain ⟨hlt, -⟩ := List.getElem?_eq_some_iff.mp client
        exact ⟨_, hreach', .refl, hF, i, c.op, _,
          ⟨_, c.deeds, List.getElem?_set_self hlt, rfl, rfl⟩, hP⟩

theorem LastDid.mem {i : Nat} {d : Deed} (h : S.LastDid i op d) (hl : S.Follows svc l)
    (hleads : Leads svc S S') : ∃ c, S'.clients[i]? = some c ∧ c.op = op ∧ d ∈ c.deeds := by
  obtain ⟨b, ds, hb, hop, hdeeds⟩ := h.client
  obtain ⟨c, hi, hcop, -⟩ := hleads.client hb
  obtain ⟨new, hnew, -⟩ := hleads.deeds hl i
  rw [deedsOf_eq hi, deedsOf_eq hb, hdeeds] at hnew
  exact ⟨c, hi, hcop.trans hop, by simp [hnew]⟩

end System

/-! ### Recording -/

/-- The identifier under which the operation records a transfer. -/
def Operation.recorded? : Operation → Option String
  | .initiate id _ _ => some id
  | _ => none

theorem Operation.May.recorded {op : Operation} {t : Transfer}
    (h : op.May timeouts (.insertTransfer t) l) : op.recorded?.isSome = true := by
  have hwrites := h.writes rfl
  cases op <;> simp [Operation.Writes] at hwrites
  rfl

/-- What a statement adds to the transfers it inserts. -/
theorem Statement.Makes.recorded {q : Statement} (h : q.Makes l m) {u : Transfer}
    (hu : u ∈ m.transfers) (hnew : ∀ v ∈ l.transfers, v.id ≠ u.id) :
    ∃ t, q = .insertTransfer t ∧ t.id = u.id := by
  cases h with
  | reads reads => exact absurd rfl (hnew u hu)
  | transfer inserted =>
    obtain ⟨-, rfl⟩ := Ledger.eq_of_insertTransfer inserted
    rcases List.mem_append.mp hu with hu | hu
    · exact absurd rfl (hnew u hu)
    · rw [List.mem_singleton.mp hu]
      exact ⟨_, rfl, rfl⟩
  | steps inserted =>
    rw [Ledger.eq_of_insertSteps inserted] at hu
    exact absurd rfl (hnew u hu)
  | settled terminal => exact absurd rfl (hnew u hu)
  | stamped =>
    obtain ⟨v, hv, rfl⟩ := List.mem_map.mp hu
    refine absurd ?_ (hnew v hv)
    split <;> rfl

/-- Whoever inserts something asks one statement. -/
theorem Inserts.of_asked {α τ : Type} {reads : τ → List Instant} {q : τ → Statement}
    {entry : Instant → Audit.Entry} {made : τ → α} {b : Except Halt α} {ds : List Deed}
    (h : Inserts reads q entry made b ds) {q' : Statement} {s : Store} (hd : .asked q' s ∈ ds) :
    (∃ time, q' = q time) ∧ ∀ q'' k, .asked q'' k ∈ ds → k = s := by
  have hreads (time : τ) (q'' : Statement) (k : Store) :
      .asked q'' k ∉ (reads time).map Deed.read := by
    simp
  cases h with
  | failed fails =>
    simp only [List.mem_append, hreads, List.mem_cons, Deed.asked.injEq, List.not_mem_nil, false_or,
      or_false] at hd ⊢
    obtain ⟨rfl, rfl⟩ := hd
    exact ⟨⟨_, rfl⟩, fun q'' k hk => hk.2⟩
  | inserted runs =>
    simp only [List.mem_append, hreads, List.mem_cons, Deed.asked.injEq, reduceCtorEq,
      List.not_mem_nil, false_or, or_false] at hd ⊢
    obtain ⟨rfl, rfl⟩ := hd
    exact ⟨⟨_, rfl⟩, fun q'' k hk => hk.2⟩

/-- The transfer that a call has asked to record is the one that it names. -/
theorem Operation.Account.recorded {op : Operation} {a : Except Halt Answer} {ds : List Deed}
    (h : op.Account svc a ds) (hop : op.recorded?.isSome = true) {t : Transfer} {s : Store}
    (hd : .asked (.insertTransfer t) s ∈ ds) :
    op.recorded? = some t.id ∧ ∀ q k, .asked q k ∈ ds → k = s := by
  cases op with
  | initiate id p initiator =>
    obtain ⟨b, -, h⟩ := h
    obtain ⟨⟨time, ht⟩, honce⟩ := h.of_asked hd
    cases ht
    exact ⟨rfl, honce⟩
  | _ => cases hop

/-- A transfer that is there has been recorded by some call, on a store where it was not. -/
theorem System.Reachable.recorded (h : System.Reachable svc S)
    (hended : ∀ c ∈ S.clients, ∃ a, c.answer? = some a) {row : TransferRow}
    (hrow : row ∈ S.store.transfers) :
    ∃ (j : Nat) (c : Client) (t : Transfer) (s : Store), S.clients[j]? = some c ∧
      c.op.recorded? = some row.id ∧ .asked (.insertTransfer t) s ∈ c.deeds ∧
      ∀ old ∈ s.transfers, old.id ≠ row.id := by
  obtain ⟨S₁, hreach₁, hleads, -, j, op, d, hdid, hop, t, s, rfl, htid, hfree⟩ :=
    h.caused (F := fun s => ∃ stored ∈ s.transfers, stored.id = row.id)
      (P := fun op d => op.recorded?.isSome = true ∧ ∃ t s, d = .asked (.insertTransfer t) s ∧
        t.id = row.id ∧ ∀ old ∈ s.transfers, old.id ≠ row.id)
      (by simp [Store.empty])
      (by
        intro op q l m hl hmay hmakes hF
        by_cases hthere : ∃ stored ∈ l.store.transfers, stored.id = row.id
        · exact .inl hthere
        obtain ⟨stored, hstored, hid⟩ := hF
        obtain ⟨u, hu, rfl⟩ := List.mem_map.mp hstored
        obtain ⟨t, rfl, htid⟩ := hmakes.recorded hu fun v hv hvid =>
          hthere ⟨.ofTransfer v, List.mem_map_of_mem hv, hvid.trans hid⟩
        refine .inr ⟨hmay.recorded, t, l.store, rfl, htid.trans hid, ?_⟩
        intro old hold hoid
        exact hthere ⟨old, hold, hoid⟩)
      ⟨row, hrow, rfl⟩
  obtain ⟨l₁, hl₁⟩ := hreach₁.follows
  obtain ⟨c, hc, rfl, hd⟩ := hdid.mem hl₁ hleads
  obtain ⟨a, ha⟩ := hended c (List.mem_of_getElem? hc)
  have haccount := h.account Operation.tells (List.mem_of_getElem? hc) ha
  refine ⟨j, c, t, s, hc, ?_, hd, hfree⟩
  rw [(haccount.recorded hop hd).1, htid]

end SignOff
