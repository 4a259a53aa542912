/-
  SignOff/Proofs/Workflow/Completing.lean
  =======================================
  **How a completion ends.**  The state is checked first and the stamp put later, by a
  statement that only takes effect on a transfer without one.  An approved transfer stays
  approved, so the stamp is admissible whatever others did in between (`complete_meets`).
-/
import SignOff.Proofs.Workflow.Reading

namespace SignOff

/-- The ends of a completion that began in the ledger `l`. -/
inductive CompletionEnds (R : Ledger → Ledger → Prop) (id : String) (l : Ledger) :
    Procedure.Post Transfer
  /-- the state could not be checked -/
  | unchecked {time : Instant} {why : Halt} {ds : List Deed} {m : Ledger} (keepable : time.Keepable)
      (check : StatusEnds R id time [.read time] l (.error why) ds m) :
      CompletionEnds R id l (.error why) ds m
  | notApproved {time : Instant} {s : Status} {ds : List Deed} {m : Ledger}
      (keepable : time.Keepable)
      (check : StatusEnds R id time [.read time] l (.ok s) ds m) (state : s.state ≠ .approved) :
      CompletionEnds R id l (.error (.failed (.notApproved id s.state))) ds m
  /-- someone else was faster -/
  | already {time stamp : Instant} {s : Status} {ds : List Deed} {k m : Ledger}
      (keepable : time.Keepable)
      (check : StatusEnds R id time [.read time] l (.ok s) ds k) (state : s.state = .approved)
      (after : R k m) (closed : m.transfers.any (Ledger.isOpenTransfer id) = false) :
      CompletionEnds R id l (.error (.failed (.completedAlready id)))
        (ds ++ [.read stamp, .asked (.complete id stamp) m.store]) m
  | completed {time stamp last : Instant} {e : Audit.Entry} {s : Status} {ds : List Deed}
      {t : Transfer} {k m n : Ledger} (keepable : time.Keepable)
      (check : StatusEnds R id time [.read time] l (.ok s) ds k) (state : s.state = .approved)
      (after : R k m) (transfer : t ∈ m.transfers) (id_eq : t.id = id)
      (unstamped : t.completedAt = none) (stampable : stamp.Keepable)
      (later : R (m.stamp id stamp) n) (stored : t.completed stamp ∈ n.transfers) :
      CompletionEnds R id l (.ok (t.completed stamp))
        (ds ++ [.read stamp, .asked (.complete id stamp) m.store, .read last, .noted e,
          .asked (.findTransfer id) n.store]) n

theorem StatusEnds.approved {timeouts : Timeouts} {R : Ledger → Ledger → Prop} {id : String}
    {time : Instant} {ds ds' : List Deed} {l m : Ledger} {s : Status}
    (h : StatusEnds R id time ds l (.ok s) ds' m) (hR : Rely timeouts R)
    (hl : l.Coherent timeouts) (hs : s.state = .approved) :
    ∃ t ∈ m.transfers, t.id = id ∧ m.Approved t := by
  cases h with
  | shown rely found after state =>
    obtain ⟨ht, hid⟩ := Ledger.mem_of_transfer? found
    have hk := (hR.evolves rely).coherent hl
    obtain ⟨u, hu, htu⟩ := (hR.evolves after).grows.mem_transfers ht
    cases hs
    have happroved := ((hR.evolves after).coherent hk).state_eq_approved_iff.mp state
    exact ⟨u, hu, htu.id_eq.trans hid, happroved.grows (.refl _) htu⟩

namespace Service

open Procedure

variable {timeouts : Timeouts} {R : Ledger → Ledger → Prop} {l : Ledger}

/-- **A completion ends in one of the ways of `CompletionEnds`.** -/
theorem complete_meets (hR : Rely timeouts R) (hl : l.Coherent timeouts) (id : String) :
    (complete id).Meets R ((Operation.complete id).May timeouts) (CompletionEnds R id l) [] l := by
  rw [complete, meets_bind]
  refine ((status_meets [] id).evolves hR).mono ?_
  rintro a ds k ⟨⟨time, htime, hcheck⟩, hk⟩
  cases a with
  | error why => exact .unchecked htime hcheck
  | ok s =>
    dsimp only
    by_cases hs : s.state = .approved
    · rw [if_pos hs]
      simp only [meets_bind, meets_now, meets_complete]
      intro stamp hstamp m hm
      have hmco := (hR.evolves hm).coherent (hk.coherent hl)
      -- approved when it was checked, hence approved now
      have happroved : ∀ t ∈ m.transfers, t.id = id → m.Approved t := by
        intro t ht hid
        obtain ⟨u, hu, huid, hua⟩ := hcheck.approved hR hl hs
        obtain ⟨v, hv, huv⟩ := (hR.evolves hm).grows.mem_transfers hu
        have hsame : v = t := hmco.transfer_ext hv ht (by rw [huv.id_eq, huid, hid])
        exact hsame ▸ hua.grows (hR.evolves hm).grows huv
      refine ⟨⟨⟨hstamp, happroved⟩, fun _ => ⟨stamp, rfl⟩⟩, ?_⟩
      cases hopen : m.transfers.any (Ledger.isOpenTransfer id) with
      | false =>
        have hsame : m.stamp id stamp = m := Ledger.stamp_of_closed hopen stamp
        rw [if_neg (by decide), meets_fail, hsame, List.append_assoc]
        exact .already htime hcheck hs hm hopen
      | true =>
        obtain ⟨t, ht, hthis⟩ := List.any_eq_true.mp hopen
        obtain ⟨rfl, hnone⟩ := Ledger.isOpenTransfer_iff.mp hthis
        simp only [if_true, meets_bind, meets_report, meets_require]
        intro last _ n hn
        have hnco := (hR.evolves hn).coherent (hmco.stamp hstamp happroved)
        have hmem : t.completed stamp ∈ n.transfers :=
          (hR.evolves hn).grows.mem_completed (Ledger.mem_stamp ht hnone stamp)
            (by simp [Transfer.completed])
        have hfind : n.transfer? t.id = some (t.completed stamp) :=
          hnco.transfer?_eq_some hmem
        rw [hfind]
        simp only [Option.elim, List.append_assoc, List.cons_append, List.nil_append]
        exact .completed htime hcheck hs hm ht rfl hnone hstamp hn hmem
    · rw [if_neg hs]
      exact .notApproved htime hcheck hs

end Service

end SignOff
