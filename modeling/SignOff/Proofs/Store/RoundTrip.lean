/-
  SignOff/Proofs/Store/RoundTrip.lean
  ===================================
  **What is written can be read back.**  A row gives back the record it was made from
  (`transfer_ofTransfer`, `step_ofStep`), provided that the years of its instants have four
  digits.  Two things may change on the way.  A row knows the kind of an owner by its name
  alone, so a kind that has the name of a built-in one comes back as that one.  And it
  knows an instant by its text, which is always that of an instant of universal time.
  `asRead` is the record with this done; it makes the same row, and reading a second time
  changes nothing more.
-/
import SignOff.Store.Row
import SignOff.Proofs.Time.Column

namespace SignOff

/-! ### Readings that succeed -/

section Readings

variable {ε α β : Type} {x : Except ε α}

theorem ok_bind (a : α) (f : α → Except ε β) : (Except.ok a >>= f) = f a := rfl

theorem exists_of_bind_eq_ok {f : α → Except ε β} {b : β} (h : (x >>= f) = .ok b) :
    ∃ a, x = .ok a ∧ f a = .ok b := by
  cases x with
  | error why => cases h
  | ok a => exact ⟨a, rfl, h⟩

theorem exists_of_map_eq_ok {f : α → β} {b : β} (h : x.map f = .ok b) :
    ∃ a, x = .ok a ∧ f a = b := by
  cases x with
  | error why => cases h
  | ok a => exact ⟨a, rfl, Except.ok.inj h⟩

theorem map_eq_error_iff {f : α → β} {why : ε} : x.map f = .error why ↔ x = .error why := by
  cases x <;> simp [Except.map]

theorem mapError_eq_ok_iff {ε' : Type} {f : ε → ε'} {a : α} :
    x.mapError f = .ok a ↔ x = .ok a := by
  cases x <;> simp [Except.mapError]

end Readings

/-! ### Names -/

theorem ApprovalType.ofName?_name (k : ApprovalType) : ofName? k.name = some k := by
  cases k <;> decide

theorem ApprovalType.name_inj {a b : ApprovalType} : a.name = b.name ↔ a = b := by
  cases a <;> cases b <;> decide

theorem ApprovalType.name_of_ofName? {s : String} {k : ApprovalType} (h : ofName? s = some k) :
    k.name = s := by
  simpa using List.find?_some h

theorem Outcome.ofName?_name (o : Outcome) : ofName? o.name = some o := by
  cases o <;> decide

theorem Outcome.name_inj {a b : Outcome} : a.name = b.name ↔ a = b := by
  cases a <;> cases b <;> decide

theorem Outcome.name_of_ofName? {s : String} {o : Outcome} (h : ofName? s = some o) :
    o.name = s := by
  simpa using List.find?_some h

/-! ### Owners -/

namespace Owner

/-- The owner as a row gives it back: with the kind that has the same name. -/
def asRead (o : Owner) : Owner := ofNames o.kind.name o.id

@[simp] theorem kind_name_asRead (o : Owner) : o.asRead.kind.name = o.kind.name :=
  OwnerKind.name_ofName _

@[simp] theorem id_asRead (o : Owner) : o.asRead.id = o.id := rfl

@[simp] theorem asRead_asRead (o : Owner) : o.asRead.asRead = o.asRead := by
  rw [asRead, kind_name_asRead, id_asRead, asRead]

theorem ofHalves_map (o : Option Owner) :
    ofHalves (o.map fun x => x.kind.name) (o.map fun x => x.id) = o.map asRead := by
  cases o <;> rfl

/-- The columns of an owner that was read are those it was read from. -/
theorem map_asRead_columns (o : Option Owner) :
    ((o.map asRead).map fun x => x.kind.name) = o.map (fun x => x.kind.name) ∧
      ((o.map asRead).map fun x => x.id) = o.map fun x => x.id := by
  cases o <;> simp

theorem map_asRead_asRead (o : Option Owner) : (o.map asRead).map asRead = o.map asRead := by
  cases o <;> simp

/-- The kind of the owner is one that a name stands for. -/
def Parsed (o : Owner) : Prop := ∃ name, o.kind = .ofName name

theorem Parsed.asRead {o : Owner} (h : o.Parsed) : o.asRead = o := by
  obtain ⟨name, hname⟩ := h
  rw [Owner.asRead, ofNames, hname, OwnerKind.name_ofName, ← hname]

theorem asRead_eq_self_iff {o : Owner} : o.asRead = o ↔ o.Parsed := by
  refine ⟨fun h => ⟨o.kind.name, ?_⟩, Parsed.asRead⟩
  exact (congrArg Owner.kind h).symm

end Owner

/-- A value that may be missing stays as it is if it does so when it is there. -/
theorem map_eq_self_iff {α : Type} {f : α → α} {o : Option α} :
    o.map f = o ↔ ∀ x ∈ o, f x = x := by
  cases o <;> simp

/-! ### Columns of instants -/

theorem instantColumn_columnText {t : Instant} (h : t.InYears) (column : String) :
    instantColumn column t.columnText = .ok t.shown := by
  simp only [instantColumn, Instant.ofColumn_columnText h]

theorem instantColumn_of_keepable {t : Instant} (h : t.Keepable) (column : String) :
    instantColumn column t.columnText = .ok t := by
  rw [instantColumn_columnText h.1, h.shown_eq]

theorem instantColumn?_map {t : Option Instant} (h : ∀ x ∈ t, x.InYears) (column : String) :
    instantColumn? column (t.map Instant.columnText) = .ok (t.map Instant.shown) := by
  cases t with
  | none => rfl
  | some x =>
    simp only [Option.map_some, instantColumn?, instantColumn_columnText (h x rfl)]
    rfl

theorem columnText_shown (t : Instant) : t.shown.columnText = t.columnText := by
  rw [Instant.columnText, Instant.chars_shown, ← Instant.columnText]

theorem map_columnText_shown (t : Option Instant) :
    (t.map Instant.shown).map Instant.columnText = t.map Instant.columnText := by
  cases t with
  | none => rfl
  | some x => simp only [Option.map_some, columnText_shown]

/-! ### Transfers -/

namespace Transfer

/-- The transfer as it is read back. -/
def asRead (t : Transfer) : Transfer :=
  { t with
    source := t.source.asRead, target := t.target.asRead
    initiatedBy := t.initiatedBy.map Owner.asRead
    createdAt := t.createdAt.shown, completedAt := t.completedAt.map Instant.shown }

/-- All instants of the transfer are such ones. -/
structure AllInstants (P : Instant → Prop) (t : Transfer) : Prop where
  created : P t.createdAt
  completed : ∀ x ∈ t.completedAt, P x

/-- A row can keep the instants of the transfer. -/
abbrev Keepable (t : Transfer) : Prop := t.AllInstants Instant.Keepable

theorem AllInstants.imp {P Q : Instant → Prop} {t : Transfer} (h : t.AllInstants P)
    (hpq : ∀ x, P x → Q x) : t.AllInstants Q :=
  ⟨hpq _ h.created, fun x hx => hpq x (h.completed x hx)⟩

theorem Keepable.inYears {t : Transfer} (h : t.Keepable) : t.AllInstants Instant.InYears :=
  h.imp fun _ => And.left

theorem asRead_asRead (t : Transfer) : t.asRead.asRead = t.asRead := by
  simp only [asRead, Owner.asRead_asRead, Owner.map_asRead_asRead, Instant.shown_shown,
    Instant.map_shown_shown]

theorem approver_asRead (t : Transfer) (k : ApprovalType) :
    t.asRead.approver k = (t.approver k).map Owner.asRead := by
  cases k <;> rfl

theorem Keepable.asRead {t : Transfer} (h : t.Keepable) : t.asRead.Keepable :=
  ⟨h.created.shown, Instant.forall_mem_map_shown fun x hx => (h.completed x hx).shown⟩

end Transfer

theorem TransferRow.ofTransfer_asRead (t : Transfer) : ofTransfer t.asRead = ofTransfer t := by
  have hcolumns := Owner.map_asRead_columns t.initiatedBy
  simp only [ofTransfer, Transfer.asRead, Owner.kind_name_asRead, Owner.id_asRead, hcolumns,
    columnText_shown, map_columnText_shown]

theorem TransferRow.flag_ne_zero (b : Bool) : decide (flag b ≠ 0) = b := by
  cases b <;> rfl

/-- **The row of a transfer gives the transfer back.** -/
theorem TransferRow.transfer_ofTransfer {t : Transfer} (h : t.AllInstants Instant.InYears) :
    (ofTransfer t).transfer = .ok t.asRead := by
  have hcreated : instantColumn "created_at" (ofTransfer t).createdAt = .ok t.createdAt.shown :=
    instantColumn_columnText h.created _
  have hcompleted : instantColumn? "completed_at" (ofTransfer t).completedAt =
      .ok (t.completedAt.map Instant.shown) :=
    instantColumn?_map h.completed _
  simp only [transfer, hcreated, hcompleted, bind, Except.bind]
  simp only [ofTransfer, Owner.ofHalves_map, Transfer.asRead, Owner.asRead, Except.ok.injEq,
    Transfer.mk.injEq, true_and, and_true]
  exact ⟨flag_ne_zero _, flag_ne_zero _, flag_ne_zero _⟩

/-! ### Steps -/

namespace Step

/-- The step as it is read back. -/
def asRead (x : Step) : Step :=
  { x with
    approver := x.approver.map Owner.asRead, resolvedBy := x.resolvedBy.map Owner.asRead
    resolvedAt := x.resolvedAt.map Instant.shown, createdAt := x.createdAt.shown }

/-- All instants of the step are such ones. -/
structure AllInstants (P : Instant → Prop) (x : Step) : Prop where
  created : P x.createdAt
  resolved : ∀ t ∈ x.resolvedAt, P t

/-- A row can keep the instants of the step. -/
abbrev Keepable (x : Step) : Prop := x.AllInstants Instant.Keepable

theorem AllInstants.imp {P Q : Instant → Prop} {x : Step} (h : x.AllInstants P)
    (hpq : ∀ t, P t → Q t) : x.AllInstants Q :=
  ⟨hpq _ h.created, fun t ht => hpq t (h.resolved t ht)⟩

theorem Keepable.inYears {x : Step} (h : x.Keepable) : x.AllInstants Instant.InYears :=
  h.imp fun _ => And.left

theorem asRead_asRead (x : Step) : x.asRead.asRead = x.asRead := by
  simp only [asRead, Owner.map_asRead_asRead, Instant.shown_shown, Instant.map_shown_shown]

theorem Keepable.asRead {x : Step} (h : x.Keepable) : x.asRead.Keepable :=
  ⟨h.created.shown, Instant.forall_mem_map_shown fun t ht => (h.resolved t ht).shown⟩

end Step

theorem StepRow.ofStep_asRead (x : Step) : ofStep x.asRead = ofStep x := by
  have happrover := Owner.map_asRead_columns x.approver
  have hresolver := Owner.map_asRead_columns x.resolvedBy
  simp only [ofStep, Step.asRead, happrover, hresolver, columnText_shown, map_columnText_shown]

theorem StepRow.hours_toNat (n : UInt32) : hours (n.toNat : Int) = .ok n := by
  have hlt : n.toNat < 4294967296 := n.toNat_lt
  have hlow : ¬((n.toNat : Int) < 0) := by omega
  have hhigh : (n.toNat : Int) < 4294967296 := by omega
  rw [hours, if_neg hlow, if_pos hhigh, Int.toNat_natCast, UInt32.ofNat_toNat]

/-- The columns of the row are those of the step. -/
structure StepRow.Holds (r : StepRow) (x : Step) : Prop where
  id : x.id = r.id
  transferId : x.transferId = r.transferId
  type : ApprovalType.ofName? r.type = some x.type
  approver : x.approver = Owner.ofHalves r.approverType r.approverId
  hours : hours r.timeoutHours = .ok x.timeoutHours
  outcome : Outcome.ofName? r.outcome = some x.outcome
  resolvedBy : x.resolvedBy = Owner.ofHalves r.resolvedByType r.resolvedById
  resolvedAt : instantColumn? "resolved_at" r.resolvedAt = .ok x.resolvedAt
  notes : x.notes = r.notes
  createdAt : instantColumn "created_at" r.createdAt = .ok x.createdAt

/-- A row gives the step that its columns hold, and no other. -/
theorem StepRow.step_eq_ok_iff {r : StepRow} {x : Step} : r.step = .ok x ↔ r.Holds x := by
  constructor
  · intro h
    rw [step] at h
    split at h
    · next type htype =>
      obtain ⟨type', hsame, h⟩ := exists_of_bind_eq_ok h
      cases hsame
      dsimp only at h
      split at h
      · next outcome houtcome =>
        obtain ⟨outcome', hsame, h⟩ := exists_of_bind_eq_ok h
        cases hsame
        obtain ⟨n, hn, h⟩ := exists_of_bind_eq_ok h
        obtain ⟨created, hcreated, h⟩ := exists_of_bind_eq_ok h
        obtain ⟨resolved, hresolved, h⟩ := exists_of_bind_eq_ok h
        cases h
        exact ⟨rfl, rfl, htype, rfl, hn, houtcome, rfl, hresolved, rfl, hcreated⟩
      · cases h
    · cases h
  · rintro ⟨hid, htransfer, htype, happrover, hhours, houtcome, hresolver, hresolved, hnotes, hcreated⟩
    simp only [step, htype, houtcome, hhours, hcreated, hresolved, bind, Except.bind]
    simp only [← hid, ← htransfer, ← happrover, ← hresolver, ← hnotes]

/-- **The row of a step gives the step back.** -/
theorem StepRow.step_ofStep {x : Step} (h : x.AllInstants Instant.InYears) :
    (ofStep x).step = .ok x.asRead := by
  refine step_eq_ok_iff.mpr ⟨rfl, rfl, x.type.ofName?_name, ?_, hours_toNat _,
    x.outcome.ofName?_name, ?_, instantColumn?_map h.resolved _, rfl,
    instantColumn_columnText h.created _⟩
  · exact (Owner.ofHalves_map x.approver).symm
  · exact (Owner.ofHalves_map x.resolvedBy).symm

end SignOff
