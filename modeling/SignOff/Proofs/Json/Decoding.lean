/-
  SignOff/Proofs/Json/Decoding.lean
  =================================
  **Records are read back from JSON.**  An object with a field for every name is taken apart
  into the values of its fields (`slots?_obj`); each value is then read back by the reader of
  its type.  An owner comes back with the kind that has the name of its kind
  (`Owner.ofJson?_toJson`), which for a kind that was found by its name is the kind itself;
  an instant comes back as the one that its text shows, which for one of universal time is
  that one.

  An entry of the audit trail is so read back from its line (`Entry.ofLine?_line`), and the
  line is one line: its bytes stay together (`Entry.unbroken_line`).
-/
import SignOff.Audit.Entry
import SignOff.Proofs.Json.Reading
import SignOff.Proofs.Store.RoundTrip
import SignOff.Proofs.Text.Lines
import SignOff.Proofs.Time.Reading

namespace SignOff

namespace Json

/-! ### Fields -/

theorem mapM_eq_some {α β : Type} {f : α → Option β} {g : α → β} {l : List α}
    (h : ∀ a ∈ l, f a = some (g a)) : l.mapM f = some (l.map g) := by
  induction l with
  | nil => rfl
  | cons a l ih =>
    have hrest := ih fun b hb => h b (List.mem_cons_of_mem a hb)
    rw [List.mapM_cons, h a List.mem_cons_self, hrest]
    rfl

/-- Under different names a field is the only one of its name. -/
theorem filter_name {fields : List (String × Json)} (h : (fields.map Prod.fst).Nodup)
    {f : String × Json} (hf : f ∈ fields) : fields.filter (fun g => g.1 = f.1) = [f] := by
  induction fields with
  | nil => cases hf
  | cons g rest ih =>
    rw [List.map_cons, List.nodup_cons] at h
    rcases List.mem_cons.mp hf with rfl | hrest
    · have hnone : rest.filter (fun g => g.1 = f.1) = [] :=
        List.filter_eq_nil_iff.mpr fun g hg heq =>
          h.1 (of_decide_eq_true heq ▸ List.mem_map_of_mem hg)
      simp [hnone]
    · have hne : g.1 ≠ f.1 := fun heq => h.1 (heq ▸ List.mem_map_of_mem hrest)
      simp [hne, ih h.2 hrest]

/-- An object with exactly the fields of a record is taken apart into their values. -/
theorem slots?_obj {names : List String} {fields : List (String × Json)} (h : names.Nodup)
    (hfields : fields.map Prod.fst = names) :
    slots? names (.obj fields) = some (fields.map fun f => .given f.2) := by
  subst hfields
  rw [slots?, List.mapM_map]
  exact mapM_eq_some fun f hf => by simp [filter_name h hf]

/-- A value that may be missing is read if the value itself is. -/
theorem optional_map {α : Type} {decode : Json → Option α} {encode : α → Json} {read : α → α}
    (hread : ∀ a, decode (encode a) = some (read a)) (hnull : ∀ a, encode a ≠ .null)
    (x : Option α) : optional decode (.given (ofOption encode x)) = some (x.map read) := by
  cases x with
  | none => rfl
  | some a =>
    rw [ofOption, optional, nullable, hread a]
    · rfl
    · exact hnull a

theorem optional_ofOption {α : Type} {decode : Json → Option α} {encode : α → Json}
    (hread : ∀ a, decode (encode a) = some a) (hnull : ∀ a, encode a ≠ .null) (x : Option α) :
    optional decode (.given (ofOption encode x)) = some x := by
  rw [optional_map hread hnull, Option.map_id']

theorem optional_ofText? (x : Option String) : optional text? (.given (ofText? x)) = some x := by
  rw [ofText?, optional_ofOption]
  · intro s
    rfl
  · intro s h
    cases h

/-! ### Plain values -/

@[simp] theorem plain_null : Plain .null := rfl

@[simp] theorem plain_str (s : String) : Plain (.str s) := rfl

@[simp] theorem plainFields_nil : PlainFields [] := rfl

theorem plain_ofOption {α : Type} {encode : α → Json} (h : ∀ a, Plain (encode a))
    (x : Option α) : Plain (ofOption encode x) := by
  cases x with
  | none => rfl
  | some a => exact h a

end Json

open Json

/-! ### Owners, names and instants -/

theorem Instant.ofJson?_toJson (t : Instant) : Instant.ofJson? t.toJson = some t.shown :=
  t.ofText?_text

theorem optional_instant (x : Option Instant) :
    optional Instant.ofJson? (.given (ofOption Instant.toJson x)) = some (x.map Instant.shown) := by
  apply optional_map Instant.ofJson?_toJson
  intro t h
  cases h

theorem State.ofName?_name (x : State) : ofName? x.name = some x := by
  cases x <;> decide

theorem Audit.Event.ofName?_name (x : Event) : ofName? x.name = some x := by
  cases x <;> decide

/-- An owner comes back with the kind that has the name of its kind. -/
theorem Owner.ofJson?_toJson (o : Owner) : Owner.ofJson? o.toJson = some o.asRead := by
  have hslots : slots? Owner.fieldNames o.toJson =
      some [.given o.kind.toJson, .given (.str o.id)] :=
    slots?_obj (by decide) rfl
  rw [ofJson?, hslots]
  rfl

theorem optional_owner (x : Option Owner) :
    optional Owner.ofJson? (.given (ofOption Owner.toJson x)) = some (x.map Owner.asRead) := by
  apply optional_map Owner.ofJson?_toJson
  intro o h
  cases h

/-! ### Entries -/

namespace Audit.Entry

/-- The entry as it is read back. -/
def asRead (e : Entry) : Entry :=
  { e with timestamp := e.timestamp.shown, actor := e.actor.map Owner.asRead }

/-- Nothing of the entry is lost in its line: its owner has a kind that its name stands for, and
    its instant is one of universal time. -/
structure Faithful (e : Entry) : Prop where
  actor : ∀ o ∈ e.actor, o.Parsed
  utc : e.timestamp.IsUtc

theorem asRead_eq_self_iff {e : Entry} : e.asRead = e ↔ e.Faithful := by
  have hfields : e.asRead = e ↔
      e.timestamp.shown = e.timestamp ∧ e.actor.map Owner.asRead = e.actor := by
    cases e
    simp [asRead]
  simp only [hfields, Instant.shown_eq_self_iff, map_eq_self_iff, Owner.asRead_eq_self_iff]
  exact ⟨fun h => ⟨h.2, h.1⟩, fun h => ⟨h.utc, h.actor⟩⟩

theorem Faithful.asRead_eq {e : Entry} (h : e.Faithful) : e.asRead = e := asRead_eq_self_iff.mpr h

theorem ofJson?_toJson (e : Entry) : ofJson? e.toJson = some e.asRead := by
  have hslots : slots? fieldNames e.toJson =
      some [.given e.timestamp.toJson, .given (.str e.event.name), .given (ofText? e.transferId),
        .given (ofText? e.stepId), .given (ofOption (fun t => .str t.name) e.type),
        .given (ofOption Owner.toJson e.actor), .given (ofOption (fun s => .str s.name) e.state),
        .given (ofText? e.notes), .given (ofText? e.reason)] :=
    slots?_obj (by decide) rfl
  have htype : optional ApprovalType.ofJson? (.given (ofOption (fun t => .str t.name) e.type)) =
      some e.type :=
    optional_ofOption ApprovalType.ofName?_name (fun _ heq => by cases heq) e.type
  have hstate : optional State.ofJson? (.given (ofOption (fun x => .str x.name) e.state)) =
      some e.state :=
    optional_ofOption State.ofName?_name (fun _ heq => by cases heq) e.state
  rw [ofJson?, hslots]
  simp [required, Instant.ofJson?_toJson, Event.ofJson?, named?, Event.ofName?_name,
    optional_ofText?, htype, optional_owner, hstate, asRead]

theorem plain_toJson (e : Entry) : e.toJson.Plain := by
  have howner : ∀ o : Owner, Plain o.toJson := fun o => by simp [Owner.toJson, OwnerKind.toJson]
  simp [toJson, Instant.toJson, ofText?, plain_ofOption, howner]

/-- **An entry is read back from its line.** -/
theorem ofLine?_line (e : Entry) : ofLine? e.line = some e.asRead := by
  rw [ofLine?, line, parse?_compact e.plain_toJson, Option.bind_some, ofJson?_toJson]

theorem unbroken_line (e : Entry) : Text.Unbroken (Text.bytesOf e.line) := by
  apply Text.Unbroken.of_text
  rw [line, compact, String.toList_ofList]
  exact le_of_mem_compactChars e.toJson e.plain_toJson

end Audit.Entry

end SignOff
