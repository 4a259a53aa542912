/-
  SignOff/Proofs/Workflow/Noting.lean
  ===================================
  **What calls note.**  Entries are written by hand, after the statements that they report and
  in places of their own.  Whichever operation a call is of, it inserts something, decides,
  completes or only reads (`Operation.Task`), and it reports exactly the changes that it has made
  (`Operation.Account.reports`): what is inserted is noted right after it, a decision once it
  has been read back, a completion once it is stamped.  A decision that is turned down notes
  why, and that is all it notes (`Ruling.Account.noted`).
-/
import SignOff.Proofs.Workflow.Change

namespace SignOff

open Audit

/-- The change that the entry reports. -/
def Audit.Entry.change? (e : Entry) : Option Change :=
  match e.event with
  | .transferInitiated => e.transferId.map .recorded
  | .stepApproved => e.stepId.map .decided
  | .stepRejected => e.stepId.map .decided
  | .transferCompleted => e.transferId.map .completed
  | _ => none

variable {svc : Service} {s : Store} {op : Operation} {a : Except Halt Answer} {ds : List Deed}
  {r : Ruling} {why : Error} {e : Entry}

/-! ### Changes and entries -/

theorem Ruling.change?_notice {x : Step} {state : State} {t : Instant} :
    (r.notice x state t).change? = some (.decided x.id) := by
  rw [notice, Entry.change?]
  cases r.outcome <;> rfl

theorem Ruling.change?_update {time : Instant} {k k' : Store}
    (h : (r.update time).run k = .ok (true, k')) :
    (r.update time).change? k = some (.decided r.stepId) := by
  rw [Statement.run, Store.resolve] at h
  split at h
  · next hterm =>
    simp only [Except.ok.injEq, Prod.mk.injEq] at h
    rw [Statement.change?, if_pos]
    simp [hterm, h.1]
  · cases h

theorem Deed.AllCalm.changes (h : Deed.AllCalm ds) : Deed.changes ds = [] := by
  apply List.filterMap_eq_nil_iff.mpr
  intro d hd
  cases d with
  | asked q s => exact Statement.change?_of_reads (h _ hd)
  | read t => rfl
  | noted e => rfl

theorem Inserts.reports {α τ : Type} {reads : τ → List Instant} {q : τ → Statement}
    {entry : Instant → Entry} {made : τ → α} {b : Except Halt α}
    (h : Inserts reads q entry made b ds)
    (hentry : ∀ {time last s r}, (q time).run s = .ok r →
      (entry last).change? = (q time).change? s) :
    (Deed.notes ds).filterMap Entry.change? = Deed.changes ds := by
  cases h with
  | @failed time s why fails =>
    have hcalm := Deed.allCalm_reads (reads time)
    rw [Deed.notes_append, Deed.changes_append, hcalm.notes, hcalm.changes]
    simp [Statement.change?_of_error fails]
  | @inserted time last s r runs =>
    have hcalm := Deed.allCalm_reads (reads time)
    have hsame : (entry last).change? = (q time).change? s := hentry runs
    rw [Deed.notes_append, Deed.changes_append, hcalm.notes, hcalm.changes]
    cases hchange : (q time).change? s <;> simp [hsame, hchange]

theorem Ruling.Account.reports {b : Except Halt Decision} (h : r.Account b ds)
    (hfailed : ∀ why, b = .error why → Deed.changes ds = []) :
    (Deed.notes ds).filterMap Entry.change? = Deed.changes ds := by
  cases h with
  | broken unnoted broke => rw [unnoted, hfailed _ rfl, List.filterMap_nil]
  | unknown unnoted kind => rw [unnoted, hfailed _ rfl, List.filterMap_nil]
  | unchecked calm => rw [calm.notes, calm.changes, List.filterMap_nil]
  | refused found calm kind =>
    rw [hfailed _ rfl, Deed.notes_append, calm.notes]
    rfl
  | late found calm lost =>
    rw [hfailed _ rfl, Deed.notes_append, calm.notes]
    rfl
  | unshown found calm won reread state =>
    rw [hfailed _ rfl, Deed.notes_append, calm.notes]
    rfl
  | @shown x y t time later last k k' s steps state ds found calm won reread hstate again =>
    have hid : y.id = r.stepId := by simpa using List.find?_some again
    have hread : Statement.change? s (.stepsOf t.id) = none := rfl
    rw [Deed.notes_append, Deed.changes_append, calm.notes, calm.changes]
    simp [change?_update won, change?_notice, hid, hread]

theorem CompletionAccount.reports {id : String} {b : Except Halt Transfer}
    (h : CompletionAccount id b ds) :
    (Deed.notes ds).filterMap Entry.change? = Deed.changes ds := by
  have hchange {time : Instant} {k k' : Store} {won : Bool} (h : k.complete id time = (won, k')) :
      Statement.change? k (.complete id time) = if won then some (.completed id) else none := by
    have hopen : k.transfers.any (Store.isOpenTransfer id) = won := congrArg Prod.fst h
    rw [Statement.change?, hopen]
  cases h with
  | broken calm broke => rw [calm.notes, calm.changes, List.filterMap_nil]
  | unstamped calm kind => rw [calm.notes, calm.changes, List.filterMap_nil]
  | late calm closed =>
    rw [Deed.notes_append, Deed.changes_append, calm.notes, calm.changes]
    simp [hchange closed]
  | @stamped b time last k k' s ds calm stamped lookedUp =>
    have hread : Statement.change? s (.findTransfer id) = none := rfl
    rw [Deed.notes_append, Deed.changes_append, calm.notes, calm.changes]
    simp [hchange stamped, hread, Entry.change?, Service.completion]

/-! ### Tasks -/

/-- What a call is about, whichever operation it is of. -/
inductive Operation.Task (op : Operation) (a : Except Halt Answer) (ds : List Deed) : Prop where
  /-- nothing, as no such step is needed -/
  | needless {id : String} {type : ApprovalType}
    (ends : a = .error (.failed (.notNeeded id type))) (idle : ds = [])
  /-- something is inserted; the statement and its entry are about the transfer that the
      operation records, if it records one -/
  | inserts {α τ : Type} {f : α → Answer} {reads : τ → List Instant} {q : τ → Statement}
    {entry : Instant → Entry} {made : τ → α} {b : Except Halt α} (ends : a = b.map f)
    (told : Inserts reads q entry made b ds)
    (changes : ∀ {time s r}, (q time).run s = .ok r →
      (q time).change? s = op.recorded?.map .recorded)
    (noted : ∀ last, (entry last).change? = op.recorded?.map .recorded)
  | decides {r : Ruling} {b : Except Halt Decision} (ruling : op.ruling? = some r)
    (ends : a = b.map .decision) (told : r.Account b ds)
  | completes {id : String} {b : Except Halt Transfer} (completion : op = .complete id)
    (ends : a = b.map .transfer) (told : CompletionAccount id b ds)
  | glances (told : Glances a ds)

theorem Operation.Account.task (h : op.Account svc a ds) : op.Task a ds := by
  cases op with
  | initiate id p initiator =>
    obtain ⟨b, ends, told⟩ := h
    refine .inserts ends told (fun {time s r} hr => ?_) fun _ => rfl
    obtain ⟨s', hs, -⟩ := exists_of_map_eq_ok hr
    exact Statement.change?_insertTransfer hs
  | plan ids t =>
    obtain ⟨b, ends, told⟩ := h
    exact .inserts ends told (fun _ => rfl) fun _ => rfl
  | createStep id t type actor =>
    obtain ⟨b, ends, ⟨rfl, idle⟩ | told⟩ := h
    · exact .needless ends idle
    · exact .inserts ends told (fun _ => rfl) fun _ => rfl
  | approve stepId actor notes =>
    obtain ⟨b, ends, told⟩ := h
    exact .decides rfl ends told
  | reject stepId actor notes =>
    obtain ⟨b, ends, told⟩ := h
    exact .decides rfl ends told
  | complete id =>
    obtain ⟨b, ends, told⟩ := h
    exact .completes rfl ends told
  | _ => exact .glances h

/-- **A call reports the changes that it has made**, if a decision that fails has made none. -/
theorem Operation.Account.reports (h : op.Account svc a ds)
    (hfailed : ∀ r why, op.ruling? = some r → a = .error why → Deed.changes ds = []) :
    (Deed.notes ds).filterMap Entry.change? = Deed.changes ds := by
  cases h.task with
  | needless ends idle =>
    rw [idle]
    rfl
  | inserts ends told changes noted =>
    exact told.reports fun hr => (noted _).trans (changes hr).symm
  | decides ruling ends told =>
    refine told.reports fun why hwhy => hfailed _ why ruling ?_
    rw [ends, hwhy]
    rfl
  | completes completion ends told => exact told.reports
  | glances told => rw [told.calm.notes, told.calm.changes, List.filterMap_nil]

/-! ### What calls note -/

theorem Statement.kind_of_error {q : Statement} (h : q.run s = .error why) :
    why.kind.isRefusal = false := by
  have hread {α β : Type} {x : Except Error α} {f : α → β} (hx : ∀ why, x = .error why →
      why.kind.isRefusal = false) (why : Error) (h : x.map f = .error why) :
      why.kind.isRefusal = false := by
    cases x with
    | ok a => cases h
    | error why' =>
      cases h
      exact hx _ rfl
  have hrow {α : Type} {y : Except RowFault α} (why : Error) (h : Store.asRecord y = .error why) :
      why.kind.isRefusal = false := by
    cases y with
    | ok a => cases h
    | error fault =>
      cases h
      rfl
  have hrows {α β : Type} {l : List β} {f : β → Except RowFault α} (why : Error)
      (h : l.mapM (fun b => Store.asRecord (f b)) = .error why) : why.kind.isRefusal = false := by
    obtain ⟨b, -, hb⟩ := exists_of_mapM_error h
    exact hrow _ hb
  cases q with
  | findTransfer id =>
    refine hread (fun why h => ?_) why h
    rw [Store.findTransfer] at h
    split at h
    · cases h
    · exact hread hrow why h
  | findStep id =>
    refine hread (fun why h => ?_) why h
    rw [Store.findStep] at h
    split at h
    · cases h
    · exact hread hrow why h
  | transfersOf license => exact hread hrows why h
  | stepsOf transferId => exact hread hrows why h
  | pendingSteps => exact hread hrows why h
  | insertTransfer t =>
    refine hread (fun why h => ?_) why h
    rw [Store.insertTransfer] at h
    split at h
    · cases h
      rfl
    · cases h
  | insertSteps xs =>
    refine hread (fun why h => ?_) why h
    obtain ⟨k, x, -, h⟩ := Store.exists_of_insertSteps_error h
    rw [Store.insertStep] at h
    split at h
    · cases h
      rfl
    · split at h
      · cases h
        rfl
      · split at h
        · cases h
        · cases h
          rfl
  | resolve id outcome resolver notes time =>
    rw [run, Store.resolve] at h
    split at h
    · cases h
    · cases h
      rfl
  | complete id time => cases h

theorem Glances.not_refusal {α : Type} {b : Except Halt α} (h : Glances b ds)
    (hwhy : b = .error (.failed why)) : why.kind.isRefusal = false := by
  rcases h.failed why hwhy with ⟨id, rfl⟩ | ⟨q, k, -, hfails⟩
  · rfl
  · exact Statement.kind_of_error hfails

/-- What a decision notes goes with its answer. -/
inductive Ruling.Notes (r : Ruling) (ds : List Deed) : Except Halt Decision → List Entry → Prop
  | nothing {why : Halt} (kind : ∀ e, why = .failed e → e.kind.isRefusal = false) :
      Notes r ds (.error why) []
  | refused {x : Step} {t : Transfer} {why : Error} {time : Instant} {before after : List Deed}
      (deeds : ds = before ++ after) (calm : Deed.AllCalm before) (found : r.Found x t before) :
      Notes r ds (.error (.failed why)) [Service.refusal x r.actor why time]
  | shown {y : Step} {state : State} {last : Instant} (id : y.id = r.stepId) :
      Notes r ds (.ok ⟨y, state⟩) [r.notice y state last]

theorem Ruling.Account.noted {b : Except Halt Decision} (h : r.Account b ds) :
    r.Notes ds b (Deed.notes ds) := by
  cases h with
  | broken unnoted broke =>
    obtain ⟨q, s, -, hfails⟩ := broke
    rw [unnoted]
    refine .nothing fun e he => ?_
    cases he
    exact Statement.kind_of_error hfails
  | unknown unnoted kind =>
    rw [unnoted]
    refine .nothing fun e he => ?_
    cases he
    rw [kind]
    rfl
  | unchecked calm =>
    rw [calm.notes]
    exact .nothing nofun
  | refused found calm kind =>
    rw [Deed.notes_append, calm.notes]
    exact .refused rfl calm found
  | late found calm lost =>
    rw [Deed.notes_append, calm.notes]
    exact .refused rfl calm found
  | unshown found calm won reread state =>
    rw [Deed.notes_append, calm.notes]
    exact .nothing nofun
  | shown found calm won reread state again =>
    rw [Deed.notes_append, calm.notes]
    exact .shown (by simpa using List.find?_some again)

/-- The entry that reports a decision is that of a call which was answered with it. -/
theorem Operation.Account.decided (h : op.Account svc a ds) (he : e ∈ Deed.notes ds) {id : String}
    (hid : e.change? = some (.decided id)) :
    ∃ r y state last, op.ruling? = some r ∧ r.stepId = id ∧ a = .ok (.decision ⟨y, state⟩) ∧
      e = r.notice y state last := by
  cases h.task with
  | needless ends idle =>
    rw [idle] at he
    cases he
  | inserts ends told changes noted =>
    cases told with
    | failed fails => simp [Deed.notes_append, (Deed.allCalm_reads _).notes] at he
    | inserted runs =>
      -- such an entry is of a recorded transfer, or of no change at all
      rw [Deed.notes_append, (Deed.allCalm_reads _).notes] at he
      rw [List.mem_singleton.mp he, noted] at hid
      cases hrecorded : op.recorded? <;> simp [hrecorded] at hid
  | @decides r b ruling ends told =>
    have hnoted := told.noted
    generalize Deed.notes ds = es at he hnoted
    cases hnoted with
    | nothing kind => cases he
    | refused deeds calm found =>
      rw [List.mem_singleton.mp he] at hid
      cases hid
    | shown hyid =>
      rw [List.mem_singleton.mp he] at hid ⊢
      rw [Ruling.change?_notice, hyid] at hid
      cases hid
      exact ⟨r, _, _, _, ruling, rfl, ends, rfl⟩
  | completes completion ends told =>
    cases told with
    | broken calm broke =>
      rw [calm.notes] at he
      cases he
    | unstamped calm kind =>
      rw [calm.notes] at he
      cases he
    | late calm closed =>
      rw [Deed.notes_append, calm.notes] at he
      cases he
    | stamped calm stamped lookedUp =>
      rw [Deed.notes_append, calm.notes] at he
      rw [List.mem_singleton.mp he] at hid
      cases hid
  | glances told =>
    rw [told.calm.notes] at he
    cases he

/-! ### When entries are made -/

theorem Inserts.dated {α τ : Type} {reads : τ → List Instant} {q : τ → Statement}
    {entry : Instant → Entry} {made : τ → α} {b : Except Halt α}
    (h : Inserts reads q entry made b ds)
    (hentry : ∀ t, (entry t).timestamp = t ∧ (entry t).event ≠ .decisionRefused)
    (he : e ∈ Deed.notes ds) : .read e.timestamp ∈ ds ∧ e.event ≠ .decisionRefused := by
  cases h with
  | failed fails => simp [Deed.notes_append, (Deed.allCalm_reads _).notes] at he
  | @inserted time last s r runs =>
    obtain rfl : e = entry last := by
      simpa [Deed.notes_append, (Deed.allCalm_reads _).notes] using he
    simp [hentry last]

theorem Ruling.Account.dated {r : Ruling} {b : Except Halt Decision} (h : r.Account b ds)
    (he : e ∈ Deed.notes ds) :
    .read e.timestamp ∈ ds ∧ (e.event = .decisionRefused →
      ∃ why, b = .error (.failed why) ∧ why.kind.isRefusal = true) := by
  cases h with
  | broken unnoted broke => simp [unnoted] at he
  | unknown unnoted kind => simp [unnoted] at he
  | unchecked calm => simp [calm.notes] at he
  | @refused x t why time ds found calm kind =>
    obtain rfl : e = Service.refusal x r.actor why time := by
      simpa [Deed.notes_append, calm.notes] using he
    exact ⟨by simp [Service.refusal], fun _ => ⟨why, rfl, kind⟩⟩
  | @late x t time last k k' ds found calm lost =>
    obtain rfl : e = Service.refusal x r.actor (.decidedMeanwhile r.stepId) last := by
      simpa [Deed.notes_append, calm.notes] using he
    exact ⟨by simp [Service.refusal], fun _ => ⟨_, rfl, rfl⟩⟩
  | unshown found calm won reread state => simp [Deed.notes_append, calm.notes] at he
  | @shown x y t time later last k k' s steps state ds found calm won reread hstate again =>
    obtain rfl : e = r.notice y state last := by simpa [Deed.notes_append, calm.notes] using he
    refine ⟨by simp [notice], fun hevent => ?_⟩
    have hother : Service.decisionEvent r.outcome ≠ .decisionRefused := by
      cases r.outcome <;> decide
    exact absurd hevent hother

theorem CompletionAccount.dated {id : String} {b : Except Halt Transfer}
    (h : CompletionAccount id b ds) (he : e ∈ Deed.notes ds) :
    .read e.timestamp ∈ ds ∧ e.event ≠ .decisionRefused := by
  cases h with
  | broken calm broke => simp [calm.notes] at he
  | unstamped calm kind => simp [calm.notes] at he
  | late calm closed => simp [Deed.notes_append, calm.notes] at he
  | @stamped a time last k k' s ds calm stamped lookedUp =>
    obtain rfl : e = Service.completion id last := by
      simpa [Deed.notes_append, calm.notes] using he
    simp [Service.completion]

/-- The entry has a reading of the clock, and is no refusal unless the call is a decision that is
    turned down. -/
def Audit.Entry.Suits (e : Entry) (op : Operation) (a : Except Halt Answer) (ds : List Deed) :
    Prop :=
  .read e.timestamp ∈ ds ∧ (e.event = .decisionRefused → ∃ r why, op.ruling? = some r ∧
    a = .error (.failed why) ∧ why.kind.isRefusal = true)

theorem Operation.Account.suits (h : op.Account svc a ds) (he : e ∈ Deed.notes ds) :
    e.Suits op a ds := by
  have hother (h : .read e.timestamp ∈ ds ∧ e.event ≠ .decisionRefused) : e.Suits op a ds :=
    ⟨h.1, fun hevent => absurd hevent h.2⟩
  have hdecides {r : Ruling} {b : Except Halt Decision} (hop : op.ruling? = some r)
      (ha : a = b.map .decision) (told : r.Account b ds) : e.Suits op a ds := by
    obtain ⟨htime, hrefused⟩ := told.dated he
    refine ⟨htime, fun hevent => ?_⟩
    obtain ⟨why, rfl, hkind⟩ := hrefused hevent
    exact ⟨r, why, hop, ha, hkind⟩
  cases op with
  | initiate id p initiator =>
    obtain ⟨b, -, told⟩ := h
    exact hother (told.dated (fun _ => ⟨rfl, nofun⟩) he)
  | plan ids t =>
    obtain ⟨b, -, told⟩ := h
    exact hother (told.dated (fun _ => ⟨rfl, nofun⟩) he)
  | createStep id t type actor =>
    obtain ⟨b, -, ⟨-, rfl⟩ | told⟩ := h
    · cases he
    · exact hother (told.dated (fun _ => ⟨rfl, nofun⟩) he)
  | approve stepId actor notes =>
    obtain ⟨b, ha, told⟩ := h
    exact hdecides rfl ha told
  | reject stepId actor notes =>
    obtain ⟨b, ha, told⟩ := h
    exact hdecides rfl ha told
  | complete id =>
    obtain ⟨b, -, told⟩ := h
    exact hother (told.dated he)
  | _ =>
    have hglances : Glances a ds := h
    rw [hglances.calm.notes] at he
    cases he

end SignOff
