/-
  SignOff/Proofs/Authority.lean
  =============================
  **Authority by what was said of the actor.**  An actor is put together one `Grant` at a time:
  that it can be asked about its licenses or permissions, that it owns this license, that it
  holds that permission.  What it answers then follows from which grants there were
  (`Facet.answer_build`), and so does what it may decide (`Policy.allows_build_iff`).  Neither
  their order nor their number matters.

  Most grants can only help.  Those about licenses are the exception: an actor that cannot be
  asked is taken at its word, and one that can be asked must own the license it gives away.
-/
import SignOff.CommandLine.Command
import SignOff.Policy
import SignOff.Proofs.Workflow.Operation
import Mathlib.Data.List.Induction

namespace SignOff

/-- One thing that is said of an actor while it is put together. -/
inductive Grant where
  /-- it can be asked about its licenses -/
  | initiator
  | owning (license : String)
  | withPermission (permission : String)
  /-- it can be asked about its permissions -/
  | permissionChecked
deriving DecidableEq, Repr

def Grant.apply : Grant → Actor → Actor
  | .initiator, a => a.initiator
  | .owning license, a => a.owning license
  | .withPermission permission, a => a.withPermission permission
  | .permissionChecked, a => a.permissionChecked

/-- The party of which these things are said one after the other. -/
def Actor.build (o : Owner) (gs : List Grant) : Actor :=
  gs.foldl (fun a g => g.apply a) (.ofOwner o)

variable {a b : Actor} {g : Grant} {o : Owner} {gs gs' : List Grant} {name : String}

/-! ### Facets -/

/-- The two kinds of names that an actor may be asked about. -/
inductive Facet where
  | licenses
  | permissions
deriving DecidableEq, Repr

namespace Facet

def of : Facet → Actor → Option NameSet
  | .licenses, a => a.licenses
  | .permissions, a => a.permissions

/-- What the actor answers when it is asked about the name, if it can be asked. -/
def answer (f : Facet) (a : Actor) (name : String) : Option Bool :=
  (f.of a).map fun set => set.contains name

/-- The grant after which the answer is yes. -/
def naming : Facet → String → Grant
  | .licenses, name => .owning name
  | .permissions, name => .withPermission name

/-- The actor can be asked once this has been said. -/
def concerns : Facet → Grant → Bool
  | .licenses, .initiator => true
  | .licenses, .owning _ => true
  | .permissions, .withPermission _ => true
  | .permissions, .permissionChecked => true
  | _, _ => false

variable {f : Facet}

theorem eq_of_contains {x y : Option NameSet}
    (h : ∀ s, (x.map fun set => set.contains s) = y.map fun set => set.contains s) : x = y := by
  cases x with
  | none =>
    cases y with
    | none => rfl
    | some set => cases h ""
  | some set =>
    cases y with
    | none => cases h ""
    | some set' =>
      have hsame : ∀ s, set.contains s = set'.contains s := fun s => Option.some.inj (h s)
      rw [NameSet.ext_iff_mem.mpr hsame]

theorem concerns_naming : f.concerns (f.naming name) = true := by
  cases f <;> rfl

/-- A name that was named has opened the facet. -/
theorem naming_notMem (h : gs.any f.concerns = false) : f.naming name ∉ gs := by
  intro hmem
  have hconcerns := List.any_eq_false.mp h _ hmem
  exact hconcerns concerns_naming

theorem answer_apply : f.answer (g.apply a) name =
    if f.concerns g then some ((f.answer a name).getD false || g = f.naming name)
    else f.answer a name := by
  have hbefore : ((f.of a).getD .empty).contains name = (f.answer a name).getD false := by
    rw [answer]
    cases f.of a <;> rfl
  cases f with
  | licenses =>
    rw [of] at hbefore
    cases g with
    | initiator => simp [answer, of, Grant.apply, Actor.initiator, concerns, naming, hbefore]
    | owning license =>
      simp [answer, of, Grant.apply, Actor.owning, concerns, naming, hbefore,
        NameSet.contains_insert, Bool.beq_eq_decide_eq, Bool.or_comm, eq_comm (a := license)]
    | _ => rfl
  | permissions =>
    rw [of] at hbefore
    cases g with
    | permissionChecked =>
      simp [answer, of, Grant.apply, Actor.permissionChecked, concerns, naming, hbefore]
    | withPermission permission =>
      simp [answer, of, Grant.apply, Actor.withPermission, concerns, naming, hbefore,
        NameSet.contains_insert, Bool.beq_eq_decide_eq, Bool.or_comm, eq_comm (a := permission)]
    | _ => rfl

end Facet

namespace Actor

/-- **A party that answers every question alike is the same actor.** -/
theorem ext_of_answer (hidentity : a.identity = b.identity)
    (hanswer : ∀ (f : Facet) (name : String), f.answer a name = f.answer b name) : a = b := by
  obtain ⟨identity, licenses, permissions⟩ := a
  obtain ⟨identity', licenses', permissions'⟩ := b
  obtain rfl : identity = identity' := hidentity
  obtain rfl : licenses = licenses' := Facet.eq_of_contains (hanswer .licenses)
  obtain rfl : permissions = permissions' := Facet.eq_of_contains (hanswer .permissions)
  rfl

theorem identity_apply : (g.apply a).identity = a.identity := by
  cases g <;> rfl

theorem build_concat : build o (gs ++ [g]) = g.apply (build o gs) := by
  rw [build, List.foldl_append]
  rfl

theorem identity_build : (build o gs).identity = o := by
  induction gs using List.reverseRecOn with
  | nil => rfl
  | append_singleton gs g ih => rw [build_concat, identity_apply, ih]

end Actor

namespace Facet

variable {f : Facet}

/-- **An actor can be asked if some grant concerns the facet**, and says yes to the names that were
    named. -/
theorem answer_build (f : Facet) (o : Owner) (gs : List Grant) (name : String) :
    f.answer (.build o gs) name =
      if gs.any f.concerns then some (decide (f.naming name ∈ gs)) else none := by
  induction gs using List.reverseRecOn with
  | nil => cases f <;> rfl
  | append_singleton gs g ih =>
    rw [Actor.build_concat, answer_apply, ih]
    cases hg : f.concerns g with
    | true =>
      cases hany : gs.any f.concerns with
      | true => simp [hg, eq_comm (a := g)]
      | false => simp [hg, naming_notMem hany, eq_comm (a := g)]
    | false =>
      have hother : f.naming name ≠ g := by
        rintro rfl
        rw [concerns_naming] at hg
        cases hg
      simp [hg, hother]

/-- An actor that cannot be asked does not count as one that says yes. -/
theorem says_build_iff : (f.answer (.build o gs) name).getD false = true ↔
    f.naming name ∈ gs := by
  rw [answer_build]
  cases hany : gs.any f.concerns with
  | true => simp
  | false => simp [naming_notMem hany]

/-- An actor says no only if it can be asked. -/
theorem denies_build_iff : (f.answer (.build o gs) name).getD true = true ↔
    gs.any f.concerns = false ∨ f.naming name ∈ gs := by
  rw [answer_build]
  cases hany : gs.any f.concerns with
  | true => simp
  | false => simp

end Facet

/-- **Neither the order nor the number of grants matters.** -/
theorem Actor.build_congr (h : ∀ g, g ∈ gs ↔ g ∈ gs') :
    build o gs = build o gs' := by
  apply ext_of_answer
  · rw [identity_build, identity_build]
  · intro f name
    have hany : gs.any f.concerns = gs'.any f.concerns := by
      rw [Bool.eq_iff_iff, List.any_eq_true, List.any_eq_true]
      exact exists_congr fun g => and_congr_left fun _ => h g
    rw [Facet.answer_build, Facet.answer_build, hany]
    simp only [h]

/-! ### What an actor may decide -/

/-- The grants give the party the say about the step of the transfer. -/
inductive Policy.Entitles (p : Policy) (step : Step) (t : Transfer) (o : Owner) (gs : List Grant) :
    Prop
  /-- the owner that the license leaves: nothing was said about licenses, or it owns this one -/
  | source (type : step.type = .source) (identity : o = t.source)
    (owns : .initiator ∉ gs ∧ (∀ license, .owning license ∉ gs) ∨ .owning t.license ∈ gs) :
    Entitles p step t o gs
  | target (type : step.type = .target) (identity : o = t.target) : Entitles p step t o gs
  | admin (type : step.type = .admin) (holds : .withPermission p.adminPermission ∈ gs) :
    Entitles p step t o gs

namespace Policy

variable {p : Policy} {step : Step} {t : Transfer} {license : String}

theorem applies_iff : applies step t = true ↔ step.outcome = .pending ∧ step.transferId = t.id := by
  rw [applies, Bool.and_eq_true, decide_eq_true_eq]
  refine and_congr_left fun _ => ?_
  cases step.outcome <;> decide

theorem any_concerns_licenses : gs.any Facet.licenses.concerns = false ↔
    .initiator ∉ gs ∧ ∀ license, .owning license ∉ gs := by
  rw [List.any_eq_false]
  constructor
  · intro h
    exact ⟨fun hmem => h _ hmem rfl, fun license hmem => h _ hmem rfl⟩
  · rintro ⟨hinitiator, howning⟩ g hg
    cases g with
    | initiator => exact absurd hg hinitiator
    | owning license => exact absurd hg (howning license)
    | _ => nofun

/-- **What an actor may decide follows from what was said of it.** -/
theorem allows_build_iff : p.allows step t (.build o gs) = true ↔
    step.outcome = .pending ∧ step.transferId = t.id ∧ p.Entitles step t o gs := by
  have howns : ((Actor.build o gs).owns? t.license).getD true = true ↔
      .initiator ∉ gs ∧ (∀ license, .owning license ∉ gs) ∨ .owning t.license ∈ gs := by
    rw [← any_concerns_licenses]
    exact Facet.denies_build_iff (f := .licenses)
  have hholds : ((Actor.build o gs).holds? p.adminPermission).getD false = true ↔
      .withPermission p.adminPermission ∈ gs :=
    Facet.says_build_iff (f := .permissions)
  rw [allows, Bool.and_eq_true, applies_iff, and_assoc, Actor.identity_build]
  refine and_congr_right fun _ => and_congr_right fun _ => ?_
  constructor
  · intro h
    split at h
    · next type =>
      rw [Bool.and_eq_true, decide_eq_true_eq, howns] at h
      exact .source type h.1 h.2
    · next type => exact .target type (of_decide_eq_true h)
    · next type => exact .admin type (hholds.mp h)
  · intro h
    cases h with
    | source type identity owns =>
      subst identity
      simp [type, howns.mpr owns]
    | target type identity => simp [type, identity]
    | admin type holds => simp [type, hholds.mpr holds]

/-! ### One grant more -/

/-- Where a grant is put in does not matter. -/
theorem allows_insert {before after : List Grant} :
    p.allows step t (.build o (before ++ g :: after)) =
      p.allows step t (.build o (g :: (before ++ after))) := by
  have hsame : Actor.build o (before ++ g :: after) = .build o (g :: (before ++ after)) := by
    apply Actor.build_congr
    intro g'
    simp only [List.mem_append, List.mem_cons]
    exact or_left_comm
  rw [hsame]

/-- What is said about permissions takes nothing away. -/
theorem Entitles.cons (h : p.Entitles step t o gs) (hg : Facet.licenses.concerns g = false) :
    p.Entitles step t o (g :: gs) := by
  cases h with
  | source type identity owns =>
    refine .source type identity (owns.imp ?_ (List.mem_cons_of_mem g))
    rw [← any_concerns_licenses, ← any_concerns_licenses, List.any_cons, hg, Bool.false_or]
    exact id
  | target type identity => exact .target type identity
  | admin type holds => exact .admin type (List.mem_cons_of_mem g holds)

/-- That an actor can be asked about its licenses adds nothing. -/
theorem Entitles.of_initiator (h : p.Entitles step t o (.initiator :: gs)) :
    p.Entitles step t o gs := by
  cases h with
  | source type identity owns =>
    rcases owns with ⟨hunsaid, -⟩ | hmem
    · exact absurd List.mem_cons_self hunsaid
    · exact .source type identity (.inr ((List.mem_cons.mp hmem).resolve_left nofun))
  | target type identity => exact .target type identity
  | admin type holds => exact .admin type ((List.mem_cons.mp holds).resolve_left nofun)

/-- That it owns a license takes away the say about other licenses at most. -/
theorem Entitles.cons_owning (h : p.Entitles step t o gs)
    (hsame : step.type = .source → t.license = license) :
    p.Entitles step t o (.owning license :: gs) := by
  cases h with
  | source type identity owns =>
    refine .source type identity (.inr ?_)
    rw [hsame type]
    exact List.mem_cons_self
  | target type identity => exact .target type identity
  | admin type holds => exact .admin type (List.mem_cons_of_mem _ holds)

end Policy

/-- The grants say what the flags say.  That an actor can be asked about its permissions is no
    flag. -/
structure CommandLine.ActorFlags.Says (flags : CommandLine.ActorFlags) (gs : List Grant) :
    Prop where
  initiator : .initiator ∈ gs ↔ flags.initiator = true
  owning : ∀ license, .owning license ∈ gs ↔ license ∈ flags.licenses
  permission : ∀ permission, .withPermission permission ∈ gs ↔ permission ∈ flags.permissions

/-- The grants that the flags make, in the order in which they are made. -/
def CommandLine.ActorFlags.grants (flags : CommandLine.ActorFlags) : List Grant :=
  (if flags.initiator then [.initiator] else []) ++ flags.licenses.map .owning ++
    flags.permissions.map .withPermission

namespace CommandLine.ActorFlags

variable {flags : ActorFlags}

theorem actor_eq_build : flags.actor = .build flags.identity flags.grants := by
  rw [actor, grants, Actor.build, List.foldl_append, List.foldl_append, List.foldl_map,
    List.foldl_map]
  cases flags.initiator <;> rfl

theorem says_grants : flags.Says flags.grants := by
  constructor
  · cases h : flags.initiator <;> simp [grants, h]
  · intro license
    cases h : flags.initiator <;> simp [grants, h]
  · intro permission
    cases h : flags.initiator <;> simp [grants, h]

end CommandLine.ActorFlags

/-- Whoever was said the same about has the same say. -/
theorem Policy.entitles_of_says {flags : CommandLine.ActorFlags} {p : Policy} {step : Step}
    {t : Transfer} (h : flags.Says gs) (h' : flags.Says gs') (he : p.Entitles step t o gs) :
    p.Entitles step t o gs' := by
  cases he with
  | source type identity owns =>
    simp only [h.initiator, h.owning] at owns
    refine .source type identity ?_
    simp only [h'.initiator, h'.owning]
    exact owns
  | target type identity => exact .target type identity
  | admin type holds => exact .admin type ((h'.permission _).mpr ((h.permission _).mp holds))

/-- **Authority by what was said of the actor.**  An actor may decide an open step of the transfer
    if the grants give its party the say.  So the same grants in another order, or repeated, make
    the same actor, and the flags of a command line decide as any grants do that say the same.
    What is said about permissions never takes authority away, that the actor can be asked about
    its licenses never adds any, and that it owns a license takes it away only on source steps
    for other licenses. -/
theorem authority_by_grants (p : Policy) (step : Step) (t : Transfer) (o : Owner) :
    (∀ gs, p.allows step t (.build o gs) = true ↔
      step.outcome = .pending ∧ step.transferId = t.id ∧ p.Entitles step t o gs) ∧
    (∀ gs gs' : List Grant, (∀ g, g ∈ gs ↔ g ∈ gs') → Actor.build o gs = .build o gs') ∧
    (∀ (flags : CommandLine.ActorFlags) (gs : List Grant), flags.identity = o → flags.Says gs →
      p.allows step t flags.actor = p.allows step t (.build o gs)) ∧
    ∀ before after : List Grant,
      (∀ permission, p.allows step t (.build o (before ++ after)) = true →
        p.allows step t (.build o (before ++ .withPermission permission :: after)) = true) ∧
      (p.allows step t (.build o (before ++ after)) = true →
        p.allows step t (.build o (before ++ .permissionChecked :: after)) = true) ∧
      (p.allows step t (.build o (before ++ .initiator :: after)) = true →
        p.allows step t (.build o (before ++ after)) = true) ∧
      ∀ license, p.allows step t (.build o (before ++ after)) = true →
        p.allows step t (.build o (before ++ .owning license :: after)) = false →
          step.type = .source ∧ t.license ≠ license := by
  have hiff (gs : List Grant) : p.allows step t (.build o gs) = true ↔
      step.outcome = .pending ∧ step.transferId = t.id ∧ p.Entitles step t o gs :=
    Policy.allows_build_iff
  refine ⟨hiff, fun _ _ => Actor.build_congr, ?_, fun before after => ⟨?_, ?_, ?_, ?_⟩⟩
  · rintro flags gs rfl hsays
    rw [flags.actor_eq_build, Bool.eq_iff_iff, hiff, hiff]
    refine and_congr_right fun _ => and_congr_right fun _ => ⟨?_, ?_⟩
    · exact Policy.entitles_of_says flags.says_grants hsays
    · exact Policy.entitles_of_says hsays flags.says_grants
  · intro permission
    rw [Policy.allows_insert, hiff, hiff]
    exact fun ⟨hopen, hof, h⟩ => ⟨hopen, hof, h.cons rfl⟩
  · rw [Policy.allows_insert, hiff, hiff]
    exact fun ⟨hopen, hof, h⟩ => ⟨hopen, hof, h.cons rfl⟩
  · rw [Policy.allows_insert, hiff, hiff]
    exact fun ⟨hopen, hof, h⟩ => ⟨hopen, hof, h.of_initiator⟩
  · intro license hallowed hdenied
    obtain ⟨hopen, hof, h⟩ := (hiff _).mp hallowed
    by_contra hother
    -- a license of another step, or the license itself, changes nothing
    have hsame : step.type = .source → t.license = license := by
      intro htype
      by_contra hne
      exact hother ⟨htype, hne⟩
    have hstill := (hiff _).mpr ⟨hopen, hof, h.cons_owning hsame⟩
    rw [Policy.allows_insert, hstill] at hdenied
    cases hdenied

/-- The step of the sale that its seller has to decide. -/
def Sample.sellersStep : Step := .fresh "first" "sale" .source (some seller) 48 firstDay

/-- The seller of a license is taken at its word.  Once it owns another license it has to own this
    one too, and then nothing else that is said of it matters. -/
theorem sellersStep_authority :
    let may (a : Actor) := Sample.service.policy.allows Sample.sellersStep Sample.recordedSale a
    let flags : CommandLine.ActorFlags := ⟨Sample.seller, ["other", "license"], true, []⟩
    let grants : List Grant := [.owning "license", .permissionChecked, .initiator,
      .owning "license", .owning "other"]
    may (.build Sample.seller []) = true ∧ may (.build Sample.seller [.owning "other"]) = false ∧
      (Sample.sellersStep.type = .source ∧ Sample.recordedSale.license ≠ "other") ∧
      flags.Says grants ∧ may flags.actor = may (.build Sample.seller grants) ∧
      may (.build Sample.seller grants) = true ∧
      Actor.build Sample.seller grants = .build Sample.seller grants.reverse := by
  intro may flags grants
  obtain ⟨hmay, hsame, hflags, hmore⟩ := authority_by_grants Sample.service.policy
    Sample.sellersStep Sample.recordedSale Sample.seller
  have hbare : may (.build Sample.seller []) = true := by decide +kernel
  have hother : may (.build Sample.seller [.owning "other"]) = false := by decide +kernel
  have hsays : flags.Says grants := by
    constructor
    · decide
    · intro license
      simp [grants, flags, or_comm]
    · intro permission
      simp [grants, flags]
  have hentitles : Sample.service.policy.Entitles Sample.sellersStep Sample.recordedSale
      Sample.seller grants :=
    .source rfl rfl (.inr (by decide))
  exact ⟨hbare, hother, (hmore [] []).2.2.2 "other" hbare hother, hsays,
    hflags flags grants rfl hsays, (hmay grants).mpr ⟨rfl, rfl, hentitles⟩,
    hsame grants grants.reverse fun _ => List.mem_reverse.symm⟩

end SignOff
