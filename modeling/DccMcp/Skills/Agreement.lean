import DccMcp.Skills.Operations
import Mathlib.Data.List.Sort

/-!
# Agreement of the Skill Catalog

A search that is filtered by a DCC goes by the shards, and one that is not goes by the
entries. The two agree wherever the catalog is coherent, and the catalog is coherent in
every run that avoids three calls: a load whose transform changes the DCC of a skill, a
load of an object that has no entry or one of another DCC, and the removal of a loaded
skill through the shared registry contract. None of the three repairs what it leaves
behind.

Rediscovery loads again what has changed. By then every entry has metadata that the scan
found, or that the transform made of it, so that is all the transform is asked about.

How well a skill fits a query is what a ranking says. It looks at one skill at a time,
which is all that matters here: leaving skills out does not reorder the others.

## Main definitions

* `Derived`: The metadata that loading can give a found skill.
* `Repaired`: The call leaves neither the shards nor the loaded set behind.
* `Ranking`, `searchSkills`: The search.
* `Agrees`: What the structures say about each other, and what a search answers.

## Theorems

* `catalog_agrees`: The catalog agrees with itself in every run of repaired calls.
-/

namespace DccMcp

namespace Catalog

open Actions Machine Text

variable {δ ε η : Type}

namespace SkillCatalog

/-! ## Rediscovery -/

/-- The metadata that loading can give a found skill. -/
inductive Derived (host : Host δ ε η) (skills : List (SkillMetadata δ × SkillPathSource)) :
    String → SkillMetadata δ → Prop
  | found (skill : SkillMetadata δ × SkillPathSource) (hmem : skill ∈ skills) :
      Derived host skills skill.1.name skill.1
  | transformed (name : String) (metadata metadata' : SkillMetadata δ)
      (h : Derived host skills name metadata)
      (htransform : applySkillLoadTransform host name metadata = some metadata') :
      Derived host skills name metadata'

/-- Every entry has such metadata, among the names that are meant. -/
def AllDerived (host : Host δ ε η) (skills : List (SkillMetadata δ × SkillPathSource))
    (meant : String → Prop) (c : SkillCatalog δ ε η) : Prop :=
  ∀ name metadata, meant name → (c.entries.lookup name).map SkillEntry.metadata = some metadata →
    Derived host skills name metadata

variable (host : Host δ ε η) (c : SkillCatalog δ ε η)
  (skills : List (SkillMetadata δ × SkillPathSource))

theorem allDerived_loads (meant : String → Prop) (c c' : SkillCatalog δ ε η)
    (h : AllDerived host skills meant c)
    (hloads : Loads host c c') : AllDerived host skills meant c' := by
  intro name metadata hmeant hlookup
  rcases Option.map_eq_some_iff.mp hlookup with ⟨entry', hentry', rfl⟩
  rcases hloads.metadata name entry' hentry' with ⟨entry, hentry, hcase⟩
  have hold : Derived host skills name entry.metadata := h name entry.metadata hmeant (by
    rw [hentry, Option.map_some])
  rcases hcase with hsame | ⟨_, _, htransform⟩
  · rw [hsame]
    exact hold
  · exact .transformed name entry.metadata entry'.metadata hold htransform

theorem metadata_refreshDependencyStates (name : String) :
    (c.refreshDependencyStates.entries.lookup name).map SkillEntry.metadata =
      (c.entries.lookup name).map SkillEntry.metadata := by
  rw [lookup_refreshDependencyStates, Option.map_map]
  rfl

/-- Removing a skill leaves the metadata of every other one alone. -/
theorem metadata_removeSkill (skillName name : String) :
    ((c.removeSkill skillName).entries.lookup name).map SkillEntry.metadata =
      if name = skillName then none else (c.entries.lookup name).map SkillEntry.metadata := by
  have hunload := lookup_unloadSkill c skillName name
  unfold removeSkill
  dsimp only
  split
  next hnone =>
    by_cases hname : name = skillName
    · rw [if_pos hname, hname, hnone, Option.map_none]
    · rw [if_neg hname, hunload]
  next entry hentry =>
    rw [metadata_refreshDependencyStates]
    dsimp only
    rw [OrderedMap.lookup_erase, (entries_shardRemove _ skillName entry.metadata.dcc).1]
    by_cases hname : name = skillName
    · rw [if_pos hname, if_pos hname, Option.map_none]
    · rw [if_neg hname, if_neg hname, hunload]

theorem metadata_foldl_removeSkill (names : List String) (c : SkillCatalog δ ε η) (name : String) :
    ((names.foldl removeSkill c).entries.lookup name).map SkillEntry.metadata =
      if name ∈ names then none else (c.entries.lookup name).map SkillEntry.metadata := by
  induction names generalizing c with
  | nil => rw [if_neg List.not_mem_nil, List.foldl_nil]
  | cons first rest ih =>
      rw [List.foldl_cons, ih, metadata_removeSkill]
      by_cases hrest : name ∈ rest
      · rw [if_pos hrest, if_pos (List.mem_cons_of_mem first hrest)]
      · rw [if_neg hrest]
        exact if_congr (by rw [List.mem_cons, or_iff_left hrest]) rfl rfl

/-- Reloading a changed skill, when all metadata is derived from what was found. -/
theorem coherent_reloadChanged (c : SkillCatalog δ ε η) (name : String)
    (hkeeps : KeepsDcc host (Derived host skills)) (h : c.Coherent)
    (hderived : AllDerived host skills (fun _ => True) c) :
    (reloadChanged host c name).Coherent ∧
      AllDerived host skills (fun _ => True) (reloadChanged host c name) := by
  unfold reloadChanged
  split
  next => exact ⟨h, hderived⟩
  next =>
    have hunload := coherent_unloadSkill c name h
    have hderived' : AllDerived host skills (fun _ => True) (c.unloadSkill name).1 := by
      intro other metadata hmeant hlookup
      rw [lookup_unloadSkill] at hlookup
      exact hderived other metadata hmeant hlookup
    have hwaiting : KeepsDcc host (c.unloadSkill name).1.Waiting :=
      fun other metadata metadata' hwaiting => hkeeps other metadata metadata'
        (hderived' other metadata trivial hwaiting.2)
    have hloads := loads_loadSkillRecursive host true (c.unloadSkill name).1.loadFuel [] none
      (c.unloadSkill name).1 name hwaiting
    exact ⟨hloads.coherent host _ _ hunload, allDerived_loads host skills _ _ _ hderived' hloads⟩

theorem coherent_foldl_reloadChanged (names : List String) (c : SkillCatalog δ ε η)
    (hkeeps : KeepsDcc host (Derived host skills)) (h : c.Coherent)
    (hderived : AllDerived host skills (fun _ => True) c) :
    (names.foldl (reloadChanged host) c).Coherent := by
  induction names generalizing c with
  | nil => exact h
  | cons name rest ih =>
      rcases coherent_reloadChanged host skills c name hkeeps h hderived with ⟨h', hderived'⟩
      exact ih (reloadChanged host c name) h' hderived'

section Rediscover

variable [DecidableEq δ]

theorem coherent_rediscoverOne (skill : SkillMetadata δ × SkillPathSource) (h : c.Coherent) :
    (rediscoverOne c skill).Coherent := by
  unfold rediscoverOne
  split
  next hnone => exact coherent_insert c (found skill.1 .repo skill.2) h hnone SkillState.noConfusion
  next old hold =>
    dsimp only
    split
    next =>
      refine coherent_replace c old { old with
        metadata := skill.1
        pathSource := skill.2
        state := if old.state = .loaded then .loaded else .discovered } h hold ?_
      dsimp only
      split
      next hstate => exact iff_of_true hstate rfl
      next hstate => exact iff_of_false hstate SkillState.noConfusion
    next hsame =>
      -- An entry that did not change stays in its shard.
      have hmetadata : old.metadata = skill.1 :=
        not_not.mp (fun hne => hsame (.inl hne))
      rw [hmetadata]
      have hself : eqIgnoreAsciiCase skill.1.dcc skill.1.dcc = true := beq_self_eq_true _
      unfold shardMove
      rw [if_pos hself]
      exact h

/-- The scan gives the found name the metadata that was found. -/
theorem metadata_rediscoverOne (skill : SkillMetadata δ × SkillPathSource) (name : String) :
    ((rediscoverOne c skill).entries.lookup name).map SkillEntry.metadata =
      if name = skill.1.name then some skill.1
      else (c.entries.lookup name).map SkillEntry.metadata := by
  unfold rediscoverOne
  split
  next =>
    have hplace := lookup_place c skill.1.name name (found skill.1 .repo skill.2)
    rw [show ((c.place skill.1.name (found skill.1 .repo skill.2)).shardInsert skill.1.name
      skill.1.dcc).entries.lookup name = _ from hplace]
    split
    next => rfl
    next => rfl
  next old hold =>
    dsimp only
    rw [(entries_shardMove _ skill.1.name old.metadata.dcc skill.1.dcc).1]
    split
    next =>
      rw [lookup_place]
      split
      next => rfl
      next => rfl
    next hsame =>
      split
      next hname =>
        rw [hname, hold, Option.map_some, not_not.mp (fun hne => hsame (.inl hne))]
      next => rfl

theorem rediscoverScan_spec (all skills : List (SkillMetadata δ × SkillPathSource))
    (acc : SkillCatalog δ ε η × List String)
    (seen : String → Prop) (hsub : ∀ skill ∈ skills, skill ∈ all) (hcoherent : acc.1.Coherent)
    (hderived : AllDerived host all seen acc.1) :
    (skills.foldl (fun acc skill => (rediscoverOne acc.1 skill, acc.2 ++ reloadName acc.1 skill))
      acc).1.Coherent ∧
    AllDerived host all (fun name => seen name ∨ name ∈ skills.map (fun skill => skill.1.name))
      (skills.foldl (fun acc skill => (rediscoverOne acc.1 skill, acc.2 ++ reloadName acc.1 skill))
        acc).1 := by
  induction skills generalizing acc seen with
  | nil =>
      refine ⟨hcoherent, fun name metadata hmeant => hderived name metadata ?_⟩
      exact hmeant.elim id (fun h => absurd h List.not_mem_nil)
  | cons skill rest ih =>
      rw [List.foldl_cons]
      have hnext : AllDerived host all (fun name => seen name ∨ name = skill.1.name)
          (rediscoverOne acc.1 skill) := by
        intro name metadata hmeant hlookup
        rw [metadata_rediscoverOne] at hlookup
        by_cases hname : name = skill.1.name
        · rw [if_pos hname, Option.some.injEq] at hlookup
          rw [hname, ← hlookup]
          exact .found skill (hsub skill List.mem_cons_self)
        · rw [if_neg hname] at hlookup
          exact hderived name metadata (hmeant.resolve_right hname) hlookup
      rcases ih (rediscoverOne acc.1 skill, acc.2 ++ reloadName acc.1 skill) _
        (fun other hother => hsub other (List.mem_cons_of_mem skill hother))
        (coherent_rediscoverOne acc.1 skill hcoherent) hnext with ⟨hrest, hall⟩
      refine ⟨hrest, fun name metadata hmeant => hall name metadata ?_⟩
      rw [List.map_cons, List.mem_cons] at hmeant
      exact or_assoc.mpr hmeant

theorem coherent_rediscover (hkeeps : KeepsDcc host (Derived host skills)) (h : c.Coherent) :
    (rediscover host c (some skills)).Coherent := by
  rcases rediscoverScan_spec host skills skills (c, []) (fun _ => False) (fun _ hmem => hmem) h
    (fun _ _ hfalse => hfalse.elim) with ⟨hscanned, hderived⟩
  have hremoved : (removeUnseen skills (rediscoverScan skills c).1).Coherent :=
    List.foldlRecOn _ removeSkill hscanned (fun c h name _ => coherent_removeSkill c name h)
  refine coherent_foldl_reloadChanged host skills _ _ hkeeps
    (coherent_refreshDependencyStates _ hremoved) (fun name metadata _ hlookup => ?_)
  unfold removeUnseen at hlookup
  rw [metadata_refreshDependencyStates, metadata_foldl_removeSkill] at hlookup
  split at hlookup
  next => cases hlookup
  next hkept =>
    -- An entry is left only if the scan found its name.
    refine hderived name metadata (.inr ?_) hlookup
    by_contra hunseen
    rcases Option.map_eq_some_iff.mp hlookup with ⟨entry, hentry, _⟩
    refine hkept (List.mem_filter.mpr ⟨List.mem_map.mpr ⟨(name, entry), ?_, rfl⟩, ?_⟩)
    · exact OrderedMap.mem_entries _ name entry hentry
    · exact decide_eq_true hunseen

/-! ## Runs -/

/-- The call leaves neither the shards nor the loaded set behind. -/
def Repaired (c : SkillCatalog δ ε η) : Op δ ε η → Prop
  | .loadSkill host _ _ => KeepsDcc host c.Waiting
  | .loadSkillTargetGroup host _ _ => KeepsDcc host c.Waiting
  | .loadSkillObject host metadata => Text.trim metadata.name = "" ∨
      ((c.label metadata.name).map Prod.snd = some (toAsciiLowercase metadata.dcc) ∧
        KeepsDcc host (c.WaitingWith metadata))
  | .rediscover host (some skills) => KeepsDcc host (Derived host skills)
  | .remove key => key ∉ c.loaded
  | _ => True

theorem coherent_step (op : Op δ ε η) (h : c.Coherent) (hrepaired : c.Repaired op) :
    (c.apply op).Coherent := by
  cases op with
  | discover skills =>
      cases skills with
      | none => exact h
      | some skills =>
          exact coherent_refreshDependencyStates _
            (List.foldlRecOn skills (discoverOne .repo) h
              (fun c h skill _ => coherent_discoverOne .repo c skill h))
  | discoverScoped scans =>
      refine coherent_refreshDependencyStates _ (List.foldlRecOn scans _ h (fun c h scan _ => ?_))
      exact List.foldlRecOn _ (discoverOne scan.1) h
        (fun c h skill _ => coherent_discoverOne scan.1 c skill h)
  | rediscover host skills =>
      cases skills with
      | none => exact h
      | some skills => exact coherent_rediscover host c skills hrepaired h
  | addSkill metadata => exact coherent_addSkill c metadata h
  | loadSkill host name activateGroups =>
      exact coherent_loadSkillRecursive host activateGroups _ none c name h hrepaired
  | loadSkillTargetGroup host name group =>
      exact coherent_loadSkillRecursive host false _ (some group) c name h hrepaired
  | loadSkillObject host metadata => exact coherent_loadSkillObject host c metadata h hrepaired
  | unloadSkill name => exact coherent_unloadSkill c name h
  | removeSkill name => exact coherent_removeSkill c name h
  | clear => exact coherent_clear c
  | register entry => exact coherent_register c entry h
  | remove key => exact coherent_remove c key h hrepaired
  | activateGroup group => exact Same.coherent c _ h ⟨rfl, rfl, rfl⟩
  | deactivateGroup group => exact Same.coherent c _ h ⟨rfl, rfl, rfl⟩
  | activateSkillGroup name group => exact Same.coherent c _ h ⟨rfl, rfl, rfl⟩
  | deactivateSkillGroup name group => exact Same.coherent c _ h ⟨rfl, rfl, rfl⟩

theorem coherent_of_run (registry : ToolRegistry ε) (dispatcher : Option (OrderedMap String η))
    (ops : List (Op δ ε η)) (c : SkillCatalog δ ε η)
    (hrepaired : Along step Repaired (new registry dispatcher) ops)
    (hrun : exec step (new registry dispatcher) ops = some c) : c.Coherent := by
  refine exec_history step Repaired (fun _ c => c.Coherent) (new registry dispatcher)
    (coherent_new registry dispatcher) (fun as t op u h hop hstep => ?_) ops c hrepaired hrun
  unfold step at hstep
  rw [← Option.some.inj hstep]
  exact coherent_step t op h hop

end Rediscover

/-! ## The search -/

/-- How well a skill fits a query, if it does; the flag is set when the caller asks for
    a layer. The scorer is not modelled. -/
structure Ranking (δ : Type) where
  score : String → Bool → SkillEntry δ → Option Nat

/-- The order of the hits: by score, by scope, and by name. -/
def before (a b : Nat × SkillEntry δ) : Bool :=
  decide (b.1 < a.1 ∨ (a.1 = b.1 ∧ (b.2.scope.rank < a.2.scope.rank ∨
    (a.2.scope.rank = b.2.scope.rank ∧ a.2.metadata.name ≤ b.2.metadata.name))))

/-- The skills that have a score, in order. -/
def rankBy (score : SkillEntry δ → Option Nat) (skills : List (SkillEntry δ)) :
    List (SkillEntry δ) :=
  ((skills.filterMap (fun entry => (score entry).map (fun n => (n, entry)))).mergeSort
    before).map Prod.snd

theorem rankBy_nil (score : SkillEntry δ → Option Nat) : rankBy score [] = [] := by
  unfold rankBy
  rw [List.filterMap_nil, List.mergeSort_nil, List.map_nil]

/-- The layers by which a caller can browse. -/
def layers : List String := ["domain", "thin-harness", "infrastructure", "example"]

/-- Whether a skill has all of the tags. -/
def hasTags (tags : List String) (entry : SkillEntry δ) : Bool :=
  tags.all (fun tag => entry.metadata.tags.any (fun value => eqIgnoreAsciiCase value tag))

/-- The tags that the shared ranking filters by once more. -/
def rankingTags (tags : List String) : List String :=
  if tags.any (fun tag => layers.contains (toAsciiLowercase tag)) then
    (tags.map Text.trim).filter (fun tag => tag ≠ "")
  else []

/-- Whether a skill is of the scope that is asked for. -/
def inScope (scope : Option SkillScope) (entry : SkillEntry δ) : Bool :=
  scope.all (fun wanted => entry.scope = wanted)

/-- The skills among which a search looks. -/
def candidates (c : SkillCatalog δ ε η) (inShard : String → Bool) (tags : List String) :
    List (SkillEntry δ) :=
  (c.entries.entries.filter (fun e => inShard e.1 && hasTags tags e.2)).map Prod.snd

/-- The search, without the shard that it is narrowed to. -/
def searchWithin (rk : Ranking δ) (c : SkillCatalog δ ε η) (inShard : String → Bool)
    (query : Option String) (tags : List String) (scope : Option SkillScope) :
    List (SkillEntry δ) :=
  let wanted := Text.trim (query.getD "")
  if wanted = "" then
    rankBy (fun _ => some 0) ((c.candidates inShard tags).filter (inScope scope))
  else
    let explicit := tags.any (fun tag => layers.contains (toAsciiLowercase tag))
    (rankBy (rk.score wanted explicit)
      ((c.candidates inShard tags).filter (hasTags (rankingTags tags)))).filter (inScope scope)

/-- `search_skills`. A DCC without a shard has no skills. -/
def searchSkills (rk : Ranking δ) (c : SkillCatalog δ ε η) (query : Option String)
    (tags : List String) (dcc : Option String) (scope : Option SkillScope) (limit : Option Nat) :
    List (SkillEntry δ) :=
  let hits :=
    match (dcc.filter (fun d => d ≠ "")).map toAsciiLowercase with
    | none => searchWithin rk c (fun _ => true) query tags scope
    | some key =>
      match c.dccShards.lookup key with
      | none => []
      | some names => searchWithin rk c (fun name => names.contains name) query tags scope
  hits.take (limit.getD hits.length)

theorem before_trans (a b d : Nat × SkillEntry δ) (hab : before a b = true)
    (hbd : before b d = true) : before a d = true := by
  unfold before at *
  rw [decide_eq_true_eq] at *
  rcases hab with hab | ⟨hab, hab' | ⟨hab', hname⟩⟩
  · rcases hbd with hbd | ⟨hbd, _⟩ <;> exact .inl (by omega)
  · rcases hbd with hbd | ⟨hbd, hbd' | ⟨hbd', _⟩⟩
    · exact .inl (by omega)
    · exact .inr ⟨by omega, .inl (by omega)⟩
    · exact .inr ⟨by omega, .inl (by omega)⟩
  · rcases hbd with hbd | ⟨hbd, hbd' | ⟨hbd', hname'⟩⟩
    · exact .inl (by omega)
    · exact .inr ⟨by omega, .inl (by omega)⟩
    · exact .inr ⟨by omega, .inr ⟨by omega, le_trans hname hname'⟩⟩

theorem before_total (a b : Nat × SkillEntry δ) : (before a b || before b a) = true := by
  unfold before
  rw [Bool.or_eq_true, decide_eq_true_eq, decide_eq_true_eq]
  rcases lt_trichotomy a.1 b.1 with hscore | hscore | hscore
  · exact .inr (.inl hscore)
  · rcases lt_trichotomy a.2.scope.rank b.2.scope.rank with hscope | hscope | hscope
    · exact .inr (.inr ⟨hscore.symm, .inl hscope⟩)
    · rcases le_total a.2.metadata.name b.2.metadata.name with hname | hname
      · exact .inl (.inr ⟨hscore, .inr ⟨hscope, hname⟩⟩)
      · exact .inr (.inr ⟨hscore.symm, .inr ⟨hscope.symm, hname⟩⟩)
    · exact .inl (.inr ⟨hscore, .inl hscope⟩)
  · exact .inl (.inl hscore)

theorem name_eq_of_before (a b : Nat × SkillEntry δ) (hab : before a b = true)
    (hba : before b a = true) : a.1 = b.1 ∧ a.2.metadata.name = b.2.metadata.name := by
  unfold before at *
  rw [decide_eq_true_eq] at *
  rcases hab with hab | ⟨hscore, hab | ⟨hscope, hname⟩⟩
  · rcases hba with hba | ⟨hba, _⟩ <;> omega
  · rcases hba with hba | ⟨_, hba | ⟨hba, _⟩⟩ <;> omega
  · rcases hba with hba | ⟨_, hba | ⟨_, hname'⟩⟩
    · omega
    · omega
    · exact ⟨hscore, le_antisymm hname hname'⟩

/-- Skills with names of their own are ranked alike among any of them. -/
theorem rankBy_filter (score : SkillEntry δ → Option Nat) (p : SkillEntry δ → Bool)
    (skills : List (SkillEntry δ)) (hnames : ∀ e ∈ skills, ∀ e' ∈ skills,
      e.metadata.name = e'.metadata.name → e = e') :
    rankBy score (skills.filter p) = (rankBy score skills).filter p := by
  unfold rankBy
  rw [List.filter_map]
  refine congrArg (List.map Prod.snd) ?_
  have hfiltered :
      (skills.filter p).filterMap (fun entry => (score entry).map (fun n => (n, entry))) =
      (skills.filterMap (fun entry => (score entry).map (fun n => (n, entry)))).filter
        (p ∘ Prod.snd) := by
    induction skills with
    | nil => rfl
    | cons entry rest ih =>
        have hrest := ih (fun e he e' he' => hnames e (List.mem_cons_of_mem entry he) e'
          (List.mem_cons_of_mem entry he'))
        rw [List.filter_cons, List.filterMap_cons]
        by_cases hentry : p entry = true
        · rw [if_pos hentry, List.filterMap_cons]
          cases score entry with
          | none => exact hrest
          | some n =>
              dsimp only [Option.map_some]
              rw [List.filter_cons, if_pos (show (p ∘ Prod.snd) (n, entry) = true from hentry),
                hrest]
        · rw [if_neg hentry]
          cases score entry with
          | none => exact hrest
          | some n =>
              dsimp only [Option.map_some]
              rw [List.filter_cons, if_neg (show ¬ (p ∘ Prod.snd) (n, entry) = true from hentry),
                hrest]
  rw [hfiltered]
  have hmem : ∀ hit, hit ∈ (skills.filterMap
      (fun entry => (score entry).map (fun n => (n, entry)))) → hit.2 ∈ skills := by
    intro hit hhit
    rcases List.mem_filterMap.mp hhit with ⟨entry, hentry, hmap⟩
    rcases Option.map_eq_some_iff.mp hmap with ⟨n, _, rfl⟩
    exact hentry
  generalize skills.filterMap (fun entry => (score entry).map (fun n => (n, entry))) = hits at *
  -- Two sorted lists of the same hits, whose order has no ties.
  have htie : ∀ a b, a ∈ (hits.filter (p ∘ Prod.snd)).mergeSort before →
      b ∈ (hits.mergeSort before).filter (p ∘ Prod.snd) → before a b = true →
      before b a = true → a = b := by
    intro a b ha hb hab hba
    rcases name_eq_of_before a b hab hba with ⟨hscore, hname⟩
    have ha' := hmem a (List.mem_filter.mp ((List.mergeSort_perm _ _).mem_iff.mp ha)).1
    have hb' := hmem b ((List.mergeSort_perm _ _).mem_iff.mp (List.mem_filter.mp hb).1)
    exact Prod.ext hscore (hnames a.2 ha' b.2 hb' hname)
  exact List.Perm.eq_of_pairwise htie (List.pairwise_mergeSort before_trans before_total _)
    ((List.pairwise_mergeSort before_trans before_total _).filter _)
    ((List.mergeSort_perm _ _).trans ((List.mergeSort_perm _ _).symm.filter _))

/-- Whether a skill is of a DCC, by its metadata. -/
def ofDcc (key : String) (entry : SkillEntry δ) : Bool :=
  toAsciiLowercase entry.metadata.dcc == key

theorem names_candidates (h : c.Indexed) (inShard : String → Bool) (tags : List String)
    (p : SkillEntry δ → Bool) :
    ∀ e ∈ (c.candidates inShard tags).filter p, ∀ e' ∈ (c.candidates inShard tags).filter p,
      e.metadata.name = e'.metadata.name → e = e' := by
  have hlookup : ∀ e ∈ (c.candidates inShard tags).filter p,
      c.entries.lookup e.metadata.name = some e := by
    intro e he
    rcases List.mem_map.mp (List.mem_filter.mp he).1 with ⟨item, hitem, rfl⟩
    have hfound := OrderedMap.lookup_of_mem c.entries item.1 item.2 (List.mem_filter.mp hitem).1
    have hname := h.named item.1 (item.2.metadata.name, toAsciiLowercase item.2.metadata.dcc) (by
      rw [label, hfound, Option.map_some])
    dsimp only at hname
    rw [hname]
    exact hfound
  intro e he e' he' hname
  have hboth := hlookup e he
  rw [hname, hlookup e' he'] at hboth
  exact (Option.some.inj hboth).symm

/-- The candidates of a shard are those of its DCC. -/
theorem candidates_shard (h : c.Indexed) (key : String) (names : List String)
    (hshard : c.shard key = names) (tags : List String) :
    c.candidates (fun name => names.contains name) tags =
      (c.candidates (fun _ => true) tags).filter (ofDcc key) := by
  unfold candidates
  rw [List.filter_map, List.filter_filter]
  refine congrArg (List.map Prod.snd) (List.filter_congr (fun item hitem => ?_))
  have hfound := OrderedMap.lookup_of_mem c.entries item.1 item.2 hitem
  have hplaced := h.placed c item.1 key item.2 hfound
  rw [hshard] at hplaced
  have hbool : names.contains item.1 = ofDcc key item.2 := by
    rw [Bool.eq_iff_iff, List.contains_iff_mem, hplaced, ofDcc, beq_iff_eq]
    exact eq_comm
  dsimp only [Function.comp_apply]
  rw [hbool, Bool.true_and]

theorem searchWithin_shard (rk : Ranking δ) (c : SkillCatalog δ ε η) (h : c.Indexed) (key : String)
    (names : List String) (hshard : c.shard key = names) (query : Option String)
    (tags : List String) (scope : Option SkillScope) :
    searchWithin rk c (fun name => names.contains name) query tags scope =
      (searchWithin rk c (fun _ => true) query tags scope).filter (ofDcc key) := by
  have hcommute : ∀ p q : SkillEntry δ → Bool, ∀ l : List (SkillEntry δ),
      (l.filter p).filter q = (l.filter q).filter p := by
    intro p q l
    rw [List.filter_filter, List.filter_filter]
    exact List.filter_congr (fun e _ => Bool.and_comm _ _)
  unfold searchWithin
  rw [candidates_shard c h key names hshard tags]
  dsimp only
  split
  next =>
    rw [hcommute]
    exact rankBy_filter _ _ _ (names_candidates c h _ tags _)
  next =>
    rw [hcommute (ofDcc key), rankBy_filter _ _ _ (names_candidates c h _ tags _), hcommute]

theorem searchSkills_dcc (rk : Ranking δ) (c : SkillCatalog δ ε η) (h : c.Indexed)
    (query : Option String) (tags : List String) (dcc : String) (hdcc : dcc ≠ "")
    (scope : Option SkillScope) :
    searchSkills rk c query tags (some dcc) scope none =
      (searchSkills rk c query tags none scope none).filter (ofDcc (toAsciiLowercase dcc)) := by
  have hall : ∀ hits : List (SkillEntry δ),
      hits.take ((none : Option Nat).getD hits.length) = hits :=
    fun hits => List.take_of_length_le (Nat.le_refl _)
  have hfilter : (some dcc).filter (fun d => d ≠ "") = some dcc := by
    rw [Option.filter_some, if_pos (decide_eq_true hdcc)]
  unfold searchSkills
  dsimp only
  rw [hall, hall, hfilter, Option.map_some]
  dsimp only [Option.filter_none, Option.map_none]
  split
  next hnone =>
    have hshard : c.shard (toAsciiLowercase dcc) = [] := by
      rw [shard, hnone, Option.getD_none]
    have hempty := searchWithin_shard rk c h (toAsciiLowercase dcc) [] hshard query tags scope
    rw [← hempty]
    -- No candidate is in a shard that is not there.
    have hcandidates : c.candidates (fun name => ([] : List String).contains name) tags = [] := by
      unfold candidates
      rw [List.map_eq_nil_iff, List.filter_eq_nil_iff]
      intro item _ hitem
      rw [Bool.and_eq_true] at hitem
      exact absurd (List.contains_iff_mem.mp hitem.1) List.not_mem_nil
    unfold searchWithin
    rw [hcandidates]
    dsimp only [List.filter_nil]
    split
    next => exact (rankBy_nil _).symm
    next =>
      rw [rankBy_nil]
      rfl
  next names hnames =>
    refine searchWithin_shard rk c h (toAsciiLowercase dcc) names ?_ query tags scope
    rw [shard, hnames, Option.getD_some]

/-- With a limit, the search answers the first of its hits. -/
theorem searchSkills_limit (rk : Ranking δ) (c : SkillCatalog δ ε η) (query : Option String)
    (tags : List String) (dcc : Option String) (scope : Option SkillScope) (limit : Nat) :
    searchSkills rk c query tags dcc scope (some limit) =
      (searchSkills rk c query tags dcc scope none).take limit := by
  unfold searchSkills
  dsimp only [Option.getD_some, Option.getD_none]
  rw [List.take_of_length_le (Nat.le_refl _)]

/-! ## The catalog agrees with itself -/

/-- What the entries, the loaded set and the shards should say about each other, and
    what a search that is filtered by a DCC should answer. -/
structure Agrees (c : SkillCatalog δ ε η) : Prop where
  sharded : ∀ key name, name ∈ c.shard key ↔
    ∃ entry, c.entries.lookup name = some entry ∧ toAsciiLowercase entry.metadata.dcc = key
  flagged : ∀ name, name ∈ c.loaded ↔
    ∃ entry, c.entries.lookup name = some entry ∧ entry.state = .loaded
  searched : ∀ (rk : Ranking δ) (query : Option String) (tags : List String) (dcc : String)
    (scope : Option SkillScope), dcc ≠ "" →
    searchSkills rk c query tags (some dcc) scope none =
        (searchSkills rk c query tags none scope none).filter (ofDcc (toAsciiLowercase dcc)) ∧
      ∀ limit, searchSkills rk c query tags (some dcc) scope (some limit) =
        ((searchSkills rk c query tags none scope none).filter
          (ofDcc (toAsciiLowercase dcc))).take limit

theorem Coherent.agrees (h : c.Coherent) : c.Agrees where
  sharded key name := by
    rw [h.indexed.mem_shard, label, Option.map_map, Option.map_eq_some_iff]
    rfl
  flagged := h.flagged
  searched rk query tags dcc scope hdcc := by
    have hall := searchSkills_dcc rk c h.indexed query tags dcc hdcc scope
    refine ⟨hall, fun limit => ?_⟩
    rw [searchSkills_limit, hall]

theorem catalog_agrees [DecidableEq δ] (registry : ToolRegistry ε)
    (dispatcher : Option (OrderedMap String η)) (ops : List (Op δ ε η)) (c : SkillCatalog δ ε η)
    (hrepaired : Along step Repaired (new registry dispatcher) ops)
    (hrun : exec step (new registry dispatcher) ops = some c) : c.Agrees :=
  (coherent_of_run registry dispatcher ops c hrepaired hrun).agrees c

/-- Without a transform, no load changes a DCC. -/
theorem keepsDcc_of_none (known : String → SkillMetadata δ → Prop) (h : host.transform = none) :
    KeepsDcc host known := by
  intro name metadata metadata' _ htransform
  unfold applySkillLoadTransform at htransform
  rw [h] at htransform
  rw [Option.some.inj htransform]

def rigSkill : SkillMetadata Unit :=
  ⟨"rig", "Maya", [], [], [], [], [], ()⟩

def emptyCatalog : SkillCatalog Unit Unit Unit := new (ToolRegistry.new Unit) none

theorem catalog_agrees_added :
    (((emptyCatalog.addSkill rigSkill).loadSkillWithOptions plainHost "rig" true).1).Agrees :=
  catalog_agrees (ToolRegistry.new Unit) none
    [.addSkill rigSkill, .loadSkill plainHost "rig" true] _
    ⟨trivial, fun t _ => ⟨keepsDcc_of_none plainHost t.Waiting rfl, fun _ _ => trivial⟩⟩ rfl

/-- An object that the catalog does not know gets an entry and no shard. -/
theorem object_disagrees :
    exec step emptyCatalog [.loadSkillObject plainHost rigSkill] =
        some (loadSkillObject plainHost emptyCatalog rigSkill).1 ∧
      ¬ (loadSkillObject plainHost emptyCatalog rigSkill).1.Agrees := by
  refine ⟨rfl, fun h => ?_⟩
  have hentry : ((loadSkillObject plainHost emptyCatalog rigSkill).1.entries.lookup "rig").map
      (fun entry => toAsciiLowercase entry.metadata.dcc) = some "maya" := by decide
  have hshard : (loadSkillObject plainHost emptyCatalog rigSkill).1.shard "maya" = [] := by decide
  rcases Option.map_eq_some_iff.mp hentry with ⟨entry, hlookup, hdcc⟩
  have hmem := (h.sharded "maya" "rig").mpr ⟨entry, hlookup, hdcc⟩
  rw [hshard] at hmem
  exact List.not_mem_nil hmem

end SkillCatalog

end Catalog

end DccMcp
