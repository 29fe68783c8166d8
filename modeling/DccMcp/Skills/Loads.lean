import DccMcp.Skills.Shards
import Mathlib.Data.List.Perm.Subperm

/-!
# Loading and Unloading Skills

Loading never touches the shards. So it keeps them right as long as it leaves the DCC of
every entry alone, and that is up to the transform. What loading does is one relation
between catalogs, which holds of each step of the recursion and composes.

## Main definitions

* `Same`: Nothing changes that coherence is about.
* `Loads`: What loading does to the entries, as far as coherence goes.
* `KeepsDcc`: The transform leaves the DCC alone.

## Theorems

* `loads_install`, `loads_loadSkillRecursive`: Loading keeps the shards and the labels of
  the entries.
* `lookup_unloadSkill`, `mem_loaded_unloadSkill`, `coherent_unloadSkill`: Unloading.
-/

namespace DccMcp

namespace Catalog

open Actions Text

variable {δ ε η : Type}

namespace SkillCatalog

/-! ## Loading and unloading -/

/-- The operations on groups, and registering, leave what coherence is about alone. -/
structure Same (c c' : SkillCatalog δ ε η) : Prop where
  entries : c'.entries = c.entries
  loaded : c'.loaded = c.loaded
  shards : c'.dccShards = c.dccShards

variable (host : Host δ ε η) (c : SkillCatalog δ ε η) (name : String) (skillName : String)

theorem Same.refl : Same c c := ⟨rfl, rfl, rfl⟩

theorem Same.trans (c c' c'' : SkillCatalog δ ε η) (h : Same c c') (h' : Same c' c'') :
    Same c c'' :=
  ⟨h'.entries.trans h.entries, h'.loaded.trans h.loaded, h'.shards.trans h.shards⟩

theorem Same.coherent (c c' : SkillCatalog δ ε η) (h : c.Coherent) (hsame : Same c c') :
    c'.Coherent := by
  refine ⟨h.indexed.congr c c' hsame.shards (fun name => ?_), fun name => ?_⟩
  · unfold label
    rw [hsame.entries]
  · rw [hsame.entries, hsame.loaded]
    exact h.flagged name

theorem same_foldl (op : SkillCatalog δ ε η → String → SkillCatalog δ ε η)
    (hop : ∀ c group, Same c (op c group)) (groups : List String) (c : SkillCatalog δ ε η) :
    Same c (groups.foldl op c) := by
  induction groups generalizing c with
  | nil => exact Same.refl c
  | cons group rest ih => exact (hop c group).trans _ _ _ (ih (op c group))

theorem same_activateSkillGroups (metadata : SkillMetadata δ) :
    Same c (c.activateSkillGroups skillName metadata) :=
  same_foldl (fun acc group => acc.activateSkillGroup skillName group)
    (fun _ _ => ⟨rfl, rfl, rfl⟩) _ c

theorem same_activateAtLoad (metadata : SkillMetadata δ) (activateGroups : Bool)
    (targetGroup : Option String) :
    Same c (c.activateAtLoad skillName metadata activateGroups targetGroup) := by
  cases targetGroup with
  | some group => exact ⟨rfl, rfl, rfl⟩
  | none =>
      dsimp only [activateAtLoad]
      by_cases hactivate : activateGroups = true
      · rw [if_pos hactivate]
        exact same_activateSkillGroups c skillName metadata
      · rw [if_neg hactivate]
        exact same_foldl (fun acc group => acc.activateSkillGroup skillName group)
          (fun _ _ => ⟨rfl, rfl, rfl⟩) _ c

theorem same_reload (activateGroups : Bool) : Same c (c.reload skillName activateGroups) := by
  unfold reload
  split
  next => exact Same.refl c
  next entry hentry =>
    split
    next => exact same_activateSkillGroups c skillName entry.metadata
    next => exact Same.refl c

/-- What loading does to the entries. A skill that it loads has the metadata that the
    transform made of the one it had; every other entry has the one it had. -/
structure Loads (host : Host δ ε η) (c c' : SkillCatalog δ ε η) : Prop where
  shards : c'.dccShards = c.dccShards
  label : ∀ name, c'.label name = c.label name
  mono : ∀ name ∈ c.loaded, name ∈ c'.loaded
  metadata : ∀ name entry', c'.entries.lookup name = some entry' →
    ∃ entry, c.entries.lookup name = some entry ∧ (entry'.metadata = entry.metadata ∨
      (name ∉ c.loaded ∧ name ∈ c'.loaded ∧
        applySkillLoadTransform host name entry.metadata = some entry'.metadata))
  flagged : c.Flagged → c'.Flagged

theorem Same.loads (c c' : SkillCatalog δ ε η) (h : Same c c') : Loads host c c' where
  shards := h.shards
  label name := by
    unfold SkillCatalog.label
    rw [h.entries]
  mono name hname := by
    rw [h.loaded]
    exact hname
  metadata name entry' hentry' := by
    rw [h.entries] at hentry'
    exact ⟨entry', hentry', .inl rfl⟩
  flagged hflagged name := by
    rw [h.entries, h.loaded]
    exact hflagged name

theorem Loads.refl : Loads host c c :=
  (Same.refl c).loads host c c

theorem Loads.trans (c c' c'' : SkillCatalog δ ε η) (h : Loads host c c') (h' : Loads host c' c'') :
    Loads host c c'' where
  shards := h'.shards.trans h.shards
  label name := (h'.label name).trans (h.label name)
  mono name hname := h'.mono name (h.mono name hname)
  metadata name entry'' hentry'' := by
    rcases h'.metadata name entry'' hentry'' with ⟨entry', hentry', hsecond⟩
    rcases h.metadata name entry' hentry' with ⟨entry, hentry, hfirst⟩
    refine ⟨entry, hentry, ?_⟩
    -- A skill is not transformed twice: after the first time it is loaded.
    rcases hsecond with hsecond | ⟨hunloaded, hloaded, hsecond⟩
    · rcases hfirst with hfirst | ⟨hunloaded, hloaded, hfirst⟩
      · exact .inl (hsecond.trans hfirst)
      · rw [← hsecond] at hfirst
        exact .inr ⟨hunloaded, h'.mono name hloaded, hfirst⟩
    · rcases hfirst with hfirst | ⟨_, hloaded', _⟩
      · rw [hfirst] at hsecond
        exact .inr ⟨fun hname => hunloaded (h.mono name hname), hloaded, hsecond⟩
      · exact absurd hloaded' hunloaded
  flagged hflagged := h'.flagged (h.flagged hflagged)

theorem Loads.coherent (c c' : SkillCatalog δ ε η) (h : c.Coherent) (hloads : Loads host c c') :
    c'.Coherent :=
  ⟨h.indexed.congr c c' hloads.shards hloads.label, hloads.flagged h.flagged⟩

/-- The metadata of a skill that is not loaded. -/
def Waiting (c : SkillCatalog δ ε η) (name : String) (metadata : SkillMetadata δ) : Prop :=
  name ∉ c.loaded ∧ (c.entries.lookup name).map SkillEntry.metadata = some metadata

/-- The transform leaves the DCC of such metadata alone. -/
def KeepsDcc (host : Host δ ε η) (known : String → SkillMetadata δ → Prop) : Prop :=
  ∀ name metadata metadata', known name metadata →
    applySkillLoadTransform host name metadata = some metadata' →
      toAsciiLowercase metadata'.dcc = toAsciiLowercase metadata.dcc

/-- What is not loaded yet has not been transformed. -/
theorem Loads.waiting (c c' : SkillCatalog δ ε η) (h : Loads host c c') (name : String)
    (metadata : SkillMetadata δ) (hwaiting : c'.Waiting name metadata) :
    c.Waiting name metadata := by
  rcases hwaiting with ⟨hunloaded, hlookup⟩
  rcases Option.map_eq_some_iff.mp hlookup with ⟨entry', hentry', rfl⟩
  rcases h.metadata name entry' hentry' with ⟨entry, hentry, hsame | ⟨_, hloaded, _⟩⟩
  · refine ⟨fun hname => hunloaded (h.mono name hname), ?_⟩
    rw [hentry, Option.map_some, hsame]
  · exact absurd hloaded hunloaded

theorem KeepsDcc.loads (c c' : SkillCatalog δ ε η) (hkeeps : KeepsDcc host c.Waiting)
    (h : Loads host c c') : KeepsDcc host c'.Waiting :=
  fun name metadata metadata' hwaiting => hkeeps name metadata metadata'
    (h.waiting host c c' name metadata hwaiting)

theorem name_applySkillLoadTransform (metadata metadata' : SkillMetadata δ)
    (h : applySkillLoadTransform host name metadata = some metadata') :
    metadata'.name = metadata.name := by
  unfold applySkillLoadTransform at h
  split at h
  next =>
    rw [Option.some.inj h]
  next transform htransform =>
    rcases Option.filter_eq_some_iff.mp h with ⟨_, hnames⟩
    rw [Bool.and_eq_true, decide_eq_true_eq] at hnames
    exact hnames.1

/-- Putting a skill on hold changes its state and nothing else. -/
theorem loads_pending (entry : SkillEntry δ) (missing : List String)
    (hentry : c.entries.lookup name = some entry)
    (hunloaded : name ∉ c.loaded) :
    Loads host c (c.place name { entry with state := .pendingDeps missing }) where
  shards := rfl
  label other := by
    rw [label_place]
    by_cases hother : other = name
    · rw [if_pos hother, hother]
      unfold SkillCatalog.label
      rw [hentry, Option.map_some]
    · rw [if_neg hother]
  mono _ hname := hname
  metadata other entry' hentry' := by
    rw [lookup_place] at hentry'
    by_cases hother : other = name
    · rw [if_pos hother, Option.some.injEq] at hentry'
      rw [hother, ← hentry']
      exact ⟨entry, hentry, .inl rfl⟩
    · rw [if_neg hother] at hentry'
      exact ⟨entry', hentry', .inl rfl⟩
  flagged hflagged := flagged_place c name _ hflagged
    (iff_of_false hunloaded SkillState.noConfusion)

/-- Installing replaces the metadata of the entry, which is why its DCC has to be the
    one that the shards know. -/
theorem loads_install (entry : SkillEntry δ) (metadata : SkillMetadata δ) (activateGroups : Bool)
    (targetGroup : Option String) (hentry : c.entries.lookup name = some entry)
    (hunloaded : name ∉ c.loaded)
    (htransform : applySkillLoadTransform host name entry.metadata = some metadata)
    (hdcc : toAsciiLowercase metadata.dcc = toAsciiLowercase entry.metadata.dcc) :
    Loads host c (install host c name metadata activateGroups targetGroup) := by
  have hname := name_applySkillLoadTransform host name entry.metadata metadata htransform
  have hsame := same_activateAtLoad c name metadata activateGroups targetGroup
  have hlookup : ∀ other,
      (install host c name metadata activateGroups targetGroup).entries.lookup other =
        if other = name then some { entry with
          metadata := metadata
          state := .loaded
          registeredTools :=
            (registration host c name metadata activateGroups targetGroup).registered }
        else c.entries.lookup other := by
    intro other
    unfold install
    rw [OrderedMap.lookup_modify, hsame.entries]
    by_cases hother : other = name
    · rw [if_pos hother, if_pos hother, hother, hentry, Option.map_some]
    · rw [if_neg hother, if_neg hother]
  have hloaded : ∀ other,
      other ∈ (install host c name metadata activateGroups targetGroup).loaded ↔
        other = name ∨ other ∈ c.loaded := by
    intro other
    unfold install
    rw [List.mem_insert_iff, hsame.loaded]
  refine ⟨hsame.shards, fun other => ?_, fun other h => (hloaded other).mpr (.inr h),
    fun other entry' hentry' => ?_, fun hflagged other => ?_⟩
  · unfold label
    rw [hlookup]
    by_cases hother : other = name
    · rw [if_pos hother, hother, hentry, Option.map_some, Option.map_some, hname, hdcc]
    · rw [if_neg hother]
  · rw [hlookup] at hentry'
    by_cases hother : other = name
    · rw [if_pos hother, Option.some.injEq] at hentry'
      rw [hother, ← hentry']
      exact ⟨entry, hentry, .inr ⟨hunloaded, (hloaded name).mpr (.inl rfl), htransform⟩⟩
    · rw [if_neg hother] at hentry'
      exact ⟨entry', hentry', .inl rfl⟩
  · rw [hloaded, hlookup]
    by_cases hother : other = name
    · rw [if_pos hother]
      exact iff_of_true (.inl hother) ⟨_, rfl, rfl⟩
    · rw [if_neg hother, or_iff_right hother]
      exact hflagged other

theorem loads_loadSkillMetadata (entry : SkillEntry δ) (metadata : SkillMetadata δ)
    (activateGroups : Bool)
    (targetGroup : Option String) (hentry : c.entries.lookup name = some entry)
    (hunloaded : name ∉ c.loaded)
    (htransform : applySkillLoadTransform host name entry.metadata = some metadata)
    (hdcc : toAsciiLowercase metadata.dcc = toAsciiLowercase entry.metadata.dcc) :
    Loads host c (loadSkillMetadata host c name metadata activateGroups targetGroup).1 := by
  unfold loadSkillMetadata
  split
  next => exact Loads.refl host c
  next =>
    exact loads_install host c name entry metadata activateGroups targetGroup hentry hunloaded
      htransform hdcc

theorem loads_loadDependencies
    (load : SkillCatalog δ ε η → String → SkillCatalog δ ε η × Except LoadError (List String))
    (hload : ∀ c dep, KeepsDcc host c.Waiting → Loads host c (load c dep).1)
    (deps : List String) (c : SkillCatalog δ ε η) (hkeeps : KeepsDcc host c.Waiting) :
    Loads host c (loadDependencies load deps c).1 := by
  induction deps generalizing c with
  | nil => exact Loads.refl host c
  | cons dep rest ih =>
      have hdep := hload c dep hkeeps
      unfold loadDependencies
      split
      next => exact ih c hkeeps
      next =>
        split
        next c' tools hresult =>
          rw [hresult] at hdep
          exact hdep.trans host c c' _ (ih c' (hkeeps.loads host c c' hdep))
        next c' reason hresult =>
          rw [hresult] at hdep
          exact hdep

theorem loads_loadSkillRecursive (activateGroups : Bool) (fuel : Nat) (visiting : List String)
    (targetGroup : Option String) (c : SkillCatalog δ ε η)
    (name : String) (hkeeps : KeepsDcc host c.Waiting) :
    Loads host c (loadSkillRecursive host activateGroups fuel visiting targetGroup c name).1 := by
  induction fuel generalizing visiting targetGroup c name with
  | zero => exact Loads.refl host c
  | succ fuel ih =>
      unfold loadSkillRecursive
      split
      -- If it is loaded, at most its groups are activated.
      next => exact (same_reload c name activateGroups).loads host c _
      next hunloaded =>
        split
        next => exact Loads.refl host c
        next =>
          split
          next => exact Loads.refl host c
          next entry hentry =>
            split
            next => exact Loads.refl host c
            next metadata htransform =>
              split
              next => exact loads_pending host c name entry _ hentry hunloaded
              next =>
                have hdeps := loads_loadDependencies host
                  (fun c' dep => loadSkillRecursive host activateGroups fuel (visiting ++ [name])
                    none c' dep)
                  (fun c' dep h => ih (visiting ++ [name]) none c' dep h) metadata.depends c hkeeps
                split
                next c' err hresult =>
                  rw [hresult] at hdeps
                  exact hdeps
                next c' hresult =>
                  rw [hresult] at hdeps
                  split
                  next => exact hdeps
                  next hunloaded' =>
                    -- Its entry is the one that was read before its dependencies were loaded.
                    have hlabel := hdeps.label name
                    unfold label at hlabel
                    rw [hentry, Option.map_some] at hlabel
                    rcases Option.map_eq_some_iff.mp hlabel with ⟨entry', hentry', _⟩
                    rcases hdeps.metadata name entry' hentry' with ⟨old, hold, hsame⟩
                    rw [hentry, Option.some.injEq] at hold
                    rw [← hold] at hsame
                    have hmetadata : entry'.metadata = entry.metadata :=
                      hsame.elim id (fun h => absurd h.2.1 hunloaded')
                    rw [← hmetadata] at htransform
                    refine hdeps.trans host c c' _ (loads_loadSkillMetadata host c' name entry'
                      metadata activateGroups targetGroup hentry' hunloaded' htransform ?_)
                    refine hkeeps name entry'.metadata metadata ⟨hunloaded, ?_⟩ htransform
                    rw [hentry, Option.map_some, hmetadata]

/-- Unloading changes a state and the loaded set together. -/
theorem lookup_unloadSkill (skillName name : String) :
    ((c.unloadSkill skillName).1.entries.lookup name).map SkillEntry.metadata =
      (c.entries.lookup name).map SkillEntry.metadata := by
  unfold unloadSkill
  split
  next => rfl
  next =>
    have hquiet := same_foldl (fun acc group => acc.deactivateSkillGroup skillName group)
      (fun _ _ => ⟨rfl, rfl, rfl⟩) (c.activeGroups.filterMap (scopedGroup skillName)) c
    dsimp only
    rw [hquiet.entries, OrderedMap.lookup_modify]
    split
    next => rw [Option.map_map]; rfl
    next => rfl

theorem mem_loaded_unloadSkill (skillName name : String) :
    name ∈ (c.unloadSkill skillName).1.loaded ↔ name ∈ c.loaded ∧ name ≠ skillName := by
  unfold unloadSkill
  split
  next hunloaded => exact ⟨fun h => ⟨h, fun hname => hunloaded (hname ▸ h)⟩, And.left⟩
  next =>
    have hquiet := same_foldl (fun acc group => acc.deactivateSkillGroup skillName group)
      (fun _ _ => ⟨rfl, rfl, rfl⟩) (c.activeGroups.filterMap (scopedGroup skillName)) c
    dsimp only
    rw [List.mem_filter, decide_eq_true_eq, hquiet.loaded]

theorem label_of_metadata (c c' : SkillCatalog δ ε η) (name : String)
    (h : (c'.entries.lookup name).map SkillEntry.metadata =
      (c.entries.lookup name).map SkillEntry.metadata) : c'.label name = c.label name := by
  have hlabel : ∀ d : SkillCatalog δ ε η, d.label name =
      ((d.entries.lookup name).map SkillEntry.metadata).map (fun metadata =>
        (metadata.name, toAsciiLowercase metadata.dcc)) := by
    intro d
    rw [Option.map_map]
    rfl
  rw [hlabel, hlabel, h]

theorem coherent_unloadSkill (h : c.Coherent) : (c.unloadSkill skillName).1.Coherent := by
  refine ⟨h.indexed.congr c _ ?_ (fun name => label_of_metadata c _ name
    (lookup_unloadSkill c skillName name)), fun name => ?_⟩
  · unfold unloadSkill
    split
    next => rfl
    next => exact (same_foldl (fun acc group => acc.deactivateSkillGroup skillName group)
      (fun _ _ => ⟨rfl, rfl, rfl⟩) (c.activeGroups.filterMap (scopedGroup skillName)) c).shards
  · rw [mem_loaded_unloadSkill]
    unfold unloadSkill
    split
    next hunloaded =>
      refine Iff.trans ⟨And.left, fun hname => ⟨hname, fun heq => ?_⟩⟩ (h.flagged name)
      exact hunloaded (heq ▸ hname)
    next =>
      have hquiet := same_foldl (fun acc group => acc.deactivateSkillGroup skillName group)
        (fun _ _ => ⟨rfl, rfl, rfl⟩) (c.activeGroups.filterMap (scopedGroup skillName)) c
      dsimp only
      rw [hquiet.entries, OrderedMap.lookup_modify]
      by_cases hname : name = skillName
      · rw [if_pos hname]
        refine iff_of_false (fun hboth => hboth.2 hname) ?_
        rintro ⟨entry, hentry, hstate⟩
        rcases Option.map_eq_some_iff.mp hentry with ⟨_, _, rfl⟩
        cases hstate
      · rw [if_neg hname]
        exact (and_iff_left hname).trans (h.flagged name)

/-! ## The fuel -/

/-- Whether an error is for want of fuel, of the skill itself or of a dependency. -/
def exhausted : LoadError → Bool
  | .outOfFuel => true
  | .dependencyFailed _ reason => exhausted reason
  | _ => false

/-- Whether a load gave up for want of fuel. -/
def gaveUp : Except LoadError (List String) → Bool
  | .ok _ => false
  | .error err => exhausted err

variable (keys : List String)

/-- The names that have an entry are among these. -/
def Within : Prop := ∀ name, c.entries.lookup name ≠ none → name ∈ keys

/-- A load adds no name and ends for a reason of the source. -/
def Fueled (result : SkillCatalog δ ε η × Except LoadError (List String)) : Prop :=
  result.1.Within keys ∧ gaveUp result.2 = false

theorem exhausted_refusal (metadata : SkillMetadata δ) (targetGroup : Option String)
    (err : LoadError) (h : refusal host c skillName metadata targetGroup = some err) :
    exhausted err = false := by
  unfold refusal at h
  grind [exhausted]

theorem within_install (metadata : SkillMetadata δ) (activateGroups : Bool)
    (targetGroup : Option String) (h : c.Within keys) :
    (install host c skillName metadata activateGroups targetGroup).Within keys := by
  intro name hname
  have hsame := same_activateAtLoad c skillName metadata activateGroups targetGroup
  unfold install at hname
  rw [OrderedMap.lookup_modify, hsame.entries] at hname
  refine h name (fun hnone => hname ?_)
  rw [hnone, Option.map_none, ite_self]

theorem fueled_loadDependencies
    (load : SkillCatalog δ ε η → String → SkillCatalog δ ε η × Except LoadError (List String))
    (hload : ∀ c dep, c.Within keys → Fueled keys (load c dep)) (deps : List String)
    (c : SkillCatalog δ ε η) (h : c.Within keys) :
    (loadDependencies load deps c).1.Within keys ∧
      ∀ err, (loadDependencies load deps c).2 = some err → exhausted err = false := by
  induction deps generalizing c with
  | nil => exact ⟨h, fun _ heq => by cases heq⟩
  | cons dep rest ih =>
      have hdep := hload c dep h
      unfold loadDependencies
      split
      next => exact ih c h
      next =>
        split
        next c' tools hresult =>
          rw [hresult] at hdep
          exact ih c' hdep.1
        next c' reason hresult =>
          rw [hresult] at hdep
          exact ⟨hdep.1, fun _ heq => Option.some.inj heq ▸ hdep.2⟩

/-- The skills being loaded are entries, each once, so the entries bound the depth. -/
theorem fueled_loadSkillRecursive (activateGroups : Bool) (fuel : Nat) (visiting : List String)
    (targetGroup : Option String) (c : SkillCatalog δ ε η) (name : String) (h : c.Within keys)
    (hnodup : visiting.Nodup) (hvisiting : ∀ other ∈ visiting, other ∈ keys)
    (hfuel : keys.length < fuel + visiting.length) :
    Fueled keys (loadSkillRecursive host activateGroups fuel visiting targetGroup c name) := by
  induction fuel generalizing visiting targetGroup c name with
  | zero =>
      have hlength := (List.Nodup.subperm hnodup hvisiting).length_le
      omega
  | succ fuel ih =>
      unfold loadSkillRecursive
      split
      next =>
        refine ⟨fun other hother => h other ?_, rfl⟩
        rw [(same_reload c name activateGroups).entries] at hother
        exact hother
      next =>
        split
        next => exact ⟨h, rfl⟩
        next hfresh =>
          split
          next => exact ⟨h, rfl⟩
          next entry hentry =>
            have hkey : name ∈ keys := h name (by rw [hentry]; exact Option.some_ne_none entry)
            split
            next => exact ⟨h, rfl⟩
            next metadata htransform =>
              split
              next =>
                refine ⟨fun other hother => ?_, rfl⟩
                rw [lookup_place] at hother
                split at hother
                next heq => exact heq ▸ hkey
                next => exact h other hother
              next =>
                have hpushed : (visiting ++ [name]).Nodup :=
                  List.nodup_append.mpr ⟨hnodup, List.nodup_singleton name,
                    fun other hother last hlast heq =>
                      hfresh (List.mem_singleton.mp hlast ▸ heq ▸ hother)⟩
                have hwithin : ∀ other ∈ visiting ++ [name], other ∈ keys := by
                  intro other hother
                  rcases List.mem_append.mp hother with hother | hother
                  · exact hvisiting other hother
                  · exact List.mem_singleton.mp hother ▸ hkey
                -- One name more is being loaded, with one unit of fuel less.
                have hless : keys.length < fuel + (visiting ++ [name]).length := by
                  rw [List.length_append, List.length_singleton]
                  omega
                have hdeps := fueled_loadDependencies keys _ (fun c' dep hc' =>
                  ih (visiting ++ [name]) none c' dep hc' hpushed hwithin hless) metadata.depends c h
                split
                next c' err hresult =>
                  rw [hresult] at hdeps
                  exact ⟨hdeps.1, hdeps.2 err rfl⟩
                next c' hresult =>
                  rw [hresult] at hdeps
                  split
                  next => exact ⟨hdeps.1, rfl⟩
                  next =>
                    unfold loadSkillMetadata
                    split
                    next err hrefusal =>
                      exact ⟨hdeps.1, exhausted_refusal host c' name metadata targetGroup err hrefusal⟩
                    next =>
                      exact ⟨within_install host c' name keys metadata activateGroups targetGroup
                        hdeps.1, rfl⟩

/-- Loading ends for every graph of dependencies, cycles included: no fuel from
    the number of entries on is used up. -/
theorem load_terminates (activateGroups : Bool) (targetGroup : Option String) (more : Nat) :
    gaveUp (loadSkillRecursive host activateGroups (c.loadFuel + more) [] targetGroup c name).2 =
      false := by
  have hwithin : c.Within (c.entries.entries.map Prod.fst) := by
    intro other hother
    rcases Option.ne_none_iff_exists'.mp hother with ⟨entry, hentry⟩
    exact List.mem_map.mpr ⟨(other, entry), OrderedMap.mem_entries c.entries other entry hentry, rfl⟩
  refine (fueled_loadSkillRecursive host (c.entries.entries.map Prod.fst) activateGroups _ []
    targetGroup c name hwithin List.nodup_nil (fun _ hmem => absurd hmem List.not_mem_nil) ?_).2
  unfold loadFuel
  rw [List.length_map]
  omega

end SkillCatalog

end Catalog

end DccMcp
