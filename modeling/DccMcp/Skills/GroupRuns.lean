import DccMcp.Skills.Groups

/-!
# Tool Groups along a Run

Loading a skill gives every tool a flag and activates groups, and does not look at the
keys that are there: a tool that it leaves disabled may have a group that is active. Nor
does it look for a second declaration of a group. A load for which neither happens keeps
flags and groups in agreement.

A load may bring dependencies with it, each of which must do as well. Loading one of them
adds keys of that one only, so what is true of a skill that still waits stays true of it
until its turn.

## Main definitions

* `groupsAtLoad`: The groups that loading activates.
* `Fits`, `LoadFits`: Loading gives no tool a flag that its group contradicts.
* `Follows`: What loading leaves of the skills that still wait.
* `Calm`: A call whose names can be told apart, and whose loads fit.

## Theorems

* `settled_step`, `groups_agree`: Flags and groups agree in every run of calm calls.
-/

namespace DccMcp

namespace Catalog

open Actions Machine

variable {δ ε η : Type}

namespace SkillCatalog

/-! ## Loading -/

/-- The groups that loading activates. -/
def groupsAtLoad (metadata : SkillMetadata δ) (activateGroups : Bool) :
    Option String → List String
  | some group => [group]
  | none =>
    if activateGroups then
      (metadata.groups.map SkillGroup.name ++ metadata.tools.map ToolDeclaration.group).filter
        (fun group => group ≠ "")
    else (metadata.groups.filter SkillGroup.defaultActive).map SkillGroup.name

variable (host : Host δ ε η) (c : SkillCatalog δ ε η) (skillName : String)
  (metadata : SkillMetadata δ)

theorem activateAtLoad_eq (activateGroups : Bool) (targetGroup : Option String) :
    c.activateAtLoad skillName metadata activateGroups targetGroup =
      (groupsAtLoad metadata activateGroups targetGroup).foldl
        (fun acc group => acc.activateSkillGroup skillName group) c := by
  cases targetGroup with
  | some group => rfl
  | none =>
      dsimp only [activateAtLoad, groupsAtLoad]
      split
      next => rfl
      next => rfl

/-- Loading gives a tool a flag that its group does not contradict: a tool that is loaded
    disabled has a group that is not active, and is not activated with it either. -/
structure Fits (c : SkillCatalog δ ε η) (skillName : String) (metadata : SkillMetadata δ)
    (activateGroups : Bool) (targetGroup : Option String) : Prop where
  name : Plain skillName
  groups : ∀ group ∈ metadata.groups, Plain group.name
  tools : ∀ tool ∈ metadata.tools, Plain tool.group
  target : ∀ group, targetGroup = some group → Plain group
  quiet : ∀ tool ∈ metadata.tools, tool.group ≠ "" →
    enabledAtLoad metadata tool activateGroups targetGroup = false →
      ¬ c.GroupActive skillName tool.group ∧
        tool.group ∉ groupsAtLoad metadata activateGroups targetGroup

theorem plain_groupsAtLoad (activateGroups : Bool) (targetGroup : Option String)
    (h : c.Fits skillName metadata activateGroups targetGroup) :
    ∀ group ∈ groupsAtLoad metadata activateGroups targetGroup, Plain group := by
  intro group hgroup
  cases targetGroup with
  | some target =>
      rw [groupsAtLoad, List.mem_singleton] at hgroup
      exact h.target group (congrArg some hgroup.symm)
  | none =>
      rw [groupsAtLoad] at hgroup
      split at hgroup
      next =>
        rcases List.mem_append.mp (List.mem_filter.mp hgroup).1 with hmem | hmem
        · rcases List.mem_map.mp hmem with ⟨item, hitem, rfl⟩
          exact h.groups item hitem
        · rcases List.mem_map.mp hmem with ⟨tool, htool, rfl⟩
          exact h.tools tool htool
      next =>
        rcases List.mem_map.mp hgroup with ⟨item, hitem, rfl⟩
        exact h.groups item (List.mem_filter.mp hitem).1

/-- A tool that is loaded enabled has a group that is activated with it. -/
theorem mem_groupsAtLoad (activateGroups : Bool) (targetGroup : Option String)
    (tool : ToolDeclaration δ) (htool : tool ∈ metadata.tools)
    (hne : tool.group ≠ "") (h : enabledAtLoad metadata tool activateGroups targetGroup = true) :
    tool.group ∈ groupsAtLoad metadata activateGroups targetGroup := by
  cases targetGroup with
  | some target =>
      rw [enabledAtLoad, Bool.or_eq_true, beq_iff_eq, beq_iff_eq, or_iff_right hne] at h
      rw [groupsAtLoad, List.mem_singleton]
      exact h
  | none =>
      rw [groupsAtLoad]
      split
      next =>
        refine List.mem_filter.mpr ⟨List.mem_append_right _ ?_, decide_eq_true hne⟩
        exact List.mem_map.mpr ⟨tool, htool, rfl⟩
      next hactivate =>
        rw [enabledAtLoad, Bool.or_eq_true, or_iff_right hactivate, groupDefaultActive,
          Bool.or_eq_true, decide_eq_true_eq, or_iff_right hne] at h
        cases hfind : metadata.groups.find? (fun group => group.name == tool.group) with
        | none =>
            rw [hfind] at h
            cases h
        | some group =>
            rw [hfind, Option.map_some, Option.getD_some] at h
            have hname := List.find?_some hfind
            rw [beq_iff_eq] at hname
            refine List.mem_map.mpr ⟨group, List.mem_filter.mpr ⟨?_, h⟩, hname⟩
            exact List.mem_of_find?_eq_some hfind

theorem mem_activeGroups_foldl (groups : List String) (c : SkillCatalog δ ε η) (key : String) :
    key ∈ (groups.foldl (fun acc group => acc.activateSkillGroup skillName group) c).activeGroups ↔
      key ∈ c.activeGroups ∨ ∃ group ∈ groups, key = skillGroupKey skillName group := by
  induction groups generalizing c with
  | nil =>
      exact ⟨.inl, fun hmem => hmem.elim id (fun ⟨_, hmem, _⟩ => absurd hmem List.not_mem_nil)⟩
  | cons first rest ih =>
      have hfirst : ∀ other, other ∈ (c.activateSkillGroup skillName first).activeGroups ↔
          other = skillGroupKey skillName first ∨ other ∈ c.activeGroups :=
        fun other => List.mem_insert_iff
      rw [List.foldl_cons, ih, hfirst]
      constructor
      · rintro ((heq | hmem) | ⟨other, hother, heq⟩)
        · exact .inr ⟨first, List.mem_cons_self, heq⟩
        · exact .inl hmem
        · exact .inr ⟨other, List.mem_cons_of_mem first hother, heq⟩
      · rintro (hmem | ⟨other, hother, heq⟩)
        · exact .inl (.inr hmem)
        · rcases List.mem_cons.mp hother with hsame | hother
          · exact .inl (.inl (hsame ▸ heq))
          · exact .inr ⟨other, hother, heq⟩

/-- Which groups are active once those of a skill are: for that skill, these as well, and
    for every other skill, no others. -/
theorem groupActive_foldl (skillName owner group : String) (groups : List String)
    (c : SkillCatalog δ ε η) (hname : Plain skillName) (howner : Plain owner)
    (hgroup : Plain group) :
    (groups.foldl (fun acc group => acc.activateSkillGroup skillName group) c).GroupActive owner
      group ↔ c.GroupActive owner group ∨ (owner = skillName ∧ group ∈ groups) := by
  unfold GroupActive
  rw [mem_activeGroups_foldl, mem_activeGroups_foldl]
  constructor
  · rintro ((hmem | ⟨other, _, heq⟩) | (hmem | ⟨other, hother, heq⟩))
    · exact .inl (.inl hmem)
    · exact absurd heq (skillGroupKey_ne skillName other group hgroup)
    · exact .inl (.inr hmem)
    · rcases skillGroupKey_injective owner skillName group other howner hname heq with
        ⟨hsame, hgroups⟩
      exact .inr ⟨hsame, hgroups ▸ hother⟩
  · rintro ((hmem | hmem) | ⟨hsame, hmem⟩)
    · exact .inl (.inl hmem)
    · exact .inr (.inl hmem)
    · exact .inr (.inr ⟨group, hmem, congrArg (fun name => skillGroupKey name group) hsame⟩)

/-- What registering adds to the main entries. -/
def FromSkill (host : Host δ ε η) (skillName : String) (metadata : SkillMetadata δ)
    (activateGroups : Bool) (targetGroup : Option String) (tool : ToolMeta ε) : Prop :=
  (∃ script, tool = scriptMeta host skillName metadata script) ∨
    ∃ decl ∈ metadata.tools,
      tool = toolMeta host skillName metadata activateGroups targetGroup decl

theorem main_registerAction_cases (r : ToolRegistry ε) (tool other : ToolMeta ε) (name : String)
    (h : (r.registerAction tool).main name = some other) :
    r.main name = some other ∨ other = tool := by
  by_cases hvalid : Workflow.validateToolName tool.name = none
  · rw [ToolRegistry.main_registerAction r tool hvalid] at h
    split at h
    next => exact .inr (Option.some.inj h).symm
    next => exact .inl h
  · rw [ToolRegistry.registerAction_invalid r tool hvalid] at h
    exact .inl h

theorem main_foldl_register {α : Type} (op : Registration ε η → α → Registration ε η)
    (fresh : ToolMeta ε → Prop) (as : List α)
    (hop : ∀ acc, ∀ a ∈ as, ∀ name tool, (op acc a).registry.main name = some tool →
      acc.registry.main name = some tool ∨ fresh tool)
    (acc : Registration ε η) (name : String) (tool : ToolMeta ε)
    (h : (as.foldl op acc).registry.main name = some tool) :
    acc.registry.main name = some tool ∨ fresh tool := by
  induction as generalizing acc with
  | nil => exact .inl h
  | cons a rest ih =>
      rcases ih (fun acc b hb => hop acc b (List.mem_cons_of_mem a hb)) (op acc a) h with h | h
      · exact hop acc a List.mem_cons_self name tool h
      · exact .inr h

theorem main_registerAll (activateGroups : Bool) (targetGroup : Option String)
    (start : Registration ε η)
    (name : String) (tool : ToolMeta ε)
    (h : (registerAll host skillName metadata activateGroups targetGroup
      start).registry.main name = some tool) :
    start.registry.main name = some tool ∨
      FromSkill host skillName metadata activateGroups targetGroup tool := by
  have htools : ∀ acc, ∀ decl ∈ metadata.tools, ∀ name tool,
      (registerTool host skillName metadata activateGroups targetGroup acc
        decl).registry.main name = some tool →
      acc.registry.main name = some tool ∨
        FromSkill host skillName metadata activateGroups targetGroup tool := by
    intro acc decl hdecl name tool hmain
    unfold registerTool at hmain
    dsimp only at hmain
    split at hmain
    next => exact .inl hmain
    next =>
      rcases main_registerAction_cases _ _ _ _ hmain with hmain | heq
      · exact .inl hmain
      · exact .inr (.inr ⟨decl, hdecl, heq⟩)
  unfold registerAll at h
  dsimp only at h
  split at h
  next =>
    rcases main_foldl_register (registerScript host skillName metadata)
      (FromSkill host skillName metadata activateGroups targetGroup) metadata.scripts
      (fun acc script _ name tool hmain => (main_registerAction_cases _ _ _ _ hmain).imp id
        (fun heq => .inl ⟨script, heq⟩)) _ name tool h with h | h
    · exact main_foldl_register _ _ metadata.tools htools start name tool h
    · exact .inr h
  next => exact main_foldl_register _ _ metadata.tools htools start name tool h

theorem settled_install (activateGroups : Bool) (targetGroup : Option String) (h : c.Settled)
    (hunloaded : skillName ∉ c.loaded)
    (hentry : c.entries.lookup skillName ≠ none)
    (hfits : c.Fits skillName metadata activateGroups targetGroup) :
    (install host c skillName metadata activateGroups targetGroup).Settled := by
  have hsame := same_activateAtLoad c skillName metadata activateGroups targetGroup
  have hactive : (c.activateAtLoad skillName metadata activateGroups targetGroup).Settled := by
    rw [activateAtLoad_eq]
    have hplain := plain_groupsAtLoad c skillName metadata activateGroups targetGroup hfits
    exact List.foldlRecOn _ _ h (fun d hd group hgroup =>
      settled_activateSkillGroup d skillName group hd hfits.name (hplain group hgroup))
  have hloaded : ∀ owner, owner ∈ (install host c skillName metadata activateGroups
      targetGroup).loaded ↔ owner = skillName ∨ owner ∈ c.loaded := by
    intro owner
    unfold install
    rw [List.mem_insert_iff, hsame.loaded]
  have hlookup : ∀ owner, (install host c skillName metadata activateGroups
      targetGroup).entries.lookup owner = if owner = skillName then
        (c.entries.lookup owner).map (fun entry => { entry with
          metadata := metadata
          state := .loaded
          registeredTools := (registration host c skillName metadata activateGroups
            targetGroup).registered })
        else c.entries.lookup owner := by
    intro owner
    unfold install
    rw [OrderedMap.lookup_modify, hsame.entries]
  refine ⟨fun name tool owner htool howner => ?_, fun owner howner => ?_, hactive.keys⟩
  · rcases main_registerAll host skillName metadata activateGroups targetGroup _ name tool htool
      with hold | hnew
    · -- A tool that was there is of a skill that was loaded before.
      rcases hactive.fair name tool owner hold howner with ⟨hmem, hplain, hflag, hdeclared⟩
      rw [hsame.loaded] at hmem
      have hne : owner ≠ skillName := fun heq => hunloaded (heq ▸ hmem)
      refine ⟨(hloaded owner).mpr (.inr hmem), hplain, hflag, fun hgroup => ?_⟩
      have hhas := hdeclared hgroup
      unfold hasSkillGroup at hhas ⊢
      rw [hlookup, if_neg hne, ← hsame.entries]
      exact hhas
    · rcases hnew with ⟨script, heq⟩ | ⟨decl, hdecl, heq⟩
      · -- A script is in no group.
        have howner' : skillName = owner := by
          rw [heq] at howner
          exact Option.some.inj howner
        have hgroup : tool.group = "" := by
          rw [heq]
          rfl
        refine ⟨(hloaded owner).mpr (.inl howner'.symm), ?_, fun hne => absurd hgroup hne,
          fun hne => absurd hgroup hne⟩
        rw [hgroup]
        exact List.not_mem_nil
      · have howner' : skillName = owner := by
          rw [heq] at howner
          exact Option.some.inj howner
        have hgroup : tool.group = decl.group := by
          rw [heq]
          rfl
        have henabled : tool.enabled =
            enabledAtLoad metadata decl activateGroups targetGroup := by
          rw [heq]
          rfl
        rw [← howner']
        refine ⟨(hloaded skillName).mpr (.inl rfl), ?_, fun hne => ?_, fun hne => ?_⟩
        · rw [hgroup]
          exact hfits.tools decl hdecl
        · rw [hgroup] at hne ⊢
          have hiff := groupActive_foldl skillName skillName decl.group
            (groupsAtLoad metadata activateGroups targetGroup) c hfits.name hfits.name
            (hfits.tools decl hdecl)
          rw [← activateAtLoad_eq] at hiff
          rw [henabled]
          refine Iff.trans ?_ hiff.symm
          by_cases hcase : enabledAtLoad metadata decl activateGroups targetGroup = true
          · exact iff_of_true hcase (.inr ⟨rfl, mem_groupsAtLoad metadata activateGroups targetGroup
              decl hdecl hne hcase⟩)
          · have hquiet := hfits.quiet decl hdecl hne (Bool.eq_false_iff.mpr hcase)
            exact iff_of_false hcase (fun hor => hor.elim hquiet.1 (fun hboth => hquiet.2 hboth.2))
        · rw [hgroup]
          rcases Option.ne_none_iff_exists'.mp hentry with ⟨entry, hsome⟩
          unfold hasSkillGroup
          rw [hlookup, if_pos rfl, hsome, Option.map_some, Option.any_some, Bool.or_eq_true]
          refine .inr (List.any_eq_true.mpr ⟨decl, hdecl, beq_iff_eq.mpr rfl⟩)
  · rcases (hloaded owner).mp howner with heq | howner
    · rw [heq]
      exact hfits.name
    · exact h.names owner howner

/-! ## Loading with dependencies -/

/-- Every skill that may be loaded fits, the one that is asked for with the target group
    and its dependencies without one. -/
def LoadFits (host : Host δ ε η) (c : SkillCatalog δ ε η) (visiting : List String)
    (activateGroups : Bool) (targetGroup : Option String) (skillName : String) : Prop :=
  ∀ name metadata metadata', c.Waiting name metadata → name ∉ visiting →
    applySkillLoadTransform host name metadata = some metadata' →
      c.Fits name metadata' activateGroups (if name = skillName then targetGroup else none)

/-- The groups that a loaded skill declares can be told apart as well. -/
def Declared (c : SkillCatalog δ ε η) : Prop :=
  ∀ name ∈ c.loaded, ∀ metadata,
    (c.entries.lookup name).map SkillEntry.metadata = some metadata →
      (∀ group ∈ metadata.groups, Plain group.name) ∧ ∀ tool ∈ metadata.tools, Plain tool.group

/-- What loading leaves of the skills that still wait: they waited before, with the same
    metadata, and no group of theirs has become active. -/
structure Follows (c c' : SkillCatalog δ ε η) : Prop where
  mono : ∀ name ∈ c.loaded, name ∈ c'.loaded
  entries : ∀ name, c'.entries.lookup name = none ↔ c.entries.lookup name = none
  waiting : ∀ name metadata, c'.Waiting name metadata → c.Waiting name metadata
  active : ∀ name group, name ∉ c'.loaded → Plain name → Plain group →
    c'.GroupActive name group → c.GroupActive name group
  settled : c'.Settled
  declared : c.Declared → c'.Declared

theorem Follows.refl (h : c.Settled) : Follows c c where
  mono _ hname := hname
  entries _ := Iff.rfl
  waiting _ _ hwaiting := hwaiting
  active _ _ _ _ _ hactive := hactive
  settled := h
  declared hdeclared := hdeclared

theorem Follows.trans (c c' c'' : SkillCatalog δ ε η) (h : Follows c c') (h' : Follows c' c'') :
    Follows c c'' where
  mono name hname := h'.mono name (h.mono name hname)
  entries name := (h'.entries name).trans (h.entries name)
  waiting name metadata hwaiting := h.waiting name metadata (h'.waiting name metadata hwaiting)
  active name group hunloaded hname hgroup hactive :=
    h.active name group (fun hloaded => hunloaded (h'.mono name hloaded)) hname hgroup
      (h'.active name group hunloaded hname hgroup hactive)
  settled := h'.settled
  declared hdeclared := h'.declared (h.declared hdeclared)

theorem Fits.follows (c c' : SkillCatalog δ ε η) (hfollows : Follows c c') (name : String)
    (metadata : SkillMetadata δ) (activateGroups : Bool) (targetGroup : Option String)
    (hunloaded : name ∉ c'.loaded) (h : c.Fits name metadata activateGroups targetGroup) :
    c'.Fits name metadata activateGroups targetGroup where
  name := h.name
  groups := h.groups
  tools := h.tools
  target := h.target
  quiet tool htool hne henabled := by
    have hquiet := h.quiet tool htool hne henabled
    refine ⟨fun hactive => hquiet.1 ?_, hquiet.2⟩
    exact hfollows.active name tool.group hunloaded h.name (h.tools tool htool) hactive

theorem LoadFits.follows (c c' : SkillCatalog δ ε η) (hfollows : Follows c c')
    (visiting : List String) (activateGroups : Bool) (targetGroup : Option String)
    (skillName : String) (h : LoadFits host c visiting activateGroups targetGroup skillName) :
    LoadFits host c' visiting activateGroups targetGroup skillName :=
  fun name metadata metadata' hwaiting hvisiting htransform =>
    (h name metadata metadata' (hfollows.waiting name metadata hwaiting) hvisiting
      htransform).follows c c' hfollows name metadata' activateGroups _ hwaiting.1

/-- Activating groups of a loaded skill leaves the others alone. -/
theorem follows_foldl (groups : List String) (h : c.Settled) (hloaded : skillName ∈ c.loaded)
    (hgroups : ∀ group ∈ groups, Plain group) :
    Follows c (groups.foldl (fun acc group => acc.activateSkillGroup skillName group) c) := by
  have hsame := same_foldl (fun acc group => acc.activateSkillGroup skillName group)
    (fun _ _ => ⟨rfl, rfl, rfl⟩) groups c
  have hname := h.names skillName hloaded
  refine ⟨fun name hmem => ?_, fun name => ?_, fun name metadata hwaiting => ?_,
    fun name group hunloaded hplain hgroup hactive => ?_, ?_, fun hdeclared => ?_⟩
  · rw [hsame.loaded]
    exact hmem
  · rw [hsame.entries]
  · unfold Waiting at hwaiting ⊢
    rw [hsame.entries, hsame.loaded] at hwaiting
    exact hwaiting
  · rw [groupActive_foldl skillName name group groups c hname hplain hgroup] at hactive
    refine hactive.resolve_right (fun hboth => hunloaded ?_)
    rw [hsame.loaded, hboth.1]
    exact hloaded
  · exact List.foldlRecOn groups _ h (fun d hd group hgroup =>
      settled_activateSkillGroup d skillName group hd hname (hgroups group hgroup))
  · unfold Declared
    rw [hsame.loaded, hsame.entries]
    exact hdeclared

theorem follows_pending (name : String) (entry : SkillEntry δ) (missing : List String)
    (h : c.Settled) (hentry : c.entries.lookup name = some entry) :
    Follows c (c.place name { entry with state := .pendingDeps missing }) := by
  have hmetadata : ∀ other, ((c.place name { entry with
      state := .pendingDeps missing }).entries.lookup other).map SkillEntry.metadata =
        (c.entries.lookup other).map SkillEntry.metadata := by
    intro other
    rw [lookup_place]
    by_cases hother : other = name
    · rw [if_pos hother, hother, hentry]
      rfl
    · rw [if_neg hother]
  refine ⟨fun _ hmem => hmem, fun other => ?_, fun other metadata hwaiting => ?_,
    fun _ _ _ _ _ hactive => hactive, h.congr c _ rfl rfl rfl (fun other _ group => ?_),
    fun hdeclared other hmem metadata hlookup => hdeclared other hmem metadata
      ((hmetadata other).symm.trans hlookup)⟩
  · have hboth := hmetadata other
    rw [← Option.map_eq_none_iff (f := SkillEntry.metadata), hboth, Option.map_eq_none_iff]
  · exact ⟨hwaiting.1, (hmetadata other).symm.trans hwaiting.2⟩
  · unfold hasSkillGroup
    rw [lookup_place]
    by_cases hother : other = name
    · rw [if_pos hother, hother, hentry, Option.any_some, Option.any_some]
    · rw [if_neg hother]

theorem follows_install (activateGroups : Bool) (targetGroup : Option String) (h : c.Settled)
    (hunloaded : skillName ∉ c.loaded)
    (hentry : c.entries.lookup skillName ≠ none)
    (hfits : c.Fits skillName metadata activateGroups targetGroup) :
    Follows c (install host c skillName metadata activateGroups targetGroup) := by
  have hsame := same_activateAtLoad c skillName metadata activateGroups targetGroup
  have hloaded : ∀ owner, owner ∈ (install host c skillName metadata activateGroups
      targetGroup).loaded ↔ owner = skillName ∨ owner ∈ c.loaded := by
    intro owner
    unfold install
    rw [List.mem_insert_iff, hsame.loaded]
  refine ⟨fun name hmem => (hloaded name).mpr (.inr hmem), fun name => ?_,
    fun name m hwaiting => ?_, fun name group hname hplain hgroup hactive => ?_,
    settled_install host c skillName metadata activateGroups targetGroup h hunloaded hentry hfits,
    fun hdeclared name hmem m hlookup => ?_⟩
  · unfold install
    rw [OrderedMap.lookup_modify, hsame.entries]
    split
    next => exact Option.map_eq_none_iff
    next => exact Iff.rfl
  · rcases hwaiting with ⟨hnot, hlookup⟩
    rw [hloaded, not_or] at hnot
    unfold install at hlookup
    rw [OrderedMap.lookup_modify, hsame.entries, if_neg hnot.1] at hlookup
    exact ⟨hnot.2, hlookup⟩
  · rw [hloaded, not_or] at hname
    have hiff := groupActive_foldl skillName name group
      (groupsAtLoad metadata activateGroups targetGroup) c hfits.name hplain hgroup
    rw [← activateAtLoad_eq] at hiff
    exact (hiff.mp hactive).resolve_right (fun hboth => hname.1 hboth.1)
  · unfold install at hlookup
    rw [OrderedMap.lookup_modify, hsame.entries] at hlookup
    by_cases heq : name = skillName
    · rw [if_pos heq, Option.map_map] at hlookup
      rcases Option.map_eq_some_iff.mp hlookup with ⟨entry, _, hm⟩
      rw [← hm]
      exact ⟨hfits.groups, hfits.tools⟩
    · rw [if_neg heq] at hlookup
      exact hdeclared name (((hloaded name).mp hmem).resolve_left heq) m hlookup

theorem follows_loadDependencies (visiting : List String) (activateGroups : Bool)
    (skillName : String)
    (load : SkillCatalog δ ε η → String → SkillCatalog δ ε η × Except LoadError (List String))
    (hload : ∀ c dep, c.Settled → c.Declared →
      LoadFits host c visiting activateGroups none skillName → Follows c (load c dep).1)
    (deps : List String) (c : SkillCatalog δ ε η) (h : c.Settled) (hdeclared : c.Declared)
    (hfits : LoadFits host c visiting activateGroups none skillName) :
    Follows c (loadDependencies load deps c).1 := by
  induction deps generalizing c with
  | nil => exact Follows.refl c h
  | cons dep rest ih =>
      have hdep := hload c dep h hdeclared hfits
      unfold loadDependencies
      split
      next => exact ih c h hdeclared hfits
      next =>
        split
        next c' tools hresult =>
          rw [hresult] at hdep
          have hfits' := hfits.follows host c c' hdep visiting activateGroups none skillName
          exact hdep.trans c c' _ (ih c' hdep.settled (hdep.declared hdeclared) hfits')
        next c' reason hresult =>
          rw [hresult] at hdep
          exact hdep

/-- Reloading activates declared groups, and nothing else. -/
theorem follows_reload (activateGroups : Bool) (h : c.Settled) (hdeclared : c.Declared)
    (hloaded : skillName ∈ c.loaded) :
    Follows c (c.reload skillName activateGroups) := by
  unfold reload
  split
  next => exact Follows.refl c h
  next entry hentry =>
    split
    next =>
      have hplain := hdeclared skillName hloaded entry.metadata (by rw [hentry, Option.map_some])
      refine follows_foldl c skillName _ h hloaded (fun group hgroup => ?_)
      rcases List.mem_append.mp (List.mem_filter.mp hgroup).1 with hmem | hmem
      · rcases List.mem_map.mp hmem with ⟨item, hitem, rfl⟩
        exact hplain.1 item hitem
      · rcases List.mem_map.mp hmem with ⟨tool, htool, rfl⟩
        exact hplain.2 tool htool
    next => exact Follows.refl c h

theorem follows_loadSkillRecursive (activateGroups : Bool) (fuel : Nat) (visiting : List String)
    (targetGroup : Option String) (c : SkillCatalog δ ε η)
    (name : String) (h : c.Settled) (hdeclared : c.Declared)
    (hfits : LoadFits host c visiting activateGroups targetGroup name) :
    Follows c (loadSkillRecursive host activateGroups fuel visiting targetGroup c name).1 := by
  induction fuel generalizing visiting targetGroup c name with
  | zero => exact Follows.refl c h
  | succ fuel ih =>
      unfold loadSkillRecursive
      split
      next hloaded => exact follows_reload c name activateGroups h hdeclared hloaded
      next hunloaded =>
        split
        next => exact Follows.refl c h
        next hvisiting =>
          split
          next => exact Follows.refl c h
          next entry hentry =>
            have hwaiting : c.Waiting name entry.metadata :=
              ⟨hunloaded, by rw [hentry, Option.map_some]⟩
            split
            next => exact Follows.refl c h
            next metadata htransform =>
              split
              next => exact follows_pending c name entry _ h hentry
              next =>
                have hown := hfits name entry.metadata metadata hwaiting hvisiting htransform
                rw [if_pos rfl] at hown
                -- A dependency is asked for without a target group.
                have hrest : ∀ dep,
                    LoadFits host c (visiting ++ [name]) activateGroups none dep := by
                  intro dep other m m' hother hnot htransform'
                  rw [List.mem_append, not_or, List.mem_singleton] at hnot
                  have hfit := hfits other m m' hother hnot.1 htransform'
                  rw [if_neg hnot.2] at hfit
                  rw [ite_self]
                  exact hfit
                have hdeps := follows_loadDependencies host (visiting ++ [name]) activateGroups name
                  (fun c' dep => loadSkillRecursive host activateGroups fuel (visiting ++ [name])
                    none c' dep)
                  (fun c' dep h' hdeclared' hfits' => ih (visiting ++ [name]) none c' dep h'
                    hdeclared' (fun other m m' hother hnot htransform' => by
                      have hfit := hfits' other m m' hother hnot htransform'
                      rw [ite_self] at hfit ⊢
                      exact hfit))
                  metadata.depends c h hdeclared (hrest name)
                split
                next c' err hresult =>
                  rw [hresult] at hdeps
                  exact hdeps
                next c' hresult =>
                  rw [hresult] at hdeps
                  split
                  next => exact hdeps
                  next hunloaded' =>
                    unfold loadSkillMetadata
                    split
                    next => exact hdeps
                    next =>
                      have hsome : c'.entries.lookup name ≠ none := by
                        rw [ne_eq, hdeps.entries, hentry]
                        exact Option.some_ne_none entry
                      exact hdeps.trans c c' _ (follows_install host c' name metadata activateGroups
                        targetGroup hdeps.settled hunloaded' hsome
                        (hown.follows c c' hdeps name metadata activateGroups targetGroup
                          hunloaded'))

theorem declared_unloadSkill (h : c.Declared) : (c.unloadSkill skillName).1.Declared := by
  intro name hmem metadata hlookup
  rw [mem_loaded_unloadSkill] at hmem
  rw [lookup_unloadSkill] at hlookup
  exact h name hmem.1 metadata hlookup

/-! ## Runs -/

/-- The call is one of the operations on skills and groups, its names can be told apart,
    and a skill that it may load fits. -/
def Calm (c : SkillCatalog δ ε η) : Op δ ε η → Prop
  | .loadSkill host skillName activateGroups => LoadFits host c [] activateGroups none skillName
  | .loadSkillTargetGroup host skillName group => LoadFits host c [] false (some group) skillName
  | .unloadSkill _ => True
  | .activateGroup group => Plain group
  | .deactivateGroup group => Plain group
  | .activateSkillGroup skillName group => Plain skillName ∧ Plain group
  | .deactivateSkillGroup skillName group => Plain skillName ∧ Plain group
  | _ => False

/-- A catalog in which nothing is loaded or active yet. -/
structure Idle (c : SkillCatalog δ ε η) : Prop where
  loaded : c.loaded = []
  active : c.activeGroups = []
  unowned : ∀ name tool, c.registry.main name = some tool → tool.skillName = none

theorem settled_step [DecidableEq δ] (c : SkillCatalog δ ε η) (op : Op δ ε η)
    (h : c.Settled ∧ c.Declared) (hcalm : c.Calm op) :
    (c.apply op).Settled ∧ (c.apply op).Declared := by
  rcases h with ⟨hsettled, hdeclared⟩
  cases op with
  | loadSkill host skillName activateGroups =>
      have hfollows := follows_loadSkillRecursive host activateGroups c.loadFuel [] none c skillName
        hsettled hdeclared hcalm
      exact ⟨hfollows.settled, hfollows.declared hdeclared⟩
  | loadSkillTargetGroup host skillName group =>
      have hfollows := follows_loadSkillRecursive host false c.loadFuel [] (some group) c skillName
        hsettled hdeclared hcalm
      exact ⟨hfollows.settled, hfollows.declared hdeclared⟩
  | unloadSkill skillName =>
      exact ⟨settled_unloadSkill c skillName hsettled, declared_unloadSkill c skillName hdeclared⟩
  | activateGroup group => exact ⟨settled_activateGroup c group hsettled hcalm, hdeclared⟩
  | deactivateGroup group => exact ⟨settled_deactivateGroup c group hsettled hcalm, hdeclared⟩
  | activateSkillGroup skillName group =>
      exact ⟨settled_activateSkillGroup c skillName group hsettled hcalm.1 hcalm.2, hdeclared⟩
  | deactivateSkillGroup skillName group =>
      exact ⟨settled_deactivateSkillGroup c skillName group hsettled hcalm.1 hcalm.2, hdeclared⟩
  | _ => exact absurd hcalm id

theorem groups_agree [DecidableEq δ] (start : SkillCatalog δ ε η) (ops : List (Op δ ε η))
    (c : SkillCatalog δ ε η) (hidle : start.Idle) (hcalm : Along step Calm start ops)
    (hrun : exec step start ops = some c) : c.GroupsAgree := by
  have hstart : start.Settled ∧ start.Declared := by
    refine ⟨⟨fun name tool skillName htool hskill => ?_, fun name hmem => ?_, fun key hmem => ?_⟩,
      fun name hmem => ?_⟩
    · rw [hidle.unowned name tool htool] at hskill
      cases hskill
    · rw [hidle.loaded] at hmem
      exact absurd hmem List.not_mem_nil
    · rw [hidle.active] at hmem
      exact absurd hmem List.not_mem_nil
    · rw [hidle.loaded] at hmem
      exact absurd hmem List.not_mem_nil
  have hend := exec_history step Calm (fun _ c => c.Settled ∧ c.Declared) start hstart
    (fun as t op u h hop hstep => by
      unfold step at hstep
      rw [← Option.some.inj hstep]
      exact settled_step t op h hop) ops c hcalm hrun
  exact hend.1.groupsAgree c

/-- A skill with one tool, in a group that is not active by default. -/
def advancedSkill : SkillMetadata Unit :=
  ⟨"rig", "maya", [], [], [⟨"adv", false⟩], [⟨"pose", "adv", false, false, ()⟩], [], ()⟩

def stage : SkillCatalog Unit Unit Unit :=
  (new (ToolRegistry.new Unit) none).place "rig" (found advancedSkill .repo .unknown)

theorem idle_stage : stage.Idle where
  loaded := rfl
  active := rfl
  unowned _ _ h := by cases h

theorem loadFits_stage : LoadFits plainHost stage [] true none "rig" := by
  intro name metadata metadata' hwaiting _ htransform
  have hlookup := hwaiting.2
  rw [show stage.entries.lookup name = _ from lookup_place _ "rig" name _] at hlookup
  by_cases hname : name = "rig"
  · rw [if_pos hname, Option.map_some, Option.some.injEq] at hlookup
    rw [← Option.some.inj htransform, ← hlookup, hname]
    refine ⟨by unfold Plain; decide, fun group hgroup => ?_, fun tool htool => ?_,
      fun group hgroup => ?_, fun tool _ _ hdisabled => ?_⟩
    · rw [List.mem_singleton.mp hgroup]
      unfold Plain
      decide
    · rw [List.mem_singleton.mp htool]
      unfold Plain
      decide
    · rw [ite_self] at hgroup
      cases hgroup
    · rw [ite_self, enabledAtLoad, Bool.true_or] at hdisabled
      cases hdisabled
  · rw [if_neg hname] at hlookup
    cases hlookup

theorem groups_agree_stage :
    GroupsAgree ((loadSkillWithOptions plainHost stage "rig" true).1.deactivateSkillGroup "rig"
      "adv") :=
  groups_agree stage [.loadSkill plainHost "rig" true, .deactivateSkillGroup "rig" "adv"] _
    idle_stage ⟨loadFits_stage, fun _ _ => ⟨⟨by unfold Plain; decide, by unfold Plain; decide⟩,
      fun _ _ => trivial⟩⟩ rfl

/-- A group that is active when the skill is loaded without activation is reported as
    active, and its tool is disabled. -/
theorem groups_disagree :
    stage.Idle ∧
      exec step stage [.activateGroup "adv", .loadSkill plainHost "rig" false] =
        some (loadSkillWithOptions plainHost (stage.activateGroup "adv") "rig" false).1 ∧
      ¬ (loadSkillWithOptions plainHost (stage.activateGroup "adv") "rig" false).1.GroupsAgree := by
  refine ⟨idle_stage, rfl, fun h => ?_⟩
  have hmain : (loadSkillWithOptions plainHost (stage.activateGroup "adv") "rig"
      false).1.registry.main "rig__pose" =
        some ⟨"rig__pose", "maya", some "rig", "adv", false, ()⟩ := rfl
  have hloaded : "rig" ∈ (loadSkillWithOptions plainHost (stage.activateGroup "adv") "rig"
      false).1.loaded := by decide
  have hactive : "adv" ∈ (loadSkillWithOptions plainHost (stage.activateGroup "adv") "rig"
      false).1.activeGroups := by decide
  have hflag := (h "rig__pose" _ "rig" hmain rfl hloaded (by decide)).1
  exact Bool.false_ne_true (hflag.mpr (.inl hactive))

end SkillCatalog

end Catalog

end DccMcp
