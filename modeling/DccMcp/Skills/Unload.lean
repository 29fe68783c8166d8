import DccMcp.Skills.Loads
import DccMcp.Actions.Flags

/-!
# Unloading and Loading

Loading a skill adds entries to the registry, binds handlers and activates groups;
unloading removes by name what it finds listed, by skill what it finds in the registry,
and by prefix what it finds among the groups. This file asks when the one undoes the
other, and nothing else.

Names are where it can go wrong. A tool whose name is taken is skipped and listed all
the same, so unloading drops a handler that somebody else has bound. A script is not
even skipped: its entry replaces the one that is there, and then goes with the skill.

Between the two calls an entry of the registry can only be one of three: one that was
there, which no step touches; one that the skill added, which carries its name; or none.
`Extends` says so, and what unloading leaves is read off from it.

## Main definitions

* `Extends`: What loading has added so far.
* `Plain`: A name without a colon, by which keys can be told apart.
* `Undone`: Unloading has undone loading, and nothing else.
* `Untaken`: The names of the skill are not those of others.

## Theorems

* `unload_undoes_iff`: Loading is undone exactly when the names are untaken.
-/

namespace DccMcp

namespace Catalog

open Actions Machine

variable {δ ε η : Type}

namespace SkillCatalog

/-! ## Registering -/

/-- The handler that is bound to a name. -/
def handler (dispatcher : Option (OrderedMap String η)) (name : String) : Option η :=
  dispatcher.bind (fun handlers => handlers.lookup name)

theorem handler_map_insert (dispatcher : Option (OrderedMap String η)) (name other : String)
    (value : η) (h : other ≠ name) :
    handler (dispatcher.map (fun handlers => handlers.insert name value)) other =
      handler dispatcher other := by
  cases dispatcher with
  | none => rfl
  | some handlers => exact OrderedMap.lookup_insert_ne handlers name other value h

/-- What loading has added so far. A name that had an entry is as it was, and one that
    had none has none or one of the skill. -/
structure Extends (skillName : String) (start acc : Registration ε η) : Prop where
  kept : ∀ name, start.registry.main name ≠ none →
    acc.registry.main name = start.registry.main name ∧
      (∀ dcc, acc.registry.entry dcc name = start.registry.entry dcc name) ∧
      handler acc.dispatcher name = handler start.dispatcher name
  added : ∀ name, start.registry.main name = none → Owned acc.registry skillName name ∨
    (acc.registry.main name = none ∧
      ∀ dcc, acc.registry.entry dcc name = start.registry.entry dcc name)
  bound : ∀ name, name ∉ acc.registered →
    handler acc.dispatcher name = handler start.dispatcher name

variable (host : Host δ ε η) (c : SkillCatalog δ ε η) (skillName : String)
  (metadata : SkillMetadata δ)

theorem Extends.refl (start : Registration ε η) : Extends skillName start start where
  kept _ _ := ⟨rfl, fun _ => rfl, rfl⟩
  added _ h := .inr ⟨h, fun _ => rfl⟩
  bound _ _ := rfl

/-- Registering an entry of the skill, and binding its handler, under a name that was
    not taken at the start. -/
theorem Extends.register (start acc : Registration ε η) (tool : ToolMeta ε)
    (dispatcher : Option (OrderedMap String η)) (h : Extends skillName start acc)
    (hskill : tool.skillName = some skillName) (hfree : start.registry.main tool.name = none)
    (hbound : ∀ other, other ≠ tool.name →
      handler dispatcher other = handler acc.dispatcher other) :
    Extends skillName start
      ⟨acc.registry.registerAction tool, dispatcher, acc.registered ++ [tool.name]⟩ := by
  have hother : ∀ name, start.registry.main name ≠ none → name ≠ tool.name := by
    intro name hname heq
    rw [heq] at hname
    exact hname hfree
  by_cases hvalid : Workflow.validateToolName tool.name = none
  · have hmain := ToolRegistry.main_registerAction acc.registry tool hvalid
    have hentry := ToolRegistry.entry_registerAction acc.registry tool hvalid
    refine ⟨fun name hname => ?_, fun name hname => ?_, fun name hname => ?_⟩
    · rcases h.kept name hname with ⟨hkept, hentries, hhandler⟩
      have hne := hother name hname
      refine ⟨?_, fun dcc => ?_, (hbound name hne).trans hhandler⟩
      · rw [hmain, if_neg hne, hkept]
      · rw [hentry, if_neg (fun hboth => hne hboth.2), hentries]
    · by_cases heq : name = tool.name
      · refine .inl ⟨tool, ?_, hskill⟩
        rw [hmain, if_pos heq]
      · rcases h.added name hname with ⟨old, hold, holdskill⟩ | ⟨hnone, hentries⟩
        · refine .inl ⟨old, ?_, holdskill⟩
          rw [hmain, if_neg heq, hold]
        · refine .inr ⟨?_, fun dcc => ?_⟩
          · rw [hmain, if_neg heq, hnone]
          · rw [hentry, if_neg (fun hboth => heq hboth.2), hentries]
    · rw [List.mem_append, not_or, List.mem_singleton] at hname
      exact (hbound name hname.2).trans (h.bound name hname.1)
  · rw [ToolRegistry.registerAction_invalid acc.registry tool hvalid]
    refine ⟨fun name hname => ?_, h.added, fun name hname => ?_⟩
    · rcases h.kept name hname with ⟨hkept, hentries, hhandler⟩
      exact ⟨hkept, hentries, (hbound name (hother name hname)).trans hhandler⟩
    · rw [List.mem_append, not_or, List.mem_singleton] at hname
      exact (hbound name hname.2).trans (h.bound name hname.1)

theorem extends_registerTool (activateGroups : Bool) (targetGroup : Option String)
    (start acc : Registration ε η)
    (tool : ToolDeclaration δ) (h : Extends skillName start acc) :
    Extends skillName start
      (registerTool host skillName metadata activateGroups targetGroup acc tool) := by
  unfold registerTool
  dsimp only
  split
  next =>
    -- The name is taken: it is listed and nothing else happens.
    refine ⟨h.kept, h.added, fun name hname => h.bound name (fun hmem => hname ?_)⟩
    exact List.mem_append_left _ hmem
  next hfree =>
    have hnone : acc.registry.main (actionName metadata tool) = none :=
      Option.not_isSome_iff_eq_none.mp hfree
    refine h.register skillName start acc
      (toolMeta host skillName metadata activateGroups targetGroup tool) _ rfl ?_ ?_
    · by_contra hsome
      exact hsome ((h.kept _ hsome).1.symm.trans hnone)
    · intro other hother
      split
      next => rfl
      next script _ => exact handler_map_insert acc.dispatcher _ other _ hother

theorem extends_registerScript (start acc : Registration ε η) (script : String)
    (hfree : start.registry.main (scriptActionName metadata script) = none)
    (h : Extends skillName start acc) :
    Extends skillName start (registerScript host skillName metadata acc script) :=
  h.register skillName start acc (scriptMeta host skillName metadata script) _ rfl hfree
    (fun other hother => handler_map_insert acc.dispatcher _ other _ hother)

/-- Every declared tool is listed, also one whose name was taken. -/
theorem registered_foldl {α : Type} (op : Registration ε η → α → Registration ε η)
    (name : α → String) (hop : ∀ acc a, (op acc a).registered = acc.registered ++ [name a])
    (as : List α) (acc : Registration ε η) :
    (as.foldl op acc).registered = acc.registered ++ as.map name := by
  induction as generalizing acc with
  | nil => rw [List.foldl_nil, List.map_nil, List.append_nil]
  | cons a rest ih =>
      rw [List.foldl_cons, ih, hop, List.map_cons, List.append_assoc, List.singleton_append]

theorem registered_registerTool (activateGroups : Bool) (targetGroup : Option String)
    (acc : Registration ε η) (tool : ToolDeclaration δ) :
    (registerTool host skillName metadata activateGroups targetGroup acc tool).registered =
      acc.registered ++ [actionName metadata tool] := by
  unfold registerTool
  dsimp only
  split
  next => rfl
  next => rfl

/-- The names that a skill registers. -/
def namesOf (metadata : SkillMetadata δ) : List String :=
  if metadata.tools = [] then metadata.scripts.map (scriptActionName metadata)
  else metadata.tools.map (actionName metadata)

theorem registered_registerAll (activateGroups : Bool) (targetGroup : Option String)
    (registry : ToolRegistry ε) (dispatcher : Option (OrderedMap String η)) :
    (registerAll host skillName metadata activateGroups targetGroup
      ⟨registry, dispatcher, []⟩).registered = namesOf metadata := by
  unfold registerAll namesOf
  dsimp only
  by_cases htools : metadata.tools = []
  · rw [if_pos htools, if_pos htools, htools, List.foldl_nil]
    exact registered_foldl _ (scriptActionName metadata) (fun _ _ => rfl) metadata.scripts _
  · rw [if_neg htools, if_neg htools]
    exact registered_foldl _ (actionName metadata) (registered_registerTool host skillName metadata
      activateGroups targetGroup) metadata.tools _

/-- The names of the scripts of a skill without tools are free. -/
def ScriptsFree (registry : ToolRegistry ε) (metadata : SkillMetadata δ) : Prop :=
  metadata.tools = [] → ∀ script ∈ metadata.scripts,
    registry.main (scriptActionName metadata script) = none

theorem extends_registerAll (activateGroups : Bool) (targetGroup : Option String)
    (start : Registration ε η) (hfree : ScriptsFree start.registry metadata) :
    Extends skillName start
      (registerAll host skillName metadata activateGroups targetGroup start) := by
  have htools : Extends skillName start (metadata.tools.foldl
      (registerTool host skillName metadata activateGroups targetGroup) start) :=
    List.foldlRecOn metadata.tools _ (Extends.refl skillName start) (fun acc h tool _ =>
      extends_registerTool host skillName metadata activateGroups targetGroup start acc tool h)
  unfold registerAll
  dsimp only
  split
  next hnone =>
    refine List.foldlRecOn metadata.scripts _ htools (fun acc h script hscript => ?_)
    have hscriptFree := hfree hnone script hscript
    exact extends_registerScript host skillName metadata start acc script hscriptFree h
  next => exact htools

/-! ## Group keys -/

/-- A name by which keys can be told apart. -/
def Plain (name : String) : Prop := ':' ∉ name.toList

theorem toList_skillGroupKey (skillName group : String) :
    (skillGroupKey skillName group).toList = skillName.toList ++ ':' :: group.toList := by
  unfold skillGroupKey
  rw [String.toList_append, String.toList_append, List.append_assoc]
  rfl

theorem skillGroupKey_ne (skillName group name : String) (h : Plain name) :
    name ≠ skillGroupKey skillName group := by
  intro heq
  unfold Plain at h
  rw [heq, toList_skillGroupKey] at h
  exact h (List.mem_append_right _ List.mem_cons_self)

theorem skillGroupKey_injective (skillName skillName' group group' : String)
    (h : Plain skillName) (h' : Plain skillName')
    (hkey : skillGroupKey skillName group = skillGroupKey skillName' group') :
    skillName = skillName' ∧ group = group' := by
  have hlist := congrArg String.toList hkey
  rw [toList_skillGroupKey, toList_skillGroupKey] at hlist
  have hcut := congrArg (Text.cutAt ':') hlist
  rw [Text.cutAt_append ':' _ _ h, Text.cutAt_append ':' _ _ h', Option.some.injEq,
    Prod.mk.injEq] at hcut
  exact ⟨String.toList_inj.mp hcut.1, String.toList_inj.mp hcut.2⟩

theorem scopedGroup_skillGroupKey (skillName group : String) :
    scopedGroup skillName (skillGroupKey skillName group) = some group := by
  have hlist : (skillGroupKey skillName group).toList =
      (skillName ++ ":").toList ++ group.toList := String.toList_append
  unfold scopedGroup Text.startsWith
  rw [hlist, if_pos (List.isPrefixOf_iff_prefix.mpr (List.prefix_append _ _)), List.drop_left,
    String.ofList_toList]

/-- A bare key gives way to a key for every other owner of the group. -/
theorem mem_migrateLegacy_iff (skillName group key : String) :
    key ∈ c.migrateLegacy skillName group ↔
      (key ∈ c.activeGroups ∨ (group ∈ c.activeGroups ∧
        ∃ owner ∈ c.otherOwners skillName group, key = skillGroupKey owner group)) ∧
      (group ∈ c.activeGroups → key ≠ group) := by
  have hfold : ∀ (owners : List String) (keys : List String),
      key ∈ owners.foldl (fun keys owner => keys.insert (skillGroupKey owner group)) keys ↔
        key ∈ keys ∨ ∃ owner ∈ owners, key = skillGroupKey owner group := by
    intro owners
    induction owners with
    | nil =>
        intro keys
        exact ⟨.inl, fun hmem => hmem.elim id (fun ⟨_, hmem, _⟩ => absurd hmem List.not_mem_nil)⟩
    | cons owner rest ih =>
        intro keys
        rw [List.foldl_cons, ih, List.mem_insert_iff]
        constructor
        · rintro ((heq | hmem) | ⟨other, hother, heq⟩)
          · exact .inr ⟨owner, List.mem_cons_self, heq⟩
          · exact .inl hmem
          · exact .inr ⟨other, List.mem_cons_of_mem owner hother, heq⟩
        · rintro (hmem | ⟨other, hother, heq⟩)
          · exact .inl (.inr hmem)
          · rcases List.mem_cons.mp hother with hsame | hother
            · exact .inl (.inl (hsame ▸ heq))
            · exact .inr ⟨other, hother, heq⟩
  unfold migrateLegacy
  split
  next hactive =>
    rw [List.mem_filter, hfold, decide_eq_true_eq]
    exact and_congr (or_congr_right (and_iff_right hactive).symm) (imp_iff_right hactive).symm
  next hactive =>
    constructor
    · exact fun hmem => ⟨.inl hmem, fun h => absurd h hactive⟩
    · exact fun ⟨hmem, _⟩ => hmem.elim id (fun h => absurd h.1 hactive)

/-- Deactivating groups of a skill adds no key of it, and takes the keys of the groups. -/
theorem mem_foldl_deactivateSkillGroup (groups : List String) (c : SkillCatalog δ ε η)
    (h : Plain skillName) (hloaded : ∀ owner ∈ c.loaded, Plain owner)
    (group : String)
    (hmem : skillGroupKey skillName group ∈ (groups.foldl (fun acc group =>
      acc.deactivateSkillGroup skillName group) c).activeGroups) :
    skillGroupKey skillName group ∈ c.activeGroups ∧ group ∉ groups := by
  induction groups generalizing c with
  | nil => exact ⟨hmem, List.not_mem_nil⟩
  | cons first rest ih =>
      rcases ih (c.deactivateSkillGroup skillName first) hloaded hmem with ⟨hkey, hrest⟩
      rcases List.mem_filter.mp hkey with ⟨hmigrated, hne⟩
      rw [decide_eq_true_eq] at hne
      have hfirst : group ∉ first :: rest := by
        intro hgroup
        rcases List.mem_cons.mp hgroup with heq | hgroup
        · exact hne (congrArg (skillGroupKey skillName) heq)
        · exact hrest hgroup
      rcases ((mem_migrateLegacy_iff c skillName first _).mp hmigrated).1 with
        hold | ⟨_, owner, howner, heq⟩
      · exact ⟨hold, hfirst⟩
      · -- A key that replaces a bare one is of another skill.
        rcases List.mem_filter.mp howner with ⟨hmem', hcond⟩
        rw [Bool.and_eq_true, decide_eq_true_eq] at hcond
        have hsame := skillGroupKey_injective skillName owner group first h (hloaded owner hmem')
          heq
        exact absurd hsame.1.symm hcond.1

/-! ## Loading and then unloading -/

theorem loadDependencies_of_loaded
    (load : SkillCatalog δ ε η → String → SkillCatalog δ ε η × Except LoadError (List String))
    (deps : List String) (c : SkillCatalog δ ε η) (h : ∀ dep ∈ deps, dep ∈ c.loaded) :
    loadDependencies load deps c = (c, none) := by
  induction deps with
  | nil => rfl
  | cons dep rest ih =>
      unfold loadDependencies
      rw [if_pos (h dep List.mem_cons_self)]
      exact ih (fun other hother => h other (List.mem_cons_of_mem dep hother))

/-- Every dependency of the skill, as the transform leaves it, is loaded. -/
def DependenciesLoaded (host : Host δ ε η) (c : SkillCatalog δ ε η) (skillName : String) : Prop :=
  ∀ entry metadata, c.entries.lookup skillName = some entry →
    applySkillLoadTransform host skillName entry.metadata = some metadata →
      ∀ dep ∈ metadata.depends, dep ∈ c.loaded

/-- A load that succeeds installs the skill, and nothing else happens. -/
theorem load_eq_install (tools : List String) (hunloaded : skillName ∉ c.loaded)
    (hdeps : DependenciesLoaded host c skillName)
    (hload : (loadSkillWithOptions host c skillName true).2 = .ok tools) :
    ∃ entry metadata, c.entries.lookup skillName = some entry ∧
      applySkillLoadTransform host skillName entry.metadata = some metadata ∧
      (loadSkillWithOptions host c skillName true).1 =
        install host c skillName metadata true none := by
  unfold loadSkillWithOptions loadFuel loadSkillRecursive at hload ⊢
  rw [if_neg hunloaded, if_neg List.not_mem_nil] at hload ⊢
  cases hentry : c.entries.lookup skillName with
  | none =>
      rw [hentry] at hload
      cases hload
  | some entry =>
      rw [hentry] at hload
      dsimp only at hload ⊢
      cases htransform : applySkillLoadTransform host skillName entry.metadata with
      | none =>
          rw [htransform] at hload
          cases hload
      | some metadata =>
          rw [htransform] at hload
          dsimp only at hload ⊢
          refine ⟨entry, metadata, rfl, htransform, ?_⟩
          by_cases hmissing : c.missingOf metadata ≠ []
          · rw [if_pos hmissing] at hload
            cases hload
          · rw [if_neg hmissing] at hload ⊢
            rw [loadDependencies_of_loaded _ metadata.depends c
              (hdeps entry metadata hentry htransform)] at hload ⊢
            dsimp only at hload ⊢
            rw [if_neg hunloaded] at hload ⊢
            unfold loadSkillMetadata at hload ⊢
            cases hrefusal : refusal host c skillName metadata none with
            | some err =>
                rw [hrefusal] at hload
                cases hload
            | none => rfl

theorem toolsOf_install (entry : SkillEntry δ) (metadata : SkillMetadata δ)
    (hentry : c.entries.lookup skillName = some entry) :
    (install host c skillName metadata true none).toolsOf skillName = namesOf metadata := by
  have hsame := same_activateAtLoad c skillName metadata true none
  unfold toolsOf install
  dsimp only
  rw [OrderedMap.lookup_modify, if_pos rfl, hsame.entries, hentry, Option.map_some, Option.map_some,
    Option.getD_some]
  exact registered_registerAll host skillName metadata true none _ _

theorem handler_foldl_erase (names : List String) (dispatcher : Option (OrderedMap String η))
    (name : String) : handler (dispatcher.map (fun handlers =>
      names.foldl (fun rest name => rest.erase name) handlers)) name =
        if name ∈ names then none else handler dispatcher name := by
  cases dispatcher with
  | none => exact (ite_self none).symm
  | some handlers =>
      unfold handler
      rw [Option.map_some, Option.bind_some, Option.bind_some]
      induction names generalizing handlers with
      | nil => rw [if_neg List.not_mem_nil, List.foldl_nil]
      | cons first rest ih =>
          rw [List.foldl_cons, ih, OrderedMap.lookup_erase]
          by_cases hrest : name ∈ rest
          · rw [if_pos hrest, if_pos (List.mem_cons_of_mem first hrest)]
          · rw [if_neg hrest]
            exact if_congr (by rw [List.mem_cons, or_iff_left hrest]) rfl rfl

theorem toggled_foldl (op : SkillCatalog δ ε η → String → SkillCatalog δ ε η)
    (hop : ∀ c group, Toggled skillName c.registry (op c group).registry) (groups : List String)
    (c : SkillCatalog δ ε η) : Toggled skillName c.registry (groups.foldl op c).registry := by
  induction groups generalizing c with
  | nil => exact Toggled.refl skillName c.registry
  | cons group rest ih => exact (hop c group).trans skillName _ _ _ (ih (op c group))

theorem dispatcher_foldl (op : SkillCatalog δ ε η → String → SkillCatalog δ ε η)
    (hop : ∀ c group, (op c group).dispatcher = c.dispatcher) (groups : List String)
    (c : SkillCatalog δ ε η) : (groups.foldl op c).dispatcher = c.dispatcher := by
  induction groups generalizing c with
  | nil => rfl
  | cons group rest ih => exact (ih (op c group)).trans (hop c group)

/-- The registry loses what is of the skill, whatever its flags are by then. -/
theorem registry_unloadSkill (h : skillName ∈ c.loaded) : ∃ r, Toggled skillName c.registry r ∧
      (c.unloadSkill skillName).1.registry = (r.unregisterSkill skillName).2 := by
  unfold unloadSkill
  rw [if_neg (not_not.mpr h)]
  exact ⟨_, toggled_foldl skillName (fun acc group => acc.deactivateSkillGroup skillName group)
    (fun c group => Toggled.setSkillGroupEnabled skillName group false c.registry) _ c, rfl⟩

/-- Every listed name loses its handler. -/
theorem handler_unloadSkill (skillName name : String) (h : skillName ∈ c.loaded) :
    handler (c.unloadSkill skillName).1.dispatcher name =
      if name ∈ c.toolsOf skillName then none else handler c.dispatcher name := by
  unfold unloadSkill
  rw [if_neg (not_not.mpr h)]
  exact handler_foldl_erase (c.toolsOf skillName) c.dispatcher name

/-- No key of the skill is left among the active groups. -/
theorem notMem_activeGroups_unloadSkill (h : skillName ∈ c.loaded)
    (hcolon : ∀ owner ∈ c.loaded, Plain owner) (group : String) :
    skillGroupKey skillName group ∉ (c.unloadSkill skillName).1.activeGroups := by
  unfold unloadSkill
  rw [if_neg (not_not.mpr h)]
  intro hmem
  rcases mem_foldl_deactivateSkillGroup skillName _ c (hcolon skillName h) hcolon group hmem with
    ⟨hkey, hgroup⟩
  exact hgroup (List.mem_filterMap.mpr ⟨_, hkey, scopedGroup_skillGroupKey skillName group⟩)

theorem scriptMeta_name (script : String) : (scriptMeta host skillName metadata script).name =
      scriptActionName metadata script := rfl

theorem registry_registerScript (acc : Registration ε η) (script : String) :
    (registerScript host skillName metadata acc script).registry =
      acc.registry.registerAction (scriptMeta host skillName metadata script) := by
  simp only [registerScript]

theorem main_registerScript (acc : Registration ε η) (script : String)
    (hvalid : Workflow.validateToolName (scriptActionName metadata script) = none) (name : String) :
    (registerScript host skillName metadata acc script).registry.main name =
      if name = scriptActionName metadata script then
        some (scriptMeta host skillName metadata script)
      else acc.registry.main name := by
  rw [← scriptMeta_name host skillName metadata script] at hvalid ⊢
  rw [registry_registerScript]
  exact ToolRegistry.main_registerAction acc.registry _ hvalid name

theorem registry_registerScript_invalid (acc : Registration ε η) (script : String)
    (hinvalid : Workflow.validateToolName (scriptActionName metadata script) ≠ none) :
    (registerScript host skillName metadata acc script).registry = acc.registry := by
  rw [← scriptMeta_name host skillName metadata script] at hinvalid
  rw [registry_registerScript]
  exact ToolRegistry.registerAction_invalid acc.registry _ hinvalid

/-- A valid script name is of the skill once its script is registered. -/
theorem owned_foldl_registerScript (scripts : List String) (acc : Registration ε η) (name : String)
    (hvalid : Workflow.validateToolName name = none)
    (h : Owned acc.registry skillName name ∨ name ∈ scripts.map (scriptActionName metadata)) :
    Owned (scripts.foldl (registerScript host skillName metadata) acc).registry skillName name := by
  induction scripts generalizing acc with
  | nil => exact h.resolve_right List.not_mem_nil
  | cons script rest ih =>
      refine ih (registerScript host skillName metadata acc script) ?_
      unfold Owned at h ⊢
      by_cases heq : name = scriptActionName metadata script
      · -- This turn registers the name, over whatever is there.
        have hscript := hvalid
        rw [heq] at hscript
        rw [main_registerScript host skillName metadata acc script hscript, if_pos heq]
        exact .inl ⟨scriptMeta host skillName metadata script, rfl, rfl⟩
      · rw [List.map_cons, List.mem_cons, or_iff_right heq] at h
        by_cases hscript : Workflow.validateToolName (scriptActionName metadata script) = none
        · rw [main_registerScript host skillName metadata acc script hscript, if_neg heq]
          exact h
        · rw [registry_registerScript_invalid host skillName metadata acc script hscript]
          exact h

/-- Nothing in the registry is of the skill. -/
structure NoneOf (r : ToolRegistry ε) (skillName : String) : Prop where
  main : ∀ name tool, r.main name = some tool → tool.skillName ≠ some skillName
  entry : ∀ dcc name tool, r.entry dcc name = some tool → tool.skillName ≠ some skillName

/-- What was there before a load is there after the unload, with its handler, and what the
    load added is not. -/
structure Undone (start loaded unloaded : SkillCatalog δ ε η) (skillName : String) : Prop where
  kept : ∀ name, start.registry.main name ≠ none →
    unloaded.registry.main name = start.registry.main name ∧
      (∀ dcc, unloaded.registry.entry dcc name = start.registry.entry dcc name) ∧
      handler unloaded.dispatcher name = handler start.dispatcher name
  removed : ∀ name, start.registry.main name = none →
    unloaded.registry.main name = none ∧ ∀ dcc, unloaded.registry.entry dcc name = none
  unbound : ∀ name, handler loaded.dispatcher name ≠ handler start.dispatcher name →
    handler unloaded.dispatcher name = none
  quiet : ∀ group, skillGroupKey skillName group ∉ unloaded.activeGroups

/-- No name of the skill is that of an action with a handler, and if the skill has scripts
    only, none is that of an action. -/
def Untaken (host : Host δ ε η) (c : SkillCatalog δ ε η) (skillName : String) : Prop :=
  ∀ entry metadata, c.entries.lookup skillName = some entry →
    applySkillLoadTransform host skillName entry.metadata = some metadata →
      ScriptsFree c.registry metadata ∧ ∀ name ∈ namesOf metadata,
        c.registry.main name ≠ none → handler c.dispatcher name = none

/-- What registering starts from: the registry with the groups of the skill active. -/
def atStart (c : SkillCatalog δ ε η) (skillName : String) (metadata : SkillMetadata δ) :
    Registration ε η :=
  let active := c.activateAtLoad skillName metadata true none
  ⟨active.registry, active.dispatcher, []⟩

theorem toggled_atStart : Toggled skillName c.registry (c.atStart skillName metadata).registry :=
  toggled_foldl skillName (fun acc group => acc.activateSkillGroup skillName group)
    (fun c group => Toggled.setSkillGroupEnabled skillName group true c.registry) _ c

theorem dispatcher_atStart : (c.atStart skillName metadata).dispatcher = c.dispatcher :=
  dispatcher_foldl (fun acc group => acc.activateSkillGroup skillName group) (fun _ _ => rfl) _ c

theorem main_atStart (hothers : NoneOf c.registry skillName) (name : String) :
    (c.atStart skillName metadata).registry.main name = c.registry.main name :=
  (toggled_atStart c skillName metadata).main_of_other skillName _ _ name (hothers.main name)

theorem entry_atStart (hothers : NoneOf c.registry skillName) (dcc name : String) :
    (c.atStart skillName metadata).registry.entry dcc name = c.registry.entry dcc name :=
  (toggled_atStart c skillName metadata).entry_of_other skillName _ _ dcc name
    (hothers.entry dcc name)

/-- What loading adds under free names goes again, and nothing else does. -/
theorem undone_of_untaken (entry : SkillEntry δ) (metadata : SkillMetadata δ)
    (hrooted : Rooted c.registry)
    (hothers : NoneOf c.registry skillName) (hentry : c.entries.lookup skillName = some entry)
    (hcolon : Plain skillName ∧ ∀ owner ∈ c.loaded, Plain owner)
    (hfree : ScriptsFree c.registry metadata)
    (hhandlers : ∀ name ∈ namesOf metadata, c.registry.main name ≠ none →
      handler c.dispatcher name = none) :
    Undone c (install host c skillName metadata true none)
      ((install host c skillName metadata true none).unloadSkill skillName).1 skillName := by
  have hsame := same_activateAtLoad c skillName metadata true none
  have hloaded : ∀ owner, owner ∈ (install host c skillName metadata true none).loaded ↔
      owner = skillName ∨ owner ∈ c.loaded := by
    intro owner
    unfold install
    rw [List.mem_insert_iff, hsame.loaded]
  have hmem := (hloaded skillName).mpr (.inl rfl)
  have hstart : ScriptsFree (c.atStart skillName metadata).registry metadata :=
    fun hnone script hscript => (main_atStart c skillName metadata hothers _).trans
      (hfree hnone script hscript)
  have hextends := extends_registerAll host skillName metadata true none
    (c.atStart skillName metadata) hstart
  have htools := toolsOf_install host c skillName entry metadata hentry
  have hregistered := registered_registerAll host skillName metadata true none
    (c.atStart skillName metadata).registry (c.atStart skillName metadata).dispatcher
  have hbound : ∀ name, name ∉ namesOf metadata →
      handler (install host c skillName metadata true none).dispatcher name =
        handler c.dispatcher name := by
    intro name hname
    rw [← dispatcher_atStart c skillName metadata]
    exact hextends.bound name (fun hlisted => hname (hregistered ▸ hlisted))
  rcases registry_unloadSkill (install host c skillName metadata true none) skillName hmem with
    ⟨r, htoggled, hregistry⟩
  refine ⟨fun name hname => ?_, fun name hname => ?_, fun name hname => ?_, fun group => ?_⟩
  · rw [← main_atStart c skillName metadata hothers] at hname
    rcases hextends.kept name hname with ⟨hmain, hentries, _⟩
    rw [main_atStart c skillName metadata hothers] at hmain hname
    have hmain' : r.main name = c.registry.main name := by
      rw [← hmain]
      refine htoggled.main_of_other skillName _ _ name (fun tool htool => ?_)
      exact hothers.main name tool (hmain ▸ htool)
    have hentries' : ∀ dcc, r.entry dcc name = c.registry.entry dcc name := by
      intro dcc
      have hkept := (hentries dcc).trans (entry_atStart c skillName metadata hothers dcc name)
      rw [← hkept]
      refine htoggled.entry_of_other skillName _ _ dcc name (fun tool htool => ?_)
      exact hothers.entry dcc name tool (hkept ▸ htool)
    have hother : ¬ Owned r skillName name := by
      rintro ⟨tool, htool, hskill⟩
      exact hothers.main name tool (hmain' ▸ htool) hskill
    rcases (ToolRegistry.unregisterSkill_lookups r skillName name).2 hother with ⟨hleft, hleft'⟩
    rw [hregistry]
    refine ⟨hleft.trans hmain', fun dcc => (hleft' dcc).trans (hentries' dcc), ?_⟩
    rw [handler_unloadSkill _ skillName name hmem, htools]
    by_cases hlisted : name ∈ namesOf metadata
    · rw [if_pos hlisted, hhandlers name hlisted hname]
    · rw [if_neg hlisted, hbound name hlisted]
  · rw [hregistry]
    have hnone := (main_atStart c skillName metadata hothers name).trans hname
    rcases hextends.added name hnone with howned | ⟨hmain, hentries⟩
    · exact (ToolRegistry.unregisterSkill_lookups r skillName name).1
        ((htoggled.owned skillName _ _ name).mpr howned)
    · have hmain' : r.main name = none := (htoggled.isNone_main skillName _ _ name).mpr hmain
      have hother : ¬ Owned r skillName name := by
        rintro ⟨tool, htool, _⟩
        rw [hmain'] at htool
        cases htool
      rcases (ToolRegistry.unregisterSkill_lookups r skillName name).2 hother with ⟨hleft, hleft'⟩
      refine ⟨hleft.trans hmain', fun dcc => (hleft' dcc).trans ?_⟩
      refine (htoggled.isNone_entry skillName _ _ dcc name).mpr ((hentries dcc).trans ?_)
      rw [entry_atStart c skillName metadata hothers]
      -- A name without a main entry is under no DCC.
      by_contra hsome
      exact hrooted.has_main dcc name hsome hname
  · rw [handler_unloadSkill _ skillName name hmem, htools]
    by_cases hlisted : name ∈ namesOf metadata
    · rw [if_pos hlisted]
    · exact absurd (hbound name hlisted) hname
  · refine notMem_activeGroups_unloadSkill _ skillName hmem (fun owner howner => ?_) group
    rcases (hloaded owner).mp howner with heq | howner
    · rw [heq]
      exact hcolon.1
    · exact hcolon.2 owner howner

/-- Loading is undone only if it took no name from others. -/
theorem untaken_of_undone (entry : SkillEntry δ) (metadata : SkillMetadata δ)
    (hrooted : Rooted c.registry)
    (hentry : c.entries.lookup skillName = some entry)
    (h : Undone c (install host c skillName metadata true none)
      ((install host c skillName metadata true none).unloadSkill skillName).1 skillName) :
    ScriptsFree c.registry metadata ∧ ∀ name ∈ namesOf metadata,
      c.registry.main name ≠ none → handler c.dispatcher name = none := by
  have hsame := same_activateAtLoad c skillName metadata true none
  have hmem : skillName ∈ (install host c skillName metadata true none).loaded := by
    unfold install
    exact List.mem_insert_iff.mpr (.inl rfl)
  refine ⟨fun hnone script hscript => ?_, fun name hlisted hname => ?_⟩
  · by_contra hsome
    -- The script took the name, so its action went with the skill.
    have howned : Owned (install host c skillName metadata true none).registry skillName
        (scriptActionName metadata script) := by
      unfold install registration registerAll
      dsimp only
      rw [if_pos hnone, hnone, List.foldl_nil]
      exact owned_foldl_registerScript host skillName metadata metadata.scripts _ _
        (hrooted.valid _ hsome) (.inr (List.mem_map.mpr ⟨script, hscript, rfl⟩))
    rcases registry_unloadSkill (install host c skillName metadata true none) skillName hmem with
      ⟨r, htoggled, hregistry⟩
    have hgone := ((ToolRegistry.unregisterSkill_lookups r skillName _).1
      ((htoggled.owned skillName _ _ _).mpr howned)).1
    rw [← hregistry, (h.kept _ hsome).1] at hgone
    exact hsome hgone
  · have hkept := (h.kept name hname).2.2
    rw [handler_unloadSkill _ skillName name hmem,
      toolsOf_install host c skillName entry metadata hentry, if_pos hlisted] at hkept
    exact hkept.symm

theorem unload_undoes_iff (host : Host δ ε η) (c : SkillCatalog δ ε η) (skillName : String)
    (tools : List String) (ops : List (Actions.Op ε))
    (hregistry : exec ToolRegistry.step (ToolRegistry.new ε) ops = some c.registry)
    (hothers : NoneOf c.registry skillName) (hunloaded : skillName ∉ c.loaded)
    (hdeps : DependenciesLoaded host c skillName)
    (hcolon : Plain skillName ∧ ∀ owner ∈ c.loaded, Plain owner)
    (hload : (loadSkillWithOptions host c skillName true).2 = .ok tools) :
    Undone c (loadSkillWithOptions host c skillName true).1
        ((loadSkillWithOptions host c skillName true).1.unloadSkill skillName).1 skillName ↔
      Untaken host c skillName := by
  have hrooted := rooted_of_run ops c.registry hregistry
  rcases load_eq_install host c skillName tools hunloaded hdeps hload with
    ⟨entry, metadata, hentry, htransform, hinstall⟩
  rw [hinstall]
  constructor
  · intro h entry' metadata' hentry' htransform'
    rw [hentry, Option.some.injEq] at hentry'
    rw [← hentry', htransform, Option.some.injEq] at htransform'
    rw [← htransform']
    exact untaken_of_undone host c skillName entry metadata hrooted hentry h
  · intro h
    rcases h entry metadata hentry htransform with ⟨hfree, hhandlers⟩
    exact undone_of_untaken host c skillName entry metadata hrooted hothers hentry hcolon hfree
      hhandlers

theorem NoneOf.registerAction (r : ToolRegistry ε) (skillName : String) (tool : ToolMeta ε)
    (h : NoneOf r skillName) (hskill : tool.skillName ≠ some skillName) :
    NoneOf (r.registerAction tool) skillName := by
  by_cases hvalid : Workflow.validateToolName tool.name = none
  · refine ⟨fun name other hother => ?_, fun dcc name other hother => ?_⟩
    · rw [ToolRegistry.main_registerAction r tool hvalid] at hother
      split at hother
      next => exact Option.some.inj hother ▸ hskill
      next => exact h.main name other hother
    · rw [ToolRegistry.entry_registerAction r tool hvalid] at hother
      split at hother
      next => exact Option.some.inj hother ▸ hskill
      next => exact h.entry dcc name other hother
  · rw [ToolRegistry.registerAction_invalid r tool hvalid]
    exact h

theorem noneOf_new : NoneOf (ToolRegistry.new ε) skillName where
  main _ _ h := by cases h
  entry _ _ _ h := by cases h

/-- A tool that was registered with a handler of its own, and a skill that declares one
    of the same name. -/
def poseTool : ToolMeta Unit := ⟨"rig__pose", "maya", none, "", true, ()⟩

def posingSkill : SkillMetadata Unit :=
  ⟨"rig", "maya", [], [], [], [⟨"pose", "", false, false, ()⟩], [], ()⟩

def studio : SkillCatalog Unit Unit Unit :=
  (new ((ToolRegistry.new Unit).registerAction poseTool)
    (some ((OrderedMap.empty String Unit).insert "rig__pose" ()))).addSkill posingSkill

theorem noneOf_studio : NoneOf studio.registry "rig" :=
  NoneOf.registerAction (ToolRegistry.new Unit) "rig" poseTool (noneOf_new "rig") (by decide)

theorem dependenciesLoaded_studio : DependenciesLoaded plainHost studio "rig" := by
  intro entry metadata hentry htransform dep hdep
  have hmetadata : (studio.entries.lookup "rig").map SkillEntry.metadata = some posingSkill := rfl
  rw [hentry, Option.map_some, Option.some.injEq] at hmetadata
  have hsame : entry.metadata = metadata := Option.some.inj htransform
  rw [← hsame, hmetadata] at hdep
  exact absurd hdep List.not_mem_nil

theorem unload_undoes_studio :
    Undone studio (loadSkillWithOptions plainHost studio "rig" true).1
        ((loadSkillWithOptions plainHost studio "rig" true).1.unloadSkill "rig").1 "rig" ↔
      Untaken plainHost studio "rig" :=
  unload_undoes_iff plainHost studio "rig" ["rig__pose"] [.register poseTool] rfl noneOf_studio
    (by decide) dependenciesLoaded_studio
    ⟨by unfold Plain; decide, fun _ howner => absurd howner List.not_mem_nil⟩ rfl

/-- The handler of the tool is gone after the skill was loaded and unloaded. -/
theorem unload_loses_handler :
    ¬ ∀ (c : SkillCatalog Unit Unit Unit) (tools : List String) (ops : List (Actions.Op Unit)),
      exec ToolRegistry.step (ToolRegistry.new Unit) ops = some c.registry →
      NoneOf c.registry "rig" → "rig" ∉ c.loaded → DependenciesLoaded plainHost c "rig" →
      (loadSkillWithOptions plainHost c "rig" true).2 = .ok tools →
      Undone c (loadSkillWithOptions plainHost c "rig" true).1
        ((loadSkillWithOptions plainHost c "rig" true).1.unloadSkill "rig").1 "rig" := by
  intro h
  have hundone := h studio ["rig__pose"] [.register poseTool] rfl noneOf_studio (by decide)
    dependenciesLoaded_studio rfl
  have hregistered : studio.registry.main "rig__pose" = some poseTool := rfl
  have hkept := (hundone.kept "rig__pose" (by rw [hregistered]; exact Option.some_ne_none _)).2.2
  have hbefore : handler studio.dispatcher "rig__pose" = some () := rfl
  have hafter : handler ((loadSkillWithOptions plainHost studio "rig" true).1.unloadSkill
      "rig").1.dispatcher "rig__pose" = none := rfl
  rw [hbefore, hafter] at hkept
  cases hkept

end SkillCatalog

end Catalog

end DccMcp
