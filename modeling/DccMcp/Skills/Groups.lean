import DccMcp.Skills.Unload

/-!
# Tool Groups

Whether a tool of a skill is enabled is a flag in the registry; whether its group is
active is a key in the catalog, either the name of the group or that name behind the name
of the skill. Four operations on groups change the two, each on its own, and so does
unloading. This file says why they agree: what such an operation does to the flags is
what it does to the keys, as long as no name has a colon, by which one key could be taken
for another.

## Main definitions

* `GroupActive`, `listGroups`: What the keys say.
* `GroupsAgree`: The flags, the keys and the list of groups agree.
* `Settled`: The invariant.

## Theorems

* `isSuffixOf_skillGroupKey`, `mem_migrateLegacy_iff`: What the operations do to keys.
* `settled_setEnabledWhere`: The rule for the four operations on groups.
* `settled_activateGroup`, `settled_deactivateGroup`, `settled_activateSkillGroup`,
  `settled_deactivateSkillGroup`, `settled_unloadSkill`: The operations.
-/

namespace DccMcp

namespace Catalog

open Actions

variable {δ ε η : Type}

namespace SkillCatalog

/-! ## Names and keys -/

/-- The suffix of a key is its group. -/
theorem isSuffixOf_skillGroupKey (skillName group group' : String) (h : Plain group)
    (h' : Plain group') :
    (":" ++ group').toList.isSuffixOf (skillGroupKey skillName group).toList = true ↔
      group = group' := by
  have hlist : (":" ++ group').toList = ':' :: group'.toList := by
    rw [String.toList_append]
    rfl
  rw [List.isSuffixOf_iff_suffix, hlist, toList_skillGroupKey]
  constructor
  · rintro ⟨front, hfront⟩
    -- Read backwards, both are cut at the same colon.
    have hreverse := congrArg List.reverse hfront
    simp only [List.reverse_append, List.reverse_cons, List.append_assoc] at hreverse
    have hcut := congrArg (Text.cutAt ':') hreverse
    rw [List.singleton_append, List.singleton_append,
      Text.cutAt_append ':' _ _ (fun hmem => h' (List.mem_reverse.mp hmem)),
      Text.cutAt_append ':' _ _ (fun hmem => h (List.mem_reverse.mp hmem)), Option.some.injEq,
      Prod.mk.injEq] at hcut
    exact (String.toList_inj.mp (List.reverse_injective hcut.1)).symm
  · rintro rfl
    exact List.suffix_append _ _

theorem not_isSuffixOf_plain (name group : String) (h : Plain name) :
    (":" ++ group).toList.isSuffixOf name.toList = false := by
  rw [Bool.eq_false_iff]
  intro hsuffix
  have hlist : (":" ++ group).toList = ':' :: group.toList := by
    rw [String.toList_append]
    rfl
  rw [List.isSuffixOf_iff_suffix, hlist] at hsuffix
  exact h (hsuffix.subset List.mem_cons_self)

/-! ## Agreement -/

/-- Whether a group of a skill is active, by a bare key or by its own. -/
def GroupActive (c : SkillCatalog δ ε η) (skillName group : String) : Prop :=
  group ∈ c.activeGroups ∨ skillGroupKey skillName group ∈ c.activeGroups

def listGroups (c : SkillCatalog δ ε η) : List (String × String × Bool) :=
  c.entries.entries.flatMap (fun e => e.2.metadata.groups.map (fun group =>
    (e.1, group.name, c.activeGroups.contains group.name ||
      c.activeGroups.contains (skillGroupKey e.1 group.name))))

/-- The flag of every tool of a loaded skill says whether its group is active, and so
    does the list of groups. -/
def GroupsAgree (c : SkillCatalog δ ε η) : Prop :=
  ∀ name tool skillName, c.registry.main name = some tool → tool.skillName = some skillName →
    skillName ∈ c.loaded → tool.group ≠ "" →
      (tool.enabled = true ↔ c.GroupActive skillName tool.group) ∧
        ∀ active, (skillName, tool.group, active) ∈ c.listGroups → active = tool.enabled

/-- What is true of a tool of a skill. -/
structure Fair (c : SkillCatalog δ ε η) (skillName : String) (tool : ToolMeta ε) : Prop where
  loaded : skillName ∈ c.loaded
  plain : Plain tool.group
  flag : tool.group ≠ "" → (tool.enabled = true ↔ c.GroupActive skillName tool.group)
  declared : tool.group ≠ "" → c.hasSkillGroup skillName tool.group = true

/-- The invariant. The keys are such that none can be taken for another one. -/
structure Settled (c : SkillCatalog δ ε η) : Prop where
  fair : ∀ name tool skillName, c.registry.main name = some tool →
    tool.skillName = some skillName → c.Fair skillName tool
  names : ∀ skillName ∈ c.loaded, Plain skillName
  keys : ∀ key ∈ c.activeGroups, Plain key ∨
    ∃ skillName group, Plain skillName ∧ Plain group ∧ key = skillGroupKey skillName group

variable (c : SkillCatalog δ ε η)

theorem Settled.groupsAgree (h : c.Settled) : c.GroupsAgree := by
  intro name tool skillName htool hskill _ hgroup
  have hflag := (h.fair name tool skillName htool hskill).flag hgroup
  refine ⟨hflag, fun active hlisted => ?_⟩
  rcases List.mem_flatMap.mp hlisted with ⟨e, _, hrow⟩
  rcases List.mem_map.mp hrow with ⟨group, _, heq⟩
  rw [Prod.mk.injEq, Prod.mk.injEq] at heq
  rcases heq with ⟨hname, hgroupname, hactive⟩
  rw [hname, hgroupname] at hactive
  rw [← hactive, Bool.eq_iff_iff, Bool.or_eq_true, List.contains_iff_mem, List.contains_iff_mem]
  exact hflag.symm

/-- The tools of skills after their flags are set. -/
theorem main_setEnabledWhere (r : ToolRegistry ε) (meant : ToolMeta ε → Bool) (enabled : Bool)
    (name : String) (tool' : ToolMeta ε)
    (h : (r.setEnabledWhere meant enabled).2.main name = some tool') :
    ∃ tool, r.main name = some tool ∧ tool'.skillName = tool.skillName ∧
      tool'.group = tool.group ∧
      tool'.enabled = if meant tool = true then enabled else tool.enabled := by
  have hmap := ToolRegistry.main_mapEntries r (ToolRegistry.setEnabledIf meant enabled) name
  rw [show (r.setEnabledWhere meant enabled).2.main name = _ from hmap] at h
  rcases Option.map_eq_some_iff.mp h with ⟨tool, htool, rfl⟩
  refine ⟨tool, htool, ?_⟩
  unfold ToolRegistry.setEnabledIf
  by_cases hmeant : meant tool = true
  · by_cases hsame : tool.enabled = enabled
    · have hnot : ¬ (meant tool && tool.enabled != enabled) = true := by
        rw [hmeant, hsame, Bool.true_and, bne_self_eq_false]
        exact Bool.false_ne_true
      rw [if_neg hnot, if_pos hmeant]
      exact ⟨rfl, rfl, hsame⟩
    · rw [if_pos (by rw [hmeant, Bool.true_and]; exact bne_iff_ne.mpr hsame), if_pos hmeant]
      exact ⟨rfl, rfl, rfl⟩
  · rw [if_neg (by rw [Bool.and_eq_true]; exact fun hboth => hmeant hboth.1), if_neg hmeant]
    exact ⟨rfl, rfl, rfl⟩

/-- One rule for the four group operations: the flags that are meant become what their
    groups become, and no other group changes. -/
theorem settled_setEnabledWhere (meant : ToolMeta ε → Bool) (enabled : Bool) (keys : List String)
    (h : c.Settled)
    (hmeant : ∀ tool skillName, c.Fair skillName tool → Plain skillName →
      tool.skillName = some skillName → meant tool = true → tool.group ≠ "" →
      (enabled = true ↔ (tool.group ∈ keys ∨ skillGroupKey skillName tool.group ∈ keys)))
    (hother : ∀ tool skillName, c.Fair skillName tool → Plain skillName →
      tool.skillName = some skillName → meant tool ≠ true → tool.group ≠ "" →
      ((tool.group ∈ keys ∨ skillGroupKey skillName tool.group ∈ keys) ↔
        c.GroupActive skillName tool.group))
    (hkeys : ∀ key ∈ keys, Plain key ∨
      ∃ skillName group, Plain skillName ∧ Plain group ∧ key = skillGroupKey skillName group) :
    ({ c with activeGroups := keys, registry := (c.registry.setEnabledWhere meant enabled).2 } :
      SkillCatalog δ ε η).Settled := by
  refine ⟨fun name tool' skillName htool' hskill' => ?_, h.names, hkeys⟩
  rcases main_setEnabledWhere c.registry meant enabled name tool' htool' with
    ⟨tool, htool, hskill, hgroup, henabled⟩
  rw [hskill] at hskill'
  have hfair := h.fair name tool skillName htool hskill'
  have hplain := h.names skillName hfair.loaded
  refine ⟨hfair.loaded, ?_, fun hne => ?_, fun hne => ?_⟩
  · rw [hgroup]
    exact hfair.plain
  · rw [hgroup] at hne ⊢
    rw [henabled]
    by_cases hcase : meant tool = true
    · rw [if_pos hcase]
      exact hmeant tool skillName hfair hplain hskill' hcase hne
    · rw [if_neg hcase]
      exact (hfair.flag hne).trans (hother tool skillName hfair hplain hskill' hcase hne).symm
  · rw [hgroup] at hne ⊢
    exact hfair.declared hne

theorem settled_activateGroup (group : String) (h : c.Settled) (hgroup : Plain group) :
    (c.activateGroup group).Settled := by
  refine settled_setEnabledWhere c _ true _ h (fun tool skillName _ _ _ hcase _ => ?_)
    (fun tool skillName _ hplain _ hcase _ => ?_) (fun key hkey => ?_)
  · rw [beq_iff_eq] at hcase
    exact iff_of_true rfl (.inl (List.mem_insert_iff.mpr (.inl hcase)))
  · rw [ne_eq, beq_iff_eq] at hcase
    rw [List.mem_insert_iff, List.mem_insert_iff, or_iff_right hcase,
      or_iff_right (skillGroupKey_ne skillName tool.group group hgroup).symm]
    exact Iff.rfl
  · rcases List.mem_insert_iff.mp hkey with heq | hkey
    · exact .inl (heq ▸ hgroup)
    · exact h.keys key hkey

theorem settled_deactivateGroup (group : String) (h : c.Settled) (hgroup : Plain group) :
    (c.deactivateGroup group).Settled := by
  have hmem : ∀ key, key ∈ c.activeGroups.filter (fun key =>
      key ≠ group && !((":" ++ group).toList.isSuffixOf key.toList)) ↔
      key ∈ c.activeGroups ∧ key ≠ group ∧
        (":" ++ group).toList.isSuffixOf key.toList = false := by
    intro key
    rw [List.mem_filter, Bool.and_eq_true, decide_eq_true_eq, Bool.not_eq_true']
  refine settled_setEnabledWhere c _ false _ h (fun tool skillName hfair hplain _ hcase _ => ?_)
    (fun tool skillName hfair hplain _ hcase _ => ?_) (fun key hkey => ?_)
  · rw [beq_iff_eq] at hcase
    refine iff_of_false Bool.false_ne_true ?_
    rw [hmem, hmem]
    rintro (⟨_, hne, _⟩ | ⟨_, _, hsuffix⟩)
    · exact hne hcase
    · rw [(isSuffixOf_skillGroupKey skillName tool.group group hfair.plain hgroup).mpr hcase]
        at hsuffix
      cases hsuffix
  · rw [ne_eq, beq_iff_eq] at hcase
    have hbare : tool.group ≠ group ∧
        (":" ++ group).toList.isSuffixOf tool.group.toList = false :=
      ⟨hcase, not_isSuffixOf_plain tool.group group hfair.plain⟩
    have hscoped : skillGroupKey skillName tool.group ≠ group ∧
        (":" ++ group).toList.isSuffixOf (skillGroupKey skillName tool.group).toList = false := by
      refine ⟨(skillGroupKey_ne skillName tool.group group hgroup).symm, ?_⟩
      rw [Bool.eq_false_iff, ne_eq,
        isSuffixOf_skillGroupKey skillName tool.group group hfair.plain hgroup]
      exact hcase
    rw [hmem, hmem, and_iff_left hbare, and_iff_left hscoped]
    exact Iff.rfl
  · exact h.keys key ((hmem key).mp hkey).1

theorem settled_activateSkillGroup (skillName group : String) (h : c.Settled)
    (hname : Plain skillName) (hgroup : Plain group) :
    (c.activateSkillGroup skillName group).Settled := by
  refine settled_setEnabledWhere c _ true _ h (fun tool owner _ _ howner hcase _ => ?_)
    (fun tool owner hfair hplain howner hcase _ => ?_) (fun key hkey => ?_)
  · rw [Bool.and_eq_true, beq_iff_eq, beq_iff_eq] at hcase
    have hsame : owner = skillName := Option.some.inj (howner.symm.trans hcase.1)
    refine iff_of_true rfl (.inr (List.mem_insert_iff.mpr (.inl ?_)))
    rw [hsame, hcase.2]
  · rw [ne_eq, Bool.and_eq_true, beq_iff_eq, beq_iff_eq] at hcase
    have hne : skillGroupKey owner tool.group ≠ skillGroupKey skillName group := by
      intro heq
      rcases skillGroupKey_injective owner skillName tool.group group hplain hname heq with
        ⟨hsame, hgroups⟩
      exact hcase ⟨howner.trans (congrArg some hsame), hgroups⟩
    rw [List.mem_insert_iff, List.mem_insert_iff, or_iff_right hne,
      or_iff_right (skillGroupKey_ne skillName group tool.group hfair.plain)]
    exact Iff.rfl
  · rcases List.mem_insert_iff.mp hkey with heq | hkey
    · exact .inr ⟨skillName, group, hname, hgroup, heq⟩
    · exact h.keys key hkey

theorem settled_deactivateSkillGroup (skillName group : String) (h : c.Settled)
    (hname : Plain skillName) (hgroup : Plain group) :
    (c.deactivateSkillGroup skillName group).Settled := by
  have hmem : ∀ key, key ∈ (c.migrateLegacy skillName group).filter
      (fun key => key ≠ skillGroupKey skillName group) ↔
      key ∈ c.migrateLegacy skillName group ∧ key ≠ skillGroupKey skillName group := by
    intro key
    rw [List.mem_filter, decide_eq_true_eq]
  have howners : ∀ owner ∈ c.otherOwners skillName group, Plain owner ∧ owner ≠ skillName := by
    intro owner howner
    rcases List.mem_filter.mp howner with ⟨hloaded, hcond⟩
    rw [Bool.and_eq_true, decide_eq_true_eq] at hcond
    exact ⟨h.names owner hloaded, hcond.1⟩
  refine settled_setEnabledWhere c _ false _ h (fun tool owner hfair _ howner hcase _ => ?_)
    (fun tool owner hfair hplain howner hcase hne => ?_) (fun key hkey => ?_)
  · rw [Bool.and_eq_true, beq_iff_eq, beq_iff_eq] at hcase
    have hsame : owner = skillName := Option.some.inj (howner.symm.trans hcase.1)
    refine iff_of_false Bool.false_ne_true ?_
    rw [hmem, hmem, hsame, hcase.2]
    rintro (⟨hbare, _⟩ | ⟨_, hscoped⟩)
    · -- A bare key of the group has been handed on.
      rcases (mem_migrateLegacy_iff c skillName group group).mp hbare with
        ⟨hactive | ⟨_, other, _, heq⟩, hnot⟩
      · exact hnot hactive rfl
      · exact skillGroupKey_ne other group group hgroup heq
    · exact hscoped rfl
  · rw [ne_eq, Bool.and_eq_true, beq_iff_eq, beq_iff_eq] at hcase
    have hscoped : skillGroupKey owner tool.group ≠ skillGroupKey skillName group := by
      intro heq
      rcases skillGroupKey_injective owner skillName tool.group group hplain hname heq with
        ⟨hsame, hgroups⟩
      exact hcase ⟨howner.trans (congrArg some hsame), hgroups⟩
    have hbare := skillGroupKey_ne skillName group tool.group hfair.plain
    have hnotbare : skillGroupKey owner tool.group ≠ group :=
      (skillGroupKey_ne owner tool.group group hgroup).symm
    rw [hmem, hmem, and_iff_left hscoped, and_iff_left hbare, mem_migrateLegacy_iff,
      mem_migrateLegacy_iff]
    unfold GroupActive
    constructor
    · rintro (⟨hactive | ⟨_, other, _, heq⟩, _⟩ | ⟨hactive | ⟨hactive, other, hother, heq⟩, _⟩)
      · exact .inl hactive
      · exact absurd heq (skillGroupKey_ne other group tool.group hfair.plain)
      · exact .inr hactive
      · -- The new key is of a tool that the bare key had enabled.
        have hsame := skillGroupKey_injective owner other tool.group group hplain
          (howners other hother).1 heq
        rw [hsame.2]
        exact .inl hactive
    · rintro (hactive | hactive)
      · by_cases hsame : tool.group = group
        · have hother : owner ∈ c.otherOwners skillName group := by
            refine List.mem_filter.mpr ⟨hfair.loaded, ?_⟩
            rw [Bool.and_eq_true, decide_eq_true_eq, ← hsame]
            refine ⟨fun heq => hcase ⟨howner.trans (congrArg some heq), hsame⟩, hfair.declared hne⟩
          rw [hsame] at hactive hnotbare ⊢
          exact .inr ⟨.inr ⟨hactive, owner, hother, rfl⟩, fun _ => hnotbare⟩
        · exact .inl ⟨.inl hactive, fun _ => hsame⟩
      · exact .inr ⟨.inl hactive, fun _ => hnotbare⟩
  · rcases (mem_migrateLegacy_iff c skillName group key).mp ((hmem key).mp hkey).1 with
      ⟨hactive | ⟨_, other, hother, heq⟩, _⟩
    · exact h.keys key hactive
    · exact .inr ⟨other, group, (howners other hother).1, hgroup, heq⟩

/-! ## Unloading -/

/-- Other parts of the catalog do not matter to the invariant. -/
theorem Settled.congr (c c' : SkillCatalog δ ε η) (h : c.Settled)
    (hregistry : c'.registry = c.registry) (hloaded : c'.loaded = c.loaded)
    (hactive : c'.activeGroups = c.activeGroups)
    (hgroups : ∀ skillName ∈ c.loaded, ∀ group,
      c'.hasSkillGroup skillName group = c.hasSkillGroup skillName group) : c'.Settled := by
  refine ⟨fun name tool skillName htool hskill => ?_, ?_, ?_⟩
  · rw [hregistry] at htool
    rcases h.fair name tool skillName htool hskill with ⟨hmem, hplain, hflag, hdeclared⟩
    refine ⟨hloaded ▸ hmem, hplain, fun hne => ?_, fun hne => ?_⟩
    · unfold GroupActive
      rw [hactive]
      exact hflag hne
    · rw [hgroups skillName hmem]
      exact hdeclared hne
  · rw [hloaded]
    exact h.names
  · rw [hactive]
    exact h.keys

/-- The groups of a skill's own keys have names without a colon. -/
theorem plain_scopedGroup (h : c.Settled) (skillName group : String) (hname : Plain skillName)
    (hmem : group ∈ c.activeGroups.filterMap (scopedGroup skillName)) :
    Plain group := by
  rcases List.mem_filterMap.mp hmem with ⟨key, hkey, hscoped⟩
  unfold scopedGroup Text.startsWith at hscoped
  split at hscoped
  next hprefix =>
    rw [Option.some.injEq] at hscoped
    rcases List.isPrefixOf_iff_prefix.mp hprefix with ⟨rest, hrest⟩
    have hlist : (skillName ++ ":").toList = skillName.toList ++ [':'] := String.toList_append
    have hgroup : key = skillGroupKey skillName group := by
      rw [← hrest, List.drop_left] at hscoped
      refine String.toList_inj.mp ?_
      rw [toList_skillGroupKey, ← hscoped, String.toList_ofList, ← hrest, hlist, List.append_assoc,
        List.singleton_append]
    rcases h.keys key hkey with hplain | ⟨owner, group', howner, hgroup', heq⟩
    · exact absurd hgroup (skillGroupKey_ne skillName group key hplain)
    · rw [hgroup] at heq
      rw [(skillGroupKey_injective skillName owner group group' hname howner heq).2]
      exact hgroup'
  next => cases hscoped

theorem settled_unloadSkill (c : SkillCatalog δ ε η) (skillName : String) (h : c.Settled) :
    (c.unloadSkill skillName).1.Settled := by
  unfold unloadSkill
  split
  next => exact h
  next hloaded =>
    rw [not_not] at hloaded
    have hname := h.names skillName hloaded
    have hsame := same_foldl (fun acc group => acc.deactivateSkillGroup skillName group)
      (fun _ _ => ⟨rfl, rfl, rfl⟩) (c.activeGroups.filterMap (scopedGroup skillName)) c
    have hquiet : ((c.activeGroups.filterMap (scopedGroup skillName)).foldl
        (fun acc group => acc.deactivateSkillGroup skillName group) c).Settled :=
      List.foldlRecOn _ _ h (fun d hd group hgroup => settled_deactivateSkillGroup d skillName group
        hd hname (plain_scopedGroup c h skillName group hname hgroup))
    dsimp only
    refine ⟨fun name tool owner htool howner => ?_, fun owner howner => ?_, hquiet.keys⟩
    · -- What is left in the registry is of another skill.
      have hlookups := ToolRegistry.unregisterSkill_lookups
        ((c.activeGroups.filterMap (scopedGroup skillName)).foldl
          (fun acc group => acc.deactivateSkillGroup skillName group) c).registry skillName name
      have hother : ¬ Owned ((c.activeGroups.filterMap (scopedGroup skillName)).foldl
          (fun acc group => acc.deactivateSkillGroup skillName group) c).registry skillName
          name := by
        intro howned
        rw [show _ = none from (hlookups.1 howned).1] at htool
        cases htool
      have htool' := (hlookups.2 hother).1.symm.trans htool
      have hne : owner ≠ skillName := by
        intro heq
        exact hother ⟨tool, htool', heq ▸ howner⟩
      rcases hquiet.fair name tool owner htool' howner with ⟨hmem, hplain, hflag, hdeclared⟩
      refine ⟨List.mem_filter.mpr ⟨hmem, decide_eq_true hne⟩, hplain, hflag, fun hgroup => ?_⟩
      have hhas := hdeclared hgroup
      unfold hasSkillGroup at hhas ⊢
      dsimp only
      rw [OrderedMap.lookup_modify, if_neg hne]
      exact hhas
    · exact hquiet.names owner (List.mem_filter.mp howner).1

end SkillCatalog

end Catalog

end DccMcp
