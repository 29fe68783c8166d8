import DccMcp.Actions.Registry

/-!
# Coherence of the Tool Registry

The two maps of the registry repeat each other. Registering writes both, so
the main entry of a name is also the entry of that name under its own DCC.
This file says how far that agreement survives the other operations.

It is lost in one place. Unregistering a name for one DCC keeps the main
entry as long as any other DCC has the name, also when the main entry was the
one of the DCC that has just lost it. Such a step is not `Clean`; in a run of
clean steps the maps agree.

Unregistering a skill goes by the main entries, and removes a name from every
DCC. That is right for a name that only the skill registered, and wrong for
one that it shares: whoever registered last owns the main entry, so either
the skill keeps an entry or another one loses its own.

## Main definitions

* `Coherent`: The two maps and the lookups agree.
* `Clean`: The step leaves no main entry whose DCC lost it.
* `Removes`: What unregistering a skill should do to the lookups.

## Theorems

* `registry_coherent`: The maps agree in every run of clean steps.
* `unregisterSkill_removes_iff`: A skill is removed cleanly exactly when it
  shares none of its names.
-/

namespace DccMcp

namespace Actions

open Machine

variable {δ : Type}

/-- The two maps agree: a main entry is the entry of its own DCC, the names
    under a DCC are found there, and a scoped lookup finds what the scoped
    list shows. -/
structure Coherent (r : ToolRegistry δ) : Prop where
  main_entry : ∀ name tool, r.getAction name none = some tool → r.entry tool.dcc name = some tool
  reachable : ∀ dcc name, r.entry dcc name ≠ none →
    r.getAction name (some dcc) = r.entry dcc name
  listed : ∀ dcc name, r.getAction name (some dcc) ≠ none ↔
    ∃ tool ∈ r.listActions (some dcc), tool.name = name

/-- The step does not take a name from the DCC of its main entry while another
    DCC has that name. -/
def Clean (r : ToolRegistry δ) : Op δ → Prop
  | .unregister name (some dcc) => ∀ tool, r.main name = some tool → tool.dcc = dcc →
      ∀ dcc', dcc' ≠ dcc → r.entry dcc' name = none
  | _ => True

/-- Entries are stored under their own name and DCC, and every name has a main
    entry, which is the entry of its DCC. -/
structure WellFormed (r : ToolRegistry δ) : Prop where
  keyed : ∀ dcc name tool, r.entry dcc name = some tool → tool.name = name ∧ tool.dcc = dcc
  has_main : ∀ dcc name, r.entry dcc name ≠ none → r.main name ≠ none
  main_entry : ∀ name tool, r.main name = some tool → r.entry tool.dcc name = some tool

namespace WellFormed

/-! ## One operation -/

variable (δ) in
theorem new : WellFormed (ToolRegistry.new δ) where
  keyed _ _ _ h := by cases h
  has_main _ _ h := absurd rfl h
  main_entry _ _ h := by cases h

variable (r : ToolRegistry δ)

theorem registerAction (tool : ToolMeta δ) (h : WellFormed r) :
    WellFormed (r.registerAction tool) := by
  by_cases hvalid : Workflow.validateToolName tool.name = none
  -- Both maps get the same value, so each law is old or about this tool.
  · refine ⟨fun dcc name other hother => ?_, fun dcc name hsome => ?_, fun name other hother => ?_⟩
    · rw [ToolRegistry.entry_registerAction r tool hvalid] at hother
      split at hother
      next heq =>
        cases hother
        exact ⟨heq.2.symm, heq.1.symm⟩
      next => exact h.keyed dcc name other hother
    · rw [ToolRegistry.main_registerAction r tool hvalid]
      rw [ToolRegistry.entry_registerAction r tool hvalid] at hsome
      by_cases hname : name = tool.name
      · rw [if_pos hname]
        exact Option.some_ne_none tool
      · rw [if_neg hname]
        rw [if_neg (fun heq => hname heq.2)] at hsome
        exact h.has_main dcc name hsome
    · rw [ToolRegistry.main_registerAction r tool hvalid] at hother
      rw [ToolRegistry.entry_registerAction r tool hvalid]
      by_cases hname : name = tool.name
      · rw [if_pos hname, Option.some.injEq] at hother
        rw [← hother, if_pos ⟨rfl, hname⟩]
      · rw [if_neg hname] at hother
        rw [if_neg (fun heq => hname heq.2)]
        exact h.main_entry name other hother
  · rwa [ToolRegistry.registerAction_invalid r tool hvalid]

theorem registerBatch (tools : List (ToolMeta δ)) (r : ToolRegistry δ) (h : WellFormed r) :
    WellFormed (r.registerBatch tools) := by
  induction tools generalizing r with
  | nil => exact h
  | cons tool rest ih => exact ih (r.registerAction tool) (h.registerAction r tool)

theorem unregister_global (name : String) (h : WellFormed r) :
    WellFormed (r.unregister name none).2 := by
  -- The name goes from every map at once, so no law can notice.
  refine ⟨fun dcc other tool htool => ?_, fun dcc other hsome => ?_, fun other tool htool => ?_⟩
  · rw [ToolRegistry.entry_unregister_global] at htool
    split at htool
    · cases htool
    · exact h.keyed dcc other tool htool
  · rw [ToolRegistry.main_unregister_global]
    rw [ToolRegistry.entry_unregister_global] at hsome
    by_cases hother : other = name
    · exact absurd (if_pos hother) hsome
    · rw [if_neg hother] at hsome ⊢
      exact h.has_main dcc other hsome
  · rw [ToolRegistry.main_unregister_global] at htool
    rw [ToolRegistry.entry_unregister_global]
    by_cases hother : other = name
    · rw [if_pos hother] at htool
      cases htool
    · rw [if_neg hother] at htool ⊢
      exact h.main_entry other tool htool

theorem unregister_dcc (name dcc : String) (h : WellFormed r)
    (hclean : Clean r (.unregister name (some dcc))) :
    WellFormed (r.unregister name (some dcc)).2 := by
  refine ⟨fun dcc' other tool htool => ?_, fun dcc' other hsome => ?_, fun other tool htool => ?_⟩
  · rw [ToolRegistry.entry_unregister_dcc] at htool
    split at htool
    · cases htool
    · exact h.keyed dcc' other tool htool
  · rw [ToolRegistry.entry_unregister_dcc] at hsome
    by_cases hother : other = name
    · -- The DCC that still has the name is another one.
      have hdcc : dcc' ≠ dcc := fun heq => hsome (if_pos ⟨heq, hother⟩)
      rw [if_neg (fun heq => hdcc heq.1), hother] at hsome
      rw [hother, ToolRegistry.main_unregister_dcc_kept r name dcc dcc' hdcc hsome]
      exact h.has_main dcc' name hsome
    · rw [if_neg (fun heq => hother heq.2)] at hsome
      rw [ToolRegistry.main_unregister_dcc_ne r name dcc other hother]
      exact h.has_main dcc' other hsome
  · rw [ToolRegistry.entry_unregister_dcc]
    by_cases hother : other = name
    · subst hother
      by_cases hlast : ∀ dcc', dcc' ≠ dcc → r.entry dcc' other = none
      · rw [ToolRegistry.main_unregister_dcc_last r other dcc hlast] at htool
        cases htool
      · push Not at hlast
        rcases hlast with ⟨dcc', hdcc', hsome⟩
        rw [ToolRegistry.main_unregister_dcc_kept r other dcc dcc' hdcc' hsome] at htool
        -- The main entry stays, so a clean step did not touch its DCC.
        have hdcc : tool.dcc ≠ dcc := fun heq => hsome (hclean tool htool heq dcc' hdcc')
        rw [if_neg (fun heq => hdcc heq.1)]
        exact h.main_entry other tool htool
    · rw [ToolRegistry.main_unregister_dcc_ne r name dcc other hother] at htool
      rw [if_neg (fun heq => hother heq.2)]
      exact h.main_entry other tool htool

theorem unregisterSkill (skillName : String) (h : WellFormed r) :
    WellFormed (r.unregisterSkill skillName).2 := by
  have hfold : ∀ (names : List String) (s : ToolRegistry δ), WellFormed s →
      WellFormed (names.foldl (fun acc name => (acc.unregister name none).2) s) := by
    intro names
    induction names with
    | nil => exact fun s hs => hs
    | cons name rest ih => exact fun s hs => ih _ (hs.unregister_global s name)
  exact hfold _ r h

/-- A change of entries that keeps names and DCCs. -/
theorem mapEntries (f : ToolMeta δ → ToolMeta δ) (h : WellFormed r)
    (hf : ∀ tool, (f tool).name = tool.name ∧ (f tool).dcc = tool.dcc) :
    WellFormed (r.mapEntries f) := by
  refine ⟨fun dcc name tool htool => ?_, fun dcc name hsome => ?_, fun name tool htool => ?_⟩
  · rw [ToolRegistry.entry_mapEntries, Option.map_eq_some_iff] at htool
    rcases htool with ⟨old, hold, rfl⟩
    rw [(hf old).1, (hf old).2]
    exact h.keyed dcc name old hold
  · rw [ToolRegistry.entry_mapEntries, ne_eq, Option.map_eq_none_iff] at hsome
    rw [ToolRegistry.main_mapEntries, ne_eq, Option.map_eq_none_iff]
    exact h.has_main dcc name hsome
  · rw [ToolRegistry.main_mapEntries, Option.map_eq_some_iff] at htool
    rcases htool with ⟨old, hold, rfl⟩
    rw [ToolRegistry.entry_mapEntries, (hf old).2, h.main_entry name old hold]
    rfl

theorem setEnabledWhere (meant : ToolMeta δ → Bool) (enabled : Bool) (h : WellFormed r)
    : WellFormed (r.setEnabledWhere meant enabled).2 := by
  refine h.mapEntries r _ (fun tool => ?_)
  unfold ToolRegistry.setEnabledIf
  split
  · exact ⟨rfl, rfl⟩
  · exact ⟨rfl, rfl⟩

theorem setActionEnabled (name : String) (enabled : Bool) (h : WellFormed r)
    : WellFormed (r.setActionEnabled name enabled).2 := by
  by_cases hmain : r.main name = none
  · rw [ToolRegistry.setActionEnabled]
    split
    · exact h
    next tool htool =>
      rw [hmain] at htool
      cases htool
  · have hlookups := ToolRegistry.setActionEnabled_lookups r name enabled hmain
    -- The flag is set under one name in both maps, which neither moves nor
    -- removes an entry.
    refine ⟨fun dcc other tool htool => ?_, fun dcc other hsome => ?_, fun other tool htool => ?_⟩
    · rw [(hlookups other).2 dcc] at htool
      split at htool
      · rcases Option.map_eq_some_iff.mp htool with ⟨old, hold, rfl⟩
        exact h.keyed dcc other old hold
      · exact h.keyed dcc other tool htool
    · rw [(hlookups other).1]
      rw [(hlookups other).2 dcc] at hsome
      split
      next hother =>
        rw [if_pos hother, ne_eq, Option.map_eq_none_iff] at hsome
        rw [ne_eq, Option.map_eq_none_iff]
        exact h.has_main dcc other hsome
      next hother =>
        rw [if_neg hother] at hsome
        exact h.has_main dcc other hsome
    · rw [(hlookups other).1] at htool
      rw [(hlookups other).2 tool.dcc]
      split
      next hother =>
        rw [if_pos hother, Option.map_eq_some_iff] at htool
        rcases htool with ⟨old, hold, rfl⟩
        rw [h.main_entry other old hold]
        rfl
      next hother =>
        rw [if_neg hother] at htool
        exact h.main_entry other tool htool

end WellFormed

/-! ## Runs -/

theorem wellFormed_step (r s : ToolRegistry δ) (op : Op δ) (h : WellFormed r) (hclean : Clean r op)
    (hstep : r.step op = some s) : WellFormed s := by
  cases hstep
  -- Only the removal from one DCC needs the condition.
  cases op with
  | register tool => exact h.registerAction r tool
  | registerBatch tools => exact WellFormed.registerBatch tools r h
  | unregister name dcc =>
      cases dcc with
      | none => exact h.unregister_global r name
      | some dcc => exact h.unregister_dcc r name dcc hclean
  | unregisterSkill skillName => exact h.unregisterSkill r skillName
  | setGroupEnabled group enabled => exact h.setEnabledWhere r _ enabled
  | setSkillGroupEnabled skillName group enabled => exact h.setEnabledWhere r _ enabled
  | setActionEnabled name enabled => exact h.setActionEnabled r name enabled
  | reset => exact WellFormed.new δ

theorem wellFormed_of_run (ops : List (Op δ)) (r : ToolRegistry δ)
    (hclean : Along ToolRegistry.step Clean (ToolRegistry.new δ) ops)
    (hrun : exec ToolRegistry.step (ToolRegistry.new δ) ops = some r) : WellFormed r :=
  exec_history ToolRegistry.step Clean (fun _ => WellFormed) (ToolRegistry.new δ)
    (WellFormed.new δ) (fun _ s op t hs hop ht => wellFormed_step s t op hs hop ht) ops r hclean hrun

variable (r : ToolRegistry δ)

theorem coherent_of_wellFormed (h : WellFormed r) : Coherent r := by
  refine ⟨h.main_entry, fun dcc name hsome => ?_, fun dcc name => ?_⟩
  · rw [ToolRegistry.getAction_dcc]
    rcases Option.ne_none_iff_exists'.mp hsome with ⟨tool, htool⟩
    rw [htool, Option.some_or]
  · -- What a scoped lookup finds carries the name it was looked up by.
    have hname : ∀ name tool, r.getAction name (some dcc) = some tool → tool.name = name := by
      intro name tool htool
      rw [ToolRegistry.getAction_dcc, Option.or_eq_some_iff] at htool
      rcases htool with htool | ⟨_, htool⟩
      · exact (h.keyed dcc name tool htool).1
      · exact (h.keyed anyDcc name tool htool).1
    constructor
    · intro hsome
      rcases Option.ne_none_iff_exists'.mp hsome with ⟨tool, htool⟩
      exact ⟨tool, (ToolRegistry.mem_listActions_dcc r dcc tool).mpr ⟨name, htool⟩,
        hname name tool htool⟩
    · rintro ⟨tool, hmem, rfl⟩
      rcases (ToolRegistry.mem_listActions_dcc r dcc tool).mp hmem with ⟨name, htool⟩
      rw [hname name tool htool, htool]
      exact Option.some_ne_none tool

/-- The maps of the registry agree after every run of clean steps. -/
theorem registry_coherent (ops : List (Op δ)) (r : ToolRegistry δ)
    (hclean : Along ToolRegistry.step Clean (ToolRegistry.new δ) ops)
    (hrun : exec ToolRegistry.step (ToolRegistry.new δ) ops = some r) : Coherent r :=
  coherent_of_wellFormed r (wellFormed_of_run ops r hclean hrun)

/-- A tool of one DCC. -/
def sphereFor (dcc : String) (skillName : Option String) : ToolMeta Unit where
  name := "create_sphere"
  dcc := dcc
  skillName := skillName
  group := ""
  enabled := true
  details := ()

/-- Two DCCs register a tool, and the first one takes it back. -/
def firstTakenBack : List (Op Unit) :=
  [.register (sphereFor "maya" none), .register (sphereFor "blender" none),
    .unregister "create_sphere" (some "maya")]

theorem registry_coherent_first :
    ∃ r, exec ToolRegistry.step (ToolRegistry.new Unit) firstTakenBack = some r ∧ Coherent r := by
  refine ⟨_, rfl, registry_coherent firstTakenBack _ ?_ rfl⟩
  refine along_cons _ _ _ _ _ _ trivial rfl (along_cons _ _ _ _ _ _ trivial rfl
    (along_cons _ _ _ _ _ _ (fun tool htool hdcc => ?_) rfl trivial))
  -- The main entry is the one of the DCC that came last.
  have hmain : ((((ToolRegistry.new Unit).registerAction (sphereFor "maya" none)).registerAction
      (sphereFor "blender" none)).main "create_sphere") = some (sphereFor "blender" none) := by
    decide +kernel
  have heq : some tool = some (sphereFor "blender" none) := htool.symm.trans hmain
  rw [Option.some.inj heq] at hdcc
  exact absurd hdcc (by decide)

/-- Two DCCs register a tool, and the last one takes it back. The main entry
    is still the one that was taken back. -/
theorem registry_incoherent :
    ∃ r, exec ToolRegistry.step (ToolRegistry.new Unit)
        [.register (sphereFor "maya" none), .register (sphereFor "blender" none),
          .unregister "create_sphere" (some "blender")] = some r ∧
      r.getAction "create_sphere" none = some (sphereFor "blender" none) ∧
      r.entry "blender" "create_sphere" = none ∧ ¬ Coherent r := by
  refine ⟨_, rfl, ?_, ?_, fun hcoherent => ?_⟩
  · decide +kernel
  · decide +kernel
  · have hentry := hcoherent.main_entry "create_sphere" (sphereFor "blender" none)
      (by decide +kernel)
    exact absurd hentry (by decide +kernel)

/-! ## Unregistering a skill -/

/-- After a skill is unregistered no lookup finds an action of it, and every
    lookup finds the actions of the others as before. -/
structure Removes (r : ToolRegistry δ) (skillName : String) : Prop where
  gone : ∀ name dcc tool, (r.unregisterSkill skillName).2.getAction name dcc = some tool →
    tool.skillName ≠ some skillName
  gone_list : ∀ dcc, ∀ tool ∈ (r.unregisterSkill skillName).2.listActions dcc,
    tool.skillName ≠ some skillName
  kept : ∀ name dcc tool, tool.skillName ≠ some skillName →
    ((r.unregisterSkill skillName).2.getAction name dcc = some tool ↔
      r.getAction name dcc = some tool)
  kept_list : ∀ dcc tool, tool.skillName ≠ some skillName →
    (tool ∈ (r.unregisterSkill skillName).2.listActions dcc ↔ tool ∈ r.listActions dcc)

/-- The skill shares none of its names: what is registered under a name of the
    skill, for any DCC, is all of the skill. -/
def SharesNoName (r : ToolRegistry δ) (skillName : String) : Prop :=
  ∀ name dcc dcc' tool other, r.entry dcc name = some tool → r.entry dcc' name = some other →
    tool.skillName = some skillName → other.skillName = some skillName

/-- The main entry of a name is of the skill. -/
def Owned (r : ToolRegistry δ) (skillName name : String) : Prop :=
  ∃ tool, r.main name = some tool ∧ tool.skillName = some skillName

/-- A list shows what the lookups of its scope find. -/
theorem mem_listActions (dcc : Option String) (tool : ToolMeta δ) :
    tool ∈ r.listActions dcc ↔ ∃ name, r.getAction name dcc = some tool := by
  cases dcc with
  | none => exact OrderedMap.mem_values r.actions tool
  | some dcc => exact ToolRegistry.mem_listActions_dcc r dcc tool

/-- What a lookup finds is an entry under some DCC. -/
theorem entry_of_getAction (h : WellFormed r) (name : String) (dcc : Option String)
    (tool : ToolMeta δ) (htool : r.getAction name dcc = some tool) :
    ∃ dcc', r.entry dcc' name = some tool := by
  cases dcc with
  | none => exact ⟨tool.dcc, h.main_entry name tool htool⟩
  | some dcc =>
      rw [ToolRegistry.getAction_dcc, Option.or_eq_some_iff] at htool
      rcases htool with htool | ⟨_, htool⟩
      · exact ⟨dcc, htool⟩
      · exact ⟨anyDcc, htool⟩

theorem getAction_of_owned (skillName name : String) (howned : Owned r skillName name)
    (dcc : Option String) :
    (r.unregisterSkill skillName).2.getAction name dcc = none := by
  rcases (ToolRegistry.unregisterSkill_lookups r skillName name).1 howned with ⟨hmain, hentry⟩
  cases dcc with
  | none => exact hmain
  | some dcc => rw [ToolRegistry.getAction_dcc, hentry, hentry, Option.none_or]

theorem getAction_of_not_owned (skillName name : String) (hother : ¬ Owned r skillName name)
    (dcc : Option String) :
    (r.unregisterSkill skillName).2.getAction name dcc = r.getAction name dcc := by
  rcases (ToolRegistry.unregisterSkill_lookups r skillName name).2 hother with ⟨hmain, hentry⟩
  cases dcc with
  | none => exact hmain
  | some dcc => rw [ToolRegistry.getAction_dcc, ToolRegistry.getAction_dcc, hentry, hentry]

/-- Without shared names a lookup finds an action of the skill exactly under
    the names that go. -/
theorem skill_iff_owned (h : WellFormed r) (skillName : String) (hshares : SharesNoName r skillName)
    (name : String) (dcc : Option String) (tool : ToolMeta δ)
    (htool : r.getAction name dcc = some tool) :
    tool.skillName = some skillName ↔ Owned r skillName name := by
  rcases entry_of_getAction r h name dcc tool htool with ⟨dcc', hentry⟩
  -- The tool is in a map of its DCC, so its name has a main entry too.
  have hsome : r.entry dcc' name ≠ none := by
    rw [hentry]
    exact Option.some_ne_none tool
  rcases Option.ne_none_iff_exists'.mp (h.has_main dcc' name hsome) with ⟨top, htop⟩
  have hmain := h.main_entry name top htop
  constructor
  · intro hskill
    exact ⟨top, htop, hshares name dcc' top.dcc tool top hentry hmain hskill⟩
  · rintro ⟨other, hother, hskill⟩
    rw [htop, Option.some.injEq] at hother
    rw [← hother] at hskill
    exact hshares name top.dcc dcc' top tool hmain hentry hskill

theorem removes_of_sharesNoName (h : WellFormed r) (skillName : String)
    (hshares : SharesNoName r skillName) : Removes r skillName := by
  -- What is found afterwards was not removed, so it is not of the skill.
  have hgone : ∀ name dcc tool, (r.unregisterSkill skillName).2.getAction name dcc = some tool →
      tool.skillName ≠ some skillName := by
    intro name dcc tool htool hskill
    by_cases howned : Owned r skillName name
    · rw [getAction_of_owned r skillName name howned dcc] at htool
      cases htool
    · rw [getAction_of_not_owned r skillName name howned dcc] at htool
      exact howned ((skill_iff_owned r h skillName hshares name dcc tool htool).mp hskill)
  -- A tool of another skill is under a name that is not removed.
  have hkept : ∀ name dcc tool, tool.skillName ≠ some skillName →
      ((r.unregisterSkill skillName).2.getAction name dcc = some tool ↔
        r.getAction name dcc = some tool) := by
    intro name dcc tool hskill
    by_cases howned : Owned r skillName name
    · rw [getAction_of_owned r skillName name howned dcc]
      refine iff_of_false (fun hnone => by cases hnone) (fun htool => ?_)
      exact hskill ((skill_iff_owned r h skillName hshares name dcc tool htool).mpr howned)
    · rw [getAction_of_not_owned r skillName name howned dcc]
  refine ⟨hgone, fun dcc tool hmem => ?_, hkept, fun dcc tool hskill => ?_⟩
  · rcases (mem_listActions _ dcc tool).mp hmem with ⟨name, htool⟩
    exact hgone name dcc tool htool
  · rw [mem_listActions, mem_listActions]
    exact exists_congr (fun name => hkept name dcc tool hskill)

/-- A shared name breaks the removal, whoever owns its main entry. -/
theorem sharesNoName_of_removes (h : WellFormed r) (skillName : String)
    (hremoves : Removes r skillName) : SharesNoName r skillName := by
  have hcoherent := coherent_of_wellFormed r h
  intro name dcc dcc' tool other htool hother hskill
  have hsome : ∀ scope found, r.entry scope name = some found →
      r.getAction name (some scope) = some found := by
    intro scope found hfound
    rw [hcoherent.reachable scope name (by rw [hfound]; exact Option.some_ne_none found), hfound]
  -- Suppose a tool of the skill and one of another share the name.
  by_contra hne
  by_cases howned : Owned r skillName name
  · -- The name goes everywhere, and takes the other action with it.
    have hlost := (hremoves.kept name (some dcc') other hne).mpr (hsome dcc' other hother)
    rw [getAction_of_owned r skillName name howned] at hlost
    cases hlost
  · -- The name stays everywhere, with the action of the skill.
    refine hremoves.gone name (some dcc) tool ?_ hskill
    rw [getAction_of_not_owned r skillName name howned]
    exact hsome dcc tool htool

/-- After registrations, unregistering a skill removes its actions from every
    lookup and leaves those of the others as they were, exactly when the
    skill shares none of its names. -/
theorem unregisterSkill_removes_iff (tools : List (ToolMeta δ)) (skillName : String) :
    Removes ((ToolRegistry.new δ).registerBatch tools) skillName ↔
      SharesNoName ((ToolRegistry.new δ).registerBatch tools) skillName := by
  have h := WellFormed.registerBatch tools (ToolRegistry.new δ) (WellFormed.new δ)
  exact ⟨sharesNoName_of_removes _ h skillName, removes_of_sharesNoName _ h skillName⟩

/-- Two skills register a tool of one name, each for its own DCC. The tool of
    the one that is not unregistered goes too. -/
theorem unregisterSkill_loses_other :
    ¬ Removes ((ToolRegistry.new Unit).registerBatch
      [sphereFor "maya" (some "maya-modeling"), sphereFor "blender" (some "blender-modeling")])
      "blender-modeling" := by
  intro hremoves
  have hkept := (hremoves.kept "create_sphere" (some "maya") (sphereFor "maya" (some "maya-modeling"))
    (by decide)).mpr (by decide +kernel)
  exact absurd hkept (by decide +kernel)

end Actions

end DccMcp
