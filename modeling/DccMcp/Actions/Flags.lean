import DccMcp.Actions.Coherence

/-!
# Roots and Flags of the Tool Registry

Two facts about the registry that hold whatever is done to it. A name that is registered
under a DCC has a main entry, even where the main entry is not the one of that DCC. And
setting the flags of a group of one skill touches no tool of another one.

## Main definitions

* `Rooted`: Every name has a main entry, and a valid name.
* `Toggled`: Two registries that differ in the flags of one skill.

## Theorems

* `rooted_apply`, `rooted_of_run`: Every registry is rooted.
* `Toggled.setSkillGroupEnabled`, `Toggled.trans`: What toggles, and that it composes.
* `Toggled.main_of_other`, `Toggled.entry_of_other`, `Toggled.owned`: What is left alone.
-/

namespace DccMcp

namespace Actions

open Machine

variable {ε : Type}

/-- A name under some DCC has a main entry, and main entries have valid names. -/
structure Rooted (r : ToolRegistry ε) : Prop where
  has_main : ∀ dcc name, r.entry dcc name ≠ none → r.main name ≠ none
  valid : ∀ name, r.main name ≠ none → Workflow.validateToolName name = none

namespace Rooted

variable (r : ToolRegistry ε)

theorem registerAction (tool : ToolMeta ε) (h : Rooted r) : Rooted (r.registerAction tool) := by
  by_cases hvalid : Workflow.validateToolName tool.name = none
  · refine ⟨fun dcc name hentry => ?_, fun name hmain => ?_⟩
    · rw [ToolRegistry.entry_registerAction r tool hvalid] at hentry
      rw [ToolRegistry.main_registerAction r tool hvalid]
      by_cases hname : name = tool.name
      · rw [if_pos hname]
        exact Option.some_ne_none tool
      · rw [if_neg (fun hboth => hname hboth.2)] at hentry
        rw [if_neg hname]
        exact h.has_main dcc name hentry
    · rw [ToolRegistry.main_registerAction r tool hvalid] at hmain
      by_cases hname : name = tool.name
      · rw [hname]
        exact hvalid
      · rw [if_neg hname] at hmain
        exact h.valid name hmain
  · rw [ToolRegistry.registerAction_invalid r tool hvalid]
    exact h

/-- Fewer entries, as long as a name loses its main entry last. -/
theorem of_fewer (r r' : ToolRegistry ε) (h : Rooted r)
    (hmain : ∀ name, r'.main name ≠ none → r.main name ≠ none)
    (hentry : ∀ dcc name, r'.entry dcc name ≠ none →
      r.entry dcc name ≠ none ∧ (r.main name ≠ none → r'.main name ≠ none)) : Rooted r' where
  has_main dcc name hsome :=
    (hentry dcc name hsome).2 (h.has_main dcc name (hentry dcc name hsome).1)
  valid name hsome := h.valid name (hmain name hsome)

theorem unregister_global (name : String) (h : Rooted r) : Rooted (r.unregister name none).2 := by
  refine h.of_fewer r _ (fun other hmain => ?_) (fun dcc other hentry => ?_)
  · rw [ToolRegistry.main_unregister_global] at hmain
    split at hmain
    next => exact absurd rfl hmain
    next => exact hmain
  · rw [ToolRegistry.entry_unregister_global] at hentry
    rw [ToolRegistry.main_unregister_global]
    split at hentry
    next => exact absurd rfl hentry
    next hother =>
      rw [if_neg hother]
      exact ⟨hentry, id⟩

theorem unregister_dcc (name dcc : String) (h : Rooted r) :
    Rooted (r.unregister name (some dcc)).2 := by
  have hmain : ∀ other, (r.unregister name (some dcc)).2.main other ≠ none →
      r.main other ≠ none := by
    intro other hsome
    by_cases hother : other = name
    · by_cases hlast : ∀ dcc', dcc' ≠ dcc → r.entry dcc' name = none
      · rw [hother, ToolRegistry.main_unregister_dcc_last r name dcc hlast] at hsome
        exact absurd rfl hsome
      · push Not at hlast
        rcases hlast with ⟨dcc', hdcc, hentry⟩
        rw [hother]
        exact h.has_main dcc' name hentry
    · rw [ToolRegistry.main_unregister_dcc_ne r name dcc other hother] at hsome
      exact hsome
  refine h.of_fewer r _ hmain (fun dcc' other hentry => ?_)
  rw [ToolRegistry.entry_unregister_dcc] at hentry
  split at hentry
  next => exact absurd rfl hentry
  next hnot =>
    refine ⟨hentry, fun hsome => ?_⟩
    by_cases hother : other = name
    · -- The name is still under the other DCC.
      have hdcc : dcc' ≠ dcc := fun heq => hnot ⟨heq, hother⟩
      rw [hother] at hentry hsome ⊢
      rw [ToolRegistry.main_unregister_dcc_kept r name dcc dcc' hdcc hentry]
      exact hsome
    · rw [ToolRegistry.main_unregister_dcc_ne r name dcc other hother]
      exact hsome

/-- Entries that change and stay. -/
theorem of_map (r r' : ToolRegistry ε) (h : Rooted r)
    (hmain : ∀ name, (r'.main name).isSome = (r.main name).isSome)
    (hentry : ∀ dcc name, (r'.entry dcc name).isSome = (r.entry dcc name).isSome) : Rooted r' := by
  refine ⟨fun dcc name hsome => ?_, fun name hsome => ?_⟩
  · rw [← Option.isSome_iff_ne_none, hentry] at hsome
    rw [← Option.isSome_iff_ne_none, hmain, Option.isSome_iff_ne_none]
    exact h.has_main dcc name (Option.isSome_iff_ne_none.mp hsome)
  · rw [← Option.isSome_iff_ne_none, hmain] at hsome
    exact h.valid name (Option.isSome_iff_ne_none.mp hsome)

theorem mapEntries (f : ToolMeta ε → ToolMeta ε) (h : Rooted r) : Rooted (r.mapEntries f) := by
  refine h.of_map r _ (fun name => ?_) (fun dcc name => ?_)
  · rw [ToolRegistry.main_mapEntries, Option.isSome_map]
  · rw [ToolRegistry.entry_mapEntries, Option.isSome_map]

theorem setActionEnabled (name : String) (enabled : Bool) (h : Rooted r) :
    Rooted (r.setActionEnabled name enabled).2 := by
  by_cases hmain : r.main name = none
  · unfold ToolRegistry.setActionEnabled
    rw [hmain]
    exact h
  · have hlookups := ToolRegistry.setActionEnabled_lookups r name enabled hmain
    refine h.of_map r _ (fun other => ?_) (fun dcc other => ?_)
    · rw [(hlookups other).1]
      split
      next => rw [Option.isSome_map]
      next => rfl
    · rw [(hlookups other).2]
      split
      next => rw [Option.isSome_map]
      next => rfl

variable (ε) in
theorem new : Rooted (ToolRegistry.new ε) where
  has_main _ _ h := absurd rfl h
  valid _ h := absurd rfl h

end Rooted

theorem rooted_apply (r : ToolRegistry ε) (op : Op ε) (h : Rooted r) : Rooted (r.apply op) := by
  cases op with
  | register tool => exact h.registerAction r tool
  | registerBatch tools =>
      exact List.foldlRecOn tools _ h (fun r h tool _ => Rooted.registerAction r tool h)
  | unregister name dcc =>
      cases dcc with
      | none => exact h.unregister_global r name
      | some dcc => exact h.unregister_dcc r name dcc
  | unregisterSkill skillName =>
      exact List.foldlRecOn _ _ h (fun r h name _ => Rooted.unregister_global r name h)
  | setGroupEnabled group enabled => exact h.mapEntries r _
  | setSkillGroupEnabled skillName group enabled => exact h.mapEntries r _
  | setActionEnabled name enabled => exact h.setActionEnabled r name enabled
  | reset => exact Rooted.new ε

theorem rooted_of_run (ops : List (Op ε)) (r : ToolRegistry ε)
    (hrun : exec ToolRegistry.step (ToolRegistry.new ε) ops = some r) : Rooted r := by
  refine exec_invariant ToolRegistry.step Rooted ?_ (ToolRegistry.new ε) r ops (Rooted.new ε) hrun
  intro r op u h hstep
  unfold ToolRegistry.step at hstep
  rw [← Option.some.inj hstep]
  exact rooted_apply r op h

/-! ## The flags of one skill -/

/-- Two registries that differ in the flags of the tools of one skill. -/
def Toggled (skillName : String) (r r' : ToolRegistry ε) : Prop :=
  ∃ f : ToolMeta ε → ToolMeta ε,
    (∀ tool, (f tool).skillName = tool.skillName ∧
      (tool.skillName ≠ some skillName → f tool = tool)) ∧
    (∀ name, r'.main name = (r.main name).map f) ∧
    ∀ dcc name, r'.entry dcc name = (r.entry dcc name).map f

namespace Toggled

variable (skillName : String) (r r' : ToolRegistry ε)

theorem refl (r : ToolRegistry ε) : Toggled skillName r r := by
  refine ⟨id, fun tool => ⟨rfl, fun _ => rfl⟩, fun name => ?_, fun dcc name => ?_⟩
  · rw [Option.map_id_fun, id]
  · rw [Option.map_id_fun, id]

theorem trans (r r' r'' : ToolRegistry ε) (h : Toggled skillName r r')
    (h' : Toggled skillName r' r'') : Toggled skillName r r'' := by
  rcases h with ⟨f, hf, hmain, hentry⟩
  rcases h' with ⟨g, hg, hmain', hentry'⟩
  refine ⟨g ∘ f, fun tool => ⟨?_, fun hother => ?_⟩, fun name => ?_, fun dcc name => ?_⟩
  · exact ((hg (f tool)).1).trans (hf tool).1
  · have hsame : f tool = tool := (hf tool).2 hother
    rw [Function.comp_apply, hsame]
    exact (hg tool).2 hother
  · rw [hmain', hmain, Option.map_map]
  · rw [hentry', hentry, Option.map_map]

theorem setSkillGroupEnabled (skillName group : String) (enabled : Bool) (r : ToolRegistry ε) :
    Toggled skillName r (r.setSkillGroupEnabled skillName group enabled).2 := by
  refine ⟨_, fun tool => ⟨?_, fun hother => ?_⟩, ToolRegistry.main_mapEntries r _,
    ToolRegistry.entry_mapEntries r _⟩
  · unfold ToolRegistry.setEnabledIf
    split
    next => rfl
    next => rfl
  · unfold ToolRegistry.setEnabledIf
    rw [if_neg]
    intro hmeant
    rw [Bool.and_eq_true, Bool.and_eq_true, beq_iff_eq] at hmeant
    exact hother hmeant.1.1

theorem isNone_main (h : Toggled skillName r r') (name : String) :
    r'.main name = none ↔ r.main name = none := by
  rcases h with ⟨f, _, hmain, _⟩
  rw [hmain, Option.map_eq_none_iff]

theorem isNone_entry (h : Toggled skillName r r') (dcc name : String) :
    r'.entry dcc name = none ↔ r.entry dcc name = none := by
  rcases h with ⟨f, _, _, hentry⟩
  rw [hentry, Option.map_eq_none_iff]

/-- What is not of the skill stays as it is. -/
theorem main_of_other (h : Toggled skillName r r') (name : String)
    (hother : ∀ tool, r.main name = some tool → tool.skillName ≠ some skillName) :
    r'.main name = r.main name := by
  rcases h with ⟨f, hf, hmain, _⟩
  rw [hmain]
  cases hlookup : r.main name with
  | none => rfl
  | some tool => rw [Option.map_some, (hf tool).2 (hother tool hlookup)]

theorem entry_of_other (h : Toggled skillName r r') (dcc name : String)
    (hother : ∀ tool, r.entry dcc name = some tool → tool.skillName ≠ some skillName) :
    r'.entry dcc name = r.entry dcc name := by
  rcases h with ⟨f, hf, _, hentry⟩
  rw [hentry]
  cases hlookup : r.entry dcc name with
  | none => rfl
  | some tool => rw [Option.map_some, (hf tool).2 (hother tool hlookup)]

theorem owned (h : Toggled skillName r r') (name : String) :
    Owned r' skillName name ↔ Owned r skillName name := by
  rcases h with ⟨f, hf, hmain, _⟩
  unfold Owned
  rw [hmain]
  constructor
  · rintro ⟨tool', htool', hskill⟩
    rcases Option.map_eq_some_iff.mp htool' with ⟨tool, htool, rfl⟩
    exact ⟨tool, htool, (hf tool).1.symm.trans hskill⟩
  · rintro ⟨tool, htool, hskill⟩
    exact ⟨f tool, by rw [htool, Option.map_some], (hf tool).1.trans hskill⟩

end Toggled

end Actions

end DccMcp
