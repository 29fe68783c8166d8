import DccMcp.Lib.OrderedMap
import DccMcp.Lib.Machine
import DccMcp.Flow.Spec
import Mathlib.Data.String.Basic

/-!
# The Tool Registry

The registry of actions, with its two maps. The main map has one entry for
each tool name, the last one registered. The other has a map of names for
each DCC, so a name may be registered for several of them.

What the operations do is stated once for each, in terms of two lookups: the
main entry of a name, and the entry of a name under a DCC. Nothing later
looks into the maps again.

The registry never reads most of what it stores about a tool: descriptions,
schemas, hints. Those are one field here, of an arbitrary type, which the
operations carry along.

## Main definitions

* `ToolMeta`, `ToolRegistry`: Entries and the two maps.
* `ToolRegistry.registerAction`, `getAction`, `listActions`, `unregister`,
  `unregisterSkill`, `setGroupEnabled`, `setSkillGroupEnabled`,
  `setActionEnabled`, `reset`: The operations.
* `ToolRegistry.main`, `ToolRegistry.entry`: The two lookups.
* `Op`, `ToolRegistry.apply`: A call that changes the registry.

## Theorems

* `entry_registerAction`, `entry_unregister_global`, `entry_unregister_dcc`,
  `entry_mapEntries` and the same for `main`: The lookups after an operation.
* `setActionEnabled_lookups`, `unregisterSkill_lookups`: The lookups after a
  flag is set, and after a skill is unregistered.
* `getAction_dcc`, `mem_listActions_dcc`: What a scoped lookup finds.
-/

namespace DccMcp

namespace Actions

/-- Metadata about a registered action. `details` is what the registry stores
    without looking at it. -/
structure ToolMeta (δ : Type) where
  name : String
  dcc : String
  skillName : Option String
  group : String
  enabled : Bool
  details : δ
  deriving DecidableEq

/-- `ANY_DCC`. -/
def anyDcc : String := "any"

/-- The registry: the main map, and a map of names for each DCC. -/
structure ToolRegistry (δ : Type) where
  actions : OrderedMap String (ToolMeta δ)
  dccActions : OrderedMap String (OrderedMap String (ToolMeta δ))

variable {δ : Type}

namespace ToolRegistry

variable (δ) in
def new : ToolRegistry δ := ⟨.empty _ _, .empty _ _⟩

/-- The main entry of a name. -/
def main (r : ToolRegistry δ) (name : String) : Option (ToolMeta δ) := r.actions.lookup name

/-- The entry of a name under a DCC. -/
def entry (r : ToolRegistry δ) (dcc name : String) : Option (ToolMeta δ) :=
  (r.dccActions.lookup dcc).bind (fun dccMap => dccMap.lookup name)

/-- `register_action`. A name that is not a valid tool name is refused. -/
def registerAction (r : ToolRegistry δ) (tool : ToolMeta δ) : ToolRegistry δ :=
  match Workflow.validateToolName tool.name with
  | some _ => r
  | none =>
    { actions := r.actions.insert tool.name tool
      dccActions := r.dccActions.insert tool.dcc
        (((r.dccActions.lookup tool.dcc).getD (.empty _ _)).insert tool.name tool) }

def registerBatch (r : ToolRegistry δ) (tools : List (ToolMeta δ)) : ToolRegistry δ :=
  tools.foldl registerAction r

/-- `get_action`. A DCC-specific action wins over one for any DCC. -/
def getAction (r : ToolRegistry δ) (name : String) : Option String → Option (ToolMeta δ)
  | some dcc =>
    let exact := r.entry dcc name
    if exact.isSome || dcc == anyDcc then exact else r.entry anyDcc name
  | none => r.main name

def listActions (r : ToolRegistry δ) : Option String → List (ToolMeta δ)
  | some dcc =>
    let shared := (r.dccActions.lookup anyDcc).getD (.empty _ _)
    let merged :=
      if dcc = anyDcc then shared
      else shared.extend ((r.dccActions.lookup dcc).getD (.empty _ _))
    merged.values
  | none => r.actions.values

/-- `unregister`, which answers whether an entry was removed. -/
def unregister (r : ToolRegistry δ) (name : String) : Option String → Bool × ToolRegistry δ
  | some dcc =>
    let dccActions := r.dccActions.modify dcc (fun dccMap => dccMap.erase name)
    let stillReferenced := dccActions.values.any (fun dccMap => (dccMap.lookup name).isSome)
    ((r.entry dcc name).isSome,
      { actions := if stillReferenced then r.actions else r.actions.erase name
        dccActions := dccActions })
  | none =>
    ((r.main name).isSome,
      { actions := r.actions.erase name
        dccActions := r.dccActions.mapValues (fun dccMap => dccMap.erase name) })

/-- The main entries of a skill, with their names. -/
def entriesOfSkill (r : ToolRegistry δ) (skillName : String) : List (String × ToolMeta δ) :=
  r.actions.entries.filter (fun e => e.2.skillName = some skillName)

def listActionsBySkill (r : ToolRegistry δ) (skillName : String) : List (ToolMeta δ) :=
  (r.entriesOfSkill skillName).map Prod.snd

/-- `unregister_skill`, which answers how many main entries were removed. -/
def unregisterSkill (r : ToolRegistry δ) (skillName : String) : Nat × ToolRegistry δ :=
  let names := (r.entriesOfSkill skillName).map Prod.fst
  (names.length, names.foldl (fun acc name => (acc.unregister name none).2) r)

def reset (_ : ToolRegistry δ) : ToolRegistry δ := new δ

/-- Both maps with a function applied to every entry. -/
def mapEntries (r : ToolRegistry δ) (f : ToolMeta δ → ToolMeta δ) : ToolRegistry δ where
  actions := r.actions.mapValues f
  dccActions := r.dccActions.mapValues (fun dccMap => dccMap.mapValues f)

/-- An entry with its flag set, if it is one of those that are meant. -/
def setEnabledIf (meant : ToolMeta δ → Bool) (enabled : Bool) (tool : ToolMeta δ) : ToolMeta δ :=
  if meant tool && tool.enabled != enabled then { tool with enabled := enabled } else tool

/-- The loop of the group operations, which answers how many main entries
    changed. -/
def setEnabledWhere (r : ToolRegistry δ) (meant : ToolMeta δ → Bool) (enabled : Bool) :
    Nat × ToolRegistry δ :=
  (r.actions.values.countP (fun tool => meant tool && tool.enabled != enabled),
    r.mapEntries (setEnabledIf meant enabled))

def setGroupEnabled (r : ToolRegistry δ) (group : String) (enabled : Bool) : Nat × ToolRegistry δ :=
  r.setEnabledWhere (fun tool => tool.group == group) enabled

def setSkillGroupEnabled (r : ToolRegistry δ) (skillName group : String) (enabled : Bool) :
    Nat × ToolRegistry δ :=
  r.setEnabledWhere (fun tool => tool.skillName == some skillName && tool.group == group) enabled

/-- `set_action_enabled`, which answers whether the action existed. -/
def setActionEnabled (r : ToolRegistry δ) (name : String) (enabled : Bool) :
    Bool × ToolRegistry δ :=
  match r.main name with
  | none => (false, r)
  | some tool =>
    let set (tool : ToolMeta δ) : ToolMeta δ := { tool with enabled := enabled }
    (true,
      { actions := r.actions.insert name (set tool)
        dccActions := r.dccActions.mapValues (fun dccMap => dccMap.modify name set) })

end ToolRegistry

/-- A call that changes the registry. -/
inductive Op (δ : Type)
  | register (tool : ToolMeta δ)
  | registerBatch (tools : List (ToolMeta δ))
  | unregister (name : String) (dcc : Option String)
  | unregisterSkill (skillName : String)
  | setGroupEnabled (group : String) (enabled : Bool)
  | setSkillGroupEnabled (skillName group : String) (enabled : Bool)
  | setActionEnabled (name : String) (enabled : Bool)
  | reset

namespace ToolRegistry

/-- The registry after a call. -/
def apply (r : ToolRegistry δ) : Op δ → ToolRegistry δ
  | .register tool => r.registerAction tool
  | .registerBatch tools => r.registerBatch tools
  | .unregister name dcc => (r.unregister name dcc).2
  | .unregisterSkill skillName => (r.unregisterSkill skillName).2
  | .setGroupEnabled group enabled => (r.setGroupEnabled group enabled).2
  | .setSkillGroupEnabled skillName group enabled =>
    (r.setSkillGroupEnabled skillName group enabled).2
  | .setActionEnabled name enabled => (r.setActionEnabled name enabled).2
  | .reset => r.reset

/-- A call is always enabled. -/
def step (r : ToolRegistry δ) (op : Op δ) : Option (ToolRegistry δ) := some (r.apply op)

/-! ## The lookups after an operation -/

variable (r : ToolRegistry δ)

theorem main_registerAction (tool : ToolMeta δ)
    (hvalid : Workflow.validateToolName tool.name = none) (name : String) :
    (r.registerAction tool).main name = if name = tool.name then some tool else r.main name := by
  simp only [registerAction, hvalid, main]
  by_cases hname : name = tool.name
  · rw [if_pos hname, hname, OrderedMap.lookup_insert]
  · rw [if_neg hname, OrderedMap.lookup_insert_ne _ _ _ _ hname]

theorem entry_registerAction (tool : ToolMeta δ)
    (hvalid : Workflow.validateToolName tool.name = none) (dcc name : String) :
    (r.registerAction tool).entry dcc name =
      if dcc = tool.dcc ∧ name = tool.name then some tool else r.entry dcc name := by
  -- A DCC without a map gets an empty one first.
  simp only [registerAction, hvalid, entry]
  by_cases hdcc : dcc = tool.dcc
  · rw [hdcc, OrderedMap.lookup_insert, Option.bind_some]
    by_cases hname : name = tool.name
    · rw [if_pos ⟨rfl, hname⟩, hname, OrderedMap.lookup_insert]
    · rw [if_neg (fun h => hname h.2), OrderedMap.lookup_insert_ne _ _ _ _ hname]
      cases r.dccActions.lookup tool.dcc with
      | none => exact OrderedMap.lookup_empty name
      | some dccMap => rfl
  · rw [if_neg (fun h => hdcc h.1), OrderedMap.lookup_insert_ne _ _ _ _ hdcc]

theorem registerAction_invalid (tool : ToolMeta δ)
    (hinvalid : Workflow.validateToolName tool.name ≠ none) : r.registerAction tool = r := by
  unfold registerAction
  split
  next => rfl
  next hvalid => exact absurd hvalid hinvalid

theorem main_unregister_global (r : ToolRegistry δ) (name other : String) :
    (r.unregister name none).2.main other = if other = name then none else r.main other :=
  OrderedMap.lookup_erase r.actions name other

theorem entry_unregister_global (r : ToolRegistry δ) (name dcc other : String) :
    (r.unregister name none).2.entry dcc other =
      if other = name then none else r.entry dcc other := by
  simp only [unregister, entry, OrderedMap.lookup_mapValues]
  cases r.dccActions.lookup dcc with
  | none => exact (ite_self none).symm
  | some dccMap => exact OrderedMap.lookup_erase dccMap name other

theorem entry_unregister_dcc (r : ToolRegistry δ) (name dcc dcc' other : String) :
    (r.unregister name (some dcc)).2.entry dcc' other =
      if dcc' = dcc ∧ other = name then none else r.entry dcc' other := by
  simp only [unregister, entry, OrderedMap.lookup_modify]
  by_cases hdcc : dcc' = dcc
  · rw [if_pos hdcc]
    cases r.dccActions.lookup dcc' with
    | none => exact (ite_self none).symm
    | some dccMap =>
        simp [OrderedMap.lookup_erase, hdcc]
  · rw [if_neg hdcc, if_neg (fun h => hdcc h.1)]

/-- A name is still referenced when another DCC has it. -/
theorem stillReferenced_iff (name dcc : String) :
    (r.dccActions.modify dcc (fun dccMap => dccMap.erase name)).values.any
      (fun dccMap => (dccMap.lookup name).isSome) = true ↔
      ∃ dcc', dcc' ≠ dcc ∧ r.entry dcc' name ≠ none := by
  rw [List.any_eq_true]
  constructor
  · rintro ⟨dccMap, hmem, hsome⟩
    rcases (OrderedMap.mem_values _ dccMap).mp hmem with ⟨dcc', hdcc'⟩
    rw [OrderedMap.lookup_modify] at hdcc'
    by_cases hdcc : dcc' = dcc
    · -- The map of the DCC itself has lost the name.
      rw [if_pos hdcc, Option.map_eq_some_iff] at hdcc'
      rcases hdcc' with ⟨dccMap', _, rfl⟩
      rw [OrderedMap.lookup_erase, if_pos rfl] at hsome
      cases hsome
    · rw [if_neg hdcc] at hdcc'
      refine ⟨dcc', hdcc, fun hnone => ?_⟩
      rw [entry, hdcc', Option.bind_some] at hnone
      rw [hnone] at hsome
      cases hsome
  · rintro ⟨dcc', hdcc, hsome⟩
    rw [entry] at hsome
    -- The map of the other DCC is not modified.
    cases hmap : r.dccActions.lookup dcc' with
    | none =>
        rw [hmap] at hsome
        exact absurd rfl hsome
    | some dccMap =>
        rw [hmap, Option.bind_some] at hsome
        refine ⟨dccMap, (OrderedMap.mem_values _ _).mpr ⟨dcc', ?_⟩, Option.isSome_iff_ne_none.mpr hsome⟩
        rw [OrderedMap.lookup_modify, if_neg hdcc, hmap]

theorem main_unregister_dcc_ne (name dcc other : String) (h : other ≠ name) :
    (r.unregister name (some dcc)).2.main other = r.main other := by
  simp only [unregister, main]
  split
  · rfl
  · rw [OrderedMap.lookup_erase, if_neg h]

theorem main_unregister_dcc_kept (name dcc dcc' : String) (hdcc : dcc' ≠ dcc)
    (h : r.entry dcc' name ≠ none) : (r.unregister name (some dcc)).2.main name = r.main name := by
  simp only [unregister, main]
  rw [if_pos ((stillReferenced_iff r name dcc).mpr ⟨dcc', hdcc, h⟩)]

theorem main_unregister_dcc_last (name dcc : String)
    (h : ∀ dcc', dcc' ≠ dcc → r.entry dcc' name = none) :
    (r.unregister name (some dcc)).2.main name = none := by
  have hnot : ¬ (r.dccActions.modify dcc (fun dccMap => dccMap.erase name)).values.any
      (fun dccMap => (dccMap.lookup name).isSome) = true := by
    rw [stillReferenced_iff]
    rintro ⟨dcc', hdcc, hsome⟩
    exact hsome (h dcc' hdcc)
  simp only [unregister, main]
  rw [if_neg hnot, OrderedMap.lookup_erase, if_pos rfl]

theorem main_mapEntries (r : ToolRegistry δ) (f : ToolMeta δ → ToolMeta δ) (name : String) :
    (r.mapEntries f).main name = (r.main name).map f := OrderedMap.lookup_mapValues f r.actions name

theorem entry_mapEntries (r : ToolRegistry δ) (f : ToolMeta δ → ToolMeta δ) (dcc name : String) :
    (r.mapEntries f).entry dcc name = (r.entry dcc name).map f := by
  simp only [mapEntries, entry, OrderedMap.lookup_mapValues]
  cases r.dccActions.lookup dcc with
  | none => rfl
  | some dccMap => exact OrderedMap.lookup_mapValues f dccMap name

/-- The flag of one name, in both maps. -/
theorem setActionEnabled_lookups (name : String) (enabled : Bool) (hmain : r.main name ≠ none)
    (other : String) :
    ((r.setActionEnabled name enabled).2.main other =
      if other = name then (r.main other).map (fun tool => { tool with enabled := enabled })
      else r.main other) ∧
    ∀ dcc, (r.setActionEnabled name enabled).2.entry dcc other =
      if other = name then (r.entry dcc other).map (fun tool => { tool with enabled := enabled })
      else r.entry dcc other := by
  -- The name has a main entry, so the early return is not taken.
  unfold setActionEnabled
  split
  next hnone => exact absurd hnone hmain
  next tool htool =>
    refine ⟨?_, fun dcc => ?_⟩
    · by_cases hother : other = name
      · rw [if_pos hother, hother, htool]
        exact OrderedMap.lookup_insert _ _ _
      · rw [if_neg hother]
        exact OrderedMap.lookup_insert_ne _ _ _ _ hother
    · simp only [entry, OrderedMap.lookup_mapValues]
      cases r.dccActions.lookup dcc with
      | none => exact (ite_self none).symm
      | some dccMap => exact OrderedMap.lookup_modify dccMap name other _

/-! ## Unregistering a skill -/

theorem foldl_unregister (names : List String) (r : ToolRegistry δ) (other : String) :
    ((names.foldl (fun acc name => (acc.unregister name none).2) r).main other =
      if other ∈ names then none else r.main other) ∧
    ∀ dcc, (names.foldl (fun acc name => (acc.unregister name none).2) r).entry dcc other =
      if other ∈ names then none else r.entry dcc other := by
  induction names generalizing r with
  | nil =>
      refine ⟨?_, fun dcc => ?_⟩
      · rw [if_neg List.not_mem_nil, List.foldl_nil]
      · rw [if_neg List.not_mem_nil, List.foldl_nil]
  | cons name rest ih =>
      rw [List.foldl_cons]
      -- The first name goes, then the others go from what is left.
      rcases ih (r.unregister name none).2 with ⟨hmain, hentry⟩
      rw [hmain, main_unregister_global]
      refine ⟨?_, fun dcc => ?_⟩
      · by_cases hrest : other ∈ rest
        · rw [if_pos hrest, if_pos (List.mem_cons_of_mem name hrest)]
        · rw [if_neg hrest]
          exact if_congr (by rw [List.mem_cons, or_iff_left hrest]) rfl rfl
      · rw [hentry, entry_unregister_global]
        by_cases hrest : other ∈ rest
        · rw [if_pos hrest, if_pos (List.mem_cons_of_mem name hrest)]
        · rw [if_neg hrest]
          exact if_congr (by rw [List.mem_cons, or_iff_left hrest]) rfl rfl

/-- The names that go are those whose main entry is of the skill. -/
theorem mem_names_iff (skillName name : String) : name ∈ (r.entriesOfSkill skillName).map Prod.fst ↔
      ∃ tool, r.main name = some tool ∧ tool.skillName = some skillName := by
  rw [List.mem_map]
  constructor
  · rintro ⟨e, he, rfl⟩
    rcases List.mem_filter.mp he with ⟨hmem, hskill⟩
    exact ⟨e.2, OrderedMap.lookup_of_mem r.actions e.1 e.2 hmem, of_decide_eq_true hskill⟩
  · rintro ⟨tool, htool, hskill⟩
    refine ⟨(name, tool), List.mem_filter.mpr ⟨?_, decide_eq_true hskill⟩, rfl⟩
    exact OrderedMap.mem_entries r.actions name tool htool

/-- A name whose main entry is of the skill goes from both maps, and every
    other name stays in both. -/
theorem unregisterSkill_lookups (skillName name : String) :
    ((∃ tool, r.main name = some tool ∧ tool.skillName = some skillName) →
      (r.unregisterSkill skillName).2.main name = none ∧
      ∀ dcc, (r.unregisterSkill skillName).2.entry dcc name = none) ∧
    ((¬ ∃ tool, r.main name = some tool ∧ tool.skillName = some skillName) →
      (r.unregisterSkill skillName).2.main name = r.main name ∧
      ∀ dcc, (r.unregisterSkill skillName).2.entry dcc name = r.entry dcc name) := by
  rcases foldl_unregister ((r.entriesOfSkill skillName).map Prod.fst) r name with ⟨hmain, hentry⟩
  simp only [mem_names_iff] at hmain hentry
  refine ⟨fun howned => ⟨?_, fun dcc => ?_⟩, fun hother => ⟨?_, fun dcc => ?_⟩⟩
  · exact hmain.trans (if_pos howned)
  · exact (hentry dcc).trans (if_pos howned)
  · exact hmain.trans (if_neg hother)
  · exact (hentry dcc).trans (if_neg hother)

/-! ## Scoped lookups -/

theorem getAction_dcc (dcc name : String) :
    r.getAction name (some dcc) = (r.entry dcc name).or (r.entry anyDcc name) := by
  simp only [getAction]
  cases hexact : r.entry dcc name with
  | some tool => rfl
  | none =>
      -- The fallback is only tried for a DCC other than the shared one.
      by_cases hany : dcc = anyDcc
      · rw [hany] at hexact
        simp [hany, hexact]
      · simp [Bool.false_or, hany]

/-- A scoped list has the entries of both scopes, and the DCC's own win. -/
theorem mem_listActions_dcc (dcc : String) (tool : ToolMeta δ) : tool ∈ r.listActions (some dcc) ↔
      ∃ name, r.getAction name (some dcc) = some tool := by
  -- A DCC without a map is as good as one with an empty map.
  have hlookup : ∀ scope name, ((r.dccActions.lookup scope).getD (.empty _ _)).lookup name
      = r.entry scope name := by
    intro scope name
    rw [entry]
    cases r.dccActions.lookup scope with
    | none => exact OrderedMap.lookup_empty name
    | some dccMap => rfl
  simp only [listActions, OrderedMap.mem_values, getAction_dcc]
  refine exists_congr (fun name => ?_)
  by_cases hany : dcc = anyDcc
  · rw [if_pos hany, hany, hlookup, Option.or_self]
  · rw [if_neg hany, OrderedMap.lookup_extend, hlookup, hlookup]

end ToolRegistry

end Actions

end DccMcp
