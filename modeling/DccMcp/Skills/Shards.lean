import DccMcp.Skills.Catalog

/-!
# Coherence of the Skill Catalog

The catalog says two things about a skill in two places each: whether it is loaded, by a
set and by the state of its entry, and to which DCC it belongs, by its metadata and by
the shard it is in. This file says what it is for the two to be in step, and what the
parts of an operation do to them: placing an entry, adding a name to a shard and removing
it, and refreshing the states.

## Main definitions

* `label`: What the shards have to know of an entry.
* `Indexed`, `Flagged`, `Coherent`: The shards and the loaded set agree with the entries.

## Theorems

* `mem_shardInsert`, `mem_shardRemove`, `mem_shardMove`: The names in a shard.
* `lookup_place`, `label_place`, `flagged_place`: An entry is put in place.
* `lookup_refreshDependencyStates`, `flagged_refreshDependencyStates`: The states.
-/

namespace DccMcp

namespace Catalog

open Actions Text

variable {δ ε η : Type}

namespace SkillCatalog

/-! ## Coherence -/

/-- What the shards have to know of an entry: its name and its lower-cased DCC. -/
def label (c : SkillCatalog δ ε η) (name : String) : Option (String × String) :=
  (c.entries.lookup name).map (fun entry =>
    (entry.metadata.name, toAsciiLowercase entry.metadata.dcc))

/-- The shards agree with the entries. -/
structure Indexed (c : SkillCatalog δ ε η) : Prop where
  mem_shard : ∀ key name, name ∈ c.shard key ↔ (c.label name).map Prod.snd = some key
  named : ∀ name l, c.label name = some l → l.1 = name

/-- The loaded set agrees with the entries. -/
def Flagged (c : SkillCatalog δ ε η) : Prop :=
  ∀ name, name ∈ c.loaded ↔
    ∃ entry, c.entries.lookup name = some entry ∧ entry.state = .loaded

structure Coherent (c : SkillCatalog δ ε η) : Prop where
  indexed : c.Indexed
  flagged : c.Flagged

theorem coherent_new (registry : ToolRegistry ε) (dispatcher : Option (OrderedMap String η)) :
    (new registry dispatcher : SkillCatalog δ ε η).Coherent where
  indexed :=
    { mem_shard := fun key name => ⟨fun h => absurd h List.not_mem_nil, fun h => by cases h⟩
      named := fun name l h => by cases h }
  flagged name := ⟨fun h => absurd h List.not_mem_nil, fun ⟨_, h, _⟩ => by cases h⟩

/-- Only the shards and the labels matter to the index. -/
theorem Indexed.congr (c c' : SkillCatalog δ ε η) (h : c.Indexed)
    (hshards : c'.dccShards = c.dccShards) (hlabel : ∀ name, c'.label name = c.label name) :
    c'.Indexed where
  mem_shard key name := by
    have hkey := h.mem_shard key name
    rw [hlabel]
    unfold shard at hkey ⊢
    rw [hshards]
    exact hkey
  named name l hl := h.named name l ((hlabel name).symm.trans hl)

variable (c : SkillCatalog δ ε η) (name : String)

/-- A loaded skill has an entry. -/
theorem Flagged.known (h : c.Flagged) (name : String) (hname : name ∈ c.loaded) :
    c.entries.lookup name ≠ none := by
  rcases (h name).mp hname with ⟨entry, hentry, _⟩
  rw [hentry]
  exact Option.some_ne_none entry

/-! ## The parts of an operation -/

theorem shard_insert_lookup (shards : OrderedMap String (List String)) (key other : String)
    (names : List String) :
    ({ c with dccShards := shards.insert key names } : SkillCatalog δ ε η).shard other =
      if other = key then names else (shards.lookup other).getD [] := by
  unfold shard
  by_cases hkey : other = key
  · rw [if_pos hkey, hkey, OrderedMap.lookup_insert, Option.getD_some]
  · rw [if_neg hkey, OrderedMap.lookup_insert_ne _ _ _ _ hkey]

theorem mem_shardInsert (name dcc key other : String) : other ∈ (c.shardInsert name dcc).shard key ↔
      other ∈ c.shard key ∨ (other = name ∧ key = toAsciiLowercase dcc) := by
  unfold shardInsert
  rw [shard_insert_lookup]
  by_cases hkey : key = toAsciiLowercase dcc
  · rw [if_pos hkey, List.mem_insert_iff, hkey, and_iff_left rfl, or_comm]
  · rw [if_neg hkey]
    exact ⟨Or.inl, fun h => h.elim id (fun h => absurd h.2 hkey)⟩

theorem mem_shardRemove (name dcc key other : String) : other ∈ (c.shardRemove name dcc).shard key ↔
      other ∈ c.shard key ∧ ¬ (other = name ∧ key = toAsciiLowercase dcc) := by
  have hrest : ∀ names : List String, other ∈ names.filter (fun other => other ≠ name) ↔
      other ∈ names ∧ other ≠ name := by
    intro names
    simp
  unfold shardRemove
  dsimp only
  split
  next hnone =>
    -- Nothing is in a shard that is not there.
    refine ⟨fun h => ⟨h, fun ⟨_, hkey⟩ => ?_⟩, And.left⟩
    rw [shard, hkey, hnone] at h
    cases h
  next names hnames =>
    have hshard : c.shard (toAsciiLowercase dcc) = names := by
      rw [shard, hnames, Option.getD_some]
    split
    next hempty =>
      -- The shard goes, and had nothing else in it.
      have hnone := hrest names
      rw [hempty] at hnone
      unfold shard
      rw [OrderedMap.lookup_erase]
      by_cases hkey : key = toAsciiLowercase dcc
      · rw [if_pos hkey, hkey]
        unfold shard at hshard
        rw [hshard]
        simp only [Option.getD_none, List.not_mem_nil, and_true, false_iff] at hnone ⊢
        exact hnone
      · rw [if_neg hkey]
        exact ⟨fun h => ⟨h, fun h' => hkey h'.2⟩, And.left⟩
    next =>
      rw [shard_insert_lookup]
      by_cases hkey : key = toAsciiLowercase dcc
      · rw [if_pos hkey, hrest, hkey, hshard, and_iff_left rfl]
      · rw [if_neg hkey]
        exact ⟨fun h => ⟨h, fun h' => hkey h'.2⟩, And.left⟩

theorem entries_shardRemove (c : SkillCatalog δ ε η) (name dcc : String) :
    (c.shardRemove name dcc).entries = c.entries ∧ (c.shardRemove name dcc).loaded = c.loaded := by
  unfold shardRemove
  dsimp only
  split
  next => exact ⟨rfl, rfl⟩
  next =>
    split
    next => exact ⟨rfl, rfl⟩
    next => exact ⟨rfl, rfl⟩

theorem entries_shardMove (c : SkillCatalog δ ε η) (name oldDcc newDcc : String) :
    (c.shardMove name oldDcc newDcc).entries = c.entries ∧
      (c.shardMove name oldDcc newDcc).loaded = c.loaded := by
  unfold shardMove
  split
  next => exact ⟨rfl, rfl⟩
  next => exact entries_shardRemove c name oldDcc

/-- A name moves between the shards, if they are two. -/
theorem mem_shardMove (name oldDcc newDcc key other : String)
    (hold : name ∈ c.shard (toAsciiLowercase oldDcc)) :
    other ∈ (c.shardMove name oldDcc newDcc).shard key ↔
      (other ∈ c.shard key ∧ ¬ (other = name ∧ key = toAsciiLowercase oldDcc)) ∨
        (other = name ∧ key = toAsciiLowercase newDcc) := by
  unfold shardMove
  split
  next hsame =>
    -- The name stays where it is.
    have hkeys : toAsciiLowercase oldDcc = toAsciiLowercase newDcc := beq_iff_eq.mp hsame
    rw [hkeys] at hold ⊢
    by_cases hother : other = name ∧ key = toAsciiLowercase newDcc
    · rw [hother.1, hother.2]
      exact ⟨fun _ => Or.inr ⟨rfl, rfl⟩, fun _ => hold⟩
    · exact ⟨fun h => Or.inl ⟨h, hother⟩, fun h => h.elim And.left fun h => absurd h hother⟩
  next => rw [mem_shardInsert, mem_shardRemove]

theorem lookup_place (c : SkillCatalog δ ε η) (name other : String) (entry : SkillEntry δ) :
    (c.place name entry).entries.lookup other =
      if other = name then some entry else c.entries.lookup other := by
  unfold place
  by_cases hother : other = name
  · rw [if_pos hother, hother, OrderedMap.lookup_insert]
  · rw [if_neg hother, OrderedMap.lookup_insert_ne _ _ _ _ hother]

theorem label_place (c : SkillCatalog δ ε η) (name other : String) (entry : SkillEntry δ) :
    (c.place name entry).label other =
      if other = name then some (entry.metadata.name, toAsciiLowercase entry.metadata.dcc)
      else c.label other := by
  unfold label
  rw [lookup_place]
  by_cases hother : other = name
  · rw [if_pos hother, if_pos hother, Option.map_some]
  · rw [if_neg hother, if_neg hother]

/-- An entry agrees with the loaded set when it is put in place. -/
theorem flagged_place (c : SkillCatalog δ ε η) (name : String) (entry : SkillEntry δ)
    (h : c.Flagged) (hentry : name ∈ c.loaded ↔ entry.state = .loaded) :
    (c.place name entry).Flagged := by
  intro other
  rw [lookup_place]
  by_cases hother : other = name
  · rw [if_pos hother, hother]
    exact hentry.trans ⟨fun hstate => ⟨entry, rfl, hstate⟩, fun ⟨_, hsome, hstate⟩ =>
      Option.some.inj hsome ▸ hstate⟩
  · rw [if_neg hother]
    exact h other

/-- Each of the keys is modified once. -/
theorem lookup_foldl_modify (f : String → SkillEntry δ → SkillEntry δ) (keys : List String)
    (entries : OrderedMap String (SkillEntry δ)) (hnodup : keys.Nodup) (name : String) :
    (keys.foldl (fun acc key => acc.modify key (f key)) entries).lookup name =
      if name ∈ keys then (entries.lookup name).map (f name) else entries.lookup name := by
  induction keys generalizing entries with
  | nil => rw [if_neg List.not_mem_nil, List.foldl_nil]
  | cons key rest ih =>
      rcases List.nodup_cons.mp hnodup with ⟨hfresh, hrest⟩
      rw [List.foldl_cons, ih _ hrest, OrderedMap.lookup_modify]
      by_cases hname : name = key
      · rw [hname, if_neg hfresh, if_pos rfl, if_pos List.mem_cons_self]
      · rw [if_neg hname]
        exact if_congr (by rw [List.mem_cons, or_iff_right hname]) rfl rfl

theorem lookup_refreshDependencyStates : c.refreshDependencyStates.entries.lookup name =
      (c.entries.lookup name).map (fun entry =>
        { entry with state := c.refreshedState name entry }) := by
  have hfold := lookup_foldl_modify
    (fun key entry => { entry with state := c.refreshedState key entry })
    (c.entries.entries.map Prod.fst) c.entries (OrderedMap.nodup_keys c.entries) name
  refine hfold.trans ?_
  by_cases hname : name ∈ c.entries.entries.map Prod.fst
  · rw [if_pos hname]
  · rw [if_neg hname]
    -- A name that is no key has no entry.
    cases hlookup : c.entries.lookup name with
    | none => rfl
    | some entry =>
        exact absurd (List.mem_map.mpr
          ⟨(name, entry), OrderedMap.mem_entries c.entries name entry hlookup, rfl⟩) hname

theorem label_refreshDependencyStates : c.refreshDependencyStates.label name = c.label name := by
  unfold label
  rw [lookup_refreshDependencyStates, Option.map_map]
  rfl

theorem indexed_refreshDependencyStates (h : c.Indexed) : c.refreshDependencyStates.Indexed :=
  h.congr _ _ rfl (label_refreshDependencyStates c)

theorem refreshedState_eq_loaded_iff (entry : SkillEntry δ) :
    c.refreshedState name entry = .loaded ↔ name ∈ c.loaded := by
  unfold refreshedState dependencyStateFor
  by_cases hloaded : name ∈ c.loaded
  · rw [if_pos hloaded]
    exact iff_of_true rfl hloaded
  · rw [if_neg hloaded]
    refine iff_of_false ?_ hloaded
    split
    next => exact SkillState.noConfusion
    next =>
      split
      next => exact SkillState.noConfusion
      next => exact SkillState.noConfusion

/-- Whatever the states were, they agree with the loaded set afterwards. -/
theorem flagged_refreshDependencyStates (h : ∀ name ∈ c.loaded, c.entries.lookup name ≠ none) :
    c.refreshDependencyStates.Flagged := by
  intro name
  have hloaded : name ∈ c.refreshDependencyStates.loaded ↔ name ∈ c.loaded := Iff.rfl
  rw [hloaded, lookup_refreshDependencyStates]
  constructor
  · intro hname
    rcases Option.ne_none_iff_exists'.mp (h name hname) with ⟨entry, hentry⟩
    rw [hentry, Option.map_some]
    exact ⟨_, rfl, (refreshedState_eq_loaded_iff c name entry).mpr hname⟩
  · rintro ⟨entry', hentry', hstate⟩
    rcases Option.map_eq_some_iff.mp hentry' with ⟨entry, _, rfl⟩
    exact (refreshedState_eq_loaded_iff c name entry).mp hstate

theorem coherent_refreshDependencyStates (h : c.Coherent) : c.refreshDependencyStates.Coherent :=
  ⟨indexed_refreshDependencyStates c h.indexed,
    flagged_refreshDependencyStates c (h.flagged.known c)⟩

end SkillCatalog

end Catalog

end DccMcp
