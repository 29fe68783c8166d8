import DccMcp.Skills.Loads

/-!
# Operations of the Skill Catalog

The operations one by one, and which of them keep the catalog coherent. An entry comes
with its name added to a shard, it changes with its name moved between shards, or it goes
with its name taken out of one. Loading an object is the operation that puts an entry in
place and leaves the shards to those who know the name already.

## Main definitions

* `WaitingWith`: What is waiting once an object has taken the place of an entry.

## Theorems

* `coherent_insert`, `coherent_replace`, `coherent_erase`: An entry comes, changes or goes.
* `coherent_discoverOne`, `coherent_addSkill`, `coherent_removeSkill`, `coherent_clear`,
  `coherent_register`, `coherent_remove`: The operations.
* `coherent_loadSkillObject`: Loading an object whose name is in the right shard.
-/

namespace DccMcp

namespace Catalog

open Actions Text

variable {δ ε η : Type}

namespace SkillCatalog

/-! ## The other operations -/

/-- An entry whose name is in the shard of its DCC and in no other one. -/
theorem indexed_place (c c' : SkillCatalog δ ε η) (name : String) (entry : SkillEntry δ)
    (h : c.Indexed) (hname : entry.metadata.name = name)
    (hlabel : ∀ other, c'.label other =
      if other = name then some (entry.metadata.name, toAsciiLowercase entry.metadata.dcc)
      else c.label other)
    (hshard : ∀ key other, other ∈ c'.shard key ↔
      (other ∈ c.shard key ∧ other ≠ name) ∨
        (other = name ∧ key = toAsciiLowercase entry.metadata.dcc)) :
    c'.Indexed where
  mem_shard key other := by
    rw [hshard, hlabel]
    by_cases hother : other = name
    · rw [if_pos hother, Option.map_some, Option.some.injEq]
      constructor
      · rintro (h' | h')
        · exact absurd hother h'.2
        · exact h'.2.symm
      · exact fun h' => .inr ⟨hother, h'.symm⟩
    · rw [if_neg hother, ← h.mem_shard key other]
      exact ⟨fun h' => h'.elim And.left (fun h' => absurd h'.1 hother), fun h' => .inl ⟨h', hother⟩⟩
  named other l hl := by
    rw [hlabel] at hl
    by_cases hother : other = name
    · rw [if_pos hother, Option.some.injEq] at hl
      rw [← hl, hother]
      exact hname
    · rw [if_neg hother] at hl
      exact h.named other l hl

variable (c : SkillCatalog δ ε η)

/-- A name without an entry is in no shard. -/
theorem Indexed.fresh (h : c.Indexed) (name key : String) (hnone : c.entries.lookup name = none) :
    name ∉ c.shard key := by
  rw [h.mem_shard, label, hnone]
  intro hsome
  cases hsome

/-- An entry is in the shard of its DCC, and in no other one. -/
theorem Indexed.placed (h : c.Indexed) (name key : String) (entry : SkillEntry δ)
    (hentry : c.entries.lookup name = some entry) :
    name ∈ c.shard key ↔ key = toAsciiLowercase entry.metadata.dcc := by
  rw [h.mem_shard, label, hentry, Option.map_some, Option.map_some, Option.some.injEq]
  exact eq_comm

theorem label_of_entries (c c' : SkillCatalog δ ε η) (h : c'.entries = c.entries) (name : String) :
    c'.label name = c.label name := by
  unfold label
  rw [h]

/-- A new entry with its name added to a shard. -/
theorem coherent_insert (entry : SkillEntry δ) (h : c.Coherent)
    (hnone : c.entries.lookup entry.metadata.name = none) (hstate : entry.state ≠ .loaded) :
    ((c.place entry.metadata.name entry).shardInsert entry.metadata.name
      entry.metadata.dcc).Coherent := by
  have hunloaded : entry.metadata.name ∉ c.loaded :=
    fun hname => h.flagged.known c _ hname hnone
  refine ⟨indexed_place c _ entry.metadata.name entry h.indexed rfl (label_place c _ · entry)
    (fun key other => ?_), flagged_place c _ entry h.flagged (iff_of_false hunloaded hstate)⟩
  rw [mem_shardInsert]
  refine or_congr_left (Iff.symm (and_iff_left_of_imp (fun hmem hother => ?_)))
  exact h.indexed.fresh c _ key hnone (hother ▸ hmem)

/-- An entry that takes the place of another one, with its name moved between shards. -/
theorem coherent_replace (old entry : SkillEntry δ) (h : c.Coherent)
    (hold : c.entries.lookup entry.metadata.name = some old)
    (hstate : old.state = .loaded ↔ entry.state = .loaded) :
    ((c.place entry.metadata.name entry).shardMove entry.metadata.name old.metadata.dcc
      entry.metadata.dcc).Coherent := by
  have hloaded : entry.metadata.name ∈ c.loaded ↔ old.state = .loaded := by
    refine (h.flagged _).trans ⟨fun ⟨entry', hentry', hstate'⟩ => ?_, fun hstate' =>
      ⟨old, hold, hstate'⟩⟩
    rw [hold, Option.some.injEq] at hentry'
    rw [hentry']
    exact hstate'
  have hmove := entries_shardMove (c.place entry.metadata.name entry) entry.metadata.name
    old.metadata.dcc entry.metadata.dcc
  refine ⟨indexed_place c _ entry.metadata.name entry h.indexed rfl (fun other => ?_)
    (fun key other => ?_), fun other => ?_⟩
  · rw [label_of_entries _ _ hmove.1, label_place]
  · have hbefore : entry.metadata.name ∈
        (c.place entry.metadata.name entry).shard (toAsciiLowercase old.metadata.dcc) :=
      (h.indexed.placed c _ _ old hold).mpr rfl
    rw [mem_shardMove _ _ _ _ key other hbefore]
    refine or_congr_left (and_congr_right (fun hmem => not_congr ⟨And.left, fun hother => ?_⟩))
    exact ⟨hother, (h.indexed.placed c _ key old hold).mp (hother ▸ hmem)⟩
  · rw [hmove.1, hmove.2]
    exact flagged_place c _ entry h.flagged (hloaded.trans hstate) other

/-- An entry goes, and its name from its shard. -/
theorem indexed_erase (name : String) (entry : SkillEntry δ) (h : c.Indexed)
    (hentry : c.entries.lookup name = some entry) :
    ({ c.shardRemove name entry.metadata.dcc with
      entries := (c.shardRemove name entry.metadata.dcc).entries.erase name } :
        SkillCatalog δ ε η).Indexed := by
  have hlabel : ∀ other, ({ c.shardRemove name entry.metadata.dcc with
      entries := (c.shardRemove name entry.metadata.dcc).entries.erase name } :
        SkillCatalog δ ε η).label other = if other = name then none else c.label other := by
    intro other
    unfold label
    dsimp only
    rw [OrderedMap.lookup_erase, (entries_shardRemove c name entry.metadata.dcc).1]
    by_cases hother : other = name
    · rw [if_pos hother, if_pos hother, Option.map_none]
    · rw [if_neg hother, if_neg hother]
  have hshard := mem_shardRemove c name entry.metadata.dcc
  refine ⟨fun key other => (hshard key other).trans ?_, fun other l hl => ?_⟩
  · rw [hlabel]
    by_cases hother : other = name
    · rw [if_pos hother, hother, h.placed c name key entry hentry]
      exact iff_of_false (fun hboth => hboth.2 ⟨rfl, hboth.1⟩) (fun hsome => by cases hsome)
    · rw [if_neg hother, ← h.mem_shard key other]
      exact and_iff_left (fun hboth => hother hboth.1)
  · rw [hlabel] at hl
    by_cases hother : other = name
    · rw [if_pos hother] at hl
      cases hl
    · rw [if_neg hother] at hl
      exact h.named other l hl

/-- Erasing an entry that is not loaded, by either of the two operations. -/
theorem coherent_erase (name : String) (entry : SkillEntry δ) (h : c.Coherent)
    (hentry : c.entries.lookup name = some entry) (hunloaded : name ∉ c.loaded) :
    ({ c.shardRemove name entry.metadata.dcc with
      entries := (c.shardRemove name entry.metadata.dcc).entries.erase name } :
        SkillCatalog δ ε η).refreshDependencyStates.Coherent := by
  have hremove := entries_shardRemove c name entry.metadata.dcc
  refine ⟨indexed_refreshDependencyStates _ (indexed_erase c name entry h.indexed hentry),
    flagged_refreshDependencyStates _ (fun other hother => ?_)⟩
  dsimp only at hother ⊢
  rw [hremove.2] at hother
  have hne : other ≠ name := by
    intro heq
    rw [heq] at hother
    exact hunloaded hother
  rw [OrderedMap.lookup_erase, hremove.1, if_neg hne]
  exact h.flagged.known c other hother

theorem coherent_remove (key : String) (h : c.Coherent) (hunloaded : key ∉ c.loaded) :
    (c.remove key).Coherent := by
  unfold remove
  split
  next => exact h
  next entry hentry => exact coherent_erase c key entry h hentry hunloaded

theorem coherent_removeSkill (c : SkillCatalog δ ε η) (skillName : String) (h : c.Coherent) :
    (c.removeSkill skillName).Coherent := by
  have hunload := coherent_unloadSkill c skillName h
  unfold removeSkill
  dsimp only
  split
  next => exact hunload
  next entry hentry =>
    exact coherent_erase _ skillName entry hunload hentry
      (fun hname => ((mem_loaded_unloadSkill c skillName skillName).mp hname).2 rfl)

theorem coherent_discoverOne (scope : SkillScope) (c : SkillCatalog δ ε η)
    (skill : SkillMetadata δ × SkillPathSource) (h : c.Coherent) :
    (discoverOne scope c skill).Coherent := by
  unfold discoverOne
  split
  next => exact h
  next hnone =>
    exact coherent_insert c (found skill.1 scope skill.2) h hnone SkillState.noConfusion

theorem coherent_addSkill (c : SkillCatalog δ ε η) (metadata : SkillMetadata δ) (h : c.Coherent) :
    (c.addSkill metadata).Coherent := by
  unfold addSkill
  refine coherent_refreshDependencyStates _ ?_
  split
  next hnone =>
    exact coherent_insert c (found metadata .repo .unknown) h hnone SkillState.noConfusion
  next old hold =>
    split
    next => exact h
    next hstate =>
      exact coherent_replace c old { old with metadata := metadata, state := .discovered } h hold
        (iff_of_false hstate SkillState.noConfusion)

theorem loaded_foldl_unloadSkill (names : List String) (c : SkillCatalog δ ε η) (name : String)
    (hmem : name ∈ (names.foldl (fun acc name => (acc.unloadSkill name).1) c).loaded) :
    name ∈ c.loaded ∧ name ∉ names := by
  induction names generalizing c with
  | nil => exact ⟨hmem, List.not_mem_nil⟩
  | cons first rest ih =>
      rcases ih (c.unloadSkill first).1 hmem with ⟨hloaded, hrest⟩
      rw [mem_loaded_unloadSkill] at hloaded
      refine ⟨hloaded.1, fun hname => ?_⟩
      rcases List.mem_cons.mp hname with hname | hname
      · exact hloaded.2 hname
      · exact hrest hname

theorem coherent_clear : c.clear.Coherent where
  indexed :=
    { mem_shard := fun key name => ⟨fun h => absurd h List.not_mem_nil, fun h => by cases h⟩
      named := fun name l h => by cases h }
  flagged name := by
    -- Every loaded skill is unloaded first.
    refine iff_of_false (fun hmem => ?_) (fun ⟨_, hentry, _⟩ => by cases hentry)
    have hboth := loaded_foldl_unloadSkill c.loaded c name hmem
    exact hboth.2 hboth.1

theorem coherent_register (c : SkillCatalog δ ε η) (entry : SkillEntry δ) (h : c.Coherent) :
    (c.register entry).Coherent := by
  unfold register
  dsimp only
  -- The name is out of every shard before it goes into its own.
  have hcleared : ∀ cleared : SkillCatalog δ ε η, cleared.entries = c.entries →
      cleared.loaded = c.loaded →
      (∀ key other, other ∈ cleared.shard key ↔ other ∈ c.shard key ∧ other ≠ entry.metadata.name) →
      ((cleared.place entry.metadata.name entry).shardInsert entry.metadata.name
        entry.metadata.dcc).refreshDependencyStates.Coherent := by
    intro cleared hentries hloaded hshard
    refine ⟨indexed_refreshDependencyStates _ (indexed_place c _ entry.metadata.name entry h.indexed
      rfl (fun other => ?_) (fun key other => ?_)), flagged_refreshDependencyStates _
        (fun other hother => ?_)⟩
    · have hplace := label_place cleared entry.metadata.name other entry
      rw [label_of_entries c cleared hentries] at hplace
      exact hplace
    · rw [mem_shardInsert]
      exact or_congr_left (hshard key other)
    · have hplace := lookup_place cleared entry.metadata.name other entry
      have hother' : other ∈ cleared.loaded := hother
      rw [hloaded] at hother'
      refine fun hnone => ?_
      rw [show ((cleared.place entry.metadata.name entry).shardInsert entry.metadata.name
        entry.metadata.dcc).entries.lookup other = _ from hplace, hentries] at hnone
      split at hnone
      next => cases hnone
      next => exact h.flagged.known c other hother' hnone
  split
  next hnone =>
    refine hcleared c rfl rfl (fun key other => Iff.symm (and_iff_left_of_imp fun hmem heq => ?_))
    exact h.indexed.fresh c _ key hnone (heq ▸ hmem)
  next old hold =>
    have hremove := entries_shardRemove c entry.metadata.name old.metadata.dcc
    refine hcleared _ hremove.1 hremove.2 (fun key other => ?_)
    rw [mem_shardRemove]
    refine and_congr_right (fun hmem => not_congr ⟨And.left, fun hother => ⟨hother, ?_⟩⟩)
    exact (h.indexed.placed c _ key old hold).mp (hother ▸ hmem)

theorem coherent_loadSkillRecursive (host : Host δ ε η) (activateGroups : Bool) (fuel : Nat)
    (targetGroup : Option String) (c : SkillCatalog δ ε η) (name : String) (h : c.Coherent)
    (hkeeps : KeepsDcc host c.Waiting) :
    (loadSkillRecursive host activateGroups fuel [] targetGroup c name).1.Coherent :=
  (loads_loadSkillRecursive host activateGroups fuel [] targetGroup c name hkeeps).coherent host c
    _ h

/-- What is waiting once an object has taken the place of an entry: the object, and what
    was waiting before under another name. -/
def WaitingWith (c : SkillCatalog δ ε η) (object : SkillMetadata δ) (name : String)
    (metadata : SkillMetadata δ) : Prop :=
  if name = object.name then metadata = object else c.Waiting name metadata

theorem coherent_loadSkillObject (host : Host δ ε η) (c : SkillCatalog δ ε η)
    (metadata : SkillMetadata δ) (h : c.Coherent)
    (hrepaired : Text.trim metadata.name = "" ∨
      ((c.label metadata.name).map Prod.snd = some (toAsciiLowercase metadata.dcc) ∧
        KeepsDcc host (c.WaitingWith metadata))) :
    (loadSkillObject host c metadata).1.Coherent := by
  unfold loadSkillObject
  split
  next => exact h
  next hname =>
    rcases hrepaired with hempty | ⟨hdcc, hkeeps⟩
    · exact absurd hempty hname
    · have hunload := coherent_unloadSkill c metadata.name h
      have hlabel := label_of_metadata c _ metadata.name
        (lookup_unloadSkill c metadata.name metadata.name)
      rcases Option.map_eq_some_iff.mp hdcc with ⟨l, hl, hkey⟩
      have hgone : metadata.name ∉ (c.unloadSkill metadata.name).1.loaded := fun hmem =>
        ((mem_loaded_unloadSkill c metadata.name metadata.name).mp hmem).2 rfl
      dsimp only
      refine coherent_loadSkillRecursive host true _ none _ metadata.name
        (coherent_refreshDependencyStates _ ⟨?_, flagged_place _ _ _ hunload.flagged
          (iff_of_false hgone SkillState.noConfusion)⟩) ?_
      · -- The entry has the DCC that the shards have it under.
        refine hunload.indexed.congr (c.unloadSkill metadata.name).1 _ rfl (fun other => ?_)
        rw [label_place]
        by_cases hother : other = metadata.name
        · rw [if_pos hother, hother, hlabel, hl, ← hkey]
          exact congrArg (fun first => some (first, l.2)) (h.indexed.named metadata.name l hl).symm
        · rw [if_neg hother]
      · rintro name m m' ⟨hunloaded, hlookup⟩ htransform
        refine hkeeps name m m' ?_ htransform
        rw [lookup_refreshDependencyStates, Option.map_map, lookup_place] at hlookup
        unfold WaitingWith
        by_cases hother : name = metadata.name
        · rw [if_pos hother] at hlookup ⊢
          exact (Option.some.inj hlookup).symm
        · rw [if_neg hother] at hlookup ⊢
          refine ⟨fun hmem => hunloaded ((mem_loaded_unloadSkill c _ name).mpr ⟨hmem, hother⟩), ?_⟩
          rw [← lookup_unloadSkill c metadata.name name]
          exact hlookup

end SkillCatalog

end Catalog

end DccMcp
