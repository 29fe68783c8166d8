import DccMcp.Actions.Registry
import DccMcp.Actions.Versions

/-!
# The Versioned Registry

Several versions of one action, and the router that picks one of them for a
constraint. The registry keeps a list for each action, in ascending order. A
version that is there is overwritten in its place, and a new one is pushed to
the end and the list sorted again; the router searches the list from the end.

A list in ascending order without duplicates is the list of a finite map from
versions, and this is the whole argument. Registering is inserting into the
map, removing is dropping the keys that match, and the last entry that matches
is the one with the greatest key. So what the registry holds after any calls is
said by one fold over the calls, for each version separately.

A name whose versions are all removed keeps its place among the keys.

## Main definitions

* `Release`, `VersionedRegistry`: What the registry holds.
* `VersionedRegistry.register`, `remove`, `versions`, `get`, `latest`, `keys`,
  `resolve`, `resolveAll`: The operations and the router.
* `Op`, `VersionedRegistry.run`: Calls, and a registry after them.
* `latestOf`: What the calls say about one version.
* `releases`: The finite map of an action.

## Theorems

* `registry_routes`: What every query answers after any calls.
* `removed_action_listed`: An action without versions that is still listed.
-/

namespace DccMcp

namespace Versioned

/-! ## Entries in ascending order -/

section Entries

variable {κ ν : Type} [LinearOrder κ]

/-- The first entry of a key with another value. -/
def replaceFirst (key : κ) (value : ν) : List (κ × ν) → List (κ × ν)
  | [] => []
  | entry :: rest =>
    if entry.1 = key then (entry.1, value) :: rest else entry :: replaceFirst key value rest

/-- The list of an action with one more version: overwritten in place, or
    pushed to the end and sorted. -/
def place (key : κ) (value : ν) (entries : List (κ × ν)) : List (κ × ν) :=
  if entries.any (fun entry => entry.1 = key) then replaceFirst key value entries
  else (entries ++ [(key, value)]).mergeSort (fun a b => decide (a.1 ≤ b.1))

theorem replaceFirst_sorted (key : κ) (value : ν) (entries : List (κ × ν))
    (hsorted : entries.Pairwise (fun a b => a.1 < b.1)) (hmem : ∃ entry ∈ entries, entry.1 = key) :
    replaceFirst key value entries = OrderedMap.insertIn key value entries := by
  induction entries with
  | nil =>
      rcases hmem with ⟨entry, hentry, _⟩
      exact absurd hentry List.not_mem_nil
  | cons first rest ih =>
      rw [List.pairwise_cons] at hsorted
      unfold replaceFirst OrderedMap.insertIn
      by_cases hfirst : first.1 = key
      · rw [if_pos hfirst, hfirst, if_neg (lt_irrefl key), if_pos rfl]
      · have hrest : ∃ entry ∈ rest, entry.1 = key := by
          rcases hmem with ⟨entry, hentry, hkey⟩
          rcases List.mem_cons.mp hentry with rfl | hentry
          · exact absurd hkey hfirst
          · exact ⟨entry, hentry, hkey⟩
        -- The key is further on, so it is greater.
        have hlt : ¬key < first.1 := by
          rcases hrest with ⟨entry, hentry, hkey⟩
          rw [← hkey]
          exact lt_asymm (hsorted.1 entry hentry)
        rw [if_neg hfirst, if_neg hlt, if_neg (Ne.symm hfirst), ih hsorted.2 hrest]

theorem keys_replaceFirst (key : κ) (value : ν) (entries : List (κ × ν)) :
    (replaceFirst key value entries).map Prod.fst = entries.map Prod.fst := by
  induction entries with
  | nil => rfl
  | cons first rest ih =>
      unfold replaceFirst
      split
      next => rfl
      next => rw [List.map_cons, List.map_cons, ih]

/-- A key that is there keeps its place. -/
theorem keys_insert_of_lookup (m : OrderedMap κ ν) (key : κ) (value stored : ν)
    (h : m.lookup key = some stored) :
    (m.insert key value).entries.map Prod.fst = m.entries.map Prod.fst := by
  have hmem := OrderedMap.mem_entries m key stored h
  show (OrderedMap.insertIn key value m.entries).map Prod.fst = _
  rw [← replaceFirst_sorted key value m.entries m.sorted ⟨_, hmem, rfl⟩, keys_replaceFirst]

theorem insertIn_perm (key : κ) (value : ν) (entries : List (κ × ν))
    (h : ∀ entry ∈ entries, entry.1 ≠ key) :
    (OrderedMap.insertIn key value entries).Perm ((key, value) :: entries) := by
  induction entries with
  | nil => exact List.Perm.refl _
  | cons first rest ih =>
      unfold OrderedMap.insertIn
      split
      next => exact List.Perm.refl _
      next =>
        rw [if_neg (Ne.symm (h first List.mem_cons_self))]
        have hrest := ih (fun entry hentry => h entry (List.mem_cons_of_mem first hentry))
        exact (hrest.cons first).trans (List.Perm.swap _ _ _)

/-- Sorting a list with a new key at its end puts the key in its place. -/
theorem mergeSort_push (key : κ) (value : ν) (entries : List (κ × ν))
    (hsorted : entries.Pairwise (fun a b => a.1 < b.1)) (h : ∀ entry ∈ entries, entry.1 ≠ key) :
    (entries ++ [(key, value)]).mergeSort (fun a b => decide (a.1 ≤ b.1)) =
      OrderedMap.insertIn key value entries := by
  have hinsert := OrderedMap.sorted_insertIn key value entries hsorted
  have hperm : (entries ++ [(key, value)]).Perm (OrderedMap.insertIn key value entries) :=
    List.perm_append_comm.trans (insertIn_perm key value entries h).symm
  have hperm' := (List.mergeSort_perm _ (fun a b => decide (a.1 ≤ b.1))).trans hperm
  have hordered : (entries ++ [(key, value)]).mergeSort (fun a b => decide (a.1 ≤ b.1))
      |>.Pairwise (fun a b => a.1 ≤ b.1) := by
    refine (List.pairwise_mergeSort ?_ ?_ _).imp of_decide_eq_true
    · intro a b c hab hbc
      exact decide_eq_true ((of_decide_eq_true hab).trans (of_decide_eq_true hbc))
    · intro a b
      rw [Bool.or_eq_true, decide_eq_true_eq, decide_eq_true_eq]
      exact le_total a.1 b.1
  -- Two lists in order with the same members are the same.
  refine List.Perm.eq_of_pairwise ?_ hordered (hinsert.imp le_of_lt) hperm'
  intro a b ha hb hab hba
  have hfound := OrderedMap.lookupIn_of_mem a.1 a.2 _ hinsert (hperm'.mem_iff.mp ha)
  rw [le_antisymm hab hba, OrderedMap.lookupIn_of_mem b.1 b.2 _ hinsert hb] at hfound
  exact Prod.ext (le_antisymm hab hba) (Option.some.inj hfound).symm

/-- Registering is inserting into the map. -/
theorem place_entries (m : OrderedMap κ ν) (key : κ) (value : ν) :
    place key value m.entries = (m.insert key value).entries := by
  unfold place
  split
  next hany =>
    rcases List.any_eq_true.mp hany with ⟨entry, hentry, hkey⟩
    exact replaceFirst_sorted key value m.entries m.sorted
      ⟨entry, hentry, of_decide_eq_true hkey⟩
  next hnone =>
    refine mergeSort_push key value m.entries m.sorted (fun entry hentry hkey => hnone ?_)
    exact List.any_eq_true.mpr ⟨entry, hentry, decide_eq_true hkey⟩

/-- The first entry with a key. -/
theorem find?_entries (key : κ) (entries : List (κ × ν)) :
    (entries.find? (fun entry => entry.1 = key)).map Prod.snd =
      OrderedMap.lookupIn key entries := by
  induction entries with
  | nil => rfl
  | cons first rest ih =>
      rw [OrderedMap.lookupIn]
      by_cases hfirst : first.1 = key
      · rw [List.find?_cons, decide_eq_true hfirst, if_pos hfirst.symm]
        rfl
      · rw [List.find?_cons, decide_eq_false hfirst, if_neg (Ne.symm hfirst)]
        exact ih

/-- The keys of a map with a property. -/
def keysWhere (p : κ → Bool) (m : OrderedMap κ ν) : Set κ :=
  {key | key ∈ m.entries.map Prod.fst ∧ p key = true}

theorem find?_reverse_greatest (p : κ → Bool) (m : OrderedMap κ ν) (entry : κ × ν)
    (h : m.entries.reverse.find? (fun entry => p entry.1) = some entry) :
    IsGreatest (keysWhere p m) entry.1 ∧ m.lookup entry.1 = some entry.2 := by
  have hmem : entry ∈ m.entries := List.mem_reverse.mp (List.mem_of_find?_eq_some h)
  rw [List.find?_eq_some_iff_append] at h
  rcases h with ⟨hp, behind, front, hsplit, hbehind⟩
  refine ⟨⟨⟨List.mem_map_of_mem hmem, hp⟩, ?_⟩, m.lookup_of_mem entry.1 entry.2 hmem⟩
  rintro key ⟨hkey, hpkey⟩
  rcases List.mem_map.mp hkey with ⟨other, hother, rfl⟩
  have hsorted := List.pairwise_reverse.mpr m.sorted
  rw [hsplit, List.pairwise_append, List.pairwise_cons] at hsorted
  rw [← List.mem_reverse, hsplit, List.mem_append, List.mem_cons] at hother
  -- Nothing that was passed over matches, and what is in front is smaller.
  rcases hother with hother | rfl | hother
  · have hnot := hbehind other hother
    rw [hpkey] at hnot
    cases hnot
  · exact le_refl _
  · exact le_of_lt (hsorted.2.1.1 other hother)

/-- The last entry whose key has a property has the greatest such key. -/
theorem find?_reverse_entries (p : κ → Bool) (m : OrderedMap κ ν) (value : ν) :
    (m.entries.reverse.find? (fun entry => p entry.1)).map Prod.snd = some value ↔
      ∃ key, IsGreatest (keysWhere p m) key ∧ m.lookup key = some value := by
  constructor
  · intro h
    rcases Option.map_eq_some_iff.mp h with ⟨entry, hfind, rfl⟩
    exact ⟨entry.1, find?_reverse_greatest p m entry hfind⟩
  · rintro ⟨key, hgreatest, hlookup⟩
    have hmem := OrderedMap.mem_entries m key value hlookup
    cases hfind : m.entries.reverse.find? (fun entry => p entry.1) with
    | none =>
        have hnot := List.find?_eq_none.mp hfind (key, value) (List.mem_reverse.mpr hmem)
        exact absurd hgreatest.1.2 hnot
    | some entry =>
        have hentry := find?_reverse_greatest p m entry hfind
        rw [hgreatest.unique hentry.1, hentry.2] at hlookup
        exact hlookup

/-- No entry is found exactly when no key has the property. -/
theorem find?_reverse_eq_none (p : κ → Bool) (m : OrderedMap κ ν) :
    (m.entries.reverse.find? (fun entry => p entry.1)).map Prod.snd = none ↔
      ∀ key ∈ m.entries.map Prod.fst, p key = false := by
  rw [Option.map_eq_none_iff, List.find?_eq_none]
  constructor
  · intro h key hkey
    rcases List.mem_map.mp hkey with ⟨entry, hentry, rfl⟩
    exact Bool.eq_false_iff.mpr (h entry (List.mem_reverse.mpr hentry))
  · intro h entry hentry
    exact Bool.eq_false_iff.mp (h _ (List.mem_map_of_mem (List.mem_reverse.mp hentry)))

end Entries

/-! ## The registry -/

/-- What the registry reads of a tool besides its name: the version. -/
structure Release (δ : Type) where
  version : String
  details : δ
  deriving DecidableEq

variable {δ : Type}

/-- The metadata of one version of an action. -/
abbrev ToolMeta (δ : Type) := Actions.ToolMeta (Release δ)

/-- The version a tool is registered under. A text that is no version counts
    as the lowest one. -/
def ToolMeta.semVer (tool : ToolMeta δ) : SemVer :=
  (SemVer.parse tool.details.version).toOption.getD ⟨0, 0, 0⟩

/-- The registry: a list for each action, which is a name and a DCC. -/
structure VersionedRegistry (δ : Type) where
  store : OrderedMap (String ×ₗ String) (List (SemVer × ToolMeta δ))

namespace VersionedRegistry

variable (δ) in
def new : VersionedRegistry δ := ⟨.empty _ _⟩

/-- The list of an action, which is empty where there is none. -/
def entriesOf (r : VersionedRegistry δ) (name dcc : String) : List (SemVer × ToolMeta δ) :=
  (r.store.lookup (toLex (name, dcc))).getD []

def register (r : VersionedRegistry δ) (tool : ToolMeta δ) : VersionedRegistry δ :=
  ⟨r.store.insert (toLex (tool.name, tool.dcc))
    (place tool.semVer tool (r.entriesOf tool.name tool.dcc))⟩

/-- `remove`, which answers how many versions were removed. -/
def remove (r : VersionedRegistry δ) (name dcc : String) (c : VersionConstraint) :
    Nat × VersionedRegistry δ :=
  match r.store.lookup (toLex (name, dcc)) with
  | none => (0, r)
  | some entries =>
    let kept := entries.filter (fun entry => !c.matchesVersion entry.1)
    (entries.length - kept.length, ⟨r.store.insert (toLex (name, dcc)) kept⟩)

def versions (r : VersionedRegistry δ) (name dcc : String) : List SemVer :=
  (r.entriesOf name dcc).map Prod.fst

def get (r : VersionedRegistry δ) (name dcc : String) (version : SemVer) : Option (ToolMeta δ) :=
  ((r.entriesOf name dcc).find? (fun entry => entry.1 = version)).map Prod.snd

def latest (r : VersionedRegistry δ) (name dcc : String) : Option (ToolMeta δ) :=
  (r.entriesOf name dcc).getLast?.map Prod.snd

def keys (r : VersionedRegistry δ) : List (String × String) :=
  (r.store.entries.map Prod.fst).map ofLex

/-- `CompatibilityRouter::resolve`. The list is searched from its end. -/
def resolve (r : VersionedRegistry δ) (name dcc : String) (c : VersionConstraint) :
    Option (ToolMeta δ) :=
  ((r.entriesOf name dcc).reverse.find? (fun entry => c.matchesVersion entry.1)).map Prod.snd

def resolveAll (r : VersionedRegistry δ) (name dcc : String) (c : VersionConstraint) :
    List (ToolMeta δ) :=
  ((r.entriesOf name dcc).filter (fun entry => c.matchesVersion entry.1)).map Prod.snd

end VersionedRegistry

/-- A call that changes the registry. -/
inductive Op (δ : Type) where
  | register (tool : ToolMeta δ)
  | remove (name dcc : String) (c : VersionConstraint)

namespace VersionedRegistry

def apply (r : VersionedRegistry δ) : Op δ → VersionedRegistry δ
  | .register tool => r.register tool
  | .remove name dcc c => (r.remove name dcc c).2

/-- The registry after some calls. -/
def run (ops : List (Op δ)) : VersionedRegistry δ := ops.foldl apply (new δ)

end VersionedRegistry

/-- What one call makes of what is stored for a version. -/
def Op.after (name dcc : String) (v : SemVer) (stored : Option (ToolMeta δ)) :
    Op δ → Option (ToolMeta δ)
  | .register tool =>
    if tool.name = name ∧ tool.dcc = dcc ∧ tool.semVer = v then some tool else stored
  | .remove name' dcc' c =>
    if name' = name ∧ dcc' = dcc ∧ c.matchesVersion v then none else stored

/-- What the calls say about one version: the tool of the last registration of
    it, unless a later call removed it. -/
def latestOf (ops : List (Op δ)) (name dcc : String) (v : SemVer) : Option (ToolMeta δ) :=
  ops.foldl (Op.after name dcc v) none

/-- What one call makes of the finite map of an action. -/
def Op.update (name dcc : String) (m : OrderedMap SemVer (ToolMeta δ)) :
    Op δ → OrderedMap SemVer (ToolMeta δ)
  | .register tool => if tool.name = name ∧ tool.dcc = dcc then m.insert tool.semVer tool else m
  | .remove name' dcc' c =>
    if name' = name ∧ dcc' = dcc then m.retain (fun v _ => !c.matchesVersion v) else m

/-- The finite map of an action after some calls. -/
def releases (ops : List (Op δ)) (name dcc : String) : OrderedMap SemVer (ToolMeta δ) :=
  ops.foldl (Op.update name dcc) (.empty _ _)

/-! ## What a call does -/

section Calls

variable (r : VersionedRegistry δ) (name dcc : String)

theorem key_inj (name' dcc' : String) :
    toLex (name, dcc) = toLex (name', dcc') ↔ name' = name ∧ dcc' = dcc := by
  rw [toLex_inj, Prod.mk.injEq, eq_comm, @eq_comm _ dcc]

theorem entriesOf_register (tool : ToolMeta δ) :
    (r.register tool).entriesOf name dcc =
      if tool.name = name ∧ tool.dcc = dcc then place tool.semVer tool (r.entriesOf name dcc)
      else r.entriesOf name dcc := by
  unfold VersionedRegistry.register
  split
  next hkey =>
    rw [hkey.1, hkey.2, VersionedRegistry.entriesOf, OrderedMap.lookup_insert, Option.getD_some]
  next hkey =>
    rw [VersionedRegistry.entriesOf, OrderedMap.lookup_insert_ne, VersionedRegistry.entriesOf]
    exact fun h => hkey ((key_inj name dcc tool.name tool.dcc).mp h)

theorem entriesOf_remove (name' dcc' : String) (c : VersionConstraint) :
    (r.remove name' dcc' c).2.entriesOf name dcc =
      if name' = name ∧ dcc' = dcc then
        (r.entriesOf name dcc).filter (fun entry => !c.matchesVersion entry.1)
      else r.entriesOf name dcc := by
  unfold VersionedRegistry.remove
  split
  next hnone =>
    split
    next hkey =>
      rw [hkey.1, hkey.2] at hnone
      rw [VersionedRegistry.entriesOf, hnone]
      rfl
    next => rfl
  next entries hentries =>
    split
    next hkey =>
      rw [hkey.1, hkey.2] at hentries ⊢
      rw [VersionedRegistry.entriesOf, OrderedMap.lookup_insert, VersionedRegistry.entriesOf,
        hentries, Option.getD_some, Option.getD_some]
    next hkey =>
      rw [VersionedRegistry.entriesOf, OrderedMap.lookup_insert_ne, VersionedRegistry.entriesOf]
      exact fun h => hkey ((key_inj name dcc name' dcc').mp h)

/-- How many versions a removal reports. -/
theorem fst_remove (c : VersionConstraint) :
    (r.remove name dcc c).1 = ((r.versions name dcc).filter c.matchesVersion).length := by
  have hcount : ∀ entries : List (SemVer × ToolMeta δ),
      entries.length - (entries.filter (fun entry => !c.matchesVersion entry.1)).length =
        ((entries.map Prod.fst).filter c.matchesVersion).length := by
    intro entries
    have hsum := List.length_eq_length_filter_add (l := entries)
      (fun entry => c.matchesVersion entry.1)
    rw [List.filter_map, List.length_map]
    exact Nat.sub_eq_of_eq_add hsum
  unfold VersionedRegistry.remove VersionedRegistry.versions VersionedRegistry.entriesOf
  split
  next hnone =>
    rw [hnone]
    rfl
  next entries hentries =>
    rw [hentries]
    exact hcount entries

/-- A key that is there stays, with whatever list. -/
theorem keys_remove (c : VersionConstraint) : (r.remove name dcc c).2.keys = r.keys := by
  unfold VersionedRegistry.remove
  split
  next => rfl
  next entries hentries =>
    exact congrArg (List.map ofLex) (keys_insert_of_lookup _ _ _ entries hentries)

end Calls

/-! ## What the registry holds after any calls -/

theorem entriesOf_foldl (name dcc : String) (ops : List (Op δ)) (r : VersionedRegistry δ)
    (m : OrderedMap SemVer (ToolMeta δ)) (h : r.entriesOf name dcc = m.entries) :
    (ops.foldl VersionedRegistry.apply r).entriesOf name dcc =
      (ops.foldl (Op.update name dcc) m).entries := by
  induction ops generalizing r m with
  | nil => exact h
  | cons op ops ih =>
      refine ih _ _ ?_
      cases op with
      | register tool =>
          rw [VersionedRegistry.apply, entriesOf_register, Op.update, h, place_entries]
          split
          next => rfl
          next => rfl
      | remove name' dcc' c =>
          rw [VersionedRegistry.apply, entriesOf_remove, Op.update, h]
          split
          next => rfl
          next => rfl

/-- The list of an action is the list of its map. -/
theorem entriesOf_run (ops : List (Op δ)) (name dcc : String) :
    (VersionedRegistry.run ops).entriesOf name dcc = (releases ops name dcc).entries :=
  entriesOf_foldl name dcc ops _ _ rfl

theorem lookup_foldl (name dcc : String) (v : SemVer) (ops : List (Op δ))
    (m : OrderedMap SemVer (ToolMeta δ)) :
    (ops.foldl (Op.update name dcc) m).lookup v =
      ops.foldl (Op.after name dcc v) (m.lookup v) := by
  induction ops generalizing m with
  | nil => rfl
  | cons op ops ih =>
      rw [List.foldl_cons, ih, List.foldl_cons]
      congr 1
      cases op with
      | register tool =>
          rw [Op.update, Op.after]
          by_cases hkey : tool.name = name ∧ tool.dcc = dcc
          · rw [if_pos hkey]
            by_cases hv : tool.semVer = v
            · rw [if_pos ⟨hkey.1, hkey.2, hv⟩, ← hv, OrderedMap.lookup_insert]
            · rw [if_neg (fun h => hv h.2.2), OrderedMap.lookup_insert_ne _ _ _ _ (Ne.symm hv)]
          · rw [if_neg hkey, if_neg (fun h => hkey ⟨h.1, h.2.1⟩)]
      | remove name' dcc' c =>
          rw [Op.update, Op.after]
          by_cases hkey : name' = name ∧ dcc' = dcc
          · rw [if_pos hkey, OrderedMap.lookup_retain]
            by_cases hmatch : c.matchesVersion v = true
            · rw [if_pos ⟨hkey.1, hkey.2, hmatch⟩, hmatch]
              exact Option.filter_eq_none_iff.mpr (fun _ _ => Bool.false_ne_true)
            · rw [if_neg (fun h => hmatch h.2.2), Bool.eq_false_iff.mpr hmatch]
              cases m.lookup v with
              | none => rfl
              | some tool => rfl
          · rw [if_neg hkey, if_neg (fun h => hkey ⟨h.1, h.2.1⟩)]

/-- The map holds what the calls say. -/
theorem lookup_releases (ops : List (Op δ)) (name dcc : String) (v : SemVer) :
    (releases ops name dcc).lookup v = latestOf ops name dcc v := lookup_foldl name dcc v ops _

/-! ## The queries -/

/-- What the queries about an action answer, given what is stored for each of
    its versions. -/
structure Answers (r : VersionedRegistry δ) (name dcc : String)
    (stored : SemVer → Option (ToolMeta δ)) : Prop where
  ascending : (r.versions name dcc).Pairwise (· < ·)
  mem_versions : ∀ v, v ∈ r.versions name dcc ↔ (stored v).isSome = true
  get : ∀ v, r.get name dcc v = stored v
  /-- The greatest version that matches, if there is one. -/
  resolve : ∀ c tool, r.resolve name dcc c = some tool ↔
    ∃ v, IsGreatest {v | v ∈ r.versions name dcc ∧ c.matchesVersion v = true} v ∧
      stored v = some tool
  resolve_none : ∀ c, r.resolve name dcc c = none ↔
    ∀ v ∈ r.versions name dcc, c.matchesVersion v = false
  /-- The versions that match, in their order. -/
  resolveAll : ∀ c, (r.resolveAll name dcc c).map some =
    ((r.versions name dcc).filter c.matchesVersion).map stored
  latest : ∀ tool, r.latest name dcc = some tool ↔
    ∃ v, IsGreatest {v | v ∈ r.versions name dcc} v ∧ stored v = some tool
  latest_none : r.latest name dcc = none ↔ r.versions name dcc = []

theorem latest_eq_resolve (r : VersionedRegistry δ) (name dcc : String) :
    r.latest name dcc = r.resolve name dcc .any := by
  unfold VersionedRegistry.latest VersionedRegistry.resolve
  rw [List.getLast?_eq_head?_reverse]
  cases (r.entriesOf name dcc).reverse with
  | nil => rfl
  | cons entry rest => rfl

/-- A list that is the list of a map answers with what the map holds. -/
theorem answers_of_entries (r : VersionedRegistry δ) (name dcc : String)
    (m : OrderedMap SemVer (ToolMeta δ)) (h : r.entriesOf name dcc = m.entries) :
    Answers r name dcc m.lookup := by
  have hversions : r.versions name dcc = m.entries.map Prod.fst := by
    rw [VersionedRegistry.versions, h]
  have hresolve : ∀ c tool, r.resolve name dcc c = some tool ↔
      ∃ v, IsGreatest {v | v ∈ r.versions name dcc ∧ c.matchesVersion v = true} v ∧
        m.lookup v = some tool := by
    intro c tool
    rw [VersionedRegistry.resolve, h, hversions]
    exact find?_reverse_entries c.matchesVersion m tool
  have hnone : ∀ c, r.resolve name dcc c = none ↔
      ∀ v ∈ r.versions name dcc, c.matchesVersion v = false := by
    intro c
    rw [VersionedRegistry.resolve, h, hversions]
    exact find?_reverse_eq_none c.matchesVersion m
  constructor
  case ascending =>
    rw [hversions]
    exact List.pairwise_map.mpr m.sorted
  case mem_versions =>
    intro v
    rw [hversions, Option.isSome_iff_exists]
    constructor
    · intro hmem
      rcases List.mem_map.mp hmem with ⟨entry, hentry, rfl⟩
      exact ⟨entry.2, m.lookup_of_mem entry.1 entry.2 hentry⟩
    · rintro ⟨tool, htool⟩
      exact List.mem_map_of_mem (m.mem_entries v tool htool)
  case get =>
    intro v
    rw [VersionedRegistry.get, h]
    show _ = OrderedMap.lookupIn v m.entries
    convert find?_entries v m.entries
  case resolve => exact hresolve
  case resolve_none => exact hnone
  case resolveAll =>
    intro c
    rw [VersionedRegistry.resolveAll, h, hversions, List.filter_map, List.map_map, List.map_map]
    refine List.map_congr_left (fun entry hentry => ?_)
    have hmem := (List.mem_filter.mp hentry).1
    exact (m.lookup_of_mem entry.1 entry.2 hmem).symm
  case latest =>
    intro tool
    have hany : {v | v ∈ r.versions name dcc ∧ VersionConstraint.any.matchesVersion v = true} =
        {v | v ∈ r.versions name dcc} := Set.ext (fun v => and_iff_left rfl)
    rw [latest_eq_resolve, hresolve, hany]
  case latest_none =>
    rw [latest_eq_resolve, hnone, List.eq_nil_iff_forall_not_mem]
    exact forall_congr' (fun v => ⟨fun h hmem => Bool.noConfusion (h hmem),
      fun h hmem => absurd hmem h⟩)

/-- After any calls the queries answer with the latest tool of each version. A
    removal takes away exactly the versions that match, of this action only,
    and the action stays listed. -/
theorem registry_routes (ops : List (Op δ)) (name dcc : String) :
    Answers (VersionedRegistry.run ops) name dcc (latestOf ops name dcc) ∧
      ∀ c, ((VersionedRegistry.run ops).remove name dcc c).1 =
          (((VersionedRegistry.run ops).versions name dcc).filter c.matchesVersion).length ∧
        Answers ((VersionedRegistry.run ops).remove name dcc c).2 name dcc
          (fun v => if c.matchesVersion v = true then none else latestOf ops name dcc v) ∧
        ((VersionedRegistry.run ops).remove name dcc c).2.versions name dcc =
          ((VersionedRegistry.run ops).versions name dcc).filter (fun v => !c.matchesVersion v) ∧
        (∀ name' dcc', ¬(name = name' ∧ dcc = dcc') →
          ((VersionedRegistry.run ops).remove name dcc c).2.entriesOf name' dcc' =
            (VersionedRegistry.run ops).entriesOf name' dcc') ∧
        ((VersionedRegistry.run ops).remove name dcc c).2.keys =
          (VersionedRegistry.run ops).keys := by
  have hrun : ∀ ops : List (Op δ),
      Answers (VersionedRegistry.run ops) name dcc (latestOf ops name dcc) := by
    intro ops
    rw [← funext (lookup_releases ops name dcc)]
    exact answers_of_entries _ name dcc _ (entriesOf_run ops name dcc)
  refine ⟨hrun ops, fun c => ⟨fst_remove _ name dcc c, ?_, ?_, ?_, keys_remove _ name dcc c⟩⟩
  · -- A removal is one more call.
    have hafter : ∀ v, latestOf (ops ++ [.remove name dcc c]) name dcc v =
        if c.matchesVersion v = true then none else latestOf ops name dcc v := by
      intro v
      unfold latestOf
      rw [List.foldl_append, List.foldl_cons, List.foldl_nil, Op.after]
      exact if_congr ⟨fun h => h.2.2, fun h => ⟨rfl, rfl, h⟩⟩ rfl rfl
    have hnext := hrun (ops ++ [.remove name dcc c])
    rw [funext hafter, VersionedRegistry.run, List.foldl_append] at hnext
    exact hnext
  · rw [VersionedRegistry.versions, entriesOf_remove, if_pos ⟨rfl, rfl⟩, VersionedRegistry.versions,
      List.filter_map]
    rfl
  · intro name' dcc' hne
    rw [entriesOf_remove, if_neg hne]

/-- An action whose only version is removed has no version left, and is listed. -/
theorem removed_action_listed :
    let r := ((VersionedRegistry.new Unit).register
      ⟨"create_sphere", "maya", none, "", true, ⟨"1.0.0", ()⟩⟩).remove "create_sphere" "maya" .any
    r.1 = 1 ∧ r.2.versions "create_sphere" "maya" = [] ∧
      r.2.keys = [("create_sphere", "maya")] := by
  decide +kernel

end Versioned

end DccMcp
