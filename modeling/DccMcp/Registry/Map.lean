import DccMcp.Lib.OrderedMap
import Mathlib.Data.List.Nodup
import Mathlib.Data.List.Perm.Subperm

/-!
# Registry Snapshots

The service registry keeps its rows in a map, in memory and on disk, and a
write transaction has three of these maps in hand: the baseline it started
from, its own rows after the change, and what is on disk when it is about to
write. Writers of older builds take no lock, so the last one need not be the
first one, and the three are merged.

`lookup_reconcile` says what the merge does to one key. The transaction's own
row wins where it differs from the baseline, a removal included. Everywhere
else the disk wins, and a row the disk has lost is kept. The shortcut for an
unchanged disk is no case of its own: it gives the same.

## Main definitions

* `EntryMap`, `entriesToMap`: The rows of a registry by their keys.
* `reconcile`: The merge of a transaction with what is on disk.

## Theorems

* `mapsEqual_iff`: The comparison of two maps is their equality.
* `lookup_reconcile`: What the merge does to one key.
-/

namespace DccMcp

namespace Registry

section EntryMap

variable {κ ε : Type} [LinearOrder κ]

abbrev EntryMap (κ ε : Type) [LinearOrder κ] : Type := OrderedMap κ ε

/-- `entries_to_map`: the last row of a key wins. -/
def entriesToMap (key : ε → κ) (entries : List ε) : EntryMap κ ε :=
  entries.foldl (fun m entry => m.insert (key entry) entry) (OrderedMap.empty κ ε)

def mapsEqual [DecidableEq ε] (left right : EntryMap κ ε) : Bool :=
  left.entries.length == right.entries.length &&
    left.entries.all (fun e => right.lookup e.1 == some e.2)

/-- `reconcile_unlocked_writer_changes`, over the rows that were read. -/
def reconcile [DecidableEq ε] (baseline disk locals : EntryMap κ ε) : EntryMap κ ε :=
  if mapsEqual baseline disk then locals
  else
    let changed := locals.entries.filter (fun e => baseline.lookup e.1 ≠ some e.2)
    let gone := baseline.entries.filter (fun e => (locals.lookup e.1).isNone)
    let merged := changed.foldl (fun m e => m.insert e.1 e.2) (baseline.extend disk)
    gone.foldl (fun m e => m.erase e.1) merged

/-- The maps are equal when every row of the one is found in the other and
    there are no more rows there. -/
theorem mapsEqual_iff [DecidableEq ε] (left right : EntryMap κ ε) :
    mapsEqual left right = true ↔ left = right := by
  unfold mapsEqual
  rw [Bool.and_eq_true, beq_iff_eq, List.all_eq_true]
  constructor
  · rintro ⟨hlength, hall⟩
    have hsubset : left.entries ⊆ right.entries := by
      intro e he
      exact OrderedMap.mem_entries right e.1 e.2 (beq_iff_eq.mp (hall e he))
    -- With as many entries, and none twice, there is no room for another one.
    have hnodup : left.entries.Nodup := List.Nodup.of_map Prod.fst left.nodup_keys
    have hperm : left.entries.Perm right.entries :=
      (List.Nodup.subperm hnodup hsubset).perm_of_length_le (le_of_eq hlength.symm)
    refine OrderedMap.ext_lookup left right (fun key => ?_)
    cases hleft : left.lookup key with
    | some entry =>
        have hmem := hsubset (OrderedMap.mem_entries left key entry hleft)
        exact (OrderedMap.lookup_of_mem right key entry hmem).symm
    | none =>
        cases hright : right.lookup key with
        | none => rfl
        | some entry =>
            have hmem := hperm.mem_iff.mpr (OrderedMap.mem_entries right key entry hright)
            rw [OrderedMap.lookup_of_mem left key entry hmem] at hleft
            cases hleft
  · rintro rfl
    refine ⟨rfl, fun e he => ?_⟩
    rw [OrderedMap.lookup_of_mem left e.1 e.2 he, beq_self_eq_true]

/-- Erasing keys one after the other. -/
theorem lookup_foldl_erase (entries : List (κ × ε)) (m : EntryMap κ ε) (key : κ) :
    (entries.foldl (fun m e => m.erase e.1) m).lookup key =
      if key ∈ entries.map Prod.fst then none else m.lookup key := by
  induction entries generalizing m with
  | nil => rfl
  | cons first rest ih =>
      rw [List.foldl_cons, ih, OrderedMap.lookup_erase, List.map_cons]
      by_cases hrest : key ∈ rest.map Prod.fst
      · rw [if_pos hrest, if_pos (List.mem_cons_of_mem _ hrest)]
      · rw [if_neg hrest]
        by_cases hfirst : key = first.1
        · rw [if_pos hfirst, if_pos (hfirst ▸ List.mem_cons_self)]
        · rw [if_neg hfirst, if_neg]
          rw [List.mem_cons, not_or]
          exact ⟨hfirst, hrest⟩

/-- The keys of the rows that pass a test. -/
theorem mem_keys_filter (m : EntryMap κ ε) (p : κ × ε → Bool) (key : κ) :
    key ∈ (m.entries.filter p).map Prod.fst ↔
      ∃ entry, m.lookup key = some entry ∧ p (key, entry) = true := by
  rw [List.mem_map]
  constructor
  · rintro ⟨e, he, rfl⟩
    rcases List.mem_filter.mp he with ⟨hmem, hp⟩
    exact ⟨e.2, OrderedMap.lookup_of_mem m e.1 e.2 hmem, hp⟩
  · rintro ⟨entry, hentry, hp⟩
    have hmem := OrderedMap.mem_entries m key entry hentry
    exact ⟨(key, entry), List.mem_filter.mpr ⟨hmem, hp⟩, rfl⟩

/-- Putting the changed rows in. -/
theorem lookup_foldl_changed [DecidableEq ε] (baseline locals m : EntryMap κ ε) (key : κ) :
    ((locals.entries.filter (fun e => baseline.lookup e.1 ≠ some e.2)).foldl
      (fun m e => m.insert e.1 e.2) m).lookup key =
      if locals.lookup key = none ∨ locals.lookup key = baseline.lookup key then m.lookup key
      else locals.lookup key := by
  split
  · next hkey =>
      -- The row is not among the changed ones.
      refine OrderedMap.lookup_foldl_insert_of_notMem id _ m key ?_
      rw [mem_keys_filter]
      rintro ⟨entry, hentry, hp⟩
      rw [hentry] at hkey
      simp only [ne_eq, decide_not, Bool.not_eq_eq_eq_not, Bool.not_true,
        decide_eq_false_iff_not] at hp
      rcases hkey with hkey | hkey
      · cases hkey
      · exact hp hkey.symm
  · next hkey =>
      rw [not_or] at hkey
      rcases Option.ne_none_iff_exists'.mp hkey.1 with ⟨entry, hentry⟩
      have hnodup := locals.nodup_keys.sublist
        ((List.filter_sublist (p := fun e => baseline.lookup e.1 ≠ some e.2)).map Prod.fst)
      have hchanged : baseline.lookup key ≠ some entry := fun h => hkey.2 (hentry.trans h.symm)
      rw [hentry]
      refine OrderedMap.lookup_foldl_insert id _ m key entry hnodup ?_
      exact List.mem_filter.mpr
        ⟨OrderedMap.mem_entries locals key entry hentry, decide_eq_true hchanged⟩

/-- What the merge does to one key: the own row wins where it was changed, and
    a key that was not changed is as on disk, or as it was. -/
theorem lookup_reconcile [DecidableEq ε] (baseline disk locals : EntryMap κ ε) (key : κ) :
    (reconcile baseline disk locals).lookup key =
      if locals.lookup key = baseline.lookup key then
        (disk.lookup key).or (baseline.lookup key)
      else locals.lookup key := by
  unfold reconcile
  split
  · next hequal =>
      rw [← (mapsEqual_iff baseline disk).mp hequal]
      by_cases hkey : locals.lookup key = baseline.lookup key
      · rw [if_pos hkey, Option.or_self, hkey]
      · rw [if_neg hkey]
  · simp only [lookup_foldl_erase, mem_keys_filter, lookup_foldl_changed, OrderedMap.lookup_extend]
    by_cases hkey : locals.lookup key = baseline.lookup key
    · rw [if_pos (Or.inr hkey), if_pos hkey, if_neg]
      rintro ⟨entry, hentry, hnone⟩
      rw [hkey, hentry] at hnone
      cases hnone
    · rw [if_neg hkey]
      cases hlocal : locals.lookup key with
      | none =>
          -- A row the baseline had was removed.
          rcases Option.ne_none_iff_exists'.mp (fun h => hkey (hlocal.trans h.symm)) with
            ⟨entry, hentry⟩
          rw [if_pos ⟨entry, hentry, rfl⟩]
      | some entry =>
          rw [hlocal] at hkey
          rw [if_neg, if_neg]
          · rintro (hnone | hbase)
            · cases hnone
            · exact hkey hbase
          · rintro ⟨_, _, hnone⟩
            cases hnone

end EntryMap

end Registry

end DccMcp
