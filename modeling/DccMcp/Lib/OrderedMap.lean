import Mathlib.Data.List.Basic
import Mathlib.Order.Lattice

/-!
# Maps with Ordered Keys

Finite maps as lists of entries in the order of their keys. The order makes
the list canonical: two maps with the same values are the same map. So a map
can be listed, and what is computed from the list depends on the values only.

## Main definitions

* `OrderedMap`: Entries in the order of their keys.
* `OrderedMap.lookup`, `OrderedMap.insert`, `OrderedMap.erase`,
  `OrderedMap.mapValues`, `OrderedMap.filter`, `OrderedMap.retain`,
  `OrderedMap.modify`, `OrderedMap.extend`: The operations.
* `OrderedMap.values`: The values, in the order of their keys.

## Theorems

* `OrderedMap.lookup_insert`, `OrderedMap.lookup_insert_ne`: What is found
  after an insertion.
* `OrderedMap.lookup_erase`, `OrderedMap.lookup_mapValues`,
  `OrderedMap.lookup_filter`, `OrderedMap.lookup_retain`, `OrderedMap.lookup_modify`,
  `OrderedMap.lookup_extend`: What is found after the other operations.
* `OrderedMap.insert_mapValues`, `OrderedMap.filter_mapValues`,
  `OrderedMap.modify_mapValues`: The operations on mapped values.
* `OrderedMap.mem_values`: The values are what is found.
* `OrderedMap.ext_lookup`: A map is given by its values.
-/

namespace DccMcp

variable {κ ν : Type} [LinearOrder κ]

/-- A finite map, as its entries in the order of the keys. -/
structure OrderedMap (κ ν : Type) [LinearOrder κ] where
  entries : List (κ × ν)
  sorted : entries.Pairwise (fun a b => a.1 < b.1)
  deriving DecidableEq

namespace OrderedMap

/-- The value of a key in a list of entries. -/
def lookupIn (key : κ) : List (κ × ν) → Option ν
  | [] => none
  | entry :: rest => if key = entry.1 then some entry.2 else lookupIn key rest

/-- A list of entries with one more, or with one replaced. -/
def insertIn (key : κ) (value : ν) : List (κ × ν) → List (κ × ν)
  | [] => [(key, value)]
  | entry :: rest =>
    if key < entry.1 then (key, value) :: entry :: rest
    else if key = entry.1 then (key, value) :: rest
    else entry :: insertIn key value rest

variable (m : OrderedMap κ ν) (key : κ) (value : ν) (entries : List (κ × ν))

theorem mem_insertIn (entry : κ × ν) (h : entry ∈ insertIn key value entries) :
    entry = (key, value) ∨ entry ∈ entries := by
  induction entries with
  | nil => exact .inl (List.mem_singleton.mp h)
  | cons first rest ih =>
      unfold insertIn at h
      split at h
      · exact List.mem_cons.mp h
      · split at h
        · exact (List.mem_cons.mp h).imp id (List.mem_cons_of_mem first)
        · rcases List.mem_cons.mp h with h | h
          · exact .inr (h ▸ List.mem_cons_self)
          · exact (ih h).imp id (List.mem_cons_of_mem first)

theorem sorted_insertIn (key : κ) (value : ν) (entries : List (κ × ν))
    (h : entries.Pairwise (fun a b => a.1 < b.1)) :
    (insertIn key value entries).Pairwise (fun a b => a.1 < b.1) := by
  -- The new entry goes in front of the first greater key.
  induction entries with
  | nil => exact List.pairwise_singleton _ _
  | cons first rest ih =>
      rw [List.pairwise_cons] at h
      unfold insertIn
      split
      next hlt =>
        refine List.pairwise_cons.mpr ⟨fun entry hentry => ?_, List.pairwise_cons.mpr h⟩
        rcases List.mem_cons.mp hentry with rfl | hentry
        · exact hlt
        · exact lt_trans hlt (h.1 entry hentry)
      next hnlt =>
        split
        next heq =>
          refine List.pairwise_cons.mpr ⟨fun entry hentry => ?_, h.2⟩
          rw [heq]
          exact h.1 entry hentry
        next hne =>
          refine List.pairwise_cons.mpr ⟨fun entry hentry => ?_, ih h.2⟩
          rcases mem_insertIn key value rest entry hentry with rfl | hentry
          · exact lt_of_le_of_ne (not_lt.mp hnlt) (Ne.symm hne)
          · exact h.1 entry hentry

theorem lookupIn_insertIn (key key' : κ) (value : ν) (entries : List (κ × ν)) :
    lookupIn key' (insertIn key value entries) =
      if key' = key then some value else lookupIn key' entries := by
  -- Keys in front of the new one are smaller, so they do not hide it.
  induction entries with
  | nil => rfl
  | cons first rest ih =>
      unfold insertIn
      split
      · rfl
      · split
        next heq =>
          simp only [lookupIn]
          by_cases hkey : key' = key
          · simp only [if_pos hkey]
          · rw [if_neg hkey, if_neg hkey, if_neg (fun h => hkey (h.trans heq.symm))]
        next hne =>
          simp only [lookupIn, ih]
          by_cases hfirst : key' = first.1
          · rw [if_pos hfirst, if_neg (fun h => hne (h.symm.trans hfirst)), if_pos hfirst]
          · simp only [if_neg hfirst]

variable (κ ν) in
/-- The map without entries. -/
def empty : OrderedMap κ ν := ⟨[], List.Pairwise.nil⟩

/-- The value of a key. -/
def lookup (m : OrderedMap κ ν) (key : κ) : Option ν := lookupIn key m.entries

/-- The map with a new value for a key. -/
def insert (m : OrderedMap κ ν) (key : κ) (value : ν) : OrderedMap κ ν :=
  ⟨insertIn key value m.entries, sorted_insertIn key value m.entries m.sorted⟩

theorem lookup_empty : (empty κ ν).lookup key = none := rfl

theorem lookup_insert (m : OrderedMap κ ν) (key : κ) (value : ν) :
    (m.insert key value).lookup key = some value := by
  rw [lookup, insert, lookupIn_insertIn, if_pos rfl]

theorem lookup_insert_ne (m : OrderedMap κ ν) (key key' : κ) (value : ν) (h : key' ≠ key) :
    (m.insert key value).lookup key' = m.lookup key' := by
  rw [lookup, insert, lookupIn_insertIn, if_neg h, lookup]

/-- A key that is smaller than all keys of a list is not in it. -/
theorem lookupIn_of_lt (h : ∀ entry ∈ entries, key < entry.1) : lookupIn key entries = none := by
  induction entries with
  | nil => rfl
  | cons first rest ih =>
      rw [lookupIn, if_neg (ne_of_lt (h first List.mem_cons_self))]
      exact ih (fun entry hentry => h entry (List.mem_cons_of_mem first hentry))

theorem entries_ext (entries entries' : List (κ × ν))
    (h : entries.Pairwise (fun a b => a.1 < b.1)) (h' : entries'.Pairwise (fun a b => a.1 < b.1))
    (hlookup : ∀ key, lookupIn key entries = lookupIn key entries') : entries = entries' := by
  induction entries generalizing entries' with
  | nil =>
      cases entries' with
      | nil => rfl
      | cons first rest =>
          have hfirst := hlookup first.1
          simp [lookupIn] at hfirst
  | cons first rest ih =>
      rw [List.pairwise_cons] at h
      cases entries' with
      | nil =>
          have hfirst := hlookup first.1
          simp [lookupIn] at hfirst
      | cons first' rest' =>
          rw [List.pairwise_cons] at h'
          -- The smallest key of either list is found in the other one.
          have hkey : first.1 = first'.1 := by
            rcases lt_trichotomy first.1 first'.1 with hlt | heq | hgt
            · have hfound := hlookup first.1
              rw [lookupIn, if_pos rfl, lookupIn_of_lt first.1 (first' :: rest')] at hfound
              · simp at hfound
              · intro entry hentry
                rcases List.mem_cons.mp hentry with rfl | hentry
                · exact hlt
                · exact lt_trans hlt (h'.1 entry hentry)
            · exact heq
            · have hfound := hlookup first'.1
              rw [lookupIn_of_lt first'.1 (first :: rest), lookupIn, if_pos rfl] at hfound
              · simp at hfound
              · intro entry hentry
                rcases List.mem_cons.mp hentry with rfl | hentry
                · exact hgt
                · exact lt_trans hgt (h.1 entry hentry)
          have hvalue := hlookup first.1
          rw [lookupIn, if_pos rfl, lookupIn, if_pos hkey, Option.some.injEq] at hvalue
          have hrest : rest = rest' := by
            refine ih rest' h.2 h'.2 (fun key => ?_)
            have hboth := hlookup key
            by_cases hk : key = first.1
            · rw [hk, lookupIn_of_lt first.1 rest h.1, lookupIn_of_lt first.1 rest' (hkey ▸ h'.1)]
            · rwa [lookupIn, if_neg hk, lookupIn, if_neg (hkey ▸ hk)] at hboth
          rw [hrest, Prod.ext hkey hvalue]

/-- A map is given by its values. -/
theorem ext_lookup (m m' : OrderedMap κ ν) (h : ∀ key, m.lookup key = m'.lookup key) : m = m' := by
  have hentries := entries_ext m.entries m'.entries m.sorted m'.sorted h
  cases m
  cases m'
  simp only at hentries
  subst hentries
  rfl

theorem mem_of_lookupIn (h : lookupIn key entries = some value) : (key, value) ∈ entries := by
  induction entries with
  | nil => simp only [lookupIn, reduceCtorEq] at h
  | cons first rest ih =>
      rw [lookupIn] at h
      split at h
      next heq =>
        rw [heq, ← Option.some.inj h]
        exact List.mem_cons_self
      next => exact List.mem_cons_of_mem first (ih h)

/-- What is found is an entry. -/
theorem mem_entries (h : m.lookup key = some value) : (key, value)
    ∈ m.entries := mem_of_lookupIn key value m.entries h

theorem lookupIn_of_mem (hsorted : entries.Pairwise (fun a b => a.1 < b.1))
    (h : (key, value) ∈ entries) :
    lookupIn key entries = some value := by
  induction entries with
  | nil => exact absurd h List.not_mem_nil
  | cons first rest ih =>
      rw [List.pairwise_cons] at hsorted
      rw [lookupIn]
      rcases List.mem_cons.mp h with rfl | h
      · rw [if_pos rfl]
      · rw [if_neg (ne_of_gt (hsorted.1 (key, value) h))]
        exact ih hsorted.2 h

/-- An entry is found. -/
theorem lookup_of_mem (h : (key, value) ∈ m.entries) :
    m.lookup key = some value := lookupIn_of_mem key value m.entries m.sorted h

/-- Inserting entries one after the other: the keys that are not among them. -/
theorem lookup_foldl_insert_of_notMem {μ : Type} (f : μ → ν) (entries : List (κ × μ))
    (m : OrderedMap κ ν) (key : κ) (h : key ∉ entries.map Prod.fst) :
    (entries.foldl (fun m e => m.insert e.1 (f e.2)) m).lookup key = m.lookup key := by
  induction entries generalizing m with
  | nil => rfl
  | cons first rest ih =>
      rw [List.map_cons, List.mem_cons, not_or] at h
      rw [List.foldl_cons, ih _ h.2, lookup_insert_ne _ _ _ _ h.1]

/-- Inserting entries with different keys one after the other. -/
theorem lookup_foldl_insert {μ : Type} (f : μ → ν) (entries : List (κ × μ)) (m : OrderedMap κ ν)
    (key : κ) (value : μ) (hnodup : (entries.map Prod.fst).Nodup) (h : (key, value) ∈ entries) :
    (entries.foldl (fun m e => m.insert e.1 (f e.2)) m).lookup key = some (f value) := by
  induction entries generalizing m with
  | nil => exact absurd h List.not_mem_nil
  | cons first rest ih =>
      rw [List.map_cons, List.nodup_cons] at hnodup
      rw [List.foldl_cons]
      rcases List.mem_cons.mp h with rfl | h
      · rw [lookup_foldl_insert_of_notMem f rest _ key hnodup.1, lookup_insert]
      · exact ih _ hnodup.2 h

/-- A map without a key. -/
def erase (m : OrderedMap κ ν) (key : κ) : OrderedMap κ ν :=
  ⟨m.entries.filter (fun e => e.1 ≠ key), m.sorted.filter _⟩

theorem lookupIn_filter_ne (key key' : κ) (entries : List (κ × ν)) :
    lookupIn key' (entries.filter (fun e => e.1 ≠ key)) =
      if key' = key then none else lookupIn key' entries := by
  induction entries with
  | nil => exact (ite_self none).symm
  | cons first rest ih =>
      by_cases hfirst : first.1 = key
      · rw [List.filter_cons_of_neg (by simpa using hfirst), ih, lookupIn]
        by_cases hkey : key' = key
        · rw [if_pos hkey, if_pos hkey]
        · rw [if_neg hkey, if_neg hkey, if_neg (fun h => hkey (h.trans hfirst))]
      · rw [List.filter_cons_of_pos (by simpa using hfirst), lookupIn, lookupIn, ih]
        by_cases hkey : key' = key
        · rw [if_pos hkey, if_pos hkey, if_neg (fun h => hfirst (h.symm.trans hkey))]
        · rw [if_neg hkey, if_neg hkey]

theorem lookup_erase (m : OrderedMap κ ν) (key key' : κ) :
    (m.erase key).lookup key' = if key' = key then none else m.lookup key' :=
  lookupIn_filter_ne key key' m.entries

/-- A map with a function applied to every value. -/
def mapValues {μ : Type} (f : ν → μ) (m : OrderedMap κ ν) : OrderedMap κ μ :=
  ⟨m.entries.map (fun e => (e.1, f e.2)), List.pairwise_map.mpr m.sorted⟩

theorem lookupIn_map {μ : Type} (f : ν → μ) (entries : List (κ × ν)) (key : κ) :
    lookupIn key (entries.map (fun e => (e.1, f e.2))) = (lookupIn key entries).map f := by
  induction entries with
  | nil => rfl
  | cons first rest ih =>
      rw [List.map_cons, lookupIn, lookupIn, ih]
      split
      · rfl
      · rfl

theorem lookup_mapValues {μ : Type} (f : ν → μ) (m : OrderedMap κ ν) (key : κ) :
    (m.mapValues f).lookup key = (m.lookup key).map f := lookupIn_map f m.entries key

theorem insert_mapValues {μ : Type} (f : ν → μ) (m : OrderedMap κ ν) (key : κ) (value : ν) :
    (m.mapValues f).insert key (f value) = (m.insert key value).mapValues f := by
  refine ext_lookup _ _ (fun key' => ?_)
  rw [lookup_mapValues]
  by_cases hkey : key' = key
  · rw [hkey, lookup_insert, lookup_insert]
    rfl
  · rw [lookup_insert_ne _ _ _ _ hkey, lookup_insert_ne _ _ _ _ hkey, lookup_mapValues]

/-- The entries with a property of the key and the value. -/
def retain (m : OrderedMap κ ν) (p : κ → ν → Bool) : OrderedMap κ ν :=
  ⟨m.entries.filter (fun e => p e.1 e.2), m.sorted.filter _⟩

theorem lookup_retain (m : OrderedMap κ ν) (p : κ → ν → Bool) (key : κ) :
    (m.retain p).lookup key = (m.lookup key).filter (p key) := by
  refine Option.ext (fun value => ?_)
  rw [Option.filter_eq_some_iff]
  constructor
  · intro h
    have hmem := List.mem_filter.mp (mem_entries _ key value h)
    exact ⟨lookup_of_mem m key value hmem.1, hmem.2⟩
  · rintro ⟨hvalue, hp⟩
    exact lookup_of_mem _ key value (List.mem_filter.mpr ⟨mem_entries m key value hvalue, hp⟩)

/-- A map with the entries whose values pass a test. -/
def filter (m : OrderedMap κ ν) (p : ν → Bool) : OrderedMap κ ν :=
  ⟨m.entries.filter (fun e => p e.2), m.sorted.filter _⟩

theorem lookup_filter (m : OrderedMap κ ν) (p : ν → Bool) (key : κ) :
    (m.filter p).lookup key = (m.lookup key).filter p :=
  lookup_retain m (fun _ => p) key

/-- A test of the values that were mapped is a test of the values. -/
theorem filter_mapValues {μ : Type} (f : ν → μ) (m : OrderedMap κ ν) (p : μ → Bool) (q : ν → Bool)
    (h : ∀ e ∈ m.entries, p (f e.2) = q e.2) :
    (m.mapValues f).filter p = (m.filter q).mapValues f := by
  have hentries : (m.entries.map (fun e => (e.1, f e.2))).filter (fun e => p e.2) =
      (m.entries.filter (fun e => q e.2)).map (fun e => (e.1, f e.2)) := by
    rw [List.filter_map]
    exact congrArg _ (List.filter_congr h)
  unfold mapValues filter
  simp only [hentries]

/-- A map with a function applied to the value of a key, if it has one. -/
def modify (m : OrderedMap κ ν) (key : κ) (f : ν → ν) : OrderedMap κ ν :=
  match m.lookup key with
  | none => m
  | some value => m.insert key (f value)

theorem lookup_modify (m : OrderedMap κ ν) (key key' : κ) (f : ν → ν) :
    (m.modify key f).lookup key' =
      if key' = key then (m.lookup key').map f else m.lookup key' := by
  unfold modify
  by_cases hkey : key' = key
  · rw [if_pos hkey, hkey]
    cases hvalue : m.lookup key with
    | none => exact hvalue
    | some value => exact lookup_insert m key (f value)
  · rw [if_neg hkey]
    cases hvalue : m.lookup key with
    | none => rfl
    | some value => exact lookup_insert_ne m key key' (f value) hkey

theorem modify_mapValues {μ : Type} (f : ν → μ) (m : OrderedMap κ ν) (key : κ) (g : ν → ν)
    (g' : μ → μ) (h : ∀ value, m.lookup key = some value → g' (f value) = f (g value)) :
    (m.mapValues f).modify key g' = (m.modify key g).mapValues f := by
  refine ext_lookup _ _ (fun key' => ?_)
  simp only [lookup_mapValues, lookup_modify]
  by_cases hkey : key' = key
  · rw [if_pos hkey, if_pos hkey, hkey]
    cases hvalue : m.lookup key with
    | none => rfl
    | some value => exact congrArg some (h value hvalue)
  · rw [if_neg hkey, if_neg hkey]

/-- A map with all entries of another one, which win. -/
def extend (m other : OrderedMap κ ν) : OrderedMap κ ν :=
  other.entries.foldl (fun acc e => acc.insert e.1 e.2) m

theorem nodup_keys : (m.entries.map Prod.fst).Nodup :=
  List.pairwise_map.mpr (m.sorted.imp (fun h => ne_of_lt h))

theorem lookup_extend (m other : OrderedMap κ ν) (key : κ) :
    (m.extend other).lookup key = (other.lookup key).or (m.lookup key) := by
  cases hvalue : other.lookup key with
  | some value =>
      rw [Option.some_or]
      exact lookup_foldl_insert id other.entries m key value other.nodup_keys
        (mem_entries other key value hvalue)
  | none =>
      rw [Option.none_or]
      refine lookup_foldl_insert_of_notMem id other.entries m key (fun hmem => ?_)
      rcases List.mem_map.mp hmem with ⟨entry, hentry, rfl⟩
      rw [lookup_of_mem other entry.1 entry.2 hentry] at hvalue
      cases hvalue

/-- The values, in the order of their keys. -/
def values (m : OrderedMap κ ν) : List ν := m.entries.map Prod.snd

/-- The values are what is found. -/
theorem mem_values : value ∈ m.values ↔ ∃ key, m.lookup key = some value := by
  unfold values
  rw [List.mem_map]
  constructor
  · rintro ⟨entry, hentry, rfl⟩
    exact ⟨entry.1, lookup_of_mem m entry.1 entry.2 hentry⟩
  · rintro ⟨key, hkey⟩
    exact ⟨(key, value), mem_entries m key value hkey, rfl⟩

end OrderedMap

end DccMcp
