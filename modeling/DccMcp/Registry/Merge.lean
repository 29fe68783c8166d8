import DccMcp.Registry.Format

/-!
# The Rows a Flush Writes

A flush has three lists of rows: what the transaction started from, what it
made of it, and what is in the file when the flush is about to write. They are
put into maps by their keys, merged, and the rows of the merged map are
written. This file says what becomes of one key in terms of the three lists.

A list with distinct keys and its map say the same: the row of a key in the
list is what the map holds under it. So the rule for lists is the rule for
maps, `lookup_reconcile`, read at both ends.

## Main definitions

* `rowOf`: The row with a key.
* `mergedRow`: The row that is written under a key.
* `mergeChanges`: The merge without the shortcut.

## Theorems

* `rowOf_values`, `lookup_entriesToMap`: Lists and their maps.
* `flush_writes_merged`: The rows that are written.
-/

namespace DccMcp

namespace Registry

section Merge

variable {κ ε : Type} [LinearOrder κ]

/-- The row with a key, in a list of rows. -/
def rowOf (key : ε → κ) (rows : List ε) (k : κ) : Option ε := rows.find? (fun row => key row = k)

/-- What is written under a key: the transaction's row if it was added or
    changed, nothing if it was removed, else what the disk has, else what was
    there. -/
def mergedRow [DecidableEq ε] (base disk own : Option ε) : Option ε :=
  match own, base with
  | some row, some before => if row = before then disk.or base else some row
  | some row, none => some row
  | none, some _ => none
  | none, none => disk

/-- `reconcile_unlocked_writer_changes` from the warning on. -/
def mergeChanges [DecidableEq ε] (baseline disk locals : EntryMap κ ε) : EntryMap κ ε :=
  let changed := locals.entries.filter (fun e => baseline.lookup e.1 ≠ some e.2)
  let gone := baseline.entries.filter (fun e => (locals.lookup e.1).isNone)
  let merged := changed.foldl (fun m e => m.insert e.1 e.2) (baseline.extend disk)
  gone.foldl (fun m e => m.erase e.1) merged

/-- `reconcile_unlocked_writer_changes`: where the disk is what it was, the rows
    are returned as they are. -/
def reconcileRows [DecidableEq ε] (key : ε → κ) (baseline disk locals : List ε) : List ε :=
  if mapsEqual (entriesToMap key baseline) (entriesToMap key disk) then locals
  else
    (mergeChanges (entriesToMap key baseline) (entriesToMap key disk)
      (entriesToMap key locals)).values

theorem reconcile_eq [DecidableEq ε] (baseline disk locals : EntryMap κ ε) :
    reconcile baseline disk locals =
      if mapsEqual baseline disk then locals else mergeChanges baseline disk locals := rfl

/-! ## Lists of rows and their maps -/

/-- With distinct keys a row is found by its key. -/
theorem rowOf_eq_some (key : ε → κ) (rows : List ε) (hnodup : (rows.map key).Nodup) (k : κ)
    (row : ε) : rowOf key rows k = some row ↔ row ∈ rows ∧ key row = k := by
  constructor
  · intro h
    have htest := List.find?_some h
    exact ⟨List.mem_of_find?_eq_some h, of_decide_eq_true htest⟩
  · rintro ⟨hmem, rfl⟩
    cases hfound : rowOf key rows (key row) with
    | none =>
        have hno := List.find?_eq_none.mp hfound row hmem
        exact absurd (decide_eq_true rfl) hno
    | some other =>
        have htest := List.find?_some hfound
        have hkey : key other = key row := of_decide_eq_true htest
        have hother := List.mem_of_find?_eq_some hfound
        rw [List.inj_on_of_nodup_map hnodup hother hmem hkey]

/-- The map of a list holds its rows. -/
theorem lookup_entriesToMap (key : ε → κ) (rows : List ε) (hnodup : (rows.map key).Nodup)
    (k : κ) : (entriesToMap key rows).lookup k = rowOf key rows k := by
  have hpairs : entriesToMap key rows =
      (rows.map (fun row => (key row, row))).foldl (fun m e => m.insert e.1 (id e.2))
        (OrderedMap.empty κ ε) := by
    rw [List.foldl_map]
    rfl
  have hkeys : (rows.map (fun row => (key row, row))).map Prod.fst = rows.map key := by
    rw [List.map_map]
    rfl
  rw [hpairs]
  cases hfound : rowOf key rows k with
  | some row =>
      rcases (rowOf_eq_some key rows hnodup k row).mp hfound with ⟨hmem, rfl⟩
      exact OrderedMap.lookup_foldl_insert id _ _ (key row) row (hkeys ▸ hnodup)
        (List.mem_map.mpr ⟨row, hmem, rfl⟩)
  | none =>
      rw [OrderedMap.lookup_foldl_insert_of_notMem, OrderedMap.lookup_empty]
      rw [hkeys, List.mem_map]
      rintro ⟨row, hmem, hkey⟩
      rw [(rowOf_eq_some key rows hnodup k row).mpr ⟨hmem, hkey⟩] at hfound
      cases hfound

/-- A map that holds every row under its own key. -/
def Keyed (key : ε → κ) (m : EntryMap κ ε) : Prop :=
  ∀ k row, m.lookup k = some row → key row = k

theorem keyed_entriesToMap (key : ε → κ) (rows : List ε) (hnodup : (rows.map key).Nodup) :
    Keyed key (entriesToMap key rows) := by
  intro k row h
  rw [lookup_entriesToMap key rows hnodup] at h
  exact ((rowOf_eq_some key rows hnodup k row).mp h).2

theorem nodup_values (key : ε → κ) (m : EntryMap κ ε) (hkeyed : Keyed key m) :
    (m.values.map key).Nodup := by
  have hkeys : m.values.map key = m.entries.map Prod.fst := by
    unfold OrderedMap.values
    rw [List.map_map]
    refine List.map_congr_left (fun e he => ?_)
    exact hkeyed e.1 e.2 (OrderedMap.lookup_of_mem m e.1 e.2 he)
  rw [hkeys]
  exact m.nodup_keys

/-- The rows of a map are what it holds. -/
theorem rowOf_values (key : ε → κ) (m : EntryMap κ ε) (hkeyed : Keyed key m) (k : κ) :
    rowOf key m.values k = m.lookup k := by
  refine Option.ext (fun row => ?_)
  rw [rowOf_eq_some key m.values (nodup_values key m hkeyed), OrderedMap.mem_values]
  constructor
  · rintro ⟨⟨k', h⟩, rfl⟩
    rw [hkeyed k' row h]
    exact h
  · intro h
    exact ⟨⟨k, h⟩, hkeyed k row h⟩

/-- Lists with distinct keys that have the same row under each key have the same
    rows. -/
theorem perm_of_rowOf (key : ε → κ) (rows rows' : List ε) (hnodup : (rows.map key).Nodup)
    (hnodup' : (rows'.map key).Nodup) (h : ∀ k, rowOf key rows k = rowOf key rows' k) :
    rows.Perm rows' := by
  refine (List.perm_ext_iff_of_nodup hnodup.of_map hnodup'.of_map).mpr (fun row => ?_)
  have hleft := rowOf_eq_some key rows hnodup (key row) row
  have hright := rowOf_eq_some key rows' hnodup' (key row) row
  rw [h] at hleft
  constructor
  · intro hmem
    exact (hright.mp (hleft.mpr ⟨hmem, rfl⟩)).1
  · intro hmem
    exact (hleft.mp (hright.mpr ⟨hmem, rfl⟩)).1

/-! ## The merge -/

/-- The rule for maps is the rule for rows. -/
theorem lookup_reconcile_mergedRow [DecidableEq ε] (baseline disk locals : EntryMap κ ε) (k : κ) :
    (reconcile baseline disk locals).lookup k =
      mergedRow (baseline.lookup k) (disk.lookup k) (locals.lookup k) := by
  rw [lookup_reconcile]
  rcases hown : locals.lookup k with _ | row <;> rcases hbase : baseline.lookup k with _ | before
  · rw [if_pos rfl, Option.or_none]
    rfl
  · rfl
  · rfl
  · simp [mergedRow]

/-- Where the disk is what it was, the merge gives the own rows back. -/
theorem mergeChanges_self [DecidableEq ε] (baseline locals : EntryMap κ ε) :
    mergeChanges baseline baseline locals = locals := by
  refine OrderedMap.ext_lookup _ _ (fun k => ?_)
  unfold mergeChanges
  simp only [lookup_foldl_erase, mem_keys_filter, lookup_foldl_changed, OrderedMap.lookup_extend,
    Option.or_self]
  cases hown : locals.lookup k with
  | some row =>
      rw [if_neg]
      · by_cases hsame : some row = baseline.lookup k
        · rw [if_pos (Or.inr hsame), hsame]
        · rw [if_neg]
          rintro (hnone | heq)
          · cases hnone
          · exact hsame heq
      · rintro ⟨_, _, hnone⟩
        cases hnone
  | none =>
      cases hbase : baseline.lookup k with
      | none =>
          rw [if_neg, if_pos (Or.inl rfl)]
          rintro ⟨_, h, _⟩
          cases h
      | some before => rw [if_pos ⟨before, rfl, rfl⟩]

/-- The merged map holds every row under its own key. -/
theorem keyed_reconcile [DecidableEq ε] (key : ε → κ) (baseline disk locals : EntryMap κ ε)
    (hbaseline : Keyed key baseline) (hdisk : Keyed key disk) (hlocals : Keyed key locals) :
    Keyed key (reconcile baseline disk locals) := by
  intro k row h
  rw [lookup_reconcile] at h
  split at h
  · rcases Option.or_eq_some_iff.mp h with h | ⟨_, h⟩
    · exact hdisk k row h
    · exact hbaseline k row h
  · exact hlocals k row h

section Rows

variable [DecidableEq ε] (key : ε → κ) (baseline disk locals : List ε)
  (hbaseline : (baseline.map key).Nodup) (hdisk : (disk.map key).Nodup)
  (hlocals : (locals.map key).Nodup)

include hbaseline hdisk hlocals

/-- What the rows of the merged map are. -/
theorem values_reconcile_spec :
    ((reconcile (entriesToMap key baseline) (entriesToMap key disk)
        (entriesToMap key locals)).values.map key).Nodup ∧
      ∀ k, rowOf key (reconcile (entriesToMap key baseline) (entriesToMap key disk)
          (entriesToMap key locals)).values k =
        mergedRow (rowOf key baseline k) (rowOf key disk k) (rowOf key locals k) := by
  have hkeyed := keyed_reconcile key _ _ _ (keyed_entriesToMap key baseline hbaseline)
    (keyed_entriesToMap key disk hdisk) (keyed_entriesToMap key locals hlocals)
  refine ⟨nodup_values key _ hkeyed, fun k => ?_⟩
  rw [rowOf_values key _ hkeyed, lookup_reconcile_mergedRow,
    lookup_entriesToMap key baseline hbaseline, lookup_entriesToMap key disk hdisk,
    lookup_entriesToMap key locals hlocals]

/-- The rows the source returns, by the shortcut or not. -/
theorem reconcileRows_spec :
    ((reconcileRows key baseline disk locals).map key).Nodup ∧
      ∀ k, rowOf key (reconcileRows key baseline disk locals) k =
        mergedRow (rowOf key baseline k) (rowOf key disk k) (rowOf key locals k) := by
  have hspec := values_reconcile_spec key baseline disk locals hbaseline hdisk hlocals
  unfold reconcileRows
  by_cases hsame : mapsEqual (entriesToMap key baseline) (entriesToMap key disk) = true
  · rw [if_pos hsame]
    refine ⟨hlocals, fun k => ?_⟩
    rw [← hspec.2, reconcile_eq, if_pos hsame,
      rowOf_values key _ (keyed_entriesToMap key locals hlocals),
      lookup_entriesToMap key locals hlocals]
  · rw [reconcile_eq, if_neg hsame] at hspec
    rw [if_neg hsame]
    exact hspec

theorem values_reconcile_perm :
    (reconcile (entriesToMap key baseline) (entriesToMap key disk)
      (entriesToMap key locals)).values.Perm (reconcileRows key baseline disk locals) := by
  have hvalues := values_reconcile_spec key baseline disk locals hbaseline hdisk hlocals
  have hrows := reconcileRows_spec key baseline disk locals hbaseline hdisk hlocals
  exact perm_of_rowOf key _ _ hvalues.1 hrows.1 (fun k => by rw [hvalues.2, hrows.2])

end Rows

/-! ## The flush -/

/-- What a flush leaves: the file with the text of the rows, or without it when
    the check behind it has renamed it away, and the rows in memory. -/
structure Flushed (c : RowCodec κ ε) (env : Env) (rows : List ε) (w : World κ ε) : Prop where
  written : ∃ content, c.toStringPretty rows = some content ∧
    (w.file = some ⟨content, env.stamp⟩ ∨ (w.file = none ∧ content ∈ w.quarantined))
  kept : w.services.values = rows

theorem readEntriesFromFile_world (c : RowCodec κ ε) (env : Env) (w : World κ ε)
    (file : RegistryFile) (hfile : w.file = some file) :
    (readEntriesFromFile c env w).2 = w ∨
      ((readEntriesFromFile c env w).2.file = none ∧
        file.content ∈ (readEntriesFromFile c env w).2.quarantined ∧
        (readEntriesFromFile c env w).2.services = w.services) := by
  have hquarantine : quarantine env w file.content = w ∨
      ((quarantine env w file.content).file = none ∧
        file.content ∈ (quarantine env w file.content).quarantined ∧
        (quarantine env w file.content).services = w.services) := by
    unfold quarantine
    split
    · exact Or.inr ⟨rfl, List.mem_append_right _ (List.mem_singleton_self _), rfl⟩
    · exact Or.inl rfl
  unfold readEntriesFromFile
  rw [hfile]
  dsimp only
  split
  · exact Or.inl rfl
  · split
    · exact hquarantine
    · split
      · exact Or.inl rfl
      · exact hquarantine
      · exact Or.inl rfl

/-- A flush writes the merged rows: those of the file at that moment with the
    transaction's changes made to them. Each of the three lists has distinct
    keys, and so have the rows that are written; under each key stands what
    `mergedRow` says; and where the disk is what it was, the shortcut returns
    the rows that the merge would. -/
theorem flush_writes_merged [DecidableEq ε] (c : RowCodec κ ε)
    (baseline locals disk : List ε) (hbaseline : (baseline.map c.key).Nodup)
    (hlocals : (locals.map c.key).Nodup) (hdisk : (disk.map c.key).Nodup) :
    ((reconcileRows c.key baseline disk locals).map c.key).Nodup ∧
    (∀ k, rowOf c.key (reconcileRows c.key baseline disk locals) k =
      mergedRow (rowOf c.key baseline k) (rowOf c.key disk k) (rowOf c.key locals k)) ∧
    (entriesToMap c.key baseline = entriesToMap c.key disk →
      reconcileRows c.key baseline disk locals = locals ∧
      mergeChanges (entriesToMap c.key baseline) (entriesToMap c.key disk)
        (entriesToMap c.key locals) = entriesToMap c.key locals) ∧
    ∀ (env : Env) (w : World κ ε), w.services = entriesToMap c.key locals →
      (readEntriesFromFile c env w).1 = .ok disk →
      (flushToFileAfterTransaction c env (entriesToMap c.key baseline) w).1 = .ok () →
      ∃ rows, rows.Perm (reconcileRows c.key baseline disk locals) ∧
        Flushed c env rows
          (flushToFileAfterTransaction c env (entriesToMap c.key baseline) w).2 := by
  rcases reconcileRows_spec c.key baseline disk locals hbaseline hdisk hlocals with
    ⟨hnodup, hrule⟩
  refine ⟨hnodup, hrule, fun hsame => ?_, fun env w hservices hread hok => ?_⟩
  · refine ⟨if_pos ((mapsEqual_iff _ _).mpr hsame), ?_⟩
    rw [hsame, mergeChanges_self]
  · have hperm := values_reconcile_perm c.key baseline disk locals hbaseline hdisk hlocals
    refine ⟨_, hperm, ?_⟩
    revert hok
    unfold flushToFileAfterTransaction
    rw [hservices]
    rcases hresult : readEntriesFromFile c env w with ⟨result, after⟩
    rw [hresult] at hread
    dsimp only at hread
    subst hread
    dsimp only
    cases htext : c.toStringPretty (reconcile (entriesToMap c.key baseline)
        (entriesToMap c.key disk) (entriesToMap c.key locals)).values with
    | none => exact fun h => nomatch h
    | some content =>
        unfold writeAtomic
        cases env.writes with
        | false => exact fun h => nomatch h
        | true =>
            intro _
            simp only [if_true]
            -- The check behind the write reads what was written.
            have hworld := readEntriesFromFile_world c env (updateMtime
              { after with
                file := some ⟨content, env.stamp⟩
                services := reconcile (entriesToMap c.key baseline) (entriesToMap c.key disk)
                  (entriesToMap c.key locals) }) ⟨content, env.stamp⟩ rfl
            rcases hworld with hw | ⟨hfile, hmem, hkept⟩
            · rw [hw]
              exact ⟨⟨content, htext, Or.inl rfl⟩, rfl⟩
            · exact ⟨⟨content, htext, Or.inr ⟨hfile, hmem⟩⟩, by rw [hkept]; rfl⟩

end Merge

/-- A serializer that writes the number of the rows. -/
def countingCodec : RowCodec Nat (Nat × Nat) where
  key := Prod.fst
  fromStr := fun _ => none
  fromValue := fun _ => none
  toStringPretty := fun rows => some (toString rows.length)
  gatewayDefaults := fun _ _ => none

/-- A transaction on two rows that changes the first and adds a third, over a
    file that another writer has removed: the second row stays. -/
theorem flush_writes_merged_example :
    rowOf Prod.fst (reconcileRows Prod.fst [(1, 10), (2, 20)] [] [(1, 11), (2, 20), (3, 30)]) 2 =
      some (2, 20) ∧
    ∃ rows : List (Nat × Nat), rows.Perm
      (reconcileRows Prod.fst [(1, 10), (2, 20)] [] [(1, 11), (2, 20), (3, 30)]) ∧
      Flushed countingCodec ⟨true, true, 5⟩ rows
        (flushToFileAfterTransaction countingCodec ⟨true, true, 5⟩
          (entriesToMap Prod.fst [(1, 10), (2, 20)])
          ⟨none, [], entriesToMap Prod.fst [(1, 11), (2, 20), (3, 30)], none⟩).2 := by
  have h := flush_writes_merged countingCodec [(1, 10), (2, 20)] [(1, 11), (2, 20), (3, 30)] []
    (by decide) (by decide) (by decide)
  exact ⟨(h.2.1 2).trans (by decide),
    h.2.2.2 ⟨true, true, 5⟩ ⟨none, [], entriesToMap Prod.fst [(1, 11), (2, 20), (3, 30)], none⟩ rfl
      rfl rfl⟩

end Registry

end DccMcp
