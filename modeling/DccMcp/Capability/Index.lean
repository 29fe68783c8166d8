import DccMcp.Capability.Record
import DccMcp.Lib.OrderedMap
import Mathlib.Data.String.Basic
import Mathlib.Data.List.Nodup

/-!
# The Capability Index

The state of the gateway's index: a slice of records for each live instance,
what is known of instances that are gone, and the records of skills that are
not loaded. Every operation says whether it changed something, and readers
rely on that to keep what they computed from the last snapshot.

Instances that are gone are kept in a queue of bounded length, the tombstones.
The operations edit the slices and the queue together, and some of them edit
one before they know whether the other changes. What makes their answers true
is that an instance is never live and gone at once: when a live instance is
written again with what it has, taking it off the queue takes nothing off; and
that a slice is never empty: when an instance is removed, there is a record to
read its DCC from, so that a removed slice never goes unreported.

## Main definitions

* `CapabilityIndexState`: The index.
* `upsertInstance`, `removeInstance`, `removeInstanceWithStatus`,
  `setUnloadedRecords`: The operations.
* `snapshot`, `instanceTombstone`: What readers see.
* `Operation`, `run`: Sequences of operations.
* `IndexInv`: The invariant.

## Theorems

* `index_invariant`: Both, in every state that is reached.
-/

namespace DccMcp

namespace Capability

open Naming Text

theorem uuid_bits_injective : Function.Injective (fun id : Uuid => id.bits.toNat) := by
  intro id id' h
  cases id
  cases id'
  exact congrArg Uuid.mk (BitVec.eq_of_toNat_eq h)

/-- The order of the bytes, the highest first. -/
instance : LinearOrder Uuid := LinearOrder.lift' (fun id => id.bits.toNat) uuid_bits_injective

/-- The hash of what an instance contributes. -/
structure InstanceFingerprint where
  value : UInt64
  deriving DecidableEq

/-- What is known of an instance that is gone. -/
structure InstanceTombstone where
  instanceId : Uuid
  dccType : String
  previousStatus : String
  deriving DecidableEq

/-- What a live instance contributes. -/
structure InstanceSlice where
  records : List CapabilityRecord
  fingerprint : InstanceFingerprint
  deriving DecidableEq

/-- The index. -/
structure CapabilityIndexState where
  perInstance : OrderedMap Uuid InstanceSlice
  tombstones : List InstanceTombstone
  unloaded : List CapabilityRecord

/-- `MAX_INSTANCE_TOMBSTONES`. -/
def maxInstanceTombstones : Nat := 256

/-- The order of slugs, which sorting is stable for. -/
def sortBySlug (records : List CapabilityRecord) : List CapabilityRecord :=
  records.mergeSort (fun a b => a.toolSlug ≤ b.toolSlug)

namespace CapabilityIndexState

/-- The index at the start. -/
def default : CapabilityIndexState := ⟨.empty _ _, [], []⟩

/-- `tombstones.retain`: the queue without an instance. -/
def withoutTombstone (st : CapabilityIndexState) (instanceId : Uuid) : List InstanceTombstone :=
  st.tombstones.filter (fun row => row.instanceId ≠ instanceId)

/-- `upsert_instance`, with the previous fingerprint and whether it changed
    something. -/
def upsertInstance (st : CapabilityIndexState) (instanceId : Uuid)
    (records : List CapabilityRecord) (fingerprint : InstanceFingerprint) :
    CapabilityIndexState × Option InstanceFingerprint × Bool :=
  let current := st.perInstance.lookup instanceId
  let previous := current.map InstanceSlice.fingerprint
  if records.isEmpty then
    ({ st with perInstance := st.perInstance.erase instanceId }, previous, previous.isSome)
  else
    let st := { st with tombstones := st.withoutTombstone instanceId }
    if current = some ⟨records, fingerprint⟩ then (st, some fingerprint, false)
    else
      ({ st with perInstance := st.perInstance.insert instanceId ⟨records, fingerprint⟩ },
        previous, true)

def removeInstance (st : CapabilityIndexState) (instanceId : Uuid) : CapabilityIndexState × Bool :=
  ({ st with perInstance := st.perInstance.erase instanceId },
    (st.perInstance.lookup instanceId).isSome)

/-- The DCC of an instance, as `remove_instance_with_status` finds it: from its
    first record, or from its tombstone. -/
def dccTypeOf (st : CapabilityIndexState) (instanceId : Uuid) : Option String :=
  ((st.perInstance.lookup instanceId).bind (fun slice =>
    slice.records.head?.map CapabilityRecord.dccType)).or
    ((st.tombstones.find? (fun row => row.instanceId = instanceId)).map
      InstanceTombstone.dccType)

/-- `remove_instance_with_status`, with whether the instance was live and
    whether something changed. -/
def removeInstanceWithStatus (st : CapabilityIndexState) (instanceId : Uuid)
    (previousStatus : String) : CapabilityIndexState × Bool × Bool :=
  let wasLive := (st.perInstance.lookup instanceId).isSome
  let perInstance := st.perInstance.erase instanceId
  match st.dccTypeOf instanceId with
  | none => ({ st with perInstance }, wasLive, false)
  | some dccType =>
    let rows := st.withoutTombstone instanceId
    let rows := if rows.length = maxInstanceTombstones then rows.drop 1 else rows
    ({ st with perInstance, tombstones := rows ++ [⟨instanceId, dccType, previousStatus⟩] },
      wasLive, true)

def setUnloadedRecords (st : CapabilityIndexState) (records : List CapabilityRecord) :
    CapabilityIndexState × Bool :=
  let records := sortBySlug records
  if st.unloaded = records then (st, false) else ({ st with unloaded := records }, true)

def fingerprintFor (st : CapabilityIndexState) (instanceId : Uuid) : Option InstanceFingerprint :=
  (st.perInstance.lookup instanceId).map InstanceSlice.fingerprint

/-- The filter of `instance_tombstone`: an id or a prefix of it. -/
def matchesHint (parseStr : String → Option Uuid) (dccType instanceHint : String)
    (row : InstanceTombstone) : Bool :=
  eqIgnoreAsciiCase row.dccType dccType &&
    match parseStr instanceHint with
    | some id => row.instanceId = id
    | none =>
      startsWith (toAsciiLowercase instanceHint)
        (.ofList (row.instanceId.simple.map (fun b => Char.ofNat b.toNat)))

/-- `instance_tombstone`: the newest row that matches, if no other does.
    `Uuid::parse_str` is the parser of the UUID library. -/
def instanceTombstone (parseStr : String → Option Uuid) (st : CapabilityIndexState)
    (dccType instanceHint : String) : Option InstanceTombstone :=
  match st.tombstones.reverse.filter (matchesHint parseStr dccType instanceHint) with
  | [row] => some row
  | _ => none

end CapabilityIndexState

/-- What readers get. -/
structure IndexSnapshot where
  records : List CapabilityRecord
  fingerprints : OrderedMap Uuid InstanceFingerprint

def CapabilityIndexState.snapshot (st : CapabilityIndexState) : IndexSnapshot where
  records := sortBySlug (st.perInstance.values.flatMap InstanceSlice.records ++ st.unloaded)
  fingerprints := st.perInstance.mapValues InstanceSlice.fingerprint

/-- The operations on the index. -/
inductive Operation
  | upsertInstance (instanceId : Uuid) (records : List CapabilityRecord)
      (fingerprint : InstanceFingerprint)
  | removeInstance (instanceId : Uuid)
  | removeInstanceWithStatus (instanceId : Uuid) (previousStatus : String)
  | setUnloadedRecords (records : List CapabilityRecord)

/-- An operation, with whether it reports a change. -/
def Operation.apply (st : CapabilityIndexState) : Operation → CapabilityIndexState × Bool
  | .upsertInstance instanceId records fingerprint =>
    let out := st.upsertInstance instanceId records fingerprint
    (out.1, out.2.2)
  | .removeInstance instanceId => st.removeInstance instanceId
  | .removeInstanceWithStatus instanceId previousStatus =>
    let out := st.removeInstanceWithStatus instanceId previousStatus
    (out.1, out.2.2)
  | .setUnloadedRecords records => st.setUnloadedRecords records

/-- A sequence of operations on a fresh index. -/
def run (ops : List Operation) : CapabilityIndexState :=
  ops.foldl (fun st op => (op.apply st).1) .default

/-- No slice is empty, and the tombstones are few, distinct and of instances
    that are not live. -/
structure IndexInv (st : CapabilityIndexState) : Prop where
  nonempty : ∀ instanceId slice, st.perInstance.lookup instanceId = some slice →
    slice.records ≠ []
  bounded : st.tombstones.length ≤ maxInstanceTombstones
  unique : (st.tombstones.map InstanceTombstone.instanceId).Nodup
  disjoint : ∀ row ∈ st.tombstones, st.perInstance.lookup row.instanceId = none

theorem indexInv_default : IndexInv .default := by
  refine ⟨fun instanceId slice h => ?_, Nat.zero_le _, List.nodup_nil, fun row hrow => ?_⟩
  · cases h
  · exact absurd hrow List.not_mem_nil

section Steps

variable (st : CapabilityIndexState) (h : IndexInv st) (instanceId : Uuid)

theorem erase_eq_self (hnone : st.perInstance.lookup instanceId = none) :
    st.perInstance.erase instanceId = st.perInstance := by
  refine OrderedMap.ext_lookup _ _ (fun key => ?_)
  rw [OrderedMap.lookup_erase]
  split
  next hkey => rw [hkey, hnone]
  next => rfl

/-- Forgetting an instance keeps the invariant. -/
theorem IndexInv.erase (h : IndexInv st) :
    IndexInv { st with perInstance := st.perInstance.erase instanceId } := by
  refine ⟨fun key slice hslice => ?_, h.bounded, h.unique, fun row hrow => ?_⟩
  · rw [OrderedMap.lookup_erase] at hslice
    split at hslice
    next => cases hslice
    next => exact h.nonempty key slice hslice
  · rw [OrderedMap.lookup_erase]
    split
    next => rfl
    next => exact h.disjoint row hrow

theorem mem_withoutTombstone (row : InstanceTombstone) :
    row ∈ st.withoutTombstone instanceId ↔ row ∈ st.tombstones ∧ row.instanceId ≠ instanceId := by
  rw [CapabilityIndexState.withoutTombstone, List.mem_filter, decide_eq_true_eq]

theorem IndexInv.withoutTombstone (h : IndexInv st) :
    IndexInv { st with tombstones := st.withoutTombstone instanceId } := by
  refine ⟨h.nonempty, ?_, ?_, fun row hrow => ?_⟩
  · exact (List.length_filter_le ..).trans h.bounded
  · exact h.unique.sublist (List.filter_sublist.map _)
  · exact h.disjoint row ((mem_withoutTombstone st instanceId row).mp hrow).1

/-- A live instance has no tombstone. -/
theorem withoutTombstone_eq_self (h : IndexInv st) (slice : InstanceSlice)
    (hlive : st.perInstance.lookup instanceId = some slice) :
    st.withoutTombstone instanceId = st.tombstones := by
  refine List.filter_eq_self.mpr (fun row hrow => decide_eq_true (fun heq => ?_))
  have hnone := h.disjoint row hrow
  rw [heq, hlive] at hnone
  cases hnone

/-- An instance whose DCC is not known is not live. -/
theorem lookup_of_dccTypeOf (h : IndexInv st) (hnone : st.dccTypeOf instanceId = none) :
    st.perInstance.lookup instanceId = none := by
  cases hlive : st.perInstance.lookup instanceId with
  | none => rfl
  | some slice =>
      rw [CapabilityIndexState.dccTypeOf, hlive, Option.or_eq_none_iff] at hnone
      -- The slice has a first record, which has a DCC.
      rcases List.exists_cons_of_ne_nil (h.nonempty instanceId slice hlive) with ⟨first, rest, heq⟩
      rw [Option.bind_some, heq, List.head?_cons] at hnone
      cases hnone.1

theorem indexInv_upsertInstance (h : IndexInv st) (records : List CapabilityRecord)
    (fingerprint : InstanceFingerprint) :
    IndexInv (st.upsertInstance instanceId records fingerprint).1 := by
  unfold CapabilityIndexState.upsertInstance
  dsimp only
  split
  -- No records: the instance is forgotten.
  next => exact h.erase st instanceId
  next hrecords =>
    have hkept := h.withoutTombstone st instanceId
    split
    next => exact hkept
    next =>
      -- A tombstone of the instance is gone before its slice is stored.
      refine ⟨fun key slice hslice => ?_, hkept.bounded, hkept.unique, fun row hrow => ?_⟩
      · by_cases hkey : key = instanceId
        · rw [hkey, OrderedMap.lookup_insert, Option.some.injEq] at hslice
          rw [← hslice]
          exact fun hnil => hrecords (List.isEmpty_iff.mpr hnil)
        · rw [OrderedMap.lookup_insert_ne _ _ _ _ hkey] at hslice
          exact h.nonempty key slice hslice
      · have hrow' := (mem_withoutTombstone st instanceId row).mp hrow
        exact (OrderedMap.lookup_insert_ne _ _ _ _ hrow'.2).trans (h.disjoint row hrow'.1)

theorem indexInv_removeInstanceWithStatus (h : IndexInv st) (previousStatus : String) :
    IndexInv (st.removeInstanceWithStatus instanceId previousStatus).1 := by
  have herased := h.erase st instanceId
  have hkept := h.withoutTombstone st instanceId
  unfold CapabilityIndexState.removeInstanceWithStatus
  dsimp only
  split
  next => exact herased
  next dccType _ =>
    -- What is left of the queue before the row is put at its end.
    obtain ⟨rows, hrows⟩ : ∃ rows, rows = if (st.withoutTombstone instanceId).length =
        maxInstanceTombstones then (st.withoutTombstone instanceId).drop 1
      else st.withoutTombstone instanceId := ⟨_, rfl⟩
    have hsub : rows.Sublist (st.withoutTombstone instanceId) := by
      rw [hrows]
      split
      · exact List.drop_sublist 1 _
      · exact List.Sublist.refl _
    -- A full queue loses its oldest row first.
    have hlen : rows.length < maxInstanceTombstones := by
      have hle := hkept.bounded
      dsimp only at hle
      rw [hrows]
      split
      next hfull =>
        rw [List.length_drop, hfull]
        decide
      next hfull => omega
    have hgone : ∀ row ∈ rows, row ∈ st.tombstones ∧ row.instanceId ≠ instanceId :=
      fun row hrow => (mem_withoutTombstone st instanceId row).mp (hsub.subset hrow)
    rw [← hrows]
    refine ⟨herased.nonempty, ?_, ?_, fun row hrow => ?_⟩
    · rw [List.length_append, List.length_singleton]
      omega
    · rw [List.map_append, List.map_singleton]
      refine List.nodup_append.mpr ⟨hkept.unique.sublist (hsub.map _), List.nodup_singleton _, ?_⟩
      intro id hid id' hid' heq
      rcases List.mem_map.mp hid with ⟨row, hrow, rfl⟩
      rw [List.mem_singleton] at hid'
      exact (hgone row hrow).2 (heq.trans hid')
    · rw [OrderedMap.lookup_erase]
      rcases List.mem_append.mp hrow with hrow | hrow
      · split
        next => rfl
        next => exact h.disjoint row (hgone row hrow).1
      · rw [List.mem_singleton] at hrow
        rw [hrow, if_pos rfl]

end Steps

/-- Every operation keeps the invariant. -/
theorem indexInv_apply (st : CapabilityIndexState) (h : IndexInv st) (op : Operation) :
    IndexInv (op.apply st).1 := by
  cases op with
  | upsertInstance instanceId records fingerprint =>
      exact indexInv_upsertInstance st instanceId h records fingerprint
  | removeInstance instanceId => exact h.erase st instanceId
  | removeInstanceWithStatus instanceId previousStatus =>
      exact indexInv_removeInstanceWithStatus st instanceId h previousStatus
  | setUnloadedRecords records =>
      unfold Operation.apply CapabilityIndexState.setUnloadedRecords
      dsimp only
      split
      next => exact h
      next => exact ⟨h.nonempty, h.bounded, h.unique, h.disjoint⟩

/-- An operation that reports no change changes nothing. -/
theorem apply_unchanged (st : CapabilityIndexState) (h : IndexInv st) (op : Operation)
    (hsame : (op.apply st).2 = false) : (op.apply st).1 = st := by
  -- Each operation answers false on one path, and that path writes what was
  -- there.
  cases op with
  | upsertInstance instanceId records fingerprint =>
      unfold Operation.apply CapabilityIndexState.upsertInstance at *
      dsimp only at *
      split at hsame
      next hrecords =>
        rw [if_pos hrecords]
        rw [Option.isSome_map, Option.isSome_eq_false_iff, Option.isNone_iff_eq_none] at hsame
        dsimp only
        rw [erase_eq_self st instanceId hsame]
      next hrecords =>
        split at hsame
        next hcurrent =>
          rw [if_neg hrecords, if_pos hcurrent]
          dsimp only
          -- The tombstone is dropped before the comparison, but a live instance has
          -- none.
          rw [withoutTombstone_eq_self st instanceId h _ hcurrent]
        next => cases hsame
  | removeInstance instanceId =>
      unfold Operation.apply CapabilityIndexState.removeInstance at *
      dsimp only at *
      rw [Option.isSome_eq_false_iff, Option.isNone_iff_eq_none] at hsame
      rw [erase_eq_self st instanceId hsame]
  | removeInstanceWithStatus instanceId previousStatus =>
      unfold Operation.apply CapabilityIndexState.removeInstanceWithStatus at *
      dsimp only at *
      cases hdcc : st.dccTypeOf instanceId with
      | none =>
          dsimp only
          -- Without a DCC there is no record, and an empty slice is never stored.
          rw [erase_eq_self st instanceId (lookup_of_dccTypeOf st instanceId h hdcc)]
      | some dccType =>
          rw [hdcc] at hsame
          cases hsame
  | setUnloadedRecords records =>
      unfold Operation.apply CapabilityIndexState.setUnloadedRecords at *
      dsimp only at *
      split at hsame
      next hequal => rw [if_pos hequal]
      next => cases hsame

theorem indexInv_run (ops : List Operation) : IndexInv (run ops) := by
  have hfrom : ∀ st, IndexInv st → IndexInv (ops.foldl (fun st op => (op.apply st).1) st) := by
    induction ops with
    | nil => exact fun st h => h
    | cons op rest ih => exact fun st h => ih _ (indexInv_apply st h op)
  exact hfrom _ indexInv_default

/-- In every state that is reached, slices are not empty and tombstones are
    few, distinct and of instances that are not live; and an operation that
    reports no change leaves what readers see as it was. -/
theorem index_invariant (parseStr : String → Option Uuid) (ops : List Operation) :
    IndexInv (run ops) ∧ ∀ op : Operation, (op.apply (run ops)).2 = false →
      (op.apply (run ops)).1.snapshot = (run ops).snapshot ∧
        ∀ dccType instanceHint,
          CapabilityIndexState.instanceTombstone parseStr (op.apply (run ops)).1 dccType instanceHint
            = CapabilityIndexState.instanceTombstone parseStr (run ops) dccType instanceHint := by
  refine ⟨indexInv_run ops, fun op hsame => ?_⟩
  rw [apply_unchanged (run ops) (indexInv_run ops) op hsame]
  exact ⟨rfl, fun dccType instanceHint => rfl⟩

end Capability

end DccMcp
