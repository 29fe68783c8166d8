import DccMcp.Lib.Json
import DccMcp.Lib.OrderedMap
import DccMcp.Lib.Text
import DccMcp.Lib.Uuid
import Mathlib.Data.Prod.Lex
import Mathlib.Data.String.Basic

/-!
# Service Rows

The rows of the service registry, and what single operations do to a row.

There are two functions that clear a lease. `clearLease` gives the instance
back: it is available again, and has just been heard of. `clearExpiredLease`
is what a reader makes of a row whose lease has run out. It touches neither a
status that says something other than "in use" nor the heartbeat.

Of the row only the fields are kept that the modelled operations read or
write.

## Main definitions

* `ServiceStatus`, `ServiceKey`, `ServiceEntry`, `ServiceSnapshot`: The data.
* `leaseExpired`, `activeLeaseOwner`: Reading a lease.
* `clearLease`, `clearExpiredLease`, `acquireLease`: Changing it.
* `applySnapshot`: A patch of the live data of a row.

## Theorems

* `clearLease_eq_clearExpiredLease`: When the two functions do the same.
-/

namespace DccMcp

namespace Registry

open Json (Value)

inductive ServiceStatus
  | available
  | busy
  | unreachable
  | shuttingDown
  | booting
  | stale
  deriving DecidableEq

/-- Composite key for service lookups. -/
structure ServiceKey where
  dccType : String
  instanceId : HyphenatedUuid

/-- The two parts of a key, in an order. -/
def ServiceKey.parts (key : ServiceKey) : String ×ₗ Nat := toLex (key.dccType, key.instanceId.value)

theorem ServiceKey.parts_injective : Function.Injective ServiceKey.parts := by
  intro k k' h
  rcases k with ⟨dccType, value, hlt⟩
  rcases k' with ⟨dccType', value', hlt'⟩
  have hparts := Prod.mk.inj (toLex_inj.mp h)
  obtain ⟨rfl, rfl⟩ := hparts
  rfl

instance : LinearOrder ServiceKey := LinearOrder.lift' ServiceKey.parts ServiceKey.parts_injective

/-- A row of the registry. Times are in nanoseconds. -/
structure ServiceEntry where
  schemaVersion : UInt16
  dccType : String
  instanceId : HyphenatedUuid
  version : Option String
  scene : Option String
  documents : List String
  pid : Option UInt32
  hostPid : Option UInt32
  sentinelPath : Option String
  displayName : Option String
  metadata : OrderedMap String String
  extras : OrderedMap String Value
  registeredAt : Nat
  lastHeartbeat : Nat
  status : ServiceStatus
  leaseOwner : Option String
  currentJobId : Option String
  leaseExpiresAt : Option Nat
  deriving DecidableEq

/-- A patch of one row. What is not given stays. -/
structure ServiceSnapshot where
  scene : Option String
  version : Option String
  documents : Option (List String)
  displayName : Option String
  metadata : Option (OrderedMap String String)
  extras : Option (OrderedMap String Value)

namespace ServiceEntry

def key (entry : ServiceEntry) : ServiceKey := ⟨entry.dccType, entry.instanceId⟩

def touch (entry : ServiceEntry) (now : Nat) : ServiceEntry := { entry with lastHeartbeat := now }

/-- `lease_expired`. A lease without an end does not expire. -/
def leaseExpired (entry : ServiceEntry) (now : Nat) : Bool :=
  entry.leaseExpiresAt.any (fun expiresAt => expiresAt ≤ now)

def activeLeaseOwner (entry : ServiceEntry) (now : Nat) : Option String :=
  entry.leaseOwner.filter (fun _ => !entry.leaseExpired now)

def clearLeaseFields (entry : ServiceEntry) : ServiceEntry :=
  { entry with leaseOwner := none, currentJobId := none, leaseExpiresAt := none }

def clearLease (entry : ServiceEntry) (now : Nat) : ServiceEntry :=
  { entry.clearLeaseFields with status := .available }.touch now

/-- `clear_expired_lease`: the row a reader sees. -/
def clearExpiredLease (entry : ServiceEntry) (now : Nat) : ServiceEntry :=
  if entry.leaseExpired now then
    let cleared := entry.clearLeaseFields
    if cleared.status = .busy then { cleared with status := .available } else cleared
  else entry

def acquireLease (entry : ServiceEntry) (owner : String) (currentJobId : Option String)
    (leaseExpiresAt : Option Nat) (now : Nat) : ServiceEntry :=
  { entry with
    leaseOwner := some owner
    currentJobId := currentJobId
    leaseExpiresAt := leaseExpiresAt
    status := .busy }.touch now

/-- An empty text stands for none. -/
def nonEmpty (s : String) : Option String := if s = "" then none else some s

def applyMetadataPatch (entry : ServiceEntry) (patch : OrderedMap String String) : ServiceEntry :=
  { entry with
    metadata := patch.entries.foldl
      (fun m e => if e.2 = "" then m.erase e.1 else m.insert e.1 e.2) entry.metadata }

def isNull : Value → Bool
  | .null => true
  | _ => false

def applyExtrasPatch (entry : ServiceEntry) (patch : OrderedMap String Value) : ServiceEntry :=
  { entry with
    extras := patch.entries.foldl
      (fun m e => if isNull e.2 then m.erase e.1 else m.insert e.1 e.2) entry.extras }

def applySnapshot (entry : ServiceEntry) (snapshot : ServiceSnapshot) (now : Nat) : ServiceEntry :=
  let entry := match snapshot.scene with
    | some scene => { entry with scene := nonEmpty scene }
    | none => entry
  let entry := match snapshot.version with
    | some version => { entry with version := nonEmpty version }
    | none => entry
  let entry := match snapshot.documents with
    | some documents => { entry with documents := documents.filter (· ≠ "") }
    | none => entry
  let entry := match snapshot.displayName with
    | some displayName => { entry with displayName := nonEmpty displayName }
    | none => entry
  let entry := match snapshot.metadata with
    | some patch => entry.applyMetadataPatch patch
    | none => entry
  let entry := match snapshot.extras with
    | some patch => entry.applyExtrasPatch patch
    | none => entry
  entry.touch now

/-! ## Leases -/

/-- The lease of a row: its owner, its job and its end. -/
def lease (entry : ServiceEntry) : Option String × Option String × Option Nat :=
  (entry.leaseOwner, entry.currentJobId, entry.leaseExpiresAt)

theorem lease_applySnapshot (entry : ServiceEntry) (snapshot : ServiceSnapshot) (now : Nat) :
    (entry.applySnapshot snapshot now).lease = entry.lease := by
  unfold applySnapshot
  rcases snapshot with ⟨scene, version, documents, displayName, metadata, extras⟩
  cases scene <;> cases version <;> cases documents <;> cases displayName <;> cases metadata <;>
    cases extras <;> rfl

theorem activeLeaseOwner_eq_some (entry : ServiceEntry) (now : Nat) (owner : String) :
    entry.activeLeaseOwner now = some owner ↔
      entry.leaseOwner = some owner ∧ entry.leaseExpired now = false := by
  unfold activeLeaseOwner
  rw [Option.filter_eq_some_iff, Bool.not_eq_true']

/-- The two functions do the same to an expired lease if the row was available
    or busy, and the heartbeat was of this very moment. -/
theorem clearLease_eq_clearExpiredLease (entry : ServiceEntry) (now touched : Nat)
    (h : entry.leaseExpired now = true) :
    entry.clearLease touched = entry.clearExpiredLease now ↔
      (entry.status = .available ∨ entry.status = .busy) ∧ entry.lastHeartbeat = touched := by
  rcases entry with ⟨schemaVersion, dccType, instanceId, version, scene, documents, pid, hostPid,
    sentinelPath, displayName, metadata, extras, registeredAt, lastHeartbeat, status, leaseOwner,
    currentJobId, leaseExpiresAt⟩
  unfold clearExpiredLease
  rw [if_pos h]
  cases status <;>
    simp only [clearLease, clearLeaseFields, touch, reduceCtorEq, if_false, if_true,
      ServiceEntry.mk.injEq, true_and, and_true, and_false, false_and, or_false, or_true, or_self,
      eq_comm]

/-- Whether the row a reader sees is available and without a lease. -/
theorem clearExpiredLease_free (entry : ServiceEntry) (now : Nat)
    (h : entry.leaseExpired now = true) :
    ((entry.clearExpiredLease now).status = .available ∧
        (entry.clearExpiredLease now).leaseOwner = none) ↔
      (entry.status = .available ∨ entry.status = .busy) := by
  unfold clearExpiredLease
  rw [if_pos h]
  unfold clearLeaseFields
  cases entry.status <;>
    simp

/-- What is granted does not depend on which of the two functions was used. -/
theorem acquireLease_clearLease (entry : ServiceEntry) (owner : String)
    (currentJobId : Option String) (leaseExpiresAt : Option Nat) (now touched : Nat)
    (h : entry.leaseExpired now = true) :
    (entry.clearLease touched).acquireLease owner currentJobId leaseExpiresAt touched =
      (entry.clearExpiredLease now).acquireLease owner currentJobId leaseExpiresAt touched := by
  unfold clearExpiredLease
  rw [if_pos h]
  unfold clearLease clearLeaseFields acquireLease touch
  cases entry.status <;> rfl

end ServiceEntry

end Registry

end DccMcp
