import DccMcp.Job.Types
import Mathlib.Algebra.Group.Nat.Defs

/-!
# The Persistence Circuit

The health record that decides whether the job tracker writes to its storage.

The circuit opens after three failures in a row with the same message, or at
once when the writer itself cannot take commands. It closes again only by
hand, with one exception: a circuit that was opened by a failed retention
prune lets later prunes through, and the first that succeeds closes it.

Failures are compared by their whole text, and only a category of it is shown
to the outside: `errorKind` is the table that reduces a backend's wording.

## Main definitions

* `JobStorageError`, `errorKind`: Storage failures and their categories.
* `PersistenceCircuit`: The health record.
* `PersistenceCircuit.canWrite`, `recordSuccess`, `recordFailure`, `disable`,
  `canRetryRetention`, `recordRetentionSuccess`, `status`: Its operations.
-/

namespace DccMcp

namespace Jobs

/-- A failure of a storage backend. -/
inductive JobStorageError
  | backend (message : String)
  | decode (message : String)
  | featureDisabled
  deriving DecidableEq

/-- `error.to_string()`. -/
def JobStorageError.text : JobStorageError → String
  | .backend message => "job storage backend error: " ++ message
  | .decode message => "failed to decode persisted job: " ++ message
  | .featureDisabled => "job_storage_path is set but the `job-persist-sqlite` Cargo feature is " ++
      "not enabled — rebuild dcc-mcp-core with `--features job-persist-sqlite` " ++
      "or clear job_storage_path"

def toAsciiLowercase (c : Char) : Char :=
  if 'A' ≤ c ∧ c ≤ 'Z' then Char.ofNat (c.toNat + 32) else c

/-- `str::contains` on the characters of a text. -/
def containsText (needle : String) (text : List Char) : Bool :=
  text.tails.any (fun rest => needle.toList.isPrefixOf rest)

def backendErrorKind (message : String) : String :=
  let normalized := message.toList.map toAsciiLowercase
  let mentions (needles : List String) : Bool :=
    needles.any (fun needle => containsText needle normalized)
  if mentions ["readonly", "read-only", "sqlite_readonly"] then "readonly"
  else if mentions ["wal", "-shm", "-wal", "journal"] then "wal"
  else if mentions ["busy", "locked", "lock"] then "busy"
  else if mentions ["disk full", "database or disk is full"] then "disk_full"
  else "backend"

def errorKind : JobStorageError → String
  | .backend message => backendErrorKind message
  | .decode _ => "decode"
  | .featureDisabled => "feature_disabled"

/-- Runtime state of the optional job-persistence backend. -/
inductive JobPersistenceState
  | notConfigured
  | healthy
  | degraded
  | disabled
  deriving DecidableEq

/-- Public snapshot of job-persistence health. -/
structure JobPersistenceStatus where
  state : JobPersistenceState
  consecutiveFailures : Nat
  lastErrorKind : Option String
  deriving DecidableEq

/-- The health record. -/
structure PersistenceCircuit where
  configured : Bool
  disabled : Bool
  consecutiveFailures : Nat
  lastError : Option String
  lastErrorKind : Option String
  deriving DecidableEq

namespace PersistenceCircuit

/-- `PersistenceCircuit::default`: no backend. -/
def default : PersistenceCircuit := ⟨false, false, 0, none, none⟩

/-- `PersistenceCircuit::configured`, a healthy backend. -/
def fresh : PersistenceCircuit := { default with configured := true }

/-- `PERSISTENCE_FAILURE_THRESHOLD`. -/
def failureThreshold : Nat := 3

def canWrite (c : PersistenceCircuit) : Bool := c.configured && !c.disabled

/-- `record_success`, which answers whether the backend recovered. -/
def recordSuccess (c : PersistenceCircuit) : Bool × PersistenceCircuit :=
  (0 < c.consecutiveFailures,
    { c with consecutiveFailures := 0, lastError := none, lastErrorKind := none })

/-- `u32::saturating_add(1)`. -/
def saturatingSucc (n : Nat) : Nat := min (n + 1) (2 ^ 32 - 1)

/-- `record_failure`, which answers whether the circuit is open. -/
def recordFailure (c : PersistenceCircuit) (error : JobStorageError) : Bool × PersistenceCircuit :=
  let counted : PersistenceCircuit :=
    if c.lastError = some error.text then
      { c with consecutiveFailures := saturatingSucc c.consecutiveFailures }
    else { c with consecutiveFailures := 1, lastError := some error.text }
  let named := { counted with lastErrorKind := some (errorKind error) }
  if failureThreshold ≤ named.consecutiveFailures then (true, { named with disabled := true })
  else (false, named)

/-- `disable`, which answers whether the circuit was closed before. -/
def disable (c : PersistenceCircuit) (errorKind : String) : Bool × PersistenceCircuit :=
  (!c.disabled, { c with
    disabled := true, consecutiveFailures := 0, lastError := none,
    lastErrorKind := some errorKind })

def canRetryRetention (c : PersistenceCircuit) : Bool :=
  c.configured && c.disabled && c.lastErrorKind == some "retention_prune_failed"

/-- `record_retention_success`, which answers whether it closed the circuit. -/
def recordRetentionSuccess (c : PersistenceCircuit) : Bool × PersistenceCircuit :=
  if c.canRetryRetention then
    (true, { c with
      disabled := false, consecutiveFailures := 0, lastError := none, lastErrorKind := none })
  else (false, c)

def status (c : PersistenceCircuit) : JobPersistenceStatus where
  state :=
    if !c.configured then .notConfigured
    else if c.disabled then .disabled
    else if 0 < c.consecutiveFailures then .degraded
    else .healthy
  consecutiveFailures := c.consecutiveFailures
  lastErrorKind := c.lastErrorKind

end PersistenceCircuit

end Jobs

end DccMcp
