import DccMcp.Registry.Entry
import DccMcp.Registry.Map
import DccMcp.Flow.Template

/-!
# Rolling Back a Transaction

A write transaction of the registry changes more than rows. An instance is
alive as long as the process that registered it holds a lock on a file of its
own, the sentinel; registering a row takes such a lock, and removing a row
gives it back and deletes the file. All this happens before the rows are
written to disk, and if that fails it has to be undone.

The rollback puts the rows back and then looks at the sentinels this process
owns: it drops those it did not own before, and makes again those it has
dropped. It can do nothing for a row of another process. If such a row was
removed its sentinel is gone, the row is still in the file, and the next reader
takes its owner for dead. And a row that was registered over loses the sentinel
file it had, because the rollback deletes the file together with the lock.

`rollback_restores` says when everything is as it was. Paths of sentinels are
determined by the keys of their rows, so each key can be looked at alone;
`view` is what there is to see at one key.

## Main definitions

* `sentinelPathFor`, `LockFile`, `State`: Lock files, and the state of a
  registry in the middle of its directory.
* `createSentinel`, `dropHandle`, `removeFile`, `removeEntry`: What operations
  do to sentinels.
* `Operation`, `runOperation`: The write operations.
* `rollback`, `failedFlush`: A transaction whose flush has failed.
* `Atomic`: Everything is as it was before.
* `Restorable`: The condition under which it is.

## Theorems

* `rollback_restores`: The condition is exact.
-/

namespace DccMcp

namespace Registry

namespace Rollback

/-- The rows of the registry by their keys. -/
abbrev Rows := EntryMap ServiceKey ServiceEntry

/-- `sentinel_path_for`, the name in the directory of the locks. -/
def sentinelPathFor (key : ServiceKey) : String :=
  .ofList (key.dccType.toList ++ ['-'] ++ key.instanceId.text ++ ".lock".toList)

theorem sentinelPathFor_injective (key key' : ServiceKey)
    (h : sentinelPathFor key = sentinelPathFor key') : key = key' := by
  have htext := String.ofList_injective h
  -- The identifiers have one length, so they can be cut off the end.
  have hfront := (List.append_inj' htext rfl).1
  have hparts := List.append_inj' hfront (by
    rw [HyphenatedUuid.length_text, HyphenatedUuid.length_text])
  have htype := (List.append_inj' hparts.1 rfl).1
  have hid := HyphenatedUuid.text_inj _ _ hparts.2
  rcases key with ⟨dccType, instanceId⟩
  rcases key' with ⟨dccType', instanceId'⟩
  simp only at htype hid
  rw [String.toList_inj.mp htype, hid]

/-- A lock file: it is not there, nobody has locked it, another process has, or
    this one has. -/
inductive LockFile
  | missing
  | free
  | other
  | ours
  deriving DecidableEq

/-- A handle of the registry and its directory: the rows in memory and on disk,
    the lock files, and the keys whose sentinels this process owns. A row that
    has a sentinel has the one of its key. -/
structure State where
  memory : Rows
  file : Rows
  files : String → LockFile
  handles : List ServiceKey
  keyed : ∀ key entry, file.lookup key = some entry → entry.key = key
  placed : ∀ key entry path, file.lookup key = some entry → entry.sentinelPath = some path →
    path = sentinelPathFor key

namespace State

/-- A handle is closed, which gives its lock back. -/
def dropHandle (s : State) (key : ServiceKey) : State :=
  if key ∈ s.handles then
    let path := sentinelPathFor key
    { s with
      handles := s.handles.filter (· ≠ key)
      files := Function.update s.files path
        (if s.files path = .ours then .free else s.files path) }
  else s

def removeFile (s : State) (path : String) : State :=
  { s with files := Function.update s.files path .missing }

def hasSentinel (s : State) (key : ServiceKey) : Bool := s.handles.contains key

/-- `path.exists()`. -/
def pathExists (s : State) (path : String) : Bool := s.files path ≠ .missing

end State

/-- The lock file of a key, made if need be and locked, with its handle put
    away. -/
def State.takeSentinel (s : State) (key : ServiceKey) : State :=
  { s with
    handles := key :: s.handles
    files := Function.update s.files (sentinelPathFor key) .ours }

/-- What can come of `create_sentinel`: an error, a lock that someone else
    holds, or a sentinel. -/
inductive Creation
  | failed
  | blocked
  | created (s : State)

/-- `create_sentinel`, with the handle put away. -/
def createSentinel (s : State) (key : ServiceKey) (fails : Bool) : Creation :=
  if fails then .failed
  else
    match s.files (sentinelPathFor key) with
    | .missing => .created (s.takeSentinel key)
    | .free => .created (s.takeSentinel key)
    | .other => .blocked
    | .ours => .blocked

theorem createSentinel_created (s t : State) (key : ServiceKey) (fails : Bool)
    (h : createSentinel s key fails = .created t) :
    fails = false ∧ t = s.takeSentinel key ∧
      (s.files (sentinelPathFor key) = .missing ∨ s.files (sentinelPathFor key) = .free) := by
  unfold createSentinel at h
  split at h
  next => cases h
  next hfails =>
    refine ⟨Bool.not_eq_true fails ▸ hfails, ?_⟩
    split at h
    next hfile => cases h; exact ⟨rfl, Or.inl hfile⟩
    next hfile => cases h; exact ⟨rfl, Or.inr hfile⟩
    next => cases h
    next => cases h

variable (s : State) (key : ServiceKey) (fails : Bool) (entry : ServiceEntry)

theorem createSentinel_failed (h : createSentinel s key fails = .failed) : fails = true := by
  unfold createSentinel at h
  split at h
  next hfails => exact hfails
  next => split at h <;> cases h

/-- What a process finds when it looks after others: the processes that run. -/
structure Probes where
  isPidAlive : UInt32 → Bool

def legacySidecarHostPid (entry : ServiceEntry) : Option UInt32 :=
  if entry.hostPid.isSome || entry.metadata.lookup "dcc_mcp_role" != some "per-dcc-sidecar" then
    none
  else do
    let watchedPid ← entry.pid
    let text ← entry.metadata.lookup "sidecar_pid"
    let sidecarPid ← (Workflow.parseUsize text.toList).filter (· < 4294967296)
    if watchedPid.toNat ≠ sidecarPid then some watchedPid else none

/-- `sentinel_is_dead`: nobody holds the lock. -/
def sentinelIsDead (s : State) (key : ServiceKey) (path : String) : Bool :=
  if s.hasSentinel key then false
  else
    match s.files path with
    | .missing => true
    | .free => true
    | .other => false
    | .ours => false

/-- The test of `prune_dead_entries`. -/
def isDead (probes : Probes) (s : State) (entry : ServiceEntry) : Bool :=
  let ownerDead :=
    match entry.sentinelPath with
    | some path => sentinelIsDead s entry.key path
    | none => entry.pid.any (fun pid => !probes.isPidAlive pid)
  let boundHostPid := entry.hostPid.or (legacySidecarHostPid entry)
  ownerDead || boundHostPid.any (fun pid => !probes.isPidAlive pid)

/-- `remove_entry`, and one round of the loop of `prune_dead_entries`. -/
def removeEntry (s : State) (key : ServiceKey) : State :=
  let removed := s.memory.lookup key
  let s := { s with memory := s.memory.erase key }.dropHandle key
  match removed.bind ServiceEntry.sentinelPath with
  | some path => s.removeFile path
  | none => s

/-- The write operations. The last one stands for those that change rows in
    memory and touch no sentinel: `heartbeat`, `update_status`,
    `update_snapshot`, `set_pid`, the leases and `cleanup_stale`. -/
inductive Operation
  | register (entry : ServiceEntry)
  | deregister (key : ServiceKey)
  | deregisterIfUnchanged (observed : ServiceEntry)
  | pruneDeadEntries (probes : Probes)
  | changeRows (f : Rows → Rows × Bool)

/-- The test of `deregister_if_unchanged`. -/
def isUnchanged (s : State) (observed : ServiceEntry) : Bool :=
  (s.memory.lookup observed.key).any (fun current =>
    current.registeredAt == observed.registeredAt &&
      current.lastHeartbeat == observed.lastHeartbeat)

/-- The keys of the rows that an operation removes together with their
    sentinels. -/
def Operation.removes (op : Operation) (s : State) : List ServiceKey :=
  match op with
  | .register _ => []
  | .deregister key => if (s.memory.lookup key).isSome then [key] else []
  | .deregisterIfUnchanged observed =>
    if isUnchanged s observed then [observed.key] else []
  | .pruneDeadEntries probes => (s.memory.values.filter (isDead probes s)).map ServiceEntry.key
  | .changeRows _ => []

/-- `register`. There is no result if the lock of the sentinel is held by
    someone else. -/
def register (s : State) (entry : ServiceEntry) : Option State :=
  let key := entry.key
  let path := sentinelPathFor key
  if s.hasSentinel key && s.pathExists path then
    some { s with memory := s.memory.insert key { entry with sentinelPath := some path } }
  else
    match createSentinel (s.dropHandle key) key false with
    | .created s =>
      some { s with memory := s.memory.insert key { entry with sentinelPath := some path } }
    | _ => none

/-- The body of a write transaction: the state, and whether there is something
    to write. -/
def runOperation (s : State) (op : Operation) : Option (State × Bool) :=
  match op with
  | .register entry => (register s entry).map (fun t => (t, true))
  | .deregister key => some (removeEntry s key, (s.memory.lookup key).isSome)
  | .deregisterIfUnchanged observed =>
    if isUnchanged s observed then some (removeEntry s observed.key, true) else some (s, false)
  | .pruneDeadEntries _ => some ((op.removes s).foldl removeEntry s, !(op.removes s).isEmpty)
  | .changeRows f => some ({ s with memory := (f s.memory).1 }, (f s.memory).2)

/-- What fails besides the flush: reading the file again, and making sentinels
    again. -/
structure Faults where
  rereadFails : Bool
  restoreFails : ServiceKey → Bool

/-- The first loop of `reconcile_sentinels_after_rollback`. -/
def dropExtra (s : State) (desired : List ServiceKey) : State :=
  (s.handles.filter (· ∉ desired)).foldl
    (fun s key => (s.dropHandle key).removeFile (sentinelPathFor key)) s

/-- One round of the second loop. -/
def restore (faults : Faults) (s : State) (key : ServiceKey) : Option State :=
  if s.hasSentinel key then some s
  else
    match createSentinel s key (faults.restoreFails key) with
    | .failed => some s
    | .blocked => none
    | .created t =>
      let path := sentinelPathFor key
      some { t with
        memory := t.memory.modify key (fun entry => { entry with sentinelPath := some path }) }

/-- The second loop. -/
def restoreAll (faults : Faults) : State → List ServiceKey → Option State
  | s, [] => some s
  | s, key :: rest =>
    match restore faults s key with
    | none => none
    | some t => restoreAll faults t rest

/-- `rollback_failed_transaction`, from the state after the operation. -/
def rollback (faults : Faults) (baseline : Rows) (baselineOwned : List ServiceKey) (s : State) :
    Option State :=
  let rows := if faults.rereadFails then baseline else s.file
  let desired := baselineOwned.filter (fun key => (rows.lookup key).isSome)
  restoreAll faults (dropExtra { s with memory := rows } desired) desired

/-- A write transaction whose flush fails: the rows are loaded, the operation
    runs, and if there is something to write it is rolled back. There is no
    result if the operation succeeds, or waits for a lock forever. -/
def failedFlush (s : State) (op : Operation) (faults : Faults) : Option State :=
  let loaded := { s with memory := s.file }
  match runOperation loaded op with
  | some (t, true) => rollback faults loaded.memory loaded.handles t
  | _ => none

/-! ## What is asked for -/

/-- The rows in memory are those of the file, this process owns the sentinels
    it had of the rows that are there, and no sentinel of a row has changed. -/
structure Atomic (s t : State) : Prop where
  memory : t.memory = t.file
  owned : ∀ key, key ∈ t.handles ↔ key ∈ s.handles ∧ (t.file.lookup key).isSome
  sentinels : ∀ key entry path, t.file.lookup key = some entry → entry.sentinelPath = some path →
    t.files path = s.files path

/-- A row that is removed is one of this process, with its sentinel in place
    and one that can be made again, or a row without a sentinel file. -/
def RemovesRestorable (s : State) (op : Operation) (faults : Faults) : Prop :=
  ∀ key entry, s.file.lookup key = some entry → key ∈ op.removes { s with memory := s.file } →
    if key ∈ s.handles then
      entry.sentinelPath = some (sentinelPathFor key) ∧ s.files (sentinelPathFor key) = .ours ∧
        faults.restoreFails key = false
    else entry.sentinelPath = none ∨ s.files (sentinelPathFor key) = .missing

/-- A row with a sentinel that is registered over is one of this process whose
    sentinel file is there, or one of another process whose sentinel file is
    not. -/
def RegistersRestorable (s : State) (op : Operation) : Prop :=
  ∀ entry old, op = .register entry → s.file.lookup entry.key = some old →
    old.sentinelPath.isSome →
      (entry.key ∈ s.handles ↔ s.files (sentinelPathFor entry.key) ≠ .missing)

/-- The condition under which everything is as it was. -/
def Restorable (s : State) (op : Operation) (faults : Faults) : Prop :=
  RemovesRestorable s op faults ∧ RegistersRestorable s op

/-- What a later pruning makes of the rows that are there: the same as before,
    if everything is as it was. -/
theorem isDead_of_atomic (s t : State) (probes : Probes) (h : Atomic s t) (key : ServiceKey)
    (entry : ServiceEntry) (hentry : t.file.lookup key = some entry) :
    isDead probes t entry = isDead probes s entry := by
  have hkey := t.keyed key entry hentry
  have howned : t.hasSentinel entry.key = s.hasSentinel entry.key := by
    unfold State.hasSentinel
    rw [Bool.eq_iff_iff, List.contains_iff_mem, List.contains_iff_mem, h.owned, hkey, hentry]
    exact and_iff_left rfl
  have hdead : ∀ path, entry.sentinelPath = some path →
      sentinelIsDead t entry.key path = sentinelIsDead s entry.key path := by
    intro path hpath
    unfold sentinelIsDead
    rw [howned, h.sentinels key entry path hentry hpath]
  unfold isDead
  cases hpath : entry.sentinelPath with
  | none => rfl
  | some path => simp only [hdead path hpath]

/-! ## One key -/

/-- What there is to see at one key: its row in memory, its lock file, and
    whether this process owns its sentinel. -/
structure View where
  row : Option ServiceEntry
  file : LockFile
  owned : Bool

def view (s : State) (key : ServiceKey) : View :=
  ⟨s.memory.lookup key, s.files (sentinelPathFor key), decide (key ∈ s.handles)⟩

/-- The row with the path of its sentinel. -/
def withPath (key : ServiceKey) (entry : ServiceEntry) : ServiceEntry :=
  { entry with sentinelPath := some (sentinelPathFor key) }

theorem withPath_eq_self_iff :
    withPath key entry = entry ↔ entry.sentinelPath = some (sentinelPathFor key) := by
  constructor
  · intro hsame
    rw [← hsame]
    rfl
  · intro hpath
    unfold withPath
    rw [← hpath]

namespace View

/-- The handle is closed. -/
def closed (v : View) : View :=
  { v with file := if v.owned && v.file = .ours then .free else v.file, owned := false }

/-- The row is removed together with its sentinel. -/
def removed (v : View) : View where
  row := none
  file := if (v.row.bind ServiceEntry.sentinelPath).isSome then .missing else v.closed.file
  owned := false

/-- The sentinel is dropped. -/
def dropped (v : View) : View := { v with file := .missing, owned := false }

/-- The sentinel is made again. -/
def restored (key : ServiceKey) (fails : Bool) (v : View) : View :=
  if v.owned || fails then v else ⟨v.row.map (withPath key), .ours, true⟩

theorem removed_removed (v : View) : v.removed.removed = v.removed := rfl

theorem dropped_dropped (v : View) : v.dropped.dropped = v.dropped := rfl

theorem restored_restored (key : ServiceKey) (fails : Bool) (v : View) :
    (v.restored key fails).restored key fails = v.restored key fails := by
  unfold restored
  cases hboth : v.owned || fails with
  | true => rw [if_pos rfl, if_pos hboth]
  | false => rfl

end View

theorem update_sentinel (files : String → LockFile) (key key' : ServiceKey) (file : LockFile) :
    Function.update files (sentinelPathFor key) file (sentinelPathFor key') =
      if key' = key then file else files (sentinelPathFor key') := by
  by_cases hkey : key' = key
  · rw [hkey, if_pos rfl, Function.update_self]
  · rw [if_neg hkey, Function.update_of_ne (fun h => hkey (sentinelPathFor_injective _ _ h))]

theorem view_dropHandle (key key' : ServiceKey) :
    view (s.dropHandle key) key' = if key' = key then (view s key).closed else view s key' := by
  unfold State.dropHandle
  by_cases howned : key ∈ s.handles
  · rw [if_pos howned]
    unfold view
    simp only [update_sentinel, List.mem_filter, decide_eq_true_eq]
    by_cases hkey : key' = key
    · rw [hkey]
      simp [View.closed, howned]
    · simp [hkey]
  · rw [if_neg howned]
    by_cases hkey : key' = key
    · rw [if_pos hkey, hkey]
      simp [view, View.closed, howned]
    · rw [if_neg hkey]

theorem view_removeFile (key key' : ServiceKey) : view (s.removeFile (sentinelPathFor key)) key' =
      if key' = key then { view s key with file := .missing } else view s key' := by
  unfold State.removeFile view
  simp only [update_sentinel]
  by_cases hkey : key' = key
  · rw [hkey, if_pos rfl, if_pos rfl]
  · rw [if_neg hkey, if_neg hkey]

theorem view_takeSentinel (key key' : ServiceKey) : view (s.takeSentinel key) key' =
      if key' = key then ⟨(view s key).row, .ours, true⟩ else view s key' := by
  unfold State.takeSentinel view
  simp only [update_sentinel, List.mem_cons]
  by_cases hkey : key' = key
  · simp [hkey]
  · simp [hkey]

theorem view_insert (key key' : ServiceKey) (entry : ServiceEntry) :
    view { s with memory := s.memory.insert key entry } key' =
      if key' = key then { view s key with row := some entry } else view s key' := by
  unfold view
  by_cases hkey : key' = key
  · rw [hkey, if_pos rfl, OrderedMap.lookup_insert]
  · rw [if_neg hkey]
    simp only [OrderedMap.lookup_insert_ne s.memory key key' entry hkey]

/-- Every row in memory has the sentinel of its key, if it has one. -/
def MemoryPlaced (s : State) : Prop :=
  ∀ key entry path, s.memory.lookup key = some entry → entry.sentinelPath = some path →
    path = sentinelPathFor key

theorem memory_dropHandle (s : State) (key : ServiceKey) :
    (s.dropHandle key).memory = s.memory ∧ (s.dropHandle key).file = s.file := by
  unfold State.dropHandle
  split <;> exact ⟨rfl, rfl⟩

theorem memory_removeEntry (s : State) (key : ServiceKey) :
    (removeEntry s key).memory = s.memory.erase key ∧ (removeEntry s key).file = s.file := by
  unfold removeEntry
  have hdrop := memory_dropHandle { s with memory := s.memory.erase key } key
  simp only
  split
  next => exact hdrop
  next => exact hdrop

theorem placed_removeEntry (s : State) (key : ServiceKey) (h : MemoryPlaced s) :
    MemoryPlaced (removeEntry s key) := by
  intro key' entry path hentry hpath
  rw [(memory_removeEntry s key).1, OrderedMap.lookup_erase] at hentry
  split at hentry
  next => cases hentry
  next => exact h key' entry path hentry hpath

theorem view_removeEntry (key key' : ServiceKey) (h : MemoryPlaced s) :
    view (removeEntry s key) key' = if key' = key then (view s key).removed else view s key' := by
  have herase : ∀ k, view { s with memory := s.memory.erase key } k =
      if k = key then { view s key with row := none } else view s k := by
    intro k
    unfold view
    simp only [OrderedMap.lookup_erase]
    by_cases hk : k = key
    · rw [hk, if_pos rfl, if_pos rfl]
    · rw [if_neg hk, if_neg hk]
  unfold removeEntry
  simp only
  split
  next path hpath =>
    -- The path in the row is the one of the key, so no other key sees the file go.
    rcases Option.bind_eq_some_iff.mp hpath with ⟨entry, hentry, hentrypath⟩
    rw [h key entry path hentry hentrypath, view_removeFile, view_dropHandle, view_dropHandle]
    simp only [herase, if_true]
    by_cases hkey : key' = key
    · have hsome : ((view s key).row.bind ServiceEntry.sentinelPath).isSome = true := by
        unfold view
        rw [hpath]
        rfl
      rw [if_pos hkey, if_pos hkey]
      simp [View.removed, View.closed, hsome]
    · rw [if_neg hkey, if_neg hkey, if_neg hkey, if_neg hkey]
  next hnone =>
    rw [view_dropHandle]
    simp only [herase, if_true]
    by_cases hkey : key' = key
    · have hnone' : ((view s key).row.bind ServiceEntry.sentinelPath).isSome = false := by
        unfold view
        rw [hnone]
        rfl
      rw [if_pos hkey, if_pos hkey]
      simp [View.removed, View.closed, hnone']
    · rw [if_neg hkey, if_neg hkey, if_neg hkey]

/-! ## The loops -/

/-- A loop over keys that does something to the view at each key it comes to,
    and the same when it comes there twice. -/
theorem view_foldl (f : State → ServiceKey → State) (g : View → View) (P : State → Prop)
    (hg : ∀ v, g (g v) = g v)
    (hstep : ∀ s key key', P s →
      view (f s key) key' = if key' = key then g (view s key) else view s key')
    (hP : ∀ s key, P s → P (f s key)) (keys : List ServiceKey) (s : State) (key : ServiceKey)
    (hs : P s) :
    view (keys.foldl f s) key = if key ∈ keys then g (view s key) else view s key := by
  induction keys generalizing s with
  | nil => rfl
  | cons first rest ih =>
      rw [List.foldl_cons, ih (f s first) (hP s first hs), hstep s first key hs]
      by_cases hfirst : key = first
      · rw [if_pos hfirst, if_pos (List.mem_cons.mpr (Or.inl hfirst)), hfirst]
        split
        next => exact hg (view s first)
        next => rfl
      · have hmem : key ∈ first :: rest ↔ key ∈ rest := by
          rw [List.mem_cons]
          exact or_iff_right hfirst
        simp only [if_neg hfirst, hmem]

theorem view_removeEntries (keys : List ServiceKey) (key : ServiceKey) (h : MemoryPlaced s) :
    view (keys.foldl removeEntry s) key =
      if key ∈ keys then (view s key).removed else view s key :=
  view_foldl removeEntry View.removed MemoryPlaced View.removed_removed view_removeEntry
    placed_removeEntry keys s key h

theorem file_removeEntries (keys : List ServiceKey) (s : State) :
    (keys.foldl removeEntry s).file = s.file := by
  induction keys generalizing s with
  | nil => rfl
  | cons first rest ih =>
      rw [List.foldl_cons, ih]
      exact (memory_removeEntry s first).2

theorem view_dropExtra (desired : List ServiceKey) (key : ServiceKey) :
    view (dropExtra s desired) key =
      if key ∈ s.handles ∧ key ∉ desired then (view s key).dropped else view s key := by
  unfold dropExtra
  rw [view_foldl _ View.dropped (fun _ => True) View.dropped_dropped _ (fun _ _ h => h) _ s key
    trivial]
  · simp
  · intro s first key _
    rw [view_removeFile, view_dropHandle, view_dropHandle, if_pos rfl]
    by_cases hkey : key = first
    · rw [if_pos hkey, if_pos hkey]
      rfl
    · rw [if_neg hkey, if_neg hkey, if_neg hkey]

theorem file_dropExtra (s : State) (desired : List ServiceKey) :
    (dropExtra s desired).file = s.file := by
  unfold dropExtra
  generalize s.handles.filter (· ∉ desired) = keys
  induction keys generalizing s with
  | nil => rfl
  | cons first rest ih =>
      rw [List.foldl_cons, ih]
      exact (memory_dropHandle s first).2

theorem view_restore (faults : Faults) (s t : State) (key : ServiceKey)
    (h : restore faults s key = some t) :
    t.file = s.file ∧ ∀ key', view t key' =
      if key' = key then (view s key).restored key (faults.restoreFails key)
      else view s key' := by
  unfold restore State.hasSentinel at h
  by_cases howned : key ∈ s.handles
  · -- The operation has not dropped it.
    rw [if_pos (List.contains_iff_mem.mpr howned)] at h
    cases h
    refine ⟨rfl, fun key' => ?_⟩
    unfold View.restored view
    simp only [howned, decide_true, Bool.true_or, if_true]
    split
    next hkey => rw [hkey]; simp only [howned, decide_true]
    next => rfl
  · rw [if_neg (fun hc => howned (List.contains_iff_mem.mp hc))] at h
    have howned' : (view s key).owned = false := decide_eq_false howned
    split at h
    next hfailed =>
      -- A failure is only logged.
      cases h
      refine ⟨rfl, fun key' => ?_⟩
      rw [createSentinel_failed s key _ hfailed]
      unfold View.restored
      rw [Bool.or_true, if_pos rfl]
      split
      next hkey => rw [hkey]
      next => rfl
    next => cases h
    next u hcreated =>
      rcases createSentinel_created s u key _ hcreated with ⟨hfails, rfl, -⟩
      cases h
      refine ⟨rfl, fun key' => ?_⟩
      have htaken := view_takeSentinel s key key'
      unfold View.restored
      rw [hfails, howned', Bool.or_self, if_neg Bool.false_ne_true]
      unfold view at htaken ⊢
      simp only [OrderedMap.lookup_modify]
      by_cases hkey : key' = key
      · rw [if_pos hkey] at htaken ⊢
        rw [View.mk.injEq] at htaken
        rw [htaken.1, htaken.2.1, htaken.2.2, if_pos hkey]
        rfl
      · rw [if_neg hkey] at htaken ⊢
        rw [if_neg hkey]
        exact htaken

theorem view_restoreAll (faults : Faults) (keys : List ServiceKey) (s t : State)
    (h : restoreAll faults s keys = some t) :
    t.file = s.file ∧ ∀ key, view t key =
      if key ∈ keys then (view s key).restored key (faults.restoreFails key)
      else view s key := by
  induction keys generalizing s with
  | nil =>
      cases h
      exact ⟨rfl, fun _ => rfl⟩
  | cons first rest ih =>
      unfold restoreAll at h
      split at h
      next => cases h
      next u hu =>
        have hfirst := view_restore faults s u first hu
        have hrest := ih u h
        refine ⟨hrest.1.trans hfirst.1, fun key => ?_⟩
        rw [hrest.2, hfirst.2]
        by_cases hkey : key = first
        · -- It may come again, and finds its sentinel made.
          rw [if_pos hkey, if_pos (List.mem_cons.mpr (Or.inl hkey)), ← hkey]
          split
          next => exact View.restored_restored key _ _
          next => rfl
        · have hmem : key ∈ first :: rest ↔ key ∈ rest := by
            rw [List.mem_cons]
            exact or_iff_right hkey
          simp only [if_neg hkey, hmem]

/-! ## The rollback at one key -/

/-- What the rollback leaves at a key, from what was there before the operation
    and what the operation has left. -/
def View.rolledBack (key : ServiceKey) (fails : Bool) (before after : View) : View :=
  let v : View := { after with row := before.row }
  if before.owned && before.row.isSome then v.restored key fails
  else if v.owned then v.dropped
  else v

theorem view_rollback (faults : Faults) (s u t : State)
    (hmemory : s.memory = s.file) (hfile : u.file = s.file)
    (h : rollback faults s.memory s.handles u = some t) :
    t.file = s.file ∧ ∀ key,
      view t key = (view s key).rolledBack key (faults.restoreFails key) (view u key) := by
  unfold rollback at h
  -- The rows come back from the file or from the baseline, which agree.
  have hrows : (if faults.rereadFails then s.memory else u.file) = s.memory := by
    split
    next => rfl
    next => rw [hfile, hmemory]
  rw [hrows] at h
  simp only at h
  have hrestore := view_restoreAll faults _ _ t h
  refine ⟨hrestore.1.trans ((file_dropExtra _ _).trans hfile), fun key => ?_⟩
  have hdesired : key ∈ s.handles.filter (fun key => (s.memory.lookup key).isSome) ↔
      ((view s key).owned && (view s key).row.isSome) = true := by
    unfold view
    rw [List.mem_filter, Bool.and_eq_true, decide_eq_true_eq]
  rw [hrestore.2, view_dropExtra]
  unfold View.rolledBack
  by_cases hwanted : ((view s key).owned && (view s key).row.isSome) = true
  · rw [if_pos (hdesired.mpr hwanted), if_pos hwanted,
      if_neg (fun hc => hc.2 (hdesired.mpr hwanted))]
    rfl
  · have hextra : key ∈ u.handles ↔ (view u key).owned = true := by
      unfold view
      rw [decide_eq_true_eq]
    rw [if_neg (fun hc => hwanted (hdesired.mp hc)), if_neg hwanted]
    by_cases howned : key ∈ u.handles
    · rw [if_pos ⟨howned, fun hc => hwanted (hdesired.mp hc)⟩]
      exact (if_pos (hextra.mp howned)).symm
    · rw [if_neg (fun hc => howned hc.1)]
      exact (if_neg (mt hextra.mpr howned)).symm

/-! ## The operations at one key -/

/-- Everything at one key is as it was. -/
structure View.AtomicAt (before after : View) : Prop where
  row : after.row = before.row
  owned : after.owned = (before.owned && before.row.isSome)
  sentinel : (before.row.bind ServiceEntry.sentinelPath).isSome → after.file = before.file

/-- The row is one of this process with its sentinel in place and one that can
    be made again, or it has no sentinel file. -/
def View.RemovableAt (key : ServiceKey) (fails : Bool) (v : View) : Prop :=
  ∀ entry, v.row = some entry →
    if v.owned then
      entry.sentinelPath = some (sentinelPathFor key) ∧ v.file = .ours ∧ fails = false
    else entry.sentinelPath = none ∨ v.file = .missing

/-- A sentinel that is registered over is one of this process that is there,
    or one of another process that is not. -/
def View.RegisterableAt (v : View) : Prop :=
  (v.row.bind ServiceEntry.sentinelPath).isSome → (v.owned = true ↔ v.file ≠ .missing)

/-- The path of the sentinel of the row. -/
def View.path (v : View) : Option String := v.row.bind ServiceEntry.sentinelPath

/-- A sentinel that was not this process's, or belongs to no row, is lost if
    this process has got it meanwhile. -/
theorem View.atomicAt_foreign (v w : View) (h : (v.owned && v.row.isSome) = false) :
    v.AtomicAt (v.rolledBack key fails w) ↔
      (v.path.isSome → (if w.owned then .missing else w.file) = v.file) := by
  have hrolled : v.rolledBack key fails w =
      ⟨v.row, if w.owned then .missing else w.file, false⟩ := by
    unfold rolledBack dropped
    rw [if_neg (ne_true_of_eq_false h)]
    cases howned : w.owned with
    | true => rfl
    | false => simp
  rw [hrolled]
  constructor
  · intro hatomic
    exact hatomic.sentinel
  · intro hsentinel
    exact ⟨rfl, h.symm, hsentinel⟩

/-- A sentinel of this process is the same if it still has it, and if it has
    not, it depends on what is made again. -/
theorem View.atomicAt_own (v w : View) (h : (v.owned && v.row.isSome) = true) :
    v.AtomicAt (v.rolledBack key fails w) ↔
      if w.owned then v.path.isSome → w.file = v.file
      else fails = false ∧ v.row.map (withPath key) = v.row ∧ (v.path.isSome → v.file = .ours) := by
  have hrolled : v.rolledBack key fails w =
      if w.owned || fails then ⟨v.row, w.file, w.owned⟩
      else ⟨v.row.map (withPath key), .ours, true⟩ := by
    unfold rolledBack restored
    rw [if_pos h]
  rw [hrolled]
  cases howned : w.owned with
  | true =>
      rw [Bool.true_or, if_pos rfl, if_pos rfl]
      constructor
      · intro hatomic
        exact hatomic.sentinel
      · intro hsentinel
        exact ⟨rfl, h.symm, hsentinel⟩
  | false =>
      rw [Bool.false_or, if_neg Bool.false_ne_true]
      cases fails with
      | true =>
          constructor
          · intro hatomic
            -- The sentinel is not this process's any more.
            have hlost := hatomic.owned
            rw [h] at hlost
            cases hlost
          · intro hfails
            cases hfails.1
      | false =>
          constructor
          · intro hatomic
            exact ⟨rfl, hatomic.row, fun hpath => (hatomic.sentinel hpath).symm⟩
          · intro hmade
            exact ⟨hmade.2.1, h.symm, fun hpath => (hmade.2.2 hpath).symm⟩

/-- A key whose sentinel the operation has left alone. -/
theorem View.atomicAt_kept (v w : View) (hfile : w.file = v.file) (howned : w.owned = v.owned) :
    v.AtomicAt (v.rolledBack key fails w) := by
  cases hown : v.owned && v.row.isSome with
  | true =>
      have htrue : w.owned = true := howned.trans (Bool.and_eq_true_iff.mp hown).1
      rw [atomicAt_own key fails v w hown, if_pos htrue]
      intro _
      exact hfile
  | false =>
      rw [atomicAt_foreign key fails v w hown]
      intro hpath
      -- There is a row, so the sentinel is not this process's.
      have hrow : v.row.isSome = true := by
        unfold path at hpath
        exact Option.isSome_of_isSome_bind hpath
      rw [hrow, Bool.and_true] at hown
      rw [howned, hown]
      exact hfile

theorem View.atomicAt_removed (v : View) :
    v.AtomicAt (v.rolledBack key fails v.removed) ↔ v.RemovableAt key fails := by
  unfold RemovableAt
  cases hrow : v.row with
  | none =>
      -- No row, nothing to see but the file of no path.
      have hpath : v.path = none := by
        unfold path
        rw [hrow]
        rfl
      rw [atomicAt_foreign key fails v _ (by rw [hrow]; exact Bool.and_false _), hpath]
      constructor
      · intro _ entry hentry
        cases hentry
      · intro _ hsome
        cases hsome
  | some entry =>
      have hpath : v.path = entry.sentinelPath := by
        unfold path
        rw [hrow]
        rfl
      have hthis : ∀ P : ServiceEntry → Prop, (∀ e, some entry = some e → P e) ↔ P entry := by
        intro P
        constructor
        · intro hall
          exact hall entry rfl
        · intro hentry e he
          cases he
          exact hentry
      rw [hthis]
      cases howned : v.owned with
      | true =>
          -- The rollback makes the sentinel again, under the path of the key.
          have hlost : v.removed.owned = false := rfl
          rw [atomicAt_own key fails v _ (by rw [hrow, howned]; rfl), hpath, hrow, hlost,
            if_neg Bool.false_ne_true, if_pos rfl, Option.map_some, Option.some_inj,
            withPath_eq_self_iff]
          constructor
          · rintro ⟨hfails, hsame, hfile⟩
            exact ⟨hsame, hfile (by rw [hsame]; rfl), hfails⟩
          · rintro ⟨hsame, hfile, hfails⟩
            exact ⟨hfails, hsame, fun _ => hfile⟩
      | false =>
          -- Nothing makes it again, so it must not have been there.
          have hlost : v.removed.owned = false := rfl
          rw [atomicAt_foreign key fails v _ (by rw [hrow, howned]; rfl), hpath, hlost,
            if_neg Bool.false_ne_true, if_neg Bool.false_ne_true]
          unfold removed
          rw [hrow, Option.bind_some]
          cases hsentinel : entry.sentinelPath with
          | none =>
              constructor
              · intro _
                exact Or.inl rfl
              · intro _ hsome
                cases hsome
          | some sentinel =>
              constructor
              · intro hfile
                exact Or.inr (hfile rfl).symm
              · rintro (hnone | hfile) _
                · cases hnone
                · exact hfile.symm

/-- What is to see at a key after it has been registered. -/
def View.registered (key : ServiceKey) (entry : ServiceEntry) (v : View) : View :=
  ⟨some (withPath key entry), if v.owned && v.file ≠ .missing then v.file else .ours, true⟩

theorem View.atomicAt_registered (v : View) :
    v.AtomicAt (v.rolledBack key fails (v.registered key entry)) ↔ v.RegisterableAt := by
  have hthis : (v.registered key entry).owned = true := rfl
  unfold RegisterableAt
  cases hown : v.owned && v.row.isSome with
  | true =>
      have howned := (Bool.and_eq_true_iff.mp hown).1
      rw [atomicAt_own key fails v _ hown, if_pos hthis]
      refine imp_congr_right (fun _ => ?_)
      unfold registered
      rw [howned]
      by_cases hfile : v.file = .missing
      · simp [hfile]
      · simp [hfile]
  | false =>
      rw [atomicAt_foreign key fails v _ hown, if_pos hthis]
      refine imp_congr_right (fun hpath => ?_)
      have hrow : v.row.isSome = true := Option.isSome_of_isSome_bind hpath
      rw [hrow, Bool.and_true] at hown
      rw [hown]
      by_cases hfile : v.file = .missing
      · simp [hfile]
      · simp [hfile, Ne.symm hfile]

theorem hasSentinel_eq : (s.hasSentinel key && s.pathExists (sentinelPathFor key)) =
      ((view s key).owned && (view s key).file ≠ .missing) := by
  unfold State.hasSentinel State.pathExists view
  rw [List.contains_eq_mem]

/-- `register` at every key. A lock that someone else has stops it. -/
theorem view_register (s t : State) (entry : ServiceEntry)
    (h : register s entry = some t) :
    t.file = s.file ∧ ∀ key, view t key =
      if key = entry.key then (view s key).registered key entry else view s key := by
  unfold register at h
  simp only at h
  rw [hasSentinel_eq] at h
  split at h
  next hkept =>
    -- The sentinel is there and is kept.
    cases h
    refine ⟨rfl, fun key => ?_⟩
    rw [view_insert]
    split
    next hkey =>
      unfold View.registered
      rw [hkey, if_pos hkept]
      have howned := (Bool.and_eq_true_iff.mp hkept).1
      rw [View.mk.injEq]
      exact ⟨rfl, rfl, howned⟩
    next => rfl
  next hnot =>
    split at h
    next u hcreated =>
      -- A handle of an unlinked file is dropped before a new one is taken.
      cases h
      rcases createSentinel_created _ u entry.key _ hcreated with ⟨-, rfl, -⟩
      refine ⟨(memory_dropHandle s entry.key).2, fun key => ?_⟩
      rw [view_insert, view_takeSentinel, view_takeSentinel, if_pos rfl, view_dropHandle]
      by_cases hkey : key = entry.key
      · rw [if_pos hkey, if_pos hkey, hkey]
        unfold View.registered
        rw [if_neg hnot]
        rfl
      · rw [if_neg hkey, if_neg hkey, if_neg hkey, view_dropHandle, if_neg hkey]
    next => cases h

/-! ## The theorem -/

theorem owned_iff (s t : State) (key : ServiceKey) :
    (view t key).owned = ((view { s with memory := s.file } key).owned &&
        (view { s with memory := s.file } key).row.isSome) ↔
      (key ∈ t.handles ↔ key ∈ s.handles ∧ (s.file.lookup key).isSome) := by
  unfold view
  rw [Bool.eq_iff_iff, Bool.and_eq_true, decide_eq_true_eq, decide_eq_true_eq]

/-- The requirement, key by key. -/
theorem atomic_iff (s t : State) (hfile : t.file = s.file) :
    Atomic s t ↔ ∀ key, (view { s with memory := s.file } key).AtomicAt (view t key) := by
  constructor
  · intro hatomic key
    refine ⟨?_, ?_, ?_⟩
    · unfold view
      rw [hatomic.memory, hfile]
    · rw [owned_iff, ← hfile]
      exact hatomic.owned key
    · -- The recorded path is the one of the key, which the view looks at.
      intro hpath
      rcases Option.isSome_iff_exists.mp hpath with ⟨path, hsome⟩
      rcases Option.bind_eq_some_iff.mp hsome with ⟨entry, hentry, hentrypath⟩
      have hplaced := s.placed key entry path hentry hentrypath
      have hsame := hatomic.sentinels key entry path (hfile ▸ hentry) hentrypath
      rw [hplaced] at hsame
      exact hsame
  · intro hat
    refine ⟨?_, ?_, ?_⟩
    · rw [hfile]
      exact OrderedMap.ext_lookup _ _ (fun key => (hat key).row)
    · intro key
      rw [hfile]
      exact (owned_iff s t key).mp (hat key).owned
    · intro key entry path hentry hpath
      rw [hfile] at hentry
      rw [s.placed key entry path hentry hpath]
      refine (hat key).sentinel ?_
      unfold view
      rw [hentry, Option.bind_some, hpath]
      rfl

/-- The condition of a removal, key by key. -/
theorem removesRestorable_iff (op : Operation) (faults : Faults) : RemovesRestorable s op faults ↔
      ∀ key ∈ op.removes { s with memory := s.file },
        (view { s with memory := s.file } key).RemovableAt key (faults.restoreFails key) := by
  unfold RemovesRestorable View.RemovableAt view
  simp only [decide_eq_true_eq]
  constructor
  · intro h key hremoved entry hentry
    exact h key entry hentry hremoved
  · intro h key entry hentry hremoved
    exact h key hremoved entry hentry

/-- An operation that removes rows, once its flush has failed. -/
theorem atomic_removeEntries (s t : State) (keys : List ServiceKey) (faults : Faults)
    (h : rollback faults s.file s.handles (keys.foldl removeEntry { s with memory := s.file }) =
      some t) :
    Atomic s t ↔ ∀ key ∈ keys,
      (view { s with memory := s.file } key).RemovableAt key (faults.restoreFails key) := by
  have hfile : (keys.foldl removeEntry { s with memory := s.file }).file = s.file :=
    file_removeEntries keys _
  have hview := view_rollback faults { s with memory := s.file } _ t rfl hfile h
  have hremoved := fun key =>
    view_removeEntries { s with memory := s.file } keys key
      (fun key entry path => s.placed key entry path)
  rw [atomic_iff s t hview.1]
  constructor
  · intro hat key hkey
    have hkeyat := hat key
    rw [hview.2 key, hremoved key, if_pos hkey] at hkeyat
    exact (View.atomicAt_removed key _ _).mp hkeyat
  · intro hremovable key
    rw [hview.2 key, hremoved key]
    by_cases hkey : key ∈ keys
    · rw [if_pos hkey]
      exact (View.atomicAt_removed key _ _).mpr (hremovable key hkey)
    · rw [if_neg hkey]
      exact View.atomicAt_kept key _ _ _ rfl rfl

theorem atomic_register (s u t : State) (entry : ServiceEntry) (faults : Faults)
    (hregister : register { s with memory := s.file } entry = some u)
    (h : rollback faults s.file s.handles u = some t) :
    Atomic s t ↔ (view { s with memory := s.file } entry.key).RegisterableAt := by
  have hregistered := view_register { s with memory := s.file } u entry hregister
  have hview := view_rollback faults { s with memory := s.file } u t rfl hregistered.1 h
  rw [atomic_iff s t hview.1]
  constructor
  · intro hat
    have hkeyat := hat entry.key
    rw [hview.2 entry.key, hregistered.2 entry.key, if_pos rfl] at hkeyat
    exact (View.atomicAt_registered entry.key _ entry _).mp hkeyat
  · intro hregisterable key
    rw [hview.2 key, hregistered.2 key]
    by_cases hkey : key = entry.key
    · rw [if_pos hkey, hkey]
      exact (View.atomicAt_registered entry.key _ entry _).mpr hregisterable
    · rw [if_neg hkey]
      exact View.atomicAt_kept key _ _ _ rfl rfl

/-- An operation that touches no sentinel. -/
theorem atomic_changeRows (s t : State) (rows : Rows) (faults : Faults)
    (h : rollback faults s.file s.handles { s with memory := rows } = some t) : Atomic s t := by
  have hview := view_rollback faults { s with memory := s.file } { s with memory := rows } t rfl
    rfl h
  rw [atomic_iff s t hview.1]
  intro key
  rw [hview.2 key]
  exact View.atomicAt_kept key _ _ _ rfl rfl

theorem registersRestorable_register : RegistersRestorable s (.register entry) ↔
      (view { s with memory := s.file } entry.key).RegisterableAt := by
  unfold RegistersRestorable View.RegisterableAt view
  rw [decide_eq_true_eq]
  constructor
  · intro h hpath
    rcases Option.isSome_iff_exists.mp hpath with ⟨path, hsome⟩
    rcases Option.bind_eq_some_iff.mp hsome with ⟨old, hold, holdpath⟩
    exact h entry old rfl hold (Option.isSome_iff_exists.mpr ⟨path, holdpath⟩)
  · rintro h entry' old hop hold hpath
    cases hop
    refine h ?_
    simp only [hold, Option.bind_some]
    exact hpath

theorem registersRestorable_other (op : Operation) (h : ∀ entry, op ≠ .register entry) :
    RegistersRestorable s op :=
  fun entry _ hop => absurd hop (h entry)

/-- What an operation leaves behind that removes rows and has something to
    write. -/
theorem runOperation_removes (s u : State) (op : Operation) (hregister : ∀ e, op ≠ .register e)
    (hchange : ∀ f, op ≠ .changeRows f) (h : runOperation s op = some (u, true)) :
    u = (op.removes s).foldl removeEntry s := by
  cases op with
  | register entry => exact absurd rfl (hregister entry)
  | deregister key =>
      simp only [runOperation, Option.some_inj, Prod.mk.injEq] at h
      simp only [Operation.removes, if_pos h.2, ← h.1]
      rfl
  | deregisterIfUnchanged observed =>
      simp only [runOperation] at h
      split at h
      next hunchanged =>
        simp only [Option.some_inj, Prod.mk.injEq, and_true] at h
        simp only [Operation.removes, if_pos hunchanged, ← h]
        rfl
      next => cases h
  | pruneDeadEntries probes =>
      simp only [runOperation, Option.some_inj, Prod.mk.injEq] at h
      exact h.1.symm
  | changeRows f => exact absurd rfl (hchange f)

/-- No operation changes the file before the flush. -/
theorem file_runOperation (s u : State) (op : Operation) (changed : Bool)
    (h : runOperation s op = some (u, changed)) : u.file = s.file := by
  cases op with
  | register entry =>
      simp only [runOperation] at h
      rcases Option.map_eq_some_iff.mp h with ⟨v, hv, hpair⟩
      cases hpair
      exact (view_register s u entry hv).1
  | deregister key =>
      simp only [runOperation, Option.some_inj, Prod.mk.injEq] at h
      rw [← h.1]
      exact (memory_removeEntry s key).2
  | deregisterIfUnchanged observed =>
      simp only [runOperation] at h
      split at h
      next =>
        simp only [Option.some_inj, Prod.mk.injEq] at h
        rw [← h.1]
        exact (memory_removeEntry s observed.key).2
      next => cases h; rfl
  | pruneDeadEntries probes =>
      simp only [runOperation, Option.some_inj, Prod.mk.injEq] at h
      rw [← h.1]
      exact file_removeEntries _ s
  | changeRows f =>
      simp only [runOperation, Option.some_inj, Prod.mk.injEq] at h
      rw [← h.1]

theorem file_failedFlush (s t : State) (op : Operation) (faults : Faults)
    (h : failedFlush s op faults = some t) : t.file = s.file := by
  unfold failedFlush at h
  simp only at h
  split at h
  next u hrun =>
    have hfile := file_runOperation _ u op true hrun
    exact (view_rollback faults { s with memory := s.file } u t rfl hfile h).1
  next => cases h

/-- After a flush that has failed everything is as it was exactly if the
    operation has touched no sentinel that the rollback cannot put back: no
    sentinel of another process, and none of its own that was not in its
    place. -/
theorem rollback_restores (s t : State) (op : Operation) (faults : Faults)
    (h : failedFlush s op faults = some t) : Atomic s t ↔ Restorable s op faults := by
  unfold Restorable
  rw [removesRestorable_iff]
  unfold failedFlush at h
  simp only at h
  split at h
  next u hrun =>
    by_cases hregister : ∃ entry, op = .register entry
    · rcases hregister with ⟨entry, rfl⟩
      simp only [runOperation] at hrun
      rcases Option.map_eq_some_iff.mp hrun with ⟨v, hv, hpair⟩
      cases hpair
      rw [registersRestorable_register, atomic_register s u t entry faults hv h]
      -- A registration removes nothing.
      simp [Operation.removes]
    · have hother : ∀ entry, op ≠ .register entry := fun entry hop => hregister ⟨entry, hop⟩
      have hregisters := registersRestorable_other s op hother
      rw [and_iff_left hregisters]
      by_cases hchange : ∃ f, op = .changeRows f
      · rcases hchange with ⟨f, rfl⟩
        simp only [runOperation, Option.some_inj, Prod.mk.injEq] at hrun
        rw [← hrun.1] at h
        simp only [Operation.removes, List.not_mem_nil, false_imp_iff, implies_true, iff_true]
        exact atomic_changeRows s t _ faults h
      · have hremoves := runOperation_removes _ u op hother (fun f hop => hchange ⟨f, hop⟩) hrun
        rw [hremoves] at h
        exact atomic_removeEntries s t _ faults h
  next => cases h

theorem mayaId_lt : 1 < 2 ^ 128 := by decide

/-- The row of a running instance. -/
def mayaRow : ServiceEntry where
  schemaVersion := 1
  dccType := "maya"
  instanceId := ⟨1, mayaId_lt⟩
  version := none
  scene := none
  documents := []
  pid := some 100
  hostPid := none
  sentinelPath := some (sentinelPathFor ⟨"maya", ⟨1, mayaId_lt⟩⟩)
  displayName := none
  metadata := OrderedMap.empty _ _
  extras := OrderedMap.empty _ _
  registeredAt := 0
  lastHeartbeat := 0
  status := .available
  leaseOwner := none
  currentJobId := none
  leaseExpiresAt := none

/-- A directory with this row, whose sentinel this process has or another. -/
def mayaDirectory (sentinel : LockFile) (handles : List ServiceKey) : State where
  memory := OrderedMap.empty _ _
  file := (OrderedMap.empty _ _).insert mayaRow.key mayaRow
  files := fun path => if path = sentinelPathFor mayaRow.key then sentinel else .missing
  handles := handles
  keyed := by
    intro key entry hentry
    by_cases hkey : key = mayaRow.key
    · rw [hkey, OrderedMap.lookup_insert, Option.some_inj] at hentry
      rw [hkey, hentry]
    · rw [OrderedMap.lookup_insert_ne _ _ _ _ hkey] at hentry
      cases hentry
  placed := by
    intro key entry path hentry hpath
    by_cases hkey : key = mayaRow.key
    · rw [hkey, OrderedMap.lookup_insert, Option.some_inj] at hentry
      rw [← hentry, mayaRow, Option.some_inj] at hpath
      rw [hkey, ← hpath]
      rfl
    · rw [OrderedMap.lookup_insert_ne _ _ _ _ hkey] at hentry
      cases hentry

theorem rollback_restores_own :
    ∃ t, failedFlush (mayaDirectory .ours [mayaRow.key]) (.deregister mayaRow.key)
        ⟨false, fun _ => false⟩ = some t ∧
      (Atomic (mayaDirectory .ours [mayaRow.key]) t ↔
        Restorable (mayaDirectory .ours [mayaRow.key]) (.deregister mayaRow.key)
          ⟨false, fun _ => false⟩) := by
  have hsome : (failedFlush (mayaDirectory .ours [mayaRow.key]) (.deregister mayaRow.key)
      ⟨false, fun _ => false⟩).isSome = true := by
    decide +kernel
  rcases Option.isSome_iff_exists.mp hsome with ⟨t, ht⟩
  exact ⟨t, ht, rollback_restores _ t _ _ ht⟩

/-- A row of another process. All processes run, but after the flush has failed
    the sentinel is gone, and the next reader takes the owner for dead. -/
theorem rollback_loses_sentinel :
    ∃ s op faults t, failedFlush s op faults = some t ∧ ¬ Atomic s t ∧
      ∃ key entry, t.file.lookup key = some entry ∧ isDead ⟨fun _ => true⟩ s entry = false ∧
        isDead ⟨fun _ => true⟩ t entry = true := by
  have hfacts : (failedFlush (mayaDirectory .other []) (.deregister mayaRow.key)
      ⟨false, fun _ => false⟩).map (fun t => isDead ⟨fun _ => true⟩ t mayaRow) = some true := by
    decide +kernel
  rcases Option.map_eq_some_iff.mp hfacts with ⟨t, ht, hdead⟩
  have halive : isDead ⟨fun _ => true⟩ (mayaDirectory .other []) mayaRow = false := by
    decide +kernel
  have hentry : t.file.lookup mayaRow.key = some mayaRow := by
    rw [file_failedFlush _ t _ _ ht]
    exact OrderedMap.lookup_insert _ _ _
  refine ⟨_, _, _, t, ht, fun hatomic => ?_, mayaRow.key, mayaRow, hentry, halive, hdead⟩
  rw [isDead_of_atomic _ t _ hatomic mayaRow.key mayaRow hentry, halive] at hdead
  cases hdead

end Rollback

end Registry

end DccMcp
