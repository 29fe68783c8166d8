import DccMcp.Updater.Journal
import DccMcp.Updater.Names

/-!
# Staged Update Sets

Staging copies the components of an update beside a manifest into a directory
of its own, and swaps the directory in as the pending set. Applying takes the
pending set, records its transaction in a journal within the set, and replaces
the files. When all are replaced the journal says so, the set is moved away,
and what is left beside the files is removed. A pending set that has a journal
already is one whose transaction was cut off. It goes back if the journal says
that it was being applied, and is finished if it says that it is committed.

All of this goes on under a lock of the installation, so it is one process at
a time. Each write is one operation, and a JSON file is replaced as a whole.

## Main definitions

* `StagedSet`, `Staging`: The directories the updater keeps.
* `stageUpdateSet`: Staging.
* `recoverStageSwap`, `cleanupCommittedSets`: What most calls do first.
* `buildEntries`, `runTransaction`, `applyStagedUpdateSet`: Applying.
-/

namespace DccMcp

namespace Updater

open Crash Crash.Prog FileTree

structure StagedComponent where
  stagedFile : String
  target : UpdateTarget
  sha256 : Digest
  deriving DecidableEq

structure UpdateSetManifest where
  formatVersion : Nat
  boundExecutable : Path
  sourceBuildVersion : String
  sourceServerSha256 : Digest
  components : List StagedComponent
  deriving DecidableEq

structure AppliedGeneration where
  formatVersion : Nat
  boundExecutable : Path
  sourceBuildVersion : String
  sourceServerSha256 : Digest
  targetServerSha256 : Digest
  deriving DecidableEq

/-- A directory with a manifest, a journal and the files of the components. -/
structure StagedSet where
  manifest : Option UpdateSetManifest
  journal : Option UpdateJournal
  files : String → Option File

def StagedSet.empty : StagedSet := ⟨none, none, fun _ => none⟩

/-- What is left of a directory when only some files are kept. -/
def StagedSet.only (names : List String) (set : StagedSet) : StagedSet where
  manifest := if "manifest.json" ∈ names then set.manifest else none
  journal := if "journal.json" ∈ names then set.journal else none
  files := fun name => if name ∈ names then set.files name else none

/-- The staging directory of an installation. The sets that have a nonce in
    their names are listed with it. -/
structure Staging where
  pending : Option StagedSet
  previous : Option StagedSet
  temporary : String → Option StagedSet
  committed : List (String × StagedSet)
  rejected : List (String × StagedSet)
  generation : Option AppliedGeneration

inductive UpdateSetPolicy
  | any
  | currentExecutableOnly
  deriving DecidableEq

/-- A component that was downloaded: its bytes, what it is for, and the text of
    the digest it should have. -/
structure UpdateSetSource where
  downloaded : Option File
  target : UpdateTarget
  expectedSha256 : String

/-- The executable to which update sets are bound. -/
structure Installation where
  platform : Platform
  executable : String

namespace Installation

/-- The name by which the file system knows a file: on Windows the case of
    letters makes no difference. -/
def key (I : Installation) (fileName : String) : String := pathKey I.platform.windows fileName

def path (I : Installation) : Path := [I.key I.executable]

def pathsEqual (I : Installation) (p q : Path) : Bool :=
  pathKey I.platform.windows (displayPath p) == pathKey I.platform.windows (displayPath q)

end Installation

abbrev IoError : IoKind → UpdateError := UpdateError.io

/-! ## Looking at the staging directory and changing it -/

section

variable {α : Type}

/-- Looks at something that is always seen. -/
def peek (f : Disk Staging → α) : Io Staging α := op fun _ d => (.ok (f d), d)

/-- Changes the staging directory. -/
def restage (wrap : IoKind → UpdateError) (f : Staging → Except IoKind Staging) :
    Io Staging Unit :=
  change wrap fun d => (f d.store).map d.keep

def nextNonce : Io Staging String :=
  op fun _ d => (.ok (uniqueNonce d.process d.nanos), { d with nanos := d.nanos + 1 })

/-- Half of a recursive deletion. -/
def removeSome (wrap : IoKind → UpdateError) (f : (StagedSet → StagedSet) → Staging → Staging) :
    Io Staging Unit :=
  op fun c d =>
    match c.failure, c with
    | some kind, _ => (.error (wrap kind), d)
    | none, .keeps names => (.ok (), d.keep (f (StagedSet.only names) d.store))
    | none, _ => (.ok (), d)

def mapSet (nonce : String) (f : StagedSet → StagedSet) (sets : List (String × StagedSet)) :
    List (String × StagedSet) :=
  sets.map (fun entry => if entry.1 = nonce then (entry.1, f entry.2) else entry)

def removePrevious (wrap : IoKind → UpdateError) : Io Staging Unit := do
  removeSome wrap fun f s => { s with previous := s.previous.map f }
  restage wrap fun s => .ok { s with previous := none }

def removeTemporary (nonce : String) : Io Staging Unit := do
  removeSome IoError fun f s =>
    { s with temporary := Function.update s.temporary nonce ((s.temporary nonce).map f) }
  restage IoError fun s => .ok { s with temporary := Function.update s.temporary nonce none }

def removeCommitted (wrap : IoKind → UpdateError) (nonce : String) : Io Staging Unit := do
  removeSome wrap fun f s => { s with committed := mapSet nonce f s.committed }
  restage wrap fun s =>
    .ok { s with committed := s.committed.filter (fun entry => entry.1 ≠ nonce) }

def renamePreviousToPending (wrap : IoKind → UpdateError) : Io Staging Unit :=
  restage wrap fun s =>
    match s.previous, s.pending with
    | none, _ => .error .notFound
    | some _, some _ => .error .uncategorized
    | some set, none => .ok { s with previous := none, pending := some set }

def renamePendingToPrevious : Io Staging Unit :=
  restage IoError fun s =>
    match s.pending, s.previous with
    | none, _ => .error .notFound
    | some _, some _ => .error .uncategorized
    | some set, none => .ok { s with pending := none, previous := some set }

def renameTemporaryToPending (nonce : String) : Io Staging Unit :=
  restage IoError fun s =>
    match s.temporary nonce, s.pending with
    | none, _ => .error .notFound
    | some _, some _ => .error .uncategorized
    | some set, none =>
      .ok { s with temporary := Function.update s.temporary nonce none, pending := some set }

/-- Writes the journal of the pending set. -/
def writeJournal (journal : UpdateJournal) : Io Staging Unit :=
  restage IoError fun s =>
    match s.pending with
    | none => .error .notFound
    | some set => .ok { s with pending := some { set with journal := some journal } }

def removeJournal : Io Staging Unit :=
  restage IoError fun s =>
    match s.pending with
    | none => .error .notFound
    | some set =>
      if set.journal.isSome then .ok { s with pending := some { set with journal := none } }
      else .error .notFound

end

/-! ## What most calls do first -/

variable (I : Installation)

def canonicalExisting : Io Staging Unit := do
  let file ← peek fun d => fileAt d.tree I.path
  require (file.isSome = true)
    (.stage ("bound executable does not exist: " ++ displayPath I.path))

def recoverStageSwap : Io Staging Unit := do
  let s ← peek Disk.store
  match s.previous, s.pending with
  | none, _ => pure ()
  | some _, none =>
    renamePreviousToPending (.ioWithContext ⟨"recover", "rename_previous_to_pending",
      "previous-set", "pending-set"⟩)
  | some _, some set => do
    require (set.manifest.isSome = true)
      (.stage "pending update is incomplete while a previous set exists: pending-set")
    removePrevious (.ioWithContext ⟨"recover", "remove_superseded_previous_set", "previous-set",
      "removed-previous-set"⟩)

def cleanupCommittedSet (entry : String × StagedSet) : Io Staging Unit :=
  match entry.2.journal with
  | none => fail (.io .notFound)
  | some journal => do
    require (journal.state = .committed)
      (.stage ("detached update set is not committed: pending-set.committed-" ++ entry.1))
    let gone ← cleanupCommittedEntries I.platform journal.entries
    whenever gone (removeCommitted IoError entry.1)

def cleanupCommittedSets : Io Staging Unit := do
  let sets ← peek fun d => d.store.committed
  forEach (cleanupCommittedSet I) sets

/-! ## Staging -/

def componentFile (index : Nat) : String := "component-" ++ Nat.repr index ++ ".bin"

def validateSource (keys : List String) (source : UpdateSetSource) : Io Staging Unit := do
  require (validateTarget source.target = true) (.stage "invalid sibling update target")
  require (targetKey source.target ∉ keys)
    (.stage "update set contains duplicate installation targets")
  require (validateExpectedSha source.expectedSha256 = true)
    (.stage "update component requires a 64-character SHA-256 digest")
  match source.downloaded with
  | none => fail (.stage "update component is missing")
  | some file => do
    let actual ← query fun _ => .ok (digestText (I.platform.digest file))
    require (Text.eqIgnoreAsciiCase actual source.expectedSha256 = true)
      (.checksumMismatch (Text.toAsciiLowercase source.expectedSha256) actual)

def validateSources (keys : List String) : List UpdateSetSource → Io Staging Unit
  | [] => pure ()
  | source :: rest => do
    validateSource I keys source
    validateSources (targetKey source.target :: keys) rest

/-- Changes the set that is being made. -/
def editTemporary (nonce : String) (f : StagedSet → StagedSet) : Staging → Staging :=
  fun s => { s with temporary := Function.update s.temporary nonce ((s.temporary nonce).map f) }

def addFile (name : String) (file : File) (set : StagedSet) : StagedSet :=
  { set with files := Function.update set.files name (some file) }

/-- A copy into the set that is being made, first with some bytes. -/
def copyIntoTemporary (nonce name : String) (file : File) : Io Staging Unit := do
  op fun c d =>
    match c.failure, c with
    | some kind, _ => (.error (.io kind), d)
    | none, .leaves bytes =>
      (.ok (), d.keep (editTemporary nonce (addFile name ⟨bytes, file.mode⟩) d.store))
    | none, _ => (.ok (), d.keep (editTemporary nonce (addFile name ⟨[], file.mode⟩) d.store))
  restage IoError fun s => .ok (editTemporary nonce (addFile name file) s)

def stageComponent (nonce : String) (index : Nat) (source : UpdateSetSource) :
    Io Staging StagedComponent :=
  match source.downloaded with
  | none => fail (.io .notFound)
  | some file => do
    copyIntoTemporary nonce (componentFile index) file
    let staged ← query fun d =>
      match d.store.temporary nonce with
      | none => .error (.io .notFound)
      | some set =>
        match set.files (componentFile index) with
        | none => .error (.io .notFound)
        | some f => .ok (I.platform.digest f)
    require (Text.eqIgnoreAsciiCase (digestText staged) source.expectedSha256 = true)
      (.checksumMismatch (Text.toAsciiLowercase source.expectedSha256) (digestText staged))
    pure ⟨componentFile index, source.target, staged⟩

def stageComponents (nonce : String) (index : Nat) :
    List UpdateSetSource → Io Staging (List StagedComponent)
  | [] => pure []
  | source :: rest => do
    let component ← stageComponent I nonce index source
    let components ← stageComponents nonce (index + 1) rest
    pure (component :: components)

/-- Fills the directory of the new set, the manifest last. -/
def fillTemporary (nonce sourceBuildVersion : String) (sourceServerSha256 : Digest)
    (sources : List UpdateSetSource) : Io Staging Unit := do
  let components ← stageComponents I nonce 0 sources
  let manifest : UpdateSetManifest :=
    ⟨2, I.path, sourceBuildVersion, sourceServerSha256, components⟩
  restage IoError fun s =>
    .ok (editTemporary nonce (fun set => { set with manifest := some manifest }) s)

def makeTemporary : Io Staging String := do
  let nonce ← nextNonce
  restage IoError fun s =>
    if (s.temporary nonce).isSome then .error .uncategorized
    else .ok { s with temporary := Function.update s.temporary nonce (some StagedSet.empty) }
  pure nonce

def abandon (nonce : String) (error : UpdateError) : Io Staging Unit := do
  let _ ← attempt (removeTemporary nonce)
  fail error

/-- Puts the new set in the place of the pending one. -/
def swapIn (nonce : String) : Io Staging Unit := do
  let s ← peek Disk.store
  whenever s.pending.isSome renamePendingToPrevious
  let result ← attempt (renameTemporaryToPending nonce)
  match result with
  | .ok _ => pure ()
  | .error error => do
    let s ← peek Disk.store
    whenever s.previous.isSome do
      let _ ← attempt (renamePreviousToPending IoError)
    abandon nonce error

/-- The last step of staging: what the new set has replaced goes. -/
def removeSuperseded : Io Staging Unit := do
  let s ← peek Disk.store
  whenever s.previous.isSome (removePrevious IoError)

/-- Everything of staging before the set that is replaced goes. -/
def stageAndSwap (sourceBuildVersion : String) (sources : List UpdateSetSource) :
    Io Staging Unit := do
  canonicalExisting I
  recoverStageSwap
  cleanupCommittedSets I
  let s ← peek Disk.store
  require ((s.pending.bind StagedSet.journal).isNone = true)
    (.stage "recover the pending update transaction before staging another set")
  require (sources ≠ []) (.stage "update set must not be empty")
  validateSources I [] sources
  require (sources.any (fun source => source.target == .currentExecutable) = true)
    (.stage "update set must include the current executable")
  require (1 ≤ sourceBuildVersion.utf8ByteSize ∧ sourceBuildVersion.utf8ByteSize ≤ 128)
    (.stage "source build version must contain 1 to 128 characters")
  let sourceServerSha256 ← sha256File I.platform I.path
  let nonce ← makeTemporary
  let result ← attempt (fillTemporary I nonce sourceBuildVersion sourceServerSha256 sources)
  match result with
  | .error error => abandon nonce error
  | .ok _ => swapIn nonce

def stageUpdateSet (sourceBuildVersion : String) (sources : List UpdateSetSource) :
    Io Staging Unit := do
  stageAndSwap I sourceBuildVersion sources
  removeSuperseded

/-! ## Applying -/

def persistAppliedGeneration (manifest : UpdateSetManifest) : Io Staging Unit := do
  require (1 ≤ manifest.sourceBuildVersion.utf8ByteSize ∧
      manifest.sourceBuildVersion.utf8ByteSize ≤ 128)
    (.stage "staged update has an invalid source build version")
  match manifest.components.filter (fun component => component.target == .currentExecutable) with
  | [] => fail (.stage "staged update has no server component")
  | [server] => do
    requireFileHash I.platform manifest.boundExecutable server.sha256
      "committed server executable"
    restage IoError fun s => .ok { s with generation := some ⟨1, manifest.boundExecutable,
      manifest.sourceBuildVersion, manifest.sourceServerSha256, server.sha256⟩ }
  | _ => fail (.stage "staged update has duplicate server components")

/-- Whether the process runs an older build than the one that is installed. -/
def appliedGenerationRequiresReexec (currentBuildVersion : String) : Io Staging Bool := do
  let generation ← query fun d => .ok d.store.generation
  match generation with
  | none => pure false
  | some g => do
    require (g.formatVersion = 1 ∧ I.pathsEqual I.path g.boundExecutable = true)
      (.stage "applied update generation does not match this installation")
    if g.sourceServerSha256 = g.targetServerSha256 ∨
        isNewerVersion currentBuildVersion g.sourceBuildVersion = true then pure false
    else do
      let actual ← sha256File I.platform I.path
      pure (decide (actual = g.targetServerSha256))

def detach : Io Staging String := do
  let nonce ← nextNonce
  restage (.ioWithContext ⟨"commit", "rename_pending_to_detached", "pending-set", "detached-set"⟩)
    fun s =>
      match s.pending with
      | none => .error .notFound
      | some set => .ok { s with pending := none, committed := s.committed ++ [(nonce, set)] }
  pure nonce

def finishCommitted (journal : UpdateJournal) : Io Staging Unit := do
  let nonce ← detach
  let gone ← cleanupCommittedEntries I.platform journal.entries
  whenever gone (removeCommitted (.ioWithContext ⟨"commit", "remove_detached_set",
    "detached-set", "removed-detached-set"⟩) nonce)

/-- Moves the pending set away, and reports why. -/
def rejectPendingSet {α : Type} (error : UpdateError) : Io Staging α := do
  let nonce ← nextNonce
  restage IoError fun s =>
    match s.pending with
    | none => .error .notFound
    | some set => .ok { s with pending := none, rejected := s.rejected ++ [(nonce, set)] }
  fail (.rejectedStagedUpdate error)

def rejectOrReturn {α : Type} (policy : UpdateSetPolicy) (error : UpdateError) : Io Staging α :=
  match policy with
  | .currentExecutableOnly => rejectPendingSet error
  | .any => fail error

def validateComponents (index : Nat) : List StagedComponent → Option UpdateError
  | [] => none
  | component :: rest =>
    if component.stagedFile ≠ componentFile index then
      some (.stage ("invalid staged component path: " ++ component.stagedFile))
    else if validateTarget component.target = false then
      some (.stage "invalid sibling update target")
    else validateComponents (index + 1) rest

def validateManifestShape (manifest : UpdateSetManifest) : Option UpdateError :=
  if manifest.formatVersion ≠ 2 then some (.stage "unsupported staged update-set format")
  else if manifest.components = [] then
    some (.stage "staged update set must contain at least one component")
  else validateComponents 0 manifest.components

def validateSingleBinaryManifest (manifest : UpdateSetManifest) : Option UpdateError :=
  if manifest.formatVersion ≠ 2 then some (.stage "unsupported staged update-set format")
  else if I.pathsEqual I.path manifest.boundExecutable = false then
    some (.stage ("staged update belongs to a different executable: " ++
      displayPath manifest.boundExecutable))
  else
    match manifest.components with
    | [component] =>
      if component.target = .currentExecutable then none
      else some (.stage "single binary update contains foreign or sibling components")
    | _ => some (.stage "single binary update contains foreign or sibling components")

def readManifest : Io Staging UpdateSetManifest :=
  query fun d =>
    match d.store.pending.bind StagedSet.manifest with
    | none => .error (.io .notFound)
    | some manifest => .ok manifest

def isRejectableManifestReadError : UpdateError → Bool
  | .json => true
  | .io .notFound => true
  | _ => false

/-- The manifest of the pending set, if it is for this executable. -/
def admitManifest (policy : UpdateSetPolicy) : Io Staging UpdateSetManifest := do
  let result ← attempt readManifest
  match result with
  | .error error =>
    if policy = .currentExecutableOnly ∧ isRejectableManifestReadError error = true then
      rejectPendingSet error
    else fail error
  | .ok manifest =>
    match validateManifestShape manifest, policy with
    | some error, _ => rejectOrReturn policy error
    | none, .currentExecutableOnly =>
      match validateSingleBinaryManifest I manifest with
      | some error => rejectPendingSet error
      | none => pure manifest
    | none, .any => do
      require (I.pathsEqual I.path manifest.boundExecutable = true)
        (.stage ("staged update belongs to a different executable: " ++
          displayPath manifest.boundExecutable))
      pure manifest

def targetName : UpdateTarget → String
  | .currentExecutable => I.key I.executable
  | .sibling fileName => I.key fileName

def stagedFile (name : String) (d : Disk Staging) : Option File :=
  d.store.pending.bind (fun set => set.files name)

/-- A backup that is still there belongs to an earlier transaction. -/
def backupPathForTransaction (fileName : String) : Io Staging Path := do
  let isFile ← peek fun d => (fileAt d.tree [backupName fileName]).isSome
  if isFile then do
    let nonce ← nextNonce
    pure [fileName ++ ".dcc-mcp-backup-" ++ nonce]
  else pure [backupName fileName]

/-- The digest of a component's file as it is now. -/
def checkComponent (policy : UpdateSetPolicy) (component : StagedComponent) :
    Io Staging Unit := do
  let file ← peek (stagedFile component.stagedFile)
  match file with
  | none =>
    rejectOrReturn policy (.stage ("staged update component is missing: " ++ component.stagedFile))
  | some f => do
    let actual ← query fun _ => .ok (I.platform.digest f)
    if actual = component.sha256 then pure ()
    else
      rejectOrReturn policy
        (.checksumMismatch (digestText component.sha256) (digestText actual))

/-- The digest a file has before the transaction. -/
def originalDigest (path : Path) (hadOriginal : Bool) : Io Staging (Option Digest) :=
  if hadOriginal then do
    let digest ← sha256File I.platform path
    pure (some digest)
  else pure none

def prepareEntry (component : StagedComponent) : Io Staging JournalEntry := do
  let fileName := targetName I component.target
  let backup ← backupPathForTransaction fileName
  let hadOriginal ← ensureReservedFilePath [fileName] "update target"
  let originalSha256 ← originalDigest I [fileName] hadOriginal
  prepareVerifiedCopy I.platform (stagedFile component.stagedFile) [preparedName fileName]
    "prepared update path" component.sha256
  pure ⟨[fileName], [preparedName fileName], backup, hadOriginal, originalSha256,
    component.sha256⟩

def buildEntry (policy : UpdateSetPolicy) (seen : List String) (component : StagedComponent) :
    Io Staging JournalEntry := do
  checkComponent I policy component
  if targetName I component.target ∈ seen then
    rejectOrReturn policy (.stage "staged update contains duplicate resolved targets")
  else prepareEntry I component

def buildEntries (policy : UpdateSetPolicy) (seen : List String) :
    List StagedComponent → Io Staging (List JournalEntry)
  | [] => pure []
  | component :: rest => do
    let entry ← buildEntry I policy seen component
    let entries ← buildEntries policy (targetName I component.target :: seen) rest
    pure (entry :: entries)

/-- The executable comes last. -/
def sortEntries (entries : List JournalEntry) : List JournalEntry :=
  entries.filter (fun entry => !I.pathsEqual entry.target I.path) ++
    entries.filter (fun entry => I.pathsEqual entry.target I.path)

/-- The journal a transaction starts with, once the executable is known to be
    the one the set was staged for. -/
def planTransaction (policy : UpdateSetPolicy) (manifest : UpdateSetManifest) :
    Io Staging (List JournalEntry) := do
  let actual ← sha256File I.platform I.path
  if actual = manifest.sourceServerSha256 then do
    let entries ← buildEntries I policy [] manifest.components
    pure (sortEntries I entries)
  else rejectOrReturn policy (.stage "staged update source changed")

/-- An entry that fails takes all of them back. -/
def undoTransaction (entries : List JournalEntry) (error : UpdateError) : Io Staging Unit := do
  let result ← attempt (rollback I.platform entries)
  match result with
  | .error rollbackError => fail (.updateFailed error rollbackError)
  | .ok _ => do
    removeJournal
    let _ ← cleanupCommittedEntries I.platform entries
    fail error

def runTransaction (manifest : UpdateSetManifest) (entries : List JournalEntry) :
    Io Staging Unit := do
  writeJournal ⟨.applying, entries⟩
  let result ← attempt (applyEntries I.platform entries)
  match result with
  | .error error => undoTransaction I entries error
  | .ok _ => do
    writeJournal ⟨.committed, entries⟩
    persistAppliedGeneration I manifest
    finishCommitted I ⟨.committed, entries⟩

def installPending (policy : UpdateSetPolicy) (currentBuildVersion : String)
    (manifest : UpdateSetManifest) : Io Staging Bool := do
  let entries ← planTransaction I policy manifest
  runTransaction I manifest entries
  appliedGenerationRequiresReexec I currentBuildVersion

/-- Takes back what a transaction that was cut off has done. -/
def recoverTransaction (entries : List JournalEntry) : Io Staging Unit := do
  rollback I.platform entries
  removeJournal
  let _ ← cleanupCommittedEntries I.platform entries
  pure ()

/-- A set that was made by a newer build is for another process. -/
def refuseNewerSource (currentBuildVersion : String) : Io Staging Bool := do
  let reexec ← appliedGenerationRequiresReexec I currentBuildVersion
  if reexec then pure true
  else fail (.stage "staged update source build is newer than running build")

def applyPending (policy : UpdateSetPolicy) (currentBuildVersion : String) : Io Staging Bool := do
  let manifest ← admitManifest I policy
  if isNewerVersion manifest.sourceBuildVersion currentBuildVersion = true then
    refuseNewerSource I currentBuildVersion
  else do
    let journal ← query fun d => .ok (d.store.pending.bind StagedSet.journal)
    match journal with
    | none => installPending I policy currentBuildVersion manifest
    | some ⟨.committed, entries⟩ => do
      persistAppliedGeneration I manifest
      finishCommitted I ⟨.committed, entries⟩
      appliedGenerationRequiresReexec I currentBuildVersion
    | some ⟨.applying, entries⟩ => do
      recoverTransaction I entries
      installPending I policy currentBuildVersion manifest

def applyStagedUpdateSet (policy : UpdateSetPolicy) (currentBuildVersion : String) :
    Io Staging Bool := do
  canonicalExisting I
  recoverStageSwap
  cleanupCommittedSets I
  let s ← peek Disk.store
  match s.pending with
  | none => appliedGenerationRequiresReexec I currentBuildVersion
  | some _ => applyPending I policy currentBuildVersion

/-! ## Clearing, and installing one file -/

/-! ## What the operations on the staging directory ensure -/

section

variable {α β : Type} {A : Choice → Prop} {C : Disk Staging → Prop}
  {Q : α → Disk Staging → Prop} {E : UpdateError → Disk Staging → Prop}
  {R : Unit → Disk Staging → Prop}

theorem ensures_peek (f : Disk Staging → α) (d : Disk Staging) (hC : C d) (hok : Q (f d) d) :
    Ensures A C Q E (peek f) d :=
  ensures_op _ d hC (fun _ _ => hok)

theorem ensures_nextNonce {N : String → Disk Staging → Prop} (d : Disk Staging) (hC : C d)
    (hok : N (uniqueNonce d.process d.nanos) { d with nanos := d.nanos + 1 }) :
    Ensures A C N E nextNonce d :=
  ensures_op _ d hC (fun _ _ => hok)

theorem ensures_restage (wrap : IoKind → UpdateError) (f : Staging → Except IoKind Staging)
    (s : Staging) (d : Disk Staging) (hf : f d.store = .ok s) (hC : C d) (hok : R () (d.keep s))
    (hio : Mishap A → ∀ kind, E (wrap kind) d) : Ensures A C R E (restage wrap f) d := by
  refine ensures_change wrap _ d hC (fun d' hd' => ?_) (fun kind hkind => ?_) hio
  · simp only [hf, Except.map, Except.ok.injEq] at hd'
    rw [← hd']
    exact hok
  · simp [hf, Except.map] at hkind

/-- A change of the staging directory that may not be possible. -/
theorem ensures_restage_cases (wrap : IoKind → UpdateError)
    (f : Staging → Except IoKind Staging) (d : Disk Staging) (hC : C d)
    (hok : ∀ s, f d.store = .ok s → R () (d.keep s)) (herr : ∀ error, E error d) :
    Ensures A C R E (restage wrap f) d := by
  refine ensures_change wrap _ d hC (fun d' hd' => ?_) (fun _ _ => herr _) (fun _ _ => herr _)
  cases hf : f d.store with
  | error kind => simp only [hf, Except.map, reduceCtorEq] at hd'
  | ok s =>
      simp only [hf, Except.map, Except.ok.injEq] at hd'
      rw [← hd']
      exact hok s hf

/-- Half of a recursive deletion leaves all of a set, or some of its files. -/
theorem ensures_removeSome (wrap : IoKind → UpdateError)
    (f : (StagedSet → StagedSet) → Staging → Staging) (d : Disk Staging) (hC : C d)
    (hsame : R () d) (hsome : ∀ names, R () (d.keep (f (StagedSet.only names) d.store)))
    (hio : Mishap A → ∀ kind, E (wrap kind) d) : Ensures A C R E (removeSome wrap f) d := by
  refine ensures_op _ d hC (fun c hc => ?_)
  cases c with
  | proceeds => exact hsame
  | fails => exact hio ⟨_, hc, by decide⟩ _
  | locked => exact hio ⟨_, hc, by decide⟩ _
  | leaves bytes => exact hsame
  | keeps names => exact hsome names

end

end Updater

end DccMcp
