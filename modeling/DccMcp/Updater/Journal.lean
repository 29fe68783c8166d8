import DccMcp.Updater.Disk

/-!
# The Journal of a Transaction

A transaction replaces several files. Each of its entries names the file, a
prepared file with the new bytes and a backup of the old ones, and the journal
with all entries is on the disk before the first file is touched.

Going forward, an entry moves the old file to the backup and the prepared one
to its place. Going back, it prepares a copy of the backup, removes what was
installed, and moves the copy to its place; the backup stays.

## Main definitions

* `JournalEntry`, `UpdateJournal`: The journal.
* `applyEntry`, `applyEntriesWith`: Forward.
* `rollbackEntry`, `rollback`: Back.
* `cleanupCommittedEntries`: Removing what is left beside the files.
* `Distinct`: Entries do not share paths.

## Theorems

* `eq_of_distinct`, `nodup_of_distinct`: Of distinct entries no two share a path.
* `preserves_applyEntries`, `preserves_rollback`, `preserves_cleanupCommittedEntries`:
  What is beside the directory stays.
-/

namespace DccMcp

namespace Updater

open Crash Crash.Prog FileTree

inductive JournalState
  | applying
  | committed
  deriving DecidableEq

structure JournalEntry where
  target : Path
  prepared : Path
  backup : Path
  hadOriginal : Bool
  originalSha256 : Option Digest
  expectedSha256 : Digest
  deriving DecidableEq

structure UpdateJournal where
  state : JournalState
  entries : List JournalEntry
  deriving DecidableEq

section

variable {ρ : Type} (P : Platform)

/-- A backup that is there must be of the same bytes as the file, and goes. -/
def removeStaleBackup (entry : JournalEntry) : Io ρ Unit := do
  let isFile ← ensureReservedFilePath entry.backup "update backup path"
  if isFile then
    match entry.originalSha256 with
    | none => fail (.stage ("unexpected backup without an original digest: " ++
        displayPath entry.backup))
    | some original => do
      requireFileHash P entry.backup original "stale update backup"
      requireFileHash P entry.target original "restored update target"
      removeFile (.ioWithContext ⟨"apply", "remove_stale_backup", "backup", "removed-backup"⟩)
        entry.backup
  else pure ()

/-- The old file goes to the backup, and a new one must not be there yet. -/
def setAside (entry : JournalEntry) : Io ρ Unit :=
  if entry.hadOriginal then
    match entry.originalSha256 with
    | none => fail (.stage ("update target has no recorded original digest: " ++
        displayPath entry.target))
    | some original => do
      requireFileHash P entry.target original "update target"
      rename (.ioWithContext ⟨"apply", "rename_target_to_backup", "installed-component",
        "backup"⟩) entry.target entry.backup
  else do
    let isFile ← ensureReservedFilePath entry.target "new update target"
    require (isFile = false) (.stage ("new update target appeared during the transaction: " ++
      displayPath entry.target))

def applyEntry (publish : JournalEntry → Io ρ Unit) (entry : JournalEntry) : Io ρ Unit := do
  removeStaleBackup P entry
  setAside P entry
  requireFileHash P entry.prepared entry.expectedSha256 "prepared update component"
  publish entry
  requireFileHash P entry.target entry.expectedSha256 "installed update component"

def applyEntriesWith (publish : JournalEntry → Io ρ Unit) (entries : List JournalEntry) :
    Io ρ Unit :=
  forEach (applyEntry P publish) entries

def publishPrepared (entry : JournalEntry) : Io ρ Unit :=
  rename (.ioWithContext ⟨"apply", "rename_prepared_to_target", "prepared-update-component",
    "installed-component"⟩) entry.prepared entry.target

def applyEntries (entries : List JournalEntry) : Io ρ Unit :=
  applyEntriesWith P publishPrepared entries

/-- Once it is known that the old bytes are not in their place. -/
def restoreBackup (entry : JournalEntry) (original : Digest) (targetIsFile : Bool) :
    Io ρ Unit := do
  requireFileHash P entry.backup original "update backup"
  whenever targetIsFile
    (requireFileHash P entry.target entry.expectedSha256 "installed update component")
  prepareVerifiedCopy P (fun d => fileAt d.tree entry.backup) entry.prepared
    "rollback prepared path" original
  whenever targetIsFile
    (removeFile (.ioWithContext ⟨"rollback", "remove_installed_target", "installed-component",
      "removed-target"⟩) entry.target)
  rename (.ioWithContext ⟨"rollback", "rename_prepared_to_target", "prepared-update-component",
    "installed-component"⟩) entry.prepared entry.target
  requireFileHash P entry.target original "restored update target"

/-- Whether a path that is known to be a file or not has a digest. -/
def fileHasHash (path : Path) (isFile : Bool) (expected : Digest) : Io ρ Bool :=
  if isFile then do
    let actual ← sha256File P path
    pure (decide (actual = expected))
  else pure false

/-- Once it is known that the old bytes are in their place. -/
def removePrepared (entry : JournalEntry) (original : Digest) : Io ρ Unit := do
  let backupIsFile ← ensureReservedFilePath entry.backup "update backup"
  whenever backupIsFile (requireFileHash P entry.backup original "update backup")
  removeReservedFile entry.prepared "rollback prepared path"

def rollbackReplaced (entry : JournalEntry) (original : Digest) : Io ρ Unit := do
  let targetIsFile ← ensureReservedFilePath entry.target "rollback update target"
  let isOriginal ← fileHasHash P entry.target targetIsFile original
  if isOriginal then removePrepared P entry original
  else restoreBackup P entry original targetIsFile

/-- Whether there is a backup or its digest, which a new file cannot have. -/
def hasBackup (entry : JournalEntry) : Io ρ Bool :=
  if entry.originalSha256.isSome then pure true
  else ensureReservedFilePath entry.backup "unexpected update backup"

def removeNewTarget (entry : JournalEntry) : Io ρ Unit := do
  requireFileHash P entry.target entry.expectedSha256 "new update target"
  removeFile (.ioWithContext ⟨"rollback", "remove_new_target", "installed-component",
    "removed-target"⟩) entry.target

def rollbackNew (entry : JournalEntry) : Io ρ Unit := do
  let backupIsFile ← hasBackup entry
  require (backupIsFile = false)
    (.stage ("cannot roll back a new target with an unexpected backup: " ++
      displayPath entry.backup))
  let targetIsFile ← ensureReservedFilePath entry.target "new update target"
  whenever targetIsFile (removeNewTarget P entry)
  let preparedIsFile ← ensureReservedFilePath entry.prepared "rollback prepared path"
  whenever preparedIsFile (removeReservedFile entry.prepared "rollback prepared path")

def rollbackEntry (entry : JournalEntry) : Io ρ Unit :=
  if entry.hadOriginal then
    match entry.originalSha256 with
    | none => fail (.stage ("cannot roll back update without the original digest: " ++
        displayPath entry.target))
    | some original => rollbackReplaced P entry original
  else rollbackNew P entry

/-- Goes through all entries and returns the first error in the end. -/
def rollbackAll (firstError : Option UpdateError) : List JournalEntry → Io ρ Unit
  | [] =>
    match firstError with
    | none => pure ()
    | some error => fail error
  | entry :: rest => do
    let result ← attempt (rollbackEntry P entry)
    match result with
    | .ok _ => rollbackAll firstError rest
    | .error error => rollbackAll (firstError.or (some error)) rest

def rollback (entries : List JournalEntry) : Io ρ Unit := rollbackAll P none entries.reverse

/-- The image of a program that runs cannot be deleted on Windows. -/
def isDeferredImageLock : UpdateError → Bool
  | .io .locked => P.windows
  | .ioWithContext _ .locked => P.windows
  | _ => false

/-- Whether the file is gone. -/
def removeCommittedFile (path : Path) (label : String) (expected : Digest)
    (alternate : Option Digest) (deferInUse : Bool) : Io ρ Bool := do
  let isFile ← ensureReservedFilePath path label
  if isFile then do
    let digest ← sha256File P path
    require (digest = expected ∨ alternate = some digest)
      (.stage ("refusing to remove an unrecognized " ++ label ++ ": " ++ displayPath path))
    let result ← attempt (removeFile (.ioWithContext ⟨"cleanup",
      "remove_committed_reserved_file", "committed-reserved-file", "removed-reserved-file"⟩) path)
    match result with
    | .ok _ => pure true
    | .error error => if deferInUse && isDeferredImageLock P error then pure false else fail error
  else pure true

def cleanupBackup (entry : JournalEntry) : Io ρ Bool := do
  let isFile ← ensureReservedFilePath entry.backup "transaction backup"
  if isFile then
    match entry.originalSha256 with
    | none => fail (.stage ("unexpected backup for a newly created update target: " ++
        displayPath entry.backup))
    | some original => removeCommittedFile P entry.backup "transaction backup" original none true
  else pure true

/-- Whether everything is gone. -/
def cleanupEntry (entry : JournalEntry) : Io ρ Bool := do
  let preparedGone ← removeCommittedFile P entry.prepared "transaction prepared file"
    entry.expectedSha256 entry.originalSha256 true
  let backupGone ← cleanupBackup P entry
  pure (preparedGone && backupGone)

def cleanupCommittedEntries : List JournalEntry → Io ρ Bool
  | [] => pure true
  | entry :: rest => do
    let gone ← cleanupEntry P entry
    let restGone ← cleanupCommittedEntries rest
    pure (gone && restGone)

end

/-! ## The paths of entries -/

namespace JournalEntry

def paths (e : JournalEntry) : List Path := [e.target, e.prepared, e.backup]

end JournalEntry

def allPaths (entries : List JournalEntry) : List Path := entries.flatMap JournalEntry.paths

/-- No path is used twice, by one entry or by two. -/
def Distinct (entries : List JournalEntry) : Prop := (allPaths entries).Nodup

theorem mem_allPaths (entries : List JournalEntry) (p : Path) :
    p ∈ allPaths entries ↔ ∃ e ∈ entries, p ∈ e.paths := List.mem_flatMap

theorem distinct_cons (e : JournalEntry) (rest : List JournalEntry) :
    Distinct (e :: rest) ↔
      e.paths.Nodup ∧ Distinct rest ∧ ∀ p ∈ e.paths, p ∉ allPaths rest := by
  unfold Distinct allPaths
  rw [List.flatMap_cons, List.nodup_append]
  refine and_congr_right (fun _ => and_congr_right (fun _ => ?_))
  constructor
  · intro h p hp hmem
    exact h p hp p hmem rfl
  · rintro h p hp q hq rfl
    exact h p hp hq

/-- A path tells its entry. -/
theorem eq_of_distinct (entries : List JournalEntry) (h : Distinct entries) (e e' : JournalEntry)
    (he : e ∈ entries) (he' : e' ∈ entries) (p : Path) (hp : p ∈ e.paths) (hp' : p ∈ e'.paths) :
    e = e' := by
  induction entries with
  | nil => exact absurd he List.not_mem_nil
  | cons x rest ih =>
      rcases (distinct_cons x rest).mp h with ⟨_, hrest, hapart⟩
      rcases List.mem_cons.mp he with rfl | hmem
      · rcases List.mem_cons.mp he' with rfl | hmem'
        · rfl
        · exact absurd ((mem_allPaths rest p).mpr ⟨e', hmem', hp'⟩) (hapart p hp)
      · rcases List.mem_cons.mp he' with rfl | hmem'
        · exact absurd ((mem_allPaths rest p).mpr ⟨e, hmem, hp⟩) (hapart p hp')
        · exact ih hrest hmem hmem'

theorem nodup_of_distinct (entries : List JournalEntry) (h : Distinct entries) (e : JournalEntry)
    (he : e ∈ entries) : e.paths.Nodup := by
  induction entries with
  | nil => exact absurd he List.not_mem_nil
  | cons x rest ih =>
      rcases (distinct_cons x rest).mp h with ⟨hnodup, hrest, _⟩
      rcases List.mem_cons.mp he with rfl | he
      · exact hnodup
      · exact ih hrest he

theorem distinct_perm (entries entries' : List JournalEntry) (hperm : entries.Perm entries') :
    Distinct entries ↔ Distinct entries' :=
  List.Perm.nodup_iff (List.Perm.flatMap_right _ hperm)

section

variable {ρ : Type} (P : Platform) {A : Choice → Prop}

/-- The paths of an entry are three. -/
theorem ne_of_nodup (e : JournalEntry) (h : e.paths.Nodup) :
    e.target ≠ e.prepared ∧ e.target ≠ e.backup ∧ e.prepared ≠ e.backup := by
  simp only [JournalEntry.paths, List.nodup_cons, List.mem_cons, List.not_mem_nil, or_false,
    not_or, not_false_eq_true, List.nodup_nil, and_true] at h
  exact ⟨h.1.1, h.1.2, h.2⟩

theorem mem_target (e : JournalEntry) : e.target ∈ e.paths := by simp [JournalEntry.paths]

theorem mem_prepared (e : JournalEntry) : e.prepared ∈ e.paths := by simp [JournalEntry.paths]

theorem mem_backup (e : JournalEntry) : e.backup ∈ e.paths := by simp [JournalEntry.paths]

/-! ## What is beside the directory -/

section

variable {γ : Type} (f : Disk ρ → γ) (hf : ∀ d t, f { d with tree := t } = f d)

include hf

theorem preserves_removeCommittedFile (path : Path) (label : String) (expected : Digest)
    (alternate : Option Digest) (deferInUse : Bool) :
    Preserves f (removeCommittedFile P path label expected alternate deferInUse : Io ρ Bool) := by
  refine preserves_bind f _ _ (preserves_ensureReservedFilePath f path label) (fun isFile => ?_)
  cases isFile with
  | false => exact preserves_pure f true
  | true =>
      refine preserves_bind f _ _ (preserves_sha256File f P path) (fun digest => ?_)
      refine preserves_bind f _ _ (preserves_require f _ _) (fun _ => ?_)
      refine preserves_bind f _ _ (preserves_attempt f _ (preserves_removeFile f hf _ path))
        (fun result => ?_)
      cases result with
      | ok _ => exact preserves_pure f true
      | error error =>
          dsimp only
          split
          · exact preserves_pure f false
          · exact preserves_fail f error

theorem preserves_cleanupEntry (entry : JournalEntry) :
    Preserves f (cleanupEntry P entry : Io ρ Bool) := by
  refine preserves_bind f _ _ (preserves_removeCommittedFile P f hf _ _ _ _ _) (fun preparedGone => ?_)
  refine preserves_bind f _ _ (preserves_bind f _ _
    (preserves_ensureReservedFilePath f _ _) (fun isFile => ?_)) (fun backupGone => preserves_pure f _)
  cases isFile with
  | false => exact preserves_pure f true
  | true =>
      cases horiginal : entry.originalSha256 with
      | none => exact preserves_fail f _
      | some original => exact preserves_removeCommittedFile P f hf _ _ _ _ _

theorem preserves_cleanupCommittedEntries (entries : List JournalEntry) :
    Preserves f (cleanupCommittedEntries P entries : Io ρ Bool) := by
  induction entries with
  | nil => exact preserves_pure f true
  | cons entry rest ih =>
      exact preserves_bind f _ _ (preserves_cleanupEntry P f hf entry) (fun gone =>
        preserves_bind f _ _ ih (fun restGone => preserves_pure f _))

theorem preserves_applyEntry (entry : JournalEntry) :
    Preserves f (applyEntry P publishPrepared entry : Io ρ Unit) := by
  have hhash : ∀ (path : Path) (expected : Digest) (label : String),
      Preserves f (requireFileHash P path expected label : Io ρ Unit) :=
    fun path expected label => preserves_requireFileHash f P path expected label
  have hstale : Preserves f (removeStaleBackup P entry : Io ρ Unit) := by
    refine preserves_bind f _ _ (preserves_ensureReservedFilePath f _ _) (fun isFile => ?_)
    cases isFile with
    | false => exact preserves_pure f ()
    | true =>
        cases horiginal : entry.originalSha256 with
        | none => exact preserves_fail f _
        | some original =>
            exact preserves_bind f _ _ (hhash _ _ _) (fun _ =>
              preserves_bind f _ _ (hhash _ _ _) (fun _ => preserves_removeFile f hf _ _))
  have haside : Preserves f (setAside P entry : Io ρ Unit) := by
    unfold setAside
    split
    · cases horiginal : entry.originalSha256 with
      | none => exact preserves_fail f _
      | some original =>
          exact preserves_bind f _ _ (hhash _ _ _) (fun _ => preserves_rename f hf _ _ _)
    · exact preserves_bind f _ _ (preserves_ensureReservedFilePath f _ _) (fun _ =>
        preserves_require f _ _)
  exact preserves_bind f _ _ hstale (fun _ => preserves_bind f _ _ haside (fun _ =>
    preserves_bind f _ _ (hhash _ _ _) (fun _ =>
      preserves_bind f _ _ (preserves_rename f hf _ _ _) (fun _ => hhash _ _ _))))

theorem preserves_applyEntries (entries : List JournalEntry) :
    Preserves f (applyEntries P entries : Io ρ Unit) :=
  preserves_forEach f _ entries (preserves_applyEntry P f hf)

theorem preserves_rollbackReplaced (entry : JournalEntry) (original : Digest) :
    Preserves f (rollbackReplaced P entry original : Io ρ Unit) := by
  have hhash : ∀ (path : Path) (expected : Digest) (label : String),
      Preserves f (requireFileHash P path expected label : Io ρ Unit) :=
    fun path expected label => preserves_requireFileHash f P path expected label
  have hrestore : ∀ targetIsFile,
      Preserves f (restoreBackup P entry original targetIsFile : Io ρ Unit) := fun targetIsFile =>
    preserves_bind f _ _ (hhash _ _ _) (fun _ =>
      preserves_bind f _ _ (preserves_whenever f _ _ (hhash _ _ _)) (fun _ =>
        preserves_bind f _ _ (preserves_prepareVerifiedCopy f hf P _ _ _ _) (fun _ =>
          preserves_bind f _ _ (preserves_whenever f _ _ (preserves_removeFile f hf _ _)) (fun _ =>
            preserves_bind f _ _ (preserves_rename f hf _ _ _) (fun _ => hhash _ _ _)))))
  have hremove : Preserves f (removePrepared P entry original : Io ρ Unit) :=
    preserves_bind f _ _ (preserves_ensureReservedFilePath f _ _) (fun _ =>
      preserves_bind f _ _ (preserves_whenever f _ _ (hhash _ _ _)) (fun _ =>
        preserves_removeReservedFile f hf _ _))
  refine preserves_bind f _ _ (preserves_ensureReservedFilePath f _ _) (fun targetIsFile =>
    preserves_bind f _ _ ?_ (fun isOriginal => ?_))
  · cases targetIsFile with
    | false => exact preserves_pure f false
    | true =>
        exact preserves_bind f _ _ (preserves_sha256File f P _) (fun _ => preserves_pure f _)
  · cases isOriginal with
    | false => exact hrestore targetIsFile
    | true => exact hremove

theorem preserves_rollbackNew (entry : JournalEntry) :
    Preserves f (rollbackNew P entry : Io ρ Unit) := by
  have hbackup : Preserves f (hasBackup entry : Io ρ Bool) := by
    unfold hasBackup
    split
    · exact preserves_pure f true
    · exact preserves_ensureReservedFilePath f _ _
  have hremove : Preserves f (removeNewTarget P entry : Io ρ Unit) :=
    preserves_bind f _ _ (preserves_requireFileHash f P _ _ _) (fun _ =>
      preserves_removeFile f hf _ _)
  exact preserves_bind f _ _ hbackup (fun _ => preserves_bind f _ _ (preserves_require f _ _)
    (fun _ => preserves_bind f _ _ (preserves_ensureReservedFilePath f _ _) (fun _ =>
      preserves_bind f _ _ (preserves_whenever f _ _ hremove) (fun _ =>
        preserves_bind f _ _ (preserves_ensureReservedFilePath f _ _) (fun _ =>
          preserves_whenever f _ _ (preserves_removeReservedFile f hf _ _))))))

theorem preserves_rollbackAll (entries : List JournalEntry) (firstError : Option UpdateError) :
    Preserves f (rollbackAll P firstError entries : Io ρ Unit) := by
  have hentry : ∀ entry, Preserves f (rollbackEntry P entry : Io ρ Unit) := by
    intro entry
    unfold rollbackEntry
    split
    · cases horiginal : entry.originalSha256 with
      | none => exact preserves_fail f _
      | some original => exact preserves_rollbackReplaced P f hf entry original
    · exact preserves_rollbackNew P f hf entry
  induction entries generalizing firstError with
  | nil =>
      unfold rollbackAll
      cases firstError with
      | none => exact preserves_pure f ()
      | some error => exact preserves_fail f error
  | cons entry rest ih =>
      refine preserves_bind f _ _ (preserves_attempt f _ (hentry entry)) (fun result => ?_)
      cases result with
      | ok _ => exact ih firstError
      | error error => exact ih (firstError.or (some error))

theorem preserves_rollback (entries : List JournalEntry) :
    Preserves f (rollback P entries : Io ρ Unit) :=
  preserves_rollbackAll P f hf entries.reverse none

end

end

end Updater

end DccMcp
