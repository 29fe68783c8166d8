import DccMcp.Updater.PackagePaths

/-!
# Installing a Package

A package is installed below the directory of the executable, over the package
of the same name that is there. A receipt says which files the installation
put there and with which bytes, and a file that is on the disk is replaced only
if it has the new bytes already or the bytes the receipt has for its path.

The receipt is written anew from the manifest that is installed. A file that
the manifest no longer has stays on the disk, and nothing owns it any more: when
a later manifest has the path again, with other bytes, the file is in its way.
The same holds of a file where a later manifest needs a directory, and of a
directory where it has a file.

What is modelled is a call that nothing interrupts and whose operations do not
fail. The journal and the files it names beside their targets are gone at the
end of such a call, so only what the journal is checked for is here. The
receipt is kept as what is read back from its file. The sizes of the two texts,
which are what the serialisation makes of them, are parameters.

## Main definitions

* `Package`, `Receipt`, `PackageDisk`: What is installed, and where.
* `prepareReceipt`, `planEntries`, `validateJournal`, `installPackage`: The call.
* `Upgrades`: Every call of a list succeeds and installs its package.

## Theorems

* `collectMissingDirectories_ok`, `planEntries_ok`: The plan of a call.
* `publish_file`, `publish_rest`: What is on the disk afterwards.
-/

namespace DccMcp

namespace Updater

open FileTree

structure PackageFile where
  path : Path
  sha256 : Digest
  deriving DecidableEq

structure PackageIdentity where
  name : String
  version : String
  verifiedLegacyForeground : Option PackageFile

/-- A call: the manifest, the directory with the sources, and whether the
    installed files pass the runtime validation. -/
structure Package where
  identity : PackageIdentity
  source : Tree String File
  directories : List Path
  files : List PackageFile
  accepts : Tree String File → Bool

structure Receipt where
  name : String
  version : String
  directories : List Path
  files : List PackageFile
  deriving DecidableEq

structure PackageDisk where
  tree : Tree String File
  receipt : Option Receipt

/-- A file of the plan, with the digest of what it replaces. -/
structure PlanEntry where
  target : Path
  original : Option Digest
  expected : Digest

/-- The path of the executable, and the lengths of the texts of a receipt and of
    the journal of a plan. -/
structure Setting extends Platform where
  executable : Path
  receiptLength : Receipt → Nat
  journalLength : List Path → List PlanEntry → Nat

/-- The place of a path on the disk, which may fold the case of letters. -/
def Setting.place (P : Setting) (path : Path) : Path := path.map (pathKey P.windows)

def maxPackageJournalBytes : Nat := 4194304

def Package.paths (p : Package) : List Path := p.files.map (·.path)

def receiptName (name : String) : String := "." ++ name ++ "-install-receipt.json"

def receiptOf (p : Package) : Receipt :=
  ⟨p.identity.name, p.identity.version, p.directories, p.files⟩

def validateVersion (version : String) : Checked Unit :=
  check (version ≠ "" ∧ version.utf8ByteSize ≤ 128 ∧
      version.toList.all (fun c => c.isAlphanum || c == '.' || c == '-' || c == '+') = true)
    "package ownership receipt has an invalid version"

/-- The directories above a path and the path itself are directories, or perhaps
    missing. -/
def requireDirectoryChain (P : Setting) (t : Tree String File) (allowMissing : Bool)
    (relative : Path) : Checked Unit :=
  checkAll (fun path =>
    match t (P.place path) with
    | some .dir => .ok ()
    | some _ => .error (.stage ("package path contains a non-directory or symbolic link: " ++
        displayPath path))
    | none => if allowMissing then .ok () else .error (.io .notFound)) (spellingsOf relative)

def checkParentChain (P : Setting) (t : Tree String File) (path : Path) : Checked Unit :=
  requireDirectoryChain P t true path.dropLast

def requireSourceHash (P : Setting) (t : Tree String File) (label : String) (file : PackageFile) :
    Checked Unit :=
  match t (P.place file.path) with
  | some (.file f) =>
    if P.digest f = file.sha256 then .ok ()
    else .error (.checksumMismatch (digestText file.sha256) (digestText (P.digest f)))
  | none => .error (.stage (label ++ " is missing or not a regular file: " ++
      displayPath file.path))
  | some _ => .error (.stage (label ++ " is not a regular file: " ++ displayPath file.path))

def checkSource (P : Setting) (p : Package) (label : String) : Checked Unit := do
  checkAll (requireDirectoryChain P p.source false) p.directories
  checkAll (fun file => do
    checkParentChain P p.source file.path
    requireSourceHash P p.source label file) p.files

def checkIdentity (identity : PackageIdentity) : Checked Unit := do
  check (validateSiblingName identity.name = true)
    ("invalid sibling update target: " ++ identity.name.quote)
  match identity.verifiedLegacyForeground with
  | none => .ok ()
  | some file =>
    check (file.path = [identity.name] ∨ file.path = [identity.name ++ ".exe"])
      "legacy package proof must name the foreground executable"

/-- A regular file, or nothing. -/
def regularAt (P : Setting) (t : Tree String File) (path : Path) (label : String) :
    Checked (Option File) :=
  match t (P.place path) with
  | none => .ok none
  | some (.file f) => .ok (some f)
  | some _ => .error (.stage (label ++ " is not a regular file: " ++ displayPath path))

/-- A receipt from an earlier call, checked. -/
def checkReceipt (P : Setting) (name : String) (receipt : Receipt) : Checked Unit := do
  check (P.receiptLength receipt ≤ maxPackageJournalBytes)
    "package ownership receipt exceeds the size limit"
  check (receipt.name = name) "package ownership receipt has an incompatible identity"
  validateVersion receipt.version
  validatePackagePaths receipt.directories (receipt.files.map (·.path))
  check (∀ file ∈ receipt.files, lowerPath file.path ≠ lowerPath [receiptName name])
    "package ownership receipt cannot own itself"

/-- The receipt has the path, whatever the case of its letters, with the bytes. -/
def Owned (receipt : Option Receipt) (path : Path) (digest : Digest) : Prop :=
  ∃ r ∈ receipt, ∃ file ∈ r.files, lowerPath file.path = lowerPath path ∧ digest = file.sha256

instance (receipt : Option Receipt) (path : Path) (digest : Digest) :
    Decidable (Owned receipt path digest) :=
  match receipt with
  | none => isFalse (fun ⟨_, h, _⟩ => Option.not_mem_none _ h)
  | some r => decidable_of_iff
      (∃ file ∈ r.files, lowerPath file.path = lowerPath path ∧ digest = file.sha256)
      ⟨fun h => ⟨r, rfl, h⟩, fun ⟨_, hr, h⟩ => Option.mem_some.mp hr ▸ h⟩

/-- A file on the disk may be replaced. -/
def checkOwned (P : Setting) (s : PackageDisk) (identity : PackageIdentity)
    (file : PackageFile) : Checked Unit := do
  checkParentChain P s.tree file.path
  let current ← regularAt P s.tree file.path "package destination"
  match current with
  | none => .ok ()
  | some f =>
    check (P.digest f = file.sha256 ∨
        (s.receipt = none ∧ ∃ legacy ∈ identity.verifiedLegacyForeground,
          file.path = legacy.path ∧ P.digest f = legacy.sha256) ∨
        Owned s.receipt file.path (P.digest f))
      ("package file conflict at " ++ displayPath file.path ++
        ": existing content is unowned or modified; preserve it before retrying")

def prepareReceipt (P : Setting) (s : PackageDisk) (p : Package) : Checked Receipt := do
  validateVersion p.identity.version
  check (∀ path ∈ p.directories ++ p.paths, lowerPath path ≠
      lowerPath [receiptName p.identity.name])
    "package manifest conflicts with its ownership receipt"
  match s.receipt with
  | none => .ok ()
  | some receipt => checkReceipt P p.identity.name receipt
  checkAll (checkOwned P s p.identity) p.files
  return receiptOf p

/-- A directory is there, or nothing is. -/
def directoryAt (P : Setting) (t : Tree String File) (path : Path) : Checked Bool :=
  match t (P.place path) with
  | some .dir => .ok true
  | some _ => .error (.stage ("package directory is not a real directory: " ++ displayPath path))
  | none => .ok false

/-- The directories of the list that are missing, after the ones known so far. -/
def collectMissingDirectories (P : Setting) (t : Tree String File) (missing : List Path) :
    List Path → Checked (List Path)
  | [] => .ok missing
  | path :: rest => do
    let isThere ← directoryAt P t path
    if isThere = true then collectMissingDirectories P t missing rest
    else if missing.contains path = true then collectMissingDirectories P t missing rest
    else collectMissingDirectories P t (missing ++ [path]) rest

structure Plan where
  created : List Path
  entries : List PlanEntry

def planEntries (P : Setting) (t : Tree String File) (plan : Plan) :
    List PackageFile → Checked Plan
  | [] => .ok plan
  | file :: rest => do
    let created ← collectMissingDirectories P t plan.created (spellingsOf file.path.dropLast)
    check (P.place file.path ≠ P.place P.executable)
      "companion package cannot replace the running executable"
    let original ← regularAt P t file.path "package destination"
    planEntries P t
      ⟨created, plan.entries ++ [⟨file.path, original.map P.digest, file.sha256⟩]⟩ rest

/-- The bits for execution, by which modes are compared. -/
def execBits (mode : Nat) : Nat := mode &&& 0o111

def packageModesMatch (P : Setting) (t : Tree String File) (p : Package) : Bool :=
  P.windows || p.files.all fun file =>
    (fileAt p.source (P.place file.path)).map (fun f => execBits f.mode) ==
      (fileAt t (P.place file.path)).map (fun f => execBits f.mode)

def specialBits (mode : Nat) : Nat := mode &&& 0o7000

def checkOriginalMode (P : Setting) (t : Tree String File) (entry : PlanEntry) : Checked Unit :=
  check (P.windows = true ∨ ∀ f ∈ fileAt t (P.place entry.target), specialBits f.mode = 0)
    "package destination has unsupported special permission bits"

/-- What the journal of the plan is checked for, with the receipt among its files. -/
def validateJournal (P : Setting) (t : Tree String File) (name : String) (plan : Plan) :
    Checked Unit := do
  check (plan.entries.length + 1 + plan.created.length ≤ maxPackageEntries)
    "package journal does not match this installation"
  checkAll (fun path => do
    validatePackagePath path
    checkParentChain P t path) plan.created
  checkAll (requireDirectoryChain P t true) plan.created
  checkAll (fun path => do
    validatePackagePath path
    checkParentChain P t path) (plan.entries.map (·.target) ++ [[receiptName name]])
  validatePackagePaths plan.created (plan.entries.map (·.target) ++ [[receiptName name]])

/-- The directories are made and the files renamed into place, one by one. -/
def putAll (t : Tree String File) (nodes : List (Path × Option (Node File))) :
    Tree String File :=
  nodes.foldl (fun t n => put t n.1 n.2) t

def publish (P : Setting) (t : Tree String File) (p : Package) (created : List Path) :
    Tree String File :=
  putAll (putAll t (created.map fun path => (P.place path, some .dir)))
    (p.files.map fun file => (P.place file.path, p.source (P.place file.path)))

/-- The installation is the one the manifest describes. -/
def IsComplete (P : Setting) (s : PackageDisk) (p : Package) (plan : Plan) : Prop :=
  (∀ entry ∈ plan.entries, entry.original = some entry.expected) ∧
    s.receipt = some (receiptOf p) ∧ plan.created = [] ∧ packageModesMatch P s.tree p = true

instance (P : Setting) (s : PackageDisk) (p : Package) (plan : Plan) :
    Decidable (IsComplete P s p plan) :=
  inferInstanceAs (Decidable (_ ∧ _ ∧ _ ∧ _))

def checkPlan (P : Setting) (p : Package) (plan : Plan) : Checked Unit := do
  check (P.place [receiptName p.identity.name] ≠ P.place P.executable)
    "companion package cannot replace the running executable"
  check (plan.entries.length + 1 + plan.created.length ≤ maxPackageEntries)
    "expanded package install plan exceeds the size limit"
  checkSource P p "locked package source"

/-- The files are put into place, if the journal of the plan is admissible. -/
def applyPlan (P : Setting) (s : PackageDisk) (p : Package) (receipt : Receipt) (plan : Plan) :
    Checked PackageDisk := do
  checkAll (checkOriginalMode P s.tree) plan.entries
  validateJournal P s.tree p.identity.name plan
  check (P.journalLength plan.created plan.entries ≤ maxPackageJournalBytes)
    "package journal exceeds the size limit"
  check (p.accepts (publish P s.tree p plan.created) = true) "package validation failed"
  return ⟨publish P s.tree p plan.created, some receipt⟩

def keepInstalled (s : PackageDisk) (p : Package) : Checked PackageDisk := do
  check (p.accepts s.tree = true) "package validation failed"
  return s

/-- The call. What it changes is rolled back when it fails. -/
def installPackage (P : Setting) (s : PackageDisk) (p : Package) : Checked PackageDisk := do
  checkIdentity p.identity
  validatePackagePaths p.directories p.paths
  checkSource P p "package source"
  let receipt ← prepareReceipt P s p
  let created ← collectMissingDirectories P s.tree [] (p.directories.flatMap spellingsOf)
  let plan ← planEntries P s.tree ⟨created, []⟩ p.files
  checkPlan P p plan
  if IsComplete P s p plan then keepInstalled s p else applyPlan P s p receipt plan

/-- Every file of the manifest has the manifest's bytes, and the receipt lists
    exactly the manifest's files. -/
structure PackageInstalled (P : Setting) (p : Package) (s : PackageDisk) : Prop where
  files : ∀ file ∈ p.files, Has P.digest s.tree (P.place file.path) file.sha256
  receipt : s.receipt = some (receiptOf p)

/-- Every call of the list succeeds, and after each its package is installed. -/
def Upgrades (P : Setting) : PackageDisk → List Package → Prop
  | _, [] => True
  | s, p :: rest =>
    ∃ s', installPackage P s p = .ok s' ∧ PackageInstalled P p s' ∧ Upgrades P s' rest

/-! ## What the steps of a call do -/

section

variable (P : Setting) (t : Tree String File)

/-- A directory is there or can be made. -/
def Passable (t : Tree String File) (q : Path) : Prop := t q = none ∨ t q = some .dir

theorem lowerPath_of_place (p q : Path) (h : P.place p = P.place q) :
    lowerPath p = lowerPath q := by
  unfold Setting.place at h
  cases hw : P.windows with
  | true =>
      rw [hw] at h
      exact h
  | false =>
      rw [hw] at h
      have hid : ∀ r : Path, r.map (pathKey false) = r := fun r => List.map_id r
      rw [hid, hid] at h
      rw [h]

theorem requireDirectoryChain_ok (relative : Path)
    (h : ∀ m ∈ spellingsOf relative, Passable t (P.place m)) :
    requireDirectoryChain P t true relative = .ok () := by
  unfold requireDirectoryChain
  rw [checkAll_eq_ok]
  intro m hm
  rcases h m hm with hnone | hdir
  · rw [hnone]
    rfl
  · rw [hdir]

theorem requireSourceHash_iff (label : String) (file : PackageFile) :
    requireSourceHash P t label file = .ok () ↔ Has P.digest t (P.place file.path) file.sha256 := by
  unfold requireSourceHash Has
  cases hnode : t (P.place file.path) with
  | none =>
      constructor
      · intro h
        cases h
      · rintro ⟨f, hf, _⟩
        cases hf
  | some n =>
      cases n with
      | file f =>
          dsimp only
          by_cases hdigest : P.digest f = file.sha256
          · rw [if_pos hdigest]
            exact ⟨fun _ => ⟨f, rfl, hdigest⟩, fun _ => rfl⟩
          · rw [if_neg hdigest]
            constructor
            · intro h
              cases h
            · rintro ⟨g, hg, hd⟩
              cases hg
              exact absurd hd hdigest
      | dir =>
          constructor
          · intro h
            cases h
          · rintro ⟨f, hf, _⟩
            cases hf
      | other =>
          constructor
          · intro h
            cases h
          · rintro ⟨f, hf, _⟩
            cases hf

/-- What is said about a source does not depend on the words it is said in. -/
theorem checkSource_iff (p : Package) (label : String) :
    checkSource P p label = .ok () ↔
      (∀ d ∈ p.directories, requireDirectoryChain P p.source false d = .ok ()) ∧
        ∀ file ∈ p.files, checkParentChain P p.source file.path = .ok () ∧
          Has P.digest p.source (P.place file.path) file.sha256 := by
  unfold checkSource
  rw [checked_then_eq_ok, checkAll_eq_ok, checkAll_eq_ok]
  simp only [checked_then_eq_ok, requireSourceHash_iff]

theorem directoryAt_of_dir (path : Path) (h : t (P.place path) = some .dir) :
    directoryAt P t path = .ok true := by
  unfold directoryAt
  rw [h]

theorem directoryAt_of_none (path : Path) (h : t (P.place path) = none) :
    directoryAt P t path = .ok false := by
  unfold directoryAt
  rw [h]

theorem collectMissingDirectories_ok (missing l : List Path)
    (h : ∀ m ∈ l, Passable t (P.place m)) (hnodup : missing.Nodup) :
    ∃ missing', collectMissingDirectories P t missing l = .ok missing' ∧ missing'.Nodup ∧
      ∀ m, m ∈ missing' ↔ m ∈ missing ∨ (m ∈ l ∧ t (P.place m) = none) := by
  induction l generalizing missing with
  | nil => exact ⟨missing, rfl, hnodup, fun m => by simp⟩
  | cons path l ih =>
      have hl := fun m hm => h m (List.mem_cons_of_mem path hm)
      rcases h path List.mem_cons_self with hnone | hdir
      · -- a directory that is known to be missing already is not listed again
        have hnext : ∃ next, collectMissingDirectories P t missing (path :: l) =
            collectMissingDirectories P t next l ∧ next.Nodup ∧
              ∀ m, m ∈ next ↔ m ∈ missing ∨ m = path := by
          rw [collectMissingDirectories, directoryAt_of_none P t path hnone]
          by_cases hmem : path ∈ missing
          · have hcontains := List.contains_iff_mem.mpr hmem
            refine ⟨missing, if_pos hcontains, hnodup, fun m => ⟨Or.inl, ?_⟩⟩
            rintro (hm | rfl)
            · exact hm
            · exact hmem
          · have hcontains : ¬missing.contains path = true :=
              fun h => hmem (List.contains_iff_mem.mp h)
            refine ⟨missing ++ [path], if_neg hcontains, ?_,
              fun m => by rw [List.mem_append, List.mem_singleton]⟩
            rw [List.nodup_append]
            refine ⟨hnodup, by simp, fun a ha b hb heq => ?_⟩
            rw [List.mem_singleton.mp hb] at heq
            exact hmem (heq ▸ ha)
        rcases hnext with ⟨next, hstep, hnext⟩
        rw [hstep]
        rcases ih _ hl hnext.1 with ⟨missing', hok, hnodup', hmem⟩
        refine ⟨missing', hok, hnodup', fun m => ?_⟩
        rw [hmem, hnext.2, List.mem_cons]
        constructor
        · rintro ((hm | rfl) | hm)
          · exact Or.inl hm
          · exact Or.inr ⟨Or.inl rfl, hnone⟩
          · exact Or.inr ⟨Or.inr hm.1, hm.2⟩
        · rintro (hm | ⟨rfl | hm, hfree⟩)
          · exact Or.inl (Or.inl hm)
          · exact Or.inl (Or.inr rfl)
          · exact Or.inr ⟨hm, hfree⟩
      · have hstep : collectMissingDirectories P t missing (path :: l) =
            collectMissingDirectories P t missing l := by
          rw [collectMissingDirectories, directoryAt_of_dir P t path hdir]
          rfl
        rw [hstep]
        rcases ih missing hl hnodup with ⟨missing', hok, hnodup', hmem⟩
        refine ⟨missing', hok, hnodup', fun m => ?_⟩
        rw [hmem, List.mem_cons]
        constructor
        · rintro (hm | hm)
          · exact Or.inl hm
          · exact Or.inr ⟨Or.inr hm.1, hm.2⟩
        · rintro (hm | ⟨rfl | hm, hfree⟩)
          · exact Or.inl hm
          · rw [hdir] at hfree
            cases hfree
          · exact Or.inr ⟨hm, hfree⟩

theorem regularAt_ok (path : Path) (label : String) (h : Free t (P.place path)) :
    regularAt P t path label = .ok (fileAt t (P.place path)) := by
  unfold regularAt fileAt
  rcases free_cases t _ h with hnone | ⟨f, hf⟩
  · rw [hnone]
  · rw [hf]

/-- The entry of a file. -/
def entryOf (file : PackageFile) : PlanEntry :=
  ⟨file.path, (fileAt t (P.place file.path)).map P.digest, file.sha256⟩

theorem planEntries_ok (files : List PackageFile) (plan : Plan)
    (hdirs : ∀ file ∈ files, ∀ m ∈ spellingsOf file.path.dropLast, Passable t (P.place m))
    (hexe : ∀ file ∈ files, P.place file.path ≠ P.place P.executable)
    (hfree : ∀ file ∈ files, Free t (P.place file.path)) (hnodup : plan.created.Nodup) :
    ∃ created, planEntries P t plan files = .ok ⟨created, plan.entries ++ files.map (entryOf P t)⟩ ∧
      created.Nodup ∧ ∀ m, m ∈ created ↔ m ∈ plan.created ∨
        ((∃ file ∈ files, m ∈ spellingsOf file.path.dropLast) ∧ t (P.place m) = none) := by
  induction files generalizing plan with
  | nil =>
      refine ⟨plan.created, ?_, hnodup, fun m => by simp⟩
      rw [List.map_nil, List.append_nil]
      rfl
  | cons file files ih =>
      rcases collectMissingDirectories_ok P t plan.created _ (hdirs file List.mem_cons_self)
        hnodup with ⟨missing, hcollected, hnodup', hmem⟩
      have hchecked := (check_eq_ok _
        "companion package cannot replace the running executable").mpr
        (hexe file List.mem_cons_self)
      rcases ih ⟨missing, plan.entries ++ [entryOf P t file]⟩
        (fun g hg => hdirs g (List.mem_cons_of_mem _ hg))
        (fun g hg => hexe g (List.mem_cons_of_mem _ hg))
        (fun g hg => hfree g (List.mem_cons_of_mem _ hg)) hnodup' with
        ⟨created, hok, hnodup'', hmem'⟩
      refine ⟨created, ?_, hnodup'', fun m => ?_⟩
      · have hentries : plan.entries ++ (file :: files).map (entryOf P t) =
            plan.entries ++ [entryOf P t file] ++ files.map (entryOf P t) := by
          rw [List.map_cons, List.append_cons]
        unfold planEntries
        rw [hcollected, hchecked, regularAt_ok P t _ _ (hfree file List.mem_cons_self), hentries]
        exact hok
      · rw [hmem', hmem]
        simp only [List.mem_cons, exists_eq_or_imp]
        tauto

/-! ### The tree afterwards -/

theorem putAll_of_notMem (nodes : List (Path × Option (Node File))) (q : Path)
    (h : q ∉ nodes.map (·.1)) : putAll t nodes q = t q := by
  induction nodes generalizing t with
  | nil => rfl
  | cons n nodes ih =>
      rw [List.map_cons, List.mem_cons, not_or] at h
      exact (ih (put t n.1 n.2) h.2).trans (put_ne t n.1 q n.2 h.1)

/-- Where all nodes for a path are the same it does not matter which is put last. -/
theorem putAll_of_mem (nodes : List (Path × Option (Node File))) (q : Path)
    (v : Option (Node File)) (hmem : q ∈ nodes.map (·.1)) (h : ∀ n ∈ nodes, n.1 = q → n.2 = v) :
    putAll t nodes q = v := by
  induction nodes generalizing t with
  | nil => exact absurd hmem List.not_mem_nil
  | cons n nodes ih =>
      have hrest := fun k hk => h k (List.mem_cons_of_mem n hk)
      by_cases hlater : q ∈ nodes.map (·.1)
      · exact ih (put t n.1 n.2) hlater hrest
      · rw [List.map_cons, List.mem_cons] at hmem
        rcases hmem with heq | hmem
        · have hput : putAll t (n :: nodes) q = put t n.1 n.2 q :=
            putAll_of_notMem (put t n.1 n.2) nodes q hlater
          rw [hput, heq, put_self]
          exact h n List.mem_cons_self heq.symm
        · exact absurd hmem hlater

variable (p : Package) (created : List Path)

theorem publish_file (file : PackageFile) (h : file ∈ p.files) :
    publish P t p created (P.place file.path) = p.source (P.place file.path) := by
  refine putAll_of_mem _ _ _ _ ?_ (fun n hn heq => ?_)
  · rw [List.map_map]
    exact List.mem_map.mpr ⟨file, h, rfl⟩
  · rcases List.mem_map.mp hn with ⟨g, _, rfl⟩
    exact congrArg p.source heq

theorem publish_rest (q : Path) (h : ∀ file ∈ p.files, P.place file.path ≠ q) :
    publish P t p created q = if q ∈ created.map P.place then some .dir else t q := by
  have hfiles : q ∉ (p.files.map fun file => (P.place file.path,
      p.source (P.place file.path))).map (·.1) := by
    rw [List.map_map]
    intro hmem
    rcases List.mem_map.mp hmem with ⟨file, hfile, heq⟩
    exact h file hfile heq
  have hdirs : (created.map fun path => (P.place path,
      (some .dir : Option (Node File)))).map (·.1) = created.map P.place := by
    rw [List.map_map]
    rfl
  unfold publish
  rw [putAll_of_notMem _ _ _ hfiles]
  by_cases hmem : q ∈ created.map P.place
  · rw [if_pos hmem]
    refine putAll_of_mem _ _ _ _ (by rw [hdirs]; exact hmem) (fun n hn _ => ?_)
    rcases List.mem_map.mp hn with ⟨path, _, rfl⟩
    rfl
  · rw [if_neg hmem]
    exact putAll_of_notMem _ _ _ (by rw [hdirs]; exact hmem)

end

end Updater

end DccMcp
