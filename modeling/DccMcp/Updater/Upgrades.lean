import DccMcp.Updater.Package

/-!
# Upgrades of a Package

Packages of one name are installed one after the other. Each call looks at what
the calls before it have left: the receipt of the last one, and the files of
all of them, since nothing removes a file that a manifest no longer has.

What a history leaves at a place is the file of the newest manifest that has
the place. A call gets past it if the file has the new bytes or if the last
manifest has it, and then the same is true of the history with one package
more. A file that was dropped and comes back with other bytes does not get past
its own older self.

## Main definitions

* `lastFile`: The newest file a history has put at a place.
* `ValidPackage`, `Clear`: What is asked of a call by itself, and of what was in the
  directory before.
* `Upgradable`: What a package needs of the packages before it.
* `Holds`: What a history of packages leaves on the disk.

## Theorems

* `upgrades_of_upgradable`: So are all packages of a list.
-/

namespace DccMcp

namespace Updater

open FileTree

/-! ## What a history leaves -/

/-- The newest file that the packages, the last one first, have put at a place. -/
def lastFile (P : Setting) : List Package → Path → Option Digest
  | [], _ => none
  | p :: history, q =>
    match p.files.find? (fun file => P.place file.path = q) with
    | some file => some file.sha256
    | none => lastFile P history q

/-- A directory that the manifest lists or that one of its files is in. -/
def Package.NeedsDirectory (p : Package) (m : Path) : Prop := IsDirectory p.directories p.paths m

/-- A valid call for a package of the name: all that is asked of the call itself,
    whatever is on the disk. -/
structure ValidPackage (P : Setting) (name : String) (p : Package) : Prop where
  name : p.identity.name = name
  identity : checkIdentity p.identity = .ok ()
  version : validateVersion p.identity.version = .ok ()
  paths : validatePackagePaths p.directories p.paths = .ok ()
  source : checkSource P p "package source" = .ok ()
  receipt : validatePackagePath [receiptName p.identity.name] = .ok ()
  apart : ∀ path ∈ p.directories ++ p.paths,
    ¬lowerPath [receiptName p.identity.name] <+: lowerPath path
  accepts : ∀ t, p.accepts t = true

/-- What was in the directory before does not overlap the manifest. -/
structure Clear (P : Setting) (init : Tree String File) (p : Package) : Prop where
  files : ∀ file ∈ p.files, init (P.place file.path) = none
  directories : ∀ m, p.NeedsDirectory m → Passable init (P.place m)
  executable : ∀ path ∈ [receiptName p.identity.name] :: p.paths,
    P.place path ≠ P.place P.executable

/-- One of the packages needs a directory at the place. -/
def DirectoryOf (P : Setting) (history : List Package) (q : Path) : Prop :=
  ∃ r ∈ history, ∃ m, r.NeedsDirectory m ∧ P.place m = q

/-- One of the packages has put a file with the mode at the place. -/
def Placed (P : Setting) (history : List Package) (q : Path) (mode : Nat) : Prop :=
  ∃ r ∈ history, ∃ g ∈ r.files, P.place g.path = q ∧
    ∃ f, r.source q = some (.file f) ∧ f.mode = mode

/-- The directories that a package makes after a history. -/
structure Makes (P : Setting) (init : Tree String File) (history : List Package) (p : Package)
    (created : List Path) : Prop where
  nodup : created.Nodup
  mem : ∀ m, m ∈ created ↔
    p.NeedsDirectory m ∧ init (P.place m) = none ∧ ¬DirectoryOf P history (P.place m)

/-- The package is the one before it once more, as far as the installation can
    tell. -/
def Repeats (P : Setting) (q p : Package) : Prop :=
  receiptOf q = receiptOf p ∧ packageModesMatch P q.source p = true

/-- What a package needs of the packages that were installed before it: a file
    that one of them has left at a place of this one has the new bytes, or the
    bytes the last of them has for the path; where this one has a file none of
    them needs a directory; where this one needs a directory none of them has
    left a file; and the plan and the text of the last receipt are not too
    long. Unless the package is there already, no file that is replaced has
    special bits in its mode, and the text of the journal is not too long. -/
structure Upgradable (P : Setting) (init : Tree String File) (history : List Package)
    (p : Package) : Prop where
  owned : ∀ file ∈ p.files, ∀ d, lastFile P history (P.place file.path) = some d →
    d = file.sha256 ∨ Owned (history.head?.map receiptOf) file.path d
  files : ∀ file ∈ p.files, ¬DirectoryOf P history (P.place file.path)
  directories : ∀ m, p.NeedsDirectory m → lastFile P history (P.place m) = none
  modes : (∃ q ∈ history.head?, Repeats P q p) ∨ P.windows = true ∨ ∀ file ∈ p.files, ∀ mode,
    Placed P history (P.place file.path) mode → specialBits mode = 0
  readable : ∀ q ∈ history.head?, P.receiptLength (receiptOf q) ≤ maxPackageJournalBytes
  room : ∀ created, Makes P init history p created →
    p.files.length + 1 + created.length ≤ maxPackageEntries ∧
      ((∃ q ∈ history.head?, Repeats P q p) ∨ P.journalLength created (p.files.map fun file =>
        ⟨file.path, lastFile P history (P.place file.path), file.sha256⟩) ≤
          maxPackageJournalBytes)

/-- What a history of packages leaves on the disk, the last package first. -/
structure Holds (P : Setting) (name : String) (init : Tree String File) (history : List Package)
    (s : PackageDisk) : Prop where
  valid : ∀ q ∈ history, ValidPackage P name q
  files : ∀ q d, lastFile P history q = some d →
    ∃ f, s.tree q = some (.file f) ∧ P.digest f = d ∧ Placed P history q f.mode
  rest : ∀ q, lastFile P history q = none →
    s.tree q = init q ∨ (s.tree q = some .dir ∧ init q = none ∧ DirectoryOf P history q)
  directories : ∀ q, DirectoryOf P history q → s.tree q = some .dir
  receipt : s.receipt = history.head?.map receiptOf
  modes : ∀ q ∈ history.head?, packageModesMatch P s.tree q = true

variable (P : Setting) (p : Package) (history : List Package) (version : String)

theorem lastFile_cons_of_mem (file : PackageFile) (hnodup : (p.paths.map lowerPath).Nodup)
    (h : file ∈ p.files) :
    lastFile P (p :: history) (P.place file.path) = some file.sha256 := by
  rw [lastFile]
  cases hfind : p.files.find? (fun g => P.place g.path = P.place file.path) with
  | none =>
      rw [List.find?_eq_none] at hfind
      exact absurd (decide_eq_true rfl) (hfind file h)
  | some g =>
      -- the paths of a manifest are at different places
      have hplace := List.find?_some hfind
      rw [decide_eq_true_eq] at hplace
      have hlower := lowerPath_of_place P _ _ hplace
      unfold Package.paths at hnodup
      rw [List.map_map] at hnodup
      rw [List.inj_on_of_nodup_map hnodup (List.mem_of_find?_eq_some hfind) h hlower]

theorem lastFile_cons_of_notMem (q : Path) (h : ∀ file ∈ p.files, P.place file.path ≠ q) :
    lastFile P (p :: history) q = lastFile P history q := by
  have hfind : p.files.find? (fun file => P.place file.path = q) = none := by
    rw [List.find?_eq_none]
    intro file hfile
    rw [decide_eq_true_eq]
    exact h file hfile
  rw [lastFile, hfind]

theorem directoryOf_cons (q : Path) : DirectoryOf P (p :: history) q ↔
      (∃ m, p.NeedsDirectory m ∧ P.place m = q) ∨ DirectoryOf P history q := by
  unfold DirectoryOf
  simp [exists_eq_or_imp]

theorem placed_cons (q : Path) (mode : Nat) (h : Placed P history q mode) :
    Placed P (p :: history) q mode := by
  rcases h with ⟨r, hr, hplaced⟩
  exact ⟨r, List.mem_cons_of_mem p hr, hplaced⟩

theorem placed_self (file : PackageFile) (hfile : file ∈ p.files) (f : File)
    (hf : p.source (P.place file.path) = some (.file f)) :
    Placed P (p :: history) (P.place file.path) f.mode :=
  ⟨p, List.mem_cons_self, file, hfile, rfl, f, hf, rfl⟩

theorem needsDirectory_mono (m k : Path) (h : p.NeedsDirectory m) (hk : k <+: m) (hne : k ≠ []) :
    p.NeedsDirectory k := by
  rcases h.2 with ⟨d, hd, hbegins⟩ | ⟨f, hf, hbegins⟩
  · exact ⟨hne, Or.inl ⟨d, hd, hk.trans hbegins⟩⟩
  · exact ⟨hne, Or.inr ⟨f, hf, hk.trans hbegins⟩⟩

theorem needsDirectory_parent (file : PackageFile) (h : file ∈ p.files) (m : Path)
    (hm : m ∈ spellingsOf file.path.dropLast) : p.NeedsDirectory m := by
  rcases (mem_spellingsOf m _).mp hm with ⟨hbegins, hne⟩
  exact ⟨hne, Or.inr ⟨file.path, List.mem_map_of_mem h, hbegins⟩⟩

/-- A file of a package is not where the package needs a directory. -/
theorem place_ne_directory (h : Portable p.directories p.paths) (file : PackageFile)
    (hfile : file ∈ p.files) (m : Path)
    (hm : p.NeedsDirectory m) : P.place file.path ≠ P.place m := by
  intro heq
  have hlower := lowerPath_of_place P _ _ heq
  exact file_not_above _ _ h file.path m (List.mem_map_of_mem hfile) hm
    (hlower ▸ List.prefix_refl _)

theorem packageModesMatch_iff (t : Tree String File) (p : Package) :
    packageModesMatch P t p = true ↔ P.windows = true ∨ ∀ file ∈ p.files,
      (fileAt p.source (P.place file.path)).map (fun f => execBits f.mode) =
        (fileAt t (P.place file.path)).map (fun f => execBits f.mode) := by
  unfold packageModesMatch
  rw [Bool.or_eq_true, List.all_eq_true]
  simp

theorem publish_modes (t : Tree String File) (p : Package) (created : List Path) :
    packageModesMatch P (publish P t p created) p = true := by
  rw [packageModesMatch_iff]
  refine Or.inr (fun file hfile => ?_)
  unfold fileAt
  rw [publish_file P t p created file hfile]

theorem makes_of_plan (t : Tree String File) (m : Path) :
    (m ∈ p.directories.flatMap spellingsOf ∧ t (P.place m) = none) ∨
        ((∃ file ∈ p.files, m ∈ spellingsOf file.path.dropLast) ∧ t (P.place m) = none) ↔
      p.NeedsDirectory m ∧ t (P.place m) = none := by
  unfold Package.NeedsDirectory IsDirectory Package.paths
  simp only [List.mem_flatMap, mem_spellingsOf, List.mem_map]
  constructor
  · rintro (⟨⟨d, hd, hbegins, hne⟩, hnone⟩ | ⟨⟨file, hfile, hbegins, hne⟩, hnone⟩)
    · exact ⟨⟨hne, Or.inl ⟨d, hd, hbegins⟩⟩, hnone⟩
    · exact ⟨⟨hne, Or.inr ⟨file.path, ⟨file, hfile, rfl⟩, hbegins⟩⟩, hnone⟩
  · rintro ⟨⟨hne, ⟨d, hd, hbegins⟩ | ⟨_, ⟨file, hfile, rfl⟩, hbegins⟩⟩, hnone⟩
    · exact Or.inl ⟨⟨d, hd, hbegins, hne⟩, hnone⟩
    · exact Or.inr ⟨⟨file, hfile, hbegins, hne⟩, hnone⟩

section

variable (P : Setting) (name : String) (init : Tree String File) (history : List Package)
  (p : Package) (hvalid : ValidPackage P name p)

/-- With no package before there is no more on the disk than there was. -/
theorem holds_nil : Holds P name init [] ⟨init, none⟩ where
  valid := fun _ hq => absurd hq List.not_mem_nil
  files := fun _ _ hlast => by cases hlast
  rest := fun _ _ => Or.inl rfl
  directories := by
    rintro q ⟨r, hr, _⟩
    exact absurd hr List.not_mem_nil
  receipt := rfl
  modes := fun _ hq => by cases hq

include hvalid

theorem valid_portable : Portable p.directories p.paths :=
  (validatePackagePaths_iff _ _).mp hvalid.paths

theorem valid_source (label : String) : checkSource P p label = .ok () :=
  (checkSource_iff P p label).mpr ((checkSource_iff P p _).mp hvalid.source)

theorem valid_source_file (file : PackageFile) (hfile : file ∈ p.files) :
    ∃ f, p.source (P.place file.path) = some (.file f) ∧ P.digest f = file.sha256 :=
  (((checkSource_iff P p _).mp hvalid.source).2 file hfile).2

theorem valid_not_receipt (path : Path) (hpath : path ∈ p.directories ++ p.paths) :
    lowerPath path ≠ lowerPath [receiptName p.identity.name] := by
  intro heq
  exact hvalid.apart path hpath (heq ▸ List.prefix_refl _)

end

/-- A valid call for a package after a history that leaves it what it needs. -/
structure Admitted (P : Setting) (name : String) (init : Tree String File)
    (history : List Package) (s : PackageDisk) (p : Package) : Prop where
  holds : Holds P name init history s
  valid : ValidPackage P name p
  clear : Clear P init p
  upgradable : Upgradable P init history p

section

variable {P : Setting} {name : String} {init : Tree String File} {history : List Package}
  {s : PackageDisk} {p : Package} (h : Admitted P name init history s p)

include h

/-- The directories of a package are there or can be made. -/
theorem passable_directory (m : Path) (hm : p.NeedsDirectory m) : Passable s.tree (P.place m) := by
  rcases h.holds.rest _ (h.upgradable.directories m hm) with hinit | ⟨hdir, _⟩
  · have hpassable := h.clear.directories m hm
    unfold Passable at hpassable ⊢
    rw [hinit]
    exact hpassable
  · exact Or.inr hdir

/-- At the place of a file of a package there is what the history has put
    there. -/
theorem current_file (file : PackageFile) (hfile : file ∈ p.files) :
    (s.tree (P.place file.path) = none ∧ lastFile P history (P.place file.path) = none) ∨
      ∃ f, s.tree (P.place file.path) = some (.file f) ∧
        lastFile P history (P.place file.path) = some (P.digest f) ∧
        Placed P history (P.place file.path) f.mode := by
  cases hlast : lastFile P history (P.place file.path) with
  | none =>
      refine Or.inl ⟨?_, rfl⟩
      rcases h.holds.rest _ hlast with hinit | ⟨_, _, hdir⟩
      · rw [hinit]
        exact h.clear.files file hfile
      · exact absurd hdir (h.upgradable.files file hfile)
  | some d =>
      rcases h.holds.files _ _ hlast with ⟨f, hf, hdigest, hplaced⟩
      exact Or.inr ⟨f, hf, by rw [hdigest], hplaced⟩

theorem current_digest (file : PackageFile) (hfile : file ∈ p.files) :
    (fileAt s.tree (P.place file.path)).map P.digest = lastFile P history (P.place file.path) := by
  unfold fileAt
  rcases current_file h file hfile with
    ⟨hnone, hlast⟩ | ⟨f, hf, hlast, _⟩
  · rw [hnone, hlast]
    rfl
  · rw [hf, hlast]
    rfl

theorem current_free (file : PackageFile) (hfile : file ∈ p.files) :
    Free s.tree (P.place file.path) := by
  rcases current_file h file hfile with
    ⟨hnone, _⟩ | ⟨f, hf, _⟩
  · exact free_of_none _ _ hnone
  · exact free_of_file _ _ f hf

/-- A directory is missing if it was missing at first and no package needed it. -/
theorem missing_iff (m : Path) (hlast : lastFile P history (P.place m) = none) :
    s.tree (P.place m) = none ↔
      init (P.place m) = none ∧ ¬DirectoryOf P history (P.place m) := by
  constructor
  · intro hnone
    have hnodir : ¬DirectoryOf P history (P.place m) := by
      intro hdir
      rw [h.holds.directories _ hdir] at hnone
      cases hnone
    rcases h.holds.rest _ hlast with hinit | ⟨_, _, hdir⟩
    · exact ⟨hinit ▸ hnone, hnodir⟩
    · exact absurd hdir hnodir
  · rintro ⟨hinit, hnodir⟩
    rcases h.holds.rest _ hlast with heq | ⟨_, _, hdir⟩
    · rw [heq]
      exact hinit
    · exact absurd hdir hnodir

theorem parent_chain_ok (file : PackageFile) (hfile : file ∈ p.files) :
    checkParentChain P s.tree file.path = .ok () :=
  requireDirectoryChain_ok P s.tree _ (fun m hm =>
    passable_directory h m
      (needsDirectory_parent p file hfile m hm))

/-- The receipt of the last package is accepted. -/
theorem checkReceipt_ok (q : Package) (hq : q ∈ history.head?) :
    checkReceipt P p.identity.name (receiptOf q) = .ok () := by
  have hmem : q ∈ history := List.mem_of_mem_head? hq
  have hlast := h.holds.valid q hmem
  unfold checkReceipt
  rw [checked_then_eq_ok, checked_then_eq_ok, checked_then_eq_ok, checked_then_eq_ok,
    check_eq_ok, check_eq_ok, check_eq_ok]
  refine ⟨h.upgradable.readable q hq, ?_, hlast.version, hlast.paths, fun file hfile => ?_⟩
  · rw [h.valid.name]
    exact hlast.name
  · have hnot := valid_not_receipt P name q hlast file.path
      (List.mem_append_right _ (List.mem_map_of_mem hfile))
    rw [hlast.name] at hnot
    rw [h.valid.name]
    exact hnot

theorem checkOwned_ok (file : PackageFile) (hfile : file ∈ p.files) :
    checkOwned P s p.identity file = .ok () := by
  unfold checkOwned
  rw [checked_then_eq_ok, checked_bind_eq_ok]
  refine ⟨parent_chain_ok h file hfile, _,
    regularAt_ok P s.tree _ _
      (current_free h file hfile), ?_⟩
  unfold fileAt
  rcases current_file h file hfile with
    ⟨hnone, _⟩ | ⟨f, hf, hlast, _⟩
  · rw [hnone]
  · rw [hf]
    dsimp only
    rw [check_eq_ok, h.holds.receipt]
    rcases h.upgradable.owned file hfile _ hlast with hsame | howned
    · exact Or.inl hsame
    · exact Or.inr (Or.inr howned)

theorem prepareReceipt_ok : prepareReceipt P s p = .ok (receiptOf p) := by
  have howned : checkAll (checkOwned P s p.identity) p.files = .ok () :=
    (checkAll_eq_ok _ _).mpr (fun file hfile =>
      checkOwned_ok h file hfile)
  have hnames := (check_eq_ok _ "package manifest conflicts with its ownership receipt").mpr
    (valid_not_receipt P name p h.valid)
  unfold prepareReceipt
  rw [h.valid.version, hnames, howned, h.holds.receipt]
  cases hhead : history.head? with
  | none => rfl
  | some q =>
      have hreceipt := checkReceipt_ok h q hhead
      rw [Option.map_some]
      dsimp only
      rw [hreceipt]
      rfl

/-- The plan of an upgradable package: the directories it makes, and an entry
    for each of its files. -/
theorem plan_ok : ∃ created known,
    collectMissingDirectories P s.tree [] (p.directories.flatMap spellingsOf) = .ok known ∧
      planEntries P s.tree ⟨known, []⟩ p.files =
        .ok ⟨created, p.files.map (entryOf P s.tree)⟩ ∧
      created.Nodup ∧ ∀ m, m ∈ created ↔ p.NeedsDirectory m ∧ s.tree (P.place m) = none := by
  have hpassable := passable_directory h
  rcases collectMissingDirectories_ok P s.tree [] (p.directories.flatMap spellingsOf)
    (fun m hm => by
      rcases List.mem_flatMap.mp hm with ⟨d, hd, hmd⟩
      rcases (mem_spellingsOf m d).mp hmd with ⟨hbegins, hne⟩
      exact hpassable m ⟨hne, Or.inl ⟨d, hd, hbegins⟩⟩) List.nodup_nil with
    ⟨known, hknown, hnodup, hmem⟩
  rcases planEntries_ok P s.tree p.files ⟨known, []⟩
    (fun file hfile m hm => hpassable m (needsDirectory_parent p file hfile m hm))
    (fun file hfile => h.clear.executable file.path
      (List.mem_cons_of_mem _ (List.mem_map_of_mem hfile)))
    (current_free h) hnodup with
    ⟨created, hplan, hnodup', hmem'⟩
  refine ⟨created, known, hknown, hplan, hnodup', fun m => ?_⟩
  rw [hmem', hmem, ← makes_of_plan]
  simp

/-- The plan is the one the history tells. -/
theorem plan_room (created : List Path) (hnodup : created.Nodup)
    (hmem : ∀ m, m ∈ created ↔ p.NeedsDirectory m ∧ s.tree (P.place m) = none) :
    p.files.length + 1 + created.length ≤ maxPackageEntries ∧
      ((∃ q ∈ history.head?, Repeats P q p) ∨
        P.journalLength created (p.files.map (entryOf P s.tree)) ≤ maxPackageJournalBytes) := by
  have hmakes : Makes P init history p created := by
    refine ⟨hnodup, fun m => ?_⟩
    rw [hmem]
    refine and_congr_right (fun hm => ?_)
    exact missing_iff h m (h.upgradable.directories m hm)
  have hentries : p.files.map (entryOf P s.tree) = p.files.map fun file =>
      ⟨file.path, lastFile P history (P.place file.path), file.sha256⟩ := by
    refine List.map_congr_left (fun file hfile => ?_)
    unfold entryOf
    rw [current_digest h file hfile]
  rw [hentries]
  exact h.upgradable.room created hmakes

/-- A package that is there already is left alone. -/
theorem complete_of_repeats (created : List Path)
    (hmem : ∀ m, m ∈ created ↔ p.NeedsDirectory m ∧ s.tree (P.place m) = none) (q : Package)
    (hq : q ∈ history.head?) (hrepeats : Repeats P q p) :
    IsComplete P s p ⟨created, p.files.map (entryOf P s.tree)⟩ := by
  rcases hrepeats with ⟨hreceipt, hmodes⟩
  have hdirectories : q.directories = p.directories := congrArg Receipt.directories hreceipt
  have hfiles : q.files = p.files := congrArg Receipt.files hreceipt
  have hportable := valid_portable P name p h.valid
  refine ⟨fun entry hentry => ?_, ?_, ?_, ?_⟩
  · rcases List.mem_map.mp hentry with ⟨file, hfile, rfl⟩
    change (fileAt s.tree (P.place file.path)).map P.digest = some file.sha256
    rw [current_digest h file hfile]
    cases history with
    | nil => cases hq
    | cons r history =>
        cases hq
        refine lastFile_cons_of_mem P q history file ?_ (hfiles ▸ hfile)
        unfold Package.paths
        rw [hfiles]
        exact files_distinct _ _ hportable
  · rw [h.holds.receipt, Option.mem_def.mp hq, Option.map_some, hreceipt]
  · refine List.eq_nil_iff_forall_not_mem.mpr (fun m hm => ?_)
    rcases (hmem m).mp hm with ⟨hneeds, hnone⟩
    have hneeds' : q.NeedsDirectory m := by
      unfold Package.NeedsDirectory Package.paths at hneeds ⊢
      rw [hdirectories, hfiles]
      exact hneeds
    rw [h.holds.directories _ ⟨q, List.mem_of_mem_head? hq, m, hneeds', rfl⟩] at hnone
    cases hnone
  · have hdisk := h.holds.modes q hq
    rw [packageModesMatch_iff] at hmodes hdisk ⊢
    rcases hmodes with hwindows | hmodes
    · exact Or.inl hwindows
    · rcases hdisk with hwindows | hdisk
      · exact Or.inl hwindows
      · exact Or.inr (fun file hfile =>
          (hmodes file hfile).trans (hdisk file (hfiles ▸ hfile)))

theorem checkOriginalMode_ok (hnew : ¬∃ q ∈ history.head?, Repeats P q p) :
    checkAll (checkOriginalMode P s.tree) (p.files.map (entryOf P s.tree)) = .ok () := by
  rw [checkAll_eq_ok]
  intro entry hentry
  rcases List.mem_map.mp hentry with ⟨file, hfile, rfl⟩
  unfold checkOriginalMode
  rw [check_eq_ok]
  rcases h.upgradable.modes with hrepeats | hwindows | hmodes
  · exact absurd hrepeats hnew
  · exact Or.inl hwindows
  · refine Or.inr (fun f hf => ?_)
    unfold fileAt entryOf at hf
    rcases current_file h file hfile with
      ⟨hnone, _⟩ | ⟨g, hg, _, hplaced⟩
    · rw [hnone] at hf
      cases hf
    · rw [hg] at hf
      cases hf
      exact hmodes file hfile _ hplaced

/-- The journal of the plan is admissible. -/
theorem validateJournal_ok (created : List Path) (hnodup : created.Nodup)
    (hmem : ∀ m, m ∈ created ↔ p.NeedsDirectory m ∧ s.tree (P.place m) = none) :
    validateJournal P s.tree p.identity.name ⟨created, p.files.map (entryOf P s.tree)⟩ =
      .ok () := by
  have hportable := valid_portable P name p h.valid
  have hpassable := passable_directory h
  have hroom := (plan_room h created hnodup hmem).1
  have htargets : (p.files.map (entryOf P s.tree)).map (·.target) = p.paths := by
    rw [List.map_map]
    rfl
  have hlength : p.paths.length = p.files.length := List.length_map _
  have hplan := portable_plan _ _ hportable created (receiptName p.identity.name) hnodup
    (fun m hm => ((hmem m).mp hm).1) h.valid.receipt h.valid.apart (by omega)
  -- every path above a path of the plan is a directory the package needs
  have hchain : ∀ m, p.NeedsDirectory m → ∀ k ∈ spellingsOf m, Passable s.tree (P.place k) := by
    intro m hm k hk
    rcases (mem_spellingsOf k m).mp hk with ⟨hbegins, hne⟩
    exact hpassable k (needsDirectory_mono p m k hm hbegins hne)
  have hparent : ∀ m, p.NeedsDirectory m → checkParentChain P s.tree m = .ok () := by
    intro m hm
    refine requireDirectoryChain_ok P s.tree _ (fun k hk => ?_)
    rcases (mem_spellingsOf k _).mp hk with ⟨hbegins, hne⟩
    exact hpassable k (needsDirectory_mono p m k hm (hbegins.trans (begins_parent m)) hne)
  unfold validateJournal
  rw [checked_then_eq_ok, checked_then_eq_ok, checked_then_eq_ok, checked_then_eq_ok, htargets,
    check_eq_ok, checkAll_eq_ok, checkAll_eq_ok, checkAll_eq_ok, validatePackagePaths_iff]
  refine ⟨by rw [List.length_map]; exact hroom, fun m hm => ?_, fun m hm => ?_,
    fun path hpath => ?_, hplan⟩
  · rw [checked_then_eq_ok]
    exact ⟨hplan.valid m (List.mem_append_left _ hm), hparent m ((hmem m).mp hm).1⟩
  · exact requireDirectoryChain_ok P s.tree m (hchain m ((hmem m).mp hm).1)
  · rw [checked_then_eq_ok]
    refine ⟨hplan.valid path (List.mem_append_right _ hpath), ?_⟩
    rcases List.mem_append.mp hpath with hpath | hpath
    · rcases List.mem_map.mp hpath with ⟨file, hfile, rfl⟩
      exact parent_chain_ok h file hfile
    · rw [List.mem_singleton.mp hpath]
      rfl

/-- The call succeeds, and it leaves the disk as it is only if the package is
    installed already. -/
theorem installPackage_ok : ∃ created s', installPackage P s p = .ok s' ∧
    (∀ m, m ∈ created ↔ p.NeedsDirectory m ∧ s.tree (P.place m) = none) ∧
    ((IsComplete P s p ⟨created, p.files.map (entryOf P s.tree)⟩ ∧ s' = s) ∨
      s' = ⟨publish P s.tree p created, some (receiptOf p)⟩) := by
  rcases plan_ok h with ⟨created, known, hknown, hplan, hnodup, hmem⟩
  have hroom := plan_room h created hnodup hmem
  have hlength : (p.files.map (entryOf P s.tree)).length = p.files.length := List.length_map _
  have hchecked : checkPlan P p ⟨created, p.files.map (entryOf P s.tree)⟩ = .ok () := by
    unfold checkPlan
    rw [checked_then_eq_ok, checked_then_eq_ok, check_eq_ok, check_eq_ok]
    exact ⟨h.clear.executable _ List.mem_cons_self, by dsimp only; omega,
      valid_source P name p h.valid _⟩
  have hstart : installPackage P s p =
      if IsComplete P s p ⟨created, p.files.map (entryOf P s.tree)⟩ then keepInstalled s p
      else applyPlan P s p (receiptOf p) ⟨created, p.files.map (entryOf P s.tree)⟩ := by
    unfold installPackage
    rw [h.valid.identity, h.valid.paths, h.valid.source, prepareReceipt_ok h, hknown]
    change planEntries P s.tree ⟨known, []⟩ p.files >>= _ = _
    rw [hplan]
    change checkPlan P p ⟨created, p.files.map (entryOf P s.tree)⟩ >>= _ = _
    rw [hchecked]
    rfl
  by_cases hcomplete : IsComplete P s p ⟨created, p.files.map (entryOf P s.tree)⟩
  · refine ⟨created, s, ?_, hmem, Or.inl ⟨hcomplete, rfl⟩⟩
    rw [hstart, if_pos hcomplete]
    unfold keepInstalled
    rw [checked_then_eq_ok, check_eq_ok]
    exact ⟨h.valid.accepts _, rfl⟩
  · have hnew : ¬∃ q ∈ history.head?, Repeats P q p := by
      rintro ⟨q, hq, hrepeats⟩
      exact hcomplete (complete_of_repeats h created hmem q hq hrepeats)
    refine ⟨created, _, ?_, hmem, Or.inr rfl⟩
    rw [hstart, if_neg hcomplete]
    unfold applyPlan
    rw [checked_then_eq_ok, checked_then_eq_ok, checked_then_eq_ok, checked_then_eq_ok,
      check_eq_ok, check_eq_ok]
    exact ⟨checkOriginalMode_ok h hnew, validateJournal_ok h created hnodup hmem,
      hroom.2.resolve_left hnew, h.valid.accepts _, rfl⟩

/-- What has to be shown of the disk after a call: the files are there, the
    directories are there, and the rest is as it was. -/
theorem holds_cons (s' : PackageDisk)
    (hfiles : ∀ file ∈ p.files, ∃ f, s'.tree (P.place file.path) = some (.file f) ∧
      P.digest f = file.sha256 ∧ Placed P (p :: history) (P.place file.path) f.mode)
    (hdirs : ∀ m, p.NeedsDirectory m → s'.tree (P.place m) = some .dir)
    (hrest : ∀ q, (∀ file ∈ p.files, P.place file.path ≠ q) →
      s'.tree q = s.tree q ∨
        (s'.tree q = some .dir ∧ s.tree q = none ∧ ∃ m, p.NeedsDirectory m ∧ P.place m = q))
    (hreceipt : s'.receipt = some (receiptOf p))
    (hmodes : packageModesMatch P s'.tree p = true) : Holds P name init (p :: history) s' := by
  have hportable := valid_portable P name p h.valid
  have hnodup := files_distinct _ _ hportable
  refine ⟨fun q hq => ?_, fun q d hlast => ?_, fun q hlast => ?_, fun q hdir => ?_, hreceipt,
    fun q hq => ?_⟩
  · rcases List.mem_cons.mp hq with rfl | hq
    · exact h.valid
    · exact h.holds.valid q hq
  · by_cases hmem : ∃ file ∈ p.files, P.place file.path = q
    · rcases hmem with ⟨file, hfile, rfl⟩
      rw [lastFile_cons_of_mem P p history file hnodup hfile, Option.some.injEq] at hlast
      rcases hfiles file hfile with ⟨f, hf, hdigest, hplaced⟩
      exact ⟨f, hf, hdigest.trans hlast, hplaced⟩
    · push Not at hmem
      rw [lastFile_cons_of_notMem P p history q hmem] at hlast
      rcases h.holds.files q d hlast with ⟨f, hf, hdigest, hplaced⟩
      -- a file of an earlier package is not where a directory has been made
      rcases hrest q hmem with hsame | ⟨_, hnone, _⟩
      · exact ⟨f, hsame.trans hf, hdigest, placed_cons P p history q _ hplaced⟩
      · rw [hf] at hnone
        cases hnone
  · have hmem : ∀ file ∈ p.files, P.place file.path ≠ q := by
      rintro file hfile rfl
      rw [lastFile_cons_of_mem P p history file hnodup hfile] at hlast
      cases hlast
    rw [lastFile_cons_of_notMem P p history q hmem] at hlast
    have hold := h.holds.rest q hlast
    rw [directoryOf_cons]
    rcases hrest q hmem with hsame | ⟨hdir, hnone, hneeds⟩
    · rw [hsame]
      rcases hold with hinit | ⟨hdir, hinit, hearlier⟩
      · exact Or.inl hinit
      · exact Or.inr ⟨hdir, hinit, Or.inr hearlier⟩
    · rcases hold with hinit | ⟨hdir', _⟩
      · exact Or.inr ⟨hdir, hinit ▸ hnone, Or.inl hneeds⟩
      · rw [hdir'] at hnone
        cases hnone
  · rcases (directoryOf_cons P p history q).mp hdir with ⟨m, hm, rfl⟩ | hearlier
    · exact hdirs m hm
    · -- where an earlier package needs a directory this one has no file
      have hnofile : ∀ file ∈ p.files, P.place file.path ≠ q := by
        rintro file hfile rfl
        exact h.upgradable.files file hfile hearlier
      rcases hrest q hnofile with hsame | ⟨hdir', _, _⟩
      · rw [hsame]
        exact h.holds.directories q hearlier
      · exact hdir'
  · cases hq
    exact hmodes

/-- A package that needs nothing it does not have is installed, and the history
    has one package more. -/
theorem installPackage_holds : ∃ s', installPackage P s p = .ok s' ∧
    PackageInstalled P p s' ∧ Holds P name init (p :: history) s' := by
  have hportable := valid_portable P name p h.valid
  rcases installPackage_ok h with ⟨created, s', hok, hmem, ⟨hcomplete, rfl⟩ | rfl⟩
  · -- all files are there already, and no directory is missing
    have hfiles : ∀ file ∈ p.files, ∃ f, s'.tree (P.place file.path) = some (.file f) ∧
        P.digest f = file.sha256 ∧ Placed P (p :: history) (P.place file.path) f.mode := by
      intro file hfile
      have hentry := hcomplete.1 _ (List.mem_map_of_mem hfile)
      unfold entryOf at hentry
      dsimp only at hentry
      rcases current_file h file hfile with ⟨hnone, hlast⟩ | ⟨f, hf, hlast, hplaced⟩
      · rw [current_digest h file hfile, hlast] at hentry
        cases hentry
      · rw [current_digest h file hfile, hlast, Option.some.injEq] at hentry
        exact ⟨f, hf, hentry, placed_cons P p history _ _ hplaced⟩
    have hdirs : ∀ m, p.NeedsDirectory m → s'.tree (P.place m) = some .dir := by
      intro m hm
      rcases passable_directory h m hm with hnone | hdir
      · have hmade := (hmem m).mpr ⟨hm, hnone⟩
        have hempty : created = [] := hcomplete.2.2.1
        rw [hempty] at hmade
        exact absurd hmade List.not_mem_nil
      · exact hdir
    refine ⟨s', hok, ⟨fun file hfile => ?_, hcomplete.2.1⟩,
      holds_cons h s' hfiles hdirs (fun q _ => Or.inl rfl) hcomplete.2.1 hcomplete.2.2.2⟩
    rcases hfiles file hfile with ⟨f, hf, hdigest, _⟩
    exact ⟨f, hf, hdigest⟩
  · have hfiles : ∀ file ∈ p.files, ∃ f,
        publish P s.tree p created (P.place file.path) = some (.file f) ∧
          P.digest f = file.sha256 ∧ Placed P (p :: history) (P.place file.path) f.mode := by
      intro file hfile
      rcases valid_source_file P name p h.valid file hfile with ⟨f, hf, hdigest⟩
      rw [publish_file P s.tree p created file hfile]
      exact ⟨f, hf, hdigest, placed_self P p history file hfile f hf⟩
    have hmade : ∀ q, q ∈ created.map P.place ↔
        ∃ m, (p.NeedsDirectory m ∧ s.tree (P.place m) = none) ∧ P.place m = q := by
      intro q
      rw [List.mem_map]
      exact exists_congr (fun m => and_congr_left (fun _ => hmem m))
    have hdirs : ∀ m, p.NeedsDirectory m →
        publish P s.tree p created (P.place m) = some .dir := by
      intro m hm
      rw [publish_rest P s.tree p created _
        (fun file hfile => place_ne_directory P p hportable file hfile m hm)]
      rcases passable_directory h m hm with hnone | hdir
      · rw [if_pos ((hmade _).mpr ⟨m, ⟨hm, hnone⟩, rfl⟩)]
      · by_cases hin : P.place m ∈ created.map P.place
        · rw [if_pos hin]
        · rw [if_neg hin]
          exact hdir
    have hrest : ∀ q, (∀ file ∈ p.files, P.place file.path ≠ q) →
        publish P s.tree p created q = s.tree q ∨ (publish P s.tree p created q = some .dir ∧
          s.tree q = none ∧ ∃ m, p.NeedsDirectory m ∧ P.place m = q) := by
      intro q hq
      rw [publish_rest P s.tree p created q hq]
      by_cases hin : q ∈ created.map P.place
      · rcases (hmade q).mp hin with ⟨m, ⟨hm, hnone⟩, rfl⟩
        rw [if_pos hin]
        exact Or.inr ⟨rfl, hnone, m, hm, rfl⟩
      · rw [if_neg hin]
        exact Or.inl rfl
    refine ⟨_, hok, ⟨fun file hfile => ?_, rfl⟩, holds_cons h _ hfiles hdirs hrest rfl
      (publish_modes P s.tree p created)⟩
    rcases hfiles file hfile with ⟨f, hf, hdigest, _⟩
    exact ⟨f, hf, hdigest⟩

end

/-- A file that was dropped and comes back with other bytes is in its own way. -/
theorem dropped_file_conflicts (name : String) (init : Tree String File) (history : List Package)
    (s s' : PackageDisk) (p : Package)
    (hholds : Holds P name init history s) (file : PackageFile) (hfile : file ∈ p.files)
    (d : Digest) (hlast : lastFile P history (P.place file.path) = some d)
    (hnew : d ≠ file.sha256) (hunowned : ¬Owned (history.head?.map receiptOf) file.path d) :
    installPackage P s p ≠ .ok s' := by
  intro hok
  rcases hholds.files _ _ hlast with ⟨f, hf, hdigest, _⟩
  have hreceipt : ∃ r, s.receipt = some r := by
    cases history with
    | nil => cases hlast
    | cons q history => exact ⟨receiptOf q, hholds.receipt⟩
  rcases hreceipt with ⟨r, hr⟩
  unfold installPackage at hok
  rw [checked_then_eq_ok, checked_then_eq_ok, checked_then_eq_ok, checked_bind_eq_ok] at hok
  rcases hok.2.2.2 with ⟨receipt, hprepared, _⟩
  unfold prepareReceipt at hprepared
  rw [checked_then_eq_ok, checked_then_eq_ok, hr] at hprepared
  dsimp only at hprepared
  rw [checked_then_eq_ok, checked_then_eq_ok, checkAll_eq_ok] at hprepared
  have howned := hprepared.2.2.2.1 file hfile
  unfold checkOwned regularAt at howned
  rw [checked_then_eq_ok, hf, checked_bind_eq_ok] at howned
  rcases howned.2 with ⟨current, hcurrent, hchecked⟩
  cases hcurrent
  dsimp only at hchecked
  rw [check_eq_ok, hdigest, hholds.receipt] at hchecked
  rcases hchecked with hsame | ⟨hnone, _⟩ | howned
  · exact hnew hsame
  · rw [← hholds.receipt, hr] at hnone
    cases hnone
  · exact hunowned howned

/-- Each package of the list has what it needs of the ones before it. -/
def UpgradableAll (P : Setting) (init : Tree String File) : List Package → List Package → Prop
  | _, [] => True
  | history, p :: rest => Upgradable P init history p ∧ UpgradableAll P init (p :: history) rest

theorem upgrades_from (name : String) (init : Tree String File) (history : List Package)
    (s : PackageDisk) (packages : List Package)
    (hholds : Holds P name init history s) (hvalid : ∀ p ∈ packages, ValidPackage P name p)
    (hclear : ∀ p ∈ packages, Clear P init p) (hup : UpgradableAll P init history packages) :
    Upgrades P s packages := by
  induction packages generalizing history s with
  | nil => trivial
  | cons p packages ih =>
      rcases installPackage_holds ⟨hholds, hvalid p List.mem_cons_self,
        hclear p List.mem_cons_self, hup.1⟩ with ⟨s', hok, hinstalled, hholds'⟩
      exact ⟨s', hok, hinstalled, ih (p :: history) s' hholds'
        (fun q hq => hvalid q (List.mem_cons_of_mem p hq))
        (fun q hq => hclear q (List.mem_cons_of_mem p hq)) hup.2⟩

/-- Packages of one name are installed one after the other, each over what all
    the ones before it have left. -/
theorem upgrades_of_upgradable (P : Setting) (name : String) (init : Tree String File)
    (packages : List Package) (hvalid : ∀ p ∈ packages, ValidPackage P name p)
    (hclear : ∀ p ∈ packages, Clear P init p) (hup : UpgradableAll P init [] packages) :
    Upgrades P ⟨init, none⟩ packages :=
  upgrades_from P name init [] ⟨init, none⟩ packages (holds_nil P name init) hvalid hclear hup

/-- A disk with the executable alone, where a text is known by its first byte. -/
def host : Setting where
  windows := false
  sha256 := fun bytes => Vector.replicate 32 (bytes.headD 0)
  executable := ["host"]
  receiptLength := fun r => 128 + 128 * r.files.length
  journalLength := fun created entries => 256 + 64 * created.length + 512 * entries.length

def hostOnly : Tree String File :=
  fun q => if q = ["host"] then some (.file ⟨[0], 493⟩) else none

/-- A package of files beside the executable, each of one byte. -/
def release (version : String) (files : List (String × UInt8)) : Package where
  identity := ⟨"tool", version, none⟩
  source
    | [name] => (files.lookup name).map fun byte => .file ⟨[byte], 420⟩
    | _ => none
  directories := []
  files := files.map fun file => ⟨[file.1], Vector.replicate 32 file.2⟩
  accepts := fun _ => true

theorem place_host (path : Path) : host.place path = path := List.map_id path

theorem valid_name (name : String)
    (h : pathLength [name] ≤ 512 ∧ validateSiblingName name = true ∧ isReservedPart name = false) :
    validatePackagePath [name] = .ok () := by
  rw [validatePackagePath_iff]
  refine ⟨⟨h.1, by rw [List.length_singleton]; omega⟩, List.cons_ne_nil _ _, fun part hpart => ?_⟩
  rw [List.mem_singleton.mp hpart]
  unfold validatePart
  rw [checked_then_eq_ok, check_eq_ok, check_eq_ok]
  exact h.2

theorem valid_release (files : List (String × UInt8)) (hversion : validateVersion version = .ok ())
    (hpaths : validatePackagePaths [] (release version files).paths = .ok ())
    (hlookup : ∀ file ∈ files, files.lookup file.1 = some file.2)
    (hapart : ∀ path ∈ (release version files).paths,
      ¬lowerPath [receiptName "tool"] <+: lowerPath path) :
    ValidPackage host "tool" (release version files) where
  name := rfl
  identity := by
    change checkIdentity ⟨"tool", version, none⟩ = .ok ()
    unfold checkIdentity
    rw [checked_then_eq_ok, check_eq_ok]
    exact ⟨(by decide : validateSiblingName "tool" = true), rfl⟩
  version := hversion
  paths := hpaths
  source := by
    rw [checkSource_iff]
    refine ⟨fun d hd => absurd hd List.not_mem_nil, fun file hfile => ?_⟩
    rcases List.mem_map.mp hfile with ⟨entry, hentry, rfl⟩
    refine ⟨rfl, ⟨[entry.2], 420⟩, ?_, rfl⟩
    rw [place_host]
    change (files.lookup entry.1).map _ = _
    rw [hlookup entry hentry]
    rfl
  receipt := by
    change validatePackagePath [receiptName "tool"] = .ok ()
    exact valid_name _ (by decide)
  apart := hapart
  accepts := fun _ => rfl

theorem release_no_directory (files : List (String × UInt8)) (m : Path) :
    ¬(release version files).NeedsDirectory m := by
  rintro ⟨hne, ⟨d, hd, _⟩ | ⟨path, hpath, hbegins⟩⟩
  · exact List.not_mem_nil hd
  · rcases List.mem_map.mp hpath with ⟨file, hfile, rfl⟩
    rcases List.mem_map.mp hfile with ⟨entry, _, rfl⟩
    exact hne (List.prefix_nil.mp hbegins)

theorem clear_release (files : List (String × UInt8)) (hexe : ∀ file ∈ files, file.1 ≠ "host") :
    Clear host hostOnly (release version files) where
  files := by
    intro file hfile
    rcases List.mem_map.mp hfile with ⟨entry, hentry, rfl⟩
    rw [place_host]
    exact if_neg (fun heq => hexe entry hentry (List.singleton_inj.mp heq))
  directories := fun m hm => absurd hm (release_no_directory version files m)
  executable := by
    intro path hpath
    rw [place_host, place_host]
    rcases List.mem_cons.mp hpath with rfl | hpath
    · change [receiptName "tool"] ≠ ["host"]
      decide
    · rcases List.mem_map.mp hpath with ⟨file, hfile, rfl⟩
      rcases List.mem_map.mp hfile with ⟨entry, hentry, rfl⟩
      exact fun heq => hexe entry hentry (List.singleton_inj.mp heq)

/-- Two files, of which the second release drops the first. -/
def first : Package := release "1.0.0" [("a", 1), ("b", 1)]

def second : Package := release "2.0.0" [("b", 1)]

/-- The dropped file comes back as it was, and the other one is new. -/
def third : Package := release "3.0.0" [("a", 1), ("b", 2)]

/-- The dropped file comes back with other bytes. -/
def readded : Package := release "3.0.0" [("a", 2)]

theorem valid_releases : ∀ p ∈ [first, second, third, readded], ValidPackage host "tool" p := by
  have hversion : ∀ version ∈ ["1.0.0", "2.0.0", "3.0.0"], validateVersion version = .ok () := by
    intro version hmem
    unfold validateVersion
    rw [check_eq_ok]
    revert version
    decide
  have hone : ∀ name ∈ ["a", "b"], validatePackagePath [name] = .ok () := by
    intro name hmem
    refine valid_name name ?_
    revert name
    decide
  have hpaths : ∀ names ∈ [["a", "b"], ["b"], ["a"]],
      validatePackagePaths [] (names.map fun name => [name]) = .ok () := by
    intro names hmem
    rw [validatePackagePaths_iff]
    refine ⟨?_, ?_, fun path hpath => ?_, ?_, ?_, ?_⟩
    · revert names
      decide
    · revert names
      decide
    · rw [List.nil_append] at hpath
      rcases List.mem_map.mp hpath with ⟨name, hname, rfl⟩
      refine hone name ?_
      revert names
      simp
      grind
    · unfold Consistent
      revert names
      decide
    · revert names
      decide
    · revert names
      decide
  intro p hp
  simp only [List.mem_cons, List.not_mem_nil, or_false] at hp
  rcases hp with rfl | rfl | rfl | rfl
  · exact valid_release _ _ (hversion _ (by decide)) (hpaths ["a", "b"] (by decide)) (by decide)
      (by decide)
  · exact valid_release _ _ (hversion _ (by decide)) (hpaths ["b"] (by decide)) (by decide)
      (by decide)
  · exact valid_release _ _ (hversion _ (by decide)) (hpaths ["a", "b"] (by decide)) (by decide)
      (by decide)
  · exact valid_release _ _ (hversion _ (by decide)) (hpaths ["a"] (by decide)) (by decide)
      (by decide)

theorem clear_releases : ∀ p ∈ [first, second, third, readded], Clear host hostOnly p := by
  intro p hp
  simp only [List.mem_cons, List.not_mem_nil, or_false] at hp
  rcases hp with rfl | rfl | rfl | rfl
  · exact clear_release _ _ (by decide)
  · exact clear_release _ _ (by decide)
  · exact clear_release _ _ (by decide)
  · exact clear_release _ _ (by decide)

/-- Of releases without directories only the bytes of the files matter. -/
theorem upgradable_release (files : List (String × UInt8))
    (hhistory : ∀ q ∈ history, ∃ v f, q = release v f)
    (howned : ∀ file ∈ (release version files).files, ∀ d,
      lastFile host history (host.place file.path) = some d →
        d = file.sha256 ∨ Owned (history.head?.map receiptOf) file.path d)
    (hreadable : ∀ q ∈ history.head?, host.receiptLength (receiptOf q) ≤ maxPackageJournalBytes)
    (hroom : files.length ≤ 100) :
    Upgradable host hostOnly history (release version files) where
  owned := howned
  files := by
    rintro file _ ⟨r, hr, m, hm, _⟩
    rcases hhistory r hr with ⟨v, f, rfl⟩
    exact release_no_directory v f m hm
  directories := fun m hm => absurd hm (release_no_directory version files m)
  modes := by
    refine Or.inr (Or.inr ?_)
    rintro file _ mode ⟨r, hr, g, hg, hplace, f, hf, rfl⟩
    rcases hhistory r hr with ⟨v, entries, rfl⟩
    rcases List.mem_map.mp hg with ⟨entry, _, rfl⟩
    rw [place_host] at hplace
    rw [← hplace] at hf
    change (entries.lookup entry.1).map _ = _ at hf
    rcases Option.map_eq_some_iff.mp hf with ⟨byte, _, hnode⟩
    cases hnode
    change specialBits 420 = 0
    decide
  readable := hreadable
  room := by
    intro created hmakes
    have hempty : created = [] := by
      refine List.eq_nil_iff_forall_not_mem.mpr (fun m hm => ?_)
      exact release_no_directory version files m ((hmakes.mem m).mp hm).1
    have hfiles : (release version files).files.length = files.length := List.length_map _
    rw [hempty, hfiles]
    refine ⟨by unfold maxPackageEntries; rw [List.length_nil]; omega, Or.inr ?_⟩
    change 256 + 64 * 0 + 512 * (List.map _ _).length ≤ 4194304
    rw [List.length_map, hfiles]
    omega

theorem upgradable_releases : UpgradableAll host hostOnly [] [first, second, third] := by
  refine ⟨?_, ?_, ?_, trivial⟩
  · exact upgradable_release [] _ _ (fun q hq => absurd hq List.not_mem_nil)
      (fun file _ d hlast => by cases hlast) (fun q hq => by cases hq) (by decide)
  · refine upgradable_release [first] _ _ ?_ (by decide) (by decide) (by decide)
    intro q hq
    exact ⟨_, _, List.mem_singleton.mp hq⟩
  · refine upgradable_release [second, first] _ _ ?_ (by decide) (by decide) (by decide)
    intro q hq
    simp only [List.mem_cons, List.not_mem_nil, or_false] at hq
    rcases hq with rfl | rfl
    · exact ⟨_, _, rfl⟩
    · exact ⟨_, _, rfl⟩

theorem upgrades_releases : Upgrades host ⟨hostOnly, none⟩ [first, second, third] :=
  upgrades_of_upgradable host "tool" hostOnly [first, second, third]
    (fun p hp => valid_releases p (by
      simp only [List.mem_cons, List.not_mem_nil, or_false] at hp ⊢
      tauto))
    (fun p hp => clear_releases p (by
      simp only [List.mem_cons, List.not_mem_nil, or_false] at hp ⊢
      tauto))
    upgradable_releases

/-- The third call fails, on a disk where nobody has changed anything. -/
theorem readded_file_conflicts :
    (∀ p ∈ [first, second, readded], ValidPackage host "tool" p ∧ Clear host hostOnly p) ∧
      ¬Upgrades host ⟨hostOnly, none⟩ [first, second, readded] := by
  have hmem : ∀ p ∈ [first, second, readded], p ∈ [first, second, third, readded] := by
    intro p hp
    simp only [List.mem_cons, List.not_mem_nil, or_false] at hp ⊢
    tauto
  refine ⟨fun p hp => ⟨valid_releases p (hmem p hp), clear_releases p (hmem p hp)⟩, ?_⟩
  rintro ⟨s₁, hfirst, _, s₂, hsecond, _, s₃, hthird, _⟩
  have hup := upgradable_releases
  rcases installPackage_holds ⟨holds_nil host "tool" hostOnly, valid_releases first (by simp),
    clear_releases first (by simp), hup.1⟩ with ⟨t₁, hok₁, _, hholds₁⟩
  rw [hfirst, Except.ok.injEq] at hok₁
  rw [← hok₁] at hholds₁
  rcases installPackage_holds ⟨hholds₁, valid_releases second (by simp),
    clear_releases second (by simp), hup.2.1⟩ with ⟨t₂, hok₂, _, hholds₂⟩
  rw [hsecond, Except.ok.injEq] at hok₂
  rw [← hok₂] at hholds₂
  exact dropped_file_conflicts host "tool" hostOnly [second, first] s₂ s₃ readded hholds₂
    ⟨["a"], Vector.replicate 32 2⟩ List.mem_cons_self (Vector.replicate 32 1) rfl (by decide)
    (by decide) hthird

end Updater

end DccMcp
