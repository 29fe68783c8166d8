import Mathlib.Data.List.Infix
import Mathlib.Data.List.Nodup
import DccMcp.Updater.Disk
import DccMcp.Updater.Names

/-!
# Paths of a Package

A package is a list of directories and a list of files, each at a path below
the directory of the executable. The same manifest has to mean the same on a
disk that folds the case of letters, so no two paths may differ in case only,
and neither may two spellings of one directory. The rules are checked on the
manifest, on the receipt of the package before, and on the plan with the
receipt's own path among the files.

A path is given by its parts, the texts between the slashes.

## Main definitions

* `lowerPath`, `spellingsOf`: A path with its case folded; a path and the
  directories above it.
* `validatePackagePath`, `validatePackagePaths`: The rules.
* `Portable`: What the rules say.
* `Unambiguous`, `WithinLimits`: What they are for.

## Theorems

* `validatePackageFiles_iff`: What is accepted, digests included.
-/

namespace DccMcp

namespace Updater

abbrev Checked := Except UpdateError

/-- A check that ends the call with a message. -/
def check (P : Prop) [Decidable P] (text : String) : Checked Unit :=
  if P then .ok () else .error (.stage text)

theorem check_eq_ok (P : Prop) [Decidable P] (text : String) : check P text = .ok () ↔ P := by
  unfold check
  by_cases h : P
  · rw [if_pos h]
    exact ⟨fun _ => h, fun _ => rfl⟩
  · rw [if_neg h]
    constructor
    · intro heq
      cases heq
    · intro hp
      exact absurd hp h

theorem checked_bind_eq_ok {α β : Type} (m : Checked α) (f : α → Checked β) (b : β) :
    (m >>= f) = .ok b ↔ ∃ a, m = .ok a ∧ f a = .ok b := by
  cases m with
  | ok a =>
      constructor
      · intro h
        exact ⟨a, rfl, h⟩
      · rintro ⟨a', ha, h⟩
        cases ha
        exact h
  | error e =>
      constructor
      · intro h
        cases h
      · rintro ⟨a', ha, h⟩
        cases ha

/-- A check and what comes after it. -/
theorem checked_then_eq_ok {β : Type} (m : Checked Unit) (f : Unit → Checked β) (b : β) :
    (m >>= f) = .ok b ↔ m = .ok () ∧ f () = .ok b := by
  rw [checked_bind_eq_ok]
  exact ⟨fun ⟨_, hm, hf⟩ => ⟨hm, hf⟩, fun ⟨hm, hf⟩ => ⟨(), hm, hf⟩⟩

/-- A check for each member of a list, in order. -/
def checkAll {α : Type} (f : α → Checked Unit) : List α → Checked Unit
  | [] => .ok ()
  | x :: rest => do
    f x
    checkAll f rest

theorem checkAll_eq_ok {α : Type} (f : α → Checked Unit) (l : List α) :
    checkAll f l = .ok () ↔ ∀ x ∈ l, f x = .ok () := by
  induction l with
  | nil => exact ⟨fun _ x hx => absurd hx List.not_mem_nil, fun _ => rfl⟩
  | cons x l ih =>
      unfold checkAll
      rw [checked_then_eq_ok, List.forall_mem_cons, ih]

def maxPackageEntries : Nat := 4096

def lowerPath (path : Path) : Path := path.map Text.toAsciiLowercase

/-- The number of bytes of the path's text. -/
def pathLength (path : Path) : Nat :=
  (path.map String.utf8ByteSize).sum + (path.length - 1)

/-- Names that Windows or the updater itself keeps for itself. -/
def isReservedPart (part : String) : Bool :=
  let stem := (part.toList.takeWhile (· ≠ '.')).map Char.toUpper
  let lower := Text.toAsciiLowercase part
  ["CON".toList, "PRN".toList, "AUX".toList, "NUL".toList].contains stem
    || (stem.length == 4 && ("COM".toList.isPrefixOf stem || "LPT".toList.isPrefixOf stem)
        && (stem.drop 3).any fun c => '1' ≤ c && c ≤ '9')
    || ".dcc-mcp-new".toList.isSuffixOf lower.toList
    || ".dcc-mcp-backup".toList.isSuffixOf lower.toList
    || Text.contains ".dcc-mcp-" lower

def validatePart (part : String) : Checked Unit := do
  check (validateSiblingName part = true) ("invalid sibling update target: " ++ part.quote)
  check (isReservedPart part = false) "package contains a reserved filename"

/-- The text of no parts is the empty text, whose only part is refused. -/
def validatePackagePath (path : Path) : Checked Unit := do
  check (pathLength path ≤ 512 ∧ path.length ≤ 32) "package path exceeds the size limit"
  check (path ≠ []) ("invalid sibling update target: " ++ "".quote)
  checkAll validatePart path

/-- The path and the directories above it, the shortest first. -/
def spellingsOf (path : Path) : List Path := path.inits.filter (· ≠ [])

/-- Two spellings of one directory differ. -/
def Collides (p q : Path) : Prop := lowerPath q = lowerPath p ∧ q ≠ p

instance (p q : Path) : Decidable (Collides p q) := inferInstanceAs (Decidable (_ ∧ _))

def enterSpellings (seen : List Path) : List Path → Checked (List Path)
  | [] => .ok seen
  | spelling :: rest => do
    check (¬∃ q ∈ seen, Collides spelling q) "package contains case-colliding directory names"
    enterSpellings (spelling :: seen) rest

/-- The spellings seen so far and the paths seen so far, their case folded. -/
def enterPaths (seen : List Path) (paths : List Path) : List Path → Checked Unit
  | [] => .ok ()
  | path :: rest => do
    validatePackagePath path
    let seen ← enterSpellings seen (spellingsOf path)
    check (lowerPath path ∉ paths) "package contains duplicate or case-colliding paths"
    enterPaths seen (lowerPath path :: paths) rest

/-- The file stands where the other path needs a directory. -/
def Above (file path : Path) : Prop :=
  lowerPath file <+: lowerPath path ∧ lowerPath file ≠ lowerPath path

instance (p q : Path) : Decidable (Above p q) := inferInstanceAs (Decidable (_ ∧ _))

def validatePackagePaths (directories files : List Path) : Checked Unit := do
  check (files ≠ [] ∧ files.length + directories.length ≤ maxPackageEntries)
    "package install plan is empty or too large"
  enterPaths [] [] (directories ++ files)
  check (∀ path ∈ directories ++ files, ∀ file ∈ files, ¬Above file path)
    "package file conflicts with a parent directory"

/-! ## What the rules say -/

/-- No two spellings differ in case only. -/
def Consistent (l : List Path) : Prop := ∀ p ∈ l, ∀ q ∈ l, ¬Collides p q

/-- What a manifest has to be like. -/
structure Portable (directories files : List Path) : Prop where
  some : files ≠ []
  few : files.length + directories.length ≤ maxPackageEntries
  valid : ∀ path ∈ directories ++ files, validatePackagePath path = .ok ()
  consistent : Consistent ((directories ++ files).flatMap spellingsOf)
  distinct : ((directories ++ files).map lowerPath).Nodup
  apart : ∀ path ∈ directories ++ files, ∀ file ∈ files, ¬Above file path

theorem collides_symm (p q : Path) (h : Collides p q) : Collides q p := ⟨h.1.symm, h.2.symm⟩

theorem not_collides_self (p : Path) : ¬Collides p p := fun h => h.2 rfl

theorem consistent_mono (l l' : List Path) (h : Consistent l) (hsub : ∀ p ∈ l', p ∈ l) :
    Consistent l' := fun p hp q hq => h p (hsub p hp) q (hsub q hq)

theorem consistent_cons (p : Path) (l : List Path) :
    Consistent (p :: l) ↔ Consistent l ∧ ¬∃ q ∈ l, Collides p q := by
  constructor
  · intro h
    refine ⟨consistent_mono _ _ h (fun q hq => List.mem_cons_of_mem p hq), ?_⟩
    rintro ⟨q, hq, hcollides⟩
    exact h p List.mem_cons_self q (List.mem_cons_of_mem p hq) hcollides
  · rintro ⟨hl, hp⟩ a ha b hb hcollides
    rcases List.mem_cons.mp ha with heq | hal
    · rcases List.mem_cons.mp hb with heq' | hbl
      · rw [heq, heq'] at hcollides
        exact not_collides_self _ hcollides
      · rw [heq] at hcollides
        exact hp ⟨b, hbl, hcollides⟩
    · rcases List.mem_cons.mp hb with heq' | hbl
      · rw [heq'] at hcollides
        exact hp ⟨a, hal, collides_symm _ _ hcollides⟩
      · exact hl a hal b hbl hcollides

theorem enterSpellings_eq_ok (seen l seen' : List Path) (h : Consistent seen) :
    enterSpellings seen l = .ok seen' ↔
      Consistent (l.reverse ++ seen) ∧ seen' = l.reverse ++ seen := by
  induction l generalizing seen with
  | nil =>
      unfold enterSpellings
      rw [Except.ok.injEq, List.reverse_nil, List.nil_append]
      exact ⟨fun heq => ⟨h, heq.symm⟩, fun heq => heq.2.symm⟩
  | cons p l ih =>
      have hlist : (p :: l).reverse ++ seen = l.reverse ++ p :: seen := by simp
      unfold enterSpellings
      rw [checked_then_eq_ok, check_eq_ok, hlist]
      constructor
      · rintro ⟨hp, hl⟩
        have hseen := (consistent_cons p seen).mpr ⟨h, hp⟩
        exact (ih _ hseen).mp hl
      · rintro ⟨hall, rfl⟩
        have hseen : Consistent (p :: seen) :=
          consistent_mono _ _ hall (fun q hq => List.mem_append_right _ hq)
        exact ⟨((consistent_cons p seen).mp hseen).2, (ih _ hseen).mpr ⟨hall, rfl⟩⟩

theorem enterPaths_eq_ok (seen paths l : List Path) (hseen : Consistent seen)
    (hpaths : paths.Nodup) :
    enterPaths seen paths l = .ok () ↔
      (∀ path ∈ l, validatePackagePath path = .ok ()) ∧
        Consistent (seen ++ l.flatMap spellingsOf) ∧ (paths ++ l.map lowerPath).Nodup := by
  induction l generalizing seen paths with
  | nil =>
      unfold enterPaths
      simp only [List.not_mem_nil, false_implies, implies_true, List.flatMap_nil, List.append_nil,
        List.map_nil, true_and]
      exact ⟨fun _ => ⟨hseen, hpaths⟩, fun _ => trivial⟩
  | cons path l ih =>
      -- what has been seen is the same set, in another order
      have hmem : ∀ p, p ∈ ((spellingsOf path).reverse ++ seen) ++ l.flatMap spellingsOf ↔
          p ∈ seen ++ (path :: l).flatMap spellingsOf := by
        intro p
        simp only [List.mem_append, List.mem_reverse, List.flatMap_cons]
        tauto
      have hperm : ((lowerPath path :: paths) ++ l.map lowerPath).Nodup ↔
          (paths ++ (path :: l).map lowerPath).Nodup :=
        (List.perm_middle.symm.nodup_iff)
      unfold enterPaths
      rw [checked_then_eq_ok, checked_bind_eq_ok, List.forall_mem_cons]
      simp only [checked_then_eq_ok, check_eq_ok]
      constructor
      · rintro ⟨hpath, seen', hentered, hnew, hrest⟩
        rcases (enterSpellings_eq_ok _ _ _ hseen).mp hentered with ⟨hconsistent, rfl⟩
        have hall := (ih _ _ hconsistent (List.nodup_cons.mpr ⟨hnew, hpaths⟩)).mp hrest
        exact ⟨⟨hpath, hall.1⟩, consistent_mono _ _ hall.2.1 (fun p hp => (hmem p).mpr hp),
          hperm.mp hall.2.2⟩
      · rintro ⟨⟨hpath, hvalid⟩, hconsistent, hnodup⟩
        have hall : Consistent (((spellingsOf path).reverse ++ seen) ++ l.flatMap spellingsOf) :=
          consistent_mono _ _ hconsistent (fun p hp => (hmem p).mp hp)
        have hseen' : Consistent ((spellingsOf path).reverse ++ seen) :=
          consistent_mono _ _ hall (fun p hp => List.mem_append_left _ hp)
        have hnodup' := hperm.mpr hnodup
        have hnew : lowerPath path ∉ paths := by
          intro hold
          exact (List.nodup_cons.mp hnodup').1 (List.mem_append_left _ hold)
        exact ⟨hpath, _, (enterSpellings_eq_ok _ _ _ hseen).mpr ⟨hseen', rfl⟩, hnew,
          (ih _ _ hseen' (List.nodup_cons.mpr ⟨hnew, hpaths⟩)).mpr ⟨hvalid, hall, hnodup'⟩⟩

/-- Exactly the portable lists are accepted. -/
theorem validatePackagePaths_iff (directories files : List Path) :
    validatePackagePaths directories files = .ok () ↔ Portable directories files := by
  unfold validatePackagePaths
  have hentered := enterPaths_eq_ok [] [] (directories ++ files)
    (fun p hp => absurd hp List.not_mem_nil) List.nodup_nil
  rw [checked_then_eq_ok, checked_then_eq_ok, check_eq_ok, check_eq_ok, hentered, List.nil_append,
    List.nil_append]
  constructor
  · rintro ⟨hsize, ⟨hvalid, hconsistent, hdistinct⟩, hapart⟩
    exact ⟨hsize.1, hsize.2, hvalid, hconsistent, hdistinct, hapart⟩
  · intro h
    exact ⟨⟨h.some, h.few⟩, ⟨h.valid, h.consistent, h.distinct⟩, h.apart⟩

/-! ## The plan -/

/-- The directories that a manifest needs: the ones it lists and the ones its
    files are in, with those above them. -/
def IsDirectory (directories files : List Path) (m : Path) : Prop :=
  m ≠ [] ∧ ((∃ d ∈ directories, m <+: d) ∨ ∃ f ∈ files, m <+: f.dropLast)

theorem mem_spellingsOf (m p : Path) : m ∈ spellingsOf p ↔ m <+: p ∧ m ≠ [] := by
  unfold spellingsOf
  rw [List.mem_filter, List.mem_inits, decide_eq_true_eq]

theorem begins_parent (p : Path) : p.dropLast <+: p := List.dropLast_prefix p

theorem pathLength_mono (m p : Path) (h : m <+: p) : pathLength m ≤ pathLength p := by
  rcases h with ⟨r, rfl⟩
  unfold pathLength
  rw [List.map_append, List.sum_append, List.length_append]
  omega

theorem lowerPath_mono (m p : Path) (h : m <+: p) : lowerPath m <+: lowerPath p := h.map _

theorem lowerPath_ne_nil (m : Path) (h : m ≠ []) : lowerPath m ≠ [] := by
  intro heq
  exact h (List.map_eq_nil_iff.mp heq)

theorem validatePackagePath_iff (path : Path) :
    validatePackagePath path = .ok () ↔
      (pathLength path ≤ 512 ∧ path.length ≤ 32) ∧ path ≠ [] ∧
        ∀ part ∈ path, validatePart part = .ok () := by
  unfold validatePackagePath
  rw [checked_then_eq_ok, checked_then_eq_ok, check_eq_ok, check_eq_ok, checkAll_eq_ok]

/-- What is above an accepted path is accepted. -/
theorem validatePackagePath_mono (m p : Path) (h : m <+: p) (hm : m ≠ [])
    (hp : validatePackagePath p = .ok ()) : validatePackagePath m = .ok () := by
  rw [validatePackagePath_iff] at hp ⊢
  have hlength := pathLength_mono m p h
  have hparts := h.length_le
  exact ⟨⟨by omega, by omega⟩, hm, fun part hpart => hp.2.2 part (h.subset hpart)⟩

theorem eq_of_lowerPath (l : List Path) (h : Consistent l) (p q : Path) (hp : p ∈ l) (hq : q ∈ l)
    (heq : lowerPath p = lowerPath q) : p = q := by
  by_contra hne
  exact h q hq p hp ⟨heq, hne⟩

section

variable (directories files : List Path) (h : Portable directories files)

include h

theorem portable_ne_nil (path : Path) (hpath : path ∈ directories ++ files) : path ≠ [] :=
  ((validatePackagePath_iff path).mp (h.valid path hpath)).2.1

/-- A directory of the manifest is above one of its paths or is one. -/
theorem isDirectory_above (m : Path) (hm : IsDirectory directories files m) :
    ∃ p ∈ directories ++ files, m <+: p ∧ (p ∈ files → m.length < p.length) := by
  rcases hm with ⟨hne, ⟨d, hd, hbegins⟩ | ⟨f, hf, hbegins⟩⟩
  · refine ⟨d, List.mem_append_left _ hd, hbegins, fun hfile => ?_⟩
    -- the same path is not listed as both
    have hdistinct := h.distinct
    rw [List.map_append] at hdistinct
    exact absurd rfl ((List.nodup_append.mp hdistinct).2.2 _ (List.mem_map_of_mem hd) _
      (List.mem_map_of_mem hfile))
  · refine ⟨f, List.mem_append_right _ hf, hbegins.trans (begins_parent f), fun _ => ?_⟩
    have hlength := hbegins.length_le
    have hpos := List.length_pos_of_ne_nil
      (portable_ne_nil _ _ h f (List.mem_append_right _ hf))
    rw [List.length_dropLast] at hlength
    omega

theorem isDirectory_spelling (m : Path) (hm : IsDirectory directories files m) :
    m ∈ (directories ++ files).flatMap spellingsOf := by
  rcases isDirectory_above _ _ h m hm with ⟨p, hp, hbegins, _⟩
  exact List.mem_flatMap.mpr ⟨p, hp, (mem_spellingsOf m p).mpr ⟨hbegins, hm.1⟩⟩

theorem path_spelling (p : Path) (hp : p ∈ directories ++ files) :
    p ∈ (directories ++ files).flatMap spellingsOf :=
  List.mem_flatMap.mpr
    ⟨p, hp, (mem_spellingsOf p p).mpr ⟨p.prefix_refl, portable_ne_nil _ _ h p hp⟩⟩

/-- No file stands at or above a directory of the manifest. -/
theorem file_not_above (f m : Path) (hf : f ∈ files) (hm : IsDirectory directories files m) :
    ¬lowerPath f <+: lowerPath m := by
  intro hbegins
  rcases isDirectory_above _ _ h m hm with ⟨p, hp, hmp, hlength⟩
  refine h.apart p hp f hf ⟨hbegins.trans (lowerPath_mono m p hmp), fun heq => ?_⟩
  have hpf : f = p := eq_of_lowerPath _ h.consistent f p
    (path_spelling _ _ h f (List.mem_append_right _ hf)) (path_spelling _ _ h p hp) heq
  have hshort := hlength (hpf ▸ hf)
  have hle := hbegins.length_le
  simp only [lowerPath, List.length_map] at hle
  rw [hpf] at hle
  omega

theorem files_distinct : (files.map lowerPath).Nodup := by
  have hdistinct := h.distinct
  rw [List.map_append] at hdistinct
  exact (List.nodup_append.mp hdistinct).2.1

/-- The plan made from a portable manifest is portable: the directories are the
    missing ones, and the files are those of the manifest and the receipt. -/
theorem portable_plan (created : List Path) (receipt : String) (hnodup : created.Nodup)
    (hcreated : ∀ m ∈ created, IsDirectory directories files m)
    (hreceipt : validatePackagePath [receipt] = .ok ())
    (hapart : ∀ p ∈ directories ++ files, ¬lowerPath [receipt] <+: lowerPath p)
    (hfew : files.length + 1 + created.length ≤ maxPackageEntries) :
    Portable created (files ++ [[receipt]]) := by
  have hmember : ∀ p ∈ created ++ (files ++ [[receipt]]),
      p = [receipt] ∨ p ∈ (directories ++ files).flatMap spellingsOf := by
    intro p hp
    rcases List.mem_append.mp hp with hp | hp
    · exact Or.inr (isDirectory_spelling _ _ h p (hcreated p hp))
    · rcases List.mem_append.mp hp with hp | hp
      · exact Or.inr (path_spelling _ _ h p (List.mem_append_right _ hp))
      · exact Or.inl (List.mem_singleton.mp hp)
  -- nothing but the receipt begins with its name
  have hunder : ∀ p ∈ (directories ++ files).flatMap spellingsOf,
      ¬lowerPath [receipt] <+: lowerPath p := by
    intro p hp hbegins
    rcases List.mem_flatMap.mp hp with ⟨q, hq, hpq⟩
    exact hapart q hq (hbegins.trans (lowerPath_mono p q ((mem_spellingsOf p q).mp hpq).1))
  have hspelling : ∀ p ∈ (created ++ (files ++ [[receipt]])).flatMap spellingsOf,
      p = [receipt] ∨ p ∈ (directories ++ files).flatMap spellingsOf := by
    intro p hp
    rcases List.mem_flatMap.mp hp with ⟨q, hq, hpq⟩
    rcases (mem_spellingsOf p q).mp hpq with ⟨hbegins, hne⟩
    rcases hmember q hq with rfl | hq
    · rcases List.prefix_cons_iff.mp hbegins with rfl | ⟨t, rfl, ht⟩
      · exact absurd rfl hne
      · rw [List.prefix_nil.mp ht]
        exact Or.inl rfl
    · rcases List.mem_flatMap.mp hq with ⟨r, hr, hqr⟩
      exact Or.inr (List.mem_flatMap.mpr ⟨r, hr, (mem_spellingsOf p r).mpr
        ⟨hbegins.trans ((mem_spellingsOf q r).mp hqr).1, hne⟩⟩)
  refine ⟨by simp, ?_, ?_, ?_, ?_, ?_⟩
  · rw [List.length_append, List.length_singleton]
    exact hfew
  · intro p hp
    rcases hmember p hp with rfl | hp
    · exact hreceipt
    · rcases List.mem_flatMap.mp hp with ⟨q, hq, hpq⟩
      rcases (mem_spellingsOf p q).mp hpq with ⟨hbegins, hne⟩
      exact validatePackagePath_mono p q hbegins hne (h.valid q hq)
  · rintro p hp q hq ⟨hlower, hne⟩
    rcases hspelling p hp with rfl | hp
    · rcases hspelling q hq with rfl | hq
      · exact hne rfl
      · exact hunder q hq (hlower ▸ List.prefix_refl _)
    · rcases hspelling q hq with rfl | hq
      · exact hunder p hp (hlower ▸ List.prefix_refl _)
      · exact h.consistent p hp q hq ⟨hlower, hne⟩
  · rw [List.map_append, List.map_append, List.nodup_append, List.nodup_append]
    refine ⟨?_, ⟨files_distinct _ _ h, List.nodup_singleton _, ?_⟩, ?_⟩
    · refine List.Nodup.map_on (fun p hp q hq heq => ?_) hnodup
      exact eq_of_lowerPath _ h.consistent p q (isDirectory_spelling _ _ h p (hcreated p hp))
        (isDirectory_spelling _ _ h q (hcreated q hq)) heq
    · intro a ha b hb heq
      rcases List.mem_map.mp ha with ⟨f, hf, rfl⟩
      rw [List.mem_singleton.mp hb] at heq
      exact hapart f (List.mem_append_right _ hf) (heq ▸ List.prefix_refl _)
    · intro a ha b hb heq
      rcases List.mem_map.mp ha with ⟨m, hm, rfl⟩
      rcases List.mem_append.mp hb with hb | hb
      · rcases List.mem_map.mp hb with ⟨f, hf, rfl⟩
        exact file_not_above _ _ h f m hf (hcreated m hm) (heq ▸ List.prefix_refl _)
      · rw [List.mem_singleton.mp hb] at heq
        exact hunder m (isDirectory_spelling _ _ h m (hcreated m hm)) (heq ▸ List.prefix_refl _)
  · rintro p hp f hf ⟨hbegins, hne⟩
    rcases List.mem_append.mp hf with hf | hf
    · rcases List.mem_append.mp hp with hp | hp
      · exact file_not_above _ _ h f p hf (hcreated p hp) hbegins
      · rcases List.mem_append.mp hp with hp | hp
        · exact h.apart p (List.mem_append_right _ hp) f hf ⟨hbegins, hne⟩
        · rw [List.mem_singleton.mp hp] at hbegins hne
          rcases List.prefix_cons_iff.mp hbegins with heq | ⟨t, heq, ht⟩
          · exact lowerPath_ne_nil f
              (portable_ne_nil _ _ h f (List.mem_append_right _ hf)) heq
          · rw [List.prefix_nil.mp ht] at heq
            exact hne heq
    · rw [List.mem_singleton.mp hf] at hbegins hne
      rcases hmember p hp with rfl | hp
      · exact hne rfl
      · exact hunder p hp hbegins

end

/-! ## What is accepted -/

/-- `validate_package_paths`, with the digest that stands beside each file. -/
def validatePackageFiles (directories : List Path) (files : List (Path × String)) :
    Checked Unit := do
  validatePackagePaths directories (files.map Prod.fst)
  checkAll (fun file => check (validateExpectedSha file.2 = true)
    "update component requires a 64-character SHA-256 digest") files

/-- A name of letters, digits, hyphens, underscores and dots, the last one not a
    dot. -/
def PortableName (part : String) : Prop :=
  part ≠ "" ∧ (∀ c ∈ part.toList, c.isAlphanum ∨ c = '-' ∨ c = '_' ∨ c = '.') ∧
    part.toList.getLast? ≠ some '.'

/-- The file beside a target that a transaction writes. -/
def sidecar (target : Path) (transactionId suffix : String) : Path :=
  target.dropLast ++ [target.getLastD "" ++ (".dcc-mcp-" ++ (transactionId ++ suffix))]

/-- Declared paths that mean the same on every disk. -/
structure Unambiguous (directories files : List Path) : Prop where
  distinct : ((directories ++ files).map lowerPath).Nodup
  clear : ∀ file ∈ files, ∀ path ∈ directories ++ files,
    lowerPath file <+: lowerPath path → lowerPath file = lowerPath path
  spelled : ∀ p ∈ directories ++ files, ∀ q ∈ directories ++ files, ∀ m m' : Path,
    m <+: p → m' <+: q → lowerPath m = lowerPath m' → m = m'
  inside : ∀ path ∈ directories ++ files, path ≠ [] ∧ ∀ part ∈ path, PortableName part

/-- The limits, and what else the names and digests have to be. -/
structure WithinLimits (directories : List Path) (files : List (Path × String)) : Prop where
  some : files ≠ []
  few : files.length + directories.length ≤ maxPackageEntries
  short : ∀ path ∈ directories ++ files.map Prod.fst, pathLength path ≤ 512 ∧ path.length ≤ 32
  free : ∀ path ∈ directories ++ files.map Prod.fst, ∀ part ∈ path, isReservedPart part = false
  digests : ∀ file ∈ files, validateExpectedSha file.2 = true

theorem validateSiblingName_iff (part : String) :
    validateSiblingName part = true ↔ PortableName part := by
  unfold validateSiblingName PortableName isPortableChar
  simp [or_assoc, and_assoc]

theorem validatePart_iff (part : String) :
    validatePart part = .ok () ↔ PortableName part ∧ isReservedPart part = false := by
  unfold validatePart
  rw [checked_then_eq_ok, check_eq_ok, check_eq_ok, validateSiblingName_iff]

/-- A portable name does not lead anywhere else. -/
theorem portableName_under (part : String) (h : PortableName part) :
    part ≠ "." ∧ part ≠ ".." ∧ '/' ∉ part.toList ∧ '\\' ∉ part.toList := by
  refine ⟨?_, ?_, fun hmem => ?_, fun hmem => ?_⟩
  · rintro rfl
    exact h.2.2 (by decide)
  · rintro rfl
    exact h.2.2 (by decide)
  · have hc := h.2.1 _ hmem
    revert hc
    decide
  · have hc := h.2.1 _ hmem
    revert hc
    decide

theorem consistent_iff (paths : List Path) :
    Consistent (paths.flatMap spellingsOf) ↔
      ∀ p ∈ paths, ∀ q ∈ paths, ∀ m m' : Path, m <+: p → m' <+: q →
        lowerPath m = lowerPath m' → m = m' := by
  have hspelling : ∀ p ∈ paths, ∀ m : Path, m <+: p → m ≠ [] → m ∈ paths.flatMap spellingsOf :=
    fun p hp m hm hne => List.mem_flatMap.mpr ⟨p, hp, (mem_spellingsOf m p).mpr ⟨hm, hne⟩⟩
  constructor
  · intro h p hp q hq m m' hm hm' heq
    by_cases hne : m = []
    · rw [hne] at heq ⊢
      exact (List.map_eq_nil_iff.mp heq.symm).symm
    · have hne' : m' ≠ [] := by
        rintro rfl
        exact hne (List.map_eq_nil_iff.mp heq)
      exact eq_of_lowerPath _ h m m' (hspelling p hp m hm hne) (hspelling q hq m' hm' hne') heq
  · rintro h m hm m' hm' ⟨heq, hne⟩
    rcases List.mem_flatMap.mp hm with ⟨p, hp, hmp⟩
    rcases List.mem_flatMap.mp hm' with ⟨q, hq, hmq⟩
    exact hne (h q hq p hp m' m ((mem_spellingsOf m' q).mp hmq).1
      ((mem_spellingsOf m p).mp hmp).1 heq)

/-- No accepted name is the name of a sidecar, whatever the case of its letters. -/
theorem lowerPath_ne_sidecar (p q : Path) (transactionId suffix : String)
    (h : ∀ part ∈ p, isReservedPart part = false) :
    lowerPath p ≠ lowerPath (sidecar q transactionId suffix) := by
  intro heq
  unfold lowerPath sidecar at heq
  rw [List.map_append, List.map_singleton] at heq
  have hmem : Text.toAsciiLowercase (q.getLastD "" ++ (".dcc-mcp-" ++ (transactionId ++ suffix))) ∈
      p.map Text.toAsciiLowercase := by
    rw [heq]
    exact List.mem_append_right _ List.mem_cons_self
  rcases List.mem_map.mp hmem with ⟨part, hpart, hlower⟩
  have hfree := h part hpart
  unfold isReservedPart at hfree
  dsimp only at hfree
  rw [hlower, Bool.or_eq_false_iff] at hfree
  have hcontains := hfree.2
  unfold Text.contains Text.toAsciiLowercase at hcontains
  rw [String.toList_ofList, String.toList_append, String.toList_append, List.map_append,
    List.map_append, List.any_eq_false] at hcontains
  refine hcontains _ ((List.mem_tails _ _).mpr (List.suffix_append _ _)) ?_
  have hsame : ".dcc-mcp-".toList.map Char.toLower = ".dcc-mcp-".toList := by decide
  rw [hsame, List.isPrefixOf_iff_prefix]
  exact List.prefix_append _ _

theorem unambiguous_of_portable (directories files : List Path) (h : Portable directories files) :
    Unambiguous directories files := by
  refine ⟨h.distinct, ?_, (consistent_iff _).mp h.consistent, fun path hpath => ?_⟩
  · intro file hfile path hpath hfront
    by_contra hne
    exact h.apart path hpath file hfile ⟨hfront, hne⟩
  · have hvalid := (validatePackagePath_iff path).mp (h.valid path hpath)
    exact ⟨hvalid.2.1, fun part hpart => ((validatePart_iff part).mp (hvalid.2.2 part hpart)).1⟩

/-- Exactly the unambiguous lists within the limits are accepted; and of an
    accepted list no path leads out of the root, and no target is a sidecar of
    any target, whatever the transaction. -/
theorem validatePackageFiles_iff (directories : List Path) (files : List (Path × String)) :
    (validatePackageFiles directories files = .ok () ↔
      Unambiguous directories (files.map Prod.fst) ∧ WithinLimits directories files) ∧
    (validatePackageFiles directories files = .ok () →
      (∀ path ∈ directories ++ files.map Prod.fst, ∀ part ∈ path,
        part ≠ "." ∧ part ≠ ".." ∧ '/' ∉ part.toList ∧ '\\' ∉ part.toList) ∧
      ∀ target ∈ files, ∀ other ∈ files, ∀ transactionId suffix : String,
        lowerPath target.1 ≠ lowerPath (sidecar other.1 transactionId suffix)) := by
  have hiff : validatePackageFiles directories files = .ok () ↔
      Unambiguous directories (files.map Prod.fst) ∧ WithinLimits directories files := by
    unfold validatePackageFiles
    rw [checked_then_eq_ok, validatePackagePaths_iff, checkAll_eq_ok]
    simp only [check_eq_ok]
    constructor
    · rintro ⟨h, hdigests⟩
      have hvalid := fun path hpath => (validatePackagePath_iff path).mp (h.valid path hpath)
      refine ⟨unambiguous_of_portable _ _ h, ?_, ?_, ?_, ?_, hdigests⟩
      · rintro rfl
        exact h.some rfl
      · have hfew := h.few
        rwa [List.length_map] at hfew
      · exact fun path hpath => (hvalid path hpath).1
      · exact fun path hpath part hpart =>
          ((validatePart_iff part).mp ((hvalid path hpath).2.2 part hpart)).2
    · rintro ⟨h, hlimits⟩
      refine ⟨⟨?_, ?_, ?_, (consistent_iff _).mpr h.spelled, h.distinct, ?_⟩, hlimits.digests⟩
      · exact fun hnil => hlimits.some (List.map_eq_nil_iff.mp hnil)
      · rw [List.length_map]
        exact hlimits.few
      · exact fun path hpath => (validatePackagePath_iff path).mpr ⟨hlimits.short path hpath,
          (h.inside path hpath).1, fun part hpart => (validatePart_iff part).mpr
            ⟨(h.inside path hpath).2 part hpart, hlimits.free path hpath part hpart⟩⟩
      · rintro path hpath file hfile ⟨hfront, hne⟩
        exact hne (h.clear file hfile path hpath hfront)
  refine ⟨hiff, fun haccepted => ?_⟩
  rcases hiff.mp haccepted with ⟨h, hlimits⟩
  constructor
  · exact fun path hpath part hpart => portableName_under part ((h.inside path hpath).2 part hpart)
  · intro target htarget other _ transactionId suffix
    refine lowerPath_ne_sidecar target.1 other.1 transactionId suffix ?_
    exact hlimits.free target.1 (List.mem_append_right _ (List.mem_map_of_mem htarget))

/-- A file whose digest is no digest is refused, whatever its path. -/
theorem validatePackageFiles_digest :
    validatePackageFiles [] [(["tool"], "none")] =
        .error (.stage "update component requires a 64-character SHA-256 digest") ∧
      Unambiguous [] [["tool"]] ∧ isReservedPart "tool" = false ∧ pathLength ["tool"] ≤ 512 :=
  ⟨rfl, unambiguous_of_portable _ _ ((validatePackagePaths_iff _ _).mp rfl), by decide, by decide⟩

end Updater

end DccMcp
