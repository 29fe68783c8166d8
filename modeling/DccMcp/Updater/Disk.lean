import DccMcp.Lib.Bytes
import DccMcp.Lib.Crash
import DccMcp.Lib.FileTree

/-!
# The Disk of an Installation

The directory of the executable and what the updater keeps beside it, with the
file operations that change them. Each operation is one place where the process
may be killed, and each may fail. Copying a file and deleting a directory are
more than one operation: a copy leaves some of its bytes when it is cut off,
and a deletion some of the files.

A digest stands for all its spellings. The source writes it as 64 hexadecimal
digits, checks that it is written so, and ignores the case of letters when it
compares two.

## Main definitions

* `Platform`, `File`, `Disk`, `Choice`, `UpdateError`: The setting.
* `query`, `change`: Operations that look, and operations that write.
* `removeFile`, `rename`, `copy`: The writing operations.
* `ensureReservedFilePath`, `sha256File`, `requireFileHash`: The looking ones.
* `removeReservedFile`, `prepareVerifiedCopy`: Made from both.

## Theorems

* `ensures_query`, `ensures_change` and the lemmas after each definition: What
  the operations ensure.
-/

namespace DccMcp

namespace Updater

open Crash Crash.Prog FileTree

abbrev Digest := Vector UInt8 32

structure Platform where
  windows : Bool
  sha256 : Bytes → Digest

/-- The text of a digest: two hexadecimal digits for each byte. -/
def digestText (digest : Digest) : String :=
  .ofList ((digest.toList.flatMap (fun b =>
    [Bytes.hexDigitLower (b.toNat / 16), Bytes.hexDigitLower (b.toNat % 16)])).map
      (fun b => Char.ofNat b.toNat))

abbrev Path := List String

def displayPath (path : Path) : String := "/".intercalate path

/-- A file with its permission bits. -/
structure File where
  bytes : Bytes
  mode : Nat
  deriving DecidableEq

def Platform.digest (P : Platform) (f : File) : Digest := P.sha256 f.bytes

/-- The directory of the executable, what is kept elsewhere, and what the
    process that runs and the clock give for a nonce. -/
structure Disk (ρ : Type) where
  tree : Tree String File
  store : ρ
  process : Nat
  nanos : Nat

namespace Disk

variable {ρ : Type}

def put (d : Disk ρ) (p : Path) (n : Option (Node File)) : Disk ρ :=
  { d with tree := FileTree.put d.tree p n }

def move (d : Disk ρ) (p q : Path) : Disk ρ := { d with tree := FileTree.move d.tree p q }

def keep (d : Disk ρ) (store : ρ) : Disk ρ := { d with store := store }

@[simp] theorem tree_put (d : Disk ρ) (p : Path) (n : Option (Node File)) :
    (d.put p n).tree = FileTree.put d.tree p n := rfl

@[simp] theorem store_put (d : Disk ρ) (p : Path) (n : Option (Node File)) :
    (d.put p n).store = d.store := rfl

@[simp] theorem tree_keep (d : Disk ρ) (store : ρ) : (d.keep store).tree = d.tree := rfl

@[simp] theorem store_keep (d : Disk ρ) (store : ρ) : (d.keep store).store = store := rfl

end Disk

inductive IoKind
  | notFound
  | locked
  | uncategorized
  deriving DecidableEq

/-- What the environment does with an operation. A file that is mapped or open
    elsewhere is `locked`. What a copy `leaves` and a deletion `keeps` is what
    is there when half of it is done. -/
inductive Choice
  | proceeds
  | fails
  | locked
  | leaves (bytes : Bytes)
  | keeps (names : List String)

def Choice.failure : Choice → Option IoKind
  | fails => some .uncategorized
  | locked => some .locked
  | _ => none

/-- Among the admitted choices there is one that lets an operation fail. -/
def Mishap (A : Choice → Prop) : Prop := ∃ c, A c ∧ c.failure ≠ none

structure IoOp where
  stage : String
  operation : String
  source : String
  target : String

/-- The errors of the transactions. Of the errors that quote another one the
    quoted one is kept, in place of the text
    "update failed (..); rollback also failed (..)" and the like. -/
inductive UpdateError
  | io (kind : IoKind)
  | ioWithContext (op : IoOp) (kind : IoKind)
  | json
  | checksumMismatch (expected actual : String)
  | stage (text : String)
  | updateFailed (error rollbackError : UpdateError)
  | rejectedStagedUpdate (reason : UpdateError)
  | packageFailed (text : String) (error recoveryError : UpdateError)

abbrev Io (ρ : Type) := Prog Choice (Disk ρ) UpdateError

variable {ρ α : Type}

/-- An operation that only looks. -/
def query (f : Disk ρ → Except UpdateError α) : Io ρ α :=
  op fun c d =>
    match c.failure with
    | some kind => (.error (.io kind), d)
    | none => (f d, d)

/-- An operation that is carried out as a whole or not at all. -/
def change (wrap : IoKind → UpdateError) (f : Disk ρ → Except IoKind (Disk ρ)) : Io ρ Unit :=
  op fun c d =>
    match c.failure with
    | some kind => (.error (wrap kind), d)
    | none =>
      match f d with
      | .ok d' => (.ok (), d')
      | .error kind => (.error (wrap kind), d)

def removeFile (wrap : IoKind → UpdateError) (path : Path) : Io ρ Unit :=
  change wrap fun d =>
    match d.tree path with
    | none => .error .notFound
    | some .dir => .error .uncategorized
    | some _ => .ok (d.put path none)

/-- Renaming replaces a file at the destination. A directory is renamed with
    what is in it, which nothing here looks at. -/
def rename (wrap : IoKind → UpdateError) (source target : Path) : Io ρ Unit :=
  change wrap fun d =>
    match d.tree source with
    | none => .error .notFound
    | some _ =>
      if d.tree target = some .dir then .error .uncategorized
      else if hasParent d.tree target then .ok (d.move source target)
      else .error .notFound

/-- The first operation of a copy: the destination is there and has some bytes. -/
def openCopy (wrap : IoKind → UpdateError) (source : Disk ρ → Option File) (target : Path) :
    Io ρ File :=
  op fun c d =>
    match c.failure, source d with
    | some kind, _ => (.error (wrap kind), d)
    | none, none => (.error (wrap .notFound), d)
    | none, some f =>
      match d.tree target with
      | some .dir => (.error (wrap .uncategorized), d)
      | some .other => (.error (wrap .uncategorized), d)
      | _ =>
        if hasParent d.tree target then
          match c with
          | .leaves bytes => (.ok f, d.put target (some (.file ⟨bytes, f.mode⟩)))
          | _ => (.ok f, d.put target (some (.file ⟨[], f.mode⟩)))
        else (.error (wrap .notFound), d)

def copy (wrap : IoKind → UpdateError) (source : Disk ρ → Option File) (target : Path) :
    Io ρ Unit := do
  let f ← openCopy wrap source target
  change wrap fun d => .ok (d.put target (some (.file f)))

def ensureReservedFilePath (path : Path) (label : String) : Io ρ Bool :=
  query fun d =>
    match d.tree path with
    | none => .ok false
    | some (.file _) => .ok true
    | some _ => .error (.stage (label ++ " is not a regular file: " ++ displayPath path))

def sha256File (P : Platform) (path : Path) : Io ρ Digest :=
  query fun d =>
    match fileAt d.tree path with
    | some f => .ok (P.digest f)
    | none => .error (.io .notFound)

def requireFileHash (P : Platform) (path : Path) (expected : Digest) (label : String) :
    Io ρ Unit := do
  let isFile ← ensureReservedFilePath path label
  require (isFile = true)
    (.stage (label ++ " is missing or not a regular file: " ++ displayPath path))
  let actual ← sha256File P path
  require (actual = expected) (.checksumMismatch (digestText expected) (digestText actual))

def prepareVerifiedCopy (P : Platform) (source : Disk ρ → Option File) (target : Path)
    (label : String) (expected : Digest) : Io ρ Unit := do
  let _ ← ensureReservedFilePath target label
  copy (.ioWithContext ⟨"prepare", "copy_staged_to_prepared", "verified-update-component",
    "prepared-update-component"⟩) source target
  requireFileHash P target expected label

def removeReservedFile (path : Path) (label : String) : Io ρ Unit := do
  let isFile ← ensureReservedFilePath path label
  if isFile then
    removeFile (.ioWithContext ⟨"cleanup", "remove_reserved_file", "prepared-update-component",
      "removed-prepared"⟩) path
  else pure ()

/-! ## What the operations ensure -/

section

variable {A : Choice → Prop} {C : Disk ρ → Prop} {Q : α → Disk ρ → Prop}
  {E : UpdateError → Disk ρ → Prop}

theorem mishap_of_failure (c : Choice) (hc : A c) (kind : IoKind) (h : c.failure = some kind) :
    Mishap A :=
  ⟨c, hc, by rw [h]; exact Option.some_ne_none kind⟩

theorem ensures_query (f : Disk ρ → Except UpdateError α) (d : Disk ρ) (hC : C d)
    (hok : ∀ a, f d = .ok a → Q a d) (herr : ∀ e, f d = .error e → E e d)
    (hio : Mishap A → ∀ kind, E (.io kind) d) : Ensures A C Q E (query f) d := by
  refine ensures_op _ d hC (fun c hc => ?_)
  cases hfail : c.failure with
  | some kind =>
      dsimp only
      exact hio (mishap_of_failure c hc kind hfail) kind
  | none =>
      dsimp only
      cases hf : f d with
      | ok a => exact hok a hf
      | error e => exact herr e hf

theorem ensures_change {R : Unit → Disk ρ → Prop} (wrap : IoKind → UpdateError)
    (f : Disk ρ → Except IoKind (Disk ρ)) (d : Disk ρ) (hC : C d)
    (hok : ∀ d', f d = .ok d' → R () d') (herr : ∀ kind, f d = .error kind → E (wrap kind) d)
    (hio : Mishap A → ∀ kind, E (wrap kind) d) : Ensures A C R E (change wrap f) d := by
  refine ensures_op _ d hC (fun c hc => ?_)
  cases hfail : c.failure with
  | some kind =>
      dsimp only
      exact hio (mishap_of_failure c hc kind hfail) kind
  | none =>
      dsimp only
      cases hf : f d with
      | ok d' => exact hok d' hf
      | error kind => exact herr kind hf

variable {R : Unit → Disk ρ → Prop} {B : Bool → Disk ρ → Prop}

/-- While a copy is under way the destination has any bytes. -/
theorem ensures_copy (wrap : IoKind → UpdateError) (source : Disk ρ → Option File)
    (target : Path) (f : File) (d : Disk ρ) (hsource : source d = some f)
    (hfree : Free d.tree target) (hparent : hasParent d.tree target = true) (hC : C d)
    (hhalf : ∀ g, C (d.put target (some (.file g))))
    (hok : R () (d.put target (some (.file f))))
    (hio : Mishap A → ∀ kind, E (wrap kind) d)
    (hiohalf : Mishap A → ∀ kind g, E (wrap kind) (d.put target (some (.file g)))) :
    Ensures A C R E (copy wrap source target) d := by
  refine ensures_bind _ _ d (ensures_op _ d hC (fun c hc => ?_))
  cases hfail : c.failure with
  | some kind =>
      dsimp only
      exact hio (mishap_of_failure c hc kind hfail) kind
  | none =>
      -- Whatever is there now, the second operation puts the whole file in its place.
      have hfinish : ∀ g, Ensures A C R E
          (change wrap fun d => .ok (d.put target (some (.file f))))
          (d.put target (some (.file g))) := by
        intro g
        refine ensures_change wrap _ _ (hhalf g) (fun d' hd' => ?_) (fun kind hkind => ?_)
          (fun h kind => hiohalf h kind g)
        · simp only [Except.ok.injEq] at hd'
          rw [← hd']
          have hput : (d.put target (some (.file g))).put target (some (.file f)) =
              d.put target (some (.file f)) := by
            simp only [Disk.put, put_put]
          rw [hput]
          exact hok
        · simp at hkind
      rcases free_cases d.tree target hfree with hnone | ⟨g, hg⟩
      · simp only [hsource, hnone, if_pos hparent]
        cases c <;> exact hfinish _
      · simp only [hsource, hg, if_pos hparent]
        cases c <;> exact hfinish _

theorem ensures_ensureReservedFilePath (path : Path) (label : String) (d : Disk ρ) (hC : C d)
    (hnone : d.tree path = none → B false d)
    (hfile : ∀ f, d.tree path = some (.file f) → B true d)
    (hother : ¬Free d.tree path →
      E (.stage (label ++ " is not a regular file: " ++ displayPath path)) d)
    (hio : Mishap A → ∀ kind, E (.io kind) d) :
    Ensures A C B E (ensureReservedFilePath path label) d := by
  refine ensures_query _ d hC (fun b hb => ?_) (fun e he => ?_) hio
  · rcases hp : d.tree path with _ | f | _ | _ <;> simp only [hp, Except.ok.injEq, reduceCtorEq] at hb
    · rw [← hb]
      exact hnone hp
    · rw [← hb]
      exact hfile f hp
  · have hfree : ¬Free d.tree path := by
      intro hfree
      rcases free_cases d.tree path hfree with hp | ⟨f, hp⟩ <;> rw [hp] at he <;> cases he
    rcases hp : d.tree path with _ | f | _ | _ <;>
      simp [hp] at he
    all_goals
      rw [← he]
      exact hother hfree

/-- The check of a path at which there is a file or nothing. -/
theorem ensures_reserved (path : Path) (label : String) (d : Disk ρ) (hfree : Free d.tree path)
    (hC : C d) (hnone : d.tree path = none → B false d)
    (hfile : ∀ f, d.tree path = some (.file f) → B true d)
    (hio : Mishap A → ∀ kind, E (.io kind) d) :
    Ensures A C B E (ensureReservedFilePath path label) d :=
  ensures_ensureReservedFilePath path label d hC hnone hfile (fun h => absurd hfree h) hio

theorem ensures_sha256File (P : Platform) (path : Path) (f : File) (d : Disk ρ)
    {D : Digest → Disk ρ → Prop} (hfile : d.tree path = some (.file f)) (hC : C d)
    (hok : D (P.digest f) d) (hio : Mishap A → ∀ kind, E (.io kind) d) :
    Ensures A C D E (sha256File P path) d := by
  refine ensures_query _ d hC (fun a ha => ?_) (fun e he => ?_) hio
  · simp only [fileAt, hfile, Except.ok.injEq] at ha
    rw [← ha]
    exact hok
  · simp [fileAt, hfile] at he

/-- The check of a digest when it is not known what is at the path. -/
theorem ensures_requireFileHash (P : Platform) (path : Path) (expected : Digest) (label : String)
    (d : Disk ρ) (hC : C d) (hok : Has P.digest d.tree path expected → R () d)
    (herr : ¬Has P.digest d.tree path expected → ∀ e, E e d)
    (hio : Mishap A → ∀ kind, E (.io kind) d) :
    Ensures A C R E (requireFileHash P path expected label) d := by
  refine ensures_bind _ _ d (ensures_ensureReservedFilePath path label d hC ?_ ?_ ?_ hio)
  · intro hnone
    refine ensures_bind _ _ d (ensures_require _ _ d (fun h => absurd h (by decide)) (fun _ => ?_))
    exact herr (fun h => has_ne_none _ _ _ _ h hnone) _
  · intro f hf
    refine ensures_bind _ _ d (ensures_require _ _ d (fun _ => ?_) (fun h => absurd rfl h))
    refine ensures_bind _ _ d (ensures_sha256File P path f d hf hC ?_ hio)
    refine ensures_require _ _ d (fun h => hok ⟨f, hf, h⟩) (fun h => herr (fun hhas => ?_) _)
    exact h (has_unique P.digest d.tree path _ _ ⟨f, hf, rfl⟩ hhas)
  · intro hfree
    exact herr (fun h => hfree (free_of_has _ _ _ _ h)) _

/-- The check of a digest that is there. -/
theorem ensures_hash (P : Platform) (path : Path) (expected : Digest) (label : String)
    (d : Disk ρ) (hhas : Has P.digest d.tree path expected) (hC : C d) (hok : R () d)
    (hio : Mishap A → ∀ kind, E (.io kind) d) :
    Ensures A C R E (requireFileHash P path expected label) d :=
  ensures_requireFileHash P path expected label d hC (fun _ => hok)
    (fun h => absurd hhas h) hio

theorem ensures_prepareVerifiedCopy (P : Platform) (source : Disk ρ → Option File)
    (target : Path) (label : String) (expected : Digest) (f : File) (d : Disk ρ)
    (hsource : source d = some f) (hdigest : P.digest f = expected) (hfree : Free d.tree target)
    (hparent : hasParent d.tree target = true) (hC : C d)
    (hhalf : ∀ g, C (d.put target (some (.file g))))
    (hok : R () (d.put target (some (.file f))))
    (hio : Mishap A → ∀ e, E e d)
    (hiohalf : Mishap A → ∀ e g, E e (d.put target (some (.file g)))) :
    Ensures A C R E (prepareVerifiedCopy P source target label expected) d := by
  refine ensures_bind _ _ d (ensures_reserved target label d hfree hC ?_ ?_
    (fun h kind => hio h _))
  all_goals
    intros
    refine ensures_bind _ _ d (ensures_copy _ source target f d hsource hfree hparent hC hhalf ?_
      (fun h kind => hio h _) (fun h kind g => hiohalf h _ g))
    refine ensures_hash P target expected label _ ⟨f, put_self _ _ _, hdigest⟩ (hhalf f) hok
      (fun h kind => hiohalf h _ f)

end

/-! ## What is beside the directory -/

section

variable {γ : Type} (f : Disk ρ → γ) (hf : ∀ d t, f { d with tree := t } = f d)

theorem preserves_query (g : Disk ρ → Except UpdateError α) : Preserves f (query g) := by
  refine preserves_op f _ (fun c d => ?_)
  cases hfail : c.failure with
  | none => rfl
  | some kind => rfl

variable (P : Platform) (wrap : IoKind → UpdateError) (source : Disk ρ → Option File) (path : Path)

theorem preserves_change (g : Disk ρ → Except IoKind (Disk ρ))
    (hg : ∀ d d', g d = .ok d' → f d' = f d) : Preserves f (change wrap g) := by
  refine preserves_op f _ (fun c d => ?_)
  cases hfail : c.failure with
  | some kind => rfl
  | none =>
      cases hgd : g d with
      | error kind => rfl
      | ok d' => exact hg d d' hgd

include hf

theorem preserves_removeFile : Preserves f (removeFile wrap path : Io ρ Unit) := by
  refine preserves_change f wrap _ (fun d d' h => ?_)
  rcases hp : d.tree path with _ | g | _ | _ <;>
    simp [hp] at h
  all_goals
    rw [← h]
    exact hf d _

theorem preserves_rename (source target : Path) :
    Preserves f (rename wrap source target : Io ρ Unit) := by
  refine preserves_change f wrap _ (fun d d' h => ?_)
  rcases hp : d.tree source with _ | n
  · simp [hp] at h
  · simp only [hp] at h
    split at h
    · cases h
    · split at h
      · simp only [Except.ok.injEq] at h
        rw [← h]
        exact hf d _
      · cases h

theorem preserves_copy (target : Path) : Preserves f (copy wrap source target) := by
  refine preserves_bind f _ _ (preserves_op f _ (fun c d => ?_))
    (fun file => preserves_change f wrap _ (fun d d' h => ?_))
  · cases hfail : c.failure with
    | some kind => rfl
    | none =>
        cases hsource : source d with
        | none => rfl
        | some file =>
            have hput : ∀ n, f (d.put target n) = f d := fun n => hf d _
            rcases hp : d.tree target with _ | g | _ | _
            · by_cases hparent : hasParent d.tree target = true
              · simp only [if_pos hparent]
                cases c <;> exact hput _
              · simp only [if_neg hparent]
            · by_cases hparent : hasParent d.tree target = true
              · simp only [if_pos hparent]
                cases c <;> exact hput _
              · simp only [if_neg hparent]
            · rfl
            · rfl
  · simp only [Except.ok.injEq] at h
    rw [← h]
    exact hf d _

omit hf

theorem preserves_ensureReservedFilePath (label : String) :
    Preserves f (ensureReservedFilePath path label : Io ρ Bool) := preserves_query f _

theorem preserves_sha256File : Preserves f (sha256File P path : Io ρ Digest) := preserves_query f _

theorem preserves_requireFileHash (expected : Digest) (label : String) :
    Preserves f (requireFileHash P path expected label : Io ρ Unit) :=
  preserves_bind f _ _ (preserves_ensureReservedFilePath f path label) (fun _ =>
    preserves_bind f _ _ (preserves_require f _ _) (fun _ =>
      preserves_bind f _ _ (preserves_sha256File f P path) (fun _ => preserves_require f _ _)))

include hf

theorem preserves_prepareVerifiedCopy (target : Path) (label : String) (expected : Digest) :
    Preserves f (prepareVerifiedCopy P source target label expected) :=
  preserves_bind f _ _ (preserves_ensureReservedFilePath f target label) (fun _ =>
    preserves_bind f _ _ (preserves_copy f hf _ source target) (fun _ =>
      preserves_requireFileHash f P target expected label))

theorem preserves_removeReservedFile (label : String) :
    Preserves f (removeReservedFile path label : Io ρ Unit) := by
  refine preserves_bind f _ _ (preserves_ensureReservedFilePath f path label) (fun isFile => ?_)
  cases isFile with
  | false => exact preserves_pure f ()
  | true => exact preserves_removeFile f hf _ path

end

end Updater

end DccMcp
