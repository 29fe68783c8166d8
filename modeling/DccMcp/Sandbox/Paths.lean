import Mathlib.Data.List.Infix

/-!
# Sandboxed Paths

The path check of the sandbox: a path is admitted if its canonical form
starts with one of the allowed directories. A path that is there is
canonicalized by the system. For one that is not there yet, the nearest
ancestor that is there is canonicalized, and the names below it are put back.

Names are all that is put back. A `..` has no name, so one that stands in the
missing part of a path is left out of its canonical form, while the path still
means what it says once the missing directories have been made. That is the
one way for a path to be admitted and lie elsewhere, apart from the paths that
have no ancestor at all: they are compared as they were written.

There are no symbolic links here, so what the system makes of a path that is
there is its lexical resolution. A `.` stays where it is. After a file the
system refuses it, and what the fallback makes of such a path is the same.

## Main definitions

* `Piece`, `Path`: Paths as they are written.
* `World`: A directory tree and the working directory.
* `canonicalize`, `canonicalizeBestEffort`: What the system makes of a path,
  and what the sandbox does.
* `checkPath`: The check.
* `denote`: The location of a path once its missing directories are there.
* `Contained`: The paths whose check can be relied on.

## Theorems

* `checkPath_contained_iff`: Which paths are only admitted where they lie.
-/

namespace DccMcp

namespace Sandbox

/-- A component of a path below its root. -/
inductive Piece
  | curDir
  | parentDir
  | normal (name : String)
  deriving DecidableEq

/-- A path as it is written. -/
structure Path where
  absolute : Bool
  pieces : List Piece
  deriving DecidableEq

inductive Kind
  | dir
  | file
  deriving DecidableEq

/-- A directory tree, by the locations that are there, and the directory that
    relative paths start from. -/
structure World where
  node : List String → Option Kind
  root : node [] = some .dir
  below : ∀ dir name, (node (dir ++ [name])).isSome → node dir = some .dir
  cwd : List String
  cwd_dir : node cwd = some .dir

inductive SandboxError
  | pathNotAllowed (path : Path)
  deriving DecidableEq

/-- `Path::components` below the root. A `.` counts only where a relative path
    begins with it. -/
def components (p : Path) : List Piece :=
  match p.absolute, p.pieces with
  | false, .curDir :: rest => .curDir :: rest.filter (· != .curDir)
  | _, pieces => pieces.filter (· != .curDir)

/-- `Path::file_name`, of the last component. -/
def fileName : Piece → List String
  | .normal name => [name]
  | _ => []

/-- One step of the system's resolution. -/
def enter (w : World) (loc : List String) : Piece → Option (List String)
  | .curDir => some loc
  | .parentDir => if w.node loc = some .dir then some loc.dropLast else none
  | .normal name => if (w.node (loc ++ [name])).isSome then some (loc ++ [name]) else none

/-- Where the resolution of a path starts. -/
def start (w : World) (p : Path) : List String := if p.absolute then [] else w.cwd

/-- `Path::canonicalize`, which is also whether the path exists. The empty path
    does not. -/
def canonicalize (w : World) (p : Path) : Option (List String) :=
  if p.absolute = false ∧ p.pieces = [] then none
  else p.pieces.foldlM (enter w) (start w p)

/-- The absolute path of a location. -/
def absolutePath (loc : List String) : Path := ⟨true, loc.map .normal⟩

/-- The walk up the ancestors of a path, the last component first. -/
def nearest (w : World) (absolute : Bool) : List Piece → List String → Option (List String)
  | [], _ => none
  | last :: parent, suffix =>
    match canonicalize w ⟨absolute, parent.reverse⟩ with
    | some ancestor => some (ancestor ++ (fileName last ++ suffix))
    | none => nearest w absolute parent (fileName last ++ suffix)

def canonicalizeBestEffort (w : World) (p : Path) : Path :=
  match canonicalize w p with
  | some loc => absolutePath loc
  | none =>
    match nearest w p.absolute (components p).reverse [] with
    | some loc => absolutePath loc
    | none => p

/-- `Path::starts_with`, by components. Every path starts with the empty one. -/
def startsWith (p q : Path) : Bool :=
  (q.absolute == p.absolute || (components q).isEmpty && !q.absolute) &&
    (components q).isPrefixOf (components p)

/-- An allowed directory is canonicalized if it is there. -/
def allowedCanonical (w : World) (allowed : Path) : Path :=
  match canonicalize w allowed with
  | some loc => absolutePath loc
  | none => allowed

def checkPath (w : World) (allowedPaths : List Path) (p : Path) : Except SandboxError Unit :=
  if allowedPaths.isEmpty then .ok ()
  else if allowedPaths.any fun allowed =>
      startsWith (canonicalizeBestEffort w p) (allowedCanonical w allowed) then .ok ()
  else .error (.pathNotAllowed p)

/-- One step of the lexical resolution. -/
def lexical (loc : List String) : Piece → List String
  | .curDir => loc
  | .parentDir => loc.dropLast
  | .normal name => loc ++ [name]

/-- The location a path denotes once its missing directories are created. -/
def denote (w : World) (p : Path) : List String := p.pieces.foldl lexical (start w p)

/-- The empty path, which every path starts with. -/
def Path.isEmpty (p : Path) : Bool := !p.absolute && p.pieces.isEmpty

/-- The nearest ancestor of a path that exists, and the components below it. -/
structure Nearest (w : World) (p : Path) (front tail : List Piece) : Prop where
  split : components p = front ++ tail
  missing : tail ≠ []
  exists_front : (canonicalize w ⟨p.absolute, front⟩).isSome
  longest : ∀ front' tail', components p = front' ++ tail' → tail' ≠ [] →
    (canonicalize w ⟨p.absolute, front'⟩).isSome → front'.length ≤ front.length

/-- The paths that are only admitted where they lie. Either the path exists;
    or an ancestor does and there is no `..` below the nearest one; or none
    does, and every path it begins with, as written, is above it. -/
structure Contained (w : World) (p : Path) : Prop where
  ancestor : canonicalize w p = none → ∀ front tail, Nearest w p front tail → .parentDir ∉ tail
  adrift : canonicalize w p = none →
    (∀ front tail, components p = front ++ tail → tail ≠ [] →
      canonicalize w ⟨p.absolute, front⟩ = none) →
    ∀ front tail, components p = front ++ tail → front ≠ [] →
      denote w ⟨p.absolute, front⟩ <+: denote w p

variable (w : World) (pieces : List Piece) (p : Path) (front tail : List Piece)

theorem enter_eq (loc loc' : List String) (c : Piece) (h : enter w loc c = some loc') :
    loc' = lexical loc c := by
  cases c with
  | curDir => exact (Option.some.inj h).symm
  | parentDir =>
      rw [enter] at h
      split at h
      next => exact (Option.some.inj h).symm
      next => cases h
  | normal name =>
      rw [enter] at h
      split at h
      next => exact (Option.some.inj h).symm
      next => cases h

/-- What resolves does so to its lexical resolution. -/
theorem foldlM_enter (loc loc' : List String) (h : pieces.foldlM (enter w) loc = some loc') :
    loc' = pieces.foldl lexical loc := by
  induction pieces generalizing loc with
  | nil => exact (Option.some.inj h).symm
  | cons c rest ih =>
      rw [List.foldlM_cons] at h
      obtain ⟨next, hnext, hrest⟩ := Option.bind_eq_some_iff.mp h
      rw [List.foldl_cons, ← enter_eq w loc next c hnext]
      exact ih next hrest

theorem denote_of_canonicalize (loc : List String) (h : canonicalize w p = some loc) :
    loc = denote w p := by
  unfold canonicalize at h
  split at h
  next => cases h
  next => exact foldlM_enter w p.pieces _ loc h

theorem filter_foldl (pieces : List Piece) (loc : List String) :
    (pieces.filter (· != .curDir)).foldl lexical loc = pieces.foldl lexical loc := by
  induction pieces generalizing loc with
  | nil => rfl
  | cons c rest ih => cases c <;> exact ih _

theorem filter_foldlM (w : World) (pieces : List Piece) (loc : List String) :
    (pieces.filter (· != .curDir)).foldlM (enter w) loc = pieces.foldlM (enter w) loc := by
  induction pieces generalizing loc with
  | nil => rfl
  | cons c rest ih =>
      cases c with
      | curDir => exact ih loc
      | parentDir =>
          simp [bne_iff_ne, ih]
      | normal name =>
          simp [bne_iff_ne, ih]

theorem components_foldl (p : Path) (loc : List String) :
    (components p).foldl lexical loc = p.pieces.foldl lexical loc := by
  obtain ⟨absolute, pieces⟩ := p
  cases absolute with
  | true => exact filter_foldl pieces loc
  | false =>
      cases pieces with
      | nil => rfl
      | cons c rest => cases c <;> exact filter_foldl rest _

theorem components_foldlM (w : World) (p : Path) (loc : List String) :
    (components p).foldlM (enter w) loc = p.pieces.foldlM (enter w) loc := by
  obtain ⟨absolute, pieces⟩ := p
  cases absolute with
  | true => exact filter_foldlM w pieces loc
  | false =>
      cases pieces with
      | nil => rfl
      | cons c rest =>
          cases c with
          | curDir => exact filter_foldlM w rest loc
          | parentDir => exact filter_foldlM w (.parentDir :: rest) loc
          | normal name => exact filter_foldlM w (.normal name :: rest) loc

/-- A path means what its components mean. -/
theorem denote_components (w : World) (p : Path) :
    (components p).foldl lexical (start w p) = denote w p := components_foldl p _

theorem components_eq_nil (h : components p = []) (habs : p.absolute = false) : p.pieces = [] := by
  obtain ⟨absolute, pieces⟩ := p
  cases habs
  cases pieces with
  | nil => rfl
  | cons c rest =>
      exfalso
      cases c <;> simp [components] at h

/-- A path exists if its components resolve. -/
theorem canonicalize_components (w : World) (p : Path) :
    canonicalize w ⟨p.absolute, components p⟩ = canonicalize w p := by
  unfold canonicalize
  have hempty : (p.absolute = false ∧ components p = []) ↔
      (p.absolute = false ∧ p.pieces = []) := by
    constructor
    · rintro ⟨habs, hnil⟩
      exact ⟨habs, components_eq_nil p hnil habs⟩
    · rintro ⟨habs, hnil⟩
      refine ⟨habs, ?_⟩
      obtain ⟨absolute, pieces⟩ := p
      cases habs
      cases hnil
      rfl
  by_cases h : p.absolute = false ∧ p.pieces = []
  · rw [if_pos h, if_pos (hempty.mpr h)]
  · rw [if_neg h, if_neg (mt hempty.mp h)]
    exact components_foldlM w p _

/-- A `.` is only ever the first component, and of a relative path. -/
theorem curDir_components (h : components p = front ++ .curDir :: tail) :
    p.absolute = false ∧ front = [] := by
  have hfilter : ∀ pieces : List Piece, Piece.curDir ∉ pieces.filter (· != .curDir) := by
    intro pieces hmem
    have := (List.mem_filter.mp hmem).2
    simp at this
  have hmem : Piece.curDir ∈ front ++ .curDir :: tail :=
    List.mem_append_right front List.mem_cons_self
  obtain ⟨absolute, pieces⟩ := p
  cases absolute with
  | true =>
      rw [← h] at hmem
      exact absurd hmem (hfilter pieces)
  | false =>
      refine ⟨rfl, ?_⟩
      cases front with
      | nil => rfl
      | cons first front =>
          exfalso
          -- Past the first component everything has been filtered.
          have hrest : ∃ rest : List Piece,
              front ++ .curDir :: tail = rest.filter (· != .curDir) := by
            cases pieces with
            | nil => cases h
            | cons c rest =>
                refine ⟨rest, ?_⟩
                cases c with
                | curDir => exact (List.cons.inj h).2.symm
                | parentDir => exact (List.cons.inj h).2.symm
                | normal name => exact (List.cons.inj h).2.symm
          obtain ⟨rest, hrest⟩ := hrest
          have hcur : Piece.curDir ∈ front ++ .curDir :: tail :=
            List.mem_append_right front List.mem_cons_self
          rw [hrest] at hcur
          exact hfilter rest hcur

/-- A part of the components of a path is made of components. -/
theorem components_front (h : components p = front ++ tail) :
    components ⟨p.absolute, front⟩ = front := by
  have hkeep : ∀ rest : List Piece, .curDir ∉ rest → rest.filter (· != .curDir) = rest := by
    intro rest hrest
    refine List.filter_eq_self.mpr (fun c hc => ?_)
    simp only [bne_iff_ne, ne_eq]
    rintro rfl
    exact hrest hc
  have hcur : ∀ first rest, front = first :: rest → Piece.curDir ∉ rest := by
    intro first rest hfront hmem
    obtain ⟨before, after, rfl⟩ := List.append_of_mem hmem
    have hsplit : components p = (first :: before) ++ .curDir :: (after ++ tail) := by
      rw [h, hfront]
      simp
    exact absurd (curDir_components p _ _ hsplit).2 (List.cons_ne_nil _ _)
  cases front with
  | nil => cases hp : p.absolute <;> rfl
  | cons first rest =>
      have hrest := hkeep rest (hcur first rest rfl)
      cases first with
      | curDir =>
          have habs := (curDir_components p [] (rest ++ tail) h).1
          rw [habs]
          exact congrArg _ hrest
      | parentDir => cases hp : p.absolute <;> exact congrArg (Piece.parentDir :: ·) hrest
      | normal name => cases hp : p.absolute <;> exact congrArg (Piece.normal name :: ·) hrest

/-- Without a `..` the names are all there is to a path. -/
theorem foldl_names (loc : List String) (h : .parentDir ∉ pieces) :
    pieces.foldl lexical loc = loc ++ pieces.flatMap fileName := by
  induction pieces generalizing loc with
  | nil => exact (List.append_nil loc).symm
  | cons c rest ih =>
      have hrest : Piece.parentDir ∉ rest := fun hmem => h (List.mem_cons_of_mem c hmem)
      rw [List.foldl_cons, ih _ hrest, List.flatMap_cons]
      cases c with
      | curDir => rfl
      | parentDir => exact absurd List.mem_cons_self h
      | normal name => exact List.append_assoc loc [name] _

theorem foldl_length_le (pieces : List Piece) (loc : List String) :
    (pieces.foldl lexical loc).length ≤ loc.length + (pieces.flatMap fileName).length := by
  induction pieces generalizing loc with
  | nil => exact Nat.le_refl _
  | cons c rest ih =>
      have hrest := ih (lexical loc c)
      rw [List.foldl_cons, List.flatMap_cons, List.length_append]
      have hstep : (lexical loc c).length ≤ loc.length + (fileName c).length := by
        cases c with
        | curDir => exact Nat.le_refl _
        | parentDir =>
            rw [lexical, List.length_dropLast]
            omega
        | normal name =>
            rw [lexical, List.length_append]
            exact Nat.le_refl _
      omega

/-- A `..` that takes something away makes the location shorter than the
    names of the path. -/
theorem foldl_length_lt (before after : List Piece) (loc : List String)
    (hbefore : .parentDir ∉ before) (hne : loc ++ before.flatMap fileName ≠ []) :
    ((before ++ .parentDir :: after).foldl lexical loc).length <
      loc.length + ((before ++ .parentDir :: after).flatMap fileName).length := by
  rw [List.foldl_append, List.foldl_cons, foldl_names before loc hbefore, List.flatMap_append,
    List.flatMap_cons, List.length_append, List.length_append, lexical]
  have hrest := foldl_length_le after (loc ++ before.flatMap fileName).dropLast
  have hpos := List.length_pos_of_ne_nil hne
  rw [List.length_append] at hpos
  rw [List.length_dropLast, List.length_append] at hrest
  have hname : (fileName .parentDir).length = 0 := rfl
  omega

/-- The walk ends at the longest ancestor that exists. -/
theorem nearest_eq_some (absolute : Bool) (reversed : List Piece) (suffix loc : List String)
    (h : nearest w absolute reversed suffix = some loc) :
    ∃ front tail ancestor, reversed.reverse = front ++ tail ∧ tail ≠ [] ∧
      canonicalize w ⟨absolute, front⟩ = some ancestor ∧
      loc = ancestor ++ (tail.flatMap fileName ++ suffix) ∧
      ∀ front' tail', reversed.reverse = front' ++ tail' → tail' ≠ [] →
        (canonicalize w ⟨absolute, front'⟩).isSome → front'.length ≤ front.length := by
  -- The last component is taken off until what is left exists.
  induction reversed generalizing suffix with
  | nil => cases h
  | cons last parent ih =>
      rw [nearest] at h
      split at h
      next ancestor hancestor =>
        refine ⟨parent.reverse, [last], ancestor, List.reverse_cons, List.cons_ne_nil _ _,
          hancestor, ?_, fun front' tail' hsplit hne _ => ?_⟩
        · rw [← Option.some.inj h, List.flatMap_singleton]
        · have hlength := congrArg List.length hsplit
          rw [List.length_reverse, List.length_cons, List.length_append] at hlength
          have hpos := List.length_pos_of_ne_nil hne
          rw [List.length_reverse]
          omega
      next hmissing =>
        obtain ⟨front, tail, ancestor, hsplit, hne, hancestor, hloc, hlongest⟩ := ih _ h
        refine ⟨front, tail ++ [last], ancestor, ?_, by simp, hancestor, ?_,
          fun front' tail' hsplit' hne' hexists => ?_⟩
        · rw [List.reverse_cons, hsplit, List.append_assoc]
        · rw [hloc, List.flatMap_append, List.flatMap_singleton, List.append_assoc]
        · -- The whole of what is left does not exist, so this is shorter.
          obtain ⟨before, c, rfl⟩ := List.eq_nil_or_concat' tail' |>.resolve_left hne'
          rw [List.reverse_cons, ← List.append_assoc] at hsplit'
          have hparent := (List.append_inj' hsplit' rfl).1
          cases before with
          | nil =>
              rw [List.append_nil] at hparent
              rw [← hparent, hmissing] at hexists
              cases hexists
          | cons b before => exact hlongest front' _ hparent (List.cons_ne_nil b before) hexists

theorem nearest_eq_none (absolute : Bool) (reversed : List Piece) (suffix : List String)
    (h : nearest w absolute reversed suffix = none) :
    ∀ front tail, reversed.reverse = front ++ tail → tail ≠ [] →
      canonicalize w ⟨absolute, front⟩ = none := by
  induction reversed generalizing suffix with
  | nil =>
      intro front tail hsplit hne
      exact absurd (List.append_eq_nil_iff.mp hsplit.symm).2 hne
  | cons last parent ih =>
      rw [nearest] at h
      split at h
      next => cases h
      next hmissing =>
        intro front tail hsplit hne
        obtain ⟨before, c, rfl⟩ := List.eq_nil_or_concat' tail |>.resolve_left hne
        rw [List.reverse_cons, ← List.append_assoc] at hsplit
        have hparent := (List.append_inj' hsplit rfl).1
        cases before with
        | nil =>
            rw [List.append_nil] at hparent
            rw [← hparent]
            exact hmissing
        | cons b before => exact ih _ h front _ hparent (List.cons_ne_nil b before)

/-- What the canonical form of a path is. -/
theorem canonicalizeBestEffort_cases : (canonicalize w p = some (denote w p) ∧
        canonicalizeBestEffort w p = absolutePath (denote w p)) ∨
      (canonicalize w p = none ∧ ∃ front tail ancestor, Nearest w p front tail ∧
        canonicalize w ⟨p.absolute, front⟩ = some ancestor ∧
        canonicalizeBestEffort w p = absolutePath (ancestor ++ tail.flatMap fileName)) ∨
      (canonicalize w p = none ∧ (∀ front tail, components p = front ++ tail → tail ≠ [] →
        canonicalize w ⟨p.absolute, front⟩ = none) ∧ canonicalizeBestEffort w p = p) := by
  cases hcanonical : canonicalize w p with
  | some loc =>
      left
      have hloc := denote_of_canonicalize w p loc hcanonical
      rw [hloc] at hcanonical
      refine ⟨by rw [hloc], ?_⟩
      rw [canonicalizeBestEffort, hcanonical]
  | none =>
      right
      cases hwalk : nearest w p.absolute (components p).reverse [] with
      | some loc =>
          left
          obtain ⟨front, tail, ancestor, hsplit, hne, hancestor, hloc, hlongest⟩ :=
            nearest_eq_some w p.absolute _ _ _ hwalk
          rw [List.reverse_reverse] at hsplit hlongest
          refine ⟨rfl, front, tail, ancestor,
            ⟨hsplit, hne, by rw [hancestor]; rfl, hlongest⟩, hancestor, ?_⟩
          rw [List.append_nil] at hloc
          rw [canonicalizeBestEffort, hcanonical, hwalk, hloc]
      | none =>
          right
          have hnone := nearest_eq_none w p.absolute _ _ hwalk
          rw [List.reverse_reverse] at hnone
          refine ⟨rfl, hnone, ?_⟩
          rw [canonicalizeBestEffort, hcanonical, hwalk]

theorem checkPath_ok (allowedPaths : List Path) (p : Path) (hne : allowedPaths ≠ []) :
    checkPath w allowedPaths p = .ok () ↔ ∃ q ∈ allowedPaths,
      startsWith (canonicalizeBestEffort w p) (allowedCanonical w q) = true := by
  unfold checkPath
  rw [if_neg (by simpa using hne), ← List.any_eq_true]
  split
  next h => exact iff_of_true rfl h
  next h => exact iff_of_false (by simp) h

theorem components_absolutePath (loc : List String) :
    components (absolutePath loc) = loc.map .normal := by
  refine List.filter_eq_self.mpr (fun c hc => ?_)
  obtain ⟨name, -, rfl⟩ := List.mem_map.mp hc
  rfl

/-- An absolute path of names starts with what denotes a location above it. -/
theorem startsWith_absolute (w : World) (loc : List String) (q : Path) (hq : q.isEmpty = false)
    (h : startsWith (absolutePath loc) (allowedCanonical w q) = true) : denote w q <+: loc := by
  unfold startsWith at h
  rw [Bool.and_eq_true, List.isPrefixOf_iff_prefix, components_absolutePath] at h
  unfold allowedCanonical at h
  split at h
  next qloc hqloc =>
    rw [components_absolutePath] at h
    rw [← denote_of_canonicalize w q qloc hqloc]
    exact (List.prefix_map_iff_of_injective (fun a b => Piece.normal.inj)).mp h.2
  next hmissing =>
    -- An allowed directory that is not there is compared as it is written.
    obtain ⟨absolute, pieces⟩ := q
    cases absolute with
    | false =>
        exfalso
        have hnil : components ⟨false, pieces⟩ = [] := by simpa [absolutePath] using h.1
        have hpieces : pieces = [] := components_eq_nil ⟨false, pieces⟩ hnil rfl
        rw [hpieces] at hq
        cases hq
    | true =>
        rw [← denote_components]
        obtain ⟨rest, hrest⟩ := h.2
        obtain ⟨front, back, hloc, hfront, -⟩ := List.map_eq_append_iff.mp hrest.symm
        rw [← hfront, foldl_names]
        · rw [hloc, start, List.flatMap_map]
          exact ⟨back, by simp [fileName]⟩
        · intro hmem
          obtain ⟨name, -, hname⟩ := List.mem_map.mp hmem
          cases hname

/-- A location is above another if the components of one begin the other's. -/
theorem denote_split (w : World) (p : Path) (front tail : List Piece) (ancestor : List String)
    (hsplit : components p = front ++ tail)
    (h : canonicalize w ⟨p.absolute, front⟩ = some ancestor) :
    denote w p = tail.foldl lexical ancestor := by
  have hancestor : ancestor = front.foldl lexical (start w p) :=
    denote_of_canonicalize w ⟨p.absolute, front⟩ ancestor h
  rw [← denote_components, hsplit, List.foldl_append, ← hancestor]

/-- A path that has no ancestor at all is a relative one. -/
theorem absolute_of_adrift (hcanonical : canonicalize w p = none)
    (h : ∀ front tail, components p = front ++ tail → tail ≠ [] →
      canonicalize w ⟨p.absolute, front⟩ = none) : p.absolute = false := by
  by_contra habs
  rw [Bool.not_eq_false] at habs
  have hroot : canonicalize w ⟨p.absolute, []⟩ = some [] := by
    rw [habs]
    rfl
  by_cases hnil : components p = []
  · rw [← canonicalize_components, hnil, hroot] at hcanonical
    cases hcanonical
  · rw [h [] (components p) rfl hnil] at hroot
    cases hroot

/-- Where the condition is met, what is admitted lies inside. -/
theorem checkPath_contained (w : World) (p : Path) (hp : Contained w p)
    (allowedPaths : List Path) (hne : allowedPaths ≠ [])
    (hnames : ∀ q ∈ allowedPaths, q.isEmpty = false)
    (hok : checkPath w allowedPaths p = .ok ()) :
    ∃ q ∈ allowedPaths, denote w q <+: denote w p := by
  obtain ⟨q, hq, hstarts⟩ := (checkPath_ok w allowedPaths p hne).mp hok
  refine ⟨q, hq, ?_⟩
  rcases canonicalizeBestEffort_cases w p with ⟨-, hform⟩ |
    ⟨hcanonical, front, tail, ancestor, hnearest, hancestor, hform⟩ | ⟨hcanonical, hadrift, hform⟩
  · rw [hform] at hstarts
    exact startsWith_absolute w _ q (hnames q hq) hstarts
  · -- Nothing has been left out of the missing part.
    rw [hform] at hstarts
    have hclean := hp.ancestor hcanonical front tail hnearest
    rw [denote_split w p front tail ancestor hnearest.split hancestor, foldl_names tail _ hclean]
    exact startsWith_absolute w _ q (hnames q hq) hstarts
  · -- Both paths are as they were written.
    have habs := absolute_of_adrift w p hcanonical hadrift
    rw [hform] at hstarts
    unfold startsWith at hstarts
    rw [Bool.and_eq_true, List.isPrefixOf_iff_prefix] at hstarts
    unfold allowedCanonical at hstarts
    split at hstarts
    next qloc hqloc =>
      exfalso
      simp [habs, absolutePath] at hstarts
    next =>
      obtain ⟨back, hback⟩ := hstarts.2
      have hqabs : q.absolute = p.absolute := by
        rw [habs]
        by_contra hne
        rw [Bool.not_eq_false] at hne
        simp [hne, habs] at hstarts
      have hfront : components q ≠ [] := by
        intro hnil
        have hpieces := components_eq_nil q hnil (hqabs.trans habs)
        have hempty := hnames q hq
        rw [Path.isEmpty, hqabs, habs, hpieces] at hempty
        cases hempty
      have hprefix := hp.adrift hcanonical hadrift (components q) back hback.symm hfront
      rw [← hqabs] at hprefix
      have hdenote : denote w ⟨q.absolute, components q⟩ = denote w q := denote_components w q
      rw [hdenote] at hprefix
      exact hprefix

theorem startsWith_self : startsWith p p = true := by
  unfold startsWith
  rw [Bool.and_eq_true, List.isPrefixOf_iff_prefix]
  exact ⟨by simp, List.prefix_rfl⟩

theorem denote_absolutePath (loc : List String) : denote w (absolutePath loc) = loc := by
  change (loc.map Piece.normal).foldl lexical [] = loc
  rw [foldl_names _ _ (by simp), List.flatMap_map]
  simp [fileName]

/-- The canonical form of a location is a directory that admits it. -/
theorem allowedCanonical_absolutePath (loc : List String) :
    allowedCanonical w (absolutePath loc) = absolutePath loc := by
  unfold allowedCanonical
  split
  next found hfound => rw [denote_of_canonicalize w _ found hfound, denote_absolutePath]
  next => rfl

theorem nearest_unique (front tail front' tail' : List Piece) (h : Nearest w p front tail)
    (h' : Nearest w p front' tail') :
    front = front' ∧ tail = tail' := by
  have hlength : front.length = front'.length :=
    Nat.le_antisymm (h'.longest front tail h.split h.missing h.exists_front)
      (h.longest front' tail' h'.split h'.missing h'.exists_front)
  exact List.append_inj (h.split.symm.trans h'.split) hlength

/-- One more component of a path that exists. -/
theorem canonicalize_snoc (absolute : Bool) (front : List Piece) (c : Piece) (loc : List String)
    (h : canonicalize w ⟨absolute, front⟩ = some loc) :
    canonicalize w ⟨absolute, front ++ [c]⟩ = enter w loc c := by
  unfold canonicalize at h ⊢
  split at h
  next => cases h
  next =>
    rw [if_neg (by simp)]
    change (front ++ [c]).foldlM (enter w) (start w ⟨absolute, front⟩) = _
    rw [List.foldlM_append, h]
    simp [List.foldlM_cons]

/-- The nearest ancestor is not the root with a `..` right below it: that
    exists too. -/
theorem root_not_nearest (front before after : List Piece) (ancestor : List String)
    (hcanonical : canonicalize w p = none)
    (hnearest : Nearest w p front (before ++ .parentDir :: after))
    (hancestor : canonicalize w ⟨p.absolute, front⟩ = some ancestor)
    (hbefore : .parentDir ∉ before) : ancestor ++ before.flatMap fileName ≠ [] := by
  intro hroot
  obtain ⟨hancestorNil, hnames⟩ := List.append_eq_nil_iff.mp hroot
  have hbeforeNil : before = [] := by
    cases before with
    | nil => rfl
    | cons c before =>
        exfalso
        cases c with
        | curDir =>
            -- A `.` would be the whole of what exists, and the empty path does not.
            obtain ⟨habs, hfront⟩ := curDir_components p front _ hnearest.split
            rw [habs, hfront] at hancestor
            cases hancestor
        | parentDir => exact hbefore List.mem_cons_self
        | normal name => cases hnames
  subst hbeforeNil
  have hparent : canonicalize w ⟨p.absolute, front ++ [.parentDir]⟩ = some [] := by
    rw [canonicalize_snoc w p.absolute front .parentDir ancestor hancestor, hancestorNil, enter,
      if_pos w.root]
    rfl
  have hsplit : components p = (front ++ [.parentDir]) ++ after := by
    rw [hnearest.split, List.append_assoc]
    rfl
  by_cases hafter : after = []
  · rw [hafter, List.append_nil] at hsplit
    rw [← canonicalize_components, hsplit, hparent] at hcanonical
    cases hcanonical
  · have hle := hnearest.longest _ after hsplit hafter (by rw [hparent]; rfl)
    rw [List.length_append, List.length_singleton] at hle
    omega

/-- Where a `..` is left out, the path is admitted below its own names, and
    they are more than its location has. -/
theorem not_parentDir_of_sound (hcanonical : canonicalize w p = none)
    (hnearest : Nearest w p front tail)
    (hsound : ∀ allowedPaths, allowedPaths ≠ [] → (∀ q ∈ allowedPaths, q.isEmpty = false) →
      checkPath w allowedPaths p = .ok () → ∃ q ∈ allowedPaths, denote w q <+: denote w p) :
    .parentDir ∉ tail := by
  intro hmem
  obtain ⟨ancestor, hancestor⟩ := Option.isSome_iff_exists.mp hnearest.exists_front
  have hform : canonicalizeBestEffort w p = absolutePath (ancestor ++ tail.flatMap fileName) := by
    rcases canonicalizeBestEffort_cases w p with ⟨hfound, -⟩ |
      ⟨-, front', tail', ancestor', hnearest', hancestor', hform⟩ | ⟨-, hadrift, -⟩
    · rw [hcanonical] at hfound
      cases hfound
    · obtain ⟨rfl, rfl⟩ := nearest_unique w p front tail front' tail' hnearest hnearest'
      rw [hancestor, Option.some.injEq] at hancestor'
      rw [hform, hancestor']
    · rw [hadrift front tail hnearest.split hnearest.missing] at hancestor
      cases hancestor
  -- The directory that admits it is the one it is taken for.
  have hadmitted := hsound [absolutePath (ancestor ++ tail.flatMap fileName)]
    (List.cons_ne_nil _ _) (fun q hq => by rw [List.mem_singleton.mp hq]; rfl)
    ((checkPath_ok w _ p (List.cons_ne_nil _ _)).mpr
      ⟨_, List.mem_singleton_self _, by
        rw [hform, allowedCanonical_absolutePath]
        exact startsWith_self _⟩)
  obtain ⟨q, hq, hinside⟩ := hadmitted
  rw [List.mem_singleton.mp hq, denote_absolutePath,
    denote_split w p front tail ancestor hnearest.split hancestor] at hinside
  have hlength := hinside.length_le
  rw [List.length_append] at hlength
  obtain ⟨before, after, rfl, hbefore⟩ := List.eq_append_cons_of_mem hmem
  have hlt := foldl_length_lt before after ancestor hbefore
    (root_not_nearest w p front before after ancestor hcanonical hnearest hancestor hbefore)
  omega

/-- A path without an ancestor is admitted below whatever it begins with. -/
theorem prefix_of_sound (hcanonical : canonicalize w p = none)
    (hadrift : ∀ front tail, components p = front ++ tail → tail ≠ [] →
      canonicalize w ⟨p.absolute, front⟩ = none)
    (hsound : ∀ allowedPaths, allowedPaths ≠ [] → (∀ q ∈ allowedPaths, q.isEmpty = false) →
      checkPath w allowedPaths p = .ok () → ∃ q ∈ allowedPaths, denote w q <+: denote w p)
    (front tail : List Piece) (hsplit : components p = front ++ tail) (hfront : front ≠ []) :
    denote w ⟨p.absolute, front⟩ <+: denote w p := by
  have hmissing : canonicalize w ⟨p.absolute, front⟩ = none := by
    by_cases htail : tail = []
    · rw [htail, List.append_nil] at hsplit
      rw [← hsplit, canonicalize_components]
      exact hcanonical
    · exact hadrift front tail hsplit htail
  have hform : canonicalizeBestEffort w p = p := by
    rcases canonicalizeBestEffort_cases w p with ⟨hfound, -⟩ |
      ⟨-, front', tail', ancestor', hnearest', -, -⟩ | ⟨-, -, hform⟩
    · rw [hcanonical] at hfound
      cases hfound
    · have hexists := hnearest'.exists_front
      rw [hadrift front' tail' hnearest'.split hnearest'.missing] at hexists
      cases hexists
    · exact hform
  have hstarts : startsWith (canonicalizeBestEffort w p)
      (allowedCanonical w ⟨p.absolute, front⟩) = true := by
    rw [hform, allowedCanonical, hmissing]
    unfold startsWith
    rw [Bool.and_eq_true, List.isPrefixOf_iff_prefix, components_front p front tail hsplit, hsplit]
    exact ⟨by simp, List.prefix_append front tail⟩
  have hempty : (⟨p.absolute, front⟩ : Path).isEmpty = false := by
    cases front with
    | nil => exact absurd rfl hfront
    | cons c rest => simp [Path.isEmpty]
  obtain ⟨q, hq, hinside⟩ := hsound [⟨p.absolute, front⟩] (List.cons_ne_nil _ _)
    (fun q hq => by rw [List.mem_singleton.mp hq]; exact hempty)
    ((checkPath_ok w _ p (List.cons_ne_nil _ _)).mpr ⟨_, List.mem_singleton_self _, hstarts⟩)
  rw [List.mem_singleton.mp hq] at hinside
  exact hinside

/-- The empty path as an allowed directory admits everything. -/
theorem checkPath_of_empty (allowedPaths : List Path) (p q : Path) (hq : q ∈ allowedPaths)
    (hempty : q.isEmpty = true) : checkPath w allowedPaths p = .ok () := by
  obtain ⟨absolute, pieces⟩ := q
  simp only [Path.isEmpty, Bool.and_eq_true, Bool.not_eq_true', List.isEmpty_iff] at hempty
  obtain ⟨rfl, rfl⟩ := hempty
  refine (checkPath_ok w allowedPaths p (List.ne_nil_of_mem hq)).mpr ⟨_, hq, ?_⟩
  simp [allowedCanonical, canonicalize, startsWith, components]

theorem checkPath_contained_iff (w : World) (p : Path) :
    ((∀ allowedPaths, allowedPaths ≠ [] → (∀ q ∈ allowedPaths, q.isEmpty = false) →
        checkPath w allowedPaths p = .ok () → ∃ q ∈ allowedPaths, denote w q <+: denote w p) ↔
      Contained w p) ∧
      ∀ allowedPaths, ∀ q ∈ allowedPaths, q.isEmpty = true →
        checkPath w allowedPaths p = .ok () := by
  refine ⟨⟨fun hsound => ⟨fun hcanonical front tail hnearest => ?_, fun hcanonical hadrift => ?_⟩,
    fun hp => checkPath_contained w p hp⟩, fun allowedPaths q => checkPath_of_empty w _ p q⟩
  · exact not_parentDir_of_sound w p front tail hcanonical hnearest hsound
  · exact prefix_of_sound w p hcanonical hadrift hsound

/-- A machine with nothing but one project directory. -/
def projectNode (loc : List String) : Option Kind :=
  if loc = [] ∨ loc = ["proj"] then some .dir else none

theorem projectNode_below (dir : List String) (name : String)
    (h : (projectNode (dir ++ [name])).isSome) : projectNode dir = some .dir := by
  unfold projectNode at h ⊢
  split at h
  next hloc =>
    rcases hloc with hloc | hloc
    · exact absurd (List.append_eq_nil_iff.mp hloc).2 (List.cons_ne_nil _ _)
    · have happend : dir ++ [name] = [] ++ ["proj"] := hloc
      have hdir : dir = [] := (List.append_inj' happend rfl).1
      rw [hdir]
      rfl
  next => cases h

def projectWorld : World := ⟨projectNode, rfl, projectNode_below, [], rfl⟩

/-- A path through a directory that is not there yet, and up again. -/
def escaping : Path :=
  ⟨true, [.normal "proj", .normal "missing", .parentDir, .parentDir, .normal "etc"]⟩

theorem escaping_admitted :
    checkPath projectWorld [absolutePath ["proj"]] escaping = .ok () ∧
      denote projectWorld escaping = ["etc"] ∧
      ¬∃ q ∈ [absolutePath ["proj"]], denote projectWorld q <+: denote projectWorld escaping := by
  decide

end Sandbox

end DccMcp
