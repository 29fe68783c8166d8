import Mathlib.Algebra.Group.Nat.Defs
import Mathlib.Data.List.Basic

/-!
# Blocks

Cutting a list into blocks of one size, and numbers as blocks of bytes.

`chunks` cuts from the front, so only the last block can be shorter. The
recursion is over a bound on the length, and `chunks_of_ne_nil` is the
equation without the bound.

## Main definitions

* `chunks`: The blocks of a list.
* `littleEndian`, `ofLittleEndian`: Numbers as bytes, the lowest first.
* `overwrite`: A list with a part replaced.

## Theorems

* `flatten_chunks`, `getElem?_chunks`: The blocks make up the list.
* `length_chunk`: How long the blocks are.
* `ofLittleEndian_littleEndian`: A number that fits is read back.
* `take_drop_overwrite`, `take_overwrite`: What is read after a part has been
  replaced.
-/

namespace DccMcp

namespace Blocks

variable {α : Type}

/-! ## Cutting a list -/

/-- The blocks of a list that is not longer than the first argument. -/
def chunksWithin : Nat → Nat → List α → List (List α)
  | 0, _, _ => []
  | bound + 1, size, l =>
    match l with
    | [] => []
    | _ :: _ => l.take size :: chunksWithin bound size (l.drop size)

/-- The blocks of a list. All but the last have the given size. -/
def chunks (size : Nat) (l : List α) : List (List α) := chunksWithin l.length size l

theorem chunksWithin_eq (bound bound' size : Nat) (l : List α) (hsize : 0 < size)
    (h : l.length ≤ bound) (h' : l.length ≤ bound') :
    chunksWithin bound size l = chunksWithin bound' size l := by
  induction bound generalizing bound' l with
  | zero =>
      rw [List.length_eq_zero_iff.mp (Nat.le_zero.mp h)]
      cases bound' <;> rfl
  | succ bound ih =>
      cases l with
      | nil => cases bound' <;> rfl
      | cons first rest =>
          cases bound' with
          | zero => exact absurd h' (Nat.not_succ_le_zero _)
          | succ bound' =>
              simp only [List.length_cons] at h h'
              have hdrop : ((first :: rest).drop size).length ≤ rest.length := by
                rw [List.length_drop, List.length_cons]
                omega
              simp only [chunksWithin]
              rw [ih bound' _ (by omega) (by omega)]

variable (size : Nat) (l : List α)

@[simp]
theorem chunks_nil : chunks size ([] : List α) = [] := rfl

theorem chunks_of_ne_nil (hsize : 0 < size) (h : l ≠ []) :
    chunks size l = l.take size :: chunks size (l.drop size) := by
  cases l with
  | nil => exact absurd rfl h
  | cons first rest =>
      have hdrop : ((first :: rest).drop size).length ≤ rest.length := by
        rw [List.length_drop, List.length_cons]
        omega
      unfold chunks
      rw [List.length_cons, chunksWithin]
      rw [chunksWithin_eq rest.length _ size _ hsize hdrop (Nat.le_refl _)]

/-- A property of the blocks of all lists, by cutting off one block at a
    time. -/
theorem chunks_induction (hsize : 0 < size) (P : List α → Prop) (hnil : P [])
    (hcut : ∀ l, l ≠ [] → P (l.drop size) → P l) (l : List α) : P l := by
  have hall : ∀ (n : Nat) (l : List α), l.length ≤ n → P l := by
    intro n
    induction n with
    | zero =>
        intro l hl
        rw [List.length_eq_zero_iff.mp (Nat.le_zero.mp hl)]
        exact hnil
    | succ n ih =>
        intro l hl
        cases l with
        | nil => exact hnil
        | cons first rest =>
            refine hcut _ (List.cons_ne_nil _ _) (ih _ ?_)
            rw [List.length_drop]
            rw [List.length_cons] at hl ⊢
            omega
  exact hall l.length l (Nat.le_refl _)

theorem flatten_chunks (hsize : 0 < size) : (chunks size l).flatten = l := by
  refine chunks_induction size hsize (fun l => (chunks size l).flatten = l) rfl ?_ l
  intro l hne ih
  rw [chunks_of_ne_nil size l hsize hne, List.flatten_cons, ih, List.take_append_drop]

/-- The blocks, counted from the front. -/
theorem getElem?_chunks (hsize : 0 < size) (i : Nat) (block : List α)
    (h : (chunks size l)[i]? = some block) :
    block = (l.drop (i * size)).take size ∧ i * size < l.length := by
  induction i generalizing l with
  | zero =>
      cases l with
      | nil => simp only [chunks_nil, List.getElem?_nil, reduceCtorEq] at h
      | cons first rest =>
          rw [chunks_of_ne_nil size _ hsize (List.cons_ne_nil _ _)] at h
          rw [Nat.zero_mul]
          exact ⟨(Option.some.inj h).symm, Nat.succ_pos _⟩
  | succ i ih =>
      cases l with
      | nil => simp only [chunks_nil, List.getElem?_nil, reduceCtorEq] at h
      | cons first rest =>
          rw [chunks_of_ne_nil size _ hsize (List.cons_ne_nil _ _)] at h
          rcases ih ((first :: rest).drop size) h with ⟨hblock, hlt⟩
          rw [List.drop_drop] at hblock
          rw [List.length_drop] at hlt
          rw [Nat.succ_mul, Nat.add_comm]
          exact ⟨hblock, by omega⟩

/-- A block that is followed by another one has the given size, and no block
    is empty or longer. -/
theorem length_chunk (hsize : 0 < size) (i : Nat) (block : List α)
    (h : (chunks size l)[i]? = some block) :
    block.length ≤ size ∧ block ≠ [] ∧ (i + 1 < (chunks size l).length → block.length = size) := by
  rcases getElem?_chunks size l hsize i block h with ⟨hblock, hlt⟩
  have hlength : block.length = min size (l.length - i * size) := by
    rw [hblock, List.length_take, List.length_drop]
  refine ⟨by omega, List.length_pos_iff.mp (by omega), fun hnext => ?_⟩
  have hget := List.getElem?_eq_getElem hnext
  have hnextlt := (getElem?_chunks size l hsize (i + 1) _ hget).2
  rw [Nat.succ_mul] at hnextlt
  omega

/-! ## Numbers -/

/-- A number in `w` bytes, the lowest first. -/
def littleEndian : Nat → Nat → List UInt8
  | 0, _ => []
  | w + 1, n => UInt8.ofNat n :: littleEndian w (n / 256)

def ofLittleEndian : List UInt8 → Nat
  | [] => 0
  | b :: rest => b.toNat + 256 * ofLittleEndian rest

@[simp]
theorem length_littleEndian (w n : Nat) : (littleEndian w n).length = w := by
  induction w generalizing n with
  | zero => rfl
  | succ w ih => rw [littleEndian, List.length_cons, ih]

/-- A number that fits is read back. -/
theorem ofLittleEndian_littleEndian (w n : Nat) (h : n < 256 ^ w) :
    ofLittleEndian (littleEndian w n) = n := by
  induction w generalizing n with
  | zero =>
      rw [Nat.pow_zero] at h
      rw [littleEndian, ofLittleEndian]
      omega
  | succ w ih =>
      rw [Nat.pow_succ] at h
      have hbyte : (UInt8.ofNat n).toNat = n % 256 := UInt8.toNat_ofNat'
      rw [littleEndian, ofLittleEndian, ih (n / 256) (by omega), hbyte]
      omega

/-! ## Replacing a part -/

/-- A list with the part from a position on replaced. -/
def overwrite (l : List α) (offset : Nat) (part : List α) : List α :=
  l.take offset ++ part ++ l.drop (offset + part.length)

theorem length_overwrite (offset : Nat) (part : List α) (h : offset + part.length ≤ l.length) :
    (overwrite l offset part).length = l.length := by
  unfold overwrite
  rw [List.length_append, List.length_append, List.length_take, List.length_drop]
  omega

/-- What is read where a part has been replaced. -/
theorem take_drop_overwrite (offset : Nat) (part : List α) (h : offset + part.length ≤ l.length) :
    ((overwrite l offset part).drop offset).take part.length = part := by
  have hfront : (l.take offset).length = offset := by
    rw [List.length_take]
    omega
  unfold overwrite
  rw [List.append_assoc, List.drop_append_of_le_length (by omega),
    List.drop_of_length_le (by omega), List.nil_append,
    List.take_append_of_le_length (Nat.le_refl _), List.take_length]

/-- What is read in front of a part that has been replaced. -/
theorem take_overwrite (offset n : Nat) (part : List α) (h : offset + part.length ≤ l.length)
    (hn : n ≤ offset) :
    (overwrite l offset part).take n = l.take n := by
  have hfront : (l.take offset).length = offset := by
    rw [List.length_take]
    omega
  unfold overwrite
  rw [List.append_assoc, List.take_append_of_le_length (by omega), List.take_take,
    Nat.min_eq_left hn]

end Blocks

end DccMcp
