import Mathlib.Data.List.Basic

/-!
# Threads and Reader-Writer Locks

Threads as a list of the places they are at, and a lock as what some of these
places hold.

A machine with many threads moves one of them at a time. If the place a thread
is at says which guards it holds, no separate state of the lock is needed: the
lock is free when no thread is at a place that holds it. What has to be kept
is that the places of two threads never exclude one another, and
`exclusive_move` says which moves keep it: giving a guard back, taking a read
guard while nobody writes, and taking the write guard while the lock is free.

## Main definitions

* `Free`: No thread holds the lock.
* `Exclusive`: At most one thread writes, and then no thread reads.

## Theorems

* `countP_move`, `getElem?_move`: One thread moves.
* `exclusive_move`, `exclusive_append`: What keeps a lock exclusive.
* `not_reads_of_writes`: While a thread writes, no thread reads.
-/

namespace DccMcp

namespace Threads

variable {φ : Type}

/-- One thread moves, and the count of the places with a property changes by
    its share. -/
theorem countP_move (p : φ → Bool) (threads : List φ) (c : Nat) (old new : φ)
    (hold : threads[c]? = some old) :
    (threads.set c new).countP p + (p old).toNat = threads.countP p + (p new).toNat := by
  rcases List.getElem?_eq_some_iff.mp hold with ⟨hlt, hget⟩
  rw [List.countP_set hlt, hget]
  -- The old place was among those counted.
  have hle : (p old).toNat ≤ threads.countP p := by
    cases hp : p old with
    | false => exact Nat.zero_le _
    | true => exact List.countP_pos_iff.mpr ⟨old, List.mem_of_getElem? hold, hp⟩
  cases hold' : p old <;> cases hnew : p new <;>
    simp only [hold', Bool.toNat_false, Bool.toNat_true, if_true, Bool.false_eq_true, if_false]
      at hle ⊢ <;> omega

/-- The place of a thread after one of them has moved. -/
theorem getElem?_move (threads : List φ) (c c' : Nat) (new place : φ)
    (h : (threads.set c new)[c']? = some place) :
    (c' = c ∧ place = new) ∨ threads[c']? = some place := by
  rw [List.getElem?_set] at h
  split at h
  next hc =>
    split at h
    · exact .inl ⟨hc.symm, (Option.some.inj h).symm⟩
    · simp at h
  next => exact .inr h

/-- The place of a thread after a new one has come. -/
theorem getElem?_snoc (threads : List φ) (c : Nat) (new place : φ)
    (h : (threads ++ [new])[c]? = some place) :
    (c = threads.length ∧ place = new) ∨ threads[c]? = some place := by
  rw [List.getElem?_append] at h
  split at h
  next => exact .inr h
  next hlt =>
    rw [List.getElem?_singleton] at h
    split at h
    next hzero => exact .inl ⟨by omega, (Option.some.inj h).symm⟩
    next => simp at h

section RwLock

variable (reads writes : φ → Bool)

/-- No thread holds the lock. -/
def Free (threads : List φ) : Bool := threads.all (fun place => !reads place && !writes place)

/-- At most one thread writes, and then no thread reads. -/
def Exclusive (threads : List φ) : Prop :=
  threads.countP writes = 0 ∨ (threads.countP writes = 1 ∧ threads.countP reads = 0)

theorem countP_of_free (threads : List φ) (h : Free reads writes threads = true) :
    threads.countP reads = 0 ∧ threads.countP writes = 0 := by
  rw [List.countP_eq_zero, List.countP_eq_zero]
  unfold Free at h
  rw [List.all_eq_true] at h
  constructor
  · intro place hplace hreads
    have hboth := h place hplace
    rw [hreads] at hboth
    exact absurd hboth Bool.false_ne_true
  · intro place hplace hwrites
    have hboth := h place hplace
    rw [hwrites, Bool.not_true, Bool.and_false] at hboth
    exact absurd hboth Bool.false_ne_true

/-- A move keeps the lock exclusive if it takes no guard that it had not, but
    a read guard while nobody writes or the write guard while nobody holds
    one. -/
theorem exclusive_move (threads : List φ) (c : Nat) (old new : φ)
    (hold : threads[c]? = some old) (h : Exclusive reads writes threads)
    (hreads : reads new = true → reads old = true ∨ threads.countP writes = 0)
    (hwrites : writes new = true →
      reads new = false ∧ (writes old = true ∨ Free reads writes threads = true)) :
    Exclusive reads writes (threads.set c new) := by
  have hr := countP_move reads threads c old new hold
  have hw := countP_move writes threads c old new hold
  have hfree := countP_of_free reads writes threads
  have hwriter : writes old = true → 0 < threads.countP writes := fun hp =>
    List.countP_pos_iff.mpr ⟨old, List.mem_of_getElem? hold, hp⟩
  have hreader : reads old = true → 0 < threads.countP reads := fun hp =>
    List.countP_pos_iff.mpr ⟨old, List.mem_of_getElem? hold, hp⟩
  unfold Exclusive at h ⊢
  cases hrn : reads new <;> cases hwn : writes new <;> cases hro : reads old <;>
    cases hwo : writes old <;>
    simp only [hrn, hwn, hro, hwo, Bool.toNat_false, Bool.toNat_true, Bool.false_eq_true,
      Bool.true_eq_false, false_implies, true_implies, false_and, false_or, true_or, true_and,
      and_true]
      at hr hw hreads hwrites hwriter hreader <;>
    first
      | omega
      | (have hcounts := hfree hwrites; omega)

/-- A thread that comes without a guard keeps the lock exclusive. -/
theorem exclusive_append (threads : List φ) (new : φ) (h : Exclusive reads writes threads)
    (hreads : reads new = false) (hwrites : writes new = false) :
    Exclusive reads writes (threads ++ [new]) := by
  unfold Exclusive at h ⊢
  simp only [List.countP_append, List.countP_singleton, hreads, hwrites, Bool.false_eq_true,
    if_false, Nat.add_zero]
  exact h

/-- While a thread writes, no thread reads. -/
theorem not_reads_of_writes (threads : List φ) (h : Exclusive reads writes threads) (place : φ)
    (hplace : place ∈ threads) (hwrites : writes place = true) (other : φ)
    (hother : other ∈ threads) : reads other = false := by
  have hpos : 0 < threads.countP writes := List.countP_pos_iff.mpr ⟨place, hplace, hwrites⟩
  rcases h with hzero | ⟨_, hzero⟩
  · omega
  · rw [List.countP_eq_zero] at hzero
    exact Bool.eq_false_iff.mpr (hzero other hother)

end RwLock

end Threads

end DccMcp
