import Mathlib.Data.List.Infix

/-!
# Sliding Windows

How many of a list of times lie within an interval of a fixed length, wherever
the interval starts.

A rate limit says that these are at most so many. When the times come in order
there is no need to look at every interval: only one that ends at the newest
time can have become too full, so the limit is a condition on each time as it
comes, about how many of those before it are recent. `bounded_snoc` is this
step, and the way from a decision that is taken call by call to the bound on
every interval.

## Main definitions

* `within`: How many times lie in the interval that starts at a time.
* `Bounded`: No interval has more than so many.
* `recent`: How many times are less than a length old.

## Theorems

* `bounded_snoc`: A bound after one more time.
* `Bounded.of_append`: A bound for a list is one for the list so far.
-/

namespace DccMcp

namespace Sliding

/-- The times in the half-open interval of this length from a start. -/
def within (length start : Nat) (times : List Nat) : Nat :=
  times.countP (fun t => decide (start ≤ t ∧ t < start + length))

/-- Every interval of this length has at most so many of the times. -/
def Bounded (length limit : Nat) (times : List Nat) : Prop :=
  ∀ start, within length start times ≤ limit

/-- The times that are less than a length old at a time. -/
def recent (length now : Nat) (times : List Nat) : Nat :=
  times.countP (fun t => decide (now < t + length))

theorem within_append (length start : Nat) (times times' : List Nat) :
    within length start (times ++ times') =
      within length start times + within length start times' :=
  List.countP_append

theorem recent_append (length now : Nat) (times times' : List Nat) :
    recent length now (times ++ times') = recent length now times + recent length now times' :=
  List.countP_append

/-- Times that are all old. -/
theorem recent_eq_zero (length now : Nat) (times : List Nat)
    (h : ∀ t ∈ times, t + length ≤ now) : recent length now times = 0 := by
  unfold recent
  rw [List.countP_eq_zero]
  intro t ht
  rw [decide_eq_true_eq]
  have := h t ht
  omega

/-- Times that are all new. -/
theorem recent_eq_length (length now : Nat) (times : List Nat)
    (h : ∀ t ∈ times, now < t + length) : recent length now times = times.length := by
  unfold recent
  rw [List.countP_eq_length]
  intro t ht
  exact decide_eq_true (h t ht)

theorem Bounded.of_append (length limit : Nat) (times times' : List Nat)
    (h : Bounded length limit (times ++ times')) : Bounded length limit times := by
  intro start
  have := h start
  rw [within_append] at this
  omega

/-- After one more time that is not before the others, only the interval that ends at
    it has to be looked at. -/
theorem bounded_snoc (length limit now : Nat) (times : List Nat) (hpos : 0 < length)
    (hle : ∀ t ∈ times, t ≤ now) :
    Bounded length limit (times ++ [now]) ↔
      Bounded length limit times ∧ recent length now times + 1 ≤ limit := by
  have hself : ∀ start, within length start [now] =
      if start ≤ now ∧ now < start + length then 1 else 0 := by
    intro start
    unfold within
    rw [List.countP_singleton]
    simp
  constructor
  · intro h
    refine ⟨h.of_append, ?_⟩
    -- The times in question are those of the interval that has just ended.
    have hlast := h (now + 1 - length)
    have hsame : recent length now times = within length (now + 1 - length) times := by
      unfold recent within
      refine List.countP_congr (fun t ht => ?_)
      have := hle t ht
      simp only [decide_eq_true_eq]
      omega
    rw [within_append, hself, if_pos (by omega), ← hsame] at hlast
    exact hlast
  · rintro ⟨h, hrecent⟩ start
    rw [within_append, hself]
    split
    next hin =>
      have hsub : within length start times ≤ recent length now times := by
        unfold recent within
        refine List.countP_mono_left (fun t _ ht => ?_)
        simp only [decide_eq_true_eq] at ht ⊢
        omega
      omega
    next => exact h start

end Sliding

end DccMcp
