import Mathlib.Data.List.Basic

/-!
# Cancellation Tokens

A tree of cooperative cancellation signals, as a parameter.

The token type the modelled programs use lives outside their sources, so it
is not defined here but described: a forest of tokens that live in shared
memory, with the operations a caller has and what their documentation
promises. A child token is cancelled when its parent is, and cancelling it
says nothing about the parent. Everything proved over a `CancellationTokens`
holds for every implementation that keeps these promises.

`lineageTokens` is one such implementation, which also shows that the
promises can be kept: a token is the list of its ancestors, itself first, and
it is cancelled when one of them was.

## Main definitions

* `CancellationTokens`: Tokens, their forest, and what is promised.
* `lineageTokens`: The implementation by lists of ancestors.
-/

namespace DccMcp

/-- Cancellation tokens. `Live` says that a token was handed out, and
    `Below f t u` that `u` is `t` or was derived from it. -/
structure CancellationTokens where
  Token : Type
  Forest : Type
  empty : Forest
  new : Forest → Token × Forest
  childToken : Forest → Token → Token × Forest
  cancel : Forest → Token → Forest
  isCancelled : Forest → Token → Bool
  Live : Forest → Token → Prop
  Below : Forest → Token → Token → Prop
  live_new : ∀ f, Live (new f).2 (new f).1
  live_new_old : ∀ f t, Live f t → Live (new f).2 t
  isCancelled_new : ∀ f, isCancelled (new f).2 (new f).1 = false
  isCancelled_new_old : ∀ f t, Live f t → isCancelled (new f).2 t = isCancelled f t
  below_new : ∀ f t, Live f t → ¬ Below (new f).2 t (new f).1
  below_new_above : ∀ f t, Live f t → ¬ Below (new f).2 (new f).1 t
  below_new_old : ∀ f t u, Live f t → Live f u → (Below (new f).2 t u ↔ Below f t u)
  live_child : ∀ f p, Live f p → Live (childToken f p).2 (childToken f p).1
  live_child_old : ∀ f p t, Live f t → Live (childToken f p).2 t
  isCancelled_child : ∀ f p, Live f p →
    isCancelled (childToken f p).2 (childToken f p).1 = isCancelled f p
  isCancelled_child_old : ∀ f p t, Live f t → isCancelled (childToken f p).2 t = isCancelled f t
  below_child : ∀ f p t, Live f p → Live f t →
    (Below (childToken f p).2 t (childToken f p).1 ↔ Below f t p)
  below_child_above : ∀ f p t, Live f t → ¬ Below (childToken f p).2 (childToken f p).1 t
  below_child_old : ∀ f p t u, Live f t → Live f u →
    (Below (childToken f p).2 t u ↔ Below f t u)
  live_cancel : ∀ f c t, Live f t → Live (cancel f c) t
  below_cancel : ∀ f c t u, Below (cancel f c) t u ↔ Below f t u
  isCancelled_cancel : ∀ f c t, Live f c → Live f t →
    (isCancelled (cancel f c) t = true ↔ isCancelled f t = true ∨ Below f c t)
  below_refl : ∀ f t, Live f t → Below f t t

namespace CancellationTokens

/-- The forest of `lineageTokens`: the next unused node, and the nodes whose
    cancellation was requested, all of them used. -/
structure LineageForest where
  next : Nat
  requested : List Nat
  bounded : ∀ n ∈ requested, n < next

namespace LineageForest

/-- Using up one more node. -/
def grow (f : LineageForest) : LineageForest where
  next := f.next + 1
  requested := f.requested
  bounded n hn := Nat.lt_succ_of_lt (f.bounded n hn)

/-- Requesting the cancellation of a token's own node. -/
def request (f : LineageForest) (t : List Nat) : LineageForest where
  next := f.next
  requested := t.head?.toList.filter (fun n => n < f.next) ++ f.requested
  bounded n hn := by
    rcases List.mem_append.mp hn with hn | hn
    · exact of_decide_eq_true (List.mem_filter.mp hn).2
    · exact f.bounded n hn

/-- A token of this forest: it has a node, and all its nodes are used. -/
def Holds (f : LineageForest) (t : List Nat) : Prop :=
  t ≠ [] ∧ ∀ n ∈ t, n < f.next

/-- One of the nodes of the token was cancelled. -/
def cancelled (f : LineageForest) (t : List Nat) : Bool := t.any (fun n => n ∈ f.requested)

/-- The second token has the own node of the first among its nodes. -/
def Derived (t u : List Nat) : Prop := ∃ n, t.head? = some n ∧ n ∈ u

variable (f : LineageForest)

theorem next_not_mem (t : List Nat) (ht : f.Holds t) : f.next ∉ t :=
  fun hmem => Nat.lt_irrefl _ (ht.2 _ hmem)

theorem next_not_mem_requested : f.next ∉ f.requested :=
  fun hmem => Nat.lt_irrefl _ (f.bounded _ hmem)

theorem holds_grow (t : List Nat) (ht : f.Holds t) : f.grow.Holds t :=
  ⟨ht.1, fun n hn => Nat.lt_succ_of_lt (ht.2 n hn)⟩

theorem head_of_holds (t : List Nat) (ht : f.Holds t) :
    ∃ n, t.head? = some n ∧ n ∈ t ∧ n < f.next := by
  cases t with
  | nil => exact absurd rfl ht.1
  | cons n t => exact ⟨n, rfl, List.mem_cons_self, ht.2 n List.mem_cons_self⟩

/-- A new node is cancelled only through the ancestors put behind it. -/
theorem cancelled_cons_next (p : List Nat) : f.grow.cancelled (f.next :: p) = f.cancelled p := by
  have hnext : decide (f.next ∈ f.grow.requested) = false :=
    decide_eq_false f.next_not_mem_requested
  rw [cancelled, List.any_cons, hnext, Bool.false_or]
  rfl

/-- An old token stands above a new one exactly if it stands above the
    ancestors put behind the new node. -/
theorem derived_cons_next (p t : List Nat) (ht : f.Holds t) :
    Derived t (f.next :: p) ↔ Derived t p := by
  rcases f.head_of_holds t ht with ⟨n, hhead, _, hlt⟩
  simp only [Derived, hhead, Option.some.injEq, exists_eq_left', List.mem_cons]
  exact ⟨fun h => h.resolve_left (Nat.ne_of_lt hlt), .inr⟩

/-- A new token stands above no old one. -/
theorem not_derived_next (p t : List Nat) (ht : f.Holds t) : ¬ Derived (f.next :: p) t := by
  rintro ⟨n, hhead, hmem⟩
  simp only [List.head?_cons, Option.some.injEq] at hhead
  exact f.next_not_mem t ht (hhead ▸ hmem)

theorem cancelled_request (f : LineageForest) (c t : List Nat) (hc : f.Holds c) :
    (f.request c).cancelled t = true ↔ f.cancelled t = true ∨ Derived c t := by
  rcases f.head_of_holds c hc with ⟨n, hhead, _, hlt⟩
  simp only [cancelled, request, hhead, Option.toList_some, List.filter_cons,
    decide_eq_true hlt, if_true, List.filter_nil, List.any_eq_true, decide_eq_true_eq, Derived,
    List.mem_append, List.mem_singleton, Option.some.injEq, exists_eq_left']
  constructor
  · rintro ⟨k, hk, rfl | hreq⟩
    · exact .inr hk
    · exact .inl ⟨k, hk, hreq⟩
  · rintro (⟨k, hk, hreq⟩ | hmem)
    · exact ⟨k, hk, .inr hreq⟩
    · exact ⟨n, hmem, .inl rfl⟩

end LineageForest

open LineageForest in
/-- Tokens as lists of nodes, the token's own node first and its ancestors
    behind it. -/
def lineageTokens : CancellationTokens where
  Token := List Nat
  Forest := LineageForest
  empty := ⟨0, [], by simp⟩
  new f := ([f.next], f.grow)
  childToken f p := (f.next :: p, f.grow)
  cancel f t := f.request t
  isCancelled f t := f.cancelled t
  Live f t := f.Holds t
  Below _ t u := Derived t u
  live_new f := ⟨by simp,
    fun n hn => by rw [List.mem_singleton.mp hn]; exact Nat.lt_succ_self _⟩
  live_new_old f t ht := f.holds_grow t ht
  isCancelled_new f := f.cancelled_cons_next []
  isCancelled_new_old _ _ _ := rfl
  below_new f t ht h := by
    rcases (f.derived_cons_next [] t ht).mp h with ⟨_, _, hmem⟩
    exact absurd hmem List.not_mem_nil
  below_new_above f t ht := f.not_derived_next [] t ht
  below_new_old _ _ _ _ _ := Iff.rfl
  live_child f p hp := by
    refine ⟨by simp, fun n hn => ?_⟩
    rcases List.mem_cons.mp hn with rfl | hn
    · exact Nat.lt_succ_self _
    · exact Nat.lt_succ_of_lt (hp.2 n hn)
  live_child_old f _ t ht := f.holds_grow t ht
  isCancelled_child f p _ := f.cancelled_cons_next p
  isCancelled_child_old _ _ _ _ := rfl
  below_child f p t _ ht := f.derived_cons_next p t ht
  below_child_above f p t ht := f.not_derived_next p t ht
  below_child_old _ _ _ _ _ _ := Iff.rfl
  live_cancel _ _ _ ht := ht
  below_cancel _ _ _ _ := Iff.rfl
  isCancelled_cancel f c t hc _ := f.cancelled_request c t hc
  below_refl f t ht := by
    rcases f.head_of_holds t ht with ⟨n, hhead, hmem, _⟩
    exact ⟨n, hhead, hmem⟩

end CancellationTokens

end DccMcp
