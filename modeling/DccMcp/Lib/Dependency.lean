import Mathlib.Data.List.Chain
import Mathlib.Order.WellFounded
import Mathlib.Data.Set.Finite.Basic

/-!
# Dependency Orders

A relation says what each element depends on, and an order of the elements
respects it when everything an element depends on stands before it.

Two facts connect orders and cycles. An order of everything that depends on
something leaves no room for a cycle, because positions decrease along a
dependency. And a finite set in which each element depends on another one of
the set has a cycle, which is how an algorithm that got stuck knows of one
it has not seen.

## Main definitions

* `Ordered`: Everything an element depends on stands before it.
* `Acyclic`: No element depends on itself, directly or not.
* `IsCycle`: A closed walk along the dependencies.

## Theorems

* `IsCycle.not_acyclic`: On a cycle everything depends on itself.
* `ordered_snoc`: Putting an element behind all it depends on.
* `ordered_induction`: Induction along an order.
* `acyclic_of_ordered`: What can be ordered has no cycle.
* `not_acyclic_of_closed`: A finite set without a first element has one.
-/

namespace DccMcp

namespace Dependency

variable {α : Type}

/-- Everything an element of the list depends on stands before it. -/
def Ordered (R : α → α → Prop) (l : List α) : Prop :=
  ∀ front a back, l = front ++ a :: back → ∀ b, R a b → b ∈ front

/-- No element depends on itself, directly or not. -/
def Acyclic (R : α → α → Prop) : Prop := ∀ a, ¬ Relation.TransGen R a a

/-- A walk along the dependencies that ends where it starts. -/
structure IsCycle (R : α → α → Prop) (walk : List α) : Prop where
  chain : walk.IsChain R
  closed : walk.head? = walk.getLast?
  two : 2 ≤ walk.length

/-- A cycle is one for every relation that a map of the elements leads to. -/
theorem IsCycle.map {β : Type} (R : α → α → Prop) (S : β → β → Prop) (f : α → β) (walk : List α)
    (hf : ∀ a b, R a b → S (f a) (f b)) (h : IsCycle R walk) : IsCycle S (walk.map f) where
  chain := List.isChain_map_of_isChain f hf h.chain
  closed := by rw [List.head?_map, List.getLast?_map, h.closed]
  two := by
    rw [List.length_map]
    exact h.two

variable (R : α → α → Prop)

/-- Along a walk the first element depends on each of the others. -/
theorem transGen_of_isChain (a : α) (rest : List α) (h : (a :: rest).IsChain R) (b : α)
    (hb : b ∈ rest) : Relation.TransGen R a b := by
  induction rest generalizing a with
  | nil => exact absurd hb List.not_mem_nil
  | cons next rest ih =>
      rw [List.isChain_cons_cons] at h
      rcases List.mem_cons.mp hb with rfl | hrest
      · exact .single h.1
      · exact (ih next h.2 hrest).head h.1

theorem IsCycle.not_acyclic (walk : List α) (h : IsCycle R walk) : ¬ Acyclic R := by
  intro hacyclic
  rcases walk with _ | ⟨a, _ | ⟨next, rest⟩⟩
  · exact absurd h.two (Nat.not_succ_le_zero 1)
  · exact absurd h.two (Nat.lt_irrefl 1)
  · -- The last element of the walk is the first one again.
    have hlast := h.closed
    rw [List.head?_cons, List.getLast?_cons_cons] at hlast
    exact hacyclic a (transGen_of_isChain R a (next :: rest) h.chain a
      (List.mem_of_getLast? hlast.symm))

theorem ordered_nil : Ordered R [] := by
  intro front a back h
  exact absurd h.symm (List.append_ne_nil_of_right_ne_nil front (List.cons_ne_nil a back))

/-- An element may be put behind all it depends on. -/
theorem ordered_snoc (l : List α) (a : α) (h : Ordered R l) (ha : ∀ b, R a b → b ∈ l) :
    Ordered R (l ++ [a]) := by
  -- The new element is the last one, or the split is inside of the old list.
  intro front c back hsplit b hb
  rcases List.append_eq_append_iff.mp hsplit with ⟨mid, rfl, hlast⟩ | ⟨mid, hl, hlast⟩
  · rcases mid with _ | ⟨first, mid⟩
    · rw [List.nil_append, List.cons.injEq] at hlast
      rw [← hlast.1] at hb
      rw [List.append_nil]
      exact ha b hb
    · have hlen := congrArg List.length hlast
      simp only [List.length_cons, List.length_append, List.length_nil] at hlen
      omega
  · rcases mid with _ | ⟨first, mid⟩
    · rw [List.nil_append, List.cons.injEq] at hlast
      rw [hlast.1] at hb
      rw [List.append_nil] at hl
      rw [← hl]
      exact ha b hb
    · rw [List.cons_append, List.cons.injEq] at hlast
      rw [← hlast.1] at hl
      exact h front c mid hl b hb

/-- What holds of an element as soon as it holds of all it depends on, holds of
    every element of an order. -/
theorem ordered_induction (l : List α) (h : Ordered R l) (P : α → Prop)
    (hstep : ∀ a ∈ l, (∀ b, R a b → P b) → P a) : ∀ a ∈ l, P a := by
  have hfront : ∀ n front a back, front.length = n → l = front ++ a :: back → P a := by
    intro n
    induction n using Nat.strong_induction_on with
    | _ n ih =>
        intro front a back hlength hsplit
        have hmem : a ∈ l := by
          rw [hsplit]
          exact List.mem_append_right front List.mem_cons_self
        refine hstep a hmem (fun b hab => ?_)
        -- What it depends on stands in front, so its own front is shorter.
        rcases List.append_of_mem (h front a back hsplit b hab) with ⟨first, rest, hfirst⟩
        refine ih first.length ?_ first b (rest ++ a :: back) rfl ?_
        · rw [← hlength, hfirst, List.length_append, List.length_cons]
          omega
        · rw [hsplit, hfirst, List.append_assoc, List.cons_append]
  intro a ha
  rcases List.append_of_mem ha with ⟨front, back, hsplit⟩
  exact hfront front.length front a back rfl hsplit

section Position

variable [DecidableEq α]

/-- Positions decrease along a dependency. -/
theorem idxOf_lt_of_ordered (l : List α) (h : Ordered R l) (a b : α) (ha : a ∈ l) (hab : R a b) :
    l.idxOf b < l.idxOf a := by
  rcases List.append_of_mem ha with ⟨front, back, rfl⟩
  -- Cut at the first occurrence, behind which nothing counts.
  by_cases hfront : a ∈ front
  · rcases List.eq_append_cons_of_mem hfront with ⟨first, rest, hsplit, hfirst⟩
    have hb : b ∈ first := h first a (rest ++ a :: back) (by rw [hsplit, List.append_assoc]; rfl) b hab
    rw [hsplit, List.append_assoc, List.idxOf_append_of_mem hb,
      List.idxOf_append_of_notMem hfirst, List.cons_append, List.idxOf_cons_self]
    exact List.idxOf_lt_length_of_mem hb
  · have hb : b ∈ front := h front a back rfl b hab
    rw [List.idxOf_append_of_mem hb, List.idxOf_append_of_notMem hfront, List.idxOf_cons_self]
    exact List.idxOf_lt_length_of_mem hb

/-- What can be ordered has no cycle. -/
theorem acyclic_of_ordered (l : List α) (h : Ordered R l) (hmem : ∀ a b, R a b → a ∈ l) :
    Acyclic R := by
  have hlt : ∀ a b, Relation.TransGen R a b → l.idxOf b < l.idxOf a := by
    intro a b hab
    induction hab with
    | single hstep => exact idxOf_lt_of_ordered R l h _ _ (hmem _ _ hstep) hstep
    | tail _ hstep ih => exact lt_trans (idxOf_lt_of_ordered R l h _ _ (hmem _ _ hstep) hstep) ih
  exact fun a ha => lt_irrefl _ (hlt a a ha)

end Position

/-- A finite set in which each element depends on another one of the set has a
    cycle. -/
theorem not_acyclic_of_closed (s : List α) (a : α) (ha : a ∈ s) (h : ∀ b ∈ s, ∃ c ∈ s, R b c) :
    ¬ Acyclic R := by
  intro hacyclic
  -- Without a cycle some element of the set is minimal.
  let below (b c : {b // b ∈ s}) : Prop := Relation.TransGen R c.1 b.1
  have : IsTrans {b // b ∈ s} below := ⟨fun _ _ _ hxy hyz => hyz.trans hxy⟩
  have : Std.Irrefl below := ⟨fun b hb => hacyclic b.1 hb⟩
  have : Finite {b // b ∈ s} := s.finite_toSet.to_subtype
  have hwf : WellFounded below := Finite.wellFounded_of_trans_of_irrefl below
  rcases hwf.has_min Set.univ ⟨⟨a, ha⟩, trivial⟩ with ⟨b, _, hmin⟩
  rcases h b.1 b.2 with ⟨c, hc, hbc⟩
  exact hmin ⟨c, hc⟩ trivial (.single hbc)

end Dependency

end DccMcp
