import DccMcp.Lib.Process
import Mathlib.Algebra.Order.BigOperators.Group.Finset
import Mathlib.Data.Fintype.BigOperators

/-!
# Tokens of Threads

Counting what the threads of a process hold between them.

A lock that is held, a binding that still has to be dropped, a step that was
entered and is not yet counted: each is a token that one action gives to the
thread that takes it and another action takes away. Rules say which action
does what, and which tokens a thread may be left with at its end. Whether a
process keeps to the rules is read off the tree, before anything runs.

Threads that are forked do not get the tokens of the thread that forks them,
but these are there as long as the threads run. So there are two numbers to a
thread: the tokens of its own, and those of the threads outside of it. A third
one says how many threads are outside. What the branches are left with goes to
the thread that waits for them.

The tokens of a whole process are one number, and `holds_step` says how a step
changes it. An invariant that compares this number with the shared state is
then an invariant of all interleavings.

## Main definitions

* `TokenRules`: What actions do to the tokens of a thread.
* `Holds`: A process that keeps to the rules from some tokens on.
* `Block.Triple`: What a program does to the tokens, by its result.

## Theorems

* `holds_step`, `holds_join`, `holds_act`: A step moves the tokens of one
  thread.
* `Block.triple_bind`, `Block.triple_act`, `Block.triple_par`: Reading a triple
  off a program.
-/

namespace DccMcp

namespace Process

variable {A : Type} {B : A → Type} {β : Type}

/-- What an action does to the tokens of the thread that takes it, next to
    those outside of the thread, and what a thread may end with. -/
structure TokenRules (A β : Type) where
  moves : (depth outer : Nat) → A → (before after : Nat) → Prop
  ends : β → Nat → Prop

/-- A process that keeps to the rules, with `own` tokens of its own, and
    `outer` tokens in the `depth` threads outside. -/
def Holds (l : TokenRules A β) : Process A B β → Nat → Nat → Nat → Prop
  | .done r, _, _, own => l.ends r own
  | .act a k, depth, outer, own =>
    ∃ own', l.moves depth outer a own own' ∧ ∀ b, Holds l (k b) depth outer own'
  | .par n branches k, depth, outer, own =>
    ∃ (fork : Nat) (holds : Fin n → Nat), own = fork + ∑ i, holds i ∧
      (∀ i, Holds l (branches i) (depth + 1) (outer + fork) (holds i)) ∧
      ∀ (rs : Fin n → β) (left : Fin n → Nat), (∀ i, l.ends (rs i) (left i)) →
        Holds l (k rs) depth outer (fork + ∑ i, left i)

/-- One entry of a sum is replaced. -/
theorem sum_update_add {n : Nat} (f : Fin n → Nat) (i : Fin n) (x : Nat) :
    (∑ j, Function.update f i x j) + f i = (∑ j, f j) + x := by
  have hsame := Function.update_eq_self i f
  have hold := Finset.sum_update_of_mem (Finset.mem_univ i) f (f i)
  have hnew := Finset.sum_update_of_mem (Finset.mem_univ i) f x
  rw [hsame] at hold
  omega

/-- A step moves the tokens of the thread that takes it, and the tokens of the
    others stay. A thread without others outside has all of them. -/
theorem holds_step {σ ω : Type} (sem : (a : A) → ω → σ → Option (B a × σ)) (l : TokenRules A β)
    (p p' : Process A B β) (s s' : σ) (label : Option (A × ω)) (hstep : Step sem p s label p' s')
    (depth outer own : Nat) (h : Holds l p depth outer own) :
    (label = none ∧ Holds l p' depth outer own) ∨
      ∃ a answer depth' outer' before after own', label = some (a, answer) ∧
        l.moves depth' outer' a before after ∧ depth ≤ depth' ∧ (depth' = depth → before = own) ∧
        outer' + before ≤ outer + own ∧ own' + before = own + after ∧
        Holds l p' depth outer own' := by
  induction hstep generalizing depth outer own with
  | act a k answer s s' b hsem =>
      rcases h with ⟨own', hmoves, hrest⟩
      exact .inr ⟨a, answer, depth, outer, own, own', own', rfl, hmoves, le_rfl, fun _ => rfl,
        le_rfl, Nat.add_comm own' own, hrest b⟩
  | join n branches k rs s hdone =>
      rcases h with ⟨fork, holds, hown, hbranches, hrest⟩
      refine .inl ⟨rfl, hown ▸ hrest rs holds (fun i => ?_)⟩
      have hi := hbranches i
      rw [hdone i] at hi
      exact hi
  | branch n branches k i label q s s' _ ih =>
      rcases h with ⟨fork, holds, hown, hbranches, hrest⟩
      -- The branch has its new number, and all others have what they had.
      have hothers : ∀ x, Holds l q (depth + 1) (outer + fork) x → ∀ j,
          Holds l (Function.update branches i q j) (depth + 1) (outer + fork)
            (Function.update holds i x j) := by
        intro x hq j
        by_cases hj : j = i
        · subst hj
          rw [Function.update_self, Function.update_self]
          exact hq
        · rw [Function.update_of_ne hj, Function.update_of_ne hj]
          exact hbranches j
      rcases ih (depth + 1) (outer + fork) (holds i) (hbranches i) with ⟨hlabel, hq⟩ |
        ⟨a, answer, depth', outer', before, after, x, hlabel, hmoves, hdepth, _, hle, hsum, hq⟩
      · refine .inl ⟨hlabel, fork, holds, hown, fun j => ?_, hrest⟩
        have hj := hothers (holds i) hq j
        rw [Function.update_eq_self] at hj
        exact hj
      · have hi : holds i ≤ ∑ j, holds j :=
          Finset.single_le_sum (fun j _ => Nat.zero_le (holds j)) (Finset.mem_univ i)
        have hupdate := sum_update_add holds i x
        refine .inr ⟨a, answer, depth', outer', before, after,
          fork + ∑ j, Function.update holds i x j, hlabel, hmoves, by omega, by omega, by omega,
          by omega, ?_⟩
        exact ⟨fork, Function.update holds i x, rfl, hothers x hq, hrest⟩

/-- A join leaves the tokens. -/
theorem holds_join {σ ω : Type} (sem : (a : A) → ω → σ → Option (B a × σ)) (l : TokenRules A β)
    (p p' : Process A B β) (s s' : σ) (hstep : Step sem p s none p' s') (depth outer own : Nat)
    (h : Holds l p depth outer own) : Holds l p' depth outer own := by
  rcases holds_step sem l p p' s s' none hstep depth outer own h with ⟨_, hp'⟩ |
    ⟨_, _, _, _, _, _, _, hlabel, _⟩
  · exact hp'
  · simp at hlabel

/-- An action moves the tokens of the thread that takes it. -/
theorem holds_act {σ ω : Type} (sem : (a : A) → ω → σ → Option (B a × σ)) (l : TokenRules A β)
    (p p' : Process A B β) (s s' : σ) (a : A) (answer : ω)
    (hstep : Step sem p s (some (a, answer)) p' s') (depth outer own : Nat)
    (h : Holds l p depth outer own) :
    ∃ depth' outer' before after own', l.moves depth' outer' a before after ∧
      (depth' = depth → before = own) ∧ outer' + before ≤ outer + own ∧
      own' + before = own + after ∧ Holds l p' depth outer own' := by
  rcases holds_step sem l p p' s s' _ hstep depth outer own h with ⟨hlabel, _⟩ |
    ⟨a', _, depth', outer', before, after, own', hlabel, hmoves, _, hroot, hle, hsum, hp'⟩
  · simp at hlabel
  · obtain rfl := (Prod.mk.inj (Option.some.inj hlabel)).1
    exact ⟨depth', outer', before, after, own', hmoves, hroot, hle, hsum, hp'⟩

namespace Block

variable {ρ τ : Type} (l : TokenRules A β)

/-- A program that starts with `before` tokens ends, with each result, with a
    number of tokens that the result may come with. -/
def Triple (before : Nat) (after : ρ → Nat → Prop) (m : Block A B β ρ) : Prop :=
  ∀ k depth outer own, (∀ r n, after r n → Holds l (k r) depth outer (own + n)) →
    Holds l (m k) depth outer (own + before)

theorem triple_pure (before : Nat) (after : ρ → Nat → Prop) (r : ρ) (h : after r before) :
    Triple l before after (pure r : Block A B β ρ) :=
  fun _ _ _ _ hk => hk r before h

theorem triple_bind (before : Nat) (mid : ρ → Nat → Prop) (after : τ → Nat → Prop)
    (m : Block A B β ρ) (f : ρ → Block A B β τ) (hm : Triple l before mid m)
    (hf : ∀ r n, mid r n → Triple l n after (f r)) : Triple l before after (m >>= f) :=
  fun k depth outer own hk =>
    hm _ depth outer own (fun r n hmid => hf r n hmid k depth outer own hk)

theorem triple_weaken (before : Nat) (after after' : ρ → Nat → Prop) (m : Block A B β ρ)
    (h : ∀ r n, after r n → after' r n) (hm : Triple l before after m) :
    Triple l before after' m :=
  fun k depth outer own hk => hm k depth outer own (fun r n hn => hk r n (h r n hn))

theorem triple_act (before n : Nat) (a : A)
    (h : ∀ depth outer own, l.moves depth outer a (own + before) (own + n)) :
    Triple l before (fun _ n' => n' = n) (act a : Block A B β (B a)) :=
  fun _ depth outer own hk => ⟨own + n, h depth outer own, fun b => hk b n rfl⟩

/-- The branches start without tokens. What they are left with is there when
    all of them are done. -/
theorem triple_par (before : Nat) (branches : List (Block A B β β))
    (h : ∀ m ∈ branches, Triple l 0 l.ends m) :
    Triple l before (fun rs n => ∃ left : Fin branches.length → Nat,
        ∃ rs' : Fin branches.length → β, rs = List.ofFn rs' ∧ (∀ i, l.ends (rs' i) (left i)) ∧
          n = before + ∑ i, left i)
      (par branches) := by
  intro k depth outer own hk
  refine ⟨own + before, fun _ => 0, ?_, fun i => ?_, fun rs left hleft => ?_⟩
  · rw [Finset.sum_const_zero, Nat.add_zero]
  · refine h _ (List.getElem_mem i.isLt) .done (depth + 1) (outer + (own + before)) 0
      (fun r n hn => ?_)
    rw [Nat.zero_add]
    exact hn
  · rw [Nat.add_assoc]
    exact hk _ _ ⟨left, rs, rfl, hleft, rfl⟩

end Block

end Process

end DccMcp
