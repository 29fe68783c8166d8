import DccMcp.Lib.Machine
import Mathlib.Data.Fintype.Basic

/-!
# Processes that Fork and Join

Sequential programs with named atomic actions, and a way to run several of
them at once and wait for all.

A process is a tree: it is done, or it is about to take an action and has a
continuation for every answer, or it has forked and has a continuation for
the results of its branches. The tree says nothing about what the actions
do; that is given by a partial function from an action, an answer from the
outside and a shared state. One step is one action of one branch, so the
runs of a process over a shared state are all interleavings of its branches
at the granularity of the actions.

Programs are written as `Block`s, which are processes with a hole for what
comes after them. They form a monad, so a program reads like the code it is
a model of.

## Main definitions

* `Process`: The tree, with `actionAt`, the action at a position of it.
* `Block`: Programs to write processes with, and `Block.act`, `Block.par`.
* `stepAt`: One step at a position of the tree.
* `Step`: What a step can do, as a relation.
* `Process.Only`, `Block.Only`: All actions satisfy a condition.
* `subAt`, `Process.Leads`: What a thread still has to do, and that it gets to
  an exit.

## Theorems

* `step_of_stepAt`: A step does one of the things listed.
* `only_step`: The condition is kept, and the action taken satisfies it.
* `stepAt_subAt`: A thread is moved by its own steps only.
* `Block.only_bind`, `Block.only_act`, `Block.only_par`: The condition, read
  off the program.
-/

namespace DccMcp

/-- A process with actions `A`, answers `B`, and threads that end in a `β`. -/
inductive Process (A : Type) (B : A → Type) (β : Type)
  | done (result : β)
  | act (a : A) (k : B a → Process A B β)
  | par (n : Nat) (branches : Fin n → Process A B β) (k : (Fin n → β) → Process A B β)

namespace Process

variable {A : Type} {B : A → Type} {β : Type}

/-- A program that ends in a `ρ`: a process with a hole for what follows. -/
def Block (A : Type) (B : A → Type) (β : Type) (ρ : Type) : Type :=
  (ρ → Process A B β) → Process A B β

instance : Monad (Block A B β) where
  pure r k := k r
  bind m f k := m (fun r => f r k)

namespace Block

/-- Take an action and go on with its answer. -/
def act (a : A) : Block A B β (B a) := fun k => .act a k

/-- Run the programs at once and wait for all of them. -/
def par (branches : List (Block A B β β)) : Block A B β (List β) :=
  fun k => .par branches.length (fun i => branches[i] .done) (fun results => k (List.ofFn results))

/-- The process of a program that nothing follows. -/
def toProcess (m : Block A B β β) : Process A B β := m .done

end Block

/-- The result of a thread that is done. -/
def result : Process A B β → Option β
  | .done r => some r
  | _ => none

/-- The results of the branches, if all of them are done. -/
def results {n : Nat} (branches : Fin n → Process A B β) : Option (Fin n → β) :=
  if h : ∀ i, (branches i).result.isSome = true then some (fun i => (branches i).result.get (h i))
  else none

/-- The action the process is about to take at a position. A position is the
    list of the branches that lead to it. -/
def actionAt : List Nat → Process A B β → Option A
  | [], .act a _ => some a
  | i :: path, .par n branches _ => if h : i < n then actionAt path (branches ⟨i, h⟩) else none
  | _, _ => none

section Semantics

variable {σ ω : Type} (sem : (a : A) → ω → σ → Option (B a × σ))

/-- One step at a position: an action there, or the join of branches that are
    all done. `answer` is what the outside contributes. -/
def stepAt : List Nat → ω → Process A B β → σ → Option (Process A B β × σ)
  | [], answer, .act a k, s => (sem a answer s).map (fun r => (k r.1, r.2))
  | [], _, .par _ branches k, s => (results branches).map (fun rs => (k rs, s))
  | i :: path, answer, .par n branches k, s =>
    if h : i < n then
      (stepAt path answer (branches ⟨i, h⟩) s).map
        (fun r => (.par n (Function.update branches ⟨i, h⟩ r.1) k, r.2))
    else none
  | _, _, _, _ => none

/-- What a step can do. The label is the action that was taken, with the
    answer from the outside, or none for a join. -/
inductive Step : Process A B β → σ → Option (A × ω) → Process A B β → σ → Prop
  | act (a : A) (k : B a → Process A B β) (answer : ω) (s s' : σ) (b : B a)
      (h : sem a answer s = some (b, s')) : Step (.act a k) s (some (a, answer)) (k b) s'
  | join (n : Nat) (branches : Fin n → Process A B β) (k : (Fin n → β) → Process A B β)
      (rs : Fin n → β) (s : σ) (h : ∀ i, branches i = .done (rs i)) :
      Step (.par n branches k) s none (k rs) s
  | branch (n : Nat) (branches : Fin n → Process A B β) (k : (Fin n → β) → Process A B β)
      (i : Fin n) (label : Option (A × ω)) (p' : Process A B β) (s s' : σ)
      (h : Step (branches i) s label p' s') :
      Step (.par n branches k) s label (.par n (Function.update branches i p') k) s'

theorem results_eq_some {n : Nat} (branches : Fin n → Process A B β) (rs : Fin n → β)
    (h : results branches = some rs) : ∀ i, branches i = .done (rs i) := by
  intro i
  unfold results at h
  split at h
  next hall =>
    rw [← Option.some.inj h]
    have hi := hall i
    cases hbranch : branches i with
    | done r => simp only [hbranch, result, Option.get_some]
    | _ =>
        rw [hbranch] at hi
        simp [result] at hi
  next => simp at h

/-- A step does one of the things listed. -/
theorem step_of_stepAt (path : List Nat) (answer : ω) (p p' : Process A B β) (s s' : σ)
    (h : stepAt sem path answer p s = some (p', s')) :
    Step sem p s ((actionAt path p).map (fun a => (a, answer))) p' s' := by
  -- By induction on the position: at the root an action or a join, below it a
  -- step of a branch.
  induction path generalizing p p' s' with
  | nil =>
      cases p with
      | done r => simp only [stepAt, reduceCtorEq] at h
      | act a k =>
          rcases Option.map_eq_some_iff.mp h with ⟨⟨b, t⟩, hsem, heq⟩
          rw [Prod.mk.injEq] at heq
          rw [← heq.1, ← heq.2]
          exact .act a k answer s t b hsem
      | par n branches k =>
          rcases Option.map_eq_some_iff.mp h with ⟨rs, hrs, heq⟩
          rw [Prod.mk.injEq] at heq
          rw [← heq.1, ← heq.2]
          exact .join n branches k rs s (results_eq_some branches rs hrs)
  | cons i path ih =>
      cases p with
      | done r => simp only [stepAt, reduceCtorEq] at h
      | act a k => simp only [stepAt, reduceCtorEq] at h
      | par n branches k =>
          simp only [stepAt] at h
          split at h
          next hi =>
            rcases Option.map_eq_some_iff.mp h with ⟨⟨q, t⟩, hq, heq⟩
            rw [Prod.mk.injEq] at heq
            rw [← heq.1, ← heq.2]
            simp only [actionAt, dif_pos hi]
            exact .branch n branches k ⟨i, hi⟩ _ q s t (ih _ q t hq)
          next => simp at h

/-- A step is a join, which leaves the state, or an action on it. -/
theorem step_state (p p' : Process A B β) (s s' : σ) (label : Option (A × ω))
    (h : Step sem p s label p' s') :
    (label = none ∧ s' = s) ∨
      ∃ a answer b, label = some (a, answer) ∧ sem a answer s = some (b, s') := by
  induction h with
  | act a k answer s s' b hsem => exact .inr ⟨a, answer, b, rfl, hsem⟩
  | join => exact .inl ⟨rfl, rfl⟩
  | branch _ _ _ _ _ _ _ _ _ ih => exact ih

end Semantics

/-! ## Conditions on the actions of a process -/

/-- Every action the process can ever take satisfies the condition. -/
def Only (ok : A → Prop) : Process A B β → Prop
  | .done _ => True
  | .act a k => ok a ∧ ∀ b, Only ok (k b)
  | .par _ branches k => (∀ i, Only ok (branches i)) ∧ ∀ rs, Only ok (k rs)

/-- A step keeps the condition, and the action that was taken satisfies it. -/
theorem only_step {σ ω : Type} (sem : (a : A) → ω → σ → Option (B a × σ)) (ok : A → Prop)
    (p p' : Process A B β) (s s' : σ) (label : Option (A × ω)) (h : Only ok p)
    (hstep : Step sem p s label p' s') :
    Only ok p' ∧ ∀ a answer, label = some (a, answer) → ok a := by
  induction hstep with
  | act a k answer s s' b hsem =>
      refine ⟨h.2 b, fun a' answer' heq => ?_⟩
      rw [← (Prod.mk.inj (Option.some.inj heq)).1]
      exact h.1
  | join n branches k rs s hdone =>
      refine ⟨h.2 rs, fun a answer heq => ?_⟩
      simp at heq
  | branch n branches k i label p' s s' _ ih =>
      rcases ih (h.1 i) with ⟨hp', hlabel⟩
      refine ⟨⟨fun j => ?_, h.2⟩, hlabel⟩
      -- Only one branch has moved.
      by_cases hj : j = i
      · rw [hj, Function.update_self]
        exact hp'
      · rw [Function.update_of_ne hj]
        exact h.1 j

namespace Block

variable {ρ τ : Type}

/-- Every action of the program itself satisfies the condition. -/
def Only (ok : A → Prop) (m : Block A B β ρ) : Prop :=
  ∀ k, (∀ r, Process.Only ok (k r)) → Process.Only ok (m k)

theorem only_pure (ok : A → Prop) (r : ρ) : Only ok (pure r : Block A B β ρ) := fun _ hk => hk r

theorem only_bind (ok : A → Prop) (m : Block A B β ρ) (f : ρ → Block A B β τ) (hm : Only ok m)
    (hf : ∀ r, Only ok (f r)) : Only ok (m >>= f) :=
  fun k hk => hm _ (fun r => hf r k hk)

theorem only_act (ok : A → Prop) (a : A) (ha : ok a) : Only ok (act a : Block A B β (B a)) :=
  fun _ hk => ⟨ha, hk⟩

theorem only_par (ok : A → Prop) (branches : List (Block A B β β))
    (h : ∀ m ∈ branches, Only ok m) : Only ok (par branches) :=
  fun _ hk => ⟨fun i => h _ (List.getElem_mem i.isLt) _ (fun _ => trivial), fun _ => hk _⟩

theorem only_toProcess (ok : A → Prop) (m : Block A B β β) (hm : Only ok m) :
    m.toProcess.Only ok := hm _ (fun _ => trivial)

end Block

/-! ## One thread -/

/-- What the thread at a position still has to do. -/
def subAt : List Nat → Process A B β → Option (Process A B β)
  | [], p => some p
  | i :: path, .par n branches _ => if h : i < n then subAt path (branches ⟨i, h⟩) else none
  | _ :: _, _ => none

theorem actionAt_of_subAt (path : List Nat) (p : Process A B β) (a : A)
    (k : B a → Process A B β) (h : subAt path p = some (.act a k)) : actionAt path p = some a := by
  induction path generalizing p with
  | nil =>
      obtain rfl := Option.some.inj h
      rfl
  | cons i path ih =>
      cases p with
      | done r => simp only [subAt, reduceCtorEq] at h
      | act a' k' => simp only [subAt, reduceCtorEq] at h
      | par n branches k' =>
          simp only [subAt] at h
          split at h
          next hi =>
            simp only [actionAt, dif_pos hi]
            exact ih _ h
          next => simp at h

/-- A thread that is about to take an action waits, or takes it. -/
theorem stepAt_subAt {σ ω : Type} (sem : (a : A) → ω → σ → Option (B a × σ))
    (path path' : List Nat) (answer : ω) (p p' : Process A B β) (s s' : σ) (a : A)
    (k : B a → Process A B β) (hat : subAt path p = some (.act a k))
    (h : stepAt sem path' answer p s = some (p', s')) :
    subAt path p' = some (.act a k) ∨
      path' = path ∧ ∃ b, sem a answer s = some (b, s') ∧ subAt path p' = some (k b) := by
  induction path generalizing path' p p' s' with
  | nil =>
      obtain rfl := Option.some.inj hat
      cases path' with
      | nil =>
          rcases Option.map_eq_some_iff.mp h with ⟨⟨b, t⟩, hsem, heq⟩
          rw [Prod.mk.injEq] at heq
          rw [← heq.1, ← heq.2]
          exact .inr ⟨rfl, b, hsem, rfl⟩
      | cons => simp [stepAt] at h
  | cons i path ih =>
      cases p with
      | done r => simp only [subAt, reduceCtorEq] at hat
      | act a' k' => simp only [subAt, reduceCtorEq] at hat
      | par n branches k' =>
          simp only [subAt] at hat
          split at hat
          next hi =>
            cases path' with
            | nil =>
                -- No join, since the branch of the thread is not done.
                rcases Option.map_eq_some_iff.mp h with ⟨rs, hrs, _⟩
                rw [results_eq_some branches rs hrs ⟨i, hi⟩] at hat
                cases path <;> simp [subAt] at hat
            | cons j path' =>
                simp only [stepAt] at h
                split at h
                next hj =>
                  rcases Option.map_eq_some_iff.mp h with ⟨⟨q, t⟩, hq, heq⟩
                  rw [Prod.mk.injEq] at heq
                  rw [← heq.1, ← heq.2]
                  simp only [subAt, dif_pos hi]
                  by_cases hij : i = j
                  · subst hij
                    rw [Function.update_self]
                    rcases ih path' _ q t hat hq with hwait | ⟨rfl, b, hsem, hk⟩
                    · exact .inl hwait
                    · exact .inr ⟨rfl, b, hsem, hk⟩
                  · rw [Function.update_of_ne (fun heq => hij (Fin.mk.inj heq))]
                    exact .inl hat
                next => simp at h
          next => simp at hat

/-- A process that takes actions of one kind until it is at an exit, as long
    as the answers are good. -/
inductive Leads (kind : A → Prop) (good : (a : A) → B a → Prop)
    (exits : Process A B β → Prop) : Process A B β → Prop
  | exit (p : Process A B β) (h : exits p) : Leads kind good exits p
  | act (a : A) (k : B a → Process A B β) (ha : kind a)
      (h : ∀ b, good a b → Leads kind good exits (k b)) : Leads kind good exits (.act a k)

namespace Block

variable {ρ τ : Type} (kind : A → Prop) (good : (a : A) → B a → Prop)

/-- A program that takes actions of one kind, and comes out with a result as
    it should, as long as the answers are good. -/
def Leads (after : ρ → Prop) (m : Block A B β ρ) : Prop :=
  ∀ k exits, (∀ r, after r → Process.Leads kind good exits (k r)) →
    Process.Leads kind good exits (m k)

theorem leads_pure (after : ρ → Prop) (r : ρ) (h : after r) :
    Leads kind good after (pure r : Block A B β ρ) :=
  fun _ _ hk => hk r h

theorem leads_bind (mid : ρ → Prop) (after : τ → Prop) (m : Block A B β ρ) (f : ρ → Block A B β τ)
    (hm : Leads kind good mid m) (hf : ∀ r, mid r → Leads kind good after (f r)) :
    Leads kind good after (m >>= f) :=
  fun k exits hk => hm _ exits (fun r hr => hf r hr k exits hk)

theorem leads_act (a : A) (ha : kind a) :
    Leads kind good (good a) (act a : Block A B β (B a)) :=
  fun k _ hk => .act a k ha hk

end Block

end Process

end DccMcp
