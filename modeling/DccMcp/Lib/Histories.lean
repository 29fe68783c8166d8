import DccMcp.Lib.Process

/-!
# Histories of a Thread

What a program has done so far, and invariants that speak about it.

The history of a thread is the list of its actions, each with its answer. Nothing is said
about the shared state: an action may be answered by anything, which stands for everything
the other threads and the outside can do to the state in between. What holds of all
histories therefore holds in all interleavings.

An invariant of the histories of a program is read off the program, with one rule for each
way to put a program together.

## Main definitions

* `History`, `Takes`: What a thread does, and `follow`, one history of it.
* `Process.Keeps`, `Block.Keeps`: An invariant of the histories.

## Theorems

* `keeps_takes`: The invariant holds of every history.
* `Block.keeps_pure`, `Block.keeps_act`, `Block.keeps_bind`: Reading it off a program.
-/

namespace DccMcp

namespace Process

variable {A : Type} {B : A → Type} {β : Type}

/-- The actions of a thread, each with its answer. -/
abbrev History (A : Type) (B : A → Type) := List (Σ a : A, B a)

/-- The process takes the actions and gets the answers, and is another process then. -/
inductive Takes : Process A B β → History A B → Process A B β → Prop
  | refl (p : Process A B β) : Takes p [] p
  | act (a : A) (k : B a → Process A B β) (b : B a) (t : History A B) (p : Process A B β)
      (h : Takes (k b) t p) : Takes (.act a k) (⟨a, b⟩ :: t) p

/-- The first actions of a process and what it is then, when all answers are given by a
    function. -/
def follow (answer : (a : A) → B a) : Nat → Process A B β → History A B × Process A B β
  | n + 1, .act a k =>
    let rest := follow answer n (k (answer a))
    (⟨a, answer a⟩ :: rest.1, rest.2)
  | _, p => ([], p)

theorem takes_follow (answer : (a : A) → B a) (n : Nat) (p : Process A B β) :
    Takes p (follow answer n p).1 (follow answer n p).2 := by
  induction n generalizing p with
  | zero => exact .refl p
  | succ n ih =>
      cases p with
      | act a k => exact .act a k (answer a) _ _ (ih (k (answer a)))
      | done | par => exact .refl _

section Invariant

variable (inv : History A B → Prop)

/-- Whatever a process does after a history, the history keeps the invariant, and the process
    ends as it should. -/
def Keeps (ends : History A B → β → Prop) : History A B → Process A B β → Prop
  | past, .done r => ends past r
  | past, .act a k => ∀ b, inv (past ++ [⟨a, b⟩]) ∧ Keeps ends (past ++ [⟨a, b⟩]) (k b)
  | _, .par _ _ _ => False

variable {inv}

/-- Every history keeps the invariant. -/
theorem keeps_takes (ends : History A B → β → Prop) (past t : History A B)
    (p p' : Process A B β) (hinv : inv past) (h : Keeps inv ends past p) (ht : Takes p t p') :
    inv (past ++ t) ∧ Keeps inv ends (past ++ t) p' := by
  induction ht generalizing past with
  | refl p =>
      rw [List.append_nil]
      exact ⟨hinv, h⟩
  | act a k b t p _ ih =>
      rcases h b with ⟨hnext, hrest⟩
      rw [List.append_cons]
      exact ih (past ++ [⟨a, b⟩]) hnext hrest

end Invariant

namespace Block

variable {ρ τ : Type} (inv : History A B → Prop)

/-- After a history, whatever the program does keeps the invariant, and it comes out with a
    history and a result as it should. -/
def Keeps (past : History A B) (m : Block A B β ρ) (post : History A B → ρ → Prop) : Prop :=
  ∀ (ends : History A B → β → Prop) (k : ρ → Process A B β),
    (∀ past' r, post past' r → Process.Keeps inv ends past' (k r)) →
      Process.Keeps inv ends past (m k)

variable {inv}

theorem keeps_pure (past : History A B) (r : ρ) (post : History A B → ρ → Prop)
    (h : post past r) : Keeps inv past (pure r : Block A B β ρ) post :=
  fun _ _ hk => hk past r h

theorem keeps_act (past : History A B) (a : A) (post : History A B → B a → Prop)
    (h : ∀ b, inv (past ++ [⟨a, b⟩]) ∧ post (past ++ [⟨a, b⟩]) b) :
    Keeps inv past (act a : Block A B β (B a)) post :=
  fun _ _ hk b => ⟨(h b).1, hk _ b (h b).2⟩

theorem keeps_bind (past : History A B) (m : Block A B β ρ) (f : ρ → Block A B β τ)
    (mid : History A B → ρ → Prop) (post : History A B → τ → Prop) (hm : Keeps inv past m mid)
    (hf : ∀ past' r, mid past' r → Keeps inv past' (f r) post) :
    Keeps inv past (m >>= f) post :=
  fun ends k hk => hm ends _ (fun past' r hr => hf past' r hr ends k hk)

theorem keeps_mono (past : History A B) (m : Block A B β ρ) (mid post : History A B → ρ → Prop)
    (h : Keeps inv past m mid) (himp : ∀ past' r, mid past' r → post past' r) :
    Keeps inv past m post :=
  fun ends k hk => h ends k (fun past' r hr => hk past' r (himp past' r hr))

end Block

end Process

end DccMcp
