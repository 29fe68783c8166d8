import Mathlib.Logic.Basic

/-!
# Programs that may be cut off

A program that works on a disk is a sequence of operations, and it may be cut
off before any of them: the process is killed, or the power goes. What it
leaves is then the disk as the last operation left it, and the next program
starts from there. What an operation does is settled by the disk and by a
choice of the environment, for instance whether the operation fails.

So a program is a tree. At each node one operation takes the disk and a choice
to another disk, and the result, which depends on the same two, is where the
program continues. A run of it is given by the list of choices. When the list
ends early the run was cut off, so "every crash point" is "every list".

What is wanted of a program is said with four conditions: on the choices that
are admitted, on the disk wherever the program may be cut off, on its results
and on its errors. The rules below derive this for a program from its parts.
Because an error ends all that follows, the condition on errors is the same
throughout a program, and only the one on results changes from part to part.

## Main definitions

* `Prog`: Programs, with `op` for one operation and `attempt` for going on
  after an error.
* `run`: The outcome for a list of choices.
* `complete`: The outcome when the program is not cut off.
* `Ensures`: What is wanted of a program.
* `Preserves`: A part of the state that a program does not change.
* `Keeps`: An invariant of a program.
* `Visits`: The states a program comes to when nothing else happens.

## Theorems

* `run_of_ensures`, `complete_of_ensures`: What `Ensures` says about runs.
* `ensures_bind`, `ensures_op`, `ensures_attempt`: The rules.
* `run_bind`, `complete_bind`, `visits_bind_iff`: Programs one after the other.
* `keeps_of_preserves`: An invariant of what a program does not change.
-/

namespace DccMcp

namespace Crash

variable {χ σ ε α β : Type}

/-- A program with results in `α` and errors in `ε` on states in `σ`. -/
inductive Prog (χ σ ε α : Type)
  | ret (r : Except ε α)
  | act (write : χ → σ → σ) (next : χ → σ → Prog χ σ ε α)

/-- How a run ends. A program that returns leaves the choices it did not need. -/
inductive Outcome (χ σ ε α : Type)
  | crashed (s : σ)
  | returned (r : Except ε α) (s : σ) (unused : List χ)

namespace Outcome

/-- The state a run leaves. -/
def state : Outcome χ σ ε α → σ
  | crashed s => s
  | returned _ s _ => s

/-- What a run returns, if it is not cut off. -/
def result : Outcome χ σ ε α → Option (Except ε α)
  | crashed _ => none
  | returned r _ _ => some r

/-- A run that has returned a result leaves its state. -/
theorem eq_returned (o : Outcome χ σ ε α) (h : o.result.map Except.isOk = some true) :
    ∃ a unused, o = returned (.ok a) o.state unused := by
  rcases o with s | ⟨e | a, s, unused⟩
  · cases h
  · cases h
  · exact ⟨a, unused, rfl⟩

end Outcome

namespace Prog

def bind : Prog χ σ ε α → (α → Prog χ σ ε β) → Prog χ σ ε β
  | ret (.ok a), f => f a
  | ret (.error e), _ => ret (.error e)
  | act write next, f => act write (fun c s => (next c s).bind f)

instance : Monad (Prog χ σ ε) where
  pure a := ret (.ok a)
  bind := bind

/-- Ends with an error. -/
def fail (e : ε) : Prog χ σ ε α := ret (.error e)

/-- One operation: the result and the state after it. -/
def op (f : χ → σ → Except ε α × σ) : Prog χ σ ε α :=
  act (fun c s => (f c s).2) (fun c s => ret (f c s).1)

/-- Gives an error back as a result, so that the program goes on. -/
def attempt : Prog χ σ ε α → Prog χ σ ε (Except ε α)
  | ret r => ret (.ok r)
  | act write next => act write (fun c s => (next c s).attempt)

/-- Goes on only if a condition holds. -/
def require (P : Prop) [Decidable P] (e : ε) : Prog χ σ ε Unit :=
  if P then pure () else fail e

/-- Does something only under a condition. -/
def whenever (b : Bool) (p : Prog χ σ ε Unit) : Prog χ σ ε Unit := if b then p else pure ()

/-- Does the same for each item of a list, up to the first error. -/
def forEach (f : α → Prog χ σ ε Unit) : List α → Prog χ σ ε Unit
  | [] => pure ()
  | a :: rest => do
    f a
    forEach f rest

end Prog

open Prog

/-- The run with a list of choices. It is cut off where the list ends. -/
def run : Prog χ σ ε α → List χ → σ → Outcome χ σ ε α
  | .ret r, cs, s => .returned r s cs
  | .act _ _, [], s => .crashed s
  | .act write next, c :: cs, s => run (next c s) cs (write c s)

/-- The run that is not cut off, with the choices of a sequence. -/
def complete : Prog χ σ ε α → (Nat → χ) → σ → Except ε α × σ
  | .ret r, _, s => (r, s)
  | .act write next, choices, s =>
    complete (next (choices 0) s) (fun i => choices (i + 1)) (write (choices 0) s)

/-- With admitted choices the program leaves `C` wherever it is cut off, `Q`
    with a result and `E` with an error. -/
def Ensures (A : χ → Prop) (C : σ → Prop) (Q : α → σ → Prop) (E : ε → σ → Prop) :
    Prog χ σ ε α → σ → Prop
  | .ret (.ok a), s => Q a s
  | .ret (.error e), s => E e s
  | .act write next, s => C s ∧ ∀ c, A c → Ensures A C Q E (next c s) (write c s)

variable (A : χ → Prop) (C : σ → Prop) (Q : α → σ → Prop) (E : ε → σ → Prop)

/-- What an outcome has to meet. -/
def Outcome.Meets (C : σ → Prop) (Q : α → σ → Prop) (E : ε → σ → Prop) :
    Outcome χ σ ε α → Prop
  | crashed s => C s
  | returned (.ok a) s _ => Q a s
  | returned (.error e) s _ => E e s

theorem run_of_ensures (p : Prog χ σ ε α) (s : σ) (h : Ensures A C Q E p s) (cs : List χ)
    (hcs : ∀ c ∈ cs, A c) : (run p cs s).Meets C Q E := by
  induction p generalizing s cs with
  | ret r =>
      cases r with
      | ok a => exact h
      | error e => exact h
  | act write next ih =>
      cases cs with
      | nil => exact h.1
      | cons c cs =>
          have hc : A c := hcs c List.mem_cons_self
          exact ih c s (write c s) (h.2 c hc) cs (fun c' hc' => hcs c' (List.mem_cons_of_mem c hc'))

theorem complete_of_ensures (p : Prog χ σ ε α) (s : σ) (h : Ensures A C Q E p s)
    (choices : Nat → χ) (hchoices : ∀ i, A (choices i)) :
    match complete p choices s with
    | (.ok a, s') => Q a s'
    | (.error e, s') => E e s' := by
  induction p generalizing s choices with
  | ret r =>
      cases r with
      | ok a => exact h
      | error e => exact h
  | act write next ih =>
      exact ih (choices 0) s _ (h.2 (choices 0) (hchoices 0)) (fun i => choices (i + 1))
        (fun i => hchoices (i + 1))

variable (p : Prog χ σ ε α) (f : α → Prog χ σ ε β)

/-- What follows a program runs with the choices that are left. -/
theorem run_bind (cs : List χ) (s : σ) : run (p >>= f) cs s = match run p cs s with
      | .crashed s' => .crashed s'
      | .returned (.ok a) s' rest => run (f a) rest s'
      | .returned (.error e) s' rest => .returned (.error e) s' rest := by
  induction p generalizing s cs with
  | ret r => cases r <;> rfl
  | act write next ih =>
      cases cs with
      | nil => rfl
      | cons c cs => exact ih c s cs (write c s)

/-- The same when the choice is always the same and nothing is cut off. -/
theorem complete_bind (c : χ) (s : σ) : complete (p >>= f) (fun _ => c) s =
      match complete p (fun _ => c) s with
      | (.ok a, s') => complete (f a) (fun _ => c) s'
      | (.error e, s') => (.error e, s') := by
  induction p generalizing s with
  | ret r => cases r <;> rfl
  | act write next ih => exact ih c s (write c s)

/-- What is not cut off is not cut off by a list that is long enough. -/
theorem run_of_complete (c : χ) (s : σ) : ∃ n, run p (List.replicate n c) s =
      .returned (complete p (fun _ => c) s).1 (complete p (fun _ => c) s).2 [] := by
  induction p generalizing s with
  | ret r => exact ⟨0, rfl⟩
  | act write next ih =>
      rcases ih c s (write c s) with ⟨n, hn⟩
      exact ⟨n + 1, hn⟩

section Rules

variable {A : χ → Prop} {C : σ → Prop} {Q : α → σ → Prop} {E : ε → σ → Prop}

theorem ensures_pure (a : α) (s : σ) (h : Q a s) : Ensures A C Q E (pure a) s := h

theorem ensures_fail (e : ε) (s : σ) (h : E e s) : Ensures A C Q E (fail e) s := h

theorem ensures_mono {C' : σ → Prop} {Q' : α → σ → Prop} {E' : ε → σ → Prop}
    (p : Prog χ σ ε α) (s : σ) (h : Ensures A C Q E p s) (hC : ∀ s, C s → C' s)
    (hQ : ∀ a s, Q a s → Q' a s) (hE : ∀ e s, E e s → E' e s) : Ensures A C' Q' E' p s := by
  induction p generalizing s with
  | ret r =>
      cases r with
      | ok a => exact hQ a s h
      | error e => exact hE e s h
  | act write next ih => exact ⟨hC s h.1, fun c hc => ih c s (write c s) (h.2 c hc)⟩

theorem ensures_bind {R : β → σ → Prop} (p : Prog χ σ ε α) (f : α → Prog χ σ ε β) (s : σ)
    (h : Ensures A C (fun a s' => Ensures A C R E (f a) s') E p s) :
    Ensures A C R E (p >>= f) s := by
  induction p generalizing s with
  | ret r =>
      cases r with
      | ok a => exact h
      | error e => exact h
  | act write next ih => exact ⟨h.1, fun c hc => ih c s (write c s) (h.2 c hc)⟩

/-- The rule for a part that has been dealt with before. -/
theorem ensures_step {C' : σ → Prop} {Q' : α → σ → Prop} {E' : ε → σ → Prop}
    {R : β → σ → Prop} (p : Prog χ σ ε α) (f : α → Prog χ σ ε β) (s : σ)
    (h : Ensures A C' Q' E' p s) (hC : ∀ s, C' s → C s) (hE : ∀ e s, E' e s → E e s)
    (hQ : ∀ a s, Q' a s → Ensures A C R E (f a) s) : Ensures A C R E (p >>= f) s :=
  ensures_bind p f s (ensures_mono p s h hC hQ hE)

theorem ensures_op (f : χ → σ → Except ε α × σ) (s : σ) (hC : C s)
    (h : ∀ c, A c → match f c s with
      | (.ok a, s') => Q a s'
      | (.error e, s') => E e s') : Ensures A C Q E (op f) s := by
  refine ⟨hC, fun c hc => ?_⟩
  have hfc := h c hc
  rcases hf : f c s with ⟨r, s'⟩
  rw [hf] at hfc
  cases r with
  | ok a =>
      show Ensures A C Q E (.ret (f c s).1) (f c s).2
      rw [hf]
      exact hfc
  | error e =>
      show Ensures A C Q E (.ret (f c s).1) (f c s).2
      rw [hf]
      exact hfc

theorem ensures_attempt {R : Except ε α → σ → Prop} (p : Prog χ σ ε α) (s : σ)
    (h : Ensures A C (fun a => R (.ok a)) (fun e => R (.error e)) p s) :
    Ensures A C R E (attempt p) s := by
  induction p generalizing s with
  | ret r =>
      cases r with
      | ok a => exact h
      | error e => exact h
  | act write next ih => exact ⟨h.1, fun c hc => ih c s (write c s) (h.2 c hc)⟩

theorem ensures_require {R : Unit → σ → Prop} (P : Prop) [Decidable P] (e : ε) (s : σ)
    (hok : P → R () s) (herr : ¬P → E e s) : Ensures A C R E (require P e) s := by
  unfold require
  by_cases hP : P
  · rw [if_pos hP]
    exact hok hP
  · rw [if_neg hP]
    exact herr hP

/-- Fewer choices ensure more. -/
theorem ensures_strengthen (A' : χ → Prop) (p : Prog χ σ ε α) (s : σ) (h : Ensures A C Q E p s)
    (hA : ∀ c, A' c → A c) : Ensures A' C Q E p s := by
  induction p generalizing s with
  | ret r =>
      cases r with
      | ok a => exact h
      | error e => exact h
  | act write next ih => exact ⟨h.1, fun c hc => ih c s (write c s) (h.2 c (hA c hc))⟩

end Rules

/-- Whatever happens, the program does not change what `f` shows of the state. -/
def Preserves (f : σ → β) (p : Prog χ σ ε α) : Prop :=
  ∀ s, Ensures (fun _ => True) (fun s' => f s' = f s) (fun _ s' => f s' = f s)
    (fun _ s' => f s' = f s) p s

section Preserves

variable {γ : Type} (f : σ → γ)

theorem preserves_pure (a : α) : Preserves f (pure a : Prog χ σ ε α) := fun _ => rfl

theorem preserves_fail (e : ε) : Preserves f (fail e : Prog χ σ ε α) := fun _ => rfl

theorem preserves_require (P : Prop) [Decidable P] (e : ε) :
    Preserves f (require P e : Prog χ σ ε Unit) :=
  fun s => ensures_require P e s (fun _ => rfl) (fun _ => rfl)

theorem preserves_bind (p : Prog χ σ ε α) (g : α → Prog χ σ ε β) (hp : Preserves f p)
    (hg : ∀ a, Preserves f (g a)) : Preserves f (p >>= g) := by
  intro s
  refine ensures_step p g s (hp s) (fun _ h => h) (fun _ _ h => h) (fun a s' hs' => ?_)
  refine ensures_mono (g a) s' (hg a s') (fun s'' h => ?_) (fun _ s'' h => ?_) (fun _ s'' h => ?_) <;>
    rw [h, hs']

theorem preserves_attempt (p : Prog χ σ ε α) (hp : Preserves f p) : Preserves f (attempt p) :=
  fun s => ensures_attempt p s (hp s)

theorem preserves_whenever (b : Bool) (p : Prog χ σ ε Unit) (hp : Preserves f p) :
    Preserves f (whenever b p) := by
  cases b with
  | false => exact preserves_pure f ()
  | true => exact hp

theorem preserves_op (g : χ → σ → Except ε α × σ) (hg : ∀ c s, f (g c s).2 = f s) :
    Preserves f (op g) := by
  refine fun s => ensures_op g s rfl (fun c _ => ?_)
  have h := hg c s
  rcases hgc : g c s with ⟨r, s'⟩
  rw [hgc] at h
  cases r with
  | ok a => exact h
  | error e => exact h

theorem preserves_forEach (g : α → Prog χ σ ε Unit) (l : List α) (hg : ∀ a, Preserves f (g a)) :
    Preserves f (forEach g l) := by
  induction l with
  | nil => exact preserves_pure f ()
  | cons a rest ih => exact preserves_bind f _ _ (hg a) (fun _ => ih)

end Preserves

/-- An invariant: the program may be cut off anywhere, and it still holds. -/
def Keeps (J : σ → Prop) (p : Prog χ σ ε α) : Prop :=
  ∀ s, J s → Ensures (fun _ => True) J (fun _ => J) (fun _ => J) p s

section Keeps

variable {J : σ → Prop}

theorem keeps_pure (a : α) : Keeps J (pure a : Prog χ σ ε α) := fun _ h => h

theorem keeps_fail (e : ε) : Keeps J (fail e : Prog χ σ ε α) := fun _ h => h

theorem keeps_bind (g : α → Prog χ σ ε β) (hp : Keeps J p) (hg : ∀ a, Keeps J (g a))
    : Keeps J (p >>= g) :=
  fun s h => ensures_step p g s (hp s h) (fun _ h => h) (fun _ _ h => h) (fun a s' h' => hg a s' h')

theorem keeps_attempt (hp : Keeps J p) : Keeps J (attempt p) :=
  fun s h => ensures_attempt p s (hp s h)

theorem keeps_whenever (b : Bool) (p : Prog χ σ ε Unit) (hp : Keeps J p) :
    Keeps J (whenever b p) := by
  cases b with
  | false => exact keeps_pure ()
  | true => exact hp

theorem keeps_op (f : χ → σ → Except ε α × σ) (hf : ∀ c s, J s → J (f c s).2) :
    Keeps J (op f) := by
  refine fun s h => ensures_op f s h (fun c _ => ?_)
  have hfc := hf c s h
  rcases hr : f c s with ⟨r, s'⟩
  rw [hr] at hfc
  cases r with
  | ok a => exact hfc
  | error e => exact hfc

/-- An invariant that depends on what is not changed. -/
theorem keeps_of_preserves {γ : Type} (f : σ → γ) (p : Prog χ σ ε α) (hp : Preserves f p)
    (hJ : ∀ s s', f s' = f s → J s → J s') : Keeps J p :=
  fun s h => ensures_mono p s (hp s) (fun s' hs' => hJ s s' hs' h) (fun _ s' hs' => hJ s s' hs' h)
    (fun _ s' hs' => hJ s s' hs' h)

end Keeps

/-- With this choice for each operation the program comes to a state of some
    kind. -/
def Visits (p : Prog χ σ ε α) (c : χ) (s : σ) (good : σ → Prop) : Prop :=
  ∃ n, good (run p (List.replicate n c) s).state

section Visits

variable {good : σ → Prop}

theorem visits_here (c : χ) (s : σ) (h : good s) : Visits p c s good := by
  refine ⟨0, ?_⟩
  cases p with
  | ret r => exact h
  | act write next => exact h

theorem visits_act (write : χ → σ → σ) (next : χ → σ → Prog χ σ ε α) (c : χ) (s : σ) :
    Visits (.act write next) c s good ↔ good s ∨ Visits (next c s) c (write c s) good := by
  constructor
  · rintro ⟨n, hn⟩
    cases n with
    | zero => exact Or.inl hn
    | succ n => exact Or.inr ⟨n, hn⟩
  · rintro (h | ⟨n, hn⟩)
    · exact visits_here _ c s h
    · exact ⟨n + 1, hn⟩

/-- The states of a program that ends well and of what follows it. -/
theorem visits_bind_iff (c : χ) (s s' : σ) (a : α) (hp : complete p (fun _ => c) s = (.ok a, s')) :
    Visits (p >>= f) c s good ↔ Visits p c s good ∨ Visits (f a) c s' good := by
  induction p generalizing s with
  | ret r =>
      cases r with
      | error e => cases hp
      | ok a' =>
          cases hp
          refine ⟨Or.inr, ?_⟩
          rintro (⟨n, hn⟩ | h)
          · exact visits_here _ c _ hn
          · exact h
  | act write next ih =>
      show Visits (.act write fun c s => (next c s).bind f) c s good ↔ _
      rw [visits_act, visits_act, or_assoc]
      exact or_congr_right (ih c s (write c s) hp)

/-- What a program comes to, it also comes to when something follows. -/
theorem visits_bind_left (c : χ) (s : σ) (h : Visits p c s good) : Visits (p >>= f) c s good := by
  induction p generalizing s with
  | ret r =>
      rcases h with ⟨n, hn⟩
      exact visits_here _ c s hn
  | act write next ih =>
      show Visits (.act write fun c s => (next c s).bind f) c s good
      rw [visits_act] at h ⊢
      exact h.imp_right (ih c s (write c s))

/-- A part that comes to nothing of the kind may be left out. -/
theorem visits_after (c : χ) (s s' : σ) (a : α) (hp : complete p (fun _ => c) s = (.ok a, s'))
    (hnot : ¬Visits p c s good) :
    Visits (p >>= f) c s good ↔ Visits (f a) c s' good := by
  rw [visits_bind_iff p f c s s' a hp]
  exact or_iff_right hnot

/-- Going on after a part that has been dealt with before. -/
theorem visits_step {C : σ → Prop} {Q : α → σ → Prop} (A : χ → Prop) (p : Prog χ σ ε α)
    (f : α → Prog χ σ ε β) (c : χ) (s : σ) (hc : A c)
    (hp : Ensures A C Q (fun _ _ => False) p s) (h : ∀ a s', Q a s' → Visits (f a) c s' good) :
    Visits (p >>= f) c s good := by
  have hend := complete_of_ensures A C Q _ p s hp (fun _ => c) (fun _ => hc)
  rcases hcomplete : complete p (fun _ => c) s with ⟨r, s'⟩
  rw [hcomplete] at hend
  cases r with
  | error e => exact absurd hend id
  | ok a => exact (visits_bind_iff p f c s s' a hcomplete).mpr (Or.inr (h a s' hend))

/-- A state of a kind that is nowhere is not come to. -/
theorem not_visits (A : χ → Prop) (p : Prog χ σ ε α) (c : χ) (s : σ) (hc : A c)
    (h : Ensures A (fun s' => ¬good s') (fun _ s' => ¬good s') (fun _ s' => ¬good s') p s) :
    ¬Visits p c s good := by
  rintro ⟨n, hgood⟩
  have hmeets := run_of_ensures A _ _ _ p s h (List.replicate n c)
    (fun c' hc' => List.eq_of_mem_replicate hc' ▸ hc)
  cases hrun : run p (List.replicate n c) s with
  | crashed s' =>
      rw [hrun] at hmeets hgood
      exact hmeets hgood
  | returned r s' unused =>
      rw [hrun] at hmeets hgood
      cases r with
      | ok a => exact hmeets hgood
      | error e => exact hmeets hgood

end Visits

end Crash

end DccMcp
