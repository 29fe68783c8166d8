import Mathlib.Data.List.Induction

/-!
# Machines and their Runs

A machine is a partial function from a state and an action to the next state:
an action that is not enabled has no next state. Everything the concurrent
parts of this development do is such a machine, with the schedule made
explicit: one action is one atomic step of one thread, and a run is a list of
actions, so "every interleaving" is "every list".

Keeping the run an explicit list has two uses. A counterexample is a list
that evaluates. And a statement about the past ("only if it was asked for
before") can talk about the actions that were taken, which an invariant over
states alone cannot. `exec_history` is the induction rule for such
statements; the rule over states and the rule for runs that keep a side
condition are its special cases.

## Main definitions

* `exec`: The state after a list of actions, if all of them are enabled.
* `Along`: A condition on every action of a run, where it is taken, and
  `decidableAlong`, which checks it.
* `total`: A machine whose actions are all enabled.

## Theorems

* `exec_append`, `exec_snoc`: Cutting a run in two.
* `exec_history`: The induction rule for runs that keep a condition.
* `exec_invariant`: An invariant of the steps is an invariant of the runs.
* `along_iff`: Two step conditions that agree are kept by the same runs.
* `along_total_iff`: A step condition that is exact is exact for runs.
-/

namespace DccMcp

namespace Machine

variable {σ α : Type}

/-- The state after a list of actions, if all of them are enabled in turn. -/
def exec (step : σ → α → Option σ) (s : σ) : List α → Option σ
  | [] => some s
  | a :: as =>
    match step s a with
    | none => none
    | some t => exec step t as

/-- Every action of the run is taken in a state that allows it. -/
def Along (step : σ → α → Option σ) (ok : σ → α → Prop) (s : σ) : List α → Prop
  | [] => True
  | a :: as => ok s a ∧ ∀ t, step s a = some t → Along step ok t as

/-- A decidable condition can be checked along a run. -/
instance decidableAlong (step : σ → α → Option σ) (ok : σ → α → Prop)
    [∀ s a, Decidable (ok s a)] : ∀ s as, Decidable (Along step ok s as)
  | _, [] => isTrue trivial
  | s, a :: as =>
    match hstep : step s a with
    | none => decidable_of_iff (ok s a)
        ⟨fun h => ⟨h, fun t ht => by rw [hstep] at ht; cases ht⟩, And.left⟩
    | some t =>
      have := decidableAlong step ok t as
      decidable_of_iff (ok s a ∧ Along step ok t as)
        ⟨fun h => ⟨h.1, fun u hu => by rw [hstep] at hu; cases hu; exact h.2⟩,
          fun h => ⟨h.1, h.2 t hstep⟩⟩

variable (step : σ → α → Option σ) (ok : σ → α → Prop)

theorem exec_cons (s u : σ) (a : α) (as : List α) :
    exec step s (a :: as) = some u ↔ ∃ t, step s a = some t ∧ exec step t as = some u := by
  cases hstep : step s a with
  | none => simp only [exec, hstep, reduceCtorEq, false_and, exists_false]
  | some t => simp [exec, hstep]

theorem exec_append (s u : σ) (as bs : List α) :
    exec step s (as ++ bs) = some u ↔ ∃ t, exec step s as = some t ∧ exec step t bs = some u := by
  induction as generalizing s with
  | nil => simp only [List.nil_append, exec, Option.some.injEq, exists_eq_left']
  | cons a as ih =>
      simp only [List.cons_append, exec_cons, ih]
      constructor
      · rintro ⟨t, ht, v, hv, hu⟩
        exact ⟨v, ⟨t, ht, hv⟩, hu⟩
      · rintro ⟨v, ⟨t, ht, hv⟩, hu⟩
        exact ⟨t, ht, v, hv, hu⟩

theorem exec_snoc (s u : σ) (as : List α) (a : α) :
    exec step s (as ++ [a]) = some u ↔ ∃ t, exec step s as = some t ∧ step t a = some u := by
  rw [exec_append]
  refine exists_congr (fun t => and_congr_right (fun _ => ?_))
  rw [exec_cons]
  simp [exec]

/-- A condition along a run, one enabled step at a time. -/
theorem along_cons (s t : σ) (a : α) (as : List α) (hok : ok s a) (hstep : step s a = some t)
    (has : Along step ok t as) :
    Along step ok s (a :: as) := by
  refine ⟨hok, fun u hu => ?_⟩
  rw [hstep, Option.some.injEq] at hu
  rw [← hu]
  exact has

/-- Cutting a condition along a run in two. -/
theorem along_append (s : σ) (as bs : List α) : Along step ok s (as ++ bs) ↔
      Along step ok s as ∧ ∀ t, exec step s as = some t → Along step ok t bs := by
  induction as generalizing s with
  | nil => simp only [List.nil_append, Along, exec, Option.some.injEq, forall_eq', true_and]
  | cons a as ih =>
      simp only [List.cons_append, Along, ih, exec_cons]
      constructor
      · rintro ⟨ha, hrest⟩
        exact ⟨⟨ha, fun t ht => (hrest t ht).1⟩, fun u ⟨t, ht, hu⟩ => (hrest t ht).2 u hu⟩
      · rintro ⟨⟨ha, has⟩, hbs⟩
        exact ⟨ha, fun t ht => ⟨has t ht, fun u hu => hbs u ⟨t, ht, hu⟩⟩⟩

/-- The induction rule for runs. The invariant may speak about the actions
    taken so far, and a step may use the condition the run keeps. -/
theorem exec_history (Inv : List α → σ → Prop) (s : σ) (hinit : Inv [] s)
    (hstep : ∀ as t a u, Inv as t → ok t a → step t a = some u → Inv (as ++ [a]) u)
    (as : List α) (t : σ) (hok : Along step ok s as) (hrun : exec step s as = some t) :
    Inv as t := by
  induction as using List.reverseRecOn generalizing t with
  | nil =>
      simp only [exec, Option.some.injEq] at hrun
      rw [← hrun]
      exact hinit
  | append_singleton as a ih =>
      rcases (exec_snoc step s t as a).mp hrun with ⟨u, hu, ht⟩
      rcases (along_append step ok s as [a]).mp hok with ⟨has, ha⟩
      exact hstep as u a t (ih u has hu) (ha u hu).1 ht

/-- Two conditions along a run are one. -/
theorem along_and (ok ok' : σ → α → Prop) (s : σ) (as : List α) (h : Along step ok s as)
    (h' : Along step ok' s as) :
    Along step (fun t a => ok t a ∧ ok' t a) s as := by
  induction as generalizing s with
  | nil => exact trivial
  | cons a as ih =>
      exact ⟨⟨h.1, h'.1⟩, fun t ht => ih t (h.2 t ht) (h'.2 t ht)⟩

/-- What an invariant makes of a condition holds along the same runs. -/
theorem along_of_along (ok ok' : σ → α → Prop) (Inv : σ → Prop)
    (hstep : ∀ s a t, Inv s → ok s a → step s a = some t → Inv t)
    (hok : ∀ s a, Inv s → ok s a → ok' s a) (s : σ) (as : List α) (hinit : Inv s)
    (h : Along step ok s as) : Along step ok' s as := by
  induction as generalizing s with
  | nil => exact trivial
  | cons a as ih =>
      exact ⟨hok s a hinit h.1, fun t ht => ih t (hstep s a t hinit h.1 ht) (h.2 t ht)⟩

/-- Two conditions that agree wherever a run gets to, as long as it keeps the
    first one, are kept by the same runs. -/
theorem along_iff (ok ok' : σ → α → Prop) (Inv : σ → Prop)
    (hkeep : ∀ s a t, Inv s → ok s a → step s a = some t → Inv t)
    (hiff : ∀ s a t, Inv s → step s a = some t → (ok s a ↔ ok' s a)) (s t : σ) (as : List α)
    (hs : Inv s) (hrun : exec step s as = some t) : Along step ok s as ↔ Along step ok' s as := by
  induction as generalizing s with
  | nil => exact Iff.rfl
  | cons a as ih =>
      rcases (exec_cons step s t a as).mp hrun with ⟨u, hu, hrest⟩
      have hfirst := hiff s a u hs hu
      simp only [Along, hu, Option.some.injEq, forall_eq', hfirst]
      exact and_congr_right (fun hok => ih u (hkeep s a u hs (hfirst.mpr hok) hu) hrest)

/-- A condition that only looks at the actions is a condition along the run. -/
theorem along_of_forall_mem (s : σ) (as : List α) (h : ∀ a ∈ as, ∀ t, ok t a) :
    Along step ok s as := by
  induction as generalizing s with
  | nil => exact trivial
  | cons a as ih =>
      exact ⟨h a List.mem_cons_self s, fun t _ => ih t (fun b hb => h b (List.mem_cons_of_mem a hb))⟩

/-- A run that asks for nothing keeps its condition. -/
theorem along_true (s : σ) (as : List α) : Along step (fun _ _ => True) s as :=
  along_of_forall_mem step _ s as (fun _ _ _ => trivial)

/-- What every step keeps, every run keeps. -/
theorem exec_invariant (Inv : σ → Prop) (hstep : ∀ s a t, Inv s → step s a = some t → Inv t)
    (s t : σ) (as : List α) (hinit : Inv s) (hrun : exec step s as = some t) : Inv t :=
  exec_history step (fun _ _ => True) (fun _ => Inv) s hinit
    (fun _ u a v hu _ hv => hstep u a v hu hv) as t (along_true step s as) hrun

/-- A machine whose actions are all enabled. -/
def total (next : σ → α → σ) (s : σ) (a : α) : Option σ := some (next s a)

theorem exec_total (next : σ → α → σ) (s : σ) (as : List α) :
    exec (total next) s as = some (as.foldl next s) := by
  induction as generalizing s with
  | nil => rfl
  | cons a as ih => exact ih (next s a)

/-- A property that holds in every state of a run exactly when a condition is
    met all along. The invariant is what the steps that meet the condition
    keep; it gives the property, and the property gives the condition back. -/
theorem along_total_iff (next : σ → α → σ) (ok : σ → α → Prop) (Inv P : σ → Prop) (s : σ)
    (as : List α) (hinv : ∀ s, Inv s → P s)
    (hkeep : ∀ s, ∀ a ∈ as, Inv s → ok s a → Inv (next s a))
    (hok : ∀ s, ∀ a ∈ as, Inv s → P (next s a) → ok s a) (hs : Inv s) :
    (∀ before, before <+: as → P (before.foldl next s)) ↔ Along (total next) ok s as := by
  induction as generalizing s with
  | nil =>
      refine iff_of_true (fun before hbefore => ?_) trivial
      rw [List.prefix_nil.mp hbefore]
      exact hinv s hs
  | cons a as ih =>
      have htail := fun t ht => ih t
        (fun u b hb => hkeep u b (List.mem_cons_of_mem a hb))
        (fun u b hb => hok u b (List.mem_cons_of_mem a hb)) ht
      constructor
      · intro h
        have hfirst : ok s a :=
          hok s a List.mem_cons_self hs (h [a] ((List.prefix_cons_inj a).mpr List.nil_prefix))
        refine ⟨hfirst, fun t ht => ?_⟩
        cases ht
        refine (htail (next s a) (hkeep s a List.mem_cons_self hs hfirst)).mp ?_
        intro before hbefore
        exact h (a :: before) ((List.prefix_cons_inj a).mpr hbefore)
      · rintro ⟨hfirst, hrest⟩ before hbefore
        cases before with
        | nil => exact hinv s hs
        | cons b before =>
            rw [List.cons_prefix_cons] at hbefore
            rw [hbefore.1]
            exact (htail (next s a) (hkeep s a List.mem_cons_self hs hfirst)).mpr
              (hrest _ rfl) before hbefore.2

end Machine

end DccMcp
