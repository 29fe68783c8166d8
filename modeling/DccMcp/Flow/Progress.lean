import DccMcp.Lib.Tokens
import DccMcp.Flow.Bindings

/-!
# Progress of a Run

What the numbers in the updates of a run are worth.

The total is counted once, over the tree of the specification. The number of
completed steps is counted while the run goes on, each time a step is left
with success or skipped. A body that runs once for each item of a loop is
counted once in the total, and once for each item in the other number.

An update is also not one atomic piece. The counter is read first, behind its
lock, and the notifier gets the number afterwards. Another branch can count a
step and send its own update in between. The drivers are taken apart here at
this place, and left as they are everywhere else.

Between the entry of a step and its end, the thread that runs it holds a
token. The tokens and the counter together are the number of steps that were
entered, and that is the whole argument: if no step is entered twice, then
there are at most as many as the tree has, and at the end there are no tokens
left unless a step has failed.

## Main definitions

* `Fine`, `split`, `fineStep`: Runs in which an update is two actions.
* `stepTokens`: The tokens of the steps that were entered.
* `Orderly`: No step is entered twice, and no step is counted inside of an
  update.
* `Truthful`: The numbers of a list of updates are as they should be.

## Theorems

* `progress_truthful`: The numbers of orderly runs are right.
* `completed_exceeds_total`: A run that is not orderly.
-/

namespace DccMcp

namespace Workflow

open Json Process Machine

/-! ## The total -/

mutual

/-- The number of steps in a step, with itself. -/
def Step.count : Step → Nat
  | .mk _ kind _ => 1 + kind.count

def StepKind.count : StepKind → Nat
  | .foreach _ _ steps | .parallel steps => countStepsIn steps
  | .branch _ thenSteps elseSteps => countStepsIn thenSteps + countStepsIn elseSteps
  | .tool _ _ | .toolRemote _ _ _ | .approve _ => 0

/-- `count`, the recursion of `count_steps`. -/
def countStepsIn : List Step → Nat
  | [] => 0
  | step :: rest => step.count + countStepsIn rest

end

mutual

theorem Step.count_eq (step : Step) : step.count = step.ids.length := by
  cases step with
  | mk id kind policy =>
      rw [Step.count, Step.ids, StepKind.count_eq kind, List.length_cons, Nat.add_comm]

theorem StepKind.count_eq (kind : StepKind) : kind.count = kind.ids.length := by
  cases kind with
  | tool | toolRemote | approve => rfl
  | foreach items name steps | parallel steps =>
      rw [StepKind.count, StepKind.ids, countStepsIn_eq steps]
  | branch on thenSteps elseSteps =>
      rw [StepKind.count, StepKind.ids, List.length_append, countStepsIn_eq thenSteps,
        countStepsIn_eq elseSteps]

/-- The total is the number of the ids of all steps. -/
theorem countStepsIn_eq (steps : List Step) : countStepsIn steps = (stepIds steps).length := by
  cases steps with
  | nil => rfl
  | cons step rest =>
      rw [countStepsIn, stepIds, List.length_append, Step.count_eq step, countStepsIn_eq rest]

end

/-! ## Updates in two pieces -/

/-- The atomic pieces, with an update taken apart. -/
inductive Fine
  | plain (a : Action)
  | progress
  | notify (status : WorkflowStatus) (step : Option String) (completed : Nat) (detail : Value)

/-- What a piece answers. -/
def Fine.Answer : Fine → Type
  | .plain a => a.Answer
  | .progress => Nat
  | .notify _ _ _ _ => Unit

/-- The processes of the drivers, with updates taken apart. -/
abbrev FineProcess := Process Fine Fine.Answer WorkflowStatus

/-- `RunState::emit` is `RunState::progress` and the emission by the notifier.
    Everything else is one piece. -/
def splitAct (a : Action) (k : a.Answer → FineProcess) : FineProcess :=
  match a, k with
  | .emit status step detail, k =>
    .act .progress (fun n => .act (.notify status step n detail) (fun _ => k ()))
  | a, k => .act (.plain a) k

/-- A process with its updates taken apart. -/
def split : Process Action Action.Answer WorkflowStatus → FineProcess
  | .done r => .done r
  | .act a k => splitAct a (fun b => split (k b))
  | .par n branches k => .par n (fun i => split (branches i)) (fun rs => split (k rs))

/-- One piece on the shared state. -/
def performFine (run : RunState) : (a : Fine) → Answer → State → Option (a.Answer × State)
  | .plain a, answer, s => perform run a answer s
  | .progress, .nothing, s => some (s.completed, s)
  | .notify status step completed detail, .nothing, s =>
    some ((), { s with
      updates := s.updates ++ [⟨status, step, completed, run.totalSteps, detail⟩] })
  | _, _, _ => none

/-- A run in progress. -/
structure FineConfig where
  process : FineProcess
  state : State

/-- One event of a run. -/
def fineStep (run : RunState) (c : FineConfig) : Event → Option FineConfig
  | .act path answer =>
    (stepAt (performFine run) path answer c.process c.state).map (fun r => ⟨r.1, r.2⟩)
  | .cancel => some { c with state := { c.state with cancelled := true } }

/-- A run, before its updates are taken apart. -/
def Config.split (c : Config) : FineConfig := ⟨Workflow.split c.process, c.state⟩

/-! ## What is right about updates -/

/-- The steps that were entered or skipped, by the updates. -/
def enteredIds (updates : List WorkflowUpdate) : List String :=
  updates.filterMap (fun u => if entersStep u.detail then u.currentStepId else none)

/-- The numbers of a list of updates are right: they do not exceed the total
    and do not fall, and they are the total when the workflow completes and
    every step was entered or skipped. -/
def Truthful (ids : List String) (updates : List WorkflowUpdate) : Prop :=
  ∀ before u after, updates = before ++ u :: after →
    u.completedSteps ≤ u.totalSteps ∧ (∀ v ∈ before, v.completedSteps ≤ u.completedSteps) ∧
      (u.status = .completed → (∀ id ∈ ids, id ∈ enteredIds before) →
        u.completedSteps = u.totalSteps)

/-- The condition on a piece: the step that is entered was not entered before,
    and the counter is still what was read. -/
def Fine.Orderly (s : State) : Fine → Prop
  | .notify _ step completed detail =>
    (entersStep detail = true → ∀ id ∈ step, id ∉ enteredIds s.updates) ∧ completed = s.completed
  | _ => True

/-- The condition on an event of a run. -/
def Orderly (c : FineConfig) : Event → Prop
  | .act path _ => ∀ a ∈ actionAt path c.process, a.Orderly c.state
  | .cancel => True

/-! ## The tokens of entered steps -/

section Tokens

variable (ids : List String)

/-- A step that is entered gives a token, and one that is counted takes it. The
    run is announced as completed by the first thread, when it has none. A
    thread keeps tokens only if it was cancelled or has failed. -/
def stepTokens : TokenRules Action WorkflowStatus where
  moves depth _ a before after :=
    match a with
    | .incCompleted => before = after + 1
    | .emit status step detail =>
      if entersStep detail then (∃ id ∈ ids, step = some id) ∧ status ≠ .completed ∧
        after = before + 1
      else after = before ∧ (status = .completed → depth = 0 ∧ before = 0)
    | _ => after = before
  ends r n := n = 0 ∨ r = .cancelled ∨ r = .failed

/-- The same for the pieces of an update. -/
def fineTokens : TokenRules Fine WorkflowStatus where
  moves depth outer a before after :=
    match a with
    | .plain (.emit _ _ _) => False
    | .plain a => (stepTokens ids).moves depth outer a before after
    | .progress => after = before
    | .notify status step _ detail =>
      (stepTokens ids).moves depth outer (.emit status step detail) before after
  ends := (stepTokens ids).ends

/-- Taking the updates apart does not change the tokens. -/
theorem holds_split (p : Process Action Action.Answer WorkflowStatus) (depth outer own : Nat)
    (h : Holds (stepTokens ids) p depth outer own) :
    Holds (fineTokens ids) (split p) depth outer own := by
  induction p generalizing depth outer own with
  | done r => exact h
  | act a k ih =>
      rcases h with ⟨own', hmoves, hrest⟩
      have hrest' := fun b => ih b depth outer own' (hrest b)
      cases a with
      | emit status step detail =>
          exact ⟨own, rfl, fun _ => ⟨own', hmoves, fun _ => hrest' ()⟩⟩
      | _ => exact ⟨own', hmoves, hrest'⟩
  | par n branches k ihbranches ihk =>
      rcases h with ⟨fork, holds, hown, hbranches, hrest⟩
      exact ⟨fork, holds, hown, fun i => ihbranches i _ _ _ (hbranches i),
        fun rs left hleft => ihk rs _ _ _ (hrest rs left hleft)⟩

/-- A program that leaves the tokens alone. -/
def Idle (ρ : Type) (m : Program ρ) : Prop :=
  ∀ e, Block.Triple (stepTokens ids) e (fun _ n => n = e) m

theorem idle_act (a : Action) (hquiet : a.Quiet) : Idle ids a.Answer (Block.act a) := by
  intro e
  refine Block.triple_act _ e e a (fun depth outer own => ?_)
  cases a with
  | incCompleted => exact hquiet.elim
  | emit status step detail =>
      rcases hquiet with ⟨hstatus, hdetail⟩
      simp only [stepTokens, hdetail, Bool.false_eq_true, if_false, true_and]
      exact fun h => absurd h hstatus
  | _ => rfl

theorem idle_bind {ρ τ : Type} (m : Program ρ) (f : ρ → Program τ) (hm : Idle ids ρ m)
    (hf : ∀ r, Idle ids τ (f r)) : Idle ids τ (m >>= f) := by
  intro e
  refine Block.triple_bind _ e _ _ m f (hm e) (fun r n hn => ?_)
  rw [hn]
  exact hf r e

/-- Tools and approvals leave the tokens alone. -/
theorem driven_idle : Driven (fun _ => True) (fun _ ρ m => Idle ids ρ m) where
  pure r e := Block.triple_pure _ e _ r rfl
  bind hm hf := idle_bind ids _ _ hm hf
  act a _ hquiet _ := idle_act ids a hquiet

/-- The tokens a step may end with, that started with `e`: the same if it
    succeeds. -/
def Settled (e : Nat) : StepOutcome → Nat → Prop
  | .ok, n => n = e
  | .cancelled, _ | .failed _, _ => True

/-- The tokens a sequence may end with. -/
def SettledStatus (e : Nat) (status : WorkflowStatus) (n : Nat) : Prop :=
  n = e ∨ status = .cancelled ∨ status = .failed

/-- A program of a step settles what it takes on. -/
def Settles (m : Program StepOutcome) : Prop :=
  ∀ e, Block.Triple (stepTokens ids) e (Settled e) m

/-- A program of a sequence settles what it takes on. -/
def SettlesStatus (m : Program WorkflowStatus) : Prop :=
  ∀ e, Block.Triple (stepTokens ids) e (SettledStatus e) m

/-- A quiet action and what follows it. -/
theorem triple_quiet (a : Action) (hquiet : a.Quiet) {τ : Type} (e : Nat)
    (after : τ → Nat → Prop) (f : a.Answer → Program τ)
    (hf : ∀ r, Block.Triple (stepTokens ids) e after (f r)) :
    Block.Triple (stepTokens ids) e after (Block.act a >>= f) := by
  refine Block.triple_bind _ e _ after _ f (idle_act ids a hquiet e) (fun r n hn => ?_)
  rw [hn]
  exact hf r

theorem settles_of_idle (m : Program StepOutcome) (h : Idle ids StepOutcome m) : Settles ids m := by
  intro e
  refine Block.triple_weaken _ e _ _ m (fun r n hn => ?_) (h e)
  cases r with
  | ok => exact hn
  | cancelled | failed => trivial

theorem settles_drive (steps : List (Program StepOutcome)) (h : ∀ step ∈ steps, Settles ids step) :
    SettlesStatus ids (drive steps) := by
  intro e
  induction steps with
  | nil => exact Block.triple_pure _ e _ _ (.inl rfl)
  | cons step rest ih =>
      refine triple_quiet ids .isCancelled trivial e _ _ (fun stopped => ?_)
      split
      · exact Block.triple_pure _ e _ _ (.inr (.inl rfl))
      refine Block.triple_bind _ e _ _ _ _ (h step List.mem_cons_self e) (fun outcome n hn => ?_)
      cases outcome with
      | ok =>
          rw [show n = e from hn]
          exact ih (fun s hs => h s (List.mem_cons_of_mem step hs))
      | cancelled => exact Block.triple_pure _ n _ _ (.inr (.inl rfl))
      | failed => exact Block.triple_pure _ n _ _ (.inr (.inr rfl))

/-- The tokens an iteration, or all of them, may end with. -/
def SettledLoop {α : Type} (e : Nat) : Except StepOutcome α → Nat → Prop
  | .ok _, n => n = e
  | .error outcome, _ => outcome ≠ .ok

theorem settles_iterations (body : List Binding → Program WorkflowStatus)
    (hbody : ∀ inner, SettlesStatus ids (body inner)) (scope : List Binding) (name : String)
    (i : Nat) (items outputs : List Value) (e : Nat) :
    Block.Triple (stepTokens ids) e (SettledLoop e)
      (iterations body scope name i items outputs) := by
  induction items generalizing i outputs with
  | nil => exact Block.triple_pure _ e _ _ rfl
  | cons item rest ih =>
      refine triple_quiet ids .isCancelled trivial e _ _ (fun stopped => ?_)
      split
      · exact Block.triple_pure _ e _ _ nofun
      refine Block.triple_bind _ e (SettledLoop e) _ _ _ ?_ (fun result n hn => ?_)
      · -- The binding around the body has nothing to do with the tokens.
        refine triple_quiet ids (.pushItem scope name item) trivial e _ _ (fun tag => ?_)
        refine Block.triple_bind _ e (SettledLoop e) _ _ _ ?_ (fun result n hn => ?_)
        · refine Block.triple_bind _ e _ _ _ _ (hbody _ e) (fun status n hn => ?_)
          cases status with
          | completed =>
              have heq : n = e := hn.resolve_right (fun h => h.elim nofun nofun)
              rw [heq]
              refine triple_quiet ids .stepsSnapshot trivial e _ _ (fun snapshot => ?_)
              exact Block.triple_pure _ e _ _ rfl
          | _ => exact Block.triple_pure _ n _ _ nofun
        · refine triple_quiet ids (.popItem _ name) trivial n _ _ (fun _ => ?_)
          exact Block.triple_pure _ n _ _ hn
      · cases result with
        | error outcome => exact Block.triple_pure _ n _ _ hn
        | ok output =>
            rw [show n = e from hn]
            exact ih _ _

theorem idle_recordOutput (id : String) (out : StepOutput) : Idle ids _ (recordOutput id out) :=
  idle_bind ids _ _ (idle_act ids (.recordStep id out) trivial)
    (fun _ => idle_act ids (.recordOutputSnapshot id out.output) trivial)

/-- An output is recorded, and the outcome is fixed. -/
theorem settles_record (id : String) (out : StepOutput) (e : Nat) (outcome : StepOutcome)
    (f : Unit → Program StepOutcome) (hf : ∀ r, f r = pure outcome) (n : Nat)
    (h : Settled e outcome n) :
    Block.Triple (stepTokens ids) n (Settled e) (recordOutput id out >>= f) := by
  refine Block.triple_bind _ n _ _ _ f (idle_recordOutput ids id out n) (fun r n' hn' => ?_)
  rw [hn', hf r]
  exact Block.triple_pure _ n _ _ h

section Drivers

variable (run : RunState) (scope : List Binding) (id : String)

theorem settles_runForeach (items name : String) (body : List Binding → Program WorkflowStatus)
    (hbody : ∀ inner, SettlesStatus ids (body inner)) :
    Settles ids (runForeach run scope id items name body) := by
  intro e
  refine triple_quiet ids (.asJson scope) trivial e _ _ (fun root => ?_)
  split
  · exact Block.triple_pure _ e _ _ trivial
  refine Block.triple_bind _ e _ _ _ _ (settles_iterations ids body hbody scope name _ _ _ e)
    (fun result n hn => ?_)
  cases result with
  | error outcome =>
      refine Block.triple_pure _ n _ _ ?_
      cases outcome with
      | ok => exact absurd rfl hn
      | cancelled | failed => trivial
  | ok outputs => exact settles_record ids id _ e .ok _ (fun _ => rfl) n hn

theorem settles_runBranch (on : String) (thenBody elseBody : Program WorkflowStatus)
    (hthen : SettlesStatus ids thenBody) (helse : SettlesStatus ids elseBody) :
    Settles ids (runBranch run scope id on thenBody elseBody) := by
  intro e
  refine triple_quiet ids (.asJson scope) trivial e _ _ (fun root => ?_)
  split
  · exact Block.triple_pure _ e _ _ trivial
  refine Block.triple_bind _ e _ _ _ _ (idle_recordOutput ids id _ e) (fun _ n hn => ?_)
  rw [hn]
  refine Block.triple_bind _ e (SettledStatus e) _ _ _ ?_ (fun status n hn => ?_)
  · split
    · exact hthen e
    · exact helse e
  · cases status with
    | completed => exact Block.triple_pure _ n _ _ (hn.resolve_right (fun h => h.elim nofun nofun))
    | _ => exact Block.triple_pure _ n _ _ trivial

/-- Branches that all leave no tokens leave none together, and a branch that
    leaves some is seen in the results. -/
theorem settles_runParallel (branches : List (Program StepOutcome))
    (h : ∀ branch ∈ branches, Settles ids branch) : Settles ids (runParallel run id branches) := by
  intro e
  refine Block.triple_bind _ e _ _ _ _ (Block.triple_par _ e _ (fun m hm => ?_))
    (fun results n hn => ?_)
  · rcases List.mem_map.mp hm with ⟨branch, hbranch, rfl⟩
    refine settles_drive ids [branch] (fun s hs => ?_) 0
    rw [List.mem_singleton.mp hs]
    exact h branch hbranch
  rcases hn with ⟨left, results, rfl, hleft, hsum⟩
  refine Block.triple_bind _ n _ _ _ _ (idle_recordOutput ids id _ n) (fun _ n' hn' => ?_)
  rw [hn']
  split
  · exact Block.triple_pure _ n _ _ trivial
  next hcancelled =>
    split
    · exact Block.triple_pure _ n _ _ trivial
    next hfailed =>
      refine Block.triple_pure _ n _ _ ?_
      have hzero : ∀ i, left i = 0 := by
        intro i
        rcases hleft i with h0 | hc | hf
        · exact h0
        · exact absurd (List.any_eq_true.mpr ⟨_, List.mem_ofFn.mpr ⟨i, rfl⟩, by simp [hc]⟩)
            hcancelled
        · exact absurd (List.any_eq_true.mpr ⟨_, List.mem_ofFn.mpr ⟨i, rfl⟩, by simp [hf]⟩)
            hfailed
      simp only [hzero, Finset.sum_const_zero, Nat.add_zero] at hsum
      exact hsum

/-- A step that is counted loses its token. -/
theorem triple_incCompleted (e : Nat) :
    Block.Triple (stepTokens ids) (e + 1) (fun _ n => n = e) incCompleted :=
  Block.triple_act _ (e + 1) e Action.incCompleted (fun _ _ _ => rfl)

/-- A step that ends well is counted and loses its token. -/
theorem triple_leaveStep (outcome : StepOutcome) (e n : Nat) (h : Settled (e + 1) outcome n) :
    Block.Triple (stepTokens ids) n (Settled e) (leaveStep id outcome) := by
  cases outcome with
  | ok =>
      rw [show n = e + 1 from h]
      refine Block.triple_bind _ (e + 1) _ _ _ _ (triple_incCompleted ids e) (fun _ n hn => ?_)
      rw [hn]
      refine triple_quiet ids (.emit .running (some id) _) ⟨nofun, rfl⟩ e _ _ (fun _ => ?_)
      refine triple_quiet ids (.step id) trivial e _ _ (fun _ => ?_)
      refine triple_quiet ids (.upsertStep id _ _ _) trivial e _ _ (fun _ => ?_)
      exact Block.triple_pure _ e _ _ rfl
  | cancelled =>
      refine triple_quiet ids (.emit .cancelled (some id) _) ⟨nofun, rfl⟩ n _ _ (fun _ => ?_)
      refine triple_quiet ids (.upsertStep id _ _ _) trivial n _ _ (fun _ => ?_)
      exact Block.triple_pure _ n _ _ trivial
  | failed error =>
      refine triple_quiet ids (.emit .failed (some id) _) ⟨nofun, rfl⟩ n _ _ (fun _ => ?_)
      refine triple_quiet ids (.upsertStep id _ _ _) trivial n _ _ (fun _ => ?_)
      exact Block.triple_pure _ n _ _ trivial

/-- The announcement that a step is entered or skipped gives a token. -/
theorem triple_enter (hid : id ∈ ids) (detail : Value) (hdetail : entersStep detail = true)
    (e : Nat) :
    Block.Triple (stepTokens ids) e (fun _ n => n = e + 1)
      (Block.act (Action.emit .running (some id) detail) : Program Unit) := by
  refine Block.triple_act _ e (e + 1) _ (fun depth outer own => ?_)
  simp only [stepTokens, hdetail, if_true]
  exact ⟨⟨id, hid, rfl⟩, nofun, rfl⟩

theorem settles_enterStep (hid : id ∈ ids) (driver : Program StepOutcome)
    (h : Settles ids driver) : Settles ids (enterStep run id driver) := by
  intro e
  refine triple_quiet ids .isCancelled trivial e _ _ (fun stopped => ?_)
  split
  · exact Block.triple_pure _ e _ _ trivial
  split
  · refine Block.triple_bind _ e _ _ _ _ (triple_enter ids id hid _ rfl e) (fun _ n hn => ?_)
    rw [hn]
    refine Block.triple_bind _ (e + 1) _ _ _ _ (triple_incCompleted ids e) (fun _ n hn => ?_)
    exact Block.triple_pure _ n _ _ hn
  · refine Block.triple_bind _ e _ _ _ _ (triple_enter ids id hid _ rfl e) (fun _ n hn => ?_)
    rw [hn]
    refine triple_quiet ids (.upsertStep id _ _ _) trivial (e + 1) _ _ (fun _ => ?_)
    refine triple_quiet ids (.updateWorkflowStatus _ _) trivial (e + 1) _ _ (fun _ => ?_)
    exact Block.triple_bind _ (e + 1) _ _ _ _ (h (e + 1))
      (fun outcome n hn => triple_leaveStep ids id outcome e n hn)

end Drivers

mutual

/-- Every step settles what it takes on. -/
theorem settles_runStep (run : RunState) (scope : List Binding) (step : Step)
    (hids : ∀ id ∈ step.ids, id ∈ ids) : Settles ids (runStep run scope step) := by
  cases step with
  | mk id kind policy =>
      exact settles_enterStep ids run id (hids id List.mem_cons_self) _
        (settles_runKind run scope id policy kind
          (fun id' h => hids id' (List.mem_cons_of_mem id h)))

theorem settles_runKind (run : RunState) (scope : List Binding) (id : String)
    (policy : StepPolicy) (kind : StepKind) (hids : ∀ id ∈ kind.ids, id ∈ ids) :
    Settles ids (runKind run scope id policy kind) := by
  cases kind with
  | tool tool args | toolRemote dcc tool args =>
      exact settles_of_idle ids _ ((driven_idle ids).runWithPolicy run id trivial policy args _)
  | approve prompt =>
      exact settles_of_idle ids _ ((driven_idle ids).runApprove run id trivial policy prompt)
  | foreach items name steps =>
      exact settles_runForeach ids run scope id items name _
        (fun inner => settles_drive ids _ (settles_runSteps run inner steps hids))
  | parallel steps => exact settles_runParallel ids run id _ (settles_runSteps run scope steps hids)
  | branch on thenSteps elseSteps =>
      exact settles_runBranch ids run scope id on _ _
        (settles_drive ids _ (settles_runSteps run scope thenSteps
          (fun id' h => hids id' (List.mem_append_left _ h))))
        (settles_drive ids _ (settles_runSteps run scope elseSteps
          (fun id' h => hids id' (List.mem_append_right _ h))))

theorem settles_runSteps (run : RunState) (scope : List Binding) (steps : List Step)
    (hids : ∀ id ∈ stepIds steps, id ∈ ids) :
    ∀ program ∈ runSteps run scope steps, Settles ids program := by
  cases steps with
  | nil => exact fun program h => absurd h List.not_mem_nil
  | cons step rest =>
      intro program h
      rcases List.mem_cons.mp h with rfl | hrest
      · exact settles_runStep run scope step (fun id' h' => hids id' (List.mem_append_left _ h'))
      · exact settles_runSteps run scope rest (fun id' h' => hids id' (List.mem_append_right _ h'))
          program hrest

end

/-- The programs of the executor keep to the rules. At the end of the run there
    are no tokens if it has completed. -/
theorem holds_runProgram (run : RunState) (steps : List Step)
    (hids : ∀ id ∈ stepIds steps, id ∈ ids) :
    Holds (stepTokens ids) (runProgram run steps).toProcess 0 0 0 := by
  refine settles_drive ids _ (settles_runSteps ids run [] steps hids) 0 _ 0 0 0
    (fun terminal n hn => ?_)
  rw [Nat.zero_add]
  refine ⟨n, rfl, fun _ => ⟨n, rfl, fun _ => ⟨n, ⟨rfl, fun h => ⟨rfl, ?_⟩⟩, fun _ => hn⟩⟩⟩
  exact hn.resolve_right (fun h' => h'.elim (fun h' => absurd (h'.symm.trans h) nofun)
    (fun h' => absurd (h'.symm.trans h) nofun))

end Tokens

/-! ## Orderly runs -/

variable (ids : List String) (run : RunState)

/-- One more update. -/
theorem truthful_append (updates : List WorkflowUpdate) (u : WorkflowUpdate)
    (h : Truthful ids updates) (hle : u.completedSteps ≤ u.totalSteps)
    (hold : ∀ v ∈ updates, v.completedSteps ≤ u.completedSteps)
    (hend : u.status = .completed → (∀ id ∈ ids, id ∈ enteredIds updates) →
      u.completedSteps = u.totalSteps) : Truthful ids (updates ++ [u]) := by
  intro before v after hsplit
  rcases List.eq_nil_or_concat after with rfl | ⟨rest, last, rfl⟩
  · rcases List.append_inj' hsplit rfl with ⟨hbefore, hv⟩
    obtain rfl : u = v := List.head_eq_of_cons_eq hv
    rw [← hbefore]
    exact ⟨hle, hold, hend⟩
  · refine h before v rest ?_
    rw [List.concat_eq_append, ← List.cons_append, ← List.append_assoc] at hsplit
    exact (List.append_inj' hsplit rfl).1

/-- The invariant of orderly runs. The counter and the tokens together are the
    number of steps that were entered. -/
structure Tallied (ids : List String) (run : RunState) (c : FineConfig) : Prop where
  tokens : ∃ own, Holds (fineTokens ids) c.process 0 0 own ∧
    c.state.completed + own = (enteredIds c.state.updates).length
  nodup : (enteredIds c.state.updates).Nodup
  subset : ∀ id ∈ enteredIds c.state.updates, id ∈ ids
  seen : ∀ u ∈ c.state.updates, u.completedSteps ≤ c.state.completed
  truthful : Truthful ids c.state.updates

/-- What the pieces other than updates do to the counter and the updates. -/
theorem effect_progress (a : Action) (answer : Answer) (s : State) (depth outer before after : Nat)
    (h : (fineTokens ids).moves depth outer (.plain a) before after) :
    (effect run a answer s).updates = s.updates ∧
      s.completed ≤ (effect run a answer s).completed ∧
      (effect run a answer s).completed + after = s.completed + before := by
  cases a with
  | emit => exact h.elim
  | incCompleted =>
      have hcount : before = after + 1 := h
      refine ⟨rfl, Nat.le_succ _, ?_⟩
      simp only [effect]
      omega
  | idempotencyPut =>
      have hsame : after = before := h
      cases answer <;> exact ⟨rfl, le_rfl, by rw [hsame]; rfl⟩
  | _ =>
      have hsame : after = before := h
      exact ⟨rfl, le_rfl, by rw [hsame]; rfl⟩

/-- Reading the counter changes nothing. -/
theorem performFine_progress (answer : Answer) (s s' : State) (b : Fine.progress.Answer)
    (h : performFine run .progress answer s = some (b, s')) :
    s' = s := by
  cases answer with
  | nothing => exact (Prod.mk.inj (Option.some.inj h)).2.symm
  | _ => exact nomatch h

/-- The notifier gets the number that was read. -/
theorem performFine_notify (status : WorkflowStatus) (step : Option String) (completed : Nat)
    (detail : Value) (answer : Answer) (s s' : State)
    (b : (Fine.notify status step completed detail).Answer)
    (h : performFine run (.notify status step completed detail) answer s = some (b, s')) :
    s' = { s with
      updates := s.updates ++ [⟨status, step, completed, run.totalSteps, detail⟩] } := by
  cases answer with
  | nothing => exact (Prod.mk.inj (Option.some.inj h)).2.symm
  | _ => exact nomatch h

theorem enteredIds_append (updates : List WorkflowUpdate) (u : WorkflowUpdate) :
    enteredIds (updates ++ [u]) =
      enteredIds updates ++ (if entersStep u.detail then u.currentStepId.toList else []) := by
  unfold enteredIds
  rw [List.filterMap_append]
  by_cases h : entersStep u.detail = true
  · rw [if_pos h]
    cases hid : u.currentStepId <;>
      simp [h, hid]
  · rw [if_neg h]
    simp [List.filterMap_nil, h]

/-- An update in an orderly run. -/
theorem tallied_notify (hids : ids.Nodup) (htotal : run.totalSteps = ids.length) (c : FineConfig)
    (h : Tallied ids run c)
    (status : WorkflowStatus) (id : Option String) (completed : Nat) (detail : Value)
    (horderly : Fine.Orderly c.state (.notify status id completed detail))
    (p' : FineProcess) (own own' depth outer before after : Nat)
    (htokens : c.state.completed + own = (enteredIds c.state.updates).length)
    (hmoves : (stepTokens ids).moves depth outer (.emit status id detail) before after)
    (hroot : depth = 0 → before = own) (hsum : own' + before = own + after)
    (hp' : Holds (fineTokens ids) p' 0 0 own') :
    Tallied ids run ⟨p', { c.state with
      updates := c.state.updates ++ [⟨status, id, completed, run.totalSteps, detail⟩] }⟩ := by
  rcases horderly with ⟨hnew, hread⟩
  have hlength := (h.nodup.subperm h.subset).length_le
  have hentered := enteredIds_append c.state.updates ⟨status, id, completed, run.totalSteps, detail⟩
  have htruthful : (status = .completed → own = 0) →
      Truthful ids (c.state.updates ++ [⟨status, id, completed, run.totalSteps, detail⟩]) := by
    intro hend
    refine truthful_append ids _ _ h.truthful ?_ ?_ ?_
    · dsimp only
      omega
    · intro v hv
      have hseen := h.seen v hv
      dsimp only
      omega
    · intro hstatus hall
      have hzero := hend hstatus
      have hfull := (hids.subperm hall).length_le
      dsimp only
      omega
  have hseen : ∀ u ∈ c.state.updates ++ [⟨status, id, completed, run.totalSteps, detail⟩],
      u.completedSteps ≤ c.state.completed := by
    intro u hu
    rcases List.mem_append.mp hu with hu | hu
    · exact h.seen u hu
    · rw [List.mem_singleton.mp hu]
      exact hread.le
  by_cases hdetail : entersStep detail = true
  · -- The step is a new one, and its token is a new one.
    simp only [stepTokens, hdetail, if_true] at hmoves
    rcases hmoves with ⟨⟨step, hstep, rfl⟩, hstatus, hafter⟩
    have hfresh := hnew hdetail step rfl
    rw [if_pos hdetail] at hentered
    refine ⟨⟨own', hp', ?_⟩, ?_, ?_, hseen, htruthful (fun hc => absurd hc hstatus)⟩
    · rw [hentered, List.length_append]
      simp only [Option.toList, List.length_singleton]
      omega
    · rw [hentered]
      exact List.nodup_append.mpr ⟨h.nodup, List.nodup_singleton step, fun x hx y hy heq =>
        hfresh (List.mem_singleton.mp hy ▸ heq ▸ hx)⟩
    · intro x hx
      rw [hentered] at hx
      rcases List.mem_append.mp hx with hx | hx
      · exact h.subset x hx
      · rw [List.mem_singleton.mp hx]
        exact hstep
  · simp only [stepTokens, hdetail, if_false, Bool.false_eq_true] at hmoves
    rcases hmoves with ⟨hafter, hend⟩
    rw [if_neg hdetail, List.append_nil] at hentered
    refine ⟨⟨own', hp', ?_⟩, ?_, ?_, hseen, htruthful (fun hc => ?_)⟩
    · rw [hentered]
      dsimp only
      omega
    · rw [hentered]
      exact h.nodup
    · rw [hentered]
      exact h.subset
    · rcases hend hc with ⟨hdepth, hbefore⟩
      rw [← hroot hdepth, hbefore]

theorem tallied_step (hids : ids.Nodup) (htotal : run.totalSteps = ids.length) (c c' : FineConfig)
    (e : Event)
    (h : Tallied ids run c) (horderly : Orderly c e) (hstep : fineStep run c e = some c') :
    Tallied ids run c' := by
  cases e with
  | cancel =>
      rw [← Option.some.inj hstep]
      exact ⟨h.tokens, h.nodup, h.subset, h.seen, h.truthful⟩
  | act path answer =>
      rcases Option.map_eq_some_iff.mp hstep with ⟨⟨p', s'⟩, hat, rfl⟩
      have hlabelled := step_of_stepAt (performFine run) path answer c.process p' c.state s' hat
      rcases h.tokens with ⟨own, hholds, htokens⟩
      rcases step_state (performFine run) _ _ _ _ _ hlabelled with ⟨hlabel, rfl⟩ |
        ⟨a, ans, b, hlabel, hperform⟩ <;> rw [hlabel] at hlabelled
      · exact ⟨⟨own, holds_join _ _ _ _ _ _ hlabelled 0 0 own hholds, htokens⟩, h.nodup, h.subset,
          h.seen, h.truthful⟩
      · rcases holds_act _ _ _ _ _ _ a ans hlabelled 0 0 own hholds with
          ⟨depth, outer, before, after, own', hmoves, hroot, _, hsum, hp'⟩
        have hcond : a.Orderly c.state := by
          rcases Option.map_eq_some_iff.mp hlabel with ⟨a', hat', heq⟩
          rw [← (Prod.mk.inj heq).1]
          exact horderly a' hat'
        cases a with
        | plain a =>
            rcases perform_eq_some run a ans c.state s' b hperform with ⟨_, rfl⟩
            rcases effect_progress ids run a ans c.state depth outer before after hmoves with
              ⟨hupdates, hle, hcompleted⟩
            refine ⟨⟨own', hp', ?_⟩, ?_, ?_, ?_, ?_⟩
            · dsimp only
              rw [hupdates]
              omega
            · exact hupdates ▸ h.nodup
            · exact hupdates ▸ h.subset
            · intro u hu
              dsimp only at hu ⊢
              rw [hupdates] at hu
              exact (h.seen u hu).trans hle
            · exact hupdates ▸ h.truthful
        | progress =>
            obtain rfl := performFine_progress run ans c.state s' b hperform
            have hsame : after = before := hmoves
            exact ⟨⟨own', hp', by dsimp only; omega⟩, h.nodup, h.subset, h.seen, h.truthful⟩
        | notify status id completed detail =>
            rw [performFine_notify run status id completed detail ans c.state s' b hperform]
            exact tallied_notify ids run hids htotal c h status id completed detail hcond p' own
              own' depth outer before after htokens hmoves hroot hsum hp'

/-- A run of a specification that was just started or resumed. -/
inductive Spawned (executor : Executor) (spec : WorkflowSpec) : RunState → Config → Prop
  | started (rootJobId : Uuid) (inputs : Value) (run : RunState) (c : Config)
      (h : start executor rootJobId spec inputs = .ok (run, c)) : Spawned executor spec run c
  | resumed (rootJobId : Uuid) (st : Storage) (opts : ResumeOptions) (run : RunState) (c : Config)
      (hspec : decodeSpec executor.host st.workflow.spec = .ok spec)
      (h : resume executor rootJobId st opts = .ok (run, c)) : Spawned executor spec run c

/-- A run starts with nothing entered and nothing counted, and with one update
    that says so. -/
theorem spawned_progress (executor : Executor) (spec : WorkflowSpec) (run : RunState) (c : Config)
    (h : Spawned executor spec run c) :
    validate executor.host.parseJsonPath spec = .ok () ∧ run.totalSteps = countSteps spec ∧
      c.process = (runProgram run spec.steps).toProcess ∧ c.state.completed = 0 ∧
      ∃ u, c.state.updates = [u] ∧ u.completedSteps = 0 ∧ u.status = .pending ∧
        entersStep u.detail = false := by
  cases h with
  | started rootJobId inputs _ _ h =>
      rcases bind_eq_ok _ _ _ h with ⟨_, hvalid, h⟩
      have heq := Except.ok.inj h
      rw [spawn, Prod.mk.injEq] at heq
      rcases heq with ⟨rfl, rfl⟩
      exact ⟨hvalid, rfl, rfl, rfl, _, rfl, rfl, rfl, rfl⟩
  | resumed rootJobId st opts _ _ hspec h =>
      have hvalid : validate executor.host.parseJsonPath spec = .ok () := by
        unfold decodeSpec at hspec
        split at hspec
        · simp at hspec
        next read _ =>
          split at hspec
          · simp at hspec
          next hvalid =>
            rw [Except.ok.injEq] at hspec
            rw [← hspec, hvalid]
      unfold resume at h
      split at h
      · simp at h
      rcases bind_eq_ok _ _ _ h with ⟨_, _, h⟩
      rcases bind_eq_ok _ _ _ h with ⟨spec', hspec', h⟩
      obtain rfl := Except.ok.inj (hspec.symm.trans hspec')
      rcases bind_eq_ok _ _ _ h with ⟨_, _, h⟩
      have heq := Except.ok.inj h
      rw [spawn, Prod.mk.injEq] at heq
      rcases heq with ⟨rfl, rfl⟩
      exact ⟨hvalid, rfl, rfl, rfl, _, rfl, rfl, rfl, rfl⟩

theorem tallied_spawned (executor : Executor) (spec : WorkflowSpec) (run : RunState) (c : Config)
    (h : Spawned executor spec run c) : Tallied (stepIds spec.steps) run c.split := by
  rcases spawned_progress executor spec run c h with
    ⟨_, _, hprocess, hcompleted, u, hupdates, hu, hstatus, hdetail⟩
  have hentered : enteredIds c.state.updates = [] := by
    simp [hupdates, enteredIds, hdetail]
  refine ⟨⟨0, ?_, ?_⟩, ?_, ?_, ?_, ?_⟩ <;> dsimp only [Config.split]
  · rw [hprocess]
    exact holds_split _ _ 0 0 0 (holds_runProgram _ run spec.steps (fun _ h => h))
  · rw [hcompleted, hentered]
    rfl
  · rw [hentered]
    exact List.nodup_nil
  · rw [hentered]
    exact nofun
  · intro v hv
    rw [hupdates, List.mem_singleton] at hv
    rw [hv, hu]
    exact Nat.zero_le _
  · rw [hupdates]
    refine truthful_append _ [] u ?_ ?_ nofun ?_
    · intro before v after hsplit
      simp [List.nil_eq, List.append_eq_nil_iff] at hsplit
    · rw [hu]
      exact Nat.zero_le _
    · intro hcompleted'
      rw [hstatus] at hcompleted'
      exact nomatch hcompleted'

/-- In every run in which no step is entered twice and no step is counted while
    another branch sends an update, the numbers of all updates are right. -/
theorem progress_truthful (executor : Executor) (spec : WorkflowSpec) (run : RunState) (c : Config)
    (events : List Event) (c' : FineConfig) (hspawned : Spawned executor spec run c)
    (horderly : Along (fineStep run) Orderly c.split events)
    (hrun : exec (fineStep run) c.split events = some c') :
    Truthful (stepIds spec.steps) c'.state.updates := by
  rcases spawned_progress executor spec run c hspawned with ⟨hvalid, htotal, _⟩
  have hids := validate_nodup executor.host.parseJsonPath spec hvalid
  have hinv := exec_history (fineStep run) Orderly (fun _ c => Tallied (stepIds spec.steps) run c)
    c.split (tallied_spawned executor spec run c hspawned)
    (fun _ t e u ht hok hstep => tallied_step _ run hids htotal t u e ht hok hstep)
    events c' horderly hrun
  exact hinv.truthful

/-! ## A loop, and two branches -/

instance decidableOrderlyFine (s : State) : ∀ a : Fine, Decidable (a.Orderly s)
  | .notify _ step completed detail =>
    inferInstanceAs (Decidable
      ((entersStep detail = true → ∀ id ∈ step, id ∉ enteredIds s.updates) ∧
        completed = s.completed))
  | .plain _ | .progress => isTrue trivial

instance decidableOrderly (c : FineConfig) : ∀ e, Decidable (Orderly c e)
  | .act path _ => inferInstanceAs (Decidable (∀ a ∈ actionAt path c.process, a.Orderly c.state))
  | .cancel => isTrue trivial

/-- A loop over shots, with one step in its body. -/
def shotsLoop : WorkflowSpec :=
  ⟨"shots", .null, [shotLoop "left" "$.inputs.left" "shot" "render_left"]⟩

def shotItems (items : List String) : Value :=
  .object [("left", .array (items.map Value.string))]

/-- The numbers of the updates after some events of a started run, if the run
    meets a condition. -/
def numbersOf (spec : WorkflowSpec) (inputs : Value) (events : List Event)
    (ok : RunState → FineConfig → Bool) : Option (List (Nat × Nat)) :=
  match start shotsExecutor 0 spec inputs with
  | .error _ => none
  | .ok (run, c) =>
    if ok run c.split then
      (exec (fineStep run) c.split events).map (fun c' =>
        c'.state.updates.map (fun u => (u.completedSteps, u.totalSteps)))
    else none

theorem numbersOf_eq_some (spec : WorkflowSpec) (inputs : Value) (events : List Event)
    (ok : RunState → FineConfig → Bool) (numbers : List (Nat × Nat))
    (h : numbersOf spec inputs events ok = some numbers) :
    ∃ run c c', start shotsExecutor 0 spec inputs = .ok (run, c) ∧ ok run c.split = true ∧
      exec (fineStep run) c.split events = some c' ∧
      c'.state.updates.map (fun u => (u.completedSteps, u.totalSteps)) = numbers := by
  unfold numbersOf at h
  split at h
  · simp at h
  next run c hstart =>
    split at h
    next hok =>
      rcases Option.map_eq_some_iff.mp h with ⟨c', hrun, hnumbers⟩
      exact ⟨run, c, c', hstart, hok, hrun, hnumbers⟩
    · simp at h

/-- The events of a loop over one item, to its end. -/
def onePass : List Event := ticksAt [] 19 ++ [returnsAt []] ++ ticksAt [] 20

/-- Over one item, the numbers go up to the total. -/
theorem progress_truthful_onePass :
    ∃ run c c', start shotsExecutor 0 shotsLoop (shotItems ["a"]) = .ok (run, c) ∧
      exec (fineStep run) c.split onePass = some c' ∧
      c'.state.updates.map (fun u => (u.completedSteps, u.totalSteps)) =
        [(0, 2), (0, 2), (0, 2), (1, 2), (2, 2), (2, 2)] ∧
      Truthful (stepIds shotsLoop.steps) c'.state.updates := by
  rcases numbersOf_eq_some shotsLoop (shotItems ["a"]) onePass
    (fun run c => decide (Along (fineStep run) Orderly c onePass))
    [(0, 2), (0, 2), (0, 2), (1, 2), (2, 2), (2, 2)] (by decide +kernel) with
    ⟨run, c, c', hstart, horderly, hrun, hnumbers⟩
  exact ⟨run, c, c', hstart, hrun, hnumbers, progress_truthful shotsExecutor shotsLoop run c onePass
    c' (.started 0 _ run c hstart) (of_decide_eq_true horderly) hrun⟩

/-- Over two items, three steps are completed of two. -/
theorem completed_exceeds_total :
    ∃ run c events c', start shotsExecutor 0 shotsLoop (shotItems ["a", "b"]) = .ok (run, c) ∧
      exec (fineStep run) c.split events = some c' ∧
      c'.state.updates.map (fun u => (u.completedSteps, u.totalSteps)) =
        [(0, 2), (0, 2), (0, 2), (1, 2), (1, 2), (2, 2), (3, 2), (3, 2)] ∧
      ¬ Truthful (stepIds shotsLoop.steps) c'.state.updates := by
  rcases numbersOf_eq_some shotsLoop (shotItems ["a", "b"])
    (ticksAt [] 19 ++ [returnsAt []] ++ ticksAt [] 21 ++ [returnsAt []] ++ ticksAt [] 20)
    (fun _ _ => true) [(0, 2), (0, 2), (0, 2), (1, 2), (1, 2), (2, 2), (3, 2), (3, 2)]
    (by decide +kernel) with ⟨run, c, c', hstart, _, hrun, hnumbers⟩
  refine ⟨run, c, _, c', hstart, hrun, hnumbers, fun htruthful => ?_⟩
  have hmem : (3, 2) ∈ c'.state.updates.map (fun u => (u.completedSteps, u.totalSteps)) := by
    rw [hnumbers]
    decide
  rcases List.mem_map.mp hmem with ⟨u, hu, hpair⟩
  rcases List.append_of_mem hu with ⟨before, after, hsplit⟩
  have hle := (htruthful before u after hsplit).1
  rw [(Prod.mk.inj hpair).1, (Prod.mk.inj hpair).2] at hle
  omega

end Workflow

end DccMcp
