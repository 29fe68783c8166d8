import DccMcp.Flow.Executor

/-!
# Properties that Programs are Built Up With

What holds of the actions of the drivers, and is kept when programs are put
together, holds of every program the executor runs. The drivers are gone
through once here, for all such properties. The steps that are skipped are
left out: a property may ask for something of the steps that are acted on.

Two things are only done around a driver: a step is announced as entered, and
it is counted as completed. A property of the drivers that run no other steps
need not hold of these.

## Main definitions

* `Action.owner`: The step an action is about, if it is about one.
* `Action.Plain`: An action inside a scope that leaves the bindings alone.
* `Action.Quiet`: An action that neither enters nor counts a step.
* `Driven`: A property that is built up with the drivers of tools and
  approvals.
* `Compositional`: A property that is built up with the programs.

## Theorems

* `Driven.runWithPolicy`, `Driven.runApprove`: It holds of these drivers.
* `Compositional.runStep`, `Compositional.runProgram`: It holds of the steps
  and of the whole run.
-/

namespace DccMcp

namespace Workflow

open Json Process

/-- The step an action writes, calls or waits for. -/
def Action.owner : Action → Option String
  | .upsertStep id _ _ _ | .step id | .recordStep id _ | .recordOutputSnapshot id _
  | .invoke _ id _ _ | .awaitApproval id _ => some id
  | _ => none

/-- Neither a binding is made nor dropped, and what is read or called is read
    or called in the scope. -/
def Action.Plain (scope : List Binding) : Action → Prop
  | .pushItem _ _ _ | .popItem _ _ => False
  | .asJson inner | .lookupItem inner _ | .invoke inner _ _ _ => inner = scope
  | _ => True

/-- An announcement that a step is entered, or skipped. -/
def entersStep (detail : Value) : Bool :=
  match detail.get "kind" with
  | some (.string kind) => kind == "step_enter" || kind == "step_skipped_resume"
  | _ => false

/-- A step is neither entered nor counted, and the run is not announced as
    completed. -/
def Action.Quiet : Action → Prop
  | .incCompleted => False
  | .emit status _ detail => status ≠ .completed ∧ entersStep detail = false
  | _ => True

/-- A property of programs in a scope that is built up with the drivers of
    tools and approvals, which run no other steps. Only quiet actions are asked
    about, and only if the step they are about is one of `own`. -/
structure Driven (own : String → Prop)
    (P : List Binding → (ρ : Type) → Program ρ → Prop) : Prop where
  pure {scope : List Binding} {ρ : Type} (r : ρ) : P scope ρ (pure r)
  bind {scope : List Binding} {ρ τ : Type} {m : Program ρ} {f : ρ → Program τ}
    (hm : P scope ρ m) (hf : ∀ r, P scope τ (f r)) : P scope τ (m >>= f)
  act {scope : List Binding} (a : Action) (hplain : a.Plain scope) (hquiet : a.Quiet)
    (hown : ∀ id, a.owner = some id → own id) : P scope a.Answer (Block.act a)

/-- A property of programs in a scope that is built up with them. Actions are
    only asked about if the step they are about is one of `own`. -/
structure Compositional (own : String → Prop)
    (P : List Binding → (ρ : Type) → Program ρ → Prop) : Prop where
  pure {scope : List Binding} {ρ : Type} (r : ρ) : P scope ρ (pure r)
  bind {scope : List Binding} {ρ τ : Type} {m : Program ρ} {f : ρ → Program τ}
    (hm : P scope ρ m) (hf : ∀ r, P scope τ (f r)) : P scope τ (m >>= f)
  act {scope : List Binding} (a : Action) (hplain : a.Plain scope)
    (hown : ∀ id, a.owner = some id → own id) : P scope a.Answer (Block.act a)
  par {scope : List Binding} {branches : List (Program WorkflowStatus)}
    (h : ∀ m ∈ branches, P scope WorkflowStatus m) :
    P scope (List WorkflowStatus) (Block.par branches)
  withItem {scope : List Binding} {ρ : Type} {body : List Binding → Program ρ} (name : String)
    (value : Value) (h : ∀ inner, P inner ρ (body inner)) :
    P scope ρ (withItem scope name value body)

namespace Driven

variable {own : String → Prop} {P : List Binding → (ρ : Type) → Program ρ → Prop}
  (h : Driven own P) {scope : List Binding}

theorem ite {ρ : Type} (p : Prop) [Decidable p] {m m' : Program ρ} (hm : P scope ρ m)
    (hm' : P scope ρ m') : P scope ρ (if p then m else m') := by
  split
  · exact hm
  · exact hm'

include h

/-- An action that is about no step. -/
theorem free (a : Action) (hplain : a.Plain scope) (hquiet : a.Quiet) (hfree : a.owner = none) :
    P scope a.Answer (Block.act a) := by
  refine h.act a hplain hquiet (fun id hid => ?_)
  rw [hfree] at hid
  simp at hid

/-- An action about a step of the set. -/
theorem owned (a : Action) (id : String) (hid : own id) (hplain : a.Plain scope)
    (hquiet : a.Quiet) (howner : a.owner = some id) : P scope a.Answer (Block.act a) := by
  refine h.act a hplain hquiet (fun id' hid' => ?_)
  rw [howner, Option.some.injEq] at hid'
  exact hid' ▸ hid

/-! ## Rendering -/

variable (run : RunState)

theorem render (value : Value) : P scope _ (render run scope value) := by
  have hrelated : Related (fun ρ (m : Program ρ) (_ : Id ρ) => P scope ρ m) :=
    ⟨fun r => h.pure r, fun hm hf => h.bind hm hf⟩
  refine h.bind (h.free (.asJson scope) rfl trivial rfl) (fun root => ?_)
  exact hrelated.renderValue (lookupItem scope) (fun _ => none)
    (fun name => h.free (.lookupItem scope name) rfl trivial rfl) root run.host.text value

/-! ## Drivers of tools and approvals -/

section Owned

variable (id : String) (hid : own id)

include hid

theorem recordOutput (out : StepOutput) : P scope _ (recordOutput id out) :=
  h.bind (h.owned (.recordStep id out) id hid trivial trivial rfl)
    (fun _ => h.owned (.recordOutputSnapshot id out.output) id hid trivial trivial rfl)

theorem attempts (policy : StepPolicy) (callee : Callee) (args : Value) (key : Option String)
    (remaining attempt : Nat) (lastError : Option String) :
    P scope _ (attempts run scope id policy callee args key remaining attempt lastError) := by
  induction remaining generalizing attempt lastError with
  | zero => exact h.pure _
  | succ remaining ih =>
      -- Both kinds of failure end in another attempt or in none.
      have hagain : ∀ errorKind error : String, P scope _ (retryOrFail policy errorKind error
          (Workflow.attempts run scope id policy callee args key remaining (attempt + 1)
            (some error))) :=
        fun errorKind error => ite _ (ih _ _) (h.pure _)
      unfold Workflow.attempts
      refine h.bind (h.free .isCancelled trivial trivial rfl) (fun stopped => ?_)
      refine ite _ (h.pure _) ?_
      refine h.bind (ite _ (h.free (.sleep _) trivial trivial rfl) (h.pure _)) (fun cut => ?_)
      refine ite _ (h.pure _) ?_
      refine h.bind (h.owned (.invoke scope id callee args) id hid rfl trivial rfl) (fun _ => ?_)
      refine h.bind (h.free (.awaitCall callee args policy.timeout) trivial trivial rfl)
        (fun answer => ?_)
      split
      · exact h.pure _
      · refine h.bind (h.recordOutput id hid _) (fun _ => ?_)
        split
        · exact h.bind (h.free (.idempotencyPut _ _ _ _) trivial trivial rfl) (fun _ => h.pure _)
        · exact h.pure _
      · exact hagain _ _
      · exact hagain _ _

theorem runWithPolicy (policy : StepPolicy) (rawArgs : Value) (callee : Callee) :
    P scope _ (runWithPolicy run scope id policy rawArgs callee) := by
  unfold Workflow.runWithPolicy
  refine h.bind (h.render run rawArgs) (fun rendered => ?_)
  split
  · exact h.pure _
  refine h.bind ?_ (fun key => ?_)
  · unfold renderKey
    split
    · exact h.pure _
    · refine h.bind (h.render run _) (fun rendered => ?_)
      split <;> exact h.pure _
  split
  · exact h.pure _
  -- A cached result takes the place of the attempts.
  refine h.bind ?_ (fun cached => ?_)
  · unfold cachedResult
    split
    · exact h.pure _
    · exact h.free (.idempotencyGet _ _) trivial trivial rfl
  split
  · exact h.bind (h.recordOutput id hid _) (fun _ => h.pure _)
  · exact h.attempts run id hid policy callee _ _ _ _ _

theorem runApprove (policy : StepPolicy) (prompt : String) :
    P scope _ (runApprove run scope id policy prompt) := by
  unfold Workflow.runApprove
  refine h.bind (h.render run _) (fun rendered => ?_)
  refine h.bind (h.free (.emit _ _ _) trivial ⟨by decide, rfl⟩ rfl) (fun _ => ?_)
  refine h.bind (h.owned (.awaitApproval id _) id hid trivial trivial rfl) (fun answer => ?_)
  split
  · exact h.pure _
  · refine h.bind (h.recordOutput id hid _) (fun _ => ?_)
    exact ite _ (h.pure _) (h.pure _)

end Owned

end Driven

namespace Compositional

variable {own : String → Prop} {P : List Binding → (ρ : Type) → Program ρ → Prop}
  (h : Compositional own P) {scope : List Binding}

include h

/-- What is built up with all programs is built up with the drivers. -/
theorem driven : Driven own P :=
  ⟨h.pure, h.bind, fun a hplain _ hown => h.act a hplain hown⟩

/-- An action that is about no step. -/
theorem free (a : Action) (hplain : a.Plain scope) (hfree : a.owner = none) :
    P scope a.Answer (Block.act a) := by
  refine h.act a hplain (fun id hid => ?_)
  rw [hfree] at hid
  simp at hid

/-! ## Drivers of other steps -/

theorem drive {steps : List (Program StepOutcome)} (hsteps : ∀ step ∈ steps, P scope _ step) :
    P scope _ (drive steps) := by
  -- A step that does not succeed ends the sequence.
  induction steps with
  | nil => exact h.pure _
  | cons step rest ih =>
      refine h.bind (h.free .isCancelled trivial rfl) (fun stopped => ?_)
      refine Driven.ite _ (h.pure _) ?_
      refine h.bind (hsteps step List.mem_cons_self) (fun outcome => ?_)
      cases outcome with
      | ok => exact ih (fun s hs => hsteps s (List.mem_cons_of_mem step hs))
      | cancelled | failed => exact h.pure _

theorem iterations {body : List Binding → Program WorkflowStatus}
    (hbody : ∀ inner, P inner _ (body inner)) (name : String) (i : Nat)
    (items outputs : List Value) :
    P scope _ (iterations body scope name i items outputs) := by
  -- By induction on the items that are left.
  induction items generalizing i outputs with
  | nil => exact h.pure _
  | cons item rest ih =>
      refine h.bind (h.free .isCancelled trivial rfl) (fun stopped => ?_)
      refine Driven.ite _ (h.pure _) ?_
      refine h.bind (h.withItem name item (fun inner => ?_)) (fun result => ?_)
      · refine h.bind (hbody inner) (fun status => ?_)
        cases status with
        | completed => exact h.bind (h.free .stepsSnapshot trivial rfl) (fun _ => h.pure _)
        | _ => exact h.pure _
      · cases result with
        | error outcome => exact h.pure _
        | ok output => exact ih _ _

section Owned

variable (run : RunState) (id : String) (hid : own id)

include hid

theorem runForeach (items name : String) {body : List Binding → Program WorkflowStatus}
    (hbody : ∀ inner, P inner _ (body inner)) :
    P scope _ (runForeach run scope id items name body) := by
  unfold Workflow.runForeach
  refine h.bind (h.free (.asJson scope) rfl rfl) (fun root => ?_)
  split
  · exact h.pure _
  refine h.bind (h.iterations hbody name _ _ _) (fun result => ?_)
  split
  · exact h.pure _
  · exact h.bind (h.driven.recordOutput id hid _) (fun _ => h.pure _)

theorem runParallel {branches : List (Program StepOutcome)}
    (hbranches : ∀ branch ∈ branches, P scope _ branch) :
    P scope _ (runParallel run id branches) := by
  unfold Workflow.runParallel
  refine h.bind (h.par (fun m hm => ?_)) (fun results => ?_)
  · rcases List.mem_map.mp hm with ⟨branch, hbranch, rfl⟩
    refine h.drive (fun s hs => ?_)
    rw [List.mem_singleton.mp hs]
    exact hbranches branch hbranch
  · refine h.bind (h.driven.recordOutput id hid _) (fun _ => ?_)
    exact Driven.ite _ (h.pure _) (Driven.ite _ (h.pure _) (h.pure _))

theorem runBranch (on : String) {thenBody elseBody : Program WorkflowStatus}
    (hthen : P scope _ thenBody) (helse : P scope _ elseBody) :
    P scope _ (runBranch run scope id on thenBody elseBody) := by
  unfold Workflow.runBranch
  refine h.bind (h.free (.asJson scope) rfl rfl) (fun root => ?_)
  split
  · exact h.pure _
  refine h.bind (h.driven.recordOutput id hid _) (fun _ => ?_)
  refine h.bind (Driven.ite _ hthen helse) (fun status => ?_)
  cases status <;> exact h.pure _

theorem leaveStep (outcome : StepOutcome) : P scope _ (leaveStep id outcome) := by
  have hupsert : ∀ status result error, P scope _ (upsertStep id status result error) :=
    fun status result error =>
      h.driven.owned (.upsertStep id status result error) id hid trivial trivial rfl
  cases outcome with
  | ok =>
      refine h.bind (h.free .incCompleted trivial rfl) (fun _ => ?_)
      refine h.bind (h.free (.emit _ _ _) trivial rfl) (fun _ => ?_)
      refine h.bind (h.driven.owned (.step id) id hid trivial trivial rfl) (fun recorded => ?_)
      exact h.bind (hupsert _ _ _) (fun _ => h.pure _)
  | cancelled | failed =>
      refine h.bind (h.free (.emit _ _ _) trivial rfl) (fun _ => ?_)
      exact h.bind (hupsert _ _ _) (fun _ => h.pure _)

end Owned

/-! ## Steps -/

variable (run : RunState)

/-- A step that is skipped is not acted on at all. -/
theorem enterStep (id : String) {driver : Program StepOutcome}
    (hdriver : id ∉ run.preloadedSteps → own id ∧ P scope _ driver) :
    P scope _ (enterStep run id driver) := by
  unfold Workflow.enterStep
  refine h.bind (h.free .isCancelled trivial rfl) (fun stopped => ?_)
  refine Driven.ite _ (h.pure _) ?_
  split
  · refine h.bind (h.free (.emit _ _ _) trivial rfl) (fun _ => ?_)
    exact h.bind (h.free .incCompleted trivial rfl) (fun _ => h.pure _)
  next hnew =>
    rcases hdriver hnew with ⟨hid, hdriver⟩
    refine h.bind (h.free (.emit _ _ _) trivial rfl) (fun _ => ?_)
    refine h.bind (h.driven.owned (.upsertStep id _ _ _) id hid trivial trivial rfl) (fun _ => ?_)
    refine h.bind (h.free (.updateWorkflowStatus _ _) trivial rfl) (fun _ => ?_)
    exact h.bind hdriver (fun outcome => h.leaveStep id hid outcome)

set_option linter.unusedSectionVars false in
mutual

/-- A step, if what is asked about the steps inside it that are not skipped is
    true. -/
theorem runStep (scope : List Binding) (step : Step)
    (hids : ∀ id ∈ step.ids, id ∉ run.preloadedSteps → own id) :
    P scope _ (runStep run scope step) := by
  cases step with
  | mk id kind policy =>
      refine h.enterStep run id (fun hnew => ?_)
      have hid := hids id List.mem_cons_self hnew
      exact ⟨hid, runKind scope id policy kind hid
        (fun id' hid' => hids id' (List.mem_cons_of_mem id hid'))⟩

theorem runKind (scope : List Binding) (id : String) (policy : StepPolicy) (kind : StepKind)
    (hid : own id) (hids : ∀ id ∈ kind.ids, id ∉ run.preloadedSteps → own id) :
    P scope _ (runKind run scope id policy kind) := by
  cases kind with
  | tool tool args => exact h.driven.runWithPolicy run id hid policy args _
  | toolRemote dcc tool args => exact h.driven.runWithPolicy run id hid policy args _
  | approve prompt => exact h.driven.runApprove run id hid policy prompt
  | foreach items name steps =>
      exact h.runForeach run id hid items name
        (fun inner => h.drive (runSteps inner steps hids))
  | parallel steps => exact h.runParallel run id hid (runSteps scope steps hids)
  | branch on thenSteps elseSteps =>
      refine h.runBranch run id hid on ?_ ?_
      · exact h.drive (runSteps scope thenSteps
          (fun id' hid' => hids id' (List.mem_append_left _ hid')))
      · exact h.drive (runSteps scope elseSteps
          (fun id' hid' => hids id' (List.mem_append_right _ hid')))

theorem runSteps (scope : List Binding) (steps : List Step)
    (hids : ∀ id ∈ stepIds steps, id ∉ run.preloadedSteps → own id) :
    ∀ program ∈ runSteps run scope steps, P scope _ program := by
  cases steps with
  | nil => exact fun program hprogram => absurd hprogram List.not_mem_nil
  | cons step rest =>
      intro program hprogram
      rcases List.mem_cons.mp hprogram with rfl | hrest
      · exact runStep scope step (fun id' hid' => hids id' (List.mem_append_left _ hid'))
      · exact runSteps scope rest (fun id' hid' => hids id' (List.mem_append_right _ hid'))
          program hrest

end

/-- The whole run. -/
theorem runProgram (steps : List Step)
    (hids : ∀ id ∈ stepIds steps, id ∉ run.preloadedSteps → own id) :
    P [] _ (runProgram run steps) := by
  unfold Workflow.runProgram
  refine h.bind (h.drive (h.runSteps run [] steps hids)) (fun terminal => ?_)
  refine h.bind (h.free (.updateWorkflowStatus _ _) trivial rfl) (fun _ => ?_)
  refine h.bind (h.free .updateStepOutputs trivial rfl) (fun _ => ?_)
  exact h.bind (h.free (.emit _ _ _) trivial rfl) (fun _ => h.pure _)

end Compositional

end Workflow

end DccMcp
