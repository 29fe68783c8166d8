import DccMcp.Flow.Executor

/-!
# Starting, Recovering and Resuming a Workflow

A run from its start to its end, and what a restart makes of one that did not
get there.

A run is an interleaving of the actions of its branches, with cancellations
from outside at any point. A crash is the end of such a list of events:
what is in memory is gone, and the rows stay. The recovery after a restart
marks the workflow as interrupted, and with it the step that was entered
last, whatever has become of that step. A resumed run starts with the outputs
of all steps that are recorded as completed, and skips these steps.

The statement that was meant to reset the workflow row before a resumed run
names a column the table does not have. It always fails, and the failure is
only logged.

## Main definitions

* `Config`, `Event`, `step`: Runs.
* `Executor`, `start`: `WorkflowExecutor::run`.
* `Storage.recover`: `WorkflowStorage::recover`.
* `Storage.completedSteps`, `resume`: `WorkflowExecutor::resume`.

## Theorems

* `start_eq_ok`, `resume_eq_ok`: What a run starts with.
-/

namespace DccMcp

namespace Workflow

open Json Process

/-- A run in progress: what its branches still have to do, and what they
    share. -/
structure Config where
  process : Process Action Action.Answer WorkflowStatus
  state : State

/-- An action of one branch, or a cancellation from outside. -/
inductive Event
  | act (path : List Nat) (answer : Answer)
  | cancel

/-- One event of a run. -/
def step (run : RunState) (c : Config) : Event → Option Config
  | .act path answer =>
    (stepAt (perform run) path answer c.process c.state).map (fun r => ⟨r.1, r.2⟩)
  | .cancel => some { c with state := { c.state with cancelled := true } }

/-- `WorkflowExecutor`, with what its idempotency store holds. -/
structure Executor where
  host : Host
  defaultApproveTimeout : Option Nat
  persists : Bool
  idempotency : IdempotencyStore

/-- A run that has just been spawned. -/
def spawn (run : RunState) (spec : WorkflowSpec) (state : State) : RunState × Config :=
  (run, ⟨(runProgram run spec.steps).toProcess, state⟩)

/-- `WorkflowExecutor::run`, with the generated job id as an argument. -/
def start (executor : Executor) (rootJobId : Uuid) (spec : WorkflowSpec) (inputs : Value) :
    Except ValidationError (RunState × Config) := do
  validate executor.host.parseJsonPath spec
  let run : RunState :=
    { host := executor.host
      rootJobId := rootJobId
      totalSteps := countSteps spec
      preloadedSteps := []
      defaultApproveTimeout := executor.defaultApproveTimeout }
  return spawn run spec
    { context := Context.new inputs
      outputsSnapshot := .empty _ _
      completed := 0
      storage := if executor.persists then some (Storage.insertWorkflow spec inputs) else none
      idempotency := executor.idempotency
      cancelled := false
      updates := [⟨.pending, none, 0, run.totalSteps, .object [("kind", .string "workflow_started")]⟩]
      nextTag := 0
      calls := [] }

/-! ## Recovery -/

def Storage.recover (st : Storage) : Storage :=
  if st.workflow.status = .pending ∨ st.workflow.status = .running then
    let st := st.updateWorkflowStatus .interrupted st.workflow.currentStepId
    match st.workflow.currentStepId with
    | some id => st.upsertStep id .interrupted none (some "server restart")
    | none => st
  else st

/-- The completed steps of a `ResumeSnapshot`, with their outputs. -/
def Storage.completedSteps (st : Storage) : List (String × Value) :=
  st.steps.entries.filterMap (fun e =>
    if e.2.status = .completed then some (e.1, e.2.result.getD .null) else none)

/-- `WorkflowStorage::reset_for_resume`. There is no column `error_msg`. -/
def Storage.resetForResume (_ : Storage) : Except String Storage :=
  .error "no such column: error_msg"

/-! ## Resume -/

/-- Caller-provided knobs of a resume. -/
structure ResumeOptions where
  forceSteps : List String
  expectedSpecHash : Option String
  strict : Bool

def ResumeOptions.default : ResumeOptions := ⟨[], none, false⟩

/-- Why a workflow is not resumed. -/
inductive WorkflowResumeError
  | noStorage
  | notResumable (status : WorkflowStatus)
  | corruptSpec (reason : String)
  | validation (error : ValidationError)
  | specChanged (expected actual : String)

def ensureResumable (status : WorkflowStatus) (hasForceSteps : Bool) :
    Except WorkflowResumeError Unit :=
  match status with
  | .failed | .interrupted | .pending => .ok ()
  | .completed => if hasForceSteps then .ok () else .error (.notResumable .completed)
  | other => .error (.notResumable other)

def checkSpecHash (host : Host) (spec : WorkflowSpec) (opts : ResumeOptions) :
    Except WorkflowResumeError Unit :=
  match opts.expectedSpecHash with
  | none => .ok ()
  | some expected =>
    if host.specHash spec = expected then .ok ()
    else if opts.strict then .error (.specChanged expected (host.specHash spec))
    else .ok ()

/-- The stored specification, read again and validated. -/
def decodeSpec (host : Host) (spec : WorkflowSpec) : Except WorkflowResumeError WorkflowSpec :=
  match host.reread spec with
  | .error reason => .error (.corruptSpec reason)
  | .ok spec =>
    match validate host.parseJsonPath spec with
    | .error e => .error (.validation e)
    | .ok () => .ok spec

/-- The completed steps that are not forced to run again. -/
def preloaded (st : Storage) (opts : ResumeOptions) : List (String × Value) :=
  st.completedSteps.filter (fun e => e.1 ∉ opts.forceSteps)

/-- The context a resumed run starts with. -/
def resumedContext (host : Host) (inputs : Value) (outputs : List (String × Value)) : Context :=
  outputs.foldl (fun ctx e => ctx.recordStep e.1 (StepOutput.fromValue host e.2))
    (Context.new inputs)

/-- `WorkflowExecutor::resume` on a stored workflow. -/
def resume (executor : Executor) (rootJobId : Uuid) (st : Storage) (opts : ResumeOptions) :
    Except WorkflowResumeError (RunState × Config) :=
  if executor.persists = false then .error .noStorage
  else do
    ensureResumable st.workflow.status !opts.forceSteps.isEmpty
    let spec ← decodeSpec executor.host st.workflow.spec
    checkSpecHash executor.host spec opts
    let done := preloaded st opts
    -- A reset that fails is only logged.
    let st := match st.resetForResume with
      | .ok st => st
      | .error _ => st
    let run : RunState :=
      { host := executor.host
        rootJobId := rootJobId
        totalSteps := countSteps spec
        preloadedSteps := done.map Prod.fst
        defaultApproveTimeout := executor.defaultApproveTimeout }
    return spawn run spec
      { context := resumedContext executor.host st.workflow.inputs done
        outputsSnapshot := st.completedSteps.foldl (fun m e => m.insert e.1 e.2) (.empty _ _)
        completed := 0
        storage := some st
        idempotency := executor.idempotency
        cancelled := false
        updates := [⟨.pending, none, 0, run.totalSteps, .object
          [("kind", .string "workflow_resumed"),
            ("preloaded_count", .number (.posInt (UInt64.ofNat done.length))),
            ("force_steps", .array (opts.forceSteps.map Value.string))]⟩]
        nextTag := 0
        calls := [] }

/-! ## What a run starts with -/

/-- What a run that was just started is. -/
theorem start_eq_ok (executor : Executor) (rootJobId : Uuid) (spec : WorkflowSpec)
    (inputs : Value) (run : RunState) (c : Config)
    (h : start executor rootJobId spec inputs = .ok (run, c)) :
    validate executor.host.parseJsonPath spec = .ok () ∧ run.host = executor.host ∧
      run.preloadedSteps = [] ∧ c.process = (runProgram run spec.steps).toProcess ∧
      c.state.context = Context.new inputs ∧ c.state.calls = [] ∧ c.state.cancelled = false ∧
      c.state.storage =
        if executor.persists then some (Storage.insertWorkflow spec inputs) else none := by
  rcases bind_eq_ok _ _ _ h with ⟨_, hvalid, h⟩
  have heq := Except.ok.inj h
  rw [spawn, Prod.mk.injEq] at heq
  rcases heq with ⟨hrun, hc⟩
  subst hrun
  subst hc
  exact ⟨hvalid, rfl, rfl, rfl, rfl, rfl, rfl, rfl⟩

/-- What a resumed run starts with. -/
theorem resume_eq_ok (executor : Executor) (rootJobId : Uuid) (st : Storage)
    (opts : ResumeOptions) (run : RunState) (c : Config)
    (h : resume executor rootJobId st opts = .ok (run, c)) :
    ∃ spec, decodeSpec executor.host st.workflow.spec = .ok spec ∧
      run.host = executor.host ∧ run.preloadedSteps = (preloaded st opts).map Prod.fst ∧
      c.process = (runProgram run spec.steps).toProcess ∧
      c.state.context = resumedContext executor.host st.workflow.inputs (preloaded st opts) ∧
      c.state.calls = [] := by
  unfold resume at h
  split at h
  · simp at h
  -- The checks come first, and a run starts only if all of them pass.
  rcases bind_eq_ok _ _ _ h with ⟨_, _, h⟩
  rcases bind_eq_ok _ _ _ h with ⟨spec, hspec, h⟩
  rcases bind_eq_ok _ _ _ h with ⟨_, _, h⟩
  have heq := Except.ok.inj h
  rw [spawn, Prod.mk.injEq] at heq
  rcases heq with ⟨hrun, hc⟩
  subst hrun
  subst hc
  exact ⟨spec, hspec, rfl, rfl, rfl, rfl, rfl⟩

/-! ## Checking a run -/

/-- Whether a started run takes all of the events, and gets to a state with a
    property. -/
def reaches (executor : Executor) (spec : WorkflowSpec) (inputs : Value) (events : List Event)
    (ok : RunState → Config → Config → Bool) : Bool :=
  (start executor 0 spec inputs).toOption.any (fun launched =>
    (Machine.exec (step launched.1) launched.2 events).any (ok launched.1 launched.2))

theorem exists_of_reaches (executor : Executor) (spec : WorkflowSpec) (inputs : Value)
    (events : List Event) (ok : RunState → Config → Config → Bool)
    (h : reaches executor spec inputs events ok = true) :
    ∃ run c c', start executor 0 spec inputs = .ok (run, c) ∧
      Machine.exec (step run) c events = some c' ∧ ok run c c' = true := by
  unfold reaches at h
  cases hstart : start executor 0 spec inputs with
  | error e =>
      rw [hstart] at h
      simp [Except.toOption, Option.any_none] at h
  | ok launched =>
      rw [hstart, Except.toOption, Option.any_some] at h
      rcases (Option.any_eq_true _ _).mp h with ⟨c', hc', hok⟩
      exact ⟨launched.1, launched.2, c', rfl, hc', hok⟩

end Workflow

end DccMcp
