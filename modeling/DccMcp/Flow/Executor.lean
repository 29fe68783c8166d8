import DccMcp.Flow.State
import DccMcp.Lib.Process

/-!
# The Workflow Executor

The step drivers, as programs over the shared state.

Each driver is written as the code writes it, with one action for every
piece that is atomic there: a read or write of the context, a statement of
the storage, a look at the cancellation token, the invocation of a tool and
the wait for its result. Between two actions of one branch the other branches
of a parallel step can run.

A step that was completed before a restart is skipped by its id, before
anything else happens. Every other step is entered in storage, run by the
driver of its kind, and left in storage with its outcome.

The drivers carry the bindings of the enclosing loop iterations along. No
action looks at them; they say which bindings a read is meant to see.

## Main definitions

* `Action`, `Action.Answer`: The atomic pieces and what they answer.
* `RunState`: What is fixed during a run.
* `State`, `Answer`, `effect`, `respond`, `perform`: The shared state, what the
  outside contributes, and what an action does and answers.
* `render`, `runWithPolicy`, `runForeach`, `runParallel`, `runApprove`,
  `runBranch`, `runStep`, `drive`: The drivers.
* `runProgram`: The whole run.
-/

namespace DccMcp

namespace Workflow

open Json Process

/-- Who is called: a tool of this server, or one of another application. -/
inductive Callee
  | tool (name : String)
  | remote (dcc tool : String)
  deriving DecidableEq

/-- How the wait for a call ends. -/
inductive CallAnswer
  | cancelled
  | elapsed
  | returned (result : Except String Value)

/-- Outcome of an approval gate. -/
structure ApprovalResponse where
  approved : Bool
  reason : Option String

/-- How the wait for an approval ends. -/
inductive ApprovalAnswer
  | cancelled
  | response (response : ApprovalResponse)

/-- The atomic pieces of the drivers. The bindings in `scope` are those of the
    enclosing iterations; they have no effect. -/
inductive Action
  | isCancelled
  | emit (status : WorkflowStatus) (step : Option String) (detail : Value)
  | incCompleted
  | upsertStep (id : String) (status : StepRowStatus) (result : Option Value)
      (error : Option String)
  | updateWorkflowStatus (status : WorkflowStatus) (current : Option String)
  | updateStepOutputs
  | asJson (scope : List Binding)
  | lookupItem (scope : List Binding) (name : String)
  | pushItem (scope : List Binding) (name : String) (value : Value)
  | popItem (scope : List Binding) (name : String)
  | step (id : String)
  | stepsSnapshot
  | recordStep (id : String) (output : StepOutput)
  | recordOutputSnapshot (id : String) (output : Value)
  | idempotencyGet (scope : IdempotencyScope) (key : String)
  | idempotencyPut (scope : IdempotencyScope) (key : String) (output : Value)
      (ttlSecs : Option Nat)
  | sleep (millis : Nat)
  | invoke (scope : List Binding) (stepId : String) (callee : Callee) (args : Value)
  | awaitCall (callee : Callee) (args : Value) (timeout : Option Nat)
  | awaitApproval (stepId : String) (timeout : Option Nat)

/-- What an action answers. -/
def Action.Answer : Action → Type
  | .isCancelled | .sleep _ => Bool
  | .asJson _ => Value
  | .lookupItem _ _ | .idempotencyGet _ _ => Option Value
  | .pushItem _ _ _ => Nat
  | .step _ => Option StepOutput
  | .stepsSnapshot => OrderedMap String StepOutput
  | .awaitCall _ _ _ => CallAnswer
  | .awaitApproval _ _ => ApprovalAnswer
  | .emit _ _ _ | .incCompleted | .upsertStep _ _ _ _ | .updateWorkflowStatus _ _
  | .updateStepOutputs | .popItem _ _ | .recordStep _ _ | .recordOutputSnapshot _ _
  | .idempotencyPut _ _ _ _ | .invoke _ _ _ _ => Unit

/-- What is fixed during a run. -/
structure RunState where
  host : Host
  rootJobId : Uuid
  totalSteps : Nat
  /-- The ids of steps that were completed before a restart. -/
  preloadedSteps : List String
  defaultApproveTimeout : Option Nat

/-- A tool call that was issued, with the bindings of its iterations. -/
structure IssuedCall where
  scope : List Binding
  stepId : String
  callee : Callee
  args : Value

/-- What the branches of a run share. -/
structure State where
  context : Context
  outputsSnapshot : OrderedMap String Value
  completed : Nat
  storage : Option Storage
  idempotency : IdempotencyStore
  cancelled : Bool
  updates : List WorkflowUpdate
  /-- The number of bindings made so far, and the calls issued so far. No
      action looks at them. -/
  nextTag : Nat
  calls : List IssuedCall

/-- What the outside contributes to an action. -/
inductive Answer
  | nothing
  | clock (now : Nat)
  | slept (cancelled : Bool)
  | call (answer : CallAnswer)
  | approval (answer : ApprovalAnswer)

/-- What an action does to the shared state. -/
def effect (run : RunState) : Action → Answer → State → State
  | .emit status step detail, _, s =>
    { s with updates := s.updates ++ [⟨status, step, s.completed, run.totalSteps, detail⟩] }
  | .incCompleted, _, s => { s with completed := s.completed + 1 }
  | .upsertStep id status result error, _, s =>
    { s with storage := s.storage.map (·.upsertStep id status result error) }
  | .updateWorkflowStatus status current, _, s =>
    { s with storage := s.storage.map (·.updateWorkflowStatus status current) }
  | .updateStepOutputs, _, s =>
    { s with storage := s.storage.map (·.updateStepOutputs (.object s.outputsSnapshot.entries)) }
  | .pushItem _ name value, _, s =>
    { s with context := s.context.pushItem name value s.nextTag, nextTag := s.nextTag + 1 }
  | .popItem _ name, _, s => { s with context := s.context.popItem name }
  | .recordStep id output, _, s => { s with context := s.context.recordStep id output }
  | .recordOutputSnapshot id output, _, s =>
    { s with outputsSnapshot := s.outputsSnapshot.insert id output }
  | .idempotencyPut scope key output ttlSecs, .clock now, s =>
    { s with idempotency := s.idempotency.put now scope key output ttlSecs }
  | .invoke scope stepId callee args, _, s =>
    { s with calls := s.calls ++ [⟨scope, stepId, callee, args⟩] }
  | _, _, s => s

/-- What an action answers. A wait ends with a cancellation only if there was
    one, and with a timeout only if there is a deadline. -/
def respond (run : RunState) : (a : Action) → Answer → State → Option a.Answer
  | .isCancelled, .nothing, s => some s.cancelled
  | .asJson _, .nothing, s => some (s.context.asJson run.host)
  | .lookupItem _ name, .nothing, s => some (s.context.lookupItem name)
  | .pushItem _ _ _, .nothing, s => some s.nextTag
  | .step id, .nothing, s => some (s.context.steps.lookup id)
  | .stepsSnapshot, .nothing, s => some s.context.steps
  | .idempotencyGet scope key, .clock now, s => some (s.idempotency.get now scope key)
  | .idempotencyPut _ _ _ _, .clock _, _ => some ()
  | .sleep _, .slept cancelled, s =>
    if cancelled = true ∧ s.cancelled = false then none else some cancelled
  | .awaitCall _ _ timeout, .call answer, s =>
    match answer with
    | .cancelled => if s.cancelled then some .cancelled else none
    | .elapsed => if timeout.isSome then some .elapsed else none
    | .returned result => some (.returned result)
  | .awaitApproval _ timeout, .approval answer, s =>
    match answer with
    | .cancelled => if s.cancelled then some .cancelled else none
    | .response response =>
      if response.reason = some "timeout" ∧ timeout = none then none
      else some (.response response)
  | .emit _ _ _, .nothing, _ | .incCompleted, .nothing, _ | .upsertStep _ _ _ _, .nothing, _
  | .updateWorkflowStatus _ _, .nothing, _ | .updateStepOutputs, .nothing, _
  | .popItem _ _, .nothing, _ | .recordStep _ _, .nothing, _
  | .recordOutputSnapshot _ _, .nothing, _ | .invoke _ _ _ _, .nothing, _ => some ()
  | _, _, _ => none

/-- One action on the shared state. -/
def perform (run : RunState) (a : Action) (answer : Answer) (s : State) :
    Option (a.Answer × State) :=
  (respond run a answer s).map (fun b => (b, effect run a answer s))

theorem perform_eq_some (run : RunState) (a : Action) (answer : Answer) (s s' : State)
    (b : a.Answer) (h : perform run a answer s = some (b, s')) :
    respond run a answer s = some b ∧ s' = effect run a answer s := by
  rcases Option.map_eq_some_iff.mp h with ⟨b', hb', heq⟩
  rw [Prod.mk.injEq] at heq
  exact ⟨heq.1 ▸ hb', heq.2.symm⟩

/-- The programs of the drivers. A branch of a parallel step ends in the
    status of its sequence. -/
abbrev Program := Block Action Action.Answer WorkflowStatus

/-- Step outcome used internally by the drivers. -/
inductive StepOutcome
  | ok
  | cancelled
  | failed (error : String)

/-! ## The actions as programs -/

/-- `cancel_token.is_cancelled()`. -/
def isCancelled : Program Bool := Block.act Action.isCancelled

def emit (status : WorkflowStatus) (step : Option String) (detail : List (String × Value)) :
    Program Unit := Block.act (Action.emit status step (.object detail))

def incCompleted : Program Unit := Block.act Action.incCompleted

/-- `upsert_step`, if there is a storage. -/
def upsertStep (id : String) (status : StepRowStatus) (result : Option Value)
    (error : Option String) : Program Unit := Block.act (Action.upsertStep id status result error)

/-- `update_workflow_status`, if there is a storage. -/
def updateWorkflowStatus (status : WorkflowStatus) (current : Option String) : Program Unit :=
  Block.act (Action.updateWorkflowStatus status current)

/-- `update_step_outputs` with the snapshot of outputs, if there is a storage. -/
def updateStepOutputs : Program Unit := Block.act Action.updateStepOutputs

def asJson (scope : List Binding) : Program Value := Block.act (Action.asJson scope)

def lookupItem (scope : List Binding) (name : String) : Program (Option Value) :=
  Block.act (Action.lookupItem scope name)

/-- `WorkflowContext::push_item`, which answers the tag of the binding. -/
def pushItem (scope : List Binding) (name : String) (value : Value) : Program Nat :=
  Block.act (Action.pushItem scope name value)

/-- `ItemGuard::drop`. -/
def popItem (scope : List Binding) (name : String) : Program Unit :=
  Block.act (Action.popItem scope name)

/-- `WorkflowContext::step`. -/
def recordedStep (id : String) : Program (Option StepOutput) := Block.act (Action.step id)

def stepsSnapshot : Program (OrderedMap String StepOutput) := Block.act Action.stepsSnapshot

/-- `WorkflowContext::record_step` and `RunState::record_output_snapshot`. -/
def recordOutput (id : String) (out : StepOutput) : Program Unit := do
  let _ ← (Block.act (Action.recordStep id out) : Program Unit)
  Block.act (Action.recordOutputSnapshot id out.output)

/-- `IdempotencyStore::get`. -/
def idempotencyGet (scope : IdempotencyScope) (key : String) : Program (Option Value) :=
  Block.act (Action.idempotencyGet scope key)

/-- `IdempotencyStore::put`. -/
def idempotencyPut (scope : IdempotencyScope) (key : String) (output : Value)
    (ttlSecs : Option Nat) : Program Unit :=
  Block.act (Action.idempotencyPut scope key output ttlSecs)

/-- `tokio::time::sleep`, which answers whether it was cut short. -/
def sleep (millis : Nat) : Program Bool := Block.act (Action.sleep millis)

/-- The invocation of a caller. -/
def invoke (scope : List Binding) (stepId : String) (callee : Callee) (args : Value) :
    Program Unit := Block.act (Action.invoke scope stepId callee args)

/-- The wait for the result of an invocation. -/
def awaitCall (callee : Callee) (args : Value) (timeout : Option Nat) : Program CallAnswer :=
  Block.act (Action.awaitCall callee args timeout)

/-- The wait for an approval. -/
def awaitApproval (stepId : String) (timeout : Option Nat) : Program ApprovalAnswer :=
  Block.act (Action.awaitApproval stepId timeout)

def render (run : RunState) (scope : List Binding) (value : Value) :
    Program (Except TemplateError Value) := do
  let root ← asJson scope
  renderValue (lookupItem scope) root run.host.text value

/-! ## Tools -/

/-- The end of the retry loop of `run_with_policy`: the error of the last
    attempt, and whether there is another one. -/
def retryOrFail (policy : StepPolicy) (errorKind error : String)
    (again : Program StepOutcome) : Program StepOutcome :=
  if policy.retry.any (·.isRetryable errorKind) then again else pure (.failed error)

/-- The attempts of `run_with_policy`, where `remaining` are still allowed. -/
def attempts (run : RunState) (scope : List Binding) (id : String) (policy : StepPolicy)
    (callee : Callee) (args : Value) (key : Option String) :
    Nat → Nat → Option String → Program StepOutcome
  | 0, _, lastError => pure (.failed (lastError.getD "unknown"))
  | remaining + 1, attempt, _ => do
    let delay := (policy.retry.map (·.nextDelay attempt)).getD 0
    if ← isCancelled then pure .cancelled
    -- The delay comes before every attempt but the first.
    else if ← (if 1 < attempt ∧ 0 < delay then sleep delay else pure false) then
      pure .cancelled
    else
      invoke scope id callee args
      match ← awaitCall callee args policy.timeout with
      | .cancelled => pure .cancelled
      | .returned (.ok output) =>
        let out := ingestOutput run.host run.rootJobId output
        recordOutput id out
        match key with
        | some key =>
          idempotencyPut policy.idempotencyScope key out.output
            policy.idempotencyTtlSecs
        | none => pure ()
        pure .ok
      | .returned (.error e) =>
        retryOrFail policy (classifyError e) e
          (attempts run scope id policy callee args key remaining (attempt + 1) (some e))
      | .elapsed =>
        retryOrFail policy "timeout" "timeout"
          (attempts run scope id policy callee args key remaining (attempt + 1) (some "timeout"))

/-- The rendered idempotency key, if the step has one. -/
def renderKey (run : RunState) (scope : List Binding) (policy : StepPolicy) :
    Program (Except TemplateError (Option String)) :=
  match policy.idempotencyKey with
  | none => pure (.ok none)
  | some template => do
    match ← render run scope (.string template) with
    | .error e => pure (.error e)
    | .ok (.string s) => pure (.ok (some s))
    | .ok other => pure (.ok (some (run.host.text other)))

/-- The cached result for a key, if there are both. -/
def cachedResult (policy : StepPolicy) : Option String → Program (Option Value)
  | none => pure none
  | some key => idempotencyGet policy.idempotencyScope key

def runWithPolicy (run : RunState) (scope : List Binding) (id : String) (policy : StepPolicy)
    (rawArgs : Value) (callee : Callee) : Program StepOutcome := do
  match ← render run scope rawArgs with
  | .error e => pure (.failed ("template error: " ++ e.text))
  | .ok args =>
    match ← renderKey run scope policy with
    | .error e => pure (.failed ("idempotency key template: " ++ e.text))
    | .ok key =>
      match ← cachedResult policy key with
      | some cached =>
        recordOutput id (ingestOutput run.host run.rootJobId cached)
        pure .ok
      | none =>
        let maxAttempts := max ((policy.retry.map (·.maxAttempts)).getD 1) 1
        attempts run scope id policy callee args key maxAttempts 1 none

/-! ## Sequences -/

/-- `drive`, on the programs of the steps. -/
def drive : List (Program StepOutcome) → Program WorkflowStatus
  | [] => pure .completed
  | step :: rest => do
    if ← isCancelled then pure .cancelled
    else match ← step with
      | .ok => drive rest
      | .cancelled => pure .cancelled
      | .failed _ => pure .failed

/-! ## Foreach -/

/-- The items a JSONPath result stands for. -/
def foreachItems : Value → List Value
  | .array items => items
  | .null => []
  | other => [other]

/-- A program with a loop binding around it, which is dropped at its end. -/
def withItem {ρ : Type} (scope : List Binding) (name : String) (value : Value)
    (body : List Binding → Program ρ) : Program ρ := do
  let tag ← pushItem scope name value
  let inner := scope ++ [⟨name, value, tag⟩]
  let result ← body inner
  popItem inner name
  pure result

/-- What an iteration of `run_foreach` adds to the outputs, or the outcome the
    loop ends with. -/
def iterationResult (i : Nat) : WorkflowStatus → Program (Except StepOutcome Value)
  | .completed => do
    let snapshot ← stepsSnapshot
    pure (.ok (Context.snapshotJson snapshot))
  | .cancelled => pure (.error .cancelled)
  | .failed => pure (.error (.failed ("foreach iteration " ++ toString i ++ " failed")))
  | other => pure (.error (.failed ("foreach reached unexpected " ++ other.asStr)))

/-- The iterations of `run_foreach`. -/
def iterations (body : List Binding → Program WorkflowStatus) (scope : List Binding)
    (name : String) : Nat → List Value → List Value → Program (Except StepOutcome (List Value))
  | _, [], outputs => pure (.ok outputs)
  | i, item :: rest, outputs => do
    if ← isCancelled then pure (.error .cancelled)
    else
      let result ← withItem scope name item (fun inner => do
        let status ← body inner
        iterationResult i status)
      match result with
      | .error outcome => pure (.error outcome)
      | .ok output => iterations body scope name (i + 1) rest (outputs ++ [output])

/-- The output of a foreach step. -/
def foreachOutput (outputs : List Value) : Value := .object [("iterations", .array outputs)]

/-- `run_foreach`, on the program of its body. -/
def runForeach (run : RunState) (scope : List Binding) (id items name : String)
    (body : List Binding → Program WorkflowStatus) : Program StepOutcome := do
  let root ← asJson scope
  match evalJsonPath run.host items root with
  | .error e => pure (.failed ("foreach.items: " ++ e))
  | .ok value =>
    match ← iterations body scope name 0 (foreachItems value) [] with
    | .error outcome => pure outcome
    | .ok outputs =>
      recordOutput id (StepOutput.fromValue run.host (foreachOutput outputs))
      pure .ok

/-! ## Parallel -/

/-- The output of a parallel step. -/
def parallelOutput (results : List WorkflowStatus) : Value :=
  .object [("branch_results", .array (results.map (fun status => Value.string status.asStr)))]

/-- `run_parallel`, on the programs of its branches. -/
def runParallel (run : RunState) (id : String) (branches : List (Program StepOutcome)) :
    Program StepOutcome := do
  let results ← Block.par (branches.map (fun branch => drive [branch]))
  recordOutput id (StepOutput.fromValue run.host (parallelOutput results))
  if results.any (· = .cancelled) then pure .cancelled
  else if results.any (· = .failed) then
    pure (.failed "one or more parallel branches failed")
  else pure .ok

/-! ## Approve -/

/-- The output of an approve step. -/
def approvalOutput (response : ApprovalResponse) : Value :=
  let reason := match response.reason with
    | some reason => Value.string reason
    | none => .null
  .object [("approved", .bool response.approved), ("reason", reason)]

def runApprove (run : RunState) (scope : List Binding) (id : String) (policy : StepPolicy)
    (prompt : String) : Program StepOutcome := do
  let rendered ← render run scope (.string prompt)
  let shown := match rendered with
    | .ok value => value
    | .error _ => .null
  emit .running (some id)
    [("kind", .string "approve_requested"), ("step_id", .string id), ("prompt", shown)]
  match ← awaitApproval id (policy.timeout.or run.defaultApproveTimeout) with
  | .cancelled => pure .cancelled
  | .response response =>
    recordOutput id (StepOutput.fromValue run.host (approvalOutput response))
    if response.approved then pure .ok
    else pure (.failed ("approval denied: " ++ response.reason.getD "unspecified"))

/-! ## Branch -/

/-- The output of a branch step. -/
def branchOutput (value : Value) : Value :=
  .object [("condition", value), ("taken", .string (if isTruthy value then "then" else "else"))]

/-- `run_branch`, on the programs of its two bodies. -/
def runBranch (run : RunState) (scope : List Binding) (id on : String)
    (thenBody elseBody : Program WorkflowStatus) : Program StepOutcome := do
  let root ← asJson scope
  match evalJsonPath run.host on root with
  | .error e => pure (.failed ("branch.on: " ++ e))
  | .ok value =>
    recordOutput id (StepOutput.fromValue run.host (branchOutput value))
    match ← (if isTruthy value then thenBody else elseBody) with
    | .completed => pure .ok
    | .cancelled => pure .cancelled
    | .failed => pure (.failed "branch body failed")
    | other => pure (.failed ("branch body reached unexpected " ++ other.asStr))

/-! ## Steps -/

/-- The end of `run_step`: the outcome is counted, announced and persisted. -/
def leaveStep (id : String) : StepOutcome → Program StepOutcome
  | .ok => do
    incCompleted
    emit .running (some id)
      [("kind", .string "step_exit"), ("step_id", .string id), ("status", .string "completed")]
    let recorded ← recordedStep id
    let out := (recorded.map StepOutput.output).getD .null
    upsertStep id .completed (some out) none
    pure .ok
  | .cancelled => do
    emit .cancelled (some id)
      [("kind", .string "step_exit"), ("step_id", .string id), ("status", .string "cancelled")]
    upsertStep id .cancelled none (some "cancelled")
    pure .cancelled
  | .failed e => do
    emit .failed (some id)
      [("kind", .string "step_exit"), ("step_id", .string id), ("status", .string "failed"),
        ("error", .string e)]
    upsertStep id .failed none (some e)
    pure (.failed e)

/-- `run_step` around the driver of the step's kind. -/
def enterStep (run : RunState) (id : String) (driver : Program StepOutcome) :
    Program StepOutcome := do
  if ← isCancelled then pure .cancelled
  else if id ∈ run.preloadedSteps then
    emit .running (some id)
      [("kind", .string "step_skipped_resume"), ("step_id", .string id)]
    incCompleted
    pure .ok
  else
    emit .running (some id)
      [("kind", .string "step_enter"), ("step_id", .string id)]
    upsertStep id .running none none
    updateWorkflowStatus .running (some id)
    let outcome ← driver
    leaveStep id outcome

mutual

def runStep (run : RunState) (scope : List Binding) : Step → Program StepOutcome
  | .mk id kind policy => enterStep run id (runKind run scope id policy kind)

/-- The driver of a kind of step. -/
def runKind (run : RunState) (scope : List Binding) (id : String) (policy : StepPolicy) :
    StepKind → Program StepOutcome
  | .tool tool args => runWithPolicy run scope id policy args (.tool tool)
  | .toolRemote dcc tool args => runWithPolicy run scope id policy args (.remote dcc tool)
  | .foreach items name steps =>
    runForeach run scope id items name (fun inner => drive (runSteps run inner steps))
  | .parallel steps => runParallel run id (runSteps run scope steps)
  | .approve prompt => runApprove run scope id policy prompt
  | .branch on thenSteps elseSteps =>
    runBranch run scope id on (drive (runSteps run scope thenSteps))
      (drive (runSteps run scope elseSteps))

/-- The programs of a list of steps. -/
def runSteps (run : RunState) (scope : List Binding) : List Step → List (Program StepOutcome)
  | [] => []
  | step :: rest => runStep run scope step :: runSteps run scope rest

end

/-- The task that `run` and `resume` spawn. -/
def runProgram (run : RunState) (steps : List Step) : Program WorkflowStatus := do
  let terminal ← drive (runSteps run [] steps)
  updateWorkflowStatus terminal none
  updateStepOutputs
  emit terminal none [("kind", .string "workflow_terminal")]
  pure terminal

end Workflow

end DccMcp
