import DccMcp.Flow.Template
import Mathlib.Data.List.Nodup

/-!
# Workflow Specifications

The steps of a workflow and the policies they run under, with the validation
every specification passes before it is run or resumed.

Step ids are declared by authors and are unique across the whole tree, also
across nested bodies: everything the executor keeps about a step, in memory
and in storage, is kept under its id.

## Main definitions

* `RetryPolicy`, `StepPolicy`: Timeout, retries and idempotency of a step.
* `Step`, `StepKind`, `WorkflowSpec`, `WorkflowStatus`: The data.
* `countSteps`, `stepIds`: The steps of a tree.
* `validate`: The structural checks.

## Theorems

* `validate_nodup`: The ids of a valid specification are unique.
-/

namespace DccMcp

namespace Workflow

open Json

/-- Backoff shape used between retry attempts. -/
inductive BackoffKind
  | fixed
  | linear
  | exponential
  deriving DecidableEq

/-- How idempotency keys are scoped. -/
inductive IdempotencyScope
  | workflow
  | global
  deriving DecidableEq

/-- Retry policy, with delays in milliseconds. -/
structure RetryPolicy where
  maxAttempts : Nat
  backoff : BackoffKind
  initialDelay : Nat
  maxDelay : Nat
  retryOn : Option (List String)
  deriving DecidableEq

def saturatingMul (a b : Nat) : Nat := min (a * b) (2 ^ 64 - 1)

/-- `next_delay`, the delay before an attempt without its jitter. -/
def RetryPolicy.nextDelay (retry : RetryPolicy) (attempt : Nat) : Nat :=
  if attempt ≤ 1 then 0
  else
    let n := attempt - 1
    let raw := match retry.backoff with
      | .fixed => retry.initialDelay
      | .linear => saturatingMul retry.initialDelay n
      | .exponential => saturatingMul retry.initialDelay (2 ^ min (n - 1) 63)
    min raw retry.maxDelay

def RetryPolicy.isRetryable (retry : RetryPolicy) (errorKind : String) : Bool :=
  match retry.retryOn with
  | none => true
  | some allow => allow.any (· == errorKind)

/-- Composite per-step execution policy. -/
structure StepPolicy where
  timeout : Option Nat
  retry : Option RetryPolicy
  idempotencyKey : Option String
  idempotencyScope : IdempotencyScope
  idempotencyTtlSecs : Option Nat
  deriving DecidableEq

def StepPolicy.default : StepPolicy := ⟨none, none, none, .workflow, none⟩

mutual

/-- Shape of a single step. -/
inductive StepKind
  | tool (tool : String) (args : Value)
  | toolRemote (dcc tool : String) (args : Value)
  | foreach (items binding : String) (steps : List Step)
  | parallel (steps : List Step)
  | approve (prompt : String)
  | branch (on : String) (thenSteps elseSteps : List Step)

/-- A single node of a specification. -/
inductive Step
  | mk (id : String) (kind : StepKind) (policy : StepPolicy)

end

/-- The id of a step. -/
def Step.id : Step → String
  | .mk id _ _ => id

/-- Top-level workflow specification. -/
structure WorkflowSpec where
  name : String
  inputs : Value
  steps : List Step

/-- Execution status of a workflow. -/
inductive WorkflowStatus
  | pending
  | running
  | completed
  | failed
  | cancelled
  | interrupted
  deriving DecidableEq

def WorkflowStatus.asStr : WorkflowStatus → String
  | .pending => "pending"
  | .running => "running"
  | .completed => "completed"
  | .failed => "failed"
  | .cancelled => "cancelled"
  | .interrupted => "interrupted"

/-! ## The steps of a tree -/

mutual

/-- The ids of a step and of all steps inside it, in the order they are
    declared. -/
def Step.ids : Step → List String
  | .mk id kind _ => id :: kind.ids

def StepKind.ids : StepKind → List String
  | .tool _ _ | .toolRemote _ _ _ | .approve _ => []
  | .foreach _ _ steps | .parallel steps => stepIds steps
  | .branch _ thenSteps elseSteps => stepIds thenSteps ++ stepIds elseSteps

/-- `collect_step_ids`. -/
def stepIds : List Step → List String
  | [] => []
  | step :: rest => step.ids ++ stepIds rest

end

def countSteps (spec : WorkflowSpec) : Nat := (stepIds spec.steps).length

/-! ## Validation -/

/-- Why a tool name is refused. -/
inductive NamingError
  | empty
  | tooLong (actual max : Nat)
  | nonAscii (ch : Char) (offset : Nat)
  | badChar (ch : Char) (offset : Nat)
  deriving DecidableEq

/-- `MAX_TOOL_NAME_LEN`. -/
def maxToolNameLen : Nat := 64

/-- The scan of `validate_tool_name`, with the byte offset of each character. -/
def scanToolName (offset : Nat) : List Char → Option NamingError
  | [] => none
  | ch :: rest =>
    if 128 ≤ ch.toNat then some (.nonAscii ch offset)
    else if ch.isAlphanum || ch == '_' || ch == '-' then scanToolName (offset + ch.utf8Size) rest
    else some (.badChar ch offset)

/-- `validate_tool_name`, which answers the error if there is one. -/
def validateToolName (s : String) : Option NamingError :=
  if s.utf8ByteSize = 0 then some .empty
  else if maxToolNameLen < s.utf8ByteSize then some (.tooLong s.utf8ByteSize maxToolNameLen)
  else scanToolName 0 s.toList

/-- Validation failures. The tool name error and the parser's text stand for
    the reason. -/
inductive ValidationError
  | noSteps
  | duplicateStepId (id : String)
  | emptyStepId
  | invalidToolName (stepId tool : String) (reason : NamingError)
  | invalidJsonPath (stepId expr reason : String)
  | invalidPolicy (stepId reason : String)
  | unknownTemplateVar (stepId template var : String)
  deriving DecidableEq

/-- The test `extract_template_roots` makes on each segment of a reference. -/
def isIdentSegment (segment : List Char) : Bool :=
  match segment with
  | [] => false
  | first :: _ =>
    segment.all (fun c => (c.toNat < 128 && c.isAlphanum) || c == '_') && !first.isDigit

/-- `extract_template_roots`: the first names of the references of a template,
    or what is wrong with it. -/
def templateRoots (template : String) : List Piece → Except String (List String)
  | [] => .ok []
  | .text _ :: rest => templateRoots template rest
  | .unterminated :: _ =>
    .error ("unterminated template reference in " ++ debugText template)
  | .reference path :: rest =>
    let inner := trim path
    if inner = [] then .error ("empty template reference in " ++ debugText template)
    else if (inner.splitOn '.').all isIdentSegment then
      match templateRoots template rest with
      | .error e => .error e
      | .ok roots => .ok (String.ofList ((inner.splitOn '.').headD []) :: roots)
    else .error ("invalid template reference " ++ debugText (String.ofList inner) ++ " in " ++
      debugText template)

def checkTemplateRefs (stepId template : String) (known : List String) :
    Except ValidationError Unit :=
  match templateRoots template (pieces template.toList) with
  | .error reason => .error (.invalidPolicy stepId reason)
  | .ok roots =>
    match roots.find? (fun root => root ∉ known) with
    | some root => .error (.unknownTemplateVar stepId template root)
    | none => .ok ()

section Validate

-- `parse_json_path` of the JSONPath library, which answers its error.
variable (parseJsonPath : String → Option String)

/-- `validate_jsonpath`. -/
def validateJsonPath (stepId expr : String) : Except ValidationError Unit :=
  match parseJsonPath expr with
  | some reason => .error (.invalidJsonPath stepId expr reason)
  | none => .ok ()

/-- The check of a tool name. -/
def validateTool (stepId tool : String) : Except ValidationError Unit :=
  match validateToolName tool with
  | some reason => .error (.invalidToolName stepId tool reason)
  | none => .ok ()

/-- The check of an idempotency key. -/
def validateKey (stepId : String) (policy : StepPolicy) (known : List String) :
    Except ValidationError Unit :=
  match policy.idempotencyKey with
  | some key => checkTemplateRefs stepId key known
  | none => .ok ()

mutual

/-- `validate_step`, which answers the ids seen so far. -/
def validateStep (known : List String) : Step → List String → Except ValidationError (List String)
  | .mk id kind policy, seen =>
    if id = "" then .error .emptyStepId
    else if id ∈ seen then .error (.duplicateStepId id)
    else do
      validateKey id policy known
      validateKind known id kind (id :: seen)

def validateKind (known : List String) (id : String) :
    StepKind → List String → Except ValidationError (List String)
  | .tool tool _, seen | .toolRemote _ tool _, seen => do
    validateTool id tool
    return seen
  | .foreach items _ steps, seen => do
    validateJsonPath parseJsonPath id items
    validateSteps known steps seen
  | .parallel steps, seen => validateSteps known steps seen
  | .branch on thenSteps elseSteps, seen => do
    validateJsonPath parseJsonPath id on
    let seen ← validateSteps known thenSteps seen
    validateSteps known elseSteps seen
  | .approve _, seen => return seen

def validateSteps (known : List String) :
    List Step → List String → Except ValidationError (List String)
  | [], seen => return seen
  | step :: rest, seen => do
    let seen ← validateStep known step seen
    validateSteps known rest seen

end

/-- The identifiers an idempotency key may start with. -/
def knownIdents (spec : WorkflowSpec) : List String :=
  let keys := match spec.inputs with
    | .object members => members.map Prod.fst
    | _ => []
  let properties := match spec.inputs.get "properties" with
    | some (.object members) => members.map Prod.fst
    | _ => []
  ["inputs", "steps", "item", "env"] ++ keys ++ properties ++ stepIds spec.steps

def validate (spec : WorkflowSpec) : Except ValidationError Unit :=
  if spec.steps.isEmpty then .error .noSteps
  else do
    let _ ← validateSteps parseJsonPath (knownIdents spec) spec.steps []

/-! ## Unique ids -/

theorem bind_eq_ok {ε α β : Type} (x : Except ε α) (f : α → Except ε β) (b : β)
    (h : x >>= f = .ok b) : ∃ a, x = .ok a ∧ f a = .ok b := by
  cases x with
  | error e => simp only [bind, Except.bind, reduceCtorEq] at h
  | ok a => exact ⟨a, rfl, h⟩

mutual

theorem validateStep_seen (known : List String) (step : Step) (seen seen' : List String)
    (hseen : seen.Nodup) (h : validateStep parseJsonPath known step seen = .ok seen') :
    seen' = step.ids.reverse ++ seen ∧ seen'.Nodup := by
  cases step with
  | mk id kind policy =>
      unfold validateStep at h
      split at h
      next => simp only [reduceCtorEq] at h
      next =>
        split at h
        next => simp only [reduceCtorEq] at h
        next hnew =>
          rcases bind_eq_ok _ _ _ h with ⟨_, _, h⟩
          -- The id is new, and is seen before the steps inside are.
          rcases validateKind_seen known id kind (id :: seen) seen'
            (List.nodup_cons.mpr ⟨hnew, hseen⟩) h with ⟨hids, hnodup⟩
          refine ⟨?_, hnodup⟩
          rw [hids, Step.ids, List.reverse_cons, List.append_assoc, List.singleton_append]

theorem validateKind_seen (known : List String) (id : String) (kind : StepKind)
    (seen seen' : List String) (hseen : seen.Nodup)
    (h : validateKind parseJsonPath known id kind seen = .ok seen') :
    seen' = kind.ids.reverse ++ seen ∧ seen'.Nodup := by
  cases kind with
  | tool tool args | toolRemote dcc tool args =>
      unfold validateKind at h
      rcases bind_eq_ok _ _ _ h with ⟨_, _, h⟩
      rw [← Except.ok.inj h]
      exact ⟨rfl, hseen⟩
  | approve prompt =>
      rw [← Except.ok.inj h]
      exact ⟨rfl, hseen⟩
  | foreach items binding steps =>
      unfold validateKind at h
      rcases bind_eq_ok _ _ _ h with ⟨_, _, h⟩
      exact validateSteps_seen known steps seen seen' hseen h
  | parallel steps =>
      unfold validateKind at h
      exact validateSteps_seen known steps seen seen' hseen h
  | branch on thenSteps elseSteps =>
      unfold validateKind at h
      rcases bind_eq_ok _ _ _ h with ⟨_, _, h⟩
      rcases bind_eq_ok _ _ _ h with ⟨mid, hthen, helse⟩
      rcases validateSteps_seen known thenSteps seen mid hseen hthen with ⟨hmid, hnodup⟩
      rcases validateSteps_seen known elseSteps mid seen' hnodup helse with ⟨hids, hnodup'⟩
      refine ⟨?_, hnodup'⟩
      rw [hids, hmid, StepKind.ids, List.reverse_append, List.append_assoc]

theorem validateSteps_seen (known : List String) (steps : List Step) (seen seen' : List String)
    (hseen : seen.Nodup) (h : validateSteps parseJsonPath known steps seen = .ok seen') :
    seen' = (stepIds steps).reverse ++ seen ∧ seen'.Nodup := by
  cases steps with
  | nil =>
      rw [← Except.ok.inj h]
      exact ⟨rfl, hseen⟩
  | cons step rest =>
      unfold validateSteps at h
      rcases bind_eq_ok _ _ _ h with ⟨mid, hstep, hrest⟩
      rcases validateStep_seen known step seen mid hseen hstep with ⟨hmid, hnodup⟩
      rcases validateSteps_seen known rest mid seen' hnodup hrest with ⟨hids, hnodup'⟩
      refine ⟨?_, hnodup'⟩
      rw [hids, hmid, stepIds, List.reverse_append, List.append_assoc]

end

/-- The ids of a valid specification are unique across the whole tree. -/
theorem validate_nodup (spec : WorkflowSpec) (h : validate parseJsonPath spec = .ok ()) :
    (stepIds spec.steps).Nodup := by
  unfold validate at h
  split at h
  next => simp only [reduceCtorEq] at h
  next =>
    rcases bind_eq_ok _ _ _ h with ⟨seen, hseen, _⟩
    rcases validateSteps_seen parseJsonPath _ spec.steps [] seen List.nodup_nil hseen with
      ⟨hids, hnodup⟩
    rw [hids, List.append_nil] at hnodup
    exact List.nodup_reverse.mp hnodup

end Validate

end Workflow

end DccMcp
