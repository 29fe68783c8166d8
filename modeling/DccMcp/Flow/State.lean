import DccMcp.Flow.Spec
import DccMcp.Lib.OrderedMap
import Mathlib.Data.List.AList
import Mathlib.Data.List.Infix
import Mathlib.Data.String.Basic

/-!
# The State of a Workflow Run

What the steps of a run share, in memory and in storage, and the atomic
operations on it.

In memory there is the context that templates are resolved against: the
inputs, the outputs recorded so far, and one stack of loop bindings for the
whole run. All branches of a parallel step work on the same stack, each lock
of the context is taken for one read or one write, and a binding is removed
by its name. Every binding carries a tag here that no operation of the code
looks at; it tells apart two bindings of the same name and value.

In storage there is one row for the workflow and one for each step id. The
statements are all keyed by the workflow, so the rows of other workflows are
left out. A row is replaced as a whole by the next write under its key.

Libraries and the server around the executor are a parameter: JSONPath, the
text form of JSON values, the decoding of file references, the upload of
inline artefacts, and the reading of a stored specification.

## Main definitions

* `Host`: What comes from outside.
* `StepOutput`, `Binding`, `Context`: The context, with `Context.asJson`,
  `Context.lookupItem`, `Context.pushItem`, `Context.popItem`.
* `StepRow`, `WorkflowRow`, `Storage`: The rows, with `Storage.upsertStep`,
  `Storage.updateWorkflowStatus`, `Storage.updateStepOutputs`,
  `Storage.insertWorkflow`.
* `IdempotencyStore`: Cached results, with `get` and `put`.
* `evalJsonPath`, `isTruthy`, `classifyError`: Helpers of the drivers.
-/

namespace DccMcp

namespace Workflow

open Json

/-- A generated identifier. -/
abbrev Uuid := Nat

/-- A file reference: the job that produced it, and the fields that no step
    of the executor looks at. -/
structure FileRef where
  producerJobId : Option Uuid
  fields : Value

/-- What comes from libraries and from the server around the executor. -/
structure Host where
  /-- `JsonPath::query`. -/
  query : String → Value → Except String (List Value)
  /-- `parse_json_path`, which answers its error. -/
  parseJsonPath : String → Option String
  /-- `Value::to_string`. -/
  text : Value → String
  /-- `serde_json::from_value::<FileRef>` and back. -/
  decodeFileRef : Value → Option FileRef
  encodeFileRef : FileRef → Value
  /-- `maybe_upload_inline_refs`, if there is an artefact store. -/
  promote : Uuid → Value → Value
  /-- `compute_spec_hash`. -/
  specHash : WorkflowSpec → String
  /-- A specification that was written as JSON and is read again. -/
  reread : WorkflowSpec → Except String WorkflowSpec

variable (host : Host)

/-! ## Helpers -/

/-- `eval_jsonpath`. -/
def evalJsonPath (expr : String) (root : Value) : Except String Value :=
  match host.query expr root with
  | .error e => .error e
  | .ok [] => .ok .null
  | .ok [hit] => .ok hit
  | .ok hits => .ok (.array hits)

/-- `is_truthy`. A float is zero if it is the positive or the negative zero. -/
def isTruthy : Value → Bool
  | .null => false
  | .bool b => b
  | .number (.posInt n) => n != 0
  | .number (.negInt n) => n != 0
  | .number (.float bits) => bits != 0 && bits != 0x8000000000000000
  | .string s => s != ""
  | .array items => !items.isEmpty
  | .object members => !members.isEmpty

def classifyError (e : String) : String :=
  if "timeout".toList <:+: e.toList then "timeout"
  else if "transient".toList <:+: e.toList then "transient"
  else "error"

/-! ## The context -/

/-- Output recorded by the executor after a step completes. -/
structure StepOutput where
  output : Value
  fileRefs : List FileRef

/-- The file references of a field, if it is an array. -/
def fileRefsIn : Option Value → List FileRef
  | some (.array items) => items.filterMap host.decodeFileRef
  | _ => []

def StepOutput.fromValue (output : Value) : StepOutput where
  output := output
  fileRefs := fileRefsIn host (output.get "file_refs") ++
    fileRefsIn host ((output.get "context").bind (·.get "file_refs"))

def ingestOutput (rootJobId : Uuid) (output : Value) : StepOutput :=
  let stepOut := StepOutput.fromValue host (host.promote rootJobId output)
  { stepOut with
    fileRefs := stepOut.fileRefs.map (fun fr =>
      { fr with producerJobId := fr.producerJobId.or (some rootJobId) }) }

/-- A loop binding on the stack. No operation of the code looks at the tag. -/
structure Binding where
  name : String
  value : Value
  tag : Nat

/-- `WorkflowContextInner`. The last binding is the innermost. -/
structure Context where
  inputs : Value
  steps : OrderedMap String StepOutput
  itemStack : List Binding

namespace Context

def new (inputs : Value) : Context := ⟨inputs, .empty _ _, []⟩

def recordStep (ctx : Context) (id : String) (output : StepOutput) : Context :=
  { ctx with steps := ctx.steps.insert id output }

/-- `push_item`, with the tag of the new binding. -/
def pushItem (ctx : Context) (name : String) (value : Value) (tag : Nat) : Context :=
  { ctx with itemStack := ctx.itemStack ++ [⟨name, value, tag⟩] }

/-- Remove the last binding of a name. -/
def removeLast (name : String) (stack : List Binding) : List Binding :=
  (stack.reverse.eraseP (fun b => b.name = name)).reverse

/-- `ItemGuard::drop`. -/
def popItem (ctx : Context) (name : String) : Context :=
  { ctx with itemStack := removeLast name ctx.itemStack }

/-- `lookup_item`: the innermost binding of a name. -/
def lookupItem (ctx : Context) (name : String) : Option Value :=
  (ctx.itemStack.reverse.find? (fun b => b.name = name)).map Binding.value

/-- A recorded output as it appears in the document. -/
def outputJson (out : StepOutput) : Value :=
  .object [("output", out.output), ("file_refs", .array (out.fileRefs.map host.encodeFileRef))]

/-- `as_json`. Every binding becomes a member, a later one of the same name
    in the place of an earlier one, and `item` is the last of them all. -/
def asJson (ctx : Context) : Value :=
  let steps := Value.object (ctx.steps.entries.map (fun e => (e.1, outputJson host e.2)))
  let root := [("inputs", ctx.inputs), ("steps", steps)]
  let bound := ctx.itemStack.foldl (fun members b => insertMember b.name b.value members) root
  let last := (ctx.itemStack.getLast?.map Binding.value).getD .null
  .object (insertMember "item" last bound)

/-- The outputs of `steps_snapshot` as JSON. -/
def snapshotJson (steps : OrderedMap String StepOutput) : Value :=
  .object (steps.entries.map (fun e => (e.1, e.2.output)))

end Context

/-! ## Storage -/

/-- The status column of a step row. -/
inductive StepRowStatus
  | running
  | completed
  | failed
  | cancelled
  | interrupted
  deriving DecidableEq

/-- A row of `workflow_steps`, without its times. -/
structure StepRow where
  status : StepRowStatus
  result : Option Value
  error : Option String

/-- A row of `workflows`, without its times and names. -/
structure WorkflowRow where
  status : WorkflowStatus
  currentStepId : Option String
  spec : WorkflowSpec
  inputs : Value
  stepOutputs : Value

/-- The rows of one workflow. -/
structure Storage where
  workflow : WorkflowRow
  steps : OrderedMap String StepRow

namespace Storage

def insertWorkflow (spec : WorkflowSpec) (inputs : Value) : Storage where
  workflow := ⟨.pending, none, spec, inputs, .object []⟩
  steps := .empty _ _

def updateWorkflowStatus (st : Storage) (status : WorkflowStatus) (current : Option String) :
    Storage :=
  { st with workflow := { st.workflow with status := status, currentStepId := current } }

def updateStepOutputs (st : Storage) (outputs : Value) : Storage :=
  { st with workflow := { st.workflow with stepOutputs := outputs } }

def upsertStep (st : Storage) (id : String) (status : StepRowStatus) (result : Option Value)
    (error : Option String) : Storage :=
  { st with steps := st.steps.insert id ⟨status, result, error⟩ }

end Storage

/-! ## Idempotency -/

/-- A cached result, with the time from which on it does not count. -/
structure CachedEntry where
  value : Value
  expiresAt : Option Nat

/-- The cached results. The keys of other workflows are left out. -/
abbrev IdempotencyStore := AList (fun _ : IdempotencyScope × String => CachedEntry)

namespace IdempotencyStore

/-- `IdempotencyStore::get` at a time. -/
def get (store : IdempotencyStore) (now : Nat) (scope : IdempotencyScope) (key : String) :
    Option Value :=
  match store.lookup (scope, key) with
  | none => none
  | some entry =>
    match entry.expiresAt with
    | some expires => if expires ≤ now then none else some entry.value
    | none => some entry.value

/-- `IdempotencyStore::put` at a time. A lifetime of zero means none. -/
def put (store : IdempotencyStore) (now : Nat) (scope : IdempotencyScope) (key : String)
    (output : Value) (ttlSecs : Option Nat) : IdempotencyStore :=
  store.insert (scope, key)
    ⟨output, (ttlSecs.filter (fun n => 0 < n)).map (fun n => now + n)⟩

end IdempotencyStore

/-! ## Updates -/

/-- A notification about the workflow. -/
structure WorkflowUpdate where
  status : WorkflowStatus
  currentStepId : Option String
  completedSteps : Nat
  totalSteps : Nat
  detail : Value

end Workflow

end DccMcp
