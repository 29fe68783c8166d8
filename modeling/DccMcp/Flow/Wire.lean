import DccMcp.Lib.Serde
import DccMcp.Flow.Spec

/-!
# Workflow Specifications on the Wire

How a specification is read from a document and written back as JSON.

A step is written flat: its id, the fields of its kind, and the fields of its
policy stand side by side in one object. Reading takes them apart again. The
id goes first, then the fields with the names of policy fields, and what is
left is the kind. A kind that is missing is made up where there is a tool and
no program to send it to.

A policy is checked and normalised while it is read. An idempotency key is
checked against no names at all at this point. A key that only refers to
something unknown is kept, and all other mistakes in it are errors. So what
comes out of reading is normal, in a way that writing and reading again
changes nothing.

The jitter of a retry policy is a float. Floats are a parameter here, with
what is documented of them and of their JSON form.

## Main definitions

* `Float32`: Single precision floats, as the policies use them.
* `Step`, `StepKind`, `StepPolicy`, `RetryPolicy`, `WorkflowSpec`: The data.
* `RawStepPolicy.intoPolicy`, `RawRetryPolicy.intoPolicy`: Normalising.
* `encodeStep`, `encodeSpec`, `decodeStep`, `decodeSpec`: Writing and reading.
* `StepPolicy.Normal`: The policies that reading makes.
* `Decoded`: The specifications that reading makes.

## Theorems

* `spec_round_trip`: A specification that was read is read back.
-/

namespace DccMcp

namespace Workflow

namespace Wire

open Json
open Serde

/-- Single precision floats: reading a number, the clamp to the unit interval,
    and the JSON form, which is a number only of a finite float. -/
structure Float32 where
  F : Type
  zero : F
  ofNumber : Number → F
  clampUnit : F → F
  toJson : F → Value
  finite : F → Bool
  clamp_zero : clampUnit zero = zero
  clamp_idem : ∀ j, clampUnit (clampUnit j) = clampUnit j
  reads_back : ∀ j, finite j = true → ∃ n, toJson j = .number n ∧ ofNumber n = j

/-- `RetryPolicy`, with delays in milliseconds. -/
structure RetryPolicy (F : Type) where
  maxAttempts : UInt32
  backoff : BackoffKind
  initialDelay : UInt64
  maxDelay : UInt64
  jitter : F
  retryOn : Option (List String)

/-- `StepPolicy`, with the timeout in seconds. -/
structure StepPolicy (F : Type) where
  timeout : Option UInt64
  retry : Option (RetryPolicy F)
  idempotencyKey : Option String
  idempotencyScope : IdempotencyScope
  idempotencyTtlSecs : Option UInt64

structure RawRetryPolicy (F : Type) where
  maxAttempts : UInt32
  backoff : Option BackoffKind
  initialDelayMs : Option UInt64
  maxDelayMs : Option UInt64
  jitter : Option F
  retryOn : Option (List String)

structure RawStepPolicy (F : Type) where
  timeoutSecs : Option UInt64
  retry : Option (RawRetryPolicy F)
  idempotencyKey : Option String
  idempotencyScope : Option IdempotencyScope
  idempotencyTtlSecs : Option UInt64

mutual

/-- Shape of a single step. -/
inductive StepKind (F : Type)
  | tool (tool : String) (args : Value)
  | toolRemote (dcc tool : String) (args : Value)
  | foreach (items binding : String) (steps : List (Step F))
  | parallel (steps : List (Step F))
  | approve (prompt : String)
  | branch (on : String) (thenSteps elseSteps : List (Step F))

/-- A single node of a specification. -/
inductive Step (F : Type)
  | mk (id : String) (kind : StepKind F) (policy : StepPolicy F)

end

/-- Top-level workflow specification. -/
structure WorkflowSpec (F : Type) where
  name : String
  description : String
  inputs : Value
  steps : List (Step F)

variable (f : Float32)

/-! ## Normalising a policy -/

def RawRetryPolicy.intoPolicy (stepId : String) (raw : RawRetryPolicy f.F) :
    Except ValidationError (RetryPolicy f.F) :=
  if raw.maxAttempts < 1 then
    .error (.invalidPolicy stepId
      ("retry.max_attempts must be >= 1 (got " ++ toString raw.maxAttempts ++ ")"))
  else
    let initialMs := raw.initialDelayMs.getD 500
    let maxMs := raw.maxDelayMs.getD 10000
    if maxMs < initialMs then
      .error (.invalidPolicy stepId ("retry.initial_delay_ms (" ++ toString initialMs ++
        ") must be <= max_delay_ms (" ++ toString maxMs ++ ")"))
    else .ok
      { maxAttempts := raw.maxAttempts
        backoff := raw.backoff.getD .exponential
        initialDelay := initialMs
        maxDelay := maxMs
        jitter := (raw.jitter.map f.clampUnit).getD f.zero
        retryOn := raw.retryOn }

/-- The retry block of `RawStepPolicy::into_policy`. -/
def intoRetry (stepId : String) :
    Option (RawRetryPolicy f.F) → Except ValidationError (Option (RetryPolicy f.F))
  | none => .ok none
  | some raw => (raw.intoPolicy f stepId).map some

/-- The key check of `RawStepPolicy::into_policy`. -/
def checkKey (stepId : String) (known : List String) : Option String → Except ValidationError Unit
  | none => .ok ()
  | some key => checkTemplateRefs stepId key known

def RawStepPolicy.intoPolicy (stepId : String) (known : List String) (raw : RawStepPolicy f.F) :
    Except ValidationError (StepPolicy f.F) :=
  if raw.timeoutSecs = some 0 then
    .error (.invalidPolicy stepId "timeout_secs must be > 0")
  else do
    let retry ← intoRetry f stepId raw.retry
    checkKey stepId known raw.idempotencyKey
    return {
      timeout := raw.timeoutSecs
      retry := retry
      idempotencyKey := raw.idempotencyKey
      idempotencyScope := raw.idempotencyScope.getD .workflow
      idempotencyTtlSecs := raw.idempotencyTtlSecs.filter (0 < ·) }

/-- The policy of a step that is being read. A reference in the key that
    nothing is known of yet is left to the validation. -/
def decodePolicy (stepId : String) (raw : RawStepPolicy f.F) :
    Except ValidationError (StepPolicy f.F) :=
  match raw.intoPolicy f stepId [] with
  | .ok p => .ok p
  | .error (.unknownTemplateVar _ _ _) =>
    match ({ raw with idempotencyKey := none } : RawStepPolicy f.F).intoPolicy f stepId [] with
    | .ok p => .ok { p with idempotencyKey := raw.idempotencyKey }
    | .error e => .error e
  | .error e => .error e

/-! ## Reading -/

/-- `BackoffKind`, by its name. -/
def backoffKind (v : Value) : Except DecodeError BackoffKind := do
  match ← unitVariant v with
  | "fixed" => return .fixed
  | "linear" => return .linear
  | "exponential" => return .exponential
  | name => .error (.unknownVariant name)

/-- `IdempotencyScope`, by its name. -/
def idempotencyScope (v : Value) : Except DecodeError IdempotencyScope := do
  match ← unitVariant v with
  | "workflow" => return .workflow
  | "global" => return .global
  | name => .error (.unknownVariant name)

/-- `f32`. -/
def float32 : Value → Except DecodeError f.F
  | .number n => .ok (f.ofNumber n)
  | _ => .error .invalidType

/-- `RawRetryPolicy::deserialize`. -/
def decodeRawRetry (v : Value) : Except DecodeError (RawRetryPolicy f.F) := do
  let field ← fields 6 v
  let maxAttempts ← requiredField u32 "max_attempts" (field "max_attempts" 0)
  let backoff ← optionalField backoffKind (field "backoff" 1)
  let initialDelayMs ← optionalField u64 (field "initial_delay_ms" 2)
  let maxDelayMs ← optionalField u64 (field "max_delay_ms" 3)
  let jitter ← optionalField (float32 f) (field "jitter" 4)
  let retryOn ← optionalField strings (field "retry_on" 5)
  return ⟨maxAttempts, backoff, initialDelayMs, maxDelayMs, jitter, retryOn⟩

/-- `RawStepPolicy::deserialize`. -/
def decodeRawPolicy (v : Value) : Except DecodeError (RawStepPolicy f.F) := do
  let field ← fields 5 v
  let timeoutSecs ← optionalField u64 (field "timeout_secs" 0)
  let retry ← optionalField (decodeRawRetry f) (field "retry" 1)
  let idempotencyKey ← optionalField str (field "idempotency_key" 2)
  let scope ← optionalField idempotencyScope (field "idempotency_scope" 3)
  let ttlSecs ← optionalField u64 (field "idempotency_ttl_secs" 4)
  return ⟨timeoutSecs, retry, idempotencyKey, scope, ttlSecs⟩

/-- `STEP_POLICY_FIELDS`. -/
def stepPolicyFields : List String :=
  ["timeout_secs", "retry", "idempotency_key", "idempotency_scope", "idempotency_ttl_secs"]

/-- `Map::remove`, without what was removed. -/
def remove (key : String) (members : List (String × Value)) : List (String × Value) :=
  members.filter (fun member => member.1 ≠ key)

/-- Why a step cannot be read. -/
inductive StepError
  | notMapping
  | missingId
  | idNotString
  | kind (id : String) (error : DecodeError)
  | policyBlock (id : String) (error : DecodeError)
  | policy (id : String) (error : ValidationError)
  /-- A step inside cannot be read. -/
  | nested (id : String) (error : StepError)
  | notSequence

/-- The shorthand: a tool without a kind is a tool of this program. -/
def normaliseKind (obj : List (String × Value)) : List (String × Value) :=
  if (obj.lookup "kind").isNone && (obj.lookup "tool").isSome && (obj.lookup "dcc").isNone then
    insertMember "kind" (.string "tool") obj
  else obj

/-- `StepKind::deserialize`. The lists of steps inside are read by `steps`. -/
def decodeKind (id : String) (obj : List (String × Value))
    (steps : String → Except StepError (List (Step f.F))) : Except StepError (StepKind f.F) :=
  let text (name : String) : Except StepError String :=
    (requiredField str name (obj.lookup name)).mapError (.kind id)
  let textOr (name default : String) : Except StepError String :=
    match obj.lookup name with
    | none => .ok default
    | some v => (str v).mapError (.kind id)
  let args := (obj.lookup "args").getD .null
  match obj.lookup "kind" with
  | some (.string "tool") => do return .tool (← text "tool") args
  | some (.string "tool_remote") => do return .toolRemote (← text "dcc") (← text "tool") args
  | some (.string "foreach") => do
    return .foreach (← text "items") (← textOr "as" "item") (← steps "steps")
  | some (.string "parallel") => do return .parallel (← steps "steps")
  | some (.string "approve") => do return .approve (← textOr "prompt" "")
  | some (.string "branch") => do
    return .branch (← text "on") (← steps "then") (← steps "else")
  | some (.string name) => .error (.kind id (.unknownVariant name))
  | some _ => .error (.kind id .invalidType)
  | none => .error (.kind id (.missingField "kind"))

/-- `Step::deserialize` on a mapping, where `subs` has its members read as
    lists of steps. -/
def decodeMembers (members : List (String × Value))
    (subs : List (String × Except StepError (List (Step f.F)))) : Except StepError (Step f.F) :=
  match members.lookup "id" with
  | none => .error .missingId
  | some (.string id) => do
    let obj := normaliseKind (remove "id" members)
    let rawPolicy := stepPolicyFields.filterMap (fun field => (obj.lookup field).map (field, ·))
    let obj := stepPolicyFields.foldr remove obj
    let kind ← decodeKind f id obj (fun name =>
      ((subs.lookup name).getD (.ok [])).mapError (.nested id))
    let raw ← (decodeRawPolicy f (.object rawPolicy)).mapError (.policyBlock id)
    let policy ← (decodePolicy f id raw).mapError (.policy id)
    return .mk id kind policy
  | some _ => .error .idNotString

mutual

/-- `Step::deserialize`. -/
def decodeStep : Value → Except StepError (Step f.F)
  | .object members => decodeMembers f members (decodeSubs members)
  | _ => .error .notMapping

/-- The members of a mapping, each read as a list of steps. -/
def decodeSubs : List (String × Value) → List (String × Except StepError (List (Step f.F)))
  | [] => []
  | (key, value) :: rest => (key, decodeSteps value) :: decodeSubs rest

/-- `Vec::<Step>::deserialize`. -/
def decodeSteps : Value → Except StepError (List (Step f.F))
  | .array items => decodeItems items
  | _ => .error .notSequence

def decodeItems : List Value → Except StepError (List (Step f.F))
  | [] => .ok []
  | item :: rest => do
    let step ← decodeStep item
    let steps ← decodeItems rest
    return step :: steps

end

/-- Why a specification cannot be read. -/
inductive SpecError
  | shape (error : DecodeError)
  | step (error : StepError)

/-- The description of a specification, which may be missing. -/
def descriptionField : Option Value → Except SpecError String
  | none => .ok ""
  | some v => (str v).mapError .shape

/-- The steps of a specification, which may be missing. -/
def stepsField : Option Value → Except SpecError (List (Step f.F))
  | none => .ok []
  | some v => (decodeSteps f v).mapError .step

/-- `WorkflowSpec::deserialize`. -/
def decodeSpec (v : Value) : Except SpecError (WorkflowSpec f.F) := do
  let field ← (fields 4 v).mapError .shape
  let name ← (requiredField str "name" (field "name" 0)).mapError .shape
  let description ← descriptionField (field "description" 1)
  let steps ← stepsField f (field "steps" 3)
  return ⟨name, description, (field "inputs" 2).getD .null, steps⟩

/-! ## Writing -/

/-- `BackoffKind::as_str`. -/
def backoffName : BackoffKind → String
  | .fixed => "fixed"
  | .linear => "linear"
  | .exponential => "exponential"

/-- `RetryPolicy`, written in its raw shape. -/
def encodeRetry (retry : RetryPolicy f.F) : Value :=
  .object [("max_attempts", encodeU32 retry.maxAttempts),
    ("backoff", .string (backoffName retry.backoff)),
    ("initial_delay_ms", encodeU64 retry.initialDelay), ("max_delay_ms", encodeU64 retry.maxDelay),
    ("jitter", f.toJson retry.jitter), ("retry_on", encodeOption encodeStrings retry.retryOn)]

/-- A member that is left out if there is no value. -/
def optionalMember (key : String) : Option Value → List (String × Value)
  | none => []
  | some v => [(key, v)]

/-- The scope, which is left out if it is the default. -/
def encodeScope : IdempotencyScope → Option Value
  | .workflow => none
  | .global => some (.string "global")

/-- The policy fields of a step. -/
def encodePolicy (p : StepPolicy f.F) : List (String × Value) :=
  optionalMember "timeout_secs" (p.timeout.map encodeU64) ++
    optionalMember "retry" (p.retry.map (encodeRetry f)) ++
    optionalMember "idempotency_key" (p.idempotencyKey.map .string) ++
    optionalMember "idempotency_scope" (encodeScope p.idempotencyScope) ++
    optionalMember "idempotency_ttl_secs" (p.idempotencyTtlSecs.map encodeU64)

mutual

/-- `Step::serialize`. -/
def encodeStep : Step f.F → Value
  | .mk id kind policy => .object (("id", .string id) :: encodeKind kind ++ encodePolicy f policy)

/-- `StepKind::serialize`. -/
def encodeKind : StepKind f.F → List (String × Value)
  | .tool tool args => [("kind", .string "tool"), ("tool", .string tool), ("args", args)]
  | .toolRemote dcc tool args =>
    [("kind", .string "tool_remote"), ("dcc", .string dcc), ("tool", .string tool), ("args", args)]
  | .foreach items binding steps =>
    [("kind", .string "foreach"), ("items", .string items), ("as", .string binding),
      ("steps", .array (encodeItems steps))]
  | .parallel steps => [("kind", .string "parallel"), ("steps", .array (encodeItems steps))]
  | .approve prompt => [("kind", .string "approve"), ("prompt", .string prompt)]
  | .branch on thenSteps elseSteps =>
    [("kind", .string "branch"), ("on", .string on), ("then", .array (encodeItems thenSteps)),
      ("else", .array (encodeItems elseSteps))]

def encodeItems : List (Step f.F) → List Value
  | [] => []
  | step :: rest => encodeStep step :: encodeItems rest

end

/-- The inputs, which are left out if they are null. -/
def encodeInputs : Value → List (String × Value)
  | .null => []
  | inputs => [("inputs", inputs)]

/-- `WorkflowSpec::serialize`. -/
def encodeSpec (spec : WorkflowSpec f.F) : Value :=
  .object ([("name", .string spec.name), ("description", .string spec.description)] ++
    encodeInputs spec.inputs ++ [("steps", .array (encodeItems f spec.steps))])

/-! ## Policies -/

variable {f}

/-- The retry policies that reading makes. -/
structure RetryPolicy.Normal (retry : RetryPolicy f.F) : Prop where
  attempts : ¬ retry.maxAttempts < 1
  delays : ¬ retry.maxDelay < retry.initialDelay
  jitter : f.clampUnit retry.jitter = retry.jitter

/-- A key that is kept: it only refers to what is not known yet. -/
def KeyKept (stepId key : String) : Prop :=
  checkTemplateRefs stepId key [] = .ok () ∨
    ∃ id template var,
      checkTemplateRefs stepId key [] = .error (.unknownTemplateVar id template var)

/-- The policies that reading makes. -/
structure StepPolicy.Normal (stepId : String) (p : StepPolicy f.F) : Prop where
  timeout : p.timeout ≠ some 0
  retry : ∀ retry, p.retry = some retry → retry.Normal
  key : ∀ key, p.idempotencyKey = some key → KeyKept stepId key
  ttl : p.idempotencyTtlSecs.filter (0 < ·) = p.idempotencyTtlSecs

/-- The raw shape a retry policy is written in. -/
def RetryPolicy.toRaw (retry : RetryPolicy f.F) : RawRetryPolicy f.F where
  maxAttempts := retry.maxAttempts
  backoff := some retry.backoff
  initialDelayMs := some retry.initialDelay
  maxDelayMs := some retry.maxDelay
  jitter := some retry.jitter
  retryOn := retry.retryOn

/-- The raw shape a policy is written in. -/
def StepPolicy.toRaw (p : StepPolicy f.F) : RawStepPolicy f.F where
  timeoutSecs := p.timeout
  retry := p.retry.map RetryPolicy.toRaw
  idempotencyKey := p.idempotencyKey
  idempotencyScope := match p.idempotencyScope with
    | .workflow => none
    | .global => some .global
  idempotencyTtlSecs := p.idempotencyTtlSecs

variable (stepId : String) (p : StepPolicy f.F)

theorem normal_of_intoRetry (raw : Option (RawRetryPolicy f.F)) (retry : Option (RetryPolicy f.F))
    (h : intoRetry f stepId raw = .ok retry) :
    ∀ r, retry = some r → r.Normal := by
  rintro r rfl
  cases raw with
  | none => simp only [intoRetry, Except.ok.injEq, reduceCtorEq] at h
  | some raw =>
      simp only [intoRetry, RawRetryPolicy.intoPolicy] at h
      split at h
      next => simp only [Except.map, reduceCtorEq] at h
      next hattempts =>
        split at h
        next => simp only [Except.map, reduceCtorEq] at h
        next hdelays =>
          simp only [Except.map, Except.ok.injEq, Option.some.injEq] at h
          rw [← h]
          refine ⟨hattempts, hdelays, ?_⟩
          cases raw.jitter with
          | none => exact f.clamp_zero
          | some j => exact f.clamp_idem j

/-- A retry policy is read back from its raw shape. -/
theorem intoRetry_toRaw (retry : Option (RetryPolicy f.F)) (h : ∀ r, retry = some r → r.Normal) :
    intoRetry f stepId (retry.map RetryPolicy.toRaw) = .ok retry := by
  cases retry with
  | none => rfl
  | some r =>
      have hr := h r rfl
      simp only [Option.map_some, intoRetry, RawRetryPolicy.intoPolicy, RetryPolicy.toRaw,
        Option.getD_some, if_neg hr.attempts, if_neg hr.delays, hr.jitter]
      rfl

/-- The policy of a raw one whose key gives no trouble. -/
theorem intoPolicy_eq_ok (raw : RawStepPolicy f.F) (p : StepPolicy f.F) :
    raw.intoPolicy f stepId [] = .ok p ↔
      raw.timeoutSecs ≠ some 0 ∧ intoRetry f stepId raw.retry = .ok p.retry ∧
        checkKey stepId [] raw.idempotencyKey = .ok () ∧
        p = { timeout := raw.timeoutSecs, retry := p.retry, idempotencyKey := raw.idempotencyKey
              idempotencyScope := raw.idempotencyScope.getD .workflow
              idempotencyTtlSecs := raw.idempotencyTtlSecs.filter (0 < ·) } := by
  unfold RawStepPolicy.intoPolicy
  by_cases htimeout : raw.timeoutSecs = some 0
  · simp [htimeout]
  · rw [if_neg htimeout, bind_ok_iff]
    constructor
    · rintro ⟨retry, hretry, hrest⟩
      rcases (bind_ok_iff _ _ _).mp hrest with ⟨_, hkey, hp⟩
      have hp := Except.ok.inj hp
      rw [← hp]
      exact ⟨htimeout, hretry, hkey, rfl⟩
    · rintro ⟨_, hretry, hkey, hp⟩
      refine ⟨p.retry, hretry, (bind_ok_iff _ _ _).mpr ⟨(), hkey, ?_⟩⟩
      rw [hp]
      rfl

theorem filter_filter_pos (n : Option UInt64) :
    (n.filter (0 < ·)).filter (0 < ·) = n.filter (0 < ·) := by
  cases n with
  | none => rfl
  | some n =>
      by_cases hpos : 0 < n
      · simp [Option.filter_some, hpos]
      · simp [Option.filter_some, hpos, Option.filter_none]

/-- What reading makes of a policy is normal. -/
theorem normal_of_decodePolicy (raw : RawStepPolicy f.F) (p : StepPolicy f.F)
    (h : decodePolicy f stepId raw = .ok p) : p.Normal stepId := by
  unfold decodePolicy at h
  split at h
  next p' hp =>
    rw [Except.ok.injEq] at h
    subst h
    rcases (intoPolicy_eq_ok stepId raw p').mp hp with ⟨htimeout, hretry, hkey, heq⟩
    refine
      { timeout := by rw [heq]; exact htimeout
        retry := normal_of_intoRetry stepId raw.retry p'.retry hretry
        key := fun key hsome => ?_
        ttl := by rw [heq]; exact filter_filter_pos _ }
    rw [heq] at hsome
    dsimp only at hsome
    rw [hsome] at hkey
    exact .inl hkey
  next id template var hvar =>
    split at h
    next p' hp =>
      rw [Except.ok.injEq] at h
      subst h
      rcases (intoPolicy_eq_ok stepId _ p').mp hp with ⟨htimeout, hretry, _, heq⟩
      refine
        { timeout := by rw [heq]; exact htimeout
          retry := normal_of_intoRetry stepId raw.retry p'.retry hretry
          key := fun key hsome => .inr ⟨id, template, var, ?_⟩
          ttl := by rw [heq]; exact filter_filter_pos _ }
      -- With the timeout and the retries in order, the error was that of the key.
      dsimp only at hsome htimeout hretry
      unfold RawStepPolicy.intoPolicy at hvar
      rw [if_neg htimeout, hretry] at hvar
      simp only [hsome, checkKey, bind, Except.bind] at hvar
      split at hvar
      next e he =>
        rw [he, Except.error.inj hvar]
      next => simp [pure, Except.pure] at hvar
    next => simp at h
  next => simp at h

theorem scope_toRaw : p.toRaw.idempotencyScope.getD .workflow = p.idempotencyScope := by
  unfold StepPolicy.toRaw
  cases p.idempotencyScope <;> rfl

/-- A normal policy is read back from its raw shape. -/
theorem decodePolicy_toRaw (h : p.Normal stepId) : decodePolicy f stepId p.toRaw = .ok p := by
  have hretry := intoRetry_toRaw stepId p.retry h.retry
  have hkept : checkKey stepId [] p.idempotencyKey = .ok () ∨
      ∃ id template var,
        checkKey stepId [] p.idempotencyKey = .error (.unknownTemplateVar id template var) := by
    cases hkey : p.idempotencyKey with
    | none => exact .inl rfl
    | some key => exact h.key key hkey
  unfold decodePolicy
  rcases hkept with hok | ⟨id, template, var, hunknown⟩
  · have hp := (intoPolicy_eq_ok stepId p.toRaw p).mpr ⟨h.timeout, hretry, hok, by
      rw [scope_toRaw]
      unfold StepPolicy.toRaw
      rw [h.ttl]⟩
    rw [hp]
  · have hp : p.toRaw.intoPolicy f stepId [] = .error (.unknownTemplateVar id template var) := by
      have htimeout' : p.toRaw.timeoutSecs ≠ some 0 := h.timeout
      unfold RawStepPolicy.intoPolicy
      rw [if_neg htimeout']
      have hretry' : intoRetry f stepId p.toRaw.retry = .ok p.retry := hretry
      have hkey' : checkKey stepId [] p.toRaw.idempotencyKey =
          .error (.unknownTemplateVar id template var) := hunknown
      simp only [hretry', hkey', bind, Except.bind]
    have hstripped := (intoPolicy_eq_ok stepId { p.toRaw with idempotencyKey := none }
      { p with idempotencyKey := none }).mpr ⟨h.timeout, hretry, rfl, by
        have hscope := scope_toRaw p
        dsimp only
        rw [hscope]
        unfold StepPolicy.toRaw
        dsimp only
        rw [h.ttl]⟩
    rw [hp]
    dsimp only
    rw [hstripped]
    rfl

/-! ## Reading a policy back -/

theorem backoffKind_encode (b : BackoffKind) : backoffKind (.string (backoffName b)) = .ok b := by
  cases b <;> rfl

theorem optionalField_float32 (j : f.F) (h : f.finite j = true) :
    optionalField (float32 f) (some (f.toJson j)) = .ok (some j) := by
  rcases f.reads_back j h with ⟨n, hjson, hread⟩
  rw [hjson]
  simp only [optionalField, float32, hread]
  rfl

/-- A retry policy with a finite jitter is read back. -/
theorem decodeRawRetry_encode (retry : RetryPolicy f.F) (h : f.finite retry.jitter = true) :
    decodeRawRetry f (encodeRetry f retry) = .ok retry.toRaw := by
  have hbackoff : optionalField backoffKind (some (.string (backoffName retry.backoff))) =
      .ok (some retry.backoff) := by
    simp only [optionalField, backoffKind_encode]
    rfl
  have hretryOn : optionalField strings (some (encodeOption encodeStrings retry.retryOn)) =
      .ok retry.retryOn := by
    refine optionalField_encode strings encodeStrings retry.retryOn (fun x _ => strings_encode x) ?_
    intro x _
    simp [encodeStrings]
  unfold decodeRawRetry encodeRetry fields
  simp only [List.lookup_cons, String.reduceBEq, requiredField, u32_encode, hbackoff, hretryOn,
    optionalField_float32 retry.jitter h, optionalField_u64, bind, Except.bind, pure, Except.pure,
    RetryPolicy.toRaw]

/-- The jitter of a policy is finite. -/
def StepPolicy.Finite (p : StepPolicy f.F) : Prop :=
  ∀ retry, p.retry = some retry → f.finite retry.jitter = true

theorem lookup_optionalMember (key key' : String) (v : Option Value) :
    (optionalMember key v).lookup key' = if key' = key then v else none := by
  cases v with
  | none => simp only [optionalMember, List.lookup_nil, ite_self]
  | some v =>
      rw [optionalMember, List.lookup_cons]
      by_cases h : key' = key
      · rw [if_pos h, h, beq_self_eq_true]
      · rw [if_neg h, beq_false_of_ne h, List.lookup_nil]

/-- A policy is read back from any mapping that has its members. -/
theorem decodeRawPolicy_encode (members : List (String × Value)) (hfinite : p.Finite)
    (h : ∀ key ∈ stepPolicyFields, members.lookup key = (encodePolicy f p).lookup key) :
    decodeRawPolicy f (.object members) = .ok p.toRaw := by
  have htimeout := h "timeout_secs" (by decide)
  have hretry := h "retry" (by decide)
  have hkey := h "idempotency_key" (by decide)
  have hscope := h "idempotency_scope" (by decide)
  have httl := h "idempotency_ttl_secs" (by decide)
  simp only [encodePolicy, List.lookup_append, lookup_optionalMember, String.reduceEq, if_true,
    if_false, Option.none_or, Option.or_none] at htimeout hretry hkey hscope httl
  have htimeout' : optionalField u64 (members.lookup "timeout_secs") = .ok p.timeout := by
    rw [htimeout]
    cases p.timeout <;> rfl
  have hretry' : optionalField (decodeRawRetry f) (members.lookup "retry") =
      .ok (p.retry.map RetryPolicy.toRaw) := by
    rw [hretry]
    cases hr : p.retry with
    | none => rfl
    | some retry =>
        have hread := decodeRawRetry_encode retry (hfinite retry hr)
        simp only [Option.map_some, encodeRetry, optionalField] at hread ⊢
        rw [hread]
        rfl
  have hkey' : optionalField str (members.lookup "idempotency_key") = .ok p.idempotencyKey := by
    rw [hkey]
    cases p.idempotencyKey <;> rfl
  have hscope' : optionalField idempotencyScope (members.lookup "idempotency_scope") =
      .ok p.toRaw.idempotencyScope := by
    rw [hscope]
    unfold StepPolicy.toRaw
    cases p.idempotencyScope <;> rfl
  have httl' : optionalField u64 (members.lookup "idempotency_ttl_secs") =
      .ok p.idempotencyTtlSecs := by
    rw [httl]
    cases p.idempotencyTtlSecs <;> rfl
  unfold decodeRawPolicy fields
  simp only [htimeout', hretry', hkey', hscope', httl', bind, Except.bind, pure, Except.pure]
  rfl

/-! ## Trees -/

mutual

/-- Every step of a tree has a property of its id and policy. -/
def Step.Each (P : String → StepPolicy f.F → Prop) : Step f.F → Prop
  | .mk id kind policy => P id policy ∧ kind.Each P

def StepKind.Each (P : String → StepPolicy f.F → Prop) : StepKind f.F → Prop
  | .tool _ _ | .toolRemote _ _ _ | .approve _ => True
  | .foreach _ _ steps | .parallel steps => EachStep P steps
  | .branch _ thenSteps elseSteps => EachStep P thenSteps ∧ EachStep P elseSteps

def EachStep (P : String → StepPolicy f.F → Prop) : List (Step f.F) → Prop
  | [] => True
  | step :: rest => step.Each P ∧ EachStep P rest

end

/-- A kind that was read has only the steps that were read inside it. -/
theorem each_of_decodeKind (P : String → StepPolicy f.F → Prop) (id : String)
    (obj : List (String × Value)) (steps : String → Except StepError (List (Step f.F)))
    (kind : StepKind f.F) (hsteps : ∀ name l, steps name = .ok l → EachStep P l)
    (h : decodeKind f id obj steps = .ok kind) : kind.Each P := by
  unfold decodeKind at h
  split at h <;>
    simp [bind_ok_iff, pure, Except.pure] at h
  · rcases h with ⟨_, _, rfl⟩
    trivial
  · rcases h with ⟨_, _, _, _, rfl⟩
    trivial
  · rcases h with ⟨_, _, _, _, l, hl, rfl⟩
    exact hsteps _ l hl
  · rcases h with ⟨l, hl, rfl⟩
    exact hsteps _ l hl
  · rcases h with ⟨_, _, rfl⟩
    trivial
  · rcases h with ⟨_, _, l, hl, l', hl', rfl⟩
    exact ⟨hsteps _ l hl, hsteps _ l' hl'⟩

theorem each_of_decodeMembers (members : List (String × Value))
    (subs : List (String × Except StepError (List (Step f.F)))) (step : Step f.F)
    (hsubs : ∀ name l, subs.lookup name = some (.ok l) → EachStep StepPolicy.Normal l)
    (h : decodeMembers f members subs = .ok step) : step.Each StepPolicy.Normal := by
  unfold decodeMembers at h
  split at h
  next => simp only [reduceCtorEq] at h
  next id _ =>
    simp only [bind_ok_iff, mapError_ok_iff, pure, Except.pure, Except.ok.injEq] at h
    rcases h with ⟨kind, hkind, raw, _, policy, hpolicy, rfl⟩
    refine ⟨normal_of_decodePolicy id raw policy hpolicy,
      each_of_decodeKind _ id _ _ kind (fun name l hl => ?_) hkind⟩
    rw [mapError_ok_iff] at hl
    cases hlookup : subs.lookup name with
    | none =>
        rw [hlookup, Option.getD_none, Except.ok.injEq] at hl
        rw [← hl]
        trivial
    | some result =>
        rw [hlookup, Option.getD_some] at hl
        exact hsubs name l (by rw [hlookup, hl])
  next => simp at h

/-- Every policy of a step that was read is normal. -/
theorem normal_of_decodeStep (v : Value) (step : Step f.F) (h : decodeStep f v = .ok step) :
    step.Each StepPolicy.Normal := by
  -- The induction follows the reader, through members and items.
  refine decodeStep.induct
    (fun v => ∀ step, decodeStep f v = .ok step → step.Each StepPolicy.Normal)
    (fun members => ∀ name l, (decodeSubs f members).lookup name = some (.ok l) →
      EachStep StepPolicy.Normal l)
    (fun v => ∀ l, decodeSteps f v = .ok l → EachStep StepPolicy.Normal l)
    (fun items => ∀ l, decodeItems f items = .ok l → EachStep StepPolicy.Normal l)
    ?_ ?_ ?_ ?_ ?_ ?_ ?_ ?_ v step h
  · intro members ih step h
    rw [decodeStep] at h
    exact each_of_decodeMembers members _ step ih h
  · intro v hno step h
    rw [decodeStep] at h
    · simp at h
    · exact hno
  · intro items ih l h
    rw [decodeSteps] at h
    exact ih l h
  · intro v hno l h
    rw [decodeSteps] at h
    · simp at h
    · exact hno
  · intro l h
    rw [decodeItems, Except.ok.injEq] at h
    rw [← h]
    trivial
  · intro item rest ihitem ihrest l h
    rw [decodeItems, bind_ok_iff] at h
    rcases h with ⟨step, hstep, h⟩
    rcases (bind_ok_iff _ _ _).mp h with ⟨steps, hsteps, h⟩
    rw [← Except.ok.inj h]
    exact ⟨ihitem step hstep, ihrest steps hsteps⟩
  · intro name l h
    simp [decodeSubs, List.lookup_nil] at h
  · intro key value rest ihvalue ihrest name l h
    rw [decodeSubs, List.lookup_cons] at h
    split at h
    · rw [Option.some.injEq] at h
      exact ihvalue l h
    · exact ihrest name l h

/-! ## Taking a step apart -/

theorem lookup_remove (key key' : String) (members : List (String × Value)) :
    (remove key members).lookup key' = if key' = key then none else members.lookup key' := by
  unfold remove
  induction members with
  | nil => simp only [List.filter_nil, List.lookup_nil, ite_self]
  | cons member rest ih =>
      by_cases hmember : member.1 = key
      · rw [List.filter_cons_of_neg (by simpa using hmember), ih, List.lookup_cons]
        by_cases hkey : key' = key
        · rw [if_pos hkey, if_pos hkey]
        · rw [if_neg hkey, if_neg hkey, beq_false_of_ne (fun h => hkey (h.trans hmember))]
      · rw [List.filter_cons_of_pos (by simpa using hmember), List.lookup_cons, List.lookup_cons,
          ih]
        by_cases hkey : key' = key
        · rw [if_pos hkey, if_pos hkey, hkey, beq_false_of_ne (fun h => hmember h.symm)]
        · rw [if_neg hkey, if_neg hkey]

theorem lookup_foldr_remove (keys : List String) (key : String)
    (members : List (String × Value)) :
    (keys.foldr remove members).lookup key = if key ∈ keys then none else members.lookup key := by
  induction keys with
  | nil => rw [if_neg List.not_mem_nil, List.foldr_nil]
  | cons k keys ih =>
      rw [List.foldr_cons, lookup_remove, ih]
      by_cases hk : key = k
      · rw [if_pos hk, if_pos (List.mem_cons.mpr (.inl hk))]
      · rw [if_neg hk]
        by_cases hmem : key ∈ keys
        · rw [if_pos hmem, if_pos (List.mem_cons_of_mem k hmem)]
        · rw [if_neg hmem, if_neg (fun h => (List.mem_cons.mp h).elim hk hmem)]

/-- The fields that were peeled off are found where they were put. -/
theorem lookup_filterMap (keys : List String) (key : String) (hkey : key ∈ keys)
    (members : List (String × Value)) :
    (keys.filterMap (fun field => (members.lookup field).map (field, ·))).lookup key =
      members.lookup key := by
  induction keys with
  | nil => exact absurd hkey List.not_mem_nil
  | cons k keys ih =>
      rw [List.filterMap_cons]
      by_cases hk : key = k
      · subst hk
        cases hlookup : members.lookup key with
        | none =>
            simp only [Option.map_none]
            by_cases hmem : key ∈ keys
            · rw [ih hmem, hlookup]
            · -- No other field is found under this name.
              rw [List.lookup_eq_none_iff]
              intro entry hentry
              rcases List.mem_filterMap.mp hentry with ⟨field, hfield, hsome⟩
              rcases Option.map_eq_some_iff.mp hsome with ⟨value, _, rfl⟩
              rw [bne_iff_ne]
              rintro rfl
              exact hmem hfield
        | some value => simp [List.lookup_cons_self]
      · have hmem := (List.mem_cons.mp hkey).resolve_left hk
        cases members.lookup k with
        | none => exact ih hmem
        | some value =>
            simp only [Option.map_some]
            rw [List.lookup_cons, beq_false_of_ne hk]
            exact ih hmem

theorem lookup_decodeSubs (name : String) (members : List (String × Value)) :
    (decodeSubs f members).lookup name = (members.lookup name).map (decodeSteps f) := by
  induction members with
  | nil => rfl
  | cons member rest ih =>
      rw [decodeSubs, List.lookup_cons, List.lookup_cons, ih]
      split <;> rfl

/-- The names that the fields of a kind have. -/
def kindFields : List String :=
  ["kind", "tool", "args", "dcc", "items", "as", "steps", "prompt", "on", "then", "else"]

theorem lookup_encodeKind (kind : StepKind f.F) (key : String) (hkey : key ∉ kindFields) :
    (encodeKind f kind).lookup key = none := by
  rw [List.lookup_eq_none_iff]
  intro entry hentry
  rw [bne_iff_ne]
  rintro rfl
  refine hkey ?_
  cases kind <;>
    simp only [encodeKind, List.mem_cons, List.not_mem_nil, or_false] at hentry <;>
    rcases hentry with rfl | rfl | rfl | rfl <;> simp only [kindFields] <;> decide

theorem lookup_encodePolicy (p : StepPolicy f.F) (key : String) (hkey : key ∉ stepPolicyFields) :
    (encodePolicy f p).lookup key = none := by
  simp only [stepPolicyFields, List.mem_cons, List.not_mem_nil, or_false, not_or] at hkey
  simp only [encodePolicy, List.lookup_append, lookup_optionalMember, if_neg hkey.1,
    if_neg hkey.2.1, if_neg hkey.2.2.1, if_neg hkey.2.2.2.1, if_neg hkey.2.2.2.2, Option.or_none]

/-- The kind is read from its own fields. -/
theorem decodeKind_congr (id : String) (obj obj' : List (String × Value))
    (steps steps' : String → Except StepError (List (Step f.F)))
    (hobj : ∀ key ∈ kindFields, obj.lookup key = obj'.lookup key)
    (hsteps : ∀ key ∈ kindFields, steps key = steps' key) :
    decodeKind f id obj steps = decodeKind f id obj' steps' := by
  unfold decodeKind
  dsimp only
  rw [hobj "kind" (by decide), hobj "tool" (by decide), hobj "args" (by decide),
    hobj "dcc" (by decide), hobj "items" (by decide), hobj "as" (by decide),
    hobj "prompt" (by decide), hobj "on" (by decide), hsteps "steps" (by decide),
    hsteps "then" (by decide), hsteps "else" (by decide)]

/-- The lists of steps among the members of a mapping. -/
def stepsOf (id : String) (members : List (String × Value)) (name : String) :
    Except StepError (List (Step f.F)) :=
  (((members.lookup name).map (decodeSteps f)).getD (.ok [])).mapError (.nested id)

/-- A step is read from its own members, and from those of its policy. -/
theorem decodeMembers_encode (id : String) (kind : StepKind f.F) (policy : StepPolicy f.F)
    (hnormal : policy.Normal id) (hfinite : policy.Finite)
    (hkind : decodeKind f id (encodeKind f kind) (stepsOf id (encodeKind f kind)) = .ok kind) :
    decodeStep f (encodeStep f (.mk id kind policy)) = .ok (.mk id kind policy) := by
  have hhas : ((encodeKind f kind).lookup "kind").isSome = true := by
    cases kind <;> rfl
  have hlookup : ∀ key, key ≠ "id" →
      (("id", Value.string id) :: encodeKind f kind ++ encodePolicy f policy).lookup key =
        ((encodeKind f kind).lookup key).or ((encodePolicy f policy).lookup key) := by
    intro key hkey
    rw [List.cons_append, List.lookup_cons, beq_false_of_ne hkey]
    exact List.lookup_append
  have hobj : ∀ key, key ≠ "id" →
      (normaliseKind (remove "id"
          (("id", Value.string id) :: encodeKind f kind ++ encodePolicy f policy))).lookup key =
        ((encodeKind f kind).lookup key).or ((encodePolicy f policy).lookup key) := by
    intro key hkey
    have hnormalise : normaliseKind (remove "id"
        (("id", Value.string id) :: encodeKind f kind ++ encodePolicy f policy)) =
        remove "id" (("id", Value.string id) :: encodeKind f kind ++ encodePolicy f policy) := by
      rcases Option.isSome_iff_exists.mp hhas with ⟨v, hv⟩
      have hk : (remove "id" (("id", Value.string id) :: encodeKind f kind ++
          encodePolicy f policy)).lookup "kind" = some v := by
        rw [lookup_remove, if_neg (by decide : ("kind" : String) ≠ "id"),
          hlookup "kind" (by decide), hv, Option.some_or]
      unfold normaliseKind
      rw [hk]
      rfl
    rw [hnormalise, lookup_remove, if_neg hkey, hlookup key hkey]
  have hdisjoint : ∀ key ∈ stepPolicyFields, key ≠ "id" ∧ key ∉ kindFields := by decide
  have hdisjoint' : ∀ key ∈ kindFields, key ≠ "id" ∧ key ∉ stepPolicyFields := by decide
  rw [encodeStep, decodeStep]
  unfold decodeMembers
  rw [List.cons_append, List.lookup_cons_self]
  dsimp only
  rw [← List.cons_append]
  refine (bind_ok_iff _ _ _).mpr ⟨kind, ?_, (bind_ok_iff _ _ _).mpr ⟨policy.toRaw, ?_,
    (bind_ok_iff _ _ _).mpr ⟨policy, ?_, rfl⟩⟩⟩
  · rw [← hkind]
    refine decodeKind_congr id _ _ _ _ (fun key hkey => ?_) (fun key hkey => ?_)
    · rcases hdisjoint' key hkey with ⟨hid, hpolicy⟩
      rw [lookup_foldr_remove, if_neg hpolicy, hobj key hid, lookup_encodePolicy policy key hpolicy,
        Option.or_none]
    · rcases hdisjoint' key hkey with ⟨hid, hpolicy⟩
      unfold stepsOf
      rw [lookup_decodeSubs, hlookup key hid, lookup_encodePolicy policy key hpolicy,
        Option.or_none]
  · rw [mapError_ok_iff]
    refine decodeRawPolicy_encode policy _ hfinite (fun key hkey => ?_)
    rcases hdisjoint key hkey with ⟨hid, hkind'⟩
    rw [lookup_filterMap stepPolicyFields key hkey, hobj key hid, lookup_encodeKind kind key hkind',
      Option.none_or]
  · rw [mapError_ok_iff]
    exact decodePolicy_toRaw id policy hnormal

/-- A policy that is read back. -/
def ReadsBack (id : String) (p : StepPolicy f.F) : Prop := p.Normal id ∧ p.Finite

/-- A list of steps that is read back, as a member of a mapping. -/
theorem mapError_decodeSteps (id : String) (items : List Value) (steps : List (Step f.F))
    (h : decodeItems f items = .ok steps) :
    (decodeSteps f (.array items)).mapError (StepError.nested id) = .ok steps := by
  rw [mapError_ok_iff, decodeSteps]
  exact h

mutual

theorem decodeStep_encode (step : Step f.F) (h : step.Each ReadsBack) :
    decodeStep f (encodeStep f step) = .ok step := by
  match step with
  | .mk id kind policy =>
      exact decodeMembers_encode id kind policy h.1.1 h.1.2 (decodeKind_encode id kind h.2)

theorem decodeKind_encode (id : String) (kind : StepKind f.F) (h : kind.Each ReadsBack) :
    decodeKind f id (encodeKind f kind) (stepsOf id (encodeKind f kind)) = .ok kind := by
  match kind with
  | .tool tool args => rfl
  | .toolRemote dcc tool args => rfl
  | .approve prompt => rfl
  | .parallel steps =>
      have hsteps := mapError_decodeSteps id _ steps (decodeItems_encode steps h)
      have hof : stepsOf id (encodeKind f (.parallel steps)) "steps" = .ok steps := hsteps
      have hkind : (encodeKind f (.parallel steps)).lookup "kind" = some (.string "parallel") := rfl
      unfold decodeKind
      rw [hkind]
      dsimp only
      rw [hof]
      rfl
  | .foreach items binding steps =>
      have hsteps := mapError_decodeSteps id _ steps (decodeItems_encode steps h)
      have hof : stepsOf id (encodeKind f (.foreach items binding steps)) "steps" = .ok steps :=
        hsteps
      have hkind : (encodeKind f (.foreach items binding steps)).lookup "kind" =
          some (.string "foreach") := rfl
      unfold decodeKind
      rw [hkind]
      dsimp only
      rw [hof]
      rfl
  | .branch on thenSteps elseSteps =>
      have hthen := mapError_decodeSteps id _ thenSteps (decodeItems_encode thenSteps h.1)
      have helse := mapError_decodeSteps id _ elseSteps (decodeItems_encode elseSteps h.2)
      have hofThen : stepsOf id (encodeKind f (.branch on thenSteps elseSteps)) "then" =
          .ok thenSteps := hthen
      have hofElse : stepsOf id (encodeKind f (.branch on thenSteps elseSteps)) "else" =
          .ok elseSteps := helse
      have hkind : (encodeKind f (.branch on thenSteps elseSteps)).lookup "kind" =
          some (.string "branch") := rfl
      unfold decodeKind
      rw [hkind]
      dsimp only
      rw [hofThen, hofElse]
      rfl

theorem decodeItems_encode (steps : List (Step f.F)) (h : EachStep ReadsBack steps) :
    decodeItems f (encodeItems f steps) = .ok steps := by
  match steps with
  | [] => rfl
  | step :: rest =>
      rw [encodeItems, decodeItems, decodeStep_encode step h.1, decodeItems_encode rest h.2]
      rfl

end

/-! ## Specifications -/

mutual

theorem each_and (P Q : String → StepPolicy f.F → Prop) (step : Step f.F) (hP : step.Each P)
    (hQ : step.Each Q) : step.Each (fun id p => P id p ∧ Q id p) := by
  match step with
  | .mk id kind policy => exact ⟨⟨hP.1, hQ.1⟩, each_and_kind P Q kind hP.2 hQ.2⟩

theorem each_and_kind (P Q : String → StepPolicy f.F → Prop) (kind : StepKind f.F)
    (hP : kind.Each P) (hQ : kind.Each Q) : kind.Each (fun id p => P id p ∧ Q id p) := by
  match kind with
  | .tool _ _ | .toolRemote _ _ _ | .approve _ => trivial
  | .foreach _ _ steps | .parallel steps => exact each_and_steps P Q steps hP hQ
  | .branch _ thenSteps elseSteps =>
      exact ⟨each_and_steps P Q thenSteps hP.1 hQ.1, each_and_steps P Q elseSteps hP.2 hQ.2⟩

theorem each_and_steps (P Q : String → StepPolicy f.F → Prop) (steps : List (Step f.F))
    (hP : EachStep P steps) (hQ : EachStep Q steps) :
    EachStep (fun id p => P id p ∧ Q id p) steps := by
  match steps with
  | [] => trivial
  | step :: rest => exact ⟨each_and P Q step hP.1 hQ.1, each_and_steps P Q rest hP.2 hQ.2⟩

end

theorem normal_of_decodeItems (items : List Value) (steps : List (Step f.F))
    (h : decodeItems f items = .ok steps) : EachStep StepPolicy.Normal steps := by
  induction items generalizing steps with
  | nil =>
      rw [decodeItems, Except.ok.injEq] at h
      rw [← h]
      trivial
  | cons item rest ih =>
      rw [decodeItems, bind_ok_iff] at h
      rcases h with ⟨step, hstep, h⟩
      rcases (bind_ok_iff _ _ _).mp h with ⟨steps', hsteps, h⟩
      rw [← Except.ok.inj h]
      exact ⟨normal_of_decodeStep item step hstep, ih steps' hsteps⟩

theorem normal_of_stepsField (v : Option Value) (steps : List (Step f.F))
    (h : stepsField f v = .ok steps) : EachStep StepPolicy.Normal steps := by
  cases v with
  | none =>
      rw [stepsField, Except.ok.injEq] at h
      rw [← h]
      trivial
  | some v =>
      rw [stepsField, mapError_ok_iff] at h
      cases v with
      | array items => exact normal_of_decodeItems items steps h
      | _ => simp [decodeSteps] at h

variable (f) in
/-- A specification that was read: from JSON, or from a format with a reader of
    its own for everything but the steps, which are read from values. -/
inductive Decoded : WorkflowSpec f.F → Prop
  | json (v : Value) (spec : WorkflowSpec f.F) (h : decodeSpec f v = .ok spec) : Decoded spec
  | yaml (name description : String) (inputs : Value) (items : List Value)
      (steps : List (Step f.F)) (h : decodeItems f items = .ok steps) :
      Decoded ⟨name, description, inputs, steps⟩

theorem normal_of_decoded (spec : WorkflowSpec f.F) (h : Decoded f spec) :
    EachStep StepPolicy.Normal spec.steps := by
  cases h with
  | yaml name description inputs items steps h => exact normal_of_decodeItems items steps h
  | json v spec h =>
      unfold decodeSpec at h
      simp only [bind_ok_iff, mapError_ok_iff] at h
      rcases h with ⟨field, _, name, _, description, _, steps, hsteps, hspec⟩
      have hspec := Except.ok.inj hspec
      rw [← hspec]
      exact normal_of_stepsField _ steps hsteps

/-- The inputs are read back, whether they were left out or not. -/
theorem lookup_encodeInputs (inputs : Value) :
    ((encodeInputs inputs).lookup "inputs").getD .null = inputs := by
  cases inputs <;> rfl

theorem lookup_encodeInputs_of_ne (inputs : Value) (key : String) (h : key ≠ "inputs") :
    (encodeInputs inputs).lookup key = none := by
  cases inputs <;>
    simp only [encodeInputs, List.lookup_nil, List.lookup_cons, beq_false_of_ne h]

/-- A specification that was read and whose jitters are finite is read back
    from what it is written as. -/
theorem spec_round_trip (spec : WorkflowSpec f.F) (h : Decoded f spec)
    (hfinite : EachStep (fun _ p => StepPolicy.Finite p) spec.steps) :
    decodeSpec f (encodeSpec f spec) = .ok spec := by
  have hitems := decodeItems_encode spec.steps
    (each_and_steps _ _ spec.steps (normal_of_decoded spec h) hfinite)
  have hsteps : stepsField f (some (.array (encodeItems f spec.steps))) = .ok spec.steps := by
    rw [stepsField, mapError_ok_iff, decodeSteps]
    exact hitems
  have hinputs := lookup_encodeInputs spec.inputs
  have hother := lookup_encodeInputs_of_ne spec.inputs "steps" (by decide)
  unfold decodeSpec encodeSpec
  simp only [fields, List.lookup_append, List.lookup_cons, List.lookup_nil, String.reduceBEq,
    Option.none_or, Option.or_none, Option.some_or, requiredField, str, descriptionField, hinputs,
    hother, hsteps, bind, Except.bind, Except.mapError, pure, Except.pure]

/-- The two floats zero and a half. -/
def twoFloats : Float32 where
  F := Bool
  zero := false
  ofNumber := fun n => decide (n = .float 4602678819172646912)
  clampUnit := fun j => j
  toJson := fun j => .number (.float (if j then 4602678819172646912 else 0))
  finite := fun _ => true
  clamp_zero := rfl
  clamp_idem := fun _ => rfl
  reads_back := by
    intro j _
    cases j
    · exact ⟨_, rfl, by decide⟩
    · exact ⟨_, rfl, by decide⟩

/-- The policy of a step that is retried up to three times. -/
def retriedPolicy : StepPolicy twoFloats.F where
  timeout := some 30
  retry := some ⟨3, .exponential, 500, 10000, true, none⟩
  idempotencyKey := some "{{item}}"
  idempotencyScope := .global
  idempotencyTtlSecs := none

/-- A specification that renders every item, as a document has it. -/
def renderAll : Value :=
  .object [("name", .string "render"), ("steps", .array [
    .object [("id", .string "all"), ("kind", .string "foreach"),
      ("items", .string "$.inputs.shots"), ("steps", .array [
        .object [("id", .string "one"), ("tool", .string "render"), ("timeout_secs", encodeU64 30),
          ("retry", .object [("max_attempts", encodeU32 3),
            ("jitter", .number (.float 4602678819172646912))]),
          ("idempotency_key", .string "{{item}}"), ("idempotency_scope", .string "global"),
          ("idempotency_ttl_secs", encodeU64 0)]])]])]

def renderAllSpec : WorkflowSpec twoFloats.F where
  name := "render"
  description := ""
  inputs := .null
  steps := [.mk "all"
    (.foreach "$.inputs.shots" "item" [.mk "one" (.tool "render" .null) retriedPolicy])
    ⟨none, none, none, .workflow, none⟩]

theorem spec_round_trip_renderAll :
    decodeSpec twoFloats renderAll = .ok renderAllSpec ∧
      decodeSpec twoFloats (encodeSpec twoFloats renderAllSpec) = .ok renderAllSpec := by
  have hread : decodeSpec twoFloats renderAll = .ok renderAllSpec := rfl
  have hfinite : ∀ p : StepPolicy twoFloats.F, p.Finite := fun _ _ _ => rfl
  exact ⟨hread, spec_round_trip renderAllSpec (.json renderAll renderAllSpec hread)
    ⟨⟨hfinite _, ⟨⟨hfinite _, trivial⟩, trivial⟩⟩, trivial⟩⟩

end Wire

end Workflow

end DccMcp
