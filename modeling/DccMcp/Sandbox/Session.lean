import DccMcp.Lib.Json
import DccMcp.Lib.Machine
import Mathlib.Algebra.Group.Nat.Defs
import Mathlib.Data.List.Forall2

/-!
# Sandbox Sessions

Every exit of `SandboxContext::execute` writes its own audit entry, and only
the last advances the counter that the limit of actions is checked against. So
a handler that fails has been invoked and is not counted. The counter is a
`u32` that wraps, and the time that has passed is an input.

## Main definitions

* `execute`, `Run.execute`: A call, and one more call of a session.
* `Accounted`, `Accounts`: What one call does, and what a session amounts to.

## Theorems

* `execute_spec`: One call, whichever way it ends.
* `session_accounts`: Entries, permissions and the limit over a whole session.
-/

namespace DccMcp

namespace Sandbox

namespace Session

open Json (Value)
open Machine

inductive SandboxError
  | timeout (timeoutMs : Nat)
  | actionNotAllowed (action : String)
  | pathNotAllowed (path : String)
  | validationFailed (field reason : String)
  | readOnlyViolation (operation : String)
  | actionLimitExceeded (limit attempted : Nat)
  | serialization (message : String)
  | internal (message : String)

/-- The text of an error. -/
def SandboxError.display : SandboxError → String
  | .timeout timeoutMs => "execution timed out after " ++ toString timeoutMs ++ "ms"
  | .actionNotAllowed action => "action '" ++ action ++ "' is not allowed by the API whitelist"
  | .pathNotAllowed path => "path '" ++ path ++ "' is outside allowed directories"
  | .validationFailed field reason => "input validation failed for '" ++ field ++ "': " ++ reason
  | .readOnlyViolation operation =>
    "sandbox is in read-only mode; write operation '" ++ operation ++ "' is not permitted"
  | .actionLimitExceeded limit attempted =>
    "exceeded maximum action count of " ++ toString limit ++ " (attempted " ++
      toString attempted ++ ")"
  | .serialization message => "serialization error: " ++ message
  | .internal message => "internal sandbox error: " ++ message

inductive AuditOutcome
  | success
  | denied (reason : String)
  | error (message : String)
  | timeout

structure AuditEntry where
  timestampMs : Nat
  actor : Option String
  action : String
  paramsJson : String
  durationMs : Nat
  outcome : AuditOutcome

/-- What `execute` reads of a `SandboxPolicy`. -/
structure SandboxPolicy where
  allowedActions : Option (List String)
  deniedActions : List String
  timeoutMs : Option Nat
  maxActions : Option Nat

def SandboxPolicy.checkAction (policy : SandboxPolicy) (action : String) :
    Except SandboxError Unit :=
  if action ∈ policy.deniedActions then .error (.actionNotAllowed action)
  else match policy.allowedActions with
    | some allowed => if action ∈ allowed then .ok () else .error (.actionNotAllowed action)
    | none => .ok ()

/-- The arguments of a call, a validator by what its rules say about an object.
    `waited` is the time up to the timeout check, in nanoseconds, and `took` the
    time up to the audit entry. -/
structure Call where
  action : String
  params : Value
  validator : Option (List (String × Value) → Except SandboxError Unit)
  handler : Option (List (String × Value) → Except SandboxError Value)
  waited : Nat
  took : Nat
  timestamp : Nat

/-- The input validation, with `validate_value`. -/
def Call.validated (call : Call) : Except SandboxError Unit :=
  match call.validator, call.params with
  | none, _ => .ok ()
  | some rules, .object members => rules members
  | some _, _ => .error (.validationFailed "<root>" "expected JSON object for parameters")

/-- `SandboxContext`, without its policy. -/
structure SandboxContext where
  auditLog : List AuditEntry
  actionCount : Nat
  actor : Option String

/-- The outcome of a call, and whether its handler was invoked. -/
structure Execution where
  result : Except SandboxError Value
  context : SandboxContext
  invoked : Bool

variable (text : Value → String) (policy : SandboxPolicy) (ctx : SandboxContext) (call : Call)

/-- `emit_audit`, with the JSON text of a value as a parameter. -/
def SandboxContext.emitAudit (outcome : AuditOutcome) : SandboxContext :=
  { ctx with auditLog := ctx.auditLog ++
      [⟨call.timestamp, ctx.actor, call.action, text call.params, call.took, outcome⟩] }

/-- An exit that denies the call. -/
def SandboxContext.deny (e : SandboxError) : Execution :=
  ⟨.error e, ctx.emitAudit text call (.denied e.display), false⟩

/-- The exit of a call that succeeds. -/
def SandboxContext.succeed (value : Value) (invoked : Bool) : Execution :=
  ⟨.ok value, { ctx with actionCount := (ctx.actionCount + 1) % 2 ^ 32 }.emitAudit text call
    .success, invoked⟩

/-- The limit check. -/
def limitError : Option SandboxError :=
  policy.maxActions.bind fun max =>
    let attempted := (ctx.actionCount + 1) % 2 ^ 32
    if max < attempted then some (.actionLimitExceeded max attempted) else none

def execute : Execution :=
  match limitError policy ctx with
  | some e => ctx.deny text call e
  | none =>
    match policy.checkAction call.action with
    | .error e => ctx.deny text call e
    | .ok () =>
      match call.validated with
      | .error e => ctx.deny text call e
      | .ok () =>
        match call.handler with
        | none => ctx.succeed text call .null false
        | some handler =>
          match call.params with
          | .object members =>
            match policy.timeoutMs.filter fun ms => decide (ms * 1000000 ≤ call.waited) with
            | some ms => ⟨.error (.timeout ms), ctx.emitAudit text call .timeout, false⟩
            | none =>
              match handler members with
              | .ok value => ctx.succeed text call value true
              | .error e => ⟨.error e, ctx.emitAudit text call (.error e.display), true⟩
          | _ => ctx.deny text call
              (.validationFailed "<root>" "params must be a JSON object")

/-! ## One call -/

/-- The outcome that an entry names for a result. -/
def Matches (invoked : Bool) : Except SandboxError Value → AuditOutcome → Prop
  | .ok _, outcome => outcome = .success
  | .error e, outcome =>
    if invoked then outcome = .error e.display
    else outcome = .denied e.display ∨ outcome = .timeout ∧ ∃ ms, e = .timeout ms

/-- The audit entry of a call. -/
structure Records (actor : Option String) (x : Execution) (entry : AuditEntry) : Prop where
  actor : entry.actor = actor
  action : entry.action = call.action
  params : entry.paramsJson = text call.params
  outcome : Matches x.invoked x.result entry.outcome

def Execution.succeeded (x : Execution) : Bool := x.result.isOk

/-- The handler was invoked and returned an error. -/
def Execution.failed (x : Execution) : Bool := x.invoked && !x.succeeded

/-- What one call does. -/
structure Accounted (x : Execution) : Prop where
  entry : ∃ entry, x.context.auditLog = ctx.auditLog ++ [entry] ∧
    Records text call ctx.actor x entry
  actor : x.context.actor = ctx.actor
  permitted : x.invoked = true →
    policy.checkAction call.action = .ok () ∧ call.validated = .ok ()
  counted : if x.succeeded then
      limitError policy ctx = none ∧ x.context.actionCount = (ctx.actionCount + 1) % 2 ^ 32
    else x.context.actionCount = ctx.actionCount

theorem accounted_deny (e : SandboxError) :
    Accounted text policy ctx call (ctx.deny text call e) where
  entry := ⟨_, rfl, rfl, rfl, rfl, .inl rfl⟩
  actor := rfl
  permitted h := by cases h
  counted := rfl

theorem accounted_succeed (value : Value) (invoked : Bool) (hlimit : limitError policy ctx = none)
    (hcheck : policy.checkAction call.action = .ok ()) (hvalid : call.validated = .ok ()) :
    Accounted text policy ctx call (ctx.succeed text call value invoked) where
  entry := ⟨_, rfl, rfl, rfl, rfl, rfl⟩
  actor := rfl
  permitted _ := ⟨hcheck, hvalid⟩
  counted := ⟨hlimit, rfl⟩

theorem execute_spec : Accounted text policy ctx call (execute text policy ctx call) := by
  unfold execute
  split
  next e _ => exact accounted_deny text policy ctx call e
  next hlimit =>
    split
    next e _ => exact accounted_deny text policy ctx call e
    next hcheck =>
      split
      next e _ => exact accounted_deny text policy ctx call e
      next hvalid =>
        split
        next => exact accounted_succeed text policy ctx call _ _ hlimit hcheck hvalid
        next handler _ =>
          split
          next members _ =>
            split
            next ms _ =>
              exact ⟨⟨_, rfl, rfl, rfl, rfl, .inr ⟨rfl, ms, rfl⟩⟩, rfl, nofun, rfl⟩
            next =>
              split
              next => exact accounted_succeed text policy ctx call _ _ hlimit hcheck hvalid
              next e _ =>
                exact ⟨⟨_, rfl, rfl, rfl, rfl, rfl⟩, rfl, fun _ => ⟨hcheck, hvalid⟩, rfl⟩
          next => exact accounted_deny text policy ctx call _

/-! ## A session -/

/-- A context with the calls that were made on it. -/
structure Run where
  context : SandboxContext
  past : List (Call × Execution)

variable (actor : Option String) (s : Run)

/-- `SandboxContext::new`, with an actor. -/
def Run.new : Run := ⟨⟨[], 0, actor⟩, []⟩

/-- One more call. -/
def Run.execute (s : Run) (call : Call) : Run :=
  let x := Session.execute text policy s.context call
  ⟨x.context, s.past ++ [(call, x)]⟩

/-- The calls of the past whose execution is of a kind. -/
def Run.number (kind : Execution → Bool) : Nat := s.past.countP fun p => kind p.2

theorem le_of_limitError (n : Nat) (hmax : policy.maxActions = some n)
    (h : limitError policy ctx = none) : (ctx.actionCount + 1) % 2 ^ 32 ≤ n := by
  rw [limitError, hmax] at h
  by_cases hover : n < (ctx.actionCount + 1) % 2 ^ 32
  · exact absurd ((if_pos hover).symm.trans h) (Option.some_ne_none _)
  · exact Nat.not_lt.mp hover

/-- What a session amounts to: an entry for every call, in their order, only
    permitted handlers, and a count within the limit. -/
structure Accounts (calls : List Call) : Prop where
  calls : s.past.map Prod.fst = calls
  attributed : s.context.actor = actor
  entries : List.Forall₂ (fun p entry => Records text p.1 actor p.2 entry) s.past
    s.context.auditLog
  permitted : ∀ p ∈ s.past, p.2.invoked = true →
    policy.checkAction p.1.action = .ok () ∧ p.1.validated = .ok ()
  counted : ∀ n, policy.maxActions = some n → n + 1 < 2 ^ 32 →
    s.context.actionCount = s.number Execution.succeeded ∧ s.context.actionCount ≤ n

theorem accounts_call (calls : List Call) (h : Accounts text policy actor s calls) :
    Accounts text policy actor (s.execute text policy call) (calls ++ [call]) := by
  have hspec := execute_spec text policy s.context call
  refine ⟨?_, hspec.actor.trans h.attributed, ?_, ?_, fun n hmax hword => ?_⟩
  · exact (List.map_append ..).trans (congrArg (· ++ [call]) h.calls)
  · obtain ⟨entry, hlog, hrecords⟩ := hspec.entry
    rw [h.attributed] at hrecords
    change List.Forall₂ _ (s.past ++ [_]) (execute text policy s.context call).context.auditLog
    rw [hlog]
    exact List.rel_append h.entries (.cons hrecords .nil)
  · intro p hp hinvoked
    rcases List.mem_append.mp hp with hp | hp
    · exact h.permitted p hp hinvoked
    · rw [List.mem_singleton.mp hp] at hinvoked ⊢
      exact hspec.permitted hinvoked
  · obtain ⟨hcount, hle⟩ := h.counted n hmax hword
    have hnumber : (s.execute text policy call).number Execution.succeeded =
        s.number Execution.succeeded +
          if (execute text policy s.context call).succeeded then 1 else 0 := by
      rw [Run.number, Run.execute, List.countP_append, List.countP_singleton, Run.number]
    have hcounted := hspec.counted
    rw [hnumber]
    change (execute text policy s.context call).context.actionCount = _ ∧
      (execute text policy s.context call).context.actionCount ≤ n
    split at hcounted
    next hok =>
      -- A counted call is within the limit, so the counter has not wrapped.
      obtain ⟨hlimit, hnext⟩ := hcounted
      have hmod : (s.context.actionCount + 1) % 2 ^ 32 = s.context.actionCount + 1 :=
        Nat.mod_eq_of_lt (by omega)
      have hwithin := le_of_limitError policy s.context n hmax hlimit
      rw [hmod] at hwithin
      rw [hnext, hmod, if_pos hok, hcount]
      exact ⟨rfl, hcount ▸ hwithin⟩
    next hok =>
      rw [hcounted, if_neg hok]
      exact ⟨hcount, hle⟩

/-- A handler that was invoked succeeded or failed. -/
theorem Run.invoked_le : s.number Execution.invoked ≤
    s.number Execution.succeeded + s.number Execution.failed := by
  unfold number
  induction s.past with
  | nil => exact Nat.le_refl 0
  | cons p past ih =>
      simp only [List.countP_cons, show p.2.failed = (p.2.invoked && !p.2.succeeded) from rfl]
      cases p.2.invoked <;> cases p.2.succeeded <;> simp <;> omega

/-- Every session accounts for its calls, and invokes no more handlers than the
    limit and those that failed. -/
theorem session_accounts (calls : List Call) :
    let s := calls.foldl (Run.execute text policy) (.new actor)
    Accounts text policy actor s calls ∧ ∀ n, policy.maxActions = some n → n + 1 < 2 ^ 32 →
      s.number Execution.invoked ≤ n + s.number Execution.failed := by
  intro s
  have h : Accounts text policy actor s calls :=
    exec_history (total (Run.execute text policy)) (fun _ _ => True)
      (fun past t => Accounts text policy actor t past) (.new actor)
      ⟨rfl, rfl, .nil, nofun, fun n _ _ => ⟨rfl, Nat.zero_le n⟩⟩
      (fun past t c u ht _ hu => Option.some.inj hu ▸ accounts_call text policy c actor t past ht)
      calls s (along_true _ _ _) (exec_total _ _ _)
  refine ⟨h, fun n hmax hword => ?_⟩
  obtain ⟨hcount, hle⟩ := h.counted n hmax hword
  have hsplit := s.invoked_le
  omega

end Session

end Sandbox

end DccMcp
