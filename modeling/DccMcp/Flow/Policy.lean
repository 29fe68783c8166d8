import DccMcp.Lib.Histories
import DccMcp.Flow.Executor

/-!
# Attempts under a Policy

What `run_with_policy` does with a tool, by what it has done before.

The driver of a tool is a thread among others. Between two of its actions the store of cached
results can change and the run can be cancelled, and every attempt can end in any way. So the
history of the driver is taken with arbitrary answers: a look into the store finds anything or
nothing, and a call is answered by a value, an error, the end of its time or a cancellation.

Of the history only a few things matter, and they are noted as they come: the calls that were
made, how they ended, what was found in the store, what was recorded as the output of the step,
and what was put into the store.

Both an output that was found and one that was returned are ingested before they are recorded:
artefacts that are inline in them are moved to the artefact store. It is the ingested output
that is put into the store.

## Main definitions

* `Seen`, `seen`: What is noted of a history.
* `StepPolicy.maxAttempts`, `StepPolicy.Retries`: The policy of the loop.
* `PolicyLaw`, `PolicyEnd`: What holds of every history, and of the outcome.

## Theorems

* `run_with_policy_law`: The law of every history of the driver.
-/

namespace DccMcp

namespace Workflow

open Json Process

/-- What is noted of a history. -/
structure Seen where
  calls : Nat
  answers : List CallAnswer
  hits : List Value
  recorded : List (String × StepOutput)
  puts : List Value

/-- One more action, with its answer. -/
def Seen.note (s : Seen) : (Σ a : Action, a.Answer) → Seen
  | ⟨.invoke _ _ _ _, _⟩ => { s with calls := s.calls + 1 }
  | ⟨.awaitCall _ _ _, (answer : CallAnswer)⟩ => { s with answers := s.answers ++ [answer] }
  | ⟨.idempotencyGet _ _, (cached : Option Value)⟩ => { s with hits := s.hits ++ cached.toList }
  | ⟨.recordStep id output, _⟩ => { s with recorded := s.recorded ++ [(id, output)] }
  | ⟨.idempotencyPut _ _ output _, _⟩ => { s with puts := s.puts ++ [output] }
  | _ => s

/-- What is noted of the whole history. -/
def seen (t : History Action Action.Answer) : Seen := t.foldl Seen.note ⟨0, [], [], [], []⟩

theorem seen_snoc (t : History Action Action.Answer) (l : Σ a : Action, a.Answer) :
    seen (t ++ [l]) = (seen t).note l := by
  unfold seen
  rw [List.foldl_append]
  rfl

/-- The bound of the loop. No policy means one attempt, and so does the bound zero. -/
def StepPolicy.maxAttempts (policy : StepPolicy) : Nat :=
  max ((policy.retry.map (·.maxAttempts)).getD 1) 1

/-- The policy retries an attempt that ended so. -/
def StepPolicy.Retries (policy : StepPolicy) : CallAnswer → Prop
  | .returned (.error e) => policy.retry.any (·.isRetryable (classifyError e)) = true
  | .elapsed => policy.retry.any (·.isRetryable "timeout") = true
  | _ => False

/-- The last attempt has returned the output. -/
def Seen.Succeeded (s : Seen) (output : Value) : Prop :=
  s.answers.getLast? = some (.returned (.ok output))

section Law

variable (run : RunState) (id : String) (policy : StepPolicy)

/-- What holds of the history of a driver at every time. -/
structure PolicyLaw (s : Seen) : Prop where
  calls : s.calls ≤ policy.maxAttempts
  awaited : s.answers.length ≤ s.calls
  one : s.calls ≤ s.answers.length + 1
  /-- Every attempt but the last has ended in an error the policy retries. -/
  retried : ∀ answer ∈ s.answers.dropLast, policy.Retries answer
  /-- While an attempt is waited for, all have. -/
  again : s.answers.length < s.calls → ∀ answer ∈ s.answers, policy.Retries answer
  hit : s.hits ≠ [] → s.calls = 0
  puts : ∀ value ∈ s.puts, ∃ output, s.Succeeded output ∧
    value = (ingestOutput run.host run.rootJobId output).output
  recorded : ∀ r ∈ s.recorded, r.1 = id ∧
    ((∃ cached ∈ s.hits, r.2 = ingestOutput run.host run.rootJobId cached) ∨
      ∃ output, s.Succeeded output ∧ r.2 = ingestOutput run.host run.rootJobId output)

/-- The status of a sequence that ends with this step. -/
def StepOutcome.status : StepOutcome → WorkflowStatus
  | .ok => .completed
  | .cancelled => .cancelled
  | .failed _ => .failed

/-- What holds of the history of a driver at its end. -/
structure PolicyEnd (s : Seen) (status : WorkflowStatus) : Prop where
  ok : status = .completed ↔ s.hits ≠ [] ∨ ∃ output, s.Succeeded output
  cached : ∀ cached ∈ s.hits, s.recorded = [(id, ingestOutput run.host run.rootJobId cached)]
  returned : ∀ output, s.Succeeded output →
    s.recorded = [(id, ingestOutput run.host run.rootJobId output)]

/-! ## The stages of the loop -/

/-- Before an attempt, when so many are left. -/
structure Ready (remaining : Nat) (s : Seen) : Prop where
  calls : s.calls + remaining = policy.maxAttempts
  answers : s.answers.length = s.calls
  retried : ∀ answer ∈ s.answers, policy.Retries answer
  hits : s.hits = []
  recorded : s.recorded = []
  puts : s.puts = []

/-- While an attempt is waited for. -/
structure Called (remaining : Nat) (s : Seen) : Prop where
  calls : s.calls + remaining = policy.maxAttempts
  answers : s.answers.length + 1 = s.calls
  retried : ∀ answer ∈ s.answers, policy.Retries answer
  hits : s.hits = []
  recorded : s.recorded = []
  puts : s.puts = []

/-- After an attempt, with what was recorded and put since. -/
structure Answered (answer : CallAnswer) (recorded : List (String × StepOutput))
    (puts : List Value) (s : Seen) : Prop where
  calls : s.calls ≤ policy.maxAttempts
  answers : s.answers.length = s.calls
  retried : ∀ answer ∈ s.answers.dropLast, policy.Retries answer
  last : s.answers.getLast? = some answer
  hits : s.hits = []
  recorded : s.recorded = recorded
  puts : s.puts = puts

variable {run id policy}

/-- As long as every answer is one to retry, the counts are all there is to the law. -/
theorem PolicyLaw.of_retried (s : Seen) (hcalls : s.calls ≤ policy.maxAttempts)
    (hawaited : s.answers.length ≤ s.calls) (hone : s.calls ≤ s.answers.length + 1)
    (hretried : ∀ answer ∈ s.answers, policy.Retries answer) (hhits : s.hits = [])
    (hrecorded : s.recorded = []) (hputs : s.puts = []) : PolicyLaw run id policy s where
  calls := hcalls
  awaited := hawaited
  one := hone
  retried answer hanswer := hretried answer (List.dropLast_subset _ hanswer)
  again _ := hretried
  hit hne := absurd hhits hne
  puts value hvalue := by
    rw [hputs] at hvalue
    exact absurd hvalue List.not_mem_nil
  recorded r hr := by
    rw [hrecorded] at hr
    exact absurd hr List.not_mem_nil

theorem Ready.law (remaining : Nat) (s : Seen) (h : Ready policy remaining s) :
    PolicyLaw run id policy s := by
  have hcalls := h.calls
  have hanswers := h.answers
  exact .of_retried s (by omega) (by omega) (by omega) h.retried h.hits h.recorded h.puts

theorem Called.law (remaining : Nat) (s : Seen) (h : Called policy remaining s) :
    PolicyLaw run id policy s := by
  have hcalls := h.calls
  have hanswers := h.answers
  exact .of_retried s (by omega) (by omega) (by omega) h.retried h.hits h.recorded h.puts

/-- What is recorded and put after an attempt is its ingested output. -/
theorem Answered.law (answer : CallAnswer) (recorded : List (String × StepOutput))
    (puts : List Value) (s : Seen) (h : Answered policy answer recorded puts s)
    (hputs : ∀ value ∈ puts, ∃ output, answer = .returned (.ok output) ∧
      value = (ingestOutput run.host run.rootJobId output).output)
    (hrecorded : ∀ r ∈ recorded, r.1 = id ∧ ∃ output, answer = .returned (.ok output) ∧
      r.2 = ingestOutput run.host run.rootJobId output) :
    PolicyLaw run id policy s where
  calls := h.calls
  awaited := Nat.le_of_eq h.answers
  one := by have := h.answers; omega
  retried := h.retried
  again hlt := absurd h.answers (Nat.ne_of_lt hlt)
  hit hne := absurd h.hits hne
  puts value hvalue := by
    rw [h.puts] at hvalue
    rcases hputs value hvalue with ⟨output, hanswer, houtput⟩
    exact ⟨output, h.last.trans (congrArg some hanswer), houtput⟩
  recorded r hr := by
    rw [h.recorded] at hr
    rcases hrecorded r hr with ⟨hid, output, hanswer, houtput⟩
    exact ⟨hid, .inr ⟨output, h.last.trans (congrArg some hanswer), houtput⟩⟩

/-- An attempt is made. -/
theorem Ready.called (remaining : Nat) (s : Seen) (h : Ready policy (remaining + 1) s) :
    Called policy remaining { s with calls := s.calls + 1 } where
  calls := by have := h.calls; dsimp only; omega
  answers := congrArg (· + 1) h.answers
  retried := h.retried
  hits := h.hits
  recorded := h.recorded
  puts := h.puts

/-- An attempt has ended. -/
theorem Called.answered (remaining : Nat) (s : Seen) (h : Called policy remaining s)
    (answer : CallAnswer) :
    Answered policy answer [] [] { s with answers := s.answers ++ [answer] } where
  calls := by have := h.calls; dsimp only; omega
  answers := List.length_append.trans h.answers
  retried := by
    rw [List.dropLast_concat]
    exact h.retried
  last := List.getLast?_concat
  hits := h.hits
  recorded := h.recorded
  puts := h.puts

/-- An attempt has ended in an error that is retried. -/
theorem Called.ready (remaining : Nat) (s : Seen) (h : Called policy remaining s)
    (answer : CallAnswer) (hretries : policy.Retries answer) :
    Ready policy remaining { s with answers := s.answers ++ [answer] } where
  calls := h.calls
  answers := List.length_append.trans h.answers
  retried := by
    intro answer' hanswer
    rcases List.mem_append.mp hanswer with hold | hnew
    · exact h.retried answer' hold
    · rw [List.mem_singleton.mp hnew]
      exact hretries
  hits := h.hits
  recorded := h.recorded
  puts := h.puts

/-- A loop that ends without a success. -/
theorem PolicyEnd.of_unsuccessful (s : Seen) (status : WorkflowStatus)
    (hstatus : status ≠ .completed) (hhits : s.hits = [])
    (hanswers : ∀ output, ¬ s.Succeeded output) : PolicyEnd run id s status where
  ok := by
    simp [hstatus, hhits, hanswers]
  cached cached hcached := by
    rw [hhits] at hcached
    exact absurd hcached List.not_mem_nil
  returned output houtput := absurd houtput (hanswers output)

/-- Between two attempts there is no success. -/
theorem Ready.not_succeeded (remaining : Nat) (s : Seen) (h : Ready policy remaining s)
    (output : Value) : ¬ s.Succeeded output :=
  fun hlast => h.retried _ (List.mem_of_getLast? hlast)

/-- An attempt that has not returned an output is no success. -/
theorem Answered.not_succeeded (answer : CallAnswer) (recorded : List (String × StepOutput))
    (puts : List Value) (s : Seen) (h : Answered policy answer recorded puts s)
    (hanswer : ∀ output, answer ≠ .returned (.ok output)) (output : Value) :
    ¬ s.Succeeded output :=
  fun hlast => hanswer output (Option.some.inj (h.last.symm.trans hlast))

/-- A loop that ends with a success. -/
theorem PolicyEnd.of_answered (output : Value) (puts : List Value) (s : Seen)
    (h : Answered policy (.returned (.ok output))
      [(id, ingestOutput run.host run.rootJobId output)] puts s) :
    PolicyEnd run id s .completed where
  ok := ⟨fun _ => .inr ⟨output, h.last⟩, fun _ => rfl⟩
  cached cached hcached := by
    rw [h.hits] at hcached
    exact absurd hcached List.not_mem_nil
  returned output' houtput := by
    have heq := h.last.symm.trans houtput
    rw [Option.some.injEq, CallAnswer.returned.injEq, Except.ok.injEq] at heq
    rw [← heq]
    exact h.recorded

end Law

/-! ## The driver -/

section Driver

variable (run : RunState) (id : String) (policy : StepPolicy)

/-- The law of a history. -/
def Lawful (t : History Action Action.Answer) : Prop := PolicyLaw run id policy (seen t)

/-- A program in whose actions nothing is noted. -/
def Unnoted {ρ : Type} (m : Program ρ) : Prop :=
  ∀ past, Lawful run id policy past →
    Block.Keeps (Lawful run id policy) past m (fun past' _ => seen past' = seen past)

variable {run id policy}

theorem unnoted_act (a : Action) (h : ∀ s b, Seen.note s ⟨a, b⟩ = s) :
    Unnoted run id policy (Block.act a) := by
  intro past hpast
  refine Block.keeps_act past a _ (fun b => ?_)
  have hsame : seen (past ++ [⟨a, b⟩]) = seen past := (seen_snoc past ⟨a, b⟩).trans (h _ b)
  refine ⟨?_, hsame⟩
  unfold Lawful
  rw [hsame]
  exact hpast

theorem unnoted_pure {ρ : Type} (r : ρ) : Unnoted run id policy (pure r : Program ρ) :=
  fun past _ => Block.keeps_pure past r _ rfl

theorem unnoted_bind {ρ τ : Type} (m : Program ρ) (f : ρ → Program τ)
    (hm : Unnoted run id policy m) (hf : ∀ r, Unnoted run id policy (f r)) :
    Unnoted run id policy (m >>= f) := by
  intro past hpast
  refine Block.keeps_bind past m f _ _ (hm past hpast) (fun past' r hsame => ?_)
  have hpast' : Lawful run id policy past' := by
    unfold Lawful
    rw [hsame]
    exact hpast
  exact Block.keeps_mono past' (f r) _ _ (hf r past' hpast')
    (fun _ _ hsame' => hsame'.trans hsame)

variable (scope : List Binding) (past : History Action Action.Answer) (remaining : Nat)

/-- Rendering only reads. -/
theorem unnoted_render (value : Value) : Unnoted run id policy (render run scope value) := by
  have hrelated : Related (fun ρ (m : Program ρ) (_ : Id ρ) => Unnoted run id policy m) :=
    ⟨fun r => unnoted_pure r, fun hm hf => unnoted_bind _ _ hm hf⟩
  refine unnoted_bind _ _ (unnoted_act (.asJson scope) (fun _ _ => rfl)) (fun root => ?_)
  exact hrelated.renderValue (lookupItem scope) (fun _ => none)
    (fun name => unnoted_act (.lookupItem scope name) (fun _ _ => rfl)) root run.host.text value

theorem unnoted_renderKey : Unnoted run id policy (renderKey run scope policy) := by
  unfold renderKey
  split
  · exact unnoted_pure _
  · refine unnoted_bind _ _ (unnoted_render scope _) (fun rendered => ?_)
    split <;> exact unnoted_pure _

/-- An action that is noted. -/
theorem keeps_noted (a : Action) (post : Seen → a.Answer → Prop)
    (h : ∀ b, PolicyLaw run id policy ((seen past).note ⟨a, b⟩) ∧
      post ((seen past).note ⟨a, b⟩) b) :
    Block.Keeps (Lawful run id policy) past (Block.act a : Program a.Answer)
      (fun past' b => post (seen past') b) := by
  refine Block.keeps_act past a _ (fun b => ?_)
  unfold Lawful
  rw [seen_snoc]
  exact h b

/-- A program in whose actions nothing is noted, where something holds. -/
theorem keeps_unnoted {ρ : Type} (past : History Action Action.Answer) (m : Program ρ)
    (p : Seen → Prop) (hm : Unnoted run id policy m) (hlaw : ∀ s, p s → PolicyLaw run id policy s)
    (h : p (seen past)) :
    Block.Keeps (Lawful run id policy) past m (fun past' _ => p (seen past')) :=
  Block.keeps_mono past m _ _ (hm past (hlaw _ h)) (fun _ _ hsame => by rw [hsame]; exact h)

/-- The outcome of the driver, of which the history is right. -/
def Concluded (run : RunState) (id : String) (past : History Action Action.Answer)
    (outcome : StepOutcome) : Prop :=
  PolicyEnd run id (seen past) outcome.status

/-- What is done after a success. -/
theorem keeps_success (output : Value) (key : Option String)
    (h : Answered policy (.returned (.ok output)) [] [] (seen past)) :
    Block.Keeps (Lawful run id policy) past
      (do
        let out := ingestOutput run.host run.rootJobId output
        recordOutput id out
        match key with
        | some key =>
          idempotencyPut policy.idempotencyScope key out.output policy.idempotencyTtlSecs
        | none => pure ()
        pure .ok : Program StepOutcome)
      (Concluded run id) := by
  let out := ingestOutput run.host run.rootJobId output
  -- The output is recorded first.
  have hrecorded : ∀ puts s, Answered policy (.returned (.ok output)) [(id, out)] puts s →
      (∀ value ∈ puts, value = out.output) → PolicyLaw run id policy s := by
    intro puts s hs hputs
    refine hs.law _ _ _ _ (fun value hvalue => ⟨output, rfl, hputs value hvalue⟩) ?_
    intro r hr
    rw [List.mem_singleton.mp hr]
    exact ⟨rfl, output, rfl, rfl⟩
  refine Block.keeps_bind past _ _
    (fun past' _ => Answered policy (.returned (.ok output)) [(id, out)] [] (seen past')) _ ?_ ?_
  · refine Block.keeps_bind past _ _
      (fun past' _ => Answered policy (.returned (.ok output)) [(id, out)] [] (seen past')) _ ?_
      ?_
    · refine keeps_noted past (.recordStep id out)
        (fun s _ => Answered policy (.returned (.ok output)) [(id, out)] [] s) (fun b => ?_)
      have hnext : Answered policy (.returned (.ok output)) [(id, out)] []
          ((seen past).note ⟨.recordStep id out, b⟩) :=
        { h with recorded := (congrArg (· ++ [(id, out)]) h.recorded) }
      exact ⟨hrecorded _ _ hnext (fun _ hvalue => absurd hvalue List.not_mem_nil), hnext⟩
    · intro past' _ hpast'
      exact keeps_unnoted past' _ _ (unnoted_act (.recordOutputSnapshot id out.output)
        (fun _ _ => rfl))
        (fun s hs => hrecorded _ s hs (fun _ hvalue => absurd hvalue List.not_mem_nil)) hpast'
  · intro past' _ hpast'
    cases key with
    | none =>
        exact Block.keeps_pure past' StepOutcome.ok _ (PolicyEnd.of_answered output [] _ hpast')
    | some key =>
        refine Block.keeps_bind past' _ _ (fun past'' _ =>
          Answered policy (.returned (.ok output)) [(id, out)] [out.output] (seen past'')) _ ?_ ?_
        · refine keeps_noted past' (.idempotencyPut policy.idempotencyScope key out.output
            policy.idempotencyTtlSecs) (fun s _ =>
              Answered policy (.returned (.ok output)) [(id, out)] [out.output] s) (fun b => ?_)
          have hnext : Answered policy (.returned (.ok output)) [(id, out)] [out.output]
              ((seen past').note ⟨.idempotencyPut policy.idempotencyScope key out.output
                policy.idempotencyTtlSecs, b⟩) :=
            { hpast' with puts := congrArg (· ++ [out.output]) hpast'.puts }
          exact ⟨hrecorded _ _ hnext (fun _ hvalue => List.mem_singleton.mp hvalue), hnext⟩
        · intro past'' _ hpast''
          exact Block.keeps_pure past'' StepOutcome.ok _ (PolicyEnd.of_answered output _ _ hpast'')

/-- After an error there is another attempt, or none. -/
theorem keeps_retryOrFail (errorKind error : String) (again : Program StepOutcome)
    (answer : CallAnswer) (remaining : Nat)
    (hretries : policy.Retries answer ↔ policy.retry.any (·.isRetryable errorKind) = true)
    (hanswer : ∀ output, answer ≠ .returned (.ok output))
    (h : Answered policy answer [] [] (seen past))
    (hready : policy.Retries answer → Ready policy remaining (seen past))
    (hagain : Ready policy remaining (seen past) →
      Block.Keeps (Lawful run id policy) past again (Concluded run id)) :
    Block.Keeps (Lawful run id policy) past (retryOrFail policy errorKind error again)
      (Concluded run id) := by
  unfold retryOrFail
  split
  next hkind => exact hagain (hready (hretries.mpr hkind))
  next =>
    refine Block.keeps_pure past (StepOutcome.failed error) _ ?_
    exact PolicyEnd.of_unsuccessful _ _ WorkflowStatus.noConfusion h.hits
      (h.not_succeeded _ _ _ _ hanswer)

/-- Nothing has succeeded as long as an attempt is to come. -/
theorem keeps_stop (outcome : StepOutcome) (houtcome : outcome.status ≠ .completed)
    (h : Ready policy remaining (seen past)) :
    Block.Keeps (Lawful run id policy) past (pure outcome : Program StepOutcome)
      (Concluded run id) := by
  refine Block.keeps_pure past outcome _ ?_
  exact PolicyEnd.of_unsuccessful _ _ houtcome h.hits (h.not_succeeded _ _)

/-- The loop keeps the law, by induction on the attempts that are left. -/
theorem keeps_attempts (callee : Callee) (args : Value) (key : Option String)
    (remaining attempt : Nat) (lastError : Option String)
    (past : History Action Action.Answer) (h : Ready policy remaining (seen past)) :
    Block.Keeps (Lawful run id policy) past
      (attempts run scope id policy callee args key remaining attempt lastError)
      (Concluded run id) := by
  induction remaining generalizing attempt lastError past with
  | zero =>
      exact keeps_stop past 0 (.failed (lastError.getD "unknown")) WorkflowStatus.noConfusion h
  | succ remaining ih =>
      have hlaw : ∀ s, Ready policy (remaining + 1) s → PolicyLaw run id policy s :=
        fun s hs => hs.law _ s
      unfold attempts
      refine Block.keeps_bind past _ _ _ _ (keeps_unnoted past _ _
        (unnoted_act .isCancelled (fun _ _ => rfl)) hlaw h) (fun past₁ stopped h₁ => ?_)
      split
      next => exact keeps_stop past₁ (remaining + 1) .cancelled (by decide) h₁
      next =>
        refine Block.keeps_bind past₁ _ _ _ _ (keeps_unnoted past₁ _ _ ?_ hlaw h₁)
          (fun past₂ cut h₂ => ?_)
        · split
          · exact unnoted_act (.sleep _) (fun _ _ => rfl)
          · exact unnoted_pure _
        · split
          next => exact keeps_stop past₂ (remaining + 1) .cancelled (by decide) h₂
          next =>
            -- The call is made, and waited for.
            refine Block.keeps_bind past₂ _ _ (fun past' _ => Called policy remaining (seen past'))
              _ (keeps_noted past₂ (.invoke scope id callee args) (fun s _ =>
                Called policy remaining s) (fun _ =>
                  ⟨(h₂.called remaining _).law remaining _, h₂.called remaining _⟩))
              (fun past₃ _ h₃ => ?_)
            refine Block.keeps_bind past₃ _ _ (fun past' answer =>
              Answered policy answer [] [] (seen past') ∧
                (policy.Retries answer → Ready policy remaining (seen past'))) _
              (keeps_noted past₃ (.awaitCall callee args policy.timeout) (fun s answer =>
                Answered policy answer [] [] s ∧
                  (policy.Retries answer → Ready policy remaining s)) (fun answer => ?_))
              (fun past₄ answer h₄ => ?_)
            · have hanswered := h₃.answered remaining _ answer
              refine ⟨hanswered.law answer [] [] _ (fun _ hvalue => absurd hvalue List.not_mem_nil)
                (fun _ hr => absurd hr List.not_mem_nil), hanswered, h₃.ready remaining _ answer⟩
            · rcases h₄ with ⟨hanswered, hready⟩
              split
              next =>
                refine Block.keeps_pure past₄ StepOutcome.cancelled _ ?_
                exact PolicyEnd.of_unsuccessful _ _ (by decide) hanswered.hits
                  (hanswered.not_succeeded _ _ _ _ (by simp))
              next output => exact keeps_success past₄ output key hanswered
              next e =>
                exact keeps_retryOrFail past₄ (classifyError e) e _ (.returned (.error e)) remaining
                  Iff.rfl (by simp) hanswered hready (ih _ _ past₄)
              next =>
                exact keeps_retryOrFail past₄ "timeout" "timeout" _ .elapsed remaining Iff.rfl
                  (by simp) hanswered
                  hready (ih _ _ past₄)

/-- What is done with an output that was found. -/
theorem keeps_hit (cached : Value) (hcalls : (seen past).calls = 0)
    (hanswers : (seen past).answers = [])
    (hhits : (seen past).hits = [cached]) (hrecorded : (seen past).recorded = [])
    (hputs : (seen past).puts = []) :
    Block.Keeps (Lawful run id policy) past
      (do
        recordOutput id (ingestOutput run.host run.rootJobId cached)
        pure .ok : Program StepOutcome)
      (Concluded run id) := by
  let out := ingestOutput run.host run.rootJobId cached
  let p := fun s : Seen => s.calls = 0 ∧ s.answers = [] ∧ s.hits = [cached] ∧
    s.recorded = [(id, out)] ∧ s.puts = []
  have hlaw : ∀ s, p s → PolicyLaw run id policy s := by
    rintro s ⟨hcalls, hanswers, hhits, hrecorded, hputs⟩
    constructor
    case calls => rw [hcalls]; exact Nat.zero_le _
    case awaited => rw [hcalls, hanswers]; exact Nat.le_refl _
    case one => rw [hcalls]; exact Nat.zero_le _
    case retried => rw [hanswers]; exact fun _ h => absurd h List.not_mem_nil
    case again => rw [hanswers]; exact fun _ _ h => absurd h List.not_mem_nil
    case hit => exact fun _ => hcalls
    case puts => rw [hputs]; exact fun _ h => absurd h List.not_mem_nil
    case recorded =>
      intro r hr
      rw [hrecorded, List.mem_singleton] at hr
      refine ⟨congrArg Prod.fst hr, .inl ⟨cached, ?_, congrArg Prod.snd hr⟩⟩
      rw [hhits]
      exact List.mem_singleton.mpr rfl
  refine Block.keeps_bind past _ _ (fun past' _ => p (seen past')) _ ?_ ?_
  · refine Block.keeps_bind past _ _ (fun past' _ => p (seen past')) _ ?_ ?_
    · refine keeps_noted past (.recordStep id out) (fun s _ => p s) (fun b => ?_)
      have hnext : p ((seen past).note ⟨.recordStep id out, b⟩) :=
        ⟨hcalls, hanswers, hhits, congrArg (· ++ [(id, out)]) hrecorded, hputs⟩
      exact ⟨hlaw _ hnext, hnext⟩
    · intro past' _ hpast'
      exact keeps_unnoted past' _ p (unnoted_act (.recordOutputSnapshot id out.output)
        (fun _ _ => rfl)) hlaw hpast'
  · rintro past' _ ⟨_, hanswers', hhits', hrecorded', _⟩
    refine Block.keeps_pure past' StepOutcome.ok _ ?_
    have hnone : ∀ output, ¬ (seen past').Succeeded output := by
      intro output hlast
      rw [Seen.Succeeded, hanswers'] at hlast
      cases hlast
    constructor
    case ok =>
      refine ⟨fun _ => .inl ?_, fun _ => rfl⟩
      rw [hhits']
      exact List.cons_ne_nil _ _
    case cached =>
      intro cached' hcached'
      rw [hhits', List.mem_singleton] at hcached'
      rw [hcached']
      exact hrecorded'
    case returned => exact fun output hlast => absurd hlast (hnone output)

/-- The driver keeps the law. -/
theorem keeps_runWithPolicy (rawArgs : Value) (callee : Callee) :
    Block.Keeps (Lawful run id policy) []
      (runWithPolicy run scope id policy rawArgs callee) (Concluded run id) := by
  have hfresh : Ready policy policy.maxAttempts (seen []) :=
    ⟨Nat.zero_add _, rfl, fun _ h => absurd h List.not_mem_nil, rfl, rfl, rfl⟩
  have hlaw : ∀ s, Ready policy policy.maxAttempts s → PolicyLaw run id policy s :=
    fun s hs => hs.law _ s
  have hfailed : ∀ past error, Ready policy policy.maxAttempts (seen past) →
      Block.Keeps (Lawful run id policy) past (pure (.failed error) : Program StepOutcome)
        (Concluded run id) :=
    fun past error h => keeps_stop past _ (.failed error) WorkflowStatus.noConfusion h
  unfold runWithPolicy
  refine Block.keeps_bind [] _ _ _ _ (keeps_unnoted [] _ _ (unnoted_render scope rawArgs) hlaw
    hfresh) (fun past₁ rendered h₁ => ?_)
  split
  next => exact hfailed past₁ _ h₁
  next args =>
    refine Block.keeps_bind past₁ _ _ _ _ (keeps_unnoted past₁ _ _ (unnoted_renderKey scope) hlaw
      h₁) (fun past₂ key h₂ => ?_)
    split
    next => exact hfailed past₂ _ h₂
    next key =>
      -- Nothing has been noted but what is found in the store.
      refine Block.keeps_bind past₂ _ _ (fun past' cached =>
        (seen past').calls = 0 ∧ (seen past').answers = [] ∧ (seen past').recorded = [] ∧
          (seen past').puts = [] ∧ (seen past').hits = Option.toList cached) _ ?_
        (fun past₃ cached h₃ => ?_)
      · have hcalls : (seen past₂).calls = 0 := by
          have := h₂.calls
          omega
        have hanswers : (seen past₂).answers = [] :=
          List.eq_nil_of_length_eq_zero (h₂.answers.trans hcalls)
        cases key with
        | none =>
            exact Block.keeps_pure past₂ none _
              ⟨hcalls, hanswers, h₂.recorded, h₂.puts, h₂.hits⟩
        | some key =>
            refine keeps_noted past₂ (.idempotencyGet policy.idempotencyScope key)
              (fun s cached => s.calls = 0 ∧ s.answers = [] ∧ s.recorded = [] ∧ s.puts = [] ∧
                s.hits = Option.toList cached) (fun cached => ?_)
            refine ⟨?_, hcalls, hanswers, h₂.recorded, h₂.puts, congrArg (· ++ _) h₂.hits⟩
            have hlaw₂ := hlaw _ h₂
            have hnone : ∀ r, r ∉ (seen past₂).recorded := by
              rw [h₂.recorded]
              exact fun _ => List.not_mem_nil
            exact { hlaw₂ with
              hit := fun _ => hcalls
              recorded := fun r hr => absurd hr (hnone r) }
      · rcases h₃ with ⟨hcalls, hanswers, hrecorded, hputs, hhits⟩
        split
        next cached => exact keeps_hit past₃ cached hcalls hanswers hhits hrecorded hputs
        next =>
          refine keeps_attempts scope callee args key _ 1 none past₃ ?_
          refine ⟨?_, ?_, ?_, hhits, hrecorded, hputs⟩
          · rw [hcalls]
            exact Nat.zero_add _
          · rw [hanswers, hcalls]
            rfl
          · rw [hanswers]
            exact fun _ h => absurd h List.not_mem_nil

end Driver

/-! ## The law of the histories -/

/-- What was noted stays. -/
theorem note_extends (s : Seen) (l : Σ a : Action, a.Answer) :
    s.answers <+: (s.note l).answers := by
  rcases l with ⟨a, b⟩
  cases a with
  | awaitCall => exact List.prefix_append _ _
  | _ => exact List.prefix_refl _

theorem seen_extends (t t' : History Action Action.Answer) :
    (seen t).answers <+: (seen (t ++ t')).answers := by
  induction t' using List.reverseRecOn with
  | nil => rw [List.append_nil]
  | append_singleton t' l ih =>
      rw [← List.append_assoc, seen_snoc]
      exact ih.trans (note_extends _ l)

/-- An attempt that is not retried was the last. -/
theorem calls_of_settled {run : RunState} {id : String} {policy : StepPolicy} (s s' : Seen)
    (h : PolicyLaw run id policy s) (h' : PolicyLaw run id policy s')
    (hextends : s.answers <+: s'.answers) (answer : CallAnswer) (hmem : answer ∈ s.answers)
    (hsettled : ¬ policy.Retries answer) : s'.calls = s.calls := by
  have hcalls : s.calls = s.answers.length := by
    rcases Nat.lt_or_ge s.answers.length s.calls with hlt | hge
    · exact absurd (h.again hlt answer hmem) hsettled
    · exact Nat.le_antisymm hge h.awaited
  rcases hextends with ⟨rest, hrest⟩
  -- Another answer would make this one an answer before the last.
  have hempty : rest = [] := by
    by_contra hne
    refine hsettled (h'.retried answer ?_)
    rw [← hrest, List.dropLast_append_of_ne_nil hne]
    exact List.mem_append_left _ hmem
  rw [hempty, List.append_nil] at hrest
  rw [hcalls, hrest]
  rcases Nat.lt_or_ge s'.answers.length s'.calls with hlt | hge
  · exact absurd (h'.again hlt answer (hrest ▸ hmem)) hsettled
  · exact Nat.le_antisymm hge h'.awaited

/-- Every history of the driver keeps the law, whatever the store, the attempts and the
    cancellation answer; at its end the outcome is right; and after an attempt that has
    succeeded, or has failed and is not retried, no call is made. -/
theorem run_with_policy_law (run : RunState) (scope : List Binding) (id : String)
    (policy : StepPolicy) (rawArgs : Value) (callee : Callee)
    (t : History Action Action.Answer) (p : Process Action Action.Answer WorkflowStatus)
    (h : Takes (runWithPolicy run scope id policy rawArgs callee
      (fun outcome => .done outcome.status)) t p) :
    PolicyLaw run id policy (seen t) ∧
      (∀ status, p = .done status → PolicyEnd run id (seen t) status) ∧
      ∀ t' p' answer, Takes p t' p' → answer ∈ (seen t).answers → ¬ policy.Retries answer →
        (seen (t ++ t')).calls = (seen t).calls := by
  have hkeeps : Process.Keeps (Lawful run id policy)
      (fun past status => PolicyEnd run id (seen past) status) []
      (runWithPolicy run scope id policy rawArgs callee (fun outcome => .done outcome.status)) :=
    keeps_runWithPolicy scope rawArgs callee _ _ (fun _ _ hend => hend)
  have hempty : Lawful run id policy [] :=
    Ready.law policy.maxAttempts _
      ⟨Nat.zero_add _, rfl, fun _ h => absurd h List.not_mem_nil, rfl, rfl, rfl⟩
  rcases keeps_takes _ [] t _ p hempty hkeeps h with ⟨hlaw, hrest⟩
  rw [List.nil_append] at hlaw hrest
  refine ⟨hlaw, ?_, ?_⟩
  · rintro status rfl
    exact hrest
  · intro t' p' answer ht' hmem hsettled
    exact calls_of_settled _ _ hlaw (keeps_takes _ t t' p p' hlaw hrest ht').1
      (seen_extends t t') answer hmem hsettled

/-- A text of two bytes that is inline in an output, and what the artefact store makes of it. -/
def inlineOutput : Value :=
  .object [("file_refs", .array [.object [("inline_b64", .string "aGk=")]])]

def movedRef : Value :=
  .object [("uri", .string
      "artefact://sha256/8f434346648f6b96df89dda901c5176b10a6d83961dd3c1ac88b59b2dc327aa4"),
    ("digest", .string "sha256:8f434346648f6b96df89dda901c5176b10a6d83961dd3c1ac88b59b2dc327aa4"),
    ("producer_job_id", .string "00000000-0000-0000-0000-000000000000"),
    ("created_at", .string "2026-01-01T00:00:00Z")]

/-- A host with an artefact store. -/
def storingHost : Host where
  query _ _ := .ok []
  parseJsonPath _ := none
  text _ := ""
  decodeFileRef value := some ⟨some 0, value⟩
  encodeFileRef fileRef := fileRef.fields
  promote _ value :=
    match value with
    | .object [("file_refs", .array [.object [("inline_b64", .string "aGk=")]])] =>
      .object [("file_refs", .array [movedRef])]
    | value => value
  specHash _ := ""
  reread spec := .ok spec

def storingRun : RunState := ⟨storingHost, 0, 1, [], none⟩

/-- The bound zero, and a key under which an output is put. -/
def zeroAttempts : StepPolicy := ⟨none, some ⟨0, .fixed, 0, 0, none⟩, some "k", .workflow, none⟩

/-- Nothing is in the store, nobody cancels, and every call returns the output. -/
def returnsInline : (a : Action) → a.Answer
  | .isCancelled | .sleep _ => false
  | .asJson _ => Value.null
  | .lookupItem _ _ | .idempotencyGet _ _ => none
  | .pushItem _ _ _ => Nat.zero
  | .step _ => none
  | .stepsSnapshot => OrderedMap.empty _ _
  | .awaitCall _ _ _ => CallAnswer.returned (.ok inlineOutput)
  | .awaitApproval _ _ => ApprovalAnswer.cancelled
  | .emit _ _ _ | .incCompleted | .upsertStep _ _ _ _ | .updateWorkflowStatus _ _
  | .updateStepOutputs | .popItem _ _ | .recordStep _ _ | .recordOutputSnapshot _ _
  | .idempotencyPut _ _ _ _ | .invoke _ _ _ _ => ()

/-- The body is called once under the bound zero, and what is put into the store is not what
    the attempt has returned. -/
theorem called_and_promoted :
    ∃ t p, Takes (runWithPolicy storingRun [] "bake" zeroAttempts .null (.tool "bake")
        (fun outcome => .done outcome.status)) t p ∧
      (∃ retry, zeroAttempts.retry = some retry ∧ retry.maxAttempts < (seen t).calls) ∧
      (seen t).Succeeded inlineOutput ∧
      (seen t).puts = [.object [("file_refs", .array [movedRef])]] :=
  ⟨_, _, takes_follow returnsInline 9 _, ⟨_, rfl, Nat.zero_lt_one⟩, rfl, rfl⟩

theorem run_with_policy_law_inline :
    PolicyEnd storingRun "bake" (seen (follow returnsInline 9 (runWithPolicy storingRun [] "bake"
      zeroAttempts .null (.tool "bake") (fun outcome => .done outcome.status))).1) .completed :=
  (run_with_policy_law storingRun [] "bake" zeroAttempts .null (.tool "bake") _ _
    (takes_follow returnsInline 9 _)).2.1 .completed rfl

end Workflow

end DccMcp
