import DccMcp.Flow.Composition
import DccMcp.Flow.Resume

/-!
# Completed Steps after a Restart

Whether a step that is recorded as completed stays completed.

A resumed run leaves the steps it skips alone: no action of it is about them,
so in every interleaving their callers are not invoked and their outputs stay
what the rows say. What can go wrong happens before. The row of the workflow
names the step that was entered last, also after that step has completed and
until the next one is entered, and the recovery overwrites the row of this
step without looking at it. The step is then run again.

## Main definitions

* `Within`: The action is about a step of a set, or about none.
* `Kept`: The step stays completed through recovery and resume.

## Theorems

* `completed_kept_iff`: A completed step is kept exactly if the recovery does
  not take it for the interrupted one.
* `completed_lost`: A run in which it does.
-/

namespace DccMcp

namespace Workflow

open Json Process Machine

/-! ## What an action does -/

/-- Only `record_step` changes the outputs. -/
theorem effect_steps (run : RunState) (a : Action) (answer : Answer) (s : State) :
    (effect run a answer s).context.steps = s.context.steps ∨
      ∃ id out, a = .recordStep id out ∧
        (effect run a answer s).context.steps = s.context.steps.insert id out := by
  cases a with
  | recordStep id out => exact .inr ⟨id, out, rfl, rfl⟩
  | idempotencyPut => cases answer <;> exact .inl rfl
  | _ => exact .inl rfl

/-- Only an invocation adds a call. -/
theorem effect_calls (run : RunState) (a : Action) (answer : Answer) (s : State) :
    (effect run a answer s).calls = s.calls ∨
      ∃ scope id callee args, a = .invoke scope id callee args ∧
        (effect run a answer s).calls = s.calls ++ [⟨scope, id, callee, args⟩] := by
  cases a with
  | invoke scope id callee args => exact .inr ⟨scope, id, callee, args, rfl, rfl⟩
  | idempotencyPut => cases answer <;> exact .inl rfl
  | _ => exact .inl rfl

/-! ## Steps that no action is about -/

/-- The action is about a step of the set, or about none. -/
def Within (own : String → Prop) (a : Action) : Prop := ∀ id, a.owner = some id → own id

/-- The actions of a program are within a set of steps. -/
theorem compositional_within (own : String → Prop) :
    Compositional own (fun _ _ m => Block.Only (Within own) m) where
  pure r := Block.only_pure _ r
  bind hm hf := Block.only_bind _ _ _ hm hf
  act a _ hown := Block.only_act _ a hown
  par h := Block.only_par _ _ h
  withItem name value h := by
    have hfree : ∀ a : Action, a.owner = none → Within own a := by
      intro a ha id hid
      rw [ha] at hid
      simp at hid
    refine Block.only_bind _ _ _
      (Block.only_act _ (Action.pushItem _ name value) (hfree _ rfl)) (fun tag => ?_)
    refine Block.only_bind _ _ _ (h _) (fun result => ?_)
    exact Block.only_bind _ _ _ (Block.only_act _ (Action.popItem _ name) (hfree _ rfl))
      (fun _ => Block.only_pure _ _)

/-- The step is not acted on, and its output and its calls are these. -/
structure Untouched (id : String) (out : StepOutput) (c : Config) : Prop where
  process : c.process.Only (Within (· ≠ id))
  output : c.state.context.steps.lookup id = some out
  calls : ∀ call ∈ c.state.calls, call.stepId ≠ id

/-- An action that is not about the step leaves its output and its calls. -/
theorem untouched_effect (run : RunState) (a : Action) (answer : Answer) (s : State) (id : String)
    (out : StepOutput) (ha : Within (· ≠ id) a) (hout : s.context.steps.lookup id = some out)
    (hcalls : ∀ call ∈ s.calls, call.stepId ≠ id) :
    (effect run a answer s).context.steps.lookup id = some out ∧
      ∀ call ∈ (effect run a answer s).calls, call.stepId ≠ id := by
  constructor
  -- Only two actions touch what the step has, and both would be about it.
  · rcases effect_steps run a answer s with hsame | ⟨id', out', rfl, hinsert⟩
    · rw [hsame]
      exact hout
    · rw [hinsert, OrderedMap.lookup_insert_ne _ _ _ _ (Ne.symm (ha id' rfl))]
      exact hout
  · rcases effect_calls run a answer s with hsame | ⟨scope, id', callee, args, rfl, hadd⟩
    · rw [hsame]
      exact hcalls
    · intro call hcall
      rw [hadd] at hcall
      rcases List.mem_append.mp hcall with hcall | hcall
      · exact hcalls call hcall
      · rw [List.mem_singleton.mp hcall]
        exact ha id' rfl

variable (st : Storage) (run : RunState) (id : String)

theorem untouched_step (out : StepOutput) (c c' : Config) (e : Event) (h : Untouched id out c)
    (hstep : step run c e = some c') : Untouched id out c' := by
  cases e with
  | cancel =>
      rw [← Option.some.inj hstep]
      exact ⟨h.process, h.output, h.calls⟩
  | act path answer =>
      rcases Option.map_eq_some_iff.mp hstep with ⟨⟨p', s'⟩, hat, rfl⟩
      have hlabelled := step_of_stepAt (perform run) path answer c.process p' c.state s' hat
      rcases only_step (perform run) _ _ _ _ _ _ h.process hlabelled with ⟨hprocess, hlabel⟩
      rcases step_state (perform run) _ _ _ _ _ hlabelled with ⟨_, hsame⟩ | ⟨a, ans, b, hl, hperform⟩
      · exact ⟨hprocess, hsame ▸ h.output, hsame ▸ h.calls⟩
      · rcases perform_eq_some run a ans c.state s' b hperform with ⟨_, rfl⟩
        rcases untouched_effect run a ans c.state id out (hlabel a ans hl) h.output h.calls with
          ⟨hout, hcalls⟩
        exact ⟨hprocess, hout, hcalls⟩

/-- In every interleaving, a step that no action is about keeps its output and
    is not called. -/
theorem untouched_of_run (out : StepOutput) (c c' : Config) (events : List Event)
    (h : Untouched id out c)
    (hrun : exec (step run) c events = some c') : Untouched id out c' :=
  exec_invariant (step run) (Untouched id out)
    (fun c e c' hc hstep => untouched_step run id out c c' e hc hstep) c c' events h hrun

/-! ## Recovery and resume -/

/-- The ids of the completed steps differ. -/
theorem nodup_completedSteps : (st.completedSteps.map Prod.fst).Nodup := by
  have hsorted : st.completedSteps.Pairwise (fun a b => a.1 < b.1) := by
    unfold Storage.completedSteps
    rw [List.pairwise_filterMap]
    refine st.steps.sorted.imp (fun {a b} hlt a' ha b' hb => ?_)
    have hkey : ∀ (e : String × StepRow) (e' : String × Value),
        (if e.2.status = .completed then some (e.1, e.2.result.getD .null) else none) = some e' →
          e'.1 = e.1 := by
      intro e e' he
      split at he
      · rw [← Option.some.inj he]
      · simp at he
    rw [hkey a a' ha, hkey b b' hb]
    exact hlt
  exact List.pairwise_map.mpr (hsorted.imp (fun hlt => ne_of_lt hlt))

theorem mem_completedSteps (out : Value) (error : Option String)
    (h : st.steps.lookup id = some ⟨.completed, some out, error⟩) :
    (id, out) ∈ st.completedSteps :=
  List.mem_filterMap.mpr ⟨_, OrderedMap.mem_entries _ _ _ h, rfl⟩

theorem steps_resumedContext (host : Host) (inputs : Value) (outputs : List (String × Value)) :
    (resumedContext host inputs outputs).steps =
      outputs.foldl (fun m e => m.insert e.1 (StepOutput.fromValue host e.2)) (.empty _ _) :=
  (List.foldl_hom Context.steps (fun _ _ => rfl)).symm

/-- Without force nothing that is completed is left out. -/
theorem preloaded_default : preloaded st .default = st.completedSteps := by
  refine List.filter_eq_self.mpr (fun e _ => ?_)
  simp [ResumeOptions.default]

/-- The step stays completed through a restart: the recovery leaves its row,
    and in every run that resumes the workflow without force its caller is not
    invoked and its output is the stored one. -/
structure Kept (executor : Executor) (st : Storage) (id : String) (out : Value) : Prop where
  row : st.recover.steps.lookup id = st.steps.lookup id
  later : ∀ rootJobId run c, resume executor rootJobId st.recover .default = .ok (run, c) →
    ∀ events c', exec (step run) c events = some c' →
      (∀ call ∈ c'.state.calls, call.stepId ≠ id) ∧
        c'.state.context.steps.lookup id = some (StepOutput.fromValue executor.host out)

/-- A completed row that is there when a workflow is resumed is kept. -/
theorem kept_of_completed (executor : Executor) (rootJobId : Uuid) (st : Storage) (id : String)
    (out : Value) (error : Option String)
    (hrow : st.steps.lookup id = some ⟨.completed, some out, error⟩) (run : RunState) (c c' : Config)
    (events : List Event) (hresume : resume executor rootJobId st .default = .ok (run, c))
    (hrun : exec (step run) c events = some c') :
    (∀ call ∈ c'.state.calls, call.stepId ≠ id) ∧
      c'.state.context.steps.lookup id = some (StepOutput.fromValue executor.host out) := by
  rcases resume_eq_ok executor rootJobId st .default run c hresume with
    ⟨spec, _, _, hpreloaded, hprocess, hcontext, hcalls⟩
  have hmem := mem_completedSteps st id out error hrow
  rw [preloaded_default] at hpreloaded hcontext
  have huntouched : Untouched id (StepOutput.fromValue executor.host out) c := by
    refine ⟨?_, ?_, ?_⟩
    · rw [hprocess]
      refine Block.only_toProcess _ _
        ((compositional_within (· ≠ id)).runProgram run spec.steps (fun id' _ hnew => ?_))
      -- The step itself is among those that are skipped.
      rintro rfl
      rw [hpreloaded] at hnew
      exact hnew (List.mem_map_of_mem hmem)
    · rw [hcontext, steps_resumedContext]
      exact OrderedMap.lookup_foldl_insert _ _ _ id out (nodup_completedSteps st) hmem
    · rw [hcalls]
      exact fun call hcall => absurd hcall List.not_mem_nil
  have hend := untouched_of_run run id _ c c' events huntouched hrun
  exact ⟨hend.calls, hend.output⟩

/-- The recovery leaves the row of every step but the one the workflow names. -/
theorem lookup_recover_of_ne
    (h : ¬ ((st.workflow.status = .pending ∨ st.workflow.status = .running) ∧
      st.workflow.currentStepId = some id)) :
    st.recover.steps.lookup id = st.steps.lookup id := by
  unfold Storage.recover
  split
  next hopen =>
    dsimp only [Storage.updateWorkflowStatus]
    split
    next id' hcurrent =>
      refine OrderedMap.lookup_insert_ne _ _ _ _ (fun heq => h ⟨hopen, ?_⟩)
      rw [hcurrent, heq]
    next => rfl
  next => rfl

/-- The recovery marks the step the workflow names as interrupted. -/
theorem lookup_recover_current
    (hopen : st.workflow.status = .pending ∨ st.workflow.status = .running)
    (hcurrent : st.workflow.currentStepId = some id) :
    st.recover.steps.lookup id = some ⟨.interrupted, none, some "server restart"⟩ := by
  unfold Storage.recover
  rw [if_pos hopen]
  dsimp only [Storage.updateWorkflowStatus]
  rw [hcurrent]
  exact OrderedMap.lookup_insert _ _ _

/-- Whatever the rows are at the crash, a step that is recorded as completed
    is kept exactly if it is not the one that an unfinished workflow was in
    last. -/
theorem completed_kept_iff (executor : Executor) (st : Storage) (id : String) (out : Value)
    (error : Option String)
    (hrow : st.steps.lookup id = some ⟨.completed, some out, error⟩) :
    Kept executor st id out ↔
      ¬ ((st.workflow.status = .pending ∨ st.workflow.status = .running) ∧
        st.workflow.currentStepId = some id) := by
  constructor
  -- The recovery has overwritten the row.
  · rintro hkept ⟨hopen, hcurrent⟩
    have hlost := hkept.row
    rw [lookup_recover_current st id hopen hcurrent, hrow, Option.some.injEq,
      StepRow.mk.injEq] at hlost
    simp at hlost
  · intro h
    have hsame := lookup_recover_of_ne st id h
    refine ⟨hsame, fun rootJobId run c hresume events c' hrun => ?_⟩
    exact kept_of_completed executor rootJobId st.recover id out error (hsame.trans hrow) run c c'
      events hresume hrun

/-! ## A run with two tools -/

/-- Libraries that a workflow without paths and references does not use. -/
def plainHost : Host where
  query _ _ := .ok []
  parseJsonPath _ := none
  text _ := ""
  decodeFileRef _ := none
  encodeFileRef _ := .null
  promote _ value := value
  specHash _ := ""
  reread spec := .ok spec

def plainExecutor : Executor := ⟨plainHost, none, true, ∅⟩

/-- A step that calls the tool of its name, under the default policy. -/
def toolStep (id : String) : Step := .mk id (.tool id .null) .default

def twoTools : WorkflowSpec := ⟨"asset", .null, [toolStep "model", toolStep "render"]⟩

/-- Some actions of the first thread that need nothing from outside. -/
def ticks (n : Nat) : List Event := List.replicate n (.act [] .nothing)

/-- The tool that the first thread waits for returns. -/
def returns : Event := .act [] (.call (.returned (.ok .null)))

/-- The first tool returns and its step is left. -/
def firstStep : List Event := ticks 8 ++ [returns] ++ ticks 6

/-- If the crash comes after the second step was entered, the first one is
    kept. -/
theorem completed_kept_when_left :
    ∃ run c c' st, start plainExecutor 0 twoTools .null = .ok (run, c) ∧
      exec (step run) c (firstStep ++ ticks 5) = some c' ∧ c'.state.storage = some st ∧
      Kept plainExecutor st "model" .null := by
  refine ⟨_, _, _, _, rfl, rfl, rfl, (completed_kept_iff _ _ _ _ none ?_).mpr ?_⟩
  · -- The last write is about the second step.
    refine (OrderedMap.lookup_insert_ne _ _ _ _ (by decide)).trans ?_
    exact OrderedMap.lookup_insert _ _ _
  · rintro ⟨_, hcurrent⟩
    exact absurd hcurrent (by decide)

/-- If the crash comes before the second step is entered, the recovery
    overwrites the row of the first one, and its tool is called again. -/
theorem completed_lost :
    ∃ run c c' st, start plainExecutor 0 twoTools .null = .ok (run, c) ∧
      exec (step run) c firstStep = some c' ∧ c'.state.storage = some st ∧
      st.steps.lookup "model" = some ⟨.completed, some .null, none⟩ ∧
      st.recover.steps.lookup "model" = some ⟨.interrupted, none, some "server restart"⟩ ∧
      ∃ run' c₁ c₂, resume plainExecutor 1 st.recover .default = .ok (run', c₁) ∧
        exec (step run') c₁ (ticks 8) = some c₂ ∧
        c₂.state.calls.map IssuedCall.stepId = ["model"] := by
  refine ⟨_, _, _, _, rfl, rfl, rfl, ?_, ?_, _, _, _, rfl, rfl, ?_⟩
  · exact OrderedMap.lookup_insert _ _ _
  · exact lookup_recover_current _ _ (.inr rfl) rfl
  · rfl

end Workflow

end DccMcp
