import DccMcp.Job.Collection

/-!
# Jobs in Chunks

A job whose work is a list of bounded steps, run one at a time by the ticks of a host.

The runner keeps the steps that are left and the values of those that are done. The status
of its job and the token of it are in the registry, which others use at the same time: they
create and move other jobs, ask for the cancellation of any job, and collect the terminal
ones. All of this may happen between two ticks, and while a step is running. A step is
modelled by what it returns when it is called.

## Main definitions

* `ChunkedStep`, `ChunkedJobRunner`, `tick`, `cancel`: The runner.
* `Outside`: What others do to the registry.
* `Trace`, `Event`: A runner and its past, one tick or outside operation at a time.
* `Stage`: Where a runner stands.
* `RunnerLaw`: What holds of every trace.

## Theorems

* `chunked_runner`: The runner keeps its law.
-/

namespace DccMcp

namespace Jobs

/-- The result of one bounded step. -/
structure ChunkedStepOutput where
  value : Json.Value
  message : Option String

/-- One bounded unit of work, by its result. -/
abbrev ChunkedStep := Except String ChunkedStepOutput

/-- Runs at most one step per tick. -/
structure ChunkedJobRunner (T : CancellationTokens) where
  jobs : JobManager T
  jobId : String
  steps : List ChunkedStep
  results : List Json.Value
  total : Nat

/-- The times at which a tick starts the job, reports its progress and ends it. -/
structure Clock where
  start : DateTime
  progress : DateTime
  finish : DateTime

/-- An operation of others: they do not create or move the job, but may ask for its
    cancellation. -/
def Op.Outside (id : String) : Op → Prop
  | .createWithParent id' _ _ _ => id' ≠ id
  | .transition _ id' _ => id' ≠ id
  | .cancel _ => True
  | .gcStale _ _ _ _ => True

/-- The operations of others. -/
abbrev Outside (id : String) := {op : Op // op.Outside id}

variable {T : CancellationTokens}

/-- The registry after operations. -/
def JobManager.applyAll (m : JobManager T) (ops : List Op) : JobManager T :=
  ops.foldl (fun m op => (m.apply op).manager) m

/-- What a tick does: its answer, the step it has called, whether it has seen that the job
    is to be cancelled, and the runner after it. -/
structure Tick (T : CancellationTokens) where
  answer : Bool
  ran : Option ChunkedStep
  observed : Bool
  runner : ChunkedJobRunner T

namespace ChunkedJobRunner

/-- `ChunkedJobRunner::new`, with the generated id. -/
def new (jobs : JobManager T) (id : String) (now : DateTime) (toolName : String)
    (steps : List ChunkedStep) : ChunkedJobRunner T where
  jobs := (jobs.createWithParent id now toolName none).manager
  jobId := id
  steps := steps
  results := []
  total := steps.length

/-- The job of the runner, if it is tracked. -/
def job (r : ChunkedJobRunner T) : Option (Job T.Token) := r.jobs.get r.jobId

/-- The job is completed with the values, which are taken from the runner. -/
def complete (r : ChunkedJobRunner T) (clock : Clock) : ChunkedJobRunner T :=
  { r with jobs := (r.jobs.complete clock.finish r.jobId (.array r.results)).manager,
           results := [] }

/-- The cancellation of the job is acknowledged. -/
def acknowledge (r : ChunkedJobRunner T) (clock : Clock) : ChunkedJobRunner T :=
  { r with jobs := (r.jobs.acknowledgeCancel clock.finish r.jobId).manager }

/-- The value of a step is kept, and the progress reported. -/
def progressed (r : ChunkedJobRunner T) (clock : Clock) (output : ChunkedStepOutput) :
    ChunkedJobRunner T :=
  let results := r.results ++ [output.value]
  { r with jobs := (r.jobs.updateProgress clock.progress r.jobId
             ⟨results.length, r.total, output.message⟩).manager,
           results := results }

/-- What a tick does after a step that returned `Ok`. -/
def record (r : ChunkedJobRunner T) (clock : Clock) (handle : Job T.Token)
    (output : ChunkedStepOutput) : Tick T :=
  let r := r.progressed clock output
  if T.isCancelled r.jobs.tokens handle.cancelToken then
    ⟨false, some (.ok output), true, r.acknowledge clock⟩
  else if r.steps = [] then
    ⟨false, some (.ok output), false, r.complete clock⟩
  else ⟨true, some (.ok output), false, r⟩

/-- What a tick does once the job is running. Others act while the step is called. -/
def runStep (r : ChunkedJobRunner T) (clock : Clock) (handle : Job T.Token)
    (meanwhile : List Op) : Tick T :=
  match r.steps with
  | [] => ⟨false, none, false, r.complete clock⟩
  | step :: rest =>
    let r := { r with jobs := r.jobs.applyAll meanwhile, steps := rest }
    match step with
    | .ok output => r.record clock handle output
    | .error error =>
        ⟨false, some (.error error), false,
          { r with jobs := (r.jobs.fail clock.finish r.jobId error).manager }⟩

def tick (r : ChunkedJobRunner T) (clock : Clock) (meanwhile : List Op) : Tick T :=
  match r.job with
  | none => ⟨false, none, false, r⟩
  | some handle =>
    if handle.status.isTerminal then ⟨false, none, false, r⟩
    else if T.isCancelled r.jobs.tokens handle.cancelToken then
      ⟨false, none, true, r.acknowledge clock⟩
    else if handle.status = .pending then
      let started := r.jobs.start clock.start r.jobId
      if started.reply = .done none then ⟨false, none, false, r⟩
      else { r with jobs := started.manager }.runStep clock handle meanwhile
    else r.runStep clock handle meanwhile

def cancel (r : ChunkedJobRunner T) : Bool × ChunkedJobRunner T :=
  let cancelled := r.jobs.cancel r.jobId
  (decide (cancelled.reply = .done (some ())), { r with jobs := cancelled.manager })

end ChunkedJobRunner

/-- A runner with its past: the steps it has called, how often it was ticked, and whether
    it has seen that the job is to be cancelled. -/
structure Trace (T : CancellationTokens) where
  runner : ChunkedJobRunner T
  ran : List ChunkedStep
  ticks : Nat
  observed : Bool

/-- What happens to a runner. -/
inductive Event (id : String)
  | tick (clock : Clock) (meanwhile : List (Outside id))
  | cancel
  | outside (op : Outside id)

namespace Trace

/-- A new runner. -/
def start (r : ChunkedJobRunner T) : Trace T := ⟨r, [], 0, false⟩

/-- A tick. -/
def afterTick (t : Trace T) (clock : Clock) (meanwhile : List Op) : Trace T :=
  let done := t.runner.tick clock meanwhile
  ⟨done.runner, t.ran ++ done.ran.toList, t.ticks + 1, t.observed || done.observed⟩

/-- One event. -/
def after {id : String} (t : Trace T) : Event id → Trace T
  | .tick clock meanwhile => t.afterTick clock (meanwhile.map Subtype.val)
  | .cancel => { t with runner := t.runner.cancel.2 }
  | .outside op =>
      { t with runner := { t.runner with jobs := (t.runner.jobs.apply op.1).manager } }

theorem after_tick {id : String} (t : Trace T) (clock : Clock) (meanwhile : List (Outside id)) :
    t.after (.tick clock meanwhile) = t.afterTick clock (meanwhile.map Subtype.val) := rfl

/-- Many events. -/
def run {id : String} (t : Trace T) (events : List (Event id)) : Trace T :=
  events.foldl after t

/-- The job is terminal or no longer tracked. -/
def Over (t : Trace T) : Prop :=
  ∀ job, t.runner.job = some job → job.status.isTerminal = true

end Trace

/-! ## The registry -/

/-- Every job is under its own id. -/
def JobManager.Keyed (m : JobManager T) : Prop := ∀ id job, m.get id = some job → job.id = id

variable (m : JobManager T)

theorem keyed_apply (op : Op) (h : m.Keyed) : (m.apply op).manager.Keyed := by
  intro id job hget
  rcases get_apply m op id job hget with hold | ⟨old, hold, hmoves⟩ | ⟨_, _, _, _, hjob⟩
  · exact h id job hold
  · rw [(Job.moves_identity _ old job hmoves).1]
    exact h id old hold
  · rw [hjob]
    rfl

theorem keyed_applyAll (ops : List Op) (h : m.Keyed) : (m.applyAll ops).Keyed := by
  unfold JobManager.applyAll
  induction ops generalizing m with
  | nil => exact h
  | cons op ops ih => exact ih (m.apply op).manager (keyed_apply m op h)

theorem keyed_new : (JobManager.new T).Keyed := by
  intro id job h
  simp [JobManager.get, JobManager.new, AList.lookup_empty] at h

/-- A transition of another job leaves the job as it is. -/
theorem get_transition_ne (now : DateTime) (id id' : String) (t : Transition) (hid : id ≠ id')
    : (m.transition now id' t).manager.get id = m.get id := by
  unfold JobManager.transition
  cases m.get id' with
  | none => rfl
  | some job =>
      dsimp only
      cases job.transition (T.isCancelled m.tokens job.cancelToken) now t with
      | none => rfl
      | some snapshot => exact AList.lookup_insert_ne hid

/-- What is collected is terminal. -/
theorem terminal_of_stale (h : m.Keyed) (cutoff : DateTime) (id : String) (job : Job T.Token)
    (hstale : id ∈ m.staleIds cutoff) (hget : m.get id = some job) :
    job.status.isTerminal = true := by
  unfold JobManager.staleIds at hstale
  rcases List.mem_filterMap.mp hstale with ⟨⟨key, found⟩, hentry, hfound⟩
  rw [Option.ite_none_right_eq_some, Option.some.injEq, Bool.and_eq_true] at hfound
  have hkey : m.get key = some found := AList.mem_lookup_iff.mpr hentry
  have hid : key = id := (h key found hkey).symm.trans hfound.2
  rw [hid, hget, Option.some.injEq] at hkey
  rw [hkey]
  exact hfound.1.1

/-- What others leave of the job: they collect it when it is terminal. -/
theorem get_apply_outside (m : JobManager T) (h : m.Keyed) (op : Op) (id : String)
    (hop : op.Outside id) :
    (m.apply op).manager.get id = m.get id ∨
      (m.apply op).manager.get id = none ∧
        ∀ job, m.get id = some job → job.status.isTerminal = true := by
  cases op with
  | createWithParent id' now toolName parentJobId =>
      exact .inl (AList.lookup_insert_ne (Ne.symm hop))
  | transition now id' t => exact .inl (get_transition_ne m now id id' t (Ne.symm hop))
  | cancel id' =>
      refine .inl ?_
      unfold JobManager.get JobManager.apply
      rw [JobManager.jobs_cancel]
  | gcStale now olderThan circuit deleted =>
      simp only [JobManager.apply, Collection.gcStale_manager]
      split
      · by_cases hstale : id ∈ m.staleIds (now - olderThan)
        · refine .inr ⟨?_, fun job => terminal_of_stale m h _ id job hstale⟩
          exact (Collection.lookup_removeAll_eq m.jobs _ id).trans (if_pos hstale)
        · refine .inl ?_
          exact (Collection.lookup_removeAll_eq m.jobs _ id).trans (if_neg hstale)
      · exact .inl rfl

/-- Others leave a job that is not terminal as it is. -/
theorem get_applyAll_outside (m : JobManager T) (h : m.Keyed) (ops : List Op) (id : String)
    (hops : ∀ op ∈ ops, op.Outside id) (job : Job T.Token) (hget : m.get id = some job)
    (hopen : job.status.isTerminal = false) : (m.applyAll ops).get id = some job := by
  unfold JobManager.applyAll
  induction ops generalizing m with
  | nil => exact hget
  | cons op ops ih =>
      refine ih (m.apply op).manager (keyed_apply m op h)
        (fun op' hop' => hops op' (List.mem_cons_of_mem op hop')) ?_
      rcases get_apply_outside m h op id (hops op List.mem_cons_self) with hsame | ⟨_, hterminal⟩
      · rw [hsame, hget]
      · rw [hterminal job hget] at hopen
        cases hopen

/-- A transition that is taken. -/
theorem transition_taken (now : DateTime) (id : String) (t : Transition) (job job' : Job T.Token)
    (hget : m.get id = some job)
    (htaken : job.transition (T.isCancelled m.tokens job.cancelToken) now t = some job') :
    (m.transition now id t).reply = .done (some ()) ∧
      (m.transition now id t).manager.get id = some job' ∧
      (m.transition now id t).manager.tokens = m.tokens := by
  unfold JobManager.transition
  simp only [hget, htaken]
  exact ⟨trivial, AList.lookup_insert _, trivial⟩

/-- A pending job is started. -/
theorem start_pending (now : DateTime) (id : String) (job : Job T.Token)
    (hget : m.get id = some job) (hstatus : job.status = .pending) :
    (m.start now id).reply = .done (some ()) ∧
      (m.start now id).manager.tokens = m.tokens ∧
      ∃ job', (m.start now id).manager.get id = some job' ∧ job'.status = .running ∧
        job'.cancelToken = job.cancelToken := by
  rcases transition_taken m now id .start job _ hget
    (if_neg (not_not_intro hstatus)) with ⟨hreply, hget', htokens⟩
  exact ⟨hreply, htokens, _, hget', rfl, rfl⟩

/-- A running job is completed. -/
theorem complete_running (now : DateTime) (id : String) (result : Json.Value) (job : Job T.Token)
    (hget : m.get id = some job) (hstatus : job.status = .running) :
    ∃ job', (m.complete now id result).manager.get id = some job' ∧
      job'.status = .completed ∧ job'.result = some result := by
  rcases transition_taken m now id (.complete result) job _ hget
    (if_neg (not_not_intro hstatus)) with ⟨_, hget', _⟩
  exact ⟨_, hget', rfl, rfl⟩

/-- A running job fails. -/
theorem fail_running (now : DateTime) (id : String) (error : String) (job : Job T.Token)
    (hget : m.get id = some job) (hstatus : job.status = .running) :
    ∃ job', (m.fail now id error).manager.get id = some job' ∧
      job'.status = .failed ∧ job'.error = some error := by
  rcases transition_taken m now id (.fail error) job _ hget
    (if_neg (not_not_intro hstatus)) with ⟨_, hget', _⟩
  exact ⟨_, hget', rfl, rfl⟩

/-- The cancellation of a job that is not terminal is acknowledged. -/
theorem acknowledge_cancelled (now : DateTime) (id : String) (job : Job T.Token)
    (hget : m.get id = some job)
    (hstatus : job.status = .pending ∨ job.status = .running)
    (hcancelled : T.isCancelled m.tokens job.cancelToken = true) :
    ∃ job', (m.acknowledgeCancel now id).manager.get id = some job' ∧
      job'.status = .cancelled := by
  rcases transition_taken m now id .acknowledgeCancel job _ hget
    (if_pos ⟨hstatus, hcancelled⟩) with ⟨_, hget', _⟩
  exact ⟨_, hget', rfl⟩

/-- A report of progress leaves a running job running. -/
theorem updateProgress_running (now : DateTime) (id : String) (progress : JobProgress)
    (job : Job T.Token) (hget : m.get id = some job)
    (hstatus : job.status = .running) :
    ∃ job', (m.updateProgress now id progress).manager.get id = some job' ∧
      job'.status = .running ∧ job'.cancelToken = job.cancelToken := by
  by_cases hrefused : progress.regresses job.progress = true
  · refine ⟨job, ?_, hstatus, rfl⟩
    have hnone : job.transition (T.isCancelled m.tokens job.cancelToken) now
        (.updateProgress progress) = none :=
      (if_neg (not_not_intro hstatus)).trans (if_pos hrefused)
    simp only [JobManager.updateProgress, JobManager.transition, hget, hnone]
  · rcases transition_taken m now id (.updateProgress progress) job _ hget
      ((if_neg (not_not_intro hstatus)).trans (if_neg hrefused)) with ⟨_, hget', _⟩
    exact ⟨_, hget', hstatus, rfl⟩

/-! ## The stages of a runner -/

/-- The values of the outputs, in order. -/
def valuesOf (outputs : List ChunkedStepOutput) : List Json.Value := outputs.map (·.value)

/-- Where a runner of the steps stands. The outputs are those of the steps that returned
    `Ok`. A runner that is done says nothing about a job that is no longer tracked. -/
inductive Stage (steps : List ChunkedStep) (t : Trace T) : Prop
  | pending (job : Job T.Token) (hjob : t.runner.job = some job)
      (hstatus : job.status = .pending) (hsteps : t.runner.steps = steps) (hran : t.ran = [])
      (hresults : t.runner.results = []) (hticks : t.ticks = 0) (hobserved : t.observed = false)
  | running (job : Job T.Token) (outputs : List ChunkedStepOutput)
      (hjob : t.runner.job = some job) (hstatus : job.status = .running)
      (hran : t.ran = outputs.map .ok) (hsteps : t.ran ++ t.runner.steps = steps)
      (hleft : t.runner.steps ≠ []) (hresults : t.runner.results = valuesOf outputs)
      (hticks : t.ticks = outputs.length) (hpositive : 0 < t.ticks)
      (hobserved : t.observed = false)
  | completed (outputs : List ChunkedStepOutput) (hran : t.ran = outputs.map .ok)
      (hsteps : t.ran = steps) (hleft : t.runner.steps = []) (hpositive : 0 < t.ticks)
      (hobserved : t.observed = false)
      (hjob : ∀ job, t.runner.job = some job →
        job.status = .completed ∧ job.result = some (.array (valuesOf outputs)))
  | failed (outputs : List ChunkedStepOutput) (error : String)
      (hran : t.ran = outputs.map .ok ++ [.error error])
      (hsteps : t.ran ++ t.runner.steps = steps) (hpositive : 0 < t.ticks)
      (hobserved : t.observed = false)
      (hjob : ∀ job, t.runner.job = some job →
        job.status = .failed ∧ job.error = some error)
  | cancelled (outputs : List ChunkedStepOutput) (hran : t.ran = outputs.map .ok)
      (hsteps : t.ran ++ t.runner.steps = steps) (hpositive : 0 < t.ticks)
      (hobserved : t.observed = true)
      (hjob : ∀ job, t.runner.job = some job → job.status = .cancelled)

/-- The invariant of a trace. -/
structure Trace.Inv (id : String) (steps : List ChunkedStep) (t : Trace T) : Prop where
  jobId : t.runner.jobId = id
  keyed : t.runner.jobs.Keyed
  stage : Stage steps t

variable (id : String) (steps : List ChunkedStep) (t : Trace T) (r : ChunkedJobRunner T)

/-- A tick of a runner whose job is done. -/
theorem tick_over (clock : Clock) (meanwhile : List Op)
    (h : ∀ job, r.job = some job → job.status.isTerminal = true) :
    r.tick clock meanwhile = ⟨false, none, false, r⟩ := by
  unfold ChunkedJobRunner.tick
  cases hjob : r.job with
  | none => rfl
  | some job => exact if_pos (h job hjob)

/-- A tick that sees that the job is to be cancelled. -/
theorem tick_observes (clock : Clock) (meanwhile : List Op) (job : Job T.Token)
    (hjob : r.job = some job) (hopen : job.status.isTerminal = false)
    (hcancelled : T.isCancelled r.jobs.tokens job.cancelToken = true) :
    r.tick clock meanwhile = ⟨false, none, true, r.acknowledge clock⟩ := by
  unfold ChunkedJobRunner.tick
  simp [hjob, hopen, hcancelled]

/-- Any other tick takes a step, with the job running. -/
theorem tick_runs (clock : Clock) (meanwhile : List Op) (job : Job T.Token)
    (hjob : r.job = some job) (hopen : job.status.isTerminal = false)
    (hcancelled : T.isCancelled r.jobs.tokens job.cancelToken = false) :
    ∃ jobs running, r.tick clock meanwhile =
        { r with jobs := jobs }.runStep clock job meanwhile ∧
      (r.jobs.Keyed → jobs.Keyed) ∧
      jobs.get r.jobId = some running ∧ running.status = .running ∧
      running.cancelToken = job.cancelToken := by
  unfold ChunkedJobRunner.tick
  simp only [hjob, hopen, Bool.false_eq_true, if_false, hcancelled]
  by_cases hpending : job.status = .pending
  · rcases start_pending r.jobs clock.start r.jobId job hjob hpending with
      ⟨hreply, _, running, hget, hstatus, htoken⟩
    refine ⟨(r.jobs.start clock.start r.jobId).manager, running, ?_, ?_, hget, hstatus, htoken⟩
    · rw [if_pos hpending, hreply, if_neg (by simp)]
    · exact keyed_apply r.jobs (.transition clock.start r.jobId .start)
  · refine ⟨r.jobs, job, if_neg hpending, fun h => h, hjob, ?_, rfl⟩
    cases hstatus : job.status with
    | pending => exact absurd hstatus hpending
    | running => rfl
    | _ => rw [hstatus] at hopen; cases hopen

/-- What a tick leads to: a trace in good order, and an answer that says whether the job
    needs another tick. -/
structure Leads (id : String) (steps : List ChunkedStep) (t : Trace T) (done : Tick T) :
    Prop where
  inv : Trace.Inv id steps
    ⟨done.runner, t.ran ++ done.ran.toList, t.ticks + 1, t.observed || done.observed⟩
  more : done.answer = true →
    ∃ job, done.runner.job = some job ∧ job.status.isTerminal = false
  ended : done.answer = false →
    ∀ job, done.runner.job = some job → job.status.isTerminal = true

/-- Acknowledging the cancellation of a job that is not terminal. -/
theorem leads_acknowledge (clock : Clock) (job : Job T.Token) (ran : Option ChunkedStep)
    (outputs : List ChunkedStepOutput) (hkeyed : r.jobs.Keyed) (hjob : r.job = some job)
    (hstatus : job.status = .pending ∨ job.status = .running)
    (hcancelled : T.isCancelled r.jobs.tokens job.cancelToken = true)
    (hran : t.ran ++ ran.toList = outputs.map .ok)
    (hsteps : t.ran ++ ran.toList ++ r.steps = steps) :
    Leads r.jobId steps t ⟨false, ran, true, r.acknowledge clock⟩ := by
  rcases acknowledge_cancelled r.jobs clock.finish r.jobId job hjob hstatus hcancelled with
    ⟨job', hget', hstatus'⟩
  have hcancelled' : ∀ found, (r.acknowledge clock).job = some found →
      found.status = .cancelled := by
    intro found hfound
    rw [← Option.some.inj (hget'.symm.trans hfound)]
    exact hstatus'
  constructor
  case inv =>
    refine ⟨rfl, keyed_apply r.jobs (.transition clock.finish r.jobId .acknowledgeCancel) hkeyed,
      ?_⟩
    exact .cancelled outputs hran hsteps (Nat.succ_pos _) (Bool.or_true _) hcancelled'
  case more => exact fun h => absurd h Bool.false_ne_true
  case ended =>
    intro _ found hfound
    rw [hcancelled' found hfound]
    rfl

/-- Completing a running job whose steps have all returned `Ok`. -/
theorem leads_complete (clock : Clock) (job : Job T.Token) (ran : Option ChunkedStep)
    (outputs : List ChunkedStepOutput) (hkeyed : r.jobs.Keyed) (hjob : r.job = some job)
    (hstatus : job.status = .running) (hobserved : t.observed = false)
    (hran : t.ran ++ ran.toList = outputs.map .ok) (hsteps : t.ran ++ ran.toList = steps)
    (hleft : r.steps = []) (hresults : r.results = valuesOf outputs) :
    Leads r.jobId steps t ⟨false, ran, false, r.complete clock⟩ := by
  rcases complete_running r.jobs clock.finish r.jobId (.array r.results) job hjob hstatus with
    ⟨job', hget', hstatus', hresult'⟩
  have hcompleted : ∀ found, (r.complete clock).job = some found →
      found.status = .completed ∧ found.result = some (.array (valuesOf outputs)) := by
    intro found hfound
    rw [← Option.some.inj (hget'.symm.trans hfound), ← hresults]
    exact ⟨hstatus', hresult'⟩
  constructor
  case inv =>
    refine ⟨rfl,
      keyed_apply r.jobs (.transition clock.finish r.jobId (.complete (.array r.results))) hkeyed,
      ?_⟩
    exact .completed outputs hran hsteps hleft (Nat.succ_pos _)
      (by rw [hobserved]; rfl) hcompleted
  case more => exact fun h => absurd h Bool.false_ne_true
  case ended =>
    intro _ found hfound
    rw [(hcompleted found hfound).1]
    rfl

/-- What a tick does after a step that returned `Ok`. -/
theorem leads_record (clock : Clock) (handle job : Job T.Token) (output : ChunkedStepOutput)
    (outputs : List ChunkedStepOutput) (hkeyed : r.jobs.Keyed) (hjob : r.job = some job)
    (hstatus : job.status = .running) (htoken : job.cancelToken = handle.cancelToken)
    (hobserved : t.observed = false) (hran : t.ran = outputs.map .ok)
    (hsteps : t.ran ++ .ok output :: r.steps = steps) (hresults : r.results = valuesOf outputs)
    (hticks : t.ticks = outputs.length) :
    Leads r.jobId steps t (r.record clock handle output) := by
  have hran' : t.ran ++ (some (.ok output : ChunkedStep)).toList =
      (outputs ++ [output]).map .ok := by
    rw [hran, List.map_append]
    rfl
  have hsteps' : t.ran ++ (some (.ok output : ChunkedStep)).toList ++
      (r.progressed clock output).steps = steps := by
    rw [List.append_assoc]
    exact hsteps
  have hresults' : (r.progressed clock output).results = valuesOf (outputs ++ [output]) := by
    rw [valuesOf, List.map_append]
    exact congrArg (· ++ [output.value]) hresults
  rcases updateProgress_running r.jobs clock.progress r.jobId
      ⟨(r.results ++ [output.value]).length, r.total, output.message⟩ job hjob hstatus with
    ⟨job', hget', hstatus', htoken'⟩
  have hjob' : (r.progressed clock output).job = some job' := hget'
  have hkeyed' : (r.progressed clock output).jobs.Keyed :=
    keyed_apply r.jobs (.transition clock.progress r.jobId (.updateProgress
      ⟨(r.results ++ [output.value]).length, r.total, output.message⟩)) hkeyed
  unfold ChunkedJobRunner.record
  dsimp only
  split
  next hcancelled =>
    refine leads_acknowledge steps t (r.progressed clock output) clock job' (some (.ok output))
      (outputs ++ [output]) hkeyed' hjob' (.inr hstatus') ?_ hran' hsteps'
    rw [htoken', htoken]
    exact hcancelled
  next =>
    split
    next hleft =>
      refine leads_complete steps t (r.progressed clock output) clock job' (some (.ok output))
        (outputs ++ [output]) hkeyed' hjob' hstatus' hobserved hran' ?_ hleft hresults'
      rw [← hsteps', hleft, List.append_nil]
    next hleft =>
      constructor
      case inv =>
        refine ⟨rfl, hkeyed', ?_⟩
        refine .running job' (outputs ++ [output]) hjob' hstatus' hran' hsteps' hleft hresults' ?_
          (Nat.succ_pos _) (by rw [hobserved]; rfl)
        rw [hticks, List.length_append]
        rfl
      case more =>
        refine fun _ => ⟨job', hjob', ?_⟩
        rw [hstatus']
        rfl
      case ended => exact fun h => absurd h.symm Bool.false_ne_true

/-- What a tick does once the job is running. -/
theorem leads_runStep (clock : Clock) (handle job : Job T.Token) (meanwhile : List Op)
    (outputs : List ChunkedStepOutput) (hmeanwhile : ∀ op ∈ meanwhile, op.Outside r.jobId)
    (hkeyed : r.jobs.Keyed) (hjob : r.job = some job) (hstatus : job.status = .running)
    (htoken : job.cancelToken = handle.cancelToken) (hobserved : t.observed = false)
    (hran : t.ran = outputs.map .ok) (hsteps : t.ran ++ r.steps = steps)
    (hresults : r.results = valuesOf outputs) (hticks : t.ticks = outputs.length) :
    Leads r.jobId steps t (r.runStep clock handle meanwhile) := by
  unfold ChunkedJobRunner.runStep
  have hopen : job.status.isTerminal = false := by
    rw [hstatus]
    rfl
  cases hleft : r.steps with
  | nil =>
      rw [hleft, List.append_nil] at hsteps
      exact leads_complete steps t r clock job none outputs hkeyed hjob hstatus hobserved
        (by rw [Option.toList_none, List.append_nil, hran])
        (by rw [Option.toList_none, List.append_nil, hsteps]) hleft hresults
  | cons step rest =>
      rw [hleft] at hsteps
      -- Others leave the job running while the step is called.
      have hkeyed' := keyed_applyAll r.jobs meanwhile hkeyed
      have hjob' := get_applyAll_outside r.jobs hkeyed meanwhile r.jobId hmeanwhile job hjob hopen
      cases step with
      | ok output =>
          exact leads_record steps t { r with jobs := r.jobs.applyAll meanwhile, steps := rest }
            clock handle job output outputs hkeyed' hjob' hstatus htoken hobserved hran hsteps
            hresults hticks
      | error error =>
          rcases fail_running (r.jobs.applyAll meanwhile) clock.finish r.jobId error job hjob'
            hstatus with ⟨failed, hget', hstatus', herror'⟩
          constructor
          case inv =>
            refine ⟨rfl, keyed_apply _ (.transition clock.finish r.jobId (.fail error)) hkeyed', ?_⟩
            refine .failed outputs error ?_ ?_ (Nat.succ_pos _) (by rw [hobserved]; rfl) ?_
            · rw [hran]
              rfl
            · rw [List.append_assoc]
              exact hsteps
            · intro found hfound
              rw [← Option.some.inj (hget'.symm.trans hfound)]
              exact ⟨hstatus', herror'⟩
          case more => exact fun h => absurd h Bool.false_ne_true
          case ended =>
            intro _ found hfound
            rw [← Option.some.inj (hget'.symm.trans hfound), hstatus']
            rfl

/-- Once the job is done, a tick only counts. -/
theorem leads_over (h : t.Inv id steps) (hover : t.Over) :
    Leads id steps t ⟨false, none, false, t.runner⟩ := by
  constructor
  case more => exact fun h => absurd h Bool.false_ne_true
  case ended => exact fun _ => hover
  case inv =>
    rw [Option.toList_none, List.append_nil, Bool.or_false]
    refine ⟨h.jobId, h.keyed, ?_⟩
    cases h.stage with
    | pending job hjob hstatus =>
        have hterminal := hover job hjob
        rw [hstatus] at hterminal
        cases hterminal
    | running job _ hjob hstatus =>
        have hterminal := hover job hjob
        rw [hstatus] at hterminal
        cases hterminal
    | completed outputs hran hsteps hleft _ hobserved hjob =>
        exact .completed outputs hran hsteps hleft (Nat.succ_pos _) hobserved hjob
    | failed outputs error hran hsteps _ hobserved hjob =>
        exact .failed outputs error hran hsteps (Nat.succ_pos _) hobserved hjob
    | cancelled outputs hran hsteps _ hobserved hjob =>
        exact .cancelled outputs hran hsteps (Nat.succ_pos _) hobserved hjob

/-- A tick while the job is not terminal. -/
theorem leads_open (clock : Clock) (meanwhile : List Op) (job : Job T.Token)
    (outputs : List ChunkedStepOutput)
    (hmeanwhile : ∀ op ∈ meanwhile, op.Outside t.runner.jobId) (hkeyed : t.runner.jobs.Keyed)
    (hjob : t.runner.job = some job) (hstatus : job.status = .pending ∨ job.status = .running)
    (hobserved : t.observed = false) (hran : t.ran = outputs.map .ok)
    (hsteps : t.ran ++ t.runner.steps = steps) (hresults : t.runner.results = valuesOf outputs)
    (hticks : t.ticks = outputs.length) :
    Leads t.runner.jobId steps t (t.runner.tick clock meanwhile) := by
  have hopen : job.status.isTerminal = false := by
    rcases hstatus with hstatus | hstatus <;> rw [hstatus] <;> rfl
  cases hcancelled : T.isCancelled t.runner.jobs.tokens job.cancelToken with
  | true =>
      rw [tick_observes t.runner clock meanwhile job hjob hopen hcancelled]
      exact leads_acknowledge steps t t.runner clock job none outputs hkeyed hjob hstatus
        hcancelled (by rw [Option.toList_none, List.append_nil, hran])
        (by rw [Option.toList_none, List.append_nil, hsteps])
  | false =>
      rcases tick_runs t.runner clock meanwhile job hjob hopen hcancelled with
        ⟨jobs, running, htick, hkept, hget, hrunning, htoken⟩
      rw [htick]
      exact leads_runStep steps t { t.runner with jobs := jobs } clock job running meanwhile outputs
        hmeanwhile (hkept hkeyed) hget hrunning htoken hobserved hran hsteps hresults hticks

/-- A job that is done. -/
theorem over_of_status (status : JobStatus) (hterminal : status.isTerminal = true)
    (h : ∀ job, t.runner.job = some job → job.status = status) : t.Over := by
  intro job hjob
  rw [h job hjob]
  exact hterminal

/-- Every tick keeps the invariant, and answers whether another one is needed. -/
theorem stage_tick (clock : Clock) (meanwhile : List Op)
    (hmeanwhile : ∀ op ∈ meanwhile, op.Outside id) (h : t.Inv id steps) :
    Leads id steps t (t.runner.tick clock meanwhile) := by
  have hover : t.Over → Leads id steps t (t.runner.tick clock meanwhile) := by
    intro hover
    rw [tick_over t.runner clock meanwhile hover]
    exact leads_over id steps t h hover
  cases h.stage with
  | pending job hjob hstatus hsteps hran hresults hticks hobserved =>
      rw [← h.jobId] at hmeanwhile ⊢
      exact leads_open steps t clock meanwhile job [] hmeanwhile h.keyed hjob (.inl hstatus)
        hobserved hran (by rw [hran, hsteps]; rfl) hresults hticks
  | running job outputs hjob hstatus hran hsteps _ hresults hticks _ hobserved =>
      rw [← h.jobId] at hmeanwhile ⊢
      exact leads_open steps t clock meanwhile job outputs hmeanwhile h.keyed hjob (.inr hstatus)
        hobserved hran hsteps hresults hticks
  | completed _ _ _ _ _ _ hjob =>
      exact hover (over_of_status t .completed rfl (fun job hget => (hjob job hget).1))
  | failed _ _ _ _ _ _ hjob =>
      exact hover (over_of_status t .failed rfl (fun job hget => (hjob job hget).1))
  | cancelled _ _ _ _ _ hjob => exact hover (over_of_status t .cancelled rfl hjob)

/-- The operations of others keep the invariant. -/
theorem stage_outside (op : Op) (hop : op.Outside id) (h : t.Inv id steps) : Trace.Inv id steps
      { t with runner := { t.runner with jobs := (t.runner.jobs.apply op).manager } } := by
  refine ⟨h.jobId, keyed_apply t.runner.jobs op h.keyed, ?_⟩
  rw [← h.jobId] at hop
  have hkept := get_apply_outside t.runner.jobs h.keyed op t.runner.jobId hop
  -- A job that is not terminal stays as it is.
  have hopen : ∀ job, t.runner.job = some job → job.status.isTerminal = false →
      (t.runner.jobs.apply op).manager.get t.runner.jobId = some job := by
    intro job hjob hstatus
    rcases hkept with hsame | ⟨_, hterminal⟩
    · exact hsame.trans hjob
    · rw [hterminal job hjob] at hstatus
      cases hstatus
  -- A job that is still there is the one that was there.
  have hthere : ∀ job, (t.runner.jobs.apply op).manager.get t.runner.jobId = some job →
      t.runner.job = some job := by
    intro job hjob
    rcases hkept with hsame | ⟨hnone, _⟩
    · exact hsame.symm.trans hjob
    · rw [hnone] at hjob
      cases hjob
  cases h.stage with
  | pending job hjob hstatus hsteps hran hresults hticks hobserved =>
      exact .pending job (hopen job hjob (by rw [hstatus]; rfl)) hstatus hsteps hran hresults
        hticks hobserved
  | running job outputs hjob hstatus hran hsteps hleft hresults hticks hpositive hobserved =>
      exact .running job outputs (hopen job hjob (by rw [hstatus]; rfl)) hstatus hran hsteps
        hleft hresults hticks hpositive hobserved
  | completed outputs hran hsteps hleft hpositive hobserved hjob =>
      exact .completed outputs hran hsteps hleft hpositive hobserved
        (fun job hget => hjob job (hthere job hget))
  | failed outputs error hran hsteps hpositive hobserved hjob =>
      exact .failed outputs error hran hsteps hpositive hobserved
        (fun job hget => hjob job (hthere job hget))
  | cancelled outputs hran hsteps hpositive hobserved hjob =>
      exact .cancelled outputs hran hsteps hpositive hobserved
        (fun job hget => hjob job (hthere job hget))

/-- Every event keeps the invariant. -/
theorem stage_event {id : String} (steps : List ChunkedStep) (t : Trace T) (e : Event id)
    (h : t.Inv id steps) : (t.after e).Inv id steps := by
  cases e with
  | tick clock meanwhile =>
      refine (stage_tick id steps t clock (meanwhile.map Subtype.val) ?_ h).inv
      intro op hop
      rcases List.mem_map.mp hop with ⟨op', _, rfl⟩
      exact op'.2
  | cancel => exact stage_outside id steps t (.cancel t.runner.jobId) trivial h
  | outside op => exact stage_outside id steps t op.1 op.2 h

theorem stage_run {id : String} (steps : List ChunkedStep) (t : Trace T)
    (events : List (Event id)) (h : t.Inv id steps) : (t.run events).Inv id steps := by
  unfold Trace.run
  induction events generalizing t with
  | nil => exact h
  | cons e events ih => exact ih (t.after e) (stage_event steps t e h)

/-- The invariant of a new runner. -/
theorem stage_new (hkeyed : m.Keyed) (id : String) (now : DateTime) (toolName : String)
    (steps : List ChunkedStep) :
    Trace.Inv id steps (.start (ChunkedJobRunner.new m id now toolName steps)) := by
  refine ⟨rfl, keyed_apply m (.createWithParent id now toolName none) hkeyed, ?_⟩
  exact .pending _ (AList.lookup_insert _) rfl rfl rfl rfl rfl rfl

/-! ## The law of the runner -/

/-- No event makes a runner whose job is done run a step. -/
theorem over_event {id : String} (steps : List ChunkedStep) (t : Trace T) (e : Event id)
    (h : t.Inv id steps) (hover : t.Over) : (t.after e).Over ∧ (t.after e).ran = t.ran := by
  have houtside : ∀ op : Op, op.Outside id → ∀ job,
      (t.runner.jobs.apply op).manager.get t.runner.jobId = some job →
      job.status.isTerminal = true := by
    intro op hop job hjob
    rw [← h.jobId] at hop
    rcases get_apply_outside t.runner.jobs h.keyed op t.runner.jobId hop with hsame | ⟨hnone, _⟩
    · exact hover job (hsame.symm.trans hjob)
    · rw [hnone] at hjob
      cases hjob
  cases e with
  | tick clock meanwhile =>
      rw [Trace.after_tick, Trace.afterTick,
        tick_over t.runner clock (meanwhile.map Subtype.val) hover]
      exact ⟨hover, List.append_nil t.ran⟩
  | cancel => exact ⟨houtside (.cancel t.runner.jobId) trivial, rfl⟩
  | outside op => exact ⟨houtside op.1 op.2, rfl⟩

theorem over_run {id : String} (steps : List ChunkedStep) (t : Trace T)
    (events : List (Event id)) (h : t.Inv id steps) (hover : t.Over) :
    (t.run events).Over ∧ (t.run events).ran = t.ran := by
  unfold Trace.run
  induction events generalizing t with
  | nil => exact ⟨hover, rfl⟩
  | cons e events ih =>
      rcases over_event steps t e h hover with ⟨hover', hran⟩
      rcases ih (t.after e) (stage_event steps t e h) hover' with ⟨hlast, hran'⟩
      exact ⟨hlast, hran'.trans hran⟩

/-- What is run and what is left are the steps, in order. -/
theorem Stage.order (h : Stage steps t) : t.ran ++ t.runner.steps = steps := by
  cases h with
  | pending _ _ _ hsteps hran => rw [hran, hsteps]; rfl
  | running _ _ _ _ _ hsteps => exact hsteps
  | completed _ _ hsteps hleft => rw [hleft, List.append_nil, hsteps]
  | failed _ _ _ hsteps => exact hsteps
  | cancelled _ _ hsteps => exact hsteps

/-- No step that returned `Ok` is a failure. -/
theorem error_not_mem_map_ok (outputs : List ChunkedStepOutput) (error : String) :
    (.error error : ChunkedStep) ∉ outputs.map .ok := by
  intro h
  rcases List.mem_map.mp h with ⟨output, _, houtput⟩
  cases houtput

/-- Only the last step that was run may have failed. -/
theorem Stage.first (h : Stage steps t) (error : String) (herror : .error error ∈ t.ran) :
    ∃ outputs : List ChunkedStepOutput, t.ran = outputs.map .ok ++ [.error error] := by
  have hok : ∀ outputs : List ChunkedStepOutput, t.ran ≠ outputs.map .ok := by
    intro outputs hran
    rw [hran] at herror
    exact error_not_mem_map_ok outputs error herror
  cases h with
  | pending _ _ _ _ hran => exact absurd hran (hok [])
  | running _ outputs _ _ hran => exact absurd hran (hok outputs)
  | completed outputs hran => exact absurd hran (hok outputs)
  | cancelled outputs hran => exact absurd hran (hok outputs)
  | failed outputs error' hran =>
      rw [hran, List.mem_append, List.mem_singleton] at herror
      rcases herror with hmem | heq
      · exact absurd hmem (error_not_mem_map_ok outputs error)
      · exact ⟨outputs, heq ▸ hran⟩

/-- What the status of a tracked job says about the steps. -/
structure Verdict (steps : List ChunkedStep) (t : Trace T) (job : Job T.Token) : Prop where
  completed : job.status = .completed ↔ 0 < t.ticks ∧ t.ran = steps ∧
    (∃ outputs : List ChunkedStepOutput, t.ran = outputs.map .ok) ∧ t.observed = false
  result : ∀ outputs : List ChunkedStepOutput, job.status = .completed →
    t.ran = outputs.map .ok → job.result = some (.array (valuesOf outputs))
  failed : job.status = .failed ↔ ∃ error, .error error ∈ t.ran
  error : ∀ error, .error error ∈ t.ran → job.error = some error
  cancelled : job.status = .cancelled ↔ t.observed = true

theorem map_ok_injective (outputs outputs' : List ChunkedStepOutput)
    (h : outputs.map (.ok : ChunkedStepOutput → ChunkedStep) = outputs'.map .ok) :
    outputs = outputs' :=
  List.map_injective_iff.mpr (fun _ _ heq => Except.ok.inj heq) h

theorem Stage.verdict (h : Stage steps t) (job : Job T.Token) (hget : t.runner.job = some job) :
    Verdict steps t job := by
  -- Where every step that was run returned `Ok`, none has failed.
  have hnone : ∀ outputs : List ChunkedStepOutput, t.ran = outputs.map .ok →
      ∀ error, .error error ∉ t.ran := by
    intro outputs hran error herror
    rw [hran] at herror
    exact error_not_mem_map_ok outputs error herror
  cases h with
  | pending job' hjob hstatus hsteps hran _ hticks hobserved =>
      rw [Option.some.inj (hget.symm.trans hjob)]
      constructor
      case completed => simp only [hstatus, reduceCtorEq, hticks, Nat.lt_irrefl, false_and]
      case result => simp only [hstatus, reduceCtorEq, false_implies, implies_true]
      case failed => simp only [hstatus, reduceCtorEq, hnone [] hran, exists_false]
      case error => exact fun error herror => absurd herror (hnone [] hran error)
      case cancelled => simp [hstatus, hobserved]
  | running job' outputs hjob hstatus hran hsteps hleft _ _ _ hobserved =>
      rw [Option.some.inj (hget.symm.trans hjob)]
      constructor
      case completed =>
        have hne : t.ran ≠ steps := by
          intro heq
          rw [← heq, List.append_right_eq_self] at hsteps
          exact hleft hsteps
        simp [hstatus, hne]
      case result => simp only [hstatus, reduceCtorEq, false_implies, implies_true]
      case failed => simp only [hstatus, reduceCtorEq, hnone outputs hran, exists_false]
      case error => exact fun error herror => absurd herror (hnone outputs hran error)
      case cancelled => simp [hstatus, hobserved]
  | completed outputs hran hsteps hleft hpositive hobserved hjob =>
      rcases hjob job hget with ⟨hstatus, hresult⟩
      constructor
      case completed =>
        exact ⟨fun _ => ⟨hpositive, hsteps, ⟨outputs, hran⟩, hobserved⟩, fun _ => hstatus⟩
      case result =>
        intro outputs' _ hran'
        rw [map_ok_injective outputs' outputs (hran'.symm.trans hran)]
        exact hresult
      case failed => simp only [hstatus, reduceCtorEq, hnone outputs hran, exists_false]
      case error => exact fun error herror => absurd herror (hnone outputs hran error)
      case cancelled => simp [hstatus, hobserved]
  | failed outputs error hran hsteps _ hobserved hjob =>
      rcases hjob job hget with ⟨hstatus, herror⟩
      have hmem : .error error ∈ t.ran := by
        rw [hran]
        exact List.mem_append_right _ List.mem_cons_self
      constructor
      case completed =>
        refine ⟨fun h => ?_, fun ⟨_, _, ⟨outputs', hran'⟩, _⟩ =>
          absurd hmem (hnone outputs' hran' error)⟩
        rw [hstatus] at h
        cases h
      case result => simp only [hstatus, reduceCtorEq, false_implies, implies_true]
      case failed => exact ⟨fun _ => ⟨error, hmem⟩, fun _ => hstatus⟩
      case error =>
        intro error' hmem'
        rw [hran, List.mem_append, List.mem_singleton] at hmem'
        rcases hmem' with hmem' | heq
        · exact absurd hmem' (error_not_mem_map_ok outputs error')
        · rw [Except.error.inj heq]
          exact herror
      case cancelled => simp [hstatus, hobserved]
  | cancelled outputs hran hsteps _ hobserved hjob =>
      have hstatus := hjob job hget
      constructor
      case completed => simp only [hstatus, reduceCtorEq, hobserved, Bool.true_eq_false, and_false]
      case result => simp only [hstatus, reduceCtorEq, false_implies, implies_true]
      case failed => simp only [hstatus, reduceCtorEq, hnone outputs hran, exists_false]
      case error => exact fun error herror => absurd herror (hnone outputs hran error)
      case cancelled => exact ⟨fun _ => hobserved, fun _ => hstatus⟩

/-- A runner is done after as many ticks as it has steps, and after one if it has none. -/
theorem Stage.finished (h : Stage steps t) (hticks : max 1 steps.length ≤ t.ticks) : t.Over := by
  cases h with
  | pending _ _ _ _ _ _ hzero =>
      rw [hzero] at hticks
      omega
  | running _ outputs _ _ hran hsteps hleft _ hcount =>
      have hlength := congrArg List.length hsteps
      rw [hran, List.length_append, List.length_map] at hlength
      have hpositive := List.length_pos_iff.mpr hleft
      omega
  | completed _ _ _ _ _ _ hjob =>
      exact over_of_status t .completed rfl (fun job hget => (hjob job hget).1)
  | failed _ _ _ _ _ _ hjob =>
      exact over_of_status t .failed rfl (fun job hget => (hjob job hget).1)
  | cancelled _ _ _ _ _ hjob => exact over_of_status t .cancelled rfl hjob

/-- What holds of a runner of the steps, whatever has happened to it. -/
structure RunnerLaw (id : String) (steps : List ChunkedStep) (t : Trace T) : Prop where
  /-- The steps are run in order, without skips or repeats. -/
  order : t.ran ++ t.runner.steps = steps
  /-- A tick runs the next step or none. -/
  one : ∀ clock (meanwhile : List (Outside id)),
    (t.after (.tick clock meanwhile)).ran = t.ran ∨
    ∃ step, t.runner.steps = step :: (t.after (.tick clock meanwhile)).runner.steps ∧
      (t.after (.tick clock meanwhile)).ran = t.ran ++ [step]
  /-- A tick answers `false` exactly if the job is then terminal or not tracked. -/
  answer : ∀ clock (meanwhile : List (Outside id)),
    (t.runner.tick clock (meanwhile.map Subtype.val)).answer = false ↔
      (t.after (.tick clock meanwhile)).Over
  /-- After that no step is run, whatever happens. -/
  quiet : t.Over → ∀ events : List (Event id), (t.run events).Over ∧ (t.run events).ran = t.ran
  /-- A step that failed is the last that was run. -/
  first : ∀ error, .error error ∈ t.ran →
    ∃ outputs : List ChunkedStepOutput, t.ran = outputs.map .ok ++ [.error error]
  verdict : ∀ job, t.runner.job = some job → Verdict steps t job
  finished : max 1 steps.length ≤ t.ticks → t.Over

/-- The runner of any steps keeps its law, in any registry, through any ticks, cancellations
    and operations of others. -/
theorem chunked_runner (before : List Op) (id : String) (now : DateTime) (toolName : String)
    (steps : List ChunkedStep) (events : List (Event id)) :
    RunnerLaw id steps
      ((Trace.start (.new ((JobManager.new T).applyAll before) id now toolName steps)).run
        events) := by
  have hinv := stage_run steps _ events
    (stage_new ((JobManager.new T).applyAll before) (keyed_applyAll _ before keyed_new) id now
      toolName steps)
  generalize (Trace.start (.new ((JobManager.new T).applyAll before) id now toolName steps)).run
    events = t at hinv
  have htick : ∀ clock (meanwhile : List (Outside id)),
      Leads id steps t (t.runner.tick clock (meanwhile.map Subtype.val)) := by
    intro clock meanwhile
    refine stage_tick id steps t clock (meanwhile.map Subtype.val) ?_ hinv
    intro op hop
    rcases List.mem_map.mp hop with ⟨op', _, rfl⟩
    exact op'.2
  constructor
  case order => exact hinv.stage.order
  case one =>
    intro clock meanwhile
    have horder := (htick clock meanwhile).inv.stage.order
    dsimp only at horder
    rw [Trace.after_tick, Trace.afterTick]
    cases hran : (t.runner.tick clock (meanwhile.map Subtype.val)).ran with
    | none => exact .inl (List.append_nil t.ran)
    | some step =>
        refine .inr ⟨step, ?_, rfl⟩
        rw [hran, ← hinv.stage.order, List.append_assoc] at horder
        exact (List.append_cancel_left horder).symm
  case answer =>
    intro clock meanwhile
    refine ⟨(htick clock meanwhile).ended, fun hover => ?_⟩
    cases hanswer : (t.runner.tick clock (meanwhile.map Subtype.val)).answer with
    | false => rfl
    | true =>
        rcases (htick clock meanwhile).more hanswer with ⟨job, hjob, hopen⟩
        rw [hover job hjob] at hopen
        cases hopen
  case quiet => exact fun hover events => over_run steps t events hinv hover
  case first => exact hinv.stage.first
  case verdict => exact hinv.stage.verdict
  case finished => exact hinv.stage.finished

end Jobs

end DccMcp
