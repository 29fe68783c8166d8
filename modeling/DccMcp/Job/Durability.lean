import DccMcp.Job.Concurrent

/-!
# Durable Convergence

Whether the stored row of a job ends up equal to the job in memory.

A transition takes its snapshot under the lock of the job and hands it to the
writer after the lock is released. The writer itself is a queue and keeps
the order it is given. So everything hinges on the order in which the calls
get to the queue: a call that is slow between its lock and the queue can hand
over an old snapshot after the newest one, and the row then stays behind for
good, also when the job is already terminal.

The condition under which this cannot happen is local to the step that hands
a snapshot over: the snapshot is the job as it is now, or some other call
still has that one to hand over. The invariant follows the newest row of
each job: it is either still owed by a call, or it is the last of the rows
that land in the storage.

## Main definitions

* `CallPhase.Owes`, `State.Owed`: A row that a call has still to hand over.
* `State.landing`: The rows of a job that are stored or on their way.
* `Accepting`: Writes are accepted and the storage does not fail.
* `InOrder`: The condition on handing a snapshot over.
* `Drained`: Every write of a job has reached the storage.
* `Durable`: The invariant.

## Theorems

* `rows_converge`: The rows converge in such a run.
* `rows_diverge`: They do not in every run.
-/

namespace DccMcp

namespace Jobs

namespace Concurrent

open Machine

variable {T : CancellationTokens}

/-- The call has still to hand this row to the writer. A call that has just
    created its job will read it again, so it owes whatever the job is then. -/
def CallPhase.Owes {τ : Type} : CallPhase τ → PersistedJob → Prop
  | .inserted id, row => id = row.id
  | .persisting call, row => PersistedJob.fromJob call.snapshot = row
  | _, _ => False

/-- Some call has still to hand this row to the writer. -/
def State.Owed (s : State T) (row : PersistedJob) : Prop := ∃ i, (s.calls i).Owes row

/-- The write the worker has taken from the queue and not made yet. -/
def WorkerPhase.unwritten {τ : Type} : WorkerPhase τ → List (PutCommand τ)
  | .checking command | .storing command => [command]
  | _ => []

/-- The row of a job, followed by the rows that will replace it, in order. -/
def State.landing (s : State T) (id : String) : List PersistedJob :=
  (s.rows.lookup id).toList ++
    ((s.worker.unwritten ++ s.queue).filter (fun command => command.job.id = id)).map
      (fun command => PersistedJob.fromJob command.job)

/-- The queue has room for a write, and the storage does not fail. -/
def Accepting (s : State T) : Action → Prop
  | .persist _ => s.queue.length < queueCapacity
  | .workerStore error => error = none
  | _ => True

instance (s : State T) : ∀ a, Decidable (Accepting s a)
  | .persist _ => inferInstanceAs (Decidable (s.queue.length < queueCapacity))
  | .workerStore error => inferInstanceAs (Decidable (error = none))
  | .create .. | .lockCreated _ | .transition .. | .cancel .. | .readSubscribers _ | .deliver _
  | .finish _ | .subscribe _ | .workerTake | .workerCheck | .workerRecord | .workerFinish =>
    isTrue trivial

/-- A snapshot is handed over only while it is the job as it is in memory, or
    while another call has still to hand that one over. -/
def InOrder (s : State T) : Action → Prop
  | .persist i => ∀ call job, s.calls i = .persisting call →
      s.manager.get call.snapshot.id = some job →
      PersistedJob.fromJob call.snapshot = PersistedJob.fromJob job ∨
        ∃ j, j ≠ i ∧ (s.calls j).Owes (PersistedJob.fromJob job)
  | _ => True

/-- All writes of the job have reached the storage: the queue is empty, the
    worker idle, and no call has a snapshot of the job to hand over. -/
structure Drained (s : State T) (id : String) : Prop where
  queue : s.queue = []
  worker : s.worker = .idle
  inserted : ∀ i, s.calls i ≠ .inserted id
  persisting : ∀ i call, s.calls i = .persisting call → call.snapshot.id ≠ id

/-- The newest row of every job is owed by a call or the last one to land. -/
def Landed (s : State T) : Prop :=
  ∀ id job, s.manager.get id = some job →
    s.Owed (PersistedJob.fromJob job) ∨
      (s.landing id).getLast? = some (PersistedJob.fromJob job)

/-- The invariant of a run with an accepting writer. -/
structure Durable (s : State T) : Prop where
  reached : ∃ ops, exec JobManager.step (JobManager.new T) ops = some s.manager
  healthy : s.circuit.canWrite = true
  stored : ∀ command error, s.worker = .recording command error → error = none
  landed : Landed s

theorem Durable.keyed (s : State T) (h : Durable s) (id : String) (job : Job T.Token)
    (hget : s.manager.get id = some job) : job.id = id := by
  rcases h.reached with ⟨ops, hops⟩
  exact (tracked_of_run ops s.manager hops).keyed id job hget

/-! ## What a step leaves -/

variable (s s' : State T) (i : CallId) (phase : CallPhase T.Token)

/-- A call that moves on and owes what it owed before. -/
theorem owed_of_update (row : PersistedJob) (hcalls : s'.calls = Function.update s.calls i phase)
    (hkeep : (s.calls i).Owes row → phase.Owes row) (h : s.Owed row) : s'.Owed row := by
  rcases h with ⟨j, hj⟩
  refine ⟨j, ?_⟩
  rw [hcalls]
  by_cases hji : j = i
  · subst hji
    rw [Function.update_self]
    exact hkeep hj
  · rw [Function.update_of_ne hji]
    exact hj

/-- The call that was updated owes what its phase owes. -/
theorem owed_self (row : PersistedJob) (hcalls : s'.calls = Function.update s.calls i phase)
    (h : phase.Owes row) : s'.Owed row := by
  refine ⟨i, ?_⟩
  rw [hcalls, Function.update_self]
  exact h

/-- A step that leaves the jobs, keeps the debts and lands the same last rows. -/
theorem landed_frame (h : Landed s) (hjobs : s'.manager.jobs = s.manager.jobs)
    (howed : ∀ row, s.Owed row → s'.Owed row)
    (hlanding : ∀ id, (s'.landing id).getLast? = (s.landing id).getLast?) : Landed s' := by
  intro id job hget
  rw [JobManager.get, hjobs] at hget
  rcases h id job hget with hold | hold
  · exact .inl (howed _ hold)
  · refine .inr ?_
    rw [hlanding]
    exact hold

/-- A step of a call that owes nothing before or after. -/
theorem landed_call (h : Landed s) (hjobs : s'.manager.jobs = s.manager.jobs)
    (hcalls : s'.calls = Function.update s.calls i phase)
    (hnone : ∀ row, ¬ (s.calls i).Owes row)
    (hrows : s'.rows = s.rows) (hworker : s'.worker.unwritten = s.worker.unwritten)
    (hqueue : s'.queue = s.queue) : Landed s' := by
  refine landed_frame s s' h hjobs (fun row => ?_) (fun id => ?_)
  · exact owed_of_update s s' i phase row hcalls (fun hold => absurd hold (hnone row))
  · rw [State.landing, hrows, hworker, hqueue, State.landing]

/-- A job that was just put into the map, by a call that now owes it. -/
theorem landed_insert (id : String) (job : Job T.Token) (h : Landed s)
    (hjobs : s'.manager.jobs = s.manager.jobs.insert id job)
    (hcalls : s'.calls = Function.update s.calls i phase)
    (hnone : ∀ row, ¬ (s.calls i).Owes row) (howes : phase.Owes (.fromJob job))
    (hrows : s'.rows = s.rows) (hworker : s'.worker = s.worker) (hqueue : s'.queue = s.queue) :
    Landed s' := by
  intro id' job' hget
  rw [JobManager.get, hjobs] at hget
  by_cases hid : id' = id
  · subst hid
    rw [AList.lookup_insert, Option.some.injEq] at hget
    subst hget
    exact .inl (owed_self s s' i phase _ hcalls howes)
  · rw [AList.lookup_insert_ne hid] at hget
    rcases h id' job' hget with hold | hold
    · exact .inl (owed_of_update s s' i phase _ hcalls (fun hi => absurd hi (hnone _)) hold)
    · refine .inr ?_
      rw [State.landing, hrows, hworker, hqueue]
      exact hold

/-- A call that reads the job it created again owes that job only. -/
theorem landed_lockCreated (id : String) (job : Job T.Token) (call : Call T.Token) (h : Durable s)
    (hcall : s.calls i = .inserted id)
    (hget : s.manager.get id = some job) (hsnapshot : call.snapshot = job)
    (hjobs : s'.manager.jobs = s.manager.jobs)
    (hcalls : s'.calls = Function.update s.calls i (.persisting call))
    (hlanding : ∀ id, s'.landing id = s.landing id) : Landed s' := by
  intro id' job' hget'
  rw [JobManager.get, hjobs] at hget'
  by_cases hid : id' = id
  · subst hid
    rw [JobManager.get, hget', Option.some.injEq] at hget
    refine .inl (owed_self s s' i _ _ hcalls ?_)
    rw [CallPhase.Owes, hsnapshot, hget]
  · rcases h.landed id' job' hget' with hold | hold
    · refine .inl (owed_of_update s s' i _ _ hcalls (fun howes => absurd ?_ hid) hold)
      rw [hcall] at howes
      exact (h.keyed s id' job' hget').symm.trans (Eq.symm howes)
    · refine .inr ?_
      rw [hlanding]
      exact hold

/-- Putting a snapshot at the end of the queue. -/
theorem landing_enqueue (command : PutCommand T.Token) (id : String) (hrows : s'.rows = s.rows)
    (hworker : s'.worker = s.worker)
    (hqueue : s'.queue = s.queue ++ [command]) :
    s'.landing id =
      s.landing id ++ if command.job.id = id then [PersistedJob.fromJob command.job] else [] := by
  rw [State.landing, hrows, hworker, hqueue, State.landing, ← List.append_assoc,
    List.filter_append, List.map_append, List.append_assoc]
  by_cases hid : command.job.id = id
  · rw [if_pos hid, List.filter_cons_of_pos (by simpa only [decide_eq_true_eq] using hid)]
    rfl
  · rw [if_neg hid, List.filter_cons_of_neg (by simpa only [decide_eq_true_eq] using hid)]
    rfl

/-- Handing a snapshot over in order. -/
theorem landed_enqueue (call : Call T.Token) (phase : CallPhase T.Token) (completed : Option CallId)
    (h : Durable s)
    (hcall : s.calls i = .persisting call) (horder : InOrder s (.persist i))
    (hjobs : s'.manager.jobs = s.manager.jobs)
    (hcalls : s'.calls = Function.update s.calls i phase)
    (hrows : s'.rows = s.rows) (hworker : s'.worker = s.worker)
    (hqueue : s'.queue = s.queue ++ [⟨call.snapshot, completed⟩]) : Landed s' := by
  intro id job hget
  rw [JobManager.get, hjobs] at hget
  have hlanding := landing_enqueue s s' ⟨call.snapshot, completed⟩ id hrows hworker hqueue
  by_cases hid : call.snapshot.id = id
  · rw [if_pos hid] at hlanding
    rw [← hid] at hget
    rcases horder call job hcall hget with hrow | ⟨j, hj, howes⟩
    · -- It is the newest, and now the last to land.
      refine .inr ?_
      rw [hlanding, List.getLast?_append_cons, ← hrow]
      rfl
    · refine .inl ⟨j, ?_⟩
      rw [hcalls, Function.update_of_ne hj]
      exact howes
  · rw [if_neg hid, List.append_nil] at hlanding
    rw [hlanding]
    rcases h.landed id job hget with hold | hold
    · refine .inl (owed_of_update s s' i phase _ hcalls (fun howes => absurd ?_ hid) hold)
      -- The call owes a row of its own job only.
      rw [hcall] at howes
      have hsame := congrArg PersistedJob.id howes
      exact hsame.trans (h.keyed s id job hget)
    · exact .inr hold

/-- The worker writes the first of the rows that are on their way. -/
theorem landing_store (command : PutCommand T.Token) (id : String)
    (hworker : s.worker = .storing command) (hworker' : s'.worker = .recording command none)
    (hqueue : s'.queue = s.queue)
    (hrows : s'.rows = s.rows.insert command.job.id (.fromJob command.job)) :
    (s'.landing id).getLast? = (s.landing id).getLast? := by
  rw [State.landing, State.landing, hrows, hworker, hworker', hqueue]
  simp only [WorkerPhase.unwritten, List.nil_append, List.singleton_append]
  by_cases hid : command.job.id = id
  · subst hid
    rw [AList.lookup_insert, List.filter_cons_of_pos (by simp), List.map_cons,
      List.getLast?_append_cons, Option.toList_some, List.singleton_append]
  · rw [AList.lookup_insert_ne (Ne.symm hid),
      List.filter_cons_of_neg (by simpa only [decide_eq_true_eq] using hid)]

/-! ## The invariant -/

theorem canWrite_recordResult (circuit : PersistenceCircuit) (h : circuit.canWrite = true) :
    (recordResult circuit none).canWrite = true := by
  rw [recordResult, h]
  exact h

theorem durable_init : Durable (init T) where
  reached := ⟨[], rfl⟩
  healthy := rfl
  stored := by
    intro command error h
    simp [init] at h
  landed := by
    intro id job h
    simp [init, JobManager.get, JobManager.new, AList.lookup_empty] at h

theorem landed_step (cfg : Config) (s s' : State T) (a : Action) (h : Durable s)
    (hcfg : cfg.waitForCompletion ≠ none) (haccept : Accepting s a) (horder : InOrder s a)
    (hsteps : Steps cfg s a s') : Landed s' := by
  -- What is owed, queued, under way or stored moves on by one place.
  cases hsteps with
  | create i id now toolName parentJobId hcall hfresh =>
      refine landed_insert s _ i _ id _ h.landed rfl rfl ?_ rfl rfl rfl rfl
      rw [hcall]
      exact fun _ howes => howes
  | lockCreated i id job hcall hget =>
      exact landed_lockCreated s _ i id job _ h hcall hget rfl rfl rfl (fun _ => rfl)
  | transition i now id t job snapshot hcall hget hfree htaken =>
      refine landed_insert s _ i _ id snapshot h.landed rfl rfl ?_ rfl rfl rfl rfl
      rw [hcall]
      exact fun _ howes => howes
  | cancel i id answer hcall =>
      refine landed_call s _ i _ h.landed (JobManager.jobs_cancel s.manager id) rfl ?_ rfl rfl rfl
      rw [hcall]
      exact fun _ howes => howes
  | skip i call hcall hshut =>
      -- The circuit is closed in such a run, so no write is skipped.
      rw [h.healthy] at hshut
      rcases hshut with hnone | hshut
      · exact absurd hnone hcfg
      · simp at hshut
  | enqueue i call wait hcall hroom =>
      exact landed_enqueue s _ i call _ _ h hcall horder rfl rfl rfl rfl rfl
  | queueFull i call hcall hfull => exact absurd haccept (Nat.not_lt.mpr hfull)
  | refused i now id t hcall | readSubscribers i call hcall hannounces
  | finishQuiet i call hcall hannounces | deliver i call sub rest hcall | finish i call hcall =>
      -- The call owed nothing where it was.
      refine landed_call s _ i _ h.landed rfl rfl ?_ rfl rfl rfl
      rw [hcall]
      exact fun _ howes => howes
  | subscribe sub hnew => exact landed_frame s _ h.landed rfl (fun _ hrow => hrow) (fun _ => rfl)
  | take command queue hworker hqueue =>
      refine landed_frame s _ h.landed rfl (fun _ hrow => hrow) (fun id => ?_)
      simp [State.landing, hworker, hqueue, WorkerPhase.unwritten]
  | check command hworker =>
      refine landed_frame s _ h.landed rfl (fun _ hrow => hrow) (fun id => ?_)
      simp [State.landing, hworker, h.healthy, WorkerPhase.unwritten]
  | store command hworker =>
      exact landed_frame s _ h.landed rfl (fun _ hrow => hrow)
        (fun id => landing_store s _ command id hworker rfl rfl rfl)
  | storeFailed command error hworker => simp only [Accepting, reduceCtorEq] at haccept
  | record command error hworker =>
      refine landed_frame s _ h.landed rfl (fun _ hrow => hrow) (fun id => ?_)
      simp only [State.landing, hworker, WorkerPhase.unwritten]
  | finishPut command hworker =>
      refine landed_frame s _ h.landed rfl (fun _ hrow => hrow) (fun id => ?_)
      simp only [State.landing, hworker, WorkerPhase.unwritten]
  | wake command i call hworker hcall =>
      refine landed_call s _ i _ h.landed rfl rfl ?_ rfl ?_ rfl
      · rw [hcall]
        exact fun _ howes => howes
      · rw [hworker]
        rfl

/-- A step of such a run keeps the invariant. -/
theorem durable_step (cfg : Config) (s s' : State T) (a : Action) (h : Durable s)
    (hcfg : cfg.waitForCompletion ≠ none) (haccept : Accepting s a) (horder : InOrder s a)
    (hstep : step cfg s a = some s') : Durable s' := by
  have hsteps := steps_of_step cfg s s' a hstep
  refine ⟨reached_step cfg s s' a hstep h.reached, ?_, ?_,
    landed_step cfg s s' a h hcfg haccept horder hsteps⟩
  -- Only a recorded result can open the circuit, and it was a success.
  · cases hsteps with
    | queueFull i call hcall hfull => exact absurd haccept (Nat.not_lt.mpr hfull)
    | record command error hworker =>
        rw [h.stored command error hworker]
        exact canWrite_recordResult s.circuit h.healthy
    | _ => exact h.healthy
  · cases hsteps with
    | take | finishPut | wake | record =>
        intro command error hworker
        simp at hworker
    | check command hworker =>
        intro command error hworker
        simp [h.healthy] at hworker
    | store command hworker =>
        intro command error hworker
        simp only [WorkerPhase.recording.injEq] at hworker
        exact hworker.2.symm
    | storeFailed command error hworker => simp only [Accepting, reduceCtorEq] at haccept
    | _ => exact h.stored

/-- Every state of such a run satisfies the invariant. -/
theorem durable_of_run (cfg : Config) (s : State T) (as : List Action)
    (hcfg : cfg.waitForCompletion ≠ none)
    (halong : Along (step cfg) (fun s a => Accepting s a ∧ InOrder s a) (init T) as)
    (hrun : exec (step cfg) (init T) as = some s) : Durable s :=
  exec_history (step cfg) _ (fun _ => Durable) (init T) durable_init
    (fun _ s a s' h hok hstep => durable_step cfg s s' a h hcfg hok.1 hok.2 hstep) as s halong hrun

/-- Nothing is owed for a job whose writes have all reached the storage, and
    the only row that lands is the one that is there. -/
theorem rows_of_drained (s : State T) (id : String) (job : Job T.Token) (h : Durable s)
    (hdrained : Drained s id) (hget : s.manager.get id = some job) :
    s.rows.lookup id = some (.fromJob job) := by
  have hkeyed := h.keyed s id job hget
  rcases h.landed id job hget with ⟨i, howes⟩ | hlast
  -- A call that owes the row is not done with the job.
  · exfalso
    cases hcall : s.calls i with
    | inserted id' =>
        rw [hcall] at howes
        exact hdrained.inserted i (by rw [hcall, show id' = id from Eq.trans howes hkeyed])
    | persisting call =>
        rw [hcall] at howes
        exact hdrained.persisting i call hcall ((congrArg PersistedJob.id howes).trans hkeyed)
    | _ =>
        rw [hcall] at howes
        exact howes
  · rw [State.landing, hdrained.queue, hdrained.worker] at hlast
    cases hrow : s.rows.lookup id with
    | none => simp [hrow, WorkerPhase.unwritten] at hlast
    | some row => simpa [hrow, WorkerPhase.unwritten] using hlast

/-- In a run whose writes are accepted and stored, and whose calls hand their
    snapshots over in order, the row of a job is the job once its writes have
    drained. -/
theorem rows_converge (cfg : Config) (as : List Action) (s : State T)
    (hcfg : cfg.waitForCompletion ≠ none)
    (haccept : Along (step cfg) Accepting (init T) as)
    (horder : Along (step cfg) InOrder (init T) as)
    (hrun : exec (step cfg) (init T) as = some s) (id : String) (job : Job T.Token)
    (hget : s.manager.get id = some job) (hdrained : Drained s id) :
    s.rows.lookup id = some (.fromJob job) ∧
      ∀ row, s.rows.lookup id = some row → job.status.isTerminal = true →
        row.status ≠ .pending ∧ row.status ≠ .running := by
  have hdurable := durable_of_run cfg s as hcfg (along_and _ _ _ _ _ haccept horder) hrun
  have hrow := rows_of_drained s id job hdurable hdrained hget
  refine ⟨hrow, ?_⟩
  intro row hlookup hterminal
  rw [hrow, Option.some.injEq] at hlookup
  rw [← hlookup]
  constructor <;> intro hstatus <;> rw [show job.status = _ from hstatus] at hterminal <;>
    simp [JobStatus.isTerminal] at hterminal

/-- What the worker does with one write. -/
def workerRound : List Action :=
  [.workerTake, .workerCheck, .workerStore none, .workerRecord, .workerFinish]

/-- A job is created and started, and the worker makes both writes. -/
def startRun : List Action :=
  [.create 0 "bake" 1 "render" none, .lockCreated 0, .persist 0, .readSubscribers 0, .finish 0,
    .transition 1 2 "bake" .start, .persist 1] ++ (workerRound ++ workerRound)

theorem rows_converge_start :
    ∃ (s : State CancellationTokens.lineageTokens) (job : Job (List Nat)),
      exec (step ⟨some false⟩) (init CancellationTokens.lineageTokens) startRun = some s ∧
      job.status = .running ∧ s.rows.lookup "bake" = some (.fromJob job) := by
  have horder : Along (step ⟨some false⟩) InOrder (init CancellationTokens.lineageTokens)
      startRun := by
    have hworker : ∀ (t : State CancellationTokens.lineageTokens), ∀ a ∈ workerRound, InOrder t a := by
      intro t a ha
      simp only [workerRound, List.mem_cons, List.not_mem_nil, or_false] at ha
      rcases ha with rfl | rfl | rfl | rfl | rfl <;> exact trivial
    -- Both snapshots are the job as it is when they are handed over.
    refine along_cons _ _ _ _ _ _ trivial rfl ?_
    refine along_cons _ _ _ _ _ _ trivial rfl ?_
    refine along_cons _ _ _ _ _ _ (fun call job hcall hget => .inl ?_) rfl ?_
    · rw [← CallPhase.persisting.inj hcall] at hget ⊢
      rw [← Option.some.inj hget]
    refine along_cons _ _ _ _ _ _ trivial rfl ?_
    refine along_cons _ _ _ _ _ _ trivial rfl ?_
    refine along_cons _ _ _ _ _ _ trivial rfl ?_
    refine along_cons _ _ _ _ _ _ (fun call job hcall hget => .inl ?_) rfl ?_
    · rw [← CallPhase.persisting.inj hcall] at hget ⊢
      rw [← Option.some.inj hget]
    exact along_of_forall_mem _ _ _ (workerRound ++ workerRound) (fun a ha t =>
      hworker t a ((List.mem_append.mp ha).elim id id))
  have hconverge := rows_converge ⟨some false⟩ startRun _ (by decide) (by decide) horder rfl "bake"
    _ rfl ⟨rfl, rfl, fun i => ?_, fun i call => ?_⟩
  · exact ⟨_, _, rfl, rfl, hconverge.1⟩
  · rcases i with _ | _ | i <;> exact fun h => by cases h
  · rcases i with _ | _ | i <;> exact fun h => by cases h

/-- A job completes while a call that reports its progress is on the way from
    the lock of the job to the queue. -/
def overtakenRun : List Action :=
  [.create 0 "bake" 1 "render" none, .lockCreated 0, .persist 0, .readSubscribers 0, .finish 0,
    .transition 1 2 "bake" .start, .persist 1,
    .transition 2 3 "bake" (.updateProgress ⟨1, 4, none⟩),
    .transition 3 4 "bake" (.complete .null), .persist 3, .persist 2] ++
    (workerRound ++ workerRound ++ workerRound ++ workerRound)

/-- The rows do not converge in every run: all writes are accepted and stored,
    the job has completed, and its row says that it is running. -/
theorem rows_diverge :
    ∃ (s : State CancellationTokens.lineageTokens) (job : Job (List Nat)) (row : PersistedJob),
      Along (step ⟨some false⟩) Accepting (init CancellationTokens.lineageTokens) overtakenRun ∧
      exec (step ⟨some false⟩) (init CancellationTokens.lineageTokens) overtakenRun = some s ∧
      Drained s "bake" ∧ s.manager.get "bake" = some job ∧ s.rows.lookup "bake" = some row ∧
      job.status = .completed ∧ row.status = .running ∧ row ≠ .fromJob job := by
  refine ⟨_, _, _, by decide, rfl, ⟨rfl, rfl, fun i => ?_, fun i call => ?_⟩, rfl, rfl, rfl, rfl, ?_⟩
  · rcases i with _ | _ | _ | _ | i <;> exact fun h => by cases h
  · rcases i with _ | _ | _ | _ | i <;> exact fun h => by cases h
  · intro hrow
    exact absurd (congrArg PersistedJob.status hrow) (by decide)

end Concurrent

end Jobs

end DccMcp
