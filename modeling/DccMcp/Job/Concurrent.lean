import DccMcp.Job.Manager

/-!
# Concurrent Callers of the Job Registry

The registry as its callers see it when there is more than one. A call looks
its job up, runs its transition under the write lock of that job, takes a
snapshot, and releases the lock. Only then does it hand the snapshot to the
persistence writer and to the subscribers. This file interleaves those
pieces: a call is a thread with a phase, an action is the next atomic piece
of one call or of the persistence worker.

A call that creates a job is different. It puts the job into the map first,
and then holds the read lock of the job while it persists and announces it;
between the two another call can already run a transition on the new job.
While the read lock is held no transition of that job is enabled.

The writer has two modes. In one a call waits until the worker has finished
its write, in the other it leaves the write in a bounded queue and goes on,
and a full queue opens the circuit. The worker takes one write at a time:
it asks the circuit, writes, and reports the result to the circuit.

Left out are the ways a process ends (closing the writer and dropping it) and
the retention deletes, which are no transitions of a job. A job that was
created stays in the map, so a generated id is new when the map has no job
under it.

## Main definitions

* `PersistedJob`: The row a snapshot is written to.
* `Call`, `CallPhase`, `WorkerPhase`: Where a call and the worker are.
* `State`, `init`, `Action`, `step`: The machine.
* `State.eventsFor`: What a subscriber was told about a job.

## Theorems

* `step_manager`: A step changes the registry as one operation does, or not.
* `manager_of_run`: The registry of a run is one the operations reach.
-/

namespace DccMcp

namespace Jobs

/-- `PersistedJob`, the row every backend stores, with times of type `θ`. -/
structure PersistedJob (θ : Type := DateTime) where
  id : String
  parentJobId : Option String
  toolName : String
  status : JobStatus
  progress : Option JobProgress
  result : Option Json.Value
  error : Option String
  createdAt : θ
  startedAt : Option θ
  completedAt : Option θ
  updatedAt : θ

def PersistedJob.fromJob {τ : Type} (job : Job τ) : PersistedJob where
  id := job.id
  parentJobId := job.parentJobId
  toolName := job.toolName
  status := job.status
  progress := job.progress
  result := job.result
  error := job.error
  createdAt := job.createdAt
  startedAt := job.startedAt
  completedAt := job.completedAt
  updatedAt := job.updatedAt

namespace Concurrent

open Machine

/-- A call of an operation. -/
abbrev CallId := Nat

/-- A registered subscriber. -/
abbrev SubscriberId := Nat

/-- `PERSISTENCE_QUEUE_CAPACITY`. -/
def queueCapacity : Nat := 64

/-- The persistence writer, if there is one: whether calls wait for the
    worker to finish their write. -/
structure Config where
  waitForCompletion : Option Bool

/-- What a call carries from its locked section: the snapshot, whether it is
    announced, and whether the call still holds the read lock of a job it
    created. -/
structure Call (τ : Type) where
  snapshot : Job τ
  announces : Bool
  creating : Bool

/-- Where a call is. -/
inductive CallPhase (τ : Type)
  | notCalled
  /-- The job is in the map; its read lock is not taken yet. -/
  | inserted (id : String)
  /-- Before `persist_put`. -/
  | persisting (call : Call τ)
  /-- The write is in the queue, and the call waits for the worker. -/
  | awaitingWorker (call : Call τ)
  /-- Before `emit`, if the call announces its snapshot. -/
  | emitting (call : Call τ)
  /-- Inside `emit`, with the subscribers that are still to be called. -/
  | delivering (call : Call τ) (rest : List SubscriberId)
  | finished (answer : Option Unit)

/-- `PersistenceCommand::Put`. -/
structure PutCommand (τ : Type) where
  job : Job τ
  completed : Option CallId

/-- Where the persistence worker is. -/
inductive WorkerPhase (τ : Type)
  | idle
  /-- Before it asks the circuit. -/
  | checking (command : PutCommand τ)
  /-- Before it writes. -/
  | storing (command : PutCommand τ)
  /-- Before it reports to the circuit. -/
  | recording (command : PutCommand τ) (error : Option JobStorageError)
  /-- Before it tells a waiting call. -/
  | finishing (command : PutCommand τ)

/-- The registry, all calls, the writer with its storage, and what the
    subscribers were told. -/
structure State (T : CancellationTokens) where
  manager : JobManager T
  calls : CallId → CallPhase T.Token
  readLocks : List String
  circuit : PersistenceCircuit
  queue : List (PutCommand T.Token)
  worker : WorkerPhase T.Token
  rows : AList (fun _ : String => PersistedJob)
  subscribers : List SubscriberId
  deliveries : List (SubscriberId × JobEvent)
  /-- The announced transitions, in the order they took effect. No step looks
      at it. -/
  history : List JobEvent

/-- The atomic pieces of the calls and of the worker. -/
inductive Action
  | create (i : CallId) (id : String) (now : DateTime) (toolName : String)
      (parentJobId : Option String)
  | lockCreated (i : CallId)
  | transition (i : CallId) (now : DateTime) (id : String) (t : Transition)
  | cancel (i : CallId) (id : String)
  | persist (i : CallId)
  | readSubscribers (i : CallId)
  | deliver (i : CallId)
  | finish (i : CallId)
  | subscribe (sub : SubscriberId)
  | workerTake
  | workerCheck
  | workerStore (error : Option JobStorageError)
  | workerRecord
  | workerFinish

variable {T : CancellationTokens}

variable (T) in
/-- A new registry, with a healthy writer. -/
def init : State T where
  manager := JobManager.new T
  calls _ := .notCalled
  readLocks := []
  circuit := .fresh
  queue := []
  worker := .idle
  rows := ∅
  subscribers := []
  deliveries := []
  history := []

def State.setCall (s : State T) (i : CallId) (phase : CallPhase T.Token) : State T :=
  { s with calls := Function.update s.calls i phase }

/-- `persist_put` with `PersistenceWriter::put`, up to the wait. -/
def persistStep (cfg : Config) (s : State T) (i : CallId) (call : Call T.Token) :
    Option (State T) :=
  match cfg.waitForCompletion with
  | none => some (s.setCall i (.emitting call))
  | some wait =>
    -- The gate and the circuit are asked first; a refused write is dropped.
    if s.circuit.canWrite = false then some (s.setCall i (.emitting call))
    else if s.queue.length < queueCapacity then
      if wait then
        some { s.setCall i (.awaitingWorker call) with queue := s.queue ++ [⟨call.snapshot, some i⟩] }
      else
        some { s.setCall i (.emitting call) with queue := s.queue ++ [⟨call.snapshot, none⟩] }
    -- A waiting caller blocks until there is room, the other one gives up.
    else if wait then none
    else some { s.setCall i (.emitting call) with circuit := (s.circuit.disable "queue_full").2 }

/-- The end of a call: a call that created a job releases its read lock. -/
def finishStep (s : State T) (i : CallId) (call : Call T.Token) : State T :=
  { s.setCall i (.finished (some ())) with
    readLocks := if call.creating then s.readLocks.erase call.snapshot.id else s.readLocks }

/-- The end of `persist_one`: the result of a write is reported, unless the
    circuit was opened meanwhile. -/
def recordResult (circuit : PersistenceCircuit) (error : Option JobStorageError) :
    PersistenceCircuit :=
  if circuit.canWrite = false then circuit
  else match error with
    | none => circuit.recordSuccess.2
    | some error => (circuit.recordFailure error).2

/-- The steps of the worker. -/
def workerStep (s : State T) : Action → Option (State T)
  | .workerTake =>
    match s.worker, s.queue with
    | .idle, command :: queue => some { s with worker := .checking command, queue := queue }
    | _, _ => none
  | .workerCheck =>
    match s.worker with
    | .checking command =>
      some { s with worker := if s.circuit.canWrite then .storing command else .finishing command }
    | _ => none
  | .workerStore error =>
    match s.worker, error with
    | .storing command, none =>
      some { s with
        worker := .recording command none
        rows := s.rows.insert command.job.id (.fromJob command.job) }
    | .storing command, some error => some { s with worker := .recording command (some error) }
    | _, _ => none
  | .workerRecord =>
    match s.worker with
    | .recording command error =>
      some { s with
        worker := .finishing command
        circuit := recordResult s.circuit error }
    | _ => none
  | .workerFinish =>
    match s.worker with
    | .finishing command =>
      match command.completed with
      | none => some { s with worker := .idle }
      | some i =>
        match s.calls i with
        | .awaitingWorker call => some { s.setCall i (.emitting call) with worker := .idle }
        | _ => none
    | _ => none
  | _ => none

/-- The steps of the calls. -/
def callStep (cfg : Config) (s : State T) : Action → Option (State T)
  | .create i id now toolName parentJobId =>
    match s.calls i, s.manager.get id with
    | .notCalled, none =>
      some { s.setCall i (.inserted id) with
        manager := (s.manager.createWithParent id now toolName parentJobId).manager
        history := s.history ++
          [(Job.new id now toolName parentJobId (s.manager.tokenFor parentJobId).1).event] }
    | _, _ => none
  | .lockCreated i =>
    match s.calls i with
    | .inserted id =>
      match s.manager.get id with
      | some job =>
        some { s.setCall i (.persisting ⟨job, true, true⟩) with readLocks := id :: s.readLocks }
      | none => none
    | _ => none
  | .transition i now id t =>
    match s.calls i with
    | .notCalled =>
      match s.manager.get id with
      | none => some (s.setCall i (.finished none))
      | some job =>
        -- The write lock waits for the read lock of the call that created the job.
        if id ∈ s.readLocks then none
        else match job.transition (T.isCancelled s.manager.tokens job.cancelToken) now t with
          | none => some (s.setCall i (.finished none))
          | some snapshot =>
            some { s.setCall i (.persisting ⟨snapshot, t.announces, false⟩) with
              manager := { s.manager with jobs := s.manager.jobs.insert id snapshot }
              history := if t.announces then s.history ++ [snapshot.event] else s.history }
    | _ => none
  | .cancel i id =>
    match s.calls i with
    | .notCalled =>
      match (s.manager.cancel id).reply with
      | .done answer =>
        some { s.setCall i (.finished answer) with manager := (s.manager.cancel id).manager }
      | _ => none
    | _ => none
  | .persist i =>
    match s.calls i with
    | .persisting call => persistStep cfg s i call
    | _ => none
  | .readSubscribers i =>
    match s.calls i with
    | .emitting call =>
      if call.announces then some (s.setCall i (.delivering call s.subscribers))
      else some (finishStep s i call)
    | _ => none
  | .deliver i =>
    match s.calls i with
    | .delivering call (sub :: rest) =>
      some { s.setCall i (.delivering call rest) with
        deliveries := s.deliveries ++ [(sub, call.snapshot.event)] }
    | _ => none
  | .finish i =>
    match s.calls i with
    | .delivering call [] => some (finishStep s i call)
    | _ => none
  | .subscribe sub =>
    if sub ∈ s.subscribers then none else some { s with subscribers := s.subscribers ++ [sub] }
  | _ => none

/-- One atomic piece. -/
def step (cfg : Config) (s : State T) (a : Action) : Option (State T) :=
  match callStep cfg s a with
  | some s' => some s'
  | none => workerStep s a

/-- The events a subscriber received for a job, in order. -/
def State.eventsFor (s : State T) (sub : SubscriberId) (id : String) : List JobEvent :=
  (s.deliveries.filter (fun d => d.1 = sub ∧ d.2.id = id)).map Prod.snd

/-- The announced transitions of a job, in order. -/
def State.historyOf (s : State T) (id : String) : List JobEvent :=
  s.history.filter (fun e => e.id = id)

/-! ## What a step can do -/

/-- Everything a step can do, with the guards it was taken under. -/
inductive Steps (cfg : Config) (s : State T) : Action → State T → Prop
  | create (i : CallId) (id : String) (now : DateTime) (toolName : String)
      (parentJobId : Option String) (hcall : s.calls i = .notCalled)
      (hfresh : s.manager.get id = none) :
      Steps cfg s (.create i id now toolName parentJobId) { s.setCall i (.inserted id) with
        manager := (s.manager.createWithParent id now toolName parentJobId).manager
        history := s.history ++
          [(Job.new id now toolName parentJobId (s.manager.tokenFor parentJobId).1).event] }
  | lockCreated (i : CallId) (id : String) (job : Job T.Token)
      (hcall : s.calls i = .inserted id) (hget : s.manager.get id = some job) :
      Steps cfg s (.lockCreated i)
        { s.setCall i (.persisting ⟨job, true, true⟩) with readLocks := id :: s.readLocks }
  | refused (i : CallId) (now : DateTime) (id : String) (t : Transition)
      (hcall : s.calls i = .notCalled) :
      Steps cfg s (.transition i now id t) (s.setCall i (.finished none))
  | transition (i : CallId) (now : DateTime) (id : String) (t : Transition)
      (job snapshot : Job T.Token) (hcall : s.calls i = .notCalled)
      (hget : s.manager.get id = some job) (hfree : id ∉ s.readLocks)
      (htaken : job.transition (T.isCancelled s.manager.tokens job.cancelToken) now t
        = some snapshot) :
      Steps cfg s (.transition i now id t)
        { s.setCall i (.persisting ⟨snapshot, t.announces, false⟩) with
          manager := { s.manager with jobs := s.manager.jobs.insert id snapshot }
          history := if t.announces then s.history ++ [snapshot.event] else s.history }
  | cancel (i : CallId) (id : String) (answer : Option Unit) (hcall : s.calls i = .notCalled) :
      Steps cfg s (.cancel i id)
        { s.setCall i (.finished answer) with manager := (s.manager.cancel id).manager }
  | skip (i : CallId) (call : Call T.Token) (hcall : s.calls i = .persisting call)
      (hshut : cfg.waitForCompletion = none ∨ s.circuit.canWrite = false) :
      Steps cfg s (.persist i) (s.setCall i (.emitting call))
  | enqueue (i : CallId) (call : Call T.Token) (wait : Bool)
      (hcall : s.calls i = .persisting call) (hroom : s.queue.length < queueCapacity) :
      Steps cfg s (.persist i)
        { s.setCall i (if wait then .awaitingWorker call else .emitting call) with
          queue := s.queue ++ [⟨call.snapshot, if wait then some i else none⟩] }
  | queueFull (i : CallId) (call : Call T.Token) (hcall : s.calls i = .persisting call)
      (hfull : queueCapacity ≤ s.queue.length) :
      Steps cfg s (.persist i)
        { s.setCall i (.emitting call) with circuit := (s.circuit.disable "queue_full").2 }
  | readSubscribers (i : CallId) (call : Call T.Token) (hcall : s.calls i = .emitting call)
      (hannounces : call.announces = true) :
      Steps cfg s (.readSubscribers i) (s.setCall i (.delivering call s.subscribers))
  | finishQuiet (i : CallId) (call : Call T.Token) (hcall : s.calls i = .emitting call)
      (hannounces : call.announces = false) :
      Steps cfg s (.readSubscribers i) (finishStep s i call)
  | deliver (i : CallId) (call : Call T.Token) (sub : SubscriberId) (rest : List SubscriberId)
      (hcall : s.calls i = .delivering call (sub :: rest)) :
      Steps cfg s (.deliver i) { s.setCall i (.delivering call rest) with
        deliveries := s.deliveries ++ [(sub, call.snapshot.event)] }
  | finish (i : CallId) (call : Call T.Token) (hcall : s.calls i = .delivering call []) :
      Steps cfg s (.finish i) (finishStep s i call)
  | subscribe (sub : SubscriberId) (hnew : sub ∉ s.subscribers) :
      Steps cfg s (.subscribe sub) { s with subscribers := s.subscribers ++ [sub] }
  | take (command : PutCommand T.Token) (queue : List (PutCommand T.Token))
      (hworker : s.worker = .idle) (hqueue : s.queue = command :: queue) :
      Steps cfg s .workerTake { s with worker := .checking command, queue := queue }
  | check (command : PutCommand T.Token) (hworker : s.worker = .checking command) :
      Steps cfg s .workerCheck
        { s with worker := if s.circuit.canWrite then .storing command else .finishing command }
  | store (command : PutCommand T.Token) (hworker : s.worker = .storing command) :
      Steps cfg s (.workerStore none) { s with
        worker := .recording command none
        rows := s.rows.insert command.job.id (.fromJob command.job) }
  | storeFailed (command : PutCommand T.Token) (error : JobStorageError)
      (hworker : s.worker = .storing command) :
      Steps cfg s (.workerStore (some error)) { s with worker := .recording command (some error) }
  | record (command : PutCommand T.Token) (error : Option JobStorageError)
      (hworker : s.worker = .recording command error) :
      Steps cfg s .workerRecord { s with
        worker := .finishing command
        circuit := recordResult s.circuit error }
  | finishPut (command : PutCommand T.Token) (hworker : s.worker = .finishing command) :
      Steps cfg s .workerFinish { s with worker := .idle }
  | wake (command : PutCommand T.Token) (i : CallId) (call : Call T.Token)
      (hworker : s.worker = .finishing command) (hcall : s.calls i = .awaitingWorker call) :
      Steps cfg s .workerFinish { s.setCall i (.emitting call) with worker := .idle }

variable (cfg : Config) (s s' : State T) (a : Action)

theorem steps_persist (i : CallId) (call : Call T.Token) (hcall : s.calls i = .persisting call)
    (h : persistStep cfg s i call = some s') :
    Steps cfg s (.persist i) s' := by
  unfold persistStep at h
  split at h
  next hcfg =>
    rw [← Option.some.inj h]
    exact .skip i call hcall (.inl hcfg)
  next wait hcfg =>
    split at h
    next hshut =>
      rw [← Option.some.inj h]
      exact .skip i call hcall (.inr hshut)
    next =>
      split at h
      next hroom =>
        split at h
        next hwait =>
          rw [← Option.some.inj h]
          exact .enqueue i call true hcall hroom
        next =>
          rw [← Option.some.inj h]
          exact .enqueue i call false hcall hroom
      next hfull =>
        split at h
        next => simp only [reduceCtorEq] at h
        next =>
          rw [← Option.some.inj h]
          exact .queueFull i call hcall (Nat.le_of_not_lt hfull)

theorem steps_call (h : callStep cfg s a = some s') : Steps cfg s a s' := by
  revert h
  fun_cases callStep cfg s a <;> intro h
  all_goals first
    | exact steps_persist cfg s s' _ _ (by assumption) h
    | (rw [← Option.some.inj h]; constructor <;> assumption)
    | simp only [reduceCtorEq] at h
    | (rw [← Option.some.inj h]; exact .finishQuiet _ _ (by assumption) (Bool.eq_false_iff.mpr ‹_›))

theorem steps_worker (h : workerStep s a = some s') : Steps cfg s a s' := by
  revert h
  fun_cases workerStep s a <;> intro h
  all_goals first
    | (rw [← Option.some.inj h]; constructor <;> assumption)
    | simp at h

/-- A step does one of the things listed. -/
theorem steps_of_step (h : step cfg s a = some s') : Steps cfg s a s' := by
  unfold step at h
  cases hcall : callStep cfg s a with
  | some u =>
      rw [hcall] at h
      exact steps_call cfg s s' a (hcall.trans h)
  | none =>
      rw [hcall] at h
      exact steps_worker cfg s s' a h

/-! ## The registry under the calls -/

/-- A step changes the registry as one operation does, or not at all. An id
    that a step creates was not tracked. -/
theorem step_manager (h : step cfg s a = some s') : s'.manager = s.manager ∨
    ∃ op, s'.manager = (s.manager.apply op).manager ∧
      ∀ id, op.createdId = some id → s.manager.get id = none := by
  cases steps_of_step cfg s s' a h with
  | create i id now toolName parentJobId hcall hfresh =>
      refine .inr ⟨.createWithParent id now toolName parentJobId, rfl, ?_⟩
      intro id' hid
      rw [← Option.some.inj hid]
      exact hfresh
  | transition i now id t job snapshot hcall hget hfree htaken =>
      refine .inr ⟨.transition now id t, ?_, ?_⟩
      · simp only [JobManager.apply, JobManager.transition, hget, htaken]
      · intro id' hid
        simp [Op.createdId] at hid
  | cancel i id answer hcall =>
      refine .inr ⟨.cancel id, rfl, ?_⟩
      intro id' hid
      simp [Op.createdId] at hid
  | _ => exact .inl rfl

/-- The registry a step leads to is one the operations reach. -/
theorem reached_step (hstep : step cfg s a = some s')
    (h : ∃ ops, exec JobManager.step (JobManager.new T) ops = some s.manager) :
    ∃ ops, exec JobManager.step (JobManager.new T) ops = some s'.manager := by
  rcases h with ⟨ops, hops⟩
  rcases step_manager cfg s s' a hstep with hsame | ⟨op, hop, _⟩
  · exact ⟨ops, hsame ▸ hops⟩
  · refine ⟨ops ++ [op], (exec_snoc _ _ _ _ _).mpr ⟨s.manager, hops, ?_⟩⟩
    rw [hop]
    rfl

/-- Two creations at the same time. -/
def createdRun : List Action :=
  [.create 0 "bake" 1 "render" none, .create 1 "light" 2 "render" none, .lockCreated 1,
    .lockCreated 0]

/-- A step leaves a job where it is, or moves it on. -/
theorem later_step (id : String) (job : Job T.Token) (h : step cfg s a = some s')
    (hget : s.manager.get id = some job) :
    ∃ job', s'.manager.get id = some job' ∧ job.Later job' := by
  cases steps_of_step cfg s s' a h with
  | create i id' now toolName parentJobId hcall hfresh =>
      have hne : id ≠ id' := by
        rintro rfl
        rw [hfresh] at hget
        cases hget
      exact ⟨job, (AList.lookup_insert_ne hne).trans hget, .refl job⟩
  | transition i now id' t before snapshot hcall hbefore hfree htaken =>
      by_cases hid : id = id'
      · subst hid
        rw [hget, Option.some.injEq] at hbefore
        subst hbefore
        exact ⟨snapshot, AList.lookup_insert _,
          Job.later_of_moves _ _ _ (Job.transition_moves _ now job snapshot t htaken)⟩
      · exact ⟨job, (AList.lookup_insert_ne hid).trans hget, .refl job⟩
  | cancel i id' answer hcall =>
      exact ⟨job, by rw [← hget, JobManager.get, JobManager.jobs_cancel]; rfl, .refl job⟩
  | _ => exact ⟨job, hget, .refl job⟩

/-- Whatever the calls are doing to each other, the jobs stay, no status that
    has ended changes, and no progress goes back. -/
theorem later_of_calls (as : List Action) (hrun : exec (step cfg) s as = some s') :
    ∀ id job, s.manager.get id = some job →
      ∃ job', s'.manager.get id = some job' ∧ job.Later job' := by
  intro id job hget
  refine exec_invariant (step cfg)
    (fun t => ∃ job', t.manager.get id = some job' ∧ job.Later job') ?_ s s' as
    ⟨job, hget, .refl job⟩ hrun
  rintro t a t' ⟨mid, hmid, hlater⟩ hstep
  rcases later_step cfg t t' a id mid hstep hmid with ⟨job', hget', hlater'⟩
  exact ⟨job', hget', hlater.trans job mid job' hlater'⟩

theorem later_of_calls_created :
    ∃ s s', exec (step ⟨none⟩) (init CancellationTokens.lineageTokens) createdRun = some s ∧
      exec (step ⟨none⟩) s [.cancel 2 "bake", .persist 1] = some s' ∧
      ∀ id job, s.manager.get id = some job →
        ∃ job', s'.manager.get id = some job' ∧ job.Later job' := by
  have hsome : (exec (step ⟨none⟩) (init CancellationTokens.lineageTokens)
      (createdRun ++ [.cancel 2 "bake", .persist 1])).isSome = true := rfl
  rcases Option.isSome_iff_exists.mp hsome with ⟨s', hs'⟩
  rcases (exec_append _ _ _ _ _).mp hs' with ⟨s, hs, hrest⟩
  exact ⟨s, s', hs, hrest, later_of_calls ⟨none⟩ s s' _ hrest⟩

end Concurrent

end Jobs

end DccMcp
