import DccMcp.Job.Concurrent

/-!
# The Persistence Writer and its Latch

The writer as it shares its circuit: job mutations, retention prunes, a
worker that does one command at a time, shutdown, and whoever else may
disable persistence by hand. Each of them locks the circuit for one
transaction only. Between asking the circuit and telling it the result of a
storage call, everybody else may have used it.

A request first passes the gate, which asks the circuit, and is then put into
the bounded queue. Depending on the mode and on the request the caller waits
for the worker, waits for a bounded time, or goes on. What a job or a cutoff
holds is read by the backend alone, so the commands here carry only who waits
for them.

The circuit keeps its reason in one field. A failed or late prune writes that
field whatever it held before, and `retention_prune_failed` is the one reason
a later prune may clear. So the latch holds for the runs in which no prune
fails on a circuit that another reason has opened. The count of failed writes
needs no such condition: it is read off the outcomes in every run.

## Main definitions

* `State`, `init`, `Action`, `step`: The machine.
* `DisabledOtherwise`: The circuit is open, and not because of a prune.
* `RepeatedErrors`: The newest outcomes are the same failed write.
* `Clean`: The step does not overwrite another reason by that of a prune.

## Theorems

* `persistence_latches`: The latch and the count, in every clean run.
-/

namespace DccMcp

namespace Jobs

namespace Retention

open Machine
open Concurrent (CallId queueCapacity recordResult)

/-- What a caller asks the writer for. -/
inductive Request
  | put
  | deleteOlderThan
  | deleteOlderThanBlocking
  deriving DecidableEq

/-- `PersistenceCommand`, with the call that waits for it. -/
inductive Command
  | put (completed : Option CallId)
  | deleteOlderThan (completed : Option CallId)
  | shutdown

/-- Where a call of the writer is. A prune is answered with a flag. -/
inductive CallPhase
  | notCalled
  /-- Behind the gate, with the circuit asked and nothing sent yet. -/
  | entering (request : Request)
  /-- Waiting for the answer of the worker. -/
  | awaiting (request : Request)
  | finished (answer : Option Bool)

/-- Where the worker is. -/
inductive WorkerPhase
  | idle
  /-- `persist_one`, before it asks the circuit. -/
  | checking (completed : Option CallId)
  | storing (completed : Option CallId)
  /-- `persist_one`, before it locks the circuit again. -/
  | recording (completed : Option CallId) (error : Option JobStorageError)
  | pruneChecking (completed : Option CallId)
  | pruning (completed : Option CallId)
  | pruneRecording (completed : Option CallId) (error : Option JobStorageError)
  | answering (completed : Option CallId) (answer : Option Bool)
  | stopped

/-- What the circuit is told. A prune that succeeds on a closed circuit tells
    it nothing. -/
inductive Outcome
  | wrote
  | failed (text : String)
  | recovered
  | disabled (kind : String)
  deriving DecidableEq

/-- The writer, its worker, and its callers. -/
structure State where
  circuit : PersistenceCircuit
  closing : Bool
  gate : Option CallId
  queue : List Command
  worker : WorkerPhase
  calls : CallId → CallPhase
  /-- The outcomes, newest first. No step looks at them. -/
  log : List Outcome

/-- The atomic pieces of the callers, of the worker, and of the shutdown. -/
inductive Action
  | enter (i : CallId) (request : Request)
  | send (i : CallId)
  | timeout (i : CallId)
  | hangUp (i : CallId)
  | close
  | drainMarker
  | disable (kind : String)
  | workerTake
  | workerCheck
  | workerStore (error : Option JobStorageError)
  | workerRecord
  | workerAnswer
  | workerPanic

/-- A new writer on a healthy backend. -/
def init : State where
  circuit := .fresh
  closing := false
  gate := none
  queue := []
  worker := .idle
  calls _ := .notCalled
  log := []

def State.setCall (s : State) (i : CallId) (phase : CallPhase) : State :=
  { s with calls := Function.update s.calls i phase }

/-- `PersistenceWriter::disable`, and `disable_persistence` of the manager. -/
def State.disable (s : State) (kind : String) : State :=
  { s with circuit := (s.circuit.disable kind).2, log := .disabled kind :: s.log }

/-- What the gate asks the circuit for a request. -/
def admits (circuit : PersistenceCircuit) : Request → Bool
  | .put => circuit.canWrite
  | _ => circuit.canWrite || circuit.canRetryRetention

/-- The answer of a request that did not succeed. -/
def refused : Request → Option Bool
  | .put => none
  | _ => some false

/-- Whether the caller of a request waits for the worker. -/
def waits (waitForCompletion : Bool) : Request → Bool
  | .deleteOlderThanBlocking => true
  | _ => waitForCompletion

/-- Whether a request is sent with `send` and not with `try_send`. -/
def blocks (waitForCompletion : Bool) : Request → Bool
  | .deleteOlderThanBlocking => false
  | _ => waitForCompletion

/-- The command a request is sent as. -/
def Request.command (completed : Option CallId) : Request → Command
  | .put => .put completed
  | _ => .deleteOlderThan completed

/-- `sender.send` and `sender.try_send` with what follows an error. -/
def sendStep (waitForCompletion : Bool) (s : State) (i : CallId) (request : Request) :
    Option State :=
  let released := { s with gate := none }
  match s.worker with
  | .stopped => some ((released.disable "worker_unavailable").setCall i (.finished (refused request)))
  | _ =>
    if s.queue.length < queueCapacity then
      if waits waitForCompletion request then
        some { released.setCall i (.awaiting request) with
          queue := s.queue ++ [request.command (some i)] }
      else
        some { released.setCall i (.finished (refused request)) with
          queue := s.queue ++ [request.command none] }
    -- A full queue blocks one kind of sender and fails the other.
    else if blocks waitForCompletion request then none
    else some ((released.disable "queue_full").setCall i (.finished (refused request)))

/-- The steps of the callers and of the shutdown. -/
def callStep (waitForCompletion : Bool) (s : State) : Action → Option State
  | .enter i request =>
    match s.calls i, s.gate with
    | .notCalled, none =>
      if !s.closing && admits s.circuit request then
        some { s.setCall i (.entering request) with gate := some i }
      else some (s.setCall i (.finished (refused request)))
    | _, _ => none
  | .send i =>
    match s.calls i with
    | .entering request => sendStep waitForCompletion s i request
    | _ => none
  | .timeout i =>
    match s.calls i, s.worker with
    -- The worker that hung up is noticed before the time is over.
    | _, .stopped => none
    | .awaiting .deleteOlderThanBlocking, _ =>
      some ((s.disable "retention_prune_failed").setCall i (.finished (some false)))
    | _, _ => none
  | .hangUp i =>
    match s.calls i, s.worker with
    | .awaiting request, .stopped =>
      some ((s.disable "worker_unavailable").setCall i (.finished (refused request)))
    | _, _ => none
  | .close =>
    match s.gate with
    | none => some { s with closing := true }
    | some _ => none
  | .drainMarker =>
    match s.worker with
    | .stopped => none
    | _ =>
      if s.closing && decide (s.queue.length < queueCapacity) then
        some { s with queue := s.queue ++ [.shutdown] }
      else none
  | .disable kind => some (s.disable kind)
  | _ => none

/-- What the circuit is told about a write. -/
def Outcome.ofWrite : Option JobStorageError → Outcome
  | none => .wrote
  | some error => .failed error.text

/-- The end of a prune: its result is reported to the circuit. -/
def recordPrune (s : State) (completed : Option CallId) : Option JobStorageError → State
  | none => { s with
      worker := .answering completed (some true)
      circuit := s.circuit.recordRetentionSuccess.2
      log := if s.circuit.canRetryRetention then .recovered :: s.log else s.log }
  | some _ =>
    { s.disable "retention_prune_failed" with worker := .answering completed (some false) }

/-- The steps of the worker. -/
def workerStep (s : State) : Action → Option State
  | .workerTake =>
    match s.worker, s.queue with
    | .idle, .put completed :: queue =>
      some { s with worker := .checking completed, queue := queue }
    | .idle, .deleteOlderThan completed :: queue =>
      some { s with worker := .pruneChecking completed, queue := queue }
    -- The commands behind the marker are dropped with the receiver.
    | .idle, .shutdown :: _ => some { s with worker := .stopped, queue := [] }
    | _, _ => none
  | .workerCheck =>
    match s.worker with
    | .checking completed =>
      some { s with
        worker := if s.circuit.canWrite then .storing completed else .answering completed none }
    | .pruneChecking completed =>
      some { s with
        worker := if s.circuit.canWrite || s.circuit.canRetryRetention then .pruning completed
          else .answering completed (some false) }
    | _ => none
  | .workerStore error =>
    match s.worker with
    | .storing completed => some { s with worker := .recording completed error }
    | .pruning completed => some { s with worker := .pruneRecording completed error }
    | _ => none
  | .workerRecord =>
    match s.worker with
    | .recording completed error =>
      some { s with
        worker := .answering completed none
        circuit := recordResult s.circuit error
        log := .ofWrite error :: s.log }
    | .pruneRecording completed error => some (recordPrune s completed error)
    | _ => none
  | .workerAnswer =>
    match s.worker with
    | .answering none _ => some { s with worker := .idle }
    | .answering (some i) answer =>
      match s.calls i with
      | .awaiting _ => some { s.setCall i (.finished answer) with worker := .idle }
      -- A caller whose time was over does not listen any more.
      | _ => some { s with worker := .idle }
    | _ => none
  | .workerPanic =>
    match s.worker with
    | .storing _ => some { s with worker := .stopped, queue := [] }
    | .pruning _ => some { s with worker := .stopped, queue := [] }
    | _ => none
  | _ => none

/-- One atomic piece. -/
def step (waitForCompletion : Bool) (s : State) (a : Action) : Option State :=
  match callStep waitForCompletion s a with
  | some s' => some s'
  | none => workerStep s a

/-- The circuit is open, and not because of a failed prune. -/
def DisabledOtherwise (circuit : PersistenceCircuit) : Prop :=
  circuit.disabled = true ∧ circuit.lastErrorKind ≠ some "retention_prune_failed"

instance (circuit : PersistenceCircuit) : Decidable (DisabledOtherwise circuit) :=
  inferInstanceAs (Decidable (_ ∧ _))

/-- The circuit was opened by failed writes: only they leave a count. -/
def DisabledByErrors (circuit : PersistenceCircuit) : Prop :=
  circuit.disabled = true ∧ PersistenceCircuit.failureThreshold ≤ circuit.consecutiveFailures

/-- The newest outcomes are failed writes with one text. -/
def RepeatedErrors (n : Nat) (log : List Outcome) : Prop :=
  ∃ text, log.take n = List.replicate n (.failed text)

/-- The worker is about to report a failed prune. -/
def WorkerPhase.pruneFailed : WorkerPhase → Bool
  | .pruneRecording _ (some _) => true
  | _ => false

/-- The step does not give a circuit that is open for another reason the
    reason of a failed prune. -/
def Clean (s : State) : Action → Prop
  | .timeout _ => ¬ DisabledOtherwise s.circuit
  | .disable kind => kind = "retention_prune_failed" → ¬ DisabledOtherwise s.circuit
  | .workerRecord => s.worker.pruneFailed = true → ¬ DisabledOtherwise s.circuit
  | _ => True

instance (s : State) : (a : Action) → Decidable (Clean s a)
  | .timeout _ => inferInstanceAs (Decidable (¬ _))
  | .disable _ => inferInstanceAs (Decidable (_ → ¬ _))
  | .workerRecord => inferInstanceAs (Decidable (_ → ¬ _))
  | .enter _ _ | .send _ | .hangUp _ | .close | .drainMarker | .workerTake | .workerCheck
  | .workerStore _ | .workerAnswer | .workerPanic => isTrue trivial

/-! ## What a step tells the circuit -/

/-- A write has passed the circuit, and its result is not reported yet. -/
def WorkerPhase.InFlight : WorkerPhase → Prop
  | .storing _ => True
  | .recording _ _ => True
  | _ => False

/-- The transactions on the circuit, each with its outcome. -/
inductive Tells (s : State) (a : Action) (s' : State) : Prop
  | nothing (hcircuit : s'.circuit = s.circuit) (hlog : s'.log = s.log)
      (hworker : s'.worker.InFlight → s.worker.InFlight ∨ s.circuit.canWrite = true)
  | disable (kind : String)
      (hkind : kind = "retention_prune_failed" → Clean s a → ¬ DisabledOtherwise s.circuit)
      (hcircuit : s'.circuit = (s.circuit.disable kind).2)
      (hlog : s'.log = .disabled kind :: s.log)
  | write (error : Option JobStorageError) (hflight : s.worker.InFlight)
      (hcircuit : s'.circuit = recordResult s.circuit error)
      (hlog : s'.log = .ofWrite error :: s.log) (hworker : ¬ s'.worker.InFlight)
  | recover (hretry : s.circuit.canRetryRetention = true)
      (hcircuit : s'.circuit = s.circuit.recordRetentionSuccess.2)
      (hlog : s'.log = .recovered :: s.log)

variable (wait : Bool) (s s' : State) (a : Action) (circuit : PersistenceCircuit)

theorem tells_send (i : CallId) (request : Request) (h : sendStep wait s i request = some s') :
    Tells s (.send i) s' := by
  unfold sendStep at h
  -- A closed channel, then a full one; only these two tell the circuit.
  split at h
  · cases h
    exact .disable "worker_unavailable" (fun hkind => absurd hkind (by decide)) rfl rfl
  · split at h
    · split at h
      · cases h
        exact .nothing rfl rfl .inl
      · cases h
        exact .nothing rfl rfl .inl
    · split at h
      · cases h
      · cases h
        exact .disable "queue_full" (fun hkind => absurd hkind (by decide)) rfl rfl

theorem tells_call (h : callStep wait s a = some s') : Tells s a s' := by
  cases a with
  | enter i request =>
      -- A call only looks at the circuit before it sends.
      simp only [callStep] at h
      split at h
      · split at h
        · cases h
          exact .nothing rfl rfl .inl
        · cases h
          exact .nothing rfl rfl .inl
      · cases h
  | send i =>
      simp only [callStep] at h
      split at h
      · exact tells_send wait s s' i _ h
      · cases h
  | timeout i =>
      simp only [callStep] at h
      split at h
      · cases h
      · cases h
        -- A prune that is late counts as failed, whatever the reason was before.
        exact .disable "retention_prune_failed" (fun _ hclean => hclean) rfl rfl
      · cases h
  | hangUp i =>
      simp only [callStep] at h
      split at h
      · cases h
        exact .disable "worker_unavailable" (fun hkind => absurd hkind (by decide)) rfl rfl
      · cases h
  | close =>
      simp only [callStep] at h
      split at h
      · cases h
        exact .nothing rfl rfl .inl
      · cases h
  | drainMarker =>
      simp only [callStep] at h
      split at h
      · cases h
      · split at h
        · cases h
          exact .nothing rfl rfl .inl
        · cases h
  | disable kind =>
      simp only [callStep, Option.some.injEq] at h
      rw [← h]
      exact .disable kind (fun hkind hclean => hclean hkind) rfl rfl
  | _ => simp [callStep] at h

theorem tells_record (h : workerStep s .workerRecord = some s') : Tells s .workerRecord s' := by
  simp only [workerStep] at h
  split at h
  next completed error hworker =>
    cases h
    refine .write error ?_ rfl rfl (fun hflight => hflight)
    rw [hworker]
    trivial
  next completed error hworker =>
    cases error with
    | none =>
        cases h
        by_cases hretry : s.circuit.canRetryRetention = true
        -- This is the one way back to a closed circuit.
        · refine .recover hretry rfl ?_
          simp only [recordPrune, if_pos hretry]
        · refine .nothing ?_ ?_ (fun hflight => hflight.elim)
          · simp only [recordPrune, PersistenceCircuit.recordRetentionSuccess, if_neg hretry]
          · simp only [recordPrune, if_neg hretry]
    | some error =>
        cases h
        refine .disable "retention_prune_failed" (fun _ hclean => ?_) rfl rfl
        -- A failed prune overwrites the reason; the run is clean if none stood there.
        simp only [Clean, hworker] at hclean
        exact hclean rfl
  next => cases h

theorem tells_worker (h : workerStep s a = some s') : Tells s a s' := by
  cases a with
  | workerTake =>
      simp only [workerStep] at h
      split at h
      · cases h
        exact .nothing rfl rfl (fun hflight => hflight.elim)
      · cases h
        exact .nothing rfl rfl (fun hflight => hflight.elim)
      · cases h
        exact .nothing rfl rfl (fun hflight => hflight.elim)
      · cases h
  | workerCheck =>
      simp only [workerStep] at h
      split at h
      · cases h
        refine .nothing rfl rfl (fun hflight => ?_)
        -- The worker looks at the circuit and only then goes to the storage.
        by_cases hcan : s.circuit.canWrite = true
        · exact .inr hcan
        · simp only [if_neg hcan] at hflight
          exact hflight.elim
      · cases h
        refine .nothing rfl rfl (fun hflight => ?_)
        split at hflight
        · exact hflight.elim
        · exact hflight.elim
      · cases h
  | workerStore error =>
      simp only [workerStep] at h
      split at h
      next completed hworker =>
        cases h
        -- A write that is stored was under way already.
        refine .nothing rfl rfl (fun _ => .inl ?_)
        rw [hworker]
        trivial
      next =>
        cases h
        exact .nothing rfl rfl (fun hflight => hflight.elim)
      next => cases h
  | workerRecord => exact tells_record s s' h
  | workerAnswer =>
      simp only [workerStep] at h
      split at h
      · cases h
        exact .nothing rfl rfl (fun hflight => hflight.elim)
      · split at h
        · cases h
          exact .nothing rfl rfl (fun hflight => hflight.elim)
        · cases h
          exact .nothing rfl rfl (fun hflight => hflight.elim)
      · cases h
  | workerPanic =>
      simp only [workerStep] at h
      split at h
      · cases h
        exact .nothing rfl rfl (fun hflight => hflight.elim)
      · cases h
        exact .nothing rfl rfl (fun hflight => hflight.elim)
      · cases h
  | _ => simp [workerStep] at h

/-- Every step is one transaction on the circuit, or none. -/
theorem step_circuit (h : step wait s a = some s') : Tells s a s' := by
  unfold step at h
  split at h
  next hcall =>
    cases h
    exact tells_call wait s s' a hcall
  next => exact tells_worker s s' a h

/-! ## The latch -/

theorem canWrite_of_disabled (h : circuit.disabled = true) : circuit.canWrite = false := by
  rw [PersistenceCircuit.canWrite, h]
  exact Bool.and_false _

theorem recordResult_of_disabled (error : Option JobStorageError) (h : circuit.disabled = true) :
    recordResult circuit error = circuit := by
  unfold recordResult
  exact if_pos (canWrite_of_disabled circuit h)

/-- A clean step does not clear a reason that is not that of a prune. -/
theorem disabledOtherwise_step (hclean : Clean s a) (hstep : step wait s a = some s')
    (h : DisabledOtherwise s.circuit) :
    DisabledOtherwise s'.circuit := by
  -- Of the four transactions only two can touch the reason.
  cases step_circuit wait s s' a hstep with
  | nothing hcircuit => rwa [hcircuit]
  | disable kind hkind hcircuit =>
      rw [hcircuit]
      refine ⟨rfl, fun hsome => ?_⟩
      exact hkind (Option.some.inj hsome) hclean h
  | write error hflight hcircuit => rwa [hcircuit, recordResult_of_disabled _ _ h.1]
  | recover hretry =>
      simp only [PersistenceCircuit.canRetryRetention, Bool.and_eq_true, beq_iff_eq] at hretry
      exact absurd hretry.2 h.2

/-! ## The count -/

/-- How many of the newest outcomes are failed writes with this text. -/
def streak (text : String) : List Outcome → Nat
  | .failed other :: rest => if other = text then streak text rest + 1 else 0
  | _ => 0

theorem streak_failed (text : String) (log : List Outcome) :
    streak text (.failed text :: log) = streak text log + 1 := if_pos rfl

/-- Outcomes cannot start with two texts. -/
theorem streak_of_ne (text other : String) (log : List Outcome) (hne : other ≠ text)
    (hpos : 0 < streak text log) : streak other log = 0 := by
  unfold streak at hpos
  split at hpos
  next first rest =>
    split at hpos
    next heq =>
      subst heq
      exact if_neg (Ne.symm hne)
    next => exact absurd hpos (Nat.lt_irrefl 0)
  next => exact absurd hpos (Nat.lt_irrefl 0)

theorem take_eq_replicate_iff (text : String) (n : Nat) (log : List Outcome) :
    log.take n = List.replicate n (.failed text) ↔ n ≤ streak text log := by
  induction n generalizing log with
  | zero => simp only [List.take_zero, List.replicate_zero, Nat.zero_le]
  | succ n ih =>
      cases log with
      | nil =>
          simp [streak]
      | cons outcome rest =>
          rw [List.take_succ_cons, List.replicate_succ, List.cons.injEq, ih rest]
          -- The newest outcome continues the streak or ends it.
          by_cases hsame : outcome = .failed text
          · rw [hsame, streak_failed, Nat.succ_le_succ_iff]
            exact and_iff_right rfl
          · have hzero : streak text (outcome :: rest) = 0 := by
              unfold streak
              split
              next other rest' heq =>
                rw [List.cons.injEq] at heq
                refine if_neg (fun htext => hsame ?_)
                rw [heq.1, htext]
              next => rfl
            rw [hzero]
            exact ⟨fun h => absurd h.1 hsame, fun h => absurd h (Nat.not_succ_le_zero n)⟩

theorem repeatedErrors_iff (n : Nat) (log : List Outcome) :
    RepeatedErrors n log ↔ ∃ text, n ≤ streak text log :=
  exists_congr (fun text => take_eq_replicate_iff text n log)

/-- How the circuit and the outcomes agree. A write may come back after its
    circuit was disabled; the circuit ignores it, and no other write starts
    before a prune has closed the circuit again. -/
inductive Counted (s : State) : Prop
  | healthy (hcan : s.circuit.canWrite = true) (herror : s.circuit.lastError = none)
      (hcount : s.circuit.consecutiveFailures = 0) (hlog : ∀ text, streak text s.log = 0)
  | failing (text : String) (hcan : s.circuit.canWrite = true)
      (herror : s.circuit.lastError = some text)
      (hlog : streak text s.log = s.circuit.consecutiveFailures)
      (hpos : 0 < s.circuit.consecutiveFailures)
      (hlt : s.circuit.consecutiveFailures < PersistenceCircuit.failureThreshold)
  | tripped (text : String) (hdisabled : s.circuit.disabled = true)
      (hcount : s.circuit.consecutiveFailures = PersistenceCircuit.failureThreshold)
      (hlog : streak text s.log = PersistenceCircuit.failureThreshold)
      (hworker : ¬ s.worker.InFlight)
  | refusing (kind : String) (rest : List Outcome) (hdisabled : s.circuit.disabled = true)
      (hcount : s.circuit.consecutiveFailures = 0) (hlog : s.log = .disabled kind :: rest)
  | ignoring (outcome : Outcome) (kind : String) (rest : List Outcome)
      (hdisabled : s.circuit.disabled = true) (hcount : s.circuit.consecutiveFailures = 0)
      (hlog : s.log = outcome :: .disabled kind :: rest) (hworker : ¬ s.worker.InFlight)

theorem recordResult_success (h : circuit.canWrite = true) :
    recordResult circuit none = circuit.recordSuccess.2 := by
  unfold recordResult
  exact if_neg (by rw [h]; decide)

theorem recordResult_failure (error : JobStorageError) (h : circuit.canWrite = true) :
    recordResult circuit (some error) = (circuit.recordFailure error).2 := by
  unfold recordResult
  exact if_neg (by rw [h]; decide)

/-- A failed write on a closed circuit, with its new count. -/
theorem recordFailure_of_count (error : JobStorageError) (n : Nat)
    (hn : n = if circuit.lastError = some error.text
      then PersistenceCircuit.saturatingSucc circuit.consecutiveFailures else 1) :
    (circuit.recordFailure error).2 = { circuit with
      consecutiveFailures := n
      lastError := some error.text
      lastErrorKind := some (errorKind error)
      disabled := circuit.disabled || decide (PersistenceCircuit.failureThreshold ≤ n) } := by
  unfold PersistenceCircuit.recordFailure
  -- The same error counts on, another one starts again at one.
  by_cases hsame : circuit.lastError = some error.text
  · rw [if_pos hsame] at hn
    simp only [if_pos hsame, ← hn]
    by_cases hfull : PersistenceCircuit.failureThreshold ≤ n
    · simp [hsame, hfull]
    · simp [hsame, hfull]
  · rw [if_neg hsame] at hn
    subst hn
    have hsmall : ¬ PersistenceCircuit.failureThreshold ≤ 1 := by decide
    simp [if_neg hsame, hsmall]

theorem canWrite_iff :
    circuit.canWrite = true ↔ circuit.configured = true ∧ circuit.disabled = false := by
  simp [PersistenceCircuit.canWrite]

/-- A counted failure either keeps the circuit closed or opens it. -/
theorem counted_failure (error : JobStorageError) (n : Nat) (hcan : s.circuit.canWrite = true)
    (hn : n = if s.circuit.lastError = some error.text
      then PersistenceCircuit.saturatingSucc s.circuit.consecutiveFailures else 1)
    (hstreak : streak error.text s.log + 1 = n) (hle : n ≤ PersistenceCircuit.failureThreshold)
    (hcircuit : s'.circuit = recordResult s.circuit (some error))
    (hlog : s'.log = .failed error.text :: s.log) (hworker : ¬ s'.worker.InFlight) :
    Counted s' := by
  rw [recordResult_failure _ _ hcan, recordFailure_of_count _ _ n hn] at hcircuit
  rcases (canWrite_iff s.circuit).mp hcan with ⟨hconfigured, hdisabled⟩
  have hlog' : streak error.text s'.log = n := by rw [hlog, streak_failed, hstreak]
  -- The count reaches the threshold with this failure or stays below it.
  rcases Nat.lt_or_eq_of_le hle with hlt | heq
  · have hopen : ¬ PersistenceCircuit.failureThreshold ≤ n := Nat.not_le.mpr hlt
    refine .failing error.text ?_ ?_ ?_ ?_ ?_
    · rw [hcircuit, canWrite_iff]
      simp [hconfigured, hdisabled, hopen]
    · rw [hcircuit]
    · rw [hcircuit, hlog']
    · rw [hcircuit, ← hstreak]
      exact Nat.succ_pos _
    · rw [hcircuit]
      exact hlt
  · refine .tripped error.text ?_ ?_ (hlog'.trans heq) hworker
    · rw [hcircuit]
      simp [heq]
    · rw [hcircuit]
      exact heq

/-- A recorded success leaves no count. -/
theorem counted_success (hcan : s.circuit.canWrite = true)
    (hcircuit : s'.circuit = recordResult s.circuit none) (hlog : s'.log = .wrote :: s.log) :
    Counted s' := by
  rw [recordResult_success _ hcan] at hcircuit
  refine .healthy ?_ ?_ ?_ (fun text => ?_)
  · rw [hcircuit, canWrite_iff]
    exact (canWrite_iff s.circuit).mp hcan
  · rw [hcircuit]
    rfl
  · rw [hcircuit]
    rfl
  · rw [hlog]
    rfl

/-- A reported write, case by case of what the circuit was. -/
theorem counted_write (error : Option JobStorageError) (h : Counted s) (hflight : s.worker.InFlight)
    (hcircuit : s'.circuit = recordResult s.circuit error)
    (hlog : s'.log = .ofWrite error :: s.log) (hworker : ¬ s'.worker.InFlight) : Counted s' := by
  cases h with
  | healthy hcan herror hcount hstreak =>
      cases error with
      | none => exact counted_success s s' hcan hcircuit hlog
      | some error =>
          refine counted_failure s s' error 1 hcan ?_ ?_ (by decide) hcircuit hlog hworker
          -- There was no error before this one.
          · rw [herror, if_neg (by simp)]
          · rw [hstreak]
  | failing text hcan herror hstreak hpos hlt =>
      cases error with
      | none => exact counted_success s s' hcan hcircuit hlog
      | some error =>
          by_cases hsame : error.text = text
          · -- The counter is far below the point where it would saturate.
            have hsucc : PersistenceCircuit.saturatingSucc s.circuit.consecutiveFailures
                = s.circuit.consecutiveFailures + 1 := by
              unfold PersistenceCircuit.failureThreshold at hlt
              unfold PersistenceCircuit.saturatingSucc
              omega
            refine counted_failure s s' error (s.circuit.consecutiveFailures + 1) hcan ?_ ?_ hlt
              hcircuit hlog hworker
            · rw [herror, hsame, if_pos rfl, hsucc]
            · rw [hsame, hstreak]
          · refine counted_failure s s' error 1 hcan ?_ ?_ (by decide) hcircuit hlog hworker
            · rw [herror, if_neg (fun heq => hsame (Option.some.inj heq).symm)]
            · rw [streak_of_ne text error.text s.log hsame (by omega)]
  -- A circuit that has tripped has no write under way.
  | tripped text hdisabled hcount hstreak hidle => exact absurd hflight hidle
  -- The write started before the circuit was disabled, and is ignored.
  | refusing kind rest hdisabled hcount hrest =>
      rw [recordResult_of_disabled _ _ hdisabled] at hcircuit
      refine .ignoring (.ofWrite error) kind rest ?_ ?_ (by rw [hlog, hrest]) hworker
      · rw [hcircuit, hdisabled]
      · rw [hcircuit, hcount]
  | ignoring outcome kind rest hdisabled hcount hrest hidle => exact absurd hflight hidle

/-- A step that tells the circuit nothing. Only a closed circuit lets a write
    pass, so the writes that are under way stay accounted for. -/
theorem counted_nothing (h : Counted s) (hcircuit : s'.circuit = s.circuit) (hlog : s'.log = s.log)
    (hworker : s'.worker.InFlight → s.worker.InFlight ∨ s.circuit.canWrite = true) :
    Counted s' := by
  -- A disabled circuit lets no new write start.
  have hidle : s.circuit.disabled = true → ¬ s.worker.InFlight → ¬ s'.worker.InFlight := by
    intro hdisabled hnot hflight
    rcases hworker hflight with hflight | hcan
    · exact hnot hflight
    · rw [canWrite_of_disabled _ hdisabled] at hcan
      exact Bool.false_ne_true hcan
  cases h with
  | healthy hcan herror hcount hstreak =>
      refine .healthy ?_ ?_ ?_ ?_
      · rwa [hcircuit]
      · rwa [hcircuit]
      · rwa [hcircuit]
      · rwa [hlog]
  | failing text hcan herror hstreak hpos hlt =>
      refine .failing text ?_ ?_ ?_ ?_ ?_
      · rwa [hcircuit]
      · rwa [hcircuit]
      · rwa [hcircuit, hlog]
      · rwa [hcircuit]
      · rwa [hcircuit]
  | tripped text hdisabled hcount hstreak hnot =>
      refine .tripped text ?_ ?_ ?_ (hidle hdisabled hnot)
      · rwa [hcircuit]
      · rwa [hcircuit]
      · rwa [hlog]
  | refusing kind rest hdisabled hcount hrest =>
      refine .refusing kind rest ?_ ?_ ?_
      · rwa [hcircuit]
      · rwa [hcircuit]
      · rwa [hlog]
  | ignoring outcome kind rest hdisabled hcount hrest hnot =>
      refine .ignoring outcome kind rest ?_ ?_ ?_ (hidle hdisabled hnot)
      · rwa [hcircuit]
      · rwa [hcircuit]
      · rwa [hlog]

theorem counted_step (h : Counted s) (hstep : step wait s a = some s') : Counted s' := by
  cases step_circuit wait s s' a hstep with
  | nothing hcircuit hlog hworker => exact counted_nothing s s' h hcircuit hlog hworker
  | disable kind hkind hcircuit hlog =>
      refine .refusing kind s.log ?_ ?_ hlog
      · rw [hcircuit]
        rfl
      · rw [hcircuit]
        rfl
  | write error hflight hcircuit hlog hworker =>
      exact counted_write s s' error h hflight hcircuit hlog hworker
  | recover hretry hcircuit hlog =>
      -- A prune that succeeds starts the count anew.
      have hconfigured : s.circuit.configured = true := by
        simp only [PersistenceCircuit.canRetryRetention, Bool.and_eq_true] at hretry
        exact hretry.1.1
      rw [PersistenceCircuit.recordRetentionSuccess, if_pos hretry] at hcircuit
      refine .healthy ?_ ?_ ?_ (fun text => ?_)
      · rw [hcircuit, canWrite_iff]
        exact ⟨hconfigured, rfl⟩
      · rw [hcircuit]
      · rw [hcircuit]
      · rw [hlog]
        rfl

/-- The circuit counts the outcomes, in every run. -/
theorem counted_of_run (as : List Action) (s : State) (hrun : exec (step wait) init as = some s) :
    Counted s :=
  exec_invariant (step wait) Counted (fun t a u ht hu => counted_step wait t u a ht hu) init s as
    (.healthy rfl rfl rfl (fun _ => rfl)) hrun

/-- Failed writes have opened the circuit exactly when the newest outcomes
    repeat one error as often as the threshold says. -/
theorem disabledByErrors_iff (s : State) (h : Counted s) :
    DisabledByErrors s.circuit ↔ RepeatedErrors PersistenceCircuit.failureThreshold s.log := by
  have hpos : 0 < PersistenceCircuit.failureThreshold := by decide
  rw [repeatedErrors_iff]
  -- In each case the count and the newest outcomes say the same.
  cases h with
  | healthy hcan herror hcount hlog =>
      rcases (canWrite_iff s.circuit).mp hcan with ⟨_, hdisabled⟩
      constructor
      · rintro ⟨hopen, _⟩
        exact absurd (hdisabled.symm.trans hopen) Bool.false_ne_true
      · rintro ⟨text, htext⟩
        rw [hlog text] at htext
        exact absurd htext (Nat.not_le.mpr hpos)
  | failing text hcan herror hlog hcount hlt =>
      rcases (canWrite_iff s.circuit).mp hcan with ⟨_, hdisabled⟩
      constructor
      · rintro ⟨hopen, _⟩
        exact absurd (hdisabled.symm.trans hopen) Bool.false_ne_true
      · rintro ⟨other, hother⟩
        by_cases hsame : other = text
        · rw [hsame, hlog] at hother
          exact absurd hother (Nat.not_le.mpr hlt)
        · rw [streak_of_ne text other s.log hsame (by omega)] at hother
          exact absurd hother (Nat.not_le.mpr hpos)
  | tripped text hdisabled hcount hlog hworker =>
      exact iff_of_true ⟨hdisabled, Nat.le_of_eq hcount.symm⟩ ⟨text, Nat.le_of_eq hlog.symm⟩
  | refusing kind rest hdisabled hcount hlog =>
      refine iff_of_false (fun herrors => ?_) ?_
      · exact absurd herrors.2 (by rw [hcount]; decide)
      · rintro ⟨text, htext⟩
        rw [hlog] at htext
        exact absurd htext (Nat.not_le.mpr hpos)
  | ignoring outcome kind rest hdisabled hcount hlog hworker =>
      refine iff_of_false (fun herrors => ?_) ?_
      · exact absurd herrors.2 (by rw [hcount]; decide)
      · rintro ⟨text, htext⟩
        -- The second outcome is no failed write.
        have htwo : streak text s.log ≤ 1 := by
          rw [hlog]
          unfold streak
          split
          next other rest' heq =>
            rw [List.cons.injEq] at heq
            rw [← heq.2]
            split
            · exact le_refl 1
            · exact Nat.zero_le 1
          next => exact Nat.zero_le 1
        exact absurd (le_trans htext htwo) (by decide)

/-- Persistence latches. In a run whose steps are clean, a circuit that was
    opened for another reason than a failed prune never lets a write pass
    again. And failed writes have opened it exactly when as many of them as
    the threshold says came in a row, with one text and no success between. -/
theorem persistence_latches (wait : Bool) (as bs : List Action) (s t : State)
    (hclean : Along (step wait) Clean init (as ++ bs))
    (hs : exec (step wait) init as = some s) (ht : exec (step wait) s bs = some t) :
    (DisabledOtherwise s.circuit → t.circuit.canWrite = false) ∧
      (DisabledByErrors t.circuit ↔
        RepeatedErrors PersistenceCircuit.failureThreshold t.log) := by
  have hrun : exec (step wait) init (as ++ bs) = some t :=
    (exec_append (step wait) init t as bs).mpr ⟨s, hs, ht⟩
  refine ⟨fun hopen => ?_, disabledByErrors_iff t (counted_of_run wait (as ++ bs) t hrun)⟩
  have hrest := ((along_append (step wait) Clean init as bs).mp hclean).2 s hs
  have hlatched := exec_history (step wait) Clean (fun _ u => DisabledOtherwise u.circuit) s hopen
    (fun _ u a v hu ha hv => disabledOtherwise_step wait u v a ha hv hu) bs t hrest ht
  exact canWrite_of_disabled t.circuit hlatched.1

/-- One round of the worker, with the answer of the backend. -/
def workerRound (error : Option JobStorageError) : List Action :=
  [.workerTake, .workerCheck, .workerStore error, .workerRecord, .workerAnswer]

/-- Three writes and a prune are queued, and the three writes fail alike. -/
def failingWrites : List Action :=
  [.enter 0 .put, .send 0, .enter 1 .put, .send 1, .enter 2 .put, .send 2,
    .enter 3 .deleteOlderThanBlocking, .send 3] ++
    (workerRound (some (.backend "disk I/O error")) ++
      (workerRound (some (.backend "disk I/O error")) ++
        workerRound (some (.backend "disk I/O error"))))

/-- The circuit after three failed writes. -/
def trippedCircuit : PersistenceCircuit where
  configured := true
  disabled := true
  consecutiveFailures := 3
  lastError := some "job storage backend error: disk I/O error"
  lastErrorKind := some "backend"

theorem failingWrites_circuit :
    (exec (step false) init failingWrites).map State.circuit = some trippedCircuit := by
  decide +kernel

/-- The worker answers the queued prune, and the failed writes keep the
    circuit open. -/
theorem persistence_latches_prune :
    ∃ s t, exec (step false) init failingWrites = some s ∧
      exec (step false) s [.workerTake, .workerCheck, .workerAnswer] = some t ∧
      DisabledOtherwise s.circuit ∧ t.circuit.canWrite = false ∧
      (DisabledByErrors t.circuit ↔
        RepeatedErrors PersistenceCircuit.failureThreshold t.log) := by
  have hrun : (exec (step false) init
      (failingWrites ++ [.workerTake, .workerCheck, .workerAnswer])).isSome = true := by
    decide +kernel
  rcases Option.isSome_iff_exists.mp hrun with ⟨t, ht⟩
  rcases (exec_append (step false) init t failingWrites _).mp ht with ⟨s, hs, hst⟩
  have hcircuit : s.circuit = trippedCircuit := by
    have h := failingWrites_circuit
    rw [hs] at h
    exact Option.some.inj h
  have hopen : DisabledOtherwise s.circuit := by
    rw [hcircuit]
    decide
  have hclean : Along (step false) Clean init
      (failingWrites ++ [.workerTake, .workerCheck, .workerAnswer]) := by
    decide +kernel
  have hlatch := persistence_latches false failingWrites _ s t hclean hs hst
  exact ⟨s, t, hs, hst, hopen, hlatch.1 hopen, hlatch.2⟩

/-- The prune that was queued behind the failing writes comes too late for
    its caller. Its failure replaces the reason of the latch, and the same
    prune then succeeds and lets writes pass again. -/
theorem persistence_unlatched :
    ∃ s t, exec (step false) init failingWrites = some s ∧
      exec (step false) s (.timeout 3 :: workerRound none) = some t ∧
      DisabledOtherwise s.circuit ∧ DisabledByErrors s.circuit ∧ t.circuit.canWrite = true := by
  have hrun : (exec (step false) init (failingWrites ++ .timeout 3 :: workerRound none)).map
      State.circuit = some .fresh := by
    decide +kernel
  rcases Option.map_eq_some_iff.mp hrun with ⟨t, ht, hfresh⟩
  rcases (exec_append (step false) init t failingWrites _).mp ht with ⟨s, hs, hst⟩
  have hcircuit : s.circuit = trippedCircuit := by
    have h := failingWrites_circuit
    rw [hs] at h
    exact Option.some.inj h
  refine ⟨s, t, hs, hst, ?_, ?_, ?_⟩
  · rw [hcircuit]
    decide
  · rw [hcircuit]
    exact ⟨rfl, le_refl 3⟩
  · rw [hfresh]
    rfl

end Retention

end Jobs

end DccMcp
