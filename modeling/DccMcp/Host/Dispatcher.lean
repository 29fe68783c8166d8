import DccMcp.Lib.Ledger
import DccMcp.Lib.Machine
import Mathlib.Algebra.Group.Nat.Defs
import Mathlib.Algebra.Group.Int.Defs

/-!
# The Host Queue Dispatcher

Jobs are posted from any thread, wait in a channel, and are run by the host's
main thread when it calls `tick`. The dispatcher is a channel, a lock on its
receiving end, a pending counter, a shutdown flag and two books of times, and
every one of them is updated on its own. This file is the interleaving of all
that: a call of `post`, `tick`, `tick_blocking` or `shutdown` is a thread with
a phase, and an action is the next atomic step of one thread.

A call is a number, and so is a job, which is the call of `post` that made
it. What a call was given is part of the configuration. The phases of a call
are the places in its function between two atomic operations: a load, a
store, a `fetch_add`, a `send`, a `try_recv`, or a short critical section of
its own. Waiting is an action that is not enabled.

Some of the state is there for the proofs only. The ledger records which job
entered the channel, who took it out and who ran or cancelled it, and the
book of submit times also names the job an entry was made for. No step looks
at any of this.

The pending counter is a machine word. It is kept here as the exact integer,
and what a load sees is that integer modulo the word size, so a counter below
zero is a load that wrapped around. The channel is never closed, since its
receiving end lives as long as the dispatcher, so a `send` does not fail.

## Main definitions

* `Config`: Capacity, and the arguments of the calls.
* `EnqueuePhase`, `TickPhase`, `ShutdownPhase`: Where a call is.
* `State`, `init`: The shared state with all calls.
* `Action`, `step`: The atomic steps.
* `Ticked`, `ShutDown`: Everything a step of a tick or of a shutdown does.
* `State.waiting`, `State.held`, `State.jobsRun`, `State.jobsRunBy`,
  `State.jobsCancelled`, `State.ReportedCancelled`: Views of the state.

## Theorems

* `ticked_of_tickStep`, `shutDown_of_shutdownStep`: The steps, inverted.
* `step_cases`: A step belongs to one of the three functions.
* `enqueueStep_frame`, `tickStep_frame`, `shutdownStep_frame`: What the steps
  of one function leave alone.
* `locked_of_run`: At most one call at a time is in a drain.
-/

namespace DccMcp

namespace Host

open Machine

/-- A call of `post`, and the job it made. -/
abbrev JobId := Nat

/-- A call of `tick` or `tick_blocking`. -/
abbrev TickId := Nat

/-- A call of `shutdown`. -/
abbrev ShutdownId := Nat

/-- A point in time, in milliseconds. -/
abbrev Instant := Nat

/-- The dispatcher's capacity, `0` if unbounded, and the budget of each tick. -/
structure Config where
  capacity : Nat
  maxJobs : TickId → Nat

/-- Those who take jobs out of the channel. -/
inductive Party
  | tick (t : TickId)
  | shutdown (k : ShutdownId)
  deriving DecidableEq

/-- The party is a tick. -/
def Party.isTick : Party → Bool
  | .tick _ => true
  | .shutdown _ => false

structure Enqueued where
  job : JobId
  submittedAt : Instant
  deriving DecidableEq

structure TickOutcome where
  jobsExecuted : Nat
  jobsPanicked : Nat
  morePending : Bool
  deriving DecidableEq

/-- Where a call of `post` is. -/
inductive EnqueuePhase
  | notCalled
  /-- The shutdown flag was not set. -/
  | admitted
  /-- There was room. -/
  | withinCapacity
  /-- There was no room; the rejection is not counted yet. -/
  | overCapacity
  /-- The rejection is counted; the depth for the error is not read yet. -/
  | rejecting
  /-- The job is in the channel; the counter is not incremented yet. -/
  | sent
  /-- `total_enqueued` is not incremented yet. -/
  | counted
  /-- The submit time is not written down yet. -/
  | totalled
  | accepted
  | refusedShutdown
  | refusedOverloaded (depth capacity : Nat)
  deriving DecidableEq

/-- Where a drain is: in its loop with some iterations left, at the peek
    behind the loop, or done with the answer whether there was more. -/
inductive DrainStage
  | loop (left : Nat)
  | peek
  | done (more : Bool)
  deriving DecidableEq

/-- A drain: its clock reading, the batch so far, and where it is. -/
structure Drain where
  now : Instant
  out : List JobId
  stage : DrainStage
  deriving DecidableEq

/-- Where a call of `tick` or `tick_blocking` is. -/
inductive TickPhase
  | notCalled
  /-- Before the `try_lock` of `drain_ready`. -/
  | called
  /-- Before the `lock().await` of `drain_awaiting`. -/
  | waiting
  /-- Holds the lock and waits for a first job. -/
  | awaiting
  /-- Holds the lock, before the next `try_recv` or the `fetch_sub`. -/
  | draining (d : Drain)
  /-- Received a job, before the entry of the submit times is popped. -/
  | popping (d : Drain) (env : Enqueued)
  /-- Before the wait time is recorded. -/
  | sampling (d : Drain) (env : Enqueued)
  /-- Before `total_dequeued` is incremented. -/
  | counting (d : Drain)
  /-- Before the lock is released. -/
  | unlocking (out : List JobId) (more : Bool)
  /-- Runs the batch. -/
  | running (batch : List JobId) (executed panicked : Nat) (more : Bool)
  | finished (outcome : TickOutcome)
  deriving DecidableEq

/-- Where a call of `shutdown` is. -/
inductive ShutdownPhase
  | notCalled
  | spinning (attempts : Nat)
  | draining
  /-- Received a job, before its caller is told. -/
  | cancelling (job : JobId)
  /-- Before the counter is decremented. -/
  | subtracting
  /-- Found the channel empty, before the submit times are cleared. -/
  | clearing
  /-- Before the lock is released. -/
  | unlocking
  | returned
  | gaveUp
  deriving DecidableEq

/-- The shared state, with the phases of all calls. -/
structure State where
  channel : List Enqueued
  lock : Option Party
  pending : Int
  shutdown : Bool
  totalEnqueued : Nat
  totalDequeued : Nat
  totalRejected : Nat
  submitTimes : List (JobId × Instant)
  waitSamples : List Nat
  enqueues : JobId → EnqueuePhase
  ticks : TickId → TickPhase
  shutdowns : ShutdownId → ShutdownPhase
  ledger : Ledger Party JobId

/-- `Shared::with_capacity`. -/
def init : State where
  channel := []
  lock := none
  pending := 0
  shutdown := false
  totalEnqueued := 0
  totalDequeued := 0
  totalRejected := 0
  submitTimes := []
  waitSamples := []
  enqueues _ := .notCalled
  ticks _ := .notCalled
  shutdowns _ := .notCalled
  ledger := .empty

/-- The atomic steps of the calls. -/
inductive Action
  | checkShutdown (j : JobId)
  | checkCapacity (j : JobId)
  | countRejected (j : JobId)
  | loadDepth (j : JobId)
  | send (j : JobId) (now : Instant)
  | countPending (j : JobId)
  | countTotal (j : JobId)
  | pushSubmitTime (j : JobId) (now : Instant)
  | callTick (t : TickId)
  | callTickBlocking (t : TickId)
  | tryLock (t : TickId) (now : Instant)
  | awaitLock (t : TickId)
  | awaitFirst (t : TickId) (now : Instant)
  | awaitTimeout (t : TickId)
  | drainNext (t : TickId)
  | popSubmitTime (t : TickId)
  | observeWait (t : TickId)
  | countDequeued (t : TickId)
  | subPending (t : TickId)
  | unlockTick (t : TickId)
  | runJob (t : TickId) (panicked : Bool)
  | returnTick (t : TickId)
  | setShutdown (k : ShutdownId)
  | tryLockShutdown (k : ShutdownId)
  | drainShutdown (k : ShutdownId)
  | cancelJob (k : ShutdownId)
  | subOne (k : ShutdownId)
  | clearSubmitTimes (k : ShutdownId)
  | unlockShutdown (k : ShutdownId)

namespace State

/-- What a load of the pending counter sees. -/
def pendingLoad (s : State) : Nat := (s.pending % 2 ^ 64).toNat

/-- `fetch_add(1)` on a 64-bit counter. -/
def increment (n : Nat) : Nat := (n + 1) % 2 ^ 64

def setEnqueue (s : State) (j : JobId) (phase : EnqueuePhase) : State :=
  { s with enqueues := Function.update s.enqueues j phase }

def setTick (s : State) (t : TickId) (phase : TickPhase) : State :=
  { s with ticks := Function.update s.ticks t phase }

def setShutdownPhase (s : State) (k : ShutdownId) (phase : ShutdownPhase) : State :=
  { s with shutdowns := Function.update s.shutdowns k phase }

end State

/-- `WaitTimeSamples::CAPACITY`. -/
def waitSampleCapacity : Nat := 256

def observe (samples : List Nat) (waitMs : Nat) : List Nat :=
  (if samples.length = waitSampleCapacity then samples.tail else samples) ++ [waitMs]

/-- The steps of `post` and `enqueue`. -/
def enqueueStep (cfg : Config) (s : State) : Action → Option State
  | .checkShutdown j =>
    match s.enqueues j with
    | .notCalled =>
      some (s.setEnqueue j (if s.shutdown then .refusedShutdown else .admitted))
    | _ => none
  | .checkCapacity j =>
    match s.enqueues j with
    | .admitted =>
      some (s.setEnqueue j
        (if 0 < cfg.capacity ∧ cfg.capacity ≤ s.pendingLoad then .overCapacity
          else .withinCapacity))
    | _ => none
  | .countRejected j =>
    match s.enqueues j with
    | .overCapacity =>
      some { s.setEnqueue j .rejecting with totalRejected := State.increment s.totalRejected }
    | _ => none
  | .loadDepth j =>
    match s.enqueues j with
    | .rejecting => some (s.setEnqueue j (.refusedOverloaded s.pendingLoad cfg.capacity))
    | _ => none
  | .send j now =>
    match s.enqueues j with
    | .withinCapacity =>
      some { s.setEnqueue j .sent with
        channel := s.channel ++ [⟨j, now⟩], ledger := s.ledger.enter j }
    | _ => none
  | .countPending j =>
    match s.enqueues j with
    | .sent => some { s.setEnqueue j .counted with pending := s.pending + 1 }
    | _ => none
  | .countTotal j =>
    match s.enqueues j with
    | .counted =>
      some { s.setEnqueue j .totalled with totalEnqueued := State.increment s.totalEnqueued }
    | _ => none
  | .pushSubmitTime j now =>
    match s.enqueues j with
    | .totalled => some { s.setEnqueue j .accepted with submitTimes := s.submitTimes ++ [(j, now)] }
    | _ => none
  | _ => none

/-- One `try_recv` of a drain, or the step from its loop to its peek. -/
def drainNext (s : State) (t : TickId) (d : Drain) : Option State :=
  match d.stage with
  | .loop 0 => some (s.setTick t (.draining { d with stage := .peek }))
  | .loop (left + 1) =>
    match s.channel with
    | [] => some (s.setTick t (.draining { d with stage := .peek }))
    | env :: rest =>
      some { s.setTick t (.popping { d with out := d.out ++ [env.job], stage := .loop left } env)
        with channel := rest, ledger := s.ledger.take (.tick t) env.job }
  | .peek =>
    match s.channel with
    | [] => some (s.setTick t (.draining { d with stage := .done false }))
    | env :: rest =>
      some { s.setTick t (.popping { d with out := d.out ++ [env.job], stage := .done true } env)
        with channel := rest, ledger := s.ledger.take (.tick t) env.job }
  | .done _ => none

/-- The steps of `tick` and `tick_blocking`, with `drain_ready`,
    `drain_awaiting` and `observe_dequeue`. -/
def tickStep (cfg : Config) (s : State) : Action → Option State
  | .callTick t =>
    match s.ticks t with
    | .notCalled =>
      some (s.setTick t (if cfg.maxJobs t = 0 then .finished ⟨0, 0, false⟩ else .called))
    | _ => none
  | .callTickBlocking t =>
    match s.ticks t with
    | .notCalled =>
      some (s.setTick t
        (if cfg.maxJobs t = 0 then .finished ⟨0, 0, false⟩
          else if 0 < s.pendingLoad then .called
          else .waiting))
    | _ => none
  | .tryLock t now =>
    match s.ticks t with
    | .called =>
      match s.lock with
      | some _ => some (s.setTick t (.finished ⟨0, 0, true⟩))
      | none =>
        some { s.setTick t (.draining ⟨now, [], .loop (cfg.maxJobs t)⟩) with lock := some (.tick t) }
    | _ => none
  | .awaitLock t =>
    match s.ticks t, s.lock with
    | .waiting, none => some { s.setTick t .awaiting with lock := some (.tick t) }
    | _, _ => none
  | .awaitFirst t now =>
    match s.ticks t, s.channel with
    | .awaiting, env :: rest =>
      some { s.setTick t (.popping ⟨now, [env.job], .loop (cfg.maxJobs t - 1)⟩ env)
        with channel := rest, ledger := s.ledger.take (.tick t) env.job }
    | _, _ => none
  | .awaitTimeout t =>
    match s.ticks t with
    | .awaiting => some { s.setTick t (.finished ⟨0, 0, false⟩) with lock := none }
    | _ => none
  | .drainNext t =>
    match s.ticks t with
    | .draining d => drainNext s t d
    | _ => none
  | .popSubmitTime t =>
    match s.ticks t with
    | .popping d env => some { s.setTick t (.sampling d env) with submitTimes := s.submitTimes.tail }
    | _ => none
  | .observeWait t =>
    match s.ticks t with
    | .sampling d env =>
      some { s.setTick t (.counting d) with
        waitSamples := observe s.waitSamples (d.now - env.submittedAt) }
    | _ => none
  | .countDequeued t =>
    match s.ticks t with
    | .counting d =>
      some { s.setTick t (.draining d) with totalDequeued := State.increment s.totalDequeued }
    | _ => none
  | .subPending t =>
    match s.ticks t with
    | .draining ⟨_, out, .done more⟩ =>
      some { s.setTick t (.unlocking out more) with pending := s.pending - out.length }
    | _ => none
  | .unlockTick t =>
    match s.ticks t with
    | .unlocking out more => some { s.setTick t (.running out 0 0 more) with lock := none }
    | _ => none
  | .runJob t panicked =>
    match s.ticks t with
    | .running (job :: batch) executed panics more =>
      some { s.setTick t (.running batch (executed + 1) (panics + panicked.toNat) more) with
        ledger := s.ledger.settle (.tick t) job }
    | _ => none
  | .returnTick t =>
    match s.ticks t with
    | .running [] executed panics more => some (s.setTick t (.finished ⟨executed, panics, more⟩))
    | _ => none
  | _ => none

/-- The number of failed `try_lock`s after which `shutdown` gives up. -/
def maxSpins : Nat := 1000

/-- The steps of `shutdown`. -/
def shutdownStep (s : State) : Action → Option State
  | .setShutdown k =>
    match s.shutdowns k with
    | .notCalled => some { s.setShutdownPhase k (.spinning 0) with shutdown := true }
    | _ => none
  | .tryLockShutdown k =>
    match s.shutdowns k with
    | .spinning attempts =>
      match s.lock with
      | none => some { s.setShutdownPhase k .draining with lock := some (.shutdown k) }
      | some _ =>
        some (s.setShutdownPhase k
          (if maxSpins < attempts + 1 then .gaveUp else .spinning (attempts + 1)))
    | _ => none
  | .drainShutdown k =>
    match s.shutdowns k with
    | .draining =>
      match s.channel with
      | [] => some (s.setShutdownPhase k .clearing)
      | env :: rest =>
        some { s.setShutdownPhase k (.cancelling env.job) with
          channel := rest, ledger := s.ledger.take (.shutdown k) env.job }
    | _ => none
  | .cancelJob k =>
    match s.shutdowns k with
    | .cancelling job =>
      some { s.setShutdownPhase k .subtracting with ledger := s.ledger.settle (.shutdown k) job }
    | _ => none
  | .subOne k =>
    match s.shutdowns k with
    | .subtracting => some { s.setShutdownPhase k .draining with pending := s.pending - 1 }
    | _ => none
  | .clearSubmitTimes k =>
    match s.shutdowns k with
    | .clearing => some { s.setShutdownPhase k .unlocking with submitTimes := [] }
    | _ => none
  | .unlockShutdown k =>
    match s.shutdowns k with
    | .unlocking => some { s.setShutdownPhase k .returned with lock := none }
    | _ => none
  | _ => none

/-- One atomic step of one call. -/
def step (cfg : Config) (s : State) (a : Action) : Option State :=
  ((enqueueStep cfg s a).orElse (fun _ => tickStep cfg s a)).orElse (fun _ => shutdownStep s a)

/-! ## Views of the state -/

/-- The jobs a tick has taken out of the channel and not run yet. -/
def TickPhase.held : TickPhase → List JobId
  | .draining d | .popping d _ | .sampling d _ | .counting d => d.out
  | .unlocking out _ => out
  | .running batch _ _ _ => batch
  | _ => []

/-- The job a shutdown has taken out of the channel and not cancelled yet. -/
def ShutdownPhase.held : ShutdownPhase → List JobId
  | .cancelling job => [job]
  | _ => []

namespace State

/-- The jobs in the channel. -/
def waiting (s : State) : List JobId := s.channel.map Enqueued.job

/-- The jobs a party has taken out of the channel and not settled yet. -/
def held (s : State) : Party → List JobId
  | .tick t => (s.ticks t).held
  | .shutdown k => (s.shutdowns k).held

/-- The jobs a tick has run, in order. -/
def jobsRunBy (s : State) (t : TickId) : List JobId := s.ledger.settledBy (.tick t)

/-- The jobs that were run, in order. -/
def jobsRun (s : State) : List JobId := Ledger.entriesIn s.ledger.settled Party.isTick

/-- The jobs that shutdowns took out of the channel and cancelled. -/
def jobsCancelled (s : State) : List JobId :=
  Ledger.entriesIn s.ledger.settled (fun p => !p.isTick)

/-- The caller of `post` was told that its job will not run: a shutdown took
    it out of the channel, or it was refused when it was posted. -/
def ReportedCancelled (s : State) (j : JobId) : Prop :=
  j ∈ s.jobsCancelled ∨ s.enqueues j = .refusedShutdown ∨
    ∃ depth capacity, s.enqueues j = .refusedOverloaded depth capacity

end State

/-! ## What a step does -/

/-- What a step of a tick does. -/
inductive Ticked (cfg : Config) (s : State) : Action → State → Prop
  | call (t : TickId) (hphase : s.ticks t = .notCalled) : Ticked cfg s (.callTick t)
      (s.setTick t (if cfg.maxJobs t = 0 then .finished ⟨0, 0, false⟩ else .called))
  | callBlocking (t : TickId) (hphase : s.ticks t = .notCalled) :
      Ticked cfg s (.callTickBlocking t) (s.setTick t
        (if cfg.maxJobs t = 0 then .finished ⟨0, 0, false⟩
          else if 0 < s.pendingLoad then .called
          else .waiting))
  | contended (t : TickId) (now : Instant) (p : Party) (hphase : s.ticks t = .called)
      (hlock : s.lock = some p) :
      Ticked cfg s (.tryLock t now) (s.setTick t (.finished ⟨0, 0, true⟩))
  | lock (t : TickId) (now : Instant) (hphase : s.ticks t = .called) (hfree : s.lock = none) :
      Ticked cfg s (.tryLock t now)
        { s.setTick t (.draining ⟨now, [], .loop (cfg.maxJobs t)⟩) with lock := some (.tick t) }
  | awaitLock (t : TickId) (hphase : s.ticks t = .waiting) (hfree : s.lock = none) :
      Ticked cfg s (.awaitLock t) { s.setTick t .awaiting with lock := some (.tick t) }
  | first (t : TickId) (now : Instant) (env : Enqueued) (rest : List Enqueued)
      (hphase : s.ticks t = .awaiting) (hchannel : s.channel = env :: rest) :
      Ticked cfg s (.awaitFirst t now)
        { s.setTick t (.popping ⟨now, [env.job], .loop (cfg.maxJobs t - 1)⟩ env)
          with channel := rest, ledger := s.ledger.take (.tick t) env.job }
  | timeout (t : TickId) (hphase : s.ticks t = .awaiting) :
      Ticked cfg s (.awaitTimeout t) { s.setTick t (.finished ⟨0, 0, false⟩) with lock := none }
  | drain (t : TickId) (d : Drain) (s' : State) (hphase : s.ticks t = .draining d)
      (h : drainNext s t d = some s') : Ticked cfg s (.drainNext t) s'
  | pop (t : TickId) (d : Drain) (env : Enqueued) (hphase : s.ticks t = .popping d env) :
      Ticked cfg s (.popSubmitTime t)
        { s.setTick t (.sampling d env) with submitTimes := s.submitTimes.tail }
  | observe (t : TickId) (d : Drain) (env : Enqueued) (hphase : s.ticks t = .sampling d env) :
      Ticked cfg s (.observeWait t) { s.setTick t (.counting d) with
        waitSamples := observe s.waitSamples (d.now - env.submittedAt) }
  | count (t : TickId) (d : Drain) (hphase : s.ticks t = .counting d) :
      Ticked cfg s (.countDequeued t)
        { s.setTick t (.draining d) with totalDequeued := State.increment s.totalDequeued }
  | sub (t : TickId) (now : Instant) (out : List JobId) (more : Bool)
      (hphase : s.ticks t = .draining ⟨now, out, .done more⟩) : Ticked cfg s (.subPending t)
        { s.setTick t (.unlocking out more) with pending := s.pending - out.length }
  | unlock (t : TickId) (out : List JobId) (more : Bool)
      (hphase : s.ticks t = .unlocking out more) :
      Ticked cfg s (.unlockTick t) { s.setTick t (.running out 0 0 more) with lock := none }
  | run (t : TickId) (panicked : Bool) (job : JobId) (batch : List JobId) (executed panics : Nat)
      (more : Bool) (hphase : s.ticks t = .running (job :: batch) executed panics more) :
      Ticked cfg s (.runJob t panicked)
        { s.setTick t (.running batch (executed + 1) (panics + panicked.toNat) more) with
          ledger := s.ledger.settle (.tick t) job }
  | finish (t : TickId) (executed panics : Nat) (more : Bool)
      (hphase : s.ticks t = .running [] executed panics more) :
      Ticked cfg s (.returnTick t) (s.setTick t (.finished ⟨executed, panics, more⟩))

variable (cfg : Config) (s s' : State) (k : ShutdownId) (phase : ShutdownPhase)

theorem ticked_of_tickStep (a : Action) (h : tickStep cfg s a = some s') : Ticked cfg s a s' := by
  revert h
  fun_cases tickStep cfg s a <;> intro h <;> first
    | exact .drain _ _ _ ‹_› h
    | cases h; done
    | cases h; constructor <;> assumption

/-- What a step of a shutdown does. -/
inductive ShutDown (s : State) : Action → State → Prop
  | set (k : ShutdownId) (hphase : s.shutdowns k = .notCalled) : ShutDown s (.setShutdown k)
      { s.setShutdownPhase k (.spinning 0) with shutdown := true }
  | lock (k : ShutdownId) (attempts : Nat) (hphase : s.shutdowns k = .spinning attempts)
      (hfree : s.lock = none) : ShutDown s (.tryLockShutdown k)
      { s.setShutdownPhase k .draining with lock := some (.shutdown k) }
  | spin (k : ShutdownId) (attempts : Nat) (p : Party)
      (hphase : s.shutdowns k = .spinning attempts) (hlock : s.lock = some p) :
      ShutDown s (.tryLockShutdown k) (s.setShutdownPhase k
        (if maxSpins < attempts + 1 then .gaveUp else .spinning (attempts + 1)))
  | drained (k : ShutdownId) (hphase : s.shutdowns k = .draining) (hchannel : s.channel = []) :
      ShutDown s (.drainShutdown k) (s.setShutdownPhase k .clearing)
  | drain (k : ShutdownId) (env : Enqueued) (rest : List Enqueued)
      (hphase : s.shutdowns k = .draining) (hchannel : s.channel = env :: rest) :
      ShutDown s (.drainShutdown k) { s.setShutdownPhase k (.cancelling env.job) with
        channel := rest, ledger := s.ledger.take (.shutdown k) env.job }
  | cancel (k : ShutdownId) (job : JobId) (hphase : s.shutdowns k = .cancelling job) :
      ShutDown s (.cancelJob k)
        { s.setShutdownPhase k .subtracting with ledger := s.ledger.settle (.shutdown k) job }
  | sub (k : ShutdownId) (hphase : s.shutdowns k = .subtracting) : ShutDown s (.subOne k)
      { s.setShutdownPhase k .draining with pending := s.pending - 1 }
  | clear (k : ShutdownId) (hphase : s.shutdowns k = .clearing) :
      ShutDown s (.clearSubmitTimes k) { s.setShutdownPhase k .unlocking with submitTimes := [] }
  | unlock (k : ShutdownId) (hphase : s.shutdowns k = .unlocking) :
      ShutDown s (.unlockShutdown k) { s.setShutdownPhase k .returned with lock := none }

theorem shutDown_of_shutdownStep (a : Action) (h : shutdownStep s a = some s') :
    ShutDown s a s' := by
  revert h
  fun_cases shutdownStep s a <;> intro h <;> first
    | cases h; done
    | cases h; constructor <;> assumption

/-! ## Which function changes what -/

/-- A step belongs to one of the three functions. -/
theorem step_cases (a : Action) (h : step cfg s a = some s') :
    enqueueStep cfg s a = some s' ∨ tickStep cfg s a = some s' ∨ shutdownStep s a = some s' := by
  unfold step at h
  cases henqueue : enqueueStep cfg s a with
  | some u =>
      simp only [henqueue, Option.orElse_some, Option.some.injEq] at h
      exact .inl (congrArg some h)
  | none =>
      cases htick : tickStep cfg s a with
      | some u =>
          simp only [henqueue, htick, Option.orElse_none, Option.orElse_some,
            Option.some.injEq] at h
          exact .inr (.inl (congrArg some h))
      | none =>
          simp only [henqueue, htick, Option.orElse_none] at h
          exact .inr (.inr h)

/-- A step of `post` leaves the lock, the flag and the drains alone. -/
theorem enqueueStep_frame (a : Action) (h : enqueueStep cfg s a = some s') :
    s'.ticks = s.ticks ∧ s'.shutdowns = s.shutdowns ∧ s'.lock = s.lock ∧
      s'.shutdown = s.shutdown ∧ s'.ledger.taken = s.ledger.taken := by
  revert h
  fun_cases enqueueStep cfg s a <;> intro h <;>
    first
    | exact Option.some.inj h ▸ ⟨rfl, rfl, rfl, rfl, rfl⟩
    | simp at h

theorem drainNext_frame (t : TickId) (d : Drain) (h : drainNext s t d = some s') :
    s'.enqueues = s.enqueues ∧ s'.shutdowns = s.shutdowns ∧ s'.shutdown = s.shutdown ∧
      s'.ledger.entered = s.ledger.entered := by
  revert h
  fun_cases drainNext s t d <;> intro h <;>
    first
    | exact Option.some.inj h ▸ ⟨rfl, rfl, rfl, rfl⟩
    | simp at h

/-- A step of `tick` leaves the flag, the posts and the shutdowns alone. -/
theorem tickStep_frame (a : Action) (h : tickStep cfg s a = some s') :
    s'.enqueues = s.enqueues ∧ s'.shutdowns = s.shutdowns ∧ s'.shutdown = s.shutdown ∧
      s'.ledger.entered = s.ledger.entered := by
  revert h
  fun_cases tickStep cfg s a <;> intro h <;>
    first
    | exact drainNext_frame s s' _ _ h
    | exact Option.some.inj h ▸ ⟨rfl, rfl, rfl, rfl⟩
    | simp at h

/-- A step of `shutdown` leaves the posts and the ticks alone. -/
theorem shutdownStep_frame (a : Action) (h : shutdownStep s a = some s') :
    s'.enqueues = s.enqueues ∧ s'.ticks = s.ticks ∧ s'.ledger.entered = s.ledger.entered := by
  revert h
  fun_cases shutdownStep s a <;> intro h <;>
    first
    | exact Option.some.inj h ▸ ⟨rfl, rfl, rfl⟩
    | simp at h

/-! ## The lock on the receiving end -/

/-- The tick holds the lock. -/
def TickPhase.holdsLock : TickPhase → Bool
  | .awaiting | .draining _ | .popping _ _ | .sampling _ _ | .counting _ | .unlocking _ _ => true
  | _ => false

/-- The shutdown holds the lock. -/
def ShutdownPhase.holdsLock : ShutdownPhase → Bool
  | .draining | .cancelling _ | .subtracting | .clearing | .unlocking => true
  | _ => false

/-- The party is at a place of its function where it holds the lock. -/
def State.inDrain (s : State) : Party → Bool
  | .tick t => (s.ticks t).holdsLock
  | .shutdown k => (s.shutdowns k).holdsLock

/-- Who is in a drain holds the lock. -/
def Locked (s : State) : Prop := ∀ p, s.inDrain p = true → s.lock = some p

/-- What a step does to the lock: a party comes into a drain only by taking
    a lock that is free, and leaves it when it releases the lock. -/
inductive LockMoves (s s' : State) : Prop
  | same (hlock : s'.lock = s.lock) (hdrain : ∀ p, s'.inDrain p = true → s.inDrain p = true)
  | acquire (p : Party) (hfree : s.lock = none) (hlock : s'.lock = some p)
      (hdrain : ∀ q, q ≠ p → s'.inDrain q = true → s.inDrain q = true)
  | release (p : Party) (hheld : s.inDrain p = true) (hfree : s'.inDrain p = false)
      (hdrain : ∀ q, q ≠ p → s'.inDrain q = true → s.inDrain q = true)

theorem locked_of_moves (h : LockMoves s s') (hlocked : Locked s) : Locked s' := by
  -- The lock is free before it is taken, and is held by the one who drains.
  cases h with
  | same hlock hdrain =>
      intro p hp
      rw [hlock]
      exact hlocked p (hdrain p hp)
  | acquire p hfree hlock hdrain =>
      intro q hq
      by_cases hqp : q = p
      · rw [hqp]
        exact hlock
      · have hother := hlocked q (hdrain q hqp hq)
        rw [hfree] at hother
        simp at hother
  | release p hheld hfree hdrain =>
      intro q hq
      by_cases hqp : q = p
      · rw [hqp, hfree] at hq
        simp at hq
      · -- Two parties cannot have been in a drain at once.
        have hp := hlocked p hheld
        have hq' := hlocked q (hdrain q hqp hq)
        rw [hp, Option.some.injEq] at hq'
        exact absurd hq'.symm hqp

theorem inDrain_setTick_self (t : TickId) (phase : TickPhase)
    (hticks : s'.ticks = Function.update s.ticks t phase) :
    s'.inDrain (.tick t) = phase.holdsLock := by
  rw [State.inDrain, hticks, Function.update_self]

theorem inDrain_setTick_ne (t : TickId) (phase : TickPhase)
    (hticks : s'.ticks = Function.update s.ticks t phase) (hshut : s'.shutdowns = s.shutdowns)
    (q : Party) (hq : q ≠ .tick t) : s'.inDrain q = s.inDrain q := by
  cases q with
  | tick u =>
      have hu : u ≠ t := fun h => hq (congrArg Party.tick h)
      rw [State.inDrain, hticks, Function.update_of_ne hu, State.inDrain]
  | shutdown k => rw [State.inDrain, hshut, State.inDrain]

theorem inDrain_setShutdown_self (hshut : s'.shutdowns = Function.update s.shutdowns k phase) :
    s'.inDrain (.shutdown k) = phase.holdsLock := by
  rw [State.inDrain, hshut, Function.update_self]

theorem inDrain_setShutdown_ne (hshut : s'.shutdowns = Function.update s.shutdowns k phase)
    (hticks : s'.ticks = s.ticks)
    (q : Party) (hq : q ≠ .shutdown k) : s'.inDrain q = s.inDrain q := by
  cases q with
  | tick t => rw [State.inDrain, hticks, State.inDrain]
  | shutdown l =>
      have hl : l ≠ k := fun h => hq (congrArg Party.shutdown h)
      rw [State.inDrain, hshut, Function.update_of_ne hl, State.inDrain]

/-- A tick that moves on without touching the lock. -/
theorem lockMoves_tick (t : TickId) (phase : TickPhase)
    (hticks : s'.ticks = Function.update s.ticks t phase) (hshut : s'.shutdowns = s.shutdowns)
    (hlock : s'.lock = s.lock) (hphase : phase.holdsLock = (s.ticks t).holdsLock) :
    LockMoves s s' := by
  refine .same hlock (fun q hq => ?_)
  by_cases hqt : q = .tick t
  · subst hqt
    rw [inDrain_setTick_self s s' t phase hticks, hphase] at hq
    exact hq
  · rwa [inDrain_setTick_ne s s' t phase hticks hshut q hqt] at hq

/-- A tick that takes the free lock. -/
theorem lockMoves_tick_acquire (t : TickId) (phase : TickPhase)
    (hticks : s'.ticks = Function.update s.ticks t phase) (hshut : s'.shutdowns = s.shutdowns)
    (hfree : s.lock = none) (hlock : s'.lock = some (.tick t)) : LockMoves s s' := by
  refine .acquire (.tick t) hfree hlock (fun q hq hdrain => ?_)
  rwa [inDrain_setTick_ne s s' t phase hticks hshut q hq] at hdrain

/-- A tick that leaves its drain. -/
theorem lockMoves_tick_release (t : TickId) (phase : TickPhase)
    (hticks : s'.ticks = Function.update s.ticks t phase) (hshut : s'.shutdowns = s.shutdowns)
    (hheld : (s.ticks t).holdsLock = true) (hphase : phase.holdsLock = false) :
    LockMoves s s' := by
  refine .release (.tick t) hheld ?_ (fun q hq hdrain => ?_)
  · rw [inDrain_setTick_self s s' t phase hticks, hphase]
  · rwa [inDrain_setTick_ne s s' t phase hticks hshut q hq] at hdrain

theorem lockMoves_of_tickStep (a : Action) (h : tickStep cfg s a = some s') : LockMoves s s' := by
  cases ticked_of_tickStep cfg s s' a h with
  | call t hphase | callBlocking t hphase =>
      refine lockMoves_tick s _ t _ rfl rfl rfl ?_
      rw [hphase]
      split
      · rfl
      · first
        | rfl
        | split <;> rfl
  | lock t _ _ hfree | awaitLock t _ hfree =>
      exact lockMoves_tick_acquire s _ t _ rfl rfl hfree rfl
  | timeout t hphase | unlock t _ _ hphase =>
      exact lockMoves_tick_release s _ t _ rfl rfl (by rw [hphase]; rfl) rfl
  | drain t d _ hphase h =>
      revert h
      fun_cases drainNext s t d <;> intro h <;> first
        | exact Option.some.inj h ▸ lockMoves_tick s _ t _ rfl rfl rfl (by rw [hphase]; rfl)
        | simp at h
  | contended t _ _ hphase | first t _ _ _ hphase | pop t _ _ hphase | observe t _ _ hphase
  | count t _ hphase | sub t _ _ _ hphase | run t _ _ _ _ _ _ hphase | finish t _ _ _ hphase =>
      exact lockMoves_tick s _ t _ rfl rfl rfl (by rw [hphase]; rfl)

/-- A shutdown that moves on without touching the lock. -/
theorem lockMoves_shutdown (hshut : s'.shutdowns = Function.update s.shutdowns k phase)
    (hticks : s'.ticks = s.ticks)
    (hlock : s'.lock = s.lock) (hphase : phase.holdsLock = (s.shutdowns k).holdsLock) :
    LockMoves s s' := by
  refine .same hlock (fun q hq => ?_)
  by_cases hqk : q = .shutdown k
  · subst hqk
    rw [inDrain_setShutdown_self s s' k phase hshut, hphase] at hq
    exact hq
  · rwa [inDrain_setShutdown_ne s s' k phase hshut hticks q hqk] at hq

/-- A shutdown that takes the free lock. -/
theorem lockMoves_shutdown_acquire (hshut : s'.shutdowns = Function.update s.shutdowns k phase)
    (hticks : s'.ticks = s.ticks)
    (hfree : s.lock = none) (hlock : s'.lock = some (.shutdown k)) : LockMoves s s' := by
  refine .acquire (.shutdown k) hfree hlock (fun q hq hdrain => ?_)
  rwa [inDrain_setShutdown_ne s s' k phase hshut hticks q hq] at hdrain

/-- A shutdown that leaves its drain. -/
theorem lockMoves_shutdown_release (hshut : s'.shutdowns = Function.update s.shutdowns k phase)
    (hticks : s'.ticks = s.ticks)
    (hheld : (s.shutdowns k).holdsLock = true) (hphase : phase.holdsLock = false) :
    LockMoves s s' := by
  refine .release (.shutdown k) hheld ?_ (fun q hq hdrain => ?_)
  · rw [inDrain_setShutdown_self s s' k phase hshut, hphase]
  · rwa [inDrain_setShutdown_ne s s' k phase hshut hticks q hq] at hdrain

theorem lockMoves_of_shutdownStep (a : Action) (h : shutdownStep s a = some s') :
    LockMoves s s' := by
  cases shutDown_of_shutdownStep s s' a h with
  | lock k _ _ hfree => exact lockMoves_shutdown_acquire s _ k _ rfl rfl hfree rfl
  | spin k _ _ hphase =>
      refine lockMoves_shutdown s _ k _ rfl rfl rfl ?_
      rw [hphase]
      split <;> rfl
  | unlock k hphase =>
      exact lockMoves_shutdown_release s _ k _ rfl rfl (by rw [hphase]; rfl) rfl
  | set k hphase | drained k hphase | drain k _ _ hphase | cancel k _ hphase | sub k hphase
  | clear k hphase => exact lockMoves_shutdown s _ k _ rfl rfl rfl (by rw [hphase]; rfl)

theorem locked_step (a : Action) (h : step cfg s a = some s') (hlocked : Locked s) : Locked s' := by
  rcases step_cases cfg s s' a h with h | h | h
  · rcases enqueueStep_frame cfg s s' a h with ⟨hticks, hshut, hlock, _, _⟩
    refine locked_of_moves s s' (.same hlock (fun p hp => ?_)) hlocked
    cases p with
    | tick t => rwa [State.inDrain, hticks] at hp
    | shutdown k => rwa [State.inDrain, hshut] at hp
  · exact locked_of_moves s s' (lockMoves_of_tickStep cfg s s' a h) hlocked
  · exact locked_of_moves s s' (lockMoves_of_shutdownStep s s' a h) hlocked

theorem locked_init : Locked init := by
  intro p hp
  cases p <;> simp [State.inDrain, init, TickPhase.holdsLock, ShutdownPhase.holdsLock] at hp

/-- In every run, who is in a drain holds the lock. -/
theorem locked_of_run (s : State) (as : List Action) (hrun : exec (step cfg) init as = some s) :
    Locked s :=
  exec_invariant (step cfg) Locked (fun s a s' hlocked h => locked_step cfg s s' a h hlocked)
    init s as locked_init hrun

/-- No two calls are in a drain at the same time. -/
theorem drain_exclusive (s : State) (as : List Action) (p q : Party)
    (hrun : exec (step cfg) init as = some s) (hp : s.inDrain p = true) (hq : s.inDrain q = true) :
    p = q :=
  have hlocked := locked_of_run cfg s as hrun
  Option.some.inj ((hlocked p hp).symm.trans (hlocked q hq))

/-- A shutdown comes while a tick has the lock. -/
theorem drain_exclusive_tick :
    ∃ s, exec (step ⟨0, fun _ => 1⟩) init [.callTick 0, .setShutdown 0, .tryLock 0 0] = some s ∧
      s.inDrain (.tick 0) = true ∧ ∀ q, s.inDrain q = true → .tick 0 = q := by
  refine ⟨_, rfl, rfl, fun q hq => ?_⟩
  exact drain_exclusive ⟨0, fun _ => 1⟩ _ [.callTick 0, .setShutdown 0, .tryLock 0 0] (.tick 0) q
    rfl rfl hq

end Host

end DccMcp
