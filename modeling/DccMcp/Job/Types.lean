import DccMcp.Lib.Cancellation
import DccMcp.Lib.Json

/-!
# Jobs

The record the job tracker keeps for an asynchronous tool call, and what one
transition does to it.

Each transition of the tracker is a guard on the status and an update of a
few fields, made on one record under its lock. They are given here on the
bare record, as partial functions: `none` is the guard that refuses. The
registry lifts them to the map of jobs and the concurrent model interleaves
them, so whatever is proved about a record here holds in both.

`Moves` says once everything a transition can do to a record, guards
included, and the invariants of a job are short case analyses over it. The
fields that go with a status are set by the transition that enters it and by
no other: `Job.Consistent` is the part of the invariant a record carries by
itself.

## Main definitions

* `JobStatus`, `JobProgress`, `JobOutputTarget`, `Job`, `JobEvent`: The data.
* `Job.new`: A job as it is created.
* `Transition`, `Job.transition`: The transitions and what they do.
* `Job.Moves`: Everything a transition can do, as a relation.
* `Job.Consistent`: The fields of a job agree with its status.
* `JobProgress.Below`: Progress that did not go backwards.
* `Job.Later`: The same job at a later time.

## Theorems

* `Job.transition_moves`: A transition that is taken is a move.
* `Job.new_consistent`, `Job.moves_consistent`: Every job is consistent.
* `Job.moves_of_terminal`: A terminal status does not move.
* `Job.moves_progress`: Progress does not go backwards.
* `Job.moves_startedAt`: Only the move to running sets the start time.
* `Job.later_of_moves`: A move leads to a later state of the same job.
-/

namespace DccMcp

namespace Jobs

/-- A point in time, in nanoseconds. -/
abbrev DateTime := Int

/-- Lifecycle state of a tracked job. -/
inductive JobStatus
  | pending
  | running
  | completed
  | failed
  | cancelled
  | interrupted
  deriving DecidableEq

def JobStatus.isTerminal : JobStatus → Bool
  | .completed | .failed | .cancelled | .interrupted => true
  | .pending | .running => false

/-- Coarse progress indicator emitted by the tool handler. -/
structure JobProgress where
  current : Nat
  total : Nat
  message : Option String
  deriving DecidableEq

/-- Progress that did not go backwards in either component. -/
def JobProgress.Below (p q : JobProgress) : Prop := p.current ≤ q.current ∧ p.total ≤ q.total

/-- Where a job's outputs land, captured when the job is launched. -/
structure JobOutputTarget where
  dir : String
  extensions : List String
  deriving DecidableEq

/-- A tracked async tool invocation, with tokens of type `τ`. -/
structure Job (τ : Type) where
  id : String
  toolName : String
  status : JobStatus
  parentJobId : Option String
  progress : Option JobProgress
  output : Option JobOutputTarget
  result : Option Json.Value
  error : Option String
  createdAt : DateTime
  startedAt : Option DateTime
  completedAt : Option DateTime
  updatedAt : DateTime
  cancelToken : τ

/-- What a subscriber is told: a snapshot of the job after a transition. -/
structure JobEvent where
  id : String
  toolName : String
  status : JobStatus
  progress : Option JobProgress
  error : Option String
  updatedAt : DateTime
  createdAt : DateTime
  startedAt : Option DateTime
  completedAt : Option DateTime
  deriving DecidableEq

variable {τ : Type}

/-- `Job::new`, with the generated id and the current time as arguments. -/
def Job.new (id : String) (now : DateTime) (toolName : String) (parentJobId : Option String)
    (cancelToken : τ) : Job τ where
  id := id
  toolName := toolName
  status := .pending
  parentJobId := parentJobId
  progress := none
  output := none
  result := none
  error := none
  createdAt := now
  startedAt := none
  completedAt := none
  updatedAt := now
  cancelToken := cancelToken

/-- The event `emit` builds from a snapshot. -/
def Job.event (job : Job τ) : JobEvent where
  id := job.id
  toolName := job.toolName
  status := job.status
  progress := job.progress
  error := job.error
  updatedAt := job.updatedAt
  createdAt := job.createdAt
  startedAt := job.startedAt
  completedAt := job.completedAt

/-! ## Transitions of one record -/

/-- The body of `set_output` under the lock. -/
def Job.setOutput (output : Option JobOutputTarget) (job : Job τ) : Option (Job τ) :=
  some { job with output := output }

/-- The body of `start` under the lock. -/
def Job.start (now : DateTime) (job : Job τ) : Option (Job τ) :=
  if job.status ≠ .pending then none
  else some { job with status := .running, startedAt := some now, updatedAt := now }

/-- The body of `complete` under the lock. -/
def Job.complete (result : Json.Value) (now : DateTime) (job : Job τ) : Option (Job τ) :=
  if job.status ≠ .running then none
  else some { job with
    status := .completed, result := some result, completedAt := some now, updatedAt := now }

/-- The body of `fail` under the lock. -/
def Job.fail (error : String) (now : DateTime) (job : Job τ) : Option (Job τ) :=
  if job.status ≠ .running then none
  else some { job with
    status := .failed, error := some error, completedAt := some now, updatedAt := now }

/-- The body of `acknowledge_cancel` under the lock, where `cancelled` is what
    the job's token answers. -/
def Job.acknowledgeCancel (cancelled : Bool) (now : DateTime) (job : Job τ) : Option (Job τ) :=
  if (job.status = .pending ∨ job.status = .running) ∧ cancelled = true then
    some { job with status := .cancelled, completedAt := some now, updatedAt := now }
  else none

/-- The test `update_progress` refuses an update on: more done than there is,
    or either component below the previous one. -/
def JobProgress.regresses (progress : JobProgress) (previous : Option JobProgress) : Bool :=
  progress.total < progress.current ||
    previous.any (fun p => progress.current < p.current || progress.total < p.total)

/-- The body of `update_progress` under the lock. -/
def Job.updateProgress (progress : JobProgress) (now : DateTime) (job : Job τ) :
    Option (Job τ) :=
  if job.status ≠ .running then none
  else if progress.regresses job.progress then none
  else some { job with progress := some progress, updatedAt := now }

/-- The transitions, with the arguments their callers give. -/
inductive Transition
  | setOutput (output : Option JobOutputTarget)
  | start
  | complete (result : Json.Value)
  | fail (error : String)
  | acknowledgeCancel
  | updateProgress (progress : JobProgress)

/-- What a transition does to a record under its lock. -/
def Job.transition (cancelled : Bool) (now : DateTime) (job : Job τ) :
    Transition → Option (Job τ)
  | .setOutput output => job.setOutput output
  | .start => job.start now
  | .complete result => job.complete result now
  | .fail error => job.fail error now
  | .acknowledgeCancel => job.acknowledgeCancel cancelled now
  | .updateProgress progress => job.updateProgress progress now

/-- Only `set_output` returns without calling `emit`. -/
def Transition.announces : Transition → Bool
  | .setOutput _ => false
  | _ => true

/-! ## What a transition can do -/

/-- Everything a transition can do to a record, where `cancelled` is what the
    record's token answers. -/
inductive Job.Moves (cancelled : Bool) (job : Job τ) : Job τ → Prop
  | output (output : Option JobOutputTarget) : Moves cancelled job { job with output := output }
  | start (now : DateTime) (hpending : job.status = .pending) :
      Moves cancelled job { job with status := .running, startedAt := some now, updatedAt := now }
  | complete (result : Json.Value) (now : DateTime) (hrunning : job.status = .running) :
      Moves cancelled job { job with
        status := .completed, result := some result, completedAt := some now, updatedAt := now }
  | fail (error : String) (now : DateTime) (hrunning : job.status = .running) :
      Moves cancelled job { job with
        status := .failed, error := some error, completedAt := some now, updatedAt := now }
  | acknowledgeCancel (now : DateTime) (hopen : job.status = .pending ∨ job.status = .running)
      (hcancelled : cancelled = true) :
      Moves cancelled job { job with
        status := .cancelled, completedAt := some now, updatedAt := now }
  | progress (progress : JobProgress) (now : DateTime) (hrunning : job.status = .running)
      (hbound : progress.current ≤ progress.total)
      (hgrows : ∀ p, job.progress = some p → p.Below progress) :
      Moves cancelled job { job with progress := some progress, updatedAt := now }

/-- A progress report that is let through is within its total and not below
    the previous one. -/
theorem JobProgress.not_regresses (progress : JobProgress) (previous : Option JobProgress)
    (h : progress.regresses previous = false) :
    progress.current ≤ progress.total ∧ ∀ p, previous = some p → p.Below progress := by
  simp only [regresses, Bool.or_eq_false_iff, decide_eq_false_iff_not, Nat.not_lt] at h
  refine ⟨h.1, ?_⟩
  rintro p rfl
  simpa only [Below, Option.any_some, Bool.or_eq_false_iff, decide_eq_false_iff_not,
    Nat.not_lt] using h.2

variable (cancelled : Bool) (job job' : Job τ)

/-- A transition that is taken is a move. -/
theorem Job.transition_moves (now : DateTime) (job job' : Job τ) (t : Transition)
    (h : job.transition cancelled now t = some job') :
    job.Moves cancelled job' := by
  cases t with
  | setOutput output =>
      simp only [transition, setOutput, Option.some.injEq] at h
      exact h ▸ .output output
  | start =>
      simp only [transition, start, ne_eq, ite_not, Option.ite_none_right_eq_some,
        Option.some.injEq] at h
      exact h.2 ▸ .start now h.1
  | complete result =>
      simp only [transition, complete, ne_eq, ite_not, Option.ite_none_right_eq_some,
        Option.some.injEq] at h
      exact h.2 ▸ .complete result now h.1
  | fail error =>
      simp only [transition, fail, ne_eq, ite_not, Option.ite_none_right_eq_some,
        Option.some.injEq] at h
      exact h.2 ▸ .fail error now h.1
  | acknowledgeCancel =>
      simp only [transition, acknowledgeCancel, Option.ite_none_right_eq_some,
        Option.some.injEq] at h
      exact h.2 ▸ .acknowledgeCancel now h.1.1 h.1.2
  | updateProgress progress =>
      simp only [transition, updateProgress, ne_eq, ite_not, Option.ite_none_right_eq_some,
        Option.ite_none_left_eq_some, Option.some.injEq, Bool.not_eq_true] at h
      rcases progress.not_regresses job.progress h.2.1 with ⟨hbound, hgrows⟩
      exact h.2.2 ▸ .progress progress now h.1 hbound hgrows

/-- A move keeps the identity of the record: its id, its parent, its token
    and the time it was created. -/
theorem Job.moves_identity (h : job.Moves cancelled job') :
    job'.id = job.id ∧ job'.parentJobId = job.parentJobId ∧
      job'.cancelToken = job.cancelToken := by
  cases h <;> exact ⟨rfl, rfl, rfl⟩

/-! ## Invariants of one record -/

/-- The fields of a job agree with its status. -/
structure Job.Consistent (job : Job τ) : Prop where
  completedAt : job.completedAt.isSome = true ↔ job.status.isTerminal = true
  result : job.result.isSome = true ↔ job.status = .completed
  error : job.error.isSome = true ↔ job.status = .failed
  notStarted : job.status = .pending → job.startedAt = none
  started : job.status = .running ∨ job.status = .completed ∨ job.status = .failed →
    job.startedAt.isSome = true
  progress : ∀ p, job.progress = some p → p.current ≤ p.total

theorem Job.new_consistent (id : String) (now : DateTime) (toolName : String)
    (parentJobId : Option String) (token : τ) :
    (Job.new id now toolName parentJobId token).Consistent where
  completedAt := by simp only [new, Option.isSome_none, JobStatus.isTerminal]
  result := by simp only [new, Option.isSome_none, Bool.false_eq_true, reduceCtorEq]
  error := by simp only [new, Option.isSome_none, Bool.false_eq_true, reduceCtorEq]
  notStarted _ := rfl
  started := by simp only [new, reduceCtorEq, or_self, false_implies]
  progress := by simp [new]

/-- A terminal status does not move. -/
theorem Job.moves_of_terminal (h : job.Moves cancelled job')
    (hterminal : job.status.isTerminal = true) :
    job'.status = job.status := by
  cases h with
  | output => rfl
  | start _ hpending => rw [hpending] at hterminal; exact absurd hterminal (by decide)
  | complete _ _ hrunning => rw [hrunning] at hterminal; exact absurd hterminal (by decide)
  | fail _ _ hrunning => rw [hrunning] at hterminal; exact absurd hterminal (by decide)
  | acknowledgeCancel _ hopen =>
      rcases hopen with hpending | hrunning
      · rw [hpending] at hterminal
        exact absurd hterminal (by decide)
      · rw [hrunning] at hterminal
        exact absurd hterminal (by decide)
  | progress => rfl

/-- Progress, once reported, stays and does not go backwards. -/
theorem Job.moves_progress (h : job.Moves cancelled job') (p : JobProgress)
    (hp : job.progress = some p) :
    ∃ q, job'.progress = some q ∧ p.Below q := by
  cases h with
  | progress q _ _ _ hgrows => exact ⟨q, rfl, hgrows p hp⟩
  | _ => exact ⟨p, hp, Nat.le_refl _, Nat.le_refl _⟩

/-- The time a job was started stays, and a job that is started is running
    after the move that started it. -/
theorem Job.moves_startedAt (h : job.Moves cancelled job') :
    job'.startedAt = job.startedAt ∨ job'.startedAt.isSome = true ∧ job'.status = .running := by
  cases h with
  | start => exact .inr ⟨rfl, rfl⟩
  | _ => exact .inl rfl

/-- Every move keeps the fields in agreement with the status. -/
theorem Job.moves_consistent (h : job.Moves cancelled job') (hjob : job.Consistent) :
    job'.Consistent := by
  have hresult := hjob.result
  have herror := hjob.error
  cases h with
  | output => exact { hjob with }
  | start now hpending =>
      have hcompleted := hjob.completedAt
      rw [hpending] at hcompleted
      simp only [hpending, reduceCtorEq, iff_false] at hresult herror
      exact
        { completedAt := hcompleted
          result := by simpa only [reduceCtorEq, iff_false] using hresult
          error := by simpa only [reduceCtorEq, iff_false] using herror
          notStarted := by simp only [reduceCtorEq, false_implies]
          started := fun _ => rfl
          progress := hjob.progress }
  | complete result now hrunning =>
      simp only [hrunning, reduceCtorEq, iff_false] at herror
      exact
        { completedAt := by simp only [Option.isSome_some, JobStatus.isTerminal]
          result := by simp only [Option.isSome_some]
          error := by simpa only [reduceCtorEq, iff_false] using herror
          notStarted := by simp only [reduceCtorEq, false_implies]
          started := fun _ => hjob.started (.inl hrunning)
          progress := hjob.progress }
  | fail error now hrunning =>
      simp only [hrunning, reduceCtorEq, iff_false] at hresult
      exact
        { completedAt := by simp only [Option.isSome_some, JobStatus.isTerminal]
          result := by simpa only [reduceCtorEq, iff_false] using hresult
          error := by simp only [Option.isSome_some]
          notStarted := by simp only [reduceCtorEq, false_implies]
          started := fun _ => hjob.started (.inl hrunning)
          progress := hjob.progress }
  | acknowledgeCancel now hopen =>
      have hstatus : job.status ≠ .completed ∧ job.status ≠ .failed := by
        rcases hopen with hopen | hopen <;> rw [hopen] <;> decide
      exact
        { completedAt := by simp only [Option.isSome_some, JobStatus.isTerminal]
          result := by simpa only [hstatus.1, reduceCtorEq] using hresult
          error := by simpa only [hstatus.2, reduceCtorEq] using herror
          notStarted := by simp only [reduceCtorEq, false_implies]
          started := by simp only [reduceCtorEq, or_self, false_implies]
          progress := hjob.progress }
  | progress q now hrunning hbound =>
      exact { hjob with progress := fun p hp => Option.some.inj hp ▸ hbound }

/-! ## Jobs over time -/

/-- The same job at a later time: a terminal status has stayed, progress has
    not gone backwards, and a job that was started was started. -/
structure Job.Later (job later : Job τ) : Prop where
  terminal : job.status.isTerminal = true → later.status = job.status
  progress : ∀ p, job.progress = some p → ∃ q, later.progress = some q ∧ p.Below q
  started : job.startedAt.isSome = true → later.startedAt.isSome = true

theorem Job.Later.refl (job : Job τ) : job.Later job where
  terminal _ := rfl
  progress p hp := ⟨p, hp, Nat.le_refl _, Nat.le_refl _⟩
  started h := h

theorem Job.Later.trans (job mid later : Job τ) (h : job.Later mid) (h' : mid.Later later) :
    job.Later later where
  terminal hterminal := by
    have hmid := h.terminal hterminal
    rw [h'.terminal (hmid ▸ hterminal), hmid]
  progress p hp := by
    rcases h.progress p hp with ⟨q, hq, hpq⟩
    rcases h'.progress q hq with ⟨r, hr, hqr⟩
    exact ⟨r, hr, Nat.le_trans hpq.1 hqr.1, Nat.le_trans hpq.2 hqr.2⟩
  started hstarted := h'.started (h.started hstarted)

/-- A move leads to a later state of the same job. -/
theorem Job.later_of_moves (h : job.Moves cancelled job') : job.Later job' where
  terminal := moves_of_terminal cancelled job job' h
  progress := moves_progress cancelled job job' h
  started hstarted := by
    rcases moves_startedAt cancelled job job' h with hsame | ⟨hsome, _⟩
    · rw [hsame]
      exact hstarted
    · exact hsome

end Jobs

end DccMcp
