import DccMcp.Job.Circuit
import DccMcp.Lib.Machine
import Mathlib.Data.List.AList

/-!
# The Job Registry

The registry of tracked jobs, one operation at a time.

Every operation that changes a job looks it up, runs one transition under the
job's lock and hands the snapshot to the persistence writer and to the
subscribers. Run one after the other, the operations keep an invariant that
speaks about more than the map: whether a job was ever running, and who asked
for its cancellation, are facts about the past. So the invariant is stated
over the operations so far, and the run rule with a history carries it.

Three things come from outside. Job ids are generated; all that is used is
that no id is generated twice, and the runs below say so. The token tree is
a parameter. And the answer a garbage collection gets from the storage, with
the state the circuit is in at that moment, is whatever the persistence
worker has made of it, so both are arguments of the operation.

## Main definitions

* `JobManager`: The map of jobs and the forest of their tokens.
* `Effect`, `Reply`, `Outcome`: What an operation hands on and answers.
* `createWithParent`, `transition`, `cancel`, `gcStale`: The operations, and
  `setOutput`, `start`, `complete`, `fail`, `acknowledgeCancel`,
  `updateProgress` as instances of `transition`.
* `Op`, `apply`, `step`: Operations as data, and the machine they form.
* `Descends`, `CancelRequested`, `PassedThroughRunning`: Facts about the past.
* `Tracked`: The invariant.

## Theorems

* `job_state_machine`: The invariant of the registry, over every run.
-/

namespace DccMcp

namespace Jobs

open Machine

variable (T : CancellationTokens)

/-- The registry: jobs by id, and the shared forest their tokens live in. -/
structure JobManager where
  jobs : AList (fun _ : String => Job T.Token)
  tokens : T.Forest

/-- What an operation hands on after it released the lock. -/
inductive Effect
  | persistPut (snapshot : Job T.Token)
  | emit (event : JobEvent)

/-- What an operation answers. -/
inductive Reply
  | handle (id : String)
  | done (answer : Option Unit)
  | removed (count : Nat)
  deriving DecidableEq

/-- The result of an operation: its answer, the registry, and what is handed
    on, in order. -/
structure Outcome where
  reply : Reply
  manager : JobManager T
  effects : List (Effect T)

variable {T}

namespace JobManager

variable (T) in
def new : JobManager T := ⟨∅, T.empty⟩

/-- `get`, on the record behind the handle. -/
def get (m : JobManager T) (id : String) : Option (Job T.Token) := m.jobs.lookup id

/-- The token of a new job: a child of the parent's if the parent is tracked,
    a fresh one otherwise. -/
def tokenFor (m : JobManager T) (parentJobId : Option String) : T.Token × T.Forest :=
  match parentJobId.bind m.get with
  | some parent => T.childToken m.tokens parent.cancelToken
  | none => T.new m.tokens

def createWithParent (m : JobManager T) (id : String) (now : DateTime) (toolName : String)
    (parentJobId : Option String) : Outcome T :=
  let job := Job.new id now toolName parentJobId (m.tokenFor parentJobId).1
  { reply := .handle id
    manager := ⟨m.jobs.insert id job, (m.tokenFor parentJobId).2⟩
    effects := [.persistPut job, .emit job.event] }

/-- The shape all transitions share: look the job up, run the transition
    under its lock, then persist the snapshot and announce it. -/
def transition (m : JobManager T) (now : DateTime) (id : String) (t : Transition) : Outcome T :=
  match m.get id with
  | none => ⟨.done none, m, []⟩
  | some job =>
    match job.transition (T.isCancelled m.tokens job.cancelToken) now t with
    | none => ⟨.done none, m, []⟩
    | some snapshot =>
      { reply := .done (some ())
        manager := { m with jobs := m.jobs.insert id snapshot }
        effects := .persistPut snapshot :: if t.announces then [.emit snapshot.event] else [] }

def setOutput (m : JobManager T) (now : DateTime) (id : String)
    (output : Option JobOutputTarget) : Outcome T :=
  m.transition now id (.setOutput output)

def start (m : JobManager T) (now : DateTime) (id : String) : Outcome T :=
  m.transition now id .start

def complete (m : JobManager T) (now : DateTime) (id : String) (result : Json.Value) :
    Outcome T :=
  m.transition now id (.complete result)

def fail (m : JobManager T) (now : DateTime) (id : String) (error : String) : Outcome T :=
  m.transition now id (.fail error)

def acknowledgeCancel (m : JobManager T) (now : DateTime) (id : String) : Outcome T :=
  m.transition now id .acknowledgeCancel

def updateProgress (m : JobManager T) (now : DateTime) (id : String) (progress : JobProgress) :
    Outcome T :=
  m.transition now id (.updateProgress progress)

/-- `cancel`: only the token is touched. -/
def cancel (m : JobManager T) (id : String) : Outcome T :=
  match m.get id with
  | none => ⟨.done none, m, []⟩
  | some job =>
    if job.status = .pending ∨ job.status = .running then
      { reply := .done (some ())
        manager := { m with tokens := T.cancel m.tokens job.cancelToken }
        effects := [] }
    else ⟨.done none, m, []⟩

/-- The ids `gc_stale` collects: terminal jobs last touched before the cutoff. -/
def staleIds (m : JobManager T) (cutoff : DateTime) : List String :=
  m.jobs.entries.filterMap (fun entry =>
    if entry.2.status.isTerminal && decide (entry.2.updatedAt < cutoff) then some entry.2.id
    else none)

/-- `DashMap::remove` of each collected id, counting those that were there. -/
def removeAll (jobs : AList (fun _ : String => Job T.Token)) :
    List String → Nat × AList (fun _ : String => Job T.Token)
  | [] => (0, jobs)
  | id :: ids =>
    let rest := removeAll (jobs.erase id) ids
    (if (jobs.lookup id).isSome then rest.1 + 1 else rest.1, rest.2)

/-- `gc_stale`. `circuit` is the state of the persistence circuit at the call,
    and `deleted` what the writer answers, `none` if there is no writer. -/
def gcStale (m : JobManager T) (now olderThan : DateTime) (circuit : PersistenceCircuit)
    (deleted : Option Bool) : Outcome T :=
  if circuit.status.state = .disabled ∧ circuit.canRetryRetention = false then
    ⟨.removed 0, m, []⟩
  else
    let stale := m.staleIds (now - olderThan)
    if stale = [] then ⟨.removed 0, m, []⟩
    else if deleted = some false then ⟨.removed 0, m, []⟩
    else
      let removed := removeAll m.jobs stale
      ⟨.removed removed.1, { m with jobs := removed.2 }, []⟩

end JobManager

/-- The operations of the registry, with their arguments. -/
inductive Op
  | createWithParent (id : String) (now : DateTime) (toolName : String)
      (parentJobId : Option String)
  | transition (now : DateTime) (id : String) (t : Transition)
  | cancel (id : String)
  | gcStale (now olderThan : DateTime) (circuit : PersistenceCircuit) (deleted : Option Bool)

/-- The id an operation generates. -/
def Op.createdId : Op → Option String
  | .createWithParent id _ _ _ => some id
  | _ => none

namespace JobManager

/-- One operation. -/
def apply (m : JobManager T) : Op → Outcome T
  | .createWithParent id now toolName parentJobId => m.createWithParent id now toolName parentJobId
  | .transition now id t => m.transition now id t
  | .cancel id => m.cancel id
  | .gcStale now olderThan circuit deleted => m.gcStale now olderThan circuit deleted

/-- The registry as a machine. Every operation can always be called. -/
def step (m : JobManager T) (op : Op) : Option (JobManager T) := some (m.apply op).manager

end JobManager

/-! ## The past -/

/-- Descent in the forest of jobs: through the parents the jobs were created
    with. -/
inductive Descends (ops : List Op) (id : String) : String → Prop
  | refl : Descends ops id id
  | parent (parent child : String) (now : DateTime) (toolName : String)
      (hcreate : Op.createWithParent child now toolName (some parent) ∈ ops)
      (hdescends : Descends ops id parent) : Descends ops id child

variable (T) in
/-- Some cancellation was called on the job or on one of its ancestors, which
    was then tracked and not terminal. -/
def CancelRequested (ops : List Op) (id : String) : Prop :=
  ∃ before ancestor after, ops = before ++ Op.cancel ancestor :: after ∧
    Descends ops ancestor id ∧
    ∃ (m : JobManager T) (job : Job T.Token), exec JobManager.step (JobManager.new T) before = some m ∧
      m.get ancestor = some job ∧ job.status.isTerminal = false

variable (T) in
/-- The job was running at some point of the run. -/
def PassedThroughRunning (ops : List Op) (id : String) : Prop :=
  ∃ before after, ops = before ++ after ∧
    ∃ (m : JobManager T) (job : Job T.Token), exec JobManager.step (JobManager.new T) before = some m ∧
      m.get id = some job ∧ job.status = .running

/-! ## What an operation can do -/

variable (ops : List Op) (m : JobManager T) (op : Op)

/-- A refused operation changes nothing, in no job and in no token. -/
theorem apply_none (h : (m.apply op).reply = .done none) : (m.apply op).manager = m := by
  cases op with
  | createWithParent => simp only [JobManager.apply, JobManager.createWithParent, reduceCtorEq] at h
  | transition now id t =>
      simp only [JobManager.apply, JobManager.transition] at h ⊢
      cases hget : m.get id with
      | none => rfl
      | some job =>
          simp only [hget] at h ⊢
          cases hmove : job.transition (T.isCancelled m.tokens job.cancelToken) now t with
          | none => rfl
          | some snapshot => simp [hmove] at h
  | cancel id =>
      simp only [JobManager.apply, JobManager.cancel] at h ⊢
      cases hget : m.get id with
      | none => rfl
      | some job =>
          simp only [hget] at h ⊢
          by_cases hopen : job.status = .pending ∨ job.status = .running
          · simp [if_pos hopen] at h
          · simp only [if_neg hopen]
  | gcStale now olderThan circuit deleted =>
      simp only [JobManager.apply, JobManager.gcStale] at h
      split at h
      · simp at h
      · split at h
        · simp at h
        · split at h <;> simp at h

/-- Removing jobs leaves every other job as it is. -/
theorem lookup_removeAll (jobs : AList (fun _ : String => Job T.Token)) (ids : List String)
    (id : String) (job : Job T.Token)
    (h : (JobManager.removeAll jobs ids).2.lookup id = some job) : jobs.lookup id = some job := by
  induction ids generalizing jobs with
  | nil => exact h
  | cons id' ids ih =>
      have hrest := ih (jobs.erase id') h
      by_cases hid : id = id'
      · rw [hid, AList.lookup_erase] at hrest
        simp at hrest
      · rwa [AList.lookup_erase_ne hid] at hrest

/-- A job after an operation is the job before it, or that job moved, or new. -/
theorem get_apply (id : String) (job' : Job T.Token) (h : (m.apply op).manager.get id = some job') :
    m.get id = some job' ∨
    (∃ job, m.get id = some job ∧ job.Moves (T.isCancelled m.tokens job.cancelToken) job') ∨
    (∃ now toolName parentJobId, op = .createWithParent id now toolName parentJobId ∧
      job' = Job.new id now toolName parentJobId (m.tokenFor parentJobId).1) := by
  -- Only a creation and a transition put a job into the map.
  cases op with
  | createWithParent id' now toolName parentJobId =>
      by_cases hid : id = id'
      · subst hid
        simp only [JobManager.apply, JobManager.createWithParent, JobManager.get,
          AList.lookup_insert, Option.some.injEq] at h
        exact .inr (.inr ⟨now, toolName, parentJobId, rfl, h.symm⟩)
      · simp only [JobManager.apply, JobManager.createWithParent, JobManager.get,
          AList.lookup_insert_ne hid] at h
        exact .inl h
  | transition now id' t =>
      simp only [JobManager.apply, JobManager.transition] at h
      cases hget : m.get id' with
      | none =>
          simp only [hget] at h
          exact .inl h
      | some job =>
          simp only [hget] at h
          cases hmove : job.transition (T.isCancelled m.tokens job.cancelToken) now t with
          | none =>
              simp only [hmove] at h
              exact .inl h
          | some snapshot =>
              simp only [hmove] at h
              by_cases hid : id = id'
              · subst hid
                simp only [JobManager.get, AList.lookup_insert, Option.some.injEq] at h
                rw [h] at hmove
                exact .inr (.inl ⟨job, hget, Job.transition_moves _ now job job' t hmove⟩)
              · simp only [JobManager.get, AList.lookup_insert_ne hid] at h
                exact .inl h
  | cancel id' =>
      simp only [JobManager.apply, JobManager.cancel] at h
      cases hget : m.get id' with
      | none =>
          simp only [hget] at h
          exact .inl h
      | some job =>
          simp only [hget] at h
          split at h <;> exact .inl h
  | gcStale now olderThan circuit deleted =>
      simp only [JobManager.apply, JobManager.gcStale] at h
      split at h
      · exact .inl h
      · split at h
        · exact .inl h
        · split at h
          · exact .inl h
          · exact .inl (lookup_removeAll m.jobs _ id job' h)

/-- Asking for a cancellation touches no job. -/
theorem JobManager.jobs_cancel (id : String) : (m.cancel id).manager.jobs = m.jobs := by
  unfold JobManager.cancel
  split
  · rfl
  · split <;> rfl

/-- The forest after an operation: untouched, grown by the token of a new job,
    or with the token of an open job cancelled. -/
theorem tokens_apply : (m.apply op).manager.tokens = m.tokens ∨
    (∃ id now toolName parentJobId, op = .createWithParent id now toolName parentJobId ∧
      (m.apply op).manager.tokens = (m.tokenFor parentJobId).2) ∨
    (∃ id job, op = .cancel id ∧ m.get id = some job ∧ job.status.isTerminal = false ∧
      (m.apply op).manager.tokens = T.cancel m.tokens job.cancelToken) := by
  cases op with
  | createWithParent id now toolName parentJobId =>
      exact .inr (.inl ⟨id, now, toolName, parentJobId, rfl, rfl⟩)
  | transition now id t =>
      simp only [JobManager.apply, JobManager.transition]
      split
      · exact .inl rfl
      · split <;> exact .inl rfl
  | cancel id =>
      cases hget : m.get id with
      | none => exact .inl (by simp only [JobManager.apply, JobManager.cancel, hget])
      | some job =>
          by_cases hopen : job.status = .pending ∨ job.status = .running
          · refine .inr (.inr ⟨id, job, rfl, hget, ?_, ?_⟩)
            · rcases hopen with hopen | hopen <;> rw [hopen] <;> rfl
            · simp only [JobManager.apply, JobManager.cancel, hget, if_pos hopen]
          · exact .inl (by simp only [JobManager.apply, JobManager.cancel, hget, if_neg hopen])
  | gcStale now olderThan circuit deleted =>
      simp only [JobManager.apply, JobManager.gcStale]
      split
      · exact .inl rfl
      · split
        · exact .inl rfl
        · split <;> exact .inl rfl

/-! ## Tokens -/

/-- The tokens of all tracked jobs were handed out by the forest. -/
def LiveTokens (m : JobManager T) : Prop :=
  ∀ id job, m.get id = some job → T.Live m.tokens job.cancelToken

/-- What the token of a new job is to the tokens that were there: it changes
    none of them, it is above none of them, and what it inherits it inherits
    from the token of a tracked parent. -/
structure NewToken (m : JobManager T) (parentJobId : Option String) (new : T.Token × T.Forest) :
    Prop where
  live : T.Live new.2 new.1
  liveOld : ∀ t, T.Live m.tokens t → T.Live new.2 t
  cancelled : T.isCancelled new.2 new.1 = true →
    ∃ p parent, parentJobId = some p ∧ m.get p = some parent ∧
      T.isCancelled m.tokens parent.cancelToken = true
  cancelledOld : ∀ t, T.Live m.tokens t → T.isCancelled new.2 t = T.isCancelled m.tokens t
  below : ∀ t, T.Live m.tokens t → T.Below new.2 t new.1 →
    ∃ p parent, parentJobId = some p ∧ m.get p = some parent ∧
      T.Below m.tokens t parent.cancelToken
  above : ∀ t, T.Live m.tokens t → ¬ T.Below new.2 new.1 t
  belowOld : ∀ t u, T.Live m.tokens t → T.Live m.tokens u →
    (T.Below new.2 t u ↔ T.Below m.tokens t u)

theorem newToken_tokenFor (hlive : LiveTokens m) (parentJobId : Option String) :
    NewToken m parentJobId (m.tokenFor parentJobId) := by
  cases hparent : parentJobId.bind m.get with
  | none =>
      have hnew : m.tokenFor parentJobId = T.new m.tokens := by
        simp only [JobManager.tokenFor, hparent]
      rw [hnew]
      exact
        { live := T.live_new m.tokens
          liveOld := T.live_new_old m.tokens
          cancelled := fun h => absurd (T.isCancelled_new m.tokens ▸ h) (by decide)
          cancelledOld := T.isCancelled_new_old m.tokens
          below := fun t ht h => absurd h (T.below_new m.tokens t ht)
          above := T.below_new_above m.tokens
          belowOld := T.below_new_old m.tokens }
  | some parent =>
      have hchild : m.tokenFor parentJobId = T.childToken m.tokens parent.cancelToken := by
        simp only [JobManager.tokenFor, hparent]
      rcases Option.bind_eq_some_iff.mp hparent with ⟨p, hp, hget⟩
      have hplive := hlive p parent hget
      rw [hchild]
      exact
        { live := T.live_child m.tokens _ hplive
          liveOld := T.live_child_old m.tokens _
          cancelled := fun h => ⟨p, parent, hp, hget, T.isCancelled_child m.tokens _ hplive ▸ h⟩
          cancelledOld := T.isCancelled_child_old m.tokens _
          below := fun t ht h => ⟨p, parent, hp, hget,
            (T.below_child m.tokens _ t hplive ht).mp h⟩
          above := T.below_child_above m.tokens _
          belowOld := T.below_child_old m.tokens _ }

/-- What an operation does to the tokens that were there: they stay handed
    out, keep their order, and are cancelled only by a cancellation of an open
    job at or above them. -/
structure TokensKept (m m' : JobManager T) (op : Op) : Prop where
  live : ∀ t, T.Live m.tokens t → T.Live m'.tokens t
  below : ∀ t u, T.Live m.tokens t → T.Live m.tokens u →
    (T.Below m'.tokens t u ↔ T.Below m.tokens t u)
  cancelled : ∀ t, T.Live m.tokens t → T.isCancelled m.tokens t = true →
    T.isCancelled m'.tokens t = true
  cause : ∀ t, T.Live m.tokens t → T.isCancelled m'.tokens t = true →
    T.isCancelled m.tokens t = true ∨
    ∃ id job, op = .cancel id ∧ m.get id = some job ∧ job.status.isTerminal = false ∧
      T.Below m.tokens job.cancelToken t

theorem tokensKept_apply (hlive : LiveTokens m) (op : Op) :
    TokensKept m (m.apply op).manager op := by
  rcases tokens_apply m op with hsame | ⟨id, now, toolName, parentJobId, _, hgrown⟩ |
    ⟨id, job, hop, hget, hopen, hcancel⟩
  -- The forest is the same, has one token more, or one was cancelled.
  · refine ⟨?_, ?_, ?_, ?_⟩ <;> rw [hsame]
    · exact fun _ ht => ht
    · exact fun _ _ _ _ => Iff.rfl
    · exact fun _ _ h => h
    · exact fun _ _ h => .inl h
  · have hnew := newToken_tokenFor m hlive parentJobId
    refine ⟨?_, ?_, ?_, ?_⟩ <;> rw [hgrown]
    · exact hnew.liveOld
    · exact hnew.belowOld
    · exact fun t ht h => hnew.cancelledOld t ht ▸ h
    · exact fun t ht h => .inl (hnew.cancelledOld t ht ▸ h)
  · have hjob := hlive id job hget
    refine ⟨?_, ?_, ?_, ?_⟩ <;> rw [hcancel]
    · exact T.live_cancel m.tokens _
    · exact fun t u _ _ => T.below_cancel m.tokens _ t u
    · exact fun t ht h => (T.isCancelled_cancel m.tokens _ t hjob ht).mpr (.inl h)
    · intro t ht h
      rcases (T.isCancelled_cancel m.tokens _ t hjob ht).mp h with h | h
      · exact .inl h
      · exact .inr ⟨id, job, hop, hget, hopen, h⟩

/-! ## The invariant -/

theorem Descends.append (ops more : List Op) (ancestor id : String) (h : Descends ops ancestor id) :
    Descends (ops ++ more) ancestor id := by
  induction h with
  | refl => exact .refl
  | parent parent child now toolName hcreate _ ih =>
      exact .parent parent child now toolName (List.mem_append_left more hcreate) ih

theorem CancelRequested.append (ops more : List Op) (id : String) (h : CancelRequested T ops id) :
    CancelRequested T (ops ++ more) id := by
  rcases h with ⟨before, ancestor, after, hops, hdesc, hstate⟩
  refine ⟨before, ancestor, after ++ more, ?_, hdesc.append ops more, hstate⟩
  rw [hops, List.append_assoc, List.cons_append]

/-- A request that reached the parent reaches a child created after it. -/
theorem CancelRequested.child (parent child : String) (now : DateTime) (toolName : String)
    (h : CancelRequested T ops parent) :
    CancelRequested T (ops ++ [.createWithParent child now toolName (some parent)]) child := by
  rcases h.append ops [.createWithParent child now toolName (some parent)] with
    ⟨before, ancestor, after, hops, hdesc, hstate⟩
  refine ⟨before, ancestor, after, hops, ?_, hstate⟩
  exact .parent parent child now toolName (List.mem_append_right ops List.mem_cons_self) hdesc

theorem PassedThroughRunning.append (ops more : List Op) (id : String)
    (h : PassedThroughRunning T ops id) : PassedThroughRunning T (ops ++ more) id := by
  rcases h with ⟨before, after, hops, hstate⟩
  exact ⟨before, after ++ more, by rw [hops, List.append_assoc], hstate⟩

/-- The invariant of the registry after the given operations. -/
structure Tracked (ops : List Op) (m : JobManager T) : Prop where
  created : ∀ id job, m.get id = some job → id ∈ ops.filterMap Op.createdId
  keyed : ∀ id job, m.get id = some job → job.id = id
  consistent : ∀ id job, m.get id = some job → job.Consistent
  live : LiveTokens m
  below : ∀ id job id' job', m.get id = some job → m.get id' = some job' →
    T.Below m.tokens job.cancelToken job'.cancelToken → Descends ops id id'
  cancelled : ∀ id job, m.get id = some job → job.status = .cancelled →
    T.isCancelled m.tokens job.cancelToken = true
  cause : ∀ id job, m.get id = some job → T.isCancelled m.tokens job.cancelToken = true →
    CancelRequested T ops id
  ran : ∀ id job, m.get id = some job → job.startedAt.isSome = true →
    PassedThroughRunning T ops id

theorem tracked_new : Tracked [] (JobManager.new T) := by
  have hnone : ∀ id job, ¬ (JobManager.new T).get id = some job := by
    intro id job h
    simp [JobManager.get, JobManager.new, AList.lookup_empty] at h
  constructor
  case live => exact fun id job h => absurd h (hnone id job)
  case below => exact fun id job _ _ h => absurd h (hnone id job)
  all_goals exact fun id job h => absurd h (hnone id job)

/-- What an operation leaves of the token of a job, or where its token comes
    from: the token stays with the job, and a new job has a new token. -/
theorem token_apply (id : String) (job' : Job T.Token)
    (h : (m.apply op).manager.get id = some job') :
    (∃ job, m.get id = some job ∧ job'.cancelToken = job.cancelToken) ∨
    (∃ now toolName parentJobId, op = .createWithParent id now toolName parentJobId ∧
      job'.cancelToken = (m.tokenFor parentJobId).1 ∧
      (m.apply op).manager.tokens = (m.tokenFor parentJobId).2) := by
  rcases get_apply m op id job' h with hold | ⟨job, hget, hmoves⟩ |
    ⟨now, toolName, parentJobId, hop, hjob⟩
  · exact .inl ⟨job', hold, rfl⟩
  · exact .inl ⟨job, hget, (Job.moves_identity _ job job' hmoves).2.2⟩
  · refine .inr ⟨now, toolName, parentJobId, hop, ?_, ?_⟩
    · rw [hjob]
      rfl
    · rw [hop]
      rfl

/-- Descent follows the tokens, also for a job that was just created. -/
theorem below_apply (htracked : Tracked ops m) (id id' : String) (job job' : Job T.Token)
    (hget : (m.apply op).manager.get id = some job)
    (hget' : (m.apply op).manager.get id' = some job')
    (hbelow : T.Below (m.apply op).manager.tokens job.cancelToken job'.cancelToken) :
    Descends (ops ++ [op]) id id' := by
  have hkept := tokensKept_apply m htracked.live op
  rcases token_apply m op id job hget with ⟨old, hold, htok⟩ | ⟨now, tool, parent, hop, htok, hforest⟩
  -- The job was there before; the one below it may be new.
  · have hlive := htracked.live id old hold
    rcases token_apply m op id' job' hget' with ⟨old', hold', htok'⟩ |
      ⟨now', tool', parent', hop', htok', hforest'⟩
    · rw [htok, htok', hkept.below _ _ hlive (htracked.live id' old' hold')] at hbelow
      exact (htracked.below id old id' old' hold hold' hbelow).append ops [op]
    · -- The new job hangs below `id` only through its parent.
      rw [htok, htok', hforest'] at hbelow
      rcases (newToken_tokenFor m htracked.live parent').below _ hlive hbelow with
        ⟨p, pjob, hp, hpget, hpbelow⟩
      refine .parent p id' now' tool' ?_ ((htracked.below id old p pjob hold hpget hpbelow).append _ _)
      rw [hop', hp]
      exact List.mem_append_right ops List.mem_cons_self
  · rcases token_apply m op id' job' hget' with ⟨old', hold', htok'⟩ |
      ⟨now', tool', parent', hop', _, _⟩
    · rw [htok, htok', hforest] at hbelow
      exact absurd hbelow ((newToken_tokenFor m htracked.live parent).above _
        (htracked.live id' old' hold'))
    · rw [hop] at hop'
      simp only [Op.createWithParent.injEq] at hop'
      rw [hop'.1]
      exact .refl

/-- A cancelled token was cancelled on request, also for a job that was just
    created below a cancelled one. -/
theorem cause_apply (htracked : Tracked ops m)
    (hrun : exec JobManager.step (JobManager.new T) ops = some m)
    (id : String) (job : Job T.Token) (hget : (m.apply op).manager.get id = some job)
    (hcancelled : T.isCancelled (m.apply op).manager.tokens job.cancelToken = true) :
    CancelRequested T (ops ++ [op]) id := by
  have hkept := tokensKept_apply m htracked.live op
  rcases token_apply m op id job hget with ⟨old, hold, htok⟩ | ⟨now, tool, parent, hop, htok, hforest⟩
  · rw [htok] at hcancelled
    -- A token that was not cancelled is so now by this operation.
    rcases hkept.cause _ (htracked.live id old hold) hcancelled with hbefore |
      ⟨c, cjob, hop, hcget, hopen, hbelow⟩
    · exact (htracked.cause id old hold hbefore).append ops [op]
    · refine ⟨ops, c, [], by rw [hop], ?_, m, cjob, hrun, hcget, hopen⟩
      exact (htracked.below c cjob id old hcget hold hbelow).append ops [op]
  · rw [htok, hforest] at hcancelled
    rcases (newToken_tokenFor m htracked.live parent).cancelled hcancelled with
      ⟨p, pjob, hp, hpget, hpcancelled⟩
    rw [hop, hp]
    exact (htracked.cause p pjob hpget hpcancelled).child ops p id now tool

/-- Every operation keeps the invariant. -/
theorem tracked_step (htracked : Tracked ops m)
    (hrun : exec JobManager.step (JobManager.new T) ops = some m) :
    Tracked (ops ++ [op]) (m.apply op).manager := by
  have hkept := tokensKept_apply m htracked.live op
  have hrun' : exec JobManager.step (JobManager.new T) (ops ++ [op]) = some (m.apply op).manager :=
    (exec_snoc _ _ _ _ _).mpr ⟨m, hrun, rfl⟩
  refine
    { created := fun id job hget => ?created
      keyed := fun id job hget => ?keyed
      consistent := fun id job hget => ?consistent
      live := fun id job hget => ?live
      below := fun id job id' job' hget hget' hbelow =>
        below_apply ops m op htracked id id' job job' hget hget' hbelow
      cancelled := fun id job hget hstatus => ?cancelled
      cause := fun id job hget hcancelled =>
        cause_apply ops m op htracked hrun id job hget hcancelled
      ran := fun id job hget hstarted => ?ran }
  case created =>
    -- A job that is in the map was there, or is the one just created.
    rw [List.filterMap_append, List.mem_append]
    rcases get_apply m op id job hget with hold | ⟨old, hold, _⟩ | ⟨now, tool, parent, hop, _⟩
    · exact .inl (htracked.created id job hold)
    · exact .inl (htracked.created id old hold)
    · rw [hop]
      exact .inr List.mem_cons_self
  case keyed =>
    rcases get_apply m op id job hget with hold | ⟨old, hold, hmoves⟩ | ⟨now, tool, parent, hop, hjob⟩
    · exact htracked.keyed id job hold
    · rw [(Job.moves_identity _ old job hmoves).1]
      exact htracked.keyed id old hold
    · rw [hjob]
      rfl
  case consistent =>
    rcases get_apply m op id job hget with hold | ⟨old, hold, hmoves⟩ | ⟨now, tool, parent, hop, hjob⟩
    · exact htracked.consistent id job hold
    · exact Job.moves_consistent _ old job hmoves (htracked.consistent id old hold)
    · rw [hjob]
      exact Job.new_consistent id now tool parent _
  case live =>
    rcases token_apply m op id job hget with ⟨old, hold, htok⟩ | ⟨now, tool, parent, hop, htok, hforest⟩
    · rw [htok]
      exact hkept.live _ (htracked.live id old hold)
    · rw [htok, hforest]
      exact (newToken_tokenFor m htracked.live parent).live
  case cancelled =>
    rcases get_apply m op id job hget with hold | ⟨old, hold, hmoves⟩ | ⟨now, tool, parent, hop, hjob⟩
    · exact hkept.cancelled _ (htracked.live id job hold) (htracked.cancelled id job hold hstatus)
    · rw [(Job.moves_identity _ old job hmoves).2.2]
      refine hkept.cancelled _ (htracked.live id old hold) ?_
      cases hmoves with
      | output => exact htracked.cancelled id old hold hstatus
      | acknowledgeCancel _ _ hcancelled => exact hcancelled
      | progress => exact htracked.cancelled id old hold hstatus
      | _ => simp at hstatus
    · rw [hjob] at hstatus
      simp [Job.new] at hstatus
  case ran =>
    rcases get_apply m op id job hget with hold | ⟨old, hold, hmoves⟩ | ⟨now, tool, parent, hop, hjob⟩
    · exact (htracked.ran id job hold hstarted).append ops [op]
    · rcases Job.moves_startedAt _ old job hmoves with hsame | ⟨_, hrunning⟩
      · rw [hsame] at hstarted
        exact (htracked.ran id old hold hstarted).append ops [op]
      · exact ⟨ops ++ [op], [], by rw [List.append_nil], _, job, hrun', hget, hrunning⟩
    · rw [hjob] at hstarted
      simp [Job.new] at hstarted

/-- Every reachable registry satisfies the invariant. -/
theorem tracked_of_run (hrun : exec JobManager.step (JobManager.new T) ops = some m) :
    Tracked ops m := by
  have h := exec_history JobManager.step (fun _ _ => True)
    (fun as t => exec JobManager.step (JobManager.new T) as = some t ∧ Tracked as t)
    (JobManager.new T) ⟨rfl, tracked_new⟩ ?_ ops m (along_true _ _ _) hrun
  · exact h.2
  · rintro as t op u ⟨hrun, htracked⟩ _ hstep
    have hu : (t.apply op).manager = u := Option.some.inj hstep
    subst hu
    exact ⟨(exec_snoc _ _ _ _ _).mpr ⟨t, hrun, hstep⟩, tracked_step as t op htracked hrun⟩

/-! ## Jobs over a run -/

/-- A job that is still tracked after a run that does not create it again is
    a later state of the job that was tracked before. -/
theorem later_of_run (m m' : JobManager T) (ops : List Op) (id : String)
    (hfresh : id ∉ ops.filterMap Op.createdId) (hrun : exec JobManager.step m ops = some m')
    (job job' : Job T.Token) (hget : m.get id = some job) (hget' : m'.get id = some job') :
    job.Later job' := by
  -- No operation of the run creates the job again.
  have hok : Along JobManager.step (fun _ op => Op.createdId op ≠ some id) m ops := by
    refine along_of_forall_mem _ _ m ops (fun op hop _ hid => hfresh ?_)
    exact List.mem_filterMap.mpr ⟨op, hop, hid⟩
  refine exec_history JobManager.step _ (fun _ t => ∀ later, t.get id = some later → job.Later later)
    m ?_ ?_ ops m' hok hrun job' hget'
  · intro later hlater
    rw [hget, Option.some.injEq] at hlater
    exact hlater ▸ .refl job
  · intro _ t op u ih hid hstep later hlater
    have hu : (t.apply op).manager = u := Option.some.inj hstep
    rw [← hu] at hlater
    rcases get_apply t op id later hlater with hold | ⟨old, hold, hmoves⟩ | ⟨_, _, _, hop, _⟩
    · exact ih later hold
    · exact (ih old hold).trans job old later (Job.later_of_moves _ old later hmoves)
    · exact absurd (by rw [hop]; rfl) hid

/-- What holds of every job the registry tracks after the given operations,
    and of what the next operation may do. -/
structure JobInvariant (ops : List Op) (m : JobManager T) : Prop where
  /-- A terminal status never changes again. -/
  terminal : ∀ before after m₀ id job₀ job, ops = before ++ after →
    exec JobManager.step (JobManager.new T) before = some m₀ →
    m₀.get id = some job₀ → m.get id = some job →
    job₀.status.isTerminal = true → job.status = job₀.status
  completedAt : ∀ id job, m.get id = some job →
    (job.completedAt.isSome = true ↔ job.status.isTerminal = true)
  result : ∀ id job, m.get id = some job → (job.result.isSome = true ↔ job.status = .completed)
  error : ∀ id job, m.get id = some job → (job.error.isSome = true ↔ job.status = .failed)
  startedAt : ∀ id job, m.get id = some job →
    (job.startedAt.isSome = true ↔ PassedThroughRunning T ops id)
  finished : ∀ id job, m.get id = some job → job.status = .completed ∨ job.status = .failed →
    job.startedAt.isSome = true
  cancelled : ∀ id job, m.get id = some job → job.status = .cancelled →
    T.isCancelled m.tokens job.cancelToken = true
  /-- A token is cancelled only by a request on the job or an ancestor. -/
  requested : ∀ id job, m.get id = some job →
    T.isCancelled m.tokens job.cancelToken = true → CancelRequested T ops id
  bounded : ∀ id job p, m.get id = some job → job.progress = some p → p.current ≤ p.total
  /-- Progress, once set, stays set and does not go backwards. -/
  monotone : ∀ before after m₀ id job₀ job p, ops = before ++ after →
    exec JobManager.step (JobManager.new T) before = some m₀ →
    m₀.get id = some job₀ → m.get id = some job → job₀.progress = some p →
    ∃ q, job.progress = some q ∧ p.current ≤ q.current ∧ p.total ≤ q.total
  /-- An operation that answers `None` leaves every job as it is. -/
  refused : ∀ op, (m.apply op).reply = .done none → (m.apply op).manager = m

/-- The state machine of the jobs, over every sequence of operations on any
    forest of parents and children. The one assumption is that the generated
    ids differ. -/
theorem job_state_machine (ops : List Op) (m : JobManager T)
    (hids : (ops.filterMap Op.createdId).Nodup)
    (hrun : exec JobManager.step (JobManager.new T) ops = some m) : JobInvariant ops m := by
  have htracked := tracked_of_run ops m hrun
  -- A job of an earlier registry is not created again, so it only moves on.
  have hlater : ∀ before after m₀ id job₀ job, ops = before ++ after →
      exec JobManager.step (JobManager.new T) before = some m₀ →
      m₀.get id = some job₀ → m.get id = some job → job₀.Later job := by
    intro before after m₀ id job₀ job hops hbefore hget₀ hget
    subst hops
    rcases (exec_append _ _ _ _ _).mp hrun with ⟨m₁, hm₁, hafter⟩
    rw [hbefore, Option.some.injEq] at hm₁
    subst hm₁
    rw [List.filterMap_append] at hids
    have hcreated := (tracked_of_run before m₀ hbefore).created id job₀ hget₀
    exact later_of_run m₀ m after id (List.disjoint_of_nodup_append hids hcreated) hafter job₀ job
      hget₀ hget
  exact
    { terminal := fun before after m₀ id job₀ job hops hbefore hget₀ hget =>
        (hlater before after m₀ id job₀ job hops hbefore hget₀ hget).terminal
      completedAt := fun id job hget => (htracked.consistent id job hget).completedAt
      result := fun id job hget => (htracked.consistent id job hget).result
      error := fun id job hget => (htracked.consistent id job hget).error
      startedAt := fun id job hget => by
        refine ⟨htracked.ran id job hget, ?_⟩
        rintro ⟨before, after, hops, m₀, job₀, hbefore, hget₀, hrunning⟩
        have hconsistent := (tracked_of_run before m₀ hbefore).consistent id job₀ hget₀
        exact (hlater before after m₀ id job₀ job hops hbefore hget₀ hget).started
          (hconsistent.started (.inl hrunning))
      finished := fun id job hget hstatus =>
        (htracked.consistent id job hget).started (.inr hstatus)
      cancelled := htracked.cancelled
      requested := htracked.cause
      bounded := fun id job p hget hp => (htracked.consistent id job hget).progress p hp
      monotone := fun before after m₀ id job₀ job p hops hbefore hget₀ hget hp =>
        (hlater before after m₀ id job₀ job hops hbefore hget₀ hget).progress p hp
      refused := apply_none m }

/-- A parent and its child, both started; the parent is cancelled, the child
    acknowledges, and the parent completes all the same. -/
def familyRun : List Op :=
  [.createWithParent "p" 1 "render" none, .createWithParent "c" 2 "frame" (some "p"),
    .transition 3 "p" .start, .transition 4 "c" .start,
    .transition 5 "c" (.updateProgress ⟨1, 4, none⟩), .cancel "p",
    .transition 6 "c" .acknowledgeCancel, .transition 7 "p" (.complete .null),
    .transition 8 "p" (.fail "too late")]

theorem job_state_machine_family :
    ∃ m : JobManager CancellationTokens.lineageTokens,
      exec JobManager.step (JobManager.new CancellationTokens.lineageTokens) familyRun = some m ∧
      JobInvariant familyRun m :=
  ⟨_, rfl, job_state_machine familyRun _ (by decide) rfl⟩

end Jobs

end DccMcp
