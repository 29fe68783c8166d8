import DccMcp.Host.Outcomes

/-!
# What a Shutdown Leaves Behind

A shutdown sets the flag, waits for the lock of the receiving end, cancels
what is in the channel until the channel is empty, and returns. Nothing in it
waits for a tick that has already taken its batch: those jobs run on, and
their results reach their callers, also after the shutdown has returned. And
it gives the lock up after a thousand attempts, with nothing cancelled.

So the line is drawn at one moment: when the drain of the shutdown finds the
channel empty. Every job that had entered by then has been run or cancelled
when the shutdown returns, or is in the batch of a tick that had taken it
before, and of these jobs only the ones in such a batch run afterwards. And
a post that looks at the flag after it was set is refused.

## Main definitions

* `DrainedAt`: The moment the drain of a shutdown found the channel empty.

## Theorems

* `shutdown_final`: What a shutdown that returned leaves behind.
-/

namespace DccMcp

namespace Host

open Machine

/-! ## The past stays -/

/-- What was taken out of the channel and what was settled stays on record. -/
structure Extends (s s' : State) : Prop where
  taken : s.ledger.taken ⊆ s'.ledger.taken
  settled : s.ledger.settled ⊆ s'.ledger.settled

variable (cfg : Config) (s s' : State) (a : Action)

theorem extends_of_accounts (h : Accounts s s') : Extends s s' := by
  cases h with
  | same hledger =>
      constructor <;> rw [hledger] <;> exact List.Subset.refl _
  | enter j _ hledger =>
      constructor <;> rw [hledger] <;> exact List.Subset.refl _
  | take p j _ hledger =>
      constructor <;> rw [hledger]
      · exact List.subset_append_left _ _
      · exact List.Subset.refl _
  | settle p j rest _ hledger =>
      constructor <;> rw [hledger]
      · exact List.Subset.refl _
      · exact List.subset_append_left _ _

theorem extends_of_run (as : List Action) (hrun : exec (step cfg) s as = some s') :
    Extends s s' := by
  refine exec_invariant (step cfg) (Extends s) (fun t a u ht hstep => ?_) s s' as
    ⟨List.Subset.refl _, List.Subset.refl _⟩ hrun
  have hnext := extends_of_accounts t u (accounts_of_step cfg t u a hstep)
  exact ⟨List.Subset.trans ht.taken hnext.taken, List.Subset.trans ht.settled hnext.settled⟩

theorem mem_jobsRun (s : State) (t : TickId) (j : JobId)
    (h : (Party.tick t, j) ∈ s.ledger.settled) : j ∈ s.jobsRun :=
  (Ledger.mem_entriesIn _ _ j).mpr ⟨.tick t, rfl, h⟩

theorem mem_jobsCancelled (s : State) (k : ShutdownId) (j : JobId)
    (h : (Party.shutdown k, j) ∈ s.ledger.settled) : j ∈ s.jobsCancelled :=
  (Ledger.mem_entriesIn _ _ j).mpr ⟨.shutdown k, rfl, h⟩

/-! ## The flag -/

/-- A shutdown that was called has set the flag. -/
def FlagSet (s : State) : Prop := ∀ k, s.shutdowns k ≠ .notCalled → s.shutdown = true

/-- A step of a shutdown changes the phase of that shutdown only. It sets the
    flag with its first step and never clears it. -/
theorem shutdownStep_moves (h : shutdownStep s a = some s') :
    ∃ k phase, s'.shutdowns = Function.update s.shutdowns k phase ∧
      ((s.shutdowns k ≠ .notCalled ∧ s'.shutdown = s.shutdown) ∨ s'.shutdown = true) := by
  cases shutDown_of_shutdownStep s s' a h with
  | set k => exact ⟨k, _, rfl, .inr rfl⟩
  | lock k _ hphase | spin k _ _ hphase | drained k hphase | drain k _ _ hphase
  | cancel k _ hphase | sub k hphase | clear k hphase | unlock k hphase =>
      exact ⟨k, _, rfl, .inl ⟨by simp [hphase], rfl⟩⟩

/-- The flag is never cleared. -/
theorem flag_step (h : step cfg s a = some s') (hflag : s.shutdown = true) :
    s'.shutdown = true := by
  rcases step_cases cfg s s' a h with h | h | h
  · rw [(enqueueStep_frame cfg s s' a h).2.2.2.1]
    exact hflag
  · rw [(tickStep_frame cfg s s' a h).2.2.1]
    exact hflag
  · rcases shutdownStep_moves s s' a h with ⟨k, phase, _, ⟨_, hsame⟩ | hset⟩
    · rw [hsame]
      exact hflag
    · exact hset

theorem flagSet_step (h : step cfg s a = some s') (hset : FlagSet s) : FlagSet s' := by
  rcases step_cases cfg s s' a h with h | h | h
  · rcases enqueueStep_frame cfg s s' a h with ⟨_, hshut, _, hflag, _⟩
    rw [FlagSet, hshut, hflag]
    exact hset
  · rcases tickStep_frame cfg s s' a h with ⟨_, hshut, hflag, _⟩
    rw [FlagSet, hshut, hflag]
    exact hset
  · rcases shutdownStep_moves s s' a h with ⟨k, phase, hshut, ⟨hcalled, hsame⟩ | hflag⟩
    · intro l hl
      rw [hsame]
      by_cases hlk : l = k
      · exact hset k hcalled
      · rw [hshut, Function.update_of_ne hlk] at hl
        exact hset l hl
    · exact fun _ _ => hflag

theorem flagSet_of_run (s : State) (as : List Action) (hrun : exec (step cfg) init as = some s) :
    FlagSet s :=
  exec_invariant (step cfg) FlagSet (fun s a s' hset h => flagSet_step cfg s s' a h hset) init s as
    (fun _ h => absurd rfl h) hrun

/-- A step of a post changes the phase of that post only: it looks at the
    flag, or it is past it and was not refused. -/
theorem enqueueStep_moves (h : enqueueStep cfg s a = some s') :
    ∃ j phase, s'.enqueues = Function.update s.enqueues j phase ∧
      ((s.enqueues j = .notCalled ∧ phase = if s.shutdown then .refusedShutdown else .admitted) ∨
        (s.enqueues j ≠ .notCalled ∧ s.enqueues j ≠ .refusedShutdown)) := by
  cases a with
  | checkShutdown j =>
      simp only [enqueueStep] at h
      split at h
      · next hphase => exact ⟨j, _, by rw [← Option.some.inj h]; rfl, .inl ⟨hphase, rfl⟩⟩
      · simp at h
  | checkCapacity j | countRejected j | loadDepth j | send j | countPending j | countTotal j
  | pushSubmitTime j =>
      simp only [enqueueStep] at h
      split at h
      · next hphase =>
          refine ⟨j, _, by rw [← Option.some.inj h]; rfl, .inr ?_⟩
          rw [hphase]
          simp
      · simp at h
  | _ => simp [enqueueStep] at h

/-- Once the flag is set, a post that has not looked at it yet is refused. -/
theorem refused_after_flag (as : List Action) (j : JobId) (hrun : exec (step cfg) s as = some s')
    (hflag : s.shutdown = true)
    (hj : s.enqueues j = .notCalled) :
    s'.enqueues j = .notCalled ∨ s'.enqueues j = .refusedShutdown := by
  have h := exec_invariant (step cfg)
    (fun t => t.shutdown = true ∧ (t.enqueues j = .notCalled ∨ t.enqueues j = .refusedShutdown))
    ?_ s s' as ⟨hflag, .inl hj⟩ hrun
  · exact h.2
  · rintro t a u ⟨htflag, htj⟩ hstep
    refine ⟨flag_step cfg t u a hstep htflag, ?_⟩
    rcases step_cases cfg t u a hstep with h | h | h
    · rcases enqueueStep_moves cfg t u a h with ⟨i, phase, henq, hphase⟩
      rw [henq]
      by_cases hij : j = i
      · subst hij
        rw [Function.update_self]
        rcases hphase with ⟨_, hrefused⟩ | ⟨hnot, hnot'⟩
        · rw [htflag] at hrefused
          exact .inr hrefused
        · exact absurd htj (not_or.mpr ⟨hnot, hnot'⟩)
      · rw [Function.update_of_ne hij]
        exact htj
    · rw [(tickStep_frame cfg t u a h).1]
      exact htj
    · rw [(shutdownStep_frame t u a h).1]
      exact htj

/-! ## The moment the channel was empty -/

/-- The shutdown has found the channel empty. -/
def ShutdownPhase.pastEmpty : ShutdownPhase → Bool
  | .clearing | .unlocking | .returned => true
  | _ => false

/-- The run after which the drain of the shutdown found the channel empty. -/
def DrainedAt (cfg : Config) (as : List Action) (k : ShutdownId) (before : List Action)
    (s₀ : State) : Prop :=
  (∃ after, as = before ++ .drainShutdown k :: after) ∧ exec (step cfg) init before = some s₀ ∧
    s₀.shutdowns k = .draining ∧ s₀.channel = []

/-- A shutdown gets past its drain only by finding the channel empty. -/
theorem pastEmpty_step (h : shutdownStep s a = some s') (k : ShutdownId)
    (hk : (s'.shutdowns k).pastEmpty = true) :
    (s.shutdowns k).pastEmpty = true ∨
      (a = .drainShutdown k ∧ s.shutdowns k = .draining ∧ s.channel = []) := by
  -- What the step does to the phase of the shutdown that takes it.
  have hself : ∀ (l : ShutdownId) (phase : ShutdownPhase),
      s'.shutdowns = Function.update s.shutdowns l phase →
      (phase.pastEmpty = true → (s.shutdowns l).pastEmpty = true ∨
        (a = .drainShutdown l ∧ s.shutdowns l = .draining ∧ s.channel = [])) →
      (s.shutdowns k).pastEmpty = true ∨
        (a = .drainShutdown k ∧ s.shutdowns k = .draining ∧ s.channel = []) := by
    intro l phase hshut hphase
    rw [hshut] at hk
    by_cases hkl : k = l
    · subst hkl
      rw [Function.update_self] at hk
      exact hphase hk
    · rw [Function.update_of_ne hkl] at hk
      exact .inl hk
  cases shutDown_of_shutdownStep s s' a h with
  | spin l =>
      refine hself l _ rfl (fun hp => ?_)
      split at hp <;> simp [ShutdownPhase.pastEmpty] at hp
  | drained l hphase hempty => exact hself l _ rfl (fun _ => .inr ⟨rfl, hphase, hempty⟩)
  | clear l hphase | unlock l hphase =>
      exact hself l _ rfl (fun _ => .inl (by rw [hphase]; rfl))
  | set l | lock l | drain l | cancel l | sub l =>
      exact hself l _ rfl (fun hp => by simp [ShutdownPhase.pastEmpty] at hp)

/-- A shutdown that is past its drain had found the channel empty. -/
theorem drained_of_pastEmpty (as : List Action) (s : State) (k : ShutdownId)
    (hrun : exec (step cfg) init as = some s) (hk : (s.shutdowns k).pastEmpty = true) :
    ∃ before s₀, DrainedAt cfg as k before s₀ := by
  have h := exec_history (step cfg) (fun _ _ => True)
    (fun as t => exec (step cfg) init as = some t ∧
      ((t.shutdowns k).pastEmpty = true → ∃ before s₀, DrainedAt cfg as k before s₀))
    init ⟨rfl, fun hp => by simp [init, ShutdownPhase.pastEmpty] at hp⟩
    ?_ as s (along_true _ _ _) hrun
  · exact h.2 hk
  · rintro as t a u ⟨hrun, ih⟩ _ hstep
    refine ⟨(exec_snoc _ _ _ _ _).mpr ⟨t, hrun, hstep⟩, fun hu => ?_⟩
    -- The moment stays the same when the run goes on.
    have hextend : (t.shutdowns k).pastEmpty = true →
        ∃ before s₀, DrainedAt cfg (as ++ [a]) k before s₀ := by
      intro ht
      rcases ih ht with ⟨before, s₀, ⟨after, hafter⟩, hrest⟩
      refine ⟨before, s₀, ⟨after ++ [a], ?_⟩, hrest⟩
      rw [hafter, List.append_assoc, List.cons_append]
    rcases step_cases cfg t u a hstep with h | h | h
    · rw [(enqueueStep_frame cfg t u a h).2.1] at hu
      exact hextend hu
    · rw [(tickStep_frame cfg t u a h).2.1] at hu
      exact hextend hu
    · rcases pastEmpty_step t u a h k hu with ht | ⟨ha, hphase, hempty⟩
      · exact hextend ht
      · exact ⟨as, t, ⟨[], by rw [ha]⟩, hrun, hphase, hempty⟩

/-- At the moment the drain finds the channel empty, every job that entered
    was taken out, and the shutdowns have cancelled what they took: the lock
    keeps any other shutdown from holding a job. -/
theorem settled_at_empty (s : State) (k : ShutdownId) (hacc : Accounted cfg s) (hlocked : Locked s)
    (hk : s.shutdowns k = .draining) (hempty : s.channel = [])
    (j : JobId) (hj : j ∈ s.ledger.entered) :
    (∃ t, (Party.tick t, j) ∈ s.ledger.taken) ∨ j ∈ s.jobsCancelled := by
  rw [hacc.balanced.entered, State.waiting, hempty, List.map_nil, List.append_nil,
    List.mem_map] at hj
  rcases hj with ⟨⟨p, i⟩, htaken, rfl⟩
  cases p with
  | tick t => exact .inl ⟨t, htaken⟩
  | shutdown l =>
      right
      rcases hacc.balanced.taken_cases _ _ _ _ _ htaken with hsettled | hheld
      · exact mem_jobsCancelled s l i hsettled
      -- Two shutdowns cannot both be inside their drains.
      · have hlock : s.lock = some (.shutdown k) := hlocked (.shutdown k) (by
          rw [State.inDrain, hk]
          rfl)
        have hphase : (s.shutdowns l).holdsLock = true := by
          simp only [State.held] at hheld
          cases hl : s.shutdowns l <;> rw [hl] at hheld <;> first
            | rfl
            | exact absurd hheld List.not_mem_nil
        have hlock' := hlocked (.shutdown l) hphase
        rw [hlock, Option.some.injEq, Party.shutdown.injEq] at hlock'
        subst hlock'
        rw [State.held, hk] at hheld
        exact absurd hheld List.not_mem_nil

/-! ## A shutdown that returned -/

/-- After a shutdown has returned there is the moment its drain found the
    channel empty. Every job that had entered by then was run, was cancelled,
    or is in the batch of a tick that had taken it out by then; of these jobs
    only the ones in such a batch run afterwards. A post that had not looked
    at the flag when the shutdown returned is refused. -/
theorem shutdown_final (cfg : Config) (as more : List Action) (s s' : State) (k : ShutdownId)
    (hrun : exec (step cfg) init as = some s) (hreturned : s.shutdowns k = .returned)
    (hmore : exec (step cfg) s more = some s') :
    ∃ before s₀, DrainedAt cfg as k before s₀ ∧
      (∀ j ∈ s₀.ledger.entered, j ∈ s.jobsRun ∨ j ∈ s.jobsCancelled ∨
        ∃ t, j ∈ (s.ticks t).held ∧ (Party.tick t, j) ∈ s₀.ledger.taken) ∧
      (∀ j ∈ s'.jobsRun, j ∉ s.jobsRun → j ∈ s₀.ledger.entered →
        ∃ t, j ∈ (s.ticks t).held ∧ (Party.tick t, j) ∈ s₀.ledger.taken) ∧
      (∀ j, s.enqueues j = .notCalled →
        s'.enqueues j = .notCalled ∨ s'.enqueues j = .refusedShutdown) := by
  have hpast : (s.shutdowns k).pastEmpty = true := by rw [hreturned]; rfl
  rcases drained_of_pastEmpty cfg as s k hrun hpast with ⟨before, s₀, hdrained⟩
  refine ⟨before, s₀, hdrained, ?_⟩
  rcases hdrained with ⟨⟨after, hafter⟩, hbefore, hphase, hempty⟩
  have hacc₀ := accounted_of_run cfg s₀ before hbefore
  have hacc := accounted_of_run cfg s as hrun
  -- What was settled at that moment stays settled.
  have hlater : Extends s₀ s := by
    rw [hafter] at hrun
    rcases (exec_append _ _ _ _ _).mp hrun with ⟨t, ht, hrest⟩
    rw [hbefore, Option.some.injEq] at ht
    exact extends_of_run cfg s₀ s _ (ht ▸ hrest)
  -- Every job that had entered was in the hands of a tick or cancelled.
  have houtcome : ∀ j ∈ s₀.ledger.entered, j ∈ s.jobsRun ∨ j ∈ s.jobsCancelled ∨
      ∃ t, j ∈ (s.ticks t).held ∧ (Party.tick t, j) ∈ s₀.ledger.taken := by
    intro j hj
    rcases settled_at_empty cfg s₀ k hacc₀ (locked_of_run cfg s₀ before hbefore) hphase hempty j hj
      with ⟨t, htaken⟩ | hcancelled
    · rcases hacc.balanced.taken_cases _ _ _ _ _ (hlater.taken htaken) with hsettled | hheld
      · exact .inl (mem_jobsRun s t j hsettled)
      · exact .inr (.inr ⟨t, hheld, htaken⟩)
    · rcases cancelled_settled s₀ j hcancelled with ⟨l, hl⟩
      exact .inr (.inl (mem_jobsCancelled s l j (hlater.settled hl)))
  refine ⟨houtcome, fun j hran hnot hj => ?_, fun j hj => ?_⟩
  · have hacc' : Accounted cfg s' :=
      exec_invariant (step cfg) (Accounted cfg)
        (fun s a s' hacc h => accounted_step cfg s s' a h hacc) s s' more hacc hmore
    rcases houtcome j hj with hran' | hcancelled | hbatch
    · exact absurd hran' hnot
    · -- A cancelled job stays cancelled, and so it is not run.
      rcases cancelled_settled s j hcancelled with ⟨l, hl⟩
      have hstill := mem_jobsCancelled s' l j ((extends_of_run cfg s s' more hmore).settled hl)
      exact absurd (.inl hstill) (not_reportedCancelled_of_ran cfg s' hacc' j hran)
    · exact hbatch
  · have hflag : s.shutdown = true := flagSet_of_run cfg s as hrun k (by
      rw [hreturned]
      simp)
    exact refused_after_flag cfg s s' more j hmore hflag hj

/-- A shutdown of an empty channel, undisturbed. -/
def shutdownRun (k : ShutdownId) : List Action :=
  [.setShutdown k, .tryLockShutdown k, .drainShutdown k, .clearSubmitTimes k, .unlockShutdown k]

/-- A tick takes a job, and before it runs it a shutdown begins and returns. -/
def lateRun : List Action :=
  postRun 0 ++ [.callTick 0, .tryLock 0 0] ++ takeRun 0 ++
    [.drainNext 0, .drainNext 0, .subPending 0, .unlockTick 0] ++ shutdownRun 0

/-- A shutdown may return while a job that was accepted has no outcome yet,
    and the job then runs. -/
theorem shutdown_leaves_batch :
    (¬ ∀ (cfg : Config) (as : List Action) (s : State) (k : ShutdownId),
      exec (step cfg) init as = some s → s.shutdowns k = .returned →
      ∀ j, s.enqueues j = .accepted → j ∈ s.jobsRun ∨ s.ReportedCancelled j) ∧
    (¬ ∀ (cfg : Config) (as more : List Action) (s s' : State) (k : ShutdownId),
      exec (step cfg) init as = some s → s.shutdowns k = .returned →
      exec (step cfg) s more = some s' → ∀ j ∈ s'.jobsRun, j ∈ s.jobsRun) := by
  have hlate : (exec (step ⟨0, fun _ => 1⟩) init lateRun).map
      (fun s => (s.shutdowns 0, s.enqueues 0, s.jobsRun, s.jobsCancelled))
      = some (.returned, .accepted, [], []) := by decide
  have hafter : ((exec (step ⟨0, fun _ => 1⟩) init lateRun).bind
      (fun s => exec (step ⟨0, fun _ => 1⟩) s [.runJob 0 false])).map State.jobsRun
      = some [0] := by decide
  rcases Option.map_eq_some_iff.mp hlate with ⟨s, hs, hview⟩
  simp only [Prod.mk.injEq] at hview
  rcases hview with ⟨hreturned, haccepted, hran, hcancelled⟩
  constructor
  · intro hall
    rcases hall _ _ s 0 hs hreturned 0 haccepted with h | h | h | ⟨depth, capacity, h⟩
    · rw [hran] at h
      exact absurd h List.not_mem_nil
    · rw [hcancelled] at h
      exact absurd h List.not_mem_nil
    · rw [haccepted] at h
      simp at h
    · rw [haccepted] at h
      simp at h
  · intro hall
    rw [hs, Option.bind_some] at hafter
    rcases Option.map_eq_some_iff.mp hafter with ⟨s', hs', hran'⟩
    have hmem := hall _ _ _ s s' 0 hs hreturned hs' 0 (by rw [hran']; exact List.mem_cons_self)
    rw [hran] at hmem
    exact absurd hmem List.not_mem_nil

theorem shutdown_final_late :
    ∃ s s', exec (step ⟨0, fun _ => 1⟩) init lateRun = some s ∧
      exec (step ⟨0, fun _ => 1⟩) s [.runJob 0 false] = some s' ∧
      ∃ before s₀, DrainedAt ⟨0, fun _ => 1⟩ lateRun 0 before s₀ ∧
        ∀ j ∈ s'.jobsRun, j ∉ s.jobsRun → j ∈ s₀.ledger.entered →
          ∃ t, j ∈ (s.ticks t).held ∧ (Party.tick t, j) ∈ s₀.ledger.taken := by
  have hlate : (exec (step ⟨0, fun _ => 1⟩) init lateRun).map (fun s => s.shutdowns 0)
      = some .returned := by decide
  have hafter : ((exec (step ⟨0, fun _ => 1⟩) init lateRun).bind
      (fun s => exec (step ⟨0, fun _ => 1⟩) s [.runJob 0 false])).isSome = true := by decide
  rcases Option.map_eq_some_iff.mp hlate with ⟨s, hs, hreturned⟩
  rw [hs, Option.bind_some] at hafter
  rcases Option.isSome_iff_exists.mp hafter with ⟨s', hs'⟩
  rcases shutdown_final ⟨0, fun _ => 1⟩ lateRun [.runJob 0 false] s s' 0 hs hreturned hs' with
    ⟨before, s₀, hdrained, _, hruns, _⟩
  exact ⟨s, s', hs, hs', before, s₀, hdrained, hruns⟩

end Host

end DccMcp
