import DccMcp.Host.Dispatcher

/-!
# Every Job Once, and in Order

What becomes of the jobs, over every interleaving of posts, ticks and
shutdowns.

Most steps of the dispatcher move counters. To the jobs themselves only four
things happen: a job enters the channel, a tick or a shutdown takes it out,
a tick runs it, a shutdown cancels it. `Accounts` says that a step is one of
these or none of them, and from then on the proofs are about the ledger of a
hand-over through a queue.

The budget of a tick is a soft cap. To find out whether there is more, a
drain takes one more job out, and since it cannot put it back it runs it.
The order holds for each tick. Across ticks it holds as long as calls of
`tick` do not overlap, which is what its documentation asks for: it is to be
called from the host's main thread only.

A shutdown does not wait for a batch that a tick has already taken. Those
jobs run to their end, also after the shutdown has returned. What it does
promise concerns the jobs that had entered the channel when it found the
channel empty.

## Main definitions

* `Accounts`: What a step does to the jobs.
* `Accounted`: The invariant of the jobs.
* `NoOverlap`: Calls of `tick` do not overlap.

## Theorems

* `once_in_order`: Each job once, each tick within its budget and in order.
* `shutdown_final`: What a shutdown that returned leaves behind.
-/

namespace DccMcp

namespace Host

open Machine

/-! ## What a step does to the jobs -/

/-- The job of this call was sent. -/
def EnqueuePhase.hasSent : EnqueuePhase → Bool
  | .sent | .counted | .totalled | .accepted => true
  | _ => false

/-- What a step does to the jobs: nothing, or it lets one enter, takes one
    out, or settles one. -/
inductive Accounts (s s' : State) : Prop
  | same (hledger : s'.ledger = s.ledger) (hwaiting : s'.waiting = s.waiting)
      (hheld : s'.held = s.held)
  | enter (j : JobId) (hphase : (s.enqueues j).hasSent = false)
      (hledger : s'.ledger = s.ledger.enter j) (hwaiting : s'.waiting = s.waiting ++ [j])
      (hheld : s'.held = s.held)
  | take (p : Party) (j : JobId) (hwaiting : s.waiting = j :: s'.waiting)
      (hledger : s'.ledger = s.ledger.take p j)
      (hheld : s'.held = Function.update s.held p (s.held p ++ [j]))
  | settle (p : Party) (j : JobId) (rest : List JobId) (hj : s.held p = j :: rest)
      (hledger : s'.ledger = s.ledger.settle p j) (hwaiting : s'.waiting = s.waiting)
      (hheld : s'.held = Function.update s.held p rest)

theorem held_setTick (s : State) (t : TickId) (phase : TickPhase) :
    (s.setTick t phase).held = Function.update s.held (.tick t) phase.held := by
  funext p
  cases p with
  | tick u =>
      by_cases hu : u = t
      · subst hu
        simp [State.held, State.setTick]
      · have hne : Party.tick u ≠ Party.tick t := fun h => hu (Party.tick.inj h)
        simp only [State.held, State.setTick, Function.update_of_ne hu, Function.update_of_ne hne]
  | shutdown k => rfl

theorem held_setShutdownPhase (s : State) (k : ShutdownId) (phase : ShutdownPhase) :
    (s.setShutdownPhase k phase).held = Function.update s.held (.shutdown k) phase.held := by
  funext p
  cases p with
  | tick t => rfl
  | shutdown l =>
      by_cases hl : l = k
      · subst hl
        simp [State.held, State.setShutdownPhase]
      · have hne : Party.shutdown l ≠ Party.shutdown k := fun h => hl (Party.shutdown.inj h)
        simp only [State.held, State.setShutdownPhase, Function.update_of_ne hl,
          Function.update_of_ne hne]

/-- A tick that moves on without touching its batch. -/
theorem held_setTick_same (s : State) (t : TickId) (phase : TickPhase)
    (h : (s.ticks t).held = phase.held) : (s.setTick t phase).held = s.held := by
  rw [held_setTick, ← h]
  exact Function.update_eq_self (Party.tick t) s.held

theorem held_setShutdownPhase_same (s : State) (k : ShutdownId) (phase : ShutdownPhase)
    (h : (s.shutdowns k).held = phase.held) : (s.setShutdownPhase k phase).held = s.held := by
  rw [held_setShutdownPhase, ← h]
  exact Function.update_eq_self (Party.shutdown k) s.held

variable (cfg : Config) (s s' : State) (a : Action)

theorem accounts_of_enqueueStep (h : enqueueStep cfg s a = some s') : Accounts s s' := by
  cases a with
  | send j now =>
      simp only [enqueueStep] at h
      split at h
      · next hphase =>
          rw [← Option.some.inj h]
          refine .enter j ?_ rfl ?_ rfl
          · rw [hphase]
            rfl
          · simp [State.waiting, List.map_append]
      · simp at h
  | checkShutdown j | checkCapacity j | countRejected j | loadDepth j | countPending j
  | countTotal j | pushSubmitTime j =>
      simp only [enqueueStep] at h
      split at h
      · rw [← Option.some.inj h]
        exact .same rfl rfl rfl
      · simp at h
  | _ => simp [enqueueStep] at h

/-- A `try_recv` that took the first job out of the channel. -/
theorem accounts_take (t : TickId) (env : Enqueued) (rest : List Enqueued) (stage : DrainStage)
    (out : List JobId) (now : Instant)
    (hchannel : s.channel = env :: rest) (hheld : (s.ticks t).held = out)
    (hs' : s' = { s.setTick t (.popping ⟨now, out ++ [env.job], stage⟩ env) with
      channel := rest, ledger := s.ledger.take (.tick t) env.job }) : Accounts s s' := by
  subst hs'
  refine .take (.tick t) env.job ?_ rfl ?_
  · simp [State.waiting, hchannel]
  · refine (held_setTick s t _).trans ?_
    rw [show s.held (.tick t) = out from hheld]
    rfl

theorem accounts_of_drainNext (t : TickId) (d : Drain) (hphase : s.ticks t = .draining d)
    (h : drainNext s t d = some s') : Accounts s s' := by
  have hheld : (s.ticks t).held = d.out := by rw [hphase]; rfl
  unfold drainNext at h
  split at h
  · rw [← Option.some.inj h]
    exact .same rfl rfl (held_setTick_same s t _ hheld)
  · split at h
    · rw [← Option.some.inj h]
      exact .same rfl rfl (held_setTick_same s t _ hheld)
    · next left _ _ env rest hchannel =>
        exact accounts_take s s' t env rest (.loop left) d.out d.now hchannel hheld
          (Option.some.inj h).symm
  · split at h
    · rw [← Option.some.inj h]
      exact .same rfl rfl (held_setTick_same s t _ hheld)
    · next _ env rest hchannel =>
        exact accounts_take s s' t env rest (.done true) d.out d.now hchannel hheld
          (Option.some.inj h).symm
  · simp at h

theorem accounts_of_tickStep (h : tickStep cfg s a = some s') : Accounts s s' := by
  cases ticked_of_tickStep cfg s s' a h with
  | call t hphase =>
      refine .same rfl rfl (held_setTick_same s t _ ?_)
      rw [hphase]
      split <;> rfl
  | callBlocking t hphase =>
      refine .same rfl rfl (held_setTick_same s t _ ?_)
      rw [hphase]
      split
      · rfl
      · split <;> rfl
  | first t now env rest hphase hchannel =>
      exact accounts_take s _ t env rest (.loop (cfg.maxJobs t - 1)) [] now hchannel
        (by rw [hphase]; rfl) rfl
  | drain t d _ hphase h => exact accounts_of_drainNext s s' t d hphase h
  | run t panicked job batch executed panics more hphase =>
      refine .settle (.tick t) job batch ?_ rfl rfl (held_setTick s t _)
      rw [State.held, hphase]
      rfl
  -- A tick that only changes its phase keeps its batch.
  | contended t _ _ hphase | lock t _ hphase | awaitLock t hphase | timeout t hphase
  | pop t _ _ hphase | observe t _ _ hphase | count t _ hphase | sub t _ _ _ hphase
  | unlock t _ _ hphase | finish t _ _ _ hphase =>
      exact .same rfl rfl (held_setTick_same s t _ (by rw [hphase]; rfl))

theorem accounts_of_shutdownStep (h : shutdownStep s a = some s') : Accounts s s' := by
  cases shutDown_of_shutdownStep s s' a h with
  | spin k _ _ hphase =>
      refine .same rfl rfl (held_setShutdownPhase_same s k _ ?_)
      rw [hphase]
      split <;> rfl
  | drain k env rest hphase hchannel =>
      refine .take (.shutdown k) env.job ?_ rfl ?_
      · simp [State.waiting, hchannel]
      · refine (held_setShutdownPhase s k _).trans ?_
        rw [show s.held (.shutdown k) = [] by rw [State.held, hphase]; rfl]
        rfl
  | cancel k job hphase =>
      refine .settle (.shutdown k) job [] ?_ rfl rfl (held_setShutdownPhase s k _)
      rw [State.held, hphase]
      rfl
  -- A shutdown that holds no job only changes its phase.
  | set k hphase | lock k _ hphase | drained k hphase | sub k hphase | clear k hphase
  | unlock k hphase => exact .same rfl rfl (held_setShutdownPhase_same s k _ (by rw [hphase]; rfl))

/-- Every step is accounted for. -/
theorem accounts_of_step (h : step cfg s a = some s') : Accounts s s' := by
  rcases step_cases cfg s s' a h with h | h | h
  · exact accounts_of_enqueueStep cfg s s' a h
  · exact accounts_of_tickStep cfg s s' a h
  · exact accounts_of_shutdownStep s s' a h

/-! ## The jobs stay balanced -/

theorem balanced_step (h : Accounts s s')
    (hsent : ∀ j, j ∈ s.ledger.entered ↔ (s.enqueues j).hasSent = true)
    (hbalanced : s.ledger.Balanced s.waiting s.held) : s'.ledger.Balanced s'.waiting s'.held := by
  -- The ledger of the library has one rule for each of these steps.
  cases h with
  | same hledger hwaiting hheld =>
      rw [hledger, hwaiting, hheld]
      exact hbalanced
  | enter j hphase hledger hwaiting hheld =>
      rw [hledger, hwaiting, hheld]
      refine hbalanced.enter _ _ _ j (fun hmem => ?_)
      rw [(hsent j).mp hmem] at hphase
      simp at hphase
  | take p j hwaiting hledger hheld =>
      rw [hledger, hheld]
      rw [hwaiting] at hbalanced
      exact hbalanced.take _ _ _ p j
  | settle p j rest hj hledger hwaiting hheld =>
      rw [hledger, hwaiting, hheld]
      exact hbalanced.settle _ _ _ p j rest hj

/-- A post whose phase moves without a send stays on its side of the send. -/
theorem sent_update (entered : List JobId) (enqueues : JobId → EnqueuePhase) (j : JobId)
    (phase : EnqueuePhase) (hphase : (enqueues j).hasSent = phase.hasSent)
    (hsent : ∀ i, i ∈ entered ↔ (enqueues i).hasSent = true) (i : JobId) :
    i ∈ entered ↔ (Function.update enqueues j phase i).hasSent = true := by
  by_cases hi : i = j
  · subst hi
    rw [Function.update_self, ← hphase]
    exact hsent i
  · rw [Function.update_of_ne hi]
    exact hsent i

theorem sent_of_enqueueStep (h : enqueueStep cfg s a = some s')
    (hsent : ∀ j, j ∈ s.ledger.entered ↔ (s.enqueues j).hasSent = true) (i : JobId) :
    i ∈ s'.ledger.entered ↔ (s'.enqueues i).hasSent = true := by
  cases a with
  | send j now =>
      simp only [enqueueStep] at h
      split at h
      · rw [← Option.some.inj h]
        by_cases hi : i = j
        · subst hi
          simp [Ledger.enter, State.setEnqueue, EnqueuePhase.hasSent]
        · simp only [Ledger.enter, List.mem_append, List.mem_singleton, hi, or_false,
            State.setEnqueue, Function.update_of_ne hi]
          exact hsent i
      · simp at h
  | checkShutdown j =>
      simp only [enqueueStep] at h
      split at h
      · next hphase =>
          rw [← Option.some.inj h]
          refine sent_update _ _ j _ ?_ hsent i
          rw [hphase]
          split <;> rfl
      · simp at h
  | checkCapacity j =>
      simp only [enqueueStep] at h
      split at h
      · next hphase =>
          rw [← Option.some.inj h]
          refine sent_update _ _ j _ ?_ hsent i
          rw [hphase]
          split <;> rfl
      · simp at h
  | countRejected j | loadDepth j | countPending j | countTotal j | pushSubmitTime j =>
      simp only [enqueueStep] at h
      split at h
      · next hphase =>
          rw [← Option.some.inj h]
          exact sent_update _ _ j _ (by rw [hphase]; rfl) hsent i
      · simp at h
  | _ => simp [enqueueStep] at h

/-- A job has entered exactly if its post is past the send. -/
theorem sent_step (h : step cfg s a = some s')
    (hsent : ∀ j, j ∈ s.ledger.entered ↔ (s.enqueues j).hasSent = true) (i : JobId) :
    i ∈ s'.ledger.entered ↔ (s'.enqueues i).hasSent = true := by
  rcases step_cases cfg s s' a h with h | h | h
  · exact sent_of_enqueueStep cfg s s' a h hsent i
  · rcases tickStep_frame cfg s s' a h with ⟨henqueues, _, _, hentered⟩
    rw [henqueues, hentered]
    exact hsent i
  · rcases shutdownStep_frame s s' a h with ⟨henqueues, _, hentered⟩
    rw [henqueues, hentered]
    exact hsent i

/-! ## Budgets -/

/-- How many jobs a drain may have taken: what is left of its loop is still
    to come, and behind the loop there is one more for the peek. -/
def DrainStage.Within (maxJobs taken : Nat) : DrainStage → Prop
  | .loop left => taken + left ≤ maxJobs
  | .peek => taken ≤ maxJobs
  | .done _ => taken ≤ maxJobs + 1

/-- How many jobs a tick may have taken, by where it is. -/
def TickPhase.Within (maxJobs taken : Nat) : TickPhase → Prop
  | .notCalled => taken = 0
  | .called | .waiting | .awaiting => taken = 0 ∧ 0 < maxJobs
  | .draining d | .popping d _ | .sampling d _ | .counting d => d.stage.Within maxJobs taken
  | .unlocking _ _ | .running _ _ _ _ | .finished _ => taken ≤ maxJobs + 1

/-- All ticks are within their budgets. -/
def WithinBudgets (cfg : Config) (s : State) : Prop :=
  ∀ t, (s.ticks t).Within (cfg.maxJobs t) (s.ledger.takenBy (.tick t)).length

/-- A tick that moves on without taking a job. -/
theorem within_setTick (s : State) (t : TickId) (phase : TickPhase) (h : WithinBudgets cfg s)
    (ht : phase.Within (cfg.maxJobs t) (s.ledger.takenBy (.tick t)).length) (u : TickId) :
    (Function.update s.ticks t phase u).Within (cfg.maxJobs u)
      (s.ledger.takenBy (.tick u)).length := by
  by_cases hu : u = t
  · subst hu
    rw [Function.update_self]
    exact ht
  · rw [Function.update_of_ne hu]
    exact h u

/-- A tick that takes one job. -/
theorem within_take (s : State) (t : TickId) (phase : TickPhase) (j : JobId)
    (h : WithinBudgets cfg s)
    (ht : phase.Within (cfg.maxJobs t) ((s.ledger.takenBy (.tick t)).length + 1)) (u : TickId) :
    (Function.update s.ticks t phase u).Within (cfg.maxJobs u)
      ((s.ledger.take (.tick t) j).takenBy (.tick u)).length := by
  by_cases hu : u = t
  · subst hu
    rw [Function.update_self, Ledger.takenBy, Ledger.take, Ledger.entriesOf_append_self,
      List.length_append]
    exact ht
  · have hne : Party.tick u ≠ Party.tick t := fun hp => hu (Party.tick.inj hp)
    rw [Function.update_of_ne hu, Ledger.takenBy, Ledger.take,
      Ledger.entriesOf_append_ne _ _ _ _ hne]
    exact h u

theorem within_of_drainNext (t : TickId) (d : Drain) (hphase : s.ticks t = .draining d)
    (h : drainNext s t d = some s')
    (hwithin : WithinBudgets cfg s) : WithinBudgets cfg s' := by
  have ht := hwithin t
  rw [hphase, TickPhase.Within] at ht
  unfold drainNext at h
  split at h
  · next hstage =>
      rw [hstage] at ht
      rw [← Option.some.inj h]
      exact within_setTick cfg s t _ hwithin ht
  · next left hstage =>
      rw [hstage, DrainStage.Within] at ht
      split at h
      · rw [← Option.some.inj h]
        exact within_setTick cfg s t _ hwithin
          (by simp only [TickPhase.Within, DrainStage.Within]; omega)
      · rw [← Option.some.inj h]
        exact within_take cfg s t _ _ hwithin
          (by simp only [TickPhase.Within, DrainStage.Within]; omega)
  · next hstage =>
      rw [hstage, DrainStage.Within] at ht
      split at h
      · rw [← Option.some.inj h]
        exact within_setTick cfg s t _ hwithin
          (by simp only [TickPhase.Within, DrainStage.Within]; omega)
      · rw [← Option.some.inj h]
        exact within_take cfg s t _ _ hwithin
          (by simp only [TickPhase.Within, DrainStage.Within]; omega)
  · simp at h

theorem within_of_tickStep (h : tickStep cfg s a = some s') (hwithin : WithinBudgets cfg s) :
    WithinBudgets cfg s' := by
  cases ticked_of_tickStep cfg s s' a h with
  | call t hphase | callBlocking t hphase =>
      have ht := hwithin t
      rw [hphase, TickPhase.Within] at ht
      refine within_setTick cfg s t _ hwithin ?_
      split
      · exact Nat.le_trans (Nat.le_of_eq ht) (Nat.zero_le _)
      · next hmax => first
        | exact ⟨ht, Nat.pos_of_ne_zero hmax⟩
        | split <;> exact ⟨ht, Nat.pos_of_ne_zero hmax⟩
  | contended t _ _ hphase | lock t _ hphase | timeout t hphase =>
      have ht := hwithin t
      rw [hphase, TickPhase.Within] at ht
      refine within_setTick cfg s t _ hwithin ?_
      simp only [TickPhase.Within, DrainStage.Within]
      omega
  | first t _ _ _ hphase =>
      have ht := hwithin t
      rw [hphase, TickPhase.Within] at ht
      refine within_take cfg s t _ _ hwithin ?_
      simp only [TickPhase.Within, DrainStage.Within]
      omega
  | drain t d _ hphase h => exact within_of_drainNext cfg s s' t d hphase h hwithin
  | awaitLock t hphase | pop t _ _ hphase | observe t _ _ hphase | count t _ hphase
  | sub t _ _ _ hphase | unlock t _ _ hphase | run t _ _ _ _ _ _ hphase | finish t _ _ _ hphase =>
      have ht := hwithin t
      rw [hphase] at ht
      exact within_setTick cfg s t _ hwithin ht

/-- A shutdown takes nothing from a tick's budget. -/
theorem takenBy_of_shutdownStep (h : shutdownStep s a = some s') (t : TickId) :
    s'.ledger.takenBy (.tick t) = s.ledger.takenBy (.tick t) := by
  cases shutDown_of_shutdownStep s s' a h with
  | drain k => exact Ledger.entriesOf_append_ne _ _ _ _ (by simp)
  | _ => rfl

theorem within_step (h : step cfg s a = some s') (hwithin : WithinBudgets cfg s) :
    WithinBudgets cfg s' := by
  rcases step_cases cfg s s' a h with h | h | h
  · rcases enqueueStep_frame cfg s s' a h with ⟨hticks, _, _, _, htaken⟩
    intro t
    rw [hticks, Ledger.takenBy, htaken]
    exact hwithin t
  · exact within_of_tickStep cfg s s' a h hwithin
  · intro t
    rw [(shutdownStep_frame s s' a h).2.1, takenBy_of_shutdownStep s s' a h t]
    exact hwithin t

theorem TickPhase.Within.le (maxJobs taken : Nat) (phase : TickPhase)
    (h : phase.Within maxJobs taken) : taken ≤ maxJobs + 1 := by
  have hstage : ∀ stage : DrainStage, stage.Within maxJobs taken → taken ≤ maxJobs + 1 := by
    intro stage hw
    cases stage <;> simp only [DrainStage.Within] at hw <;> omega
  cases phase with
  | draining d | popping d | sampling d | counting d => exact hstage d.stage h
  | _ =>
      simp only [TickPhase.Within] at h
      omega

/-! ## The invariant of the jobs -/

/-- Every job is accounted for, and every tick is within its budget. -/
structure Accounted (cfg : Config) (s : State) : Prop where
  balanced : s.ledger.Balanced s.waiting s.held
  sent : ∀ j, j ∈ s.ledger.entered ↔ (s.enqueues j).hasSent = true
  budgets : WithinBudgets cfg s

theorem accounted_init : Accounted cfg init where
  balanced := by
    have hheld : init.held = fun _ => [] := by
      funext p
      cases p <;> rfl
    rw [hheld]
    exact Ledger.balanced_empty
  sent j := by simp only [init, Ledger.empty, List.not_mem_nil, EnqueuePhase.hasSent,
    Bool.false_eq_true]
  budgets _ := rfl

theorem accounted_step (h : step cfg s a = some s') (hacc : Accounted cfg s) :
    Accounted cfg s' where
  balanced := balanced_step s s' (accounts_of_step cfg s s' a h) hacc.sent hacc.balanced
  sent := sent_step cfg s s' a h hacc.sent
  budgets := within_step cfg s s' a h hacc.budgets

theorem accounted_of_run (s : State) (as : List Action) (hrun : exec (step cfg) init as = some s) :
    Accounted cfg s :=
  exec_invariant (step cfg) (Accounted cfg)
    (fun s a s' hacc h => accounted_step cfg s s' a h hacc) init s as (accounted_init cfg) hrun

/-! ## Ticks that do not overlap -/

/-- The call has not begun or is over. -/
def TickPhase.idle : TickPhase → Bool
  | .notCalled | .finished _ => true
  | _ => false

/-- A tick is called only when no other tick is under way. -/
def NoOverlap (s : State) : Action → Prop
  | .callTick _ | .callTickBlocking _ => ∀ t, (s.ticks t).idle = true
  | _ => True

/-- At most one tick is under way. -/
def OneTick (s : State) : Prop :=
  ∀ t u, (s.ticks t).idle = false → (s.ticks u).idle = false → t = u

theorem held_of_idle (phase : TickPhase) (h : phase.idle = true) : phase.held = [] := by
  cases phase <;> first
    | rfl
    | simp [TickPhase.idle] at h

/-- A step of a tick changes the phase of that tick only, and unless it is
    the call itself, the tick was under way. -/
theorem tickStep_moves (h : tickStep cfg s a = some s') :
    ∃ t phase, s'.ticks = Function.update s.ticks t phase ∧
      ((s.ticks t).idle = false ∨ a = .callTick t ∨ a = .callTickBlocking t) := by
  cases ticked_of_tickStep cfg s s' a h with
  | call t => exact ⟨t, _, rfl, .inr (.inl rfl)⟩
  | callBlocking t => exact ⟨t, _, rfl, .inr (.inr rfl)⟩
  | drain t d _ hphase h =>
      have hidle : (s.ticks t).idle = false := by rw [hphase]; rfl
      revert h
      fun_cases drainNext s t d <;> intro h <;> first
        | exact ⟨t, _, by rw [← Option.some.inj h]; rfl, .inl hidle⟩
        | simp at h
  | contended t _ _ hphase | lock t _ hphase | awaitLock t hphase | first t _ _ _ hphase
  | timeout t hphase | pop t _ _ hphase | observe t _ _ hphase | count t _ hphase
  | sub t _ _ _ hphase | unlock t _ _ hphase | run t _ _ _ _ _ _ hphase
  | finish t _ _ _ hphase => exact ⟨t, _, rfl, .inl (by rw [hphase]; rfl)⟩

theorem oneTick_step (h : step cfg s a = some s') (hok : NoOverlap s a) (hone : OneTick s) :
    OneTick s' := by
  rcases step_cases cfg s s' a h with h | h | h
  · rw [OneTick, (enqueueStep_frame cfg s s' a h).1]
    exact hone
  · rcases tickStep_moves cfg s s' a h with ⟨t, phase, hticks, hway⟩
    -- Every other tick is idle, so the tick that moved is the only one.
    have hothers : ∀ u, u ≠ t → (s.ticks u).idle = true := by
      intro u hu
      rcases hway with hidle | rfl | rfl
      · cases hu' : (s.ticks u).idle with
        | true => rfl
        | false => exact absurd (hone u t hu' hidle) hu
      · exact hok u
      · exact hok u
    have honly : ∀ u, (s'.ticks u).idle = false → u = t := by
      intro u hu
      by_contra hne
      rw [hticks, Function.update_of_ne hne, hothers u hne] at hu
      simp at hu
    intro u v hu hv
    rw [honly u hu, honly v hv]
  · rw [OneTick, (shutdownStep_frame s s' a h).2.1]
    exact hone

theorem serial_step (h : Accounts s s') (hone : OneTick s')
    (hserial : s.ledger.Serial s.held Party.isTick) : s'.ledger.Serial s'.held Party.isTick := by
  cases h with
  | same hledger _ hheld =>
      rw [hledger, hheld]
      exact hserial
  | enter j _ hledger _ hheld =>
      rw [hledger, hheld]
      exact hserial
  | take p j hwaiting hledger hheld =>
      rw [hledger, hheld]
      cases p with
      | shutdown k => exact hserial.take_other _ _ _ (.shutdown k) j rfl _
      | tick t =>
          refine hserial.take _ _ _ (.tick t) j rfl (fun q hq hne => ?_)
          cases q with
          | shutdown k => simp only [Party.isTick, Bool.false_eq_true] at hq
          | tick u =>
              -- After the step the taker holds a job, so `u` cannot hold one.
              have ht : (s'.ticks t).idle = false := by
                by_contra hidle
                have hempty := held_of_idle _ (eq_true_of_ne_false hidle)
                have hnow : s'.held (.tick t) = s.held (.tick t) ++ [j] := by
                  rw [hheld, Function.update_self]
                rw [show s'.held (.tick t) = [] from hempty] at hnow
                exact absurd hnow.symm (List.append_ne_nil_of_right_ne_nil _ (List.cons_ne_nil j []))
              have hu : s.held (.tick u) = (s'.ticks u).held := by
                have hsame : s'.held (.tick u) = s.held (.tick u) := by
                  rw [hheld, Function.update_of_ne hne]
                exact hsame.symm
              rw [hu]
              refine held_of_idle _ (eq_true_of_ne_false (fun hidle => ?_))
              exact hne (congrArg Party.tick (hone u t hidle ht))
  | settle p j rest hj hledger _ hheld =>
      rw [hledger, hheld]
      cases p with
      | shutdown k => exact hserial.settle_other _ _ _ (.shutdown k) j rest rfl
      | tick t => exact hserial.settle _ _ _ (.tick t) j rest rfl hj

/-- In a run whose ticks do not overlap, the ticks together run the jobs in
    the order of the channel. -/
theorem serial_of_run (s : State) (as : List Action) (hok : Along (step cfg) NoOverlap init as)
    (hrun : exec (step cfg) init as = some s) :
    s.ledger.Serial s.held Party.isTick := by
  have hinit : init.ledger.Serial init.held Party.isTick := by
    have hheld : init.held = fun _ => [] := by
      funext p
      cases p <;> rfl
    rw [hheld]
    exact Ledger.serial_empty _ (.tick 0) rfl
  have honeInit : OneTick init := by
    intro t u ht
    simp [init, TickPhase.idle] at ht
  have h := exec_history (step cfg) NoOverlap
    (fun _ t => OneTick t ∧ t.ledger.Serial t.held Party.isTick) init ⟨honeInit, hinit⟩
    ?_ as s hok hrun
  · exact h.2
  · rintro _ t a u ⟨hone, hserial⟩ hok hstep
    have hone' := oneTick_step cfg t u a hstep hok hone
    exact ⟨hone', serial_step t u (accounts_of_step cfg t u a hstep) hone' hserial⟩

/-! ## Each job once, in order -/

theorem ran_settled (s : State) (j : JobId) (h : j ∈ s.jobsRun) :
    ∃ t, (Party.tick t, j) ∈ s.ledger.settled := by
  rcases (Ledger.mem_entriesIn _ _ j).mp h with ⟨p, hp, hmem⟩
  cases p with
  | tick t => exact ⟨t, hmem⟩
  | shutdown k => simp [Party.isTick] at hp

theorem cancelled_settled (s : State) (j : JobId) (h : j ∈ s.jobsCancelled) :
    ∃ k, (Party.shutdown k, j) ∈ s.ledger.settled := by
  rcases (Ledger.mem_entriesIn _ _ j).mp h with ⟨p, hp, hmem⟩
  cases p with
  | tick t => simp only [Party.isTick, Bool.not_true, Bool.false_eq_true] at hp
  | shutdown k => exact ⟨k, hmem⟩

/-- A job that ran was not reported cancelled. -/
theorem not_reportedCancelled_of_ran (s : State) (hacc : Accounted cfg s) (j : JobId)
    (hran : j ∈ s.jobsRun) : ¬ s.ReportedCancelled j := by
  rcases ran_settled s j hran with ⟨t, ht⟩
  have htaken := hacc.balanced.settled_taken _ _ _ _ _ ht
  have hsent := (hacc.sent j).mp (hacc.balanced.taken_entered _ _ _ _ _ htaken)
  rintro (hcancelled | hrefused | ⟨depth, capacity, hrefused⟩)
  · rcases cancelled_settled s j hcancelled with ⟨k, hk⟩
    have hboth := hacc.balanced.taken_unique _ _ _ _ _ j htaken
      (hacc.balanced.settled_taken _ _ _ _ _ hk)
    simp at hboth
  · rw [hrefused] at hsent
    simp [EnqueuePhase.hasSent] at hsent
  · rw [hrefused] at hsent
    simp [EnqueuePhase.hasSent] at hsent

/-- In every run, a job is run at most once and not if its caller is told
    that it will not be, a tick runs at most one job more than its budget,
    and it runs its jobs in the order in which they entered the channel. When
    calls of `tick` do not overlap, all jobs are run in that order. -/
theorem once_in_order (cfg : Config) (as : List Action) (s : State)
    (hrun : exec (step cfg) init as = some s) :
    s.jobsRun.Nodup ∧
    (∀ j ∈ s.jobsRun, ¬ s.ReportedCancelled j) ∧
    (∀ t, (s.jobsRunBy t).length ≤ cfg.maxJobs t + 1) ∧
    (∀ t, (s.jobsRunBy t).Sublist s.ledger.entered) ∧
    (Along (step cfg) NoOverlap init as → s.jobsRun.Sublist s.ledger.entered) := by
  have hacc := accounted_of_run cfg s as hrun
  refine ⟨?_, not_reportedCancelled_of_ran cfg s hacc, fun t => ?_, fun t => ?_, fun hok => ?_⟩
  · exact (hacc.balanced.settled_nodup _ _ _).sublist (List.filter_sublist.map Prod.snd)
  · have hran : (s.jobsRunBy t).length ≤ (s.ledger.takenBy (.tick t)).length := by
      rw [hacc.balanced.parties (.tick t), List.length_append]
      exact Nat.le_add_right _ _
    exact Nat.le_trans hran ((hacc.budgets t).le _ _ _)
  · exact hacc.balanced.settledBy_sublist _ _ _ (.tick t)
  · exact (serial_of_run cfg s as hok hrun).settled_sublist _ _ _ _ hacc.balanced

/-- A call of `post`, undisturbed. -/
def postRun (j : JobId) : List Action :=
  [.checkShutdown j, .checkCapacity j, .send j 0, .countPending j, .countTotal j,
    .pushSubmitTime j 0]

/-- A `try_recv` that finds a job, with its bookkeeping. -/
def takeRun (t : TickId) : List Action :=
  [.drainNext t, .popSubmitTime t, .observeWait t, .countDequeued t]

/-- Two jobs are waiting and a tick with a budget of one runs both: the
    second was taken out by the peek. -/
def peekRun : List Action :=
  postRun 0 ++ postRun 1 ++ [.callTick 0, .tryLock 0 0] ++ takeRun 0 ++ [.drainNext 0] ++
    takeRun 0 ++ [.subPending 0, .unlockTick 0, .runJob 0 false, .runJob 0 false, .returnTick 0]

/-- A second tick begins and ends while the first is about to run its job. -/
def overlapRun : List Action :=
  postRun 0 ++ [.callTick 0, .tryLock 0 0] ++ takeRun 0 ++
    [.drainNext 0, .drainNext 0, .subPending 0, .unlockTick 0] ++
    postRun 1 ++ [.callTick 1, .tryLock 1 0] ++ takeRun 1 ++
    [.drainNext 1, .drainNext 1, .subPending 1, .unlockTick 1, .runJob 1 false, .returnTick 1,
      .runJob 0 false, .returnTick 0]

/-- Neither the budget nor the order across ticks holds in every run. -/
theorem budget_and_order_fail :
    (¬ ∀ (cfg : Config) (as : List Action) (s : State), exec (step cfg) init as = some s →
      ∀ t, (s.jobsRunBy t).length ≤ cfg.maxJobs t) ∧
    (¬ ∀ (cfg : Config) (as : List Action) (s : State), exec (step cfg) init as = some s →
      s.jobsRun.Sublist s.ledger.entered) := by
  have hpeek : (exec (step ⟨0, fun _ => 1⟩) init peekRun).map (fun s => s.jobsRunBy 0)
      = some [0, 1] := by decide
  have hoverlap : (exec (step ⟨0, fun _ => 1⟩) init overlapRun).map
      (fun s => (s.jobsRun, s.ledger.entered)) = some ([1, 0], [0, 1]) := by decide
  constructor
  · intro hbudget
    rcases Option.map_eq_some_iff.mp hpeek with ⟨s, hs, hran⟩
    have hlength := hbudget _ _ s hs 0
    rw [hran] at hlength
    exact absurd hlength (by decide)
  · intro horder
    rcases Option.map_eq_some_iff.mp hoverlap with ⟨s, hs, hran⟩
    have hsublist := horder _ _ s hs
    rw [(Prod.mk.inj hran).1, (Prod.mk.inj hran).2] at hsublist
    exact absurd hsublist (by decide)

/-- Two jobs, run in order by one tick. -/
theorem once_in_order_peek :
    ∃ s, exec (step ⟨0, fun _ => 1⟩) init peekRun = some s ∧ s.jobsRun.Nodup ∧
      (s.jobsRunBy 0).length ≤ 2 ∧ (s.jobsRunBy 0).Sublist s.ledger.entered := by
  have hsome : (exec (step ⟨0, fun _ => 1⟩) init peekRun).isSome = true := by decide
  rcases Option.isSome_iff_exists.mp hsome with ⟨s, hs⟩
  have h := once_in_order ⟨0, fun _ => 1⟩ peekRun s hs
  exact ⟨s, hs, h.1, h.2.2.1 0, h.2.2.2.1 0⟩

end Host

end DccMcp
