import DccMcp.Host.Dispatcher

/-!
# The Books of the Dispatcher

The pending counter and the book of submit times, and when they can be
trusted.

A post puts its job into the channel first and does its bookkeeping after
that. Between the two the job can be gone again: a tick may take it out,
subtract it from a counter it was never added to, and pop a submit time that
is not there or belongs to another job. The counter comes right in the end,
but below zero in between, and a load then sees a number near the word size.
The book of submit times does not come right: an entry that is written after
its job has left stays for good. A shutdown meets the same window, and when
it clears the book a job may have come into the channel behind its drain.

So the books are right as long as these windows stay closed: nothing enters
or leaves the channel while a post is between its `send` and its entry in the
book, and the book is cleared only when the channel is empty. Under this
condition the invariant is an account of the channel: the book lists its
jobs in order, preceded by the jobs whose entries are still to be popped, and
the counter is their number, corrected by what is still to be added or
subtracted.

## Main definitions

* `EnqueuePhase.inWindow`: The post has sent and not yet written its entry.
* `Undisturbed`: The condition on a step.
* `Booked`: The invariant of the books.
* `Quiescent`: No operation is in flight.

## Theorems

* `counters_hold`: The books are right in such a run.
* `counters_fail`: They are not in every run.
-/

namespace DccMcp

namespace Host

open Machine

/-- The post has sent its job and not yet written its entry in the book. -/
def EnqueuePhase.inWindow : EnqueuePhase → Bool
  | .sent | .counted | .totalled => true
  | _ => false

/-- The step takes a job out of the channel. -/
def State.takes (s : State) : Action → Bool
  | .awaitFirst _ _ => true
  | .drainNext t =>
    match s.ticks t, s.channel with
    | .draining ⟨_, _, .loop (_ + 1)⟩, _ :: _ => true
    | .draining ⟨_, _, .peek⟩, _ :: _ => true
    | _, _ => false
  | .drainShutdown _ => !s.channel.isEmpty
  | _ => false

/-- No post is between its `send` and its entry in the book. -/
def State.NoWindow (s : State) : Prop := ∀ j, (s.enqueues j).inWindow = false

/-- Nothing enters or leaves the channel while a post is between its `send`
    and its entry in the book, and the book is cleared only when the channel
    is empty. -/
def Undisturbed (s : State) (a : Action) : Prop :=
  match a with
  | .send _ _ => s.NoWindow
  | .clearSubmitTimes _ => s.NoWindow ∧ s.channel = []
  | a => s.takes a = true → s.NoWindow

/-! ## What is still to be booked -/

/-- The jobs whose entries the tick has still to pop. -/
def TickPhase.unpopped : TickPhase → List JobId
  | .popping _ env => [env.job]
  | _ => []

/-- The number of jobs the tick has still to subtract. -/
def TickPhase.unsubtracted : TickPhase → Nat
  | .draining d | .popping d _ | .sampling d _ | .counting d => d.out.length
  | _ => 0

/-- The entries of jobs the shutdown took out stay until it clears the book. -/
def ShutdownPhase.keepsEntries : ShutdownPhase → Bool
  | .draining | .cancelling _ | .subtracting | .clearing => true
  | _ => false

/-- The shutdown has not got the lock yet. -/
def ShutdownPhase.outside : ShutdownPhase → Bool
  | .notCalled | .spinning _ => true
  | _ => false

/-- The number of jobs the shutdown has still to subtract. -/
def ShutdownPhase.unsubtracted : ShutdownPhase → Nat
  | .cancelling _ | .subtracting => 1
  | _ => 0

namespace State

/-- The jobs that have left the channel and whose entries a party has not
    removed yet. -/
def unpoppedBy (s : State) : Party → List JobId
  | .tick t => (s.ticks t).unpopped
  | .shutdown k => if (s.shutdowns k).keepsEntries then s.ledger.takenBy (.shutdown k) else []

/-- The number of jobs that a party has taken out and not subtracted yet. -/
def unsubtractedBy (s : State) : Party → Nat
  | .tick t => (s.ticks t).unsubtracted
  | .shutdown k => (s.shutdowns k).unsubtracted

/-- The same for whoever holds the lock. -/
def unpopped (s : State) : List JobId := (s.lock.map s.unpoppedBy).getD []

def unsubtracted (s : State) : Nat := (s.lock.map s.unsubtractedBy).getD 0

end State

/-- The invariant of the books. `booked` are the jobs in the channel that have
    an entry, `late` is the post that has still to write its own, if any. -/
structure Books (s : State) (booked late : List JobId) : Prop where
  channel : s.waiting = booked ++ late
  times : s.submitTimes.map Prod.fst = s.unpopped ++ booked
  window : ∀ j, (s.enqueues j).inWindow = true ↔ j ∈ late
  single : late.length ≤ 1
  pending : s.pending + (late.filter (fun j => s.enqueues j = .sent)).length
    = s.waiting.length + s.unsubtracted

/-- The books are right, up to what is still to be booked, and a shutdown
    that has not got the lock has taken nothing. -/
structure Booked (s : State) : Prop where
  books : ∃ booked late, Books s booked late
  fresh : ∀ k, (s.shutdowns k).outside = true → s.ledger.takenBy (.shutdown k) = []

theorem Books.late_eq (s : State) (booked late : List JobId) (h : Books s booked late) (j : JobId)
    (hj : (s.enqueues j).inWindow = true) : late = [j] := by
  have hmem := (h.window j).mp hj
  have hlen := h.single
  match late, hmem, hlen with
  | [i], hmem, _ => rw [List.mem_singleton.mp hmem]
  | _ :: _ :: _, _, hlen => simp only [List.length_cons] at hlen; omega

theorem Books.late_nil (s : State) (booked late : List JobId) (h : Books s booked late)
    (hno : s.NoWindow) : late = [] := by
  cases late with
  | nil => rfl
  | cons j late =>
      have hj := (h.window j).mpr List.mem_cons_self
      rw [hno j] at hj
      simp at hj

/-! ## Steps of a post -/

variable (cfg : Config) (s s' : State) (t : TickId) (booked late : List JobId)

/-- What a step of a post leaves of the entries still to be removed. -/
theorem drains_congr (hticks : s'.ticks = s.ticks) (hshut : s'.shutdowns = s.shutdowns)
    (hlock : s'.lock = s.lock)
    (htaken : s'.ledger.taken = s.ledger.taken) :
    s'.unpopped = s.unpopped ∧ s'.unsubtracted = s.unsubtracted := by
  have hpop : s'.unpoppedBy = s.unpoppedBy := by
    funext p
    cases p with
    | tick t => rw [State.unpoppedBy, hticks, State.unpoppedBy]
    | shutdown k => rw [State.unpoppedBy, hshut, Ledger.takenBy, htaken, State.unpoppedBy,
        Ledger.takenBy]
  have hsub : s'.unsubtractedBy = s.unsubtractedBy := by
    funext p
    cases p with
    | tick t => rw [State.unsubtractedBy, hticks, State.unsubtractedBy]
    | shutdown k => rw [State.unsubtractedBy, hshut, State.unsubtractedBy]
  rw [State.unpopped, State.unsubtracted, hlock, hpop, hsub]
  exact ⟨rfl, rfl⟩

/-- A post that moves on outside its window. -/
theorem books_quiet_post (j : JobId) (phase : EnqueuePhase) (h : Books s booked late)
    (henq : s'.enqueues = Function.update s.enqueues j phase)
    (hbefore : (s.enqueues j).inWindow = false) (hafter : phase.inWindow = false)
    (hchannel : s'.channel = s.channel) (htimes : s'.submitTimes = s.submitTimes)
    (hpending : s'.pending = s.pending)
    (hdrains : s'.unpopped = s.unpopped ∧ s'.unsubtracted = s.unsubtracted) :
    Books s' booked late := by
  have hj : j ∉ late := by
    intro hmem
    rw [(h.window j).mpr hmem] at hbefore
    simp at hbefore
  have hne : ∀ i ∈ late, i ≠ j := by
    rintro i hi rfl
    exact hj hi
  have hwaiting : s'.waiting = s.waiting := by rw [State.waiting, hchannel, State.waiting]
  refine ⟨?_, ?_, fun i => ?_, h.single, ?_⟩
  · rw [hwaiting, h.channel]
  · rw [htimes, hdrains.1, h.times]
  · rw [henq]
    by_cases hi : i = j
    · subst hi
      rw [Function.update_self, hafter]
      simp [hj]
    · rw [Function.update_of_ne hi]
      exact h.window i
  · have hfilter : late.filter (fun i => s'.enqueues i = .sent)
        = late.filter (fun i => s.enqueues i = .sent) := by
      refine List.filter_congr (fun i hi => ?_)
      rw [henq, Function.update_of_ne (hne i hi)]
    rw [hpending, hwaiting, hdrains.2, hfilter]
    exact h.pending

/-- The window of a post, once its phase is known. -/
theorem window_update (enqueues : JobId → EnqueuePhase) (j : JobId) (phase : EnqueuePhase)
    (hothers : ∀ i, (enqueues i).inWindow = true → i = j) (i : JobId) :
    (Function.update enqueues j phase i).inWindow = true ↔
      i ∈ (if phase.inWindow then [j] else []) := by
  by_cases hi : i = j
  · subst hi
    rw [Function.update_self]
    cases phase.inWindow <;> simp
  · rw [Function.update_of_ne hi]
    have hclosed : (enqueues i).inWindow = false := by
      cases hw : (enqueues i).inWindow with
      | false => rfl
      | true => exact absurd (hothers i hw) hi
    rw [hclosed]
    cases phase.inWindow <;> simp [hi]

theorem books_send (j : JobId) (now : Instant) (h : Books s booked late) (hno : s.NoWindow)
    (henq : s'.enqueues = Function.update s.enqueues j .sent)
    (hchannel : s'.channel = s.channel ++ [⟨j, now⟩]) (htimes : s'.submitTimes = s.submitTimes)
    (hpending : s'.pending = s.pending)
    (hdrains : s'.unpopped = s.unpopped ∧ s'.unsubtracted = s.unsubtracted) :
    Books s' booked [j] := by
  have hlate := h.late_nil _ _ _ hno
  subst hlate
  have hwaiting : s'.waiting = s.waiting ++ [j] := by
    rw [State.waiting, hchannel, List.map_append]
    rfl
  have hpend := h.pending
  rw [List.filter_nil, List.length_nil] at hpend
  refine ⟨?_, ?_, fun i => ?_, Nat.le_refl 1, ?_⟩
  · rw [hwaiting, h.channel, List.append_nil]
  · rw [htimes, hdrains.1, h.times]
  · rw [henq]
    refine window_update s.enqueues j .sent (fun i hi => ?_) i
    rw [hno i] at hi
    simp at hi
  · rw [henq, hpending, hwaiting, hdrains.2, List.length_append]
    simp only [List.filter_cons, Function.update_self, decide_true, if_true, List.filter_nil,
      List.length_cons, List.length_nil]
    omega

/-- A post that moves on inside its window, or out of it. -/
theorem books_window (booked late booked' : List JobId) (j : JobId) (phase : EnqueuePhase)
    (h : Books s booked late) (hj : (s.enqueues j).inWindow = true)
    (henq : s'.enqueues = Function.update s.enqueues j phase) (hphase : phase ≠ .sent)
    (hchannel : s'.channel = s.channel)
    (hbooked : booked ++ [j] = booked' ++ if phase.inWindow then [j] else [])
    (htimes : s'.submitTimes.map Prod.fst = s.unpopped ++ booked')
    (hpending : s'.pending = s.pending + if s.enqueues j = .sent then 1 else 0)
    (hdrains : s'.unpopped = s.unpopped ∧ s'.unsubtracted = s.unsubtracted) :
    Books s' booked' (if phase.inWindow then [j] else []) := by
  have hlate := h.late_eq _ _ _ j hj
  subst hlate
  have hwaiting : s'.waiting = s.waiting := by rw [State.waiting, hchannel, State.waiting]
  have hpend := h.pending
  refine ⟨?_, ?_, fun i => ?_, ?_, ?_⟩
  · rw [hwaiting, h.channel, hbooked]
  · rw [hdrains.1, htimes]
  · rw [henq]
    exact window_update s.enqueues j phase
      (fun i hi => List.mem_singleton.mp ((h.window i).mp hi)) i
  · cases phase.inWindow <;> simp only [Bool.false_eq_true, if_false, if_true, List.length_nil,
      List.length_cons] <;> omega
  · have hnone : (if phase.inWindow then [j] else []).filter
        (fun i => s'.enqueues i = .sent) = [] := by
      refine List.filter_eq_nil_iff.mpr (fun i hi => ?_)
      have hij : i = j := by
        cases hw : phase.inWindow <;> rw [hw] at hi
        · exact absurd hi List.not_mem_nil
        · exact List.mem_singleton.mp hi
      rw [hij, henq, Function.update_self, decide_eq_true_eq]
      exact hphase
    rw [hnone, hpending, hwaiting, hdrains.2, List.length_nil, ← hpend]
    by_cases hsent : s.enqueues j = .sent <;>
      simp only [hsent, if_true, if_false, List.filter_cons, decide_true, decide_false,
        Bool.false_eq_true, List.filter_nil, List.length_cons, List.length_nil] <;> omega

theorem books_enqueueStep (a : Action) (h : enqueueStep cfg s a = some s') (hok : Undisturbed s a)
    (booked late : List JobId)
    (hbooks : Books s booked late) : ∃ booked' late', Books s' booked' late' := by
  -- A post leaves the drains alone.
  have hdrains : s'.unpopped = s.unpopped ∧ s'.unsubtracted = s.unsubtracted := by
    rcases enqueueStep_frame cfg s s' a h with ⟨hticks, hshut, hlock, _, htaken⟩
    exact drains_congr s s' hticks hshut hlock htaken
  cases a with
  | checkShutdown j | checkCapacity j =>
      simp only [enqueueStep] at h
      split at h
      · next hphase =>
          have hs' := Option.some.inj h
          subst hs'
          refine ⟨booked, late, books_quiet_post s _ booked late j _ hbooks rfl ?_ ?_ rfl rfl rfl
            hdrains⟩
          · rw [hphase]
            rfl
          · split <;> rfl
      · simp at h
  | countRejected j | loadDepth j =>
      simp only [enqueueStep] at h
      split at h
      · next hphase =>
          have hs' := Option.some.inj h
          subst hs'
          exact ⟨booked, late, books_quiet_post s _ booked late j _ hbooks rfl
            (by rw [hphase]; rfl) rfl rfl rfl rfl hdrains⟩
      · simp at h
  | send j now =>
      simp only [enqueueStep] at h
      split at h
      · have hs' := Option.some.inj h
        subst hs'
        exact ⟨booked, [j], books_send s _ booked late j now hbooks hok rfl rfl rfl rfl hdrains⟩
      · simp at h
  | countPending j =>
      simp only [enqueueStep] at h
      split at h
      · next hphase =>
          have hs' := Option.some.inj h
          -- Between the send and the entry the job is in the channel and not booked.
          refine ⟨booked, [j], books_window s s' booked late booked j .counted hbooks
            (by rw [hphase]; rfl) (by rw [← hs']; rfl) (by decide) (by rw [← hs']; rfl) rfl ?_ ?_
            hdrains⟩
          · rw [← hs']
            exact hbooks.times
          · rw [← hs', if_pos hphase]
      · simp at h
  | countTotal j =>
      simp only [enqueueStep] at h
      split at h
      · next hphase =>
          have hs' := Option.some.inj h
          refine ⟨booked, [j], books_window s s' booked late booked j .totalled hbooks
            (by rw [hphase]; rfl) (by rw [← hs']; rfl) (by decide) (by rw [← hs']; rfl) rfl ?_ ?_
            hdrains⟩
          · rw [← hs']
            exact hbooks.times
          · rw [← hs', hphase, if_neg (by decide), Int.add_zero]
            rfl
      · simp at h
  | pushSubmitTime j now =>
      simp only [enqueueStep] at h
      split at h
      · next hphase =>
          have hs' := Option.some.inj h
          refine ⟨booked ++ [j], [], books_window s s' booked late (booked ++ [j]) j .accepted hbooks
            (by rw [hphase]; rfl) (by rw [← hs']; rfl) (by decide) (by rw [← hs']; rfl)
            (List.append_nil _).symm ?_ ?_ hdrains⟩
          · rw [← hs', List.map_append, hbooks.times, List.append_assoc]
            rfl
          · rw [← hs', hphase, if_neg (by decide), Int.add_zero]
            rfl
      · simp at h
  | _ => simp [enqueueStep] at h

/-! ## Steps of a drain -/

/-- What a step of a tick or a shutdown does to the books: nothing, or it
    takes a job out, pops its entry, subtracts from the counter, or clears. -/
inductive BookMoves (s s' : State) : Prop
  | quiet (hwaiting : s'.waiting = s.waiting) (htimes : s'.submitTimes = s.submitTimes)
      (hpending : s'.pending = s.pending) (hpop : s'.unpopped = s.unpopped)
      (hsub : s'.unsubtracted = s.unsubtracted)
  | take (j : JobId) (hno : s.NoWindow) (hwaiting : s.waiting = j :: s'.waiting)
      (htimes : s'.submitTimes = s.submitTimes) (hpending : s'.pending = s.pending)
      (hpop : s'.unpopped = s.unpopped ++ [j]) (hsub : s'.unsubtracted = s.unsubtracted + 1)
  | pop (j : JobId) (hwaiting : s'.waiting = s.waiting)
      (htimes : s'.submitTimes = s.submitTimes.tail) (hpending : s'.pending = s.pending)
      (hpop : s.unpopped = j :: s'.unpopped) (hsub : s'.unsubtracted = s.unsubtracted)
  | subtract (n : Nat) (hwaiting : s'.waiting = s.waiting)
      (htimes : s'.submitTimes = s.submitTimes) (hpending : s'.pending = s.pending - n)
      (hpop : s'.unpopped = s.unpopped) (hsub : s.unsubtracted = s'.unsubtracted + n)
  | clear (hno : s.NoWindow) (hempty : s.waiting = []) (hwaiting : s'.waiting = s.waiting)
      (htimes : s'.submitTimes = []) (hpending : s'.pending = s.pending)
      (hpop : s'.unpopped = []) (hsub : s'.unsubtracted = s.unsubtracted)

theorem books_of_moves (h : BookMoves s s') (henq : s'.enqueues = s.enqueues)
    (hbooks : Books s booked late) :
    ∃ booked', Books s' booked' late := by
  have hpend := hbooks.pending
  have hwindow : ∀ j, (s'.enqueues j).inWindow = true ↔ j ∈ late := by
    rw [henq]
    exact hbooks.window
  -- One case for each way a drain moves the books.
  cases h with
  | quiet hwaiting htimes hpending hpop hsub =>
      refine ⟨booked, ?_, ?_, hwindow, hbooks.single, ?_⟩
      · rw [hwaiting, hbooks.channel]
      · rw [htimes, hpop, hbooks.times]
      · rw [henq, hpending, hwaiting, hsub, hpend]
  | take j hno hwaiting htimes hpending hpop hsub =>
      -- No post is between its send and its entry, so the channel is booked whole.
      have hlate := hbooks.late_nil _ _ _ hno
      subst hlate
      have hchannel := hbooks.channel
      rw [List.append_nil] at hchannel
      refine ⟨s'.waiting, (List.append_nil _).symm, ?_, hwindow, Nat.zero_le 1, ?_⟩
      · rw [htimes, hpop, hbooks.times, ← hchannel, hwaiting, List.append_assoc,
          List.singleton_append]
      · rw [hwaiting, List.length_cons] at hpend
        rw [henq, hpending, hsub, hpend]
        omega
  | pop j hwaiting htimes hpending hpop hsub =>
      refine ⟨booked, ?_, ?_, hwindow, hbooks.single, ?_⟩
      · rw [hwaiting, hbooks.channel]
      · rw [htimes, List.map_tail, hbooks.times, hpop]
        rfl
      · rw [henq, hpending, hwaiting, hsub, hpend]
  | subtract n hwaiting htimes hpending hpop hsub =>
      refine ⟨booked, ?_, ?_, hwindow, hbooks.single, ?_⟩
      · rw [hwaiting, hbooks.channel]
      · rw [htimes, hpop, hbooks.times]
      · rw [hsub] at hpend
        rw [henq, hpending, hwaiting]
        omega
  | clear hno hempty hwaiting htimes hpending hpop hsub =>
      have hlate := hbooks.late_nil _ _ _ hno
      subst hlate
      refine ⟨[], ?_, ?_, hwindow, Nat.zero_le 1, ?_⟩
      · rw [hwaiting, hempty, List.append_nil]
      · rw [htimes, hpop, List.map_nil, List.append_nil]
      · rw [henq, hpending, hwaiting, hsub, hpend]

/-- The entries and the count of a tick that holds the lock. -/
theorem drains_tick (s : State) (t : TickId) (hlock : s.lock = some (.tick t)) :
    s.unpopped = (s.ticks t).unpopped ∧ s.unsubtracted = (s.ticks t).unsubtracted := by
  rw [State.unpopped, State.unsubtracted, hlock]
  exact ⟨rfl, rfl⟩

theorem drains_shutdown (s : State) (k : ShutdownId) (hlock : s.lock = some (.shutdown k)) :
    s.unpopped = (if (s.shutdowns k).keepsEntries then s.ledger.takenBy (.shutdown k) else []) ∧
      s.unsubtracted = (s.shutdowns k).unsubtracted := by
  rw [State.unpopped, State.unsubtracted, hlock]
  exact ⟨rfl, rfl⟩

/-- The same after the tick has moved to a phase inside its drain. -/
theorem drains_setTick (phase : TickPhase) (hticks : s'.ticks = Function.update s.ticks t phase)
    (hlock : s'.lock = some (.tick t)) :
    s'.unpopped = phase.unpopped ∧ s'.unsubtracted = phase.unsubtracted := by
  have h := drains_tick s' t hlock
  rwa [hticks, Function.update_self] at h

theorem drains_none (s : State) (hlock : s.lock = none) :
    s.unpopped = [] ∧ s.unsubtracted = 0 := by
  rw [State.unpopped, State.unsubtracted, hlock]
  exact ⟨rfl, rfl⟩

/-- A tick that moves on and leaves the same to be booked. -/
theorem drains_setTick_same (phase : TickPhase)
    (hticks : s'.ticks = Function.update s.ticks t phase) (hshut : s'.shutdowns = s.shutdowns)
    (hlock : s'.lock = s.lock) (htaken : s'.ledger.taken = s.ledger.taken)
    (hpop : phase.unpopped = (s.ticks t).unpopped)
    (hsub : phase.unsubtracted = (s.ticks t).unsubtracted) :
    s'.unpopped = s.unpopped ∧ s'.unsubtracted = s.unsubtracted := by
  have hpops : s'.unpoppedBy = s.unpoppedBy := by
    funext p
    cases p with
    | tick u =>
        rw [State.unpoppedBy, hticks, State.unpoppedBy]
        by_cases hu : u = t
        · rw [hu, Function.update_self, hpop]
        · rw [Function.update_of_ne hu]
    | shutdown k => rw [State.unpoppedBy, hshut, Ledger.takenBy, htaken, State.unpoppedBy,
        Ledger.takenBy]
  have hsubs : s'.unsubtractedBy = s.unsubtractedBy := by
    funext p
    cases p with
    | tick u =>
        rw [State.unsubtractedBy, hticks, State.unsubtractedBy]
        by_cases hu : u = t
        · rw [hu, Function.update_self, hsub]
        · rw [Function.update_of_ne hu]
    | shutdown k => rw [State.unsubtractedBy, hshut, State.unsubtractedBy]
  rw [State.unpopped, State.unsubtracted, hlock, hpops, hsubs]
  exact ⟨rfl, rfl⟩

/-- A tick that moves on and leaves all books alone. -/
theorem bookMoves_tick_quiet (phase : TickPhase)
    (hticks : s'.ticks = Function.update s.ticks t phase) (hshut : s'.shutdowns = s.shutdowns)
    (hlock : s'.lock = s.lock) (htaken : s'.ledger.taken = s.ledger.taken)
    (hpop : phase.unpopped = (s.ticks t).unpopped)
    (hsub : phase.unsubtracted = (s.ticks t).unsubtracted) (hchannel : s'.channel = s.channel)
    (htimes : s'.submitTimes = s.submitTimes) (hpending : s'.pending = s.pending) :
    BookMoves s s' := by
  rcases drains_setTick_same s s' t phase hticks hshut hlock htaken hpop hsub with ⟨hpop', hsub'⟩
  refine .quiet ?_ htimes hpending hpop' hsub'
  rw [State.waiting, hchannel, State.waiting]

/-- A tick in a drain that takes a job out. -/
theorem bookMoves_tick_take (phase : TickPhase) (env : Enqueued) (rest : List Enqueued)
    (hticks : s'.ticks = Function.update s.ticks t phase)
    (hlock : s.lock = some (.tick t)) (hlock' : s'.lock = s.lock) (hno : s.NoWindow)
    (hchannel : s.channel = env :: rest) (hchannel' : s'.channel = rest)
    (htimes : s'.submitTimes = s.submitTimes) (hpending : s'.pending = s.pending)
    (hpop : (s.ticks t).unpopped = []) (hpop' : phase.unpopped = [env.job])
    (hsub : phase.unsubtracted = (s.ticks t).unsubtracted + 1) : BookMoves s s' := by
  rcases drains_tick s t hlock with ⟨hp, hs⟩
  rcases drains_setTick s s' t phase hticks (hlock'.trans hlock) with ⟨hp', hs'⟩
  refine .take env.job hno ?_ htimes hpending ?_ ?_
  · rw [State.waiting, hchannel, List.map_cons, State.waiting, hchannel']
  · rw [hp', hp, hpop, hpop', List.nil_append]
  · rw [hs', hs, hsub]

theorem bookMoves_of_drainNext (d : Drain) (hphase : s.ticks t = .draining d)
    (h : drainNext s t d = some s') (hlocked : Locked s)
    (hno : s.takes (.drainNext t) = true → s.NoWindow) : BookMoves s s' := by
  have hlock : s.lock = some (.tick t) := hlocked (.tick t) (by rw [State.inDrain, hphase]; rfl)
  have hpop : (s.ticks t).unpopped = [] := by rw [hphase]; rfl
  have hsub : (s.ticks t).unsubtracted = d.out.length := by rw [hphase]; rfl
  rcases d with ⟨now, out, stage⟩
  have htake : ∀ (stage' : DrainStage) (env : Enqueued) (rest : List Enqueued),
      s.channel = env :: rest → s.NoWindow →
      s' = { s.setTick t (.popping ⟨now, out ++ [env.job], stage'⟩ env) with
        channel := rest, ledger := s.ledger.take (.tick t) env.job } → BookMoves s s' := by
    intro stage' env rest hchannel hno hs'
    subst hs'
    refine bookMoves_tick_take s _ t _ env rest rfl hlock rfl hno hchannel rfl rfl rfl hpop rfl ?_
    rw [hsub]
    simp [TickPhase.unsubtracted]
  have hquiet : ∀ stage' : DrainStage,
      s' = s.setTick t (.draining ⟨now, out, stage'⟩) → BookMoves s s' := by
    intro stage' hs'
    subst hs'
    exact bookMoves_tick_quiet s _ t _ rfl rfl rfl rfl hpop.symm hsub.symm rfl rfl rfl
  unfold drainNext at h
  split at h
  · exact hquiet .peek (Option.some.inj h).symm
  · next left hstage =>
      split at h
      · exact hquiet .peek (Option.some.inj h).symm
      · next env rest hchannel =>
          refine htake (.loop left) env rest hchannel (hno ?_) (Option.some.inj h).symm
          simp only at hstage
          simp only [State.takes, hphase, hchannel, hstage]
  · next hstage =>
      split at h
      · exact hquiet (.done false) (Option.some.inj h).symm
      · next env rest hchannel =>
          refine htake (.done true) env rest hchannel (hno ?_) (Option.some.inj h).symm
          simp only at hstage
          simp only [State.takes, hphase, hchannel, hstage]
  · simp at h

theorem bookMoves_of_tickStep (a : Action) (h : tickStep cfg s a = some s') (hlocked : Locked s)
    (hok : Undisturbed s a) :
    BookMoves s s' := by
  -- A phase inside a drain has the lock.
  have hlock : ∀ t, (s.ticks t).holdsLock = true → s.lock = some (.tick t) :=
    fun t ht => hlocked (.tick t) ht
  cases ticked_of_tickStep cfg s s' a h with
  | call t hphase | callBlocking t hphase =>
      refine bookMoves_tick_quiet s _ t _ rfl rfl rfl rfl ?_ ?_ rfl rfl rfl <;> rw [hphase]
      · split
        · rfl
        · first
          | rfl
          | split <;> rfl
      · split
        · rfl
        · first
          | rfl
          | split <;> rfl
  | lock t now _ hfree =>
      rcases drains_none s hfree with ⟨hp, hs⟩
      exact .quiet rfl rfl rfl
        ((drains_setTick s _ t (.draining ⟨now, [], _⟩) rfl rfl).1.trans hp.symm)
        ((drains_setTick s _ t (.draining ⟨now, [], _⟩) rfl rfl).2.trans hs.symm)
  | awaitLock t _ hfree =>
      rcases drains_none s hfree with ⟨hp, hs⟩
      exact .quiet rfl rfl rfl ((drains_setTick s _ t .awaiting rfl rfl).1.trans hp.symm)
        ((drains_setTick s _ t .awaiting rfl rfl).2.trans hs.symm)
  | first t now env rest hphase hchannel =>
      exact bookMoves_tick_take s _ t _ env rest rfl (hlock t (by rw [hphase]; rfl)) rfl
        (hok rfl) hchannel rfl rfl rfl (by rw [hphase]; rfl) rfl (by rw [hphase]; rfl)
  | timeout t hphase | unlock t _ _ hphase =>
      rcases drains_tick s t (hlock t (by rw [hphase]; rfl)) with ⟨hp, hs⟩
      rw [hphase] at hp hs
      exact .quiet rfl rfl rfl ((drains_none _ rfl).1.trans hp.symm)
        ((drains_none _ rfl).2.trans hs.symm)
  | drain t d _ hphase h => exact bookMoves_of_drainNext s s' t d hphase h hlocked hok
  | pop t d env hphase =>
      have ht := hlock t (by rw [hphase]; rfl)
      rcases drains_tick s t ht with ⟨hp, hs⟩
      rw [hphase] at hp hs
      exact .pop env.job rfl rfl rfl (hp.trans (congrArg (env.job :: ·)
          (drains_setTick s _ t (.sampling d env) rfl (by exact ht)).1.symm))
        ((drains_setTick s _ t (.sampling d env) rfl (by exact ht)).2.trans hs.symm)
  | sub t now out more hphase =>
      have ht := hlock t (by rw [hphase]; rfl)
      rcases drains_tick s t ht with ⟨hp, hs⟩
      rw [hphase] at hp hs
      refine .subtract out.length rfl rfl rfl
        ((drains_setTick s _ t (.unlocking out more) rfl (by exact ht)).1.trans hp.symm)
        (hs.trans (Eq.trans ?_ (congrArg (· + out.length)
          (drains_setTick s _ t (.unlocking out more) rfl (by exact ht)).2.symm)))
      simp [TickPhase.unsubtracted]
  | contended t _ _ hphase | observe t _ _ hphase | count t _ hphase
  | run t _ _ _ _ _ _ hphase | finish t _ _ _ hphase =>
      exact bookMoves_tick_quiet s _ t _ rfl rfl rfl rfl (by rw [hphase]; rfl)
        (by rw [hphase]; rfl) rfl rfl rfl

/-- What a shutdown has still to book, after it has moved to a phase inside
    its drain. -/
theorem drains_setShutdown (k : ShutdownId) (phase : ShutdownPhase)
    (hshut : s'.shutdowns = Function.update s.shutdowns k phase)
    (hlock : s'.lock = some (.shutdown k)) :
    s'.unpopped = (if phase.keepsEntries then s'.ledger.takenBy (.shutdown k) else []) ∧
      s'.unsubtracted = phase.unsubtracted := by
  have h := drains_shutdown s' k hlock
  rwa [hshut, Function.update_self] at h

/-- A shutdown outside its drain has nothing to book. -/
theorem drains_setShutdown_outside (k : ShutdownId) (phase : ShutdownPhase)
    (hshut : s'.shutdowns = Function.update s.shutdowns k phase) (hticks : s'.ticks = s.ticks)
    (hlock : s'.lock = s.lock) (htaken : s'.ledger.taken = s.ledger.taken)
    (hbefore : (s.shutdowns k).keepsEntries = false ∧ (s.shutdowns k).unsubtracted = 0)
    (hafter : phase.keepsEntries = false ∧ phase.unsubtracted = 0) :
    s'.unpopped = s.unpopped ∧ s'.unsubtracted = s.unsubtracted := by
  have hpops : s'.unpoppedBy = s.unpoppedBy := by
    funext p
    cases p with
    | tick t => rw [State.unpoppedBy, hticks, State.unpoppedBy]
    | shutdown l =>
        rw [State.unpoppedBy, hshut, State.unpoppedBy, Ledger.takenBy, htaken, Ledger.takenBy]
        by_cases hl : l = k
        · rw [hl, Function.update_self, hafter.1, hbefore.1]
        · rw [Function.update_of_ne hl]
  have hsubs : s'.unsubtractedBy = s.unsubtractedBy := by
    funext p
    cases p with
    | tick t => rw [State.unsubtractedBy, hticks, State.unsubtractedBy]
    | shutdown l =>
        rw [State.unsubtractedBy, hshut, State.unsubtractedBy]
        by_cases hl : l = k
        · rw [hl, Function.update_self, hafter.2, hbefore.2]
        · rw [Function.update_of_ne hl]
  rw [State.unpopped, State.unsubtracted, hlock, hpops, hsubs]
  exact ⟨rfl, rfl⟩

theorem bookMoves_of_shutdownStep (a : Action) (h : shutdownStep s a = some s') (hlocked : Locked s)
    (hok : Undisturbed s a)
    (hfresh : ∀ k, (s.shutdowns k).outside = true → s.ledger.takenBy (.shutdown k) = []) :
    BookMoves s s' := by
  have hlock : ∀ k, (s.shutdowns k).holdsLock = true → s.lock = some (.shutdown k) :=
    fun k hk => hlocked (.shutdown k) hk
  cases shutDown_of_shutdownStep s s' a h with
  | set k hphase =>
      rcases drains_setShutdown_outside s { s.setShutdownPhase k (.spinning 0) with
        shutdown := true } k (.spinning 0) rfl rfl rfl rfl (by rw [hphase]; exact ⟨rfl, rfl⟩)
        ⟨rfl, rfl⟩ with ⟨hp, hs⟩
      exact .quiet rfl rfl rfl hp hs
  | lock k _ hphase hfree =>
      rcases drains_none s hfree with ⟨hp, hs⟩
      exact .quiet rfl rfl rfl ((drains_setShutdown s _ k .draining rfl rfl).1.trans
          ((hfresh k (by rw [hphase]; rfl)).trans hp.symm))
        ((drains_setShutdown s _ k .draining rfl rfl).2.trans hs.symm)
  | spin k attempts _ hphase =>
      have hafter : ∀ gaveUp : Prop, [Decidable gaveUp] →
          (if gaveUp then ShutdownPhase.gaveUp else .spinning (attempts + 1)).keepsEntries =
            false ∧
          (if gaveUp then ShutdownPhase.gaveUp else .spinning (attempts + 1)).unsubtracted = 0 := by
        intro gaveUp _
        split <;> exact ⟨rfl, rfl⟩
      rcases drains_setShutdown_outside s (s.setShutdownPhase k _) k _ rfl rfl rfl rfl
        (by rw [hphase]; exact ⟨rfl, rfl⟩) (hafter (maxSpins < attempts + 1)) with ⟨hp, hs⟩
      exact .quiet rfl rfl rfl hp hs
  | drain k env rest hphase hchannel =>
      have hk := hlock k (by rw [hphase]; rfl)
      rcases drains_shutdown s k hk with ⟨hp, hs⟩
      rw [hphase] at hp hs
      have hno : s.NoWindow := hok (by simp [State.takes, hchannel, List.isEmpty_cons])
      refine .take env.job hno ?_ rfl rfl ?_ ?_
      · simp [State.waiting, hchannel]
      · refine (drains_setShutdown s _ k (.cancelling env.job) rfl (by exact hk)).1.trans ?_
        rw [hp]
        exact Ledger.entriesOf_append_self _ _ _
      · refine (drains_setShutdown s _ k (.cancelling env.job) rfl (by exact hk)).2.trans ?_
        rw [hs]
        rfl
  | sub k hphase =>
      have hk := hlock k (by rw [hphase]; rfl)
      rcases drains_shutdown s k hk with ⟨hp, hs⟩
      rw [hphase] at hp hs
      exact .subtract 1 rfl rfl rfl
        ((drains_setShutdown s _ k .draining rfl (by exact hk)).1.trans hp.symm)
        (hs.trans (congrArg (· + 1)
          (drains_setShutdown s _ k .draining rfl (by exact hk)).2.symm))
  | clear k hphase =>
      have hk := hlock k (by rw [hphase]; rfl)
      have hs := (drains_shutdown s k hk).2
      rw [hphase] at hs
      have hempty : s.waiting = [] := by rw [State.waiting, hok.2, List.map_nil]
      exact .clear hok.1 hempty rfl rfl rfl
        (drains_setShutdown s _ k .unlocking rfl (by exact hk)).1
        ((drains_setShutdown s _ k .unlocking rfl (by exact hk)).2.trans hs.symm)
  | unlock k hphase =>
      rcases drains_shutdown s k (hlock k (by rw [hphase]; rfl)) with ⟨hp, hs⟩
      rw [hphase] at hp hs
      exact .quiet rfl rfl rfl ((drains_none _ rfl).1.trans hp.symm)
        ((drains_none _ rfl).2.trans hs.symm)
  | drained k hphase =>
      have hk := hlock k (by rw [hphase]; rfl)
      rcases drains_shutdown s k hk with ⟨hp, hs⟩
      rw [hphase] at hp hs
      exact .quiet rfl rfl rfl
        ((drains_setShutdown s _ k .clearing rfl (by exact hk)).1.trans hp.symm)
        ((drains_setShutdown s _ k .clearing rfl (by exact hk)).2.trans hs.symm)
  | cancel k _ hphase =>
      have hk := hlock k (by rw [hphase]; rfl)
      rcases drains_shutdown s k hk with ⟨hp, hs⟩
      rw [hphase] at hp hs
      exact .quiet rfl rfl rfl
        ((drains_setShutdown s _ k .subtracting rfl (by exact hk)).1.trans hp.symm)
        ((drains_setShutdown s _ k .subtracting rfl (by exact hk)).2.trans hs.symm)

/-! ## Shutdowns without the lock -/

/-- A tick takes nothing in the name of a shutdown. -/
theorem takenBy_of_tickStep (a : Action) (h : tickStep cfg s a = some s') (k : ShutdownId) :
    s'.ledger.takenBy (.shutdown k) = s.ledger.takenBy (.shutdown k) := by
  have htake : ∀ (t : TickId) (j : JobId),
      (s.ledger.take (.tick t) j).takenBy (.shutdown k) = s.ledger.takenBy (.shutdown k) :=
    fun t j => Ledger.entriesOf_append_ne _ _ _ _ (by simp)
  cases ticked_of_tickStep cfg s s' a h with
  | first t _ env => exact htake t env.job
  | drain t d _ _ h =>
      revert h
      fun_cases drainNext s t d <;> intro h <;> first
        | exact Option.some.inj h ▸ rfl
        | exact Option.some.inj h ▸ htake _ _
        | simp at h
  | _ => rfl

/-- A shutdown that is outside its drain after a step was outside before, and
    the step has taken nothing in its name. -/
theorem outside_of_shutdownStep (a : Action) (h : shutdownStep s a = some s') (k : ShutdownId)
    (hk : (s'.shutdowns k).outside = true) :
    (s.shutdowns k).outside = true ∧
      s'.ledger.takenBy (.shutdown k) = s.ledger.takenBy (.shutdown k) := by
  -- The step moves one shutdown; any other one is as it was.
  have hself : ∀ (l : ShutdownId) (phase : ShutdownPhase),
      s'.shutdowns = Function.update s.shutdowns l phase →
      s'.ledger.taken = s.ledger.taken →
      (phase.outside = true → (s.shutdowns l).outside = true) →
      (s.shutdowns k).outside = true ∧
        s'.ledger.takenBy (.shutdown k) = s.ledger.takenBy (.shutdown k) := by
    intro l phase hshut htaken hphase
    refine ⟨?_, by rw [Ledger.takenBy, htaken, Ledger.takenBy]⟩
    rw [hshut] at hk
    by_cases hkl : k = l
    · subst hkl
      rw [Function.update_self] at hk
      exact hphase hk
    · rw [Function.update_of_ne hkl] at hk
      exact hk
  cases shutDown_of_shutdownStep s s' a h with
  | drain l env _ =>
      by_cases hkl : k = l
      · subst hkl
        simp [State.setShutdownPhase, ShutdownPhase.outside] at hk
      · simp only [State.setShutdownPhase, Function.update_of_ne hkl] at hk
        exact ⟨hk, Ledger.entriesOf_append_ne _ _ _ _ (fun hp => hkl (Party.shutdown.inj hp))⟩
  | set l hphase | lock l _ hphase | spin l _ _ hphase =>
      exact hself l _ rfl rfl (fun _ => by rw [hphase]; rfl)
  | drained l | cancel l | sub l | clear l | unlock l =>
      exact hself l _ rfl rfl (fun hp => by simp [ShutdownPhase.outside] at hp)

/-! ## The books over a run -/

theorem booked_init : Booked init where
  books := ⟨[], [], rfl, rfl, fun j => by
    simp [init, EnqueuePhase.inWindow],
    Nat.zero_le 1, rfl⟩
  fresh _ _ := rfl

/-- Every step that keeps the condition keeps the books. -/
theorem booked_step (a : Action) (h : step cfg s a = some s') (hlocked : Locked s)
    (hok : Undisturbed s a) (hbooked : Booked s) : Booked s' := by
  rcases hbooked.books with ⟨booked, late, hbooks⟩
  rcases step_cases cfg s s' a h with h | h | h
  · refine ⟨books_enqueueStep cfg s s' a h hok booked late hbooks, ?_⟩
    rcases enqueueStep_frame cfg s s' a h with ⟨_, hshut, _, _, htaken⟩
    rw [hshut]
    intro k hk
    rw [Ledger.takenBy, htaken]
    exact hbooked.fresh k hk
  · have hframe := tickStep_frame cfg s s' a h
    rcases books_of_moves s s' booked late (bookMoves_of_tickStep cfg s s' a h hlocked hok)
      hframe.1 hbooks with ⟨booked', hbooks'⟩
    refine ⟨⟨booked', late, hbooks'⟩, fun k hk => ?_⟩
    rw [hframe.2.1] at hk
    rw [takenBy_of_tickStep cfg s s' a h k]
    exact hbooked.fresh k hk
  · rcases books_of_moves s s' booked late
      (bookMoves_of_shutdownStep s s' a h hlocked hok hbooked.fresh)
      (shutdownStep_frame s s' a h).1 hbooks with ⟨booked', hbooks'⟩
    refine ⟨⟨booked', late, hbooks'⟩, fun k hk => ?_⟩
    rcases outside_of_shutdownStep s s' a h k hk with ⟨hout, htaken⟩
    rw [htaken]
    exact hbooked.fresh k hout

theorem booked_of_run (s : State) (as : List Action) (hok : Along (step cfg) Undisturbed init as)
    (hrun : exec (step cfg) init as = some s) :
    Booked s := by
  have h := exec_history (step cfg) Undisturbed (fun _ t => Locked t ∧ Booked t) init
    ⟨locked_init, booked_init⟩ ?_ as s hok hrun
  · exact h.2
  · rintro _ t a u ⟨hlocked, hbooked⟩ hok hstep
    exact ⟨locked_step cfg t u a hstep hlocked, booked_step cfg t u a hstep hlocked hok hbooked⟩

/-! ## When the books can be trusted -/

/-- No operation is in flight: every call has not begun or is over. -/
structure Quiescent (s : State) : Prop where
  posts : s.NoWindow ∧ ∀ j, s.enqueues j ≠ .admitted ∧ s.enqueues j ≠ .withinCapacity ∧
    s.enqueues j ≠ .overCapacity ∧ s.enqueues j ≠ .rejecting
  ticks : ∀ t, s.ticks t = .notCalled ∨ ∃ outcome, s.ticks t = .finished outcome
  shutdowns : ∀ k, s.shutdowns k = .notCalled ∨ s.shutdowns k = .returned ∨
    s.shutdowns k = .gaveUp

theorem drains_of_quiescent (s : State) (h : Quiescent s) :
    s.unpopped = [] ∧ s.unsubtracted = 0 := by
  cases hlock : s.lock with
  | none => exact drains_none s hlock
  | some p =>
      cases p with
      | tick t =>
          rcases drains_tick s t hlock with ⟨hp, hs⟩
          rcases h.ticks t with ht | ⟨outcome, ht⟩ <;> rw [ht] at hp hs <;> exact ⟨hp, hs⟩
      | shutdown k =>
          rcases drains_shutdown s k hlock with ⟨hp, hs⟩
          rcases h.shutdowns k with hk | hk | hk <;> rw [hk] at hp hs <;> exact ⟨hp, hs⟩

/-- In every run that keeps the condition, the pending counter is never below
    zero, a submit time is popped for the job it was pushed for, and when no
    operation is in flight the counter and the book agree with the channel. -/
theorem counters_hold (cfg : Config) (as : List Action) (s : State)
    (hok : Along (step cfg) Undisturbed init as) (hrun : exec (step cfg) init as = some s) :
    0 ≤ s.pending ∧
    (∀ t d env, s.ticks t = .popping d env →
      ∃ at_ rest, s.submitTimes = (env.job, at_) :: rest) ∧
    (Quiescent s → s.pending = s.channel.length ∧ s.submitTimes.length = s.channel.length) := by
  have hbooked := booked_of_run cfg s as hok hrun
  rcases hbooked.books with ⟨booked, late, hbooks⟩
  have hpending := hbooks.pending
  have hlength : s.waiting.length = s.channel.length := List.length_map _
  refine ⟨?_, fun t d env ht => ?_, fun hquiet => ?_⟩
  · -- What is not counted yet is in the channel.
    have hlate : (late.filter (fun j => s.enqueues j = .sent)).length ≤ s.waiting.length := by
      rw [hbooks.channel, List.length_append]
      exact Nat.le_trans (List.length_filter_le _ _) (Nat.le_add_left _ _)
    omega
  -- The tick that is about to pop holds the lock, so what is not popped is its.
  · have hlock : s.lock = some (.tick t) := locked_of_run cfg s as hrun (.tick t) (by
      rw [State.inDrain, ht]
      rfl)
    have htimes := hbooks.times
    rw [(drains_tick s t hlock).1, ht] at htimes
    rcases hsubmit : s.submitTimes with _ | ⟨⟨j, at_⟩, rest⟩
    · rw [hsubmit] at htimes
      simp [TickPhase.unpopped] at htimes
    · rw [hsubmit] at htimes
      simp only [List.map_cons, TickPhase.unpopped, List.singleton_append, List.cons.injEq] at htimes
      exact ⟨at_, rest, by rw [htimes.1]⟩
  -- Nobody has anything left to pop or to subtract.
  · rcases drains_of_quiescent s hquiet with ⟨hpop, hsub⟩
    have hlate := hbooks.late_nil _ _ _ hquiet.posts.1
    subst hlate
    rw [List.filter_nil, hsub, hlength] at hpending
    have htimes := congrArg List.length hbooks.times
    have hchannel := congrArg List.length hbooks.channel
    rw [List.length_map, hpop, List.nil_append] at htimes
    rw [hlength, List.append_nil] at hchannel
    refine ⟨?_, by rw [htimes, hchannel]⟩
    simp only [List.length_nil] at hpending
    omega

/-- A post, and a tick that begins to drain when the post is over. -/
def calmRun : List Action :=
  [.checkShutdown 0, .checkCapacity 0, .send 0 0, .countPending 0, .countTotal 0,
    .pushSubmitTime 0 0, .callTick 0, .tryLock 0 0, .drainNext 0]

theorem counters_hold_calm :
    ∃ s, exec (step ⟨0, fun _ => 1⟩) init calmRun = some s ∧ 0 ≤ s.pending ∧
      ∃ d at_ rest, s.ticks 0 = .popping d ⟨0, 0⟩ ∧ s.submitTimes = (0, at_) :: rest := by
  have hnone : ∀ s : State, s.enqueues 0 = .withinCapacity ∨ s.enqueues 0 = .accepted →
      (∀ j, s.enqueues (j + 1) = .notCalled) → s.NoWindow := by
    intro s h0 hrest j
    cases j with
    | zero => rcases h0 with h0 | h0 <;> rw [h0] <;> rfl
    | succ j => rw [hrest j]; rfl
  have hok : Along (step ⟨0, fun _ => 1⟩) Undisturbed init calmRun := by
    refine along_cons _ _ _ _ _ _ nofun rfl ?_
    refine along_cons _ _ _ _ _ _ nofun rfl ?_
    refine along_cons _ _ _ _ _ _ (hnone _ (.inl rfl) (fun _ => rfl)) rfl ?_
    refine along_cons _ _ _ _ _ _ nofun rfl ?_
    refine along_cons _ _ _ _ _ _ nofun rfl ?_
    refine along_cons _ _ _ _ _ _ nofun rfl ?_
    refine along_cons _ _ _ _ _ _ nofun rfl ?_
    refine along_cons _ _ _ _ _ _ nofun rfl ?_
    exact along_cons _ _ _ _ _ _ (fun _ => hnone _ (.inr rfl) (fun _ => rfl)) rfl trivial
  rcases counters_hold ⟨0, fun _ => 1⟩ calmRun _ hok rfl with ⟨hpending, hpop, _⟩
  rcases hpop 0 _ _ rfl with ⟨at_, rest, hsubmit⟩
  exact ⟨_, rfl, hpending, _, at_, rest, rfl, hsubmit⟩

/-- A tick takes a job out before the post that sent it has counted it. -/
def raceRun : List Action :=
  [.checkShutdown 0, .checkCapacity 0, .send 0 0, .callTick 0, .tryLock 0 0, .drainNext 0,
    .popSubmitTime 0, .observeWait 0, .countDequeued 0, .drainNext 0, .drainNext 0, .subPending 0]

/-- Then both calls go to their end. -/
def raceRunToEnd : List Action :=
  raceRun ++ [.unlockTick 0, .runJob 0 false, .returnTick 0, .countPending 0, .countTotal 0,
    .pushSubmitTime 0 0]

/-- Two posts, of which the second writes its entry first. -/
def swapRun : List Action :=
  [.checkShutdown 0, .checkCapacity 0, .checkShutdown 1, .checkCapacity 1, .send 0 0, .send 1 0,
    .countPending 1, .countTotal 1, .pushSubmitTime 1 0, .callTick 0, .tryLock 0 0, .drainNext 0]

/-- Not every run keeps the books: the counter can fall below zero, a submit
    time can be popped for another job, and an entry can stay for good. -/
theorem counters_fail :
    (¬ ∀ (cfg : Config) (as : List Action) (s : State), exec (step cfg) init as = some s →
      0 ≤ s.pending) ∧
    (¬ ∀ (cfg : Config) (as : List Action) (s : State), exec (step cfg) init as = some s →
      ∀ t d env, s.ticks t = .popping d env → ∀ e ∈ s.submitTimes.head?, e.1 = env.job) ∧
    (¬ ∀ (cfg : Config) (as : List Action) (s : State), exec (step cfg) init as = some s →
      Quiescent s → s.submitTimes.length = s.channel.length) := by
  refine ⟨fun hall => ?_, fun hall => ?_, fun hall => ?_⟩
  · have hpending := hall ⟨0, fun _ => 1⟩ raceRun _ rfl
    exact absurd hpending (by decide)
  · have hown := hall ⟨0, fun _ => 1⟩ swapRun _ rfl 0 _ ⟨0, 0⟩ rfl (1, 0) rfl
    exact absurd hown (by decide)
  · have hlength := hall ⟨0, fun _ => 1⟩ raceRunToEnd _ rfl ?_
    · exact absurd hlength (by decide)
    · refine ⟨⟨fun j => ?_, fun j => ?_⟩, fun t => ?_, fun k => .inl rfl⟩
      · cases j <;> rfl
      · cases j with
        | zero => exact ⟨nofun, nofun, nofun, nofun⟩
        | succ j => exact ⟨nofun, nofun, nofun, nofun⟩
      · cases t with
        | zero => exact .inr ⟨_, rfl⟩
        | succ t => exact .inl rfl

end Host

end DccMcp
