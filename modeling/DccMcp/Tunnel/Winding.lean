import DccMcp.Tunnel.Teardown

/-!
# Frontends That Keep a Tunnel Up

When a tunnel whose connection has ended is torn down.

The handler of the connection waits for the writer, the writer for the queue,
and the queue for everybody who holds the handle. A frontend with a connected
client that says nothing holds the handle for as long as the client likes, and
the task that drains its inbox waits for an inbox that nobody else closes. So
the tunnel is torn down if every frontend is on its way out for a reason of its
own, and `Winding` is that reason, phase by phase.

One direction follows `Winding` through every step to the states where the
relay is at rest. The other takes a frontend that is not on its way out and
lets the relay run without a failed write until it rests: the frontend is still
there.

## Main definitions

* `State.stopped`: The agent cannot be written to.
* `Attached`, `Waiting`, `Lingers`: A frontend that keeps the tunnel up.

## Theorems

* `teardown_iff`: When a tunnel is torn down.
-/

namespace DccMcp

namespace Tunnel

namespace Teardown

open Machine

variable {n : Nat}

/-! ## Winding down -/

/-- The agent cannot be written to any more. -/
def State.stopped (s : State n) : Bool := s.writer = .stopped

variable (row stopped : Bool) (sent : Sent) (s : State n) (f f' : Frontend)

theorem stopped_of_closed (h : s.send = .closed) : s.stopped = true := by
  unfold State.send at h
  split at h
  next hwriter => exact decide_eq_true hwriter
  next =>
    split at h
    · cases h
    · cases h

theorem not_stopped_of_queued (h : s.send = .queued) : s.stopped = false := by
  unfold State.send at h
  split at h
  next => cases h
  next hwriter => exact decide_eq_false hwriter

/-- A frontend that winds down goes on doing so when the row goes or the
    writer stops. -/
theorem winding_mono (row row' stopped stopped' : Bool) (f : Frontend)
    (hrow : row = false → row' = false) (hstopped : stopped = true → stopped' = true)
    (h : Winding row stopped f) : Winding row' stopped' f := by
  unfold Winding at h ⊢
  -- The reasons only mention that the row is gone or the writer has stopped.
  cases hmain : f.main with
  | selecting =>
      rw [hmain] at h
      exact h.imp hrow (Or.imp id hstopped)
  | selected | opening | sending =>
      rw [hmain] at h
      exact Or.imp id hstopped h
  | reading =>
      rw [hmain] at h
      exact Or.imp id (And.imp hstopped id) h
  | refused | abandoning | closing | unlinking | dropping | joining | returned => trivial

theorem winding_mainMove (queued : Bool) (hmove : MainMove s.row s.send f f' queued)
    (h : Winding s.row s.stopped f) :
    Winding s.row s.stopped f' := by
  unfold Winding at h ⊢
  -- A frontend leaves the places that need a reason by finding the end, or
  -- takes its reason along.
  cases hmove with
  | found hmain hrow =>
      rw [hmain] at h
      rcases h with hgone | h
      · rw [hrow] at hgone
        cases hgone
      · exact h
  | missed hmain hrow => trivial
  | opened hmain =>
      rw [hmain] at h
      exact h
  | spawned hmain hsent =>
      -- The frame went out, so it is the client that has hung up.
      rw [hmain] at h
      rw [not_stopped_of_queued s hsent] at h
      exact .inl (h.resolve_right Bool.false_ne_true)
  | turnedAway hmain hsent => trivial
  | abandoned hmain => trivial
  | received hmain hinbound =>
      rw [hmain] at h
      exact h.imp id And.left
  | leftByClient hmain hhung => trivial
  | forwarded hmain hsent =>
      rw [hmain] at h
      rw [not_stopped_of_queued s hsent] at h
      exact .inl (h.resolve_right Bool.false_ne_true)
  | failed hmain hsent => trivial
  | told hmain queued hsent => trivial
  | unlinked hmain => trivial
  | dropped hmain => trivial
  | joined hmain hpump => trivial

/-- The other task only matters for a frontend that waits for its client. -/
theorem winding_of_pump (hmain : f'.main = f.main) (hhung : f'.hungUp = f.hungUp)
    (hinbound : f'.inbound = f.inbound)
    (hopen : f.inSessions = false ∨ f.pump.inLoop = false →
      f'.inSessions = false ∨ f'.pump.inLoop = false)
    (h : Winding row stopped f) : Winding row stopped f' := by
  unfold Winding at h ⊢
  rw [hmain, hhung, hinbound]
  cases hphase : f.main with
  | reading =>
      rw [hphase] at h
      exact Or.imp id (And.imp id (Or.imp id hopen)) h
  | selecting | selected | opening | sending =>
      rw [hphase] at h
      exact h
  | refused | abandoning | closing | unlinking | dropping | joining | returned => trivial

theorem winding_pumpMove (ok : Bool) (f f' : Frontend) (queued : Bool)
    (hmove : PumpMove sent ok f f' queued) (h : Winding row stopped f) :
    Winding row stopped f' := by
  cases hmove with
  | received hpump | written hpump =>
      -- The task stays in its loop, so it was the session that was gone.
      refine winding_of_pump row stopped f _ rfl rfl rfl (fun hopen => ?_) h
      rw [hpump] at hopen
      exact .inl (hopen.resolve_right (by decide))
  | closed | failed | told => exact winding_of_pump row stopped f _ rfl rfl rfl (fun _ => .inr rfl) h
  | unlinked => exact winding_of_pump row stopped f _ rfl rfl rfl (fun _ => .inl rfl) h

/-- What a client does only helps. -/
theorem winding_client (hmain : f'.main = f.main) (hpump : f'.pump = f.pump)
    (hsession : f'.inSessions = f.inSessions)
    (hhung : f.hungUp = true → f'.hungUp = true) (hinbound : f.inbound ≤ f'.inbound)
    (h : Winding row stopped f) : Winding row stopped f' := by
  unfold Winding at h ⊢
  rw [hmain, hpump, hsession]
  cases hphase : f.main with
  | reading =>
      rw [hphase] at h
      exact Or.imp hhung (And.imp id (Or.imp (fun hpos => Nat.lt_of_lt_of_le hpos hinbound) id)) h
  | selecting =>
      rw [hphase] at h
      exact Or.imp id (Or.imp hhung id) h
  | selected | opening | sending =>
      rw [hphase] at h
      exact Or.imp hhung id h
  | refused | abandoning | closing | unlinking | dropping | joining | returned => trivial

theorem winding_put (i : Fin n) (moved : Frontend × Bool)
    (h : ∀ j, Winding s.row s.stopped (s.frontends j)) (hmoved : Winding s.row s.stopped moved.1)
    (j : Fin n) : Winding s.row s.stopped ((s.put i moved).frontends j) := by
  rw [frontends_put]
  split
  · exact hmoved
  · exact h j

/-- A connection that has ended stays so. -/
theorem ended_step (s t : State n) (a : Action n) (hended : s.agent ≠ .reading)
    (hstep : step s a = some t) : t.agent ≠ .reading := by
  -- Every step of the handler goes forward, and nobody else touches it.
  cases moves_of_step s t a hstep with
  | agentEnded | dropped | removed | joined => exact (fun hagent => by cases hagent)
  | clientSent | clientHungUp | delivered | discarded | agentClosed | evicted | taken | closed
  | written | failed | main | pump => exact hended

/-- The frontends of a tunnel go on winding down once its connection has
    ended. -/
theorem winding_step (s t : State n) (a : Action n) (hended : s.agent ≠ .reading)
    (hstep : step s a = some t) (h : ∀ i, Winding s.row s.stopped (s.frontends i)) :
    ∀ i, Winding t.row t.stopped (t.frontends i) := by
  cases moves_of_step s t a hstep with
  | clientSent i hopen =>
      exact winding_put s i _ h
        (winding_client _ _ (s.frontends i) _ rfl rfl rfl id (Nat.le_succ _) (h i))
  | clientHungUp i =>
      exact winding_put s i _ h
        (winding_client _ _ (s.frontends i) _ rfl rfl rfl (fun _ => rfl) (Nat.le_refl _) (h i))
  | delivered i hagent | discarded i hagent | agentClosed i hagent =>
      -- The agent has nothing to say any more.
      exact absurd hagent hended
  | evicted => exact fun i => winding_mono _ _ _ _ _ (fun _ => rfl) id (h i)
  | removed hagent => exact fun i => winding_mono _ _ _ _ _ (fun _ => rfl) id (h i)
  | agentEnded hagent | dropped hagent | joined hagent hwriter => exact h
  | closed hwriter hfree => exact fun i => winding_mono _ _ _ _ _ id (fun _ => rfl) (h i)
  | failed hwriter => exact fun i => winding_mono _ _ _ _ _ id (fun _ => rfl) (h i)
  | taken hwriter hqueue =>
      -- The writer was running, so nothing that held before needed it stopped.
      refine fun i => winding_mono _ _ _ _ _ id (fun hstopped => ?_) (h i)
      rw [State.stopped, hwriter] at hstopped
      cases hstopped
  | written hwriter =>
      refine fun i => winding_mono _ _ _ _ _ id (fun hstopped => ?_) (h i)
      rw [State.stopped, hwriter] at hstopped
      cases hstopped
  | main i f queued hmove => exact winding_put s i _ h (winding_mainMove s _ _ _ hmove (h i))
  | pump i ok f queued hmove =>
      exact winding_put s i _ h (winding_pumpMove _ _ _ _ _ _ _ hmove (h i))

/-! ## At rest -/

/-- At rest the writer waits or has stopped, and no send waits for it. -/
theorem writer_of_rest (hrest : Rest s) :
    (s.writer = .stopped ∨ s.writer = .running ∧ s.held = true) ∧ s.send ≠ .blocked := by
  cases hwriter : s.writer with
  | stopped =>
      refine ⟨.inl rfl, fun hsend => ?_⟩
      rw [State.send, if_pos hwriter] at hsend
      cases hsend
  | writing =>
      -- A write always ends.
      have hwrite := hrest (.writerWrite true) rfl
      rw [step, if_pos hwriter] at hwrite
      cases hwrite
  | running =>
      -- With an empty queue the writer waits for as long as somebody holds the
      -- handle, and there is room for every send.
      have hrecv := hrest .writerRecv rfl
      rw [step, if_pos hwriter] at hrecv
      by_cases hqueue : 0 < s.queue
      · rw [if_pos hqueue] at hrecv
        cases hrecv
      · rw [if_neg hqueue] at hrecv
        by_cases hheld : s.held = true
        · refine ⟨.inr ⟨rfl, hheld⟩, fun hsend => ?_⟩
          have hroom : s.queue < agentFrameQueue := by
            unfold agentFrameQueue
            omega
          rw [State.send, if_neg (by rw [hwriter]; decide), if_pos hroom] at hsend
          cases hsend
        · rw [if_neg hheld] at hrecv
          cases hrecv

/-- Where `handle_frontend` can wait. -/
theorem main_of_rest (row : Bool) (sent : Sent) (f : Frontend) (hsent : sent ≠ .blocked)
    (h : mainStep row sent f = none) :
    (f.main = .refused ∨ f.main = .returned) ∨
      (f.main = .reading ∧ f.inbound = 0 ∧ f.hungUp = false) ∨
      (f.main = .joining ∧ f.pump ≠ .ended) := by
  -- Everything but the client and the join goes on by itself.
  unfold mainStep at h
  split at h
  next => cases h
  next => cases h
  next =>
    split at h
    next => cases h
    next => cases h
    next => exact absurd rfl hsent
  next => cases h
  next hmain =>
    split at h
    next => cases h
    next hinbound =>
      split at h
      next => cases h
      next hhung => exact .inr (.inl ⟨hmain, by omega, Bool.eq_false_iff.mpr hhung⟩)
  next =>
    split at h
    next => cases h
    next => cases h
    next => exact absurd rfl hsent
  next =>
    split at h
    next => cases h
    next => cases h
    next => exact absurd rfl hsent
  next => cases h
  next => cases h
  next hmain =>
    split at h
    next => cases h
    next hpump => exact .inr (.inr ⟨hmain, hpump⟩)
  next hmain => exact .inl (.inl hmain)
  next hmain => exact .inl (.inr hmain)

/-- Where the task that drains the inbox can wait. -/
theorem pump_of_rest (ok : Bool) (f : Frontend) (hsent : sent ≠ .blocked)
    (h : pumpStep sent ok f = none) :
    (f.pump = .unborn ∨ f.pump = .ended) ∨ (f.pump = .draining ∧ f.inSessions = true) := by
  unfold pumpStep at h
  split at h
  next hpump => exact .inl (.inl hpump)
  next hpump =>
    split at h
    next => cases h
    next =>
      split at h
      next hsession => exact .inr ⟨hpump, hsession⟩
      next => cases h
  next => cases h
  next =>
    split at h
    next => cases h
    next => cases h
    next => exact absurd rfl hsent
  next => cases h
  next hpump => exact .inl (.inr hpump)

/-- A frontend that winds down has nothing open at rest, and holds the handle
    only if the agent cannot be written to. -/
theorem closed_of_rest (f : Frontend) (hok : f.Ok) (hwind : Winding row stopped f)
    (hsent : sent ≠ .blocked) (hmain : mainStep row sent f = none)
    (hpump : pumpStep sent true f = none) :
    f.inSessions = false ∧ (f.pump = .unborn ∨ f.pump = .ended) ∧
      (f.holds = true → stopped = true) := by
  -- Where the first task can be at rest, and what that says about the other.
  have hpump := pump_of_rest sent true f hsent hpump
  unfold Winding at hwind
  unfold Frontend.Ok at hok
  rcases main_of_rest row sent f hsent hmain with (h | h) | ⟨h, hinbound, hhung⟩ | ⟨h, hrunning⟩
  · rw [h] at hok
    refine ⟨hok.1, .inl hok.2, fun hholds => ?_⟩
    rw [Frontend.holds, h, hok.2] at hholds
    cases hholds
  · rw [h] at hok
    refine ⟨hok.1, hok.2, fun hholds => ?_⟩
    rcases hok.2 with hended | hended
    · rw [Frontend.holds, h, hended] at hholds
      cases hholds
    · rw [Frontend.holds, h, hended] at hholds
      cases hholds
  · -- The client is silent, so the writer has stopped and the inbox is closed.
    rw [h] at hok hwind
    rcases hwind with hwind | ⟨hstopped, hwind⟩
    · rw [hhung] at hwind
      cases hwind
    · have hended : f.pump = .ended := by
        rcases hpump with (hunborn | hended) | ⟨hdrain, hopen⟩
        · exact absurd hunborn hok.1
        · exact hended
        · rcases hwind with hwind | hwind | hwind
          · omega
          · rw [hopen] at hwind
            cases hwind
          · rw [hdrain] at hwind
            cases hwind
      exact ⟨hok.2 hended, .inr hended, fun _ => hstopped⟩
  · -- The other task would see that the inbox is closed.
    rw [h] at hok
    rcases hpump with (hunborn | hended) | ⟨_, hopen⟩
    · exact absurd hunborn hok.1
    · exact absurd hended hrunning
    · rw [hok.2] at hopen
      cases hopen

/-- If every frontend winds down, then everything is closed at rest. -/
theorem done_of_rest (hwf : Wf s) (hended : s.agent ≠ .reading)
    (hwind : ∀ i, Winding s.row s.stopped (s.frontends i)) (hrest : Rest s) : Done s := by
  rcases writer_of_rest s hrest with ⟨hwriter, hsent⟩
  -- What is left of each frontend.
  have hclosed := fun i => closed_of_rest s.row s.stopped s.send (s.frontends i)
    (hwf.frontends i) (hwind i) hsent (Option.map_eq_none_iff.mp (hrest (.main i) rfl))
    (Option.map_eq_none_iff.mp (hrest (.pump i true) rfl))
  refine ⟨?_, fun i => (hclosed i).1, fun i => (hclosed i).2.1⟩
  cases hagent : s.agent with
  | reading => exact absurd hagent hended
  | ended =>
      have hdrop := hrest .handlerDrop rfl
      rw [step, if_pos hagent] at hdrop
      cases hdrop
  | dropped =>
      have hremove := hrest .handlerRemove rfl
      rw [step, if_pos hagent] at hremove
      cases hremove
  | removed =>
      have hstopped : s.writer = .stopped := by
        rcases hwriter with hstopped | ⟨_, hheld⟩
        · exact hstopped
        · -- The row is gone and the handler has let go: a frontend holds the handle.
          simp only [State.held, hwf.row (.inl hagent), hagent, Bool.false_or, reduceCtorEq,
            decide_false, decide_eq_true_eq] at hheld
          rcases hheld with ⟨i, hi⟩
          exact of_decide_eq_true ((hclosed i).2.2 hi)
      -- Nothing keeps the handler from its last step.
      have hjoin := hrest .handlerJoin rfl
      rw [step, if_pos ⟨hagent, hstopped⟩] at hjoin
      cases hjoin
  | finished => rfl

/-! ## Lingering -/

/-- Steps of the relay in which every write succeeds. -/
def Action.isQuiet : Action n → Bool
  | .writerWrite ok => ok
  | .pump _ ok => ok
  | a => a.isInternal

/-- Whether a task can move does not depend on how its write ends. -/
theorem exists_quiet (s t : State n) (a : Action n) (hinternal : a.isInternal = true)
    (hstep : step s a = some t) : ∃ b u, b.isQuiet = true ∧ step s b = some u := by
  cases a with
  | writerWrite ok =>
      simp only [step, Option.ite_none_right_eq_some] at hstep
      exact ⟨.writerWrite true, _, rfl, if_pos hstep.1⟩
  | pump i ok =>
      rcases Option.map_eq_some_iff.mp hstep with ⟨⟨f, queued⟩, hmove, _⟩
      -- The result of a write only matters while writing.
      cases hquiet : pumpStep s.send true (s.frontends i) with
      | some moved => exact ⟨.pump i true, s.put i moved, rfl, by rw [step, hquiet]; rfl⟩
      | none =>
          unfold pumpStep at hmove hquiet
          cases hpump : (s.frontends i).pump with
          | writing =>
              rw [hpump] at hquiet
              cases hquiet
          | unborn | draining | shutting | unlinking | ended =>
              rw [hpump] at hmove hquiet
              dsimp only at hmove hquiet
              rw [hquiet] at hmove
              cases hmove
  | handlerDrop | handlerRemove | handlerJoin | writerRecv | main i =>
      exact ⟨_, t, rfl, hstep⟩
  | clientSend i | clientHangUp i | agentData i | agentClose i | evict | agentEnds =>
      cases hinternal

theorem isInternal_of_isQuiet (a : Action n) (h : a.isQuiet = true) : a.isInternal = true := by
  cases a with
  | writerWrite ok => rfl
  | pump i ok => rfl
  | clientSend i | clientHangUp i | agentData i | agentClose i | evict | agentEnds
  | handlerDrop | handlerRemove | handlerJoin | writerRecv | main i => exact h

/-- The relay can come to rest without a write that fails. -/
theorem exists_rest (P : State n → Prop)
    (hkeep : ∀ s t a, P s → a.isQuiet = true → step s a = some t → P t) (s : State n) (h : P s) :
    ∃ bs t, exec step s bs = some t ∧ Rest t ∧ P t := by
  induction s using internal_wf.induction with
  | h s ih =>
      -- By induction on the steps the relay can still make.
      by_cases hrest : Rest s
      · exact ⟨[], s, rfl, hrest, h⟩
      · unfold Rest at hrest
        push Not at hrest
        rcases hrest with ⟨a, hinternal, hstep⟩
        rcases Option.ne_none_iff_exists'.mp hstep with ⟨t, hstep⟩
        rcases exists_quiet s t a hinternal hstep with ⟨b, u, hquiet, hu⟩
        rcases ih u ⟨b, isInternal_of_isQuiet b hquiet, hu⟩ (hkeep s u b h hquiet hu) with
          ⟨bs, v, hrun, hv⟩
        exact ⟨b :: bs, v, (exec_cons step s v b bs).mpr ⟨u, hu, hrun⟩, hv⟩

/-- A frontend that forwards what a connected client sends. -/
def Attached (f : Frontend) : Prop :=
  f.hungUp = false ∧
    (f.main = .selected ∨ f.main = .opening ∨ f.main = .reading ∨ f.main = .sending)

/-- A frontend whose two tasks wait, for the client and for the agent. -/
structure Waiting (f : Frontend) : Prop where
  hungUp : f.hungUp = false
  inbound : f.inbound = 0
  main : f.main = .reading
  session : f.inSessions = true
  pump : f.pump.inLoop = true

/-- A frontend that keeps the tunnel from being torn down. -/
def Lingers (s : State n) (i : Fin n) : Prop :=
  (s.stopped = false ∧ Attached (s.frontends i)) ∨ Waiting (s.frontends i)

theorem holds_of_attached (f : Frontend) (h : Attached f) : f.holds = true := by
  unfold Frontend.holds
  rcases h.2 with h | h | h | h
  · rw [h]; rfl
  · rw [h]; rfl
  · rw [h]; rfl
  · rw [h]; rfl

theorem attached_mainMove (queued : Bool) (hmove : MainMove s.row s.send f f' queued)
    (hstopped : s.stopped = false) (h : Attached f) :
    Attached f' := by
  rcases h with ⟨hhung, hphase⟩
  -- Nothing was closed, so every send that returned has queued its frame.
  have hopen : s.send ≠ .closed := fun hclosed => by
    rw [stopped_of_closed s hclosed] at hstopped
    cases hstopped
  cases hmove with
  | opened hmain => exact ⟨hhung, .inr (.inl rfl)⟩
  | spawned hmain hsent => exact ⟨hhung, .inr (.inr (.inl rfl))⟩
  | received hmain hinbound => exact ⟨hhung, .inr (.inr (.inr rfl))⟩
  | forwarded hmain hsent => exact ⟨hhung, .inr (.inr (.inl rfl))⟩
  | found hmain hrow => exact ⟨hhung, .inl rfl⟩
  | leftByClient hmain hleft =>
      rw [hhung] at hleft
      cases hleft
  | turnedAway hmain hsent => exact absurd hsent hopen
  | failed hmain hsent => exact absurd hsent hopen
  | missed hmain | abandoned hmain | told hmain | unlinked hmain | dropped hmain | joined hmain =>
      -- These are places where the frontend does not forward.
      rw [hmain] at hphase
      simp at hphase

theorem attached_pumpMove (ok : Bool) (f f' : Frontend) (queued : Bool)
    (hmove : PumpMove sent ok f f' queued) (h : Attached f) : Attached f' := by
  -- The first task is where it was.
  cases hmove with
  | received | closed | written | failed | told | unlinked => exact h

/-- A client that is silent keeps `handle_frontend` where it is. -/
theorem not_waiting_mainMove (row : Bool) (sent : Sent) (f f' : Frontend) (queued : Bool)
    (hmove : MainMove row sent f f' queued) : ¬ Waiting f := by
  intro h
  have hreading := h.main
  cases hmove with
  | received hmain hinbound =>
      have hsilent := h.inbound
      omega
  | leftByClient hmain hhung =>
      rw [h.hungUp] at hhung
      cases hhung
  | found hmain | missed hmain | opened hmain | spawned hmain | turnedAway hmain | abandoned hmain
  | forwarded hmain | failed hmain | told hmain | unlinked hmain | dropped hmain | joined hmain =>
      rw [hmain] at hreading
      cases hreading

/-- The inbox of a session that is open does not end. -/
theorem waiting_pumpMove (queued : Bool) (hmove : PumpMove sent true f f' queued) (h : Waiting f) :
    Waiting f' := by
  have hloop := h.pump
  cases hmove with
  | received hpump hinbox => exact ⟨h.hungUp, h.inbound, h.main, h.session, rfl⟩
  | written hpump hok => exact ⟨h.hungUp, h.inbound, h.main, h.session, rfl⟩
  | closed hpump hsession =>
      rw [h.session] at hsession
      cases hsession
  | failed hpump hok => cases hok
  | told hpump queued =>
      rw [hpump] at hloop
      cases hloop
  | unlinked hpump =>
      rw [hpump] at hloop
      cases hloop

/-- A step of the frontends, for one that lingers. -/
theorem lingers_put (i j : Fin n) (moved : Frontend × Bool) (h : Lingers s i)
    (hmoved : j = i → Lingers s i → (s.stopped = false ∧ Attached moved.1) ∨ Waiting moved.1) :
    Lingers (s.put j moved) i := by
  unfold Lingers
  rw [frontends_put]
  split
  next hsame => exact hmoved hsame.symm h
  next => exact h

/-- It goes on lingering as long as its client is silent and writes succeed. -/
theorem lingers_step (i : Fin n) (s t : State n) (a : Action n) (h : Lingers s i)
    (hquiet : a.isQuiet = true) (hstep : step s a = some t) : Lingers t i := by
  cases moves_of_step s t a hstep with
  | clientSent | clientHungUp | delivered | discarded | agentClosed | evicted | agentEnded =>
      cases hquiet
  | failed hwriter => cases hquiet
  | dropped hagent | removed hagent | joined hagent hwriter => exact h
  | taken hwriter hqueue => exact h.imp (And.imp (fun _ => rfl) id) id
  | written hwriter => exact h.imp (And.imp (fun _ => rfl) id) id
  | closed hwriter hfree =>
      rcases h with ⟨_, hattached⟩ | hwaiting
      · -- The frontend holds the handle, so the queue is not closed.
        have hholder : ∃ j, (s.frontends j).holds = true := ⟨i, holds_of_attached _ hattached⟩
        unfold State.held at hfree
        rw [decide_eq_true hholder, Bool.or_true] at hfree
        cases hfree
      · exact .inr hwaiting
  | main j f queued hmove =>
      refine lingers_put s i j _ h (fun hsame hlingers => ?_)
      subst hsame
      rcases hlingers with ⟨hstopped, hattached⟩ | hwaiting
      · exact .inl ⟨hstopped, attached_mainMove s _ _ _ hmove hstopped hattached⟩
      · exact absurd hwaiting (not_waiting_mainMove _ _ _ _ _ hmove)
  | pump j ok f queued hmove =>
      have hok : ok = true := hquiet
      subst hok
      refine lingers_put s i j _ h (fun hsame hlingers => ?_)
      subst hsame
      rcases hlingers with ⟨hstopped, hattached⟩ | hwaiting
      · exact .inl ⟨hstopped, attached_pumpMove _ _ _ _ _ hmove hattached⟩
      · exact .inr (waiting_pumpMove _ _ _ _ hmove hwaiting)

/-- A tunnel with a frontend that lingers is not torn down. -/
theorem not_done_of_lingers (i : Fin n) (hwf : Wf s) (h : Lingers s i) : ¬ Done s := by
  intro hdone
  rcases h with ⟨hstopped, _⟩ | hwaiting
  · rw [State.stopped, hwf.finished hdone.handler] at hstopped
    cases hstopped
  · have hclosed := hdone.closed i
    rw [hwaiting.session] at hclosed
    cases hclosed

/-- A frontend that does not wind down lingers, at the latest when it has
    looked up the tunnel. -/
theorem lingers_of_not_winding (i : Fin n) (h : ¬ Winding s.row s.stopped (s.frontends i)) :
    ∃ bs t, exec step s bs = some t ∧ Lingers t i := by
  unfold Winding at h
  -- Each reason to wind down that is missing is a reason to stay.
  cases hmain : (s.frontends i).main with
  | selecting =>
      rw [hmain] at h
      simp only [not_or, Bool.not_eq_false, Bool.not_eq_true] at h
      rcases h with ⟨hrow, hhung, hstopped⟩
      refine ⟨[.main i], s.put i ({ s.frontends i with main := .selected }, false), ?_,
        .inl ⟨hstopped, ?_⟩⟩
      · simp [exec, step, mainStep, hmain, hrow]
      · rw [frontends_put, if_pos rfl]
        exact ⟨hhung, .inl rfl⟩
  | selected =>
      rw [hmain] at h
      simp only [not_or, Bool.not_eq_true] at h
      exact ⟨[], s, rfl, .inl ⟨h.2, h.1, .inl hmain⟩⟩
  | opening =>
      rw [hmain] at h
      simp only [not_or, Bool.not_eq_true] at h
      exact ⟨[], s, rfl, .inl ⟨h.2, h.1, .inr (.inl hmain)⟩⟩
  | sending =>
      rw [hmain] at h
      simp only [not_or, Bool.not_eq_true] at h
      exact ⟨[], s, rfl, .inl ⟨h.2, h.1, .inr (.inr (.inr hmain))⟩⟩
  | reading =>
      rw [hmain] at h
      simp only [not_or, not_and, Bool.not_eq_true, Bool.not_eq_false, Nat.not_lt,
        Nat.le_zero] at h
      rcases h with ⟨hhung, h⟩
      cases hstopped : s.stopped with
      | false => exact ⟨[], s, rfl, .inl ⟨hstopped, hhung, .inr (.inr (.inl hmain))⟩⟩
      | true =>
          rcases h hstopped with ⟨hinbound, hsession, hloop⟩
          exact ⟨[], s, rfl, .inr ⟨hhung, hinbound, hmain, hsession, hloop⟩⟩
  | refused | abandoning | closing | unlinking | dropping | joining | returned =>
      rw [hmain] at h
      exact absurd trivial h

/-! ## When a tunnel is torn down -/

theorem wf_exec (s t : State n) (as : List (Action n)) (h : Wf s) (hrun : exec step s as = some t) :
    Wf t :=
  exec_invariant step Wf (fun u a v hu huv => wf_step u v a hu huv) s t as h hrun

/-- When the connection of an agent has ended, in any run of the relay and any
    number of frontends, its tunnel is torn down whatever happens next exactly
    if every frontend winds down by itself. -/
theorem teardown_iff (as : List (Action n)) (s : State n) (hrun : exec step init as = some s)
    (hended : s.agent = .ended) :
    TearsDown s ↔ ∀ i, Winding s.row s.stopped (s.frontends i) := by
  have hwf := wf_exec init s as wf_init hrun
  constructor
  · intro hdown i
    -- Let the relay run to its rest without a failed write: the frontend is
    -- still there.
    by_contra hlinger
    rcases lingers_of_not_winding s i hlinger with ⟨bs, t, hbs, ht⟩
    rcases exists_rest (fun u => Lingers u i) (fun u v a => lingers_step i u v a) t ht with
      ⟨cs, u, hcs, hrest, hu⟩
    have hrun' := (exec_append step s u bs cs).mpr ⟨t, hbs, hcs⟩
    exact not_done_of_lingers u i (wf_exec s u _ hwf hrun') hu ((hdown _ u hrun').2 hrest)
  · intro hwind bs t hbs
    -- What the frontends need is kept along every run, whatever the clients do.
    have hkept := exec_invariant step
      (fun u => u.agent ≠ .reading ∧ ∀ i, Winding u.row u.stopped (u.frontends i))
      (fun u a v hu huv => ⟨ended_step u v a hu.1 huv, winding_step u v a hu.1 huv hu.2⟩)
      s t bs ⟨by rw [hended]; decide, hwind⟩ hbs
    exact ⟨internal_wf.apply t,
      fun hrest => done_of_rest t (wf_exec s t bs hwf hbs) hkept.1 hkept.2 hrest⟩

/-- A client is attached, and its session is announced to the agent. -/
def attachRun : List (Action 1) :=
  [.main 0, .main 0, .main 0, .writerRecv, .writerWrite true]

/-- A client that hangs up before the connection ends. -/
theorem teardown_iff_hungUp :
    ∃ s, exec step init (attachRun ++ [.clientHangUp 0, .agentEnds]) = some s ∧
      s.agent = .ended ∧ (s.frontends 0).inSessions = true ∧ TearsDown s := by
  refine ⟨_, rfl, rfl, rfl, ?_⟩
  refine (teardown_iff (attachRun ++ [.clientHangUp 0, .agentEnds]) _ rfl rfl).mpr (fun i => ?_)
  rw [Subsingleton.elim i 0]
  exact .inl rfl

/-- A client that is connected and silent: its session stays open, the task
    that drains its inbox waits, and so does the handler. -/
theorem silent_client_keeps_tunnel :
    ∃ s t, exec step init (attachRun ++ [.agentEnds]) = some s ∧ s.agent = .ended ∧
      exec step s [.handlerDrop, .handlerRemove] = some t ∧ Rest t ∧ t.agent = .removed ∧
      (t.frontends 0).inSessions = true ∧ (t.frontends 0).pump = .draining ∧ ¬ TearsDown s := by
  have hrest : ∀ s t : State 1, exec step init (attachRun ++ [.agentEnds]) = some s →
      exec step s [.handlerDrop, .handlerRemove] = some t → Rest t := by
    rintro s t ⟨⟩ ⟨⟩ a hinternal
    -- No step of the relay is enabled.
    cases a with
    | handlerDrop | handlerRemove | handlerJoin | writerRecv => rfl
    | writerWrite ok => rfl
    | main i =>
        rw [Subsingleton.elim i 0]
        rfl
    | pump i ok =>
        rw [Subsingleton.elim i 0]
        rfl
    | clientSend i | clientHangUp i | agentData i | agentClose i | evict | agentEnds =>
        cases hinternal
  refine ⟨_, _, rfl, rfl, rfl, hrest _ _ rfl rfl, rfl, rfl, rfl, fun hdown => ?_⟩
  have hdone := (hdown [.handlerDrop, .handlerRemove] _ rfl).2 (hrest _ _ rfl rfl)
  exact Bool.noConfusion (hdone.closed 0)

end Teardown

end Tunnel

end DccMcp
