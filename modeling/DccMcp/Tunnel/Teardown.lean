import DccMcp.Lib.Machine
import Mathlib.Algebra.BigOperators.Fin

/-!
# Tearing a Tunnel Down

What happens on the relay when an agent's connection ends.

A tunnel has one handle, and it is shared: by the row in the registry, by the
handler of the agent's connection, and by the two tasks of every frontend that
is attached. The handle owns the queue toward the agent and the inboxes of the
sessions. Both close when nobody holds the handle any more; an inbox also
closes when its session is taken out.

When the connection ends, the handler lets go of the handle, removes the row
and waits for the task that writes to the agent, which waits for the queue to
close. A frontend whose client is connected and silent waits for the client.
It holds the handle meanwhile, and so does the task that drains its inbox,
which waits for that inbox to close.

Writes to sockets end, with success or an error. A frontend here is a client
that has chosen the tunnel; it may be looked up at any time.

## Main definitions

* `Frontend`, `State`: The tasks of one tunnel.
* `mainStep`, `pumpStep`, `step`: What they do.
* `Rest`, `Done`, `TearsDown`: What a teardown is.
* `Winding`: A frontend that will close by itself.

## Theorems

* `mainMove_of_step`, `pumpMove_of_step`, `moves_of_step`: Every way a frontend
  and the relay can move.
* `internal_wf`: The relay comes to rest if its clients do.
* `wf_step`: A session that is open has somebody who will close it.
-/

namespace DccMcp

namespace Tunnel

namespace Teardown

open Machine

/-- `AGENT_FRAME_QUEUE`. -/
def agentFrameQueue : Nat := 32

/-- `SESSION_INBOX_QUEUE`. -/
def sessionInboxQueue : Nat := 32

/-- Where `handle_frontend` is. -/
inductive Main
  | selecting
  | refused
  | selected
  | opening
  | abandoning
  | reading
  | sending
  | closing
  | unlinking
  | dropping
  | joining
  | returned
  deriving DecidableEq

/-- Where the task is that drains the inbox of a session. -/
inductive Pump
  | unborn
  | draining
  | writing
  | shutting
  | unlinking
  | ended
  deriving DecidableEq

/-- The task has not left its loop. -/
def Pump.inLoop : Pump → Bool
  | .draining => true
  | .writing => true
  | _ => false

/-- A frontend: its two tasks, whether its session is in the map, what is in
    its inbox, and what its client has sent and whether it has hung up. -/
structure Frontend where
  main : Main
  pump : Pump
  inSessions : Bool
  inbox : Nat
  inbound : Nat
  hungUp : Bool
  deriving DecidableEq

/-- Where `handle_agent` is. -/
inductive Agent
  | reading
  | ended
  | dropped
  | removed
  | finished
  deriving DecidableEq

/-- Where the task is that writes to the agent. -/
inductive Writer
  | running
  | writing
  | stopped
  deriving DecidableEq

/-- One tunnel of the relay. -/
structure State (n : Nat) where
  row : Bool
  agent : Agent
  writer : Writer
  queue : Nat
  frontends : Fin n → Frontend

variable {n : Nat}

/-- A tunnel that has been registered, and the clients that will choose it. -/
def init : State n :=
  ⟨true, .reading, .running, 0, fun _ => ⟨.selecting, .unborn, false, 0, 0, false⟩⟩

/-- A task of the frontend holds the handle. -/
def Frontend.holds (f : Frontend) : Bool :=
  (match f.main with
    | .selecting | .refused | .joining | .returned => false
    | _ => true) ||
  (match f.pump with
    | .unborn | .ended => false
    | _ => true)

/-- Somebody holds the handle. -/
def State.held (s : State n) : Bool :=
  s.row || (s.agent = .reading || s.agent = .ended) || decide (∃ i, (s.frontends i).holds = true)

/-- What `TunnelHandle::send` comes to. -/
inductive Sent
  | queued
  | closed
  | blocked
  deriving DecidableEq

def State.send (s : State n) : Sent :=
  if s.writer = .stopped then .closed
  else if s.queue < agentFrameQueue then .queued
  else .blocked

/-- The next step of `handle_frontend`, with whether it queues a frame. -/
def mainStep (row : Bool) (sent : Sent) (f : Frontend) : Option (Frontend × Bool) :=
  match f.main with
  -- `registry.get`, then `open_session`.
  | .selecting => some ({ f with main := if row then .selected else .refused }, false)
  | .selected => some ({ f with main := .opening, inSessions := true }, false)
  -- `OpenSession`; the other task is spawned if it is sent.
  | .opening =>
    match sent with
    | .queued => some ({ f with main := .reading, pump := .draining }, true)
    | .closed => some ({ f with main := .abandoning }, false)
    | .blocked => none
  | .abandoning => some ({ f with main := .returned, inSessions := false }, false)
  -- The loop: what the client sends becomes `Data`.
  | .reading =>
    if 0 < f.inbound then some ({ f with main := .sending, inbound := f.inbound - 1 }, false)
    else if f.hungUp then some ({ f with main := .closing }, false)
    else none
  | .sending =>
    match sent with
    | .queued => some ({ f with main := .reading }, true)
    | .closed => some ({ f with main := .closing }, false)
    | .blocked => none
  -- `CloseSession`, `close_session`, `drop(handle)`, and the other task.
  | .closing =>
    match sent with
    | .queued => some ({ f with main := .unlinking }, true)
    | .closed => some ({ f with main := .unlinking }, false)
    | .blocked => none
  | .unlinking => some ({ f with main := .dropping, inSessions := false }, false)
  | .dropping => some ({ f with main := .joining }, false)
  | .joining => if f.pump = .ended then some ({ f with main := .returned }, false) else none
  | .refused => none
  | .returned => none

/-- The next step of the task that drains the inbox, with whether it queues a
    frame. A write to the client ends well or badly. -/
def pumpStep (sent : Sent) (ok : Bool) (f : Frontend) : Option (Frontend × Bool) :=
  match f.pump with
  | .unborn => none
  -- `inbox_rx.recv()`: the inbox is closed when the session is not in the map.
  | .draining =>
    if 0 < f.inbox then some ({ f with pump := .writing, inbox := f.inbox - 1 }, false)
    else if f.inSessions then none
    else some ({ f with pump := .shutting }, false)
  | .writing => some ({ f with pump := if ok then .draining else .shutting }, false)
  | .shutting =>
    match sent with
    | .queued => some ({ f with pump := .unlinking }, true)
    | .closed => some ({ f with pump := .unlinking }, false)
    | .blocked => none
  | .unlinking => some ({ f with pump := .ended, inSessions := false }, false)
  | .ended => none

/-- A frontend moves on and may queue a frame. -/
def State.put (s : State n) (i : Fin n) (moved : Frontend × Bool) : State n :=
  { s with
    frontends := Function.update s.frontends i moved.1
    queue := s.queue + moved.2.toNat }

/-- One step of one task, or of a client. -/
inductive Action (n : Nat)
  | clientSend (i : Fin n)
  | clientHangUp (i : Fin n)
  | agentData (i : Fin n)
  | agentClose (i : Fin n)
  | evict
  | agentEnds
  | handlerDrop
  | handlerRemove
  | handlerJoin
  | writerRecv
  | writerWrite (ok : Bool)
  | main (i : Fin n)
  | pump (i : Fin n) (ok : Bool)

/-- Steps that the relay makes by itself. -/
def Action.isInternal : Action n → Bool
  | .handlerDrop | .handlerRemove | .handlerJoin | .writerRecv | .writerWrite _ | .main _
  | .pump _ _ => true
  | _ => false

/-- What the steps do. -/
def step (s : State n) : Action n → Option (State n)
  | .clientSend i =>
    let f := s.frontends i
    if f.hungUp then none else some (s.put i ({ f with inbound := f.inbound + 1 }, false))
  | .clientHangUp i => some (s.put i ({ s.frontends i with hungUp := true }, false))
  -- `read_loop`: bytes for a session, and the end of one.
  | .agentData i =>
    let f := s.frontends i
    if s.agent = .reading then
      if f.inSessions && f.inbox < sessionInboxQueue then
        some (s.put i ({ f with inbox := f.inbox + 1 }, false))
      else if f.inSessions then none
      else some s
    else none
  | .agentClose i =>
    if s.agent = .reading then some (s.put i ({ s.frontends i with inSessions := false }, false))
    else none
  | .evict => some { s with row := false }
  | .agentEnds => if s.agent = .reading then some { s with agent := .ended } else none
  -- `drop(handle)`, `registry.remove`, `writer_task.await`.
  | .handlerDrop => if s.agent = .ended then some { s with agent := .dropped } else none
  | .handlerRemove =>
    if s.agent = .dropped then some { s with agent := .removed, row := false } else none
  | .handlerJoin =>
    if s.agent = .removed ∧ s.writer = .stopped then some { s with agent := .finished } else none
  -- `frame_rx.recv()` and `write_frame`.
  | .writerRecv =>
    if s.writer = .running then
      if 0 < s.queue then some { s with writer := .writing, queue := s.queue - 1 }
      else if s.held then none
      else some { s with writer := .stopped }
    else none
  | .writerWrite ok =>
    if s.writer = .writing then some { s with writer := if ok then .running else .stopped }
    else none
  | .main i => (mainStep s.row s.send (s.frontends i)).map (s.put i)
  | .pump i ok => (pumpStep s.send ok (s.frontends i)).map (s.put i)

/-- The relay makes no step unless a client does. -/
def Rest (s : State n) : Prop := ∀ a : Action n, a.isInternal = true → step s a = none

/-- Every inbox is closed and drained to its end, and the handler of the agent
    has run to its end. -/
structure Done (s : State n) : Prop where
  handler : s.agent = .finished
  closed : ∀ i, (s.frontends i).inSessions = false
  observed : ∀ i, (s.frontends i).pump = .unborn ∨ (s.frontends i).pump = .ended

/-- A step of the relay, seen from the state it leads to. -/
def Internal (t s : State n) : Prop := ∃ a : Action n, a.isInternal = true ∧ step s a = some t

/-- Whatever the clients do, the relay comes to rest when they pause, and then
    everything is closed. -/
def TearsDown (s : State n) : Prop :=
  ∀ bs t, exec step s bs = some t → Acc Internal t ∧ (Rest t → Done t)

/-- A frontend that will close by itself: its client has hung up, or the agent
    cannot be written to and it is about to notice, or nothing of it is open
    that it would have to close. -/
def Winding (row stopped : Bool) (f : Frontend) : Prop :=
  match f.main with
  | .selecting => row = false ∨ f.hungUp = true ∨ stopped = true
  | .selected | .opening | .sending => f.hungUp = true ∨ stopped = true
  | .reading =>
    f.hungUp = true ∨
      (stopped = true ∧ (0 < f.inbound ∨ f.inSessions = false ∨ f.pump.inLoop = false))
  | _ => True

/-! ## The moves of a frontend -/

/-- What a step of `handle_frontend` can be. -/
inductive MainMove (row : Bool) (sent : Sent) (f : Frontend) : Frontend → Bool → Prop
  | found (hmain : f.main = .selecting) (hrow : row = true) :
      MainMove row sent f { f with main := .selected } false
  | missed (hmain : f.main = .selecting) (hrow : row = false) :
      MainMove row sent f { f with main := .refused } false
  | opened (hmain : f.main = .selected) :
      MainMove row sent f { f with main := .opening, inSessions := true } false
  | spawned (hmain : f.main = .opening) (hsent : sent = .queued) :
      MainMove row sent f { f with main := .reading, pump := .draining } true
  | turnedAway (hmain : f.main = .opening) (hsent : sent = .closed) :
      MainMove row sent f { f with main := .abandoning } false
  | abandoned (hmain : f.main = .abandoning) :
      MainMove row sent f { f with main := .returned, inSessions := false } false
  | received (hmain : f.main = .reading) (hinbound : 0 < f.inbound) :
      MainMove row sent f { f with main := .sending, inbound := f.inbound - 1 } false
  | leftByClient (hmain : f.main = .reading) (hhung : f.hungUp = true) :
      MainMove row sent f { f with main := .closing } false
  | forwarded (hmain : f.main = .sending) (hsent : sent = .queued) :
      MainMove row sent f { f with main := .reading } true
  | failed (hmain : f.main = .sending) (hsent : sent = .closed) :
      MainMove row sent f { f with main := .closing } false
  | told (hmain : f.main = .closing) (queued : Bool) (hsent : sent ≠ .blocked) :
      MainMove row sent f { f with main := .unlinking } queued
  | unlinked (hmain : f.main = .unlinking) :
      MainMove row sent f { f with main := .dropping, inSessions := false } false
  | dropped (hmain : f.main = .dropping) :
      MainMove row sent f { f with main := .joining } false
  | joined (hmain : f.main = .joining) (hpump : f.pump = .ended) :
      MainMove row sent f { f with main := .returned } false

theorem mainMove_of_step (row : Bool) (sent : Sent) (f f' : Frontend) (queued : Bool)
    (h : mainStep row sent f = some (f', queued)) : MainMove row sent f f' queued := by
  -- One case for each place where `handle_frontend` can be.
  unfold mainStep at h
  split at h
  next hmain =>
    cases h
    cases row with
    | true => exact .found hmain rfl
    | false => exact .missed hmain rfl
  next hmain =>
    cases h
    exact .opened hmain
  next hmain =>
    split at h
    next =>
      cases h
      exact .spawned hmain rfl
    next =>
      cases h
      exact .turnedAway hmain rfl
    next => cases h
  next hmain =>
    cases h
    exact .abandoned hmain
  next hmain =>
    split at h
    next hinbound =>
      cases h
      exact .received hmain hinbound
    next =>
      split at h
      next hhung =>
        cases h
        exact .leftByClient hmain hhung
      next => cases h
  next hmain =>
    split at h
    next =>
      cases h
      exact .forwarded hmain rfl
    next =>
      cases h
      exact .failed hmain rfl
    next => cases h
  next hmain =>
    split at h
    next =>
      cases h
      exact .told hmain true (by decide)
    next =>
      cases h
      exact .told hmain false (by decide)
    next => cases h
  next hmain =>
    cases h
    exact .unlinked hmain
  next hmain =>
    cases h
    exact .dropped hmain
  next hmain =>
    split at h
    next hpump =>
      cases h
      exact .joined hmain hpump
    next => cases h
  next => cases h
  next => cases h

/-- What a step of the task that drains the inbox can be. -/
inductive PumpMove (sent : Sent) (ok : Bool) (f : Frontend) : Frontend → Bool → Prop
  | received (hpump : f.pump = .draining) (hinbox : 0 < f.inbox) :
      PumpMove sent ok f { f with pump := .writing, inbox := f.inbox - 1 } false
  | closed (hpump : f.pump = .draining) (hsession : f.inSessions = false) :
      PumpMove sent ok f { f with pump := .shutting } false
  | written (hpump : f.pump = .writing) (hok : ok = true) :
      PumpMove sent ok f { f with pump := .draining } false
  | failed (hpump : f.pump = .writing) (hok : ok = false) :
      PumpMove sent ok f { f with pump := .shutting } false
  | told (hpump : f.pump = .shutting) (queued : Bool) :
      PumpMove sent ok f { f with pump := .unlinking } queued
  | unlinked (hpump : f.pump = .unlinking) :
      PumpMove sent ok f { f with pump := .ended, inSessions := false } false

theorem pumpMove_of_step (sent : Sent) (ok : Bool) (f f' : Frontend) (queued : Bool)
    (h : pumpStep sent ok f = some (f', queued)) : PumpMove sent ok f f' queued := by
  unfold pumpStep at h
  split at h
  next => cases h
  next hpump =>
    split at h
    next hinbox =>
      cases h
      exact .received hpump hinbox
    next =>
      split at h
      next => cases h
      next hsession =>
        cases h
        exact .closed hpump (Bool.eq_false_iff.mpr hsession)
  next hpump =>
    cases h
    cases ok with
    | true => exact .written hpump rfl
    | false => exact .failed hpump rfl
  next hpump =>
    split at h
    next =>
      cases h
      exact .told hpump true
    next =>
      cases h
      exact .told hpump false
    next => cases h
  next hpump =>
    cases h
    exact .unlinked hpump
  next => cases h

/-- What a step can be. -/
inductive Moves (s : State n) : Action n → State n → Prop
  | clientSent (i : Fin n) (hopen : (s.frontends i).hungUp = false) :
      Moves s (.clientSend i)
        (s.put i ({ s.frontends i with inbound := (s.frontends i).inbound + 1 }, false))
  | clientHungUp (i : Fin n) :
      Moves s (.clientHangUp i) (s.put i ({ s.frontends i with hungUp := true }, false))
  | delivered (i : Fin n) (hagent : s.agent = .reading) :
      Moves s (.agentData i)
        (s.put i ({ s.frontends i with inbox := (s.frontends i).inbox + 1 }, false))
  | discarded (i : Fin n) (hagent : s.agent = .reading) : Moves s (.agentData i) s
  | agentClosed (i : Fin n) (hagent : s.agent = .reading) :
      Moves s (.agentClose i) (s.put i ({ s.frontends i with inSessions := false }, false))
  | evicted : Moves s .evict { s with row := false }
  | agentEnded (hagent : s.agent = .reading) : Moves s .agentEnds { s with agent := .ended }
  | dropped (hagent : s.agent = .ended) : Moves s .handlerDrop { s with agent := .dropped }
  | removed (hagent : s.agent = .dropped) :
      Moves s .handlerRemove { s with agent := .removed, row := false }
  | joined (hagent : s.agent = .removed) (hwriter : s.writer = .stopped) :
      Moves s .handlerJoin { s with agent := .finished }
  | taken (hwriter : s.writer = .running) (hqueue : 0 < s.queue) :
      Moves s .writerRecv { s with writer := .writing, queue := s.queue - 1 }
  | closed (hwriter : s.writer = .running) (hfree : s.held = false) :
      Moves s .writerRecv { s with writer := .stopped }
  | written (hwriter : s.writer = .writing) :
      Moves s (.writerWrite true) { s with writer := .running }
  | failed (hwriter : s.writer = .writing) :
      Moves s (.writerWrite false) { s with writer := .stopped }
  | main (i : Fin n) (f : Frontend) (queued : Bool)
      (hmove : MainMove s.row s.send (s.frontends i) f queued) :
      Moves s (.main i) (s.put i (f, queued))
  | pump (i : Fin n) (ok : Bool) (f : Frontend) (queued : Bool)
      (hmove : PumpMove s.send ok (s.frontends i) f queued) :
      Moves s (.pump i ok) (s.put i (f, queued))

theorem moves_of_step (s t : State n) (a : Action n) (h : step s a = some t) : Moves s a t := by
  cases a with
  | clientSend i =>
      simp only [step, Option.ite_none_left_eq_some, Option.some.injEq] at h
      rcases h with ⟨hopen, rfl⟩
      exact .clientSent i (Bool.eq_false_iff.mpr hopen)
  | clientHangUp i =>
      cases h
      exact .clientHungUp i
  | agentData i =>
      simp only [step, Option.ite_none_right_eq_some] at h
      rcases h with ⟨hagent, h⟩
      split at h
      next =>
        cases h
        exact .delivered i hagent
      next =>
        simp only [Option.ite_none_left_eq_some, Option.some.injEq] at h
        rcases h with ⟨_, rfl⟩
        exact .discarded i hagent
  | agentClose i =>
      simp only [step, Option.ite_none_right_eq_some, Option.some.injEq] at h
      rcases h with ⟨hagent, rfl⟩
      exact .agentClosed i hagent
  | evict =>
      cases h
      exact .evicted
  | agentEnds =>
      simp only [step, Option.ite_none_right_eq_some, Option.some.injEq] at h
      rcases h with ⟨hagent, rfl⟩
      exact .agentEnded hagent
  | handlerDrop =>
      simp only [step, Option.ite_none_right_eq_some, Option.some.injEq] at h
      rcases h with ⟨hagent, rfl⟩
      exact .dropped hagent
  | handlerRemove =>
      simp only [step, Option.ite_none_right_eq_some, Option.some.injEq] at h
      rcases h with ⟨hagent, rfl⟩
      exact .removed hagent
  | handlerJoin =>
      simp only [step, Option.ite_none_right_eq_some, Option.some.injEq] at h
      rcases h with ⟨⟨hagent, hwriter⟩, rfl⟩
      exact .joined hagent hwriter
  | writerRecv =>
      simp only [step, Option.ite_none_right_eq_some] at h
      rcases h with ⟨hwriter, h⟩
      split at h
      next hqueue =>
        cases h
        exact .taken hwriter hqueue
      next =>
        simp only [Option.ite_none_left_eq_some, Option.some.injEq] at h
        rcases h with ⟨hheld, rfl⟩
        exact .closed hwriter (Bool.eq_false_iff.mpr hheld)
  | writerWrite ok =>
      simp only [step, Option.ite_none_right_eq_some, Option.some.injEq] at h
      rcases h with ⟨hwriter, rfl⟩
      cases ok with
      | true => exact .written hwriter
      | false => exact .failed hwriter
  | main i =>
      rcases Option.map_eq_some_iff.mp h with ⟨⟨f, queued⟩, hmove, rfl⟩
      exact .main i f queued (mainMove_of_step _ _ _ _ _ hmove)
  | pump i ok =>
      rcases Option.map_eq_some_iff.mp h with ⟨⟨f, queued⟩, hmove, rfl⟩
      exact .pump i ok f queued (pumpMove_of_step _ _ _ _ _ hmove)

/-! ## Coming to rest -/

/-- How many steps a phase is away from the end, with the room for the frames
    it may queue. -/
def Main.weight : Main → Nat
  | .returned => 0
  | .refused => 0
  | .joining => 1
  | .abandoning => 1
  | .dropping => 2
  | .unlinking => 3
  | .closing => 6
  | .reading => 7
  | .sending => 10
  | .opening => 15
  | .selected => 16
  | .selecting => 17

def Pump.weight : Pump → Nat
  | .unborn => 0
  | .ended => 0
  | .unlinking => 1
  | .shutting => 4
  | .draining => 5
  | .writing => 6

def Frontend.weight (f : Frontend) : Nat :=
  f.main.weight + f.pump.weight + 4 * f.inbound + 2 * f.inbox

def Writer.weight : Writer → Nat
  | .stopped => 0
  | .running => 1
  | .writing => 2

def Agent.weight : Agent → Nat
  | .reading => 0
  | .ended => 3
  | .dropped => 2
  | .removed => 1
  | .finished => 0

def State.weight (s : State n) : Nat :=
  (∑ i, (s.frontends i).weight) + 2 * s.queue + s.writer.weight + s.agent.weight

/-- A frame that is queued weighs less than the step that queues it. -/
theorem weight_mainMove (row : Bool) (sent : Sent) (f f' : Frontend) (queued : Bool)
    (h : MainMove row sent f f' queued) :
    f'.weight + 2 * queued.toNat < f.weight := by
  unfold Frontend.weight
  -- A frame weighs two: one for the queue and one for the write.
  cases h with
  | found hmain | missed hmain | opened hmain | turnedAway hmain | abandoned hmain
  | leftByClient hmain | failed hmain | unlinked hmain | dropped hmain | joined hmain =>
      simp only [hmain, Main.weight, Bool.toNat_false]
      omega
  | received hmain hinbound =>
      simp only [hmain, Main.weight, Bool.toNat_false]
      omega
  | spawned hmain hsent =>
      simp only [hmain, Main.weight, Pump.weight, Bool.toNat_true]
      omega
  | forwarded hmain hsent =>
      simp only [hmain, Main.weight, Bool.toNat_true]
      omega
  | told hmain queued hsent =>
      have hone := queued.toNat_le
      simp only [hmain, Main.weight]
      omega

theorem weight_pumpMove (sent : Sent) (ok : Bool) (f f' : Frontend) (queued : Bool)
    (h : PumpMove sent ok f f' queued) :
    f'.weight + 2 * queued.toNat < f.weight := by
  unfold Frontend.weight
  cases h with
  | closed hpump | written hpump | failed hpump | unlinked hpump =>
      simp only [hpump, Pump.weight, Bool.toNat_false]
      omega
  | received hpump hinbox =>
      simp only [hpump, Pump.weight, Bool.toNat_false]
      omega
  | told hpump queued =>
      have hone := queued.toNat_le
      simp only [hpump, Pump.weight]
      omega

theorem sum_update (g : Frontend → Nat) (fs : Fin n → Frontend) (i : Fin n) (f : Frontend) :
    (∑ j, g (Function.update fs i f j)) + g (fs i) = (∑ j, g (fs j)) + g f := by
  rw [← Finset.add_sum_erase Finset.univ _ (Finset.mem_univ i),
    ← Finset.add_sum_erase Finset.univ (fun j => g (fs j)) (Finset.mem_univ i),
    Function.update_self]
  -- The other frontends weigh what they did.
  have hrest : ∑ j ∈ Finset.univ.erase i, g (Function.update fs i f j)
      = ∑ j ∈ Finset.univ.erase i, g (fs j) := by
    refine Finset.sum_congr rfl (fun j hj => ?_)
    rw [Function.update_of_ne (Finset.ne_of_mem_erase hj)]
  rw [hrest]
  omega

theorem weight_put (s : State n) (i : Fin n) (f : Frontend) (queued : Bool)
    (h : f.weight + 2 * queued.toNat < (s.frontends i).weight) :
    (s.put i (f, queued)).weight < s.weight := by
  have hsum := sum_update Frontend.weight s.frontends i f
  unfold State.weight State.put
  dsimp only
  omega

/-- Every step of the relay makes the tunnel lighter. -/
theorem weight_internal (s t : State n) (h : Internal t s) : t.weight < s.weight := by
  rcases h with ⟨a, hinternal, hstep⟩
  cases moves_of_step s t a hstep with
  | clientSent | clientHungUp | delivered | discarded | agentClosed | evicted | agentEnded =>
      cases hinternal
  | dropped hagent | removed hagent | joined hagent hwriter =>
      -- The handler only moves forward.
      simp only [State.weight, hagent, Agent.weight]
      omega
  | taken hwriter hqueue =>
      -- A frame moves from the queue to the writer.
      simp only [State.weight, hwriter, Writer.weight]
      omega
  | closed hwriter hfree =>
      simp only [State.weight, hwriter, Writer.weight]
      omega
  | written hwriter | failed hwriter =>
      simp only [State.weight, hwriter, Writer.weight]
      omega
  | main i f queued hmove => exact weight_put s i f queued (weight_mainMove _ _ _ _ _ hmove)
  | pump i ok f queued hmove => exact weight_put s i f queued (weight_pumpMove _ _ _ _ _ hmove)

/-- The relay comes to rest if its clients do. -/
theorem internal_wf : WellFounded (Internal (n := n)) :=
  Subrelation.wf (fun {t s} h => weight_internal s t h) (measure State.weight).wf

/-! ## What a frontend has opened -/

/-- A session that is open has somebody who will close it. -/
def Frontend.Ok (f : Frontend) : Prop :=
  match f.main with
  | .selecting | .selected | .refused => f.inSessions = false ∧ f.pump = .unborn
  | .opening | .abandoning => f.pump = .unborn
  | .reading | .sending | .closing | .unlinking =>
    f.pump ≠ .unborn ∧ (f.pump = .ended → f.inSessions = false)
  | .dropping | .joining => f.pump ≠ .unborn ∧ f.inSessions = false
  | .returned => f.inSessions = false ∧ (f.pump = .unborn ∨ f.pump = .ended)

theorem ok_mainMove (row : Bool) (sent : Sent) (f f' : Frontend) (queued : Bool) (hok : f.Ok)
    (h : MainMove row sent f f' queued) : f'.Ok := by
  unfold Frontend.Ok at hok ⊢
  cases h with
  | found hmain | missed hmain | turnedAway hmain | received hmain | leftByClient hmain
  | forwarded hmain | failed hmain | told hmain | dropped hmain =>
      rw [hmain] at hok
      exact hok
  | opened hmain =>
      rw [hmain] at hok
      exact hok.2
  | spawned hmain hsent =>
      -- The other task is born here.
      exact ⟨(fun hpump => by cases hpump), (fun hpump => by cases hpump)⟩
  | abandoned hmain =>
      rw [hmain] at hok
      exact ⟨rfl, .inl hok⟩
  | unlinked hmain =>
      rw [hmain] at hok
      exact ⟨hok.1, rfl⟩
  | joined hmain hpump =>
      rw [hmain] at hok
      exact ⟨hok.2, .inr hpump⟩

/-- The other task runs between its birth and the end of the first. -/
theorem pump_of_ok (f : Frontend) (hok : f.Ok) (hunborn : f.pump ≠ .unborn)
    (hended : f.pump ≠ .ended) :
    f.main = .reading ∨ f.main = .sending ∨ f.main = .closing ∨ f.main = .unlinking ∨
      ((f.main = .dropping ∨ f.main = .joining) ∧ f.inSessions = false) := by
  unfold Frontend.Ok at hok
  -- Before the fork there is no other task, and after the join it has ended.
  cases hmain : f.main with
  | selecting => rw [hmain] at hok; exact absurd hok.2 hunborn
  | selected => rw [hmain] at hok; exact absurd hok.2 hunborn
  | refused => rw [hmain] at hok; exact absurd hok.2 hunborn
  | opening => rw [hmain] at hok; exact absurd hok hunborn
  | abandoning => rw [hmain] at hok; exact absurd hok hunborn
  | reading => exact .inl rfl
  | sending => exact .inr (.inl rfl)
  | closing => exact .inr (.inr (.inl rfl))
  | unlinking => exact .inr (.inr (.inr (.inl rfl)))
  | dropping =>
      rw [hmain] at hok
      exact .inr (.inr (.inr (.inr ⟨.inl rfl, hok.2⟩)))
  | joining =>
      rw [hmain] at hok
      exact .inr (.inr (.inr (.inr ⟨.inr rfl, hok.2⟩)))
  | returned =>
      rw [hmain] at hok
      rcases hok.2 with h | h
      · exact absurd h hunborn
      · exact absurd h hended

/-- A frontend whose other task moves on, as long as it is running. -/
theorem ok_of_pump (f f' : Frontend) (hok : f.Ok) (hunborn : f.pump ≠ .unborn)
    (hended : f.pump ≠ .ended) (hmain : f'.main = f.main) (hunborn' : f'.pump ≠ .unborn)
    (hsession : f.inSessions = false → f'.inSessions = false)
    (hended' : f'.pump = .ended → f'.inSessions = false) : f'.Ok := by
  unfold Frontend.Ok
  -- Only where the first task is matters, and it has not moved.
  rcases pump_of_ok f hok hunborn hended with h | h | h | h | ⟨h, hgone⟩
  · rw [hmain, h]
    exact ⟨hunborn', hended'⟩
  · rw [hmain, h]
    exact ⟨hunborn', hended'⟩
  · rw [hmain, h]
    exact ⟨hunborn', hended'⟩
  · rw [hmain, h]
    exact ⟨hunborn', hended'⟩
  · rcases h with h | h
    · rw [hmain, h]
      exact ⟨hunborn', hsession hgone⟩
    · rw [hmain, h]
      exact ⟨hunborn', hsession hgone⟩

theorem ok_pumpMove (sent : Sent) (ok : Bool) (f f' : Frontend) (queued : Bool) (hok : f.Ok)
    (h : PumpMove sent ok f f' queued) : f'.Ok := by
  cases h with
  | received hpump | closed hpump | written hpump | failed hpump | told hpump =>
      exact ok_of_pump f _ hok (by rw [hpump]; decide) (by rw [hpump]; decide) rfl
        (fun hnone => by cases hnone) id (fun hend => by cases hend)
  | unlinked hpump =>
      exact ok_of_pump f _ hok (by rw [hpump]; decide) (by rw [hpump]; decide) rfl
        (fun hnone => by cases hnone) (fun _ => rfl) (fun _ => rfl)

/-- Closing a session from the other side leaves nothing open. -/
theorem ok_closed (f : Frontend) (hok : f.Ok) : ({ f with inSessions := false } : Frontend).Ok := by
  unfold Frontend.Ok at hok ⊢
  -- No place asks for a session to be open.
  cases hmain : f.main with
  | selecting | selected | refused | returned =>
      rw [hmain] at hok
      exact ⟨rfl, hok.2⟩
  | opening | abandoning =>
      rw [hmain] at hok
      exact hok
  | reading | sending | closing | unlinking =>
      rw [hmain] at hok
      exact ⟨hok.1, fun _ => rfl⟩
  | dropping | joining =>
      rw [hmain] at hok
      exact ⟨hok.1, rfl⟩

/-- What holds of every state that is reached. -/
structure Wf (s : State n) : Prop where
  frontends : ∀ i, (s.frontends i).Ok
  finished : s.agent = .finished → s.writer = .stopped
  row : s.agent = .removed ∨ s.agent = .finished → s.row = false

theorem wf_init : Wf (init (n := n)) :=
  ⟨fun _ => ⟨rfl, rfl⟩, (fun h => by cases h), (fun h => by rcases h with h | h <;> cases h)⟩

theorem frontends_put (s : State n) (i j : Fin n) (moved : Frontend × Bool) :
    (s.put i moved).frontends j = if j = i then moved.1 else s.frontends j :=
  Function.update_apply ..

theorem Wf.put (s : State n) (h : Wf s) (i : Fin n) (moved : Frontend × Bool) (hok : moved.1.Ok) :
    Wf (s.put i moved) := by
  refine ⟨fun j => ?_, h.finished, h.row⟩
  rw [frontends_put]
  split
  · exact hok
  · exact h.frontends j

theorem wf_step (s t : State n) (a : Action n) (h : Wf s) (hstep : step s a = some t) : Wf t := by
  cases moves_of_step s t a hstep with
  | clientSent i => exact h.put s i _ (h.frontends i)
  | clientHungUp i => exact h.put s i _ (h.frontends i)
  | delivered i hagent => exact h.put s i _ (h.frontends i)
  | discarded i hagent => exact h
  | agentClosed i hagent => exact h.put s i _ (ok_closed _ (h.frontends i))
  | evicted => exact ⟨h.frontends, h.finished, fun _ => rfl⟩
  | agentEnded hagent | dropped hagent =>
      exact ⟨h.frontends, (fun hlast => by cases hlast),
        (fun hlast => by rcases hlast with hlast | hlast <;> cases hlast)⟩
  | removed hagent => exact ⟨h.frontends, (fun hlast => by cases hlast), fun _ => rfl⟩
  | joined hagent hwriter => exact ⟨h.frontends, fun _ => hwriter, fun _ => h.row (.inl hagent)⟩
  | closed hwriter hfree => exact ⟨h.frontends, fun _ => rfl, h.row⟩
  | failed hwriter => exact ⟨h.frontends, fun _ => rfl, h.row⟩
  | taken hwriter hqueue =>
      -- The handler has not finished while the writer is at work.
      refine ⟨h.frontends, fun hlast => ?_, h.row⟩
      rw [h.finished hlast] at hwriter
      cases hwriter
  | written hwriter =>
      refine ⟨h.frontends, fun hlast => ?_, h.row⟩
      rw [h.finished hlast] at hwriter
      cases hwriter
  | main i f queued hmove => exact h.put s i _ (ok_mainMove _ _ _ _ _ (h.frontends i) hmove)
  | pump i ok f queued hmove => exact h.put s i _ (ok_pumpMove _ _ _ _ _ (h.frontends i) hmove)

end Teardown

end Tunnel

end DccMcp
