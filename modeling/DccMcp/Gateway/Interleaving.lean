import DccMcp.Gateway.Notifications

/-!
# Deliveries and Binds at the same Time

A notification whose target is unknown waits in the buffer of its backend, and
the bind of its job flushes the buffer. Neither is one step. A delivery looks
for the target and then sends or buffers, a flush takes the buffer and then
looks for every target and sends or puts the notification back, and no lock is
held in between. So a bind can come between the look and the buffering, and
the notification waits for another bind of the backend; a flush can put an old
notification behind a newer one, or into a buffer that has become full; a
delivery can send what is newer than what a flush has in its hands; and the
bind of a progress token flushes nothing.

Here every access to the routes, to the buffer and to a sink is a step of its
own. There is one stream of deliveries, since a backend is read by one task,
and any number of binds. `Harmless` names the steps that can go wrong.

## Main definitions

* `Key`, `keyOf`, `target`: What a notification is routed by, and where to.
* `Stream`, `Bind`, `State`, `step`: Where the calls are, and their steps.
* `Precedes`, `Sound`: What is asked of every state.
* `Harmless`: The condition.

## Theorems

* `resolveTarget_eq`: The target of a notification is the target of its key.
-/

namespace DccMcp

namespace Gateway

namespace Interleaving

open Machine

open Json (Value)

/-! ## Keys -/

/-- What a notification is routed by. -/
inductive Key
  | job (jobId : String)
  | token (key : String)
  deriving DecidableEq

/-- The key of a notification, if it has one. -/
def keyOf (display : Value → String) (value : Value) : Option Key := do
  let method ← (← value.get "method").asStr
  if method = "notifications/progress" then
    let token ← (← value.get "params").get "progressToken"
    some (.token (progressTokenKey display token))
  else if isJobMethod method then
    let jobId ← (← (← value.get "params").get "job_id").asStr
    some (.job jobId)
  else none

/-- The session a key is routed to. -/
def target (inner : Inner) : Key → Option String
  | .job jobId => (inner.jobRoutes.lookup jobId).map JobRoute.clientSessionId
  | .token key => inner.progressTokenRoutes.lookup key

theorem resolveTarget_eq (display : Value → String) (inner : Inner) (value : Value) :
    resolveTarget display inner value = (keyOf display value).bind (target inner) := by
  unfold resolveTarget keyOf
  simp only [Option.bind_eq_bind, Option.bind_assoc]
  refine Option.bind_congr (fun member _ => Option.bind_congr (fun method _ => ?_))
  split
  next => simp only [Option.bind_assoc, Option.bind_some, target]
  next =>
    split
    next => simp only [Option.bind_assoc, Option.bind_some, target]
    next => rfl

/-! ## The machine -/

/-- Where the stream is in `deliver`. A delivery remembers, for the statement
    only, whether its notification had a target when it began. -/
inductive Stream
  | idle
  | resolving (notice : Notice) (routed : Bool)
  | sending (sessionId : String) (notice : Notice)
  | buffering (notice : Notice) (routed : Bool)

/-- The notification that is being delivered. -/
def Stream.holds : Stream → Option Notice
  | .idle => none
  | .resolving notice _ => some notice
  | .sending _ notice => some notice
  | .buffering notice _ => some notice

/-- Where a call of `bind_job_route` is: it was let through by the cap, it has
    inserted its route, it is flushing and about to look for the next target,
    to send, or to put back, or it has returned. -/
inductive Bind
  | admitted (jobId : String) (route : JobRoute)
  | inserted (jobId : String)
  | flushing (jobId : String) (drained : List Pending)
  | sending (jobId sessionId : String) (p : Pending) (rest : List Pending)
  | requeueing (jobId : String) (p : Pending) (rest : List Pending)
  | returned

/-- What a flush has taken out of the buffer and not dealt with. -/
def Bind.hand : Bind → List Pending
  | .flushing _ drained => drained
  | .sending _ _ p rest => p :: rest
  | .requeueing _ p rest => p :: rest
  | _ => []

/-- The job of a bind that has not returned. -/
def Bind.runs : Bind → Option String
  | .admitted jobId _ => some jobId
  | .inserted jobId => some jobId
  | .flushing jobId _ => some jobId
  | .sending jobId _ _ _ => some jobId
  | .requeueing jobId _ _ => some jobId
  | .returned => none

/-- The job of a bind that has inserted its route and not taken the buffer. -/
def Bind.waits : Bind → Option String
  | .inserted jobId => some jobId
  | _ => none

/-- The job of a bind that has taken the buffer. -/
def Bind.flushes : Bind → Option String
  | .flushing jobId _ => some jobId
  | .sending jobId _ _ _ => some jobId
  | .requeueing jobId _ _ => some jobId
  | _ => none

/-- What has happened, for the statement only: the notifications whose delivery
    has begun, those that were handed to a sender, with the session, and those
    that were dropped from the buffer for their age or for want of room. -/
structure Log where
  emitted : List Notice
  sends : List (String × Notice)
  dropped : List Notice

/-- The manager with the calls on one backend, and the number of notifications
    whose delivery has returned. -/
structure State where
  inner : Inner
  stream : Stream
  binds : List Bind
  arrived : Nat
  log : Log

/-- The backend, and the serializer of JSON. -/
structure Backend where
  url : String
  display : Value → String

variable (o : Backend)

/-- A notification that may still be flushed. -/
def isFresh (now : Nat) (p : Pending) : Bool := decide (now - p.insertedAt < pendingBufferTtl)

/-- One step of `bind_job_route`. The maps of a bind are written in one step:
    nothing here reads any but the first. -/
def stepBind (inner : Inner) (now : Nat) : Bind → Option (Inner × Bind)
  | .admitted jobId route => some (insertRoute inner jobId route, .inserted jobId)
  | .inserted jobId =>
    if o.url ∈ inner.backends then
      let drained := (inner.pendingOf o.url).filter (isFresh now)
      some ({ inner with pending := inner.pending.insert o.url [] }, .flushing jobId drained)
    else some (inner, .returned)
  | .flushing _ [] => some (inner, .returned)
  | .flushing jobId (p :: rest) =>
    match resolveTarget o.display inner p.notice.value with
    | some sessionId => some (inner, .sending jobId sessionId p rest)
    | none => some (inner, .requeueing jobId p rest)
  | .sending jobId sessionId p rest =>
    some (sendTo inner sessionId p.notice, .flushing jobId rest)
  | .requeueing jobId p rest =>
    let buffer := inner.pendingOf o.url ++ [p]
    some ({ inner with pending := inner.pending.insert o.url buffer }, .flushing jobId rest)
  | .returned => none

/-- What a step of a bind sends, and what it drops. -/
def Log.afterBind (log : Log) (inner : Inner) (now : Nat) : Bind → Log
  | .inserted _ =>
    if o.url ∈ inner.backends then
      let expired := (inner.pendingOf o.url).filter (fun p => !isFresh now p)
      { log with dropped := log.dropped ++ expired.map Pending.notice }
    else log
  | .sending _ sessionId p _ => { log with sends := log.sends ++ [(sessionId, p.notice)] }
  | _ => log

/-- What `buffer_pending` leaves of a buffer before it puts a notification at
    the end. -/
def room (buffer : List Pending) (now : Nat) : List Pending :=
  let fresh := buffer.dropWhile (fun p => decide (pendingBufferTtl ≤ now - p.insertedAt))
  if pendingBufferCap ≤ fresh.length then fresh.tail else fresh

/-- What it drops. -/
def lost (buffer : List Pending) (now : Nat) : List Pending :=
  buffer.take (buffer.length - (room buffer now).length)

/-- What can happen: the backend emits a notification, the delivery of it takes
    a step, a token is bound, a bind of a job begins, or takes a step. -/
inductive Label
  | deliver (value : Value)
  | stream (now : Nat)
  | bindToken (token : Value) (sessionId : String)
  | bindJob (jobId sessionId tool : String) (parentJobId : Option String) (utc : Int)
  | bind (i : Nat) (now : Nat)

def step (s : State) : Label → Option State
  | .deliver value =>
    match s.stream with
    | .idle =>
      let notice : Notice := ⟨s.arrived, value⟩
      let routed := (resolveTarget o.display s.inner value).isSome
      let evicted := deliverEvict s.inner notice
      if (value.get "method").bind Value.asStr = some "notifications/resources/updated" then
        let dispatched := dispatchResourceUpdated evicted notice o.url
        if dispatched.1 then some { s with inner := dispatched.2, arrived := s.arrived + 1 }
        else
          some { s with
            inner := dispatched.2, stream := .resolving notice routed
            log := { s.log with emitted := s.log.emitted ++ [notice] } }
      else
        some { s with
          inner := evicted, stream := .resolving notice routed
          log := { s.log with emitted := s.log.emitted ++ [notice] } }
    | _ => none
  | .stream now =>
    match s.stream with
    | .idle => none
    | .resolving notice routed =>
      match resolveTarget o.display s.inner notice.value with
      | some sessionId => some { s with stream := .sending sessionId notice }
      | none => some { s with stream := .buffering notice routed }
    | .sending sessionId notice =>
      some { s with
        inner := sendTo s.inner sessionId notice, stream := .idle, arrived := s.arrived + 1
        log := { s.log with sends := s.log.sends ++ [(sessionId, notice)] } }
    | .buffering notice _ =>
      let dropped := (lost (s.inner.pendingOf o.url) now).map Pending.notice
      some { s with
        inner := bufferPending s.inner o.url now notice, stream := .idle, arrived := s.arrived + 1
        log := { s.log with dropped := s.log.dropped ++ dropped } }
  | .bindToken token sessionId =>
    some { s with inner := bindProgressToken o.display s.inner token sessionId }
  | .bindJob jobId sessionId tool parentJobId utc =>
    let live := (s.inner.jobsOf sessionId).card
    if 0 < s.inner.maxRoutesPerSession ∧ s.inner.maxRoutesPerSession ≤ live then some s
    else
      let route : JobRoute := ⟨sessionId, o.url, tool, utc, parentJobId⟩
      some { s with binds := s.binds ++ [.admitted jobId route] }
  | .bind i now =>
    match s.binds[i]? with
    | none => none
    | some b =>
      match stepBind o s.inner now b with
      | none => none
      | some (inner, b') =>
        some { s with
          inner := inner, binds := s.binds.set i b', log := s.log.afterBind o s.inner now b }

/-! ## Calls that nothing interrupts -/

/-! ## What is asked for -/

def keyOfNotice (n : Notice) : Option Key := keyOf o.display n.value

/-- Of two notifications with one key the first came before the second. -/
def Precedes (key : Notice → Option Key) (n n' : Notice) : Prop :=
  ∀ k, key n = some k → key n' = some k → n.place < n'.place

/-- The buffer of the backend. -/
def State.buffer (s : State) : List Pending := s.inner.pendingOf o.url

/-- What the flushes have in their hands. -/
def State.hands (s : State) : List Pending := s.binds.flatMap Bind.hand

/-- A notification whose delivery has returned, whose key has a target, and
    whose job no bind is busy with was sent, or dropped for its age or for want
    of room; a delivery that began with a target does not buffer; what was sent
    to a session with a sink is in the sink; every sink has the notifications of
    one key in the order of their arrival, each once, and no notification is in
    two sinks; and the buffer is within its bound. -/
structure Sound (s : State) : Prop where
  delivered : ∀ n ∈ s.log.emitted, s.stream.holds ≠ some n → ∀ k, keyOfNotice o n = some k →
    (target s.inner k).isSome → (∀ b ∈ s.binds, b.runs.map Key.job ≠ some k) →
      (∃ sessionId, (sessionId, n) ∈ s.log.sends) ∨ n ∈ s.log.dropped
  sinks : ∀ sessionId n, (sessionId, n) ∈ s.log.sends →
    (s.inner.clientSinks.lookup sessionId).isSome → n ∈ s.inner.sentTo sessionId
  direct : ∀ notice routed, s.stream = .buffering notice routed → routed = false
  ordered : ∀ session, (s.inner.sentTo session).Pairwise (Precedes (keyOfNotice o))
  once : ∀ session session', session ≠ session' → ∀ n ∈ s.inner.sentTo session,
    ∀ n' ∈ s.inner.sentTo session', ∀ k, keyOfNotice o n = some k → keyOfNotice o n' = some k →
      n.place ≠ n'.place
  capped : (s.buffer o).length ≤ pendingBufferCap

/-! ## The condition -/

/-- None of the notifications has this key. -/
def NoneOf (k : Key) (waiting : List Pending) : Prop :=
  ∀ p ∈ waiting, keyOfNotice o p.notice ≠ some k

instance (k : Key) (waiting : List Pending) : Decidable (NoneOf o k waiting) :=
  inferInstanceAs (Decidable (∀ p ∈ waiting, keyOfNotice o p.notice ≠ some k))

/-- A delivery sends only if no notification of its key waits. It buffers only
    if its key has no target, or a bind of it is still to take the buffer; and
    if no bind of it has taken the buffer, and no flush has a notification of
    it. -/
def Stream.Harmless (s : State) : Stream → Prop
  | .sending _ notice => ∀ k ∈ keyOfNotice o notice, NoneOf o k (s.buffer o ++ s.hands)
  | .buffering notice _ => ∀ k ∈ keyOfNotice o notice,
    (target s.inner k = none ∨ ∃ b ∈ s.binds, b.waits.map Key.job = some k) ∧
      (∀ b ∈ s.binds, b.flushes.map Key.job ≠ some k) ∧ NoneOf o k s.hands
  | _ => True

/-- A bind inserts its route, and returns, only if no other flush has a
    notification of its job. It takes the buffer only if no other flush has a
    notification of a key it takes, and puts back only into a buffer with room. -/
def Bind.Harmless (s : State) : Bind → Prop
  | .admitted jobId _ => NoneOf o (.job jobId) s.hands
  | .inserted _ => ∀ p ∈ s.buffer o, ∀ k ∈ keyOfNotice o p.notice, NoneOf o k s.hands
  | .flushing jobId [] => NoneOf o (.job jobId) s.hands
  | .requeueing _ _ _ => (s.buffer o).length < pendingBufferCap
  | _ => True

instance (s : State) : ∀ stream, Decidable (Stream.Harmless o s stream)
  | .sending _ notice => inferInstanceAs
    (Decidable (∀ k ∈ keyOfNotice o notice, NoneOf o k (s.buffer o ++ s.hands)))
  | .buffering notice _ => inferInstanceAs (Decidable (∀ k ∈ keyOfNotice o notice,
    (target s.inner k = none ∨ ∃ b ∈ s.binds, b.waits.map Key.job = some k) ∧
      (∀ b ∈ s.binds, b.flushes.map Key.job ≠ some k) ∧ NoneOf o k s.hands))
  | .idle => isTrue trivial
  | .resolving _ _ => isTrue trivial

instance (s : State) : ∀ b, Decidable (Bind.Harmless o s b)
  | .admitted jobId _ => inferInstanceAs (Decidable (NoneOf o (.job jobId) s.hands))
  | .inserted _ => inferInstanceAs
    (Decidable (∀ p ∈ s.buffer o, ∀ k ∈ keyOfNotice o p.notice, NoneOf o k s.hands))
  | .flushing jobId [] => inferInstanceAs (Decidable (NoneOf o (.job jobId) s.hands))
  | .requeueing _ _ _ => inferInstanceAs (Decidable ((s.buffer o).length < pendingBufferCap))
  | .flushing _ (_ :: _) => isTrue trivial
  | .sending _ _ _ _ => isTrue trivial
  | .returned => isTrue trivial

/-- No terminal notification comes while its job is routed, no token is bound
    while a notification of it waits, and the steps of the calls are harmless. -/
def Harmless (s : State) : Label → Prop
  | .deliver value => ∀ jobId ∈ terminalJobId value, s.inner.jobRoutes.lookup jobId = none
  | .stream _ => s.stream.Harmless o s
  | .bindToken token _ =>
    NoneOf o (.token (progressTokenKey o.display token)) (s.buffer o ++ s.hands)
  | .bindJob _ _ _ _ _ => True
  | .bind i _ => ∀ b ∈ s.binds[i]?, b.Harmless o s

instance (s : State) : ∀ l, Decidable (Harmless o s l)
  | .deliver value => inferInstanceAs
    (Decidable (∀ jobId ∈ terminalJobId value, s.inner.jobRoutes.lookup jobId = none))
  | .stream _ => inferInstanceAs (Decidable (s.stream.Harmless o s))
  | .bindToken token _ => inferInstanceAs
    (Decidable (NoneOf o (.token (progressTokenKey o.display token)) (s.buffer o ++ s.hands)))
  | .bindJob _ _ _ _ _ => isTrue trivial
  | .bind i _ => inferInstanceAs (Decidable (∀ b ∈ s.binds[i]?, b.Harmless o s))

end Interleaving

end Gateway

end DccMcp
