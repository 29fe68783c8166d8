import DccMcp.Gateway.Notifications
import DccMcp.Gateway.Subscriptions
import DccMcp.Lib.Text

/-!
# Streams of one Session

A client listens on a stream of its session, and the sink of the session is
the channel this stream reads. When the stream is dropped, its guard forgets
the session: the sink, and then the routes, the tokens and the subscriptions.

The guard knows the session and not the stream. A client that reconnects opens
a second stream before the first is torn down. The second one takes the sink
over, and the guard of the first one then removes it with everything else the
session has. Forgetting takes several steps, and a stream may also be opened
between two of them.

Which of these orders do harm can be said exactly. The first step of a guard
takes a sink away from a stream whenever the session has another stream open,
and dropping the newest of several streams leaves the others without a sink
at once. The later steps do harm when a newer stream is open and the session
still has something that they remove.

## Main definitions

* `Part`, `forgetPart`: The steps of `forget_client`.
* `Stream`, `State`, `step`: The streams, and what is done with them.
* `Newest`, `Attached`: The newest stream that is open gets what is sent.
* `Spares`: What the session has is still there.
* `Safe`, `Calm`: What is asked of a step, and the condition.

## Theorems

* `reconnect_safe_iff`: Runs that are safe.
* `older_stream_dropped`: A client that reconnects and gets nothing.
-/

namespace DccMcp

namespace Gateway

namespace Reconnect

open Machine Subscriptions

/-! ## The streams -/

/-- The steps of `forget_client`. A walk over one map is one step. -/
inductive Part
  | sink
  | backendInflight
  | jobRoutes
  | reverseIndexes (dropped : List String)
  | resourceSubs
  deriving DecidableEq

/-- A stream is read by the client, or it was dropped and its guard is about to
    take a step, or its guard is done. -/
inductive Phase
  | streaming
  | forgetting (part : Part)
  | gone
  deriving DecidableEq

structure Stream where
  session : String
  phase : Phase
  deriving DecidableEq

/-- One step of `forget_client`, and what comes after it. -/
def forgetPart (inner : Inner) (session : String) : Part → Inner × Phase
  | .sink =>
    ({ inner with clientSinks := inner.clientSinks.erase session }, .forgetting .backendInflight)
  | .backendInflight => (forgetClientBackendInflight inner session, .forgetting .jobRoutes)
  | .jobRoutes =>
    let dropped := forgetClientJobRoutes inner session
    (dropped.2, .forgetting (.reverseIndexes dropped.1))
  | .reverseIndexes dropped =>
    (forgetClientReverseIndexes inner session dropped, .forgetting .resourceSubs)
  | .resourceSubs => (forgetClientResourceSubs inner session, .gone)

/-- The manager, the streams in the order in which they registered, and for
    every sink the stream that reads its channel. -/
structure State where
  inner : Inner
  streams : List Stream
  receiver : OrderedMap String Nat
  emitted : Nat

def init (routeTtl maxRoutesPerSession : Nat) : State :=
  ⟨withLimits routeTtl maxRoutesPerSession, [], OrderedMap.empty _ _, 0⟩

inductive Action
  /-- A request for a stream, with the header that accepts it, the session the
      client names, and the one it gets if it names none. -/
  | get (accept mcpSessionId : Option String) (fresh : String)
  /-- A stream is dropped. -/
  | drop (stream : Nat)
  /-- The guard of a stream that was dropped takes its next step. -/
  | forget (stream : Nat)
  /-- Another operation of the manager. -/
  | manage (op : Op)
  | bindResource (key : ResourceKey) (route : ResourceSubscriberRoute)
  | unbindResource (key : ResourceKey) (route : ResourceSubscriberRoute)

def handleGatewayGet (s : State) (accept mcpSessionId : Option String) (fresh : String) : State :=
  if (accept.map (Text.contains "text/event-stream")).getD false then
    let session := mcpSessionId.getD fresh
    { s with
      inner := registerClient s.inner session
      streams := s.streams ++ [⟨session, .streaming⟩]
      receiver := s.receiver.insert session s.streams.length }
  else s

/-- A step of the guard of a stream. -/
def forgetStep (s : State) (n : Nat) (session : String) (part : Part) : State :=
  let out := forgetPart s.inner session part
  { s with
    inner := out.1
    streams := s.streams.set n ⟨session, out.2⟩
    receiver := if part = .sink then s.receiver.erase session else s.receiver }

/-- An operation that forgets a client. Only the guards of streams do this. -/
def forgets : Op → Bool
  | .route (.forgetClient _) => true
  | _ => false

def step (display : Json.Value → String) (s : State) : Action → Option State
  | .get accept mcpSessionId fresh => some (handleGatewayGet s accept mcpSessionId fresh)
  | .drop n =>
    match s.streams[n]? with
    | some ⟨session, .streaming⟩ =>
      some { s with streams := s.streams.set n ⟨session, .forgetting .sink⟩ }
    | _ => none
  | .forget n =>
    match s.streams[n]? with
    | some ⟨session, .forgetting part⟩ => some (forgetStep s n session part)
    | _ => none
  | .manage op =>
    if forgets op then none
    else some { s with
      inner := applyOp display s.inner s.emitted op
      emitted := if op.delivers then s.emitted + 1 else s.emitted }
  | .bindResource key route =>
    let table := (bindResourceSubscription s.inner.resourceSubscriptions key route).2
    some { s with inner := { s.inner with resourceSubscriptions := table } }
  | .unbindResource key route =>
    let table := (unbindResourceSubscription s.inner.resourceSubscriptions key route).2
    some { s with inner := { s.inner with resourceSubscriptions := table } }

/-! ## What is asked -/

/-- A stream of a session that is open. -/
def Opens (s : State) (session : String) (n : Nat) : Prop :=
  s.streams[n]? = some ⟨session, .streaming⟩

/-- The newest stream of a session that is open. -/
def Newest (s : State) (session : String) (n : Nat) : Prop :=
  Opens s session n ∧ ∀ m, n < m → ¬Opens s session m

/-- What is sent to a session goes into the channel a stream reads. -/
def Receives (s : State) (session : String) (n : Nat) : Prop :=
  s.receiver.lookup session = some n ∧ ∀ notice,
    (sendTo s.inner session notice).sentTo session = s.inner.sentTo session ++ [notice]

/-- The newest stream of every session gets what is sent to the session. -/
def Attached (s : State) : Prop := ∀ session n, Newest s session n → Receives s session n

/-- The sink, the job routes, the progress tokens and the subscriptions that a
    session had are still there. -/
structure Spares (session : String) (a b : Inner) : Prop where
  sink : b.clientSinks.lookup session = a.clientSinks.lookup session
  jobs : ∀ job route, a.jobRoutes.lookup job = some route → route.clientSessionId = session →
    b.jobRoutes.lookup job = some route
  tokens : ∀ token, a.progressTokenRoutes.lookup token = some session →
    b.progressTokenRoutes.lookup token = some session
  subscriptions : ∀ key route, route ∈ stored a.resourceSubscriptions key →
    route.clientSessionId = session → route ∈ stored b.resourceSubscriptions key

/-- A step after which the newest streams get what is sent, and which takes
    nothing from a session with a stream that is newer than the dropped one. -/
def Safe (display : Json.Value → String) (s : State) (a : Action) : Prop :=
  ∀ t, step display s a = some t → Attached t ∧
    ∀ n session part, a = .forget n → s.streams[n]? = some ⟨session, .forgetting part⟩ →
      (∃ m, n < m ∧ Opens s session m) → Spares session s.inner t.inner

/-- The session has nothing that a later step of a guard removes. -/
def Part.removesNothing (inner : Inner) (session : String) : Part → Bool
  | .sink => true
  | .backendInflight => true
  | .jobRoutes => inner.jobRoutes.entries.all (fun e => e.2.clientSessionId ≠ session)
  | .reverseIndexes _ => inner.progressTokenRoutes.entries.all (fun e => e.2 ≠ session)
  | .resourceSubs => inner.resourceSubscriptions.entries.all (fun e =>
      e.2.all (fun route => route.clientSessionId ≠ session))

def Stream.opens (session : String) (stream : Stream) : Bool :=
  stream = ⟨session, .streaming⟩

/-- A session has a stream open that is older than this one, or newer. -/
def State.older (s : State) (session : String) (n : Nat) : Bool :=
  (s.streams.take n).any (Stream.opens session)

def State.newer (s : State) (session : String) (n : Nat) : Bool :=
  (s.streams.drop (n + 1)).any (Stream.opens session)

/-- The step of a guard does no harm: the sink is removed when no stream is open,
    and the rest of what the session has is not removed while a newer stream is
    open. -/
def Part.isCalm (s : State) (session : String) (n : Nat) : Part → Bool
  | .sink => !s.streams.any (Stream.opens session)
  | part => !s.newer session n || part.removesNothing s.inner session

/-- The step the guard of a stream is about to take. -/
def Phase.part : Phase → Option Part
  | .forgetting part => some part
  | _ => none

/-- A stream is dropped when there is a newer one or no other one, and the steps
    of its guard do no harm. -/
def Calm (s : State) : Action → Prop
  | .drop n =>
    ∀ stream ∈ s.streams[n]?, s.older stream.session n = true → s.newer stream.session n = true
  | .forget n =>
    ∀ stream ∈ s.streams[n]?, ∀ part ∈ stream.phase.part, part.isCalm s stream.session n = true
  | _ => True

instance (s : State) : ∀ a : Action, Decidable (Calm s a)
  | .drop _ => inferInstanceAs (Decidable (∀ stream ∈ _, _))
  | .forget _ => inferInstanceAs (Decidable (∀ stream ∈ _, ∀ part ∈ _, _))
  | .get _ _ _ => inferInstanceAs (Decidable True)
  | .manage _ => inferInstanceAs (Decidable True)
  | .bindResource _ _ => inferInstanceAs (Decidable True)
  | .unbindResource _ _ => inferInstanceAs (Decidable True)

/-! ## Which streams are open -/

variable (s : State) (session : String)

theorem opens_iff (n : Nat) :
    Opens s session n ↔ ∃ stream, s.streams[n]? = some stream ∧ stream.opens session = true := by
  simp [Opens, Stream.opens]

theorem any_iff : s.streams.any (Stream.opens session) = true ↔ ∃ m, Opens s session m := by
  simp only [List.any_eq_true, List.mem_iff_getElem?, opens_iff]
  constructor
  · rintro ⟨stream, ⟨m, hm⟩, h⟩
    exact ⟨m, stream, hm, h⟩
  · rintro ⟨m, stream, hm, h⟩
    exact ⟨stream, ⟨m, hm⟩, h⟩

theorem newer_iff (n : Nat) : s.newer session n = true ↔ ∃ m, n < m ∧ Opens s session m := by
  simp only [State.newer, List.any_eq_true, List.mem_iff_getElem?, List.getElem?_drop, opens_iff]
  constructor
  · rintro ⟨stream, ⟨i, hi⟩, h⟩
    exact ⟨n + 1 + i, by omega, stream, hi, h⟩
  · rintro ⟨m, hm, stream, hstream, h⟩
    refine ⟨stream, ⟨m - (n + 1), ?_⟩, h⟩
    rwa [show n + 1 + (m - (n + 1)) = m by omega]

theorem older_iff (n : Nat) : s.older session n = true ↔ ∃ m, m < n ∧ Opens s session m := by
  simp only [State.older, List.any_eq_true, List.mem_iff_getElem?, List.getElem?_take, opens_iff]
  constructor
  · rintro ⟨stream, ⟨i, hi⟩, h⟩
    split at hi
    next hlt => exact ⟨i, hlt, stream, hi, h⟩
    next => cases hi
  · rintro ⟨m, hm, stream, hstream, h⟩
    exact ⟨stream, ⟨m, by rw [if_pos hm, hstream]⟩, h⟩

/-- Of the streams of a session that are open one is the newest. -/
theorem exists_newest (m : Nat) (h : Opens s session m) : ∃ n, m ≤ n ∧ Newest s session n := by
  -- Go to a newer one as long as there is one.
  obtain ⟨room, hroom⟩ : ∃ room, room = s.streams.length - m := ⟨_, rfl⟩
  induction room using Nat.strong_induction_on generalizing m with
  | _ room ih =>
      by_cases hnewer : ∃ k, m < k ∧ Opens s session k
      · rcases hnewer with ⟨k, hmk, hk⟩
        have hlt : k < s.streams.length := (List.getElem?_eq_some_iff.mp hk).1
        rcases ih (s.streams.length - k) (by omega) k hk rfl with ⟨n, hkn, hn⟩
        exact ⟨n, by omega, hn⟩
      · exact ⟨m, Nat.le_refl m, h, fun k hmk hk => hnewer ⟨k, hmk, hk⟩⟩

theorem newest_congr (s t : State) (session : String) (n : Nat)
    (h : ∀ m, Opens t session m ↔ Opens s session m) :
    Newest t session n ↔ Newest s session n := by
  simp only [Newest, h]

theorem receives_iff (n : Nat) : Receives s session n ↔
      s.receiver.lookup session = some n ∧ (s.inner.clientSinks.lookup session).isSome = true := by
  refine and_congr_right (fun _ => ?_)
  simp only [sentTo_sendTo, true_and]
  constructor
  · intro h
    by_contra hnone
    have hnotice := h ⟨0, .null⟩
    rw [if_neg hnone] at hnotice
    exact absurd (congrArg List.length hnotice) (by
      rw [List.length_append, List.length_singleton]
      omega)
  · intro hsome notice
    rw [if_pos hsome]

/-- Steps after which the same streams are open, with the same sinks. -/
theorem attached_congr (s t : State) (h : Attached s)
    (hopens : ∀ session m, Opens t session m ↔ Opens s session m)
    (hreceiver : t.receiver = s.receiver)
    (hsinks : ∀ session, (s.inner.clientSinks.lookup session).isSome = true →
      (t.inner.clientSinks.lookup session).isSome = true) : Attached t := by
  intro session n hn
  have hs := (receives_iff s session n).mp
    (h session n ((newest_congr s t session n (hopens session)).mp hn))
  refine (receives_iff t session n).mpr ⟨?_, hsinks session hs.2⟩
  rw [hreceiver]
  exact hs.1

/-- A stream that is not open goes on, and the same streams are open. -/
theorem opens_set (n : Nat) (phase phase' : Phase) (hstream : s.streams[n]? = some ⟨session, phase⟩)
    (hphase : phase ≠ .streaming)
    (hphase' : phase' ≠ .streaming) (inner : Inner) (receiver : OrderedMap String Nat)
    (session' : String) (m : Nat) :
    Opens ⟨inner, s.streams.set n ⟨session, phase'⟩, receiver, s.emitted⟩ session' m ↔
      Opens s session' m := by
  unfold Opens
  dsimp only
  by_cases hm : n = m
  · subst hm
    rw [List.getElem?_set_self (List.getElem?_eq_some_iff.mp hstream).1, hstream]
    simp [hphase, hphase']
  · rw [List.getElem?_set_ne hm]

/-! ## What a guard removes -/

section Parts

variable (inner : Inner) (session : String)

theorem spares_jobRoutes :
    Spares session inner (forgetPart inner session .jobRoutes).1 ↔
      Part.jobRoutes.removesNothing inner session = true := by
  have hlookup : ∀ job, (forgetPart inner session .jobRoutes).1.jobRoutes.lookup job =
      (inner.jobRoutes.lookup job).filter (fun route => route.clientSessionId ≠ session) :=
    OrderedMap.lookup_filter inner.jobRoutes _
  simp only [Part.removesNothing, List.all_eq_true, decide_eq_true_eq]
  constructor
  · intro h e he hsession
    have hkept := h.jobs e.1 e.2 (OrderedMap.lookup_of_mem _ _ _ he) hsession
    rw [hlookup, Option.filter_eq_some_iff] at hkept
    exact absurd hsession (of_decide_eq_true hkept.2)
  · intro h
    refine ⟨rfl, fun job route hroute hsession => ?_, fun _ => id, fun _ _ hroute _ => hroute⟩
    exact absurd hsession (h (job, route) (OrderedMap.mem_entries _ _ _ hroute))

theorem spares_reverseIndexes (dropped : List String) :
    Spares session inner (forgetPart inner session (.reverseIndexes dropped)).1 ↔
      (Part.reverseIndexes dropped).removesNothing inner session = true := by
  have hlookup : ∀ token,
      (forgetPart inner session (.reverseIndexes dropped)).1.progressTokenRoutes.lookup token =
        (inner.progressTokenRoutes.lookup token).filter (fun other => other ≠ session) :=
    OrderedMap.lookup_filter inner.progressTokenRoutes _
  simp only [Part.removesNothing, List.all_eq_true, decide_eq_true_eq]
  constructor
  · intro h e he hsession
    have htoken := OrderedMap.lookup_of_mem _ _ _ he
    rw [hsession] at htoken
    have hkept := h.tokens e.1 htoken
    rw [hlookup, Option.filter_eq_some_iff] at hkept
    exact absurd rfl (of_decide_eq_true hkept.2)
  · intro h
    refine ⟨rfl, fun _ _ hroute _ => hroute, fun token htoken => ?_, fun _ _ hroute _ => hroute⟩
    exact absurd rfl (h (token, session) (OrderedMap.mem_entries _ _ _ htoken))

/-- No route of the session is left. -/
theorem forgotten_resourceSubs (key : ResourceKey) (route : ResourceSubscriberRoute)
    (h : route ∈ stored (forgetPart inner session .resourceSubs).1.resourceSubscriptions key) :
    route.clientSessionId ≠ session := by
  simp only [forgetPart, forgetClientResourceSubs, stored, OrderedMap.lookup_mapValues] at h
  cases hkept : (inner.resourceSubscriptions.filter (fun routes => routes.isEmpty ||
      !(routes.filter (fun route => route.clientSessionId ≠ session)).isEmpty)).lookup key with
  | none =>
      rw [hkept] at h
      exact absurd h List.not_mem_nil
  | some routes =>
      rw [hkept] at h
      exact of_decide_eq_true (List.mem_filter.mp h).2

theorem spares_resourceSubs :
    Spares session inner (forgetPart inner session .resourceSubs).1 ↔
      Part.resourceSubs.removesNothing inner session = true := by
  simp only [Part.removesNothing, List.all_eq_true, decide_eq_true_eq]
  constructor
  · intro h e he route hroute hsession
    have hstored : route ∈ stored inner.resourceSubscriptions e.1 := by
      rw [stored, OrderedMap.lookup_of_mem _ _ _ he]
      exact hroute
    exact forgotten_resourceSubs inner session e.1 route
      (h.subscriptions e.1 route hstored hsession) hsession
  · intro h
    refine ⟨rfl, fun _ _ hroute _ => hroute, fun _ => id, fun key route hroute hsession => ?_⟩
    unfold stored at hroute
    cases hlookup : inner.resourceSubscriptions.lookup key with
    | none =>
        rw [hlookup] at hroute
        exact absurd hroute List.not_mem_nil
    | some routes =>
        rw [hlookup] at hroute
        exact absurd hsession (h (key, routes) (OrderedMap.mem_entries _ _ _ hlookup) route hroute)

/-- A step of a guard that is not its first. -/
theorem spares_forgetPart (part : Part) (hpart : part ≠ .sink) :
    Spares session inner (forgetPart inner session part).1 ↔
      part.removesNothing inner session = true := by
  cases part with
  | sink => exact absurd rfl hpart
  | backendInflight =>
      exact iff_of_true ⟨rfl, fun _ _ hroute _ => hroute, fun _ => id, fun _ _ hroute _ => hroute⟩
        rfl
  | jobRoutes => exact spares_jobRoutes inner session
  | reverseIndexes dropped => exact spares_reverseIndexes inner session dropped
  | resourceSubs => exact spares_resourceSubs inner session

theorem sinks_forgetPart (part : Part) (hpart : part ≠ .sink) :
    (forgetPart inner session part).1.clientSinks = inner.clientSinks := by
  cases part with
  | sink => exact absurd rfl hpart
  | backendInflight => rfl
  | jobRoutes => rfl
  | reverseIndexes dropped => rfl
  | resourceSubs => rfl

theorem forgetPart_not_streaming (part : Part) :
    (forgetPart inner session part).2 ≠ .streaming := by
  cases part <;> exact Phase.noConfusion

end Parts

/-- What else is done with the manager leaves the sinks in place. -/
theorem isSome_sink_applyOp (display : Json.Value → String) (inner : Inner) (emitted : Nat)
    (op : Op) (hop : forgets op = false) (session : String)
    (h : (inner.clientSinks.lookup session).isSome = true) :
    ((applyOp display inner emitted op).clientSinks.lookup session).isSome = true := by
  have hne : op ≠ .route (.forgetClient session) := by
    rintro rfl
    cases hop
  exact (kept_applyOp (fun _ => True) session (inner.sentTo session) display inner emitted op hne
    (fun _ => trivial) ⟨fun _ _ _ => trivial, h, [], (List.append_nil _).symm,
      fun _ hn => absurd hn List.not_mem_nil⟩).sink

/-! ## The steps -/

section Steps

variable (s : State) (h : Attached s)

include h

/-- A new stream is the newest one of its session, and has the sink. -/
theorem attached_get (accept mcpSessionId : Option String) (fresh : String) :
    Attached (handleGatewayGet s accept mcpSessionId fresh) := by
  unfold handleGatewayGet
  split
  next =>
    intro session n hn
    rw [receives_iff]
    by_cases hsession : session = mcpSessionId.getD fresh
    · subst hsession
      -- A stream behind the last one there is none, and one before it is older.
      have hlast : n = s.streams.length := by
        have hle : n ≤ s.streams.length := by
          have hlt := (List.getElem?_eq_some_iff.mp hn.1).1
          rw [List.length_append, List.length_singleton] at hlt
          omega
        by_contra hne
        refine hn.2 s.streams.length (by omega) ?_
        exact List.getElem?_concat_length
      dsimp only
      rw [OrderedMap.lookup_insert, hlast, registerClient, OrderedMap.lookup_insert]
      exact ⟨rfl, rfl⟩
    · have hsame : ∀ m, Opens { s with
            inner := registerClient s.inner (mcpSessionId.getD fresh)
            streams := s.streams ++ [⟨mcpSessionId.getD fresh, .streaming⟩]
            receiver := s.receiver.insert (mcpSessionId.getD fresh) s.streams.length } session m ↔
          Opens s session m := by
        intro m
        unfold Opens
        dsimp only
        rw [List.getElem?_append]
        split
        next => exact Iff.rfl
        next hlen =>
          refine iff_of_false (fun heq => ?_) (fun heq => hlen (List.getElem?_eq_some_iff.mp heq).1)
          have hmem := List.mem_singleton.mp (List.mem_of_getElem? heq)
          exact hsession (congrArg Stream.session hmem)
      have hold := (receives_iff s session n).mp
        (h session n ((newest_congr s _ session n hsame).mp hn))
      dsimp only
      rw [OrderedMap.lookup_insert_ne _ _ _ _ hsession, registerClient,
        OrderedMap.lookup_insert_ne _ _ _ _ hsession]
      exact hold
  next => exact h

/-- A stream that is dropped leaves the newest one attached exactly if there is
    a newer one or no other one. -/
theorem attached_drop_iff (session : String) (n : Nat)
    (hstream : s.streams[n]? = some ⟨session, .streaming⟩) :
    Attached { s with streams := s.streams.set n ⟨session, .forgetting .sink⟩ } ↔
      (s.older session n = true → s.newer session n = true) := by
  have hlt := (List.getElem?_eq_some_iff.mp hstream).1
  have hopens : ∀ session' m,
      Opens { s with streams := s.streams.set n ⟨session, .forgetting .sink⟩ } session' m ↔
        m ≠ n ∧ Opens s session' m := by
    intro session' m
    unfold Opens
    dsimp only
    by_cases hm : n = m
    · subst hm
      rw [List.getElem?_set_self hlt]
      simp
    · rw [List.getElem?_set_ne hm]
      exact (and_iff_right (Ne.symm hm)).symm
  rw [older_iff, newer_iff]
  constructor
  · rintro hattached ⟨m, hmn, hm⟩
    by_contra hnewer
    -- The dropped stream had the sink, and an older one is now the newest.
    have hown : Newest s session n := ⟨hstream, fun k hk hopen => hnewer ⟨k, hk, hopen⟩⟩
    rcases exists_newest _ session m ((hopens session m).mpr ⟨by omega, hm⟩) with ⟨k, _, hk⟩
    have hboth := (hattached session k hk).1.symm.trans (h session n hown).1
    exact ((hopens session k).mp hk.1).1 (Option.some.inj hboth)
  · intro hcalm session' k hk
    have hkopen := (hopens session' k).mp hk.1
    refine h session' k ⟨hkopen.2, fun m hm hopen => ?_⟩
    by_cases hmn : m = n
    · -- The dropped stream was newer than this one, so there is one that is newer still.
      subst hmn
      have hsession : session' = session := by
        have heq := hopen.symm.trans hstream
        rw [Option.some.injEq, Stream.mk.injEq] at heq
        exact heq.1
      subst hsession
      rcases hcalm ⟨k, hm, hkopen.2⟩ with ⟨j, hj, hjopen⟩
      exact hk.2 j (by omega) ((hopens session' j).mpr ⟨by omega, hjopen⟩)
    · exact hk.2 m hm ((hopens session' m).mpr ⟨hmn, hopen⟩)

/-- A sink that is removed leaves the newest streams attached exactly if no
    stream of the session is open. -/
theorem attached_sink_iff (session : String) (n : Nat)
    (hstream : s.streams[n]? = some ⟨session, .forgetting .sink⟩) :
    Attached (forgetStep s n session .sink) ↔
      (s.streams.any (Stream.opens session)) = false := by
  have hopens := opens_set s session n _ (.forgetting .backendInflight) hstream Phase.noConfusion
    Phase.noConfusion { s.inner with clientSinks := s.inner.clientSinks.erase session }
    (s.receiver.erase session)
  rw [← Bool.not_eq_true, any_iff]
  constructor
  · rintro hattached ⟨m, hm⟩
    rcases exists_newest _ session m ((hopens session m).mpr hm) with ⟨k, _, hk⟩
    have hreceiver := (hattached session k hk).1
    dsimp only [forgetStep] at hreceiver
    rw [if_pos rfl, OrderedMap.lookup_erase, if_pos rfl] at hreceiver
    cases hreceiver
  · intro hnone session' k hk
    have hkopen := (hopens session' k).mp hk.1
    have hne : session' ≠ session := by
      rintro rfl
      exact hnone ⟨k, hkopen⟩
    have hold := (receives_iff s session' k).mp
      (h session' k ((newest_congr s _ session' k (hopens session')).mp hk))
    rw [receives_iff]
    dsimp only [forgetStep, forgetPart]
    rw [if_pos rfl, OrderedMap.lookup_erase, if_neg hne, OrderedMap.lookup_erase, if_neg hne]
    exact hold

/-- The later steps of a guard leave the newest streams attached. -/
theorem attached_forgetPart (session : String) (n : Nat) (part : Part) (hpart : part ≠ .sink)
    (hstream : s.streams[n]? = some ⟨session, .forgetting part⟩) :
    Attached (forgetStep s n session part) := by
  refine attached_congr s _ h ?_ (if_neg hpart) (fun session' hsome => ?_)
  · exact opens_set s session n _ _ hstream Phase.noConfusion
      (forgetPart_not_streaming s.inner session part) _ _
  · rw [forgetStep, sinks_forgetPart s.inner session part hpart]
    exact hsome

theorem safe_drop_iff (display : Json.Value → String) (t : State) (n : Nat)
    (hstep : step display s (.drop n) = some t) :
    Safe display s (.drop n) ↔ Calm s (.drop n) := by
  simp only [step] at hstep
  split at hstep
  next session hstream =>
    simp only [Safe, Calm, step, hstream, Option.some.injEq, forall_eq', Option.mem_some_iff,
      reduceCtorEq, false_implies, implies_true, and_true]
    exact attached_drop_iff s h session n hstream
  next => cases hstep

theorem safe_forget_iff (display : Json.Value → String) (t : State) (n : Nat)
    (hstep : step display s (.forget n) = some t) :
    Safe display s (.forget n) ↔ Calm s (.forget n) := by
  simp only [step] at hstep
  split at hstep
  next session part hstream =>
    -- What is asked of the step of this guard, and its condition.
    have hsafe : Safe display s (.forget n) ↔ Attached (forgetStep s n session part) ∧
        ((∃ m, n < m ∧ Opens s session m) →
          Spares session s.inner (forgetPart s.inner session part).1) := by
      unfold Safe
      simp only [step, hstream, Option.some.injEq, forall_eq']
      refine and_congr_right (fun _ => ⟨fun hall => hall n session part rfl hstream, ?_⟩)
      intro hspares n' session' part' heq hstream'
      rw [Action.forget.injEq] at heq
      rw [← heq, hstream, Option.some.injEq, Stream.mk.injEq, Phase.forgetting.injEq] at hstream'
      rw [← heq, ← hstream'.1]
      exact hspares
    have hcalm : Calm s (.forget n) ↔ part.isCalm s session n = true := by
      simp [Calm, hstream, forall_eq', Phase.part]
    rw [hsafe, hcalm]
    by_cases hpart : part = .sink
    · subst hpart
      rw [attached_sink_iff s h session n hstream, Part.isCalm, Bool.not_eq_true']
      refine and_iff_left_of_imp (fun hnone hnewer => ?_)
      rcases hnewer with ⟨m, _, hm⟩
      rw [← Bool.not_eq_true, any_iff] at hnone
      exact absurd ⟨m, hm⟩ hnone
    · have hlater : part.isCalm s session n =
          (!s.newer session n || part.removesNothing s.inner session) := by
        cases part <;> first | rfl | exact absurd rfl hpart
      rw [and_iff_right (attached_forgetPart s h session n part hpart hstream), hlater,
        Bool.or_eq_true, Bool.not_eq_true', ← Bool.not_eq_true, newer_iff,
        spares_forgetPart s.inner session part hpart, imp_iff_not_or]
  next => cases hstep

/-- A step that the state allows is safe exactly if it is calm. -/
theorem safe_iff_calm (display : Json.Value → String) (t : State) (a : Action)
    (hstep : step display s a = some t) : Safe display s a ↔ Calm s a := by
  -- A step of no guard is calm, so that only the newest streams are looked at.
  have hother : Attached t → (∀ n, a ≠ .forget n) → Calm s a → (Safe display s a ↔ Calm s a) := by
    intro hattached hguard hcalm
    refine iff_of_true (fun u hu => ⟨?_, fun n _ _ heq => absurd heq (hguard n)⟩) hcalm
    rw [hstep, Option.some.injEq] at hu
    rw [← hu]
    exact hattached
  cases a with
  | get accept mcpSessionId fresh =>
      refine hother ?_ (fun _ => Action.noConfusion) trivial
      rw [← Option.some.inj hstep]
      exact attached_get s h accept mcpSessionId fresh
  | drop n => exact safe_drop_iff s h display t n hstep
  | forget n => exact safe_forget_iff s h display t n hstep
  | manage op =>
      refine hother ?_ (fun _ => Action.noConfusion) trivial
      simp only [step] at hstep
      split at hstep
      next => cases hstep
      next hop =>
        rw [← Option.some.inj hstep]
        exact attached_congr s _ h (fun _ _ => Iff.rfl) rfl
          (isSome_sink_applyOp display s.inner s.emitted op (Bool.eq_false_iff.mpr hop))
  | bindResource key route =>
      refine hother ?_ (fun _ => Action.noConfusion) trivial
      rw [← Option.some.inj hstep]
      exact attached_congr s _ h (fun _ _ => Iff.rfl) rfl (fun _ => id)
  | unbindResource key route =>
      refine hother ?_ (fun _ => Action.noConfusion) trivial
      rw [← Option.some.inj hstep]
      exact attached_congr s _ h (fun _ _ => Iff.rfl) rfl (fun _ => id)

end Steps

theorem attached_init (routeTtl maxRoutesPerSession : Nat) :
    Attached (init routeTtl maxRoutesPerSession) := by
  rintro session n ⟨hopen, _⟩
  cases hopen

/-- A run is safe exactly if it is calm: in every state the newest stream of a
    session gets what is sent, and no older stream takes anything away with it,
    if streams are dropped and guards remove things only when the condition
    allows it, and otherwise not. -/
theorem reconnect_safe_iff (display : Json.Value → String) (routeTtl maxRoutesPerSession : Nat)
    (as : List Action) (t : State)
    (hrun : exec (step display) (init routeTtl maxRoutesPerSession) as = some t) :
    Along (step display) (Safe display) (init routeTtl maxRoutesPerSession) as ↔
      Along (step display) Calm (init routeTtl maxRoutesPerSession) as :=
  along_iff (step display) (Safe display) Calm Attached
    (fun _ _ u _ hsafe hu => (hsafe u hu).1)
    (fun s a u hs hu => safe_iff_calm s hs display u a hu) _ t as
    (attached_init routeTtl maxRoutesPerSession) hrun

/-- A request that accepts a stream. -/
def getOf (session : String) : Action := .get (some "text/event-stream") (some session) ""

/-- The first stream is torn down before the client comes back. -/
def reconnected : List Action :=
  [getOf "a", .drop 0, .forget 0, .forget 0, .forget 0, .forget 0, .forget 0, getOf "a"]

theorem reconnected_safe :
    Along (step (fun _ => "")) (Safe (fun _ => "")) (init 0 0) reconnected :=
  (reconnect_safe_iff (fun _ => "") 0 0 reconnected _ rfl).mpr (by decide +kernel)

/-- The client comes back before its first stream is torn down. -/
theorem older_stream_dropped :
    ¬ ∀ (display : Json.Value → String) (routeTtl maxRoutesPerSession : Nat) (as : List Action)
      (t : State), exec (step display) (init routeTtl maxRoutesPerSession) as = some t →
        Along (step display) (Safe display) (init routeTtl maxRoutesPerSession) as := by
  intro hall
  have h := hall (fun _ => "") 0 0 [getOf "a", getOf "a", .drop 0, .forget 0] _ rfl
  -- The second stream is the newest one, and its sink is gone.
  have hattached := ((h.2 _ rfl).2 _ rfl).2 _ rfl |>.1 _ rfl |>.1
  have hreceives := hattached "a" 1 ⟨rfl, fun m hm hopen => ?_⟩
  · exact absurd hreceives.1 (by decide +kernel)
  · have hlt := (List.getElem?_eq_some_iff.mp hopen).1
    have hlen : m < 2 := hlt
    omega

end Reconnect

end Gateway

end DccMcp
