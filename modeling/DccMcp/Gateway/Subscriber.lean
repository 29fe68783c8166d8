import DccMcp.Lib.Json
import DccMcp.Lib.OrderedMap
import Mathlib.Data.Finset.Card
import Mathlib.Data.Prod.Lex
import Mathlib.Data.String.Basic

/-!
# The Subscriber Manager

The gateway hands the notifications of the backends to the client sessions
they belong to. A job notification is routed by its job id, a progress
notification by its token. The routes become known only with the reply of the
call that started the job, and a notification that comes earlier waits in a
buffer of its backend.

The manager is a handful of maps without a common lock: the routes, two
reverse indexes over them, the requests that can be cancelled, the tokens, and
the sinks. Here the maps are the fields of one state and every operation is a
function on it, in the order in which the operation touches them.

A notification carries its place in the backend's stream. No function of the
manager reads it; it tells two notifications with the same text apart.

## Main definitions

* `Notice`, `Pending`, `JobRoute`: What is routed, what waits, and where to.
* `Inner`: The maps of the manager.
* `jobIdForJobNotification`, `terminalJobId`, `resolveTarget`: Reading a
  notification.
* `forgetJob`, `forgetClient`, `runRouteGcOnce`, `bindRequestToJob`,
  `bindProgressToken`: The routing operations.
* `bufferPending`, `flushPendingForBackend`, `bindJobRoute`, `deliver`: The
  operations that send.
-/

namespace DccMcp

namespace Gateway

open Json

/-- `PENDING_BUFFER_TTL`, in nanoseconds. -/
def pendingBufferTtl : Nat := 30 * 1000000000

/-- `PENDING_BUFFER_CAP`. -/
def pendingBufferCap : Nat := 256

/-- A notification of a backend, with its place in the stream. -/
structure Notice where
  place : Nat
  value : Value

structure Pending where
  insertedAt : Nat
  notice : Notice

structure JobRoute where
  clientSessionId : String
  backendId : String
  tool : String
  createdAt : Int
  parentJobId : Option String
  deriving DecidableEq

structure ResourceSubscriberRoute where
  clientSessionId : String
  clientUri : String
  deriving DecidableEq

inductive BindJobError
  | tooManyInFlight (sessionId : String) (live cap : Nat)
  deriving DecidableEq

/-- `SubscriberManagerInner`. A sink and a bus hold what was sent to them;
    `pending` has the buffer of every backend, `backends` those a bind flushes. -/
structure Inner where
  backends : Finset String
  pending : OrderedMap String (List Pending)
  jobRoutes : OrderedMap String JobRoute
  sessionJobs : OrderedMap String (Finset String)
  requestToJob : OrderedMap String String
  progressTokenRoutes : OrderedMap String String
  backendInflight : OrderedMap String (Finset String)
  clientSinks : OrderedMap String (List Notice)
  jobEventBuses : OrderedMap String (List Notice)
  resourceSubscriptions : OrderedMap (String ×ₗ String) (List ResourceSubscriberRoute)
  routeTtl : Nat
  maxRoutesPerSession : Nat

def withLimits (routeTtl maxRoutesPerSession : Nat) : Inner where
  backends := ∅
  pending := OrderedMap.empty _ _
  jobRoutes := OrderedMap.empty _ _
  sessionJobs := OrderedMap.empty _ _
  requestToJob := OrderedMap.empty _ _
  progressTokenRoutes := OrderedMap.empty _ _
  backendInflight := OrderedMap.empty _ _
  clientSinks := OrderedMap.empty _ _
  jobEventBuses := OrderedMap.empty _ _
  resourceSubscriptions := OrderedMap.empty _ _
  routeTtl := routeTtl
  maxRoutesPerSession := maxRoutesPerSession

/-- The two clocks a call reads: `Instant::now` and `Utc::now`. -/
structure Clock where
  instant : Nat
  utc : Int

/-! ## Reading a notification -/

def isJobMethod (method : String) : Bool :=
  method == "notifications/$/dcc.jobUpdated" || method == "notifications/$/dcc.workflowUpdated"

def jobIdForJobNotification (value : Value) : Option String := do
  let method ← (← value.get "method").asStr
  if isJobMethod method then (← (← value.get "params").get "job_id").asStr else none

def isTerminalStatus (status : String) : Bool :=
  status == "completed" || status == "failed" || status == "cancelled" || status == "interrupted"

def terminalJobId (value : Value) : Option String := do
  let method ← (← value.get "method").asStr
  if isJobMethod method then
    let params ← value.get "params"
    let status ← (← params.get "status").asStr
    if isTerminalStatus status then (← params.get "job_id").asStr else none
  else none

/-- `progress_token_key`. The text of a number and of a value is the
    serializer's. -/
def progressTokenKey (display : Value → String) : Value → String
  | .string s => "s:" ++ s
  | .number n => "n:" ++ display (.number n)
  | other => "j:" ++ display other

def resolveTarget (display : Value → String) (inner : Inner) (value : Value) : Option String := do
  let method ← (← value.get "method").asStr
  if method = "notifications/progress" then
    let token ← (← value.get "params").get "progressToken"
    inner.progressTokenRoutes.lookup (progressTokenKey display token)
  else if isJobMethod method then
    let jobId ← (← (← value.get "params").get "job_id").asStr
    (inner.jobRoutes.lookup jobId).map JobRoute.clientSessionId
  else none

/-! ## Routing -/

/-- The jobs a session has in the reverse index. -/
def Inner.jobsOf (inner : Inner) (session : String) : Finset String :=
  (inner.sessionJobs.lookup session).getD ∅

/-- The sessions a backend has in the reverse index. -/
def Inner.inflightOf (inner : Inner) (backend : String) : Finset String :=
  (inner.backendInflight.lookup backend).getD ∅

/-- The buffer of a backend. -/
def Inner.pendingOf (inner : Inner) (backend : String) : List Pending :=
  (inner.pending.lookup backend).getD []

def forgetJob (inner : Inner) (jobId : String) : Inner :=
  { inner with
    jobRoutes := inner.jobRoutes.erase jobId
    jobEventBuses := inner.jobEventBuses.erase jobId
    sessionJobs :=
      match inner.jobRoutes.lookup jobId with
      | some route => inner.sessionJobs.modify route.clientSessionId (fun jobs => jobs.erase jobId)
      | none => inner.sessionJobs
    requestToJob := inner.requestToJob.filter (fun job => job ≠ jobId) }

def forgetClientJobRoutes (inner : Inner) (sessionId : String) : List String × Inner :=
  let dropped := (inner.jobRoutes.entries.filter (fun e => e.2.clientSessionId = sessionId)).map
    Prod.fst
  (dropped,
    { inner with
      jobRoutes := inner.jobRoutes.filter (fun route => route.clientSessionId ≠ sessionId)
      jobEventBuses := dropped.foldl (fun buses job => buses.erase job) inner.jobEventBuses
      sessionJobs := inner.sessionJobs.erase sessionId })

def forgetClientReverseIndexes (inner : Inner) (sessionId : String) (dropped : List String) :
    Inner :=
  { inner with
    requestToJob := inner.requestToJob.filter (fun job => !dropped.contains job)
    progressTokenRoutes := inner.progressTokenRoutes.filter (fun session => session ≠ sessionId) }

def forgetClientBackendInflight (inner : Inner) (sessionId : String) : Inner :=
  { inner with
    backendInflight := inner.backendInflight.mapValues (fun sessions => sessions.erase sessionId) }

/-- `forget_client_resource_subs`: a list of routes that becomes empty is
    dropped. -/
def forgetClientResourceSubs (inner : Inner) (sessionId : String) : Inner :=
  let others (routes : List ResourceSubscriberRoute) : List ResourceSubscriberRoute :=
    routes.filter (fun route => route.clientSessionId ≠ sessionId)
  let kept := inner.resourceSubscriptions.filter
    (fun routes => routes.isEmpty || !(others routes).isEmpty)
  { inner with resourceSubscriptions := kept.mapValues others }

def forgetClient (inner : Inner) (sessionId : String) : Inner :=
  let inner := { inner with clientSinks := inner.clientSinks.erase sessionId }
  let inner := forgetClientBackendInflight inner sessionId
  let dropped := forgetClientJobRoutes inner sessionId
  let inner := forgetClientReverseIndexes dropped.2 sessionId dropped.1
  forgetClientResourceSubs inner sessionId

/-- `chrono::Duration::from_std(ttl).unwrap_or_default()`. -/
def chronoDuration (ttl : Nat) : Nat :=
  if ttl ≤ 9223372036854775807 * 1000000 then ttl else 0

/-- The jobs `run_route_gc_once` finds stale. -/
def staleJobs (inner : Inner) (utc : Int) : List String :=
  (inner.jobRoutes.entries.filter
    (fun e => e.2.createdAt < utc - chronoDuration inner.routeTtl)).map Prod.fst

def runRouteGcOnce (inner : Inner) (utc : Int) : Inner :=
  if inner.routeTtl = 0 then inner else (staleJobs inner utc).foldl forgetJob inner

def bindRequestToJob (inner : Inner) (requestId jobId : String) : Inner :=
  { inner with requestToJob := inner.requestToJob.insert requestId jobId }

def bindProgressToken (display : Value → String) (inner : Inner) (token : Value)
    (sessionId : String) : Inner :=
  { inner with
    progressTokenRoutes :=
      inner.progressTokenRoutes.insert (progressTokenKey display token) sessionId }

/-- The maps `bind_job_route` writes, once the cap has let it through. -/
def insertRoute (inner : Inner) (jobId : String) (route : JobRoute) : Inner :=
  { inner with
    jobRoutes := inner.jobRoutes.insert jobId route
    sessionJobs := inner.sessionJobs.insert route.clientSessionId
      (insert jobId (inner.jobsOf route.clientSessionId))
    backendInflight := inner.backendInflight.insert route.backendId
      (insert route.clientSessionId (inner.inflightOf route.backendId)) }

/-! ## Sending -/

/-- `sender.send`, if the session has a sink. -/
def sendTo (inner : Inner) (sessionId : String) (notice : Notice) : Inner :=
  { inner with clientSinks := inner.clientSinks.modify sessionId (fun sent => sent ++ [notice]) }

def bufferPending (inner : Inner) (backend : String) (now : Nat) (notice : Notice) : Inner :=
  let fresh := (inner.pendingOf backend).dropWhile
    (fun p => decide (pendingBufferTtl ≤ now - p.insertedAt))
  let room := if pendingBufferCap ≤ fresh.length then fresh.tail else fresh
  { inner with pending := inner.pending.insert backend (room ++ [⟨now, notice⟩]) }

/-- One round of the loop in `flush_pending_for_backend`. -/
def flushOne (display : Value → String) (backend : String) (inner : Inner) (p : Pending) :
    Inner :=
  match resolveTarget display inner p.notice.value with
  | some sessionId => sendTo inner sessionId p.notice
  | none => { inner with pending := inner.pending.insert backend (inner.pendingOf backend ++ [p]) }

def flushPendingForBackend (display : Value → String) (inner : Inner) (backend : String)
    (now : Nat) : Inner :=
  if backend ∈ inner.backends then
    let drained := (inner.pendingOf backend).filter
      (fun p => decide (now - p.insertedAt < pendingBufferTtl))
    drained.foldl (flushOne display backend)
      { inner with pending := inner.pending.insert backend [] }
  else inner

def bindJobRoute (display : Value → String) (inner : Inner)
    (jobId sessionId backend tool : String) (parentJobId : Option String) (now : Clock) :
    Except BindJobError Inner :=
  let live := (inner.jobsOf sessionId).card
  if 0 < inner.maxRoutesPerSession ∧ inner.maxRoutesPerSession ≤ live then
    .error (.tooManyInFlight sessionId live inner.maxRoutesPerSession)
  else
    let route : JobRoute := ⟨sessionId, backend, tool, now.utc, parentJobId⟩
    .ok (flushPendingForBackend display (insertRoute inner jobId route) backend now.instant)

def registerClient (inner : Inner) (sessionId : String) : Inner :=
  { inner with clientSinks := inner.clientSinks.insert sessionId [] }

def publishJobEvent (inner : Inner) (jobId : String) (notice : Notice) : Inner :=
  { inner with jobEventBuses := inner.jobEventBuses.modify jobId (fun sent => sent ++ [notice]) }

/-- The notification with the URI the client knows. -/
def withClientUri (uri : String) : Value → Value
  | .object members =>
    match members.lookup "params" with
    | some (.object params) =>
      .object (insertMember "params" (.object (insertMember "uri" (.string uri) params)) members)
    | _ => .object members
  | other => other

/-- `dispatch_resource_updated`: whether some subscriber had a sink. -/
def dispatchResourceUpdated (inner : Inner) (notice : Notice) (backend : String) :
    Bool × Inner :=
  match (do (← (← notice.value.get "params").get "uri").asStr) with
  | none => (false, inner)
  | some backendUri =>
    match inner.resourceSubscriptions.lookup (toLex (backend, backendUri)) with
    | none => (false, inner)
    | some routes =>
      (routes.any (fun route => (inner.clientSinks.lookup route.clientSessionId).isSome),
        routes.foldl (fun inner route => sendTo inner route.clientSessionId
          ⟨notice.place, withClientUri route.clientUri notice.value⟩) inner)

/-- The first two parts of `deliver`: the bus gets the notification, and the
    route of a job with a terminal status is evicted. -/
def deliverEvict (inner : Inner) (notice : Notice) : Inner :=
  let published :=
    match jobIdForJobNotification notice.value with
    | some jobId => publishJobEvent inner jobId notice
    | none => inner
  match terminalJobId notice.value with
  | some jobId => forgetJob published jobId
  | none => published

/-- The last part of `deliver`: to the sink of the target, or into the buffer. -/
def deliverTarget (display : Value → String) (inner : Inner) (backend : String) (now : Nat)
    (notice : Notice) : Inner :=
  match resolveTarget display inner notice.value with
  | some sessionId => sendTo inner sessionId notice
  | none => bufferPending inner backend now notice

def deliver (display : Value → String) (inner : Inner) (backend : String) (now : Nat)
    (notice : Notice) : Inner :=
  let evicted := deliverEvict inner notice
  if (notice.value.get "method").bind Value.asStr = some "notifications/resources/updated" then
    let dispatched := dispatchResourceUpdated evicted notice backend
    if dispatched.1 then dispatched.2 else deliverTarget display dispatched.2 backend now notice
  else deliverTarget display evicted backend now notice

end Gateway

end DccMcp
