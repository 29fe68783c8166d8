import DccMcp.Gateway.Subscriber
import DccMcp.Lib.Machine

/-!
# Routes and their Indexes

A job route names a session and a backend, and two indexes are kept over the
routes: the jobs of a session, for the cap, and the sessions of a backend, for
the reconnect notice. The routes can change in five ways, and each of them
brings some of the indexes along.

What none of them does is to take a session out of a backend's index because
its last route to that backend is gone, except when the whole session goes.
And a job that is bound a second time leaves its old session's index as it
was. `Repairs` is the condition under which a step needs neither: another
route of the same session to the same backend is left, and a job that is bound
again stays with its session. `agree_step_iff` says that a step from indexes
that agree leads to indexes that agree exactly under this condition, so a run
keeps them exactly when all of its steps meet it.

Two more properties hold whatever happens. A request that was bound when its
job had a route points to a live route, since the routes go together with the
requests that name them. And no session has more routes than the cap: the
index may have jobs too many, but none too few.

## Main definitions

* `RouteOp`, `step`: The five operations.
* `Agree`: The indexes are what the routes say.
* `WithinCap`, `RequestsLive`: The other two properties.
* `Repairs`: When a step needs no repair that is missing.

## Theorems

* `routing_indexes_agree`: Runs that keep all of them.
-/

namespace DccMcp

namespace Gateway

/-- The operations on the routes. -/
inductive RouteOp
  | bindJobRoute (jobId sessionId backend tool : String) (parentJobId : Option String)
      (now : Clock)
  | bindRequestToJob (requestId jobId : String)
  | forgetJob (jobId : String)
  | forgetClient (sessionId : String)
  | runRouteGcOnce (utc : Int)

/-- One operation. A bind that is refused changes nothing. -/
def step (display : Json.Value → String) (inner : Inner) : RouteOp → Inner
  | .bindJobRoute jobId sessionId backend tool parentJobId now =>
    match bindJobRoute display inner jobId sessionId backend tool parentJobId now with
    | .ok bound => bound
    | .error _ => inner
  | .bindRequestToJob requestId jobId => bindRequestToJob inner requestId jobId
  | .forgetJob jobId => forgetJob inner jobId
  | .forgetClient sessionId => forgetClient inner sessionId
  | .runRouteGcOnce utc => runRouteGcOnce inner utc

/-- A job is routed to a session. -/
def Routed (inner : Inner) (session job : String) : Prop :=
  ∃ route, inner.jobRoutes.lookup job = some route ∧ route.clientSessionId = session

/-- The jobs of a session are those that are routed to it. -/
def JobsAgree (inner : Inner) : Prop :=
  ∀ session job, job ∈ inner.jobsOf session ↔ Routed inner session job

/-- A backend has a session in flight when some route leads from the one to
    the other. -/
def InflightAgree (inner : Inner) : Prop :=
  ∀ backend session, session ∈ inner.inflightOf backend ↔
    ∃ job route, inner.jobRoutes.lookup job = some route ∧
      route.clientSessionId = session ∧ route.backendId = backend

/-- The indexes are what the routes say. -/
structure Agree (inner : Inner) : Prop where
  jobs : JobsAgree inner
  inflight : InflightAgree inner

/-- Another route of the same session to the same backend is left when some
    jobs are gone. -/
def CoveredWithout (inner : Inner) (gone : List String) (route : JobRoute) : Prop :=
  ∃ job other, job ∉ gone ∧ inner.jobRoutes.lookup job = some other ∧
    other.clientSessionId = route.clientSessionId ∧ other.backendId = route.backendId

/-- A bind is refused. -/
def AtCap (inner : Inner) (session : String) : Prop :=
  0 < inner.maxRoutesPerSession ∧ inner.maxRoutesPerSession ≤ (inner.jobsOf session).card

/-- The number of routes a session has. -/
def liveRoutes (inner : Inner) (session : String) : Nat :=
  (inner.jobRoutes.entries.filter (fun e => e.2.clientSessionId = session)).length

/-- No session has more routes than the cap, if there is one. -/
def WithinCap (inner : Inner) : Prop :=
  0 < inner.maxRoutesPerSession → ∀ session, liveRoutes inner session ≤ inner.maxRoutesPerSession

/-- The state after a list of operations. -/
def after (display : Json.Value → String) (inner : Inner) (ops : List RouteOp) : Inner :=
  ops.foldl (step display) inner

/-- An operation that binds a request. -/
def RouteOp.binds (request : String) : RouteOp → Bool
  | .bindRequestToJob requestId _ => requestId == request
  | _ => false

/-- A request that was bound when its job had a route, and that is still
    bound, points to a live route. -/
def RequestsLive (display : Json.Value → String) (inner : Inner) (ops : List RouteOp) : Prop :=
  ∀ before request job rest, ops = before ++ .bindRequestToJob request job :: rest →
    ((after display inner before).jobRoutes.lookup job).isSome = true →
    (∀ op ∈ rest, op.binds request = false) →
    ∀ bound, (after display inner ops).requestToJob.lookup request = some bound →
      bound = job ∧ ((after display inner ops).jobRoutes.lookup bound).isSome = true

/-- The step needs no repair that is missing: a job that is bound again stays
    with its session, and where a route goes, another one of the same session
    to the same backend is left. -/
def Repairs (inner : Inner) : RouteOp → Prop
  | .bindJobRoute jobId sessionId backend _ _ _ => AtCap inner sessionId ∨
      ∀ old, inner.jobRoutes.lookup jobId = some old → old.clientSessionId = sessionId ∧
        (old.backendId = backend ∨ CoveredWithout inner [jobId] old)
  | .forgetJob jobId =>
      ∀ old, inner.jobRoutes.lookup jobId = some old → CoveredWithout inner [jobId] old
  | .runRouteGcOnce utc => inner.routeTtl = 0 ∨
      ∀ job ∈ staleJobs inner utc, ∀ old, inner.jobRoutes.lookup job = some old →
        CoveredWithout inner (staleJobs inner utc) old
  | _ => True

/-! ## A bind -/

/-- The maps the routes are kept in. -/
structure SameRoutes (a b : Inner) : Prop where
  jobRoutes : a.jobRoutes = b.jobRoutes
  sessionJobs : a.sessionJobs = b.sessionJobs
  requestToJob : a.requestToJob = b.requestToJob
  backendInflight : a.backendInflight = b.backendInflight
  routeTtl : a.routeTtl = b.routeTtl
  maxRoutesPerSession : a.maxRoutesPerSession = b.maxRoutesPerSession

theorem SameRoutes.refl (a : Inner) : SameRoutes a a := ⟨rfl, rfl, rfl, rfl, rfl, rfl⟩

theorem SameRoutes.trans (a b c : Inner) (hab : SameRoutes a b) (hbc : SameRoutes b c) :
    SameRoutes a c where
  jobRoutes := hab.jobRoutes.trans hbc.jobRoutes
  sessionJobs := hab.sessionJobs.trans hbc.sessionJobs
  requestToJob := hab.requestToJob.trans hbc.requestToJob
  backendInflight := hab.backendInflight.trans hbc.backendInflight
  routeTtl := hab.routeTtl.trans hbc.routeTtl
  maxRoutesPerSession := hab.maxRoutesPerSession.trans hbc.maxRoutesPerSession

variable (display : Json.Value → String) (inner : Inner) (jobs : List String) (jobId : String)

theorem sameRoutes_flushOne (backend : String) (inner : Inner) (p : Pending) :
    SameRoutes (flushOne display backend inner p) inner := by
  unfold flushOne
  split
  · exact ⟨rfl, rfl, rfl, rfl, rfl, rfl⟩
  · exact ⟨rfl, rfl, rfl, rfl, rfl, rfl⟩

/-- A flush sends and buffers, and leaves the routes alone. -/
theorem sameRoutes_flush (backend : String) (now : Nat) :
    SameRoutes (flushPendingForBackend display inner backend now) inner := by
  have hfold : ∀ (drained : List Pending) (i : Inner),
      SameRoutes (drained.foldl (flushOne display backend) i) i := by
    intro drained
    induction drained with
    | nil => exact SameRoutes.refl
    | cons p drained ih =>
        intro i
        exact SameRoutes.trans _ _ _ (ih _) (sameRoutes_flushOne display backend i p)
  unfold flushPendingForBackend
  split
  · exact SameRoutes.trans _ _ _ (hfold _ _) ⟨rfl, rfl, rfl, rfl, rfl, rfl⟩
  · exact SameRoutes.refl inner

theorem SameRoutes.agree_iff (a b : Inner) (h : SameRoutes a b) : Agree a ↔ Agree b := by
  have hjobs : JobsAgree a ↔ JobsAgree b := by
    simp only [JobsAgree, Inner.jobsOf, Routed, h.sessionJobs, h.jobRoutes]
  have hinflight : InflightAgree a ↔ InflightAgree b := by
    simp only [InflightAgree, Inner.inflightOf, h.backendInflight, h.jobRoutes]
  exact ⟨fun ha => ⟨hjobs.mp ha.jobs, hinflight.mp ha.inflight⟩,
    fun hb => ⟨hjobs.mpr hb.jobs, hinflight.mpr hb.inflight⟩⟩

theorem jobsOf_insertRoute (inner : Inner) (jobId : String) (route : JobRoute) (session : String) :
    (insertRoute inner jobId route).jobsOf session =
      if session = route.clientSessionId then insert jobId (inner.jobsOf session)
      else inner.jobsOf session := by
  unfold Inner.jobsOf insertRoute
  by_cases hsession : session = route.clientSessionId
  · rw [if_pos hsession, hsession, OrderedMap.lookup_insert]
    rfl
  · rw [if_neg hsession, OrderedMap.lookup_insert_ne _ _ _ _ hsession]

theorem inflightOf_insertRoute (route : JobRoute) (backend : String) :
    (insertRoute inner jobId route).inflightOf backend =
      if backend = route.backendId then insert route.clientSessionId (inner.inflightOf backend)
      else inner.inflightOf backend := by
  unfold Inner.inflightOf insertRoute
  by_cases hbackend : backend = route.backendId
  · rw [if_pos hbackend, hbackend, OrderedMap.lookup_insert]
    rfl
  · rw [if_neg hbackend, OrderedMap.lookup_insert_ne _ _ _ _ hbackend]

theorem lookup_insertRoute (inner : Inner) (jobId : String) (route : JobRoute) (job : String) :
    (insertRoute inner jobId route).jobRoutes.lookup job =
      if job = jobId then some route else inner.jobRoutes.lookup job := by
  unfold insertRoute
  by_cases hjob : job = jobId
  · rw [if_pos hjob, hjob, OrderedMap.lookup_insert]
  · rw [if_neg hjob, OrderedMap.lookup_insert_ne _ _ _ _ hjob]

/-- A bind keeps the jobs of the sessions exactly if the job was not routed to
    another session: that one keeps it in its index. -/
theorem jobsAgree_insertRoute_iff (inner : Inner) (h : JobsAgree inner) (jobId : String)
    (route : JobRoute) :
    JobsAgree (insertRoute inner jobId route) ↔
      ∀ old, inner.jobRoutes.lookup jobId = some old →
        old.clientSessionId = route.clientSessionId := by
  constructor
  · -- Otherwise the old session has the job in its index, and no route of it.
    intro hafter old hold
    by_contra hne
    have hmem : jobId ∈ (insertRoute inner jobId route).jobsOf old.clientSessionId := by
      rw [jobsOf_insertRoute, if_neg hne]
      exact (h old.clientSessionId jobId).mpr ⟨old, hold, rfl⟩
    rcases (hafter old.clientSessionId jobId).mp hmem with ⟨r, hr, hsession⟩
    rw [lookup_insertRoute, if_pos rfl, Option.some.injEq] at hr
    exact hne (hsession.symm.trans (congrArg JobRoute.clientSessionId hr).symm)
  · intro hsame session job
    rw [jobsOf_insertRoute]
    unfold Routed
    rw [lookup_insertRoute]
    by_cases hjob : job = jobId
    · subst hjob
      simp only [if_true, Option.some.injEq, exists_eq_left']
      by_cases hsession : session = route.clientSessionId
      · rw [if_pos hsession]
        exact iff_of_true (Finset.mem_insert_self _ _) hsession.symm
      · -- Another session did not have the job, since it had this one's route.
        rw [if_neg hsession, h session job]
        refine iff_of_false ?_ (fun heq => hsession heq.symm)
        rintro ⟨old, hold, hs⟩
        exact hsession (hs.symm.trans (hsame old hold))
    · rw [if_neg hjob, ← Routed, ← h session job]
      split
      · rw [Finset.mem_insert]
        exact or_iff_right hjob
      · exact Iff.rfl

/-- A bind keeps the sessions in flight exactly if the route it replaces is
    the same one, or is not the last one of its session to its backend. -/
theorem inflightAgree_insertRoute_iff (inner : Inner) (h : InflightAgree inner) (jobId : String)
    (route : JobRoute) :
    InflightAgree (insertRoute inner jobId route) ↔
      ∀ old, inner.jobRoutes.lookup jobId = some old →
        (old.clientSessionId = route.clientSessionId ∧ old.backendId = route.backendId) ∨
        CoveredWithout inner [jobId] old := by
  constructor
  · intro hafter old hold
    have hmem :
        old.clientSessionId ∈ (insertRoute inner jobId route).inflightOf old.backendId := by
      have hbefore : old.clientSessionId ∈ inner.inflightOf old.backendId :=
        (h old.backendId old.clientSessionId).mpr ⟨jobId, old, hold, rfl, rfl⟩
      rw [inflightOf_insertRoute]
      split
      · exact Finset.mem_insert_of_mem hbefore
      · exact hbefore
    rcases (hafter old.backendId old.clientSessionId).mp hmem with ⟨job, r, hr, hs, hb⟩
    rw [lookup_insertRoute] at hr
    by_cases hjob : job = jobId
    · rw [if_pos hjob, Option.some.injEq] at hr
      rw [← hr] at hs hb
      exact .inl ⟨hs.symm, hb.symm⟩
    · rw [if_neg hjob] at hr
      exact .inr ⟨job, r, by rw [List.mem_singleton]; exact hjob, hr, hs, hb⟩
  · intro hcovered backend session
    rw [inflightOf_insertRoute]
    constructor
    · intro hmem
      -- The session is the new one, or it was in flight by some old route.
      have hcases : (session = route.clientSessionId ∧ backend = route.backendId) ∨
          session ∈ inner.inflightOf backend := by
        split at hmem
        · next hbackend =>
            rcases Finset.mem_insert.mp hmem with hs | hmem
            · exact .inl ⟨hs, hbackend⟩
            · exact .inr hmem
        · exact .inr hmem
      rcases hcases with ⟨hs, hb⟩ | hmem
      · exact ⟨jobId, route, by rw [lookup_insertRoute, if_pos rfl], hs.symm, hb.symm⟩
      · rcases (h backend session).mp hmem with ⟨job, old, hold, hs, hb⟩
        by_cases hjob : job = jobId
        · subst hjob
          rcases hcovered old hold with ⟨hs', hb'⟩ | ⟨job', other, hjob', hother, hs', hb'⟩
          · exact ⟨job, route, by rw [lookup_insertRoute, if_pos rfl], hs'.symm.trans hs,
              hb'.symm.trans hb⟩
          · rw [List.mem_singleton] at hjob'
            exact ⟨job', other, by rw [lookup_insertRoute, if_neg hjob']; exact hother,
              hs'.trans hs, hb'.trans hb⟩
        · exact ⟨job, old, by rw [lookup_insertRoute, if_neg hjob]; exact hold, hs, hb⟩
    · rintro ⟨job, r, hr, hs, hb⟩
      rw [lookup_insertRoute] at hr
      by_cases hjob : job = jobId
      · rw [if_pos hjob, Option.some.injEq] at hr
        rw [← hs, ← hb, hr, if_pos rfl]
        exact Finset.mem_insert_self _ _
      · rw [if_neg hjob] at hr
        have hmem := (h backend session).mpr ⟨job, r, hr, hs, hb⟩
        split
        · exact Finset.mem_insert_of_mem hmem
        · exact hmem

/-- What a bind does to the indexes. -/
theorem agree_insertRoute_iff (h : Agree inner) (jobId : String) (route : JobRoute) :
    Agree (insertRoute inner jobId route) ↔
      ∀ old, inner.jobRoutes.lookup jobId = some old →
        old.clientSessionId = route.clientSessionId ∧
        (old.backendId = route.backendId ∨ CoveredWithout inner [jobId] old) := by
  constructor
  · intro hafter old hold
    have hs := (jobsAgree_insertRoute_iff inner h.jobs jobId route).mp hafter.jobs old hold
    refine ⟨hs, ?_⟩
    rcases (inflightAgree_insertRoute_iff inner h.inflight jobId route).mp hafter.inflight old hold
      with hsame | hcovered
    · exact .inl hsame.2
    · exact .inr hcovered
  · intro hcond
    refine ⟨(jobsAgree_insertRoute_iff inner h.jobs jobId route).mpr
      (fun old hold => (hcond old hold).1), ?_⟩
    refine (inflightAgree_insertRoute_iff inner h.inflight jobId route).mpr (fun old hold => ?_)
    rcases hcond old hold with ⟨hs, hb | hcovered⟩
    · exact .inl ⟨hs, hb⟩
    · exact .inr hcovered

/-! ## Routes that go -/

theorem lookup_forgetJob (jobId job : String) : (forgetJob inner jobId).jobRoutes.lookup job =
      if job = jobId then none else inner.jobRoutes.lookup job :=
  OrderedMap.lookup_erase inner.jobRoutes jobId job

/-- Forgetting a job keeps the jobs of the sessions. -/
theorem jobsAgree_forgetJob (h : JobsAgree inner) (jobId : String) :
    JobsAgree (forgetJob inner jobId) := by
  intro session job
  have hbefore := h session job
  unfold Routed at hbefore ⊢
  rw [lookup_forgetJob]
  unfold Inner.jobsOf at hbefore ⊢
  unfold forgetJob
  cases hroute : inner.jobRoutes.lookup jobId with
  | none =>
      simp only
      rw [hbefore]
      by_cases hjob : job = jobId
      · rw [if_pos hjob, hjob, hroute]
      · rw [if_neg hjob]
  | some route =>
      simp only [OrderedMap.lookup_modify]
      by_cases hsession : session = route.clientSessionId
      · -- The index of the session the route names loses the job.
        rw [if_pos hsession]
        have herase : job ∈ ((inner.sessionJobs.lookup session).map
            (fun jobs => jobs.erase jobId)).getD ∅ ↔
            job ≠ jobId ∧ job ∈ (inner.sessionJobs.lookup session).getD ∅ := by
          cases inner.sessionJobs.lookup session with
          | none => simp only [Option.map_none, Option.getD_none, Finset.notMem_empty, and_false]
          | some jobs => simp [Finset.mem_erase]
        rw [herase, hbefore]
        by_cases hjob : job = jobId
        · rw [if_pos hjob]
          refine iff_of_false (fun hne => hne.1 hjob) ?_
          rintro ⟨r, hr, -⟩
          cases hr
        · rw [if_neg hjob]
          exact and_iff_right hjob
      · -- The other sessions did not have the job.
        rw [if_neg hsession, hbefore]
        by_cases hjob : job = jobId
        · rw [if_pos hjob, hjob, hroute]
          refine iff_of_false ?_ ?_
          · rintro ⟨r, hr, hs⟩
            cases hr
            exact hsession hs.symm
          · rintro ⟨r, hr, -⟩
            cases hr
        · rw [if_neg hjob]

theorem lookup_forgetAll (job : String) : (jobs.foldl forgetJob inner).jobRoutes.lookup job =
      if job ∈ jobs then none else inner.jobRoutes.lookup job := by
  induction jobs generalizing inner with
  | nil => rfl
  | cons first jobs ih =>
      rw [List.foldl_cons, ih, lookup_forgetJob]
      by_cases hjobs : job ∈ jobs
      · rw [if_pos hjobs, if_pos (List.mem_cons_of_mem first hjobs)]
      · rw [if_neg hjobs]
        by_cases hfirst : job = first
        · rw [if_pos hfirst, if_pos (hfirst ▸ List.mem_cons_self)]
        · rw [if_neg hfirst, if_neg]
          rw [List.mem_cons, not_or]
          exact ⟨hfirst, hjobs⟩

theorem jobsAgree_forgetAll (h : JobsAgree inner) (jobs : List String) :
    JobsAgree (jobs.foldl forgetJob inner) := by
  induction jobs generalizing inner with
  | nil => exact h
  | cons first jobs ih => exact ih _ (jobsAgree_forgetJob inner h first)

theorem inflightOf_forgetAll (inner : Inner) (jobs : List String) (backend : String) :
    (jobs.foldl forgetJob inner).inflightOf backend = inner.inflightOf backend := by
  induction jobs generalizing inner with
  | nil => rfl
  | cons first jobs ih =>
      rw [List.foldl_cons, ih]
      rfl

/-- Forgetting jobs keeps the indexes exactly if every route that goes leaves
    another one of its session to its backend. -/
theorem agree_forgetAll_iff (inner : Inner) (h : Agree inner) (jobs : List String) :
    Agree (jobs.foldl forgetJob inner) ↔
      ∀ job ∈ jobs, ∀ old, inner.jobRoutes.lookup job = some old →
        CoveredWithout inner jobs old := by
  constructor
  · -- The index still has the session, so some route is left.
    intro hafter job hjob old hold
    have hmem : old.clientSessionId ∈ (jobs.foldl forgetJob inner).inflightOf old.backendId := by
      rw [inflightOf_forgetAll]
      exact (h.inflight old.backendId old.clientSessionId).mpr ⟨job, old, hold, rfl, rfl⟩
    rcases (hafter.inflight old.backendId old.clientSessionId).mp hmem with
      ⟨job', other, hother, hs, hb⟩
    rw [lookup_forgetAll] at hother
    split at hother
    · cases hother
    · next hjob' => exact ⟨job', other, hjob', hother, hs, hb⟩
  · intro hcovered
    refine ⟨jobsAgree_forgetAll inner h.jobs jobs, fun backend session => ?_⟩
    rw [inflightOf_forgetAll, h.inflight backend session]
    constructor
    · rintro ⟨job, old, hold, hs, hb⟩
      by_cases hjob : job ∈ jobs
      · rcases hcovered job hjob old hold with ⟨job', other, hjob', hother, hs', hb'⟩
        exact ⟨job', other, by rw [lookup_forgetAll, if_neg hjob']; exact hother,
          hs'.trans hs, hb'.trans hb⟩
      · exact ⟨job, old, by rw [lookup_forgetAll, if_neg hjob]; exact hold, hs, hb⟩
    · rintro ⟨job, old, hold, hs, hb⟩
      rw [lookup_forgetAll] at hold
      split at hold
      · cases hold
      · exact ⟨job, old, hold, hs, hb⟩

theorem lookup_forgetClient (inner : Inner) (sessionId job : String) :
    (forgetClient inner sessionId).jobRoutes.lookup job =
      (inner.jobRoutes.lookup job).filter (fun route => route.clientSessionId ≠ sessionId) :=
  OrderedMap.lookup_filter inner.jobRoutes (fun route => route.clientSessionId ≠ sessionId) job

theorem jobsOf_forgetClient (inner : Inner) (sessionId session : String) :
    (forgetClient inner sessionId).jobsOf session =
      if session = sessionId then ∅ else inner.jobsOf session := by
  have hlookup : (forgetClient inner sessionId).sessionJobs.lookup session =
      if session = sessionId then none else inner.sessionJobs.lookup session :=
    OrderedMap.lookup_erase inner.sessionJobs sessionId session
  unfold Inner.jobsOf
  rw [hlookup]
  split
  · rfl
  · rfl

theorem inflightOf_forgetClient (inner : Inner) (sessionId backend : String) :
    (forgetClient inner sessionId).inflightOf backend =
      (inner.inflightOf backend).erase sessionId := by
  have hlookup : (forgetClient inner sessionId).backendInflight.lookup backend =
      (inner.backendInflight.lookup backend).map (fun sessions => sessions.erase sessionId) :=
    OrderedMap.lookup_mapValues _ inner.backendInflight backend
  unfold Inner.inflightOf
  rw [hlookup]
  cases inner.backendInflight.lookup backend with
  | none => rfl
  | some sessions => rfl

/-- A route that is left when a session goes is a route of another session. -/
theorem lookup_forgetClient_eq_some (inner : Inner) (sessionId job : String) (route : JobRoute) :
    (forgetClient inner sessionId).jobRoutes.lookup job = some route ↔
      inner.jobRoutes.lookup job = some route ∧ route.clientSessionId ≠ sessionId := by
  rw [lookup_forgetClient, Option.filter_eq_some_iff, decide_eq_true_eq]

/-- When a session goes, it goes from all indexes. -/
theorem agree_forgetClient (inner : Inner) (h : Agree inner) (sessionId : String) :
    Agree (forgetClient inner sessionId) := by
  constructor
  · intro session job
    rw [jobsOf_forgetClient]
    unfold Routed
    simp only [lookup_forgetClient_eq_some]
    by_cases hsession : session = sessionId
    · rw [if_pos hsession]
      refine iff_of_false (Finset.notMem_empty job) ?_
      rintro ⟨route, ⟨-, hne⟩, hs⟩
      exact hne (hs.trans hsession)
    · rw [if_neg hsession, h.jobs session job]
      constructor
      · rintro ⟨route, hroute, hs⟩
        exact ⟨route, ⟨hroute, fun heq => hsession (hs.symm.trans heq)⟩, hs⟩
      · rintro ⟨route, ⟨hroute, -⟩, hs⟩
        exact ⟨route, hroute, hs⟩
  · intro backend session
    rw [inflightOf_forgetClient, Finset.mem_erase, h.inflight backend session]
    simp only [lookup_forgetClient_eq_some]
    constructor
    · rintro ⟨hne, job, route, hroute, hs, hb⟩
      exact ⟨job, route, ⟨hroute, fun heq => hne (hs.symm.trans heq)⟩, hs, hb⟩
    · rintro ⟨job, route, ⟨hroute, hne⟩, hs, hb⟩
      exact ⟨fun heq => hne (hs.trans heq), job, route, hroute, hs, hb⟩

/-- What a bind makes of the routes: nothing, or one more. -/
theorem step_bindJobRoute (jobId sessionId backend tool : String) (parentJobId : Option String)
    (now : Clock) :
    (AtCap inner sessionId ∧
      step display inner (.bindJobRoute jobId sessionId backend tool parentJobId now) = inner) ∨
    (¬ AtCap inner sessionId ∧ SameRoutes
      (step display inner (.bindJobRoute jobId sessionId backend tool parentJobId now))
      (insertRoute inner jobId ⟨sessionId, backend, tool, now.utc, parentJobId⟩)) := by
  by_cases hcap : AtCap inner sessionId
  · refine .inl ⟨hcap, ?_⟩
    unfold AtCap at hcap
    simp only [step, bindJobRoute, if_pos hcap]
  · refine .inr ⟨hcap, ?_⟩
    unfold AtCap at hcap
    simp only [step, bindJobRoute, if_neg hcap]
    exact sameRoutes_flush display _ backend now.instant

/-- A step keeps the indexes exactly if it meets the condition. -/
theorem agree_step_iff (op : RouteOp) (h : Agree inner) :
    Agree (step display inner op) ↔ Repairs inner op := by
  cases op with
  | bindJobRoute jobId sessionId backend tool parentJobId now =>
      rcases step_bindJobRoute display inner jobId sessionId backend tool parentJobId now with
        ⟨hcap, hstep⟩ | ⟨hcap, hstep⟩
      · rw [hstep]
        exact iff_of_true h (.inl hcap)
      · rw [SameRoutes.agree_iff _ _ hstep, agree_insertRoute_iff inner h]
        exact (or_iff_right hcap).symm
  | bindRequestToJob requestId jobId => exact iff_of_true ⟨h.jobs, h.inflight⟩ trivial
  | forgetJob jobId =>
      have hall := agree_forgetAll_iff inner h [jobId]
      simp only [List.foldl_cons, List.foldl_nil, List.mem_singleton, forall_eq] at hall
      exact hall
  | forgetClient sessionId => exact iff_of_true (agree_forgetClient inner h sessionId) trivial
  | runRouteGcOnce utc =>
      simp only [step, runRouteGcOnce, Repairs]
      by_cases httl : inner.routeTtl = 0
      · rw [if_pos httl]
        exact iff_of_true h (.inl httl)
      · rw [if_neg httl, agree_forgetAll_iff inner h (staleJobs inner utc)]
        exact (or_iff_right httl).symm

/-! ## Requests -/

/-- A request is bound to a job that has a route, or to none. -/
def Points (inner : Inner) (request job : String) : Prop :=
  ∀ bound, inner.requestToJob.lookup request = some bound →
    bound = job ∧ (inner.jobRoutes.lookup job).isSome = true

theorem points_forgetJob (request job jobId : String) (h : Points inner request job) :
    Points (forgetJob inner jobId) request job := by
  intro bound hbound
  have hlookup : (forgetJob inner jobId).requestToJob.lookup request =
      (inner.requestToJob.lookup request).filter (fun j => j ≠ jobId) :=
    OrderedMap.lookup_filter inner.requestToJob _ request
  rw [hlookup, Option.filter_eq_some_iff, decide_eq_true_eq] at hbound
  rcases h bound hbound.1 with ⟨rfl, hlive⟩
  refine ⟨rfl, ?_⟩
  rw [lookup_forgetJob, if_neg hbound.2]
  exact hlive

theorem points_forgetAll (request job : String) (jobs : List String)
    (h : Points inner request job) : Points (jobs.foldl forgetJob inner) request job := by
  induction jobs generalizing inner with
  | nil => exact h
  | cons first jobs ih => exact ih _ (points_forgetJob inner request job first h)

/-- When a session goes, the requests of its jobs go with it. -/
theorem points_forgetClient (request job sessionId : String) (h : Points inner request job) :
    Points (forgetClient inner sessionId) request job := by
  intro bound hbound
  have hlookup : (forgetClient inner sessionId).requestToJob.lookup request =
      (inner.requestToJob.lookup request).filter
        (fun j => !(forgetClientJobRoutes inner sessionId).1.contains j) :=
    OrderedMap.lookup_filter inner.requestToJob _ request
  rw [hlookup, Option.filter_eq_some_iff, Bool.not_eq_true', List.contains_eq_mem,
    decide_eq_false_iff_not] at hbound
  rcases h bound hbound.1 with ⟨rfl, hlive⟩
  refine ⟨rfl, ?_⟩
  rcases Option.isSome_iff_exists.mp hlive with ⟨route, hroute⟩
  rw [(lookup_forgetClient_eq_some inner sessionId bound route).mpr, Option.isSome_some]
  refine ⟨hroute, fun hsession => hbound.2 ?_⟩
  -- The job would be among those that were dropped.
  refine List.mem_map.mpr ⟨(bound, route), List.mem_filter.mpr ⟨?_, ?_⟩, rfl⟩
  · exact OrderedMap.mem_entries inner.jobRoutes bound route hroute
  · exact decide_eq_true hsession

theorem points_step (display : Json.Value → String) (inner : Inner) (op : RouteOp)
    (request job : String) (hop : op.binds request = false) (h : Points inner request job) :
    Points (step display inner op) request job := by
  cases op with
  | bindJobRoute jobId sessionId backend tool parentJobId now =>
      rcases step_bindJobRoute display inner jobId sessionId backend tool parentJobId now with
        ⟨-, hstep⟩ | ⟨-, hstep⟩
      · rw [hstep]
        exact h
      · -- A bind takes no route away.
        intro bound hbound
        rw [hstep.requestToJob] at hbound
        rw [hstep.jobRoutes, lookup_insertRoute]
        rcases h bound hbound with ⟨hjob, hlive⟩
        refine ⟨hjob, ?_⟩
        split
        · rfl
        · exact hlive
  | bindRequestToJob requestId jobId =>
      intro bound hbound
      have hne : request ≠ requestId := by
        rintro rfl
        simp [RouteOp.binds] at hop
      simp only [step, bindRequestToJob] at hbound
      rw [OrderedMap.lookup_insert_ne _ _ _ _ hne] at hbound
      exact h bound hbound
  | forgetJob jobId => exact points_forgetJob inner request job jobId h
  | forgetClient sessionId => exact points_forgetClient inner request job sessionId h
  | runRouteGcOnce utc =>
      simp only [step, runRouteGcOnce]
      split
      · exact h
      · exact points_forgetAll inner request job _ h

theorem points_after (ops : List RouteOp) (request job : String)
    (hops : ∀ op ∈ ops, op.binds request = false)
    (h : Points inner request job) : Points (after display inner ops) request job := by
  induction ops generalizing inner with
  | nil => exact h
  | cons op ops ih =>
      exact ih _ (fun op' hop' => hops op' (List.mem_cons_of_mem op hop'))
        (points_step display inner op request job (hops op List.mem_cons_self) h)

/-- Requests point to live routes in every run. -/
theorem requestsLive_run (ops : List RouteOp) : RequestsLive display inner ops := by
  rintro before request job rest rfl hlive hrest bound hbound
  unfold after at hlive hbound ⊢
  rw [List.foldl_append, List.foldl_cons] at hbound ⊢
  have hstart : Points (bindRequestToJob (before.foldl (step display) inner) request job)
      request job := by
    intro bound' hbound'
    simp only [bindRequestToJob] at hbound'
    rw [OrderedMap.lookup_insert, Option.some.injEq] at hbound'
    exact ⟨hbound'.symm, hlive⟩
  rcases points_after display _ rest request job hrest hstart bound hbound with ⟨rfl, hroute⟩
  exact ⟨rfl, hroute⟩

/-! ## The cap -/

/-- The index of a session has all its jobs, and no more than the cap. -/
structure CapInvariant (inner : Inner) : Prop where
  routed : ∀ session job, Routed inner session job → job ∈ inner.jobsOf session
  card : 0 < inner.maxRoutesPerSession →
    ∀ session, (inner.jobsOf session).card ≤ inner.maxRoutesPerSession

theorem capInvariant_forgetJob (h : CapInvariant inner) : CapInvariant (forgetJob inner jobId) := by
  -- An index loses at most the job.
  have hjobs : ∀ session, (forgetJob inner jobId).jobsOf session = inner.jobsOf session ∨
      (forgetJob inner jobId).jobsOf session = (inner.jobsOf session).erase jobId := by
    intro session
    unfold Inner.jobsOf forgetJob
    cases inner.jobRoutes.lookup jobId with
    | none => exact .inl rfl
    | some route =>
        simp only [OrderedMap.lookup_modify]
        split
        · cases inner.sessionJobs.lookup session with
          | none => exact .inl rfl
          | some jobs => exact .inr rfl
        · exact .inl rfl
  constructor
  · rintro session job ⟨route, hroute, hs⟩
    rw [lookup_forgetJob] at hroute
    split at hroute
    · cases hroute
    · next hne =>
        have hmem := h.routed session job ⟨route, hroute, hs⟩
        rcases hjobs session with heq | heq
        · rw [heq]
          exact hmem
        · rw [heq]
          exact Finset.mem_erase.mpr ⟨hne, hmem⟩
  · intro hcap session
    have hcard := h.card hcap session
    rcases hjobs session with heq | heq
    · rw [heq]
      exact hcard
    · rw [heq]
      exact le_trans (Finset.card_le_card (Finset.erase_subset jobId _)) hcard

theorem capInvariant_forgetAll (h : CapInvariant inner) :
    CapInvariant (jobs.foldl forgetJob inner) := by
  induction jobs generalizing inner with
  | nil => exact h
  | cons first jobs ih => exact ih _ (capInvariant_forgetJob inner first h)

theorem capInvariant_step (display : Json.Value → String) (inner : Inner) (op : RouteOp)
    (h : CapInvariant inner) : CapInvariant (step display inner op) := by
  cases op with
  | bindJobRoute jobId sessionId backend tool parentJobId now =>
      rcases step_bindJobRoute display inner jobId sessionId backend tool parentJobId now with
        ⟨-, hstep⟩ | ⟨hcap, hstep⟩
      · rw [hstep]
        exact h
      · generalize step display inner
          (.bindJobRoute jobId sessionId backend tool parentJobId now) = next at hstep
        have hjobs : ∀ session, next.jobsOf session =
            if session = sessionId then insert jobId (inner.jobsOf session)
            else inner.jobsOf session := by
          intro session
          rw [← jobsOf_insertRoute inner jobId
            ⟨sessionId, backend, tool, now.utc, parentJobId⟩]
          unfold Inner.jobsOf
          rw [hstep.sessionJobs]
        constructor
        · rintro session job ⟨route, hroute, hs⟩
          rw [hstep.jobRoutes, lookup_insertRoute] at hroute
          rw [hjobs]
          by_cases hjob : job = jobId
          · rw [if_pos hjob, Option.some.injEq] at hroute
            rw [← hs, ← hroute, if_pos rfl, hjob]
            exact Finset.mem_insert_self _ _
          · rw [if_neg hjob] at hroute
            have hmem := h.routed session job ⟨route, hroute, hs⟩
            split
            · exact Finset.mem_insert_of_mem hmem
            · exact hmem
        · intro hpos session
          rw [hstep.maxRoutesPerSession] at hpos ⊢
          rw [hjobs]
          have hcard := h.card hpos session
          split
          · next hsession =>
              -- The cap let the bind through, so there was room for one more.
              have hroom : (inner.jobsOf session).card < inner.maxRoutesPerSession := by
                rw [hsession]
                exact not_le.mp (fun hle => hcap ⟨hpos, hle⟩)
              exact le_trans (Finset.card_insert_le jobId _) hroom
          · exact hcard
  | bindRequestToJob requestId jobId => exact ⟨h.routed, h.card⟩
  | forgetJob jobId => exact capInvariant_forgetJob inner jobId h
  | forgetClient sessionId =>
      constructor
      · rintro session job ⟨route, hroute, hs⟩
        simp only [step] at hroute ⊢
        rcases (lookup_forgetClient_eq_some inner sessionId job route).mp hroute with ⟨hold, hne⟩
        rw [jobsOf_forgetClient, if_neg (fun heq => hne (hs.trans heq))]
        exact h.routed session job ⟨route, hold, hs⟩
      · intro hpos session
        simp only [step]
        rw [jobsOf_forgetClient]
        split
        · exact Nat.zero_le _
        · exact h.card hpos session
  | runRouteGcOnce utc =>
      simp only [step, runRouteGcOnce]
      split
      · exact h
      · exact capInvariant_forgetAll inner _ h

/-- What is in the index is enough to bound the routes. -/
theorem withinCap_of_capInvariant (h : CapInvariant inner) : WithinCap inner := by
  intro hpos session
  refine le_trans ?_ (h.card hpos session)
  let keys := (inner.jobRoutes.entries.filter (fun e => e.2.clientSessionId = session)).map Prod.fst
  have hnodup : keys.Nodup :=
    inner.jobRoutes.nodup_keys.sublist (List.filter_sublist.map Prod.fst)
  have hsubset : keys.toFinset ⊆ inner.jobsOf session := by
    intro job hjob
    rcases List.mem_map.mp (List.mem_toFinset.mp hjob) with ⟨e, he, rfl⟩
    rcases List.mem_filter.mp he with ⟨hmem, hs⟩
    exact h.routed session e.1
      ⟨e.2, OrderedMap.lookup_of_mem inner.jobRoutes e.1 e.2 hmem, of_decide_eq_true hs⟩
  have hlength : liveRoutes inner session = keys.toFinset.card := by
    rw [List.toFinset_card_of_nodup hnodup, List.length_map, liveRoutes]
  rw [hlength]
  exact Finset.card_le_card hsubset

theorem capInvariant_withLimits (routeTtl cap : Nat) : CapInvariant (withLimits routeTtl cap) := by
  constructor
  · rintro session job ⟨route, hroute, -⟩
    cases hroute
  · intro _ session
    exact Nat.zero_le _

theorem withinCap_run (routeTtl cap : Nat) (ops : List RouteOp) :
    WithinCap (after display (withLimits routeTtl cap) ops) := by
  refine withinCap_of_capInvariant _ ?_
  refine Machine.exec_invariant (Machine.total (step display)) CapInvariant ?_
    (withLimits routeTtl cap) _ ops (capInvariant_withLimits routeTtl cap)
    (Machine.exec_total (step display) _ ops)
  intro inner op next hinv hstep
  cases hstep
  exact capInvariant_step display inner op hinv

theorem agree_withLimits (routeTtl cap : Nat) : Agree (withLimits routeTtl cap) := by
  constructor
  · intro session job
    refine iff_of_false (Finset.notMem_empty job) ?_
    rintro ⟨route, hroute, -⟩
    cases hroute
  · intro backend session
    refine iff_of_false (Finset.notMem_empty session) ?_
    rintro ⟨job, route, hroute, -⟩
    cases hroute

/-- The routing indexes agree in every state of a run, requests that were
    bound after their routes point to live ones and no session is over the
    cap, exactly if no step of the run needs a repair that is missing. -/
theorem routing_indexes_agree (display : Json.Value → String) (routeTtl cap : Nat)
    (ops : List RouteOp) :
    (∀ before, before <+: ops →
      Agree (after display (withLimits routeTtl cap) before) ∧
      RequestsLive display (withLimits routeTtl cap) before ∧
      WithinCap (after display (withLimits routeTtl cap) before)) ↔
    Machine.Along (Machine.total (step display)) Repairs (withLimits routeTtl cap) ops := by
  rw [← Machine.along_total_iff (step display) Repairs Agree Agree (withLimits routeTtl cap) ops
    (fun _ h => h) (fun inner op _ h => (agree_step_iff display inner op h).mpr)
    (fun inner op _ h => (agree_step_iff display inner op h).mp) (agree_withLimits routeTtl cap)]
  constructor
  · intro h before hbefore
    exact (h before hbefore).1
  · intro h before hbefore
    exact ⟨h before hbefore, requestsLive_run display _ before,
      withinCap_run display routeTtl cap before⟩

/-- The state of a gateway with one route, from session `a` to backend `x`. -/
def oneRoute : Inner :=
  insertRoute (withLimits 1 1) "job" ⟨"a", "x", "render", 0, none⟩

theorem lookup_oneRoute (job : String) (route : JobRoute)
    (h : oneRoute.jobRoutes.lookup job = some route) : job = "job" := by
  by_contra hne
  rw [oneRoute, lookup_insertRoute, if_neg hne] at h
  cases h

/-- A job that is forgotten leaves its session in flight, and a job that is
    bound again to another session stays in the index of the first. -/
theorem routing_indexes_disagree :
    ¬ Agree (after (fun _ => "") (withLimits 1 1)
      [.bindJobRoute "job" "a" "x" "render" none ⟨0, 0⟩, .forgetJob "job"]) ∧
    ¬ Agree (after (fun _ => "") (withLimits 1 1)
      [.bindJobRoute "job" "a" "x" "render" none ⟨0, 0⟩,
        .bindJobRoute "job" "b" "x" "render" none ⟨0, 0⟩]) := by
  have hbind : step (fun _ => "") (withLimits 1 1)
      (.bindJobRoute "job" "a" "x" "render" none ⟨0, 0⟩) = oneRoute := rfl
  have hagree : Agree oneRoute := by
    refine (agree_insertRoute_iff _ (agree_withLimits 1 1) _ _).mpr (fun old hold => ?_)
    cases hold
  constructor
  · intro h
    rw [after, List.foldl_cons, hbind] at h
    rcases (agree_step_iff (fun _ => "") oneRoute (.forgetJob "job") hagree).mp h
      ⟨"a", "x", "render", 0, none⟩ rfl with ⟨job, other, hjob, hother, -⟩
    exact hjob (List.mem_singleton.mpr (lookup_oneRoute job other hother))
  · intro h
    rw [after, List.foldl_cons, hbind] at h
    rcases (agree_step_iff (fun _ => "") oneRoute
      (.bindJobRoute "job" "b" "x" "render" none ⟨0, 0⟩) hagree).mp h with hcap | hrepairs
    · exact absurd hcap.2 (by decide)
    · exact absurd (hrepairs ⟨"a", "x", "render", 0, none⟩ rfl).1 (by decide)

end Gateway

end DccMcp
