import DccMcp.Gateway.Routes

/-!
# Job Notifications

A notification of a job that is routed to a session has one place to go: the
sink of that session, now. `deliver` gets there unless the notification has a
terminal status. Then it evicts the route first and looks for the target
second, finds none, and puts the one notification nobody else will repeat into
the buffer.

What a session is owed is watched from outside: `Watch` numbers the
notifications as the backends emit them and keeps those of one job that were
emitted while the job was routed to the session. Everything else that reaches
the sink has another number. It was in a buffer, or it is being emitted now
and is not owed. So the invariant is about numbers alone: what waits in the
buffers is never something that is owed, and what is sent from there leaves
the order of the owed notifications in the sink as it is.

## Main definitions

* `Op`, `applyOp`: The operations, with `deliver`.
* `Watch`, `owes`, `next`: What is owed to a session, step by step.
* `Delivered`: What is owed is in the sink, once and in order.
* `KeepsRoute`: No notification that is owed evicts its own route.

## Theorems

* `notifications_reach_owner`: Runs that deliver what they owe.
-/

namespace DccMcp

namespace Gateway

open Json

/-- The operations on the manager. -/
inductive Op
  | route (op : RouteOp)
  | bindProgressToken (token : Value) (sessionId : String)
  | deliver (backend : String) (now : Nat) (value : Value)

def Op.delivers : Op → Bool
  | .deliver _ _ _ => true
  | _ => false

/-- One operation. The notification of a `deliver` gets the next number. -/
def applyOp (display : Value → String) (inner : Inner) (emitted : Nat) : Op → Inner
  | .route op => step display inner op
  | .bindProgressToken token sessionId => bindProgressToken display inner token sessionId
  | .deliver backend now value => deliver display inner backend now ⟨emitted, value⟩

/-- What the sink of a session was sent. -/
def Inner.sentTo (inner : Inner) (session : String) : List Notice :=
  (inner.clientSinks.lookup session).getD []

/-- A manager under watch: how many notifications were emitted, and which of
    them are owed. -/
structure Watch where
  inner : Inner
  emitted : Nat
  owed : List Notice

/-- A notification is owed to a session if its job is routed there. -/
def owes (inner : Inner) (session job : String) (value : Value) : Bool :=
  jobIdForJobNotification value == some job &&
    (inner.jobRoutes.lookup job).map JobRoute.clientSessionId == some session

/-- One operation under watch. -/
def next (display : Value → String) (session job : String) (w : Watch) (op : Op) : Watch :=
  let inner := applyOp display w.inner w.emitted op
  match op with
  | .deliver _ _ value =>
    if owes w.inner session job value then
      ⟨inner, w.emitted + 1, w.owed ++ [⟨w.emitted, value⟩]⟩
    else ⟨inner, w.emitted + 1, w.owed⟩
  | _ => ⟨inner, w.emitted, w.owed⟩

/-- A number that is owed. -/
def IsOwed (w : Watch) (place : Nat) : Bool := (w.owed.map Notice.place).contains place

/-- What is owed is in the sink, once and in the order of its emission. -/
def Delivered (session : String) (w : Watch) : Prop :=
  (w.inner.sentTo session).filter (fun n => IsOwed w n.place) = w.owed

/-- No notification that is owed evicts its own route. -/
def KeepsRoute (session job : String) (w : Watch) : Op → Prop
  | .deliver _ _ value => owes w.inner session job value = true → terminalJobId value = none
  | _ => True

/-- The numbers that are in use are smaller than the next one. -/
structure Numbered (session : String) (inner : Inner) (emitted : Nat) : Prop where
  sent : ∀ n ∈ inner.sentTo session, n.place < emitted
  pending : ∀ backend, ∀ p ∈ inner.pendingOf backend, p.notice.place < emitted

/-! ## The target of a notification -/

/-- The parts of a job notification. -/
structure JobNotification (value : Value) (method : String) (params : Value) (job : String) :
    Prop where
  hasMethod : (value.get "method").bind Value.asStr = some method
  isJob : isJobMethod method = true
  hasParams : value.get "params" = some params
  hasJob : (params.get "job_id").bind Value.asStr = some job

theorem jobIdForJobNotification_iff (value : Value) (job : String) :
    jobIdForJobNotification value = some job ↔
      ∃ method params, JobNotification value method params job := by
  unfold jobIdForJobNotification
  simp only [Option.bind_eq_bind, Option.bind_eq_some_iff, Option.ite_none_right_eq_some]
  constructor
  · rintro ⟨member, hmember, method, hmethod, hjob, params, hparams, id, hid, hstr⟩
    exact ⟨method, params, Option.bind_eq_some_iff.mpr ⟨member, hmember, hmethod⟩, hjob, hparams,
      Option.bind_eq_some_iff.mpr ⟨id, hid, hstr⟩⟩
  · rintro ⟨method, params, h⟩
    rcases Option.bind_eq_some_iff.mp h.hasMethod with ⟨member, hmember, hmethod⟩
    rcases Option.bind_eq_some_iff.mp h.hasJob with ⟨id, hid, hstr⟩
    exact ⟨member, hmember, method, hmethod, h.isJob, params, h.hasParams, id, hid, hstr⟩

/-- A terminal notification is a notification of its job. -/
theorem jobId_of_terminal (value : Value) (job : String) (h : terminalJobId value = some job) :
    jobIdForJobNotification value = some job := by
  rw [jobIdForJobNotification_iff]
  unfold terminalJobId at h
  simp only [Option.bind_eq_bind, Option.bind_eq_some_iff, Option.ite_none_right_eq_some] at h
  rcases h with ⟨member, hmember, method, hmethod, hjob, params, hparams, status, -, text, -, -,
    id, hid, hstr⟩
  exact ⟨method, params, Option.bind_eq_some_iff.mpr ⟨member, hmember, hmethod⟩, hjob, hparams,
    Option.bind_eq_some_iff.mpr ⟨id, hid, hstr⟩⟩

/-- The target of a job notification is the session its route names. -/
theorem resolveTarget_job (display : Value → String) (inner : Inner) (value : Value) (job : String)
    (h : jobIdForJobNotification value = some job) :
    resolveTarget display inner value =
      (inner.jobRoutes.lookup job).map JobRoute.clientSessionId := by
  rcases (jobIdForJobNotification_iff value job).mp h with ⟨method, params, hparts⟩
  rcases Option.bind_eq_some_iff.mp hparts.hasMethod with ⟨member, hmember, hmethod⟩
  rcases Option.bind_eq_some_iff.mp hparts.hasJob with ⟨id, hid, hstr⟩
  have hprogress : method ≠ "notifications/progress" := by
    rintro rfl
    exact absurd hparts.isJob (by decide)
  simp only [resolveTarget, Option.bind_eq_bind, hmember, Option.bind_some, hmethod,
    if_neg hprogress, hparts.isJob, if_true, hparts.hasParams, hid, hstr]

/-- A job notification is no resource notification. -/
theorem method_of_jobId (value : Value) (job : String)
    (h : jobIdForJobNotification value = some job) :
    (value.get "method").bind Value.asStr ≠ some "notifications/resources/updated" := by
  rcases (jobIdForJobNotification_iff value job).mp h with ⟨method, params, hparts⟩
  rw [hparts.hasMethod]
  intro heq
  have hjob := hparts.isJob
  rw [Option.some.inj heq] at hjob
  exact absurd hjob (by decide)

/-! ## What else is sent -/

/-- An operation that only handles notices with certain numbers: the buffers
    hold no others, and the sink of the session got no others. -/
structure Kept (ok : Nat → Prop) (session : String) (sent : List Notice) (inner : Inner) :
    Prop where
  pending : ∀ backend, ∀ p ∈ inner.pendingOf backend, ok p.notice.place
  sink : (inner.clientSinks.lookup session).isSome = true
  sent : ∃ more, inner.sentTo session = sent ++ more ∧ ∀ n ∈ more, ok n.place

theorem Kept.same (ok : Nat → Prop) (session : String) (sent : List Notice) (a b : Inner)
    (hpending : b.pending = a.pending)
    (hsink : b.clientSinks.lookup session = a.clientSinks.lookup session)
    (h : Kept ok session sent a) : Kept ok session sent b where
  pending := by
    intro backend p hp
    unfold Inner.pendingOf at hp
    rw [hpending] at hp
    exact h.pending backend p hp
  sink := by
    rw [hsink]
    exact h.sink
  sent := by
    unfold Inner.sentTo
    rw [hsink]
    exact h.sent

theorem sentTo_sendTo (inner : Inner) (target session : String) (n : Notice) :
    (sendTo inner target n).sentTo session =
      if session = target ∧ (inner.clientSinks.lookup session).isSome = true then
        inner.sentTo session ++ [n]
      else inner.sentTo session := by
  unfold Inner.sentTo sendTo
  rw [OrderedMap.lookup_modify]
  cases hsink : inner.clientSinks.lookup session with
  | none => simp only [Option.map_none, ite_self, Option.isSome_none, Bool.false_eq_true, and_false,
      if_false]
  | some sent =>
      by_cases hsession : session = target
      · simp only [hsession, Option.map_some, Option.getD_some, Option.isSome_some, and_self,
          if_true]
      · simp only [hsession, Option.getD_some, false_and, if_false]

/-- Sending keeps the sinks. -/
theorem isSome_sendTo (inner : Inner) (target session : String) (n : Notice)
    (h : (inner.clientSinks.lookup session).isSome = true) :
    ((sendTo inner target n).clientSinks.lookup session).isSome = true := by
  unfold sendTo
  rw [OrderedMap.lookup_modify]
  split
  · rw [Option.isSome_map]
    exact h
  · exact h

section Kept

variable (ok : Nat → Prop) (session : String) (sent : List Notice)

theorem kept_sendTo (inner : Inner) (target : String) (n : Notice) (hn : ok n.place)
    (h : Kept ok session sent inner) : Kept ok session sent (sendTo inner target n) := by
  refine ⟨h.pending, isSome_sendTo inner target session n h.sink, ?_⟩
  rcases h.sent with ⟨more, hmore, hok⟩
  rw [sentTo_sendTo]
  split
  · refine ⟨more ++ [n], by rw [hmore, List.append_assoc], ?_⟩
    intro m hm
    rcases List.mem_append.mp hm with hm | hm
    · exact hok m hm
    · rw [List.mem_singleton.mp hm]
      exact hn
  · exact ⟨more, hmore, hok⟩

theorem pendingOf_insert (inner : Inner) (backend other : String) (buffer : List Pending) :
    { inner with pending := inner.pending.insert backend buffer }.pendingOf other =
      if other = backend then buffer else inner.pendingOf other := by
  unfold Inner.pendingOf
  by_cases hother : other = backend
  · rw [if_pos hother, hother, OrderedMap.lookup_insert]
    rfl
  · rw [if_neg hother, OrderedMap.lookup_insert_ne _ _ _ _ hother]

/-- A buffer with other notices, all of them with the right numbers. -/
theorem kept_setPending (inner : Inner) (backend : String) (buffer : List Pending)
    (hbuffer : ∀ p ∈ buffer, ok p.notice.place) (h : Kept ok session sent inner) :
    Kept ok session sent { inner with pending := inner.pending.insert backend buffer } := by
  refine ⟨fun other p hp => ?_, h.sink, h.sent⟩
  rw [pendingOf_insert] at hp
  split at hp
  · exact hbuffer p hp
  · exact h.pending other p hp

theorem kept_bufferPending (inner : Inner) (backend : String) (now : Nat) (n : Notice)
    (hn : ok n.place) (h : Kept ok session sent inner) :
    Kept ok session sent (bufferPending inner backend now n) := by
  refine kept_setPending ok session sent inner backend _ (fun p hp => ?_) h
  rcases List.mem_append.mp hp with hp | hp
  · -- What is still in the buffer was in it before.
    have hfresh : p ∈ (inner.pendingOf backend).dropWhile
        (fun p => decide (pendingBufferTtl ≤ now - p.insertedAt)) := by
      split at hp
      · exact List.mem_of_mem_tail hp
      · exact hp
    exact h.pending backend p ((List.dropWhile_suffix _).subset hfresh)
  · rw [List.mem_singleton.mp hp]
    exact hn

theorem kept_flushOne (display : Value → String) (backend : String) (inner : Inner) (p : Pending)
    (hp : ok p.notice.place) (h : Kept ok session sent inner) :
    Kept ok session sent (flushOne display backend inner p) := by
  unfold flushOne
  split
  · exact kept_sendTo ok session sent inner _ p.notice hp h
  · refine kept_setPending ok session sent inner backend _ (fun q hq => ?_) h
    rcases List.mem_append.mp hq with hq | hq
    · exact h.pending backend q hq
    · rw [List.mem_singleton.mp hq]
      exact hp

/-- A flush handles what was in the buffer. -/
theorem kept_flush (display : Value → String) (inner : Inner) (backend : String) (now : Nat)
    (h : Kept ok session sent inner) :
    Kept ok session sent (flushPendingForBackend display inner backend now) := by
  have hfold : ∀ (drained : List Pending) (i : Inner), (∀ p ∈ drained, ok p.notice.place) →
      Kept ok session sent i →
      Kept ok session sent (drained.foldl (flushOne display backend) i) := by
    intro drained
    induction drained with
    | nil => exact fun i _ hi => hi
    | cons p drained ih =>
        intro i hdrained hi
        exact ih _ (fun q hq => hdrained q (List.mem_cons_of_mem p hq))
          (kept_flushOne ok session sent display backend i p (hdrained p List.mem_cons_self) hi)
  unfold flushPendingForBackend
  split
  · refine hfold _ _ (fun p hp => ?_) (kept_setPending ok session sent inner backend [] ?_ h)
    · exact h.pending backend p (List.mem_of_mem_filter hp)
    · exact fun p hp => absurd hp List.not_mem_nil
  · exact h

theorem kept_forgetAll (inner : Inner) (jobs : List String) (h : Kept ok session sent inner) :
    Kept ok session sent (jobs.foldl forgetJob inner) := by
  induction jobs generalizing inner with
  | nil => exact h
  | cons first jobs ih => exact ih _ (Kept.same ok session sent inner _ rfl rfl h)

theorem kept_step (display : Value → String) (inner : Inner) (op : RouteOp)
    (hop : op ≠ .forgetClient session) (h : Kept ok session sent inner) :
    Kept ok session sent (step display inner op) := by
  cases op with
  | bindJobRoute jobId sessionId backend tool parentJobId now =>
      simp only [step, bindJobRoute]
      split
      · next hbind =>
          split at hbind
          · cases hbind
          · rw [← Except.ok.inj hbind]
            exact kept_flush ok session sent display _ backend now.instant
              (Kept.same ok session sent inner _ rfl rfl h)
      · exact h
  | bindRequestToJob requestId jobId => exact Kept.same ok session sent inner _ rfl rfl h
  | forgetJob jobId => exact Kept.same ok session sent inner _ rfl rfl h
  | forgetClient sessionId =>
      -- The sink of the session stays, since it is not the one that goes.
      refine Kept.same ok session sent inner _ rfl ?_ h
      have hne : session ≠ sessionId := fun heq => hop (by rw [heq])
      have hlookup : (forgetClient inner sessionId).clientSinks.lookup session =
          if session = sessionId then none else inner.clientSinks.lookup session :=
        OrderedMap.lookup_erase inner.clientSinks sessionId session
      simp only [step]
      rw [hlookup, if_neg hne]
  | runRouteGcOnce utc =>
      simp only [step, runRouteGcOnce]
      split
      · exact h
      · exact kept_forgetAll ok session sent inner _ h

/-- The first two parts of a delivery leave buffers and sinks alone. -/
theorem kept_deliverEvict (inner : Inner) (n : Notice) (h : Kept ok session sent inner) :
    Kept ok session sent (deliverEvict inner n) := by
  unfold deliverEvict
  split
  · split
    · exact Kept.same ok session sent inner _ rfl rfl h
    · exact Kept.same ok session sent inner _ rfl rfl h
  · split
    · exact Kept.same ok session sent inner _ rfl rfl h
    · exact h

theorem kept_deliverTarget (display : Value → String) (inner : Inner) (backend : String) (now : Nat)
    (n : Notice) (hn : ok n.place) (h : Kept ok session sent inner) :
    Kept ok session sent (deliverTarget display inner backend now n) := by
  unfold deliverTarget
  split
  · exact kept_sendTo ok session sent inner _ n hn h
  · exact kept_bufferPending ok session sent inner backend now n hn h

theorem kept_dispatch (inner : Inner) (n : Notice) (backend : String) (hn : ok n.place)
    (h : Kept ok session sent inner) :
    Kept ok session sent (dispatchResourceUpdated inner n backend).2 := by
  have hfold : ∀ (routes : List ResourceSubscriberRoute) (i : Inner), Kept ok session sent i →
      Kept ok session sent (routes.foldl (fun i route => sendTo i route.clientSessionId
        ⟨n.place, withClientUri route.clientUri n.value⟩) i) := by
    intro routes
    induction routes with
    | nil => exact fun i hi => hi
    | cons route routes ih =>
        intro i hi
        exact ih _ (kept_sendTo ok session sent i _ _ hn hi)
  unfold dispatchResourceUpdated
  split
  · exact h
  · split
    · exact h
    · exact hfold _ inner h

/-- A delivery handles the notification itself, under its own number. -/
theorem kept_deliver (display : Value → String) (inner : Inner) (backend : String) (now : Nat)
    (n : Notice) (hn : ok n.place) (h : Kept ok session sent inner) :
    Kept ok session sent (deliver display inner backend now n) := by
  have hevict := kept_deliverEvict ok session sent inner n h
  unfold deliver
  simp only
  split
  · split
    · exact kept_dispatch ok session sent _ n backend hn hevict
    · exact kept_deliverTarget ok session sent display _ backend now n hn
        (kept_dispatch ok session sent _ n backend hn hevict)
  · exact kept_deliverTarget ok session sent display _ backend now n hn hevict

/-- An operation handles what waits, and the notification it gets a number
    for. -/
theorem kept_applyOp (display : Value → String) (inner : Inner) (emitted : Nat) (op : Op)
    (hop : op ≠ .route (.forgetClient session)) (hemitted : op.delivers = true → ok emitted)
    (h : Kept ok session sent inner) : Kept ok session sent (applyOp display inner emitted op) := by
  cases op with
  | route op =>
      exact kept_step ok session sent display inner op (fun heq => hop (by rw [heq])) h
  | bindProgressToken token sessionId => exact Kept.same ok session sent inner _ rfl rfl h
  | deliver backend now value =>
      exact kept_deliver ok session sent display inner backend now ⟨emitted, value⟩
        (hemitted rfl) h

end Kept

/-! ## What is owed -/

theorem owes_iff (inner : Inner) (session job : String) (value : Value) :
    owes inner session job value = true ↔
      jobIdForJobNotification value = some job ∧
      (inner.jobRoutes.lookup job).map JobRoute.clientSessionId = some session := by
  rw [owes, Bool.and_eq_true, beq_iff_eq, beq_iff_eq]

/-- A notification that is owed and not terminal goes into the sink. -/
theorem deliver_owed (display : Value → String) (inner : Inner) (session job backend : String)
    (now : Nat) (n : Notice) (howes : owes inner session job n.value = true)
    (hterminal : terminalJobId n.value = none) :
    ∃ published : Inner, published.clientSinks = inner.clientSinks ∧
      published.pending = inner.pending ∧
      deliver display inner backend now n = sendTo published session n := by
  rcases (owes_iff inner session job n.value).mp howes with ⟨hjob, hroute⟩
  refine ⟨publishJobEvent inner job n, rfl, rfl, ?_⟩
  have hevict : deliverEvict inner n = publishJobEvent inner job n := by
    rw [deliverEvict, hterminal, hjob]
  have htarget : resolveTarget display (publishJobEvent inner job n) n.value = some session := by
    rw [resolveTarget_job display _ n.value job hjob]
    exact hroute
  unfold deliver
  rw [hevict]
  simp only [if_neg (method_of_jobId n.value job hjob), deliverTarget, htarget]

/-- A notification that is owed and terminal goes into the buffer: its route
    is gone before its target is looked up. -/
theorem deliver_terminal (display : Value → String) (inner : Inner) (session job backend : String)
    (now : Nat) (n : Notice) (howes : owes inner session job n.value = true)
    (hterminal : (terminalJobId n.value).isSome = true) :
    (deliver display inner backend now n).clientSinks = inner.clientSinks := by
  rcases (owes_iff inner session job n.value).mp howes with ⟨hjob, -⟩
  rcases Option.isSome_iff_exists.mp hterminal with ⟨job', hterminal⟩
  have hsame : job' = job := by
    have hjob' := jobId_of_terminal n.value job' hterminal
    rw [hjob, Option.some.injEq] at hjob'
    exact hjob'.symm
  have hevict : deliverEvict inner n = forgetJob (publishJobEvent inner job n) job := by
    rw [deliverEvict, hterminal, hjob, hsame]
  have htarget : resolveTarget display (forgetJob (publishJobEvent inner job n) job) n.value
      = none := by
    rw [resolveTarget_job display _ n.value job hjob, lookup_forgetJob, if_pos rfl]
    rfl
  unfold deliver
  rw [hevict]
  simp only [if_neg (method_of_jobId n.value job hjob), deliverTarget, htarget]
  rfl

/-- The invariant: the numbers in use are below the next one, no buffer holds
    a notification that is owed, and the sink has those that are. -/
structure Watched (session : String) (w : Watch) : Prop where
  numbered : Numbered session w.inner w.emitted
  owed : ∀ n ∈ w.owed, n.place < w.emitted
  apart : ∀ backend, ∀ p ∈ w.inner.pendingOf backend, IsOwed w p.notice.place = false
  sink : (w.inner.clientSinks.lookup session).isSome = true
  delivered : Delivered session w

theorem isOwed_emitted (session : String) (w : Watch) (h : Watched session w) :
    IsOwed w w.emitted = false := by
  unfold IsOwed
  rw [List.contains_eq_mem, decide_eq_false_iff_not]
  intro hmem
  rcases List.mem_map.mp hmem with ⟨n, hn, hplace⟩
  have hlt := h.owed n hn
  omega

/-- An operation that owes nothing. -/
theorem watched_unowed (display : Value → String) (session : String) (w : Watch) (op : Op)
    (emitted : Nat) (hemitted : w.emitted ≤ emitted)
    (hdeliver : op.delivers = true → w.emitted < emitted)
    (hop : op ≠ .route (.forgetClient session)) (h : Watched session w) :
    Watched session ⟨applyOp display w.inner w.emitted op, emitted, w.owed⟩ := by
  -- Whatever is handled has a number that is not owed.
  let ok (place : Nat) : Prop := place < emitted ∧ IsOwed w place = false
  have hstart : Kept ok session (w.inner.sentTo session) w.inner := by
    refine ⟨fun backend p hp => ⟨?_, h.apart backend p hp⟩, h.sink, [], ?_, ?_⟩
    · exact lt_of_lt_of_le (h.numbered.pending backend p hp) hemitted
    · rw [List.append_nil]
    · exact fun n hn => absurd hn List.not_mem_nil
  have hkept := kept_applyOp ok session (w.inner.sentTo session) display w.inner w.emitted op hop
    (fun hd => ⟨hdeliver hd, isOwed_emitted session w h⟩) hstart
  rcases hkept.sent with ⟨more, hmore, hok⟩
  refine ⟨⟨?_, fun backend p hp => (hkept.pending backend p hp).1⟩, ?_,
    fun backend p hp => (hkept.pending backend p hp).2, hkept.sink, ?_⟩
  · intro n hn
    rw [hmore] at hn
    rcases List.mem_append.mp hn with hn | hn
    · exact lt_of_lt_of_le (h.numbered.sent n hn) hemitted
    · exact (hok n hn).1
  · exact fun n hn => lt_of_lt_of_le (h.owed n hn) hemitted
  · have hnone : more.filter (fun n => IsOwed w n.place) = [] := by
      rw [List.filter_eq_nil_iff]
      intro n hn
      rw [(hok n hn).2]
      exact Bool.false_ne_true
    have hdelivered := h.delivered
    unfold Delivered at hdelivered ⊢
    rw [hmore, List.filter_append]
    rw [show (fun n : Notice => IsOwed ⟨applyOp display w.inner w.emitted op, emitted, w.owed⟩
      n.place) = (fun n => IsOwed w n.place) from rfl, hdelivered, hnone, List.append_nil]

/-- With one more notification owed, the older numbers are owed as before. -/
theorem isOwed_snoc (w : Watch) (inner : Inner) (emitted : Nat) (n : Notice) (place : Nat) :
    IsOwed ⟨inner, emitted, w.owed ++ [n]⟩ place = (IsOwed w place || place == n.place) := by
  unfold IsOwed
  rw [List.map_append, List.contains_append]
  simp only [List.map_cons, List.map_nil, List.contains_cons, List.contains_nil, Bool.or_false]

/-- The numbers in the sink are older than the one that is owed next. -/
theorem filter_snoc (session : String) (w : Watch) (h : Watched session w) (inner : Inner)
    (emitted : Nat) (n : Notice) (hplace : n.place = w.emitted) :
    (w.inner.sentTo session).filter
      (fun m => IsOwed ⟨inner, emitted, w.owed ++ [n]⟩ m.place) = w.owed := by
  refine (List.filter_congr (fun m hm => ?_)).trans h.delivered
  have hlt := h.numbered.sent m hm
  have hne : (m.place == n.place) = false := by
    rw [beq_eq_false_iff_ne]
    omega
  rw [isOwed_snoc, hne, Bool.or_false]

/-- A notification that is owed and not terminal. -/
theorem watched_owed (display : Value → String) (session job backend : String) (now : Nat)
    (value : Value) (w : Watch) (howes : owes w.inner session job value = true)
    (hterminal : terminalJobId value = none) (h : Watched session w) :
    Watched session ⟨deliver display w.inner backend now ⟨w.emitted, value⟩, w.emitted + 1,
      w.owed ++ [⟨w.emitted, value⟩]⟩ := by
  rcases deliver_owed display w.inner session job backend now ⟨w.emitted, value⟩ howes hterminal
    with ⟨published, hsinks, hpending, hdeliver⟩
  rw [hdeliver]
  have hsent : (sendTo published session ⟨w.emitted, value⟩).sentTo session =
      w.inner.sentTo session ++ [⟨w.emitted, value⟩] := by
    rw [sentTo_sendTo, hsinks, if_pos ⟨rfl, h.sink⟩, Inner.sentTo, hsinks, Inner.sentTo]
  have hbuffer : ∀ b, (sendTo published session ⟨w.emitted, value⟩).pendingOf b =
      w.inner.pendingOf b := by
    intro b
    show (published.pending.lookup b).getD [] = (w.inner.pending.lookup b).getD []
    rw [hpending]
  exact {
    numbered := {
      sent := by
        intro n hn
        rw [hsent] at hn
        rcases List.mem_append.mp hn with hn | hn
        · exact Nat.lt_succ_of_lt (h.numbered.sent n hn)
        · rw [List.mem_singleton.mp hn]
          exact Nat.lt_succ_self _
      pending := by
        intro b p hp
        rw [hbuffer] at hp
        exact Nat.lt_succ_of_lt (h.numbered.pending b p hp) }
    owed := by
      intro n hn
      rcases List.mem_append.mp hn with hn | hn
      · exact Nat.lt_succ_of_lt (h.owed n hn)
      · rw [List.mem_singleton.mp hn]
        exact Nat.lt_succ_self _
    apart := by
      -- What waits is older than the notification that is emitted now.
      intro b p hp
      rw [hbuffer] at hp
      rw [isOwed_snoc, h.apart b p hp, Bool.false_or, beq_eq_false_iff_ne]
      have hlt := h.numbered.pending b p hp
      exact Nat.ne_of_lt hlt
    sink := by
      refine isSome_sendTo published session session ⟨w.emitted, value⟩ ?_
      rw [hsinks]
      exact h.sink
    delivered := by
      unfold Delivered
      rw [hsent, List.filter_append, filter_snoc session w h _ _ ⟨w.emitted, value⟩ rfl]
      simp only [List.filter_cons, isOwed_snoc, beq_self_eq_true, Bool.or_true, if_true,
        List.filter_nil] }

/-- A step that does not evict the route of what it owes. -/
theorem watched_next (display : Value → String) (session job : String) (w : Watch) (op : Op)
    (hop : op ≠ .route (.forgetClient session)) (h : Watched session w)
    (hkeeps : KeepsRoute session job w op) : Watched session (next display session job w op) := by
  cases op with
  | route op => exact watched_unowed display session w _ w.emitted le_rfl nofun hop h
  | bindProgressToken token sessionId =>
      exact watched_unowed display session w _ w.emitted le_rfl nofun hop h
  | deliver backend now value =>
      simp only [next]
      split
      · next howes =>
          exact watched_owed display session job backend now value w howes (hkeeps howes) h
      · exact watched_unowed display session w _ (w.emitted + 1) (Nat.le_succ _)
          (fun _ => Nat.lt_succ_self _) hop h

/-- A step after which everything owed is delivered did not evict the route of
    what it owes. -/
theorem keepsRoute_of_delivered (display : Value → String) (session job : String) (w : Watch)
    (op : Op) (h : Watched session w)
    (hdelivered : Delivered session (next display session job w op)) :
    KeepsRoute session job w op := by
  cases op with
  | route op => trivial
  | bindProgressToken token sessionId => trivial
  | deliver backend now value =>
      intro howes
      by_contra hterminal
      rw [← ne_eq, Option.ne_none_iff_isSome] at hterminal
      have hsinks := deliver_terminal display w.inner session job backend now ⟨w.emitted, value⟩
        howes hterminal
      simp only [next, howes, if_true, Delivered, applyOp, Inner.sentTo, hsinks] at hdelivered
      -- The sink is as before, and has one notification less than is owed.
      have hsink := filter_snoc session w h
        (deliver display w.inner backend now ⟨w.emitted, value⟩) (w.emitted + 1)
        ⟨w.emitted, value⟩ rfl
      unfold Inner.sentTo at hsink
      rw [hsink] at hdelivered
      have hlength := congrArg List.length hdelivered
      rw [List.length_append, List.length_singleton] at hlength
      omega

/-- A job notification reaches the session its job is routed to, once and in
    order, in every state of a run exactly if no such notification of the run
    is terminal. The session keeps its sink during the run. -/
theorem notifications_reach_owner (display : Value → String) (session job : String)
    (inner : Inner) (emitted : Nat) (ops : List Op) (hnumbered : Numbered session inner emitted)
    (hsink : (inner.clientSinks.lookup session).isSome = true)
    (hkept : ∀ op ∈ ops, op ≠ .route (.forgetClient session)) :
    (∀ before, before <+: ops →
      Delivered session (before.foldl (next display session job) ⟨inner, emitted, []⟩)) ↔
    Machine.Along (Machine.total (next display session job)) (KeepsRoute session job)
      ⟨inner, emitted, []⟩ ops := by
  refine Machine.along_total_iff (next display session job) (KeepsRoute session job)
    (Watched session) (Delivered session) _ ops (fun w h => h.delivered) ?_ ?_ ?_
  · exact fun w op hmem h => watched_next display session job w op (hkept op hmem) h
  · exact fun w op _ h => keepsRoute_of_delivered display session job w op h
  · refine ⟨hnumbered, fun n hn => absurd hn List.not_mem_nil, fun _ _ _ => rfl, hsink, ?_⟩
    exact List.filter_eq_nil_iff.mpr (fun n _ => Bool.false_ne_true)

/-- A status of the job of `oneRoute`. -/
def statusUpdate (status : String) : Value :=
  .object [("method", .string "notifications/$/dcc.jobUpdated"),
    ("params", .object [("job_id", .string "job"), ("status", .string status)])]

/-- `oneRoute` with a sink for its session. -/
def oneRouteOneSink : Inner := registerClient oneRoute "a"

theorem watched_oneRouteOneSink : Watched "a" ⟨oneRouteOneSink, 0, []⟩ := by
  have hsent : oneRouteOneSink.sentTo "a" = [] := by
    rw [Inner.sentTo, oneRouteOneSink, registerClient, OrderedMap.lookup_insert]
    rfl
  refine ⟨⟨?_, ?_⟩, ?_, ?_, ?_, ?_⟩
  · intro n hn
    rw [hsent] at hn
    cases hn
  · exact fun backend p hp => absurd hp List.not_mem_nil
  · exact fun n hn => absurd hn List.not_mem_nil
  · exact fun backend p hp => absurd hp List.not_mem_nil
  · rw [oneRouteOneSink, registerClient, OrderedMap.lookup_insert, Option.isSome_some]
  · exact List.filter_eq_nil_iff.mpr (fun n _ => Bool.false_ne_true)

/-- A running job's notification reaches its session. -/
theorem notifications_reach_owner_running :
    Delivered "a" ([Op.deliver "x" 0 (statusUpdate "running")].foldl (next (fun _ => "") "a" "job")
      ⟨oneRouteOneSink, 0, []⟩) := by
  refine (notifications_reach_owner (fun _ => "") "a" "job" oneRouteOneSink 0
    [.deliver "x" 0 (statusUpdate "running")] watched_oneRouteOneSink.numbered
    watched_oneRouteOneSink.sink ?_).mpr ⟨fun _ => ?_, ?_⟩ _ (List.prefix_refl _)
  · intro op hop
    rw [List.mem_singleton.mp hop]
    nofun
  · decide
  · exact fun _ _ => trivial

/-- The notification that a job is completed does not. -/
theorem terminal_notification_not_delivered :
    ¬ Delivered "a" (next (fun _ => "") "a" "job" ⟨oneRouteOneSink, 0, []⟩
      (.deliver "x" 0 (statusUpdate "completed"))) := by
  intro h
  have hkeeps := keepsRoute_of_delivered (fun _ => "") "a" "job" _ _ watched_oneRouteOneSink h
  have howes : owes oneRouteOneSink "a" "job" (statusUpdate "completed") = true := by
    rw [owes_iff]
    refine ⟨rfl, ?_⟩
    show ((oneRoute.jobRoutes.lookup "job").map JobRoute.clientSessionId) = some "a"
    rw [oneRoute, lookup_insertRoute, if_pos rfl]
    rfl
  exact absurd (hkeeps howes) (by decide)

end Gateway

end DccMcp
