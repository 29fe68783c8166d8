import DccMcp.Job.Concurrent

/-!
# Delivery of Job Events

In which order a subscriber hears about the transitions of a job.

The transitions themselves are in order: once a job is terminal no transition
that is announced can be taken, so the history of a job has its terminal
event at the end. That holds in every interleaving. But a call announces
its transition after it has released the lock of the job, and calls that are
on the way to their subscribers can overtake each other. The call that
creates a job has a window of its own: it reads the job again after it has
put it into the map, and announces whatever it finds there.

So the delivery is in order as long as a job has one announcement in flight
at a time. The invariant under this condition is about that announcement:
it is the last event of the history, and a subscriber who has not got it yet
has got a part of what is before it.

## Main definitions

* `State.announcement`: The event a call has still to deliver.
* `CallPhase.Tells`: Whether a subscriber is still among its receivers.
* `OneAtATime`: The condition on taking a transition.
* `Chronicle`: What holds of the history in every run.
* `Announced`: The invariant of the deliveries.

## Theorems

* `chronicle_of_run`: The history of a job is in order, in every run.
* `announced_of_run`: The invariant over every run that keeps the condition.
* `delivery_in_order`: The events are delivered in order in such a run.
* `delivery_out_of_order`: They are not in every run.
-/

namespace DccMcp

namespace Jobs

/-- A transition that is announced starts from a status that is not terminal. -/
theorem Job.transition_open {τ : Type} (cancelled : Bool) (now : DateTime) (job job' : Job τ)
    (t : Transition) (h : job.transition cancelled now t = some job')
    (hannounces : t.announces = true) : job.status.isTerminal = false := by
  cases t with
  | setOutput output => simp only [Transition.announces, Bool.false_eq_true] at hannounces
  | start =>
      simp only [transition, start, ne_eq, ite_not, Option.ite_none_right_eq_some] at h
      rw [h.1]
      rfl
  | complete result =>
      simp only [transition, complete, ne_eq, ite_not, Option.ite_none_right_eq_some] at h
      rw [h.1]
      rfl
  | fail error =>
      simp only [transition, fail, ne_eq, ite_not, Option.ite_none_right_eq_some] at h
      rw [h.1]
      rfl
  | acknowledgeCancel =>
      simp only [transition, acknowledgeCancel, Option.ite_none_right_eq_some] at h
      rcases h.1.1 with hstatus | hstatus <;> rw [hstatus] <;> rfl
  | updateProgress progress =>
      simp only [transition, updateProgress, ne_eq, ite_not, Option.ite_none_right_eq_some] at h
      rw [h.1]
      rfl

/-- A transition that is not announced changes nothing an event tells. -/
theorem Job.transition_quiet {τ : Type} (cancelled : Bool) (now : DateTime) (job job' : Job τ)
    (t : Transition) (h : job.transition cancelled now t = some job')
    (hannounces : t.announces = false) : job'.event = job.event := by
  cases t with
  | setOutput output =>
      rw [← Option.some.inj h]
      rfl
  | _ => simp [Transition.announces] at hannounces

namespace Concurrent

open Machine

variable {T : CancellationTokens}

/-! ## The history -/

/-- What holds of the history of the jobs in every run. -/
structure Chronicle (s : State T) : Prop where
  reached : ∃ ops, exec JobManager.step (JobManager.new T) ops = some s.manager
  untracked : ∀ id, s.manager.get id = none → s.historyOf id = []
  closed : ∀ id job, s.manager.get id = some job →
    ∀ e ∈ s.historyOf id, e.status.isTerminal = true → job.status.isTerminal = true
  ordered : ∀ id, (s.historyOf id).Pairwise (fun e _ => e.status.isTerminal = false)

theorem Chronicle.keyed (s : State T) (h : Chronicle s) (id : String) (job : Job T.Token)
    (hget : s.manager.get id = some job) : job.id = id := by
  rcases h.reached with ⟨ops, hops⟩
  exact (tracked_of_run ops s.manager hops).keyed id job hget

variable (cfg : Config) (s s' : State T) (i : CallId) (phase : CallPhase T.Token)

/-- The history of a job after one more announced transition. -/
theorem historyOf_append (e : JobEvent) (id : String) (hhistory : s'.history = s.history ++ [e]) :
    s'.historyOf id = s.historyOf id ++ if e.id = id then [e] else [] := by
  rw [State.historyOf, hhistory, List.filter_append, State.historyOf]
  by_cases hid : e.id = id
  · rw [if_pos hid, List.filter_cons_of_pos (by simpa only [decide_eq_true_eq] using hid),
      List.filter_nil]
  · rw [if_neg hid, List.filter_cons_of_neg (by simpa only [decide_eq_true_eq] using hid),
      List.filter_nil]

/-- A step that puts a job into the map and announces it. All that was
    announced of the job before is not terminal. -/
theorem chronicle_announce (id : String) (job : Job T.Token) (h : Chronicle s)
    (hreached : ∃ ops, exec JobManager.step (JobManager.new T) ops = some s'.manager)
    (hjobs : s'.manager.jobs = s.manager.jobs.insert id job) (hid : job.id = id)
    (hopen : ∀ e ∈ s.historyOf id, e.status.isTerminal = false)
    (hhistory : s'.history = s.history ++ [job.event]) : Chronicle s' := by
  have happend := fun id' => historyOf_append s s' job.event id' hhistory
  -- Only the history of this job grows.
  refine ⟨hreached, fun id' hget => ?_, fun id' job' hget e he => ?_, fun id' => ?_⟩
  · rw [JobManager.get, hjobs] at hget
    by_cases hid' : id' = id
    · rw [hid', AList.lookup_insert] at hget
      simp at hget
    · rw [AList.lookup_insert_ne hid'] at hget
      rw [happend, if_neg (fun heq => hid' (heq.symm.trans hid)), List.append_nil]
      exact h.untracked id' hget
  · rw [JobManager.get, hjobs] at hget
    rw [happend, List.mem_append] at he
    by_cases hid' : id' = id
    · rw [hid', AList.lookup_insert, Option.some.injEq] at hget
      rw [hid', if_pos (show job.event.id = id from hid), List.mem_singleton] at he
      intro hterminal
      rcases he with he | he
      · rw [hopen e he] at hterminal
        simp at hterminal
      · rw [← hget]
        rw [he] at hterminal
        exact hterminal
    · rw [AList.lookup_insert_ne hid'] at hget
      rw [if_neg (fun heq => hid' (heq.symm.trans hid))] at he
      rcases he with he | he
      · exact h.closed id' job' hget e he
      · exact absurd he List.not_mem_nil
  · rw [happend]
    by_cases hid' : job.event.id = id'
    · rw [if_pos hid', List.pairwise_append]
      refine ⟨h.ordered id', List.pairwise_singleton _ _, fun e he _ _ => ?_⟩
      rw [← hid', show job.event.id = id from hid] at he
      exact hopen e he
    · rw [if_neg hid', List.append_nil]
      exact h.ordered id'

/-- A step that leaves the history and the status of every job. -/
theorem chronicle_frame (h : Chronicle s)
    (hreached : ∃ ops, exec JobManager.step (JobManager.new T) ops = some s'.manager)
    (htracked : ∀ id, s'.manager.get id = none → s.manager.get id = none)
    (hstatus : ∀ id job', s'.manager.get id = some job' →
      ∃ job, s.manager.get id = some job ∧ job'.status = job.status)
    (hhistory : s'.history = s.history) : Chronicle s' := by
  have hsame : ∀ id, s'.historyOf id = s.historyOf id := by
    intro id
    rw [State.historyOf, hhistory, State.historyOf]
  refine ⟨hreached, fun id hget => ?_, fun id job' hget e he => ?_, fun id => ?_⟩
  · rw [hsame]
    exact h.untracked id (htracked id hget)
  · rw [hsame] at he
    rcases hstatus id job' hget with ⟨job, hjob, heq⟩
    rw [heq]
    exact h.closed id job hjob e he
  · rw [hsame]
    exact h.ordered id

theorem chronicle_init : Chronicle (init T) where
  reached := ⟨[], rfl⟩
  untracked _ _ := rfl
  closed _ _ _ _ he := absurd he List.not_mem_nil
  ordered _ := List.Pairwise.nil

/-- A step that leaves the history and the map. -/
theorem chronicle_same (h : Chronicle s) (hjobs : s'.manager.jobs = s.manager.jobs)
    (hhistory : s'.history = s.history)
    (hreached : ∃ ops, exec JobManager.step (JobManager.new T) ops = some s'.manager) :
    Chronicle s' := by
  have hget : ∀ id, s'.manager.get id = s.manager.get id := by
    intro id
    rw [JobManager.get, hjobs, JobManager.get]
  refine chronicle_frame s s' h hreached (fun id hnone => ?_) (fun id job hsome => ?_) hhistory
  · rw [← hget]
    exact hnone
  · rw [hget] at hsome
    exact ⟨job, hsome, rfl⟩

/-- The history of the jobs is in order, whatever the step. -/
theorem chronicle_step (a : Action) (h : Chronicle s) (hstep : step cfg s a = some s') :
    Chronicle s' := by
  have hreached := reached_step cfg s s' a hstep h.reached
  cases steps_of_step cfg s s' a hstep with
  | create i id now toolName parentJobId hcall hfresh =>
      refine chronicle_announce s _ id _ h hreached rfl rfl (fun e he => ?_) rfl
      rw [h.untracked id hfresh] at he
      exact absurd he List.not_mem_nil
  | transition i now id t job snapshot hcall hget hfree htaken =>
      -- A job that is announced again has not been announced as terminal.
      have hmoves := Job.transition_moves _ now job snapshot t htaken
      cases hannounces : t.announces with
      | true =>
          refine chronicle_announce s _ id snapshot h hreached rfl ?_ (fun e he => ?_) rfl
          · rw [(Job.moves_identity _ job snapshot hmoves).1]
            exact h.keyed s id job hget
          · rw [← Bool.not_eq_true]
            intro hterminal
            have hclosed := h.closed id job hget e he hterminal
            rw [Job.transition_open _ now job snapshot t htaken hannounces] at hclosed
            simp at hclosed
      | false =>
          refine chronicle_frame s _ h hreached (fun id' hnone => ?_) (fun id' job' hsome => ?_) rfl
          · by_cases hid : id' = id
            · rw [JobManager.get, hid, AList.lookup_insert] at hnone
              simp at hnone
            · rw [JobManager.get, AList.lookup_insert_ne hid] at hnone
              exact hnone
          · by_cases hid : id' = id
            · rw [JobManager.get, hid, AList.lookup_insert, Option.some.injEq] at hsome
              refine ⟨job, hid ▸ hget, ?_⟩
              rw [← hsome]
              exact congrArg JobEvent.status
                (Job.transition_quiet _ now job snapshot t htaken hannounces)
            · rw [JobManager.get, AList.lookup_insert_ne hid] at hsome
              exact ⟨job', hsome, rfl⟩
  | cancel i id answer hcall =>
      exact chronicle_same s _ h (JobManager.jobs_cancel s.manager id) rfl hreached
  | _ => exact chronicle_same s _ h rfl rfl hreached

/-- In every run the history of a job is in order. -/
theorem chronicle_of_run (s : State T) (as : List Action)
    (hrun : exec (step cfg) (init T) as = some s) : Chronicle s :=
  exec_invariant (step cfg) Chronicle
    (fun s a s' h hstep => chronicle_step cfg s s' a h hstep) (init T) s as chronicle_init hrun

/-! ## Announcements in flight -/

/-- The event a call has still to deliver to somebody, where `current` is what
    the jobs in the map would announce. -/
def CallPhase.announcement {τ : Type} (current : String → Option JobEvent) :
    CallPhase τ → Option JobEvent
  | .inserted id => current id
  | .persisting call | .awaitingWorker call | .emitting call =>
    if call.announces then some call.snapshot.event else none
  | .delivering call (_ :: _) => some call.snapshot.event
  | .notCalled | .delivering _ [] | .finished _ => none

/-- What the jobs in the map would announce. -/
def State.current (s : State T) (id : String) : Option JobEvent :=
  (s.manager.get id).map Job.event

/-- The event a call has still to deliver to somebody. -/
def State.announcement (s : State T) (i : CallId) : Option JobEvent :=
  (s.calls i).announcement s.current

/-- The subscriber is still among the receivers of the call. Until a call has
    read the list of subscribers everybody is. -/
def CallPhase.Tells {τ : Type} : CallPhase τ → SubscriberId → Prop
  | .delivering _ rest, sub => sub ∈ rest
  | _, _ => True

/-- A transition of a job is announced only when no other announcement of the
    job is in flight. -/
def OneAtATime (s : State T) : Action → Prop
  | .transition _ _ id t => t.announces = true →
      ∀ i e, s.announcement i = some e → e.id ≠ id
  | _ => True

/-- The call is not delivering, and not about to read a job it created. -/
def CallPhase.plain {τ : Type} : CallPhase τ → Bool
  | .inserted _ | .delivering _ _ => false
  | _ => true

/-- Every subscriber is registered once, and a job is in the map when the call
    that creates it goes on. -/
structure Registered (s : State T) : Prop where
  subscribers : s.subscribers.Nodup
  receivers : ∀ i call rest, s.calls i = .delivering call rest → rest.Nodup
  created : ∀ i id, s.calls i = .inserted id → (s.manager.get id).isSome = true

/-- The invariant of the deliveries. -/
structure Announced (s : State T) : Prop where
  single : ∀ i j e e', s.announcement i = some e → s.announcement j = some e' →
    e.id = e'.id → i = j
  latest : ∀ i e, s.announcement i = some e → (s.historyOf e.id).getLast? = some e
  told : ∀ sub id, (s.eventsFor sub id).Sublist (s.historyOf id)
  untold : ∀ i e sub, s.announcement i = some e → (s.calls i).Tells sub →
    (s.eventsFor sub e.id).Sublist (s.historyOf e.id).dropLast

theorem registered_init : Registered (init T) where
  subscribers := List.nodup_nil
  receivers := by
    intro i call rest h
    simp [init] at h
  created := by
    intro i id h
    simp [init] at h

/-- A call that moves on: what has to be shown of its new phase. -/
theorem registered_call (h : Registered s) (hcalls : s'.calls = Function.update s.calls i phase)
    (hsubscribers : s'.subscribers = s.subscribers)
    (hget : ∀ id, (s.manager.get id).isSome = true → (s'.manager.get id).isSome = true)
    (hreceivers : ∀ call rest, phase = .delivering call rest → rest.Nodup)
    (hcreated : ∀ id, phase = .inserted id → (s'.manager.get id).isSome = true) :
    Registered s' := by
  refine ⟨hsubscribers ▸ h.subscribers, fun j call rest hj => ?_, fun j id hj => ?_⟩
  · rw [hcalls] at hj
    by_cases hji : j = i
    · rw [hji, Function.update_self] at hj
      exact hreceivers call rest hj
    · rw [Function.update_of_ne hji] at hj
      exact h.receivers j call rest hj
  · rw [hcalls] at hj
    by_cases hji : j = i
    · rw [hji, Function.update_self] at hj
      exact hcreated id hj
    · rw [Function.update_of_ne hji] at hj
      exact hget id (h.created j id hj)

/-- A call that moves on to a phase where it neither delivers nor inserts. -/
theorem registered_plain (h : Registered s) (hcalls : s'.calls = Function.update s.calls i phase)
    (hsubscribers : s'.subscribers = s.subscribers)
    (hget : ∀ id, (s.manager.get id).isSome = true → (s'.manager.get id).isSome = true)
    (hphase : phase.plain = true) : Registered s' := by
  refine registered_call s s' i phase h hcalls hsubscribers hget (fun call rest hrest => ?_)
    (fun id hid => ?_)
  · rw [hrest] at hphase
    simp [CallPhase.plain] at hphase
  · rw [hid] at hphase
    simp [CallPhase.plain] at hphase

/-- A job that is put into the map leaves the others tracked. -/
theorem isSome_insert (m : JobManager T) (id id' : String) (job : Job T.Token)
    (h : (m.get id').isSome = true) : ((m.jobs.insert id job).lookup id').isSome = true := by
  by_cases hid : id' = id
  · rw [hid, AList.lookup_insert]
    rfl
  · rw [AList.lookup_insert_ne hid]
    exact h

theorem registered_step (a : Action) (h : Registered s) (hstep : step cfg s a = some s') :
    Registered s' := by
  cases steps_of_step cfg s s' a hstep with
  | create i id now toolName parentJobId hcall hfresh =>
      refine registered_call s _ i (.inserted id) h rfl rfl
        (fun id' => isSome_insert s.manager id id' _) (fun call rest hrest => ?_) (fun id' hid => ?_)
      · simp at hrest
      · rw [← CallPhase.inserted.inj hid]
        exact congrArg Option.isSome (AList.lookup_insert s.manager.jobs)
  | transition i now id t job snapshot hcall hget hfree htaken =>
      exact registered_plain s _ i _ h rfl rfl (fun id' => isSome_insert s.manager id id' _) rfl
  | cancel i id answer hcall =>
      refine registered_plain s _ i _ h rfl rfl (fun id' => ?_) rfl
      simp [JobManager.get, JobManager.jobs_cancel]
  | readSubscribers i call hcall hannounces =>
      refine registered_call s _ i (.delivering call s.subscribers) h rfl rfl (fun _ => id)
        (fun call' rest hrest => ?_) (fun id hid => ?_)
      · rw [← (CallPhase.delivering.inj hrest).2]
        exact h.subscribers
      · simp at hid
  | deliver i call sub rest hcall =>
      refine registered_call s _ i (.delivering call rest) h rfl rfl (fun _ => id)
        (fun call' rest' hrest => ?_) (fun id hid => ?_)
      · rw [← (CallPhase.delivering.inj hrest).2]
        exact (List.nodup_cons.mp (h.receivers i call (sub :: rest) hcall)).2
      · simp at hid
  | enqueue i call wait hcall hroom =>
      refine registered_plain s _ i _ h rfl rfl (fun _ => id) ?_
      cases wait <;> rfl
  | lockCreated i | refused i | skip i | queueFull i | finishQuiet i | finish i | wake _ i =>
      exact registered_plain s _ i _ h rfl rfl (fun _ => id) rfl
  | subscribe sub hnew =>
      refine ⟨List.nodup_append.mpr ⟨h.subscribers, List.nodup_singleton sub, ?_⟩, h.receivers,
        h.created⟩
      intro x hx y hy hxy
      rw [List.mem_singleton] at hy
      exact hnew (hy ▸ hxy ▸ hx)
  | take | check | store | storeFailed | record | finishPut =>
      exact ⟨h.subscribers, h.receivers, h.created⟩

/-! ## Deliveries -/

/-- A step that adds no announcement and no receiver. -/
theorem announced_frame (h : Announced s)
    (hcalls : ∀ i e, s'.announcement i = some e → s.announcement i = some e ∧
      ∀ sub, (s'.calls i).Tells sub → (s.calls i).Tells sub)
    (hhistory : s'.history = s.history) (hdeliveries : s'.deliveries = s.deliveries) :
    Announced s' := by
  have hhist : ∀ id, s'.historyOf id = s.historyOf id := by
    intro id
    rw [State.historyOf, hhistory, State.historyOf]
  have hevents : ∀ sub id, s'.eventsFor sub id = s.eventsFor sub id := by
    intro sub id
    rw [State.eventsFor, hdeliveries, State.eventsFor]
  refine ⟨fun i j e e' hi hj => ?_, fun i e hi => ?_, fun sub id => ?_, fun i e sub hi htells => ?_⟩
  · exact h.single i j e e' (hcalls i e hi).1 (hcalls j e' hj).1
  · rw [hhist]
    exact h.latest i e (hcalls i e hi).1
  · rw [hevents, hhist]
    exact h.told sub id
  · rw [hevents, hhist]
    exact h.untold i e sub (hcalls i e hi).1 ((hcalls i e hi).2 sub htells)

/-- A call that moves on with the announcement it had, or without one. -/
theorem announced_call (h : Announced s) (hcalls : s'.calls = Function.update s.calls i phase)
    (hcurrent : s'.current = s.current)
    (hmove : ∀ e, phase.announcement s.current = some e →
      (s.calls i).announcement s.current = some e ∧
        ∀ sub, phase.Tells sub → (s.calls i).Tells sub)
    (hhistory : s'.history = s.history) (hdeliveries : s'.deliveries = s.deliveries) :
    Announced s' := by
  refine announced_frame s s' h (fun j e hj => ?_) hhistory hdeliveries
  rw [State.announcement, hcalls, hcurrent] at hj
  rw [hcalls]
  by_cases hji : j = i
  · rw [hji, Function.update_self] at hj ⊢
    exact hmove e hj
  · rw [Function.update_of_ne hji] at hj ⊢
    exact ⟨hj, fun _ => id⟩

/-- A call that announces nothing and will not. -/
theorem announced_quiet (h : Announced s) (hcalls : s'.calls = Function.update s.calls i phase)
    (hcurrent : s'.current = s.current) (hphase : ∀ current, phase.announcement current = none)
    (hhistory : s'.history = s.history) (hdeliveries : s'.deliveries = s.deliveries) :
    Announced s' := by
  refine announced_call s s' i phase h hcalls hcurrent (fun e he => ?_) hhistory hdeliveries
  rw [hphase] at he
  simp at he

/-- A transition is announced, and no other announcement of its job is in
    flight. -/
theorem announced_new (e : JobEvent) (h : Announced s)
    (hcalls : s'.calls = Function.update s.calls i phase)
    (hself : phase.announcement s'.current = some e)
    (hothers : ∀ j, j ≠ i → ∀ e', (s.calls j).announcement s'.current = some e' →
      s.announcement j = some e' ∧ e'.id ≠ e.id)
    (hhistory : s'.history = s.history ++ [e]) (hdeliveries : s'.deliveries = s.deliveries) :
    Announced s' := by
  have hhist := fun id => historyOf_append s s' e id hhistory
  have hevents : ∀ sub id, s'.eventsFor sub id = s.eventsFor sub id := by
    intro sub id
    rw [State.eventsFor, hdeliveries, State.eventsFor]
  -- An announcement is the new one, or an old one about another job.
  have hcase : ∀ j e', s'.announcement j = some e' →
      (j = i ∧ e' = e) ∨ (j ≠ i ∧ s.announcement j = some e' ∧ e'.id ≠ e.id ∧
        s'.calls j = s.calls j) := by
    intro j e' hj
    rw [State.announcement, hcalls] at hj
    by_cases hji : j = i
    · rw [hji, Function.update_self, hself, Option.some.injEq] at hj
      exact .inl ⟨hji, hj.symm⟩
    · rw [Function.update_of_ne hji] at hj
      refine .inr ⟨hji, (hothers j hji e' hj).1, (hothers j hji e' hj).2, ?_⟩
      rw [hcalls, Function.update_of_ne hji]
  refine ⟨fun j k e₁ e₂ hj hk hid => ?_, fun j e' hj => ?_, fun sub id => ?_,
    fun j e' sub hj htells => ?_⟩
  · rcases hcase j e₁ hj with ⟨hji, he₁⟩ | ⟨_, hold, hne, _⟩
    · rcases hcase k e₂ hk with ⟨hki, _⟩ | ⟨_, _, hne, _⟩
      · rw [hji, hki]
      · exact absurd (hid.symm.trans (congrArg JobEvent.id he₁)) hne
    · rcases hcase k e₂ hk with ⟨_, he₂⟩ | ⟨_, hold', _, _⟩
      · exact absurd (hid.trans (congrArg JobEvent.id he₂)) hne
      · exact h.single j k e₁ e₂ hold hold' hid
  · rcases hcase j e' hj with ⟨_, he⟩ | ⟨_, hold, hne, _⟩
    · rw [he, hhist, if_pos rfl, List.getLast?_append_cons]
      rfl
    · rw [hhist, if_neg hne.symm, List.append_nil]
      exact h.latest j e' hold
  · rw [hevents, hhist]
    exact (h.told sub id).trans (List.sublist_append_left _ _)
  · rcases hcase j e' hj with ⟨_, he⟩ | ⟨_, hold, hne, hsame⟩
    · rw [he, hevents, hhist, if_pos rfl, List.dropLast_concat]
      exact h.told sub e.id
    · rw [hevents, hhist, if_neg hne.symm, List.append_nil]
      exact h.untold j e' sub hold (hsame ▸ htells)

/-- What a subscriber was told after one more delivery. -/
theorem eventsFor_append (sub sub' : SubscriberId) (e : JobEvent) (id : String)
    (hdeliveries : s'.deliveries = s.deliveries ++ [(sub, e)]) :
    s'.eventsFor sub' id =
      s.eventsFor sub' id ++ if sub = sub' ∧ e.id = id then [e] else [] := by
  rw [State.eventsFor, hdeliveries, List.filter_append, List.map_append, State.eventsFor]
  by_cases hmatch : sub = sub' ∧ e.id = id
  · rw [if_pos hmatch, List.filter_cons_of_pos (by simpa only [decide_eq_true_eq] using hmatch)]
    rfl
  · rw [if_neg hmatch, List.filter_cons_of_neg (by simpa only [decide_eq_true_eq] using hmatch)]
    rfl

/-- The announcement in flight is delivered to one more subscriber. -/
theorem announced_deliver (call : Call T.Token) (sub : SubscriberId) (rest : List SubscriberId)
    (h : Announced s) (hreg : Registered s)
    (hcall : s.calls i = .delivering call (sub :: rest))
    (hcalls : s'.calls = Function.update s.calls i (.delivering call rest))
    (hcurrent : s'.current = s.current) (hhistory : s'.history = s.history)
    (hdeliveries : s'.deliveries = s.deliveries ++ [(sub, call.snapshot.event)]) :
    Announced s' := by
  have hhist : ∀ id, s'.historyOf id = s.historyOf id := by
    intro id
    rw [State.historyOf, hhistory, State.historyOf]
  have hevents := fun sub' id => eventsFor_append s s' sub sub' call.snapshot.event id hdeliveries
  have hself : s.announcement i = some call.snapshot.event := by
    rw [State.announcement, hcall]
    rfl
  -- The other calls announce what they did, to no more subscribers.
  have hold : ∀ j e, s'.announcement j = some e → s.announcement j = some e ∧
      ∀ sub', (s'.calls j).Tells sub' → (s.calls j).Tells sub' := by
    intro j e hj
    rw [State.announcement, hcalls, hcurrent] at hj
    rw [hcalls]
    by_cases hji : j = i
    · rw [hji, Function.update_self] at hj ⊢
      rw [hself, hcall]
      refine ⟨?_, fun sub' => List.mem_cons_of_mem sub⟩
      cases rest with
      | nil => simp only [CallPhase.announcement, reduceCtorEq] at hj
      | cons => exact hj
    · rw [Function.update_of_ne hji] at hj ⊢
      exact ⟨hj, fun _ => id⟩
  refine ⟨fun j k e e' hj hk => ?_, fun j e hj => ?_, fun sub' id => ?_,
    fun j e sub' hj htells => ?_⟩
  · exact h.single j k e e' (hold j e hj).1 (hold k e' hk).1
  · rw [hhist]
    exact h.latest j e (hold j e hj).1
  · rw [hhist, hevents]
    by_cases hmatch : sub = sub' ∧ call.snapshot.event.id = id
    · -- The subscriber has a part of what is before the last event, and gets that.
      rcases hmatch with ⟨rfl, rfl⟩
      have hbefore := h.untold i _ sub hself (by rw [hcall]; exact List.mem_cons_self)
      rw [if_pos ⟨rfl, rfl⟩, ← List.dropLast_append_getLast? _ (h.latest i _ hself)]
      exact hbefore.append (List.Sublist.refl _)
    · rw [if_neg hmatch, List.append_nil]
      exact h.told sub' id
  · rw [hhist, hevents, if_neg, List.append_nil]
    · exact h.untold j e sub' (hold j e hj).1 ((hold j e hj).2 sub' htells)
    · -- The one who was just told is no longer among the receivers.
      rintro ⟨rfl, hid⟩
      have hji : j = i := h.single j i e _ (hold j e hj).1 hself hid.symm
      rw [hji, hcalls, Function.update_self] at htells
      exact (List.nodup_cons.mp (hreg.receivers i call (sub :: rest) hcall)).1 htells

/-- Putting a job into the map changes what a call announces only if the call
    has just created that job. -/
theorem announcement_insert (id : String) (job : Job T.Token) (j : CallId)
    (hjobs : s'.manager.jobs = s.manager.jobs.insert id job) (hne : s.calls j ≠ .inserted id) :
    (s.calls j).announcement s'.current = s.announcement j := by
  rw [State.announcement]
  cases hcall : s.calls j with
  | inserted id' =>
      have hid : id' ≠ id := by
        rintro rfl
        exact hne hcall
      rw [CallPhase.announcement, State.current, JobManager.get, hjobs, AList.lookup_insert_ne hid]
      rfl
  | delivering call rest => cases rest <;> rfl
  | _ => rfl

theorem announced_create (id : String) (job : Job T.Token) (h : Announced s) (hchron : Chronicle s)
    (hreg : Registered s)
    (hfresh : s.manager.get id = none) (hid : job.id = id)
    (hcalls : s'.calls = Function.update s.calls i (.inserted id))
    (hjobs : s'.manager.jobs = s.manager.jobs.insert id job)
    (hhistory : s'.history = s.history ++ [job.event])
    (hdeliveries : s'.deliveries = s.deliveries) : Announced s' := by
  refine announced_new s s' i _ job.event h hcalls ?_ (fun j _ e' he' => ?_) hhistory hdeliveries
  · rw [CallPhase.announcement, State.current, JobManager.get, hjobs, AList.lookup_insert]
    rfl
  · rw [announcement_insert s s' id job j hjobs ?_] at he'
    · refine ⟨he', fun hsame => ?_⟩
      -- Nothing was announced yet of a job that is not in the map.
      have hlast := h.latest j e' he'
      rw [hsame.trans hid, hchron.untracked id hfresh] at hlast
      simp [List.getLast?_nil] at hlast
    · intro hcall
      have hsome := hreg.created j id hcall
      rw [hfresh] at hsome
      simp at hsome

theorem announced_transition (now : DateTime) (id : String) (t : Transition)
    (job snapshot : Job T.Token) (cancelled : Bool)
    (h : Announced s) (hchron : Chronicle s) (horder : OneAtATime s (.transition i now id t))
    (hget : s.manager.get id = some job) (htaken : job.transition cancelled now t = some snapshot)
    (hcalls : s'.calls =
      Function.update s.calls i (.persisting ⟨snapshot, t.announces, false⟩))
    (hjobs : s'.manager.jobs = s.manager.jobs.insert id snapshot)
    (hhistory : s'.history = if t.announces then s.history ++ [snapshot.event] else s.history)
    (hdeliveries : s'.deliveries = s.deliveries) : Announced s' := by
  have hkeyed := hchron.keyed s id job hget
  have hmoves := Job.transition_moves _ now job snapshot t htaken
  -- A transition that is not announced leaves the event of the job.
  cases hannounces : t.announces with
  | true =>
      rw [hannounces, if_pos rfl] at hhistory
      refine announced_new s s' i _ snapshot.event h hcalls ?_ (fun j _ e' he' => ?_) hhistory
        hdeliveries
      · rw [CallPhase.announcement, hannounces, if_pos rfl]
      · rw [announcement_insert s s' id snapshot j hjobs ?_] at he'
        · refine ⟨he', fun hsame => horder hannounces j e' he' (hsame.trans ?_)⟩
          exact (Job.moves_identity _ job snapshot hmoves).1.trans hkeyed
        · -- The call that created the job would still have it to announce.
          intro hcall
          refine horder hannounces j job.event ?_ hkeyed
          rw [State.announcement, hcall, CallPhase.announcement, State.current, hget]
          rfl
  | false =>
      rw [hannounces, if_neg Bool.false_ne_true] at hhistory
      refine announced_quiet s s' i _ h hcalls (funext fun id' => ?_) (fun _ => ?_) hhistory
        hdeliveries
      · rw [State.current, JobManager.get, hjobs, State.current]
        by_cases hid : id' = id
        · rw [hid, AList.lookup_insert, hget, Option.map_some, Option.map_some,
            Job.transition_quiet _ now job snapshot t htaken hannounces]
        · rw [AList.lookup_insert_ne hid]
          rfl
      · rw [CallPhase.announcement, hannounces, if_neg Bool.false_ne_true]

/-- A step of such a run keeps the deliveries in order. -/
theorem announced_step (a : Action) (h : Announced s) (hchron : Chronicle s) (hreg : Registered s)
    (horder : OneAtATime s a)
    (hstep : step cfg s a = some s') : Announced s' := by
  cases steps_of_step cfg s s' a hstep with
  | create i id now toolName parentJobId hcall hfresh =>
      exact announced_create s _ i id _ h hchron hreg hfresh rfl rfl rfl rfl rfl
  | lockCreated i id job hcall hget =>
      refine announced_call s _ i (.persisting ⟨job, true, true⟩) h rfl rfl (fun e he => ?_) rfl rfl
      rw [hcall, CallPhase.announcement, State.current, hget]
      exact ⟨he, fun _ _ => trivial⟩
  | transition i now id t job snapshot hcall hget hfree htaken =>
      exact announced_transition s _ i now id t job snapshot _ h hchron horder hget htaken rfl rfl
        rfl rfl
  | cancel i id answer hcall =>
      refine announced_quiet s _ i _ h rfl (funext fun id' => ?_) (fun _ => rfl) rfl rfl
      simp only [State.current, JobManager.get, JobManager.jobs_cancel]
  | refused i | finishQuiet i | finish i =>
      exact announced_quiet s _ i _ h rfl rfl (fun _ => rfl) rfl rfl
  | skip i call hcall | queueFull i call hcall | wake _ i call _ hcall =>
      refine announced_call s _ i (.emitting call) h rfl rfl (fun e he => ?_) rfl rfl
      rw [hcall]
      exact ⟨he, fun _ _ => trivial⟩
  | enqueue i call wait hcall hroom =>
      refine announced_call s _ i _ h rfl rfl (fun e he => ?_) rfl rfl
      rw [hcall]
      cases wait <;> exact ⟨he, fun _ _ => trivial⟩
  | readSubscribers i call hcall hannounces =>
      refine announced_call s _ i (.delivering call s.subscribers) h rfl rfl (fun e he => ?_) rfl rfl
      rw [hcall]
      refine ⟨?_, fun _ _ => trivial⟩
      rw [CallPhase.announcement, hannounces, if_pos rfl]
      cases hsubs : s.subscribers with
      | nil =>
          rw [hsubs] at he
          simp [CallPhase.announcement] at he
      | cons sub rest =>
          rw [hsubs] at he
          exact he
  | deliver i call sub rest hcall =>
      exact announced_deliver s _ i call sub rest h hreg hcall rfl rfl rfl rfl
  | subscribe | take | check | store | storeFailed | record | finishPut =>
      exact announced_frame s _ h (fun _ _ he => ⟨he, fun _ => id⟩) rfl rfl

theorem announced_init : Announced (init T) where
  single i j e e' hi := by simp only [State.announcement, init, CallPhase.announcement, reduceCtorEq] at hi
  latest i e hi := by simp only [State.announcement, init, CallPhase.announcement, reduceCtorEq] at hi
  told sub id := List.Sublist.refl _
  untold i e sub hi := by
    simp [State.announcement, init, CallPhase.announcement] at hi

/-- Every state of such a run keeps the deliveries in order. -/
theorem announced_of_run (s : State T) (as : List Action)
    (horder : Along (step cfg) OneAtATime (init T) as)
    (hrun : exec (step cfg) (init T) as = some s) : Announced s ∧ Chronicle s := by
  have h := exec_history (step cfg) OneAtATime
    (fun _ s => Announced s ∧ Chronicle s ∧ Registered s) (init T)
    ⟨announced_init, chronicle_init, registered_init⟩ ?_ as s horder hrun
  · exact ⟨h.1, h.2.1⟩
  · rintro _ s a s' ⟨hann, hchron, hreg⟩ hok hstep
    exact ⟨announced_step cfg s s' a hann hchron hreg hok hstep,
      chronicle_step cfg s s' a hchron hstep, registered_step cfg s s' a hreg hstep⟩

/-- A list that goes on only after events that are not terminal has at most
    one terminal event. -/
theorem countP_terminal_le (es : List JobEvent)
    (h : es.Pairwise (fun e _ => e.status.isTerminal = false)) :
    es.countP (fun e => e.status.isTerminal) ≤ 1 := by
  induction es with
  | nil => exact Nat.zero_le 1
  | cons e es ih =>
      rw [List.pairwise_cons] at h
      cases es with
      | nil =>
          rw [List.countP_cons, List.countP_nil]
          split <;> omega
      | cons e' es =>
          rw [List.countP_cons_of_neg (by rw [h.1 e' List.mem_cons_self]; decide)]
          exact ih h.2

/-- In a run where a job has one announcement in flight at a time, every
    subscriber hears of a job in the order of its transitions: nothing that is
    not terminal comes after something terminal, and at most one terminal
    event comes at all. -/
theorem delivery_in_order (cfg : Config) (as : List Action) (s : State T)
    (horder : Along (step cfg) OneAtATime (init T) as)
    (hrun : exec (step cfg) (init T) as = some s) (sub : SubscriberId) (id : String) :
    (s.eventsFor sub id).Sublist (s.historyOf id) ∧
      (s.eventsFor sub id).Pairwise
        (fun e e' => e.status.isTerminal = true → e'.status.isTerminal = true) ∧
      (s.eventsFor sub id).countP (fun e => e.status.isTerminal) ≤ 1 := by
  rcases announced_of_run cfg s as horder hrun with ⟨hann, hchron⟩
  have htold := hann.told sub id
  have hpairs := (hchron.ordered id).sublist htold
  refine ⟨htold, hpairs.imp ?_, countP_terminal_le _ hpairs⟩
  intro e e' hopen hterminal
  rw [hopen] at hterminal
  simp at hterminal

/-- What a call does after its locked section, with one subscriber and no
    writer. -/
def announceRound (i : CallId) : List Action :=
  [.persist i, .readSubscribers i, .deliver i, .finish i]

/-- A subscriber registers, and a job is created, started and completed. -/
def orderlyRun : List Action :=
  [.subscribe 0, .create 0 "bake" 1 "render" none, .lockCreated 0] ++ (announceRound 0 ++
    (.transition 1 2 "bake" .start :: announceRound 1 ++
      (.transition 2 3 "bake" (.complete .null) :: announceRound 2)))

theorem delivery_in_order_orderly :
    ∃ s : State CancellationTokens.lineageTokens,
      exec (step ⟨none⟩) (init CancellationTokens.lineageTokens) orderlyRun = some s ∧
      (s.eventsFor 0 "bake").map JobEvent.status = [.pending, .running, .completed] ∧
      (s.eventsFor 0 "bake").Sublist (s.historyOf "bake") := by
  -- No call has an announcement in flight when a transition is taken.
  have hfree : ∀ (s : State CancellationTokens.lineageTokens) (i : CallId) (now : DateTime)
      (t : Transition), (∀ j, s.announcement j = none) →
      OneAtATime s (.transition i now "bake" t) := by
    intro s i now t hnone _ j e hj
    rw [hnone j] at hj
    simp at hj
  have hround : ∀ i, ∀ a ∈ announceRound i, ∀ s : State CancellationTokens.lineageTokens,
      OneAtATime s a := by
    intro i a ha s
    simp only [announceRound, List.mem_cons, List.not_mem_nil, or_false] at ha
    rcases ha with rfl | rfl | rfl | rfl <;> exact trivial
  have horder : Along (step ⟨none⟩) OneAtATime (init CancellationTokens.lineageTokens)
      orderlyRun := by
    refine along_cons _ _ _ _ _ _ trivial rfl ?_
    refine along_cons _ _ _ _ _ _ trivial rfl ?_
    refine along_cons _ _ _ _ _ _ trivial rfl ?_
    refine (along_append _ _ _ (announceRound 0) _).mpr
      ⟨along_of_forall_mem _ _ _ _ (hround 0), fun s hs => ?_⟩
    rw [← Option.some.inj hs]
    refine along_cons _ _ _ _ _ _ (hfree _ _ _ _ fun j => ?_) rfl ?_
    · rcases j with _ | j <;> rfl
    refine (along_append _ _ _ (announceRound 1) _).mpr
      ⟨along_of_forall_mem _ _ _ _ (hround 1), fun s hs => ?_⟩
    rw [← Option.some.inj hs]
    refine along_cons _ _ _ _ _ _ (hfree _ _ _ _ fun j => ?_) rfl ?_
    · rcases j with _ | _ | j <;> rfl
    exact along_of_forall_mem _ _ _ _ (hround 2)
  exact ⟨_, rfl, rfl, (delivery_in_order ⟨none⟩ orderlyRun _ horder rfl 0 "bake").1⟩

/-- The call that starts a job is overtaken by the one that completes it. -/
def overtakenStartRun : List Action :=
  [.subscribe 0, .create 0 "bake" 1 "render" none, .lockCreated 0] ++ announceRound 0 ++
    [.transition 1 2 "bake" .start, .transition 2 3 "bake" (.complete .null)] ++
    announceRound 2 ++ announceRound 1

/-- A job is started and completed before the call that creates it reads it
    again. -/
def overtakenCreateRun : List Action :=
  [.subscribe 0, .create 0 "bake" 1 "render" none, .transition 1 2 "bake" .start] ++
    announceRound 1 ++ [.transition 2 3 "bake" (.complete .null)] ++ announceRound 2 ++
    [.lockCreated 0] ++ announceRound 0

/-- The events are not delivered in order in every run: a running event can
    come after the completed one, and the completed one can come twice. -/
theorem delivery_out_of_order :
    (¬ ∀ (cfg : Config) (as : List Action) (s : State CancellationTokens.lineageTokens),
      exec (step cfg) (init CancellationTokens.lineageTokens) as = some s →
      ∀ sub id, (s.eventsFor sub id).Pairwise
        (fun e e' => e.status.isTerminal = true → e'.status.isTerminal = true)) ∧
    (¬ ∀ (cfg : Config) (as : List Action) (s : State CancellationTokens.lineageTokens),
      exec (step cfg) (init CancellationTokens.lineageTokens) as = some s →
      ∀ sub id, (s.eventsFor sub id).countP (fun e => e.status.isTerminal) ≤ 1) := by
  refine ⟨fun hall => ?_, fun hall => ?_⟩
  · have hpairs := hall ⟨none⟩ overtakenStartRun _ rfl 0 "bake"
    exact absurd hpairs (by decide)
  · have hcount := hall ⟨none⟩ overtakenCreateRun _ rfl 0 "bake"
    exact absurd hcount (by decide)

end Concurrent

end Jobs

end DccMcp
