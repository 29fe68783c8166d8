import DccMcp.Gateway.Stations

/-!
# Buffered Notifications Arrive

Every state of a run without a harmful step is as it should be.

The order comes from the stations of a notification. What is left is that
nothing gets lost on the way: what began to be delivered was sent, was
dropped, is being delivered, or waits. This holds in all runs, harmful steps
or not. That a notification does not wait forever is the other half: in the
runs of the theorem whatever waits and has a target is the business of a bind
that has not returned.

## Main definitions

* `Settled`, `Accounted`: Where a notification is that began to be delivered.
* `Start`: A manager before the first notification of the backend.

## Theorems

* `accounted_step`, `inv_step`: What every step keeps.
* `buffer_sound`: Every state of a run without a harmful step.
* `buffer_not_sound`: Three runs that go wrong.
-/

namespace DccMcp

namespace Gateway

namespace Interleaving

open Machine

open Json (Value)

variable (o : Backend)

/-! ## Nothing is lost -/

/-- A notification is with the stream, in the buffer or in a hand, or its way
    is over. -/
def Settled (s : State) (n : Notice) : Prop :=
  (∃ sessionId, (sessionId, n) ∈ s.log.sends) ∨ n ∈ s.log.dropped ∨ s.stream.holds = some n ∨
    ∃ p, Waiting (s.buffer o) s.bindAt p ∧ p.notice = n

/-- Every notification is somewhere, and what was sent is in the sinks. -/
structure Accounted (s : State) : Prop where
  settled : ∀ n ∈ s.log.emitted, Settled o s n
  sinks : ∀ sessionId n, (sessionId, n) ∈ s.log.sends →
    (s.inner.clientSinks.lookup sessionId).isSome → n ∈ s.inner.sentTo sessionId

theorem settled_waiting (s : State) (p : Pending) (hp : Waiting (s.buffer o) s.bindAt p) :
    Settled o s p.notice :=
  Or.inr (Or.inr (Or.inr ⟨p, hp, rfl⟩))

/-- What is with the stream or waits is still there after a step, or its way is
    over. -/
theorem settled_of_moved (s t : State) (h : ∀ n ∈ s.log.emitted, Settled o s n)
    (hemitted : ∀ n ∈ t.log.emitted, n ∈ s.log.emitted ∨ t.stream.holds = some n)
    (hsends : s.log.sends ⊆ t.log.sends) (hdropped : s.log.dropped ⊆ t.log.dropped)
    (hstream : ∀ n, s.stream.holds = some n → Settled o t n)
    (hwaiting : ∀ p, Waiting (s.buffer o) s.bindAt p → Settled o t p.notice) :
    ∀ n ∈ t.log.emitted, Settled o t n := by
  intro n hn
  rcases hemitted n hn with hold | hnew
  · rcases h n hold with ⟨sessionId, hsent⟩ | hgone | hheld | ⟨p, hp, rfl⟩
    · exact Or.inl ⟨sessionId, hsends hsent⟩
    · exact Or.inr (Or.inl (hdropped hgone))
    · exact hstream n hheld
    · exact hwaiting p hp
  · exact Or.inr (Or.inr (Or.inl hnew))

/-- The sinks are the same ones, and have at least what they had. -/
def Grows (inner inner' : Inner) : Prop :=
  ∀ session, (inner'.clientSinks.lookup session).isSome →
    (inner.clientSinks.lookup session).isSome ∧ inner.sentTo session ⊆ inner'.sentTo session

theorem grows_of_eq (inner inner' : Inner) (h : inner'.clientSinks = inner.clientSinks) :
    Grows inner inner' := by
  intro session hsink
  unfold Inner.sentTo
  rw [h] at hsink ⊢
  exact ⟨hsink, fun _ hn => hn⟩

theorem grows_sendTo (inner : Inner) (sessionId : String) (n : Notice) :
    Grows inner (sendTo inner sessionId n) := by
  intro session hsink
  unfold sendTo at hsink
  rw [OrderedMap.lookup_modify] at hsink
  refine ⟨?_, fun m hm => ?_⟩
  · split at hsink
    next => rwa [Option.isSome_map] at hsink
    next => exact hsink
  · rw [sentTo_sendTo]
    split
    next => exact List.mem_append_left _ hm
    next => exact hm

theorem dispatch_frame (inner : Inner) (n : Notice) (url : String) :
    Grows inner (dispatchResourceUpdated inner n url).2 ∧
      (dispatchResourceUpdated inner n url).2.pending = inner.pending := by
  -- It sends to one session after the other.
  have hfold : ∀ (routes : List ResourceSubscriberRoute) (i : Inner), Grows inner i →
      i.pending = inner.pending →
      Grows inner (routes.foldl (fun i route => sendTo i route.clientSessionId
        ⟨n.place, withClientUri route.clientUri n.value⟩) i) ∧
      (routes.foldl (fun i route => sendTo i route.clientSessionId
        ⟨n.place, withClientUri route.clientUri n.value⟩) i).pending = inner.pending := by
    intro routes
    induction routes with
    | nil => exact fun i hgrows hpending => ⟨hgrows, hpending⟩
    | cons route routes ih =>
        intro i hgrows hpending
        refine ih _ (fun session hsink => ?_) hpending
        have hfirst := grows_sendTo i _ _ session hsink
        have hbefore := hgrows session hfirst.1
        exact ⟨hbefore.1, fun m hm => hfirst.2 (hbefore.2 hm)⟩
  unfold dispatchResourceUpdated
  split
  next => exact ⟨grows_of_eq inner inner rfl, rfl⟩
  next =>
    split
    next => exact ⟨grows_of_eq inner inner rfl, rfl⟩
    next => exact hfold _ inner (grows_of_eq inner inner rfl) rfl

/-- What was sent stays in the sinks. -/
theorem sinks_grow (inner inner' : Inner) (sends : List (String × Notice))
    (h : ∀ session n, (session, n) ∈ sends →
      (inner.clientSinks.lookup session).isSome → n ∈ inner.sentTo session)
    (hgrows : Grows inner inner') :
    ∀ session n, (session, n) ∈ sends →
      (inner'.clientSinks.lookup session).isSome → n ∈ inner'.sentTo session := by
  intro session n hn hsink
  have hbefore := hgrows session hsink
  exact hbefore.2 (h session n hn hbefore.1)

/-- What is sent is in the sink. -/
theorem sinks_sendTo (inner : Inner) (sessionId : String) (n : Notice)
    (sends : List (String × Notice))
    (h : ∀ session n, (session, n) ∈ sends →
      (inner.clientSinks.lookup session).isSome → n ∈ inner.sentTo session) :
    ∀ session m, (session, m) ∈ sends ++ [(sessionId, n)] →
      ((sendTo inner sessionId n).clientSinks.lookup session).isSome →
        m ∈ (sendTo inner sessionId n).sentTo session := by
  intro session m hm hsink
  rcases List.mem_append.mp hm with hold | hnew
  · exact sinks_grow inner _ sends h (grows_sendTo inner sessionId n) session m hold hsink
  · cases List.mem_singleton.mp hnew
    rw [sentTo_sendTo, if_pos ⟨rfl, (grows_sendTo inner sessionId n sessionId hsink).1⟩]
    exact List.mem_append_right _ (List.mem_singleton_self _)

theorem accounted_deliver (s t : State) (value : Value) (h : Accounted o s)
    (hstep : step o s (.deliver value) = some t) : Accounted o t := by
  have hframe := deliverEvict_frame s.inner ⟨s.arrived, value⟩
  have hgrows := grows_of_eq s.inner _ hframe.2.1
  have hdispatch :=
    dispatch_frame (deliverEvict s.inner ⟨s.arrived, value⟩) ⟨s.arrived, value⟩ o.url
  -- The buffer and the hands are as before.
  have hsame : ∀ (u : State) (p : Pending), u.inner.pending = s.inner.pending →
      u.binds = s.binds → Waiting (s.buffer o) s.bindAt p → Settled o u p.notice := by
    intro u p hpending hbinds hp
    refine settled_waiting o u p ?_
    unfold State.buffer State.bindAt Inner.pendingOf at hp ⊢
    rw [hpending, hbinds]
    exact hp
  have hemitted : ∀ n ∈ s.log.emitted ++ [(⟨s.arrived, value⟩ : Notice)],
      n ∈ s.log.emitted ∨ some (⟨s.arrived, value⟩ : Notice) = some n := by
    intro n hn
    rcases List.mem_append.mp hn with hn | hn
    · exact Or.inl hn
    · exact Or.inr (congrArg some (List.mem_singleton.mp hn).symm)
  simp only [step] at hstep
  split at hstep
  next hidle =>
    have hnothing : ∀ {P : Prop} (n : Notice), s.stream.holds = some n → P := by
      intro P n hn
      rw [hidle] at hn
      cases hn
    split at hstep
    next =>
      split at hstep
      next =>
        cases hstep
        refine ⟨settled_of_moved o s _ h.settled (fun n hn => Or.inl hn) (fun _ hn => hn)
          (fun _ hn => hn) (fun n => hnothing n)
          (fun p => hsame _ p (hdispatch.2.trans hframe.1) rfl), ?_⟩
        exact sinks_grow _ _ _ (sinks_grow _ _ _ h.sinks hgrows) hdispatch.1
      next =>
        cases hstep
        refine ⟨settled_of_moved o s _ h.settled hemitted (fun _ hn => hn) (fun _ hn => hn)
          (fun n => hnothing n) (fun p => hsame _ p (hdispatch.2.trans hframe.1) rfl), ?_⟩
        exact sinks_grow _ _ _ (sinks_grow _ _ _ h.sinks hgrows) hdispatch.1
    next =>
      cases hstep
      refine ⟨settled_of_moved o s _ h.settled hemitted (fun _ hn => hn) (fun _ hn => hn)
        (fun n => hnothing n) (fun p => hsame _ p hframe.1 rfl), ?_⟩
      exact sinks_grow _ _ _ h.sinks hgrows
  next => cases hstep

/-- What waits in the hand of a call after a step of it. -/
theorem settled_hand (s t : State) (i : Nat) (old new : Bind) (hb : s.binds[i]? = some old)
    (hbinds : t.binds = s.binds.set i new) (p : Pending) (hp : p ∈ new.hand) :
    Settled o t p.notice := by
  rcases List.getElem?_eq_some_iff.mp hb with ⟨hlt, -⟩
  refine settled_waiting o t p (Or.inr ⟨i, new, ?_, hp⟩)
  unfold State.bindAt
  rw [hbinds, List.getElem?_set_self hlt]

/-- What waits in the buffer. -/
theorem settled_buffer (t : State) (p : Pending) (hp : p ∈ t.buffer o) : Settled o t p.notice :=
  settled_waiting o t p (Or.inl hp)

/-- A step of a bind deals with what is in the buffer and in its own hand; the
    other hands are as before. -/
theorem accounted_moved (s : State) (i : Nat) (old new : Bind) (inner : Inner) (log : Log)
    (h : Accounted o s) (hb : s.binds[i]? = some old) (hemitted : log.emitted = s.log.emitted)
    (hsends : s.log.sends ⊆ log.sends) (hdropped : s.log.dropped ⊆ log.dropped)
    (hbuffer : ∀ p ∈ s.buffer o,
      Settled o { s with inner := inner, binds := s.binds.set i new, log := log } p.notice)
    (hhand : ∀ p ∈ old.hand,
      Settled o { s with inner := inner, binds := s.binds.set i new, log := log } p.notice)
    (hsinks : ∀ sessionId n, (sessionId, n) ∈ log.sends →
      (inner.clientSinks.lookup sessionId).isSome → n ∈ inner.sentTo sessionId) :
    Accounted o { s with inner := inner, binds := s.binds.set i new, log := log } := by
  refine ⟨settled_of_moved o s _ h.settled (fun n hn => Or.inl (hemitted ▸ hn)) hsends hdropped
    (fun n hn => Or.inr (Or.inr (Or.inl hn))) ?_, hsinks⟩
  rintro p (hp | ⟨i', b, hb', hp⟩)
  · exact hbuffer p hp
  · by_cases hi : i' = i
    · have hold : some b = some old := hb'.symm.trans (hi ▸ hb)
      cases hold
      exact hhand p hp
    · refine settled_waiting o _ p (Or.inr ⟨i', b, ?_, hp⟩)
      unfold State.bindAt
      rw [List.getElem?_set_ne (fun heq => hi heq.symm)]
      exact hb'

theorem accounted_bind (s t : State) (i now : Nat) (h : Accounted o s)
    (hstep : step o s (.bind i now) = some t) : Accounted o t := by
  simp only [step] at hstep
  split at hstep
  next => cases hstep
  next b hb =>
    -- A step that moves nothing: the hand stays, and the buffer.
    have hmoved := fun new inner => accounted_moved o s i b new inner s.log h hb rfl
      (fun _ hn => hn) (fun _ hn => hn)
    split at hstep
    next => cases hstep
    next inner new hnew =>
      cases hstep
      cases b with
      | returned => cases hnew
      | admitted jobId route =>
          cases hnew
          exact hmoved _ _ (fun p hp => settled_buffer o _ p hp)
            (fun p hp => absurd hp List.not_mem_nil)
            (sinks_grow _ _ _ h.sinks (grows_of_eq _ _ rfl))
      | inserted jobId =>
          simp only [stepBind] at hnew
          unfold Log.afterBind
          split at hnew
          next hsubscribed =>
            cases hnew
            rw [if_pos hsubscribed]
            refine accounted_moved o s i _ _ _ _ h hb rfl (fun _ hn => hn)
              (fun _ hn => List.mem_append_left _ hn) (fun p hp => ?_)
              (fun p hp => absurd hp List.not_mem_nil)
              (sinks_grow _ _ _ h.sinks (grows_of_eq _ _ rfl))
            -- What is fresh is taken, the rest is dropped.
            cases hfresh : isFresh now p with
            | true =>
                refine settled_hand o s _ i _ _ hb rfl p ?_
                exact List.mem_filter.mpr ⟨hp, hfresh⟩
            | false =>
                refine Or.inr (Or.inl (List.mem_append_right _ (List.mem_map_of_mem ?_)))
                refine List.mem_filter.mpr ⟨hp, ?_⟩
                rw [hfresh]
                rfl
          next hmissing =>
            cases hnew
            rw [if_neg hmissing]
            exact hmoved _ _ (fun p hp => settled_buffer o _ p hp)
              (fun p hp => absurd hp List.not_mem_nil) h.sinks
      | flushing jobId drained =>
          cases drained with
          | nil =>
              cases hnew
              exact hmoved _ _ (fun p hp => settled_buffer o _ p hp)
                (fun p hp => absurd hp List.not_mem_nil) h.sinks
          | cons p rest =>
              simp only [stepBind] at hnew
              split at hnew
              next sessionId hto =>
                cases hnew
                exact hmoved _ _ (fun p hp => settled_buffer o _ p hp)
                  (settled_hand o s _ i _ (.sending jobId sessionId p rest) hb rfl) h.sinks
              next hnone =>
                cases hnew
                exact hmoved _ _ (fun p hp => settled_buffer o _ p hp)
                  (settled_hand o s _ i _ (.requeueing jobId p rest) hb rfl) h.sinks
      | sending jobId sessionId p rest =>
          cases hnew
          refine accounted_moved o s i _ _ _ _ h hb rfl (fun _ hn => List.mem_append_left _ hn)
            (fun _ hn => hn) (fun p hp => settled_buffer o _ p hp) (fun q hq => ?_)
            (sinks_sendTo s.inner sessionId p.notice s.log.sends h.sinks)
          rcases List.mem_cons.mp hq with rfl | hq
          · exact Or.inl ⟨sessionId, List.mem_append_right _ (List.mem_singleton_self _)⟩
          · exact settled_hand o s _ i _ (.flushing jobId rest) hb rfl q hq
      | requeueing jobId p rest =>
          cases hnew
          refine hmoved _ _ (fun q hq => settled_buffer o _ q ?_) (fun q hq => ?_)
            (sinks_grow _ _ _ h.sinks (grows_of_eq _ _ rfl))
          · unfold State.buffer
            rw [pendingOf_insert, if_pos rfl]
            exact List.mem_append_left _ hq
          · rcases List.mem_cons.mp hq with rfl | hq
            · refine settled_buffer o _ q ?_
              unfold State.buffer
              rw [pendingOf_insert, if_pos rfl]
              exact List.mem_append_right _ (List.mem_singleton_self _)
            · exact settled_hand o s _ i _ (.flushing jobId rest) hb rfl q hq

/-- What is lost and what is left are the buffer. -/
theorem lost_append_room (buffer : List Pending) (now : Nat) :
    lost buffer now ++ room buffer now = buffer :=
  List.suffix_iff_eq_append.mp (room_suffix buffer now)

theorem accounted_stream (s t : State) (now : Nat) (h : Accounted o s)
    (hstep : step o s (.stream now) = some t) : Accounted o t := by
  simp only [step] at hstep
  have hheld : ∀ stream, stream.holds = s.stream.holds →
      ∀ n, s.stream.holds = some n → Settled o { s with stream := stream } n := by
    intro stream hholds n hn
    exact Or.inr (Or.inr (Or.inl (hholds.trans hn)))
  split at hstep
  next => cases hstep
  next n direct hstream =>
    split at hstep
    next sessionId hto =>
      cases hstep
      refine ⟨settled_of_moved o s _ h.settled (fun n hn => Or.inl hn) (fun _ hn => hn)
        (fun _ hn => hn) (hheld _ (by rw [hstream]; rfl)) ?_, h.sinks⟩
      exact fun p hp => settled_waiting o _ p hp
    next hnone =>
      cases hstep
      refine ⟨settled_of_moved o s _ h.settled (fun n hn => Or.inl hn) (fun _ hn => hn)
        (fun _ hn => hn) (hheld _ (by rw [hstream]; rfl)) ?_, h.sinks⟩
      exact fun p hp => settled_waiting o _ p hp
  next sessionId n hstream =>
    cases hstep
    refine ⟨settled_of_moved o s _ h.settled (fun n hn => Or.inl hn)
      (fun _ hn => List.mem_append_left _ hn) (fun _ hn => hn) (fun m hm => ?_) (fun p hp => ?_),
      sinks_sendTo s.inner sessionId n s.log.sends h.sinks⟩
    · rw [hstream] at hm
      cases hm
      exact Or.inl ⟨sessionId, List.mem_append_right _ (List.mem_singleton_self _)⟩
    · exact settled_waiting o _ p hp
  next n direct hstream =>
    cases hstep
    have hbuffer : ∀ q ∈ room (s.inner.pendingOf o.url) now ++ [⟨now, n⟩],
        q ∈ (bufferPending s.inner o.url now n).pendingOf o.url := by
      intro q hq
      unfold bufferPending
      rw [pendingOf_insert, if_pos rfl]
      exact hq
    refine ⟨settled_of_moved o s _ h.settled (fun n hn => Or.inl hn) (fun _ hn => hn)
      (fun _ hn => List.mem_append_left _ hn) (fun m hm => ?_) ?_,
      sinks_grow _ _ _ h.sinks (grows_of_eq _ _ rfl)⟩
    · rw [hstream] at hm
      cases hm
      exact settled_buffer o _ ⟨now, n⟩
        (hbuffer _ (List.mem_append_right _ (List.mem_singleton_self _)))
    · rintro p (hp | hp)
      · -- What makes room for the notification is dropped, the rest stays.
        unfold State.buffer at hp
        rw [← lost_append_room (s.inner.pendingOf o.url) now] at hp
        rcases List.mem_append.mp hp with hlost | hkept
        · exact Or.inr (Or.inl (List.mem_append_right _ (List.mem_map_of_mem hlost)))
        · exact settled_buffer o _ p (hbuffer p (List.mem_append_left _ hkept))
      · exact settled_waiting o _ p (Or.inr hp)

theorem accounted_step (s t : State) (l : Label) (h : Accounted o s)
    (hstep : step o s l = some t) : Accounted o t := by
  cases l with
  | deliver value => exact accounted_deliver o s t value h hstep
  | stream now => exact accounted_stream o s t now h hstep
  | bind i now => exact accounted_bind o s t i now h hstep
  | bindToken token sessionId =>
      cases hstep
      exact ⟨settled_of_moved o s _ h.settled (fun n hn => Or.inl hn) (fun _ hn => hn)
        (fun _ hn => hn) (fun n hn => Or.inr (Or.inr (Or.inl hn))) (settled_waiting o s),
        sinks_grow _ _ _ h.sinks (grows_of_eq _ _ rfl)⟩
  | bindJob jobId sessionId tool parentJobId utc =>
      simp only [step] at hstep
      split at hstep
      next => cases hstep; exact h
      next =>
        cases hstep
        refine ⟨settled_of_moved o s _ h.settled (fun n hn => Or.inl hn) (fun _ hn => hn)
          (fun _ hn => hn) (fun n hn => Or.inr (Or.inr (Or.inl hn))) ?_, h.sinks⟩
        rintro p (hp | ⟨i, b, hb, hp⟩)
        · exact settled_buffer o _ p hp
        · refine settled_waiting o _ p (Or.inr ⟨i, b, ?_, hp⟩)
          unfold State.bindAt at hb ⊢
          rw [List.getElem?_append_left (List.getElem?_eq_some_iff.mp hb).1]
          exact hb

/-! ## Runs -/

theorem inv_step (s : State) (l : Label) (t : State) (h : StateInv o s)
    (hharmless : Harmless o s l) (hstep : step o s l = some t) : StateInv o t := by
  cases l with
  | deliver value => exact inv_deliver o s t value h hharmless hstep
  | stream now => exact inv_stream o s t now h hharmless hstep
  | bindToken token sessionId => exact inv_bindToken o s t token sessionId h hharmless hstep
  | bindJob jobId sessionId tool parentJobId utc =>
      exact inv_bindJob o s t jobId sessionId tool parentJobId utc h hstep
  | bind i now => exact inv_bind o s t i now h hharmless hstep

/-- The invariant gives what is asked for. -/
theorem sound_of_inv (s : State) (h : StateInv o s) (haccounted : Accounted o s) : Sound o s where
  delivered := by
    intro n hn hheld k hk hto hbinds
    rcases haccounted.settled n hn with hsent | hgone | hstream | ⟨p, hp, rfl⟩
    · exact Or.inl hsent
    · exact Or.inr hgone
    · exact absurd hstream hheld
    · -- What waits and has a target is the business of a bind.
      rcases h.inv.covered p hp k hk hto with ⟨i, b, jobId, hb, hruns, hkey⟩
      refine absurd ?_ (hbinds b (List.mem_of_getElem? hb))
      rw [hruns, hkey]
      rfl
  sinks := haccounted.sinks
  direct := by
    intro n direct hstream
    have hheld := h.inv.held
    rw [hstream] at hheld
    exact hheld.2
  ordered := h.inv.sentOrdered
  once := h.inv.sentOnce
  capped := h.inv.capped

/-- A manager that is subscribed to the backend, before its first notification. -/
structure Start (s : State) : Prop where
  subscribed : o.url ∈ s.inner.backends
  empty : s.inner.pendingOf o.url = []
  sinks : ∀ session, s.inner.sentTo session = []
  stream : s.stream = .idle
  binds : s.binds = []
  log : s.log = ⟨[], [], []⟩

theorem accounted_start (s : State) (h : Start o s) : Accounted o s := by
  refine ⟨fun n hn => ?_, fun sessionId n hn => ?_⟩
  · rw [h.log] at hn
    exact absurd hn List.not_mem_nil
  · rw [h.log] at hn
    exact absurd hn List.not_mem_nil

theorem inv_start (s : State) (h : Start o s) : StateInv o s := by
  have hbind : ∀ i, s.bindAt i = none := by
    intro i
    unfold State.bindAt
    rw [h.binds]
    rfl
  have hbuffer : s.buffer o = [] := h.empty
  have hwaiting : ∀ p, ¬ Waiting (s.buffer o) s.bindAt p := by
    rintro p (hp | ⟨i, b, hb, -⟩)
    · rw [hbuffer] at hp
      exact List.not_mem_nil hp
    · rw [hbind] at hb
      cases hb
  have hno : ∀ {P : Prop} (i : Nat) (b : Bind), s.bindAt i = some b → P := by
    intro P i b hb
    rw [hbind] at hb
    cases hb
  refine ⟨h.subscribed, ?_⟩
  exact {
    capped := by
      rw [hbuffer]
      exact Nat.zero_le _
    bound := fun i b _ hb => hno i b hb
    drained := fun i b _ hb => hno i b hb
    covered := fun p hp => absurd hp (hwaiting p)
    resolved := fun i b hb => hno i b hb
    apart := fun i _ b _ hb => hno i b hb
    split := fun _ _ i b hb => hno i b hb
    bufferOrdered := by
      rw [hbuffer]
      exact List.Pairwise.nil
    handOrdered := fun i b hb => hno i b hb
    sentOrdered := by
      intro session
      rw [h.sinks]
      exact List.Pairwise.nil
    sentOnce := by
      intro session session' _ n hn
      rw [h.sinks] at hn
      exact absurd hn List.not_mem_nil
    past := fun _ _ _ p hp => absurd hp (hwaiting p)
    freshSent := by
      intro session n hn
      rw [h.sinks] at hn
      exact absurd hn List.not_mem_nil
    freshWaiting := fun p hp => absurd hp (hwaiting p)
    held := by
      rw [h.stream]
      exact trivial }

/-- Every state of a run without a harmful step is as it should be. -/
theorem buffer_sound (s t : State) (run : List Label) (hstart : Start o s)
    (h : Along (step o) (Harmless o) s run) (hrun : exec (step o) s run = some t) : Sound o t := by
  have hboth := exec_history (step o) (Harmless o) (fun _ u => StateInv o u ∧ Accounted o u) s
    ⟨inv_start o s hstart, accounted_start o s hstart⟩
    (fun _ u l v hu hok hstep =>
      ⟨inv_step o u l v hu.1 hok hstep, accounted_step o u v l hu.2 hstep⟩) run t h hrun
  exact sound_of_inv o t hboth.1 hboth.2

/-! ## Runs that go wrong -/

def oneBackend : Backend := ⟨"backend", fun _ => "1"⟩

/-- A manager that is subscribed to the backend, with a session that listens. -/
def listening : State where
  inner := registerClient { withLimits 0 0 with backends := {"backend"} } "a"
  stream := .idle
  binds := []
  arrived := 0
  log := ⟨[], [], []⟩

theorem start_listening : Start oneBackend listening where
  subscribed := Finset.mem_singleton_self _
  empty := rfl
  sinks := by
    intro session
    unfold Inner.sentTo listening registerClient
    by_cases hsession : session = "a"
    · rw [hsession, OrderedMap.lookup_insert]
      rfl
    · rw [OrderedMap.lookup_insert_ne _ _ _ _ hsession]
      rfl
  stream := rfl
  binds := rfl
  log := rfl

/-- A whole delivery. -/
def delivery (value : Value) : List Label := [.deliver value, .stream 0, .stream 0]

/-- A bind of the job begins. -/
def bindJob : Label := .bindJob "job" "a" "tool" none 0

def progress : Value :=
  .object [("method", .string "notifications/progress"),
    ("params", .object [("progressToken", .string "token")])]

/-- A notification waits for the bind of its job, and the next one does not. -/
def inTurn : List Label :=
  delivery (statusUpdate "running") ++ bindJob :: List.replicate 5 (.bind 0 0) ++
    delivery (statusUpdate "running")

theorem buffer_sound_inTurn :
    ∃ t, exec (step oneBackend) listening inTurn = some t ∧
      (t.inner.sentTo "a").map Notice.place = [0, 1] ∧ Sound oneBackend t := by
  have hsent : (exec (step oneBackend) listening inTurn).map
      (fun t => (t.inner.sentTo "a").map Notice.place) = some [0, 1] := by
    decide +kernel
  rcases Option.map_eq_some_iff.mp hsent with ⟨t, ht, hplaces⟩
  exact ⟨t, ht, hplaces,
    buffer_sound oneBackend listening t inTurn start_listening (by decide +kernel) ht⟩

/-- The whole bind comes between the look for the target and the buffering. -/
def lostWakeUp : List Label :=
  [.deliver (statusUpdate "running"), .stream 0, bindJob, .bind 0 0, .bind 0 0, .bind 0 0,
    .stream 0]

/-- The token is bound after its notification was buffered. -/
def lateToken : List Label := delivery progress ++ [.bindToken (.string "token") "a"]

/-- A delivery sends between the route of a bind and its flush. -/
def overtaking : List Label :=
  delivery (statusUpdate "running") ++ [bindJob, .bind 0 0] ++
    delivery (statusUpdate "running") ++ List.replicate 3 (.bind 0 0)

/-- A notification waits that has a target, and no call is going on. -/
def State.strands (s : State) : Bool :=
  s.log.sends.isEmpty && s.log.dropped.isEmpty && s.stream.holds.isNone &&
    s.binds.all (fun b => b.runs.isNone) &&
      s.log.emitted.any (fun n => (keyOfNotice o n).any (fun k => (target s.inner k).isSome))

theorem not_sound_of_strands (s : State) (h : s.strands o = true) : ¬ Sound o s := by
  intro hsound
  simp only [State.strands, Bool.and_eq_true, List.isEmpty_iff, Option.isNone_iff_eq_none,
    List.all_eq_true, List.any_eq_true, Option.any_eq_true] at h
  rcases h with ⟨⟨⟨⟨hsends, hdropped⟩, hstream⟩, hbinds⟩, n, hn, k, hk, hto⟩
  have hdelivered := hsound.delivered n hn (by rw [hstream]; exact Option.some_ne_none n |>.symm)
    k hk hto (fun b hb hruns => by rw [hbinds b hb] at hruns; cases hruns)
  rw [hsends, hdropped] at hdelivered
  rcases hdelivered with ⟨sessionId, hsent⟩ | hgone
  · exact List.not_mem_nil hsent
  · exact List.not_mem_nil hgone

/-- The first two notifications in a sink are in the wrong order. -/
def State.reorders (s : State) (session : String) : Bool :=
  match s.inner.sentTo session with
  | n :: n' :: _ => n'.place < n.place && (keyOfNotice o n).isSome &&
    keyOfNotice o n == keyOfNotice o n'
  | _ => false

theorem not_sound_of_reorders (s : State) (session : String) (h : s.reorders o session = true) :
    ¬ Sound o s := by
  intro hsound
  have hordered := hsound.ordered session
  unfold State.reorders at h
  split at h
  next n n' rest hsent =>
    rw [hsent, List.pairwise_cons] at hordered
    simp only [Bool.and_eq_true, decide_eq_true_eq, beq_iff_eq] at h
    rcases Option.isSome_iff_exists.mp h.1.2 with ⟨k, hk⟩
    have hlt := hordered.1 n' List.mem_cons_self k hk (h.2 ▸ hk)
    omega
  next => cases h

theorem buffer_not_sound :
    (∃ t, exec (step oneBackend) listening lostWakeUp = some t ∧ ¬ Sound oneBackend t) ∧
      (∃ t, exec (step oneBackend) listening lateToken = some t ∧ ¬ Sound oneBackend t) ∧
        ∃ t, exec (step oneBackend) listening overtaking = some t ∧ ¬ Sound oneBackend t := by
  have hlost : (exec (step oneBackend) listening lostWakeUp).map (State.strands oneBackend) =
      some true := by
    decide +kernel
  have hlate : (exec (step oneBackend) listening lateToken).map (State.strands oneBackend) =
      some true := by
    decide +kernel
  have hover : (exec (step oneBackend) listening overtaking).map
      (fun t => t.reorders oneBackend "a") = some true := by
    decide +kernel
  refine ⟨?_, ?_, ?_⟩
  · rcases Option.map_eq_some_iff.mp hlost with ⟨t, ht, hstrands⟩
    exact ⟨t, ht, not_sound_of_strands oneBackend t hstrands⟩
  · rcases Option.map_eq_some_iff.mp hlate with ⟨t, ht, hstrands⟩
    exact ⟨t, ht, not_sound_of_strands oneBackend t hstrands⟩
  · rcases Option.map_eq_some_iff.mp hover with ⟨t, ht, hreorders⟩
    exact ⟨t, ht, not_sound_of_reorders oneBackend t "a" hreorders⟩

end Interleaving

end Gateway

end DccMcp
