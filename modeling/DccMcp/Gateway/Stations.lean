import DccMcp.Gateway.Interleaving

/-!
# The Stations of a Notification

The invariant behind the order of the notifications.

It follows each key, a job or a token, through its stations: the stream, the
buffer, the hands of the flushes, and the sinks. What was sent is older than
what waits, what waits in one place is in order, and only a flush that puts
things back has notifications of one key in two places, the older ones in the
buffer.

`Inv` knows nothing of the manager. It is about the buffer, the binds and the
sinks alone, with a predicate for the keys that have a target, so each kind of
step is one lemma about lists. `StateInv` reads these off a state.

## Main definitions

* `Waiting`: A notification is in the buffer or in the hand of a flush.
* `Inv`, `StateInv`: The invariant, and the invariant of a state.

## Theorems

* `Inv.route`: A key gets a target.
* `Inv.replace`, `Inv.drain`: A bind goes on, and takes the buffer.
* `Inv.push`, `Inv.deliver`: A notification is buffered, and sent.
* `inv_deliver`, `inv_stream`, `inv_bindToken`, `inv_bindJob`, `inv_bind`:
  What the steps of a run keep.
-/

namespace DccMcp

namespace Gateway

namespace Interleaving

open Machine

open Json (Value)

variable (o : Backend)

/-! ## The invariant -/

section Inv

variable (key : Notice → Option Key)

/-- A notification is in the buffer or in the hand of a flush. -/
def Waiting (buffer : List Pending) (binds : Nat → Option Bind) (p : Pending) : Prop :=
  p ∈ buffer ∨ ∃ i b, binds i = some b ∧ p ∈ b.hand

/-- A flush that has looked for a target has found it, or there is still none. -/
def Bind.Resolved (routed : Key → Prop) : Bind → Prop
  | .sending _ _ p _ => ∃ k, key p.notice = some k ∧ routed k
  | .requeueing _ p _ => ∀ k, key p.notice = some k → ¬ routed k
  | _ => True

/-- The notification of the stream is the newest one, and if it had a target it
    will be sent. -/
def Stream.Held (routed : Key → Prop) (arrived : Nat) : Stream → Prop
  | .idle => True
  | .resolving n direct => n.place = arrived ∧ (direct = true → ∃ k, key n = some k ∧ routed k)
  | .sending _ n => n.place = arrived
  | .buffering n direct => n.place = arrived ∧ direct = false

/-- The invariant. The buffer is within its bound. A bind that has inserted its
    route finds it there, and once it has taken the buffer nothing of its job
    is in it. What waits and has a target is about to be flushed. Two flushes
    have no key in common, and what is both in the buffer and in a hand has no
    target and is older in the buffer. Everything is in order where it is, and
    what was sent is older than what waits. -/
structure Inv (routed : Key → Prop) (buffer : List Pending) (binds : Nat → Option Bind)
    (sent : String → List Notice) (stream : Stream) (arrived : Nat) : Prop where
  capped : buffer.length ≤ pendingBufferCap
  bound : ∀ i b jobId, binds i = some b → b.waits = some jobId ∨ b.flushes = some jobId →
    routed (.job jobId)
  drained : ∀ i b jobId, binds i = some b → b.flushes = some jobId →
    ∀ p ∈ buffer, key p.notice ≠ some (.job jobId)
  covered : ∀ p, Waiting buffer binds p → ∀ k, key p.notice = some k → routed k →
    ∃ i b jobId, binds i = some b ∧ b.runs = some jobId ∧ k = .job jobId
  resolved : ∀ i b, binds i = some b → b.Resolved key routed
  apart : ∀ i i' b b', binds i = some b → binds i' = some b' → i ≠ i' →
    ∀ p ∈ b.hand, ∀ q ∈ b'.hand, ∀ k, key p.notice = some k → key q.notice ≠ some k
  split : ∀ p ∈ buffer, ∀ i b, binds i = some b → ∀ q ∈ b.hand,
    ∀ k, key p.notice = some k → key q.notice = some k →
      ¬ routed k ∧ p.notice.place < q.notice.place
  bufferOrdered : (buffer.map Pending.notice).Pairwise (Precedes key)
  handOrdered : ∀ i b, binds i = some b → (b.hand.map Pending.notice).Pairwise (Precedes key)
  sentOrdered : ∀ session, (sent session).Pairwise (Precedes key)
  sentOnce : ∀ session session', session ≠ session' → ∀ n ∈ sent session, ∀ n' ∈ sent session',
    ∀ k, key n = some k → key n' = some k → n.place ≠ n'.place
  past : ∀ session, ∀ n ∈ sent session, ∀ p, Waiting buffer binds p → Precedes key n p.notice
  freshSent : ∀ session, ∀ n ∈ sent session, key n ≠ none → n.place < arrived
  freshWaiting : ∀ p, Waiting buffer binds p → key p.notice ≠ none → p.notice.place < arrived
  held : stream.Held key routed arrived

variable {key} {routed : Key → Prop} {buffer : List Pending} {binds : Nat → Option Bind}
  {sent : String → List Notice} {stream : Stream} {arrived : Nat}

/-- A key gets a target. No flush has a notification of it, and what the buffer
    has of it a bind is about to flush. -/
theorem Inv.route (h : Inv key routed buffer binds sent stream arrived) (k₀ : Key)
    (routed' : Key → Prop) (hrouted : ∀ k, routed' k ↔ routed k ∨ k = k₀)
    (hhands : ∀ i b, binds i = some b → ∀ p ∈ b.hand, key p.notice ≠ some k₀)
    (hbuffer : ∀ p ∈ buffer, key p.notice = some k₀ →
      ∃ i b jobId, binds i = some b ∧ b.runs = some jobId ∧ k₀ = .job jobId) :
    Inv key routed' buffer binds sent stream arrived :=
  { h with
    bound := fun i b jobId hb hjob => (hrouted _).mpr (Or.inl (h.bound i b jobId hb hjob))
    covered := by
      intro p hp k hk hto
      rcases (hrouted k).mp hto with hold | rfl
      · exact h.covered p hp k hk hold
      · rcases hp with hp | ⟨i, b, hb, hp⟩
        · exact hbuffer p hp hk
        · exact absurd hk (hhands i b hb p hp)
    resolved := by
      intro i b hb
      have hold := h.resolved i b hb
      cases b with
      | sending jobId sessionId p rest =>
          rcases hold with ⟨k, hk, hto⟩
          exact ⟨k, hk, (hrouted k).mpr (Or.inl hto)⟩
      | requeueing jobId p rest =>
          -- Its notification would now have a target, so it must not be of this key.
          intro k hk hto
          rcases (hrouted k).mp hto with hto | rfl
          · exact hold k hk hto
          · exact hhands i _ hb p List.mem_cons_self hk
      | _ => exact trivial
    split := by
      intro p hp i b hb q hq k hk hk'
      have hold := h.split p hp i b hb q hq k hk hk'
      refine ⟨fun hto => ?_, hold.2⟩
      rcases (hrouted k).mp hto with hto | rfl
      · exact hold.1 hto
      · exact hhands i b hb q hq hk'
    held := by
      have hold := h.held
      cases stream with
      | resolving n direct =>
          refine ⟨hold.1, fun hdirect => ?_⟩
          rcases hold.2 hdirect with ⟨k, hk, hto⟩
          exact ⟨k, hk, (hrouted k).mpr (Or.inl hto)⟩
      | idle => exact trivial
      | sending sessionId n => exact hold
      | buffering n direct => exact hold }

/-- A bind is the one that has just moved, or it is where it was. -/
theorem update_cases (binds : Nat → Option Bind) (i i' : Nat) (new b : Bind)
    (hb : Function.update binds i (some new) i' = some b) :
    (i' = i ∧ b = new) ∨ (i' ≠ i ∧ binds i' = some b) := by
  by_cases hi : i' = i
  · rw [hi, Function.update_self, Option.some_inj] at hb
    exact Or.inl ⟨hi, hb.symm⟩
  · rw [Function.update_of_ne hi] at hb
    exact Or.inr ⟨hi, hb⟩

/-- A call of a bind is at another place, with no more in its hand than before.
    If it has returned, nothing of its job waits. -/
theorem Inv.replace (h : Inv key routed buffer binds sent stream arrived) (i : Nat) (new : Bind)
    (hhand : new.hand.Sublist (((binds i).map Bind.hand).getD []))
    (hbound : ∀ jobId, new.waits = some jobId ∨ new.flushes = some jobId → routed (.job jobId))
    (hdrained : ∀ jobId, new.flushes = some jobId → ∀ p ∈ buffer, key p.notice ≠ some (.job jobId))
    (hcovered : ∀ old jobId, binds i = some old → old.runs = some jobId →
      new.runs = some jobId ∨ ∀ p, Waiting buffer binds p → key p.notice ≠ some (.job jobId))
    (hresolved : new.Resolved key routed) :
    Inv key routed buffer (Function.update binds i (some new)) sent stream arrived := by
  -- What is in a hand afterwards was in the hand of the same call before.
  have hback : ∀ i' b, Function.update binds i (some new) i' = some b → ∀ p ∈ b.hand,
      ∃ b', binds i' = some b' ∧ p ∈ b'.hand := by
    intro i' b hb p hp
    rcases update_cases binds i i' new b hb with ⟨rfl, rfl⟩ | ⟨-, hb'⟩
    · have hmem := hhand.subset hp
      cases hold : binds i' with
      | none =>
          rw [hold] at hmem
          exact absurd hmem List.not_mem_nil
      | some b' =>
          rw [hold] at hmem
          exact ⟨b', rfl, hmem⟩
    · exact ⟨b, hb', hp⟩
  have hwaiting : ∀ p, Waiting buffer (Function.update binds i (some new)) p →
      Waiting buffer binds p := by
    rintro p (hp | ⟨i', b, hb, hp⟩)
    · exact Or.inl hp
    · rcases hback i' b hb p hp with ⟨b', hb', hp'⟩
      exact Or.inr ⟨i', b', hb', hp'⟩
  exact { h with
    bound := by
      intro i' b jobId hb hjob
      rcases update_cases binds i i' new b hb with ⟨-, rfl⟩ | ⟨-, hb'⟩
      · exact hbound jobId hjob
      · exact h.bound i' b jobId hb' hjob
    drained := by
      intro i' b jobId hb hjob
      rcases update_cases binds i i' new b hb with ⟨-, rfl⟩ | ⟨-, hb'⟩
      · exact hdrained jobId hjob
      · exact h.drained i' b jobId hb' hjob
    covered := by
      -- What this bind was to deal with it still is, or nothing of it is left.
      intro p hp k hk hto
      rcases h.covered p (hwaiting p hp) k hk hto with ⟨i', b, jobId, hb, hruns, hkey⟩
      by_cases hi : i' = i
      · rcases hcovered b jobId (hi ▸ hb) hruns with hnew | hnone
        · exact ⟨i, new, jobId, Function.update_self .., hnew, hkey⟩
        · exact absurd (hkey ▸ hk) (hnone p (hwaiting p hp))
      · exact ⟨i', b, jobId, by rw [Function.update_of_ne hi]; exact hb, hruns, hkey⟩
    resolved := by
      intro i' b hb
      rcases update_cases binds i i' new b hb with ⟨-, rfl⟩ | ⟨-, hb'⟩
      · exact hresolved
      · exact h.resolved i' b hb'
    apart := by
      intro i₁ i₂ b₁ b₂ hb₁ hb₂ hne p hp q hq
      rcases hback i₁ b₁ hb₁ p hp with ⟨b₁', hb₁', hp'⟩
      rcases hback i₂ b₂ hb₂ q hq with ⟨b₂', hb₂', hq'⟩
      exact h.apart i₁ i₂ b₁' b₂' hb₁' hb₂' hne p hp' q hq'
    split := by
      intro p hp i' b hb q hq
      rcases hback i' b hb q hq with ⟨b', hb', hq'⟩
      exact h.split p hp i' b' hb' q hq'
    handOrdered := by
      intro i' b hb
      rcases update_cases binds i i' new b hb with ⟨-, rfl⟩ | ⟨-, hb'⟩
      · refine List.Pairwise.sublist (hhand.map Pending.notice) ?_
        cases hold : binds i with
        | none => exact List.Pairwise.nil
        | some b' => exact h.handOrdered i b' hold
      · exact h.handOrdered i' b hb'
    past := fun session n hn p hp => h.past session n hn p (hwaiting p hp)
    freshWaiting := fun p hp => h.freshWaiting p (hwaiting p hp) }

/-- The buffer loses notifications. -/
theorem Inv.shorten (h : Inv key routed buffer binds sent stream arrived) (buffer' : List Pending)
    (hbuffer : buffer'.Sublist buffer) : Inv key routed buffer' binds sent stream arrived := by
  have hwaiting : ∀ p, Waiting buffer' binds p → Waiting buffer binds p := by
    intro p hp
    exact hp.imp_left (fun hmem => hbuffer.subset hmem)
  exact { h with
    capped := hbuffer.length_le.trans h.capped
    drained := fun i b jobId hb hjob p hp => h.drained i b jobId hb hjob p (hbuffer.subset hp)
    covered := fun p hp => h.covered p (hwaiting p hp)
    split := fun p hp => h.split p (hbuffer.subset hp)
    bufferOrdered := h.bufferOrdered.sublist (hbuffer.map Pending.notice)
    past := fun session n hn p hp => h.past session n hn p (hwaiting p hp)
    freshWaiting := fun p hp => h.freshWaiting p (hwaiting p hp) }

/-- A bind takes the buffer. No flush has a notification of a key it takes. -/
theorem Inv.drain (h : Inv key routed buffer binds sent stream arrived) (i : Nat) (jobId : String)
    (drained : List Pending) (hi : binds i = some (.inserted jobId))
    (hdrained : drained.Sublist buffer)
    (hapart : ∀ p ∈ buffer, ∀ k, key p.notice = some k →
      ∀ i' b, binds i' = some b → ∀ q ∈ b.hand, key q.notice ≠ some k) :
    Inv key routed [] (Function.update binds i (some (.flushing jobId drained))) sent stream
      arrived := by
  have hback := update_cases binds i
  have hwaiting : ∀ p, Waiting [] (Function.update binds i (some (.flushing jobId drained))) p →
      Waiting buffer binds p := by
    rintro p (hp | ⟨i', b, hb, hp⟩)
    · exact absurd hp List.not_mem_nil
    · rcases hback i' _ b hb with ⟨-, rfl⟩ | ⟨-, hb'⟩
      · exact Or.inl (hdrained.subset hp)
      · exact Or.inr ⟨i', b, hb', hp⟩
  exact { h with
    capped := Nat.zero_le _
    bound := by
      -- The route was inserted before.
      intro i' b jobId' hb hjob
      rcases hback i' _ b hb with ⟨-, rfl⟩ | ⟨-, hb'⟩
      · rcases hjob with hjob | hjob
        · cases hjob
        · cases hjob
          exact h.bound i _ jobId hi (Or.inl rfl)
      · exact h.bound i' b jobId' hb' hjob
    drained := fun _ _ _ _ _ p hp => absurd hp List.not_mem_nil
    covered := by
      intro p hp k hk hto
      rcases h.covered p (hwaiting p hp) k hk hto with ⟨i', b, jobId', hb, hruns, hkey⟩
      by_cases hi' : i' = i
      · rw [hi', hi, Option.some_inj] at hb
        rw [← hb] at hruns
        exact ⟨i, _, jobId', Function.update_self .., hruns, hkey⟩
      · exact ⟨i', b, jobId', by rw [Function.update_of_ne hi']; exact hb, hruns, hkey⟩
    resolved := by
      intro i' b hb
      rcases hback i' _ b hb with ⟨-, rfl⟩ | ⟨-, hb'⟩
      · exact trivial
      · exact h.resolved i' b hb'
    apart := by
      -- Its hand is the buffer, which had no key in common with any hand.
      intro i₁ i₂ b₁ b₂ hb₁ hb₂ hne p hp q hq k hk
      rcases hback i₁ _ b₁ hb₁ with ⟨hi₁, rfl⟩ | ⟨-, hb₁'⟩
      · rcases hback i₂ _ b₂ hb₂ with ⟨hi₂, -⟩ | ⟨-, hb₂'⟩
        · exact absurd (hi₁.trans hi₂.symm) hne
        · exact hapart p (hdrained.subset hp) k hk i₂ b₂ hb₂' q hq
      · rcases hback i₂ _ b₂ hb₂ with ⟨-, rfl⟩ | ⟨-, hb₂'⟩
        · exact fun hk' => hapart q (hdrained.subset hq) k hk' i₁ b₁ hb₁' p hp hk
        · exact h.apart i₁ i₂ b₁ b₂ hb₁' hb₂' hne p hp q hq k hk
    split := fun p hp => absurd hp List.not_mem_nil
    bufferOrdered := List.Pairwise.nil
    handOrdered := by
      intro i' b hb
      rcases hback i' _ b hb with ⟨-, rfl⟩ | ⟨-, hb'⟩
      · exact h.bufferOrdered.sublist (hdrained.map Pending.notice)
      · exact h.handOrdered i' b hb'
    past := fun session n hn p hp => h.past session n hn p (hwaiting p hp)
    freshWaiting := fun p hp => h.freshWaiting p (hwaiting p hp) }

/-- A notification is put at the end of the buffer. It is newer than what is
    there and older than what flushes have of its key; and it has no target, or
    a bind of its job is to take the buffer. -/
theorem Inv.push (h : Inv key routed buffer binds sent stream arrived) (p : Pending)
    (hroom : buffer.length < pendingBufferCap)
    (hdrained : ∀ i b jobId, binds i = some b → b.flushes = some jobId →
      key p.notice ≠ some (.job jobId))
    (hcovered : ∀ k, key p.notice = some k → routed k →
      ∃ i b jobId, binds i = some b ∧ b.runs = some jobId ∧ k = .job jobId)
    (hsplit : ∀ i b, binds i = some b → ∀ q ∈ b.hand, ∀ k, key p.notice = some k →
      key q.notice = some k → ¬ routed k ∧ p.notice.place < q.notice.place)
    (hordered : ∀ q ∈ buffer, Precedes key q.notice p.notice)
    (hpast : ∀ session, ∀ n ∈ sent session, Precedes key n p.notice)
    (hfresh : key p.notice ≠ none → p.notice.place < arrived) :
    Inv key routed (buffer ++ [p]) binds sent stream arrived := by
  have hmem : ∀ q ∈ buffer ++ [p], q ∈ buffer ∨ q = p := by
    intro q hq
    rcases List.mem_append.mp hq with hq | hq
    · exact Or.inl hq
    · exact Or.inr (List.mem_singleton.mp hq)
  have hwaiting : ∀ q, Waiting (buffer ++ [p]) binds q → Waiting buffer binds q ∨ q = p := by
    rintro q (hq | hq)
    · exact (hmem q hq).imp_left Or.inl
    · exact Or.inl (Or.inr hq)
  exact { h with
    capped := by
      rw [List.length_append]
      exact hroom
    drained := by
      intro i b jobId hb hjob q hq
      rcases hmem q hq with hq | rfl
      · exact h.drained i b jobId hb hjob q hq
      · exact hdrained i b jobId hb hjob
    covered := by
      intro q hq k hk hto
      rcases hwaiting q hq with hq | rfl
      · exact h.covered q hq k hk hto
      · exact hcovered k hk hto
    split := by
      intro q hq i b hb
      rcases hmem q hq with hq | rfl
      · exact h.split q hq i b hb
      · exact hsplit i b hb
    bufferOrdered := by
      rw [List.map_append, List.pairwise_append]
      refine ⟨h.bufferOrdered, List.pairwise_singleton _ _, fun n hn n' hn' => ?_⟩
      rcases List.mem_map.mp hn with ⟨q, hq, rfl⟩
      rw [List.map_singleton, List.mem_singleton] at hn'
      rw [hn']
      exact hordered q hq
    past := by
      intro session n hn q hq
      rcases hwaiting q hq with hq | rfl
      · exact h.past session n hn q hq
      · exact hpast session n hn
    freshWaiting := by
      intro q hq
      rcases hwaiting q hq with hq | rfl
      · exact h.freshWaiting q hq
      · exact hfresh }

/-- A notification is sent to a session. It is newer than what was sent of its
    key, and older than what waits of it. -/
theorem Inv.deliver (h : Inv key routed buffer binds sent stream arrived) (sessionId : String)
    (n : Notice) (sent' : String → List Notice)
    (hsent : ∀ session, sent' session = sent session ∨
      (session = sessionId ∧ sent' session = sent session ++ [n]))
    (hpast : ∀ session, ∀ m ∈ sent session, Precedes key m n)
    (hwaiting : ∀ p, Waiting buffer binds p → Precedes key n p.notice)
    (hfresh : key n ≠ none → n.place < arrived) :
    Inv key routed buffer binds sent' stream arrived := by
  have hmem : ∀ session, ∀ m ∈ sent' session, m ∈ sent session ∨ (m = n ∧ session = sessionId) := by
    intro session m hm
    rcases hsent session with heq | ⟨hsession, heq⟩
    · exact Or.inl (heq ▸ hm)
    · rw [heq] at hm
      rcases List.mem_append.mp hm with hm | hm
      · exact Or.inl hm
      · exact Or.inr ⟨List.mem_singleton.mp hm, hsession⟩
  exact { h with
    sentOrdered := by
      intro session
      rcases hsent session with heq | ⟨-, heq⟩
      · rw [heq]
        exact h.sentOrdered session
      · rw [heq, List.pairwise_append]
        refine ⟨h.sentOrdered session, List.pairwise_singleton _ _, fun m hm m' hm' => ?_⟩
        rw [List.mem_singleton.mp hm']
        exact hpast session m hm
    sentOnce := by
      -- The new one goes to one session, and is newer than all there are.
      intro session session' hne m hm m' hm' k hk hk'
      rcases hmem session m hm with hm | ⟨rfl, hsession⟩
      · rcases hmem session' m' hm' with hm' | ⟨rfl, -⟩
        · exact h.sentOnce session session' hne m hm m' hm' k hk hk'
        · exact Nat.ne_of_lt (hpast session m hm k hk hk')
      · rcases hmem session' m' hm' with hm' | ⟨-, hsession'⟩
        · exact Nat.ne_of_gt (hpast session' m' hm' k hk' hk)
        · exact absurd (hsession.trans hsession'.symm) hne
    past := by
      intro session m hm p hp
      rcases hmem session m hm with hm | ⟨rfl, -⟩
      · exact h.past session m hm p hp
      · exact hwaiting p hp
    freshSent := by
      intro session m hm
      rcases hmem session m hm with hm | ⟨rfl, -⟩
      · exact h.freshSent session m hm
      · exact hfresh }

/-- The stream is at another place of its call. -/
theorem Inv.turn (h : Inv key routed buffer binds sent stream arrived) (stream' : Stream)
    (hheld : stream'.Held key routed arrived) :
    Inv key routed buffer binds sent stream' arrived :=
  { h with held := hheld }

/-- The delivery of a notification begins to return: from now on it is one of
    those that have come. -/
theorem Inv.arrive (h : Inv key routed buffer binds sent stream arrived) :
    Inv key routed buffer binds sent .idle (arrived + 1) :=
  { h with
    freshSent := fun session n hn hk => Nat.lt_succ_of_lt (h.freshSent session n hn hk)
    freshWaiting := fun p hp hk => Nat.lt_succ_of_lt (h.freshWaiting p hp hk)
    held := trivial }

end Inv

/-! ## The steps of the stream -/

def State.bindAt (s : State) (i : Nat) : Option Bind := s.binds[i]?

def State.Routed (s : State) (k : Key) : Prop := (target s.inner k).isSome

/-- The invariant of a state. -/
structure StateInv (s : State) : Prop where
  subscribed : o.url ∈ s.inner.backends
  inv : Inv (keyOfNotice o) s.Routed (s.buffer o) s.bindAt s.inner.sentTo s.stream s.arrived

variable (s : State) (inner : Inner)

/-- The log is for the statement only. -/
theorem StateInv.relog (log : Log) (h : StateInv o s) : StateInv o { s with log := log } :=
  ⟨h.subscribed, h.inv⟩

/-- A look that finds a target finds that of the key. -/
theorem routed_of_resolveTarget (value : Value) (sessionId : String)
    (h : resolveTarget o.display s.inner value = some sessionId) :
    ∃ k, keyOf o.display value = some k ∧ s.Routed k := by
  rw [resolveTarget_eq] at h
  rcases Option.bind_eq_some_iff.mp h with ⟨k, hk, hto⟩
  exact ⟨k, hk, Option.isSome_iff_exists.mpr ⟨sessionId, hto⟩⟩

theorem not_routed_of_resolveTarget (value : Value)
    (h : resolveTarget o.display s.inner value = none) (k : Key)
    (hk : keyOf o.display value = some k) : ¬ s.Routed k := by
  rw [resolveTarget_eq] at h
  unfold State.Routed
  rw [Option.bind_eq_none_iff.mp h k hk]
  exact Bool.false_ne_true

/-- A sink is as it was, or has one notification more. -/
theorem sentTo_sendTo_cases (sessionId : String) (n : Notice) (session : String) :
    (sendTo inner sessionId n).sentTo session = inner.sentTo session ∨
      (session = sessionId ∧
        (sendTo inner sessionId n).sentTo session = inner.sentTo session ++ [n]) := by
  rw [sentTo_sendTo]
  split
  next hboth => exact Or.inr ⟨hboth.1, rfl⟩
  next => exact Or.inl rfl

theorem mem_hands (p : Pending) : p ∈ s.hands ↔ ∃ i b, s.bindAt i = some b ∧ p ∈ b.hand := by
  unfold State.hands State.bindAt
  rw [List.mem_flatMap]
  constructor
  · rintro ⟨b, hb, hp⟩
    rcases List.mem_iff_getElem?.mp hb with ⟨i, hi⟩
    exact ⟨i, b, hi, hp⟩
  · rintro ⟨i, b, hi, hp⟩
    exact ⟨b, List.mem_of_getElem? hi, hp⟩

theorem waiting_iff (p : Pending) :
    Waiting (s.buffer o) s.bindAt p ↔ p ∈ s.buffer o ++ s.hands := by
  rw [List.mem_append, mem_hands]
  exact Iff.rfl

/-- No flush has a notification of a key. -/
theorem noneOf_hands (k : Key) (h : NoneOf o k s.hands) (i : Nat) (b : Bind)
    (hb : s.bindAt i = some b) : ∀ p ∈ b.hand, keyOfNotice o p.notice ≠ some k :=
  fun p hp => h p ((mem_hands s p).mpr ⟨i, b, hb, hp⟩)

/-- What a delivery does before it looks for the target: if it evicts no route,
    nothing that matters here. -/
theorem deliverEvict_frame (n : Notice) : (deliverEvict inner n).pending = inner.pending ∧
      (deliverEvict inner n).clientSinks = inner.clientSinks ∧
      (deliverEvict inner n).backends = inner.backends := by
  unfold deliverEvict
  cases jobIdForJobNotification n.value <;> cases terminalJobId n.value <;> exact ⟨rfl, rfl, rfl⟩

/-- No target goes: a terminal notification finds no route of its job. -/
theorem target_deliverEvict (n : Notice)
    (h : ∀ jobId ∈ terminalJobId n.value, inner.jobRoutes.lookup jobId = none) (k : Key) :
    target (deliverEvict inner n) k = target inner k := by
  have hpublish : ∀ jobId, target (publishJobEvent inner jobId n) k = target inner k := by
    intro jobId
    cases k <;> rfl
  -- Forgetting a job without a route takes no target away.
  have hforget : ∀ (inner' : Inner) (jobId : String), inner'.jobRoutes = inner.jobRoutes →
      inner'.progressTokenRoutes = inner.progressTokenRoutes →
      inner.jobRoutes.lookup jobId = none → target (forgetJob inner' jobId) k = target inner k := by
    intro inner' jobId hjobs htokens hnone
    cases k with
    | token key =>
        unfold target forgetJob
        simp only [htokens]
    | job job =>
        unfold target
        simp only [lookup_forgetJob, hjobs]
        split
        next heq => rw [heq, hnone]
        next => rfl
  unfold deliverEvict
  cases hterminal : terminalJobId n.value with
  | none =>
      cases jobIdForJobNotification n.value with
      | none => rfl
      | some jobId => exact hpublish jobId
  | some jobId =>
      have hnone := h jobId hterminal
      cases jobIdForJobNotification n.value with
      | none => exact hforget inner jobId rfl rfl hnone
      | some job => exact hforget _ jobId rfl rfl hnone

/-- A notification with another method has no key. -/
theorem keyOf_none (display : Value → String) (value : Value) (method : String)
    (hmethod : (value.get "method").bind Value.asStr = some method)
    (hprogress : method ≠ "notifications/progress") (hjob : isJobMethod method = false) :
    keyOf display value = none := by
  rcases Option.bind_eq_some_iff.mp hmethod with ⟨member, hmember, hstr⟩
  simp [keyOf, hmember, hstr, if_neg hprogress, hjob]

theorem method_withClientUri (uri : String) (value : Value) :
    (withClientUri uri value).get "method" = value.get "method" := by
  unfold withClientUri
  split
  next members =>
    split
    next params hparams =>
      simp only [Value.get, Json.lookup_insertMember]
      rw [if_neg (by decide)]
    next => rfl
  next => rfl

/-- A notification without a key may be sent at any time. -/
theorem StateInv.sendUnkeyed (sessionId : String) (n : Notice) (hkey : keyOfNotice o n = none)
    (h : StateInv o s) :
    StateInv o { s with inner := sendTo s.inner sessionId n } := by
  refine ⟨h.subscribed,
    h.inv.deliver sessionId n _ (sentTo_sendTo_cases s.inner sessionId n) ?_ ?_ ?_⟩
  · intro session m _ k _ hk
    rw [hkey] at hk
    cases hk
  · intro p _ k hk
    rw [hkey] at hk
    cases hk
  · exact fun hkeyed => absurd hkey hkeyed

theorem StateInv.dispatch (n : Notice)
    (hmethod : (n.value.get "method").bind Value.asStr = some "notifications/resources/updated")
    (h : StateInv o s) :
    StateInv o { s with inner := (dispatchResourceUpdated s.inner n o.url).2 } := by
  have hkey : ∀ uri, keyOfNotice o ⟨n.place, withClientUri uri n.value⟩ = none := by
    intro uri
    refine keyOf_none o.display _ "notifications/resources/updated" ?_ (by decide) (by decide)
    rw [method_withClientUri]
    exact hmethod
  -- Every subscriber gets a notification of its own, none with a key.
  have hfold : ∀ (routes : List ResourceSubscriberRoute) (i : Inner),
      StateInv o { s with inner := i } →
      StateInv o { s with
        inner := routes.foldl (fun i route => sendTo i route.clientSessionId
          ⟨n.place, withClientUri route.clientUri n.value⟩) i } := by
    intro routes
    induction routes with
    | nil => exact fun i hi => hi
    | cons route routes ih =>
        intro i hi
        exact ih _ (hi.sendUnkeyed o _ route.clientSessionId _ (hkey route.clientUri))
  unfold dispatchResourceUpdated
  split
  next => exact h
  next =>
    split
    next => exact h
    next => exact hfold _ s.inner h

/-- A delivery begins. -/
theorem inv_deliver (s t : State) (value : Value) (h : StateInv o s)
    (hharmless : Harmless o s (.deliver value)) (hstep : step o s (.deliver value) = some t) :
    StateInv o t := by
  have hframe := deliverEvict_frame s.inner ⟨s.arrived, value⟩
  have htarget := target_deliverEvict s.inner ⟨s.arrived, value⟩ hharmless
  -- Only the bus of the job and what nobody here reads have changed.
  have hevicted : StateInv o { s with inner := deliverEvict s.inner ⟨s.arrived, value⟩ } := by
    refine ⟨hframe.2.2 ▸ h.subscribed, ?_⟩
    have hrouted : State.Routed { s with inner := deliverEvict s.inner ⟨s.arrived, value⟩ } =
        s.Routed := by
      funext k
      unfold State.Routed
      rw [htarget]
    have hbuffer : State.buffer o { s with inner := deliverEvict s.inner ⟨s.arrived, value⟩ } =
        s.buffer o := by
      unfold State.buffer Inner.pendingOf
      rw [hframe.1]
    have hsent : (deliverEvict s.inner ⟨s.arrived, value⟩).sentTo = s.inner.sentTo := by
      funext session
      unfold Inner.sentTo
      rw [hframe.2.1]
    rw [hrouted, hbuffer]
    simp only [hsent]
    exact h.inv
  have hheld : Stream.Held (keyOfNotice o) s.Routed s.arrived
      (.resolving ⟨s.arrived, value⟩ (resolveTarget o.display s.inner value).isSome) := by
    refine ⟨rfl, fun hdirect => ?_⟩
    rcases Option.isSome_iff_exists.mp hdirect with ⟨sessionId, hsome⟩
    exact routed_of_resolveTarget o s value sessionId hsome
  simp only [step] at hstep
  split at hstep
  next hidle =>
    split at hstep
    next hmethod =>
      have hdispatched := hevicted.dispatch o _ ⟨s.arrived, value⟩ hmethod
      split at hstep
      next =>
        cases hstep
        have harrive := hdispatched.inv.arrive
        rw [← hidle] at harrive
        exact ⟨hdispatched.subscribed, harrive⟩
      next =>
        cases hstep
        refine ⟨hdispatched.subscribed, hdispatched.inv.turn _ ⟨rfl, fun hdirect => ?_⟩⟩
        rcases hheld.2 hdirect with ⟨k, hk, -⟩
        have hnone := keyOf_none o.display value _ hmethod (by decide) (by decide)
        exact absurd (hnone.symm.trans hk) (Option.some_ne_none k).symm
    next =>
      cases hstep
      refine ⟨hevicted.subscribed, hevicted.inv.turn _ ⟨rfl, fun hdirect => ?_⟩⟩
      rcases hheld.2 hdirect with ⟨k, hk, hto⟩
      refine ⟨k, hk, ?_⟩
      unfold State.Routed
      rw [htarget]
      exact hto
  next => cases hstep

/-- Room is made at the front. -/
theorem room_suffix (buffer : List Pending) (now : Nat) : room buffer now <:+ buffer := by
  have hfresh := List.dropWhile_suffix (l := buffer)
    (fun p => decide (pendingBufferTtl ≤ now - p.insertedAt))
  unfold room
  simp only
  split
  next => exact (List.tail_suffix _).trans hfresh
  next => exact hfresh

theorem room_length (buffer : List Pending) (now : Nat) (h : buffer.length ≤ pendingBufferCap) :
    (room buffer now).length < pendingBufferCap := by
  have hfresh := (List.dropWhile_sublist (l := buffer)
    (fun p => decide (pendingBufferTtl ≤ now - p.insertedAt))).length_le
  have hpos : 0 < pendingBufferCap := by decide
  unfold room
  simp only
  split
  next =>
    rw [List.length_tail]
    omega
  next hroom => omega

theorem runs_of_waits (b : Bind) (jobId : String) (h : b.waits = some jobId) :
    b.runs = some jobId := by
  cases b with
  | inserted => exact h
  | _ => cases h

theorem inv_stream (s t : State) (now : Nat) (h : StateInv o s)
    (hharmless : Harmless o s (.stream now)) (hstep : step o s (.stream now) = some t) :
    StateInv o t := by
  simp only [step] at hstep
  unfold Harmless at hharmless
  cases hstream : s.stream with
  | idle =>
      rw [hstream] at hstep
      cases hstep
  | resolving n direct =>
      have hheld := h.inv.held
      rw [hstream] at hstep hheld
      simp only at hstep
      split at hstep
      next sessionId hto =>
        cases hstep
        exact ⟨h.subscribed, h.inv.turn _ hheld.1⟩
      next hnone =>
        cases hstep
        refine ⟨h.subscribed, h.inv.turn _ ⟨hheld.1, ?_⟩⟩
        -- A notification that had a target still has it.
        cases direct with
        | false => rfl
        | true =>
            rcases hheld.2 rfl with ⟨k, hk, hto⟩
            exact absurd hto (not_routed_of_resolveTarget o s n.value hnone k hk)
  | sending sessionId n =>
      have hheld := h.inv.held
      rw [hstream] at hstep hheld hharmless
      cases hstep
      refine ⟨h.subscribed,
        h.inv.arrive.deliver sessionId n _ (sentTo_sendTo_cases s.inner sessionId n) ?_ ?_ ?_⟩
      · intro session m hm k hk _
        have hfresh := h.inv.freshSent session m hm (by rw [hk]; exact Option.some_ne_none k)
        exact lt_of_lt_of_eq hfresh hheld.symm
      · intro p hp k hk hk'
        exact absurd hk' (hharmless k hk p ((waiting_iff o s p).mp hp))
      · intro _
        exact lt_of_eq_of_lt hheld (Nat.lt_succ_self _)
  | buffering n direct =>
      have hheld := h.inv.held
      rw [hstream] at hstep hheld hharmless
      cases hstep
      -- What is there of its key came before it.
      have hold : ∀ m, (keyOfNotice o m ≠ none → m.place < s.arrived) →
          Precedes (keyOfNotice o) m n := by
        intro m hfresh k hk _
        exact lt_of_lt_of_eq (hfresh (by rw [hk]; exact Option.some_ne_none k)) hheld.1.symm
      have hshort := h.inv.arrive.shorten _ (room_suffix (s.buffer o) now).sublist
      refine StateInv.relog o { s with
        inner := bufferPending s.inner o.url now n, stream := .idle, arrived := s.arrived + 1 } _ ?_
      refine ⟨h.subscribed, ?_⟩
      have hbuffer : State.buffer o { s with
          inner := bufferPending s.inner o.url now n, stream := .idle, arrived := s.arrived + 1 } =
          room (s.buffer o) now ++ [⟨now, n⟩] := by
        unfold State.buffer bufferPending
        rw [pendingOf_insert, if_pos rfl]
        rfl
      rw [hbuffer]
      refine hshort.push ⟨now, n⟩ (room_length (s.buffer o) now h.inv.capped) ?_ ?_ ?_ ?_ ?_ ?_
      · intro i b jobId hb hjob hk
        refine (hharmless _ hk).2.1 b (List.mem_of_getElem? hb) ?_
        rw [hjob]
        rfl
      · -- It is buffered although it has a target only if a bind is to take the buffer.
        intro k hk hto
        rcases (hharmless k hk).1 with hnone | ⟨b, hb, hwaits⟩
        · unfold State.Routed at hto
          rw [hnone] at hto
          cases hto
        · rcases List.mem_iff_getElem?.mp hb with ⟨i, hi⟩
          rcases Option.map_eq_some_iff.mp hwaits with ⟨jobId, hjob, hkey⟩
          exact ⟨i, b, jobId, hi, runs_of_waits b jobId hjob, hkey.symm⟩
      · intro i b hb q hq k hk hk'
        exact absurd hk' (noneOf_hands o s k (hharmless k hk).2.2 i b hb q hq)
      · intro q hq
        refine hold q.notice (h.inv.freshWaiting q (Or.inl ?_))
        exact (room_suffix (s.buffer o) now).subset hq
      · intro session m hm
        exact hold m (h.inv.freshSent session m hm)
      · intro _
        exact lt_of_eq_of_lt hheld.1 (Nat.lt_succ_self _)

/-! ## The steps of the binds -/

theorem target_bindProgressToken (display : Value → String) (inner : Inner) (token : Value)
    (sessionId : String) (k : Key) :
    (target (bindProgressToken display inner token sessionId) k).isSome ↔
      (target inner k).isSome ∨ k = .token (progressTokenKey display token) := by
  unfold target bindProgressToken
  cases k with
  | job jobId => simp only [reduceCtorEq, or_false]
  | token key =>
      simp only [Key.token.injEq]
      by_cases hkey : key = progressTokenKey display token
      · rw [hkey, OrderedMap.lookup_insert]
        exact iff_of_true rfl (Or.inr rfl)
      · rw [OrderedMap.lookup_insert_ne _ _ _ _ hkey]
        exact (or_iff_left hkey).symm

theorem target_insertRoute (jobId : String) (route : JobRoute) (k : Key) :
    (target (insertRoute inner jobId route) k).isSome ↔
      (target inner k).isSome ∨ k = .job jobId := by
  unfold target
  cases k with
  | token key =>
      simp only [reduceCtorEq, or_false]
      exact Iff.rfl
  | job job =>
      simp only [lookup_insertRoute, Option.isSome_map, Key.job.injEq]
      by_cases hjob : job = jobId
      · rw [if_pos hjob]
        exact iff_of_true rfl (Or.inr hjob)
      · rw [if_neg hjob]
        exact (or_iff_left hjob).symm

theorem inv_bindToken (s t : State) (token : Value) (sessionId : String) (h : StateInv o s)
    (hharmless : Harmless o s (.bindToken token sessionId))
    (hstep : step o s (.bindToken token sessionId) = some t) : StateInv o t := by
  cases hstep
  refine ⟨h.subscribed, h.inv.route (.token (progressTokenKey o.display token)) _ ?_ ?_ ?_⟩
  · intro k
    exact target_bindProgressToken o.display s.inner token sessionId k
  · intro i b hb p hp hk
    exact hharmless p ((waiting_iff o s p).mp (Or.inr ⟨i, b, hb, hp⟩)) hk
  · intro p hp hk
    exact absurd hk (hharmless p ((waiting_iff o s p).mp (Or.inl hp)))

theorem bindAt_append (b : Bind) : State.bindAt { s with binds := s.binds ++ [b] } =
      Function.update s.bindAt s.binds.length (some b) := by
  funext i
  unfold State.bindAt
  by_cases hi : i = s.binds.length
  · rw [hi, Function.update_self, List.getElem?_concat_length]
  · rw [Function.update_of_ne hi]
    rcases Nat.lt_or_gt_of_ne hi with hlt | hgt
    · exact List.getElem?_append_left hlt
    · rw [List.getElem?_eq_none (by rw [List.length_append, List.length_singleton]; omega),
        List.getElem?_eq_none (by omega)]

theorem inv_bindJob (s t : State) (jobId sessionId tool : String) (parentJobId : Option String)
    (utc : Int) (h : StateInv o s)
    (hstep : step o s (.bindJob jobId sessionId tool parentJobId utc) = some t) : StateInv o t := by
  simp only [step] at hstep
  split at hstep
  next => cases hstep; exact h
  next =>
    cases hstep
    refine ⟨h.subscribed, ?_⟩
    rw [bindAt_append]
    have hnone : s.bindAt s.binds.length = none := List.getElem?_eq_none (Nat.le_refl _)
    refine h.inv.replace s.binds.length _ (List.nil_sublist _) ?_ ?_ ?_ trivial
    · rintro job (hjob | hjob) <;> cases hjob
    · intro job hjob
      cases hjob
    · intro old job hold
      rw [hnone] at hold
      cases hold

theorem bindAt_set (i : Nat) (old new : Bind) (h : s.binds[i]? = some old) :
    State.bindAt { s with inner := inner, binds := s.binds.set i new } =
      Function.update s.bindAt i (some new) := by
  funext i'
  unfold State.bindAt
  rcases List.getElem?_eq_some_iff.mp h with ⟨hlt, -⟩
  by_cases hi : i' = i
  · rw [hi, Function.update_self]
    exact List.getElem?_set_self hlt
  · rw [Function.update_of_ne hi]
    exact List.getElem?_set_ne (fun heq => hi heq.symm)

section Step

variable (s : State) (i : Nat)

/-- The bind inserts its route. -/
theorem inv_insert (h : StateInv o s) (jobId : String) (route : JobRoute)
    (hb : s.bindAt i = some (.admitted jobId route)) (hbefore : NoneOf o (.job jobId) s.hands) :
    StateInv o { s with
      inner := insertRoute s.inner jobId route, binds := s.binds.set i (.inserted jobId) } := by
  refine ⟨h.subscribed, ?_⟩
  rw [bindAt_set s _ i _ _ hb]
  have hrouted := h.inv.route (.job jobId)
    (fun k => (target (insertRoute s.inner jobId route) k).isSome)
    (target_insertRoute s.inner jobId route) (noneOf_hands o s _ hbefore)
    (fun p _ _ => ⟨i, _, jobId, hb, rfl, rfl⟩)
  refine hrouted.replace i (.inserted jobId) (List.nil_sublist _) ?_ ?_ ?_ trivial
  · rintro job (hjob | hjob)
    · cases hjob
      exact (target_insertRoute s.inner jobId route _).mpr (Or.inr rfl)
    · cases hjob
  · intro job hjob
    cases hjob
  · intro old job hold hruns
    rw [hb, Option.some_inj] at hold
    rw [← hold] at hruns
    exact Or.inl hruns

/-- What a flush takes out of the buffer. -/
def State.taken (s : State) (now : Nat) : List Pending := (s.buffer o).filter (isFresh now)

/-- The bind takes the buffer. -/
theorem inv_take (h : StateInv o s) (jobId : String) (now : Nat)
    (hb : s.bindAt i = some (.inserted jobId))
    (hbefore : ∀ p ∈ s.buffer o, ∀ k ∈ keyOfNotice o p.notice, NoneOf o k s.hands) :
    StateInv o { s with
      inner := { s.inner with pending := s.inner.pending.insert o.url [] }
      binds := s.binds.set i (.flushing jobId (s.taken o now)) } := by
  refine ⟨h.subscribed, ?_⟩
  rw [bindAt_set s _ i _ _ hb]
  have hempty : State.buffer o { s with
      inner := { s.inner with pending := s.inner.pending.insert o.url [] }
      binds := s.binds.set i (.flushing jobId (s.taken o now)) } = [] := by
    unfold State.buffer
    rw [pendingOf_insert, if_pos rfl]
  rw [hempty]
  exact h.inv.drain i jobId _ hb List.filter_sublist
    (fun p hp k hk => noneOf_hands o s k (hbefore p hp k hk))

/-- The bind returns. -/
theorem inv_return (h : StateInv o s) (jobId : String)
    (hb : s.bindAt i = some (.flushing jobId []))
    (hbefore : NoneOf o (.job jobId) s.hands) :
    StateInv o { s with binds := s.binds.set i .returned } := by
  refine ⟨h.subscribed, ?_⟩
  rw [bindAt_set s s.inner i _ _ hb]
  refine h.inv.replace i .returned (List.nil_sublist _) ?_ ?_ ?_ trivial
  · rintro job (hjob | hjob) <;> cases hjob
  · intro job hjob
    cases hjob
  · intro old job hold hruns
    rw [hb, Option.some_inj] at hold
    rw [← hold] at hruns
    cases hruns
    -- Nothing of its job came into the buffer after it was taken.
    refine Or.inr ?_
    rintro p (hp | ⟨i', b, hb', hp⟩)
    · exact h.inv.drained i _ jobId hb rfl p hp
    · exact noneOf_hands o s _ hbefore i' b hb' p hp

/-- The bind looks for the target of a notification. -/
theorem inv_resolve (h : StateInv o s) (jobId : String) (p : Pending) (rest : List Pending)
    (new : Bind)
    (hb : s.bindAt i = some (.flushing jobId (p :: rest)))
    (hhand : new.hand = p :: rest) (hruns : new.runs = some jobId)
    (hflushes : new.flushes = some jobId) (hwaits : new.waits = none)
    (hresolved : new.Resolved (keyOfNotice o) s.Routed) :
    StateInv o { s with binds := s.binds.set i new } := by
  refine ⟨h.subscribed, ?_⟩
  rw [bindAt_set s s.inner i _ _ hb]
  refine h.inv.replace i new ?_ ?_ ?_ ?_ hresolved
  · rw [hb, hhand]
    exact List.Sublist.refl _
  · rintro job (hjob | hjob)
    · rw [hwaits] at hjob
      cases hjob
    · exact h.inv.bound i _ job hb (Or.inr (hflushes.symm.trans hjob))
  · intro job hjob
    exact h.inv.drained i _ job hb (hflushes.symm.trans hjob)
  · intro old job hold hold'
    rw [hb, Option.some_inj] at hold
    rw [← hold] at hold'
    exact Or.inl (hruns.trans hold')

/-- The bind has dealt with the notification at the front of its hand. -/
theorem inv_drop (h : StateInv o s) (jobId : String) (p : Pending) (rest : List Pending)
    (old : Bind) (hb : s.bindAt i = some old) (hhand : old.hand = p :: rest)
    (hruns : old.runs = some jobId) (hflushes : old.flushes = some jobId) :
    Inv (keyOfNotice o) s.Routed (s.buffer o)
      (Function.update s.bindAt i (some (.flushing jobId rest))) s.inner.sentTo s.stream
      s.arrived := by
  refine h.inv.replace i (.flushing jobId rest) ?_ ?_ ?_ ?_ trivial
  · rw [hb, Option.map_some, Option.getD_some, hhand]
    exact List.sublist_cons_self p rest
  · rintro job (hjob | hjob)
    · cases hjob
    · exact h.inv.bound i old job hb (Or.inr (hflushes.trans hjob))
  · intro job hjob
    exact h.inv.drained i old job hb (hflushes.trans hjob)
  · intro old' job hold hold'
    rw [hb, Option.some_inj] at hold
    rw [← hold, hruns] at hold'
    exact Or.inl hold'

/-- What waits beside the notification at the front of a hand: it is behind it
    in the hand, or in the buffer, or of another key. -/
theorem waiting_beside (h : StateInv o s) (jobId : String) (p : Pending) (rest : List Pending)
    (old : Bind) (hb : s.bindAt i = some old) (hhand : old.hand = p :: rest) (i' : Nat) (b : Bind)
    (hb' : Function.update s.bindAt i (some (.flushing jobId rest)) i' = some b) :
    ∀ q ∈ b.hand, Precedes (keyOfNotice o) p.notice q.notice := by
  intro q hq k hk hk'
  rcases update_cases s.bindAt i i' _ b hb' with ⟨-, rfl⟩ | ⟨hi, hb'⟩
  · have hordered := h.inv.handOrdered i old hb
    rw [hhand, List.map_cons, List.pairwise_cons] at hordered
    exact hordered.1 q.notice (List.mem_map_of_mem hq) k hk hk'
  · have hfront : p ∈ old.hand := by
      rw [hhand]
      exact List.mem_cons_self
    exact absurd hk' (h.inv.apart i i' old b hb hb' (fun heq => hi heq.symm) p hfront q hq k hk)

/-- The bind sends a notification. -/
theorem inv_send (h : StateInv o s) (jobId sessionId : String) (p : Pending)
    (rest : List Pending) (hb : s.bindAt i = some (.sending jobId sessionId p rest)) :
    StateInv o { s with
      inner := sendTo s.inner sessionId p.notice
      binds := s.binds.set i (.flushing jobId rest) } := by
  refine ⟨h.subscribed, ?_⟩
  rw [bindAt_set s _ i _ _ hb]
  have hfront : Waiting (s.buffer o) s.bindAt p := Or.inr ⟨i, _, hb, List.mem_cons_self⟩
  refine (inv_drop o s i h jobId p rest _ hb rfl rfl rfl).deliver sessionId p.notice _
    (sentTo_sendTo_cases s.inner sessionId p.notice) ?_ ?_ (h.inv.freshWaiting p hfront)
  · intro session m hm
    exact h.inv.past session m hm p hfront
  · rintro q (hq | ⟨i', b, hb', hq⟩)
    · -- What is in a hand and in the buffer has no target.
      intro k hk hk'
      have hsplit := h.inv.split q hq i _ hb p List.mem_cons_self k hk' hk
      rcases h.inv.resolved i _ hb with ⟨k', hkey, hto⟩
      rw [hk, Option.some_inj] at hkey
      exact absurd (hkey ▸ hto) hsplit.1
    · exact waiting_beside o s i h jobId p rest _ hb rfl i' b hb' q hq

/-- The bind puts a notification back. -/
theorem inv_requeue (h : StateInv o s) (jobId : String) (p : Pending) (rest : List Pending)
    (hb : s.bindAt i = some (.requeueing jobId p rest))
    (hbefore : (s.buffer o).length < pendingBufferCap) :
    StateInv o { s with
      inner := { s.inner with
        pending := s.inner.pending.insert o.url (s.inner.pendingOf o.url ++ [p]) }
      binds := s.binds.set i (.flushing jobId rest) } := by
  refine ⟨h.subscribed, ?_⟩
  rw [bindAt_set s _ i _ _ hb]
  have hbuffer : State.buffer o { s with
      inner := { s.inner with
        pending := s.inner.pending.insert o.url (s.inner.pendingOf o.url ++ [p]) }
      binds := s.binds.set i (.flushing jobId rest) } = s.buffer o ++ [p] := by
    unfold State.buffer
    rw [pendingOf_insert, if_pos rfl]
  rw [hbuffer]
  have hfront : Waiting (s.buffer o) s.bindAt p := Or.inr ⟨i, _, hb, List.mem_cons_self⟩
  have hunrouted := h.inv.resolved i _ hb
  have hdropped := inv_drop o s i h jobId p rest _ hb rfl rfl rfl
  refine hdropped.push p hbefore ?_ ?_ ?_ ?_ ?_ (h.inv.freshWaiting p hfront)
  · -- A bind that flushes has its route in, and this key has none.
    intro i' b job hb' hjob hk
    exact hunrouted _ hk (hdropped.bound i' b job hb' (Or.inr hjob))
  · intro k hk hto
    exact absurd hto (hunrouted k hk)
  · -- What is still in a hand comes after it.
    intro i' b hb' q hq k hk hk'
    exact ⟨hunrouted k hk, waiting_beside o s i h jobId p rest _ hb rfl i' b hb' q hq k hk hk'⟩
  · intro q hq k hk hk'
    exact (h.inv.split q hq i _ hb p List.mem_cons_self k hk hk').2
  · intro session m hm
    exact h.inv.past session m hm p hfront

end Step

theorem inv_bind (s t : State) (i now : Nat) (h : StateInv o s)
    (hharmless : Harmless o s (.bind i now)) (hstep : step o s (.bind i now) = some t) :
    StateInv o t := by
  simp only [step] at hstep
  split at hstep
  next => cases hstep
  next b hb =>
    have hb' : s.bindAt i = some b := hb
    have hbefore := hharmless b hb
    split at hstep
    next => cases hstep
    next inner new hnew =>
      cases hstep
      cases b with
      | admitted jobId route =>
          cases hnew
          exact (inv_insert o s i h jobId route hb' hbefore).relog o _ _
      | inserted jobId =>
          simp only [stepBind, if_pos h.subscribed, Option.some_inj, Prod.mk.injEq] at hnew
          rw [← hnew.1, ← hnew.2]
          exact (inv_take o s i h jobId now hb' hbefore).relog o _ _
      | flushing jobId drained =>
          cases drained with
          | nil =>
              cases hnew
              exact (inv_return o s i h jobId hb' hbefore).relog o _ _
          | cons p rest =>
              -- What was found is what the next step of the bind relies on.
              simp only [stepBind] at hnew
              split at hnew
              next sessionId hto =>
                cases hnew
                exact (inv_resolve o s i h jobId p rest (.sending jobId sessionId p rest) hb' rfl
                  rfl rfl rfl (routed_of_resolveTarget o s _ sessionId hto)).relog o _ _
              next hnone =>
                cases hnew
                exact (inv_resolve o s i h jobId p rest (.requeueing jobId p rest) hb' rfl rfl
                  rfl rfl (not_routed_of_resolveTarget o s _ hnone)).relog o _ _
      | sending jobId sessionId p rest =>
          cases hnew
          exact (inv_send o s i h jobId sessionId p rest hb').relog o _ _
      | requeueing jobId p rest =>
          cases hnew
          exact (inv_requeue o s i h jobId p rest hb' hbefore).relog o _ _
      | returned => cases hnew

end Interleaving

end Gateway

end DccMcp
