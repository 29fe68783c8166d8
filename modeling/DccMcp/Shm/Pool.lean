import DccMcp.Lib.Machine
import DccMcp.Lib.Threads
import DccMcp.Shm.Chunked

/-!
# The Buffer Pool

A pool creates its buffers once and hands them out again and again. A slot has
a buffer and a flag; `acquire` takes the first slot whose flag is off, and the
guard it returns turns the flag off again when it is dropped. Both happen under
the lock of the pool, and a buffer is read and written under a lock of its own,
so the threads of a program interleave whole operations.

Two things are kept. The flags are on at the slots of the live guards and
nowhere else, and no two guards have the same slot; both follow since only a
free slot is given to a new guard. And a buffer that its holder has not written
to holds nothing: the guard that is dropped clears it. Clearing does not touch
the data, it sets the length in the header to zero, and that is all a reader
goes by.

The buffers are told apart by the segments behind them. That these differ is
not up to the pool. Each one is created by name, and the system refuses a name
that is in use. A holder uses its buffer through the guard, as the wrapper that
keeps the two together does.

## Main definitions

* `Slot`, `BufferPool`, `newPool`: The pool and how it is created.
* `acquire`, `available`, `PooledBuffer`: Its operations, and the guards.
* `Action`, `step`: What the threads do with it.
* `View`, `look`: What a holder can read of its buffer.
* `Sound`, `Clean`: The flags are those of the guards, and the buffers nobody
  has written to are empty.

## Theorems

* `sound_step`, `clean_step`: What every step keeps.
* `pool_exclusive`: Guards have slots of their own, and see nothing of one
  another.
-/

namespace DccMcp

namespace Shm

namespace Pool

open Machine
open Threads (countP_move getElem?_move getElem?_snoc)

structure PoolExhausted where
  capacity : Nat
  deriving DecidableEq

structure Slot (η : Type) where
  buffer : SharedBuffer η
  inUse : Bool

structure BufferPool (η : Type) where
  slots : List (Slot η)
  capacity : Nat
  bufferSize : Nat

/-- A guard, and whether its holder has written to the buffer. -/
structure PooledBuffer (η : Type) where
  index : Nat
  buffer : SharedBuffer η
  written : Bool

variable {σ η : Type}

def BufferPool.available (pool : BufferPool η) : Nat :=
  pool.slots.countP (fun slot => !slot.inUse)

/-- `BufferPool::acquire`: the guard or the error, and the pool that is left. -/
def acquire (pool : BufferPool η) : Except PoolExhausted (PooledBuffer η) × BufferPool η :=
  let i := pool.slots.findIdx (fun slot => !slot.inUse)
  match pool.slots[i]? with
  | some slot =>
    (.ok ⟨i, slot.buffer, false⟩,
      { pool with slots := pool.slots.set i { slot with inUse := true } })
  | none => (.error ⟨pool.capacity⟩, pool)

section Operations

variable (m : SharedMemory σ η) (supply : Supply)

/-- The id of a slot. -/
def slotId (i : Nat) : String := "p" ++ shortId (supply.uuids i) ++ "-" ++ Nat.repr i

/-- The slots from a number on. -/
def newSlots (bufferSize : Nat) : Nat → Nat → σ → Except Fault (List (Slot η) × σ)
  | _, 0, s => .ok ([], s)
  | i, n + 1, s =>
    match createWithTtl m s (supply.clock i) (slotId supply i) bufferSize none with
    | .error e => .error e
    | .ok (buffer, t) =>
      match newSlots bufferSize (i + 1) n t with
      | .error e => .error e
      | .ok (slots, u) => .ok (⟨buffer, false⟩ :: slots, u)

/-- `BufferPool::new`. The size is a number of 64 bits. -/
def newPool (capacity : Nat) (bufferSize : UInt64) (s : σ) : Except Fault (BufferPool η × σ) :=
  if capacity = 0 then .error (.error (.invalidArgument "pool capacity must be > 0"))
  else if bufferSize = 0 then .error (.error (.invalidArgument "buffer_size must be > 0"))
  else
    match newSlots m supply bufferSize.toNat 0 capacity s with
    | .error e => .error e
    | .ok (slots, t) => .ok (⟨slots, capacity, bufferSize.toNat⟩, t)

/-- The memory of the system, the pool, and the guards in the order in which they
    were given out. A guard that has been dropped has left its place. -/
structure State (σ η : Type) where
  memory : σ
  pool : BufferPool η
  guards : List (Option (PooledBuffer η))

/-- The guard with a number, if it is live. -/
def State.guard (s : State σ η) (k : Nat) : Option (PooledBuffer η) := s.guards[k]?.join

/-- How many guards are live. -/
def State.inUse (s : State σ η) : Nat := s.guards.countP Option.isSome

inductive Action
  | acquire
  | drop (guard : Nat)
  | write (guard : Nat) (data : Bytes)
  | clear (guard : Nat)

def step (s : State σ η) : Action → Option (State σ η)
  | .acquire =>
    match acquire s.pool with
    | (.error _, _) => some s
    | (.ok guard, pool) => some { s with pool, guards := s.guards ++ [some guard] }
  -- The result of clearing is not looked at.
  | .drop k =>
    match s.guard k with
    | none => none
    | some guard =>
      match s.pool.slots[guard.index]? with
      | none => some { s with guards := s.guards.set k none }
      | some slot =>
        some {
          memory := (clear m s.memory slot.buffer).2
          pool := { s.pool with
            slots := s.pool.slots.set guard.index { slot with inUse := false } }
          guards := s.guards.set k none }
  | .write k data =>
    match s.guard k with
    | none => none
    | some guard =>
      some { s with
        memory := (write m s.memory guard.buffer data).2
        guards := s.guards.set k (some { guard with written := true }) }
  | .clear k =>
    match s.guard k with
    | none => none
    | some guard => some { s with memory := (clear m s.memory guard.buffer).2 }

/-- What a holder can read of its buffer. -/
structure View where
  data : Except Fault Bytes
  dataLen : Except Fault Nat
  expired : Except Fault Bool
  descriptor : Except Fault BufferDescriptor

/-- What the holder of a guard reads at a time. -/
def look (now : UInt64) (s : State σ η) (guard : PooledBuffer η) : View where
  data := read m s.memory guard.buffer
  dataLen := dataLen m s.memory guard.buffer
  expired := isExpired m s.memory guard.buffer now
  descriptor := fromBuffer m s.memory guard.buffer

end Operations

/-! ## Slots and guards -/

/-- The flags are on at the slots of the live guards, which differ. -/
structure Sound (buffers : List (SharedBuffer η)) (s : State σ η) : Prop where
  same : s.pool.slots.map Slot.buffer = buffers
  held : ∀ k guard, s.guard k = some guard →
    s.pool.slots[guard.index]? = some ⟨guard.buffer, true⟩
  alone : ∀ k k' guard guard', s.guard k = some guard → s.guard k' = some guard' →
    guard.index = guard'.index → k = k'
  used : ∀ i slot, s.pool.slots[i]? = some slot → slot.inUse = true →
    ∃ k guard, s.guard k = some guard ∧ guard.index = i
  count : s.pool.available + s.inUse = buffers.length

variable (size : Nat) (buffers : List (SharedBuffer η)) (s : State σ η)

theorem guard_eq_some (k : Nat) (guard : PooledBuffer η) :
    s.guard k = some guard ↔ s.guards[k]? = some (some guard) := by
  unfold State.guard
  rw [Option.join_eq_some_iff]

/-- `acquire` gives out a slot that was free, or there is none. -/
theorem acquire_cases (pool : BufferPool η) :
    (∃ i buffer, pool.slots[i]? = some ⟨buffer, false⟩ ∧
      acquire pool = (.ok ⟨i, buffer, false⟩,
        { pool with slots := pool.slots.set i ⟨buffer, true⟩ })) ∨
    ((∀ slot ∈ pool.slots, slot.inUse = true) ∧ acquire pool = (.error ⟨pool.capacity⟩, pool)) := by
  cases hat : pool.slots[pool.slots.findIdx (fun slot => !slot.inUse)]? with
  | some slot =>
      rcases List.getElem?_eq_some_iff.mp hat with ⟨hlt, hget⟩
      have hfree : (!(pool.slots[pool.slots.findIdx (fun slot => !slot.inUse)]).inUse) = true :=
        List.findIdx_getElem (w := hlt)
      rw [hget, Bool.not_eq_true'] at hfree
      refine .inl ⟨pool.slots.findIdx (fun slot => !slot.inUse), slot.buffer, ?_, ?_⟩
      · rw [hat, ← hfree]
      · simp only [acquire, hat]
  | none =>
      refine .inr ⟨fun slot hslot => ?_, ?_⟩
      · have hall := List.findIdx_eq_length.mp
          (Nat.le_antisymm List.findIdx_le_length (List.getElem?_eq_none_iff.mp hat)) slot hslot
        rw [Bool.not_eq_false'] at hall
        exact hall
      · simp only [acquire, hat]

/-- The flag of a slot changes, and its buffer does not. -/
theorem buffers_set (slots : List (Slot η)) (i : Nat) (buffer : SharedBuffer η)
    (old new : Bool) (h : slots[i]? = some ⟨buffer, old⟩) :
    (slots.set i ⟨buffer, new⟩).map Slot.buffer = slots.map Slot.buffer := by
  apply List.ext_getElem?
  intro j
  rw [List.getElem?_map, List.getElem?_map]
  by_cases hj : i = j
  · rw [← hj, List.getElem?_set_self (List.getElem?_eq_some_iff.mp h).1, h]
    rfl
  · rw [List.getElem?_set_ne hj]

/-- The guards after a new one has been given out. -/
theorem guard_snoc (memory : σ) (pool : BufferPool η) (guards : List (Option (PooledBuffer η)))
    (new guard : PooledBuffer η) (k : Nat)
    (h : State.guard ⟨memory, pool, guards ++ [some new]⟩ k = some guard) :
    (k = guards.length ∧ guard = new) ∨ guards[k]? = some (some guard) := by
  rw [guard_eq_some] at h
  rcases getElem?_snoc guards k (some new) (some guard) h with ⟨hk, hnew⟩ | hold
  · exact .inl ⟨hk, Option.some.inj hnew⟩
  · exact .inr hold

theorem sound_acquire (h : Sound buffers s) (i : Nat) (buffer : SharedBuffer η)
    (hfree : s.pool.slots[i]? = some ⟨buffer, false⟩) :
    Sound buffers { s with
      pool := { s.pool with slots := s.pool.slots.set i ⟨buffer, true⟩ }
      guards := s.guards ++ [some ⟨i, buffer, false⟩] } := by
  have hlt := (List.getElem?_eq_some_iff.mp hfree).1
  -- No live guard has a slot that was free.
  have hother : ∀ (k : Nat) (guard : PooledBuffer η), s.guards[k]? = some (some guard) →
      guard.index ≠ i := by
    intro k guard hk heq
    have hheld := h.held k guard ((guard_eq_some s k guard).mpr hk)
    rw [heq, hfree, Option.some.injEq, Slot.mk.injEq] at hheld
    exact Bool.false_ne_true hheld.2
  refine ⟨?_, fun k guard hk => ?_, fun k k' guard guard' hk hk' heq => ?_,
    fun j slot hj hslot => ?_, ?_⟩
  · rw [← h.same]
    exact buffers_set s.pool.slots i buffer false true hfree
  · show (s.pool.slots.set i _)[guard.index]? = _
    rcases guard_snoc _ _ _ _ _ k hk with ⟨_, rfl⟩ | hold
    · rw [List.getElem?_set_self hlt]
    · rw [List.getElem?_set_ne (hother k guard hold).symm]
      exact h.held k guard ((guard_eq_some s k guard).mpr hold)
  · rcases guard_snoc _ _ _ _ _ k hk with ⟨hnew, rfl⟩ | hold <;>
      rcases guard_snoc _ _ _ _ _ k' hk' with ⟨hnew', rfl⟩ | hold'
    · rw [hnew, hnew']
    · exact absurd heq.symm (hother k' guard' hold')
    · exact absurd heq (hother k guard hold)
    · exact h.alone k k' guard guard' ((guard_eq_some s k guard).mpr hold)
        ((guard_eq_some s k' guard').mpr hold') heq
  · rcases getElem?_move _ i j _ slot hj with ⟨rfl, rfl⟩ | hold
    · refine ⟨s.guards.length, ⟨j, buffer, false⟩, ?_, rfl⟩
      rw [guard_eq_some]
      exact List.getElem?_concat_length
    · rcases h.used j slot hold hslot with ⟨k, guard, hk, hindex⟩
      refine ⟨k, guard, ?_, hindex⟩
      rw [guard_eq_some] at hk ⊢
      show (s.guards ++ [_])[k]? = _
      rw [List.getElem?_append_left (List.getElem?_eq_some_iff.mp hk).1]
      exact hk
  · have hmove := countP_move (fun slot : Slot η => !slot.inUse) s.pool.slots i ⟨buffer, false⟩
      ⟨buffer, true⟩ hfree
    have hcount := h.count
    have havailable : s.pool.available = s.pool.slots.countP (fun slot => !slot.inUse) := rfl
    have hinUse : s.inUse = s.guards.countP Option.isSome := rfl
    show (s.pool.slots.set i ⟨buffer, true⟩).countP (fun slot => !slot.inUse) +
      (s.guards ++ [some _]).countP Option.isSome = buffers.length
    rw [List.countP_append, List.countP_singleton, Option.isSome_some, if_pos rfl]
    simp only [Bool.not_false, Bool.not_true, Bool.toNat_true, Bool.toNat_false] at hmove
    omega

/-- The guards after one of them has changed. -/
theorem guard_set (memory : σ) (pool : BufferPool η) (guards : List (Option (PooledBuffer η)))
    (new : Option (PooledBuffer η)) (guard : PooledBuffer η) (k k' : Nat)
    (h : State.guard ⟨memory, pool, guards.set k new⟩ k' = some guard) :
    (k' = k ∧ new = some guard) ∨ (k' ≠ k ∧ guards[k']? = some (some guard)) := by
  rw [guard_eq_some, List.getElem?_set] at h
  split at h
  next hk =>
    split at h
    · exact .inl ⟨hk.symm, Option.some.inj h⟩
    · cases h
  next hk => exact .inr ⟨fun heq => hk heq.symm, h⟩

theorem sound_drop (h : Sound buffers s) (k : Nat) (guard : PooledBuffer η)
    (hk : s.guard k = some guard) (memory : σ) :
    Sound buffers {
      memory
      pool := { s.pool with slots := s.pool.slots.set guard.index ⟨guard.buffer, false⟩ }
      guards := s.guards.set k none } := by
  have hslot := h.held k guard hk
  have hlt := (List.getElem?_eq_some_iff.mp hslot).1
  have hkept : ∀ (k' : Nat) (guard' : PooledBuffer η), k' ≠ k →
      s.guards[k']? = some (some guard') → guard'.index ≠ guard.index := by
    intro k' guard' hne hk' heq
    exact hne (h.alone k' k guard' guard ((guard_eq_some s k' guard').mpr hk') hk heq)
  have hlive : ∀ (pool : BufferPool η) (k' : Nat) (guard' : PooledBuffer η),
      State.guard ⟨memory, pool, s.guards.set k none⟩ k' = some guard' →
      k' ≠ k ∧ s.guards[k']? = some (some guard') := by
    intro pool k' guard' hk'
    rcases guard_set _ _ _ _ _ k k' hk' with ⟨_, hnone⟩ | hold
    · cases hnone
    · exact hold
  refine ⟨?_, fun k' guard' hk' => ?_, fun k' k'' guard' guard'' hk' hk'' heq => ?_,
    fun j slot hj hused => ?_, ?_⟩
  · rw [← h.same]
    exact buffers_set s.pool.slots guard.index guard.buffer true false hslot
  · rcases hlive _ k' guard' hk' with ⟨hne, hold⟩
    show (s.pool.slots.set guard.index _)[guard'.index]? = _
    rw [List.getElem?_set_ne (hkept k' guard' hne hold).symm]
    exact h.held k' guard' ((guard_eq_some s k' guard').mpr hold)
  · exact h.alone k' k'' guard' guard'' ((guard_eq_some s k' guard').mpr (hlive _ k' guard' hk').2)
      ((guard_eq_some s k'' guard'').mpr (hlive _ k'' guard'' hk'').2) heq
  · rcases getElem?_move _ guard.index j _ slot hj with ⟨rfl, rfl⟩ | hold
    · exact absurd hused Bool.false_ne_true
    · rcases h.used j slot hold hused with ⟨k', guard', hk', hindex⟩
      -- The slot of the guard that is dropped is not in use any more.
      have hne : k ≠ k' := by
        intro heq
        rw [← heq, hk, Option.some.injEq] at hk'
        have hfree : (s.pool.slots.set guard.index ⟨guard.buffer, false⟩)[j]? =
            some ⟨guard.buffer, false⟩ := by
          rw [← hindex, ← hk', List.getElem?_set_self hlt]
        rw [hfree, Option.some.injEq] at hj
        rw [← hj] at hused
        exact Bool.false_ne_true hused
      refine ⟨k', guard', ?_, hindex⟩
      rw [guard_eq_some] at hk' ⊢
      show (s.guards.set k none)[k']? = _
      rw [List.getElem?_set_ne hne]
      exact hk'
  · have hslots := countP_move (fun slot : Slot η => !slot.inUse) s.pool.slots guard.index
      ⟨guard.buffer, true⟩ ⟨guard.buffer, false⟩ hslot
    have hguards := countP_move Option.isSome s.guards k (some guard) none
      ((guard_eq_some s k guard).mp hk)
    have hcount := h.count
    have havailable : s.pool.available = s.pool.slots.countP (fun slot => !slot.inUse) := rfl
    have hinUse : s.inUse = s.guards.countP Option.isSome := rfl
    show (s.pool.slots.set guard.index ⟨guard.buffer, false⟩).countP (fun slot => !slot.inUse) +
      (s.guards.set k none).countP Option.isSome = buffers.length
    simp only [Bool.not_false, Bool.not_true, Bool.toNat_true, Bool.toNat_false,
      Option.isSome_some, Option.isSome_none] at hslots hguards
    omega

/-- Writing changes neither slots nor guards. -/
theorem sound_write (h : Sound buffers s) (k : Nat) (guard : PooledBuffer η)
    (hk : s.guard k = some guard) (memory : σ) :
    Sound buffers { s with
      memory, guards := s.guards.set k (some { guard with written := true }) } := by
  have hlive : ∀ (k' : Nat) (guard' : PooledBuffer η),
      State.guard ⟨memory, s.pool, s.guards.set k (some { guard with written := true })⟩ k' =
        some guard' →
      ∃ old, s.guard k' = some old ∧ old.index = guard'.index ∧ old.buffer = guard'.buffer := by
    intro k' guard' hk'
    rcases guard_set _ _ _ _ _ k k' hk' with ⟨rfl, hnew⟩ | ⟨_, hold⟩
    · rw [← Option.some.inj hnew]
      exact ⟨guard, hk, rfl, rfl⟩
    · exact ⟨guard', (guard_eq_some s k' guard').mpr hold, rfl, rfl⟩
  refine ⟨h.same, fun k' guard' hk' => ?_, fun k' k'' guard' guard'' hk' hk'' heq => ?_,
    fun i slot hi hused => ?_, ?_⟩
  · rcases hlive k' guard' hk' with ⟨old, hold, hindex, hbuffer⟩
    rw [← hindex, ← hbuffer]
    exact h.held k' old hold
  · rcases hlive k' guard' hk' with ⟨old, hold, hindex, _⟩
    rcases hlive k'' guard'' hk'' with ⟨old', hold', hindex', _⟩
    exact h.alone k' k'' old old' hold hold' (by rw [hindex, hindex', heq])
  · rcases h.used i slot hi hused with ⟨k', guard', hk', hindex⟩
    by_cases hne : k = k'
    · rw [← hne, hk, Option.some.injEq] at hk'
      refine ⟨k, { guard with written := true }, ?_, by rw [← hindex, ← hk']⟩
      rw [guard_eq_some]
      have hlt := (List.getElem?_eq_some_iff.mp ((guard_eq_some s k guard).mp hk)).1
      exact List.getElem?_set_self hlt
    · refine ⟨k', guard', ?_, hindex⟩
      rw [guard_eq_some] at hk' ⊢
      show (s.guards.set k _)[k']? = _
      rw [List.getElem?_set_ne hne]
      exact hk'
  · have hguards := countP_move Option.isSome s.guards k (some guard)
      (some { guard with written := true }) ((guard_eq_some s k guard).mp hk)
    have hcount := h.count
    have hinUse : s.inUse = s.guards.countP Option.isSome := rfl
    show s.pool.available + (s.guards.set k _).countP Option.isSome = buffers.length
    simp only [Option.isSome_some] at hguards
    omega

theorem sound_step (m : SharedMemory σ η) (buffers : List (SharedBuffer η)) (s : State σ η)
    (a : Action) (t : State σ η) (h : Sound buffers s) (hstep : step m s a = some t) :
    Sound buffers t := by
  cases a with
  | acquire =>
      rcases acquire_cases s.pool with ⟨i, buffer, hfree, hacquire⟩ | ⟨_, hacquire⟩
      · simp only [step, hacquire, Option.some.injEq] at hstep
        rw [← hstep]
        exact sound_acquire buffers s h i buffer hfree
      · simp only [step, hacquire, Option.some.injEq] at hstep
        rw [← hstep]
        exact h
  | drop k =>
      simp only [step] at hstep
      split at hstep
      next => cases hstep
      next guard hk =>
        simp only [h.held k guard hk, Option.some.injEq] at hstep
        rw [← hstep]
        exact sound_drop buffers s h k guard hk _
  | write k data =>
      simp only [step] at hstep
      split at hstep
      next => cases hstep
      next guard hk =>
        rw [Option.some.injEq] at hstep
        rw [← hstep]
        exact sound_write buffers s h k guard hk _
  | clear k =>
      simp only [step] at hstep
      split at hstep
      next => cases hstep
      next guard hk =>
        rw [Option.some.injEq] at hstep
        rw [← hstep]
        exact ⟨h.same, h.held, h.alone, h.used, h.count⟩

/-! ## What the buffers hold -/

section Contents

variable (m : SharedMemory σ η) (B : Backed m)

/-- The system does not create a segment under a name that is in use. -/
structure Exclusive : Prop where
  create_used : ∀ (s : σ) (name : String) (total : Nat), B.contents s name ≠ none →
    ∃ msg, m.create s name total = .error msg

/-- The segment is a buffer that holds the data and never expires. -/
def Kept (s : σ) (name : String) (capacity : Nat) (data : Bytes) : Prop :=
  ∃ bytes header, Stored m B s name capacity data bytes header ∧ header.ttlSecs = 0

/-- The name of the segment behind a buffer. -/
def nameOf (buf : SharedBuffer η) : String := B.segment buf.handle

/-- The buffers of a pool have segments of their own. -/
structure Created (size : Nat) (buffers : List (SharedBuffer η)) : Prop where
  maps : ∀ buf ∈ buffers, Maps m B buf (nameOf m B buf) size
  apart : (buffers.map (nameOf m B)).Nodup

/-- Nobody who has the slot has written to it. -/
def State.unwritten (s : State σ η) (i : Nat) : Prop :=
  ∀ k guard, s.guard k = some guard → guard.index = i → guard.written = false

/-- A buffer that nobody has written to holds nothing. -/
def Clean (size : Nat) (buffers : List (SharedBuffer η)) (s : State σ η) : Prop :=
  ∀ i buf, buffers[i]? = some buf → ∃ data, Kept m B s.memory (nameOf m B buf) size data ∧
    (s.unwritten i → data = [])

/-- What a holder sees who has not written to its buffer. -/
def blank (guard : PooledBuffer η) : View where
  data := .ok []
  dataLen := .ok 0
  expired := .ok false
  descriptor := (segmentName guard.buffer.id).elim (.error .panic)
    (fun name => .ok ⟨guard.buffer.id, name, guard.buffer.capacity, 0⟩)

variable {m B}

theorem look_of_kept (now : UInt64) (s : State σ η) (guard : PooledBuffer η) (size : Nat)
    (hmaps : Maps m B guard.buffer (nameOf m B guard.buffer) size)
    (h : Kept m B s.memory (nameOf m B guard.buffer) size []) :
    look m now s guard = blank guard := by
  rcases h with ⟨bytes, header, hstored, httl⟩
  have hheader := readHeader_ok s.memory guard.buffer.handle _ size [] bytes header hstored
    hmaps.segment (Nat.le_trans (Nat.le_add_right _ _) hmaps.size)
  have hread := read_ok s.memory guard.buffer _ size [] (by decide) hmaps ⟨bytes, header, hstored⟩
  unfold look blank dataLen isExpired fromBuffer isHeaderExpired
  rw [hread, hheader]
  simp only [hstored.dataLen, httl, if_true, List.length_nil]
  cases segmentName guard.buffer.id with
  | none => rfl
  | some name => rfl

theorem kept_congr (s t : σ) (name : String) (size : Nat) (data : Bytes)
    (hsame : B.contents t name = B.contents s name) (h : Kept m B s name size data) :
    Kept m B t name size data := by
  rcases h with ⟨bytes, header, hstored, httl⟩
  exact ⟨bytes, header, { hstored with contents := hsame.trans hstored.contents }, httl⟩

/-- A buffer that is cleared holds nothing. -/
theorem kept_clear (s : σ) (buf : SharedBuffer η) (size : Nat) (old : Bytes)
    (hsize : size < 18446744073709551616) (hmaps : Maps m B buf (nameOf m B buf) size)
    (h : Kept m B s (nameOf m B buf) size old) :
    Kept m B (clear m s buf).2 (nameOf m B buf) size [] ∧
      ∀ other, other ≠ nameOf m B buf →
        B.contents (clear m s buf).2 other = B.contents s other := by
  rcases h with ⟨bytes, header, hstored, httl⟩
  rcases clear_stored s buf _ size old bytes header hsize hmaps hstored with
    ⟨t, bytes', header', hclear, hstored', httl', hframe⟩
  rw [hclear]
  exact ⟨⟨bytes', header', hstored', httl'.trans httl⟩, hframe⟩

/-- A buffer that is written to holds something, and the others what they did. -/
theorem kept_write (s : σ) (buf : SharedBuffer η) (size : Nat) (old data : Bytes)
    (hsize : size < 18446744073709551616) (hmaps : Maps m B buf (nameOf m B buf) size)
    (h : Kept m B s (nameOf m B buf) size old) :
    (∃ new, Kept m B (write m s buf data).2 (nameOf m B buf) size new) ∧
      ∀ other, other ≠ nameOf m B buf →
        B.contents (write m s buf data).2 other = B.contents s other := by
  by_cases hfits : data.length ≤ size
  · rcases h with ⟨bytes, header, hstored, httl⟩
    rcases write_stored s buf _ size old data bytes header hsize hmaps hstored hfits with
      ⟨t, bytes', header', hwrite, hstored', httl', hframe⟩
    rw [hwrite]
    exact ⟨⟨data, bytes', header', hstored', httl'.trans httl⟩, hframe⟩
  · -- Data that does not fit is refused.
    have hrefused : (write m s buf data).2 = s := by
      unfold write
      rw [if_pos (by rw [hmaps.capacity]; omega)]
    rw [hrefused]
    exact ⟨⟨old, h⟩, fun _ _ => rfl⟩

theorem Sound.buffer (h : Sound buffers s) (k : Nat) (guard : PooledBuffer η)
    (hk : s.guard k = some guard) :
    buffers[guard.index]? = some guard.buffer := by
  rw [← h.same, List.getElem?_map, h.held k guard hk]
  rfl

theorem Created.name_ne (h : Created m B size buffers) (i j : Nat) (buf buf' : SharedBuffer η)
    (hi : buffers[i]? = some buf) (hj : buffers[j]? = some buf') (hne : i ≠ j) :
    nameOf m B buf ≠ nameOf m B buf' := by
  intro heq
  have hi' : (buffers.map (nameOf m B))[i]? = some (nameOf m B buf) := by
    rw [List.getElem?_map, hi, Option.map_some]
  have hj' : (buffers.map (nameOf m B))[j]? = some (nameOf m B buf) := by
    rw [List.getElem?_map, hj, Option.map_some, heq]
  have hlt := (List.getElem?_eq_some_iff.mp hi').1
  exact hne ((List.getElem?_inj hlt h.apart).mp (hi'.trans hj'.symm))

/-- A step that touches the memory of one slot only. -/
theorem clean_of_frame (s t : State σ η) (hcreated : Created m B size buffers)
    (h : Clean m B size buffers s)
    (i : Nat) (buf : SharedBuffer η) (hi : buffers[i]? = some buf)
    (hat : ∃ data, Kept m B t.memory (nameOf m B buf) size data ∧ (t.unwritten i → data = []))
    (hframe : ∀ other, other ≠ nameOf m B buf →
      B.contents t.memory other = B.contents s.memory other)
    (hunwritten : ∀ j, j ≠ i → t.unwritten j → s.unwritten j) :
    Clean m B size buffers t := by
  intro j buf' hj
  by_cases hne : j = i
  · rw [hne, hi, Option.some.injEq] at hj
    rw [hne, ← hj]
    exact hat
  · rcases h j buf' hj with ⟨data, hkept, hempty⟩
    have hname := hcreated.name_ne size buffers j i buf' buf hj hi hne
    exact ⟨data, kept_congr s.memory t.memory _ size data (hframe _ hname) hkept,
      fun ht => hempty (hunwritten j hne ht)⟩

theorem clean_step (hsize : size < 18446744073709551616) (buffers : List (SharedBuffer η))
    (hcreated : Created m B size buffers) (s : State σ η)
    (a : Action) (t : State σ η) (hsound : Sound buffers s) (h : Clean m B size buffers s)
    (hstep : step m s a = some t) : Clean m B size buffers t := by
  cases a with
  | acquire =>
      rcases acquire_cases s.pool with ⟨i, buffer, _, hacquire⟩ | ⟨_, hacquire⟩
      · simp only [step, hacquire, Option.some.injEq] at hstep
        rw [← hstep]
        intro j buf hj
        rcases h j buf hj with ⟨data, hkept, hempty⟩
        refine ⟨data, hkept, fun ht => hempty (fun k guard hk => ht k guard ?_)⟩
        rw [guard_eq_some] at hk ⊢
        show (s.guards ++ [_])[k]? = _
        rw [List.getElem?_append_left (List.getElem?_eq_some_iff.mp hk).1]
        exact hk
      · simp only [step, hacquire, Option.some.injEq] at hstep
        rw [← hstep]
        exact h
  | drop k =>
      simp only [step] at hstep
      split at hstep
      next => cases hstep
      next guard hk =>
        simp only [hsound.held k guard hk, Option.some.injEq] at hstep
        have hbuffer := hsound.buffer buffers s k guard hk
        rcases h guard.index guard.buffer hbuffer with ⟨old, hold, _⟩
        have hcleared := kept_clear s.memory guard.buffer size old hsize
          (hcreated.maps _ (List.mem_of_getElem? hbuffer)) hold
        rw [← hstep]
        refine clean_of_frame size buffers s _ hcreated h guard.index guard.buffer hbuffer
          ⟨[], hcleared.1, fun _ => rfl⟩ hcleared.2 (fun j hj ht k' guard' hk' hindex => ?_)
        -- The guards of another slot are still there.
        have hne : k ≠ k' := by
          intro heq
          rw [← heq, hk, Option.some.injEq] at hk'
          rw [hk'] at hj
          exact hj hindex.symm
        refine ht k' guard' ?_ hindex
        rw [guard_eq_some] at hk' ⊢
        show (s.guards.set k none)[k']? = _
        rw [List.getElem?_set_ne hne]
        exact hk'
  | write k data =>
      simp only [step] at hstep
      split at hstep
      next => cases hstep
      next guard hk =>
        rw [Option.some.injEq] at hstep
        have hbuffer := hsound.buffer buffers s k guard hk
        rcases h guard.index guard.buffer hbuffer with ⟨old, hold, _⟩
        have hwritten := kept_write s.memory guard.buffer size old data hsize
          (hcreated.maps _ (List.mem_of_getElem? hbuffer)) hold
        have hlt := (List.getElem?_eq_some_iff.mp ((guard_eq_some s k guard).mp hk)).1
        rcases hwritten.1 with ⟨new, hnew⟩
        rw [← hstep]
        refine clean_of_frame size buffers s _ hcreated h guard.index guard.buffer hbuffer
          ⟨new, hnew, fun ht => ?_⟩ hwritten.2 (fun j hj ht k' guard' hk' hindex => ?_)
        · have hself := ht k { guard with written := true } (by
            rw [guard_eq_some]
            exact List.getElem?_set_self hlt) rfl
          exact absurd hself (by simp)
        · have hne : k ≠ k' := by
            intro heq
            rw [← heq, hk, Option.some.injEq] at hk'
            rw [hk'] at hj
            exact hj hindex.symm
          refine ht k' guard' ?_ hindex
          rw [guard_eq_some] at hk' ⊢
          show (s.guards.set k _)[k']? = _
          rw [List.getElem?_set_ne hne]
          exact hk'
  | clear k =>
      simp only [step] at hstep
      split at hstep
      next => cases hstep
      next guard hk =>
        rw [Option.some.injEq] at hstep
        have hbuffer := hsound.buffer buffers s k guard hk
        rcases h guard.index guard.buffer hbuffer with ⟨old, hold, _⟩
        have hcleared := kept_clear s.memory guard.buffer size old hsize
          (hcreated.maps _ (List.mem_of_getElem? hbuffer)) hold
        rw [← hstep]
        exact clean_of_frame size buffers s _ hcreated h guard.index guard.buffer hbuffer
          ⟨[], hcleared.1, fun _ => rfl⟩ hcleared.2 (fun _ _ ht => ht)

/-! ## Runs -/

variable (m) in
/-- The slots a pool is created with. -/
theorem newSlots_created (supply : Supply) (hexclusive : Exclusive m B) (size : Nat)
    (hsize : size < 18446744073709551616) (i n : Nat) (s t : σ) (slots : List (Slot η))
    (h : newSlots m supply size i n s = .ok (slots, t)) :
    slots.length = n ∧ (∀ slot ∈ slots, slot.inUse = false) ∧
      Created m B size (slots.map Slot.buffer) ∧
      (∀ slot ∈ slots, Kept m B t (nameOf m B slot.buffer) size [] ∧
        B.contents s (nameOf m B slot.buffer) = none) ∧
      ∀ name, B.contents s name ≠ none → B.contents t name = B.contents s name := by
  induction n generalizing i s slots with
  | zero =>
      simp only [newSlots, Except.ok.injEq, Prod.mk.injEq] at h
      rw [← h.1, ← h.2]
      exact ⟨rfl, fun _ hslot => absurd hslot List.not_mem_nil,
        ⟨fun _ hslot => absurd hslot List.not_mem_nil, List.nodup_nil⟩,
        fun _ hslot => absurd hslot List.not_mem_nil, fun _ _ => rfl⟩
  | succ n ih =>
      simp only [newSlots] at h
      split at h
      next => cases h
      next buffer u hcreate =>
        split at h
        next => cases h
        next rest v hrest =>
          simp only [Except.ok.injEq, Prod.mk.injEq] at h
          rcases h with ⟨rfl, rfl⟩
          rcases createWithTtl_name s u _ _ size none buffer hcreate with ⟨name, hname, r, hr⟩
          -- The system has accepted the name, so it was free.
          have hfresh : B.contents s name = none := by
            by_contra hused
            rcases hexclusive.create_used s name (headerSize + size) hused with ⟨msg, hmsg⟩
            rw [hmsg] at hr
            cases hr
          rcases createWithTtl_stored s u _ _ name size none buffer hname hfresh hsize hcreate with
            ⟨_, hmaps, ⟨bytes, hstored⟩, hframe⟩
          rcases ih (i + 1) u rest hrest with ⟨hlength, hflags, hcreated, hkept, hlater⟩
          have hthere : B.contents u name ≠ none := by
            rw [hstored.contents]
            exact Option.some_ne_none bytes
          have hself : nameOf m B buffer = name := hmaps.segment
          refine ⟨by rw [List.length_cons, hlength], ?_, ⟨?_, ?_⟩, ?_, ?_⟩
          · rintro slot hslot
            rcases List.mem_cons.mp hslot with rfl | hslot
            · rfl
            · exact hflags slot hslot
          · intro buf hbuf
            rcases List.mem_cons.mp hbuf with rfl | hbuf
            · rw [hself]
              exact hmaps
            · exact hcreated.maps buf hbuf
          · rw [List.map_cons, List.map_cons, List.nodup_cons]
            refine ⟨fun hmem => ?_, hcreated.apart⟩
            rw [List.mem_map] at hmem
            rcases hmem with ⟨buf, hbuf, heq⟩
            rcases List.mem_map.mp hbuf with ⟨slot, hslot, rfl⟩
            -- A later buffer has a name that was free after this one was created.
            rw [hself] at heq
            exact hthere (heq ▸ (hkept slot hslot).2)
          · intro slot hslot
            rcases List.mem_cons.mp hslot with rfl | hslot
            · rw [hself]
              exact ⟨kept_congr u v name size [] (hlater name hthere)
                ⟨bytes, _, hstored, rfl⟩, hfresh⟩
            · refine ⟨(hkept slot hslot).1, ?_⟩
              by_cases hne : nameOf m B slot.buffer = name
              · rw [hne]
                exact hfresh
              · rw [← hframe _ hne]
                exact (hkept slot hslot).2
          · intro other hother
            have hne : other ≠ name := fun heq => hother (heq ▸ hfresh)
            rw [hlater other (by rw [hframe other hne]; exact hother), hframe other hne]

/-- A pool that has just been created, with nothing given out. -/
theorem start_sound (supply : Supply) (hexclusive : Exclusive m B) (capacity : Nat)
    (bufferSize : UInt64) (s t : σ) (pool : BufferPool η)
    (h : newPool m supply capacity bufferSize s = .ok (pool, t)) :
    (pool.slots.map Slot.buffer).length = capacity ∧
      Created m B bufferSize.toNat (pool.slots.map Slot.buffer) ∧
      Sound (pool.slots.map Slot.buffer) ⟨t, pool, []⟩ ∧
      Clean m B bufferSize.toNat (pool.slots.map Slot.buffer) ⟨t, pool, []⟩ := by
  unfold newPool at h
  split at h
  next => cases h
  next =>
    split at h
    next => cases h
    next =>
      split at h
      next => cases h
      next slots u hslots =>
        simp only [Except.ok.injEq, Prod.mk.injEq] at h
        rcases h with ⟨rfl, rfl⟩
        have hslots := newSlots_created m supply hexclusive _ bufferSize.toNat_lt 0 capacity s u
          slots hslots
        rcases hslots with ⟨hlength, hflags, hcreated, hkept, _⟩
        have hnone : ∀ k, State.guard (⟨u, ⟨slots, capacity, bufferSize.toNat⟩, []⟩ : State σ η) k =
            none := fun k => rfl
        refine ⟨by rw [List.length_map, hlength], hcreated, ⟨rfl, ?_, ?_, ?_, ?_⟩, ?_⟩
        · intro k guard hk
          rw [hnone] at hk
          cases hk
        · intro k k' guard guard' hk
          rw [hnone] at hk
          cases hk
        · intro i slot hi hused
          rw [hflags slot (List.mem_of_getElem? hi)] at hused
          cases hused
        · show slots.countP _ + 0 = (slots.map Slot.buffer).length
          rw [Nat.add_zero, List.length_map, List.countP_eq_length]
          intro slot hslot
          rw [hflags slot hslot]
          rfl
        · intro i buf hi
          rw [List.getElem?_map, Option.map_eq_some_iff] at hi
          rcases hi with ⟨slot, hi, rfl⟩
          exact ⟨[], (hkept slot (List.mem_of_getElem? hi)).1, fun _ => rfl⟩

/-- What holds in every state of a pool. -/
theorem sound_of_run (hsize : size < 18446744073709551616) (buffers : List (SharedBuffer η))
    (hcreated : Created m B size buffers) (start s : State σ η)
    (hstart : Sound buffers start ∧ Clean m B size buffers start) (actions : List Action)
    (hrun : exec (step m) start actions = some s) :
    Sound buffers s ∧ Clean m B size buffers s :=
  exec_invariant (step m) (fun s => Sound buffers s ∧ Clean m B size buffers s)
    (fun s a t h hstep => ⟨sound_step m buffers s a t h.1 hstep,
      clean_step size hsize buffers hcreated s a t h.1 h.2 hstep⟩)
    start s actions hstart hrun

/-- A holder that has not written sees a blank buffer. -/
theorem look_eq_blank (hcreated : Created m B size buffers) (now : UInt64) (s : State σ η)
    (hsound : Sound buffers s) (hclean : Clean m B size buffers s) (k : Nat)
    (guard : PooledBuffer η) (hk : s.guard k = some guard) (hwritten : guard.written = false) :
    look m now s guard = blank guard := by
  have hbuffer := hsound.buffer buffers s k guard hk
  rcases hclean guard.index guard.buffer hbuffer with ⟨data, hkept, hempty⟩
  have hnil : data = [] := by
    refine hempty (fun k' guard' hk' hindex => ?_)
    have hsame := hsound.alone k' k guard' guard hk' hk hindex
    rw [hsame, hk, Option.some.injEq] at hk'
    rw [← hk']
    exact hwritten
  rw [hnil] at hkept
  exact look_of_kept now s guard size (hcreated.maps _ (List.mem_of_getElem? hbuffer)) hkept

/-- The guards of a pool have slots of their own, they and the free slots make up its
    capacity, and it is exhausted only when every slot is held. What a holder sees
    before it writes is the same in every run of the pool. -/
theorem pool_exclusive (supply : Supply) (hexclusive : Exclusive m B) (capacity : Nat)
    (bufferSize : UInt64) (memory memory' : σ) (pool : BufferPool η)
    (hnew : newPool m supply capacity bufferSize memory = .ok (pool, memory'))
    (actions : List Action) (s : State σ η)
    (hrun : exec (step m) ⟨memory', pool, []⟩ actions = some s) :
    (∀ k k' guard guard', s.guard k = some guard → s.guard k' = some guard' →
      guard.index = guard'.index → k = k') ∧
    s.pool.available + s.inUse = capacity ∧
    (∀ e, (acquire s.pool).1 = .error e → s.inUse = capacity ∧
      ∀ i < capacity, ∃ k guard, s.guard k = some guard ∧ guard.index = i) ∧
    ∀ actions' t, exec (step m) ⟨memory', pool, []⟩ actions' = some t →
      ∀ now k k' guard guard', s.guard k = some guard → t.guard k' = some guard' →
        guard.index = guard'.index → guard.written = false → guard'.written = false →
        look m now s guard = look m now t guard' := by
  rcases start_sound supply hexclusive capacity bufferSize memory memory' pool hnew with
    ⟨hlength, hcreated, hstart⟩
  have hall := fun s actions hrun => sound_of_run bufferSize.toNat bufferSize.toNat_lt _ hcreated
    ⟨memory', pool, []⟩ s hstart actions hrun
  rcases hall s actions hrun with ⟨hsound, hclean⟩
  refine ⟨hsound.alone, hsound.count.trans hlength, fun e he => ?_, ?_⟩
  · rcases acquire_cases s.pool with ⟨i, buffer, _, hacquire⟩ | ⟨hused, _⟩
    · rw [hacquire] at he
      cases he
    · have hfree : s.pool.available = 0 := by
        unfold BufferPool.available
        rw [List.countP_eq_zero]
        intro slot hslot
        rw [hused slot hslot]
        exact Bool.false_ne_true
      have hcount := hsound.count
      refine ⟨by omega, fun i hi => ?_⟩
      have hlt : i < s.pool.slots.length := by
        have hslots : s.pool.slots.length = capacity := by
          rw [← List.length_map (f := Slot.buffer), hsound.same, hlength]
        omega
      exact hsound.used i _ (List.getElem?_eq_getElem hlt) (hused _ (List.getElem_mem hlt))
  · intro actions' t hrun' now k k' guard guard' hk hk' hindex hwritten hwritten'
    rcases hall t actions' hrun' with ⟨hsound', hclean'⟩
    have hbuffer := hsound.buffer _ s k guard hk
    rw [hindex, hsound'.buffer _ t k' guard' hk', Option.some.injEq] at hbuffer
    rw [look_eq_blank _ _ hcreated now s hsound hclean k guard hk hwritten,
      look_eq_blank _ _ hcreated now t hsound' hclean' k' guard' hk' hwritten']
    unfold blank
    rw [hbuffer]

end Contents

theorem table_exclusive : Exclusive tableMemory tableBacked where
  create_used := by
    intro s name total hused
    rcases Option.ne_none_iff_exists'.mp hused with ⟨bytes, hbytes⟩
    have hsome : s name = some bytes := hbytes
    exact ⟨"already exists", by simp only [tableMemory, hsome]⟩

/-- The second holder of a slot, after the first one has written to it. -/
def handedOn : List Action := [.acquire, .acquire, .write 0 [1, 2, 3], .drop 0, .acquire, .acquire]

theorem pool_exclusive_handedOn :
    ∃ pool memory s, newPool tableMemory counting 2 4 (fun _ => none) = .ok (pool, memory) ∧
      exec (step tableMemory) ⟨memory, pool, []⟩ handedOn = some s ∧
      s.pool.available + s.inUse = 2 := by
  refine ⟨_, _, _, rfl, rfl, ?_⟩
  exact (pool_exclusive counting table_exclusive 2 4 (fun _ => none) _ _ rfl handedOn _ rfl).2.1

end Pool

end Shm

end DccMcp
