import DccMcp.Lib.Machine
import DccMcp.Lib.Threads

/-!
# Who Owns the Job Database

The lease on a SQLite job database, and how a store gives it up.

A process opens the database only after it has locked a file beside it, the
lease, and gives the lock back when the store is shut down. At that moment
other threads may be anywhere inside an operation, so every operation holds a
read guard of the store's lifecycle from before it looks at the closed flag
until it returns, and the lease is only given back under the write guard.

There are two ways to close. An orderly shutdown waits for the write guard. A
forced one sets the flag without it, and if the guard is not to be had at
once, leaves the rest to a thread that waits for it. An operation that was
admitted before may still run then. It keeps the lease from being given back
until it is over.

The machine has any number of stores on one database, opened one after the
other, in one process or in several, and in each any number of calls. A call
is a list of places, and what it holds is read off the place it is at.

## Main definitions

* `Op`, `Phase`: The operations, and where a call is.
* `Store`, `Store.advance`: One store, and what a call in it can do.
* `Database`, `Action`, `step`: The stores of a database, and its lease.
* `Store.Sound`, `Owned`: The invariants.
* `Late`: A call that came after the store was closed.

## Theorems

* `lease_protects`: The lease, over every run.
-/

namespace DccMcp

namespace Jobs

namespace Ownership

open Machine
open Threads

/-- The operations of a storage that use the connection. -/
inductive Op
  | put
  | get
  | list
  | updateStatus
  | deleteOlderThan
  deriving DecidableEq

/-- The operations that change rows. These look at the closed flag a second
    time when they have the connection. -/
def Op.writes : Op → Bool
  | .put | .updateStatus | .deleteOlderThan => true
  | .get | .list => false

/-- Where a call is. -/
inductive Phase
  /-- `ensure_open`, before it has the read guard. -/
  | entering (op : Op)
  /-- `ensure_open`, before it looks at the flag. -/
  | guarded (op : Op)
  | admitted (op : Op)
  /-- The connection is locked. -/
  | connected (op : Op)
  | executing (op : Op)
  /-- The statement is over, and the guards are still held. -/
  | returning (op : Op) (ok : Bool)
  | finished (op : Op) (ok : Bool)
  /-- `shutdown_with_timeout`, in `try_write_for`. -/
  | shutdownWaiting
  | shutdownHolding
  | shutdownClosed
  | shutdownReleased
  /-- `force_close`, before it sets the flag. -/
  | forceEntering
  | forceClosed
  | forceTrying
  | forceHolding
  | forceReleased
  /-- `force_close`, before it claims the fence. -/
  | fenceClaiming
  | fenceSpawning
  | fenceFailed
  | answered (released : Bool)
  /-- The thread that waits for the write guard. -/
  | fenceWaiting
  | fenceHolding
  | fenceReleased
  | fenceEnded
  deriving DecidableEq

namespace Phase

/-- The call holds a read guard of the lifecycle. -/
def reads : Phase → Bool
  | .guarded _ | .admitted _ | .connected _ | .executing _ | .returning _ _ => true
  | _ => false

/-- The call holds the write guard of the lifecycle. -/
def writes : Phase → Bool
  | .shutdownHolding | .shutdownClosed | .shutdownReleased | .forceHolding | .forceReleased
  | .fenceHolding | .fenceReleased => true
  | _ => false

/-- The call holds the lock of the connection. -/
def holdsConn : Phase → Bool
  | .connected _ | .executing _ | .returning _ _ => true
  | _ => false

/-- The call was admitted and is not over. -/
def usesConnection : Phase → Bool
  | .admitted _ | .connected _ | .executing _ | .returning _ _ => true
  | _ => false

/-- The call borrows the store. A fence thread has its own references. -/
def borrows : Phase → Bool
  | .finished _ _ | .answered _ | .fenceWaiting | .fenceHolding | .fenceReleased
  | .fenceEnded => false
  | _ => true

/-- The call has come past the point where the flag is set. -/
def afterClose : Phase → Bool
  | .shutdownClosed | .shutdownReleased | .forceClosed | .forceTrying | .forceHolding
  | .forceReleased | .fenceClaiming | .fenceSpawning | .fenceFailed | .answered _
  | .fenceWaiting | .fenceHolding | .fenceReleased | .fenceEnded => true
  | _ => false

/-- A call that may have come after the store was closed: it was not admitted,
    and if it is over, it was refused. -/
def late : Phase → Bool
  | .admitted _ | .connected _ | .executing _ | .returning _ _ => false
  | .finished _ ok => !ok
  | _ => true

end Phase

/-- Where a store is: still being opened, usable, or dropped. -/
inductive Life
  | opening
  | live
  | gone
  deriving DecidableEq

/-- A `SqliteStorage`. `lockFile` says that it still has the locked file. -/
structure Store where
  life : Life
  closed : Bool
  handoffFenceStarted : Bool
  lockFile : Bool
  calls : List Phase
  deriving DecidableEq

/-- What a step of a call does outside of the store. -/
inductive Effect
  | none
  | write
  | release
  deriving DecidableEq

/-- A step of a call: where it is then, the flags, a thread it starts, and what
    it does outside. -/
structure Move where
  phase : Phase
  closed : Bool
  handoffFenceStarted : Bool
  spawned : List Phase := []
  effect : Effect := .none

namespace Store

/-- The write guard can be had. -/
def free (s : Store) : Bool := Free Phase.reads Phase.writes s.calls

/-- A call goes on, and nothing else changes. -/
def goTo (s : Store) (phase : Phase) : Option Move :=
  some { phase := phase, closed := s.closed, handoffFenceStarted := s.handoffFenceStarted }

/-- A call goes on with an effect. -/
def goWith (s : Store) (phase : Phase) (effect : Effect) : Option Move :=
  some { phase := phase, closed := s.closed, handoffFenceStarted := s.handoffFenceStarted
         effect := effect }

/-- The next step of a call. `ok` chooses where the outside decides: whether a
    row can be encoded, a statement succeeds, a lock is had in time, a thread
    can be started. -/
def advance (s : Store) (ok : Bool) : Phase → Option Move
  | .entering op => if s.calls.any Phase.writes then none else s.goTo (.guarded op)
  | .guarded op => if s.closed then s.goTo (.finished op false) else s.goTo (.admitted op)
  | .admitted op =>
    if ok then if s.calls.any Phase.holdsConn then none else s.goTo (.connected op)
    -- Only `put` encodes something before it locks the connection.
    else if op = .put then s.goTo (.finished op false) else none
  | .connected op =>
    if op.writes && s.closed then s.goTo (.finished op false) else s.goTo (.executing op)
  | .executing op =>
    if ok && op.writes then s.goWith (.returning op true) .write else s.goTo (.returning op ok)
  | .returning op ok => s.goTo (.finished op ok)
  | .finished _ _ => none
  | .shutdownWaiting =>
    if ok then if s.free then s.goTo .shutdownHolding else none else s.goTo .forceEntering
  | .shutdownHolding =>
    some { phase := .shutdownClosed, closed := true
           handoffFenceStarted := s.handoffFenceStarted }
  | .shutdownClosed => s.goWith .shutdownReleased .release
  | .shutdownReleased => s.goTo (.answered true)
  | .forceEntering =>
    some { phase := .forceClosed, closed := true, handoffFenceStarted := s.handoffFenceStarted }
  -- The interrupt makes statements fail that are running. Any of them may.
  | .forceClosed => s.goTo .forceTrying
  | .forceTrying =>
    if ok then if s.free then s.goTo .forceHolding else none else s.goTo .fenceClaiming
  | .forceHolding => s.goWith .forceReleased .release
  | .forceReleased => s.goTo (.answered true)
  | .fenceClaiming =>
    if s.handoffFenceStarted then s.goTo (.answered false)
    else some { phase := .fenceSpawning, closed := s.closed, handoffFenceStarted := true }
  | .fenceSpawning =>
    if ok then
      some { phase := .answered false, closed := s.closed
             handoffFenceStarted := s.handoffFenceStarted, spawned := [.fenceWaiting] }
    else s.goTo .fenceFailed
  | .fenceFailed =>
    some { phase := .answered false, closed := s.closed, handoffFenceStarted := false }
  | .answered _ => none
  | .fenceWaiting => if s.free then s.goTo .fenceHolding else none
  | .fenceHolding => s.goWith .fenceReleased .release
  | .fenceReleased => s.goTo .fenceEnded
  | .fenceEnded => none

/-- The store after a step of call `c`. -/
def moved (s : Store) (c : Nat) (move : Move) : Store :=
  { s with
    closed := move.closed
    handoffFenceStarted := move.handoffFenceStarted
    lockFile := s.lockFile && move.effect != .release
    calls := s.calls.set c move.phase ++ move.spawned }

end Store

/-- A write to the database: by which store, and by which call of it. Opening a
    store writes its schema. -/
structure Write where
  store : Nat
  call : Option Nat
  deriving DecidableEq

/-- The stores that were ever opened on a database, the one whose file is
    locked, and the writes, newest first. -/
structure Database where
  stores : List Store
  lease : Option Nat
  log : List Write
  deriving DecidableEq

def init : Database := ⟨[], none, []⟩

/-- What can be called on a store. -/
inductive Call
  | operation (op : Op)
  | shutdownWithTimeout
  | forceClose
  deriving DecidableEq

/-- Where a call begins. -/
def Call.entry : Call → Phase
  | .operation op => .entering op
  | .shutdownWithTimeout => .shutdownWaiting
  | .forceClose => .forceEntering

inductive Action
  /-- `open` locks the file, which works only if nobody has it locked. -/
  | acquire
  /-- `open` writes the schema. -/
  | setUp (i : Nat)
  | openFails (i : Nat)
  | opened (i : Nat)
  | call (i : Nat) (call : Call)
  | advance (i c : Nat) (ok : Bool)
  | drop (i : Nat)
  /-- The process of the store ends, with everything that runs in it. -/
  | crash (i : Nat)
  deriving DecidableEq

namespace Database

/-- Giving the lease back, if it is still there to be given. -/
def releaseIf (db : Database) (i : Nat) (store : Store) (released : Store) : Database :=
  { db with
    stores := db.stores.set i released
    lease := if store.lockFile then none else db.lease }

/-- A store changes and keeps what it holds. -/
def update (db : Database) (i : Nat) (store : Store) : Database :=
  { db with stores := db.stores.set i store }

end Database

/-- What a store is after it was dropped. -/
def Store.dropped (s : Store) : Store := { s with life := .gone, lockFile := false }

/-- One step. -/
def step (db : Database) : Action → Option Database
  | .acquire =>
    if db.lease = none then
      some { db with
        stores := db.stores ++ [⟨.opening, false, false, true, []⟩]
        lease := some db.stores.length }
    else none
  | .setUp i =>
    match db.stores[i]? with
    | some store =>
      if store.life = .opening then some { db with log := ⟨i, none⟩ :: db.log } else none
    | none => none
  | .openFails i =>
    match db.stores[i]? with
    | some store =>
      if store.life = .opening then some (db.releaseIf i store store.dropped) else none
    | none => none
  | .opened i =>
    match db.stores[i]? with
    | some store =>
      if store.life = .opening then some (db.update i { store with life := .live }) else none
    | none => none
  | .call i call =>
    match db.stores[i]? with
    | some store =>
      if store.life = .live then
        some (db.update i { store with calls := store.calls ++ [call.entry] })
      else none
    | none => none
  | .advance i c ok =>
    match db.stores[i]? with
    | some store =>
      match store.calls[c]? with
      | some phase =>
        match store.advance ok phase with
        | some move =>
          match move.effect with
          | .none => some (db.update i (store.moved c move))
          | .write => some { db.update i (store.moved c move) with log := ⟨i, some c⟩ :: db.log }
          | .release => some (db.releaseIf i store (store.moved c move))
        | none => none
      | none => none
    | none => none
  | .drop i =>
    match db.stores[i]? with
    | some store =>
      if store.life = .live ∧ store.calls.any Phase.borrows = false then
        some (db.releaseIf i store store.dropped)
      else none
    | none => none
  | .crash i =>
    match db.stores[i]? with
    | some store => some (db.releaseIf i store { store.dropped with calls := [] })
    | none => none

/-! ## What a call can do -/

/-- Everything the invariants need to know about a step of a call. -/
structure Move.Fair (s : Store) (old : Phase) (move : Move) : Prop where
  reads : move.phase.reads = true → old.reads = true ∨ s.calls.any Phase.writes = false
  writes : move.phase.writes = true →
    move.phase.reads = false ∧ (old.writes = true ∨ s.free = true)
  admits : move.phase.usesConnection = true →
    old.usesConnection = true ∨ (s.closed = false ∧ old.borrows = true)
  closes : move.phase.afterClose = true → old.afterClose = true ∨ move.closed = true
  closed : s.closed = true → move.closed = true
  borrows : move.phase.borrows = true → old.borrows = true
  releases : move.effect = .release → old.writes = true ∧ old.afterClose = true
  wrote : move.effect = .write → old.usesConnection = true
  late : s.closed = true → old.late = true → move.phase.late = true
  spawned : move.spawned = [] ∨ (move.spawned = [.fenceWaiting] ∧ old.afterClose = true)

variable (s : Store)

theorem fair_of_advance (ok : Bool) (old : Phase) (move : Move) (h : s.advance ok old = some move) :
    move.Fair s old := by
  cases old <;> simp only [Store.advance, Store.goTo, Store.goWith, reduceCtorEq] at h <;>
    (repeat' split at h) <;>
    first
      | exact absurd h (by simp only [reduceCtorEq, not_false_eq_true])
      | (cases h
         constructor <;>
           simp_all [Phase.reads, Phase.writes, Phase.usesConnection, Phase.afterClose,
             Phase.borrows, Phase.late])

theorem reads_of_usesConnection (phase : Phase) (h : phase.usesConnection = true) :
    phase.reads = true ∧ phase.writes = false ∧ phase.late = false := by
  cases phase <;> first | exact ⟨rfl, rfl, rfl⟩ | exact absurd h Bool.false_ne_true

theorem not_usesConnection_of_borrows (phase : Phase) (h : phase.borrows = false) :
    phase.usesConnection = false := by
  cases phase <;> first | rfl | exact absurd h.symm Bool.false_ne_true

/-! ## One store -/

/-- The invariant of a store: its lifecycle lock is exclusive, whoever was
    admitted keeps the file locked, and the file is not given back before the
    flag is set. -/
structure Store.Sound (s : Store) : Prop where
  exclusive : Exclusive Phase.reads Phase.writes s.calls
  used : ∀ phase ∈ s.calls, phase.usesConnection = true → s.lockFile = true
  closed : ∀ phase ∈ s.calls, phase.afterClose = true → s.closed = true
  released : s.lockFile = false → s.closed = true ∨ s.life = .gone
  opening : s.life = .opening → s.calls = [] ∧ s.lockFile = true
  gone : s.life = .gone → ∀ phase ∈ s.calls, phase.borrows = false

namespace Store

/-- A call of the store after one has moved: it was there, or is the one that
    moved, or is the fence. -/
theorem mem_moved (c : Nat) (old : Phase) (move : Move) (hfair : move.Fair s old) (phase : Phase)
    (h : phase ∈ (s.moved c move).calls) :
    phase ∈ s.calls ∨ phase = move.phase ∨ (phase = .fenceWaiting ∧ old.afterClose = true) := by
  rcases List.mem_append.mp h with h | h
  · exact (List.mem_or_eq_of_mem_set h).imp id .inl
  · rcases hfair.spawned with hnone | ⟨hone, hafter⟩
    · rw [hnone] at h
      exact absurd h List.not_mem_nil
    · rw [hone, List.mem_singleton] at h
      exact .inr (.inr ⟨h, hafter⟩)

theorem exclusive_moved (c : Nat) (old : Phase) (move : Move) (hold : s.calls[c]? = some old)
    (hfair : move.Fair s old)
    (h : Exclusive Phase.reads Phase.writes s.calls) :
    Exclusive Phase.reads Phase.writes (s.moved c move).calls := by
  have hset : Exclusive Phase.reads Phase.writes (s.calls.set c move.phase) := by
    refine exclusive_move Phase.reads Phase.writes s.calls c old move.phase hold h ?_ hfair.writes
    intro hreads
    refine (hfair.reads hreads).imp id (fun hnone => ?_)
    rw [List.countP_eq_zero]
    exact List.any_eq_false.mp hnone
  unfold moved
  rcases hfair.spawned with hnone | ⟨hone, _⟩
  · rw [hnone, List.append_nil]
    exact hset
  · rw [hone]
    exact exclusive_append Phase.reads Phase.writes _ _ hset rfl rfl

/-- A step that gives the file back finds nobody using the connection, and
    admits nobody. -/
theorem not_used_of_release (old : Phase) (move : Move) (hmem : old ∈ s.calls)
    (hfair : move.Fair s old) (h : s.Sound) (hrelease : move.effect = .release) (phase : Phase)
    (hphase : phase ∈ s.calls ∨ phase = move.phase) : phase.usesConnection = false := by
  rcases hfair.releases hrelease with ⟨hwrites, hafter⟩
  rw [Bool.eq_false_iff]
  intro huses
  rcases hphase with hphase | rfl
  · have hreads := not_reads_of_writes Phase.reads Phase.writes s.calls h.exclusive old hmem
      hwrites phase hphase
    rw [(reads_of_usesConnection phase huses).1] at hreads
    exact absurd hreads.symm Bool.false_ne_true
  · rcases hfair.admits huses with huses | ⟨hopen, _⟩
    · rw [(reads_of_usesConnection old huses).2.1] at hwrites
      exact absurd hwrites Bool.false_ne_true
    · rw [h.closed old hmem hafter] at hopen
      exact absurd hopen.symm Bool.false_ne_true

/-- A step of a call keeps the invariant of its store. -/
theorem sound_moved (c : Nat) (ok : Bool) (old : Phase) (move : Move)
    (hold : s.calls[c]? = some old) (hmove : s.advance ok old = some move) (h : s.Sound) :
    (s.moved c move).Sound := by
  have hfair := fair_of_advance s ok old move hmove
  have hmem := List.mem_of_getElem? hold
  refine
    { exclusive := exclusive_moved s c old move hold hfair h.exclusive
      used := fun phase hphase huses => ?_
      closed := fun phase hphase hafter => ?_
      released := fun hfile => ?_
      opening := fun hlife => ?_
      gone := fun hlife phase hphase => ?_ }
  · have hplace : phase ∈ s.calls ∨ phase = move.phase := by
      rcases mem_moved s c old move hfair phase hphase with hplace | hplace | ⟨rfl, _⟩
      · exact .inl hplace
      · exact .inr hplace
      · exact absurd huses Bool.false_ne_true
    by_cases hrelease : move.effect = .release
    · rw [not_used_of_release s old move hmem hfair h hrelease phase hplace] at huses
      exact absurd huses Bool.false_ne_true
    · have hfile : s.lockFile = true := by
        rcases hplace with hplace | rfl
        · exact h.used phase hplace huses
        · rcases hfair.admits huses with huses | ⟨hopen, hborrows⟩
          · exact h.used old hmem huses
          · -- An open store that is not gone has its file.
            by_contra hno
            rcases h.released (Bool.eq_false_iff.mpr hno) with hclosed | hgone
            · rw [hclosed] at hopen
              exact absurd hopen.symm Bool.false_ne_true
            · rw [h.gone hgone old hmem] at hborrows
              exact absurd hborrows Bool.false_ne_true
      unfold moved
      simp only [hfile, Bool.true_and, bne_iff_ne]
      exact hrelease
  · rcases mem_moved s c old move hfair phase hphase with hplace | rfl | ⟨_, hafter'⟩
    · exact hfair.closed (h.closed phase hplace hafter)
    · rcases hfair.closes hafter with hafter | hclosed
      · exact hfair.closed (h.closed old hmem hafter)
      · exact hclosed
    · exact hfair.closed (h.closed old hmem hafter')
  · by_cases hrelease : move.effect = .release
    · exact .inl (hfair.closed (h.closed old hmem (hfair.releases hrelease).2))
    · have hfile' : s.lockFile = false := by
        have hne : (move.effect != .release) = true := bne_iff_ne.mpr hrelease
        unfold moved at hfile
        rwa [hne, Bool.and_true] at hfile
      exact (h.released hfile').imp hfair.closed id
  · rw [(h.opening hlife).1] at hmem
    exact absurd hmem List.not_mem_nil
  · rw [Bool.eq_false_iff]
    intro hborrows
    rcases mem_moved s c old move hfair phase hphase with hplace | rfl | ⟨rfl, _⟩
    · rw [h.gone hlife phase hplace] at hborrows
      exact absurd hborrows Bool.false_ne_true
    · have hborrows' := hfair.borrows hborrows
      rw [h.gone hlife old hmem] at hborrows'
      exact absurd hborrows' Bool.false_ne_true
    · exact absurd hborrows Bool.false_ne_true

theorem sound_opened (hopening : s.life = .opening) (h : s.Sound) :
    ({ s with life := .live } : Store).Sound where
  exclusive := h.exclusive
  used := h.used
  closed := h.closed
  released hfile := by
    have hfile' : s.lockFile = false := hfile
    rw [(h.opening hopening).2] at hfile'
    exact absurd hfile'.symm Bool.false_ne_true
  opening hlife := by simp only [reduceCtorEq] at hlife
  gone hlife := by simp at hlife

theorem sound_called (call : Call) (hlive : s.life = .live) (h : s.Sound) :
    ({ s with calls := s.calls ++ [call.entry] } : Store).Sound where
  exclusive := by
    refine exclusive_append Phase.reads Phase.writes _ _ h.exclusive ?_ ?_ <;> cases call <;> rfl
  used phase hphase huses := by
    rcases List.mem_append.mp hphase with hphase | hphase
    · exact h.used phase hphase huses
    · rw [List.mem_singleton.mp hphase] at huses
      cases call <;> exact absurd huses Bool.false_ne_true
  closed phase hphase hafter := by
    rcases List.mem_append.mp hphase with hphase | hphase
    · exact h.closed phase hphase hafter
    · rw [List.mem_singleton.mp hphase] at hafter
      cases call <;> exact absurd hafter Bool.false_ne_true
  released := h.released
  opening hlife := by simp only [hlive, reduceCtorEq] at hlife
  gone hlife := by simp [hlive] at hlife

/-- A store that nobody borrows can be dropped. -/
theorem sound_dropped (hquiet : s.calls.any Phase.borrows = false) (h : s.Sound) :
    s.dropped.Sound where
  exclusive := h.exclusive
  used phase hphase huses := by
    have hno := Bool.eq_false_iff.mpr (List.any_eq_false.mp hquiet phase hphase)
    rw [not_usesConnection_of_borrows phase hno] at huses
    exact absurd huses Bool.false_ne_true
  closed := h.closed
  released _ := .inr rfl
  opening hlife := by simp only [dropped, reduceCtorEq] at hlife
  gone _ phase hphase := Bool.eq_false_iff.mpr (List.any_eq_false.mp hquiet phase hphase)

theorem sound_crashed : ({ s.dropped with calls := [] } : Store).Sound where
  exclusive := .inl rfl
  used phase hphase := absurd hphase List.not_mem_nil
  closed phase hphase := absurd hphase List.not_mem_nil
  released _ := .inr rfl
  opening hlife := by simp only [dropped, reduceCtorEq] at hlife
  gone _ phase hphase := absurd hphase List.not_mem_nil

/-- The store is closed, and every call from the given one on is refused. -/
def Refuses (s : Store) (n : Nat) : Prop :=
  s.closed = true ∧
    ∀ (c : Nat) (phase : Phase), n ≤ c → s.calls[c]? = some phase → phase.late = true

theorem refuses_called (call : Call) (n : Nat) (h : s.Refuses n) :
    ({ s with calls := s.calls ++ [call.entry] } : Store).Refuses n := by
  refine ⟨h.1, fun c phase hc hphase => ?_⟩
  rcases getElem?_snoc s.calls c call.entry phase hphase with ⟨_, rfl⟩ | hphase
  · cases call <;> rfl
  · exact h.2 c phase hc hphase

theorem refuses_moved (c : Nat) (old : Phase) (move : Move) (hold : s.calls[c]? = some old)
    (hfair : move.Fair s old) (n : Nat) (h : s.Refuses n) :
    (s.moved c move).Refuses n := by
  refine ⟨hfair.closed h.1, fun c' phase hc hphase => ?_⟩
  have hset : ∀ phase, (s.calls.set c move.phase)[c']? = some phase → phase.late = true := by
    intro phase hphase
    rcases getElem?_move s.calls c c' move.phase phase hphase with ⟨rfl, rfl⟩ | hphase
    · exact hfair.late h.1 (h.2 c' old hc hold)
    · exact h.2 c' phase hc hphase
  unfold moved at hphase
  rcases hfair.spawned with hnone | ⟨hone, _⟩
  · rw [hnone, List.append_nil] at hphase
    exact hset phase hphase
  · rw [hone] at hphase
    rcases getElem?_snoc _ c' _ phase hphase with ⟨_, rfl⟩ | hphase
    · rfl
    · exact hset phase hphase

end Store

/-! ## The database -/

/-- A new store, while it is being opened. -/
def opening : Store := ⟨.opening, false, false, true, []⟩

/-- Everything a step can do to the database: a new store takes the lease, or
    one store changes and keeps its file, perhaps with a write, or one store
    gives its file back. -/
inductive Changes (db : Database) (a : Action) : Database → Prop
  | acquired (hfree : db.lease = none) :
      Changes db a ⟨db.stores ++ [opening], some db.stores.length, db.log⟩
  | kept (i : Nat) (store store' : Store) (writes : List Write)
      (hget : db.stores[i]? = some store) (hsound : store.Sound → store'.Sound)
      (hrefuses : ∀ n, store.Refuses n → store'.Refuses n)
      (hfile : store'.lockFile = store.lockFile)
      (hwrites : writes = [] ∨
        ∃ call, writes = [⟨i, call⟩] ∧ (store.Sound → store.lockFile = true) ∧
          ∀ c, call = some c → ∃ phase, store.calls[c]? = some phase ∧ phase.late = false) :
      Changes db a ⟨db.stores.set i store', db.lease, writes ++ db.log⟩
  | released (i : Nat) (store store' : Store) (hget : db.stores[i]? = some store)
      (hsound : store.Sound → store'.Sound)
      (hrefuses : ∀ n, store.Refuses n → store'.Refuses n)
      (hfile : store'.lockFile = false)
      (hquiet : a = .crash i ∨
        (store.Sound → ∀ phase ∈ store.calls, phase.usesConnection = false)) :
      Changes db a ⟨db.stores.set i store', if store.lockFile then none else db.lease, db.log⟩

theorem lockFile_moved (s : Store) (c : Nat) (move : Move) (h : move.effect ≠ .release) :
    (s.moved c move).lockFile = s.lockFile := by
  have hne : (move.effect != .release) = true := bne_iff_ne.mpr h
  unfold Store.moved
  rw [hne, Bool.and_true]

theorem changes_of_step (db db' : Database) (a : Action) (h : step db a = some db') :
    Changes db a db' := by
  cases a with
  | acquire =>
      simp only [step] at h
      split at h
      next hfree =>
        rw [Option.some.injEq] at h
        rw [← h]
        exact .acquired hfree
      next => simp at h
  | setUp i =>
      simp only [step] at h
      split at h
      next store hget =>
        split at h
        next hopening =>
          rw [Option.some.injEq] at h
          have hset : db.stores.set i store = db.stores := by
            rcases List.getElem?_eq_some_iff.mp hget with ⟨hlt, heq⟩
            rw [← heq, List.set_getElem_self]
          have hkept : Changes db (.setUp i) ⟨db.stores.set i store, db.lease, _⟩ :=
            .kept i store store [⟨i, none⟩] hget id
            (fun _ hn => hn) rfl
            (.inr ⟨none, rfl, fun hsound => (hsound.opening hopening).2,
              fun c hc => by simp at hc⟩)
          rw [hset] at hkept
          rw [← h]
          exact hkept
        next => simp at h
      next => simp at h
  | openFails i =>
      simp only [step] at h
      split at h
      next store hget =>
        split at h
        next hopening =>
          rw [Option.some.injEq] at h
          rw [← h]
          refine .released i store store.dropped hget (fun hsound => ?_) (fun _ hn => hn) rfl
            (.inr fun hsound phase hphase => ?_)
          · exact store.sound_dropped (by rw [(hsound.opening hopening).1]; rfl) hsound
          · rw [(hsound.opening hopening).1] at hphase
            exact absurd hphase List.not_mem_nil
        next => simp at h
      next => simp at h
  | opened i =>
      simp only [step] at h
      split at h
      next store hget =>
        split at h
        next hopening =>
          rw [Option.some.injEq] at h
          rw [← h]
          exact .kept i store _ [] hget (store.sound_opened hopening) (fun _ hn => hn) rfl
            (.inl rfl)
        next => simp at h
      next => simp at h
  | call i call =>
      simp only [step] at h
      split at h
      next store hget =>
        split at h
        next hlive =>
          rw [Option.some.injEq] at h
          rw [← h]
          exact .kept i store _ [] hget (store.sound_called call hlive)
            (store.refuses_called call) rfl (.inl rfl)
        next => simp at h
      next => simp at h
  | advance i c ok =>
      simp only [step] at h
      split at h
      next store hget =>
        split at h
        next phase hphase =>
          split at h
          next move hmove =>
            have hsound := store.sound_moved c ok phase move hphase hmove
            have hfair := fair_of_advance store ok phase move hmove
            have hrefuses := store.refuses_moved c phase move hphase hfair
            have hmem := List.mem_of_getElem? hphase
            split at h
            next heffect =>
              rw [Option.some.injEq] at h
              rw [← h]
              exact .kept i store _ [] hget hsound hrefuses
                (lockFile_moved store c move (by simp [heffect])) (.inl rfl)
            next heffect =>
              rw [Option.some.injEq] at h
              rw [← h]
              refine .kept i store _ [⟨i, some c⟩] hget hsound hrefuses
                (lockFile_moved store c move (by simp [heffect]))
                (.inr ⟨some c, rfl, fun hs => hs.used phase hmem (hfair.wrote heffect), ?_⟩)
              intro c' hc'
              rw [← Option.some.inj hc']
              exact ⟨phase, hphase, (reads_of_usesConnection phase (hfair.wrote heffect)).2.2⟩
            next heffect =>
              rw [Option.some.injEq] at h
              rw [← h]
              refine .released i store _ hget hsound hrefuses ?_ (.inr fun hs other hother => ?_)
              · unfold Store.moved
                rw [heffect]
                exact Bool.and_false _
              · exact store.not_used_of_release phase move hmem hfair hs heffect other (.inl hother)
          next => simp at h
        next => simp at h
      next => simp at h
  | drop i =>
      simp only [step] at h
      split at h
      next store hget =>
        split at h
        next hquiet =>
          rw [Option.some.injEq] at h
          rw [← h]
          refine .released i store _ hget (store.sound_dropped hquiet.2) (fun _ hn => hn) rfl
            (.inr fun _ phase hphase => ?_)
          have hno := Bool.eq_false_iff.mpr (List.any_eq_false.mp hquiet.2 phase hphase)
          exact not_usesConnection_of_borrows phase hno
        next => simp at h
      next => simp at h
  | crash i =>
      simp only [step] at h
      split at h
      next store hget =>
        rw [Option.some.injEq] at h
        rw [← h]
        refine .released i store _ hget (fun _ => store.sound_crashed) (fun n hn => ?_) rfl
          (.inl rfl)
        exact ⟨hn.1, fun c phase _ hc => by simp at hc⟩
      next => simp at h

/-- Every number has one stretch of the list, newest first: whoever comes
    again has just been there. -/
def OneStretch : List Nat → Prop
  | [] => True
  | i :: rest => (i ∈ rest → rest.head? = some i) ∧ OneStretch rest

/-- The invariant of the database: the locked file is the lease, and a store
    that another one has written after does not have it. -/
structure Owned (db : Database) : Prop where
  sound : ∀ (i : Nat) (store : Store), db.stores[i]? = some store → store.Sound
  lease : ∀ (i : Nat) (store : Store), db.stores[i]? = some store → (store.lockFile = true ↔ db.lease = some i)
  known : ∀ i, db.lease = some i → i < db.stores.length
  logged : ∀ w ∈ db.log, w.store < db.stores.length
  ended : ∀ w ∈ db.log, ∀ newest, db.log.head? = some newest → w.store ≠ newest.store →
    db.lease ≠ some w.store
  stretch : OneStretch (db.log.map Write.store)

theorem owned_init : Owned init where
  sound i store h := by simp only [init, List.getElem?_nil, reduceCtorEq] at h
  lease i store h := by simp only [init, List.getElem?_nil, reduceCtorEq] at h
  known i h := by simp only [init, reduceCtorEq] at h
  logged w h := absurd h List.not_mem_nil
  ended w h := absurd h List.not_mem_nil
  stretch := trivial

/-- A write of the store that has the lease extends its own stretch. -/
theorem stretch_cons (db : Database) (i : Nat) (h : Owned db) (hlease : db.lease = some i) :
    OneStretch (i :: db.log.map Write.store) := by
  refine ⟨fun hmem => ?_, h.stretch⟩
  rcases List.mem_map.mp hmem with ⟨w, hw, hstore⟩
  cases hlog : db.log with
  | nil =>
      rw [hlog] at hw
      exact absurd hw List.not_mem_nil
  | cons newest rest =>
      rw [List.map_cons, List.head?_cons, Option.some.injEq]
      by_contra hne
      refine h.ended w hw newest (by rw [hlog]; rfl) ?_ (hstore ▸ hlease)
      rw [hstore]
      exact fun heq => hne heq.symm

theorem owned_step (db db' : Database) (a : Action) (h : Owned db)
    (hstep : step db a = some db') : Owned db' := by
  cases changes_of_step db db' a hstep with
  | acquired hfree =>
      -- The lease goes to a store that is not in the log yet.
      have hnone : ∀ (i : Nat) (store : Store), db.stores[i]? = some store →
          store.lockFile = false := by
        intro i store hget
        rw [Bool.eq_false_iff, Ne, h.lease i store hget, hfree]
        simp
      refine
        { sound := fun i store hget => ?_
          lease := fun i store hget => ?_
          known := fun i hlease => ?_
          logged := fun w hw => ?_
          ended := fun w hw newest hnewest hne => ?_
          stretch := h.stretch }
      · rcases getElem?_snoc db.stores i opening store hget with ⟨_, rfl⟩ | hget
        · exact
            { exclusive := .inl rfl
              used := fun phase hphase => absurd hphase List.not_mem_nil
              closed := fun phase hphase => absurd hphase List.not_mem_nil
              released := fun hfile => by simp only [opening, Bool.true_eq_false] at hfile
              opening := fun _ => ⟨rfl, rfl⟩
              gone := fun _ phase hphase => absurd hphase List.not_mem_nil }
        · exact h.sound i store hget
      · rcases getElem?_snoc db.stores i opening store hget with ⟨rfl, rfl⟩ | hget
        · exact iff_of_true rfl rfl
        · have hlt := (List.getElem?_eq_some_iff.mp hget).1
          rw [hnone i store hget, Option.some.injEq]
          exact iff_of_false Bool.false_ne_true (by omega)
      · dsimp only at hlease ⊢
        rw [Option.some.injEq] at hlease
        rw [List.length_append, List.length_singleton]
        omega
      · have hlt := h.logged w hw
        dsimp only
        rw [List.length_append, List.length_singleton]
        omega
      · have hlt := h.logged w hw
        dsimp only
        rw [Ne, Option.some.injEq]
        omega
  | kept i store store' writes hget hsound _ hfile hwrites =>
      refine
        { sound := fun j other hother => ?_
          lease := fun j other hother => ?_
          known := fun j hlease => by rw [List.length_set]; exact h.known j hlease
          logged := fun w hw => ?_
          ended := fun w hw newest hnewest hne => ?_
          stretch := ?_ }
      · rcases getElem?_move db.stores i j store' other hother with ⟨_, rfl⟩ | hother
        · exact hsound (h.sound i store hget)
        · exact h.sound j other hother
      · rcases getElem?_move db.stores i j store' other hother with ⟨rfl, rfl⟩ | hother
        · rw [hfile]
          exact h.lease j store hget
        · exact h.lease j other hother
      · rw [List.length_set]
        rcases List.mem_append.mp hw with hw | hw
        · rcases hwrites with rfl | ⟨call, rfl, _⟩
          · exact absurd hw List.not_mem_nil
          · rw [List.mem_singleton.mp hw]
            exact (List.getElem?_eq_some_iff.mp hget).1
        · exact h.logged w hw
      · rcases hwrites with rfl | ⟨call, rfl, hfile', _⟩
        · exact h.ended w hw newest hnewest hne
        · have hlease := (h.lease i store hget).mp (hfile' (h.sound i store hget))
          simp only [List.singleton_append, List.head?_cons, Option.some.injEq] at hnewest
          dsimp only
          rw [hlease, Ne, Option.some.injEq]
          rw [← hnewest] at hne
          exact fun heq => hne heq.symm
      · rcases hwrites with rfl | ⟨call, rfl, hfile', _⟩
        · exact h.stretch
        · exact stretch_cons db i h ((h.lease i store hget).mp (hfile' (h.sound i store hget)))
  | released i store store' hget hsound _ hfile =>
      -- What is given back is the lease of this store, or nothing.
      have hlease : ∀ j, (if store.lockFile then none else db.lease) = some j →
          db.lease = some j ∧ j ≠ i := by
        intro j hj
        split at hj
        next => simp only [reduceCtorEq] at hj
        next hno =>
          refine ⟨hj, ?_⟩
          rintro rfl
          exact hno ((h.lease j store hget).mpr hj)
      refine
        { sound := fun j other hother => ?_
          lease := fun j other hother => ?_
          known := fun j hj => by rw [List.length_set]; exact h.known j (hlease j hj).1
          logged := fun w hw => by rw [List.length_set]; exact h.logged w hw
          ended := fun w hw newest hnewest hne hj =>
            h.ended w hw newest hnewest hne (hlease _ hj).1
          stretch := h.stretch }
      · rcases getElem?_move db.stores i j store' other hother with ⟨_, rfl⟩ | hother
        · exact hsound (h.sound i store hget)
        · exact h.sound j other hother
      · by_cases hij : j = i
        · subst hij
          have hlt := (List.getElem?_eq_some_iff.mp hget).1
          rw [List.getElem?_set_self hlt, Option.some.injEq] at hother
          rw [← hother, hfile]
          exact iff_of_false Bool.false_ne_true (fun hj => (hlease j hj).2 rfl)
        · have hother' : db.stores[j]? = some other := by
            rwa [List.getElem?_set_ne (Ne.symm hij)] at hother
          rw [h.lease j other hother']
          constructor
          · intro hj
            have hno : store.lockFile = false := by
              rw [Bool.eq_false_iff, Ne, h.lease i store hget, hj, Option.some.injEq]
              exact hij
            dsimp only
            rw [hno]
            exact hj
          · exact fun hj => (hlease j hj).1

theorem owned_of_run (as : List Action) (db : Database) (hrun : exec step init as = some db) :
    Owned db :=
  exec_invariant step Owned (fun s a t hs ht => owned_step s t a hs ht) init db as owned_init hrun

/-! ## Closed stores -/

/-- The store was closed while the log was `before` and it had had `n` calls,
    and no later call has written anything. -/
structure Refused (i n : Nat) (before : List Write) (db : Database) : Prop where
  store : ∃ store, db.stores[i]? = some store ∧ store.Refuses n
  log : ∃ new, db.log = new ++ before ∧
    ∀ w ∈ new, w.store = i → ∀ c, w.call = some c → c < n

theorem refused_step (i n : Nat) (before : List Write) (db db' : Database) (a : Action)
    (h : Refused i n before db) (hstep : step db a = some db') : Refused i n before db' := by
  rcases h.store with ⟨closed, hclosed, hrefuses⟩
  rcases h.log with ⟨new, hlog, hnew⟩
  have hlt := (List.getElem?_eq_some_iff.mp hclosed).1
  cases changes_of_step db db' a hstep with
  | acquired hfree =>
      refine ⟨⟨closed, ?_, hrefuses⟩, ⟨new, hlog, hnew⟩⟩
      rw [List.getElem?_append_left hlt]
      exact hclosed
  | kept j store store' writes hget _ hkept _ hwrites =>
      constructor
      · by_cases hij : i = j
        · subst hij
          rw [hclosed, Option.some.injEq] at hget
          exact ⟨store', List.getElem?_set_self hlt, hkept n (hget ▸ hrefuses)⟩
        · exact ⟨closed, by rw [List.getElem?_set_ne (Ne.symm hij)]; exact hclosed, hrefuses⟩
      · refine ⟨writes ++ new, by rw [hlog, List.append_assoc], fun w hw hstore c hc => ?_⟩
        rcases List.mem_append.mp hw with hw | hw
        · rcases hwrites with rfl | ⟨call, rfl, _, hlate⟩
          · exact absurd hw List.not_mem_nil
          · -- Whoever writes is past the check that refuses a late call.
            rw [List.mem_singleton.mp hw] at hstore hc
            dsimp only at hstore hc
            subst hstore
            rcases hlate c hc with ⟨phase, hphase, hnot⟩
            rw [hclosed, Option.some.injEq] at hget
            by_contra hge
            rw [hrefuses.2 c phase (Nat.le_of_not_lt hge) (hget ▸ hphase)] at hnot
            exact absurd hnot.symm Bool.false_ne_true
        · exact hnew w hw hstore c hc
  | released j store store' hget _ hkept =>
      refine ⟨?_, ⟨new, hlog, hnew⟩⟩
      by_cases hij : i = j
      · subst hij
        rw [hclosed, Option.some.injEq] at hget
        exact ⟨store', List.getElem?_set_self hlt, hkept n (hget ▸ hrefuses)⟩
      · exact ⟨closed, by rw [List.getElem?_set_ne (Ne.symm hij)]; exact hclosed, hrefuses⟩

/-- From the moment a store is closed, every later call of it is refused. -/
theorem refused_of_run (i : Nat) (db db' : Database) (store : Store) (bs : List Action)
    (hget : db.stores[i]? = some store) (hclosed : store.closed = true)
    (hrun : exec step db bs = some db') : Refused i store.calls.length db.log db' := by
  refine exec_invariant step (Refused i store.calls.length db.log)
    (fun s a t hs ht => refused_step i _ _ s t a hs ht) db db' bs ⟨⟨store, hget, hclosed, ?_⟩, ?_⟩ hrun
  · intro c phase hc hphase
    exact absurd (List.getElem?_eq_some_iff.mp hphase).1 (Nat.not_lt_of_le hc)
  · exact ⟨[], rfl, fun w hw => absurd hw List.not_mem_nil⟩

theorem refused_of_late (phase : Phase) (h : phase.late = true) :
    phase.usesConnection = false ∧ ∀ op ok, phase = .finished op ok → ok = false := by
  cases phase <;> first
    | exact absurd h Bool.false_ne_true
    | exact ⟨rfl, fun op ok heq => by simp only [reduceCtorEq] at heq⟩
    | skip
  refine ⟨rfl, fun op ok heq => ?_⟩
  rw [Phase.finished.injEq] at heq
  rw [← heq.2]
  simpa only [Phase.late, Bool.not_eq_true'] using h

/-! ## The lease -/

/-- In every run of any number of stores on one database, with any number of
    operations, shutdowns and forced closes in each: a store whose connection
    is used has the lease, so a step that gives the lease back finds nobody
    who uses it; whoever writes has the lease, and so all writes of one store
    come before all writes of the next; and once a store is closed, the calls
    that come after are refused and write nothing. -/
theorem lease_protects (as : List Action) (db : Database)
    (hrun : exec step init as = some db) :
    (∀ (i : Nat) (store : Store), db.stores[i]? = some store →
      ∀ phase ∈ store.calls, phase.usesConnection = true → db.lease = some i) ∧
    (∀ (a : Action) (db' : Database) (i : Nat) (store : Store), step db a = some db' →
      db.stores[i]? = some store → db.lease = some i → db'.lease ≠ some i → a ≠ .crash i →
      ∀ phase ∈ store.calls, phase.usesConnection = false) ∧
    (∀ (a : Action) (db' : Database) (w : Write), step db a = some db' →
      db'.log = w :: db.log → db.lease = some w.store) ∧
    OneStretch (db.log.map Write.store) ∧
    (∀ (i : Nat) (store : Store), db.stores[i]? = some store → store.closed = true →
      ∀ (bs : List Action) (db' : Database), exec step db bs = some db' →
        (∃ store', db'.stores[i]? = some store' ∧ store'.closed = true ∧
          ∀ (c : Nat) (phase : Phase), store.calls.length ≤ c → store'.calls[c]? = some phase →
            phase.usesConnection = false ∧ ∀ op ok, phase = .finished op ok → ok = false) ∧
        ∃ new, db'.log = new ++ db.log ∧
          ∀ w ∈ new, w.store = i → ∀ c, w.call = some c → c < store.calls.length) := by
  have howned := owned_of_run as db hrun
  refine ⟨?_, ?_, ?_, howned.stretch, ?_⟩
  · intro i store hget phase hphase huses
    exact (howned.lease i store hget).mp ((howned.sound i store hget).used phase hphase huses)
  · intro a db' i store hstep hget hlease hlost hcrash phase hphase
    cases changes_of_step db db' a hstep with
    | acquired hfree =>
        rw [hfree] at hlease
        simp at hlease
    | kept => exact absurd hlease hlost
    | released j other other' hother _ _ _ hquiet =>
        -- The lease that is given back is that of the store that changes.
        have hfile : other.lockFile = true := by
          by_contra hno
          exact hlost ((if_neg hno).trans hlease)
        have hj := (howned.lease j other hother).mp hfile
        rw [hlease, Option.some.injEq] at hj
        subst hj
        rw [hget, Option.some.injEq] at hother
        rcases hquiet with hcrash' | hquiet
        · exact absurd hcrash' hcrash
        · exact hquiet (hother ▸ howned.sound i store hget) phase (hother ▸ hphase)
  · intro a db' w hstep hlog
    cases changes_of_step db db' a hstep with
    | acquired => exact absurd hlog (by simp)
    | kept i store store' writes hget _ _ _ hwrites =>
        rcases hwrites with rfl | ⟨call, rfl, hfile, _⟩
        · exact absurd hlog (by simp)
        · simp only [List.singleton_append, List.cons.injEq, and_true] at hlog
          rw [← hlog]
          exact (howned.lease i store hget).mp (hfile (howned.sound i store hget))
    | released => exact absurd hlog (by simp)
  · intro i store hget hclosed bs db' hrun'
    have h := refused_of_run i db db' store bs hget hclosed hrun'
    rcases h.store with ⟨store', hget', hrefuses⟩
    exact ⟨⟨store', hget', hrefuses.1, fun c phase hc hphase =>
      refused_of_late phase (hrefuses.2 c phase hc hphase)⟩, h.log⟩

/-- A put is running when its store is closed by force. The fence waits for
    it, a later put is refused, and then another process opens the database. -/
def handover : List Action :=
  [.acquire, .setUp 0, .opened 0, .call 0 (.operation .put), .advance 0 0 true, .advance 0 0 true,
    .advance 0 0 true, .advance 0 0 true, .call 0 .forceClose, .advance 0 1 true,
    .advance 0 1 true, .advance 0 1 false, .advance 0 1 true, .advance 0 1 true,
    .call 0 (.operation .put), .advance 0 3 true, .advance 0 3 true, .advance 0 0 true,
    .advance 0 0 true, .advance 0 2 true, .advance 0 2 true, .acquire, .setUp 1]

theorem lease_protects_handover :
    ∃ db, exec step init handover = some db ∧ db.lease = some 1 ∧
      db.log = [⟨1, none⟩, ⟨0, some 0⟩, ⟨0, none⟩] ∧ OneStretch (db.log.map Write.store) ∧
      db.stores.map Store.calls =
        [[.finished .put true, .answered false, .fenceReleased, .finished .put false], []] := by
  have hrun : ∃ db, exec step init handover = some db ∧ db.lease = some 1 ∧
      db.log = [⟨1, none⟩, ⟨0, some 0⟩, ⟨0, none⟩] ∧ db.stores.map Store.calls =
        [[.finished .put true, .answered false, .fenceReleased, .finished .put false], []] := by
    refine ⟨_, rfl, ?_⟩
    decide +kernel
  rcases hrun with ⟨db, hrun, hlease, hlog, hcalls⟩
  exact ⟨db, hrun, hlease, hlog, (lease_protects handover db hrun).2.2.2.1, hcalls⟩

end Ownership

end Jobs

end DccMcp
