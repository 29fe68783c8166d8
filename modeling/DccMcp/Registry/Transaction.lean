import DccMcp.Registry.Leases
import DccMcp.Registry.Map

/-!
# Transactions under Readers

One handle of the registry is shared by threads that read and threads that
write. Writers take turns: a transaction loads the rows of the file into the
shared map, changes the map, lists it, merges the list with what is on disk by
then, and writes the result. Readers do not take turns. A reader that finds the
file newer than what was loaded last loads it again, and publishes the rows it
has read at some later moment, when a transaction may have changed the map in
between. Then the transaction lists a map without its change, writes it, and
says that all is well.

Here every access to the map, to the file and to the cached time is a step of
its own, and what a transaction has put in and taken out is kept beside it.
`commits_durable` says that nothing else can go wrong: if no snapshot is
published over a change that is not yet listed, and no row that was changed
back to what it was has changed on disk, every commit writes its change.

Sentinels are left out. A row that is registered has the path of its own, and
which rows are pruned is a parameter.

## Main definitions

* `Edit`, `applyEdits`, `Agrees`: The rows that are put in and taken out.
* `Program`, `Operation.program`: The operations by their accesses to the map.
* `Reader`, `Writer`, `State`, `step`: Who is where, and the steps.
* `Durable`: What is asked of every step.
* `Harmless`: The condition.

## Theorems

* `commits_durable`: What every run keeps.
-/

namespace DccMcp

namespace Registry

namespace Transaction

open Machine

open Leases (Rows Order Request)

/-! ## Edits -/

/-- A row is put in, or taken out. -/
structure Edit where
  key : ServiceKey
  row : Option ServiceEntry

def applyEdit (rows : Rows) (e : Edit) : Rows :=
  match e.row with
  | some entry => rows.insert e.key entry
  | none => rows.erase e.key

def applyEdits (rows : Rows) (edits : List Edit) : Rows := edits.foldl applyEdit rows

/-- What the last edit of a key has put there, if there is one. -/
def lastEdit (edits : List Edit) (key : ServiceKey) : Option (Option ServiceEntry) :=
  match edits with
  | [] => none
  | e :: rest => (lastEdit rest key).or (if key = e.key then some e.row else none)

/-- The rows are as the edits have left them. -/
def Agrees (rows : Rows) (edits : List Edit) : Prop :=
  ∀ e ∈ edits, lastEdit edits e.key = some (rows.lookup e.key)

instance (rows : Rows) (edits : List Edit) : Decidable (Agrees rows edits) :=
  inferInstanceAs (Decidable (∀ e ∈ edits, lastEdit edits e.key = some (rows.lookup e.key)))

theorem lookup_applyEdit (rows : Rows) (e : Edit) (key : ServiceKey) :
    (applyEdit rows e).lookup key = if key = e.key then e.row else rows.lookup key := by
  unfold applyEdit
  split
  next entry hrow =>
    rw [Leases.lookup_insert_ite, hrow]
  next hrow =>
    rw [OrderedMap.lookup_erase, hrow]

/-- What edits do to one key. -/
theorem lookup_applyEdits (edits : List Edit) (rows : Rows) (key : ServiceKey) :
    (applyEdits rows edits).lookup key = (lastEdit edits key).getD (rows.lookup key) := by
  induction edits generalizing rows with
  | nil => rfl
  | cons e rest ih =>
      have hrest := ih (applyEdit rows e)
      unfold applyEdits at hrest ⊢
      rw [List.foldl_cons, hrest, lookup_applyEdit, lastEdit]
      cases lastEdit rest key with
      | some row => rfl
      | none =>
          by_cases hkey : key = e.key
          · rw [if_pos hkey, if_pos hkey]
            rfl
          · rw [if_neg hkey, if_neg hkey]
            rfl

theorem lastEdit_append (edits edits' : List Edit) (key : ServiceKey) :
    lastEdit (edits ++ edits') key = (lastEdit edits' key).or (lastEdit edits key) := by
  induction edits with
  | nil => rw [List.nil_append, lastEdit, Option.or_none]
  | cons e rest ih => rw [List.cons_append, lastEdit, ih, lastEdit, Option.or_assoc]

theorem lastEdit_isSome (edits : List Edit) (key : ServiceKey) :
    (lastEdit edits key).isSome ↔ ∃ e ∈ edits, e.key = key := by
  induction edits with
  | nil => simp only [lastEdit, Option.isSome_none, Bool.false_eq_true, List.not_mem_nil,
      false_and, exists_false]
  | cons e rest ih =>
      rw [lastEdit, Option.isSome_or, Bool.or_eq_true, ih, List.exists_mem_cons_iff]
      rw [or_comm]
      refine or_congr_left ?_
      by_cases hkey : key = e.key
      · simp [hkey]
      · rw [if_neg hkey]
        exact iff_of_false Bool.false_ne_true (fun h => hkey h.symm)

variable (s : State) (rows : Rows)

/-- Rows agree with edits if they are what the last edit of each key left. -/
theorem agrees_iff (edits : List Edit) :
    Agrees rows edits ↔ ∀ key row, lastEdit edits key = some row → rows.lookup key = row := by
  constructor
  · intro h key row hlast
    rcases (lastEdit_isSome edits key).mp (by rw [hlast]; rfl) with ⟨e, he, rfl⟩
    exact Option.some_inj.mp ((h e he).symm.trans hlast)
  · intro h e he
    rcases Option.isSome_iff_exists.mp ((lastEdit_isSome edits e.key).mpr ⟨e, he, rfl⟩) with
      ⟨row, hrow⟩
    rw [hrow, h e.key row hrow]

theorem agrees_nil : Agrees rows [] := fun _ he => absurd he List.not_mem_nil

/-- Further edits leave those before in place where they do not replace them. -/
theorem agrees_applyEdits (edits edits' : List Edit) (h : Agrees rows edits) :
    Agrees (applyEdits rows edits') (edits ++ edits') := by
  rw [agrees_iff] at h ⊢
  intro key row hlast
  rw [lookup_applyEdits]
  rw [lastEdit_append] at hlast
  cases hlater : lastEdit edits' key with
  | some row' =>
      rw [hlater] at hlast
      exact Option.some_inj.mp hlast
  | none =>
      rw [hlater] at hlast
      exact h key row hlast

/-! ## Operations -/

/-- The body of a transaction: its accesses to the map, each under the lock of
    the map, and whether there is something to write. -/
inductive Program
  | done (changed : Bool)
  | access (edits : Rows → List Edit) (next : Rows → Program)

/-- A row is changed, if it is there. -/
def updateEntry (key : ServiceKey) (f : ServiceEntry → ServiceEntry) : Program :=
  .access
    (fun rows =>
      match rows.lookup key with
      | some entry => [⟨key, some (f entry)⟩]
      | none => [])
    (fun rows => .done (rows.lookup key).isSome)

def removeEntry (key : ServiceKey) : Program :=
  .access (fun rows => if (rows.lookup key).isSome then [⟨key, none⟩] else [])
    (fun rows => .done (rows.lookup key).isSome)

/-- The rows are removed one after the other. -/
def removeKeys (changed : Bool) : List ServiceKey → Program
  | [] => .done changed
  | key :: rest => .access (fun _ => [⟨key, none⟩]) (fun _ => removeKeys changed rest)

/-- The rows that pass a test are listed, and then removed. -/
def removeWhere (order : Order) (test : ServiceEntry → Bool) : Program :=
  .access (fun _ => []) (fun rows =>
    let keys := order.arrange ((rows.values.filter test).map ServiceEntry.key)
    removeKeys (0 < keys.length) keys)

/-- The rows that are not as they were. -/
def written (rows rows' : Rows) : List Edit :=
  (rows'.entries.filter (fun e => rows.lookup e.1 ≠ some e.2)).map (fun e => ⟨e.1, some e.2⟩)

/-- The write operations. The row that is registered has the path of its
    sentinel. The tests of `cleanup_stale` and `prune_dead_entries` look at the
    clock, at sentinels and at processes. -/
inductive Operation
  | register (entry : ServiceEntry)
  | deregister (key : ServiceKey)
  | deregisterIfUnchanged (observed : ServiceEntry)
  | heartbeat (key : ServiceKey) (now : Nat)
  | updateStatus (key : ServiceKey) (status : ServiceStatus)
  | updateStatusIfUnchanged (observed : ServiceEntry) (status : ServiceStatus)
  | updateSnapshot (key : ServiceKey) (snapshot : ServiceSnapshot) (now : Nat)
  | setPid (key : ServiceKey) (pid : UInt32) (now : Nat)
  | acquireLease (order : Order) (req : Request)
  | releaseLease (key : ServiceKey) (owner : Option String) (now : Nat)
  | cleanupStale (order : Order) (isStale : ServiceEntry → Bool)
  | pruneDeadEntries (order : Order) (isDead : ServiceEntry → Bool)

def Operation.program : Operation → Program
  | .register entry => .access (fun _ => [⟨entry.key, some entry⟩]) (fun _ => .done true)
  | .deregister key => removeEntry key
  | .deregisterIfUnchanged observed =>
    .access (fun _ => []) (fun rows =>
      if (rows.lookup observed.key).any (fun current =>
          current.registeredAt == observed.registeredAt &&
            current.lastHeartbeat == observed.lastHeartbeat) then
        removeEntry observed.key
      else .done false)
  | .heartbeat key now => updateEntry key (fun entry => entry.touch now)
  | .updateStatus key status => updateEntry key (fun entry => { entry with status := status })
  | .updateStatusIfUnchanged observed status =>
    .access
      (fun rows =>
        if rows.lookup observed.key = some observed then
          [⟨observed.key, some { observed with status := status }⟩]
        else [])
      (fun rows => .done (rows.lookup observed.key = some observed))
  | .updateSnapshot key snapshot now =>
    updateEntry key (fun entry => entry.applySnapshot snapshot now)
  | .setPid key pid now => updateEntry key (fun entry => { entry with pid := some pid }.touch now)
  | .acquireLease order req =>
    .access (fun rows => written rows (Leases.acquireLease rows order req).rows)
      (fun rows => .done (Leases.acquireLease rows order req).changed)
  | .releaseLease key owner now =>
    .access
      (fun rows =>
        match (Leases.releaseLease rows key owner now).1 with
        | some released => [⟨key, some released⟩]
        | none => [])
      (fun rows => .done (Leases.releaseLease rows key owner now).1.isSome)
  | .cleanupStale order isStale =>
    removeWhere order (fun entry => entry.dccType != "__gateway__" && isStale entry)
  | .pruneDeadEntries order isDead => removeWhere order isDead

/-! ## The machine -/

/-- Where a thread is that lists the rows: it has not begun, or has the answer;
    it has found no file, and then it clears the map; it has the time of the
    file; it is about to read the file; it is about to publish what it read. -/
inductive Reader
  | idle
  | missing (hadCachedFile : Bool)
  | clearing
  | stated (mtime : Nat)
  | loading
  | loaded (rows : Rows)

/-- Where the transaction is. `stating` and `caching` are the two halves of
    `update_mtime`, with the operation if it is still to come. -/
inductive Writer
  | idle
  | reading (op : Operation)
  | publishing (op : Operation) (rows : Rows)
  | stating (op : Option Operation)
  | caching (op : Option Operation) (mtime : Option Nat)
  | listing (op : Operation)
  | running (baseline : Rows) (edits : List Edit) (program : Program)
  | flushing (baseline : Rows) (edits : List Edit)
  | merging (baseline : Rows) (edits : List Edit) (locals : Rows)
  | writing (baseline : Rows) (edits : List Edit) (entries : Rows)
  | committed (entries : Rows)
  | rollingBack (baseline : Rows)
  | restoring (rows : Rows)

/-- The handle and the file: the map, the time that was cached, the file with
    its time, the transaction that has the locks, and the threads that read. -/
structure State where
  memory : Rows
  lastMtime : Option Nat
  file : Option (Rows × Nat)
  writer : Writer
  readers : Nat → Reader

/-- The rows of the file. A file that is missing has none. -/
def State.diskRows (s : State) : Rows :=
  match s.file with
  | some (rows, _) => rows
  | none => OrderedMap.empty _ _

def State.toReader (s : State) (i : Nat) (r : Reader) : State :=
  { s with readers := Function.update s.readers i r }

/-- One step of `reload_if_stale`. -/
def stepReader (s : State) (i : Nat) (fails : Bool) : State :=
  match s.readers i with
  | .idle =>
    if fails then s
    else
      match s.file with
      | none => { s with lastMtime := none }.toReader i (.missing s.lastMtime.isSome)
      | some (_, mtime) => s.toReader i (.stated mtime)
  | .missing hadCachedFile =>
    if hadCachedFile || !s.memory.entries.isEmpty then s.toReader i .clearing
    else s.toReader i .idle
  | .clearing => { s with memory := OrderedMap.empty _ _ }.toReader i .idle
  | .stated mtime =>
    if s.lastMtime = some mtime then s.toReader i .idle
    else { s with lastMtime := some mtime }.toReader i .loading
  | .loading => if fails then s.toReader i .idle else s.toReader i (.loaded s.diskRows)
  | .loaded rows => { s with memory := rows }.toReader i .idle

/-- What comes after `update_mtime`. -/
def Writer.proceed : Option Operation → Writer
  | some op => .listing op
  | none => .idle

/-- One step of a transaction. A step may fail where the source reads or writes
    the file, and where an operation makes a sentinel. A file that is written
    gets a time. -/
def stepWriter (s : State) (fails : Bool) (mtime : Nat) : Option State :=
  match s.writer with
  | .idle => none
  | .reading op =>
    if fails then some { s with writer := .idle }
    else some { s with writer := .publishing op s.diskRows }
  | .publishing op rows => some { s with memory := rows, writer := .stating (some op) }
  | .stating op =>
    if fails then some { s with writer := .proceed op }
    else some { s with writer := .caching op (s.file.map Prod.snd) }
  | .caching op cached => some { s with lastMtime := cached, writer := .proceed op }
  | .listing op => some { s with writer := .running s.memory [] op.program }
  | .running baseline edits (.access f next) =>
    if fails then some { s with writer := .rollingBack baseline }
    else
      some { s with
        memory := applyEdits s.memory (f s.memory)
        writer := .running baseline (edits ++ f s.memory) (next s.memory) }
  | .running baseline edits (.done changed) =>
    if changed then some { s with writer := .flushing baseline edits }
    else some { s with writer := .idle }
  | .flushing baseline edits => some { s with writer := .merging baseline edits s.memory }
  | .merging baseline edits locals =>
    if fails then some { s with writer := .rollingBack baseline }
    else some { s with writer := .writing baseline edits (reconcile baseline s.diskRows locals) }
  | .writing baseline _ entries =>
    if fails then some { s with writer := .rollingBack baseline }
    else some { s with file := some (entries, mtime), writer := .committed entries }
  | .committed entries => some { s with memory := entries, writer := .stating none }
  | .rollingBack baseline =>
    some { s with writer := .restoring (if fails then baseline else s.diskRows) }
  | .restoring rows => some { s with memory := rows, writer := .stating none }

/-- What can happen: a thread that reads takes a step, a transaction gets the
    locks, or takes a step, or another process writes the file or removes it. -/
inductive Label
  | reader (i : Nat) (fails : Bool)
  | start (op : Operation)
  | writer (fails : Bool) (mtime : Nat)
  | external (file : Option (Rows × Nat))

def step (s : State) : Label → Option State
  | .reader i fails => some (stepReader s i fails)
  | .start op =>
    match s.writer with
    | .idle => some { s with writer := .reading op }
    | _ => none
  | .writer fails mtime => stepWriter s fails mtime
  | .external file => some { s with file := file }

/-! ## What is asked for -/

/-- A commit writes what its transaction has changed, and a transaction that
    writes nothing has changed nothing. -/
def Durable (s : State) (l : Label) : Prop :=
  match s.writer, l with
  | .writing _ edits _, .writer false _ => ∀ t, step s l = some t → Agrees t.diskRows edits
  | .running _ edits (.done false), .writer _ _ => edits = []
  | _, _ => True

/-- The edits of a transaction that has not listed the map yet. -/
def Writer.unlisted : Writer → List Edit
  | .running _ edits _ => edits
  | .flushing _ edits => edits
  | _ => []

/-- What the next step of a reader publishes. -/
def Reader.publishes : Reader → Option Rows
  | .clearing => some (OrderedMap.empty _ _)
  | .loaded rows => some rows
  | _ => none

/-- What the next step of a transaction merges: the baseline, the edits, and
    the rows in memory. -/
def Writer.merges : Writer → Option (Rows × List Edit × Rows)
  | .merging baseline edits locals => some (baseline, edits, locals)
  | _ => none

/-- A row that the edits have set to what it was in the baseline is on disk the
    same or missing. -/
def KeepsEdits (disk baseline locals : Rows) (edits : List Edit) : Prop :=
  ∀ e ∈ edits, locals.lookup e.key = baseline.lookup e.key →
    disk.lookup e.key = none ∨ disk.lookup e.key = baseline.lookup e.key

instance (disk baseline locals : Rows) (edits : List Edit) :
    Decidable (KeepsEdits disk baseline locals edits) :=
  inferInstanceAs (Decidable (∀ e ∈ edits, locals.lookup e.key = baseline.lookup e.key →
    disk.lookup e.key = none ∨ disk.lookup e.key = baseline.lookup e.key))

/-- No snapshot is published over edits that are not listed yet, unless it has
    them, and no edit is taken for none by the merge. -/
def Harmless (s : State) : Label → Prop
  | .reader i _ => ∀ rows ∈ (s.readers i).publishes, Agrees rows s.writer.unlisted
  | .writer _ _ => ∀ m ∈ s.writer.merges, KeepsEdits s.diskRows m.1 m.2.2 m.2.1
  | _ => True

instance (s : State) : ∀ l, Decidable (Harmless s l)
  | .reader i _ =>
    inferInstanceAs (Decidable (∀ rows ∈ (s.readers i).publishes, Agrees rows s.writer.unlisted))
  | .writer _ _ =>
    inferInstanceAs (Decidable (∀ m ∈ s.writer.merges, KeepsEdits s.diskRows m.1 m.2.2 m.2.1))
  | .start _ => isTrue trivial
  | .external _ => isTrue trivial

/-- The merge keeps the edits, unless a row that is again what it was has
    changed on disk. -/
theorem agrees_reconcile (baseline disk locals : Rows) (edits : List Edit)
    (h : Agrees locals edits) (hkeeps : KeepsEdits disk baseline locals edits) :
    Agrees (reconcile baseline disk locals) edits := by
  intro e he
  rw [h e he, lookup_reconcile]
  split
  next hunchanged =>
    rcases hkeeps e he hunchanged with hnone | hequal
    · rw [hnone, Option.none_or, hunchanged]
    · rw [hequal, Option.or_self, hunchanged]
  next => rfl

/-! ## What an operation writes -/

/-- Whenever the operation comes to an end with nothing to write, it has
    changed nothing. -/
def Program.Sound (edits : List Edit) : Program → Prop
  | .done changed => changed = false → edits = []
  | .access f next => ∀ rows, (next rows).Sound (edits ++ f rows)

/-- An operation of one access. -/
theorem sound_access (f : Rows → List Edit) (changed : Rows → Bool)
    (h : ∀ rows, changed rows = false → f rows = []) :
    (Program.access f (fun rows => .done (changed rows))).Sound [] := h

theorem sound_updateEntry (key : ServiceKey) (f : ServiceEntry → ServiceEntry) :
    (updateEntry key f).Sound [] := by
  refine sound_access _ _ (fun rows hchanged => ?_)
  rw [Option.isSome_eq_false_iff, Option.isNone_iff_eq_none] at hchanged
  rw [hchanged]

theorem sound_removeEntry (key : ServiceKey) : (removeEntry key).Sound [] := by
  refine sound_access _ _ (fun rows hchanged => ?_)
  rw [hchanged, if_neg Bool.false_ne_true]

theorem sound_removeKeys (keys : List ServiceKey) (edits : List Edit) :
    (removeKeys true keys).Sound edits := by
  induction keys generalizing edits with
  | nil => exact fun hchanged => by cases hchanged
  | cons key rest ih => exact fun _ => ih _

theorem sound_removeWhere (order : Order) (test : ServiceEntry → Bool) :
    (removeWhere order test).Sound [] := by
  intro rows
  simp only
  generalize order.arrange ((rows.values.filter test).map ServiceEntry.key) = keys
  cases keys with
  | nil => exact fun _ => rfl
  | cons key rest => exact sound_removeKeys (key :: rest) []

theorem written_self : written rows rows = [] := by
  unfold written
  rw [List.map_eq_nil_iff, List.filter_eq_nil_iff]
  intro e he hwritten
  exact of_decide_eq_true hwritten (OrderedMap.lookup_of_mem rows e.1 e.2 he)

theorem scanRow_unchanged (req : Request) (s : Leases.Scan) (key : ServiceKey)
    (h : (Leases.scanRow req s key).changed = false) :
    (Leases.scanRow req s key).rows = s.rows ∧ s.changed = false := by
  unfold Leases.scanRow at h ⊢
  split at h
  next hnone => exact ⟨rfl, h⟩
  next entry hentry =>
    -- A row that is not reclaimed is put back as it is.
    have hback : (s.changed || entry.leaseExpired req.now) = false →
        s.rows.insert key (req.reclaim key entry) = s.rows ∧ s.changed = false := by
      intro hchanged
      rw [Bool.or_eq_false_iff] at hchanged
      refine ⟨OrderedMap.ext_lookup _ _ (fun key' => ?_), hchanged.1⟩
      unfold Request.reclaim
      rw [Leases.lookup_insert_ite, if_neg (ne_true_of_eq_false hchanged.2)]
      split
      next hkey => rw [hkey, hentry]
      next => rfl
    simp only at h ⊢
    split at h
    next hskipped =>
      rw [if_pos hskipped]
      exact hback h
    next hmet =>
      split at h
      next => cases h
      next htaken =>
        rw [if_neg hmet, if_neg htaken]
        exact hback h

/-- A scan that has changed nothing leaves the rows as they were. -/
theorem scan_unchanged (req : Request) (keys : List ServiceKey) (s : Leases.Scan)
    (h : (Leases.scan req s keys).changed = false) :
    (Leases.scan req s keys).rows = s.rows ∧ s.changed = false := by
  induction keys generalizing s with
  | nil => exact ⟨rfl, h⟩
  | cons key rest ih =>
      have hrest := ih (Leases.scanRow req s key) h
      have hfirst := scanRow_unchanged req s key hrest.2
      exact ⟨hrest.1.trans hfirst.1, hfirst.2⟩

theorem sound_program (op : Operation) : op.program.Sound [] := by
  cases op with
  | register entry => exact fun _ hchanged => by cases hchanged
  | deregister key => exact sound_removeEntry key
  | deregisterIfUnchanged observed =>
      intro rows
      simp only
      split
      next => exact sound_removeEntry observed.key
      next => exact fun _ => rfl
  | heartbeat key now => exact sound_updateEntry key _
  | updateStatus key status => exact sound_updateEntry key _
  | updateStatusIfUnchanged observed status =>
      refine sound_access _ _ (fun rows hchanged => ?_)
      rw [if_neg (of_decide_eq_false hchanged)]
  | updateSnapshot key snapshot now => exact sound_updateEntry key _
  | setPid key pid now => exact sound_updateEntry key _
  | acquireLease order req =>
      -- Its edits are read off the rows it leaves.
      refine sound_access _ _ (fun rows hchanged => ?_)
      have hrows := (scan_unchanged req _ _ hchanged).1
      unfold Leases.acquireLease
      rw [hrows]
      exact written_self rows
  | releaseLease key owner now =>
      refine sound_access _ _ (fun rows hchanged => ?_)
      rw [Option.isSome_eq_false_iff, Option.isNone_iff_eq_none] at hchanged
      rw [hchanged]
  | cleanupStale order isStale => exact sound_removeWhere order _
  | pruneDeadEntries order isDead => exact sound_removeWhere order isDead

/-! ## Runs -/

/-- What a transaction has changed is where it is to be written from. -/
def Inv (s : State) : Prop :=
  match s.writer with
  | .running _ edits program => Agrees s.memory edits ∧ program.Sound edits
  | .flushing _ edits => Agrees s.memory edits
  | .merging _ edits locals => Agrees locals edits
  | .writing _ edits entries => Agrees entries edits
  | _ => True

theorem inv_proceed (op : Option Operation) (h : s.writer = .proceed op) : Inv s := by
  unfold Inv
  rw [h]
  cases op with
  | none => exact trivial
  | some op => exact trivial

/-- Rows that have the changes that are not listed yet may be published. -/
theorem inv_publish (hinv : Inv s) (hagrees : Agrees rows s.writer.unlisted) :
    Inv { s with memory := rows } := by
  unfold Inv Writer.unlisted at *
  cases hwriter : s.writer with
  | running baseline edits program =>
      rw [hwriter] at hinv hagrees
      exact ⟨hagrees, hinv.2⟩
  | flushing baseline edits =>
      rw [hwriter] at hagrees
      exact hagrees
  | merging baseline edits locals =>
      -- The map is listed, and what is in it no longer matters.
      rw [hwriter] at hinv
      exact hinv
  | writing baseline edits entries =>
      rw [hwriter] at hinv
      exact hinv
  | _ => exact trivial

theorem inv_stepReader (i : Nat) (fails : Bool) (hinv : Inv s) (h : Harmless s (.reader i fails)) :
    Inv (stepReader s i fails) := by
  unfold stepReader
  simp only [Harmless] at h
  cases hreader : s.readers i with
  | idle =>
      simp only
      split
      next => exact hinv
      next =>
        split
        next => exact hinv
        next => exact hinv
  | missing hadCachedFile =>
      simp only
      split
      next => exact hinv
      next => exact hinv
  | clearing =>
      rw [hreader] at h
      exact inv_publish s _ hinv (h _ rfl)
  | stated mtime =>
      simp only
      split
      next => exact hinv
      next => exact hinv
  | loading =>
      simp only
      split
      next => exact hinv
      next => exact hinv
  | loaded rows =>
      rw [hreader] at h
      exact inv_publish s rows hinv (h rows rfl)

theorem inv_stepWriter (s t : State) (fails : Bool) (mtime : Nat) (hinv : Inv s)
    (h : Harmless s (.writer fails mtime)) (hstep : stepWriter s fails mtime = some t) : Inv t := by
  unfold stepWriter at hstep
  unfold Inv at hinv
  simp only [Harmless] at h
  cases hwriter : s.writer with
  | idle =>
      rw [hwriter] at hstep
      cases hstep
  | listing op =>
      rw [hwriter] at hstep
      cases hstep
      exact ⟨agrees_nil s.memory, sound_program op⟩
  | running baseline edits program =>
      rw [hwriter] at hstep hinv
      cases program with
      | done changed =>
          simp only at hstep
          split at hstep
          next => cases hstep; exact hinv.1
          next => cases hstep; exact trivial
      | access f next =>
          simp only at hstep
          split at hstep
          next => cases hstep; exact trivial
          next =>
            -- What it edits is edited in the map at the same moment.
            cases hstep
            exact ⟨agrees_applyEdits s.memory edits _ hinv.1, hinv.2 s.memory⟩
  | flushing baseline edits =>
      rw [hwriter] at hstep hinv
      cases hstep
      exact hinv
  | merging baseline edits locals =>
      rw [hwriter] at hstep hinv h
      simp only at hstep
      split at hstep
      next => cases hstep; exact trivial
      next =>
        cases hstep
        -- No row that was changed back is another one on disk.
        exact agrees_reconcile baseline s.diskRows locals edits hinv (h _ rfl)
  | reading op =>
      rw [hwriter] at hstep
      simp only at hstep
      split at hstep <;> cases hstep <;> exact trivial
  | writing baseline edits entries =>
      rw [hwriter] at hstep
      simp only at hstep
      split at hstep <;> cases hstep <;> exact trivial
  | stating op =>
      rw [hwriter] at hstep
      simp only at hstep
      split at hstep <;> cases hstep
      · exact inv_proceed _ op rfl
      · exact trivial
  | caching op mtime =>
      rw [hwriter] at hstep
      cases hstep
      exact inv_proceed _ op rfl
  | publishing op rows =>
      rw [hwriter] at hstep
      cases hstep
      exact trivial
  | committed entries =>
      rw [hwriter] at hstep
      cases hstep
      exact trivial
  | rollingBack baseline =>
      rw [hwriter] at hstep
      cases hstep
      exact trivial
  | restoring rows =>
      rw [hwriter] at hstep
      cases hstep
      exact trivial

theorem inv_step (l : Label) (t : State) (hinv : Inv s) (h : Harmless s l)
    (hstep : step s l = some t) : Inv t := by
  cases l with
  | reader i fails =>
      cases hstep
      exact inv_stepReader s i fails hinv h
  | start op =>
      simp only [step] at hstep
      split at hstep
      next => cases hstep; exact trivial
      next => cases hstep
  | writer fails mtime => exact inv_stepWriter s t fails mtime hinv h hstep
  | external file =>
      cases hstep
      exact hinv

theorem durable_of_inv (l : Label) (hinv : Inv s) : Durable s l := by
  unfold Durable
  unfold Inv at hinv
  split
  next baseline edits entries mtime hwriter =>
    rw [hwriter] at hinv
    intro t hstep
    simp only [step, stepWriter, hwriter, Bool.false_eq_true, if_false] at hstep
    cases hstep
    exact hinv
  next baseline edits fails mtime hwriter =>
    rw [hwriter] at hinv
    exact hinv.2 rfl
  next => exact trivial

/-- In a run without a harmful step, every commit writes what its transaction
    has changed. -/
theorem commits_durable (s : State) (run : List Label) (hidle : s.writer = .idle)
    (h : Along step Harmless s run) : Along step Durable s run := by
  have hinit : Inv s := by
    unfold Inv
    rw [hidle]
    exact trivial
  exact along_of_along step Harmless Durable Inv inv_step
    (fun s l hinv _ => durable_of_inv s l hinv) s run hinit h

/-! ## A registration that is lost -/

/-- A handle that has loaded the file. -/
def loadedHandle : State where
  memory := OrderedMap.empty _ _
  lastMtime := some 1
  file := some (OrderedMap.empty _ _, 1)
  writer := .idle
  readers := fun _ => .idle

/-- The steps of a registration up to its change of the map. -/
def registration : List Label :=
  .start (.register (Leases.mayaInstance ⟨1, by decide⟩ 0)) :: List.replicate 6 (.writer false 3)

/-- The steps that are left before the commit. -/
def flush : List Label := List.replicate 3 (.writer false 3)

/-- Another process has written the file, and a reader has noticed and loads
    it before the registration. -/
def reloaded : List Label :=
  .external (some (OrderedMap.empty _ _, 2)) ::
    (List.replicate 4 (.reader 0 false) ++ registration ++ flush ++ [.writer false 3])

/-- The same, but the reader publishes what it has read between the change of
    the map and its flush. -/
def overtaken : List Label :=
  .external (some (OrderedMap.empty _ _, 2)) ::
    (List.replicate 3 (.reader 0 false) ++ registration ++ [.reader 0 false] ++ flush)

theorem commits_durable_reloaded :
    Along step Durable loadedHandle reloaded ∧
      (exec step loadedHandle reloaded).map (fun t => t.diskRows.entries.length) = some 1 :=
  ⟨commits_durable loadedHandle reloaded rfl (by decide +kernel), by decide +kernel⟩

/-- Whether a transaction is about to write rows without its edits. -/
def Writer.loses : Writer → Bool
  | .writing _ edits entries => !decide (Agrees entries edits)
  | _ => false

theorem not_durable_of_loses (mtime : Nat) (h : s.writer.loses = true) :
    ¬ Durable s (.writer false mtime) := by
  intro hdurable
  unfold Durable at hdurable
  unfold Writer.loses at h
  split at h
  next baseline edits entries hwriter =>
    rw [hwriter] at hdurable
    have hagrees := hdurable _ (by simp only [step, stepWriter, hwriter]; rfl)
    rw [Bool.not_eq_true', decide_eq_false_iff_not] at h
    exact h hagrees
  next => cases h

theorem commits_not_durable :
    ¬ Along step Durable loadedHandle (overtaken ++ [.writer false 3]) := by
  intro h
  have hlost : (exec step loadedHandle overtaken).map (fun t => t.writer.loses) = some true := by
    decide +kernel
  rcases Option.map_eq_some_iff.mp hlost with ⟨t, ht, hloses⟩
  have hlast := ((along_append step Durable loadedHandle overtaken _).mp h).2 t ht
  exact not_durable_of_loses t 3 hloses hlast.1

end Transaction

end Registry

end DccMcp
