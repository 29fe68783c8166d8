import DccMcp.Job.Concurrent

/-!
# Recovery after a Restart

What a new server makes of the rows that the previous one left behind.

A row that is pending or running belongs to a job whose process is gone. The
recovery reads all rows, rewrites each of these to interrupted, and takes
every row into the map of jobs. A row is written before it is taken into the
map and before it is announced. So when a write fails and the recovery stops
there, whatever was announced is on disk, and the rows that are left are
still in flight: the next recovery finds exactly them.

The order in which a backend lists its rows is its own affair, and so is
which of the writes fail. Both are part of `Backend`. A recovery writes a row
at most once, so what a write answers can depend on the id alone.

A failed write opens the circuit. The manager it happened to therefore writes
no more: if it tries again, it takes the rest of the rows into its memory as
interrupted, and the storage stays as it is until a manager with a closed
circuit comes.

## Main definitions

* `Store`: The rows of a backend, each under its own id.
* `Backend`: How a backend lists, and which of its writes fail.
* `Server`: The manager, its circuit, its storage, and what was announced.
* `recoverFromStorage`: The recovery.
* `Attempt`: What a recovery has done, up to where it stopped.
* `Recovered`: What a recovery has done that was not stopped.

## Theorems

* `restart_recovery`: Recovery, failure and retry, for every set of rows.
-/

namespace DccMcp

namespace Jobs

namespace Recovery

/-! ## Rows -/

/-- The rows of a backend. A row is stored under the id of its job. -/
structure Store where
  rows : AList (fun _ : String => PersistedJob)
  keyed : ∀ id row, rows.lookup id = some row → row.id = id

namespace Store

def get (store : Store) (id : String) : Option PersistedJob := store.rows.lookup id

def values (store : Store) : List PersistedJob := store.rows.entries.map Sigma.snd

/-- `JobStorage::put` where it succeeds. -/
def put (store : Store) (row : PersistedJob) : Store where
  rows := store.rows.insert row.id row
  keyed := by
    intro id row' h
    by_cases hid : id = row.id
    · rw [hid, AList.lookup_insert, Option.some.injEq] at h
      rw [← h, hid]
    · rw [AList.lookup_insert_ne hid] at h
      exact store.keyed id row' h

theorem get_put (store : Store) (row : PersistedJob) (id : String) :
    (store.put row).get id = if id = row.id then some row else store.get id := by
  unfold get put
  split
  next hid => rw [hid, AList.lookup_insert]
  next hid => rw [AList.lookup_insert_ne hid]

theorem mem_values (store : Store) (row : PersistedJob) :
    row ∈ store.values ↔ store.get row.id = some row := by
  constructor
  · intro h
    rcases List.mem_map.mp h with ⟨⟨id, row'⟩, hentry, rfl⟩
    have hget : store.rows.lookup id = some row' := AList.mem_lookup_iff.mpr hentry
    dsimp only
    rw [store.keyed id row' hget]
    exact hget
  · intro h
    exact List.mem_map.mpr ⟨⟨row.id, row⟩, AList.mem_lookup_iff.mp h, rfl⟩

theorem nodup_ids (store : Store) : (store.values.map (·.id)).Nodup := by
  have hkeys : store.values.map (·.id) = store.rows.keys := by
    unfold values AList.keys List.keys
    rw [List.map_map]
    refine List.map_congr_left (fun entry hentry => ?_)
    exact store.keyed entry.1 entry.2 (AList.mem_lookup_iff.mpr hentry)
  rw [hkeys]
  exact store.rows.nodupKeys

end Store

/-- A row whose job was pending or running. -/
def inflight (row : PersistedJob) : Bool := row.status = .pending ∨ row.status = .running

/-- What a recovery makes of a row in flight. -/
def interrupt (now : DateTime) (row : PersistedJob) : PersistedJob :=
  { row with
    status := .interrupted, error := some "server restart", updatedAt := now,
    completedAt := some now }

/-- What a recovery makes of a row. -/
def recovered (now : DateTime) (row : PersistedJob) : PersistedJob :=
  if inflight row then interrupt now row else row

/-! ## The recovery -/

variable {T : CancellationTokens}

/-- `PersistedJob::to_job`: a new token, cancelled if the row is terminal. -/
def toJob (row : PersistedJob) (tokens : T.Forest) : Job T.Token × T.Forest :=
  let token := T.new tokens
  ({ id := row.id
     toolName := row.toolName
     status := row.status
     parentJobId := row.parentJobId
     progress := row.progress
     output := none
     result := row.result
     error := row.error
     createdAt := row.createdAt
     startedAt := row.startedAt
     completedAt := row.completedAt
     updatedAt := row.updatedAt
     cancelToken := token.1 },
    if row.status.isTerminal then T.cancel token.2 token.1 else token.2)

/-- The rows of a listing as jobs, one after the other. -/
def toJobs : List PersistedJob → T.Forest → List (Job T.Token) × T.Forest
  | [], tokens => ([], tokens)
  | row :: rows, tokens =>
    let job := toJob row tokens
    let rest := toJobs rows job.2
    (job.1 :: rest.1, rest.2)

/-- How a backend answers during one recovery: the order it lists its rows in,
    whether it lists them at all, and which of the writes fail. -/
structure Backend where
  order : Store → List PersistedJob
  order_perm : ∀ store, (order store).Perm store.values
  listError : Option JobStorageError
  putError : String → Option JobStorageError

variable (T) in
/-- The manager with its circuit and its storage, and the events that its
    subscribers were told, in order. -/
structure Server where
  manager : JobManager T
  circuit : PersistenceCircuit
  store : Option Store
  events : List JobEvent

namespace Server

/-- The job of an id, as far as it is stored. -/
def memory (s : Server T) (id : String) : Option PersistedJob := (s.manager.get id).map .fromJob

/-- `self.jobs.insert`. -/
def track (s : Server T) (job : Job T.Token) : Server T :=
  { s with manager := { s.manager with jobs := s.manager.jobs.insert job.id job } }

def emit (s : Server T) (event : JobEvent) : Server T := { s with events := s.events ++ [event] }

/-- The write of a rewritten row, which is skipped while persistence is
    disabled. -/
def persist (b : Backend) (s : Server T) (job : Job T.Token) :
    Except JobStorageError (Server T) :=
  if s.circuit.canWrite then
    match b.putError job.id with
    | some e => .error e
    | none => .ok { s with store := s.store.map (·.put (.fromJob job)) }
  else .ok s

/-- `disable_persistence_for_storage_error`. -/
def disablePersistence (s : Server T) (e : JobStorageError) : Server T :=
  { s with circuit := (s.circuit.disable (errorKind e)).2 }

end Server

/-- The rewrite of a job in flight. -/
def interruptJob (now : DateTime) (job : Job T.Token) : Job T.Token :=
  { job with
    status := .interrupted, error := some "server restart", updatedAt := now,
    completedAt := some now }

/-- The loop of `recover_from_storage`. -/
def recoverLoop (b : Backend) (now : DateTime) :
    List (Job T.Token) → Nat → Server T → Except JobStorageError Nat × Server T
  | [], interrupted, s => (.ok interrupted, s)
  | job :: rest, interrupted, s =>
    if job.status = .pending ∨ job.status = .running then
      let job := interruptJob now job
      match s.persist b job with
      | .error e => (.error e, s.disablePersistence e)
      | .ok s => recoverLoop b now rest (interrupted + 1) ((s.track job).emit job.event)
    else recoverLoop b now rest interrupted (s.track job)

def recoverFromStorage (b : Backend) (now : DateTime) (s : Server T) :
    Except JobStorageError Nat × Server T :=
  match s.store with
  | none => (.ok 0, s)
  | some store =>
    match b.listError with
    | some e => (.error e, s)
    | none =>
      let jobs := toJobs (b.order store) s.manager.tokens
      recoverLoop b now jobs.1 0 { s with manager := { s.manager with tokens := jobs.2 } }

/-! ## What a recovery does -/

/-- The event of a row that was rewritten. -/
def announced (now : DateTime) (row : PersistedJob) : JobEvent where
  id := row.id
  toolName := row.toolName
  status := .interrupted
  progress := row.progress
  error := some "server restart"
  updatedAt := now
  createdAt := row.createdAt
  startedAt := row.startedAt
  completedAt := some now

/-- The row of an id among some rows, rewritten. -/
def updates (f : PersistedJob → PersistedJob) (rows : List PersistedJob) (id : String) :
    Option PersistedJob :=
  (rows.find? (fun row => row.id = id)).map f

/-- What a recovery that started in `s` with the rows of `store`, and went
    through `rows`, has done when it ends with `r`: it has handled the rows of
    `done` and stopped before those of `rest`. -/
structure Attempt (b : Backend) (now : DateTime) (n : Nat) (s : Server T) (store : Store)
    (rows : List PersistedJob) (r : Except JobStorageError Nat × Server T)
    (done rest : List PersistedJob) (store' : Store) : Prop where
  split : rows = done ++ rest
  memory : ∀ id, r.2.memory id = (updates (recovered now) done id).or (s.memory id)
  stored : r.2.store = some store'
  written : s.circuit.canWrite = true →
    ∀ id, store'.get id = (updates (interrupt now) (done.filter inflight) id).or (store.get id)
  unwritten : s.circuit.canWrite = false → store' = store
  quiet : s.circuit.canWrite = true →
    ∀ row ∈ done, inflight row = true → b.putError row.id = none
  events : r.2.events = s.events ++ (done.filter inflight).map (announced now)
  outcome :
    (rest = [] ∧ r.1 = .ok (n + (done.filter inflight).length) ∧ r.2.circuit = s.circuit) ∨
    (∃ row rest' e, rest = row :: rest' ∧ inflight row = true ∧ s.circuit.canWrite = true ∧
      b.putError row.id = some e ∧ r.1 = .error e ∧
      r.2.circuit = (s.circuit.disable (errorKind e)).2)

theorem fromJob_toJobs (rows : List PersistedJob) (tokens : T.Forest) :
    (toJobs rows tokens).1.map .fromJob = rows := by
  induction rows generalizing tokens with
  | nil => rfl
  | cons row rows ih =>
      simp only [toJobs, List.map_cons]
      rw [ih]
      rfl

/-- The rows of a longer list: the first one counts, if no other has its id. -/
theorem updates_cons (f : PersistedJob → PersistedJob) (row : PersistedJob)
    (rows : List PersistedJob) (old : Option PersistedJob) (id : String)
    (h : row.id ∉ rows.map (·.id)) :
    (updates f (row :: rows) id).or old =
      (updates f rows id).or (if id = row.id then some (f row) else old) := by
  unfold updates
  by_cases hid : row.id = id
  · have hnone : rows.find? (fun row' => row'.id = id) = none := by
      rw [List.find?_eq_none]
      intro row' hrow' heq
      rw [decide_eq_true_eq] at heq
      exact h (hid.trans heq.symm ▸ List.mem_map_of_mem hrow')
    rw [List.find?_cons_of_pos (by simpa using hid), hnone, if_pos hid.symm]
    rfl
  · rw [List.find?_cons_of_neg (by simpa using hid), if_neg (Ne.symm hid)]

theorem memory_track (s : Server T) (job : Job T.Token) (id : String) :
    (s.track job).memory id = if id = job.id then some (.fromJob job) else s.memory id := by
  unfold Server.memory Server.track JobManager.get
  split
  next hid =>
    rw [hid, AList.lookup_insert]
    rfl
  next hid => rw [AList.lookup_insert_ne hid]

variable (b : Backend) (store : Store) (now : DateTime) (row : PersistedJob)

/-- A row that is not in flight is only taken into the map. -/
theorem Attempt.cons_settled (n : Nat) (s : Server T) (store store' : Store) (job : Job T.Token)
    (rows done rest : List PersistedJob)
    (r : Except JobStorageError Nat × Server T)
    (hsettled : inflight (.fromJob job) = false) (hfresh : job.id ∉ rows.map (·.id))
    (h : Attempt b now n (s.track job) store rows r done rest store') :
    Attempt b now n s store (.fromJob job :: rows) r (.fromJob job :: done) rest store' where
  split := by rw [h.split, List.cons_append]
  memory id := by
    have hdone : job.id ∉ done.map (·.id) := by
      rw [h.split, List.map_append] at hfresh
      exact fun hmem => hfresh (List.mem_append_left _ hmem)
    rw [h.memory id, memory_track, updates_cons _ (PersistedJob.fromJob job) done _ id hdone]
    unfold recovered
    rw [hsettled]
    rfl
  stored := h.stored
  written hcan id := by
    rw [List.filter_cons_of_neg (by rw [hsettled]; decide)]
    exact h.written hcan id
  unwritten := h.unwritten
  quiet hcan row hrow hinflight := by
    rcases List.mem_cons.mp hrow with rfl | hrow
    · rw [hsettled] at hinflight
      exact absurd hinflight Bool.false_ne_true
    · exact h.quiet hcan row hrow hinflight
  events := by
    rw [List.filter_cons_of_neg (by rw [hsettled]; decide)]
    exact h.events
  outcome := by
    rw [List.filter_cons_of_neg (by rw [hsettled]; decide)]
    exact h.outcome

/-- The server after one row in flight was rewritten, written to `store₁`. -/
def Server.flip (s : Server T) (store₁ : Store) (job : Job T.Token) : Server T :=
  (({ s with store := some store₁ }).track job).emit job.event

/-- A row in flight is rewritten, taken into the map, and announced. -/
theorem Attempt.cons_inflight (n : Nat) (s : Server T) (store store₁ store' : Store)
    (job : Job T.Token) (rows done rest : List PersistedJob)
    (r : Except JobStorageError Nat × Server T)
    (hinflight : inflight (.fromJob job) = true) (hfresh : job.id ∉ rows.map (·.id))
    (hput : s.circuit.canWrite = true →
      store₁ = store.put (interrupt now (.fromJob job)) ∧ b.putError job.id = none)
    (hskip : s.circuit.canWrite = false → store₁ = store)
    (h : Attempt b now (n + 1) (s.flip store₁ (interruptJob now job)) store₁ rows r done rest
      store') :
    Attempt b now n s store (.fromJob job :: rows) r (.fromJob job :: done) rest store' := by
  have hdone : job.id ∉ done.map (·.id) := by
    rw [h.split, List.map_append] at hfresh
    exact fun hmem => hfresh (List.mem_append_left _ hmem)
  have hfilter : (PersistedJob.fromJob job :: done).filter inflight =
      .fromJob job :: done.filter inflight := List.filter_cons_of_pos hinflight
  have hdone' : job.id ∉ (done.filter inflight).map (·.id) :=
    fun hmem => hdone (List.map_subset _ (List.filter_subset_self _) hmem)
  refine
    { split := by rw [h.split, List.cons_append]
      memory := fun id => ?_
      stored := h.stored
      written := fun hcan id => ?_
      unwritten := fun hcan => (h.unwritten hcan).trans (hskip hcan)
      quiet := fun hcan row hrow hrow' => ?_
      events := ?_
      outcome := ?_ }
  · have hflip : (s.flip store₁ (interruptJob now job)).memory id =
        if id = job.id then some (interrupt now (.fromJob job)) else s.memory id :=
      memory_track _ _ id
    rw [h.memory id, hflip, updates_cons _ (PersistedJob.fromJob job) done _ id hdone]
    unfold recovered
    rw [hinflight]
    rfl
  · rw [h.written hcan id, (hput hcan).1, Store.get_put, hfilter,
      updates_cons _ (PersistedJob.fromJob job) _ _ id hdone']
    rfl
  · rcases List.mem_cons.mp hrow with rfl | hrow
    · exact (hput hcan).2
    · exact h.quiet hcan row hrow hrow'
  · rw [h.events, hfilter, List.map_cons]
    unfold Server.flip Server.emit Server.track
    rw [List.append_assoc]
    rfl
  · rw [hfilter, List.length_cons]
    refine h.outcome.imp (fun hout => ⟨hout.1, ?_, hout.2.2⟩) id
    rw [hout.2.1]
    congr 1
    omega

theorem inflight_fromJob (job : Job T.Token) :
    inflight (.fromJob job) = true ↔ job.status = .pending ∨ job.status = .running := by
  unfold inflight
  rw [decide_eq_true_eq]
  exact Iff.rfl

/-- The loop, from any state: it goes through the rows until a write fails. -/
theorem attempt_recoverLoop (jobs : List (Job T.Token)) (n : Nat) (s : Server T) (store : Store)
    (hstore : s.store = some store)
    (hnodup : ((jobs.map PersistedJob.fromJob).map (·.id)).Nodup) :
    ∃ done rest store', Attempt b now n s store (jobs.map .fromJob) (recoverLoop b now jobs n s)
      done rest store' := by
  induction jobs generalizing n s store with
  | nil =>
      refine ⟨[], [], store, ?_⟩
      exact
        { split := rfl
          memory := fun id => rfl
          stored := hstore
          written := fun _ id => rfl
          unwritten := fun _ => rfl
          quiet := fun _ row hrow => absurd hrow List.not_mem_nil
          events := (List.append_nil _).symm
          outcome := .inl ⟨rfl, rfl, rfl⟩ }
  | cons job jobs ih =>
      simp only [List.map_cons, List.nodup_cons] at hnodup
      simp only [recoverLoop, List.map_cons]
      by_cases hopen : job.status = .pending ∨ job.status = .running
      · have hinflight := (inflight_fromJob job).mpr hopen
        rw [if_pos hopen]
        by_cases hcan : s.circuit.canWrite = true
        · cases herr : b.putError job.id with
          | none =>
              -- The row is written, and the loop goes on.
              have hpersist : s.persist b (interruptJob now job) =
                  .ok { s with store := some (store.put (interrupt now (.fromJob job))) } := by
                unfold Server.persist
                rw [if_pos hcan, hstore]
                simp only [interruptJob, herr]
                rfl
              rcases ih (n + 1) (s.flip (store.put (interrupt now (.fromJob job)))
                (interruptJob now job)) _ rfl hnodup.2 with ⟨done, rest, store', h⟩
              rw [hpersist]
              refine ⟨_, rest, store', Attempt.cons_inflight b now n s store _ store' job _ done
                rest _ hinflight hnodup.1 (fun _ => ⟨rfl, herr⟩) (fun hno => ?_) h⟩
              rw [hcan] at hno
              exact absurd hno.symm Bool.false_ne_true
          | some e =>
              -- The write fails here, and everything from here on is left.
              have hpersist : s.persist b (interruptJob now job) = .error e := by
                unfold Server.persist
                rw [if_pos hcan]
                simp only [interruptJob, herr]
              rw [hpersist]
              refine ⟨[], .fromJob job :: jobs.map .fromJob, store, ?_⟩
              exact
                { split := rfl
                  memory := fun id => rfl
                  stored := hstore
                  written := fun _ id => rfl
                  unwritten := fun _ => rfl
                  quiet := fun _ row hrow => absurd hrow List.not_mem_nil
                  events := (List.append_nil _).symm
                  outcome := .inr ⟨_, _, e, rfl, hinflight, hcan, herr, rfl, rfl⟩ }
        · have hcan' := Bool.eq_false_iff.mpr hcan
          have hpersist : s.persist b (interruptJob now job) = .ok s := by
            unfold Server.persist
            rw [if_neg hcan]
          have hsame : { s with store := some store } = s := by rw [← hstore]
          rcases ih (n + 1) (s.flip store (interruptJob now job)) _ rfl hnodup.2 with
            ⟨done, rest, store', h⟩
          rw [hpersist]
          dsimp only
          refine ⟨_, rest, store', Attempt.cons_inflight b now n s store store store' job _ done
            rest _ hinflight hnodup.1 (fun hyes => absurd hyes hcan) (fun _ => rfl) ?_⟩
          unfold Server.flip at h ⊢
          rw [hsame] at h ⊢
          exact h
      · have hsettled : inflight (.fromJob job) = false := by
          rw [Bool.eq_false_iff, Ne, inflight_fromJob]
          exact hopen
        rw [if_neg hopen]
        rcases ih n (s.track job) store hstore hnodup.2 with ⟨done, rest, store', h⟩
        exact ⟨_, rest, store', Attempt.cons_settled b now n s store store' job _ done rest _
          hsettled hnodup.1 h⟩

/-! ## Whole recoveries -/

/-- What a recovery that was not stopped has done: `flipped` are the rows it
    has rewritten, in the order it has come to them. -/
structure Recovered (now : DateTime) (s s' : Server T) (store : Store)
    (flipped : List PersistedJob) : Prop where
  flips : flipped.Perm (store.values.filter inflight)
  memory : ∀ id, s'.memory id = ((store.get id).map (recovered now)).or (s.memory id)
  events : s'.events = s.events ++ flipped.map (announced now)
  durable : s.circuit.canWrite = true → ∃ store', s'.store = some store' ∧
    ∀ id, store'.get id = (store.get id).map (recovered now)
  unwritten : s.circuit.canWrite = false → s'.store = some store

/-- Among rows that are stored, the row of an id is the stored one. -/
theorem updates_of_stored (f : PersistedJob → PersistedJob) (rows : List PersistedJob)
    (hrows : ∀ row ∈ rows, store.get row.id = some row) (id : String) :
    updates f rows id = if id ∈ rows.map (·.id) then (store.get id).map f else none := by
  unfold updates
  split
  next hmem =>
    rcases List.mem_map.mp hmem with ⟨row, hrow, rfl⟩
    cases hfind : rows.find? (fun row' => row'.id = row.id) with
    | none =>
        have hno := List.find?_eq_none.mp hfind row hrow
        rw [decide_eq_true_eq] at hno
        exact absurd rfl hno
    | some found =>
        have hid := List.find?_some hfind
        rw [decide_eq_true_eq] at hid
        rw [← hid, hrows found (List.mem_of_find?_eq_some hfind)]
  next hmem =>
    rw [Option.map_eq_none_iff, List.find?_eq_none]
    intro row hrow heq
    rw [decide_eq_true_eq] at heq
    exact hmem (heq ▸ List.mem_map_of_mem hrow)

theorem Backend.stored_of_order (h : row ∈ b.order store) : store.get row.id = some row :=
  (store.mem_values row).mp ((b.order_perm store).mem_iff.mp h)

/-- The rows that were rewritten so far are the ones the storage has changed. -/
theorem get_of_written (done : List PersistedJob)
    (hdone : ∀ row ∈ done, store.get row.id = some row) (id : String) :
    (updates (interrupt now) (done.filter inflight) id).or (store.get id) =
      (store.get id).map (fun row =>
        if id ∈ (done.filter inflight).map (·.id) then interrupt now row else row) := by
  rw [updates_of_stored store _ _ (fun row hrow => hdone row (List.mem_of_mem_filter hrow)) id]
  by_cases hmem : id ∈ (done.filter inflight).map (·.id)
  · simp only [if_pos hmem]
    cases store.get id <;> rfl
  · simp [if_neg hmem, Option.map_id']

/-- Of all rows, those that are rewritten are the ones in flight. -/
theorem get_of_all_written (id : String) : (store.get id).map (fun row =>
        if id ∈ ((b.order store).filter inflight).map (·.id) then interrupt now row else row) =
      (store.get id).map (recovered now) := by
  cases hget : store.get id with
  | none => rfl
  | some row =>
      have hid := store.keyed id row hget
      have hrow : row ∈ b.order store := by
        rw [(b.order_perm store).mem_iff, store.mem_values, hid]
        exact hget
      have hiff : id ∈ ((b.order store).filter inflight).map (·.id) ↔ inflight row = true := by
        constructor
        · intro hmem
          rcases List.mem_map.mp hmem with ⟨row', hrow', hid'⟩
          have hget' := b.stored_of_order store row' (List.mem_of_mem_filter hrow')
          rw [hid', hget, Option.some.injEq] at hget'
          rw [hget']
          exact List.of_mem_filter hrow'
        · intro hinflight
          exact List.mem_map.mpr ⟨row, List.mem_filter.mpr ⟨hrow, hinflight⟩, hid⟩
      simp [recovered, hiff]

theorem mem_ids_order (id : String) :
    id ∈ (b.order store).map (·.id) ↔ (store.get id).isSome = true := by
  constructor
  · intro hmem
    rcases List.mem_map.mp hmem with ⟨row, hrow, rfl⟩
    rw [b.stored_of_order store row hrow]
    rfl
  · intro hsome
    rcases Option.isSome_iff_exists.mp hsome with ⟨row, hget⟩
    have hid := store.keyed id row hget
    refine List.mem_map.mpr ⟨row, ?_, hid⟩
    rw [(b.order_perm store).mem_iff, store.mem_values, hid]
    exact hget

theorem recoverFromStorage_eq (s : Server T) (store : Store) (hstore : s.store = some store)
    (hlist : b.listError = none) :
    recoverFromStorage b now s =
      recoverLoop b now (toJobs (b.order store) s.manager.tokens).1 0
        { s with manager :=
          { s.manager with tokens := (toJobs (b.order store) s.manager.tokens).2 } } := by
  rcases s with ⟨manager, circuit, stored, events⟩
  dsimp only at hstore
  subst hstore
  unfold recoverFromStorage
  simp only [hlist]

/-- A recovery, as far as it gets. -/
theorem attempt_recoverFromStorage (s : Server T) (store : Store) (hstore : s.store = some store)
    (hlist : b.listError = none) :
    ∃ done rest store', Attempt b now 0 s store (b.order store) (recoverFromStorage b now s)
      done rest store' := by
  have hnodup : ((b.order store).map (·.id)).Nodup :=
    ((b.order_perm store).map _).nodup_iff.mpr store.nodup_ids
  have hjobs := fromJob_toJobs (b.order store) s.manager.tokens
  rcases attempt_recoverLoop b now (toJobs (b.order store) s.manager.tokens).1 0
    { s with manager := { s.manager with tokens := (toJobs (b.order store) s.manager.tokens).2 } }
    store hstore (by rw [hjobs]; exact hnodup) with ⟨done, rest, store', h⟩
  rw [hjobs] at h
  rw [recoverFromStorage_eq b now s store hstore hlist]
  exact ⟨done, rest, store',
    { split := h.split
      memory := h.memory
      stored := h.stored
      written := h.written
      unwritten := h.unwritten
      quiet := h.quiet
      events := h.events
      outcome := h.outcome }⟩

/-- A recovery none of whose writes fails gets to its end. -/
theorem recovered_of_quiet (s : Server T) (store : Store) (hstore : s.store = some store)
    (hlist : b.listError = none)
    (hquiet : ∀ row ∈ store.values, inflight row = true → b.putError row.id = none) :
    ∃ (s' : Server T) (flipped : List PersistedJob),
      recoverFromStorage b now s = (.ok flipped.length, s') ∧
      Recovered now s s' store flipped := by
  rcases attempt_recoverFromStorage b now s store hstore hlist with ⟨done, rest, store', h⟩
  rcases h.outcome with ⟨hrest, hok, _⟩ | ⟨row, rest', e, hrest, hinflight, _, herr, _⟩
  · have hdone : done = b.order store := by rw [h.split, hrest, List.append_nil]
    subst hdone
    refine ⟨(recoverFromStorage b now s).2, (b.order store).filter inflight,
      Prod.ext (by rw [hok, Nat.zero_add]) rfl, ?_⟩
    exact
      { flips := (b.order_perm store).filter inflight
        memory := fun id => by
          rw [h.memory id, updates_of_stored store _ _ (b.stored_of_order store) id]
          split
          next => rfl
          next hmem =>
            rw [mem_ids_order, Bool.not_eq_true, Option.isSome_eq_false_iff,
              Option.isNone_iff_eq_none] at hmem
            rw [hmem]
            rfl
        events := h.events
        durable := fun hcan => ⟨store', h.stored, fun id => by
          rw [h.written hcan id, get_of_written store now _ (b.stored_of_order store) id,
            get_of_all_written]⟩
        unwritten := fun hcan => by rw [h.stored, h.unwritten hcan] }
  · have hrow : row ∈ b.order store := by
      rw [h.split, hrest]
      exact List.mem_append_right _ List.mem_cons_self
    rw [hquiet row ((b.order_perm store).mem_iff.mp hrow) hinflight] at herr
    exact absurd herr (by simp)

/-- A row that was recovered is not in flight. -/
theorem inflight_recovered : inflight (recovered now row) = false := by
  unfold recovered
  split
  next => rfl
  next h => exact Bool.eq_false_iff.mpr h

/-- Where nothing is in flight, a recovery flips nothing. -/
theorem recover_settled (s : Server T) (store : Store) (hstore : s.store = some store)
    (hlist : b.listError = none)
    (hsettled : ∀ id row, store.get id = some row → inflight row = false) :
    ∃ s', recoverFromStorage b now s = (.ok 0, s') ∧ s'.events = s.events ∧
      (∀ id, s'.memory id = (store.get id).or (s.memory id)) ∧
      ∃ store', s'.store = some store' ∧ ∀ id, store'.get id = store.get id := by
  have hmap : ∀ id, (store.get id).map (recovered now) = store.get id := by
    intro id
    cases hget : store.get id with
    | none => rfl
    | some row =>
        unfold recovered
        rw [Option.map_some, hsettled id row hget]
        rfl
  have hnone : store.values.filter inflight = [] := by
    rw [List.filter_eq_nil_iff]
    intro row hrow
    rw [hsettled row.id row ((store.mem_values row).mp hrow)]
    exact Bool.false_ne_true
  rcases recovered_of_quiet b now s store hstore hlist (fun row hrow hinflight => by
    rw [hsettled row.id row ((store.mem_values row).mp hrow)] at hinflight
    exact absurd hinflight Bool.false_ne_true) with ⟨s', flipped, hrun, h⟩
  have hflipped : flipped = [] := by
    have hperm := h.flips
    rw [hnone] at hperm
    exact hperm.eq_nil
  subst hflipped
  refine ⟨s', hrun, by rw [h.events, List.map_nil, List.append_nil], fun id => ?_, ?_⟩
  · rw [h.memory id, hmap id]
  · cases hcan : s.circuit.canWrite with
    | false => exact ⟨store, h.unwritten hcan, fun id => rfl⟩
    | true =>
        rcases h.durable hcan with ⟨store', hstore', hget⟩
        exact ⟨store', hstore', fun id => by rw [hget id, hmap id]⟩

/-- The rows that are still in flight after some were rewritten. -/
theorem remaining_perm (store store' : Store) (now : DateTime)
    (flipped remaining : List PersistedJob) (hnodup : (flipped.map (·.id)).Nodup)
    (hflipped : ∀ row ∈ flipped, store.get row.id = some row ∧ inflight row = true)
    (hget : ∀ id, store'.get id = (store.get id).map (fun row =>
      if id ∈ flipped.map (·.id) then interrupt now row else row))
    (hremaining : remaining.Perm (store'.values.filter inflight)) :
    (flipped ++ remaining).Perm (store.values.filter inflight) := by
  -- A row of the new storage is in flight exactly if it is an old row that was left out.
  have hleft : ∀ row, row ∈ remaining ↔
      store.get row.id = some row ∧ inflight row = true ∧ row.id ∉ flipped.map (·.id) := by
    intro row
    rw [hremaining.mem_iff, List.mem_filter, store'.mem_values, hget row.id]
    constructor
    · rintro ⟨hsome, hinflight⟩
      rcases Option.map_eq_some_iff.mp hsome with ⟨old, hold, heq⟩
      split at heq
      next =>
        rw [← heq] at hinflight
        exact absurd hinflight Bool.false_ne_true
      next hmem => exact ⟨heq ▸ hold, hinflight, hmem⟩
    · rintro ⟨hsome, hinflight, hmem⟩
      rw [hsome, Option.map_some, if_neg hmem]
      exact ⟨rfl, hinflight⟩
  have hvalues : store.values.Nodup := List.Nodup.of_map _ store.nodup_ids
  have hvalues' : store'.values.Nodup := List.Nodup.of_map _ store'.nodup_ids
  rw [List.perm_ext_iff_of_nodup]
  · intro row
    rw [List.mem_append, hleft row, List.mem_filter, store.mem_values]
    constructor
    · rintro (hmem | ⟨hsome, hinflight, _⟩)
      · exact hflipped row hmem
      · exact ⟨hsome, hinflight⟩
    · rintro ⟨hsome, hinflight⟩
      by_cases hmem : row.id ∈ flipped.map (·.id)
      · rcases List.mem_map.mp hmem with ⟨row', hrow', hid⟩
        have hsome' := (hflipped row' hrow').1
        rw [hid, hsome, Option.some.injEq] at hsome'
        exact .inl (hsome' ▸ hrow')
      · exact .inr ⟨hsome, hinflight, hmem⟩
  · rw [List.nodup_append]
    refine ⟨List.Nodup.of_map _ hnodup, hremaining.nodup_iff.mpr (hvalues'.filter _), ?_⟩
    rintro row hrow row' hrow' rfl
    exact ((hleft row).mp hrow').2.2 (List.mem_map_of_mem hrow)
  · exact hvalues.filter _

/-- A recovery one of whose writes fails stops there. -/
theorem stopped_of_failure (s : Server T) (store : Store) (hstore : s.store = some store)
    (hwrites : s.circuit.canWrite = true)
    (hlist : b.listError = none)
    (hfails : ∃ row ∈ store.values, inflight row = true ∧ b.putError row.id ≠ none) :
    ∃ (s' : Server T) (store' : Store) (flipped : List PersistedJob) (e : JobStorageError),
      recoverFromStorage b now s = (.error e, s') ∧
      s'.store = some store' ∧ s'.circuit.canWrite = false ∧
      (flipped.map (·.id)).Nodup ∧
      (∀ row ∈ flipped, store.get row.id = some row ∧ inflight row = true) ∧
      (∀ id, store'.get id = (store.get id).map (fun row =>
        if id ∈ flipped.map (·.id) then interrupt now row else row)) ∧
      (∀ row ∈ flipped, s'.memory row.id = store'.get row.id) ∧
      s'.events = s.events ++ flipped.map (announced now) := by
  rcases attempt_recoverFromStorage b now s store hstore hlist with ⟨done, rest, store', h⟩
  have hstored : ∀ row ∈ done, store.get row.id = some row := by
    intro row hrow
    refine b.stored_of_order store row ?_
    rw [h.split]
    exact List.mem_append_left _ hrow
  have hnodup : (done.map (·.id)).Nodup := by
    have hall : ((b.order store).map (·.id)).Nodup :=
      ((b.order_perm store).map _).nodup_iff.mpr store.nodup_ids
    rw [h.split, List.map_append] at hall
    exact (List.nodup_append.mp hall).1
  rcases h.outcome with ⟨hrest, _⟩ | ⟨_, _, e, _, _, _, _, herror, hcircuit⟩
  · -- Had it come to its end, the write that fails would have been made.
    rcases hfails with ⟨row, hrow, hinflight, hne⟩
    rw [← (b.order_perm store).mem_iff, h.split, hrest, List.append_nil] at hrow
    exact absurd (h.quiet hwrites row hrow hinflight) hne
  · have hget : ∀ id, store'.get id = (store.get id).map (fun row =>
        if id ∈ (done.filter inflight).map (·.id) then interrupt now row else row) := by
      intro id
      rw [h.written hwrites id, get_of_written store now done hstored id]
    refine ⟨(recoverFromStorage b now s).2, store', done.filter inflight, e,
      Prod.ext herror rfl, h.stored, ?_, ?_, ?_, hget, ?_, h.events⟩
    · rw [hcircuit]
      simp [PersistenceCircuit.disable, PersistenceCircuit.canWrite]
    · exact hnodup.sublist (List.filter_sublist.map _)
    · intro row hrow
      exact ⟨hstored row (List.mem_of_mem_filter hrow), List.of_mem_filter hrow⟩
    · intro row hrow
      have hdone := List.mem_of_mem_filter hrow
      rw [h.memory row.id, updates_of_stored store _ _ hstored, if_pos (List.mem_map_of_mem hdone),
        hget row.id, hstored row hdone, Option.map_some, Option.map_some,
        if_pos (List.mem_map_of_mem hrow)]
      unfold recovered
      rw [List.of_mem_filter hrow]
      rfl

/-- Recovery after a restart, for every set of rows, every order they are
    listed in, and every choice of writes that fail.

    If none fails, exactly the rows in flight are rewritten, in storage and in
    memory, and each is announced once; a stored row is in memory as it is in
    storage, and memory has otherwise what it had, which for a new manager is
    nothing. Any manager that recovers from the same storage again flips none.

    If one fails, the rows that were announced are on disk, the others are as
    they were, and any manager whose writes succeed then flips exactly the
    rest. The manager it happened to writes no more: it flips the rest in its
    memory only. -/
theorem restart_recovery (b : Backend) (now : DateTime) (s : Server T) (store : Store)
    (hstore : s.store = some store) (hwrites : s.circuit.canWrite = true)
    (hlist : b.listError = none) :
    ((∀ row ∈ store.values, inflight row = true → b.putError row.id = none) →
      ∃ (s' : Server T) (store' : Store) (flipped : List PersistedJob),
        recoverFromStorage b now s = (.ok flipped.length, s') ∧
        flipped.Perm (store.values.filter inflight) ∧
        s'.store = some store' ∧
        (∀ id, store'.get id = (store.get id).map (recovered now)) ∧
        (∀ id, s'.memory id = (store'.get id).or (s.memory id)) ∧
        s'.events = s.events ++ flipped.map (announced now) ∧
        ∀ (again : Backend) (later : DateTime) (t : Server T), t.store = some store' →
          again.listError = none →
          ∃ t', recoverFromStorage again later t = (.ok 0, t') ∧ t'.events = t.events ∧
            (∀ id, t'.memory id = (store'.get id).or (t.memory id)) ∧
            ∃ store'', t'.store = some store'' ∧ ∀ id, store''.get id = store'.get id) ∧
    ((∃ row ∈ store.values, inflight row = true ∧ b.putError row.id ≠ none) →
      ∃ (s' : Server T) (store' : Store) (flipped : List PersistedJob) (e : JobStorageError),
        recoverFromStorage b now s = (.error e, s') ∧
        s'.store = some store' ∧ s'.circuit.canWrite = false ∧
        (∀ id, store'.get id = (store.get id).map (fun row =>
          if id ∈ flipped.map (·.id) then interrupt now row else row)) ∧
        (∀ row ∈ flipped, s'.memory row.id = store'.get row.id) ∧
        s'.events = s.events ++ flipped.map (announced now) ∧
        ∀ (again : Backend) (later : DateTime) (t : Server T), t.store = some store' →
          again.listError = none →
          (∀ row ∈ store'.values, inflight row = true → again.putError row.id = none) →
          ∃ (t' : Server T) (remaining : List PersistedJob),
            recoverFromStorage again later t = (.ok remaining.length, t') ∧
            (flipped ++ remaining).Perm (store.values.filter inflight) ∧
            t'.events = t.events ++ remaining.map (announced later) ∧
            (∀ id, t'.memory id = ((store'.get id).map (recovered later)).or (t.memory id)) ∧
            (t.circuit.canWrite = true → ∃ store'', t'.store = some store'' ∧
              ∀ id, store''.get id = (store'.get id).map (recovered later)) ∧
            (t.circuit.canWrite = false → t'.store = some store')) := by
  constructor
  · intro hquiet
    rcases recovered_of_quiet b now s store hstore hlist hquiet with ⟨s', flipped, hrun, h⟩
    rcases h.durable hwrites with ⟨store', hstore', hget⟩
    have hsettled : ∀ id row, store'.get id = some row → inflight row = false := by
      intro id row hrow
      rw [hget id] at hrow
      rcases Option.map_eq_some_iff.mp hrow with ⟨old, _, rfl⟩
      exact inflight_recovered now old
    refine ⟨s', store', flipped, hrun, h.flips, hstore', hget, fun id => ?_, h.events, ?_⟩
    · rw [h.memory id, hget id]
    · intro again later t ht hagain
      exact recover_settled again later t store' ht hagain hsettled
  · intro hfails
    rcases stopped_of_failure b now s store hstore hwrites hlist hfails with
      ⟨s', store', flipped, e, hrun, hstore', hcircuit, hnodup, hflipped, hget, hmemory, hevents⟩
    refine ⟨s', store', flipped, e, hrun, hstore', hcircuit, hget, hmemory, hevents, ?_⟩
    intro again later t ht hagain hquiet
    rcases recovered_of_quiet again later t store' ht hagain hquiet with ⟨t', remaining, hrun', h⟩
    exact ⟨t', remaining, hrun',
      remaining_perm store store' now flipped remaining hnodup hflipped hget h.flips,
      h.events, h.memory, h.durable, h.unwritten⟩

/-- A row of a job that was created at time 0. -/
def rowOf (id : String) (status : JobStatus) : PersistedJob where
  id := id
  parentJobId := none
  toolName := "bake"
  status := status
  progress := none
  result := none
  error := none
  createdAt := 0
  startedAt := none
  completedAt := none
  updatedAt := 0

def emptyStore : Store where
  rows := ∅
  keyed id row h := by simp [AList.lookup_empty] at h

/-- Two jobs in flight and one that is over. -/
def threeRows : Store :=
  ((emptyStore.put (rowOf "a" .running)).put (rowOf "b" .completed)).put (rowOf "c" .pending)

/-- A backend that lists its rows as they are and fails to write one of them. -/
def failing (id : String) : Backend where
  order := Store.values
  order_perm _ := .refl _
  listError := none
  putError id' := if id' = id then some (.backend "disk full") else none

/-- A new manager on three rows. -/
def restarted : Server CancellationTokens.lineageTokens :=
  ⟨JobManager.new _, .fresh, some threeRows, []⟩

/-- The pending row is flipped, the running one cannot be written, and a
    retry flips that one alone. -/
theorem restart_recovery_failing :
    ∃ (s' : Server CancellationTokens.lineageTokens) (store' : Store)
        (flipped : List PersistedJob) (e : JobStorageError),
      recoverFromStorage (failing "a") 5 restarted = (.error e, s') ∧
      s'.store = some store' ∧ flipped.map (·.id) = ["c"] ∧
      ∃ (t' : Server CancellationTokens.lineageTokens) (remaining : List PersistedJob),
        recoverFromStorage (failing "none") 9 { restarted with store := some store' } =
          (.ok remaining.length, t') ∧
        remaining.length = 1 := by
  have hfails : ∃ row ∈ threeRows.values, inflight row = true ∧
      (failing "a").putError row.id ≠ none :=
    ⟨rowOf "a" .running, by rw [Store.mem_values]; rfl, by decide, by decide⟩
  rcases (restart_recovery (failing "a") 5 restarted threeRows rfl rfl rfl).2 hfails with
    ⟨s', store', flipped, e, hrun, hstore', _, hget, _, hevents, hretry⟩
  have hevent : s'.events.map (·.id) = ["c"] := by
    have hrun' := congrArg (fun r => r.2.events.map (·.id)) hrun
    exact hrun'.symm.trans (by decide)
  have hids : flipped.map (·.id) = ["c"] := by
    rw [hevents, List.map_append, List.map_map] at hevent
    exact hevent
  rcases hretry (failing "none") 9 { restarted with store := some store' } rfl rfl (by
    intro row hrow _
    have hrow := (store'.mem_values row).mp hrow
    rw [hget row.id] at hrow
    rcases Option.map_eq_some_iff.mp hrow with ⟨old, hold, _⟩
    have hmem := (threeRows.mem_values old).mpr (by rw [threeRows.keyed _ _ hold]; exact hold)
    have hid : row.id ∈ threeRows.values.map (·.id) :=
      threeRows.keyed _ _ hold ▸ List.mem_map_of_mem hmem
    have hthree : threeRows.values.map (·.id) = ["c", "b", "a"] := by decide
    rw [hthree] at hid
    simp only [List.mem_cons, List.not_mem_nil, or_false] at hid
    rcases hid with hid | hid | hid <;> rw [hid] <;> decide) with
    ⟨t', remaining, hrun', hperm, _⟩
  refine ⟨s', store', flipped, e, hrun, hstore', hids, t', remaining, hrun', ?_⟩
  have hlength := hperm.length_eq
  have hflipped := congrArg List.length hids
  rw [List.length_map] at hflipped
  rw [List.length_append, hflipped] at hlength
  have htwo : (threeRows.values.filter inflight).length = 2 := by decide
  rw [htwo] at hlength
  simp only [List.length_cons, List.length_nil] at hlength
  omega

end Recovery

end Jobs

end DccMcp
