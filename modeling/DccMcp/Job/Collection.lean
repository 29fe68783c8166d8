import DccMcp.Job.Storage

/-!
# Garbage Collection

How old jobs leave the registry and its storage.

A pass collects the ids of the jobs in memory that are finished and were last
touched before a cutoff. Then it has the storage delete its rows by the same
cutoff, and only if the storage confirms that does it remove the jobs. The two
selections are made apart, in memory by comparing points in time and in SQLite
by comparing texts, and the storage may refuse, fail, or come too late.

What makes the two fit is that a row has the status and the times of its job. The
pass does not look for the rows of the jobs it has collected: where the storage has
no row of a job any more, or an old one, a confirmed pass removes the job all the
same. So the rows of the removed jobs are gone because they were what the jobs are,
not because the pass has found them.

## Main definitions

* `Backend`, `inMemory`, `sqlite`: The rows of a storage, and what deleting leaves.
* `gcStaleBlocking`: The pass that says whether it was confirmed.
* `Deletion`: What becomes of the deletion of the rows.
* `State`, `collect`: The registry with its storage, and a pass.
* `Same`: Memory and storage hold the same jobs.

## Theorems

* `get_collect`, `row_collect`: What a pass leaves.
* `gc_safe`: What a pass removes, and that it keeps memory and storage the same.
-/

namespace DccMcp

namespace Jobs

namespace Collection

open Storage

variable {T : CancellationTokens} {S : Type}

/-! ## The storages -/

/-- A storage as the rows it has. The order of the texts in a storage is that of the times
    they stand for, as long as these have four digits for the year. -/
structure Backend (S : Type) where
  Good : S → Prop
  row : S → String → Option Row
  deleteOlderThan : S → Timestamp → S
  row_deleteOlderThan : ∀ s cutoff id, Good s → cutoff.Plain →
    row (deleteOlderThan s cutoff) id = (row s id).filter (fun r => !expired cutoff r)

def inMemory : Backend InMemoryStorage where
  Good := fun _ => True
  row := InMemoryStorage.get
  deleteOlderThan := fun m cutoff => (m.deleteOlderThan cutoff).2
  row_deleteOlderThan := fun m _ id _ _ => OrderedMap.lookup_filter m.rows _ id

/-- The row of SQLite that is read back. -/
def sqliteRow (codec : Codec) (db : SqliteStorage) (id : String) : Option Row :=
  (db.jobs.lookup id).bind (fun c => (rowToPersisted codec (id, c)).toOption)

theorem sqliteRow_eq (codec : Codec) (m : InMemoryStorage) (db : SqliteStorage)
    (h : Mirrors codec m db) (id : String) : sqliteRow codec db id = m.get id := by
  unfold sqliteRow InMemoryStorage.get
  rw [h.jobs, OrderedMap.lookup_mapValues]
  cases hrow : m.rows.lookup id with
  | none => rfl
  | some row =>
      have hread := rowToPersisted_columns codec row (h.sound id row hrow)
      rw [m.keyed id row hrow] at hread
      rw [Option.map_some, Option.bind_some, hread]
      rfl

/-- The table whose rows can all be read back. -/
def sqlite (codec : Codec) : Backend SqliteStorage where
  Good := fun db => ∃ m, Mirrors codec m db
  row := sqliteRow codec
  deleteOlderThan := fun db cutoff => (db.deleteOlderThan cutoff).2
  row_deleteOlderThan := by
    rintro db cutoff id ⟨m, hmirrors⟩ hcutoff
    have hdeleted := (mirrors_deleteOlderThan codec m db cutoff hmirrors hcutoff).1
    rw [sqliteRow_eq codec _ _ hdeleted, sqliteRow_eq codec m db hmirrors]
    exact inMemory.row_deleteOlderThan m cutoff id trivial hcutoff

/-! ## A pass -/

/-- `gc_stale_blocking`. None is the answer when the storage has not confirmed. -/
def gcStaleBlocking (m : JobManager T) (now olderThan : DateTime) (circuit : PersistenceCircuit)
    (deleted : Option Bool) : Option Nat × JobManager T :=
  if circuit.status.state = .disabled ∧ circuit.canRetryRetention = false then (some 0, m)
  else
    let stale := m.staleIds (now - olderThan)
    if stale = [] then (some 0, m)
    else if deleted = some false then (none, m)
    else
      let removed := JobManager.removeAll m.jobs stale
      (some removed.1, { m with jobs := removed.2 })

variable (m : JobManager T) (now olderThan : DateTime) (circuit : PersistenceCircuit)
  (deleted : Option Bool)

/-- Both passes leave the same registry. -/
theorem gcStaleBlocking_manager : (gcStaleBlocking m now olderThan circuit deleted).2 =
      (m.gcStale now olderThan circuit deleted).manager := by
  unfold gcStaleBlocking JobManager.gcStale
  split
  · rfl
  · dsimp only
    split
    · rfl
    · split
      · rfl
      · rfl

/-- What becomes of the deletion of the rows. It is not sent, or not done, since the writer
    is closing, its circuit is open, or its queue is full; the storage fails; nobody waits
    for it, or no longer, and it is done or not; or it is done and confirmed. -/
inductive Deletion
  | refused
  | failed
  | unconfirmed (done : Bool)
  | confirmed
  deriving DecidableEq

/-- What the writer answers: `delete_older_than` and `delete_older_than_blocking`. -/
def Deletion.answer : Deletion → Bool
  | .confirmed => true
  | _ => false

/-- Whether the rows are deleted. -/
def Deletion.deletes : Deletion → Bool
  | .confirmed => true
  | .unconfirmed done => done
  | _ => false

/-- The registry, each job under its id, and its storage, if one is configured. -/
structure State (T : CancellationTokens) (S : Type) where
  manager : JobManager T
  keyed : ∀ id job, manager.get id = some job → job.id = id
  storage : Option S

/-- The row of a job, with its times as the storage has them. -/
def rowOf (stamp : DateTime → Timestamp) (job : Job T.Token) : Row :=
  let row := PersistedJob.fromJob job
  { id := row.id
    parentJobId := row.parentJobId
    toolName := row.toolName
    status := row.status
    progress := row.progress
    result := row.result
    error := row.error
    createdAt := stamp row.createdAt
    startedAt := row.startedAt.map stamp
    completedAt := row.completedAt.map stamp
    updatedAt := stamp row.updatedAt }

/-- The pass comes as far as to ask the writer. -/
def asks (m : JobManager T) (now olderThan : DateTime) (circuit : PersistenceCircuit) : Bool :=
  !(decide (circuit.status.state = .disabled) && !circuit.canRetryRetention) &&
    decide (m.staleIds (now - olderThan) ≠ [])

theorem lookup_removeAll_eq (jobs : AList (fun _ : String => Job T.Token)) (ids : List String)
    (id : String) : (JobManager.removeAll jobs ids).2.lookup id =
      if id ∈ ids then none else jobs.lookup id := by
  induction ids generalizing jobs with
  | nil => rw [if_neg List.not_mem_nil]; rfl
  | cons id' ids ih =>
      rw [show (JobManager.removeAll jobs (id' :: ids)).2 =
        (JobManager.removeAll (jobs.erase id') ids).2 from rfl, ih]
      by_cases hid : id = id'
      · rw [hid, AList.lookup_erase, ite_self, if_pos List.mem_cons_self]
      · rw [AList.lookup_erase_ne hid]
        simp [hid]

/-- The registry after a pass. -/
theorem gcStale_manager : (m.gcStale now olderThan circuit deleted).manager =
      if asks m now olderThan circuit = true ∧ deleted ≠ some false then
        { m with jobs := (JobManager.removeAll m.jobs (m.staleIds (now - olderThan))).2 }
      else m := by
  unfold JobManager.gcStale asks
  by_cases hopen : circuit.status.state = .disabled ∧ circuit.canRetryRetention = false
  · rw [if_pos hopen, hopen.2]
    simp [hopen.1, Bool.and_self]
  · rw [if_neg hopen]
    have hasked : (decide (circuit.status.state = .disabled) && !circuit.canRetryRetention) =
        false := by
      rw [Bool.and_eq_false_iff, decide_eq_false_iff_not, Bool.not_eq_false']
      by_cases hstate : circuit.status.state = .disabled
      · exact .inr (Bool.eq_true_of_not_eq_false (fun hretry => hopen ⟨hstate, hretry⟩))
      · exact .inl hstate
    rw [hasked]
    dsimp only
    by_cases hstale : m.staleIds (now - olderThan) = []
    · simp [hstale]
    · by_cases hdeleted : deleted = some false
      · simp [hstale, hdeleted]
      · simp [hstale, hdeleted, Bool.and_self]

/-- A pass that has asked and is not confirmed gives no answer. -/
theorem gcStaleBlocking_refused (hasks : asks m now olderThan circuit = true)
    (hdeleted : deleted = some false) :
    (gcStaleBlocking m now olderThan circuit deleted).1 = none := by
  unfold asks at hasks
  rw [Bool.and_eq_true, Bool.not_eq_true', Bool.and_eq_false_iff, decide_eq_false_iff_not,
    Bool.not_eq_false', decide_eq_true_eq] at hasks
  unfold gcStaleBlocking
  rw [if_neg, if_neg hasks.2, if_pos hdeleted]
  rintro ⟨hstate, hretry⟩
  rcases hasks.1 with h | h
  · exact h hstate
  · rw [h] at hretry
    cases hretry

theorem keyed_gcStale (h : ∀ id job, m.get id = some job → job.id = id) (id : String)
    (job : Job T.Token)
    (hget : (m.gcStale now olderThan circuit deleted).manager.get id = some job) : job.id = id := by
  rw [gcStale_manager] at hget
  split at hget
  · exact h id job (lookup_removeAll _ _ id job hget)
  · exact h id job hget

section Pass

variable (B : Backend S) (stamp : DateTime → Timestamp)

/-- A pass: `gc_stale`, on the registry and on its storage. -/
def collect (s : State T S) (now olderThan : DateTime) (circuit : PersistenceCircuit)
    (deletion : Deletion) : State T S where
  manager := (s.manager.gcStale now olderThan circuit
    (s.storage.map (fun _ => deletion.answer))).manager
  keyed := keyed_gcStale s.manager now olderThan circuit _ s.keyed
  storage := s.storage.map (fun rows =>
    if asks s.manager now olderThan circuit && deletion.deletes then
      B.deleteOlderThan rows (stamp (now - olderThan))
    else rows)

/-- A job that a pass is after. -/
def Stale (cutoff : DateTime) (job : Job T.Token) : Prop :=
  job.status.isTerminal = true ∧ job.updatedAt < cutoff

/-- Memory and storage hold the same jobs. -/
def Same (s : State T S) : Prop :=
  ∀ rows ∈ s.storage, ∀ id, B.row rows id = (s.manager.get id).map (rowOf stamp)

theorem mem_staleIds (s : State T S) (cutoff : DateTime) (id : String) :
    id ∈ s.manager.staleIds cutoff ↔ ∃ job, s.manager.get id = some job ∧ Stale cutoff job := by
  unfold JobManager.staleIds Stale
  rw [List.mem_filterMap]
  constructor
  · rintro ⟨⟨key, job⟩, hentry, hid⟩
    have hget : s.manager.get key = some job := AList.mem_lookup_iff.mpr hentry
    rw [Option.ite_none_right_eq_some, Option.some.injEq, Bool.and_eq_true,
      decide_eq_true_eq] at hid
    rw [← hid.2, s.keyed key job hget]
    exact ⟨job, hget, hid.1⟩
  · rintro ⟨job, hget, hstale⟩
    refine ⟨⟨id, job⟩, AList.mem_lookup_iff.mp hget, ?_⟩
    rw [if_pos (by rw [Bool.and_eq_true, decide_eq_true_eq]; exact hstale), s.keyed id job hget]

variable (s : State T S) (now olderThan : DateTime) (circuit : PersistenceCircuit)
  (deletion : Deletion)

/-- The jobs that a pass leaves in memory. -/
theorem get_collect (id : String) :
    (collect B stamp s now olderThan circuit deletion).manager.get id =
      if (asks s.manager now olderThan circuit = true ∧
          s.storage.map (fun _ => deletion.answer) ≠ some false) ∧
        id ∈ s.manager.staleIds (now - olderThan) then none
      else s.manager.get id := by
  show (s.manager.gcStale now olderThan circuit _).manager.get id = _
  rw [gcStale_manager]
  by_cases hremoves : asks s.manager now olderThan circuit = true ∧
      s.storage.map (fun _ => deletion.answer) ≠ some false
  · rw [if_pos hremoves]
    show (JobManager.removeAll _ _).2.lookup id = _
    rw [lookup_removeAll_eq]
    simp only [hremoves, ne_eq, not_false_eq_true, true_and]
    rfl
  · rw [if_neg hremoves, if_neg (fun h => hremoves h.1)]

/-- The rows that a pass leaves in the storage. -/
theorem row_collect (rows : S) (hrows : s.storage = some rows) (hgood : B.Good rows)
    (hplain : (stamp (now - olderThan)).Plain) :
    ∃ rows', (collect B stamp s now olderThan circuit deletion).storage = some rows' ∧
      ∀ id, B.row rows' id =
        if asks s.manager now olderThan circuit && deletion.deletes then
          (B.row rows id).filter (fun r => !expired (stamp (now - olderThan)) r)
        else B.row rows id := by
  refine ⟨_, congrArg (Option.map _) hrows, fun id => ?_⟩
  split
  · exact B.row_deleteOlderThan rows _ id hgood hplain
  · rfl

/-- A row is deleted when its job is removed, if it is the row of the job. -/
theorem expired_rowOf (hstamp : ∀ a b, stamp a < stamp b ↔ a < b) (cutoff : DateTime)
    (job : Job T.Token) : expired (stamp cutoff) (rowOf stamp job) = true ↔ Stale cutoff job := by
  unfold expired Stale
  rw [Bool.and_eq_true, decide_eq_true_eq]
  exact and_congr_right (fun _ => hstamp job.updatedAt cutoff)

/-- What a pass removes is finished and old. A job goes only when the storage has confirmed
    the deletion in the same pass, and then its row goes with it, if the storage has the
    row of the job. A pass that is answered keeps memory and storage the same. -/
theorem gc_safe (hgood : ∀ rows, s.storage = some rows → B.Good rows)
    (hstamp : ∀ a b, stamp a < stamp b ↔ a < b) (hplain : (stamp (now - olderThan)).Plain) :
    (∀ id job, s.manager.get id = some job →
      (collect B stamp s now olderThan circuit deletion).manager.get id = some job ∨
        ((collect B stamp s now olderThan circuit deletion).manager.get id = none ∧
          Stale (now - olderThan) job)) ∧
    (∀ rows, s.storage = some rows →
      ∃ rows', (collect B stamp s now olderThan circuit deletion).storage = some rows' ∧
        ∀ id row, B.row rows id = some row → B.row rows' id = some row ∨
          (B.row rows' id = none ∧ expired (stamp (now - olderThan)) row = true)) ∧
    (∀ id job rows, s.manager.get id = some job → s.storage = some rows →
      (collect B stamp s now olderThan circuit deletion).manager.get id = none →
        deletion = .confirmed ∧
          ∃ rows', (collect B stamp s now olderThan circuit deletion).storage = some rows' ∧
            (B.row rows id = some (rowOf stamp job) → B.row rows' id = none)) ∧
    ((gcStaleBlocking s.manager now olderThan circuit
        (s.storage.map (fun _ => deletion.answer))).1 ≠ none →
      Same B stamp s → Same B stamp (collect B stamp s now olderThan circuit deletion)) := by
  have hget := get_collect B stamp s now olderThan circuit deletion
  have hanswer : s.storage.map (fun _ => deletion.answer) ≠ some false →
      ∀ rows, s.storage = some rows → deletion = .confirmed := by
    intro hnot rows hrows
    rw [hrows, Option.map_some, ne_eq, Option.some.injEq] at hnot
    cases deletion with
    | confirmed => rfl
    | refused => exact absurd rfl hnot
    | failed => exact absurd rfl hnot
    | unconfirmed done => exact absurd rfl hnot
  refine ⟨fun id job hjob => ?_, fun rows hrows => ?_, fun id job rows hjob hrows hgone => ?_,
    fun hanswered hsame rows' hrows' id => ?_⟩
  · rw [hget]
    split
    next h =>
      rcases (mem_staleIds s _ id).mp h.2 with ⟨job', hjob', hstale⟩
      rw [hjob, Option.some.injEq] at hjob'
      exact .inr ⟨rfl, hjob' ▸ hstale⟩
    next => exact .inl hjob
  · rcases row_collect B stamp s now olderThan circuit deletion rows hrows (hgood rows hrows) hplain
      with ⟨rows', hrows', hrow⟩
    refine ⟨rows', hrows', fun id row hat => ?_⟩
    rw [hrow, hat]
    split
    · cases hexpired : expired (stamp (now - olderThan)) row with
      | true => exact .inr ⟨by rw [Option.filter_some, hexpired]; rfl, rfl⟩
      | false => exact .inl (by rw [Option.filter_some, hexpired]; rfl)
    · exact .inl rfl
  · rw [hget] at hgone
    split at hgone
    next h =>
      have hconfirmed := hanswer h.1.2 rows hrows
      rcases row_collect B stamp s now olderThan circuit deletion rows hrows (hgood rows hrows)
        hplain with ⟨rows', hrows', hrow⟩
      refine ⟨hconfirmed, rows', hrows', fun hat => ?_⟩
      rcases (mem_staleIds s _ id).mp h.2 with ⟨job', hjob', hstale⟩
      rw [hjob, Option.some.injEq] at hjob'
      rw [← hjob', ← expired_rowOf stamp hstamp] at hstale
      rw [hrow, h.1.1, hconfirmed, hat, if_pos (by rfl), Option.filter_some, hstale,
        if_neg (by decide)]
    next =>
      rw [hjob] at hgone
      cases hgone
  · cases hrows : s.storage with
    | none =>
        have hnone : (collect B stamp s now olderThan circuit deletion).storage = none := by
          show s.storage.map _ = none
          rw [hrows]
          rfl
        rw [hnone] at hrows'
        cases hrows'
    | some rows =>
        rcases row_collect B stamp s now olderThan circuit deletion rows hrows (hgood rows hrows)
          hplain with ⟨rows'', hrows'', hrow⟩
        rw [hrows'', Option.mem_some_iff] at hrows'
        rw [← hrows', hrow, hget, hsame rows hrows id]
        by_cases hasked : asks s.manager now olderThan circuit = true
        · -- A pass that has asked is answered only when it was confirmed.
          have hnot : s.storage.map (fun _ => deletion.answer) ≠ some false :=
            fun h => hanswered (gcStaleBlocking_refused _ _ _ _ _ hasked h)
          rw [hasked, hanswer hnot rows hrows, if_pos (by rfl)]
          rw [hanswer hnot rows hrows] at hnot
          simp only [hnot, ne_eq, not_false_eq_true, and_true, true_and]
          cases hjob : s.manager.get id with
          | none =>
              rw [ite_self]
              rfl
          | some job =>
              have hmem : id ∈ s.manager.staleIds (now - olderThan) ↔
                  expired (stamp (now - olderThan)) (rowOf stamp job) = true := by
                rw [mem_staleIds, expired_rowOf stamp hstamp, hjob]
                simp
              rw [Option.map_some, Option.filter_some]
              by_cases hold : expired (stamp (now - olderThan)) (rowOf stamp job) = true
              · rw [if_pos (hmem.mpr hold), hold]
                rfl
              · rw [if_neg (fun h => hold (hmem.mp h)), Bool.eq_false_of_not_eq_true hold]
                rfl
        · simp [hasked]

end Pass

/-! ## Two passes -/

theorem newYear_ordinal (t : DateTime) : 1 ≤ (monthLengths t).sum := by
  unfold monthLengths
  split <;> decide

/-- One day a year is enough to tell times apart. -/
def newYear (t : DateTime) : Timestamp :=
  ⟨⟨t, 1, Nat.one_pos, newYear_ordinal t⟩, 0, 0, Nat.succ_pos 86399, Nat.succ_pos 1999999999⟩

theorem newYear_lt (a b : DateTime) : newYear a < newYear b ↔ a < b := by
  rw [Timestamp.lt_iff, NaiveDate.lt_iff]
  constructor
  · rintro ((h | ⟨_, h⟩) | ⟨_, h | ⟨_, h⟩⟩)
    · exact h
    · exact absurd h (Nat.lt_irrefl 1)
    · exact absurd h (Nat.lt_irrefl 0)
    · exact absurd h (Nat.lt_irrefl 0)
  · exact fun h => .inl (.inl h)

/-- A job that was done in the year 2001. -/
def bake : Job CancellationTokens.lineageTokens.Token :=
  { Job.new "bake" 2001 "render" none [] with
    status := .completed, completedAt := some 2001, updatedAt := 2001 }

/-- The job, and its row. -/
def baked : State CancellationTokens.lineageTokens InMemoryStorage where
  manager := ⟨⟨[⟨"bake", bake⟩], List.nodupKeys_singleton _⟩,
    CancellationTokens.lineageTokens.empty⟩
  keyed := by
    intro id job hget
    cases List.mem_singleton.mp (AList.mem_lookup_iff.mp hget)
    rfl
  storage := some (InMemoryStorage.new.put (rowOf newYear bake))

theorem gc_safe_bake :
    (collect inMemory newYear baked 2020 10 .fresh .confirmed).manager.get "bake" = none ∧
      ∃ rows, (collect inMemory newYear baked 2020 10 .fresh .confirmed).storage = some rows ∧
        inMemory.row rows "bake" = none := by
  have hsafe := gc_safe inMemory newYear baked 2020 10 .fresh .confirmed (fun _ _ => trivial)
    newYear_lt ⟨by decide, by decide, fun h => absurd h (by decide)⟩
  rcases (hsafe.2.2.1 "bake" bake _ rfl rfl (by decide)).2 with ⟨rows, hrows, hrow⟩
  exact ⟨by decide, rows, hrows, hrow rfl⟩

/-- The answer to the first pass comes too late, and the second pass is confirmed. It
    removes the job, and the storage has had no row of the job to delete in it. -/
theorem row_deleted_before :
    inMemory.row (InMemoryStorage.new.put (rowOf newYear bake)) "bake" =
        some (rowOf newYear bake) ∧
      (collect inMemory newYear baked 2020 10 .fresh (.unconfirmed true)).manager.get "bake" =
        some bake ∧
      (∃ rows, (collect inMemory newYear baked 2020 10 .fresh (.unconfirmed true)).storage =
          some rows ∧ inMemory.row rows "bake" = none) ∧
      (collect inMemory newYear
        (collect inMemory newYear baked 2020 10 .fresh (.unconfirmed true))
        2020 10 .fresh .confirmed).manager.get "bake" = none := by
  exact ⟨rfl, rfl, ⟨_, rfl, rfl⟩, rfl⟩

end Collection

end Jobs

end DccMcp
