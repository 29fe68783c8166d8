import DccMcp.Job.Concurrent
import DccMcp.Lib.OrderedMap
import DccMcp.Lib.Service
import DccMcp.Lib.Timestamp
import Mathlib.Data.List.Perm.Subperm
import Mathlib.Data.List.Sort
import Mathlib.Data.String.Basic

/-!
# Two Backends for Jobs

The storage of jobs in memory and the storage in SQLite, call by call.

In memory a row is a value, and times are compared as times. In SQLite a row
is a row of texts, and the times in it are compared as texts. Everything that
SQLite compares is written by this program: the status and the parent are
compared for equality, and the times are all in UTC and in the format of
RFC 3339, whose texts are ordered as the times are. So every call finds the
same rows in both, and the two hold the same jobs after it.

Three things come apart, and `Alike` leaves them out. A row that is put
again keeps the time it was created at in SQLite, and takes the new one in
memory. A limit of 2 ^ 63 or more is no integer to SQLite. And some times
have no text of their own (`Timestamp.Plain`).

In which order the rows are visited is up to the backend: in memory it is the
order of a hash map, in SQLite rows created at the same time may come in any
order. So a listing with a limit need not give the same jobs. Both give as
many, all of them stored and asked for, and without a limit they are the same.

The texts of progress and results are made by a library, and so are times
read by one: `Codec` says what it is used for. Failures of the database
itself are left out, and so is the end of a storage.

## Main definitions

* `JobFilter`, `Call`, `Response`: The calls.
* `InMemoryStorage`, `memory`: The storage in memory.
* `Codec`, `Columns`, `SqliteStorage`, `sqlite`: The storage in SQLite.
* `Alike`: What a call must be like for both to do the same.
* `Agree`: What it is for two answers to be the same.

## Theorems

* `storages_agree`: Both do the same in every run.
-/

namespace DccMcp

namespace Jobs

namespace Storage

/-- A row, with the times that are stored in it. A job that a storage returns
    is its row with a new token. -/
abbrev Row := PersistedJob Timestamp

/-- Subset filter applied by `list`. -/
structure JobFilter where
  status : Option JobStatus
  parentJobId : Option String
  limit : Option UInt64

/-- The calls of the trait `JobStorage`. -/
inductive Call
  | put (job : Row)
  | get (id : String)
  | list (filter : JobFilter)
  | updateStatus (id : String) (status : JobStatus) (now : Timestamp)
  | deleteOlderThan (cutoff : Timestamp)

inductive Response
  | done
  | job (found : Option Row)
  | jobs (found : List Row)
  | removed (rows : Nat)
  | failed (error : JobStorageError)

def Response.of {α : Type} (f : α → Response) : Except JobStorageError α → Response
  | .ok a => f a
  | .error e => .failed e

/-- The first rows of a listing, if there is a limit. -/
def truncate {α : Type} (limit : Option UInt64) (rows : List α) : List α :=
  match limit with
  | none => rows
  | some n => rows.take n.toNat

/-! ## In memory -/

def JobFilter.admits (filter : JobFilter) (row : Row) : Bool :=
  filter.status.all (fun status => row.status = status) &&
    filter.parentJobId.all (fun parent => row.parentJobId = some parent)

/-- The row after `update_status`. -/
def setStatus (row : Row) (status : JobStatus) (now : Timestamp) : Row :=
  { row with
    status := status
    updatedAt := now
    startedAt := if status = .running ∧ row.startedAt = none then some now else row.startedAt
    completedAt := if status.isTerminal then some now else row.completedAt }

/-- The rows that `delete_older_than` deletes. -/
def expired (cutoff : Timestamp) (row : Row) : Bool :=
  row.status.isTerminal && decide (row.updatedAt < cutoff)

/-- The map of rows, each under the id of its job. -/
structure InMemoryStorage where
  rows : OrderedMap String Row
  keyed : ∀ id row, rows.lookup id = some row → row.id = id

namespace InMemoryStorage

def new : InMemoryStorage where
  rows := .empty String Row
  keyed id row h := by
    rw [OrderedMap.lookup_empty] at h
    cases h

def put (m : InMemoryStorage) (job : Row) : InMemoryStorage where
  rows := m.rows.insert job.id job
  keyed id row h := by
    by_cases hid : id = job.id
    · rw [hid, OrderedMap.lookup_insert, Option.some.injEq] at h
      rw [← h, hid]
    · rw [OrderedMap.lookup_insert_ne _ _ _ _ hid] at h
      exact m.keyed id row h

def get (m : InMemoryStorage) (id : String) : Option Row := m.rows.lookup id

/-- `list`, where the rows are visited in the order of `visited`. -/
def list (filter : JobFilter) (visited : List Row) : List Row :=
  truncate filter.limit (visited.filter filter.admits)

def updateStatus (m : InMemoryStorage) (id : String) (status : JobStatus) (now : Timestamp) :
    InMemoryStorage where
  rows := m.rows.modify id (fun row => setStatus row status now)
  keyed id' row h := by
    rw [OrderedMap.lookup_modify] at h
    by_cases hid : id' = id
    · rw [if_pos hid, Option.map_eq_some_iff] at h
      rcases h with ⟨old, hold, rfl⟩
      exact m.keyed id' old hold
    · rw [if_neg hid] at h
      exact m.keyed id' row h

/-- `delete_older_than`: how many rows are deleted, and the rest. -/
def deleteOlderThan (m : InMemoryStorage) (cutoff : Timestamp) : Nat × InMemoryStorage :=
  (m.rows.values.countP (expired cutoff),
    { rows := m.rows.filter (fun row => !expired cutoff row)
      keyed := fun id row h => by
        rw [OrderedMap.lookup_filter, Option.filter_eq_some_iff] at h
        exact m.keyed id row h.1 })

end InMemoryStorage

/-- `InMemoryStorage` as a service. -/
def memory : Service InMemoryStorage Call Response where
  after m
    | .put job => m.put job
    | .get _ => m
    | .list _ => m
    | .updateStatus id status now => m.updateStatus id status now
    | .deleteOlderThan cutoff => (m.deleteOlderThan cutoff).2
  Answers m
    | .put _, r => r = .done
    | .get id, r => r = .job (m.get id)
    | .list filter, r => ∃ visited : List Row, visited.Perm m.rows.values ∧
        r = .jobs (InMemoryStorage.list filter visited)
    | .updateStatus _ _ _, r => r = .done
    | .deleteOlderThan cutoff, r => r = .removed (m.deleteOlderThan cutoff).1

/-! ## In SQLite -/

/-- What the libraries make of the values of a row. -/
structure Codec where
  progressToString : JobProgress → String
  progressFromStr : String → Except String JobProgress
  valueToString : Json.Value → String
  valueFromStr : String → Except String Json.Value
  parseFromRfc3339 : String → Except String Timestamp

/-- The columns of the table `jobs` beside the key `job_id`. -/
structure Columns where
  parentJobId : Option String
  tool : String
  status : String
  progressJson : Option String
  createdAt : String
  startedAt : Option String
  completedAt : Option String
  updatedAt : String
  error : Option String
  resultJson : Option String

def statusToStr : JobStatus → String
  | .pending => "pending"
  | .running => "running"
  | .completed => "completed"
  | .failed => "failed"
  | .cancelled => "cancelled"
  | .interrupted => "interrupted"

def strToStatus : String → Except JobStorageError JobStatus
  | "pending" => .ok .pending
  | "running" => .ok .running
  | "completed" => .ok .completed
  | "failed" => .ok .failed
  | "cancelled" => .ok .cancelled
  | "interrupted" => .ok .interrupted
  | other => .error (.decode ("unknown job status in storage: " ++ other))

/-- The statuses that `delete_older_than` and `update_status` name. -/
def terminal : List String :=
  [statusToStr .completed, statusToStr .failed, statusToStr .cancelled, statusToStr .interrupted]

/-- The values that `put` writes. -/
def columns (codec : Codec) (row : Row) : Columns where
  parentJobId := row.parentJobId
  tool := row.toolName
  status := statusToStr row.status
  progressJson := row.progress.map codec.progressToString
  createdAt := row.createdAt.toRfc3339
  startedAt := row.startedAt.map Timestamp.toRfc3339
  completedAt := row.completedAt.map Timestamp.toRfc3339
  updatedAt := row.updatedAt.toRfc3339
  error := row.error
  resultJson := row.result.map codec.valueToString

def parseRfc3339 (codec : Codec) (s : String) : Except JobStorageError Timestamp :=
  match codec.parseFromRfc3339 s with
  | .ok t => .ok t
  | .error e => .error (.decode ("invalid rfc3339 timestamp `" ++ s ++ "`: " ++ e))

/-- `FromSqlConversionFailure`, as `map_err` reports it. -/
def conversionFailure (column : Nat) (message : String) : JobStorageError :=
  .backend ("Conversion error from type Text at index: " ++ toString column ++ ", " ++ message)

/-- A column that may be empty. -/
def transpose {ε α β : Type} (f : α → Except ε β) : Option α → Except ε (Option β)
  | none => .ok none
  | some a => (f a).map some

/-- A time in a column. -/
def readTime (codec : Codec) (column : Nat) (s : String) : Except JobStorageError Timestamp :=
  (parseRfc3339 codec s).mapError (fun e => conversionFailure column e.text)

/-- `row_to_persisted`. The columns are read in the order of the source. -/
def rowToPersisted (codec : Codec) (entry : String × Columns) : Except JobStorageError Row := do
  let c := entry.2
  let status ← (strToStatus c.status).mapError (fun e => conversionFailure 3 e.text)
  let progress ← (transpose codec.progressFromStr c.progressJson).mapError (conversionFailure 4)
  let result ← (transpose codec.valueFromStr c.resultJson).mapError (conversionFailure 10)
  let createdAt ← readTime codec 5 c.createdAt
  let startedAt ← transpose (readTime codec 6) c.startedAt
  let completedAt ← transpose (readTime codec 7) c.completedAt
  let updatedAt ← readTime codec 8 c.updatedAt
  return {
    id := entry.1
    parentJobId := c.parentJobId
    toolName := c.tool
    status := status
    progress := progress
    result := result
    error := c.error
    createdAt := createdAt
    startedAt := startedAt
    completedAt := completedAt
    updatedAt := updatedAt }

/-- The conditions of the query of `list`. -/
def JobFilter.selects (filter : JobFilter) (c : Columns) : Bool :=
  filter.status.all (fun status => c.status = statusToStr status) &&
    filter.parentJobId.all (fun parent => c.parentJobId = some parent)

/-- The row that `put` leaves. On a conflict all columns but `created_at` are
    updated. -/
def Columns.onConflict (excluded : Columns) : Option Columns → Columns
  | none => excluded
  | some old => { excluded with createdAt := old.createdAt }

/-- The update of `update_status`. -/
def Columns.setStatus (c : Columns) (status : JobStatus) (now : Timestamp) : Columns :=
  { c with
    status := statusToStr status
    updatedAt := now.toRfc3339
    startedAt :=
      if statusToStr status = "running" then c.startedAt.or (some now.toRfc3339) else c.startedAt
    completedAt := if statusToStr status ∈ terminal then some now.toRfc3339 else c.completedAt }

/-- The condition of the statement of `delete_older_than`. -/
def overdue (cutoff : Timestamp) (c : Columns) : Bool :=
  decide (c.updatedAt < cutoff.toRfc3339) && decide (c.status ∈ terminal)

/-- The table `jobs`. -/
structure SqliteStorage where
  jobs : OrderedMap String Columns

namespace SqliteStorage

def new : SqliteStorage := ⟨.empty String Columns⟩

def put (codec : Codec) (db : SqliteStorage) (job : Row) : SqliteStorage :=
  ⟨db.jobs.insert job.id ((columns codec job).onConflict (db.jobs.lookup job.id))⟩

def get (codec : Codec) (db : SqliteStorage) (id : String) :
    Except JobStorageError (Option Row) :=
  match db.jobs.lookup id with
  | none => .ok none
  | some c => (rowToPersisted codec (id, c)).map some

/-- `list`, where the query visits the rows of `visited`. A limit that is not
    a signed 64-bit integer is a mismatch. -/
def list (codec : Codec) (filter : JobFilter) (visited : List (String × Columns)) :
    Except JobStorageError (List Row) :=
  if filter.limit.any (fun limit => 2 ^ 63 ≤ limit.toNat) then .error (.backend "datatype mismatch")
  else (truncate filter.limit visited).mapM (rowToPersisted codec)

/-- The orders that the query of `list` may visit its rows in. -/
structure Visits (db : SqliteStorage) (filter : JobFilter) (visited : List (String × Columns)) :
    Prop where
  perm : visited.Perm (db.jobs.entries.filter (fun e => filter.selects e.2))
  ordered : visited.Pairwise (fun e e' => ¬ e'.2.createdAt < e.2.createdAt)

def updateStatus (db : SqliteStorage) (id : String) (status : JobStatus) (now : Timestamp) :
    SqliteStorage :=
  ⟨db.jobs.modify id (fun c => c.setStatus status now)⟩

def deleteOlderThan (db : SqliteStorage) (cutoff : Timestamp) : Nat × SqliteStorage :=
  (db.jobs.values.countP (overdue cutoff), ⟨db.jobs.filter (fun c => !overdue cutoff c)⟩)

end SqliteStorage

/-- `SqliteStorage` as a service. -/
def sqlite (codec : Codec) : Service SqliteStorage Call Response where
  after db
    | .put job => db.put codec job
    | .get _ => db
    | .list _ => db
    | .updateStatus id status now => db.updateStatus id status now
    | .deleteOlderThan cutoff => (db.deleteOlderThan cutoff).2
  Answers db
    | .put _, r => r = .done
    | .get id, r => r = .of .job (db.get codec id)
    | .list filter, r => ∃ visited, db.Visits filter visited ∧
        r = .of .jobs (SqliteStorage.list codec filter visited)
    | .updateStatus _ _ _, r => r = .done
    | .deleteOlderThan cutoff, r => r = .removed (db.deleteOlderThan cutoff).1

/-! ## Rows that are read back -/

/-- A time whose text is in the order of the times, and is read back. -/
structure Codec.Keeps (codec : Codec) (t : Timestamp) : Prop where
  plain : t.Plain
  parsed : codec.parseFromRfc3339 t.toRfc3339 = .ok t

/-- A row whose values are read back. -/
structure Codec.Sound (codec : Codec) (row : Row) : Prop where
  progress : ∀ p, row.progress = some p →
    codec.progressFromStr (codec.progressToString p) = .ok p
  result : ∀ value, row.result = some value →
    codec.valueFromStr (codec.valueToString value) = .ok value
  createdAt : codec.Keeps row.createdAt
  startedAt : ∀ t, row.startedAt = some t → codec.Keeps t
  completedAt : ∀ t, row.completedAt = some t → codec.Keeps t
  updatedAt : codec.Keeps row.updatedAt

theorem strToStatus_statusToStr (status : JobStatus) :
    strToStatus (statusToStr status) = .ok status := by
  cases status <;> rfl

theorem statusToStr_inj (status status' : JobStatus) :
    statusToStr status = statusToStr status' ↔ status = status' := by
  constructor
  · intro h
    have hstatus := strToStatus_statusToStr status
    rw [h, strToStatus_statusToStr, Except.ok.injEq] at hstatus
    exact hstatus.symm
  · exact congrArg statusToStr

theorem mem_terminal (status : JobStatus) :
    statusToStr status ∈ terminal ↔ status.isTerminal = true := by
  cases status <;> decide

theorem transpose_map {ε α β : Type} (f : α → Except ε β) (g : β → α) (value : Option β)
    (h : ∀ b, value = some b → f (g b) = .ok b) : transpose f (value.map g) = .ok value := by
  cases value with
  | none => rfl
  | some b =>
      rw [Option.map_some, transpose, h b rfl]
      rfl

variable (codec : Codec) (m : InMemoryStorage) (db : SqliteStorage) (filter : JobFilter)

theorem readTime_toRfc3339 (column : Nat) (t : Timestamp) (h : codec.Keeps t) :
    readTime codec column t.toRfc3339 = .ok t := by
  rw [readTime, parseRfc3339, h.parsed]
  rfl

/-- A row is read back. -/
theorem rowToPersisted_columns (row : Row) (h : codec.Sound row) :
    rowToPersisted codec (row.id, columns codec row) = .ok row := by
  unfold rowToPersisted columns
  simp only [strToStatus_statusToStr,
    transpose_map codec.progressFromStr codec.progressToString row.progress h.progress,
    transpose_map codec.valueFromStr codec.valueToString row.result h.result,
    readTime_toRfc3339 codec _ row.createdAt h.createdAt,
    readTime_toRfc3339 codec _ row.updatedAt h.updatedAt,
    transpose_map (readTime codec 6) Timestamp.toRfc3339 row.startedAt
      (fun t ht => readTime_toRfc3339 codec 6 t (h.startedAt t ht)),
    transpose_map (readTime codec 7) Timestamp.toRfc3339 row.completedAt
      (fun t ht => readTime_toRfc3339 codec 7 t (h.completedAt t ht))]
  rfl

theorem selects_columns (row : Row) : filter.selects (columns codec row) = filter.admits row := by
  unfold JobFilter.selects JobFilter.admits columns
  simp only [statusToStr_inj]

/-- Both delete the same rows. -/
theorem overdue_columns (cutoff : Timestamp) (row : Row) (hcutoff : cutoff.Plain)
    (hrow : row.updatedAt.Plain) : overdue cutoff (columns codec row) = expired cutoff row := by
  unfold overdue expired columns
  simp only [Timestamp.toRfc3339_lt_iff _ _ hrow hcutoff, mem_terminal, Bool.decide_eq_true]
  exact Bool.and_comm _ _

theorem setStatus_columns (codec : Codec) (row : Row) (status : JobStatus) (now : Timestamp) :
    (columns codec row).setStatus status now = columns codec (setStatus row status now) := by
  have hrunning : statusToStr status = "running" ↔ status = .running :=
    statusToStr_inj status .running
  unfold Columns.setStatus setStatus columns
  simp only [hrunning, mem_terminal]
  congr 1
  · by_cases hstatus : status = .running
    · cases row.startedAt with
      | none => simp only [hstatus, if_true, Option.map_none, Option.none_or, true_and,
          Option.map_some]
      | some t => simp [hstatus]
    · simp [hstatus]
  · split <;> rfl

theorem sound_setStatus (row : Row) (status : JobStatus) (now : Timestamp) (h : codec.Sound row)
    (hnow : codec.Keeps now) : codec.Sound (setStatus row status now) where
  progress := h.progress
  result := h.result
  createdAt := h.createdAt
  startedAt t ht := by
    unfold setStatus at ht
    simp only at ht
    split at ht
    · rw [← Option.some.inj ht]
      exact hnow
    · exact h.startedAt t ht
  completedAt t ht := by
    unfold setStatus at ht
    simp only at ht
    split at ht
    · rw [← Option.some.inj ht]
      exact hnow
    · exact h.completedAt t ht
  updatedAt := hnow

/-! ## Both do the same -/

/-- The table holds the rows of the map. -/
structure Mirrors (codec : Codec) (m : InMemoryStorage) (db : SqliteStorage) : Prop where
  jobs : db.jobs = m.rows.mapValues (columns codec)
  sound : ∀ id row, m.rows.lookup id = some row → codec.Sound row

/-- What a call must be like for both to do the same: its values are read
    back, a job that is put again was created when it was, and a limit is a
    signed 64-bit integer. -/
def Alike (codec : Codec) (m : InMemoryStorage) : Call → Prop
  | .put job => codec.Sound job ∧
      ∀ old, m.rows.lookup job.id = some old → job.createdAt = old.createdAt
  | .get _ => True
  | .list filter => ∀ limit, filter.limit = some limit → limit.toNat < 2 ^ 63
  | .updateStatus _ _ now => codec.Keeps now
  | .deleteOlderThan cutoff => cutoff.Plain

/-- As many rows as a listing may have, all of them stored and asked for. -/
structure Lists (m : InMemoryStorage) (filter : JobFilter) (found : List Row) : Prop where
  subperm : found.Subperm (m.rows.values.filter filter.admits)
  length : found.length = (truncate filter.limit (m.rows.values.filter filter.admits)).length

/-- The answers are the same. A listing may be in another order, and with a
    limit it may be another choice of rows. In SQLite it is the rows that were
    created first, in this order. -/
def Agree (m : InMemoryStorage) : Call → Response → Response → Prop
  | .list filter, r, r' => ∃ found found', r = .jobs found ∧ r' = .jobs found' ∧
      Lists m filter found ∧ Lists m filter found' ∧
      (filter.limit = none → found.Perm found') ∧
      found'.Pairwise (fun row row' => ¬ row'.createdAt < row.createdAt)
  | _, r, r' => r = r'

theorem mirrors_new : Mirrors codec .new .new where
  jobs := rfl
  sound id row h := by
    unfold InMemoryStorage.new at h
    rw [OrderedMap.lookup_empty] at h
    cases h

theorem Mirrors.sound_entry (h : Mirrors codec m db) (entry : String × Row)
    (hentry : entry ∈ m.rows.entries) :
    codec.Sound entry.2 := h.sound entry.1 entry.2 (m.rows.lookup_of_mem entry.1 entry.2 hentry)

theorem mirrors_put (job : Row) (h : Mirrors codec m db) (hjob : codec.Sound job)
    (hcreated : ∀ old, m.rows.lookup job.id = some old → job.createdAt = old.createdAt) :
    Mirrors codec (m.put job) (db.put codec job) where
  jobs := by
    have hrow : (columns codec job).onConflict (db.jobs.lookup job.id) = columns codec job := by
      rw [h.jobs, OrderedMap.lookup_mapValues]
      cases hold : m.rows.lookup job.id with
      | none => rfl
      | some old =>
          -- The columns keep a time of creation that is the same.
          simp [Columns.onConflict, columns, hcreated old hold]
    unfold SqliteStorage.put InMemoryStorage.put
    simp only [hrow]
    rw [h.jobs, OrderedMap.insert_mapValues]
  sound id row hrow := by
    unfold InMemoryStorage.put at hrow
    by_cases hid : id = job.id
    · rw [hid, OrderedMap.lookup_insert, Option.some.injEq] at hrow
      rw [← hrow]
      exact hjob
    · rw [OrderedMap.lookup_insert_ne _ _ _ _ hid] at hrow
      exact h.sound id row hrow

theorem mirrors_updateStatus (codec : Codec) (m : InMemoryStorage) (db : SqliteStorage)
    (id : String) (status : JobStatus) (now : Timestamp) (h : Mirrors codec m db)
    (hnow : codec.Keeps now) :
    Mirrors codec (m.updateStatus id status now) (db.updateStatus id status now) where
  jobs := by
    unfold SqliteStorage.updateStatus InMemoryStorage.updateStatus
    simp only [h.jobs]
    exact OrderedMap.modify_mapValues _ _ _ _ _
      (fun row _ => setStatus_columns codec row status now)
  sound id' row hrow := by
    unfold InMemoryStorage.updateStatus at hrow
    rw [OrderedMap.lookup_modify] at hrow
    split at hrow
    · rcases Option.map_eq_some_iff.mp hrow with ⟨old, hold, rfl⟩
      exact sound_setStatus codec old status now (h.sound id' old hold) hnow
    · exact h.sound id' row hrow

theorem mirrors_deleteOlderThan (cutoff : Timestamp) (h : Mirrors codec m db)
    (hcutoff : cutoff.Plain) :
    Mirrors codec (m.deleteOlderThan cutoff).2 (db.deleteOlderThan cutoff).2 ∧
      (db.deleteOlderThan cutoff).1 = (m.deleteOlderThan cutoff).1 := by
  have hsame : ∀ entry ∈ m.rows.entries,
      overdue cutoff (columns codec entry.2) = expired cutoff entry.2 := fun entry hentry =>
    overdue_columns codec cutoff entry.2 hcutoff
      (h.sound_entry codec m db entry hentry).updatedAt.plain
  refine ⟨⟨?_, fun id row hrow => ?_⟩, ?_⟩
  · unfold SqliteStorage.deleteOlderThan InMemoryStorage.deleteOlderThan
    simp only [h.jobs]
    refine OrderedMap.filter_mapValues _ _ _ _ (fun entry hentry => ?_)
    rw [hsame entry hentry]
  · unfold InMemoryStorage.deleteOlderThan at hrow
    rw [OrderedMap.lookup_filter, Option.filter_eq_some_iff] at hrow
    exact h.sound id row hrow.1
  · unfold SqliteStorage.deleteOlderThan InMemoryStorage.deleteOlderThan OrderedMap.values
    simp only [h.jobs, OrderedMap.mapValues, List.map_map, List.countP_map]
    exact List.countP_congr (fun entry hentry => by
      simp [hsame entry hentry])

theorem get_sqlite (h : Mirrors codec m db) (id : String) : db.get codec id = .ok (m.get id) := by
  unfold SqliteStorage.get InMemoryStorage.get
  rw [h.jobs, OrderedMap.lookup_mapValues]
  cases hrow : m.rows.lookup id with
  | none => rfl
  | some row =>
      have hread := rowToPersisted_columns codec row (h.sound id row hrow)
      rw [m.keyed id row hrow] at hread
      simp only [Option.map_some, hread]
      rfl

/-! ## Listings -/

theorem truncate_sublist {α : Type} (limit : Option UInt64) (rows : List α) :
    (truncate limit rows).Sublist rows := by
  cases limit with
  | none => exact List.Sublist.refl rows
  | some n => exact List.take_sublist n.toNat rows

theorem length_truncate {α β : Type} (limit : Option UInt64) (rows : List α) (rows' : List β)
    (h : rows.length = rows'.length) :
    (truncate limit rows).length = (truncate limit rows').length := by
  cases limit with
  | none => exact h
  | some n => rw [truncate, truncate, List.length_take, List.length_take, h]

theorem truncate_map {α β : Type} (f : α → β) (limit : Option UInt64) (rows : List α) :
    truncate limit (rows.map f) = (truncate limit rows).map f := by
  cases limit with
  | none => rfl
  | some n => exact List.map_take.symm

theorem mapM_map {ε α β γ : Type} (f : β → Except ε γ) (g : α → β) (k : α → γ) (items : List α)
    (h : ∀ a ∈ items, f (g a) = .ok (k a)) : (items.map g).mapM f = .ok (items.map k) := by
  induction items with
  | nil => rfl
  | cons a items ih =>
      rw [List.map_cons, List.mapM_cons, h a List.mem_cons_self,
        ih (fun b hb => h b (List.mem_cons_of_mem a hb))]
      rfl

theorem lists_of_perm (rows : List Row) (h : rows.Perm (m.rows.values.filter filter.admits)) :
    Lists m filter (truncate filter.limit rows) where
  subperm := (truncate_sublist filter.limit rows).subperm.trans h.subperm
  length := length_truncate filter.limit rows _ h.length_eq

/-- In memory: the rows that are asked for, in some order. -/
theorem list_memory (visited : List Row) (h : visited.Perm m.rows.values) :
    ∃ rows, rows.Perm (m.rows.values.filter filter.admits) ∧
      InMemoryStorage.list filter visited = truncate filter.limit rows :=
  ⟨visited.filter filter.admits, h.filter filter.admits, rfl⟩

/-- In SQLite: the same rows, in the order they were created. -/
theorem list_sqlite (h : Mirrors codec m db) (filter : JobFilter)
    (visited : List (String × Columns))
    (hlimit : ∀ limit, filter.limit = some limit → limit.toNat < 2 ^ 63)
    (hvisits : db.Visits filter visited) :
    ∃ rows, rows.Perm (m.rows.values.filter filter.admits) ∧
      rows.Pairwise (fun row row' => ¬ row'.createdAt < row.createdAt) ∧
      SqliteStorage.list codec filter visited = .ok (truncate filter.limit rows) := by
  -- The entries that the query visits come from entries of the map.
  have hentries : db.jobs.entries.filter (fun e => filter.selects e.2) =
      (m.rows.entries.filter (fun e => filter.admits e.2)).map
        (fun e => (e.1, columns codec e.2)) := by
    rw [h.jobs, OrderedMap.mapValues, List.filter_map]
    simp only [Function.comp_def, selects_columns]
  have hperm := hvisits.perm
  rw [hentries] at hperm
  have hcomp := congrFun₂ (List.eq_map_comp_perm (fun e : String × Row => (e.1, columns codec e.2)))
    visited (m.rows.entries.filter (fun e => filter.admits e.2))
  rcases hcomp.mpr hperm with ⟨entries, rfl, hentries'⟩
  have hmem : ∀ e ∈ entries, e ∈ m.rows.entries := fun e he =>
    (List.mem_filter.mp (hentries'.subset he)).1
  refine ⟨entries.map Prod.snd, ?_, ?_, ?_⟩
  · have hvalues : (m.rows.entries.filter (fun e => filter.admits e.2)).map Prod.snd =
        m.rows.values.filter filter.admits := by
      unfold OrderedMap.values
      rw [List.filter_map]
      rfl
    rw [← hvalues]
    exact hentries'.map Prod.snd
  · have hordered := List.pairwise_map.mp hvisits.ordered
    refine List.pairwise_map.mpr (hordered.imp_of_mem (fun {e e'} he he' hnot hlt => hnot ?_))
    have hplain := fun e he => (h.sound_entry codec m db e (hmem e he)).createdAt.plain
    exact (Timestamp.toRfc3339_lt_iff _ _ (hplain e' he') (hplain e he)).mpr hlt
  · have hfits : ¬ filter.limit.any (fun limit => 2 ^ 63 ≤ limit.toNat) = true := by
      rw [Option.any_eq_true]
      rintro ⟨limit, hfilter, hle⟩
      exact Nat.not_le_of_lt (hlimit limit hfilter) (of_decide_eq_true hle)
    unfold SqliteStorage.list
    rw [if_neg hfits, truncate_map, truncate_map]
    refine mapM_map _ _ _ _ (fun e he => ?_)
    have hentry := hmem e ((truncate_sublist filter.limit entries).subset he)
    have hid : e.2.id = e.1 := m.keyed e.1 e.2 (m.rows.lookup_of_mem e.1 e.2 hentry)
    rw [← hid]
    exact rowToPersisted_columns codec e.2 (h.sound_entry codec m db e hentry)

/-- A limit beyond the integers of SQLite is refused. -/
theorem list_sqlite_of_large (visited : List (String × Columns)) (limit : UInt64)
    (hfilter : filter.limit = some limit)
    (hlarge : 2 ^ 63 ≤ limit.toNat) :
    SqliteStorage.list codec filter visited = .error (.backend "datatype mismatch") := by
  unfold SqliteStorage.list
  rw [hfilter, Option.any_some, if_pos (decide_eq_true hlarge)]

/-- Both do the same in every step. -/
theorem mirrors_simulates :
    Service.Simulates memory (sqlite codec) (Mirrors codec) (Alike codec) Agree where
  after m db call h halike := by
    cases call with
    | put job => exact mirrors_put codec m db job h halike.1 halike.2
    | get id => exact h
    | list filter => exact h
    | updateStatus id status now => exact mirrors_updateStatus codec m db id status now h halike
    | deleteOlderThan cutoff => exact (mirrors_deleteOlderThan codec m db cutoff h halike).1
  answers m db call r r' h halike hr hr' := by
    cases call with
    | put job => exact hr.trans hr'.symm
    | updateStatus id status now => exact hr.trans hr'.symm
    | deleteOlderThan cutoff =>
        have hcount := (mirrors_deleteOlderThan codec m db cutoff h halike).2
        exact hr.trans ((congrArg Response.removed hcount.symm).trans hr'.symm)
    | get id =>
        have hjob : r' = .job (m.get id) :=
          hr'.trans (congrArg (Response.of .job) (get_sqlite codec m db h id))
        exact hr.trans hjob.symm
    | list filter =>
        rcases hr with ⟨visited, hvisited, rfl⟩
        rcases hr' with ⟨visited', hvisits, rfl⟩
        rcases list_memory m filter visited hvisited with ⟨rows, hperm, hlist⟩
        rcases list_sqlite codec m db h filter visited' halike hvisits with
          ⟨rows', hperm', hordered, hlist'⟩
        refine ⟨_, _, congrArg Response.jobs hlist, congrArg (Response.of .jobs) hlist',
          lists_of_perm m filter rows hperm, lists_of_perm m filter rows' hperm', fun hnone => ?_,
          hordered.sublist (truncate_sublist filter.limit rows')⟩
        rw [hnone]
        exact hperm.trans hperm'.symm

theorem exists_answer_memory (call : Call) : ∃ r, memory.Answers m call r := by
  cases call with
  | list filter => exact ⟨_, m.rows.values, List.Perm.refl _, rfl⟩
  | _ => exact ⟨_, rfl⟩

theorem exists_visits : ∃ visited, db.Visits filter visited := by
  let rows := db.jobs.entries.filter (fun e => filter.selects e.2)
  let le : String × Columns → String × Columns → Bool := fun e e' =>
    decide (e.2.createdAt ≤ e'.2.createdAt)
  have htrans : ∀ a b c, le a b = true → le b c = true → le a c = true := by
    intro a b c hab hbc
    exact decide_eq_true (le_trans (of_decide_eq_true hab) (of_decide_eq_true hbc))
  have htotal : ∀ a b, (le a b || le b a) = true := by
    intro a b
    rw [Bool.or_eq_true]
    exact (le_total a.2.createdAt b.2.createdAt).imp decide_eq_true decide_eq_true
  refine ⟨rows.mergeSort le, List.mergeSort_perm rows le, ?_⟩
  have hsorted := List.pairwise_mergeSort htrans htotal rows
  exact hsorted.imp (fun hle => not_lt_of_ge (of_decide_eq_true hle))

theorem exists_answer_sqlite (call : Call) : ∃ r, (sqlite codec).Answers db call r := by
  cases call with
  | list filter =>
      rcases exists_visits db filter with ⟨visited, hvisited⟩
      exact ⟨_, visited, hvisited, rfl⟩
  | _ => exact ⟨_, rfl⟩

/-- Both do the same in every run of calls that mean the same to both. They
    answer, and their answers agree. After the run both hold the same jobs,
    and of these a deletion in SQLite deletes the terminal ones from before
    the cutoff. The reason is that the texts of times are ordered as the times
    are. -/
theorem storages_agree (codec : Codec) (calls : List Call)
    (hcalls : memory.Along (Alike codec) .new calls) :
    ((∃ rs, memory.Replies .new calls rs) ∧ ∃ rs, (sqlite codec).Replies .new calls rs) ∧
    (∀ rs rs', memory.Replies .new calls rs → (sqlite codec).Replies .new calls rs' →
      memory.Compared Agree .new calls rs rs') ∧
    (∀ cutoff id row, cutoff.Plain → (memory.afterAll .new calls).get id = some row →
      ((sqlite codec).afterAll .new calls).get codec id = .ok (some row) ∧
      ((((sqlite codec).afterAll .new calls).deleteOlderThan cutoff).2.get codec id = .ok none ↔
        row.status.isTerminal = true ∧ row.updatedAt < cutoff)) ∧
    (∀ a b : Timestamp, a.Plain → b.Plain → (a.toRfc3339 < b.toRfc3339 ↔ a < b)) := by
  have hsimulates := mirrors_simulates codec
  have hmirrors := hsimulates.related _ _ _ _ _ calls .new .new (mirrors_new codec) hcalls
  refine ⟨⟨memory.exists_replies exists_answer_memory calls .new,
    (sqlite codec).exists_replies (exists_answer_sqlite codec) calls .new⟩,
    fun rs rs' hrs hrs' => hsimulates.compared _ _ _ _ _ calls .new .new rs rs' (mirrors_new codec)
      hcalls hrs hrs', fun cutoff id row hcutoff hrow => ⟨?_, ?_⟩, Timestamp.toRfc3339_lt_iff⟩
  · rw [get_sqlite codec _ _ hmirrors, hrow]
  · have hafter := (mirrors_deleteOlderThan codec _ _ cutoff hmirrors hcutoff).1
    rw [get_sqlite codec _ _ hafter, Except.ok.injEq]
    unfold InMemoryStorage.get at hrow
    unfold InMemoryStorage.get InMemoryStorage.deleteOlderThan
    rw [OrderedMap.lookup_filter, hrow, Option.filter_some, expired]
    simp [ite_eq_right_iff, imp_false]

/-- Some seconds into the year 2024. -/
def newYear (secs : Nat) (h : secs < 86400) : Timestamp :=
  ⟨⟨2024, 1, by decide, by decide⟩, secs, 0, h, by decide⟩

def morning : Timestamp := newYear 21600 (by decide)

def evening : Timestamp := newYear 64800 (by decide)

/-- Libraries that know two times, and null. -/
def twoTimes : Codec where
  progressToString _ := "null"
  progressFromStr _ := .error "invalid type: null, expected struct JobProgress"
  valueToString _ := "null"
  valueFromStr s := if s = "null" then .ok .null else .error "expected ident"
  parseFromRfc3339 s :=
    if s = morning.toRfc3339 then .ok morning
    else if s = evening.toRfc3339 then .ok evening
    else .error "input contains invalid characters"

/-- A job that is completed when it is created. -/
def finished (id : String) (time : Timestamp) : Row where
  id := id
  parentJobId := none
  toolName := "render"
  status := .completed
  progress := none
  result := some .null
  error := none
  createdAt := time
  startedAt := some time
  completedAt := some time
  updatedAt := time

theorem keeps_morning : twoTimes.Keeps morning where
  plain := ⟨by decide, by decide, by decide⟩
  parsed := by
    unfold twoTimes
    simp

theorem keeps_evening : twoTimes.Keeps evening where
  plain := ⟨by decide, by decide, by decide⟩
  parsed := by
    have hne : evening.toRfc3339 ≠ morning.toRfc3339 := by decide +kernel
    unfold twoTimes
    simp [if_neg hne]

theorem sound_finished (id : String) (time : Timestamp) (h : twoTimes.Keeps time) :
    twoTimes.Sound (finished id time) where
  progress p hp := by cases hp
  result value hvalue := by
    rw [← Option.some.inj hvalue]
    rfl
  createdAt := h
  startedAt t ht := Option.some.inj ht ▸ h
  completedAt t ht := Option.some.inj ht ▸ h
  updatedAt := h

theorem storages_agree_twoTimes :
    let calls := [Call.put (finished "a" morning), .put (finished "b" evening),
      .list ⟨some .completed, none, some 1⟩, .updateStatus "a" .failed evening,
      .deleteOlderThan evening, .get "a"]
    ∀ rs rs', memory.Replies .new calls rs → (sqlite twoTimes).Replies .new calls rs' →
      memory.Compared Agree .new calls rs rs' := by
  intro calls
  refine (storages_agree twoTimes calls ⟨⟨sound_finished "a" morning keeps_morning, ?_⟩,
    ⟨sound_finished "b" evening keeps_evening, ?_⟩, ?_, keeps_evening, keeps_evening.plain, trivial,
    trivial⟩).2.1
  · intro old hold
    cases hold
  · intro old hold
    have hnone : (memory.after .new (.put (finished "a" morning))).rows.lookup "b" = none := by
      decide +kernel
    rw [show (finished "b" evening).id = "b" from rfl, hnone] at hold
    cases hold
  · intro limit hlimit
    rw [← Option.some.inj hlimit]
    decide

/-- Where the two come apart: a listing with a limit may choose another row, a
    row that is put again keeps its time of creation in SQLite only, a large
    limit is refused by SQLite only, and a leap second within a minute has the
    text of the next second. -/
theorem storages_differ :
    (memory.Replies .new [.put (finished "a" morning), .put (finished "b" evening),
        .list ⟨none, none, some 1⟩] [.done, .done, .jobs [finished "b" evening]] ∧
      (sqlite twoTimes).Replies .new [.put (finished "a" morning), .put (finished "b" evening),
        .list ⟨none, none, some 1⟩] [.done, .done, .jobs [finished "a" morning]]) ∧
    (memory.Replies .new [.put (finished "a" morning), .put (finished "a" evening), .get "a"]
        [.done, .done, .job (some (finished "a" evening))] ∧
      (sqlite twoTimes).Replies .new
        [.put (finished "a" morning), .put (finished "a" evening), .get "a"]
        [.done, .done, .job (some { finished "a" evening with createdAt := morning })]) ∧
    (memory.Replies .new [.list ⟨none, none, some 9223372036854775808⟩] [.jobs []] ∧
      (sqlite twoTimes).Replies .new [.list ⟨none, none, some 9223372036854775808⟩]
        [.failed (.backend "datatype mismatch")]) ∧
    (∃ a b : Timestamp, a.date = b.date ∧ a.date.year = 2024 ∧ a < b ∧
      a.toRfc3339 = b.toRfc3339) := by
  refine ⟨⟨⟨rfl, rfl, ⟨[finished "b" evening, finished "a" morning], List.Perm.swap _ _ _, rfl⟩,
    trivial⟩, ⟨rfl, rfl, ?_, trivial⟩⟩, ⟨⟨rfl, rfl, rfl, trivial⟩, ⟨rfl, rfl, ?_, trivial⟩⟩,
    ⟨⟨⟨[], List.Perm.refl _, congrArg Response.jobs List.take_nil.symm⟩, trivial⟩,
      ⟨⟨[], ⟨List.Perm.refl _, List.Pairwise.nil⟩, congrArg (Response.of .jobs)
        (list_sqlite_of_large twoTimes _ [] _ rfl (by decide +kernel)).symm⟩, trivial⟩⟩, ?_⟩
  · refine ⟨[("a", columns twoTimes (finished "a" morning)),
      ("b", columns twoTimes (finished "b" evening))], ⟨List.Perm.refl _, by decide +kernel⟩, ?_⟩
    have hread := rowToPersisted_columns twoTimes _ (sound_finished "a" morning keeps_morning)
    exact (congrArg (Response.of .jobs) (mapM_map (rowToPersisted twoTimes)
      (fun row => (row.id, columns twoTimes row)) id [finished "a" morning]
      (fun row hrow => List.mem_singleton.mp hrow ▸ hread))).symm
  · -- The row of the evening with the time of the morning.
    have hsound : twoTimes.Sound { finished "a" evening with createdAt := morning } :=
      { sound_finished "a" evening keeps_evening with createdAt := keeps_morning }
    exact (congrArg (fun found => Response.of .job (found.map some))
      (rowToPersisted_columns twoTimes _ hsound)).symm
  · exact ⟨⟨⟨2024, 1, by decide, by decide⟩, 21600, 10 ^ 9, by decide, by decide⟩,
      newYear 21601 (by decide), rfl, rfl, .inr ⟨rfl, .inl (by decide)⟩, by decide +kernel⟩

end Storage

end Jobs

end DccMcp
