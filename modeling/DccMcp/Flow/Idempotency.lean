import DccMcp.Lib.Uuid
import DccMcp.Flow.State

/-!
# Two Idempotency Stores

The results that steps have cached, in memory and in SQLite.

The stores differ in how they write a key down and in how they tell the time.
In memory, scope, workflow and key are put into one text. In SQLite they are
three columns, with an empty text for the workflow of a global key. The texts
are as good as the columns, since an identifier is written with a fixed number
of characters.

In memory, a lifetime ends at an instant, to the nanosecond. In SQLite, the
time of the put and that of the get are both cut to whole seconds of the
system clock. A lifetime of `n` seconds is over there as soon as `n` seconds
of that clock have begun since the put, and that is up to one second early.
It is never late, and nothing else is different.

Two clocks are read, one for each store. A reading has both, and they differ
by a constant.

## Main definitions

* `Reading`, `Clocks`: What the clocks say, and what is assumed of them.
* `Put`, `latest`: A put, and the last one of a key.
* `composeKey`, `Cache.put`, `Cache.get`: The store in memory.
* `idemWorkflowKey`, `Table.put`, `Table.get`: The store in SQLite.
* `Cut`: The seconds of a lifetime that SQLite cuts off.

## Theorems

* `stores_agree_iff`: The stores agree except where a lifetime is cut.
-/

namespace DccMcp

namespace Workflow

namespace Idempotency

open Json

/-- What the clocks say at one moment: the monotonic one, and the time since
    the Unix epoch, both in nanoseconds. -/
structure Reading where
  instant : Nat
  system : Int

/-- The nanoseconds of a second. -/
def nanos : Nat := 1000000000

/-- `now_unix_secs`: whole seconds, as a signed integer of 64 bits, and zero
    before the epoch. -/
def nowUnixSecs (r : Reading) : Int :=
  if r.system < 0 then 0 else (r.system / nanos).bmod (2 ^ 64)

/-- A call of `put` at some moment. -/
structure Put where
  reading : Reading
  scope : IdempotencyScope
  workflowId : HyphenatedUuid
  key : String
  stepId : String
  output : Value
  ttlSecs : Option UInt64

/-! ## In memory -/

def composeKey (scope : IdempotencyScope) (workflowId : HyphenatedUuid) (rendered : String) :
    String :=
  match scope with
  | .global => "G:" ++ rendered
  | .workflow => "W:" ++ String.ofList workflowId.text ++ ":" ++ rendered

/-- `Instant::checked_add`, where `limit` is the last instant there is. -/
def checkedAdd (limit instant : Nat) (secs : UInt64) : Option Nat :=
  if instant + secs.toNat * nanos ≤ limit then some (instant + secs.toNat * nanos) else none

/-- `IdempotencyCache`. -/
abbrev Cache := AList (fun _ : String => CachedEntry)

/-- What a put writes. -/
def cachedEntry (limit : Nat) (p : Put) : CachedEntry where
  value := p.output
  expiresAt := (p.ttlSecs.filter (0 < ·)).bind (checkedAdd limit p.reading.instant)

def Cache.put (limit : Nat) (cache : Cache) (p : Put) : Cache :=
  cache.insert (composeKey p.scope p.workflowId p.key) (cachedEntry limit p)

/-- The test of an entry, and its value. -/
def readEntry (r : Reading) (entry : CachedEntry) : Option Value :=
  match entry.expiresAt with
  | some expires => if expires ≤ r.instant then none else some entry.value
  | none => some entry.value

def Cache.get (cache : Cache) (r : Reading) (scope : IdempotencyScope) (workflowId : HyphenatedUuid)
    (rendered : String) : Option Value :=
  (cache.lookup (composeKey scope workflowId rendered)).bind (readEntry r)

/-! ## In SQLite -/

/-- `serde_json::to_string` and `serde_json::from_str`. -/
structure SerdeJson where
  print : Value → Except String String
  parse : String → Except String Value

/-- The value is read back as it was written. -/
def SerdeJson.ReadsBack (json : SerdeJson) (value : Value) : Prop :=
  ∃ text, json.print value = .ok text ∧ json.parse text = .ok value

/-- `IdempotencyScope::as_str`. -/
def scopeText : IdempotencyScope → String
  | .workflow => "workflow"
  | .global => "global"

def idemWorkflowKey (scope : IdempotencyScope) (workflowId : HyphenatedUuid) : String :=
  match scope with
  | .global => ""
  | .workflow => String.ofList workflowId.text

/-- `i64::checked_add`. -/
def checkedAddI64 (a b : Int) : Option Int :=
  if -2 ^ 63 ≤ a + b ∧ a + b < 2 ^ 63 then some (a + b) else none

/-- A row of `workflow_idempotency`. -/
structure Row where
  stepId : String
  resultJson : String
  createdAt : Int
  expiresAt : Option Int

/-- The table, by its primary key. -/
abbrev Table := AList (fun _ : String × String × String => Row)

/-- What `idem_put` writes. -/
def row (p : Put) (resultJson : String) : Row where
  stepId := p.stepId
  resultJson := resultJson
  createdAt := nowUnixSecs p.reading
  expiresAt := (p.ttlSecs.filter (0 < ·)).bind (fun n =>
    -- `i64::try_from`
    if n.toNat < 2 ^ 63 then checkedAddI64 (nowUnixSecs p.reading) n.toNat else none)

/-- `SqliteIdempotencyStore::put`. A value that cannot be written is left out. -/
def Table.put (json : SerdeJson) (table : Table) (p : Put) : Table :=
  match json.print p.output with
  | .error _ => table
  | .ok text =>
    table.insert (scopeText p.scope, idemWorkflowKey p.scope p.workflowId, p.key) (row p text)

/-- The condition of the query, and the value it finds. -/
def Row.read (json : SerdeJson) (r : Reading) (row : Row) : Option Value :=
  if row.expiresAt.all (nowUnixSecs r < ·) then (json.parse row.resultJson).toOption else none

def Table.get (json : SerdeJson) (table : Table) (r : Reading) (scope : IdempotencyScope)
    (workflowId : HyphenatedUuid) (rendered : String) : Option Value :=
  (table.lookup (scopeText scope, idemWorkflowKey scope workflowId, rendered)).bind
    (Row.read json r)

/-! ## Keys -/

/-- The put is one of the key: a global one from any workflow, or one of the
    same workflow. -/
def Put.Of (p : Put) (scope : IdempotencyScope) (workflowId : HyphenatedUuid) (key : String) :
    Prop :=
  p.scope = scope ∧ p.key = key ∧ (scope = .workflow → p.workflowId = workflowId)

instance (p : Put) (scope : IdempotencyScope) (workflowId : HyphenatedUuid) (key : String) :
    Decidable (p.Of scope workflowId key) :=
  inferInstanceAs (Decidable (_ ∧ _ ∧ (_ → _)))

/-- The last put of a key. -/
def latest (puts : List Put) (scope : IdempotencyScope) (workflowId : HyphenatedUuid)
    (key : String) : Option Put :=
  puts.reverse.find? (fun p => p.Of scope workflowId key)

theorem latest_snoc (puts : List Put) (p : Put) (scope : IdempotencyScope)
    (workflowId : HyphenatedUuid) (key : String) :
    latest (puts ++ [p]) scope workflowId key =
      if p.Of scope workflowId key then some p else latest puts scope workflowId key := by
  unfold latest
  rw [List.reverse_append, List.reverse_singleton, List.singleton_append, List.find?_cons]
  split <;> simp_all only [decide_eq_true_eq, decide_eq_false_iff_not, if_true, if_false]

variable (limit : Nat) (offset : Int) (p : Put) (r : Reading)

/-- In memory, keys are told apart as scope, workflow and key are. -/
theorem composeKey_inj (scope : IdempotencyScope) (workflowId : HyphenatedUuid) (key : String) :
    composeKey p.scope p.workflowId p.key = composeKey scope workflowId key ↔
      p.Of scope workflowId key := by
  rw [← String.toList_inj]
  unfold Put.Of composeKey
  cases p.scope <;> cases scope <;>
    simp only [String.toList_append, String.toList_ofList, reduceCtorEq, false_and, iff_false,
      true_and, false_implies, and_true, true_implies]
  · -- Two keys of workflows: the identifiers have the same length.
    constructor
    · intro h
      simp only [List.append_assoc] at h
      have h' := List.append_cancel_left h
      have hlength : p.workflowId.text.length = workflowId.text.length := by
        rw [HyphenatedUuid.length_text, HyphenatedUuid.length_text]
      rcases List.append_inj h' hlength with ⟨hid, hrest⟩
      exact ⟨String.toList_inj.mp (List.append_cancel_left hrest), HyphenatedUuid.text_inj _ _ hid⟩
    · rintro ⟨rfl, rfl⟩
      rfl
  · intro h
    exact absurd (List.cons.inj h).1 (by decide)
  · intro h
    exact absurd (List.cons.inj h).1 (by decide)
  · constructor
    · intro h
      exact String.toList_inj.mp (List.append_cancel_left h)
    · rintro rfl
      rfl

/-- In SQLite they are as well. -/
theorem columns_inj (scope : IdempotencyScope) (workflowId : HyphenatedUuid) (key : String) :
    (scopeText p.scope, idemWorkflowKey p.scope p.workflowId, p.key) =
        (scopeText scope, idemWorkflowKey scope workflowId, key) ↔
      p.Of scope workflowId key := by
  have hscope : scopeText .workflow ≠ scopeText .global := by decide
  unfold Put.Of idemWorkflowKey
  cases p.scope <;> cases scope <;>
    simp only [Prod.mk.injEq, hscope, hscope.symm, reduceCtorEq, false_and, true_and,
      false_implies, and_true, true_implies, String.ofList_inj]
  constructor
  · exact fun h => ⟨h.2, HyphenatedUuid.text_inj _ _ h.1⟩
  · exact fun h => ⟨by rw [h.2], h.1⟩

/-! ## Runs of puts -/

/-- In memory, a get sees the last put of its key. -/
theorem Cache.get_foldl (puts : List Put) (r : Reading) (scope : IdempotencyScope)
    (workflowId : HyphenatedUuid) (key : String) :
    (puts.foldl (Cache.put limit) ∅).get r scope workflowId key =
      (latest puts scope workflowId key).bind (fun p => readEntry r (cachedEntry limit p)) := by
  induction puts using List.reverseRecOn with
  | nil => rfl
  | append_singleton puts p ih =>
      rw [List.foldl_append, List.foldl_cons, List.foldl_nil, latest_snoc]
      unfold get put at ih ⊢
      by_cases hof : p.Of scope workflowId key
      · rw [if_pos hof, (composeKey_inj p scope workflowId key).mpr hof, AList.lookup_insert]
        rfl
      · have hne : composeKey scope workflowId key ≠ composeKey p.scope p.workflowId p.key :=
          fun heq => hof ((composeKey_inj p scope workflowId key).mp heq.symm)
        rw [if_neg hof, AList.lookup_insert_ne hne]
        exact ih

/-- In SQLite it does as well, if the values can be read back. -/
theorem Table.get_foldl (json : SerdeJson) (puts : List Put)
    (hjson : ∀ p ∈ puts, json.ReadsBack p.output) (r : Reading) (scope : IdempotencyScope)
    (workflowId : HyphenatedUuid) (key : String) :
    (puts.foldl (Table.put json) ∅).get json r scope workflowId key =
      (latest puts scope workflowId key).bind (fun p =>
        if (row p "").expiresAt.all (nowUnixSecs r < ·) then some p.output else none) := by
  induction puts using List.reverseRecOn with
  | nil => rfl
  | append_singleton puts p ih =>
      have ih := ih (fun q hq => hjson q (List.mem_append_left _ hq))
      rcases hjson p (List.mem_append_right _ List.mem_cons_self) with ⟨text, hprint, hparse⟩
      rw [List.foldl_append, List.foldl_cons, List.foldl_nil, latest_snoc]
      unfold get at ih ⊢
      unfold put
      simp only [hprint]
      by_cases hof : p.Of scope workflowId key
      · rw [if_pos hof, (columns_inj p scope workflowId key).mpr hof, AList.lookup_insert]
        simp only [Option.bind_some, Row.read, row, hparse, Except.toOption]
        rfl
      · have hne : (scopeText scope, idemWorkflowKey scope workflowId, key) ≠
            (scopeText p.scope, idemWorkflowKey p.scope p.workflowId, p.key) :=
          fun heq => hof ((columns_inj p scope workflowId key).mp heq.symm)
        rw [if_neg hof, AList.lookup_insert_ne hne]
        exact ih

/-! ## Lifetimes -/

/-- What is assumed of the clocks: they run alongside each other, after the
    epoch, and within what they can show. -/
structure Clocks (limit : Nat) (offset : Int) (r : Reading) : Prop where
  together : r.system = r.instant + offset
  epoch : 0 ≤ r.system
  instant_le : r.instant ≤ limit
  system_lt : r.system < 2 ^ 63 * nanos

theorem Clocks.nowUnixSecs_eq (h : Clocks limit offset r) :
    nowUnixSecs r = r.system / nanos ∧ 0 ≤ r.system / nanos ∧ r.system / nanos < 2 ^ 63 := by
  have hepoch := h.epoch
  have hlt := h.system_lt
  have hdiv : 0 ≤ r.system / nanos ∧ r.system / nanos < 2 ^ 63 := by
    unfold nanos at hlt ⊢
    omega
  refine ⟨?_, hdiv⟩
  unfold nowUnixSecs
  rw [if_neg (Int.not_lt.mpr hepoch), Int.bmod_eq_of_le_mul_two] <;> omega

/-- The seconds that SQLite cuts off the lifetime of a put: it is over by
    whole seconds of the system clock, and not yet by the other one. -/
def Cut (p : Put) (r : Reading) : Prop :=
  ∃ n : UInt64, p.ttlSecs = some n ∧ 0 < n ∧
    nowUnixSecs p.reading + n.toNat ≤ nowUnixSecs r ∧
    r.instant < p.reading.instant + n.toNat * nanos

/-- A put without a lifetime is never over. -/
theorem reads_forever (h : p.ttlSecs.filter (0 < ·) = none) :
    readEntry r (cachedEntry limit p) = some p.output ∧
      (row p "").expiresAt.all (nowUnixSecs r < ·) = true := by
  unfold cachedEntry row readEntry
  rw [h]
  exact ⟨rfl, rfl⟩

/-- In memory, a lifetime is over at its instant. An instant that cannot be
    shown does not come. -/
theorem readEntry_cachedEntry (n : UInt64) (h : p.ttlSecs.filter (0 < ·) = some n)
    (hlimit : r.instant ≤ limit) :
    readEntry r (cachedEntry limit p) =
      if p.reading.instant + n.toNat * nanos ≤ r.instant then none else some p.output := by
  have hexpires : (cachedEntry limit p).expiresAt = checkedAdd limit p.reading.instant n := by
    unfold cachedEntry
    rw [h, Option.bind_some]
  have hvalue : (cachedEntry limit p).value = p.output := rfl
  generalize hend : p.reading.instant + n.toNat * nanos = expiry
  unfold checkedAdd at hexpires
  rw [hend] at hexpires
  unfold readEntry
  rw [hexpires, hvalue]
  by_cases hlast : expiry ≤ limit
  · rw [if_pos hlast]
  · rw [if_neg hlast, if_neg (by omega)]

/-- In SQLite, it is over with the second. -/
theorem all_row (n : UInt64) (h : p.ttlSecs.filter (0 < ·) = some n)
    (hp : Clocks limit offset p.reading)
    (hr : Clocks limit offset r) :
    (row p "").expiresAt.all (nowUnixSecs r < ·) =
      decide (nowUnixSecs r < nowUnixSecs p.reading + n.toNat) := by
  rcases hp.nowUnixSecs_eq with ⟨hp', hp0, hp1⟩
  rcases hr.nowUnixSecs_eq with ⟨hr', hr0, hr1⟩
  rw [← hp'] at hp0 hp1
  rw [← hr'] at hr0 hr1
  unfold row checkedAddI64
  rw [h]
  simp only [Option.bind_some]
  split
  · split
    · rfl
    · -- An expiry beyond the integers is beyond every clock.
      refine (decide_eq_true ?_).symm
      omega
  · refine (decide_eq_true ?_).symm
    omega

/-- The answers of both stores to one put. -/
theorem reads_eq (hp : Clocks limit offset p.reading) (hr : Clocks limit offset r) :
    ((if (row p "").expiresAt.all (nowUnixSecs r < ·) then some p.output else none) =
        readEntry r (cachedEntry limit p) ∧ ¬ Cut p r) ∨
      ((if (row p "").expiresAt.all (nowUnixSecs r < ·) then some p.output else none) = none ∧
        readEntry r (cachedEntry limit p) = some p.output ∧ Cut p r) := by
  cases hn : p.ttlSecs.filter (0 < ·) with
  | none =>
      rcases reads_forever limit p r hn with ⟨hmemory, hsqlite⟩
      refine .inl ⟨by rw [hsqlite, hmemory, if_pos rfl], ?_⟩
      rintro ⟨n, hsome, hpos, _⟩
      rw [hsome, Option.filter_some, if_pos (decide_eq_true hpos)] at hn
      simp at hn
  | some n =>
      rw [readEntry_cachedEntry limit p r n hn hr.instant_le, all_row limit offset p r n hn hp hr]
      rcases Option.filter_eq_some_iff.mp hn with ⟨hsome, hpos⟩
      have hpos := of_decide_eq_true hpos
      have hcut : Cut p r ↔ nowUnixSecs p.reading + n.toNat ≤ nowUnixSecs r ∧
          r.instant < p.reading.instant + n.toNat * nanos := by
        constructor
        · rintro ⟨m, hm, _, hcut⟩
          rw [hsome, Option.some.injEq] at hm
          exact hm ▸ hcut
        · exact fun h => ⟨n, hsome, hpos, h⟩
      rw [hcut]
      -- By the second, a lifetime is over no later than by the instant.
      have hearly : p.reading.instant + n.toNat * nanos ≤ r.instant →
          nowUnixSecs p.reading + n.toNat ≤ nowUnixSecs r := by
        rw [hp.nowUnixSecs_eq.1, hr.nowUnixSecs_eq.1, hp.together, hr.together]
        unfold nanos
        omega
      by_cases hsecs : nowUnixSecs r < nowUnixSecs p.reading + n.toNat
      · have hinstant : ¬ p.reading.instant + n.toNat * nanos ≤ r.instant :=
          fun h => absurd (hearly h) (Int.not_le.mpr hsecs)
        refine .inl ⟨?_, fun h => absurd h.1 (Int.not_le.mpr hsecs)⟩
        rw [decide_eq_true hsecs, if_pos rfl, if_neg hinstant]
      · rw [decide_eq_false hsecs, if_neg Bool.false_ne_true]
        by_cases hinstant : p.reading.instant + n.toNat * nanos ≤ r.instant
        · exact .inl ⟨by rw [if_pos hinstant], fun h => absurd hinstant (Nat.not_le.mpr h.2)⟩
        · exact .inr ⟨rfl, by rw [if_neg hinstant], Int.not_lt.mp hsecs, Nat.not_le.mp hinstant⟩

/-- A lifetime that is cut is in its last second. -/
theorem lt_of_cut (hp : Clocks limit offset p.reading) (hr : Clocks limit offset r) (h : Cut p r) :
    ∃ n : UInt64, p.ttlSecs = some n ∧ 0 < n ∧
      r.instant < p.reading.instant + n.toNat * nanos ∧
      p.reading.instant + n.toNat * nanos < r.instant + nanos := by
  rcases h with ⟨n, hsome, hpos, hsecs, hinstant⟩
  refine ⟨n, hsome, hpos, hinstant, ?_⟩
  rw [hp.nowUnixSecs_eq.1, hr.nowUnixSecs_eq.1, hp.together, hr.together] at hsecs
  unfold nanos at hsecs ⊢
  omega

/-- After any puts, and for every key and moment: a get in memory and one in
    SQLite answer the same, unless the last put of the key has a lifetime and
    SQLite has cut it. Then SQLite answers nothing where memory still has the
    value, and the lifetime is in its last second. -/
theorem stores_agree_iff (limit : Nat) (offset : Int) (json : SerdeJson) (puts : List Put)
    (r : Reading) (scope : IdempotencyScope) (workflowId : HyphenatedUuid) (key : String)
    (hputs : ∀ p ∈ puts, Clocks limit offset p.reading ∧ json.ReadsBack p.output)
    (hr : Clocks limit offset r) :
    ((puts.foldl (Cache.put limit) ∅).get r scope workflowId key =
        (puts.foldl (Table.put json) ∅).get json r scope workflowId key ↔
      ¬ ∃ p, latest puts scope workflowId key = some p ∧ Cut p r) ∧
    ((puts.foldl (Cache.put limit) ∅).get r scope workflowId key ≠
        (puts.foldl (Table.put json) ∅).get json r scope workflowId key →
      ∃ p n, latest puts scope workflowId key = some p ∧ p.ttlSecs = some n ∧ 0 < n ∧
        (puts.foldl (Cache.put limit) ∅).get r scope workflowId key = some p.output ∧
        (puts.foldl (Table.put json) ∅).get json r scope workflowId key = none ∧
        r.instant < p.reading.instant + n.toNat * nanos ∧
        p.reading.instant + n.toNat * nanos < r.instant + nanos) := by
  rw [Cache.get_foldl, Table.get_foldl json puts (fun p hp => (hputs p hp).2)]
  cases hlatest : latest puts scope workflowId key with
  | none =>
      refine ⟨iff_of_true rfl ?_, fun hne => absurd rfl hne⟩
      simp
  | some p =>
      have hmem : p ∈ puts := List.mem_reverse.mp (List.mem_of_find?_eq_some hlatest)
      have hp := (hputs p hmem).1
      simp only [Option.bind_some, Option.some.injEq, exists_eq_left']
      rcases reads_eq limit offset p r hp hr with ⟨hsame, hnot⟩ | ⟨hnone, hsome, hcut⟩
      · exact ⟨iff_of_true hsame.symm hnot, fun hne => absurd hsame.symm hne⟩
      · rw [hnone, hsome]
        refine ⟨iff_of_false (Option.some_ne_none _) (fun hnot => hnot hcut), fun _ => ?_⟩
        rcases lt_of_cut limit offset p r hp hr hcut with ⟨n, httl, hpos, hbefore, hafter⟩
        exact ⟨p, n, rfl, httl, hpos, rfl, rfl, hbefore, hafter⟩

/-- A serializer, on the null value. -/
def nullJson : SerdeJson where
  print _ := .ok "null"
  parse _ := .ok .null

/-- Both clocks started at the epoch. -/
def atNanos (nanoseconds : Nat) : Reading := ⟨nanoseconds, nanoseconds⟩

theorem clocks_atNanos (t : Nat) (ht : t ≤ 10 ^ 18) : Clocks (10 ^ 18) 0 (atNanos t) := by
  refine ⟨(Int.add_zero _).symm, Int.natCast_nonneg t, ht, ?_⟩
  unfold atNanos nanos
  dsimp only
  omega

/-- A global put with a lifetime of one second. -/
def shortPut (nanoseconds : Nat) : Put where
  reading := atNanos nanoseconds
  scope := .global
  workflowId := ⟨0, by decide⟩
  key := "export"
  stepId := "render"
  output := .null
  ttlSecs := some 1

theorem stores_agree_iff_expiry :
    ([shortPut 900000000].foldl (Cache.put (10 ^ 18)) ∅).get (atNanos 1900000000) .global
        ⟨7, by decide⟩ "export" =
      ([shortPut 900000000].foldl (Table.put nullJson) ∅).get nullJson (atNanos 1900000000) .global
        ⟨7, by decide⟩ "export" := by
  refine (stores_agree_iff (10 ^ 18) 0 nullJson [shortPut 900000000] (atNanos 1900000000) .global
    ⟨7, by decide⟩ "export" (fun p hp => ?_) (clocks_atNanos _ (by decide))).1.mpr ?_
  · rw [List.mem_singleton.mp hp]
    exact ⟨clocks_atNanos _ (by decide), "null", rfl, rfl⟩
  · rintro ⟨p, hlatest, n, hn, _, _, hinstant⟩
    have hp : p = shortPut 900000000 := (Option.some.inj hlatest).symm
    rw [hp] at hn hinstant
    rw [← Option.some.inj hn] at hinstant
    exact absurd hinstant (by decide)

/-- A lifetime of one second that starts at 0.9 s: at 1.0 s SQLite has
    nothing. -/
theorem short_put_cut :
    ∃ value, ([shortPut 900000000].foldl (Cache.put (10 ^ 18)) ∅).get (atNanos 1000000000) .global
        ⟨7, by decide⟩ "export" = some value ∧
      ([shortPut 900000000].foldl (Table.put nullJson) ∅).get nullJson (atNanos 1000000000) .global
        ⟨7, by decide⟩ "export" = none := by
  have hlatest : latest [shortPut 900000000] .global ⟨7, by decide⟩ "export" =
      some (shortPut 900000000) := rfl
  have hjson : ∀ p ∈ [shortPut 900000000], nullJson.ReadsBack p.output := by
    intro p hp
    rw [List.mem_singleton.mp hp]
    exact ⟨"null", rfl, rfl⟩
  have httl : (shortPut 900000000).ttlSecs.filter (0 < ·) = some 1 := by decide
  have hp := clocks_atNanos 900000000 (by decide)
  have hr := clocks_atNanos 1000000000 (by decide)
  rw [Cache.get_foldl, Table.get_foldl nullJson _ hjson, hlatest, Option.bind_some,
    Option.bind_some, readEntry_cachedEntry (10 ^ 18) _ _ 1 httl hr.instant_le,
    all_row (10 ^ 18) 0 _ _ 1 httl hp hr]
  exact ⟨.null, if_neg (by decide), if_neg (by decide)⟩

end Idempotency

end Workflow

end DccMcp
