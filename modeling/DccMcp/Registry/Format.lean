import DccMcp.Lib.Json
import DccMcp.Lib.Text
import DccMcp.Registry.Map
import Mathlib.Data.List.TakeWhile
import Mathlib.Data.String.Basic

/-!
# The Registry File

Every process of a machine shares one `services.json`. A build that does not
know the schema of a row must leave the file alone: loading it fails, and with
it every operation that would write.

The rows are looked at one after the other. For each of them the version is
checked first and the row is decoded second, and the first row that fails
decides. A row of a newer schema fails the load; a row that does not decode
makes the file a corrupted one, and a corrupted file is renamed away. So the
protection of a newer row reaches back only to the rows in front of it that
decode, and `parseRegistryEntries_unsupported` is this condition exactly. A
version that is no unsigned integer, such as `99.0`, is no version to the
check and no version to the decoder either.

Reading the text and decoding a row are the serializer's. They are parameters
here, and all that is asked of them is that the text of an array has a
bracket in it: a blank text and a text of zero bytes are sorted out before.

## Main definitions

* `parseRegistryEntries`, `legacyGatewaySentinel`: The parser.
* `readEntriesFromFile`, `loadFromFile`, `reloadIfStale`,
  `withWriteTransaction`: The operations on the file.
* `Call`, `applyCall`: One call on a handle.
* `Protected`: What a newer file is promised.
* `NewerRowReadable`: The rows for which the promise is kept.

## Theorems

* `newer_schema_protected`: A file is protected exactly when it is refused.
-/

namespace DccMcp

namespace Registry

open Json

/-- `SERVICE_ENTRY_SCHEMA_VERSION`. -/
def serviceEntrySchemaVersion : UInt16 := 1

/-- `SERVICE_ENTRY_LEGACY_SCHEMA_VERSION`. -/
def serviceEntryLegacySchemaVersion : UInt16 := 0

/-- `GATEWAY_SENTINEL_DCC_TYPE`. -/
def gatewaySentinelDccType : String := "__gateway__"

inductive RegistryParseError
  | json
  | unsupportedSchema (received : UInt64) (supported : UInt16)
  deriving DecidableEq

inductive TransportError
  | registryFile
  | serialization
  | unsupportedServiceEntrySchemaVersion (received : UInt64) (supported : UInt16)
  deriving DecidableEq

/-- The serializer: `from_str::<Vec<Value>>`, `from_value::<ServiceEntry>`,
    `to_string_pretty`, and the members `to_value` writes for the gateway
    entry of a host and a port. -/
structure RowCodec (κ ε : Type) where
  key : ε → κ
  fromStr : String → Option (List Value)
  fromValue : Value → Option ε
  toStringPretty : List ε → Option String
  gatewayDefaults : String → UInt16 → Option (List (String × Value))

/-- The text of an array has a bracket in it. -/
def RowCodec.ReadsArrays {κ ε : Type} (c : RowCodec κ ε) : Prop :=
  ∀ content rows, c.fromStr content = some rows → '[' ∈ content.toList

section Parser

variable {κ ε : Type} (c : RowCodec κ ε)

/-- `entry(key).or_insert(default)`. -/
def orInsert (members : List (String × Value)) (key : String) (default : Value) :
    List (String × Value) :=
  if (members.lookup key).isSome then members else members ++ [(key, default)]

/-- `u16::try_from`. -/
def toU16 (n : UInt64) : Option UInt16 := if n.toNat < UInt16.size then some n.toUInt16 else none

def legacyGatewaySentinel (value : Value) : Option ε := do
  let row ← value.asObject
  let dccType ← (← row.lookup "dcc_type").asStr
  if dccType = gatewaySentinelDccType then
    let host ← (← row.lookup "host").asStr
    let port ← toU16 (← (← row.lookup "port").asU64)
    let defaults ← c.gatewayDefaults host port
    let versioned := orInsert row "schema_version"
      (.number (.posInt serviceEntryLegacySchemaVersion.toUInt64))
    c.fromValue (.object (defaults.foldl (fun m e => orInsert m e.1 e.2) versioned))
  else none

/-- The version a row declares, if it is one that is not supported. -/
def newerVersion (value : Value) : Option UInt64 :=
  ((value.get "schema_version").bind Value.asU64).filter
    (fun received => serviceEntrySchemaVersion.toUInt64 < received)

/-- What a row decodes to. -/
def decodeRow (value : Value) : Option ε :=
  (c.fromValue value).or (legacyGatewaySentinel c value)

/-- The closure of `parse_registry_entries`. -/
def parseRow (value : Value) : Except RegistryParseError ε :=
  match newerVersion value with
  | some received => .error (.unsupportedSchema received serviceEntrySchemaVersion)
  | none =>
    match decodeRow c value with
    | some entry => .ok entry
    | none => .error .json

def parseRegistryEntries (content : String) : Except RegistryParseError (List ε) :=
  match c.fromStr content with
  | none => .error .json
  | some values => values.mapM (parseRow c)

/-- The value of a number. The bits of a float are a sign, eleven bits of
    exponent and 52 of fraction. -/
def numericValue : Number → Rat
  | .posInt n => n.toNat
  | .negInt n => n.toInt
  | .float bits =>
    let exponent := bits.toNat / 2 ^ 52 % 2 ^ 11
    let fraction := bits.toNat % 2 ^ 52
    let scaled : Nat := if exponent = 0 then 2 * fraction else (2 ^ 52 + fraction) * 2 ^ exponent
    let signed : Int := if bits.toNat < 2 ^ 63 then scaled else -scaled
    mkRat signed (2 ^ 1075)

/-- A row that declares a numeric version greater than the supported one. -/
def declaresNewer (value : Value) : Bool :=
  match value.get "schema_version" with
  | some (.number n) => decide ((serviceEntrySchemaVersion.toNat : Rat) < numericValue n)
  | _ => false

/-- Some row declares an unsupported version, and the rows in front of it
    decode. -/
def NewerRowReadable (rows : List Value) : Prop :=
  ∃ before row after, rows = before ++ row :: after ∧ (newerVersion row).isSome = true ∧
    ∀ r ∈ before, (decodeRow c r).isSome = true

theorem parseRow_newer (value : Value) (received : UInt64)
    (h : newerVersion value = some received) :
    parseRow c value = .error (.unsupportedSchema received serviceEntrySchemaVersion) := by
  rw [parseRow, h]

/-- The parser refuses a file for its version exactly when it reaches a row of
    a newer schema. -/
theorem parseRegistryEntries_unsupported (rows : List Value) :
    (∃ received, rows.mapM (parseRow c) =
        .error (.unsupportedSchema received serviceEntrySchemaVersion)) ↔
      NewerRowReadable c rows := by
  induction rows with
  | nil =>
      constructor
      · rintro ⟨received, h⟩
        cases h
      · rintro ⟨before, row, after, h, -, -⟩
        cases before <;> cases h
  | cons row rows ih =>
      rw [List.mapM_cons]
      cases hnewer : newerVersion row with
      | some received =>
          rw [parseRow_newer c row received hnewer]
          refine iff_of_true ⟨received, rfl⟩ ⟨[], row, rows, rfl, ?_, ?_⟩
          · rw [hnewer, Option.isSome_some]
          · intro r hr
            cases hr
      | none =>
          cases hdecode : decodeRow c row with
          | none =>
              -- The row ends the parse, and nothing behind it is looked at.
              have hrow : parseRow c row = .error .json := by rw [parseRow, hnewer, hdecode]
              rw [hrow]
              constructor
              · rintro ⟨received, h⟩
                cases h
              · rintro ⟨before, row', after, h, hrow', hbefore⟩
                cases before with
                | nil =>
                    cases h
                    rw [hnewer] at hrow'
                    cases hrow'
                | cons first before =>
                    cases h
                    have hfirst := hbefore row List.mem_cons_self
                    rw [hdecode] at hfirst
                    cases hfirst
          | some entry =>
              have hrow : parseRow c row = .ok entry := by rw [parseRow, hnewer, hdecode]
              have hbind : (∃ received, (parseRow c row >>= fun e =>
                    rows.mapM (parseRow c) >>= fun es => pure (e :: es))
                    = .error (.unsupportedSchema received serviceEntrySchemaVersion)) ↔
                  ∃ received, rows.mapM (parseRow c)
                    = .error (.unsupportedSchema received serviceEntrySchemaVersion) := by
                rw [hrow]
                cases rows.mapM (parseRow c) with
                | error e => exact Iff.rfl
                | ok es =>
                    constructor
                    · rintro ⟨received, h⟩
                      cases h
                    · rintro ⟨received, h⟩
                      cases h
              rw [hbind, ih]
              constructor
              · rintro ⟨before, row', after, rfl, hrow', hbefore⟩
                refine ⟨row :: before, row', after, rfl, hrow', ?_⟩
                intro r hr
                rcases List.mem_cons.mp hr with rfl | hr
                · rw [hdecode, Option.isSome_some]
                · exact hbefore r hr
              · rintro ⟨before, row', after, h, hrow', hbefore⟩
                cases before with
                | nil =>
                    cases h
                    rw [hnewer] at hrow'
                    cases hrow'
                | cons first before =>
                    cases h
                    exact ⟨before, row', after, rfl, hrow',
                      fun r hr => hbefore r (List.mem_cons_of_mem row hr)⟩

end Parser

/-- `services.json`, with the time of its last change. -/
structure RegistryFile where
  content : String
  mtime : Nat
  deriving DecidableEq

section Handle

variable {κ ε : Type} [LinearOrder κ]

/-- A handle and the directory it works in: the file, the contents that were
    renamed away, the rows in memory and the time of the file they are from. -/
structure World (κ ε : Type) [LinearOrder κ] where
  file : Option RegistryFile
  quarantined : List String
  services : EntryMap κ ε
  lastMtime : Option Nat

/-- What the file system does during one call: whether a rename and a write
    succeed, and the time a written file gets. -/
structure Env where
  renames : Bool
  writes : Bool
  stamp : Nat

variable (c : RowCodec κ ε)

def looksLikeZeroPaddedEmptyRegistry (content : String) : Bool :=
  let isZero (ch : Char) : Bool := ch.toNat == 0
  let isAsciiWhitespace (ch : Char) : Bool :=
    ch.toNat == 0x20 || ch.toNat == 9 || ch.toNat == 10 || ch.toNat == 12 || ch.toNat == 13
  content.toList.any isZero && content.toList.all (fun ch => isZero ch || isAsciiWhitespace ch)

/-- `quarantine_corrupted_registry_file`, `quarantine_zero_padded_registry_file`. -/
def quarantine (env : Env) (w : World κ ε) (content : String) : World κ ε :=
  if env.renames then { w with file := none, quarantined := w.quarantined ++ [content] } else w

def readEntriesFromFile (env : Env) (w : World κ ε) :
    Except TransportError (List ε) × World κ ε :=
  match w.file with
  | none => (.ok [], w)
  | some file =>
    if (Text.trim file.content).isEmpty then (.ok [], w)
    else if looksLikeZeroPaddedEmptyRegistry file.content then
      (.ok [], quarantine env w file.content)
    else
      match parseRegistryEntries c file.content with
      | .ok entries => (.ok entries, w)
      | .error .json => (.ok [], quarantine env w file.content)
      | .error (.unsupportedSchema received supported) =>
        (.error (.unsupportedServiceEntrySchemaVersion received supported), w)

def loadFromFile (env : Env) (w : World κ ε) : Except TransportError Unit × World κ ε :=
  match readEntriesFromFile c env w with
  | (.error err, w) => (.error err, w)
  | (.ok entries, w) => (.ok (), { w with services := entriesToMap c.key entries })

def updateMtime (w : World κ ε) : World κ ε :=
  { w with lastMtime := w.file.map RegistryFile.mtime }

/-- `force_reload_from_file`: the rows are in memory afterwards. -/
def forceReloadFromFile (env : Env) (w : World κ ε) : Except TransportError Unit × World κ ε :=
  match loadFromFile c env w with
  | (.error err, w) => (.error err, w)
  | (.ok (), w) => (.ok (), updateMtime w)

/-- `reload_if_stale`: a load that fails is logged. -/
def reloadIfStale (env : Env) (w : World κ ε) : World κ ε :=
  match w.file with
  | none =>
    if w.lastMtime.isSome || !w.services.entries.isEmpty then
      { w with lastMtime := none, services := OrderedMap.empty κ ε }
    else { w with lastMtime := none }
  | some file =>
    if w.lastMtime = some file.mtime then w
    else (loadFromFile c env { w with lastMtime := some file.mtime }).2

/-- `rollback_failed_transaction`, without the sentinels. -/
def rollbackFailedTransaction (env : Env) (baseline : EntryMap κ ε) (w : World κ ε) :
    World κ ε :=
  match readEntriesFromFile c env w with
  | (.ok entries, w) => updateMtime { w with services := entriesToMap c.key entries }
  | (.error _, w) => updateMtime { w with services := baseline }

def writeAtomic (env : Env) (content : String) (w : World κ ε) :
    Except TransportError Unit × World κ ε :=
  if env.writes then (.ok (), { w with file := some ⟨content, env.stamp⟩ })
  else (.error .registryFile, w)

/-- `flush_to_file_after_transaction`, with the check behind it. -/
def flushToFileAfterTransaction [DecidableEq ε] (env : Env) (baseline : EntryMap κ ε)
    (w : World κ ε) : Except TransportError Unit × World κ ε :=
  let locals := w.services
  match readEntriesFromFile c env w with
  | (.error err, w) => (.error err, w)
  | (.ok disk, w) =>
    let entries := reconcile baseline (entriesToMap c.key disk) locals
    match c.toStringPretty entries.values with
    | none => (.error .serialization, w)
    | some content =>
      match writeAtomic env content w with
      | (.error err, w) => (.error err, w)
      | (.ok (), w) =>
        (.ok (), (readEntriesFromFile c env (updateMtime { w with services := entries })).2)

/-- `with_write_transaction`. The operation changes the rows in memory and says
    whether it did. -/
def withWriteTransaction [DecidableEq ε]
    (op : EntryMap κ ε → Except TransportError Bool × EntryMap κ ε) (env : Env)
    (w : World κ ε) : Except TransportError Unit × World κ ε :=
  match forceReloadFromFile c env w with
  | (.error err, w) => (.error err, w)
  | (.ok (), w) =>
    let baseline := w.services
    match op baseline with
    | (.error err, services) =>
      (.error err, rollbackFailedTransaction c env baseline { w with services })
    | (.ok false, services) => (.ok (), { w with services })
    | (.ok true, services) =>
      match flushToFileAfterTransaction c env baseline { w with services } with
      | (.error err, w) => (.error err, rollbackFailedTransaction c env baseline w)
      | (.ok (), w) => (.ok (), w)

/-- The calls on a registry. Listing swallows the error of its reload; a
    snapshot is read without a handle. -/
inductive Call (κ ε : Type) [LinearOrder κ]
  | new
  | refreshFromDisk
  | listAll
  | readSnapshot
  | transaction (op : EntryMap κ ε → Except TransportError Bool × EntryMap κ ε)

/-- A call that reports whether the file could be loaded. -/
def Call.loads : Call κ ε → Bool
  | .listAll => false
  | _ => true

def readSnapshot (w : World κ ε) : Except TransportError (List ε) :=
  match w.file with
  | none => .ok []
  | some file =>
    if (Text.trim file.content).isEmpty then .ok []
    else
      match parseRegistryEntries c file.content with
      | .ok entries => .ok entries
      | .error .json => .error .serialization
      | .error (.unsupportedSchema received supported) =>
        .error (.unsupportedServiceEntrySchemaVersion received supported)

/-- One call. -/
def applyCall [DecidableEq ε] (w : World κ ε) (call : Call κ ε × Env) :
    Except TransportError Unit × World κ ε :=
  match call.1 with
  | .new => forceReloadFromFile c call.2
      { w with services := OrderedMap.empty κ ε, lastMtime := none }
  | .refreshFromDisk => forceReloadFromFile c call.2 w
  | .listAll => (.ok (), reloadIfStale c call.2 w)
  | .readSnapshot => ((readSnapshot c w).map (fun _ => ()), w)
  | .transaction op => withWriteTransaction c op call.2 w

/-- The world after a list of calls. -/
def afterAll [DecidableEq ε] (w : World κ ε) (calls : List (Call κ ε × Env)) : World κ ε :=
  calls.foldl (fun w call => (applyCall c w call).2) w

/-- What a file of a newer schema is promised: whatever an older build calls,
    the file stays and is not renamed away, and every call that loads it fails
    for its version. -/
def Protected [DecidableEq ε] (content : String) : Prop :=
  ∀ (w : World κ ε) (mtime : Nat), w.file = some ⟨content, mtime⟩ →
    ∀ calls : List (Call κ ε × Env),
      (afterAll c w calls).file = w.file ∧
      (afterAll c w calls).quarantined = w.quarantined ∧
      ∀ (call : Call κ ε) (env : Env), call.loads = true → ∃ received,
        (applyCall c (afterAll c w calls) (call, env)).1 = .error
          (.unsupportedServiceEntrySchemaVersion received serviceEntrySchemaVersion)

/-- The text of an array is not blank. -/
theorem trim_isEmpty_of_mem (s : String) (ch : Char) (hch : ch ∈ s.toList)
    (hspace : Text.isWhitespace ch = false) : (Text.trim s).isEmpty = false := by
  have hmem : ch ∈ (Text.trim s).toList := by
    rw [Text.trim, String.toList_ofList, List.mem_reverse]
    have hfirst : ∀ (l : List Char), ch ∈ l → ch ∈ l.dropWhile Text.isWhitespace := by
      intro l hl
      rw [← List.takeWhile_append_dropWhile (p := Text.isWhitespace) (l := l),
        List.mem_append] at hl
      rcases hl with hl | hl
      · have hfront := List.mem_takeWhile_imp hl
        rw [hspace] at hfront
        cases hfront
      · exact hl
    exact hfirst _ (List.mem_reverse.mpr (hfirst _ hch))
  rw [Bool.eq_false_iff]
  intro hempty
  rw [String.isEmpty_iff.mp hempty] at hmem
  cases hmem

/-- The text of an array is no run of zero bytes. -/
theorem zeroPadded_of_bracket (s : String) (h : '[' ∈ s.toList) :
    looksLikeZeroPaddedEmptyRegistry s = false := by
  rw [looksLikeZeroPaddedEmptyRegistry, Bool.and_eq_false_iff]
  refine .inr ?_
  rw [List.all_eq_false]
  exact ⟨'[', h, by decide⟩

/-- Reading the text of an array is parsing its rows. -/
theorem readEntriesFromFile_array (hcodec : c.ReadsArrays) (env : Env) (w : World κ ε)
    (file : RegistryFile) (rows : List Value) (hfile : w.file = some file)
    (hrows : c.fromStr file.content = some rows) :
    readEntriesFromFile c env w =
      match rows.mapM (parseRow c) with
      | .ok entries => (.ok entries, w)
      | .error .json => (.ok [], quarantine env w file.content)
      | .error (.unsupportedSchema received supported) =>
        (.error (.unsupportedServiceEntrySchemaVersion received supported), w) := by
  have hbracket := hcodec file.content rows hrows
  have hblank := trim_isEmpty_of_mem file.content '[' hbracket (by decide)
  have hzero := zeroPadded_of_bracket file.content hbracket
  rw [readEntriesFromFile, hfile]
  simp only [hblank, hzero, Bool.false_eq_true, if_false, parseRegistryEntries, hrows]

/-- A hot reload of a file that is refused notes the time of the file. -/
theorem reloadIfStale_of_refused (env : Env) (w : World κ ε) (file : RegistryFile)
    (hfile : w.file = some file) {err : TransportError}
    (hread : readEntriesFromFile c env { w with lastMtime := some file.mtime }
      = (.error err, { w with lastMtime := some file.mtime })) :
    (reloadIfStale c env w).file = w.file ∧
      (reloadIfStale c env w).quarantined = w.quarantined := by
  unfold reloadIfStale
  rw [hfile]
  by_cases hseen : w.lastMtime = some file.mtime
  · simp [if_pos hseen, hfile]
  · simp only [if_neg hseen, loadFromFile]
    rw [hfile] at hread
    rw [hread]
    exact ⟨rfl, rfl⟩

/-- A refused file stays as it is, and every call that loads it says so. -/
theorem applyCall_of_unsupported [DecidableEq ε] (hcodec : c.ReadsArrays) (w : World κ ε)
    (file : RegistryFile) (rows : List Value) (received : UInt64) (call : Call κ ε × Env)
    (hfile : w.file = some file) (hrows : c.fromStr file.content = some rows)
    (hparse : rows.mapM (parseRow c) =
      .error (.unsupportedSchema received serviceEntrySchemaVersion)) :
    (applyCall c w call).2.file = w.file ∧ (applyCall c w call).2.quarantined = w.quarantined ∧
      (call.1.loads = true → (applyCall c w call).1 = .error
        (.unsupportedServiceEntrySchemaVersion received serviceEntrySchemaVersion)) := by
  have hread : ∀ w' : World κ ε, w'.file = some file →
      readEntriesFromFile c call.2 w' = (.error
        (.unsupportedServiceEntrySchemaVersion received serviceEntrySchemaVersion), w') := by
    intro w' hw'
    rw [readEntriesFromFile_array c hcodec call.2 w' file rows hw' hrows, hparse]
  have hreload : ∀ w' : World κ ε, w'.file = some file →
      forceReloadFromFile c call.2 w' = (.error
        (.unsupportedServiceEntrySchemaVersion received serviceEntrySchemaVersion), w') := by
    intro w' hw'
    simp only [forceReloadFromFile, loadFromFile, hread w' hw']
  rcases call with ⟨call, env⟩
  cases call with
  | new =>
      have hnew := hreload { w with services := OrderedMap.empty κ ε, lastMtime := none } hfile
      simp [applyCall, hnew]
  | refreshFromDisk => simp only [applyCall, hreload w hfile, implies_true, and_self]
  | listAll =>
      have hlist := reloadIfStale_of_refused c env w file hfile
        (hread { w with lastMtime := some file.mtime } hfile)
      exact ⟨hlist.1, hlist.2, fun h => absurd h Bool.false_ne_true⟩
  | readSnapshot =>
      have hbracket := hcodec file.content rows hrows
      have hblank := trim_isEmpty_of_mem file.content '[' hbracket (by decide)
      refine ⟨rfl, rfl, fun _ => ?_⟩
      simp only [applyCall, readSnapshot, hfile, hblank, Bool.false_eq_true, if_false,
        parseRegistryEntries, hrows, hparse, Except.map]
  | transaction op =>
      simp [applyCall, withWriteTransaction, hreload w hfile]

/-- A refused file stays as it is over any number of calls. -/
theorem afterAll_of_unsupported [DecidableEq ε] (hcodec : c.ReadsArrays) (w : World κ ε)
    (file : RegistryFile) (rows : List Value) (received : UInt64)
    (calls : List (Call κ ε × Env)) (hfile : w.file = some file)
    (hrows : c.fromStr file.content = some rows)
    (hparse : rows.mapM (parseRow c) =
      .error (.unsupportedSchema received serviceEntrySchemaVersion)) :
    (afterAll c w calls).file = w.file ∧ (afterAll c w calls).quarantined = w.quarantined := by
  induction calls generalizing w with
  | nil => exact ⟨rfl, rfl⟩
  | cons call calls ih =>
      rcases applyCall_of_unsupported c hcodec w file rows received call hfile hrows hparse with
        ⟨hf, hq, -⟩
      rcases ih (applyCall c w call).2 (hf.trans hfile) with ⟨hf', hq'⟩
      exact ⟨hf'.trans hf, hq'.trans hq⟩

/-- One load is enough to see that a protected file is refused. -/
theorem refused_of_protected [DecidableEq ε] (hcodec : c.ReadsArrays) (content : String)
    (rows : List Value) (hrows : c.fromStr content = some rows) (h : Protected c content) :
    ∃ received, rows.mapM (parseRow c) =
      .error (.unsupportedSchema received serviceEntrySchemaVersion) := by
  let w : World κ ε := ⟨some ⟨content, 0⟩, [], OrderedMap.empty κ ε, none⟩
  rcases (h w 0 rfl []).2.2 .refreshFromDisk ⟨true, true, 0⟩ rfl with ⟨received, hload⟩
  have hread :=
    readEntriesFromFile_array c hcodec ⟨true, true, 0⟩ w ⟨content, 0⟩ rows rfl hrows
  simp only [afterAll, List.foldl_nil, applyCall, forceReloadFromFile, loadFromFile,
    hread] at hload
  refine ⟨received, ?_⟩
  cases hparse : rows.mapM (parseRow c) with
  | ok entries => simp only [hparse, reduceCtorEq] at hload
  | error err =>
      cases err with
      | json => simp only [hparse, reduceCtorEq] at hload
      | unsupportedSchema received' supported =>
          simp only [hparse, Except.error.injEq,
            TransportError.unsupportedServiceEntrySchemaVersion.injEq] at hload
          rw [hload.1, hload.2]

/-- A file is protected exactly when the parser reaches a row of a newer
    schema: when the rows in front of such a row decode. -/
theorem newer_schema_protected [DecidableEq ε] (hcodec : c.ReadsArrays) (content : String)
    (rows : List Value) (hrows : c.fromStr content = some rows) :
    Protected c content ↔ NewerRowReadable c rows := by
  rw [← parseRegistryEntries_unsupported]
  constructor
  · exact refused_of_protected c hcodec content rows hrows
  · rintro ⟨received, hparse⟩ w mtime hfile calls
    rcases afterAll_of_unsupported c hcodec w ⟨content, mtime⟩ rows received calls hfile hrows
      hparse with ⟨hf, hq⟩
    refine ⟨hf, hq, fun call env hloads => ⟨received, ?_⟩⟩
    exact (applyCall_of_unsupported c hcodec (afterAll c w calls) ⟨content, mtime⟩ rows received
      (call, env) (hf.trans hfile) hrows hparse).2.2 hloads

end Handle

section Sample

/-- A serializer for two texts and the rows in them. A row decodes to its type
    and its instance, if it has both. -/
def sampleCodec (content : String) (rows : List Value) : RowCodec String (String × String) where
  key := Prod.snd
  fromStr := fun text => if text = content then some rows else none
  fromValue := fun value => do
    let dccType ← (← value.get "dcc_type").asStr
    let instanceId ← (← value.get "instance_id").asStr
    return (dccType, instanceId)
  toStringPretty := fun _ => none
  gatewayDefaults := fun _ _ => none

theorem sampleCodec_readsArrays (content : String) (rows : List Value)
    (h : '[' ∈ content.toList) : (sampleCodec content rows).ReadsArrays := by
  intro text rows' htext
  simp only [sampleCodec] at htext
  split at htext
  · next heq => exact heq ▸ h
  · cases htext

/-- A row of a newer schema that stands first. -/
theorem newer_schema_protected_first :
    Protected (sampleCodec "[\x7b\"schema_version\":2\x7d]"
      [.object [("schema_version", .number (.posInt 2))]]) "[\x7b\"schema_version\":2\x7d]" := by
  refine (newer_schema_protected _ (sampleCodec_readsArrays _ _ (by decide)) _ _ (if_pos rfl)).mpr
    ⟨[], .object [("schema_version", .number (.posInt 2))], [], rfl, by decide, ?_⟩
  intro r hr
  cases hr

/-- A row of a newer schema is not protected behind a row that does not
    decode, nor when its version is written with a fraction part. -/
theorem newer_schema_not_protected :
    (declaresNewer (.object [("schema_version", .number (.posInt 2))]) = true ∧
      ¬ Protected (sampleCodec "[\x7b\"dcc_type\":\"maya\"\x7d,\x7b\"schema_version\":2\x7d]"
        [.object [("dcc_type", .string "maya")],
          .object [("schema_version", .number (.posInt 2))]])
        "[\x7b\"dcc_type\":\"maya\"\x7d,\x7b\"schema_version\":2\x7d]") ∧
    (declaresNewer (.object [("schema_version", .number (.float 0x4058C00000000000))]) = true ∧
      ¬ Protected (sampleCodec "[\x7b\"schema_version\":99.0\x7d]"
        [.object [("schema_version", .number (.float 0x4058C00000000000))]])
        "[\x7b\"schema_version\":99.0\x7d]") := by
  refine ⟨⟨by decide +kernel, fun h => ?_⟩, ⟨by decide +kernel, fun h => ?_⟩⟩
  · rcases refused_of_protected _ (sampleCodec_readsArrays _ _ (by decide)) _ _ (if_pos rfl) h with
      ⟨received, hparse⟩
    cases hparse
  · rcases refused_of_protected _ (sampleCodec_readsArrays _ _ (by decide)) _ _ (if_pos rfl) h with
      ⟨received, hparse⟩
    cases hparse

end Sample

end Registry

end DccMcp
