import Mathlib.Data.String.Basic
import DccMcp.Lib.Json
import DccMcp.Lib.Machine
import DccMcp.Lib.OrderedMap
import DccMcp.Lib.Text

/-!
# Recorded Demonstrations

The recordings of the gateway, and what a restart finds of them.

While a session records, its calls are put at the end of a draft in memory, and an
outcome that comes later is put into the last call with its request id. Whatever is
done to a draft is also written out as a row: that it has begun, a call in the state
that it is in then, and that it was stopped. After a restart a draft is built from
its rows, the calls by their numbers, a later row of a number in place of an earlier
one.

## Main definitions

* `RecordingDraft`, `StoreState`: The recordings in memory.
* `start`, `captureFrame`, `stop`: What is done to them.
* `recordingSessionEvent`, `recoverRecording`: A row, and a draft out of rows.
* `Sys`, `step`: The store with the rows that it has written.
* `Inv`: How the two belong together.

## Theorems

* `recover_exec`: What a restart finds, after every run.
-/

namespace DccMcp

namespace Gateway

namespace Recordings

open Json Machine Text

/-! ## Recordings -/

/-- `MAX_RECORDING_EVENTS`. -/
def maxRecordingEvents : Nat := 500

structure StartRecording where
  sessionId : String
  dccType : String
  instanceId : Option String

structure CapturedToolCall where
  sequence : Nat
  toolSlug : String
  arguments : Value
  requestId : Option String
  success : Option Bool

structure RecordingDraft where
  recordingId : String
  sessionId : String
  dccType : String
  instanceId : Option String
  status : String
  startedAtMs : UInt64
  stoppedAtMs : Option UInt64
  events : List CapturedToolCall

inductive RecordingStoreError
  | invalidField (name : String)
  | alreadyRecording
  | notFound

structure StoreState where
  activeBySession : OrderedMap String String
  recordings : OrderedMap String RecordingDraft

/-- The parts of an `EventEnvelope` that are read. -/
structure EventEnvelope where
  correlation : Value
  attributes : Value

/-! ## Rows -/

def number (n : UInt64) : Value := .number (.posInt n)

/-- What serde makes of an option. -/
def optional (o : Option Value) : Value := o.getD .null

/-- A call as JSON. What it has not is left out. -/
def CapturedToolCall.toValue (call : CapturedToolCall) : Value :=
  .object ([("arguments", call.arguments)] ++
    (call.requestId.map (fun id => ("request_id", Value.string id))).toList ++
    [("sequence", number (.ofNat call.sequence))] ++
    (call.success.map (fun success => ("success", Value.bool success))).toList ++
    [("tool_slug", .string call.toolSlug)])

/-- A member that may be left out, or null. -/
def readOptional {α : Type} (read : Value → Option α) : Option Value → Option (Option α)
  | none => some none
  | some .null => some none
  | some v => (read v).map some

/-- `from_value`, of an object. -/
def CapturedToolCall.fromValue (v : Value) : Option CapturedToolCall :=
  match v with
  | .object members =>
    match (members.lookup "sequence").bind Value.asU64,
      (members.lookup "tool_slug").bind Value.asStr, members.lookup "arguments",
      readOptional Value.asStr (members.lookup "request_id"),
      readOptional Value.asBool (members.lookup "success") with
    | some sequence, some toolSlug, some arguments, some requestId, some success =>
      some ⟨sequence.toNat, toolSlug, arguments, requestId, success⟩
    | _, _, _, _, _ => none
  | _ => none

/-- `recording_session_event`, at a point in time. -/
def recordingSessionEvent (eventType : String) (draft : RecordingDraft) (payload : Option Value)
    (createdAtMs : UInt64) : Value :=
  .object [
    ("created_at_ms", number (min createdAtMs (.ofNat (2 ^ 63 - 1)))),
    ("dcc_type", .string draft.dccType),
    ("event_type", .string eventType),
    ("instance_id", optional (draft.instanceId.map .string)),
    ("payload", optional payload),
    ("recording_id", .string draft.recordingId),
    ("session_id", .string draft.sessionId),
    ("started_at_ms", number draft.startedAtMs),
    ("status", .string draft.status),
    ("stopped_at_ms", optional (draft.stoppedAtMs.map number))]

/-! ## The store -/

def isControl (c : Char) : Bool := c.toNat < 32 || (127 ≤ c.toNat && c.toNat < 160)

def validateLabel (value name : String) : Except RecordingStoreError Unit :=
  if trim value == "" || 256 < value.utf8ByteSize || value.toList.any isControl then
    .error (.invalidField name)
  else .ok ()

/-- `RecordReplayStore::start`, with the generated id. -/
def start (recordingId : String) (nowMs : UInt64) (request : StartRecording) (state : StoreState) :
    Except RecordingStoreError RecordingDraft × StoreState :=
  match validateLabel request.sessionId "session_id", validateLabel request.dccType "dcc_type" with
  | .error e, _ => (.error e, state)
  | .ok _, .error e => (.error e, state)
  | .ok _, .ok _ =>
    if (state.activeBySession.lookup request.sessionId).isSome then
      (.error .alreadyRecording, state)
    else
      let draft : RecordingDraft := {
        recordingId := recordingId
        sessionId := request.sessionId
        dccType := request.dccType
        instanceId := request.instanceId
        status := "recording"
        startedAtMs := nowMs
        stoppedAtMs := none
        events := [] }
      (.ok draft, {
        activeBySession := state.activeBySession.insert request.sessionId recordingId
        recordings := state.recordings.insert recordingId draft })

def stop (nowMs : UInt64) (sessionId recordingId : String) (state : StoreState) :
    Except RecordingStoreError RecordingDraft × StoreState :=
  if state.activeBySession.lookup sessionId ≠ some recordingId then (.error .notFound, state)
  else
    let activeBySession := state.activeBySession.erase sessionId
    match state.recordings.lookup recordingId with
    | none => (.error .notFound, { state with activeBySession := activeBySession })
    | some draft =>
      let draft := { draft with
        status := if maxRecordingEvents ≤ draft.events.length then "truncated" else "stopped"
        stoppedAtMs := some nowMs }
      (.ok draft, ⟨activeBySession, state.recordings.insert recordingId draft⟩)

def capturedCall (envelope : EventEnvelope) : Option (String × Value) :=
  if (envelope.attributes.get "direction").bind Value.asStr ≠ some "inbound" then none
  else
    ((envelope.attributes.get "body").bind (Value.get "data")).bind (fun body =>
      let payload := (body.get "params").getD body
      (payload.get "arguments").bind (fun arguments =>
        let nested := if (payload.get "name").bind Value.asStr = some "call" then arguments
          else payload
        ((nested.get "tool_slug").bind Value.asStr).map (fun toolSlug =>
          (toolSlug, (nested.get "arguments").getD (.object [])))))

def capturedOutcome (envelope : EventEnvelope) : Option (String × Bool) :=
  if (envelope.attributes.get "direction").bind Value.asStr ≠ some "outbound" then none
  else
    ((envelope.correlation.get "request_id").bind Value.asStr).bind (fun requestId =>
      ((envelope.attributes.get "body").bind (Value.get "data")).map (fun body =>
        let failed := (body.get "error").isSome ||
          (body.get "isError").bind Value.asBool == some true ||
          (body.get "success").bind Value.asBool == some false ||
          ((body.get "result").bind (Value.get "isError")).bind Value.asBool == some true
        (requestId, !failed)))

/-- The last call of a request gets its outcome. -/
def markLast (requestId : String) (success : Bool) :
    List CapturedToolCall → Option (CapturedToolCall × List CapturedToolCall)
  | [] => none
  | event :: rest =>
    match markLast requestId success rest with
    | some (updated, rest') => some (updated, event :: rest')
    | none =>
      if event.requestId = some requestId then
        some ({ event with success := some success },
          { event with success := some success } :: rest)
      else none

/-- What a frame does to the draft of its session, and the call that it is about. -/
def captureInto (envelope : EventEnvelope) (draft : RecordingDraft) :
    Option CapturedToolCall × RecordingDraft :=
  match capturedOutcome envelope with
  | some (requestId, success) =>
    match markLast requestId success draft.events with
    | some (event, events) => (some event, { draft with events := events })
    | none => (none, draft)
  | none =>
    match capturedCall envelope with
    | none => (none, draft)
    | some (toolSlug, arguments) =>
      if maxRecordingEvents ≤ draft.events.length then (none, { draft with status := "truncated" })
      else
        let event : CapturedToolCall := {
          sequence := draft.events.length + 1
          toolSlug := toolSlug
          arguments := arguments
          requestId := (envelope.correlation.get "request_id").bind Value.asStr
          success := none }
        (some event, { draft with events := draft.events ++ [event] })

/-- The session of a frame. -/
def sessionOf (envelope : EventEnvelope) : Option String :=
  ((envelope.attributes.get "session_id").bind Value.asStr).or
    ((envelope.correlation.get "session_id").bind Value.asStr)

def captureFrame (createdAtMs : UInt64) (envelope : EventEnvelope) (state : StoreState) :
    Option Value × StoreState :=
  match (sessionOf envelope).bind state.activeBySession.lookup with
  | none => (none, state)
  | some recordingId =>
    match state.recordings.lookup recordingId with
    | none => (none, state)
    | some draft =>
      let captured := captureInto envelope draft
      (captured.1.map (fun event =>
          recordingSessionEvent "recording.tool_call" captured.2 (some event.toValue) createdAtMs),
        { state with recordings := state.recordings.insert recordingId captured.2 })

/-! ## Recovery -/

/-- What has been read of a recording. -/
structure Recovery where
  draft : Option RecordingDraft
  calls : OrderedMap Nat CapturedToolCall
  terminal : Bool

def Recovery.init : Recovery := ⟨none, .empty Nat CapturedToolCall, false⟩

/-- `created_at_ms`, if it is there and not negative. -/
def createdAt (row : Value) : Option UInt64 :=
  match row.get "created_at_ms" with
  | some (.number (.posInt n)) => if n.toNat < 2 ^ 63 then some n else none
  | _ => none

/-- One row. Without a name for its session, or with an end before the beginning, nothing
    is recovered. -/
def recoverRow (recordingId : String) (nowMs : UInt64) (r : Recovery) (row : Value) :
    Option Recovery :=
  let eventType := (row.get "event_type").bind Value.asStr
  if (row.get "recording_id").bind Value.asStr ≠ some recordingId then some r
  else if eventType = some "recording.started" then
    match (row.get "session_id").bind Value.asStr, (row.get "dcc_type").bind Value.asStr with
    | some sessionId, some dccType => some { r with draft := some {
        recordingId := recordingId
        sessionId := sessionId
        dccType := dccType
        instanceId := (row.get "instance_id").bind Value.asStr
        status := "recording"
        startedAtMs :=
          ((row.get "started_at_ms").bind Value.asU64).getD ((createdAt row).getD nowMs)
        stoppedAtMs := none
        events := [] } }
    | _, _ => none
  else if eventType = some "recording.tool_call" then
    match (row.get "payload").bind CapturedToolCall.fromValue with
    | some event => some { r with calls := r.calls.insert event.sequence event }
    | none => some r
  else if eventType = some "recording.stopped" ∨ eventType = some "recording.interrupted" then
    r.draft.map (fun recovered => { r with
      draft := some { recovered with
        status := ((row.get "status").bind Value.asStr).getD "interrupted"
        stoppedAtMs := ((row.get "stopped_at_ms").bind Value.asU64).or (createdAt row) }
      terminal := true })
  else some r

/-- `recover_recording`, and whether the recording was interrupted. -/
def recoverRecording (recordingId : String) (nowMs : UInt64) (rows : List Value) :
    Option (RecordingDraft × Bool) :=
  (rows.foldlM (recoverRow recordingId nowMs) .init).bind (fun r =>
    r.draft.map (fun draft =>
      let draft := { draft with events := r.calls.values }
      if r.terminal then (draft, false)
      else ({ draft with status := "interrupted", stoppedAtMs := some nowMs }, true)))

/-! ## The store and its rows -/

structure Sys where
  store : StoreState
  rows : List Value

def Sys.init : Sys := ⟨⟨.empty String String, .empty String RecordingDraft⟩, []⟩

inductive Op
  | start (recordingId : String) (nowMs createdAtMs : UInt64) (request : StartRecording)
  | captureFrame (createdAtMs : UInt64) (envelope : EventEnvelope)
  | stop (nowMs createdAtMs : UInt64) (sessionId recordingId : String)

/-- The row of an operation on a whole recording, if it has succeeded. -/
def rowOf (eventType : String) (createdAtMs : UInt64) :
    Except RecordingStoreError RecordingDraft → List Value
  | .ok draft => [recordingSessionEvent eventType draft none createdAtMs]
  | .error _ => []

/-- A generated id is a new one. -/
def step (s : Sys) : Op → Option Sys
  | .start recordingId nowMs createdAtMs request =>
    if (s.store.recordings.lookup recordingId).isSome then none
    else
      let done := start recordingId nowMs request s.store
      some ⟨done.2, s.rows ++ rowOf "recording.started" createdAtMs done.1⟩
  | .captureFrame createdAtMs envelope =>
    let done := captureFrame createdAtMs envelope s.store
    some ⟨done.2, s.rows ++ done.1.toList⟩
  | .stop nowMs createdAtMs sessionId recordingId =>
    let done := stop nowMs sessionId recordingId s.store
    some ⟨done.2, s.rows ++ rowOf "recording.stopped" createdAtMs done.1⟩

/-! ## A call is read back -/

theorem fromValue_toValue (call : CapturedToolCall) (h : call.sequence < 2 ^ 64) :
    CapturedToolCall.fromValue call.toValue = some call := by
  have hsequence : (UInt64.ofNat call.sequence).toNat = call.sequence :=
    UInt64.toNat_ofNat_of_lt' h
  rcases call with ⟨sequence, toolSlug, arguments, requestId, success⟩
  cases requestId <;> cases success <;>
    exact congrArg (fun n => some (CapturedToolCall.mk n toolSlug arguments _ _)) hsequence

section Rows

variable (draft : RecordingDraft) (nowMs createdAtMs : UInt64) (r : Recovery)

/-- The row of another recording is passed over. -/
theorem recoverRow_other (recordingId eventType : String) (payload : Option Value)
    (h : draft.recordingId ≠ recordingId) :
    recoverRow recordingId nowMs r (recordingSessionEvent eventType draft payload createdAtMs) =
      some r := by
  unfold recoverRow
  have hid : ((recordingSessionEvent eventType draft payload createdAtMs).get
      "recording_id").bind Value.asStr = some draft.recordingId := rfl
  dsimp only
  rw [hid, if_pos (fun heq => h (Option.some.inj heq))]

theorem recoverRow_started :
    recoverRow draft.recordingId nowMs r
        (recordingSessionEvent "recording.started" draft none createdAtMs) =
      some { r with draft := some { draft with
        status := "recording", stoppedAtMs := none, events := [] } } := by
  have hinstance : (optional (draft.instanceId.map Value.string)).asStr = draft.instanceId := by
    cases draft.instanceId <;> rfl
  unfold recoverRow
  have hid : ((recordingSessionEvent "recording.started" draft none createdAtMs).get
      "recording_id").bind Value.asStr = some draft.recordingId := rfl
  have htype : ((recordingSessionEvent "recording.started" draft none createdAtMs).get
      "event_type").bind Value.asStr = some "recording.started" := rfl
  dsimp only
  rw [hid, htype, if_neg (not_not.mpr rfl), if_pos rfl]
  exact congrArg (fun i => some { r with draft := some { draft with
    instanceId := i, status := "recording", stoppedAtMs := none, events := [] } }) hinstance

theorem recoverRow_call (event : CapturedToolCall) (h : event.sequence < 2 ^ 64) :
    recoverRow draft.recordingId nowMs r
        (recordingSessionEvent "recording.tool_call" draft (some event.toValue) createdAtMs) =
      some { r with calls := r.calls.insert event.sequence event } := by
  unfold recoverRow
  have hid : ((recordingSessionEvent "recording.tool_call" draft (some event.toValue)
      createdAtMs).get "recording_id").bind Value.asStr = some draft.recordingId := rfl
  have htype : ((recordingSessionEvent "recording.tool_call" draft (some event.toValue)
      createdAtMs).get "event_type").bind Value.asStr = some "recording.tool_call" := rfl
  have hpayload : ((recordingSessionEvent "recording.tool_call" draft (some event.toValue)
      createdAtMs).get "payload").bind CapturedToolCall.fromValue = some event :=
    fromValue_toValue event h
  dsimp only
  rw [hid, htype, hpayload, if_neg (not_not.mpr rfl), if_neg (by decide), if_pos rfl]

theorem recoverRow_stopped (recovered : RecordingDraft) (stoppedAtMs : UInt64)
    (hstopped : draft.stoppedAtMs = some stoppedAtMs) (hrecovered : r.draft = some recovered) :
    recoverRow draft.recordingId nowMs r
        (recordingSessionEvent "recording.stopped" draft none createdAtMs) =
      some { r with
        draft := some { recovered with status := draft.status, stoppedAtMs := some stoppedAtMs }
        terminal := true } := by
  unfold recoverRow
  have hid : ((recordingSessionEvent "recording.stopped" draft none createdAtMs).get
      "recording_id").bind Value.asStr = some draft.recordingId := rfl
  have htype : ((recordingSessionEvent "recording.stopped" draft none createdAtMs).get
      "event_type").bind Value.asStr = some "recording.stopped" := rfl
  have hat : ((recordingSessionEvent "recording.stopped" draft none createdAtMs).get
      "stopped_at_ms").bind Value.asU64 = some stoppedAtMs := by
    show (optional (draft.stoppedAtMs.map number)).asU64 = _
    rw [hstopped]
    rfl
  dsimp only
  rw [hid, htype, hat, hrecovered, if_neg (not_not.mpr rfl), if_neg (by decide),
    if_neg (by decide), if_pos (.inl rfl)]
  rfl

end Rows

/-! ## The calls by their numbers -/

/-- The calls of a draft, each under its number. -/
def numbered (events : List CapturedToolCall) : List (Nat × CapturedToolCall) :=
  events.map (fun event => (event.sequence, event))

/-- No call has a greater number than there are calls, and there are not too many. -/
structure Bounded (events : List CapturedToolCall) : Prop where
  sequence_le : ∀ event ∈ events, event.sequence ≤ events.length
  length_le : events.length ≤ maxRecordingEvents

theorem insertIn_last (key : Nat) (event : CapturedToolCall)
    (entries : List (Nat × CapturedToolCall)) (h : ∀ entry ∈ entries, entry.1 < key) :
    OrderedMap.insertIn key event entries = entries ++ [(key, event)] := by
  induction entries with
  | nil => rfl
  | cons entry rest ih =>
      have hentry := h entry List.mem_cons_self
      unfold OrderedMap.insertIn
      rw [if_neg (by omega), if_neg (by omega),
        ih (fun entry' hmem => h entry' (List.mem_cons_of_mem _ hmem))]
      rfl

theorem markLast_sequence (requestId : String) (success : Bool)
    (events events' : List CapturedToolCall) (event : CapturedToolCall)
    (h : markLast requestId success events = some (event, events')) :
    event.sequence ∈ events.map (·.sequence) ∧
      events'.map (·.sequence) = events.map (·.sequence) := by
  induction events generalizing events' with
  | nil => cases h
  | cons first rest ih =>
      unfold markLast at h
      split at h
      next updated rest' hrest =>
        cases h
        rcases ih rest' hrest with ⟨hmem, hmap⟩
        exact ⟨List.mem_cons_of_mem _ hmem, congrArg (first.sequence :: ·) hmap⟩
      next =>
        split at h
        · cases h
          exact ⟨List.mem_cons_self, rfl⟩
        · cases h

/-- The row of a call with its outcome takes the place of the row without. -/
theorem insertIn_markLast (requestId : String) (success : Bool)
    (events events' : List CapturedToolCall) (event : CapturedToolCall)
    (h : markLast requestId success events = some (event, events'))
    (hsorted : (numbered events).Pairwise (fun a b => a.1 < b.1)) :
    OrderedMap.insertIn event.sequence event (numbered events) = numbered events' := by
  induction events generalizing events' with
  | nil => cases h
  | cons first rest ih =>
      have hcons : numbered (first :: rest) = (first.sequence, first) :: numbered rest := rfl
      rw [hcons, List.pairwise_cons] at hsorted
      rw [hcons]
      unfold markLast at h
      split at h
      next updated rest' hrest =>
        cases h
        -- The call is a later one, so its number is greater.
        have hmem := (markLast_sequence requestId success rest rest' event hrest).1
        rcases List.mem_map.mp hmem with ⟨old, hold, hsequence⟩
        have hlt : first.sequence < event.sequence := by
          rw [← hsequence]
          exact hsorted.1 (old.sequence, old) (List.mem_map.mpr ⟨old, hold, rfl⟩)
        unfold OrderedMap.insertIn
        rw [if_neg (by omega), if_neg (by omega), ih rest' hrest hsorted.2]
        rfl
      next =>
        split at h
        · cases h
          unfold OrderedMap.insertIn
          rw [if_neg (Nat.lt_irrefl _), if_pos rfl]
          rfl
        · cases h

/-- What a frame does to a draft, the row of the call does to the calls that are read. -/
theorem captureInto_spec (envelope : EventEnvelope) (draft : RecordingDraft)
    (hbounded : Bounded draft.events)
    (hsorted : (numbered draft.events).Pairwise (fun a b => a.1 < b.1)) :
    (captureInto envelope draft).2.recordingId = draft.recordingId ∧
    (captureInto envelope draft).2.stoppedAtMs = draft.stoppedAtMs ∧
    { (captureInto envelope draft).2 with status := draft.status, events := draft.events } = draft ∧
    Bounded (captureInto envelope draft).2.events ∧
    match (captureInto envelope draft).1 with
    | none => (captureInto envelope draft).2.events = draft.events
    | some event => event.sequence < 2 ^ 64 ∧
        OrderedMap.insertIn event.sequence event (numbered draft.events) =
          numbered (captureInto envelope draft).2.events := by
  unfold captureInto
  have hle : ∀ event ∈ draft.events, event.sequence < 2 ^ 64 := by
    intro event hmem
    have hsequence := hbounded.sequence_le event hmem
    have hlength := hbounded.length_le
    unfold maxRecordingEvents at hlength
    omega
  split
  next requestId success _ =>
    split
    next event events hmark =>
      rcases markLast_sequence requestId success _ _ _ hmark with ⟨hmem, hmap⟩
      have hlength : events.length = draft.events.length := by
        have h := congrArg List.length hmap
        rwa [List.length_map, List.length_map] at h
      rcases List.mem_map.mp hmem with ⟨old, hold, hsequence⟩
      refine ⟨rfl, rfl, rfl, ⟨fun event' hevent' => ?_, hlength ▸ hbounded.length_le⟩, ?_,
        insertIn_markLast requestId success _ _ _ hmark hsorted⟩
      · have hmem' : event'.sequence ∈ draft.events.map (·.sequence) :=
          hmap ▸ List.mem_map.mpr ⟨event', hevent', rfl⟩
        rcases List.mem_map.mp hmem' with ⟨old', hold', hsequence'⟩
        have hbound := hbounded.sequence_le old' hold'
        dsimp only
        omega
      · have hbound := hle old hold
        omega
    next => exact ⟨rfl, rfl, rfl, hbounded, rfl⟩
  next =>
    split
    next => exact ⟨rfl, rfl, rfl, hbounded, rfl⟩
    next toolSlug arguments _ =>
      split
      next => exact ⟨rfl, rfl, rfl, hbounded, rfl⟩
      next hroom =>
        unfold maxRecordingEvents at hroom
        refine ⟨rfl, rfl, rfl, ⟨fun event hmem => ?_, ?_⟩, ?_, ?_⟩
        · rw [List.length_append, List.length_singleton]
          rcases List.mem_append.mp hmem with hmem | hmem
          · have hbound := hbounded.sequence_le event hmem
            omega
          · rw [List.mem_singleton.mp hmem]
        · rw [List.length_append, List.length_singleton]
          unfold maxRecordingEvents
          omega
        · dsimp only
          omega
        · dsimp only
          rw [insertIn_last]
          · unfold numbered
            rw [List.map_append]
            rfl
          · intro entry hentry
            rcases List.mem_map.mp hentry with ⟨event, hmem, rfl⟩
            have hbound := hbounded.sequence_le event hmem
            dsimp only
            omega

/-! ## The store and its rows belong together -/

/-- A draft as its rows tell of it, without the calls. While it is not stopped, no row
    that counts has a status other than the first. -/
def begun (draft : RecordingDraft) : RecordingDraft :=
  { draft with
    status := if draft.stoppedAtMs.isSome then draft.status else "recording"
    events := [] }

/-- What has been read of a recording is what the store has of it. -/
def Reads : Option RecordingDraft → Recovery → Prop
  | none, r => r = .init
  | some draft, r => r.draft = some (begun draft) ∧ r.calls.entries = numbered draft.events ∧
      r.terminal = draft.stoppedAtMs.isSome

/-- The rows are those of the recordings. -/
def Recovers (rows : List Value) (recordings : OrderedMap String RecordingDraft) : Prop :=
  ∀ id nowMs, ∃ r, rows.foldlM (recoverRow id nowMs) .init = some r ∧
    Reads (recordings.lookup id) r

/-- A session records into a recording of its own that is not stopped. -/
structure Inv (s : Sys) : Prop where
  keyed : ∀ id draft, s.store.recordings.lookup id = some draft →
    draft.recordingId = id ∧ Bounded draft.events
  active : ∀ session id, s.store.activeBySession.lookup session = some id →
    ∃ draft, s.store.recordings.lookup id = some draft ∧ draft.sessionId = session ∧
      draft.stoppedAtMs = none
  recovers : Recovers s.rows s.store.recordings

/-- A draft is put into the store, and its row is written. -/
theorem recovers_put (rows : List Value) (recordings : OrderedMap String RecordingDraft)
    (draft : RecordingDraft) (row : Value)
    (hown : ∀ nowMs r, Reads (recordings.lookup draft.recordingId) r →
      ∃ r', recoverRow draft.recordingId nowMs r row = some r' ∧ Reads (some draft) r')
    (hother : ∀ id nowMs r, draft.recordingId ≠ id → recoverRow id nowMs r row = some r)
    (h : Recovers rows recordings) :
    Recovers (rows ++ [row]) (recordings.insert draft.recordingId draft) := by
  intro id nowMs
  rcases h id nowMs with ⟨r, hfold, hreads⟩
  have hstep : (rows ++ [row]).foldlM (recoverRow id nowMs) .init = recoverRow id nowMs r row := by
    rw [List.foldlM_append, hfold]
    show (recoverRow id nowMs r row).bind some = _
    cases recoverRow id nowMs r row <;> rfl
  rw [hstep]
  by_cases hid : id = draft.recordingId
  · subst hid
    rw [OrderedMap.lookup_insert]
    exact hown nowMs r hreads
  · rw [OrderedMap.lookup_insert_ne _ _ _ _ hid]
    exact ⟨r, hother id nowMs r (Ne.symm hid), hreads⟩

/-- A draft is put into the store without a row. -/
theorem recovers_silent (rows : List Value) (recordings : OrderedMap String RecordingDraft)
    (draft draft' : RecordingDraft) (hlookup : recordings.lookup draft'.recordingId = some draft)
    (hbegun : begun draft' = begun draft) (hevents : draft'.events = draft.events)
    (hstopped : draft'.stoppedAtMs = draft.stoppedAtMs) (h : Recovers rows recordings) :
    Recovers rows (recordings.insert draft'.recordingId draft') := by
  intro id nowMs
  rcases h id nowMs with ⟨r, hfold, hreads⟩
  refine ⟨r, hfold, ?_⟩
  by_cases hid : id = draft'.recordingId
  · subst hid
    rw [hlookup] at hreads
    rw [OrderedMap.lookup_insert]
    refine ⟨hreads.1.trans (congrArg some hbegun.symm), ?_, ?_⟩
    · rw [hevents]
      exact hreads.2.1
    · rw [hstopped]
      exact hreads.2.2
  · rw [OrderedMap.lookup_insert_ne _ _ _ _ hid]
    exact hreads

theorem keyed_insert (recordings : OrderedMap String RecordingDraft) (draft : RecordingDraft)
    (hbounded : Bounded draft.events)
    (h : ∀ id draft, recordings.lookup id = some draft →
      draft.recordingId = id ∧ Bounded draft.events)
    (id : String) (draft' : RecordingDraft)
    (hlookup : (recordings.insert draft.recordingId draft).lookup id = some draft') :
    draft'.recordingId = id ∧ Bounded draft'.events := by
  by_cases hid : id = draft.recordingId
  · subst hid
    rw [OrderedMap.lookup_insert, Option.some.injEq] at hlookup
    rw [← hlookup]
    exact ⟨rfl, hbounded⟩
  · rw [OrderedMap.lookup_insert_ne _ _ _ _ hid] at hlookup
    exact h id draft' hlookup

/-- A recording begins, or nothing happens. -/
theorem start_cases (recordingId : String) (nowMs : UInt64) (request : StartRecording)
    (state : StoreState) :
    (∃ e, start recordingId nowMs request state = (.error e, state)) ∨
      ∃ draft : RecordingDraft, draft.recordingId = recordingId ∧
        draft.sessionId = request.sessionId ∧ draft.status = "recording" ∧
        draft.stoppedAtMs = none ∧ draft.events = [] ∧
        start recordingId nowMs request state = (.ok draft,
          ⟨state.activeBySession.insert request.sessionId recordingId,
            state.recordings.insert recordingId draft⟩) := by
  unfold start
  split
  next => exact .inl ⟨_, rfl⟩
  next => exact .inl ⟨_, rfl⟩
  next =>
    split
    · exact .inl ⟨_, rfl⟩
    · exact .inr ⟨_, rfl, rfl, rfl, rfl, rfl, rfl⟩

theorem inv_start (s : Sys) (recordingId : String) (nowMs createdAtMs : UInt64)
    (request : StartRecording) (h : Inv s) (hnew : s.store.recordings.lookup recordingId = none) :
    Inv ⟨(start recordingId nowMs request s.store).2,
      s.rows ++ rowOf "recording.started" createdAtMs
        (start recordingId nowMs request s.store).1⟩ := by
  rcases start_cases recordingId nowMs request s.store with ⟨e, hfail⟩ |
    ⟨draft, hid, hsession, hstatus, hstopped, hevents, hdone⟩
  · rw [hfail]
    show Inv ⟨s.store, s.rows ++ []⟩
    rw [List.append_nil]
    exact h
  · rw [hdone]
    subst hid
    refine ⟨keyed_insert _ draft ?_ h.keyed, fun session id hactive => ?_, ?_⟩
    · rw [hevents]
      exact ⟨fun _ hmem => absurd hmem List.not_mem_nil, Nat.zero_le _⟩
    · by_cases hsame : session = request.sessionId
      · subst hsame
        rw [OrderedMap.lookup_insert, Option.some.injEq] at hactive
        subst hactive
        exact ⟨draft, OrderedMap.lookup_insert _ _ _, hsession, hstopped⟩
      · rw [OrderedMap.lookup_insert_ne _ _ _ _ hsame] at hactive
        rcases h.active session id hactive with ⟨old, hold, hrest⟩
        have hne : id ≠ draft.recordingId := by
          rintro rfl
          rw [hnew] at hold
          cases hold
        exact ⟨old, (OrderedMap.lookup_insert_ne _ _ _ _ hne).trans hold, hrest⟩
    · refine recovers_put _ _ draft _ (fun nowMs' r hreads => ?_)
        (fun id nowMs' r hne => recoverRow_other draft nowMs' createdAtMs r id _ _ hne) h.recovers
      rw [hnew] at hreads
      refine ⟨_, recoverRow_started draft nowMs' createdAtMs r, ?_, ?_, ?_⟩
      · unfold begun
        rw [hstopped]
        rfl
      · rw [hevents, hreads]
        rfl
      · rw [hstopped, hreads]
        rfl

theorem inv_stop (s : Sys) (nowMs createdAtMs : UInt64) (sessionId recordingId : String)
    (h : Inv s) :
    Inv ⟨(stop nowMs sessionId recordingId s.store).2,
      s.rows ++ rowOf "recording.stopped" createdAtMs
        (stop nowMs sessionId recordingId s.store).1⟩ := by
  unfold stop
  split
  next =>
    show Inv ⟨s.store, s.rows ++ []⟩
    rw [List.append_nil]
    exact h
  next howned =>
    rcases h.active sessionId recordingId (not_not.mp howned) with
      ⟨draft, hdraft, hsession, hrunning⟩
    rcases h.keyed recordingId draft hdraft with ⟨hid, hbounded⟩
    subst hid
    rw [hdraft]
    dsimp only
    refine ⟨keyed_insert _ { draft with
      status := if maxRecordingEvents ≤ draft.events.length then "truncated" else "stopped"
      stoppedAtMs := some nowMs } hbounded h.keyed, fun session id hactive => ?_, ?_⟩
    · rw [OrderedMap.lookup_erase] at hactive
      split at hactive
      · cases hactive
      next hother =>
        rcases h.active session id hactive with ⟨old, hold, holdSession, hrest⟩
        -- Another session does not record into the same recording.
        have hne : id ≠ draft.recordingId := by
          rintro rfl
          rw [hdraft, Option.some.injEq] at hold
          exact hother (holdSession.symm.trans (hold ▸ hsession))
        exact ⟨old, (OrderedMap.lookup_insert_ne _ _ _ _ hne).trans hold, holdSession, hrest⟩
    · refine recovers_put _ _ { draft with
        status := if maxRecordingEvents ≤ draft.events.length then "truncated" else "stopped"
        stoppedAtMs := some nowMs } _ (fun nowMs' r hreads => ?_)
        (fun id nowMs' r hne => recoverRow_other _ nowMs' createdAtMs r id _ _ hne) h.recovers
      dsimp only at hreads ⊢
      rw [hdraft] at hreads
      exact ⟨_, recoverRow_stopped _ nowMs' createdAtMs r _ nowMs rfl hreads.1, rfl,
        hreads.2.1, rfl⟩

theorem inv_captureFrame (s : Sys) (createdAtMs : UInt64) (envelope : EventEnvelope) (h : Inv s) :
    Inv ⟨(captureFrame createdAtMs envelope s.store).2,
      s.rows ++ (captureFrame createdAtMs envelope s.store).1.toList⟩ := by
  have hsame : Inv ⟨s.store, s.rows ++ []⟩ := by
    rw [List.append_nil]
    exact h
  unfold captureFrame
  split
  next => exact hsame
  next recordingId hactive =>
    rw [Option.bind_eq_some_iff] at hactive
    rcases hactive with ⟨sessionId, _, hactive⟩
    rcases h.active sessionId recordingId hactive with ⟨draft, hdraft, hsession, hrunning⟩
    rcases h.keyed recordingId draft hdraft with ⟨hid, hbounded⟩
    subst hid
    rw [hdraft]
    dsimp only
    have hsorted : (numbered draft.events).Pairwise (fun a b => a.1 < b.1) := by
      rcases h.recovers draft.recordingId 0 with ⟨r, _, hreads⟩
      rw [hdraft] at hreads
      rw [← hreads.2.1]
      exact r.calls.sorted
    rcases captureInto_spec envelope draft hbounded hsorted with
      ⟨hid', hstopped, hframe, hbounded', hcaptured⟩
    generalize captureInto envelope draft = captured at *
    have hbegun : begun captured.2 = begun draft := by
      unfold begun
      rw [hstopped, hrunning]
      rw [← hframe]
      rfl
    rw [← hid']
    refine ⟨keyed_insert _ captured.2 hbounded' h.keyed, fun session id hactive' => ?_, ?_⟩
    · rcases h.active session id hactive' with ⟨old, hold, holdSession, hrest⟩
      by_cases hown : id = captured.2.recordingId
      · subst hown
        rw [hid', hdraft, Option.some.injEq] at hold
        refine ⟨captured.2, OrderedMap.lookup_insert _ _ _, ?_, hstopped.trans hrunning⟩
        rw [← holdSession, ← hold, ← hframe]
      · exact ⟨old, (OrderedMap.lookup_insert_ne _ _ _ _ hown).trans hold, holdSession, hrest⟩
    · cases hevent : captured.1 with
      | none =>
          rw [hevent] at hcaptured
          show Recovers (s.rows ++ []) _
          rw [List.append_nil]
          exact recovers_silent _ _ draft captured.2 (by rw [hid']; exact hdraft) hbegun hcaptured
            hstopped h.recovers
      | some event =>
          rw [hevent] at hcaptured
          refine recovers_put _ _ captured.2 _ (fun nowMs' r hreads => ?_)
            (fun id nowMs' r hne => recoverRow_other _ nowMs' createdAtMs r id _ _ hne) h.recovers
          rw [hid', hdraft] at hreads
          refine ⟨_, recoverRow_call _ nowMs' createdAtMs r event hcaptured.1, ?_, ?_, ?_⟩
          · rw [hbegun]
            exact hreads.1
          · show OrderedMap.insertIn event.sequence event r.calls.entries = _
            rw [hreads.2.1]
            exact hcaptured.2
          · rw [hstopped]
            exact hreads.2.2

theorem inv_init : Inv .init where
  keyed _ _ h := by cases h
  active _ _ h := by cases h
  recovers _ _ := ⟨.init, rfl, rfl⟩

/-- What every operation keeps. -/
theorem inv_step (s t : Sys) (op : Op) (h : Inv s) (hstep : step s op = some t) : Inv t := by
  cases op with
  | start recordingId nowMs createdAtMs request =>
      dsimp only [step] at hstep
      split at hstep
      · cases hstep
      next hnew =>
        rw [Option.not_isSome_iff_eq_none] at hnew
        rw [← Option.some.inj hstep]
        exact inv_start s recordingId nowMs createdAtMs request h hnew
  | captureFrame createdAtMs envelope =>
      rw [← Option.some.inj hstep]
      exact inv_captureFrame s createdAtMs envelope h
  | stop nowMs createdAtMs sessionId recordingId =>
      rw [← Option.some.inj hstep]
      exact inv_stop s nowMs createdAtMs sessionId recordingId h

/-- After every run, the rows give back each recording that is stopped, and each other one
    as one that was interrupted when it is read. -/
theorem recover_exec (ops : List Op) (s : Sys) (hrun : exec step .init ops = some s)
    (id : String) (draft : RecordingDraft) (hdraft : s.store.recordings.lookup id = some draft)
    (nowMs : UInt64) :
    recoverRecording id nowMs s.rows =
      if draft.stoppedAtMs.isSome then some (draft, false)
      else some ({ draft with status := "interrupted", stoppedAtMs := some nowMs }, true) := by
  have hinv := exec_invariant step Inv (fun s op t hs hstep => inv_step s t op hs hstep) .init s ops
    inv_init hrun
  rcases hinv.recovers id nowMs with ⟨r, hfold, hreads⟩
  rw [hdraft] at hreads
  have hvalues : r.calls.values = draft.events := by
    unfold OrderedMap.values
    rw [hreads.2.1]
    unfold numbered
    rw [List.map_map]
    exact List.map_id _
  unfold recoverRecording
  rw [hfold, Option.bind_some, hreads.1, Option.map_some, hvalues, hreads.2.2]
  rcases draft with ⟨recordingId, sessionId, dccType, instanceId, status, startedAtMs, stoppedAtMs,
    events⟩
  cases stoppedAtMs <;> rfl

/-- A call, its outcome, and the end, while another session records too. -/
def demonstration : List Op :=
  [.start "r1" 10 11 ⟨"ann", "maya", none⟩,
    .start "r2" 12 13 ⟨"bob", "blender", some "b-1"⟩,
    .captureFrame 14 ⟨.object [("request_id", .string "7")],
      .object [("session_id", .string "ann"), ("direction", .string "inbound"),
        ("body", .object [("data", .object [("tool_slug", .string "save"),
          ("arguments", .object [])])])]⟩,
    .captureFrame 15 ⟨.object [("request_id", .string "7")],
      .object [("session_id", .string "ann"), ("direction", .string "outbound"),
        ("body", .object [("data", .object [])])]⟩,
    .stop 16 17 "ann" "r1"]

theorem recover_exec_demonstration :
    ∃ s, exec step .init demonstration = some s ∧
      recoverRecording "r1" 20 s.rows = some (⟨"r1", "ann", "maya", none, "stopped", 10, some 16,
        [⟨1, "save", .object [], some "7", some true⟩]⟩, false) ∧
      recoverRecording "r2" 20 s.rows =
        some (⟨"r2", "bob", "blender", some "b-1", "interrupted", 12, some 20, []⟩, true) := by
  refine ⟨_, rfl, ?_, ?_⟩
  · exact recover_exec demonstration _ rfl "r1" ⟨"r1", "ann", "maya", none, "stopped", 10, some 16,
      [⟨1, "save", .object [], some "7", some true⟩]⟩ rfl 20
  · exact recover_exec demonstration _ rfl "r2"
      ⟨"r2", "bob", "blender", some "b-1", "recording", 12, none, []⟩ rfl 20

end Recordings

end Gateway

end DccMcp
