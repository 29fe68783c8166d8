import DccMcp.Lib.MessagePack
import DccMcp.Tunnel.Codec

/-!
# What Frontends Put on a Tunnel

Whether one client can end a tunnel that others use.

All sessions of a tunnel share one queue toward the agent, and one task that
encodes the frames and writes them. A frame above the size limit is an error
there, and the task ends with it. So every frontend has to keep its frames
below the limit. The payload of a frame is written as an array of numbers,
which takes up to two bytes for each byte of it.

The TCP frontend reads into a buffer of 32 KiB and is far below the limit,
whatever its client sends. The WebSocket frontend makes one frame out of every
message, and the HTTP frontend one out of every request, however long they
are. `frames_fit_iff` says what they have to be asked for.

## Main definitions

* `Frame.toMessagePack`, `MsgPack.Encodes`: Frames as the serializer writes
  them.
* `tcpReads`, `wsPayloads`, `buildHttpRequest`: What the frontends read.
* `Client`, `Client.frames`: The frames a client makes its frontend queue.
* `drain`: The task that writes to the agent.
* `dataSize`, `Client.Small`: The size of a frame, and clients within it.

## Theorems

* `frames_fit_iff`: A client is harmless exactly if its messages are small.
* `webSocket_message_ends_tunnel`: One message of 8 MiB is not.
-/

namespace DccMcp

namespace Tunnel

open Bytes
open MessagePack (Value uintBytes arrayHeader strBytes ofBytes)

/-! ## Frames as they are written -/

/-- The name of a reason on the wire. -/
def CloseReason.name : CloseReason → String
  | .clientGone => "client_gone"
  | .backendGone => "backend_gone"
  | .idleTimeout => "idle_timeout"
  | .tunnelClosing => "tunnel_closing"
  | .error => "error"

/-- The name of an error code on the wire. -/
def ErrorCode.name : ErrorCode → String
  | .authFailed => "auth_failed"
  | .protocolMismatch => "protocol_mismatch"
  | .dccNotAllowed => "dcc_not_allowed"
  | .frameTooLarge => "frame_too_large"
  | .unknownSession => "unknown_session"
  | .internal => "internal"

/-- An optional text, written as nil if it is not there. -/
def optionalText : Option String → Value
  | none => .nil
  | some s => .str s

/-- An optional field, left out if it is not there. -/
def optionalField (key : String) : Option String → List (String × Value)
  | none => []
  | some s => [(key, .str s)]

/-- A frame as a map with the tag of its variant first. -/
def Frame.toMessagePack : Frame → Value
  | .register req => .map ([("t", .str "register"),
      ("protocol_version", .uint req.protocolVersion.toNat), ("token", .str req.token),
      ("dcc", .str req.dcc), ("capabilities", .array (req.capabilities.map .str)),
      ("agent_version", .str req.agentVersion)] ++
      optionalField "instance_id" req.instanceId ++
      optionalField "capabilities_fingerprint" req.capabilitiesFingerprint ++
      optionalField "adapter_version" req.adapterVersion ++ optionalField "scene" req.scene)
  | .registerAck ack => .map [("t", .str "register_ack"), ("ok", .bool ack.ok),
      ("tunnel_id", optionalText ack.tunnelId), ("public_url", optionalText ack.publicUrl),
      ("error_code", optionalText (ack.errorCode.map ErrorCode.name)),
      ("message", optionalText ack.message)]
  | .heartbeat => .map [("t", .str "heartbeat")]
  | .openSession sessionId clientInfo => .map [("t", .str "open_session"),
      ("session_id", .uint sessionId.toNat), ("client_info", optionalText clientInfo)]
  | .closeSession sessionId reason => .map [("t", .str "close_session"),
      ("session_id", .uint sessionId.toNat), ("reason", .str reason.name)]
  | .data sessionId payload => .map [("t", .str "data"),
      ("session_id", .uint sessionId.toNat), ("payload", ofBytes payload)]
  | .error sessionId code message => .map [("t", .str "error"),
      ("session_id", match sessionId with
        | none => .nil
        | some id => .uint id.toNat),
      ("code", .str code.name), ("message", .str message)]

/-- The serializer writes a frame as the map of its fields. -/
def MsgPack.Encodes (m : MsgPack) : Prop :=
  ∀ frame, m.toVecNamed frame = .ok (MessagePack.encode frame.toMessagePack)

/-! ## Frontends -/

/-- `READ_CHUNK`. -/
def readChunk : Nat := 32 * 1024

/-- The read loop of `handle_frontend`: what each `read` returns, where
    `available` says how much has arrived when it is called. -/
def tcpReads : Bytes → List Nat → List Bytes
  | _, [] => []
  | input, available :: rest =>
    let n := min (min available readChunk) input.length
    if n = 0 then [] else input.take n :: tcpReads (input.drop n) rest

/-- What a WebSocket delivers. -/
inductive WsMessage
  | binary (payload : Bytes)
  | text (text : String)
  | close
  | control
  | failed

/-- The read loop of `serve_socket`: the payloads up to the end. -/
def wsPayloads : List WsMessage → List Bytes
  | [] => []
  | .binary payload :: rest => payload :: wsPayloads rest
  | .text _ :: rest => wsPayloads rest
  | .control :: rest => wsPayloads rest
  | .close :: _ => []
  | .failed :: _ => []

/-- An HTTP request, with header values as they were received. -/
structure HttpRequest where
  method : String
  pathAndQuery : String
  headers : List (String × Bytes)
  body : Bytes

def upstreamPathFromUri (tunnelId raw : String) : String :=
  match stripPrefix ("/tunnel/" ++ tunnelId).toList raw.toList with
  | some [] => "/"
  | some rest => .ofList rest
  | none => raw

def forwardRequestHeader (name : String) : Bool :=
  name ∉ ["host", "content-length", "connection", "transfer-encoding", "upgrade",
    "sec-websocket-key", "sec-websocket-version", "sec-websocket-protocol",
    "sec-websocket-extensions"]

/-- `HeaderValue::to_str`: visible ASCII, and tabs. -/
def isText (value : Bytes) : Bool := value.all (fun b => (32 ≤ b && b < 127) || b == 9)

/-- The header lines that are forwarded, or the name of one that is no text. -/
def headerLines : List (String × Bytes) → Except String Bytes
  | [] => .ok []
  | (name, value) :: rest =>
    if !forwardRequestHeader (Text.toAsciiLowercase name) then headerLines rest
    else if !isText value then
      .error ("request header " ++ name ++ " was not valid text: failed to convert header to a str")
    else do
      let lines ← headerLines rest
      return Text.utf8 name ++ ascii ": " ++ value ++ ascii "\r\n" ++ lines

def buildHttpRequest (tunnelId : String) (req : HttpRequest) : Except String Bytes := do
  let lines ← headerLines req.headers
  return Text.utf8 req.method ++ ascii " " ++
    Text.utf8 (upstreamPathFromUri tunnelId req.pathAndQuery) ++ ascii " HTTP/1.1\r\n" ++
    ascii "Host: dcc-mcp-tunnel-backend\r\n" ++ ascii "Connection: close\r\n" ++
    ascii ("Content-Length: " ++ toString req.body.length ++ "\r\n") ++ lines ++ ascii "\r\n" ++
    req.body

/-- What a client does at one of the frontends. -/
inductive Client
  | tcp (input : Bytes) (available : List Nat)
  | webSocket (messages : List WsMessage)
  | http (request : HttpRequest)

/-- The payloads of a client that become frames. -/
def Client.payloads (tunnelId : String) : Client → List Bytes
  | .tcp input available => tcpReads input available
  | .webSocket messages => wsPayloads messages
  | .http request =>
    match buildHttpRequest tunnelId request with
    | .error _ => []
    | .ok bytes => [bytes]

/-- The frames that say that a client is gone. Both tasks of a frontend send
    one. An HTTP request has one at its end and one when its answer is dropped,
    and a request that cannot be forwarded has none. -/
def Client.closings (tunnelId : String) (sessionId : SessionId) : Client → List Frame
  | .http request =>
    match buildHttpRequest tunnelId request with
    | .error _ => []
    | .ok _ => [.closeSession sessionId .clientGone, .closeSession sessionId .clientGone]
  | _ => [.closeSession sessionId .clientGone, .closeSession sessionId .clientGone]

/-- The frames that the frontend of a client queues. -/
def Client.frames (tunnelId : String) (sessionId : SessionId) (client : Client) : List Frame :=
  .openSession sessionId none :: (client.payloads tunnelId).map (.data sessionId) ++
    client.closings tunnelId sessionId

/-- The task that writes to the agent, on a socket that takes everything: what
    it has written, and the error it has ended with. -/
def drain (m : MsgPack) : List Frame → List Bytes × Option ProtocolError
  | [] => ([], none)
  | frame :: rest =>
    match encode m frame with
    | .error e => ([], some e)
    | .ok bytes => (bytes :: (drain m rest).1, (drain m rest).2)

/-! ## The limit -/

/-- The size of a frame with a payload: 27 bytes of names and markers, the
    session id, the marker of the payload, and one or two bytes for each byte
    of it. -/
def dataSize (sessionId : SessionId) (payload : Bytes) : Nat :=
  27 +
    (if sessionId.toNat < 2 ^ 7 then 1 else if sessionId.toNat < 2 ^ 8 then 2
      else if sessionId.toNat < 2 ^ 16 then 3 else 5) +
    (if payload.length < 16 then 1 else if payload.length < 2 ^ 16 then 3 else 5) +
    payload.length + payload.countP (128 ≤ ·)

/-- Every WebSocket message and every HTTP request is within the limit. -/
def Client.Small (tunnelId : String) (sessionId : SessionId) : Client → Prop
  | .tcp _ _ => True
  | .webSocket messages => ∀ payload ∈ wsPayloads messages, dataSize sessionId payload ≤ maxFrameBytes
  | .http request => ∀ bytes, buildHttpRequest tunnelId request = .ok bytes →
      dataSize sessionId bytes ≤ maxFrameBytes

/-- A frame can be written exactly if its body is within the limit. -/
theorem encode_isOk_iff (m : MsgPack) (hm : m.Encodes) (frame : Frame) :
    (∃ bytes, encode m frame = .ok bytes) ↔
      (MessagePack.encode frame.toMessagePack).length ≤ maxFrameBytes := by
  unfold encode
  rw [hm frame]
  dsimp only
  have hmax : maxFrameBytes < 2 ^ 32 := by decide
  constructor
  · rintro ⟨bytes, h⟩
    split at h
    · simp at h
    · split at h
      · simp at h
      · omega
  · intro h
    rw [if_neg (by omega), if_neg (by omega)]
    exact ⟨_, rfl⟩

/-- The body of a frame with a payload. -/
theorem length_data (sessionId : SessionId) (payload : Bytes) :
    (MessagePack.encode (Frame.data sessionId payload).toMessagePack).length =
      dataSize sessionId payload := by
  have hid := MessagePack.length_uintBytes sessionId.toNat sessionId.toNat_lt
  have hheader := MessagePack.length_arrayHeader payload.length
  have hpayload := MessagePack.length_encode_bytes payload
  -- The names and the tag are texts of fixed lengths.
  have hnames : (strBytes "t").length = 2 ∧ (strBytes "data").length = 5 ∧
      (strBytes "session_id").length = 11 ∧ (strBytes "payload").length = 8 := by decide
  simp only [Frame.toMessagePack, MessagePack.encode, MessagePack.encodeEntries,
    List.length_append, List.length_cons, List.length_nil, hnames, hid, hpayload, hheader, dataSize]
  simp only [MessagePack.mapHeader, List.length_cons, List.length_nil, Nat.reduceAdd,
    Nat.reduceLT, if_true]
  omega

/-- The other frames of a frontend are short. -/
theorem length_control (sessionId : SessionId) :
    (MessagePack.encode (Frame.openSession sessionId none).toMessagePack).length ≤ maxFrameBytes ∧
      (MessagePack.encode (Frame.closeSession sessionId .clientGone).toMessagePack).length ≤
        maxFrameBytes := by
  have hid := MessagePack.length_uintBytes sessionId.toNat sessionId.toNat_lt
  have hshort : (uintBytes sessionId.toNat).length ≤ 5 := by
    rw [hid]
    repeat' split
    all_goals omega
  have hnames : (strBytes "t").length = 2 ∧ (strBytes "open_session").length = 13 ∧
      (strBytes "close_session").length = 14 ∧ (strBytes "session_id").length = 11 ∧
      (strBytes "client_info").length = 12 ∧ (strBytes "reason").length = 7 ∧
      (strBytes "client_gone").length = 12 := by decide
  simp only [Frame.toMessagePack, optionalText, CloseReason.name, MessagePack.encode,
    MessagePack.encodeEntries, List.length_append, List.length_cons, List.length_nil, hnames]
  simp only [MessagePack.mapHeader, List.length_cons, List.length_nil, Nat.reduceAdd,
    Nat.reduceLT, if_true, maxFrameBytes]
  omega

/-- What the TCP frontend reads at once fits into its buffer. -/
theorem length_tcpReads (available : List Nat) (input payload : Bytes)
    (h : payload ∈ tcpReads input available) : payload.length ≤ readChunk := by
  induction available generalizing input with
  | nil => exact absurd h List.not_mem_nil
  | cons n rest ih =>
      simp only [tcpReads] at h
      split at h
      · exact absurd h List.not_mem_nil
      · rcases List.mem_cons.mp h with rfl | hrest
        · rw [List.length_take]
          omega
        · exact ih _ hrest

/-- Whatever the session, a read of the TCP frontend is far below the limit. -/
theorem dataSize_of_short (sessionId : SessionId) (payload : Bytes)
    (h : payload.length ≤ readChunk) : dataSize sessionId payload ≤ maxFrameBytes := by
  have hcount : payload.countP (128 ≤ ·) ≤ payload.length := List.countP_le_length
  have hsid : (if sessionId.toNat < 2 ^ 7 then 1 else if sessionId.toNat < 2 ^ 8 then 2
      else if sessionId.toNat < 2 ^ 16 then 3 else 5) ≤ 5 := by
    repeat' split
    all_goals omega
  have hmarker : (if payload.length < 16 then 1 else if payload.length < 2 ^ 16 then 3 else 5) ≤ 5 := by
    repeat' split
    all_goals omega
  unfold dataSize
  unfold readChunk at h
  unfold maxFrameBytes
  omega

/-- A client is small exactly if the frames of its payloads are. -/
theorem small_iff (tunnelId : String) (sessionId : SessionId) (client : Client) :
    client.Small tunnelId sessionId ↔
      ∀ payload ∈ client.payloads tunnelId, dataSize sessionId payload ≤ maxFrameBytes := by
  cases client with
  | tcp input available =>
      refine iff_of_true trivial (fun payload h => ?_)
      exact dataSize_of_short sessionId payload (length_tcpReads available input payload h)
  | webSocket messages => exact Iff.rfl
  | http request =>
      simp only [Client.Small, Client.payloads]
      cases buildHttpRequest tunnelId request with
      | error e => simp only [reduceCtorEq, false_implies, implies_true, List.not_mem_nil]
      | ok bytes =>
          simp [forall_eq']

theorem mem_closings (tunnelId : String) (sessionId : SessionId) (client : Client) (frame : Frame)
    (h : frame ∈ client.closings tunnelId sessionId) :
    frame = .closeSession sessionId .clientGone := by
  unfold Client.closings at h
  split at h
  · split at h
    · exact absurd h List.not_mem_nil
    · simpa only [List.mem_cons, List.not_mem_nil, or_false, or_self] using h
  · simpa only [List.mem_cons, List.not_mem_nil, or_false, or_self] using h

/-- The frames of a client can all be written exactly if it is small. -/
theorem frames_isOk_iff (m : MsgPack) (hm : m.Encodes) (tunnelId : String)
    (sessionId : SessionId) (client : Client) :
    (∀ frame ∈ client.frames tunnelId sessionId, ∃ bytes, encode m frame = .ok bytes) ↔
      client.Small tunnelId sessionId := by
  rw [small_iff]
  constructor
  · intro h payload hpayload
    rw [← length_data]
    refine (encode_isOk_iff m hm _).mp (h _ ?_)
    exact List.mem_append_left _ (List.mem_cons_of_mem _ (List.mem_map_of_mem hpayload))
  · intro h frame hframe
    rw [encode_isOk_iff m hm]
    have hcontrol := length_control sessionId
    rcases List.mem_append.mp hframe with hframe | hframe
    · rcases List.mem_cons.mp hframe with rfl | hframe
      · exact hcontrol.1
      · rcases List.mem_map.mp hframe with ⟨payload, hpayload, rfl⟩
        rw [length_data]
        exact h payload hpayload
    · rw [mem_closings tunnelId sessionId client frame hframe]
      exact hcontrol.2

/-- A queue of frames that can be written is written to its end. -/
theorem drain_of_isOk (m : MsgPack) (queue : List Frame)
    (h : ∀ frame ∈ queue, ∃ bytes, encode m frame = .ok bytes) :
    (drain m queue).2 = none ∧ (drain m queue).1.length = queue.length := by
  induction queue with
  | nil => exact ⟨rfl, rfl⟩
  | cons frame rest ih =>
      rcases h frame List.mem_cons_self with ⟨bytes, hbytes⟩
      rcases ih (fun f hf => h f (List.mem_cons_of_mem frame hf)) with ⟨hnone, hlength⟩
      simp only [drain, hbytes]
      exact ⟨hnone, by rw [List.length_cons, hlength, List.length_cons]⟩

/-- For every client of every frontend: all frames it makes the frontend queue
    can be written, and whatever else is on the queue the task that writes to
    the agent gets to its end, exactly if its messages are small. -/
theorem frames_fit_iff (m : MsgPack) (hm : m.Encodes) (tunnelId : String)
    (sessionId : SessionId) (client : Client) :
    ((∀ frame ∈ client.frames tunnelId sessionId, ∃ bytes, encode m frame = .ok bytes) ∧
        ∀ queue : List Frame, (∀ frame ∈ queue, frame ∈ client.frames tunnelId sessionId ∨
          ∃ bytes, encode m frame = .ok bytes) →
          (drain m queue).2 = none ∧ (drain m queue).1.length = queue.length) ↔
      client.Small tunnelId sessionId := by
  constructor
  · intro h
    exact (frames_isOk_iff m hm tunnelId sessionId client).mp h.1
  · intro h
    have hframes := (frames_isOk_iff m hm tunnelId sessionId client).mpr h
    refine ⟨hframes, fun queue hqueue => drain_of_isOk m queue (fun frame hframe => ?_)⟩
    exact (hqueue frame hframe).elim (hframes frame) id

/-- A serializer that writes frames as maps. -/
def mapSerializer : MsgPack where
  toVecNamed frame := .ok (MessagePack.encode frame.toMessagePack)
  fromSlice _ := .error "not read"

theorem mapSerializer_encodes : mapSerializer.Encodes := fun _ => rfl

/-- A client with one short message is harmless. -/
theorem frames_fit_iff_greeting :
    (∀ frame ∈ (Client.webSocket [.binary (ascii "hello"), .close]).frames "t" 1,
        ∃ bytes, encode mapSerializer frame = .ok bytes) ∧
      (Client.webSocket [.binary (ascii "hello"), .close]).Small "t" 1 := by
  have hsmall : (Client.webSocket [.binary (ascii "hello"), .close]).Small "t" 1 := by
    intro payload hpayload
    rw [List.mem_singleton.mp hpayload]
    decide
  have h := frames_fit_iff mapSerializer mapSerializer_encodes "t" 1
    (.webSocket [.binary (ascii "hello"), .close])
  exact ⟨(h.mpr hsmall).1, hsmall⟩

/-- A message as long as the limit is too long. -/
theorem not_small_of_long (tunnelId : String) (sessionId : SessionId) (payload : Bytes)
    (hlong : maxFrameBytes ≤ payload.length) :
    ¬ (Client.webSocket [.binary payload]).Small tunnelId sessionId := by
  intro hsmall
  have hsize := hsmall payload List.mem_cons_self
  unfold dataSize at hsize
  omega

/-- Not every client is harmless: one WebSocket message of 8 MiB makes a frame
    that cannot be written. -/
theorem webSocket_message_ends_tunnel :
    ¬ ∀ (m : MsgPack), m.Encodes → ∀ (tunnelId : String) (sessionId : SessionId) (client : Client),
      (∀ frame ∈ client.frames tunnelId sessionId, ∃ bytes, encode m frame = .ok bytes) ∧
        ∀ queue : List Frame, (∀ frame ∈ queue, frame ∈ client.frames tunnelId sessionId ∨
          ∃ bytes, encode m frame = .ok bytes) →
          (drain m queue).2 = none ∧ (drain m queue).1.length = queue.length := by
  intro h
  have hfit := (h mapSerializer mapSerializer_encodes "t" 1
    (.webSocket [.binary (List.replicate maxFrameBytes 0)])).1
  have hsmall := (frames_isOk_iff mapSerializer mapSerializer_encodes _ _ _).mp hfit
  exact not_small_of_long "t" 1 _ (Nat.le_of_eq List.length_replicate.symm) hsmall

end Tunnel

end DccMcp
