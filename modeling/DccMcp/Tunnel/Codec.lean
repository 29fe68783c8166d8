import DccMcp.Lib.Bytes
import DccMcp.Lib.Framing
import Mathlib.Data.List.Forall2

/-!
# The Tunnel Frame Codec

The frames that a tunnel agent and the relay exchange, and the length prefix
they travel under: four bytes, big-endian, that count the body and not
themselves. The body is MessagePack, written and read by a serializer that is
not part of this repository; it is a parameter here, and all that is asked of
it is that it reads back what it wrote.

The prefix is what makes the stream decodable at every cut. A buffer with
fewer than four bytes asks for four, a buffer with a whole prefix knows how
long its frame is, and both answers are `Incomplete`, which the streaming
decoder turns into "not yet". An encoder never writes a prefix above the
limit, so the decoder's guard against long prefixes never fires on it.

## Main definitions

* `Frame`: The frames of the protocol.
* `MsgPack`, `MsgPack.RoundTrips`: The body codec.
* `encode`, `decode`: One frame.
* `Decoder`: The streaming decoder, and `Decoder.run`, a schedule of it.

## Theorems

* `decoder_yields_frames`: However the bytes arrive, the frames come out.
-/

namespace DccMcp

namespace Tunnel

open Framing (Call Parser IsWord NoError fed yielded)

abbrev TunnelId := String

abbrev SessionId := UInt32

/-- Why a session was torn down. -/
inductive CloseReason
  | clientGone
  | backendGone
  | idleTimeout
  | tunnelClosing
  | error
  deriving DecidableEq

/-- Recoverable error codes. -/
inductive ErrorCode
  | authFailed
  | protocolMismatch
  | dccNotAllowed
  | frameTooLarge
  | unknownSession
  | internal
  deriving DecidableEq

/-- Initial frame an agent sends to advertise itself. -/
structure RegisterRequest where
  protocolVersion : UInt16
  token : String
  dcc : String
  capabilities : List String
  agentVersion : String
  instanceId : Option String
  capabilitiesFingerprint : Option String
  adapterVersion : Option String
  scene : Option String
  deriving DecidableEq

/-- Relay's reply to a registration. -/
structure RegisterAck where
  ok : Bool
  tunnelId : Option TunnelId
  publicUrl : Option String
  errorCode : Option ErrorCode
  message : Option String
  deriving DecidableEq

/-- All frames carried between agent and relay. -/
inductive Frame
  | register (request : RegisterRequest)
  | registerAck (ack : RegisterAck)
  | heartbeat
  | openSession (sessionId : SessionId) (clientInfo : Option String)
  | closeSession (sessionId : SessionId) (reason : CloseReason)
  | data (sessionId : SessionId) (payload : Bytes)
  | error (sessionId : Option SessionId) (code : ErrorCode) (message : String)
  deriving DecidableEq

/-- Errors of the codec. -/
inductive ProtocolError
  | decode (message : String)
  | encode (message : String)
  | frameTooLarge (length max : Nat)
  | incomplete (needed available : Nat)
  deriving DecidableEq

/-- The serializer of frame bodies: `rmp_serde::to_vec_named` and
    `rmp_serde::from_slice`. -/
structure MsgPack where
  toVecNamed : Frame → Except String Bytes
  fromSlice : Bytes → Except String Frame

/-- The serializer reads back what it wrote. -/
def MsgPack.RoundTrips (m : MsgPack) : Prop :=
  ∀ frame body, m.toVecNamed frame = .ok body → m.fromSlice body = .ok frame

/-- `MAX_FRAME_BYTES`. -/
def maxFrameBytes : Nat := 8 * 1024 * 1024

/-- `u32::to_be_bytes`. -/
def beBytes (n : Nat) : Bytes :=
  [.ofNat (n / 2 ^ 24), .ofNat (n / 2 ^ 16), .ofNat (n / 2 ^ 8), .ofNat n]

/-- `u32::from_be_bytes`. -/
def ofBeBytes (a b c d : UInt8) : Nat :=
  a.toNat * 2 ^ 24 + b.toNat * 2 ^ 16 + c.toNat * 2 ^ 8 + d.toNat

def encode (m : MsgPack) (frame : Frame) : Except ProtocolError Bytes :=
  match m.toVecNamed frame with
  | .error message => .error (.encode message)
  | .ok body =>
    if 2 ^ 32 ≤ body.length then .error (.frameTooLarge (2 ^ 32 - 1) maxFrameBytes)
    else if maxFrameBytes < body.length then .error (.frameTooLarge body.length maxFrameBytes)
    else .ok (beBytes body.length ++ body)

/-- `decode`: the first frame of a buffer and the length of its code word. -/
def decode (m : MsgPack) (buf : Bytes) : Except ProtocolError (Frame × Nat) :=
  match buf with
  | a :: b :: c :: d :: rest =>
    let len := ofBeBytes a b c d
    if maxFrameBytes < len then .error (.frameTooLarge len maxFrameBytes)
    else if buf.length < 4 + len then .error (.incomplete (4 + len) buf.length)
    else match m.fromSlice (rest.take len) with
      | .error message => .error (.decode message)
      | .ok frame => .ok (frame, 4 + len)
  | _ => .error (.incomplete 4 buf.length)

/-- Streaming decoder that buffers partial reads. -/
structure Decoder where
  buf : Bytes

namespace Decoder

def new : Decoder := ⟨[]⟩

def extend (d : Decoder) (chunk : Bytes) : Decoder := ⟨d.buf ++ chunk⟩

def nextFrame (m : MsgPack) (d : Decoder) : Except ProtocolError (Option Frame) × Decoder :=
  match decode m d.buf with
  | .ok (frame, consumed) => (.ok (some frame), ⟨d.buf.drop consumed⟩)
  | .error (.incomplete _ _) => (.ok none, d)
  | .error other => (.error other, d)

/-- The outcomes of `next_frame` in a schedule of calls, and the decoder after
    it. -/
def run (m : MsgPack) (d : Decoder) :
    List (Call UInt8) → List (Except ProtocolError (Option Frame)) × Decoder
  | [] => ([], d)
  | .extend chunk :: calls => run m (d.extend chunk) calls
  | .next :: calls =>
    let popped := d.nextFrame m
    let rest := run m popped.2 calls
    (popped.1 :: rest.1, rest.2)

end Decoder

/-! ## The prefix -/

theorem ofBeBytes_beBytes (n : Nat) (h : n < 2 ^ 32) :
    ofBeBytes (.ofNat (n / 2 ^ 24)) (.ofNat (n / 2 ^ 16)) (.ofNat (n / 2 ^ 8)) (.ofNat n) = n := by
  unfold ofBeBytes
  simp only [UInt8.toNat_ofNat']
  omega

/-- What `decode` says about a buffer that starts with a written prefix. -/
theorem decode_prefix (m : MsgPack) (n : Nat) (rest : Bytes) (h : n ≤ maxFrameBytes) :
    decode m (beBytes n ++ rest) =
      if rest.length < n then .error (.incomplete (4 + n) (4 + rest.length))
      else match m.fromSlice (rest.take n) with
        | .error message => .error (.decode message)
        | .ok frame => .ok (frame, 4 + n) := by
  -- A length within the limit fits into the prefix.
  have hlt : n < 2 ^ 32 := by
    unfold maxFrameBytes at h
    omega
  have hlength : (beBytes n ++ rest).length = 4 + rest.length := by
    rw [List.length_append]
    rfl
  have hcut : (4 + rest.length < 4 + n) ↔ rest.length < n := by omega
  simp only [beBytes, List.cons_append, List.nil_append] at hlength ⊢
  rw [decode]
  simp only [ofBeBytes_beBytes n hlt, hlength, if_neg (Nat.not_lt.mpr h), hcut]

/-- A buffer too short for a prefix. -/
theorem decode_short (m : MsgPack) (buf : Bytes) (h : buf.length < 4) :
    decode m buf = .error (.incomplete 4 buf.length) := by
  -- The four bytes are matched one by one.
  rcases buf with _ | ⟨a, _ | ⟨b, _ | ⟨c, _ | ⟨d, rest⟩⟩⟩⟩
  · rfl
  · rfl
  · rfl
  · rfl
  · simp only [List.length_cons] at h
    omega

/-- What was encoded: a body within the limit, under its length. -/
theorem encode_eq_ok (m : MsgPack) (frame : Frame) (word : Bytes) (h : encode m frame = .ok word) :
    ∃ body, m.toVecNamed frame = .ok body ∧ body.length ≤ maxFrameBytes ∧
      word = beBytes body.length ++ body := by
  unfold encode at h
  split at h
  next => cases h
  next body hbody =>
    split at h
    · cases h
    · split at h
      · cases h
      next hle =>
        cases h
        exact ⟨body, hbody, Nat.not_lt.mp hle, rfl⟩

/-! ## The stream -/

/-- `next_frame` as a parser: an incomplete frame asks for more. -/
def parse (m : MsgPack) : Parser UInt8 Frame ProtocolError := fun buf =>
  match decode m buf with
  | .ok popped => .ok (some popped)
  | .error (.incomplete _ _) => .ok none
  | .error other => .error other

theorem nextFrame_eq_pop (m : MsgPack) (d : Decoder) :
    d.nextFrame m = ((Framing.pop (parse m) d.buf).1, ⟨(Framing.pop (parse m) d.buf).2⟩) := by
  unfold Decoder.nextFrame Framing.pop parse
  cases hdecode : decode m d.buf with
  | ok popped => rfl
  | error e =>
      cases e with
      | incomplete needed available => rfl
      | _ => rfl

theorem run_eq (m : MsgPack) (d : Decoder) (calls : List (Call UInt8)) :
    d.run m calls = ((Framing.run (parse m) d.buf calls).1, ⟨(Framing.run (parse m) d.buf calls).2⟩) := by
  -- The decoder is the library's, with its buffer in a record.
  induction calls generalizing d with
  | nil => rfl
  | cons call calls ih =>
      cases call with
      | extend chunk => exact ih (d.extend chunk)
      | next => simp only [Decoder.run, Framing.run, nextFrame_eq_pop, ih]

/-- An encoded frame is recognised whatever follows it, and a cut through it
    asks for more, inside the prefix as well as inside the body. -/
theorem isWord_encode (m : MsgPack) (hm : m.RoundTrips) (frame : Frame) (word : Bytes)
    (h : encode m frame = .ok word) : IsWord (parse m) frame word := by
  rcases encode_eq_ok m frame word h with ⟨body, hbody, hle, rfl⟩
  refine ⟨fun rest => ?_, fun front back hcut hback => ?_⟩
  -- Whatever follows: the length in the prefix cuts the body out.
  · have hlength : (beBytes body.length ++ body).length = 4 + body.length := by
      rw [List.length_append]
      rfl
    rw [parse, List.append_assoc, decode_prefix m body.length (body ++ rest) hle, hlength]
    have hall : ¬ (body ++ rest).length < body.length := by
      rw [List.length_append]
      omega
    rw [if_neg hall, List.take_left, hm frame body hbody]
  · by_cases hshort : front.length < 4
    · rw [parse, decode_short m front hshort]
    · -- The cut is behind the prefix, so the front says how long it should be.
      have hfront : front = beBytes body.length ++ front.drop 4 := by
        have htake := congrArg (List.take 4) hcut
        rw [List.take_append_of_le_length (Nat.not_lt.mp hshort)] at htake
        have hhead : List.take 4 (beBytes body.length ++ body) = beBytes body.length := rfl
        rw [hhead] at htake
        rw [htake, List.take_append_drop]
      -- Something is missing behind the cut, so the body is not complete.
      have hless : (front.drop 4).length < body.length := by
        have hlen := congrArg List.length hcut
        have hpos : 0 < back.length := List.length_pos_of_ne_nil hback
        simp only [List.length_append, List.length_drop, beBytes, List.length_cons,
          List.length_nil] at hlen ⊢
        omega
      rw [hfront, parse, decode_prefix m body.length (front.drop 4) hle, if_pos hless]

/-- However the bytes of encoded frames are cut into chunks, and however the
    calls of `next_frame` are mixed with their arrival, the decoder reports no
    error, yields the frames in order, and keeps exactly the bytes of those it
    did not yield yet. With all bytes there, and called as often as frames
    were sent, it has yielded all of them and no byte is left. -/
theorem decoder_yields_frames (m : MsgPack) (hm : m.RoundTrips) (frames : List Frame)
    (words : List Bytes) (hwords : List.Forall₂ (fun f w => encode m f = .ok w) frames words)
    (calls : List (Call UInt8)) :
    (∀ later, fed calls ++ later = words.flatten →
      NoError (Decoder.new.run m calls).1 ∧
      ∃ k, yielded (Decoder.new.run m calls).1 = frames.take k ∧
        (Decoder.new.run m calls).2.buf ++ later = (words.drop k).flatten) ∧
    (fed calls = words.flatten → ∀ n, frames.length ≤ n →
      NoError (Decoder.new.run m (calls ++ List.replicate n .next)).1 ∧
      yielded (Decoder.new.run m (calls ++ List.replicate n .next)).1 = frames ∧
      (Decoder.new.run m (calls ++ List.replicate n .next)).2.buf = []) := by
  -- The frames are code words, so the general result about streams applies.
  have hempty : parse m [] = .ok none := rfl
  have hcode : List.Forall₂ (IsWord (parse m)) frames words :=
    hwords.imp (fun f w hw => isWord_encode m hm f w hw)
  simp only [run_eq, Decoder.new]
  refine ⟨fun later hlater => ?_, fun hall n hn => ?_⟩
  · exact Framing.run_stream (parse m) hempty calls frames words hcode [] later hlater
  · have hfed : fed (calls ++ List.replicate n (.next : Call UInt8)) ++ [] = words.flatten := by
      rw [Framing.fed_append, Framing.fed_replicate_next, List.append_nil, List.append_nil, hall]
    have hok := (Framing.run_stream (parse m) hempty _ frames words hcode [] [] hfed).1
    have hall' : fed calls ++ [] = words.flatten := by rw [List.append_nil, hall]
    rcases Framing.run_stream (parse m) hempty calls frames words hcode [] [] hall' with
      ⟨_, k, hyield, hkept⟩
    rw [List.append_nil] at hkept
    -- What is in the buffer now are whole code words.
    rcases Framing.run_drain (parse m) hempty n (frames.drop k) (words.drop k)
      (List.forall₂_drop k hcode) (by rw [List.length_drop]; omega) with ⟨hrest, hleft⟩
    refine ⟨hok, ?_, ?_⟩
    · rw [Framing.run_append, Framing.yielded_append, hkept, hyield, hrest, List.take_append_drop]
    · rw [Framing.run_append, hkept]
      exact hleft

/-- The body of a heartbeat: a map with the tag `t`. -/
def heartbeatBody : Bytes := [0x81, 0xa1, 0x74, 0xa9] ++ Bytes.ascii "heartbeat"

/-- A serializer that knows the heartbeat alone. -/
def heartbeatPack : MsgPack where
  toVecNamed
    | .heartbeat => .ok heartbeatBody
    | _ => .error "unsupported frame"
  fromSlice body := if body = heartbeatBody then .ok .heartbeat else .error "unsupported body"

/-- Two heartbeats, cut inside the first prefix and inside the second body,
    with a call of `next_frame` at every cut. -/
theorem decoder_yields_heartbeats :
    yielded (Decoder.new.run heartbeatPack
      ([.extend [0, 0], .next, .extend ([0, 13] ++ heartbeatBody ++ [0, 0, 0, 13, 0x81]), .next,
        .extend (heartbeatBody.drop 1)] ++ List.replicate 2 .next)).1 = [.heartbeat, .heartbeat] := by
  have hm : heartbeatPack.RoundTrips := by
    intro frame body hbody
    cases frame with
    | heartbeat =>
        cases hbody
        rfl
    | _ => cases hbody
  have hwords : List.Forall₂ (fun f w => encode heartbeatPack f = .ok w)
      [Frame.heartbeat, .heartbeat] [beBytes 13 ++ heartbeatBody, beBytes 13 ++ heartbeatBody] :=
    .cons rfl (.cons rfl .nil)
  exact ((decoder_yields_frames heartbeatPack hm _ _ hwords _).2 (by decide) 2 (le_refl 2)).2.1

end Tunnel

end DccMcp
