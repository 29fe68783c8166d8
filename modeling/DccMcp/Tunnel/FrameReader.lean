import DccMcp.Tunnel.Codec

/-!
# Reading Frames from a Stream

`read_frame` reads a header and then a body with `read_exact`, and has a fresh
decoder read the two. How the stream is cut into reads makes no difference to
`read_exact`. The error of `read_exact` does not say how much had been read, so
an end inside a header is taken for the end between two frames.

## Main definitions

* `readExact`, `readFrame`, `readFrames`: A read, a call, and a series of calls.

## Theorems

* `readFrame_agrees`, `readFrames_eq`: A call and the codec, a series and the
  decoder.
-/

namespace DccMcp

namespace Tunnel

open Framing (Call yielded)

/-- `FrameIoError`. The stream has no failures but its end. -/
inductive FrameIoError
  | unexpectedEof
  | protocol (error : ProtocolError)

/-- `read_exact`, on the reads that are still to come, with `none` for the end
    of the stream. What a read brings beyond is left for the next. -/
def readExact (n : Nat) : List Bytes → Option (Bytes × List Bytes)
  | [] => if n = 0 then some ([], []) else none
  | chunk :: reads =>
    if n ≤ chunk.length then some (chunk.take n, chunk.drop n :: reads)
    else (readExact (n - chunk.length) reads).map fun (more, left) => (chunk ++ more, left)

/-- `u32::from_be_bytes` of a header. -/
def headerLength : Bytes → Nat
  | [a, b, c, d] => ofBeBytes a b c d
  | _ => 0

/-- The end of `read_frame`: a fresh decoder is given the header and the body. -/
def decodeBody (m : MsgPack) (lenBuf : Bytes) (len : Nat) (body : Bytes) :
    Except FrameIoError (Option Frame) :=
  match (((Decoder.new.extend lenBuf).extend body).nextFrame m).1 with
  | .ok (some frame) => .ok (some frame)
  | .ok none => .error (.protocol (.incomplete (4 + len) (4 + len)))
  | .error error => .error (.protocol error)

/-- The rest of `read_frame` once there is a header. -/
def readBody (m : MsgPack) (lenBuf : Bytes) (len : Nat) (reads : List Bytes) :
    Except FrameIoError (Option Frame) × List Bytes :=
  if maxFrameBytes < len then (.error (.protocol (.frameTooLarge len maxFrameBytes)), reads)
  else
    match readExact len reads with
    | none => (.error .unexpectedEof, [])
    | some read => (decodeBody m lenBuf len read.1, read.2)

/-- `read_frame`, with the reads that are left. -/
def readFrame (m : MsgPack) (reads : List Bytes) :
    Except FrameIoError (Option Frame) × List Bytes :=
  match readExact 4 reads with
  | none => (.ok none, [])
  | some header => readBody m header.1 (headerLength header.1) header.2

/-- The frames of a series of calls, up to the first that returns none. -/
def readFrames (m : MsgPack) : Nat → List Bytes → List Frame
  | 0, _ => []
  | n + 1, reads =>
    match readFrame m reads with
    | (.ok (some frame), left) => frame :: readFrames m n left
    | _ => []

variable (m : MsgPack) (reads : List Bytes)

/-- Only the bytes matter, and none is lost. -/
theorem readExact_eq (n : Nat) : ∃ left, left.flatten = reads.flatten.drop n ∧
    readExact n reads =
      if reads.flatten.length < n then none else some (reads.flatten.take n, left) := by
  induction reads generalizing n with
  | nil => exact ⟨[], by simp, by cases n <;> simp [readExact]⟩
  | cons chunk reads ih =>
      rw [List.flatten_cons, List.length_append]
      by_cases hn : n ≤ chunk.length
      · refine ⟨chunk.drop n :: reads, ?_, ?_⟩
        · rw [List.flatten_cons, List.drop_append_of_le_length hn]
        · rw [readExact, if_pos hn, if_neg (by omega), List.take_append_of_le_length hn]
      · obtain ⟨left, hleft, hread⟩ := ih (n - chunk.length)
        have htake : chunk.take n = chunk := List.take_of_length_le (by omega)
        have hdrop : chunk.drop n = [] := List.drop_of_length_le (by omega)
        refine ⟨left, by rw [hleft, List.drop_append, hdrop, List.nil_append], ?_⟩
        rw [readExact, if_neg hn, hread, List.take_append, htake]
        by_cases hshort : reads.flatten.length < n - chunk.length
        · rw [if_pos hshort, if_pos (by omega), Option.map_none]
        · rw [if_neg hshort, if_neg (by omega), Option.map_some]

/-- What the codec says about a buffer with a header. -/
theorem decode_header (a b c d : UInt8) (rest : Bytes) :
    decode m (a :: b :: c :: d :: rest) =
      if maxFrameBytes < ofBeBytes a b c d then
        .error (.frameTooLarge (ofBeBytes a b c d) maxFrameBytes)
      else if rest.length < ofBeBytes a b c d then
        .error (.incomplete (4 + ofBeBytes a b c d) (4 + rest.length))
      else match m.fromSlice (rest.take (ofBeBytes a b c d)) with
        | .error message => .error (.decode message)
        | .ok frame => .ok (frame, 4 + ofBeBytes a b c d) := by
  have hlength : (a :: b :: c :: d :: rest).length = 4 + rest.length := by
    simp
    omega
  by_cases hlong : maxFrameBytes < ofBeBytes a b c d <;>
    by_cases hless : rest.length < ofBeBytes a b c d <;>
    cases hslice : m.fromSlice (rest.take (ofBeBytes a b c d)) <;>
    simp only [decode, hlength, Nat.add_lt_add_iff_left, if_true, if_false, hlong, hless, hslice]

/-- The decoder's outcome, by what the codec makes of its buffer. -/
theorem nextFrame_fst (buf : Bytes) :
    (Decoder.nextFrame m ⟨buf⟩).1 = match decode m buf with
      | .ok (frame, _) => .ok (some frame)
      | .error (.incomplete _ _) => .ok none
      | .error error => .error error := by
  unfold Decoder.nextFrame
  split <;> simp_all

/-- The fresh decoder has the header and the whole body, and no more. -/
theorem decodeBody_eq (a b c d : UInt8) (body : Bytes)
    (hlong : ¬maxFrameBytes < ofBeBytes a b c d) (hlength : body.length = ofBeBytes a b c d) :
    decodeBody m [a, b, c, d] (ofBeBytes a b c d) body =
      match m.fromSlice body with
      | .error message => .error (.protocol (.decode message))
      | .ok frame => .ok (some frame) := by
  have hfresh := decode_header m a b c d body
  rw [if_neg hlong, if_neg (by omega), List.take_of_length_le (Nat.le_of_eq hlength)] at hfresh
  have hfed : (Decoder.new.extend [a, b, c, d]).extend body = ⟨a :: b :: c :: d :: body⟩ := rfl
  rw [decodeBody, hfed, nextFrame_fst, hfresh]
  cases m.fromSlice body <;> rfl

/-- What a call makes of the bytes that are left, by what the codec makes of
    them. -/
def Agrees : Prop :=
  match decode m reads.flatten with
  | .ok (frame, consumed) =>
    ∃ left, readFrame m reads = (.ok (some frame), left) ∧
      left.flatten = reads.flatten.drop consumed
  | .error (.incomplete _ _) =>
    (readFrame m reads).1 = if reads.flatten.length < 4 then .ok none else .error .unexpectedEof
  | .error error => (readFrame m reads).1 = .error (.protocol error)

theorem readFrame_agrees : Agrees m reads := by
  obtain ⟨left, hleft, hheader⟩ := readExact_eq reads 4
  unfold Agrees
  by_cases hshort : reads.flatten.length < 4
  · rw [decode_short m _ hshort, readFrame, hheader, if_pos hshort]
    exact (if_pos hshort).symm
  · rw [if_neg hshort] at hheader ⊢
    -- The header is there, byte by byte.
    rcases hbytes : reads.flatten with _ | ⟨a, _ | ⟨b, _ | ⟨c, _ | ⟨d, rest⟩⟩⟩⟩
    any_goals
      rw [hbytes] at hshort
      simp at hshort
    simp only [hbytes, List.take_succ_cons, List.take_zero] at hheader
    simp only [hbytes, List.drop_succ_cons, List.drop_zero] at hleft
    have hcall : readFrame m reads = readBody m [a, b, c, d] (ofBeBytes a b c d) left := by
      rw [readFrame, hheader]
      show readBody m [a, b, c, d] (headerLength [a, b, c, d]) left = _
      rw [headerLength]
    rw [decode_header, hcall, readBody]
    obtain ⟨left', hleft', hbody⟩ := readExact_eq left (ofBeBytes a b c d)
    rw [hleft] at hbody hleft'
    by_cases hlong : maxFrameBytes < ofBeBytes a b c d
    · rw [if_pos hlong, if_pos hlong]
    · rw [if_neg hlong, if_neg hlong]
      by_cases hcut : rest.length < ofBeBytes a b c d
      · rw [hbody, if_pos hcut, if_pos hcut]
      · rw [if_neg hcut] at hbody
        have hend := decodeBody_eq m a b c d (rest.take (ofBeBytes a b c d)) hlong (by
          rw [List.length_take]
          omega)
        rw [hbody, if_neg hcut]
        cases hslice : m.fromSlice (rest.take (ofBeBytes a b c d)) with
        | error message =>
            rw [hslice] at hend
            exact hend
        | ok frame =>
            rw [hslice] at hend
            have hdrop : ∀ n, (a :: b :: c :: d :: rest).drop (4 + n) = rest.drop n := by
              intro n
              rw [Nat.add_comm]
              simp only [List.drop_succ_cons]
            exact ⟨left', Prod.ext hend rfl, hleft'.trans (hdrop _).symm⟩

/-- Once the decoder has yielded nothing it stays where it is. -/
theorem yielded_stuck (d : Decoder) (k : Nat)
    (hnone : ∀ frame, (d.nextFrame m).1 ≠ .ok (some frame)) (hsame : (d.nextFrame m).2 = d) :
    yielded (d.run m (List.replicate k .next)).1 = [] := by
  induction k with
  | zero => rfl
  | succ k ih =>
      rw [List.replicate_succ, Decoder.run, hsame]
      rcases hpopped : (d.nextFrame m).1 with error | _ | frame
      · exact ih
      · exact ih
      · exact absurd hpopped (hnone frame)

/-- The frames of a series of calls are the decoder's. -/
theorem readFrames_eq (n : Nat) :
    readFrames m n reads =
      yielded ((Decoder.new.extend reads.flatten).run m (List.replicate n .next)).1 := by
  induction n generalizing reads with
  | zero => rfl
  | succ n ih =>
      have hcall := readFrame_agrees m reads
      unfold Agrees at hcall
      rw [List.replicate_succ, readFrames]
      cases hdecode : decode m reads.flatten with
      | ok popped =>
          obtain ⟨frame, consumed⟩ := popped
          rw [hdecode] at hcall
          obtain ⟨left, hread, hleft⟩ := hcall
          have hnext : (Decoder.new.extend reads.flatten).nextFrame m =
              (.ok (some frame), ⟨reads.flatten.drop consumed⟩) := by
            simp [Decoder.nextFrame, Decoder.new, Decoder.extend, hdecode]
          rw [hread, Decoder.run, hnext]
          show frame :: readFrames m n left = _
          rw [ih left, hleft]
          rfl
      | error error =>
          rw [← List.replicate_succ, yielded_stuck m]
          · rw [hdecode] at hcall
            split
            next frame left hread =>
              rw [hread] at hcall
              cases error <;> dsimp only at hcall <;> (try split at hcall) <;> cases hcall
            next => rfl
          · intro frame
            rw [show Decoder.new.extend reads.flatten = ⟨reads.flatten⟩ from rfl, nextFrame_fst,
              hdecode]
            cases error <;> simp
          · show (Decoder.nextFrame m ⟨reads.flatten⟩).2 = ⟨reads.flatten⟩
            unfold Decoder.nextFrame
            rw [hdecode]
            cases error <;> rfl

/-- For every stream, however it is cut into reads, a call returns what the codec
    makes of its bytes, and a series of calls the frames of the decoder. -/
theorem reader_agrees :
    Agrees m reads ∧ ∀ n, readFrames m n reads =
      yielded ((Decoder.new.extend reads.flatten).run m (List.replicate n .next)).1 :=
  ⟨readFrame_agrees m reads, readFrames_eq m reads⟩

end Tunnel

end DccMcp
