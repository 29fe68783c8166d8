import DccMcp.Shm.Buffer
import Mathlib.Data.List.Nodup

/-!
# Chunked Transfer

A payload goes through shared memory in chunks, each in a segment of its own,
and a manifest says in which. The writer cuts the payload from the front and
may compress every chunk, and keeps the compressed form only if it is smaller.
The reader opens the segments one after the other and puts what they hold
together.

The two loops never meet: what connects them is that the segment of a chunk
still holds it when the last chunk has been written. That is where the ids
matter. A chunk gets a segment that no one uses, and so none of the segments
before it is touched. `Written` is what the loop of the writer leaves behind,
and the loop of the reader is an induction over it.

## Main definitions

* `Slice`, `Lz4`, `Supply`: The payload, the codec, and the ids and times.
* `ChunkInfo`, `ChunkManifest`: What the manifest says.
* `writeChunked`, `readChunked`: The two loops.
* `UniqueIds`: The ids that are drawn are different and not in use.
* `Written`: The segments that hold the chunks of a list.

## Theorems

* `chunked_round_trip`: The transfer gives the payload back.
-/

namespace DccMcp

namespace Shm

open Blocks

/-- A payload. No allocation has more than `isize::MAX` bytes. -/
structure Slice where
  bytes : Bytes
  length_lt : bytes.length < 9223372036854775808

/-- The codec of `lz4_flex`. -/
structure Lz4 where
  compress : Bytes → Except String Bytes
  decompress : Bytes → Except String Bytes

/-- The identifiers that are drawn one after the other, and the times at which
    segments are created. -/
structure Supply where
  uuids : Nat → HyphenatedUuid
  clock : Nat → UInt64

structure ChunkInfo where
  index : Nat
  descriptor : BufferDescriptor
  originalLen : Nat
  storedLen : Nat
  compressed : Bool
  deriving DecidableEq

structure ChunkManifest where
  transferId : String
  totalBytes : Nat
  chunks : List ChunkInfo
  compressionEnabled : Bool
  deriving DecidableEq

def shouldCompress (originalLen compressedLen : Nat) : Bool := compressedLen < originalLen

/-- What is written for a chunk, and whether it is compressed. -/
def toWrite (lz : Lz4) (useCompression : Bool) (chunk : Bytes) : Except Fault (Bytes × Bool) :=
  if useCompression then
    match lz.compress chunk with
    | .error e => .error (.error (.compressionError e))
    | .ok c => .ok (if shouldCompress chunk.length c.length then (c, true) else (chunk, false))
  else .ok (chunk, false)

section Transfer

variable {σ η : Type} (m : SharedMemory σ η) (lz : Lz4) (supply : Supply)

/-- One round of the loop of `write_chunked`. The first identifier is the one
    of the transfer. -/
def writeChunk (useCompression : Bool) (s : σ) (index : Nat) (chunk : Bytes) :
    Except Fault (SharedBuffer η × ChunkInfo × σ) :=
  match toWrite lz useCompression chunk with
  | .error e => .error e
  | .ok (stored, compressed) =>
    match create m s (supply.clock index) (supply.uuids (index + 1)) (max stored.length 1) with
    | .error e => .error e
    | .ok (buf, t) =>
      match write m t buf stored with
      | (.error e, _) => .error e
      | (.ok _, u) =>
        match fromBuffer m u buf with
        | .error e => .error e
        | .ok descriptor =>
          .ok (buf, ⟨index, descriptor, chunk.length, stored.length, compressed⟩, u)

/-- The loop of `write_chunked`. -/
def writeChunks (useCompression : Bool) (s : σ) (index : Nat) :
    List Bytes → Except Fault (List (SharedBuffer η × ChunkInfo) × σ)
  | [] => .ok ([], s)
  | chunk :: rest =>
    match writeChunk m lz supply useCompression s index chunk with
    | .error e => .error e
    | .ok (buf, info, t) =>
      match writeChunks useCompression t (index + 1) rest with
      | .error e => .error e
      | .ok (written, u) => .ok ((buf, info) :: written, u)

def writeChunked (s : σ) (data : Slice) (chunkSize : Nat) (useCompression : Bool) :
    Except Fault (List (SharedBuffer η) × ChunkManifest × σ) :=
  if chunkSize = 0 then .error (.error (.invalidArgument "chunk_size must be > 0"))
  else
    match writeChunks m lz supply useCompression s 0 (chunks chunkSize data.bytes) with
    | .error e => .error e
    | .ok (written, t) =>
      .ok (written.map Prod.fst,
        ⟨shortId (supply.uuids 0), data.bytes.length, written.map Prod.snd, useCompression⟩, t)

/-- One round of the loop of `read_chunked`: what the segment of a chunk holds. -/
def readChunk (s : σ) (info : ChunkInfo) : Except Fault Bytes :=
  match openBuffer m s info.descriptor.name info.descriptor.id with
  | .error e => .error e
  | .ok buf =>
    match read m s buf with
    | .error e => .error e
    | .ok raw =>
      if info.compressed then
        match lz.decompress raw with
        | .error e => .error (.error (.decompressionError e))
        | .ok decompressed => .ok decompressed
      else .ok raw

/-- The loop of `read_chunked`. -/
def readChunks (s : σ) (total : Nat) (i : Nat) (result : Bytes) :
    List ChunkInfo → Except Fault Bytes
  | [] => .ok result
  | info :: rest =>
    if info.index ≠ i then .error (.error (.chunkOutOfRange info.index total))
    else
      match readChunk m lz s info with
      | .error e => .error e
      | .ok bytes => readChunks s total (i + 1) (result ++ bytes) rest

def readChunked (s : σ) (manifest : ChunkManifest) : Except Fault Bytes :=
  match readChunks m lz s manifest.chunks.length 0 [] manifest.chunks with
  | .error e => .error e
  | .ok result =>
    if result.length ≠ manifest.totalBytes then
      .error (.error (.incompleteChunks result.length manifest.totalBytes))
    else .ok result

/-! ## What the writer leaves behind -/

/-- The segment of the chunk with an index. -/
def Supply.name (index : Nat) : String := segmentPrefix ++ shortId (supply.uuids (index + 1))

/-- The ids of a number of chunks are different, and their segments are not in
    use. -/
structure UniqueIds (B : Backed m) (s : σ) (start number : Nat) : Prop where
  distinct : ∀ i j, start ≤ i → i < start + number → start ≤ j → j < start + number →
    supply.name i = supply.name j → i = j
  unused : ∀ i, start ≤ i → i < start + number → B.contents s (supply.name i) = none

/-- The segment of a chunk holds it, in the form its entry in the manifest
    says. -/
structure WrittenChunk (B : Backed m) (s : σ) (index : Nat) (chunk : Bytes) (buf : SharedBuffer η)
    (info : ChunkInfo) (stored : Bytes) : Prop where
  numbered : info.index = index
  original : info.originalLen = chunk.length
  measured : info.storedLen = stored.length
  bounded : stored.length < 9223372036854775808
  named : info.descriptor.name = supply.name index
  maps : Maps m B buf (supply.name index) (max stored.length 1)
  holds : Holds m B s (supply.name index) (max stored.length 1) stored
  form : if info.compressed then lz.decompress stored = .ok chunk else stored = chunk

/-- The segments hold the chunks of a list, counted from an index on. -/
inductive Written (B : Backed m) (s : σ) :
    Nat → List Bytes → List (SharedBuffer η × ChunkInfo) → Prop
  | nil (index : Nat) : Written B s index [] []
  | cons (index : Nat) (chunk : Bytes) (rest : List Bytes) (buf : SharedBuffer η) (info : ChunkInfo)
      (stored : Bytes) (written : List (SharedBuffer η × ChunkInfo))
      (hchunk : WrittenChunk m lz supply B s index chunk buf info stored)
      (hrest : Written B s (index + 1) rest written) :
      Written B s index (chunk :: rest) ((buf, info) :: written)

variable {m lz supply}

theorem toWrite_ok (hlz : ∀ d c, lz.compress d = .ok c → lz.decompress c = .ok d)
    (useCompression : Bool) (chunk stored : Bytes) (compressed : Bool)
    (h : toWrite lz useCompression chunk = .ok (stored, compressed)) :
    stored.length ≤ chunk.length ∧
      (if compressed then lz.decompress stored = .ok chunk else stored = chunk) := by
  unfold toWrite at h
  split at h
  next =>
    split at h
    next => simp only [reduceCtorEq] at h
    next c hc =>
      rw [Except.ok.injEq] at h
      split at h
      next hsmaller =>
        rcases Prod.mk.inj h with ⟨rfl, rfl⟩
        exact ⟨Nat.le_of_lt (of_decide_eq_true hsmaller), hlz chunk c hc⟩
      next =>
        rcases Prod.mk.inj h with ⟨rfl, rfl⟩
        exact ⟨Nat.le_refl _, rfl⟩
  next =>
    rw [Except.ok.injEq] at h
    rcases Prod.mk.inj h with ⟨rfl, rfl⟩
    exact ⟨Nat.le_refl _, rfl⟩

variable (B : Backed m)

/-- A chunk is written into a segment that is not in use. -/
theorem writeChunk_ok (hlz : ∀ d c, lz.compress d = .ok c → lz.decompress c = .ok d)
    (useCompression : Bool)
    (s t : σ) (index : Nat) (chunk : Bytes) (buf : SharedBuffer η) (info : ChunkInfo)
    (hlength : chunk.length < 9223372036854775808)
    (hfresh : B.contents s (supply.name index) = none)
    (h : writeChunk m lz supply useCompression s index chunk = .ok (buf, info, t)) :
    (∃ stored, WrittenChunk m lz supply B t index chunk buf info stored) ∧
      ∀ other, other ≠ supply.name index → B.contents t other = B.contents s other := by
  unfold writeChunk at h
  split at h
  next => simp only [reduceCtorEq] at h
  next stored compressed hstored =>
    rcases toWrite_ok hlz useCompression chunk stored compressed hstored with ⟨hle, hform⟩
    split at h
    next => simp only [reduceCtorEq] at h
    next buf' u hcreate =>
      have hcapacity : max stored.length 1 < 18446744073709551616 := by omega
      rcases createWithTtl_ok s u _ _ (supply.name index) _ none buf'
        (segmentName_shortId (supply.uuids (index + 1))) hfresh hcapacity hcreate
        with ⟨hid, hmaps, hholds, hcreated⟩
      rcases write_ok u buf' (supply.name index) _ [] stored hcapacity hmaps hholds
        (Nat.le_max_left _ _) with ⟨v, hwrite, hholds', hwritten⟩
      have hname : segmentName buf'.id = some (supply.name index) := by
        rw [hid]
        exact segmentName_shortId (supply.uuids (index + 1))
      rcases fromBuffer_ok v buf' (supply.name index) _ stored hname hmaps hholds'
        with ⟨ttl, hdescriptor⟩
      rw [hwrite] at h
      simp only [hdescriptor, Except.ok.injEq, Prod.mk.injEq] at h
      rcases h with ⟨rfl, rfl, rfl⟩
      refine ⟨⟨stored, rfl, rfl, rfl, by omega, rfl, hmaps, hholds', hform⟩, fun other hother => ?_⟩
      rw [hwritten other hother, hcreated other hother]

/-- What is written stays written where the segments stay the same. -/
theorem Written.congr (s t : σ) (index : Nat) (blocks : List Bytes)
    (written : List (SharedBuffer η × ChunkInfo)) (h : Written m lz supply B s index blocks written)
    (hsame : ∀ i, index ≤ i → i < index + blocks.length →
      B.contents t (supply.name i) = B.contents s (supply.name i)) :
    Written m lz supply B t index blocks written := by
  induction h with
  | nil index => exact .nil index
  | cons index chunk rest buf info stored written hchunk hrest ih =>
      rw [List.length_cons] at hsame
      refine .cons index chunk rest buf info stored written ?_ (ih (fun i hi hlt => ?_))
      · exact { hchunk with
          holds := holds_congr s t _ _ _ (hsame index (Nat.le_refl _) (by omega)) hchunk.holds }
      · exact hsame i (by omega) (by omega)

/-- The ids that are left when the first chunk has been written. -/
theorem UniqueIds.tail (s t : σ) (start number : Nat)
    (h : UniqueIds m supply B s start (number + 1))
    (hsame : ∀ other, other ≠ supply.name start → B.contents t other = B.contents s other) :
    UniqueIds m supply B t (start + 1) number where
  distinct := fun i j hi hi' hj hj' => h.distinct i j (by omega) (by omega) (by omega) (by omega)
  unused := by
    intro i hi hi'
    have hne : supply.name i ≠ supply.name start := fun heq =>
      absurd (h.distinct i start (by omega) (by omega) (by omega) (by omega) heq) (by omega)
    rw [hsame _ hne]
    exact h.unused i (by omega) (by omega)

/-- The loop of the writer leaves its chunks behind, and touches no other
    segment. -/
theorem written_of_writeChunks (hlz : ∀ d c, lz.compress d = .ok c → lz.decompress c = .ok d)
    (useCompression : Bool)
    (blocks : List Bytes) (hlength : ∀ block ∈ blocks, block.length < 9223372036854775808)
    (s t : σ) (index : Nat) (written : List (SharedBuffer η × ChunkInfo))
    (hids : UniqueIds m supply B s index blocks.length)
    (h : writeChunks m lz supply useCompression s index blocks = .ok (written, t)) :
    Written m lz supply B t index blocks written ∧
      ∀ other, (∀ i, index ≤ i → i < index + blocks.length → other ≠ supply.name i) →
        B.contents t other = B.contents s other := by
  induction blocks generalizing s index written with
  | nil =>
      simp only [writeChunks, Except.ok.injEq, Prod.mk.injEq] at h
      rcases h with ⟨rfl, rfl⟩
      exact ⟨.nil index, fun other _ => rfl⟩
  | cons chunk rest ih =>
      rw [List.length_cons] at hids ⊢
      simp only [writeChunks] at h
      split at h
      next => simp only [reduceCtorEq] at h
      next buf info u hchunk =>
        split at h
        next => simp only [reduceCtorEq] at h
        next written' v hrest =>
          simp only [Except.ok.injEq, Prod.mk.injEq] at h
          rcases h with ⟨rfl, rfl⟩
          rcases writeChunk_ok B hlz useCompression s u index chunk buf info
            (hlength chunk List.mem_cons_self) (hids.unused index (Nat.le_refl _) (by omega)) hchunk
            with ⟨⟨stored, hstored⟩, hframe⟩
          rcases ih (fun block hblock => hlength block (List.mem_cons_of_mem _ hblock)) u
            (index + 1) written' (hids.tail B s u index rest.length hframe) hrest
            with ⟨hwritten, hrestframe⟩
          refine ⟨.cons index chunk rest buf info stored written' ?_ hwritten,
            fun other hother => ?_⟩
          · -- The segments of the later chunks are other ones.
            refine { hstored with holds := holds_congr u v _ _ _ (hrestframe _ ?_) hstored.holds }
            intro i hi hi' heq
            have hsame := hids.distinct index i (Nat.le_refl _) (by omega) (by omega) (by omega) heq
            omega
          · rw [hrestframe other (fun i hi hi' => hother i (by omega) (by omega)),
              hframe other (hother index (Nat.le_refl _) (by omega))]

/-- One chunk is written if the system has a segment and the codec does not
    fail. -/
theorem writeChunk_total (hlz : ∀ d c, lz.compress d = .ok c → lz.decompress c = .ok d)
    (hcompress : ∀ d, ∃ c, lz.compress d = .ok c)
    (hcreate : ∀ u name total, B.contents u name = none → ∃ h t, m.create u name total = .ok (h, t))
    (useCompression : Bool) (s : σ) (index : Nat) (chunk : Bytes)
    (hchunk : chunk.length < 9223372036854775808)
    (hfresh : B.contents s (supply.name index) = none) :
    ∃ buf info t, writeChunk m lz supply useCompression s index chunk = .ok (buf, info, t) := by
  have hname := segmentName_shortId (supply.uuids (index + 1))
  have hstored : ∃ stored compressed,
      toWrite lz useCompression chunk = .ok (stored, compressed) := by
    unfold toWrite
    cases useCompression with
    | false => exact ⟨chunk, false, rfl⟩
    | true =>
        rcases hcompress chunk with ⟨c, hc⟩
        rw [hc, if_pos rfl]
        exact ⟨_, _, rfl⟩
  rcases hstored with ⟨stored, compressed, hstored⟩
  have hle := (toWrite_ok hlz useCompression chunk stored compressed hstored).1
  have hcapacity : max stored.length 1 < 18446744073709551616 := by omega
  -- The segment is made with the capacity the chunk needs, so the write fits.
  rcases hcreate s (supply.name index) (headerSize + max stored.length 1) hfresh
    with ⟨handle, u, hu⟩
  rcases createWithTtl_total s u (supply.clock index) _ (supply.name index) _ none handle hname
    hfresh (by omega) hu with ⟨buf, v, hv⟩
  rcases createWithTtl_ok s v _ _ (supply.name index) _ none buf hname hfresh hcapacity hv
    with ⟨hid, hmaps, hholds, hcreated⟩
  rcases write_ok v buf (supply.name index) _ [] stored hcapacity hmaps hholds
    (Nat.le_max_left _ _) with ⟨w, hwrite, hholds', hwritten⟩
  rcases fromBuffer_ok w buf (supply.name index) _ stored (by rw [hid]; exact hname) hmaps
    hholds' with ⟨ttl, hdescriptor⟩
  refine ⟨buf, ⟨index, ⟨buf.id, supply.name index, max stored.length 1, ttl⟩, chunk.length,
    stored.length, compressed⟩, w, ?_⟩
  unfold writeChunk create
  simp only [hstored, hv, hwrite, hdescriptor]

/-- The writer gets through if the system has segments and the codec does not
    fail. -/
theorem writeChunks_total (hlz : ∀ d c, lz.compress d = .ok c → lz.decompress c = .ok d)
    (hcompress : ∀ d, ∃ c, lz.compress d = .ok c)
    (hcreate : ∀ u name total, B.contents u name = none → ∃ h t, m.create u name total = .ok (h, t))
    (useCompression : Bool) (blocks : List Bytes)
    (hlength : ∀ block ∈ blocks, block.length < 9223372036854775808) (s : σ) (index : Nat)
    (hids : UniqueIds m supply B s index blocks.length) :
    ∃ written t, writeChunks m lz supply useCompression s index blocks = .ok (written, t) := by
  induction blocks generalizing s index with
  | nil => exact ⟨[], s, rfl⟩
  | cons chunk rest ih =>
      rw [List.length_cons] at hids
      have hfresh := hids.unused index (Nat.le_refl _) (by omega)
      have hchunk := hlength chunk List.mem_cons_self
      rcases writeChunk_total B hlz hcompress hcreate useCompression s index chunk hchunk hfresh
        with ⟨buf, info, u, hround⟩
      -- It leaves the segments of the later chunks unused.
      have hframe :=
        (writeChunk_ok B hlz useCompression s u index chunk buf info hchunk hfresh hround).2
      rcases ih (fun block hblock => hlength block (List.mem_cons_of_mem _ hblock)) u (index + 1)
        (hids.tail B s u index rest.length hframe) with ⟨written, t, hrest⟩
      refine ⟨(buf, info) :: written, t, ?_⟩
      simp only [writeChunks, hround, hrest]

/-! ## What the reader makes of it -/

/-- What is stored for a chunk can be read with its header. -/
theorem WrittenChunk.fits (s : σ) (index : Nat) (chunk stored : Bytes) (buf : SharedBuffer η)
    (info : ChunkInfo)
    (h : WrittenChunk m lz supply B s index chunk buf info stored) :
    headerSize + stored.length < 18446744073709551616 := by
  have hbounded := h.bounded
  unfold headerSize
  omega

theorem readChunk_ok (s : σ) (index : Nat) (chunk stored : Bytes) (buf : SharedBuffer η)
    (info : ChunkInfo)
    (h : WrittenChunk m lz supply B s index chunk buf info stored) :
    readChunk m lz s info = .ok chunk := by
  rcases openBuffer_ok s (supply.name index) info.descriptor.id _ stored h.holds
    with ⟨opened, hopen, hmaps⟩
  have hread := read_ok s opened (supply.name index) _ stored h.fits hmaps h.holds
  have hform := h.form
  unfold readChunk
  rw [h.named, hopen]
  simp only [hread]
  split at hform
  next hcompressed => rw [if_pos hcompressed, hform]
  next hplain => rw [if_neg hplain, hform]

/-- The loop of the reader puts the chunks together. -/
theorem readChunks_of_written (s : σ) (total index : Nat) (blocks : List Bytes)
    (written : List (SharedBuffer η × ChunkInfo)) (h : Written m lz supply B s index blocks written)
    (result : Bytes) :
    readChunks m lz s total index result (written.map Prod.snd) =
      .ok (result ++ blocks.flatten) := by
  induction h generalizing result with
  | nil index =>
      rw [List.flatten_nil, List.append_nil]
      rfl
  | cons index chunk rest buf info stored written hchunk hrest ih =>
      rw [List.map_cons, readChunks, if_neg (fun hne => hne hchunk.numbered),
        readChunk_ok B s index chunk stored buf info hchunk]
      simp [ih, List.flatten_cons]

/-- The chunks of a list one by one. -/
theorem Written.getElem? (s : σ) (index : Nat) (blocks : List Bytes)
    (written : List (SharedBuffer η × ChunkInfo)) (h : Written m lz supply B s index blocks written)
    (i : Nat) (buf : SharedBuffer η) (info : ChunkInfo) (hi : written[i]? = some (buf, info)) :
    ∃ chunk stored, blocks[i]? = some chunk ∧
      WrittenChunk m lz supply B s (index + i) chunk buf info stored := by
  induction h generalizing i with
  | nil index => simp only [List.getElem?_nil, reduceCtorEq] at hi
  | cons index chunk rest buf' info' stored written hchunk hrest ih =>
      cases i with
      | zero =>
          simp only [List.getElem?_cons_zero, Option.some.injEq, Prod.mk.injEq] at hi
          rcases hi with ⟨rfl, rfl⟩
          exact ⟨chunk, stored, rfl, hchunk⟩
      | succ i =>
          rcases ih i hi with ⟨chunk', stored', hget, hwritten⟩
          refine ⟨chunk', stored', hget, ?_⟩
          rw [Nat.add_assoc, Nat.add_comm 1 i] at hwritten
          exact hwritten

theorem Written.length_eq (s : σ) (index : Nat) (blocks : List Bytes)
    (written : List (SharedBuffer η × ChunkInfo))
    (h : Written m lz supply B s index blocks written) : written.length = blocks.length := by
  induction h with
  | nil index => rfl
  | cons index chunk rest buf info stored written hchunk hrest ih =>
      rw [List.length_cons, List.length_cons, ih]

theorem Written.names (s : σ) (index : Nat) (blocks : List Bytes)
    (written : List (SharedBuffer η × ChunkInfo))
    (h : Written m lz supply B s index blocks written) :
    written.map (fun w => w.2.descriptor.name) =
      (List.range' index blocks.length).map supply.name := by
  induction h with
  | nil index => rfl
  | cons index chunk rest buf info stored written hchunk hrest ih =>
      rw [List.map_cons, List.length_cons, List.range'_succ, List.map_cons, ih, hchunk.named]

/-- The reader gets the chunks out of every state in which the segments that the
    manifest names are as they were. -/
theorem readChunked_of_written (t u : σ) (blocks : List Bytes)
    (written : List (SharedBuffer η × ChunkInfo)) (h : Written m lz supply B t 0 blocks written)
    (manifest : ChunkManifest) (hchunks : manifest.chunks = written.map Prod.snd)
    (hlen : manifest.totalBytes = blocks.flatten.length)
    (hsame : ∀ info ∈ manifest.chunks,
      B.contents u info.descriptor.name = B.contents t info.descriptor.name) :
    readChunked m lz u manifest = .ok blocks.flatten := by
  have hkept := h.congr B t u 0 _ written (fun i _ hi => by
    -- Every segment of the loop is named in the manifest.
    have hmem : supply.name i ∈ written.map (fun w => w.2.descriptor.name) := by
      rw [h.names B t 0 _ written]
      exact List.mem_map_of_mem (List.mem_range'_1.mpr ⟨Nat.zero_le i, hi⟩)
    rcases List.mem_map.mp hmem with ⟨w, hw, hname⟩
    rw [← hname]
    refine hsame w.2 ?_
    rw [hchunks]
    exact List.mem_map_of_mem hw)
  have hread := readChunks_of_written B u (written.map Prod.snd).length 0 _ written hkept []
  rw [List.nil_append] at hread
  unfold readChunked
  simp only [hchunks, hread, hlen, ne_eq, not_true, if_false]

/-- No segment is used twice. -/
theorem Written.nodup_names (s t : σ) (blocks : List Bytes)
    (written : List (SharedBuffer η × ChunkInfo)) (h : Written m lz supply B t 0 blocks written)
    (hids : UniqueIds m supply B s 0 blocks.length) :
    (written.map (fun w => w.2.descriptor.name)).Nodup := by
  rw [h.names B t 0 _ written]
  refine List.Nodup.map_on (fun i hi j hj heq => ?_) List.nodup_range'
  rw [List.mem_range'_1] at hi hj
  exact hids.distinct i j hi.1 hi.2 hj.1 hj.2 heq

/-- Chunked transfer. If the codec gives back what it has compressed and the
    ids are unique, then whatever the chunk size and the flag: what the writer
    returns, the reader turns into the payload again, in every state in which
    the segments are as the writer has left them. There are as many chunks in
    the manifest as there are buffers, in as many segments. A chunk that is
    followed by another one has the chunk size, and the buffer of every chunk
    holds its part of the payload. And the writer does return if the system
    has segments and the codec does not fail. -/
theorem chunked_round_trip (B : Backed m)
    (hlz : ∀ d c, lz.compress d = .ok c → lz.decompress c = .ok d) (s : σ) (data : Slice)
    (chunkSize : Nat) (hsize : 0 < chunkSize) (useCompression : Bool)
    (hids : UniqueIds m supply B s 0 (chunks chunkSize data.bytes).length) :
    (∀ buffers manifest t,
      writeChunked m lz supply s data chunkSize useCompression = .ok (buffers, manifest, t) →
        (∀ u, (∀ info ∈ manifest.chunks,
            B.contents u info.descriptor.name = B.contents t info.descriptor.name) →
          readChunked m lz u manifest = .ok data.bytes) ∧
        manifest.chunks.length = buffers.length ∧
        (manifest.chunks.map (fun info => info.descriptor.name)).Nodup ∧
        ∀ i info, manifest.chunks[i]? = some info →
          (i + 1 < manifest.chunks.length → info.originalLen = chunkSize) ∧
          ∃ buf stored, buffers[i]? = some buf ∧ read m t buf = .ok stored ∧
            stored.length = info.storedLen ∧
            ((data.bytes.drop (i * chunkSize)).take chunkSize).length = info.originalLen ∧
            if info.compressed then
              lz.decompress stored = .ok ((data.bytes.drop (i * chunkSize)).take chunkSize)
            else stored = (data.bytes.drop (i * chunkSize)).take chunkSize) ∧
      ((∀ d, ∃ c, lz.compress d = .ok c) →
        (∀ u name total, B.contents u name = none → ∃ h t, m.create u name total = .ok (h, t)) →
          ∃ buffers manifest t,
            writeChunked m lz supply s data chunkSize useCompression =
              .ok (buffers, manifest, t)) := by
  have hdata := data.length_lt
  have hlength : ∀ block ∈ chunks chunkSize data.bytes, block.length < 9223372036854775808 := by
    intro block hblock
    have hle : block.length ≤ (chunks chunkSize data.bytes).flatten.length :=
      (List.sublist_flatten_of_mem hblock).length_le
    rw [flatten_chunks chunkSize data.bytes hsize] at hle
    omega
  unfold writeChunked
  rw [if_neg (Nat.ne_of_gt hsize)]
  constructor
  · intro buffers manifest t h
    split at h
    next => simp only [reduceCtorEq] at h
    next written t' hwrite =>
      simp only [Except.ok.injEq, Prod.mk.injEq] at h
      rcases h with ⟨rfl, rfl, rfl⟩
      have hwritten := (written_of_writeChunks B hlz useCompression _ hlength s t' 0 written hids
        hwrite).1
      have hcount := hwritten.length_eq B t' 0 _ written
      have hpayload := flatten_chunks chunkSize data.bytes hsize
      refine ⟨fun u hsame => ?_, ?_, ?_, fun i info hi => ?_⟩
      · have hread := readChunked_of_written B t' u _ written hwritten _ rfl
          (congrArg List.length hpayload.symm) hsame
        rw [hpayload] at hread
        exact hread
      · rw [List.length_map, List.length_map]
      · rw [List.map_map]
        exact hwritten.nodup_names B s t' _ written hids
      · -- A chunk is the block of the payload that its place in the manifest says.
        rw [List.getElem?_map, Option.map_eq_some_iff] at hi
        rcases hi with ⟨⟨buf, info'⟩, hi, rfl⟩
        rcases hwritten.getElem? B t' 0 _ written i buf info' hi with ⟨chunk, stored, hget, hchunk⟩
        rw [Nat.zero_add] at hchunk
        have hblock := (getElem?_chunks chunkSize data.bytes hsize i chunk hget).1
        have hfull := (length_chunk chunkSize data.bytes hsize i chunk hget).2.2
        have hform := hchunk.form
        refine ⟨fun hnext => ?_, buf, stored, ?_, ?_, hchunk.measured.symm, ?_, ?_⟩
        · rw [List.length_map, hcount] at hnext
          rw [hchunk.original, hfull hnext]
        · rw [List.getElem?_map, hi]
          rfl
        · exact read_ok t' buf (supply.name i) _ stored hchunk.fits hchunk.maps hchunk.holds
        · rw [← hblock, hchunk.original]
        · rw [← hblock]
          exact hform
  · intro hcompress hcreate
    rcases writeChunks_total B hlz hcompress hcreate useCompression _ hlength s 0 hids
      with ⟨written, t, hwrite⟩
    rw [hwrite]
    exact ⟨_, _, _, rfl⟩

end Transfer

/-- Shared memory as a table of segments. -/
def tableMemory : SharedMemory (String → Option Bytes) (String × Nat) where
  create := fun s name total =>
    match s name with
    | some _ => .error "already exists"
    | none => .ok ((name, total), Function.update s name (some (List.replicate total 0)))
  openSegment := fun s name =>
    match s name with
    | some bytes => .ok (name, bytes.length)
    | none => .error "not found"
  size := Prod.snd
  read := fun s h offset len =>
    match s h.1 with
    | some bytes =>
      if offset + len ≤ bytes.length then .ok ((bytes.drop offset).take len)
      else .error "out of bounds"
    | none => .error "not found"
  write := fun s h offset data =>
    match s h.1 with
    | some bytes =>
      if offset + data.length ≤ bytes.length then
        .ok (Function.update s h.1 (some (overwrite bytes offset data)))
      else .error "out of bounds"
    | none => .error "not found"

def tableBacked : Backed tableMemory where
  segment := Prod.fst
  contents := id
  create_ok := by
    intro s t name total h hfresh hcreate
    have hnone : s name = none := hfresh
    simp only [tableMemory, hnone, Except.ok.injEq, Prod.mk.injEq] at hcreate
    rcases hcreate with ⟨rfl, rfl⟩
    exact ⟨rfl, Nat.le_refl _, List.replicate total 0, List.length_replicate, rfl⟩
  open_ok := by
    intro s name bytes hbytes
    have hsome : s name = some bytes := hbytes
    exact ⟨(name, bytes.length), by simp only [tableMemory, hsome], rfl, Nat.le_refl _⟩
  read_ok := by
    intro s h bytes offset len hbytes hwithin
    have hsome : s h.1 = some bytes := hbytes
    simp only [tableMemory, hsome, if_pos hwithin]
  write_ok := by
    intro s h bytes offset data hbytes hwithin
    have hsome : s h.1 = some bytes := hbytes
    refine ⟨Function.update s h.1 (some (overwrite bytes offset data)), ?_, rfl⟩
    simp only [tableMemory, hsome, if_pos hwithin]

/-- A codec that puts the magic number of a frame in front. -/
def framed : Lz4 where
  compress := fun d => .ok ([0x04, 0x22, 0x4D, 0x18] ++ d)
  decompress := fun c => .ok (c.drop 4)

/-- Identifiers that are counted up in their first half. -/
def counting : Supply where
  uuids := fun k => ⟨k % 16 * 18446744073709551616, by omega⟩
  clock := fun _ => 0

theorem chunked_round_trip_five :
    ∃ buffers manifest t,
      writeChunked tableMemory framed counting (fun _ => none) ⟨[1, 2, 3, 4, 5], by decide⟩ 2 true =
          .ok (buffers, manifest, t) ∧
        readChunked tableMemory framed t manifest = .ok [1, 2, 3, 4, 5] ∧
        manifest.chunks.length = buffers.length := by
  have hdistinct : ∀ i < 3, ∀ j < 3, counting.name i = counting.name j → i = j := by decide
  have hlz : ∀ d c, framed.compress d = .ok c → framed.decompress c = .ok d := by
    intro d c hc
    rw [← Except.ok.inj hc]
    rfl
  have htransfer := chunked_round_trip tableBacked hlz
    (fun _ => none) ⟨[1, 2, 3, 4, 5], by decide⟩ 2 (by decide) true
    (⟨fun i j _ hi _ hj => hdistinct i (by omega) j (by omega), fun _ _ _ => rfl⟩ :
      UniqueIds tableMemory counting tableBacked _ 0 3)
  rcases htransfer.2 (fun d => ⟨_, rfl⟩) (fun u name total hfresh => by
      have hnone : u name = none := hfresh
      exact ⟨_, _, by simp only [tableMemory, hnone]; rfl⟩)
    with ⟨buffers, manifest, t, hwrite⟩
  have hread := htransfer.1 buffers manifest t hwrite
  exact ⟨buffers, manifest, t, hwrite, hread.1 t (fun _ _ => rfl), hread.2.1⟩

end Shm

end DccMcp
