import DccMcp.Lib.Blocks
import DccMcp.Lib.Text
import DccMcp.Lib.Uuid

/-!
# Shared Buffers

A buffer is a named segment of shared memory with a header of 48 bytes in
front of its data. The segments belong to the operating system and are not
part of the repository, so they are a parameter: `SharedMemory` has the four
calls the buffers make, and `Backed` says what they rely on. A backed state
has a view of its segments, and what is promised of a call is what it does to
the view.

The view of a segment is as long as was asked for when it was created. A
mapping can be longer, because the system rounds it up; that is why the
capacity of a buffer is read from its header and not from its mapping.

## Main definitions

* `ShmError`, `Fault`: How an operation fails.
* `RegionHeader`, `encodeHeader`, `decodeHeader`: The header.
* `segmentName`, `shortId`: How segments are named.
* `KeptPart`: What a name keeps of an id.
* `SharedMemory`, `Backed`: The shared memory of the system.
* `create`, `openBuffer`, `write`, `read`, `fromBuffer`: The operations.
* `Stored`, `Holds`: A segment that holds data.

## Theorems

* `segmentName_of_keptPart`: Names fit, and which ids share one.
-/

namespace DccMcp

namespace Shm

open Blocks

/-- The errors of this crate that buffers and chunked transfers produce. -/
inductive ShmError
  | alreadyExists (name : String)
  | notFound (name : String)
  | bufferTooSmall (required available : Nat)
  | chunkOutOfRange (index total : Nat)
  | incompleteChunks (received total : Nat)
  | compressionError (message : String)
  | decompressionError (message : String)
  | invalidArgument (message : String)
  | internal (message : String)
  deriving DecidableEq

/-- An error, or a panic: of a slice that cuts through a character, or of a sum that does
    not fit. -/
inductive Fault
  | error (e : ShmError)
  | panic
  deriving DecidableEq

/-! ## The header -/

/-- `RegionHeader`, without its padding. -/
structure RegionHeader where
  magic : UInt64
  dataLen : UInt64
  capacity : UInt64
  createdAtSecs : UInt64
  ttlSecs : UInt64
  compressed : UInt8
  deriving DecidableEq

/-- `HEADER_MAGIC`. -/
def headerMagic : UInt64 := 0xDCC0000053484D01

/-- `HEADER_SIZE`. -/
def headerSize : Nat := 48

def encodeU64 (n : UInt64) : Bytes := littleEndian 8 n.toNat

def decodeU64 (bytes : Bytes) : UInt64 := UInt64.ofNat (ofLittleEndian bytes)

/-- `bytes_of`. -/
def encodeHeader (header : RegionHeader) : Bytes :=
  encodeU64 header.magic ++ encodeU64 header.dataLen ++ encodeU64 header.capacity ++
    encodeU64 header.createdAtSecs ++ encodeU64 header.ttlSecs ++
    [header.compressed, 0, 0, 0, 0, 0, 0, 0]

/-- `pod_read_unaligned`. -/
def decodeHeader (bytes : Bytes) : RegionHeader where
  magic := decodeU64 (bytes.take 8)
  dataLen := decodeU64 ((bytes.drop 8).take 8)
  capacity := decodeU64 ((bytes.drop 16).take 8)
  createdAtSecs := decodeU64 ((bytes.drop 24).take 8)
  ttlSecs := decodeU64 ((bytes.drop 32).take 8)
  compressed := bytes.getD 40 0

@[simp]
theorem length_encodeU64 (n : UInt64) : (encodeU64 n).length = 8 := length_littleEndian 8 n.toNat

theorem decode_encodeU64 (n : UInt64) : decodeU64 (encodeU64 n) = n := by
  unfold decodeU64 encodeU64
  rw [ofLittleEndian_littleEndian 8 n.toNat n.toNat_lt, UInt64.ofNat_toNat]

theorem length_encodeHeader (header : RegionHeader) :
    (encodeHeader header).length = headerSize := by
  simp [encodeHeader, length_encodeU64, headerSize]

/-- A header is read back. -/
theorem decode_encodeHeader (header : RegionHeader) :
    decodeHeader (encodeHeader header) = header := by
  have hmagic : (encodeHeader header).take 8 = encodeU64 header.magic := rfl
  have hdataLen : ((encodeHeader header).drop 8).take 8 = encodeU64 header.dataLen := rfl
  have hcapacity : ((encodeHeader header).drop 16).take 8 = encodeU64 header.capacity := rfl
  have hcreated : ((encodeHeader header).drop 24).take 8 = encodeU64 header.createdAtSecs := rfl
  have httl : ((encodeHeader header).drop 32).take 8 = encodeU64 header.ttlSecs := rfl
  have hcompressed : (encodeHeader header).getD 40 0 = header.compressed := rfl
  unfold decodeHeader
  rw [hmagic, hdataLen, hcapacity, hcreated, httl, hcompressed]
  simp only [decode_encodeU64]

/-! ## Names -/

/-- `SEGMENT_PREFIX`. -/
def segmentPrefix : String := "ds_"

/-- `MAX_SEGMENT_NAME_LEN`. -/
def maxSegmentNameLen : Nat := 31

/-- The front of a text up to a number of bytes. There is none if the cut goes
    through a character. -/
def frontBytes : Nat → List Char → Option (List Char)
  | 0, _ => some []
  | _ + 1, [] => none
  | n + 1, c :: rest =>
    if c.utf8Size ≤ n + 1 then (frontBytes (n + 1 - c.utf8Size) rest).map (c :: ·) else none

def segmentName (id : String) : Option String :=
  let maxIdLen := maxSegmentNameLen - segmentPrefix.utf8ByteSize
  if id.utf8ByteSize ≤ maxIdLen then some (segmentPrefix ++ id)
  else (frontBytes maxIdLen id.toList).map (fun front => segmentPrefix ++ .ofList front)

/-- `short_id`, of the identifier that was drawn. -/
def shortId (uuid : HyphenatedUuid) : String := .ofList (uuid.digits.take 16)

/-- The name of a short id is the prefix and the id. -/
theorem segmentName_shortId (uuid : HyphenatedUuid) :
    segmentName (shortId uuid) = some (segmentPrefix ++ shortId uuid) := by
  have hsize : (shortId uuid).utf8ByteSize = 16 := by
    unfold shortId
    rw [Text.utf8ByteSize_ofList]
    · rw [List.length_take, HyphenatedUuid.digits, hexDigits, length_numeral]
      rfl
    · intro c hc
      rcases mem_numeral 16 32 uuid.value (by decide) c (List.mem_of_mem_take hc) with ⟨d, hd, rfl⟩
      have hall : ∀ i : Fin 16, (Nat.digitChar i).utf8Size = 1 := by decide
      exact hall ⟨d, hd⟩
  unfold segmentName
  rw [hsize]
  exact if_pos (by decide)

/-- The part of an id that goes into a name: its first 28 bytes, or all of it. -/
structure KeptPart (id front : String) : Prop where
  isPrefix : ∃ rest, id = front ++ rest
  size : front.utf8ByteSize = min (maxSegmentNameLen - segmentPrefix.utf8ByteSize) id.utf8ByteSize

theorem utf8ByteSize_cons (c : Char) (text : List Char) :
    (String.ofList (c :: text)).utf8ByteSize = c.utf8Size + (String.ofList text).utf8ByteSize := by
  rw [String.ofList_cons, String.utf8ByteSize_append, String.utf8ByteSize_singleton]

theorem frontBytes_size (n : Nat) (text front : List Char) (h : frontBytes n text = some front) :
    (String.ofList front).utf8ByteSize = n := by
  fun_induction frontBytes n text generalizing front with
  | case1 text =>
      cases h
      rfl
  | case2 => cases h
  | case3 n c rest hle ih =>
      rcases Option.map_eq_some_iff.mp h with ⟨front', hfront, rfl⟩
      rw [utf8ByteSize_cons, ih front' hfront]
      omega
  | case4 => cases h

theorem frontBytes_append (front rest : List Char) :
    frontBytes (String.ofList front).utf8ByteSize (front ++ rest) = some front := by
  induction front with
  | nil => exact frontBytes.eq_1 rest
  | cons c front ih =>
      have hpos := c.utf8Size_pos
      rw [utf8ByteSize_cons]
      obtain ⟨n, hn⟩ : ∃ n, c.utf8Size + (String.ofList front).utf8ByteSize = n + 1 :=
        ⟨_, (Nat.succ_pred_eq_of_pos (by omega)).symm⟩
      rw [hn, List.cons_append, frontBytes, if_pos (by omega),
        show n + 1 - c.utf8Size = (String.ofList front).utf8ByteSize by omega, ih]
      rfl

/-- The name of an id is made from the part that is kept. -/
theorem KeptPart.segmentName {id front : String} (h : KeptPart id front) :
    segmentName id = some (segmentPrefix ++ front) := by
  rcases h with ⟨⟨rest, rfl⟩, hsize⟩
  rw [String.utf8ByteSize_append] at hsize
  unfold Shm.segmentName
  rw [String.utf8ByteSize_append]
  dsimp only
  split
  · next hle =>
      have hrest : rest = "" := by
        rw [← String.utf8ByteSize_eq_zero_iff]
        omega
      rw [hrest, String.append_empty]
  · next hlt =>
      have hfront : maxSegmentNameLen - segmentPrefix.utf8ByteSize = front.utf8ByteSize := by omega
      have hcut := frontBytes_append front.toList rest.toList
      rw [String.ofList_toList] at hcut
      rw [hfront, String.toList_append, hcut, Option.map_some, String.ofList_toList]

/-- Names fit, and tell as much of the id as they keep. Every id of at most 28
    bytes is kept whole, of a longer one of one-byte characters the first 28
    are kept; and two ids have one name exactly when the kept parts agree. -/
theorem segmentName_of_keptPart :
    (∀ id name, segmentName id = some name → name.utf8ByteSize ≤ maxSegmentNameLen) ∧
    (∀ id, id.utf8ByteSize ≤ 28 → KeptPart id id) ∧
    (∀ id, (∀ c ∈ id.toList, c.utf8Size = 1) → ∃ front, KeptPart id front) ∧
    (∀ id front, KeptPart id front → segmentName id = some (segmentPrefix ++ front)) ∧
    ∀ id id' front front', KeptPart id front → KeptPart id' front' →
      (segmentName id = segmentName id' ↔ front = front') := by
  have hlength : segmentPrefix.utf8ByteSize = 3 := by decide
  refine ⟨fun id name h => ?_, fun id h => ⟨⟨"", (String.append_empty).symm⟩, ?_⟩, fun id h => ?_,
    fun id front h => h.segmentName, fun id id' front front' h h' => ?_⟩
  · unfold segmentName at h
    dsimp only at h
    split at h
    · next hle =>
        cases h
        rw [String.utf8ByteSize_append]
        rw [hlength, maxSegmentNameLen] at *
        omega
    · rcases Option.map_eq_some_iff.mp h with ⟨front, hfront, rfl⟩
      rw [String.utf8ByteSize_append, frontBytes_size _ _ _ hfront, hlength]
      decide
  · rw [hlength]
    exact (Nat.min_eq_right h).symm
  · refine ⟨.ofList (id.toList.take 28), ⟨.ofList (id.toList.drop 28), ?_⟩, ?_⟩
    · rw [← String.ofList_append, List.take_append_drop, String.ofList_toList]
    · have hid := Text.utf8ByteSize_ofList id.toList h
      rw [String.ofList_toList] at hid
      rw [Text.utf8ByteSize_ofList _ (fun c hc => h c (List.mem_of_mem_take hc)), List.length_take,
        hid, hlength]
      rfl
  · rw [h.segmentName, h'.segmentName, Option.some.injEq, String.append_right_inj]

theorem segmentName_of_keptPart_short : segmentName "frame-7" = some "ds_frame-7" :=
  segmentName_of_keptPart.2.2.2.1 "frame-7" "frame-7"
    (segmentName_of_keptPart.2.1 "frame-7" (by decide))

/-- Two ids that differ behind their first 28 bytes have one name. -/
theorem segmentName_collision :
    ("dcc-mcp-scene-capture-buffer-left" ≠ "dcc-mcp-scene-capture-buffer-right") ∧
    segmentName "dcc-mcp-scene-capture-buffer-left" = some "ds_dcc-mcp-scene-capture-buffer" ∧
    segmentName "dcc-mcp-scene-capture-buffer-right" = some "ds_dcc-mcp-scene-capture-buffer" := by
  decide

/-! ## Shared memory -/

/-- The calls of `ipckit::SharedMemory`, over the states `σ` of the system and
    the handles `η` of mapped segments. -/
structure SharedMemory (σ η : Type) where
  create : σ → String → Nat → Except String (η × σ)
  openSegment : σ → String → Except String η
  size : η → Nat
  read : σ → η → Nat → Nat → Except String Bytes
  write : σ → η → Nat → Bytes → Except String σ

variable {σ η : Type}

/-- What the buffers rely on. A segment has as many bytes as were asked for,
    a name that is in use can be opened, and what is within the segment can be
    read and written. -/
structure Backed (m : SharedMemory σ η) where
  segment : η → String
  contents : σ → String → Option Bytes
  create_ok : ∀ (s t : σ) (name : String) (total : Nat) (h : η),
    contents s name = none → m.create s name total = .ok (h, t) →
      segment h = name ∧ total ≤ m.size h ∧
        ∃ bytes, bytes.length = total ∧ contents t = Function.update (contents s) name (some bytes)
  open_ok : ∀ (s : σ) (name : String) (bytes : Bytes), contents s name = some bytes →
    ∃ h, m.openSegment s name = .ok h ∧ segment h = name ∧ bytes.length ≤ m.size h
  read_ok : ∀ (s : σ) (h : η) (bytes : Bytes) (offset len : Nat),
    contents s (segment h) = some bytes → offset + len ≤ bytes.length →
      m.read s h offset len = .ok ((bytes.drop offset).take len)
  write_ok : ∀ (s : σ) (h : η) (bytes : Bytes) (offset : Nat) (data : Bytes),
    contents s (segment h) = some bytes → offset + data.length ≤ bytes.length →
      ∃ t, m.write s h offset data = .ok t ∧
        contents t = Function.update (contents s) (segment h) (some (overwrite bytes offset data))

/-! ## Buffers -/

structure SharedBuffer (η : Type) where
  handle : η
  capacity : Nat
  id : String

section Operations

variable (m : SharedMemory σ η)

/-- The header a buffer is created with. -/
def freshHeader (capacity : Nat) (ttl : Option UInt64) (now : UInt64) : RegionHeader where
  magic := headerMagic
  dataLen := 0
  capacity := .ofNat capacity
  createdAtSecs := now
  ttlSecs := ttl.getD 0
  compressed := 0

/-- `create_with_ttl`. A segment goes away with the only handle to it, so a
    failure leaves the system as it was. -/
def createWithTtl (s : σ) (now : UInt64) (id : String) (capacity : Nat) (ttl : Option UInt64) :
    Except Fault (SharedBuffer η × σ) :=
  if capacity = 0 then
    .error (.error (.invalidArgument "capacity must be greater than 0"))
  else
    match segmentName id with
    | none => .error .panic
    | some segName =>
      match m.create s segName (headerSize + capacity) with
      | .error msg =>
        if Text.contains "already exists" msg || Text.contains "AlreadyExists" msg then
          .error (.error (.alreadyExists id))
        else .error (.error (.internal ("SharedMemory::create failed: " ++ msg)))
      | .ok (handle, t) =>
        match m.write t handle 0 (encodeHeader (freshHeader capacity ttl now)) with
        | .error e => .error (.error (.internal ("header write failed: " ++ e)))
        | .ok t => .ok (⟨handle, capacity, id⟩, t)

/-- `create`, with the identifier that was drawn. -/
def create (s : σ) (now : UInt64) (uuid : HyphenatedUuid) (capacity : Nat) :
    Except Fault (SharedBuffer η × σ) :=
  createWithTtl m s now (shortId uuid) capacity none

/-- The header of a mapped segment. -/
def readHeaderBytes (s : σ) (handle : η) : Except Fault RegionHeader :=
  match m.read s handle 0 headerSize with
  | .error e => .error (.error (.internal ("header read failed: " ++ e)))
  | .ok bytes =>
    let header := decodeHeader bytes
    if header.magic ≠ headerMagic then
      .error (.error (.internal "invalid magic bytes in header"))
    else .ok header

/-- `SharedBuffer::open`. -/
def openBuffer (s : σ) (name id : String) : Except Fault (SharedBuffer η) :=
  match m.openSegment s name with
  | .error msg =>
    if Text.contains "not found" msg || Text.contains "NotFound" msg then
      .error (.error (.notFound name))
    else .error (.error (.internal ("SharedMemory::open failed: " ++ msg)))
  | .ok handle =>
    if m.size handle < headerSize then
      .error (.error (.invalidArgument "segment too small to be a SharedBuffer"))
    else
      match readHeaderBytes m s handle with
      | .error e => .error e
      | .ok header => .ok ⟨handle, header.capacity.toNat, id⟩

/-- `read_header_from`. -/
def readHeader (s : σ) (handle : η) : Except Fault RegionHeader :=
  if m.size handle < headerSize then .error (.error (.internal "shm too small for header"))
  else readHeaderBytes m s handle

/-- `SharedBuffer::write`: the result, and the state that is left. -/
def write (s : σ) (buf : SharedBuffer η) (data : Bytes) : Except Fault Nat × σ :=
  if buf.capacity < data.length then
    (.error (.error (.bufferTooSmall data.length buf.capacity)), s)
  else
    match readHeader m s buf.handle with
    | .error e => (.error e, s)
    | .ok existing =>
      let header : RegionHeader :=
        ⟨headerMagic, .ofNat data.length, .ofNat buf.capacity, existing.createdAtSecs,
          existing.ttlSecs, 0⟩
      match m.write s buf.handle 0 (encodeHeader header) with
      | .error e => (.error (.error (.internal ("header write failed: " ++ e))), s)
      | .ok t =>
        match m.write t buf.handle headerSize data with
        | .error e => (.error (.error (.internal ("data write failed: " ++ e))), t)
        | .ok u => (.ok data.length, u)

def read (s : σ) (buf : SharedBuffer η) : Except Fault Bytes :=
  match readHeader m s buf.handle with
  | .error e => .error e
  | .ok header =>
    let len := header.dataLen.toNat
    if len = 0 then .ok []
    -- The sum is one of `usize`.
    else if 18446744073709551616 ≤ headerSize + len then .error .panic
    else if m.size buf.handle < headerSize + len then
      .error (.error (.internal "header data_len exceeds shm size"))
    else
      match m.read s buf.handle headerSize len with
      | .error e => .error (.error (.internal ("data read failed: " ++ e)))
      | .ok bytes => .ok bytes

def dataLen (s : σ) (buf : SharedBuffer η) : Except Fault Nat :=
  match readHeader m s buf.handle with
  | .error e => .error e
  | .ok header => .ok header.dataLen.toNat

/-- `is_header_expired`, at a time. Zero means that the buffer never expires. -/
def isHeaderExpired (header : RegionHeader) (now : UInt64) : Bool :=
  if header.ttlSecs = 0 then false
  else decide (header.ttlSecs.toNat < now.toNat - header.createdAtSecs.toNat)

/-- `SharedBuffer::is_expired`, at a time. -/
def isExpired (s : σ) (buf : SharedBuffer η) (now : UInt64) : Except Fault Bool :=
  match readHeader m s buf.handle with
  | .error e => .error e
  | .ok header => .ok (isHeaderExpired header now)

/-- `SharedBuffer::clear`: the result, and the state that is left. Only the header
    is written. -/
def clear (s : σ) (buf : SharedBuffer η) : Except Fault Unit × σ :=
  match readHeader m s buf.handle with
  | .error e => (.error e, s)
  | .ok existing =>
    let header : RegionHeader :=
      ⟨headerMagic, 0, .ofNat buf.capacity, existing.createdAtSecs, existing.ttlSecs, 0⟩
    match m.write s buf.handle 0 (encodeHeader header) with
    | .error e => (.error (.error (.internal ("clear header write failed: " ++ e))), s)
    | .ok t => (.ok (), t)

structure BufferDescriptor where
  id : String
  name : String
  capacity : Nat
  ttlSecs : UInt64
  deriving DecidableEq

def fromBuffer (s : σ) (buf : SharedBuffer η) : Except Fault BufferDescriptor :=
  match readHeader m s buf.handle with
  | .error e => .error e
  | .ok header =>
    match segmentName buf.id with
    | none => .error .panic
    | some name => .ok ⟨buf.id, name, buf.capacity, header.ttlSecs⟩

end Operations

/-! ## What is stored -/

section Stored

variable (m : SharedMemory σ η) (B : Backed m)

/-- The segment is a buffer of this capacity that holds the data. -/
structure Stored (s : σ) (name : String) (capacity : Nat) (data bytes : Bytes)
    (header : RegionHeader) : Prop where
  contents : B.contents s name = some bytes
  length : bytes.length = headerSize + capacity
  front : bytes.take headerSize = encodeHeader header
  magic : header.magic = headerMagic
  dataLen : header.dataLen.toNat = data.length
  recorded : header.capacity.toNat = capacity
  fits : data.length ≤ capacity
  behind : (bytes.drop headerSize).take data.length = data

/-- The segment holds the data. -/
def Holds (s : σ) (name : String) (capacity : Nat) (data : Bytes) : Prop :=
  ∃ bytes header, Stored m B s name capacity data bytes header

/-- The handle of the buffer maps the whole segment. -/
structure Maps (buf : SharedBuffer η) (name : String) (capacity : Nat) : Prop where
  segment : B.segment buf.handle = name
  size : headerSize + capacity ≤ m.size buf.handle
  capacity : buf.capacity = capacity

variable {m B}

theorem readHeader_ok (s : σ) (handle : η) (name : String) (capacity : Nat) (data bytes : Bytes)
    (header : RegionHeader) (h : Stored m B s name capacity data bytes header)
    (hsegment : B.segment handle = name) (hsize : headerSize ≤ m.size handle) :
    readHeader m s handle = .ok header := by
  have hlength := h.length
  have hread := B.read_ok s handle bytes 0 headerSize (hsegment ▸ h.contents) (by omega)
  unfold readHeader readHeaderBytes
  rw [if_neg (Nat.not_lt.mpr hsize), hread]
  simp [h.front, decode_encodeHeader, h.magic]

/-- A buffer that is created has a name, and the system has accepted it. -/
theorem createWithTtl_name (s t : σ) (now : UInt64) (id : String) (capacity : Nat)
    (ttl : Option UInt64) (buf : SharedBuffer η)
    (h : createWithTtl m s now id capacity ttl = .ok (buf, t)) :
    ∃ name, segmentName id = some name ∧ ∃ r, m.create s name (headerSize + capacity) = .ok r := by
  unfold createWithTtl at h
  split at h
  next => cases h
  next =>
    split at h
    next => cases h
    next name hname =>
      split at h
      next => split at h <;> cases h
      next r hr => exact ⟨name, hname, _, hr⟩

/-- A buffer that is created in a segment of its own has a fresh header. -/
theorem createWithTtl_stored (s t : σ) (now : UInt64) (id name : String) (capacity : Nat)
    (ttl : Option UInt64) (buf : SharedBuffer η) (hname : segmentName id = some name)
    (hfresh : B.contents s name = none) (hcapacity : capacity < 18446744073709551616)
    (h : createWithTtl m s now id capacity ttl = .ok (buf, t)) :
    buf.id = id ∧ Maps m B buf name capacity ∧
      (∃ bytes, Stored m B t name capacity [] bytes (freshHeader capacity ttl now)) ∧
      ∀ other, other ≠ name → B.contents t other = B.contents s other := by
  unfold createWithTtl at h
  split at h
  next => simp only [reduceCtorEq] at h
  next =>
    rw [hname] at h
    simp only at h
    split at h
    next => split at h <;> simp only [reduceCtorEq] at h
    next handle u hcreate =>
      rcases B.create_ok s u name _ handle hfresh hcreate with ⟨hsegment, hsize, bytes, hlength, hu⟩
      have hcontents : B.contents u (B.segment handle) = some bytes := by
        rw [hsegment, hu, Function.update_self]
      -- The segment is as long as the header and the data.
      have hheader := length_encodeHeader (freshHeader capacity ttl now)
      have hwithin : 0 + (encodeHeader (freshHeader capacity ttl now)).length ≤ bytes.length := by
        omega
      rcases B.write_ok u handle bytes 0 _ hcontents hwithin with ⟨v, hwrite, hv⟩
      rw [hwrite] at h
      simp only [Except.ok.injEq, Prod.mk.injEq] at h
      rcases h with ⟨rfl, rfl⟩
      refine ⟨rfl, ⟨hsegment, hsize, rfl⟩,
        ⟨overwrite bytes 0 (encodeHeader (freshHeader capacity ttl now)), ?_⟩, ?_⟩
      · constructor
        · rw [hv, hsegment, Function.update_self]
        · rw [length_overwrite _ _ _ hwithin, hlength]
        · have hfront := take_drop_overwrite bytes 0 _ hwithin
          rw [hheader, List.drop_zero] at hfront
          exact hfront
        · rfl
        · rfl
        · exact UInt64.toNat_ofNat_of_lt' hcapacity
        · exact Nat.zero_le _
        · rfl
      · intro other hother
        rw [hv, hsegment, Function.update_of_ne hother, hu, Function.update_of_ne hother]

/-- A buffer that is created in a segment of its own. -/
theorem createWithTtl_ok (s t : σ) (now : UInt64) (id name : String) (capacity : Nat)
    (ttl : Option UInt64) (buf : SharedBuffer η) (hname : segmentName id = some name)
    (hfresh : B.contents s name = none) (hcapacity : capacity < 18446744073709551616)
    (h : createWithTtl m s now id capacity ttl = .ok (buf, t)) :
    buf.id = id ∧ Maps m B buf name capacity ∧ Holds m B t name capacity [] ∧
      ∀ other, other ≠ name → B.contents t other = B.contents s other := by
  rcases createWithTtl_stored s t now id name capacity ttl buf hname hfresh hcapacity h with
    ⟨hid, hmaps, ⟨bytes, hstored⟩, hframe⟩
  exact ⟨hid, hmaps, ⟨bytes, _, hstored⟩, hframe⟩

/-- A buffer is created if the system has a segment for it. -/
theorem createWithTtl_total (s u : σ) (now : UInt64) (id name : String) (capacity : Nat)
    (ttl : Option UInt64) (handle : η) (hname : segmentName id = some name)
    (hfresh : B.contents s name = none) (hpos : 0 < capacity)
    (hcreate : m.create s name (headerSize + capacity) = .ok (handle, u)) :
    ∃ buf t, createWithTtl m s now id capacity ttl = .ok (buf, t) := by
  rcases B.create_ok s u name _ handle hfresh hcreate with ⟨hsegment, hsize, bytes, hlength, hu⟩
  have hheader := length_encodeHeader (freshHeader capacity ttl now)
  rcases B.write_ok u handle bytes 0 (encodeHeader (freshHeader capacity ttl now))
    (by rw [hsegment, hu, Function.update_self]) (by omega) with ⟨v, hwrite, hv⟩
  refine ⟨⟨handle, capacity, id⟩, v, ?_⟩
  unfold createWithTtl
  rw [if_neg (Nat.ne_of_gt hpos), hname]
  simp only [hcreate, hwrite]

/-- What is written is stored, under a header with the same lifetime. -/
theorem write_stored (s : σ) (buf : SharedBuffer η) (name : String) (capacity : Nat)
    (old data bytes : Bytes) (existing : RegionHeader)
    (hcapacity : capacity < 18446744073709551616) (hmaps : Maps m B buf name capacity)
    (hstored : Stored m B s name capacity old bytes existing) (hfits : data.length ≤ capacity) :
    ∃ t bytes' header, write m s buf data = (.ok data.length, t) ∧
      Stored m B t name capacity data bytes' header ∧ header.ttlSecs = existing.ttlSecs ∧
      ∀ other, other ≠ name → B.contents t other = B.contents s other := by
  have hlength := hstored.length
  have hread := readHeader_ok s buf.handle name capacity old bytes existing hstored hmaps.segment
    (Nat.le_trans (Nat.le_add_right _ _) hmaps.size)
  have hlt : ¬ buf.capacity < data.length := by
    rw [hmaps.capacity]
    omega
  let header : RegionHeader :=
    ⟨headerMagic, .ofNat data.length, .ofNat buf.capacity, existing.createdAtSecs,
      existing.ttlSecs, 0⟩
  have hheader := length_encodeHeader header
  have hfirst : 0 + (encodeHeader header).length ≤ bytes.length := by omega
  rcases B.write_ok s buf.handle bytes 0 (encodeHeader header)
    (hmaps.segment ▸ hstored.contents) hfirst with ⟨t, ht, htcontents⟩
  rw [hmaps.segment] at htcontents
  -- The data goes behind the header that was written first.
  have hbytes := length_overwrite bytes 0 (encodeHeader header) hfirst
  have hsecond : headerSize + data.length ≤ (overwrite bytes 0 (encodeHeader header)).length := by
    omega
  rcases B.write_ok t buf.handle (overwrite bytes 0 (encodeHeader header)) headerSize data
    (by rw [hmaps.segment, htcontents, Function.update_self]) hsecond with ⟨u, hu, hucontents⟩
  rw [hmaps.segment] at hucontents
  refine ⟨u, overwrite (overwrite bytes 0 (encodeHeader header)) headerSize data, header, ?_, ?_,
    rfl, ?_⟩
  · unfold write
    rw [if_neg hlt, hread]
    simp only [ht, hu, header]
  · constructor
    · rw [hucontents, Function.update_self]
    · rw [length_overwrite _ _ _ hsecond, hbytes, hstored.length]
    · have hfront := take_drop_overwrite bytes 0 (encodeHeader header) hfirst
      rw [List.drop_zero, hheader] at hfront
      rw [take_overwrite _ headerSize headerSize data hsecond (Nat.le_refl _), hfront]
    · rfl
    · exact UInt64.toNat_ofNat_of_lt' (Nat.lt_of_le_of_lt hfits hcapacity)
    · exact (UInt64.toNat_ofNat_of_lt' (hmaps.capacity ▸ hcapacity)).trans hmaps.capacity
    · exact hfits
    · exact take_drop_overwrite _ headerSize data hsecond
  · intro other hother
    rw [hucontents, Function.update_of_ne hother, htcontents, Function.update_of_ne hother]

/-- What is written is stored, and nothing else changes. -/
theorem write_ok (s : σ) (buf : SharedBuffer η) (name : String) (capacity : Nat) (old data : Bytes)
    (hcapacity : capacity < 18446744073709551616) (hmaps : Maps m B buf name capacity)
    (hold : Holds m B s name capacity old) (hfits : data.length ≤ capacity) :
    ∃ t, write m s buf data = (.ok data.length, t) ∧ Holds m B t name capacity data ∧
      ∀ other, other ≠ name → B.contents t other = B.contents s other := by
  rcases hold with ⟨bytes, existing, hstored⟩
  rcases write_stored s buf name capacity old data bytes existing hcapacity hmaps hstored hfits with
    ⟨t, bytes', header, hwrite, hstored', _, hframe⟩
  exact ⟨t, hwrite, ⟨bytes', header, hstored'⟩, hframe⟩

/-- Clearing leaves nothing to read, under a header with the same lifetime. -/
theorem clear_stored (s : σ) (buf : SharedBuffer η) (name : String) (capacity : Nat)
    (old bytes : Bytes) (existing : RegionHeader)
    (hcapacity : capacity < 18446744073709551616) (hmaps : Maps m B buf name capacity)
    (hstored : Stored m B s name capacity old bytes existing) :
    ∃ t bytes' header, clear m s buf = (.ok (), t) ∧
      Stored m B t name capacity [] bytes' header ∧ header.ttlSecs = existing.ttlSecs ∧
      ∀ other, other ≠ name → B.contents t other = B.contents s other := by
  have hlength := hstored.length
  have hread := readHeader_ok s buf.handle name capacity old bytes existing hstored hmaps.segment
    (Nat.le_trans (Nat.le_add_right _ _) hmaps.size)
  let header : RegionHeader :=
    ⟨headerMagic, 0, .ofNat buf.capacity, existing.createdAtSecs, existing.ttlSecs, 0⟩
  have hheader := length_encodeHeader header
  have hwithin : 0 + (encodeHeader header).length ≤ bytes.length := by omega
  rcases B.write_ok s buf.handle bytes 0 (encodeHeader header)
    (hmaps.segment ▸ hstored.contents) hwithin with ⟨t, ht, hcontents⟩
  rw [hmaps.segment] at hcontents
  refine ⟨t, overwrite bytes 0 (encodeHeader header), header, ?_, ?_, rfl, ?_⟩
  · unfold clear
    rw [hread]
    simp only [ht, header]
  · constructor
    · rw [hcontents, Function.update_self]
    · rw [length_overwrite _ _ _ hwithin, hstored.length]
    · have hfront := take_drop_overwrite bytes 0 (encodeHeader header) hwithin
      rw [List.drop_zero, hheader] at hfront
      exact hfront
    · rfl
    · rfl
    · exact (UInt64.toNat_ofNat_of_lt' (hmaps.capacity ▸ hcapacity)).trans hmaps.capacity
    · exact Nat.zero_le _
    · rfl
  · intro other hother
    rw [hcontents, Function.update_of_ne hother]

/-- What is stored is read. -/
theorem read_ok (s : σ) (buf : SharedBuffer η) (name : String) (capacity : Nat) (data : Bytes)
    (hdata : headerSize + data.length < 18446744073709551616)
    (hmaps : Maps m B buf name capacity) (h : Holds m B s name capacity data) :
    read m s buf = .ok data := by
  rcases h with ⟨bytes, header, hstored⟩
  have hlength := hstored.length
  have hfits := hstored.fits
  have hsize := hmaps.size
  have hheader := readHeader_ok s buf.handle name capacity data bytes header hstored hmaps.segment
    (Nat.le_trans (Nat.le_add_right _ _) hmaps.size)
  unfold read
  rw [hheader]
  simp only [hstored.dataLen]
  by_cases hempty : data.length = 0
  · rw [if_pos hempty, List.length_eq_zero_iff.mp hempty]
  · have hread := B.read_ok s buf.handle bytes headerSize data.length
      (hmaps.segment ▸ hstored.contents) (by omega)
    rw [if_neg hempty, if_neg (Nat.not_le.mpr hdata), if_neg (by omega), hread]
    simp only [hstored.behind]

/-- A buffer can be opened by the name of its segment. -/
theorem openBuffer_ok (s : σ) (name id : String) (capacity : Nat) (data : Bytes)
    (h : Holds m B s name capacity data) :
    ∃ buf, openBuffer m s name id = .ok buf ∧ Maps m B buf name capacity := by
  rcases h with ⟨bytes, header, hstored⟩
  rcases B.open_ok s name bytes hstored.contents with ⟨handle, hopen, hsegment, hsize⟩
  rw [hstored.length] at hsize
  have hheader := readHeader_ok s handle name capacity data bytes header hstored hsegment
    (Nat.le_trans (Nat.le_add_right _ _) hsize)
  unfold readHeader at hheader
  rw [if_neg (by omega)] at hheader
  refine ⟨⟨handle, header.capacity.toNat, id⟩, ?_, hsegment, hsize, hstored.recorded⟩
  unfold openBuffer
  rw [hopen]
  simp only [hheader]
  exact if_neg (by omega)

theorem fromBuffer_ok (s : σ) (buf : SharedBuffer η) (name : String) (capacity : Nat)
    (data : Bytes) (hname : segmentName buf.id = some name) (hmaps : Maps m B buf name capacity)
    (h : Holds m B s name capacity data) :
    ∃ ttl, fromBuffer m s buf = .ok ⟨buf.id, name, capacity, ttl⟩ := by
  rcases h with ⟨bytes, header, hstored⟩
  have hheader := readHeader_ok s buf.handle name capacity data bytes header hstored hmaps.segment
    (Nat.le_trans (Nat.le_add_right _ _) hmaps.size)
  refine ⟨header.ttlSecs, ?_⟩
  unfold fromBuffer
  rw [hheader, hname]
  simp only [hmaps.capacity]

/-- What is stored is stored in every state in which the segment is the same. -/
theorem holds_congr (s t : σ) (name : String) (capacity : Nat) (data : Bytes)
    (hsame : B.contents t name = B.contents s name) (h : Holds m B s name capacity data) :
    Holds m B t name capacity data := by
  rcases h with ⟨bytes, header, hstored⟩
  exact ⟨bytes, header, { hstored with contents := hsame.trans hstored.contents }⟩

end Stored

end Shm

end DccMcp
