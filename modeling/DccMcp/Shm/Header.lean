import DccMcp.Shm.Chunked

/-!
# Headers from Other Processes

What the operations of a buffer make of a header that another process has left.

Whoever can open a segment can write to it, so its header may hold any lengths. They are
numbers of 64 bits, which the operations add to the length of the header and compare with the
size of the mapping, with the capacity, or with nothing. The mapping itself is a parameter;
`Mapping` says that it lets through exactly the ranges that lie inside it.

Two combinations are not guarded. The sum that `read` compares with the size can overflow, and
`write` trusts the capacity of the header: it writes the new length before it finds out that
the data does not fit into the mapping.

## Main definitions

* `Mapping`: What the memory behind a handle does.
* `Inside`: A slice that lies inside a mapping.
* `HeaderLaw`: What is to hold of every header.
* `Guarded`: The headers of which it holds.

## Theorems

* `header_law_iff`: The law holds exactly of the guarded headers.
-/

namespace DccMcp

namespace Shm

open Blocks

variable {σ η : Type}

/-- The memory behind each handle: it is as long as the handle says, and a read or a write is
    done if it lies inside, and refused otherwise. -/
structure Mapping (m : SharedMemory σ η) where
  bytes : σ → η → Bytes
  length_bytes : ∀ s h, (bytes s h).length = m.size h
  size_lt : ∀ h, m.size h < 18446744073709551616
  read_in : ∀ s h offset len, offset + len ≤ m.size h →
    m.read s h offset len = .ok (((bytes s h).drop offset).take len)
  read_out : ∀ s h offset len, m.size h < offset + len → ∃ e, m.read s h offset len = .error e
  write_in : ∀ s h offset data, offset + data.length ≤ m.size h →
    ∃ t, m.write s h offset data = .ok t ∧ bytes t h = overwrite (bytes s h) offset data
  write_out : ∀ s h offset data, m.size h < offset + data.length →
    ∃ e, m.write s h offset data = .error e

section Law

variable {m : SharedMemory σ η} (M : Mapping m)

/-- A slice of the mapping. -/
def Inside (s : σ) (h : η) (slice : Bytes) : Prop :=
  ∃ offset, offset + slice.length ≤ m.size h ∧
    slice = ((M.bytes s h).drop offset).take slice.length

/-- The header that is in the mapping. -/
def headerOf (s : σ) (h : η) : RegionHeader := decodeHeader ((M.bytes s h).take headerSize)

/-- The mapping has a header. -/
def Valid (s : σ) (h : η) : Prop :=
  headerSize ≤ m.size h ∧ (headerOf M s h).magic = headerMagic

/-- What is to hold of every header: `open` and `read` return an error or what is inside the
    mapping, without a panic, and a write that fails leaves what can be read. -/
structure HeaderLaw (s : σ) (name id : String) (buf : SharedBuffer η) (data : Slice) : Prop where
  opened : openBuffer m s name id ≠ .error .panic
  openedInside : ∀ opened, openBuffer m s name id = .ok opened →
    ∃ slice, Inside M s opened.handle slice ∧
      opened.capacity = (decodeHeader slice).capacity.toNat
  read : read m s buf ≠ .error .panic
  readInside : ∀ slice, Shm.read m s buf = .ok slice → Inside M s buf.handle slice
  kept : ∀ fault t, write m s buf data.bytes = (.error fault, t) →
    ∀ old, Shm.read m s buf = .ok old → Shm.read m t buf = .ok old

/-- A header whose lengths are guarded: the length of its data can be added to its own, and if
    its data is inside the mapping, so is the new data, or it exceeds the capacity. -/
def Guarded (s : σ) (buf : SharedBuffer η) (data : Slice) : Prop :=
  Valid M s buf.handle →
    headerSize + (headerOf M s buf.handle).dataLen.toNat < 18446744073709551616 ∧
    (headerSize + (headerOf M s buf.handle).dataLen.toNat ≤ m.size buf.handle →
      buf.capacity < data.bytes.length ∨
        headerSize + data.bytes.length ≤ m.size buf.handle)

variable (s : σ) (buf : SharedBuffer η)

theorem inside_of_le (h : η) (offset len : Nat) (hle : offset + len ≤ m.size h) :
    Inside M s h (((M.bytes s h).drop offset).take len) := by
  have hlength : (((M.bytes s h).drop offset).take len).length = len := by
    rw [List.length_take, List.length_drop, M.length_bytes]
    omega
  refine ⟨offset, ?_, ?_⟩
  · rw [hlength]
    exact hle
  · rw [hlength]

theorem readHeaderBytes_eq (h : η) (hsize : headerSize ≤ m.size h) : readHeaderBytes m s h =
      if (headerOf M s h).magic ≠ headerMagic then
        .error (.error (.internal "invalid magic bytes in header"))
      else .ok (headerOf M s h) := by
  have hread := M.read_in s h 0 headerSize (by omega)
  rw [List.drop_zero] at hread
  unfold readHeaderBytes
  rw [hread]
  rfl

theorem readHeader_valid (h : η) (hvalid : Valid M s h) :
    readHeader m s h = .ok (headerOf M s h) := by
  unfold readHeader
  rw [if_neg (Nat.not_lt.mpr hvalid.1), readHeaderBytes_eq M s h hvalid.1,
    if_neg (not_not_intro hvalid.2)]

theorem readHeader_invalid (h : η) (hvalid : ¬ Valid M s h) :
    ∃ e, readHeader m s h = .error (.error e) := by
  unfold readHeader
  by_cases hsize : m.size h < headerSize
  · exact ⟨_, if_pos hsize⟩
  · rw [if_neg hsize, readHeaderBytes_eq M s h (Nat.not_lt.mp hsize)]
    exact ⟨_, if_pos (fun hmagic => hvalid ⟨Nat.not_lt.mp hsize, hmagic⟩)⟩

/-- Without a header nothing is read. -/
theorem read_invalid (hvalid : ¬ Valid M s buf.handle) :
    ∃ e, Shm.read m s buf = .error (.error e) := by
  rcases readHeader_invalid M s buf.handle hvalid with ⟨e, he⟩
  unfold Shm.read
  rw [he]
  exact ⟨e, rfl⟩

/-- What is read under a header: the sum overflows, or exceeds the mapping, or the data is
    inside it. -/
theorem read_valid (hvalid : Valid M s buf.handle) : Shm.read m s buf =
      if 18446744073709551616 ≤ headerSize + (headerOf M s buf.handle).dataLen.toNat then
        .error .panic
      else if m.size buf.handle < headerSize + (headerOf M s buf.handle).dataLen.toNat then
        .error (.error (.internal "header data_len exceeds shm size"))
      else .ok (((M.bytes s buf.handle).drop headerSize).take
        (headerOf M s buf.handle).dataLen.toNat) := by
  have hsize := hvalid.1
  have hlt := M.size_lt buf.handle
  unfold Shm.read
  rw [readHeader_valid M s buf.handle hvalid]
  dsimp only
  by_cases hzero : (headerOf M s buf.handle).dataLen.toNat = 0
  · rw [if_pos hzero, hzero, if_neg (by omega), if_neg (by omega), List.take_zero]
  · rw [if_neg hzero]
    split
    · rfl
    · split
      · rfl
      next hle => rw [M.read_in s buf.handle headerSize _ (Nat.not_lt.mp hle)]

/-- An error is no panic, and opens nothing. -/
theorem safe_of_error (e : ShmError) (p : SharedBuffer η → Prop) :
    (.error (.error e) : Except Fault (SharedBuffer η)) ≠ .error .panic ∧
      ∀ opened, (.error (.error e) : Except Fault (SharedBuffer η)) = .ok opened → p opened := by
  constructor
  · intro h
    cases h
  · intro opened h
    cases h

/-- Opening never panics, and what it reads is inside the mapping. -/
theorem openBuffer_safe (name id : String) : openBuffer m s name id ≠ .error .panic ∧
      ∀ opened, openBuffer m s name id = .ok opened →
        ∃ slice, Inside M s opened.handle slice ∧
          opened.capacity = (decodeHeader slice).capacity.toNat := by
  unfold openBuffer
  cases m.openSegment s name with
  | error msg =>
      dsimp only
      split <;> exact safe_of_error _ _
  | ok handle =>
      dsimp only
      by_cases hsize : m.size handle < headerSize
      · rw [if_pos hsize]
        exact safe_of_error _ _
      · rw [if_neg hsize, readHeaderBytes_eq M s handle (Nat.not_lt.mp hsize)]
        by_cases hmagic : (headerOf M s handle).magic ≠ headerMagic
        · rw [if_pos hmagic]
          exact safe_of_error _ _
        · rw [if_neg hmagic]
          refine ⟨fun hpanic => ?_, fun opened h => ?_⟩
          · cases hpanic
          · cases h
            refine ⟨((M.bytes s handle).drop 0).take headerSize,
              inside_of_le M s handle 0 headerSize (by omega), ?_⟩
            rw [List.drop_zero]
            rfl

/-- What is read under a header is guarded exactly if the sum does not overflow. -/
theorem read_safe_iff (hvalid : Valid M s buf.handle) : Shm.read m s buf ≠ .error .panic ↔
      headerSize + (headerOf M s buf.handle).dataLen.toNat < 18446744073709551616 := by
  rw [read_valid M s buf hvalid]
  constructor
  · intro h
    by_contra hle
    exact h (if_pos (Nat.not_lt.mp hle))
  · intro hlt
    rw [if_neg (Nat.not_le.mpr hlt)]
    split <;> exact fun h => by cases h

theorem read_inside (slice : Bytes) (h : Shm.read m s buf = .ok slice) :
    Inside M s buf.handle slice := by
  by_cases hvalid : Valid M s buf.handle
  · rw [read_valid M s buf hvalid] at h
    split at h
    next => cases h
    next =>
      split at h
      next => cases h
      next hle =>
        cases h
        exact inside_of_le M s buf.handle headerSize _ (Nat.not_lt.mp hle)
  · rcases read_invalid M s buf hvalid with ⟨e, he⟩
    rw [he] at h
    cases h

/-- What can be read under a header is what fits into the mapping. -/
theorem read_ok_iff (hvalid : Valid M s buf.handle) : (∃ old, Shm.read m s buf = .ok old) ↔
      headerSize + (headerOf M s buf.handle).dataLen.toNat ≤ m.size buf.handle := by
  have hlt := M.size_lt buf.handle
  rw [read_valid M s buf hvalid]
  constructor
  · rintro ⟨old, h⟩
    split at h
    next => cases h
    next =>
      split at h
      next => cases h
      next hle => exact Nat.not_lt.mp hle
  · intro hle
    rw [if_neg (by omega), if_neg (by omega)]
    exact ⟨_, rfl⟩

/-- A write whose data does not fit into the mapping fails, under a header that gives the
    length of the new data, so that nothing can be read any more. -/
theorem write_overruns (data : Slice) (hvalid : Valid M s buf.handle)
    (hcapacity : data.bytes.length ≤ buf.capacity)
    (hsize : m.size buf.handle < headerSize + data.bytes.length) :
    ∃ fault t, write m s buf data.bytes = (.error fault, t) ∧
      ∀ old, Shm.read m t buf ≠ .ok old := by
  let header : RegionHeader :=
    ⟨headerMagic, .ofNat data.bytes.length, .ofNat buf.capacity,
      (headerOf M s buf.handle).createdAtSecs, (headerOf M s buf.handle).ttlSecs, 0⟩
  have hlength := length_encodeHeader header
  have hwithin : 0 + (encodeHeader header).length ≤ m.size buf.handle := by
    have hheader := hvalid.1
    omega
  rcases M.write_in s buf.handle 0 (encodeHeader header) hwithin with ⟨t, ht, hbytes⟩
  rcases M.write_out t buf.handle headerSize data.bytes hsize with ⟨e, he⟩
  -- The header that was written is the one that is read.
  have hheader : headerOf M t buf.handle = header := by
    rw [← M.length_bytes s buf.handle] at hwithin
    have hfront := take_drop_overwrite (M.bytes s buf.handle) 0 (encodeHeader header) hwithin
    rw [List.drop_zero, hlength] at hfront
    rw [headerOf, hbytes, hfront, decode_encodeHeader]
  have hvalid' : Valid M t buf.handle := ⟨hvalid.1, by rw [hheader]⟩
  have hdata : (headerOf M t buf.handle).dataLen.toNat = data.bytes.length := by
    have hlt := data.length_lt
    rw [hheader]
    exact UInt64.toNat_ofNat_of_lt' (Nat.lt_trans hlt (by decide))
  refine ⟨.error (.internal ("data write failed: " ++ e)), t, ?_, fun old hold => ?_⟩
  · unfold write
    rw [if_neg (Nat.not_lt.mpr hcapacity), readHeader_valid M s buf.handle hvalid]
    simp only [header] at ht
    simp only [ht, he]
  · have hle := (read_ok_iff M t buf hvalid').mp ⟨old, hold⟩
    rw [hdata] at hle
    omega

/-- A write that fails for any other reason changes nothing. -/
theorem write_refused (data : Slice)
    (h : ¬ Valid M s buf.handle ∨ buf.capacity < data.bytes.length ∨
      headerSize + data.bytes.length ≤ m.size buf.handle)
    (fault : Fault) (t : σ) (hwrite : write m s buf data.bytes = (.error fault, t)) : t = s := by
  unfold write at hwrite
  split at hwrite
  next => exact (Prod.mk.inj hwrite).2.symm
  next hcapacity =>
    by_cases hvalid : Valid M s buf.handle
    · rw [readHeader_valid M s buf.handle hvalid] at hwrite
      dsimp only at hwrite
      generalize hheader : (⟨headerMagic, .ofNat data.bytes.length, .ofNat buf.capacity,
        (headerOf M s buf.handle).createdAtSecs, (headerOf M s buf.handle).ttlSecs, 0⟩ :
          RegionHeader) = header at hwrite
      have hlength := length_encodeHeader header
      rcases M.write_in s buf.handle 0 (encodeHeader header)
        (by have hsize := hvalid.1; omega) with ⟨u, hu, _⟩
      rw [hu] at hwrite
      dsimp only at hwrite
      have hfits := (h.resolve_left (not_not_intro hvalid)).resolve_left hcapacity
      rcases M.write_in u buf.handle headerSize data.bytes hfits with ⟨v, hv, _⟩
      rw [hv] at hwrite
      cases (Prod.mk.inj hwrite).1
    · rcases readHeader_invalid M s buf.handle hvalid with ⟨e, he⟩
      rw [he] at hwrite
      exact (Prod.mk.inj hwrite).2.symm

/-- The law holds exactly where the lengths of the header are guarded. -/
theorem header_law_iff (s : σ) (name id : String) (buf : SharedBuffer η) (data : Slice) :
    HeaderLaw M s name id buf data ↔ Guarded M s buf data := by
  constructor
  · intro hlaw hvalid
    refine ⟨(read_safe_iff M s buf hvalid).mp hlaw.read, fun hle => ?_⟩
    by_contra hneither
    rw [not_or, Nat.not_lt, Nat.not_le] at hneither
    rcases (read_ok_iff M s buf hvalid).mpr hle with ⟨old, hold⟩
    rcases write_overruns M s buf data hvalid hneither.1 hneither.2 with
      ⟨fault, t, hwrite, hlost⟩
    exact hlost old (hlaw.kept fault t hwrite old hold)
  · intro hguarded
    rcases openBuffer_safe M s name id with ⟨hopened, hinside⟩
    refine
      { opened := hopened
        openedInside := hinside
        read := ?read
        readInside := read_inside M s buf
        kept := ?kept }
    case read =>
      by_cases hvalid : Valid M s buf.handle
      · exact (read_safe_iff M s buf hvalid).mpr (hguarded hvalid).1
      · rcases read_invalid M s buf hvalid with ⟨e, he⟩
        rw [he]
        intro hpanic
        cases hpanic
    case kept =>
      intro fault t hwrite old hold
      by_cases hvalid : Valid M s buf.handle
      · have hle := (read_ok_iff M s buf hvalid).mp ⟨old, hold⟩
        rw [write_refused M s buf data (.inr ((hguarded hvalid).2 hle)) fault t hwrite]
        exact hold
      · rw [write_refused M s buf data (.inl hvalid) fault t hwrite]
        exact hold

end Law

/-- A segment of a fixed size. -/
def oneMapping (n : Nat) : SharedMemory {bytes : Bytes // bytes.length = n} Unit where
  create := fun _ _ _ => .error "already exists"
  openSegment := fun _ _ => .ok ()
  size := fun _ => n
  read := fun s _ offset len =>
    if offset + len ≤ n then .ok ((s.1.drop offset).take len) else .error "out of bounds"
  write := fun s _ offset data =>
    if h : offset + data.length ≤ n then
      .ok ⟨overwrite s.1 offset data, by rw [length_overwrite _ _ _ (s.2.symm ▸ h), s.2]⟩
    else .error "out of bounds"

def oneMapped (n : Nat) (hn : n < 18446744073709551616) : Mapping (oneMapping n) where
  bytes := fun s _ => s.1
  length_bytes := fun s _ => s.2
  size_lt := fun _ => hn
  read_in := fun _ _ _ _ hle => if_pos hle
  read_out := fun _ _ _ _ hlt => ⟨_, if_neg (Nat.not_le.mpr hlt)⟩
  write_in := fun _ _ _ _ hle => ⟨_, dif_pos hle, rfl⟩
  write_out := fun _ _ _ _ hlt => ⟨_, dif_neg (Nat.not_le.mpr hlt)⟩

/-- The header of an empty mapping, with these lengths. -/
def leftBehind (dataLen capacity : UInt64) : {bytes : Bytes // bytes.length = 48} :=
  ⟨encodeHeader ⟨headerMagic, dataLen, capacity, 0, 0, 0⟩, length_encodeHeader _⟩

/-- The greatest length overflows, and the greatest capacity lets a write through that
    destroys the empty data. -/
theorem lengths_not_guarded :
    Shm.read (oneMapping 48) (leftBehind 18446744073709551615 0) ⟨(), 0, "ds_x"⟩ = .error .panic ∧
      ¬ HeaderLaw (oneMapped 48 (by decide)) (leftBehind 18446744073709551615 0) "ds_x" "x"
        ⟨(), 0, "x"⟩ ⟨[], by decide⟩ ∧
      ¬ HeaderLaw (oneMapped 48 (by decide)) (leftBehind 0 18446744073709551615) "ds_x" "x"
        ⟨(), 18446744073709551615, "x"⟩ ⟨[1], by decide⟩ := by
  refine ⟨by decide, fun hlaw => hlaw.read (by decide), fun hlaw => ?_⟩
  have hkept := hlaw.kept _ _ rfl [] (by decide)
  revert hkept
  decide

end Shm

end DccMcp
