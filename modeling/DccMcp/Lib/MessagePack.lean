import DccMcp.Lib.Text

/-!
# MessagePack

The part of the MessagePack format that serializers of plain records use:
integers without a sign, texts, arrays and maps with text keys. Every item
starts with a marker that says what it is, and the shortest form is taken: a
small number, or a small length, is part of the marker.

A list of bytes that is written as an array, and not as the binary type of
the format, takes one byte for each that is below 128 and two for each that
is not. `length_encode_bytes` counts them.

## Main definitions

* `Value`: What is written.
* `encode`: The bytes of a value.

## Theorems

* `length_encode_bytes`: The length of an array of bytes.
-/

namespace DccMcp

namespace MessagePack

/-- What is written. -/
inductive Value
  | nil
  | bool (b : Bool)
  | uint (n : Nat)
  | str (s : String)
  | array (items : List Value)
  | map (entries : List (String × Value))

/-- The last bytes of a number, the highest first. -/
def bigEndian : Nat → Nat → Bytes
  | 0, _ => []
  | width + 1, n => .ofNat (n / 256 ^ width) :: bigEndian width n

/-- A number without a sign. -/
def uintBytes (n : Nat) : Bytes :=
  if n < 2 ^ 7 then [.ofNat n]
  else if n < 2 ^ 8 then 0xcc :: bigEndian 1 n
  else if n < 2 ^ 16 then 0xcd :: bigEndian 2 n
  else if n < 2 ^ 32 then 0xce :: bigEndian 4 n
  else 0xcf :: bigEndian 8 n

/-- The marker of a text of a length. -/
def strHeader (length : Nat) : Bytes :=
  if length < 32 then [.ofNat (0xa0 + length)]
  else if length < 2 ^ 8 then 0xd9 :: bigEndian 1 length
  else if length < 2 ^ 16 then 0xda :: bigEndian 2 length
  else 0xdb :: bigEndian 4 length

/-- The marker of an array of a length. -/
def arrayHeader (length : Nat) : Bytes :=
  if length < 16 then [.ofNat (0x90 + length)]
  else if length < 2 ^ 16 then 0xdc :: bigEndian 2 length
  else 0xdd :: bigEndian 4 length

/-- The marker of a map with a number of entries. -/
def mapHeader (length : Nat) : Bytes :=
  if length < 16 then [.ofNat (0x80 + length)]
  else if length < 2 ^ 16 then 0xde :: bigEndian 2 length
  else 0xdf :: bigEndian 4 length

/-- A text. -/
def strBytes (s : String) : Bytes := strHeader (Text.utf8 s).length ++ Text.utf8 s

mutual

/-- The bytes of a value. -/
def encode : Value → Bytes
  | .nil => [0xc0]
  | .bool b => [if b then 0xc3 else 0xc2]
  | .uint n => uintBytes n
  | .str s => strBytes s
  | .array items => arrayHeader items.length ++ encodeItems items
  | .map entries => mapHeader entries.length ++ encodeEntries entries

def encodeItems : List Value → Bytes
  | [] => []
  | item :: rest => encode item ++ encodeItems rest

def encodeEntries : List (String × Value) → Bytes
  | [] => []
  | (key, value) :: rest => strBytes key ++ encode value ++ encodeEntries rest

end

/-! ## Lengths -/

theorem length_bigEndian (width n : Nat) : (bigEndian width n).length = width := by
  induction width with
  | zero => rfl
  | succ width ih => rw [bigEndian, List.length_cons, ih]

/-- A number is one to five bytes, if it fits into 32 bits. -/
theorem length_uintBytes (n : Nat) (h : n < 2 ^ 32) :
    (uintBytes n).length =
      if n < 2 ^ 7 then 1 else if n < 2 ^ 8 then 2 else if n < 2 ^ 16 then 3 else 5 := by
  unfold uintBytes
  split
  · rfl
  · split
    · rw [List.length_cons, length_bigEndian]
    · split
      · rw [List.length_cons, length_bigEndian]
      · rw [List.length_cons, length_bigEndian]

theorem length_arrayHeader (length : Nat) :
    (arrayHeader length).length = if length < 16 then 1 else if length < 2 ^ 16 then 3 else 5 := by
  unfold arrayHeader
  split
  · rfl
  · split <;> rw [List.length_cons, length_bigEndian]

/-- A list of bytes as a value. -/
def ofBytes (bytes : Bytes) : Value := .array (bytes.map (fun b => .uint b.toNat))

/-- A byte takes one byte more if it is not below 128. -/
theorem length_uintBytes_byte (b : UInt8) :
    (uintBytes b.toNat).length = if 128 ≤ b then 2 else 1 := by
  have hlt : b.toNat < 256 := b.toNat_lt
  rw [length_uintBytes b.toNat (by omega)]
  have hle : 128 ≤ b ↔ 128 ≤ b.toNat := UInt8.le_iff_toNat_le
  by_cases h : b.toNat < 2 ^ 7
  · rw [if_pos h, if_neg (by rw [hle]; omega)]
  · rw [if_neg h, if_pos (by omega), if_pos (by rw [hle]; omega)]

theorem length_encodeItems_bytes (bytes : Bytes) :
    (encodeItems (bytes.map (fun b => Value.uint b.toNat))).length =
      bytes.length + bytes.countP (128 ≤ ·) := by
  induction bytes with
  | nil => rfl
  | cons b rest ih =>
      rw [List.map_cons, encodeItems, List.length_append, ih, encode, length_uintBytes_byte,
        List.length_cons, List.countP_cons]
      simp only [decide_eq_true_eq]
      split <;> omega

/-- An array of bytes is a marker and one or two bytes for each. -/
theorem length_encode_bytes (bytes : Bytes) :
    (encode (ofBytes bytes)).length =
      (arrayHeader bytes.length).length + (bytes.length + bytes.countP (128 ≤ ·)) := by
  rw [ofBytes, encode, List.length_append, length_encodeItems_bytes, List.length_map]

end MessagePack

end DccMcp
