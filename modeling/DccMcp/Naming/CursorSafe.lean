import DccMcp.Lib.Bytes

/-!
# Cursor-Safe Tool Names

The gateway publishes a backend tool under a name that carries the instance
it lives on, in an alphabet the strictest clients accept: `i_<id8>__<escaped>`.
The encoder and the decoder are separate functions, and the decoder has to
find the boundary between the instance prefix and the payload again, in a
text whose payload is full of the separator's own byte.

Three things make that work. The instance prefix is hexadecimal, so the first
`__` after `i_` is the separator. The escape writes every underscore of the
payload as a triple, so the payload is read back one symbol at a time. And
the decoder refuses what the encoder does not write: `unescapeLoop_eq_some`
says that a text which unescapes is the escape of its result, which is the
half of the codec the round trip does not give.

The recovery escape `_X<hex>_` is part of both functions, and no text decodes
through it. The scanner asks for an underscore two bytes after the one that
opens an escape, before it looks at the letter; the recovery escape has its
first hexadecimal digit there. So the arm is entered only to fail, and it is
what keeps the second half true: a lowercase digit would decode to the same
byte as an uppercase one.

The functions are those of a release build. In a debug build the encoder
also asserts that its output is a valid tool name, which bounds its length.

## Main definitions

* `Uuid`, `instanceShort`: Instance ids and their short form.
* `isLocalTool`, `isInstancePrefix`, `isCursorSafeAlphabet`: Classifiers.
* `escapeCursorSafe`, `unescapeCursorSafe`: The payload codec.
* `encodeToolNameCursorSafe`, `decodeToolName`: The wire name codec.
* `IsToolNameByte`: The alphabet of backend tool names.

## Theorems

* `cursor_safe_codec`: The codec is a bijection onto its image.
* `unescape_escape_iff`: The names that survive an escape.
-/

namespace DccMcp

namespace Naming

open Bytes

/-- A UUID, as its 128 bits. -/
structure Uuid where
  bits : BitVec 128
  deriving DecidableEq

/-- `Uuid::simple().to_string()`: 32 lowercase digits, the highest first. -/
def Uuid.simple (id : Uuid) : Bytes :=
  (List.range 32).map (fun i => hexDigitLower (id.bits.toNat / 16 ^ (31 - i) % 16))

/-- `ID_PREFIX_LEN`. -/
def idPrefixLen : Nat := 8

/-- `instance_short`: the first eight hexadecimal digits of an instance id. -/
def instanceShort (id : Uuid) : Bytes := id.simple.take idPrefixLen

/-- `GATEWAY_LOCAL_TOOLS`. -/
def gatewayLocalTools : List Bytes :=
  [ascii "lease", ascii "search", ascii "describe", ascii "call", ascii "load_skill",
    ascii "unload_skill"]

def isLocalTool (name : Bytes) : Bool := gatewayLocalTools.contains name

/-- `is_instance_prefix`: exactly eight hexadecimal digits. -/
def isInstancePrefix (s : Bytes) : Bool := s.length == idPrefixLen && s.all isAsciiHexdigit

def isCursorSafeAlphabet (s : Bytes) : Bool :=
  !s.isEmpty && s.all (fun b => isAsciiAlphanumeric b || b == byte '_')

/-- `CURSOR_SAFE_PREFIX`. -/
def cursorSafePrefix : Bytes := ascii "i_"

/-- `CURSOR_SAFE_SEP`. -/
def cursorSafeSep : Bytes := ascii "__"

/-- The uppercase digit `{:02X}` writes for a nibble. -/
def hexDigitUpper (n : Nat) : UInt8 :=
  if n < 10 then UInt8.ofNat (48 + n) else UInt8.ofNat (55 + n)

/-- One arm of the loop in `escape_cursor_safe`. -/
def escapeByte (b : UInt8) : Bytes :=
  if b = byte '_' then ascii "_U_"
  else if b = byte '.' then ascii "_D_"
  else if b = byte '-' then ascii "_H_"
  else if isAsciiAlphanumeric b then [b]
  else ascii "_X" ++ [hexDigitUpper (b.toNat / 16), hexDigitUpper (b.toNat % 16)] ++ ascii "_"

def escapeCursorSafe (s : Bytes) : Bytes := s.flatMap escapeByte

def hexNibble (b : UInt8) : Option UInt8 :=
  if byte '0' ≤ b ∧ b ≤ byte '9' then some (b - byte '0')
  else if byte 'A' ≤ b ∧ b ≤ byte 'F' then some (b - byte 'A' + 10)
  else if byte 'a' ≤ b ∧ b ≤ byte 'f' then some (b - byte 'a' + 10)
  else none

/-- The UTF-8 bytes `String::push` appends for `b as char`. -/
def pushLatin1 (b : UInt8) : Bytes :=
  if b < 128 then [b] else [192 + b / 64, 128 + b % 64]

/-- The loop of `unescape_cursor_safe`, over the bytes that are left. -/
def unescapeLoop (out : Bytes) : Bytes → Option Bytes
  | [] => some out
  | b :: rest =>
    if b = byte '_' then
      match rest with
      | e :: t :: rest' =>
        -- Every underscore must start a three-byte escape.
        if t ≠ byte '_' then none
        else if e = byte 'U' then unescapeLoop (out ++ [byte '_']) rest'
        else if e = byte 'D' then unescapeLoop (out ++ [byte '.']) rest'
        else if e = byte 'H' then unescapeLoop (out ++ [byte '-']) rest'
        else if e = byte 'X' then
          -- The recovery escape takes five bytes, the digits at `t` and `l`.
          match rest' with
          | l :: close :: rest'' =>
            if close ≠ byte '_' then none
            else match hexNibble t, hexNibble l with
              | some hi, some lo => unescapeLoop (out ++ pushLatin1 (hi * 16 + lo)) rest''
              | _, _ => none
          | _ => none
        else none
      | _ => none
    else if isAsciiAlphanumeric b then unescapeLoop (out ++ [b]) rest
    else none

def unescapeCursorSafe (s : Bytes) : Option Bytes := unescapeLoop [] s

def encodeToolNameCursorSafe (id : Uuid) (original : Bytes) : Bytes :=
  cursorSafePrefix ++ instanceShort id ++ cursorSafeSep ++ escapeCursorSafe original

def decodeToolName (prefixed : Bytes) : Option (Bytes × Bytes) :=
  if isLocalTool prefixed then none
  else match stripPrefix cursorSafePrefix prefixed with
    | none => none
    | some rest =>
      match splitOnce cursorSafeSep rest with
      | none => none
      | some (p, escaped) =>
        if isInstancePrefix p then (unescapeCursorSafe escaped).map (fun u => (p, u))
        else none

/-- The alphabet `[A-Za-z0-9_.-]` of backend tool names. -/
def IsToolNameByte (b : UInt8) : Prop :=
  isAsciiAlphanumeric b = true ∨ b = byte '_' ∨ b = byte '.' ∨ b = byte '-'

/-! ## The payload codec -/

/-- The scanner reads an escape of the table and appends its byte. -/
theorem unescapeLoop_escape_underscore (out rest : Bytes) :
    unescapeLoop out (ascii "_U_" ++ rest) = unescapeLoop (out ++ [byte '_']) rest := by
  change unescapeLoop out (byte '_' :: byte 'U' :: byte '_' :: rest) = _
  rw [unescapeLoop.eq_def]
  rfl

theorem unescapeLoop_escape_dot (out rest : Bytes) :
    unescapeLoop out (ascii "_D_" ++ rest) = unescapeLoop (out ++ [byte '.']) rest := by
  change unescapeLoop out (byte '_' :: byte 'D' :: byte '_' :: rest) = _
  rw [unescapeLoop.eq_def]
  rfl

theorem unescapeLoop_escape_hyphen (out rest : Bytes) :
    unescapeLoop out (ascii "_H_" ++ rest) = unescapeLoop (out ++ [byte '-']) rest := by
  change unescapeLoop out (byte '_' :: byte 'H' :: byte '_' :: rest) = _
  rw [unescapeLoop.eq_def]
  rfl

theorem unescapeLoop_alphanumeric (b : UInt8) (hb : isAsciiAlphanumeric b = true)
    (out rest : Bytes) :
    unescapeLoop out (b :: rest) = unescapeLoop (out ++ [b]) rest := by
  have hu : b ≠ byte '_' := by
    rintro rfl
    exact absurd hb (by decide)
  rw [unescapeLoop.eq_def]
  simp only [if_neg hu, if_pos hb]

/-- An alphanumeric byte is written as it is. -/
theorem escapeByte_alphanumeric (b : UInt8) (hb : isAsciiAlphanumeric b = true) :
    escapeByte b = [b] := by
  have hu : b ≠ byte '_' := by
    rintro rfl
    exact absurd hb (by decide)
  have hd : b ≠ byte '.' := by
    rintro rfl
    exact absurd hb (by decide)
  have hh : b ≠ byte '-' := by
    rintro rfl
    exact absurd hb (by decide)
  simp only [escapeByte, if_neg hu, if_neg hd, if_neg hh, if_pos hb]

/-- The scanner consumes the escape of one byte and appends that byte. -/
theorem unescapeLoop_escapeByte (b : UInt8) (hb : IsToolNameByte b) (out rest : Bytes) :
    unescapeLoop out (escapeByte b ++ rest) = unescapeLoop (out ++ [b]) rest := by
  rcases hb with hb | rfl | rfl | rfl
  · rw [escapeByte_alphanumeric b hb]
    exact unescapeLoop_alphanumeric b hb out rest
  · exact unescapeLoop_escape_underscore out rest
  · exact unescapeLoop_escape_dot out rest
  · exact unescapeLoop_escape_hyphen out rest

/-- The same for a whole name, by induction on it. -/
theorem unescapeLoop_escape (name : Bytes) (hname : ∀ b ∈ name, IsToolNameByte b)
    (out rest : Bytes) :
    unescapeLoop out (escapeCursorSafe name ++ rest) = unescapeLoop (out ++ name) rest := by
  induction name generalizing out with
  | nil => simp only [escapeCursorSafe, List.flatMap_nil, List.nil_append, List.append_nil]
  | cons b name ih =>
      have hb : IsToolNameByte b := hname b List.mem_cons_self
      have hrest : ∀ c ∈ name, IsToolNameByte c := fun c hc => hname c (List.mem_cons_of_mem _ hc)
      have hsplit : escapeCursorSafe (b :: name) ++ rest
          = escapeByte b ++ (escapeCursorSafe name ++ rest) := by
        simp [escapeCursorSafe]
      rw [hsplit, unescapeLoop_escapeByte b hb, ih hrest, List.append_assoc]
      rfl

/-- Gluing one more symbol in front of an escaped text. -/
theorem escaped_cons (b : UInt8) (out s t : Bytes)
    (ih : ∃ u, t = out ++ [b] ++ u ∧ escapeCursorSafe u = s) :
    ∃ u, t = out ++ u ∧ escapeCursorSafe u = escapeByte b ++ s := by
  rcases ih with ⟨u, ht, hu⟩
  refine ⟨b :: u, ?_, ?_⟩
  · rw [ht, List.append_assoc]
    rfl
  · rw [← hu]
    rfl

/-- A text which unescapes is the escape of what it unescapes to. The arms of
    the scanner are the arms of the escape, and the recovery arm is entered
    only with an underscore where its first digit would be. -/
theorem unescapeLoop_eq_some (out s t : Bytes) (h : unescapeLoop out s = some t) :
    ∃ u, t = out ++ u ∧ escapeCursorSafe u = s := by
  fun_induction unescapeLoop out s with
  | case1 out =>
      simp only [Option.some.injEq] at h
      exact ⟨[], by rw [List.append_nil, h], rfl⟩
  | case3 out c rest hc ih =>
      rw [not_not.mp hc]
      exact escaped_cons (byte '_') out rest t (ih h)
  | case4 out c rest hc hne ih =>
      rw [not_not.mp hc]
      exact escaped_cons (byte '.') out rest t (ih h)
  | case5 out c rest hc hne hne' ih =>
      rw [not_not.mp hc]
      exact escaped_cons (byte '-') out rest t (ih h)
  | case7 out c hc l c' rest hc' hi lo hlo hhi =>
      -- The scanner wants `_` and a hexadecimal digit at the same position.
      have hnone : hexNibble (byte '_') = none := by decide
      rw [not_not.mp hc, hnone] at hhi
      simp at hhi
  | case12 out b rest hb halnum ih =>
      have hstep := escaped_cons b out rest t (ih h)
      rw [escapeByte_alphanumeric b halnum] at hstep
      exact hstep
  | _ => simp at h

/-- A text which unescapes is the escape of its result. -/
theorem escape_of_unescape (s t : Bytes) (h : unescapeCursorSafe s = some t) :
    escapeCursorSafe t = s := by
  rcases unescapeLoop_eq_some [] s t h with ⟨u, ht, hu⟩
  rw [ht, List.nil_append, hu]

/-- Escaping and unescaping a tool name gives it back. -/
theorem unescape_of_escape (name : Bytes) (hname : ∀ b ∈ name, IsToolNameByte b) :
    unescapeCursorSafe (escapeCursorSafe name) = some name := by
  have h := unescapeLoop_escape name hname [] []
  rw [List.append_nil, List.nil_append] at h
  rw [unescapeCursorSafe, h]
  rfl

/-! ## The wire name codec -/

/-- A short id has the shape of an instance prefix. -/
theorem instanceShort_isInstancePrefix (id : Uuid) : isInstancePrefix (instanceShort id) = true := by
  have hdigit : ∀ b ∈ instanceShort id, isAsciiHexdigit b = true := by
    intro b hb
    have hmem : b ∈ id.simple := List.mem_of_mem_take hb
    rcases List.mem_map.mp hmem with ⟨i, _, rfl⟩
    exact isAsciiHexdigit_hexDigitLower _ (Nat.mod_lt _ (by decide))
  have hlen : (instanceShort id).length = idPrefixLen := by
    simp only [instanceShort, Uuid.simple, List.length_take, List.length_map, List.length_range,
      idPrefixLen]
    decide
  simp only [isInstancePrefix, hlen, beq_self_eq_true, Bool.true_and, List.all_eq_true]
  exact hdigit

/-- The separator's byte is not hexadecimal. -/
theorem underscore_not_mem (p : Bytes) (hp : isInstancePrefix p = true) : byte '_' ∉ p := by
  simp only [isInstancePrefix, Bool.and_eq_true, List.all_eq_true] at hp
  intro hmem
  exact absurd (hp.2 _ hmem) (by decide)

/-- No name with the cursor-safe prefix is answered by the gateway itself. -/
theorem isLocalTool_cursorSafe (s : Bytes) : isLocalTool (cursorSafePrefix ++ s) = false := by
  rfl

/-- What a decoded wire name looks like: the prefix, the instance, the
    separator and the escaped tool name. -/
theorem decodeToolName_eq_some (s p u : Bytes) (h : decodeToolName s = some (p, u)) :
    s = cursorSafePrefix ++ (p ++ (cursorSafeSep ++ escapeCursorSafe u)) := by
  -- The parts are cut off one by one, and each cut says what stood there.
  unfold decodeToolName at h
  split at h
  · simp at h
  · split at h
    · simp at h
    · next rest hstrip =>
        split at h
        · simp at h
        · next p' escaped hcut =>
            split at h
            · simp only [Option.map_eq_some_iff, Prod.mk.injEq] at h
              rcases h with ⟨u', hun, rfl, rfl⟩
              rw [escape_of_unescape escaped u' hun, ← splitOnce_eq_some _ _ _ _ hcut,
                ← (stripPrefix_eq_some _ _ _).mp hstrip]
            · simp at h

/-- Decoding what the encoder wrote. -/
theorem decodeToolName_wire (p u : Bytes) (hp : isInstancePrefix p = true) :
    decodeToolName (cursorSafePrefix ++ (p ++ (cursorSafeSep ++ u)))
      = (unescapeCursorSafe u).map (fun t => (p, t)) := by
  have hstrip : ∀ r, stripPrefix cursorSafePrefix (cursorSafePrefix ++ r) = some r :=
    fun r => (stripPrefix_eq_some _ _ _).mpr rfl
  have hcut : splitOnce cursorSafeSep (p ++ (cursorSafeSep ++ u)) = some (p, u) :=
    splitOnce_append_of_not_mem (byte '_') [byte '_'] p u (underscore_not_mem p hp)
  simp [decodeToolName, isLocalTool_cursorSafe, hstrip, hcut, if_pos hp]

/-- The cursor-safe wire names are a bijective codec on their image. A tool
    name over `[A-Za-z0-9_.-]` comes back with the first eight digits of its
    instance id, a text that unescapes is the escape of its result, and no
    two wire names decode to the same tool of the same instance. -/
theorem cursor_safe_codec :
    (∀ (id : Uuid) (name : Bytes), (∀ b ∈ name, IsToolNameByte b) →
      decodeToolName (encodeToolNameCursorSafe id name) = some (id.simple.take 8, name)) ∧
    (∀ s t : Bytes, unescapeCursorSafe s = some t → escapeCursorSafe t = s) ∧
    (∀ (s₁ s₂ : Bytes) (tool : Bytes × Bytes), decodeToolName s₁ = some tool →
      decodeToolName s₂ = some tool → s₁ = s₂) := by
  refine ⟨fun id name hname => ?_, escape_of_unescape, ?_⟩
  · have hwire : encodeToolNameCursorSafe id name
        = cursorSafePrefix ++ (instanceShort id ++ (cursorSafeSep ++ escapeCursorSafe name)) := by
      simp [encodeToolNameCursorSafe]
    rw [hwire, decodeToolName_wire _ _ (instanceShort_isInstancePrefix id),
      unescape_of_escape name hname]
    rfl
  · intro s₁ s₂ tool h₁ h₂
    rw [decodeToolName_eq_some s₁ tool.1 tool.2 h₁, decodeToolName_eq_some s₂ tool.1 tool.2 h₂]

/-- A name with every kind of escape, on a concrete instance. -/
theorem cursor_safe_codec_maya :
    decodeToolName (encodeToolNameCursorSafe ⟨0xabcdef0123456789abcdef0123456789#128⟩
      (ascii "maya.create-cube_2")) = some (ascii "abcdef01", ascii "maya.create-cube_2") := by
  have hname : ∀ b ∈ ascii "maya.create-cube_2", IsToolNameByte b := by
    unfold IsToolNameByte
    decide +kernel
  have hshort : (Uuid.simple ⟨0xabcdef0123456789abcdef0123456789#128⟩).take 8
      = ascii "abcdef01" := by
    decide +kernel
  rw [← hshort]
  exact cursor_safe_codec.1 _ _ hname

/-! ## The recovery escape -/

theorem hexDigitUpper_ne_underscore (n : Nat) (hn : n < 16) : hexDigitUpper n ≠ byte '_' := by
  interval_cases n <;> decide

/-- The scanner stops at a recovery escape: where it asks for the underscore
    that ends a triple there is the first digit. -/
theorem unescapeLoop_recovery (b : UInt8) (hb : ¬IsToolNameByte b) (out rest : Bytes) :
    unescapeLoop out (escapeByte b ++ rest) = none := by
  unfold IsToolNameByte at hb
  rw [not_or, not_or, not_or] at hb
  rcases hb with ⟨halnum, hu, hd, hh⟩
  have hescape : escapeByte b = byte '_' :: byte 'X' :: hexDigitUpper (b.toNat / 16) ::
      hexDigitUpper (b.toNat % 16) :: ascii "_" := by
    rw [escapeByte, if_neg hu, if_neg hd, if_neg hh, if_neg halnum]
    rfl
  have hdigit : hexDigitUpper (b.toNat / 16) ≠ byte '_' :=
    hexDigitUpper_ne_underscore _ (Nat.div_lt_of_lt_mul b.toNat_lt)
  rw [hescape, List.cons_append, List.cons_append, List.cons_append, unescapeLoop.eq_def]
  dsimp only
  rw [if_pos rfl, if_pos hdigit]

/-- One byte outside the alphabet spoils the whole name. -/
theorem unescapeLoop_escape_of_mem (name : Bytes) (h : ∃ b ∈ name, ¬IsToolNameByte b)
    (out : Bytes) : unescapeLoop out (escapeCursorSafe name) = none := by
  induction name generalizing out with
  | nil =>
      rcases h with ⟨b, hb, _⟩
      exact absurd hb List.not_mem_nil
  | cons first rest ih =>
      have hsplit : escapeCursorSafe (first :: rest) = escapeByte first ++ escapeCursorSafe rest :=
        List.flatMap_cons
      rw [hsplit]
      by_cases hfirst : IsToolNameByte first
      · rw [unescapeLoop_escapeByte first hfirst]
        refine ih ?_ _
        rcases h with ⟨b, hb, hbad⟩
        rcases List.mem_cons.mp hb with rfl | hb
        · exact absurd hfirst hbad
        · exact ⟨b, hb, hbad⟩
      · exact unescapeLoop_recovery first hfirst out _

/-- The names that survive an escape are those over `[A-Za-z0-9_.-]`: no name
    comes back through the recovery escape. -/
theorem unescape_escape_iff (name : Bytes) :
    unescapeCursorSafe (escapeCursorSafe name) = some name ↔ ∀ b ∈ name, IsToolNameByte b := by
  constructor
  · intro h
    by_contra hbad
    rw [not_forall] at hbad
    rcases hbad with ⟨b, hb⟩
    rw [Classical.not_imp] at hb
    rw [unescapeCursorSafe, unescapeLoop_escape_of_mem name ⟨b, hb⟩] at h
    cases h
  · exact unescape_of_escape name

/-- A slash is escaped, and is not read back. -/
theorem slash_not_recovered :
    (∀ b ∈ ascii "scene/load", b < 128) ∧ escapeCursorSafe (ascii "scene/load") =
      ascii "scene_X2F_load" ∧
      unescapeCursorSafe (escapeCursorSafe (ascii "scene/load")) = none := by
  decide +kernel

end Naming

end DccMcp
