import DccMcp.Lib.Bytes

/-!
# Texts

Operations on texts, character by character, and the bytes of a text.

A text is a list of Unicode characters, and what a program writes of it is its
UTF-8 encoding. Two facts about the encoding are all that formats which mix
texts with other data need: it loses nothing, and there is a byte it never
uses, so that this byte can end a text.

## Main definitions

* `isWhitespace`, `isAsciiHexdigit`: Character classes.
* `cutAt`: Cutting at the first occurrence of a character.
* `splitOn`, `splitOnce`, `splitWhitespace`, `trim`: Cutting into pieces.
* `startsWith`, `contains`: Looking for a text in another.
* `toAsciiLowercase`, `eqIgnoreAsciiCase`: Case folding.
* `utf8`: The bytes of a text.

## Theorems

* `toAsciiLowercase_idem`: Folding twice is folding once.
* `cutAt_eq_some`, `cutAt_append`: What is in front of a cut.
* `mem_intercalate`, `mem_splitOn`: The characters of joined texts and of pieces.
* `utf8ByteSize_ofList`: The size of a text of one-byte characters.
* `utf8_injective`: The bytes of a text determine it.
* `ff_notMem_utf8`: No byte of a text is `0xff`.
-/

namespace DccMcp

namespace Text

/-- The characters with the Unicode property White_Space. -/
def isWhitespace (c : Char) : Bool :=
  let n := c.toNat
  (9 ≤ n && n ≤ 13) || n == 0x20 || n == 0x85 || n == 0xA0 || n == 0x1680 ||
    (0x2000 ≤ n && n ≤ 0x200A) || n == 0x2028 || n == 0x2029 || n == 0x202F || n == 0x205F ||
    n == 0x3000

def isAsciiHexdigit (c : Char) : Bool :=
  ('0' ≤ c && c ≤ '9') || ('A' ≤ c && c ≤ 'F') || ('a' ≤ c && c ≤ 'f')

/-- What stands before and after the first occurrence of a character. -/
def cutAt (sep : Char) : List Char → Option (List Char × List Char)
  | [] => none
  | c :: rest =>
    if c = sep then some ([], rest)
    else
      match cutAt sep rest with
      | none => none
      | some (before, after) => some (c :: before, after)

/-- The pieces between the characters of a class. There is one more piece than
    there are separators. -/
def splitOn (sep : Char → Bool) : List Char → List (List Char)
  | [] => [[]]
  | c :: rest =>
    if sep c then [] :: splitOn sep rest
    else
      match splitOn sep rest with
      | [] => [[c]]
      | piece :: pieces => (c :: piece) :: pieces

/-- What stands before and after the first occurrence of a text. -/
def splitOnceIn (sep : List Char) : List Char → Option (List Char × List Char)
  | [] => if sep.isEmpty then some ([], []) else none
  | c :: rest =>
    if sep.isPrefixOf (c :: rest) then some ([], (c :: rest).drop sep.length)
    else
      match splitOnceIn sep rest with
      | none => none
      | some (before, after) => some (c :: before, after)

def splitOnce (sep s : String) : Option (String × String) :=
  (splitOnceIn sep.toList s.toList).map (fun cut => (.ofList cut.1, .ofList cut.2))

/-- The words of a text. -/
def splitWhitespace (s : String) : List String :=
  ((splitOn isWhitespace s.toList).filter (fun word => !word.isEmpty)).map .ofList

/-- A text without the white space around it. -/
def trim (s : String) : String :=
  .ofList ((s.toList.dropWhile isWhitespace).reverse.dropWhile isWhitespace).reverse

def startsWith (pattern s : String) : Bool := pattern.toList.isPrefixOf s.toList

def contains (pattern s : String) : Bool := s.toList.tails.any pattern.toList.isPrefixOf

/-- Only the ASCII letters are folded. -/
def toAsciiLowercase (s : String) : String := .ofList (s.toList.map Char.toLower)

def eqIgnoreAsciiCase (s t : String) : Bool := toAsciiLowercase s == toAsciiLowercase t

/-- The bytes of a text. -/
def utf8 (s : String) : Bytes := s.toList.flatMap String.utf8EncodeChar

/-- A letter that has become small stays small. -/
theorem toLower_toLower (c : Char) : c.toLower.toLower = c.toLower := by
  unfold Char.toLower
  split
  next h =>
    rw [dif_neg]
    rintro ⟨_, h'⟩
    -- The small letters come after the capital ones.
    have hlow := UInt32.le_iff_toNat_le.mp h.1
    have hhigh := UInt32.le_iff_toNat_le.mp h.2
    have hsum := UInt32.le_iff_toNat_le.mp h'
    rw [UInt32.toNat_add] at hsum
    have hA : 'A'.val.toNat = 65 := rfl
    have hZ : 'Z'.val.toNat = 90 := rfl
    have hdiff : ('a'.val - 'A'.val).toNat = 32 := rfl
    rw [hZ, hdiff] at hsum
    omega
  next => rfl

theorem toAsciiLowercase_idem (s : String) :
    toAsciiLowercase (toAsciiLowercase s) = toAsciiLowercase s := by
  unfold toAsciiLowercase
  rw [String.toList_ofList, List.map_map]
  exact congrArg String.ofList (List.map_congr_left (fun c _ => toLower_toLower c))

theorem cutAt_eq_some (sep : Char) (text before after : List Char)
    (h : cutAt sep text = some (before, after)) :
    text = before ++ sep :: after ∧ sep ∉ before := by
  -- The separator is the first character, or it is in the rest.
  induction text generalizing before with
  | nil => cases h
  | cons c rest ih =>
      unfold cutAt at h
      split at h
      next hc =>
        rw [Option.some.injEq, Prod.mk.injEq] at h
        rw [← h.1, ← h.2, hc]
        exact ⟨rfl, List.not_mem_nil⟩
      next hc =>
        split at h
        next => cases h
        next front back hrest =>
          rw [Option.some.injEq, Prod.mk.injEq] at h
          rcases ih front (hrest.trans (by rw [h.2])) with ⟨hsplit, hfront⟩
          rw [← h.1, hsplit]
          refine ⟨rfl, fun hmem => ?_⟩
          rcases List.mem_cons.mp hmem with heq | hmem
          · exact hc heq.symm
          · exact hfront hmem

theorem cutAt_append (sep : Char) (before after : List Char) (h : sep ∉ before) :
    cutAt sep (before ++ sep :: after) = some (before, after) := by
  induction before with
  | nil => rw [List.nil_append, cutAt, if_pos rfl]
  | cons c rest ih =>
      have hc : c ≠ sep := fun heq => h (heq ▸ List.mem_cons_self)
      rw [List.cons_append, cutAt, if_neg hc, ih (fun hmem => h (List.mem_cons_of_mem c hmem))]

/-- The characters of a joined text are the separator and those of the pieces. -/
theorem mem_intercalate (sep c : Char) (pieces : List (List Char))
    (h : c ∈ [sep].intercalate pieces) : c = sep ∨ ∃ piece ∈ pieces, c ∈ piece := by
  induction pieces with
  | nil => exact absurd h List.not_mem_nil
  | cons piece rest ih =>
      cases rest with
      | nil =>
          rw [List.intercalate_singleton] at h
          exact .inr ⟨piece, List.mem_cons_self, h⟩
      | cons piece' rest =>
          rw [List.intercalate_cons_cons, List.mem_append, List.mem_append,
            List.mem_singleton] at h
          rcases h with (h | h) | h
          · exact .inr ⟨piece, List.mem_cons_self, h⟩
          · exact .inl h
          · rcases ih h with h | ⟨piece'', hmem, hc⟩
            · exact .inl h
            · exact .inr ⟨piece'', List.mem_cons_of_mem _ hmem, hc⟩

/-- A piece of a text has no separator, and no character that the text does not have. -/
theorem mem_splitOn (sep : Char) (s piece : List Char) (h : piece ∈ s.splitOn sep) :
    sep ∉ piece ∧ ∀ c ∈ piece, c ∈ s := by
  induction s generalizing piece with
  | nil =>
      rw [List.mem_singleton.mp h]
      exact ⟨List.not_mem_nil, fun _ hc => absurd hc List.not_mem_nil⟩
  | cons x s ih =>
      have hold : ∀ piece ∈ s.splitOn sep, sep ∉ piece ∧ ∀ c ∈ piece, c ∈ x :: s :=
        fun piece hpiece => ⟨(ih piece hpiece).1,
          fun c hc => List.mem_cons_of_mem _ ((ih piece hpiece).2 c hc)⟩
      rw [List.splitOn_cons_eq_if_modifyHead] at h
      split at h
      next =>
        rcases List.mem_cons.mp h with rfl | hrest
        · exact ⟨List.not_mem_nil, fun _ hc => absurd hc List.not_mem_nil⟩
        · exact hold piece hrest
      next hx =>
        cases hpieces : s.splitOn sep with
        | nil =>
            rw [hpieces] at h
            exact absurd h List.not_mem_nil
        | cons field rest =>
            rw [hpieces] at h hold
            rcases List.mem_cons.mp h with rfl | hrest
            · have hfield := hold field List.mem_cons_self
              refine ⟨fun hmem => ?_, fun c hc => ?_⟩
              · rcases List.mem_cons.mp hmem with heq | hmem
                · exact hx (beq_iff_eq.mpr heq.symm)
                · exact hfield.1 hmem
              · rcases List.mem_cons.mp hc with rfl | hc
                · exact List.mem_cons_self
                · exact hfield.2 c hc
            · exact hold piece (List.mem_cons_of_mem _ hrest)

/-- The bytes of a text determine it. -/
theorem utf8_injective (s t : String) (h : utf8 s = utf8 t) : s = t := by
  have hencode : s.toList.utf8Encode = t.toList.utf8Encode := congrArg List.toByteArray h
  rw [String.utf8Encode_toList, String.utf8Encode_toList] at hencode
  exact String.toByteArray_inj.mp hencode

/-- A text of one-byte characters has as many bytes as characters. -/
theorem utf8ByteSize_ofList (text : List Char) (h : ∀ c ∈ text, c.utf8Size = 1) :
    (String.ofList text).utf8ByteSize = text.length := by
  induction text with
  | nil => rfl
  | cons c rest ih =>
      rw [String.ofList_cons, String.utf8ByteSize_append, String.utf8ByteSize_singleton,
        h c List.mem_cons_self, ih (fun d hd => h d (List.mem_cons_of_mem c hd)), List.length_cons,
        Nat.add_comm]

theorem ff_ne_ofNat (n : Nat) (h : n < 255) : (0xff : UInt8) ≠ UInt8.ofNat n := by
  intro heq
  have hval : 255 = n % 256 := (congrArg UInt8.toNat heq).trans UInt8.toNat_ofNat
  omega

/-- The bytes of a character are below `0xff`: what each of them holds is
    smaller than the room its marker leaves. -/
theorem ff_notMem_utf8EncodeChar (c : Char) : (0xff : UInt8) ∉ String.utf8EncodeChar c := by
  intro hmem
  simp only [String.utf8EncodeChar] at hmem
  split at hmem
  · simp only [List.mem_singleton] at hmem
    exact ff_ne_ofNat _ (by omega) hmem
  · split at hmem
    · simp only [List.mem_cons, List.not_mem_nil, or_false] at hmem
      rcases hmem with hmem | hmem
      · exact ff_ne_ofNat _ (by omega) hmem
      · exact ff_ne_ofNat _ (by omega) hmem
    · split at hmem
      · simp only [List.mem_cons, List.not_mem_nil, or_false] at hmem
        rcases hmem with hmem | hmem | hmem
        · exact ff_ne_ofNat _ (by omega) hmem
        · exact ff_ne_ofNat _ (by omega) hmem
        · exact ff_ne_ofNat _ (by omega) hmem
      · simp only [List.mem_cons, List.not_mem_nil, or_false] at hmem
        rcases hmem with hmem | hmem | hmem | hmem
        · exact ff_ne_ofNat _ (by omega) hmem
        · exact ff_ne_ofNat _ (by omega) hmem
        · exact ff_ne_ofNat _ (by omega) hmem
        · exact ff_ne_ofNat _ (by omega) hmem

theorem ff_notMem_utf8 (s : String) : (0xff : UInt8) ∉ utf8 s := by
  intro hmem
  rcases List.mem_flatMap.mp hmem with ⟨c, _, hc⟩
  exact ff_notMem_utf8EncodeChar c hc

end Text

end DccMcp
