import DccMcp.Lib.Digits

/-!
# Universally Unique Identifiers

An identifier of 128 bits, and the text it is written as.

The text is 32 hexadecimal digits with hyphens after the eighth, the twelfth,
the sixteenth and the twentieth. It has the same length for every identifier,
so it can be cut off the front of a longer text, and leaving out the hyphens
gives the digits back.

## Main definitions

* `hexDigits`: A number in a fixed number of hexadecimal digits.
* `HyphenatedUuid`, `HyphenatedUuid.text`: An identifier and its text.

## Theorems

* `HyphenatedUuid.length_text`: All texts have the same length.
* `HyphenatedUuid.text_inj`: Identifiers with the same text are the same.
-/

namespace DccMcp

/-- The last `w` hexadecimal digits of a number. -/
def hexDigits : Nat → Nat → List Char := numeral 16

theorem hexDigits_ne_hyphen (w n : Nat) (c : Char) (h : c ∈ hexDigits w n) : c ≠ '-' := by
  have hall : ∀ i : Fin 16, Nat.digitChar i ≠ '-' := by decide
  rcases mem_numeral 16 w n (by decide) c h with ⟨d, hd, rfl⟩
  exact hall ⟨d, hd⟩

/-- An identifier of 128 bits. -/
structure HyphenatedUuid where
  value : Nat
  value_lt : value < 2 ^ 128
  deriving DecidableEq

namespace HyphenatedUuid

def digits (u : HyphenatedUuid) : List Char := hexDigits 32 u.value

/-- The hyphenated text. -/
def text (u : HyphenatedUuid) : List Char :=
  u.digits.take 8 ++ ['-'] ++ (u.digits.drop 8).take 4 ++ ['-'] ++ (u.digits.drop 12).take 4 ++
    ['-'] ++ (u.digits.drop 16).take 4 ++ ['-'] ++ u.digits.drop 20

theorem length_text (u : HyphenatedUuid) : u.text.length = 36 := by
  have hdigits : u.digits.length = 32 := length_numeral 16 32 u.value
  simp only [text, List.length_append, List.length_take, List.length_drop, List.length_cons,
    List.length_nil, hdigits]
  omega

/-- A piece of the digits has no hyphen to leave out. -/
theorem filter_piece (u : HyphenatedUuid) (piece : List Char) (h : ∀ c ∈ piece, c ∈ u.digits) :
    piece.filter (· ≠ '-') = piece := by
  refine List.filter_eq_self.mpr (fun c hc => ?_)
  rw [decide_eq_true_eq]
  exact hexDigits_ne_hyphen 32 u.value c (h c hc)

theorem rejoin (l : List Char) (i : Nat) : (l.drop i).take 4 ++ l.drop (i + 4) = l.drop i := by
  rw [← List.drop_drop, List.take_append_drop]

theorem filter_text (u : HyphenatedUuid) : u.text.filter (· ≠ '-') = u.digits := by
  have hhyphen : ['-'].filter (· ≠ '-') = [] := by decide
  have h8 := u.filter_piece (u.digits.take 8) (fun c hc => List.mem_of_mem_take hc)
  have h12 := u.filter_piece ((u.digits.drop 8).take 4)
    (fun c hc => List.mem_of_mem_drop (List.mem_of_mem_take hc))
  have h16 := u.filter_piece ((u.digits.drop 12).take 4)
    (fun c hc => List.mem_of_mem_drop (List.mem_of_mem_take hc))
  have h20 := u.filter_piece ((u.digits.drop 16).take 4)
    (fun c hc => List.mem_of_mem_drop (List.mem_of_mem_take hc))
  have h32 := u.filter_piece (u.digits.drop 20) (fun c hc => List.mem_of_mem_drop hc)
  unfold text
  simp only [List.filter_append, hhyphen, h8, h12, h16, h20, h32, List.append_nil]
  -- Put the pieces together again, from the last to the first.
  have e16 : (u.digits.drop 16).take 4 ++ u.digits.drop 20 = u.digits.drop 16 := rejoin _ 16
  have e12 : (u.digits.drop 12).take 4 ++ u.digits.drop 16 = u.digits.drop 12 := rejoin _ 12
  have e8 : (u.digits.drop 8).take 4 ++ u.digits.drop 12 = u.digits.drop 8 := rejoin _ 8
  rw [List.append_assoc, List.append_assoc, List.append_assoc, e16, e12, e8,
    List.take_append_drop]

/-- Identifiers with the same text are the same. -/
theorem text_inj (u v : HyphenatedUuid) (h : u.text = v.text) : u = v := by
  have hdigits : u.digits = v.digits := by rw [← filter_text, ← filter_text, h]
  have hvalue : u.value = v.value :=
    numeral_inj 16 (by decide) (by decide) 32 _ _ u.value_lt v.value_lt hdigits
  rcases u with ⟨value, hlt⟩
  rcases v with ⟨value', hlt'⟩
  dsimp only at hvalue
  subst hvalue
  rfl

end HyphenatedUuid

end DccMcp
