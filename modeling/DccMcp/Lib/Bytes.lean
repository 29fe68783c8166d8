import Mathlib.Data.List.Basic
import Mathlib.Tactic.IntervalCases

/-!
# Byte Strings

Text seen the way the decoders see it: a list of bytes.

The wire formats of this development are all scanned byte by byte, and the
arms of a scanner overlap: a separator may start with the same byte as an
escape, a prefix may be a prefix of something else. Proofs about them are
therefore inductions on the list, and what they need from a string library is
small: cutting a known prefix off, cutting at the first occurrence of a
separator, and the two classes of ASCII characters.

`stripPrefix` and `splitOnce` are total and structural, so that a concrete
decode evaluates. `splitOnce_eq_some` inverts a cut, and
`splitOnce_append_of_not_mem` says when a cut finds the separator an encoder
wrote: when the first byte of the separator is not part of the head.

## Main definitions

* `Bytes`: A byte string.
* `byte`, `ascii`: ASCII characters and literals as bytes.
* `isAsciiAlphanumeric`, `isAsciiHexdigit`: The two character classes.
* `stripPrefix`: Cutting a prefix off, if it is there.
* `splitOnce`: Cutting at the first occurrence of a separator.
* `hexDigitLower`: The lowercase hexadecimal digit of a nibble.

## Theorems

* `stripPrefix_eq_some`: A prefix is cut exactly off what starts with it.
* `splitOnce_eq_some`: A cut string is its head, the separator and its tail.
* `splitOnce_append_of_not_mem`: A cut finds the separator an encoder wrote.
* `splitOnce_replace`: What stands behind the first separator can be replaced.
* `isAsciiHexdigit_hexDigitLower`: A written digit is a hexadecimal digit.
-/

namespace DccMcp

/-- A byte string: the bytes of a UTF-8 text, in order. -/
abbrev Bytes := List UInt8

namespace Bytes

/-- The byte of an ASCII character. -/
def byte (c : Char) : UInt8 := c.toUInt8

/-- The bytes of an ASCII literal. -/
def ascii (s : String) : Bytes := s.toList.map byte

def isAsciiAlphanumeric (b : UInt8) : Bool :=
  (byte '0' ≤ b && b ≤ byte '9') || (byte 'A' ≤ b && b ≤ byte 'Z') ||
    (byte 'a' ≤ b && b ≤ byte 'z')

def isAsciiHexdigit (b : UInt8) : Bool :=
  (byte '0' ≤ b && b ≤ byte '9') || (byte 'A' ≤ b && b ≤ byte 'F') ||
    (byte 'a' ≤ b && b ≤ byte 'f')

/-- The lowercase hexadecimal digit of a nibble. -/
def hexDigitLower (n : Nat) : UInt8 :=
  if n < 10 then UInt8.ofNat (48 + n) else UInt8.ofNat (87 + n)

section Cut

variable {α : Type} [DecidableEq α]

/-- `str::strip_prefix`: what is left after a prefix, if the prefix is there. -/
def stripPrefix : List α → List α → Option (List α)
  | [], s => some s
  | _ :: _, [] => none
  | a :: p, b :: s => if a = b then stripPrefix p s else none

theorem stripPrefix_eq_some (p s r : List α) : stripPrefix p s = some r ↔ s = p ++ r := by
  induction p generalizing s with
  | nil =>
      simp [stripPrefix]
  | cons a p ih =>
      cases s with
      | nil => simp only [stripPrefix, List.cons_append, reduceCtorEq]
      | cons b s =>
          by_cases hab : a = b
          · subst hab
            rw [stripPrefix, if_pos rfl, ih, List.cons_append, List.cons.injEq]
            exact ⟨fun h => ⟨rfl, h⟩, fun h => h.2⟩
          · simp only [stripPrefix, if_neg hab, reduceCtorEq, List.cons_append,
              List.cons.injEq, false_iff, not_and]
            intro hba
            exact absurd hba.symm hab

/-- `str::split_once`: the text before and after the first occurrence of the
    separator, if it occurs. -/
def splitOnce (sep : List α) : List α → Option (List α × List α)
  | [] => (stripPrefix sep []).map (fun rest => ([], rest))
  | b :: s =>
    match stripPrefix sep (b :: s) with
    | some rest => some ([], rest)
    | none => (splitOnce sep s).map (fun cut => (b :: cut.1, cut.2))

/-- A cut string is its head, the separator and its tail. -/
theorem splitOnce_eq_some (sep s p r : List α) (h : splitOnce sep s = some (p, r)) :
    s = p ++ (sep ++ r) := by
  induction s generalizing p with
  | nil =>
      simp only [splitOnce, Option.map_eq_some_iff, Prod.mk.injEq] at h
      rcases h with ⟨rest, hrest, hp, hr⟩
      rw [← hp, ← hr, List.nil_append]
      exact (stripPrefix_eq_some sep [] rest).mp hrest
  | cons b s ih =>
      cases hstrip : stripPrefix sep (b :: s) with
      | some rest =>
          simp only [splitOnce, hstrip, Option.some.injEq, Prod.mk.injEq] at h
          rw [← h.1, ← h.2, List.nil_append]
          exact (stripPrefix_eq_some sep (b :: s) rest).mp hstrip
      | none =>
          simp only [splitOnce, hstrip, Option.map_eq_some_iff, Prod.mk.injEq] at h
          rcases h with ⟨⟨p', r'⟩, hcut, hp, hr⟩
          simp only at hr
          rw [hr] at hcut
          rw [← hp, List.cons_append, ← ih p' hcut]

/-- A cut finds the separator an encoder wrote, when the head has no byte the
    separator starts with: no earlier position can match. -/
theorem splitOnce_append_of_not_mem (c : α) (sep p r : List α) (hp : c ∉ p) :
    splitOnce (c :: sep) (p ++ (c :: sep ++ r)) = some (p, r) := by
  induction p with
  | nil =>
      have hstrip : stripPrefix (c :: sep) (c :: sep ++ r) = some r :=
        (stripPrefix_eq_some _ _ _).mpr rfl
      simp only [List.nil_append, List.cons_append, splitOnce] at hstrip ⊢
      rw [hstrip]
  | cons b p ih =>
      have hcb : c ≠ b := fun hc => hp (hc ▸ List.mem_cons_self)
      have hrest : c ∉ p := fun hc => hp (List.mem_cons_of_mem _ hc)
      simp only [List.cons_append, splitOnce, stripPrefix, if_neg hcb] at ih ⊢
      rw [ih hrest]
      rfl

/-- What starts with a prefix does so whatever stands behind it. -/
theorem stripPrefix_append_eq_none (p x y : List α) (hlength : p.length ≤ x.length) :
    stripPrefix p (x ++ y) = none ↔ stripPrefix p x = none := by
  have hsome : (∃ r, stripPrefix p (x ++ y) = some r) ↔ ∃ r, stripPrefix p x = some r := by
    simp only [stripPrefix_eq_some]
    constructor
    · rintro ⟨r, hr⟩
      have hfront : p <+: x :=
        List.prefix_of_prefix_length_le ⟨r, hr.symm⟩ (List.prefix_append x y) hlength
      rcases hfront with ⟨t, ht⟩
      exact ⟨t, ht.symm⟩
    · rintro ⟨r, rfl⟩
      exact ⟨r ++ y, List.append_assoc p r y⟩
  rw [← Option.ne_none_iff_exists', ← Option.ne_none_iff_exists'] at hsome
  exact not_iff_not.mp hsome

/-- What stands behind the first separator can be replaced. A separator that
    started earlier would end inside of the part that stays. -/
theorem splitOnce_replace (sep s p r r' : List α) (h : splitOnce sep s = some (p, r)) :
    splitOnce sep (p ++ (sep ++ r')) = some (p, r') := by
  have hhere : splitOnce sep (sep ++ r') = some ([], r') := by
    have hstrip : stripPrefix sep (sep ++ r') = some r' := (stripPrefix_eq_some _ _ _).mpr rfl
    cases hs : sep ++ r' with
    | nil => rw [splitOnce, ← hs, hstrip, Option.map_some]
    | cons b t =>
        rw [hs] at hstrip
        rw [splitOnce, hstrip]
  induction s generalizing p with
  | nil =>
      rw [splitOnce, Option.map_eq_some_iff] at h
      rcases h with ⟨rest, _, hcut⟩
      rw [← (Prod.mk.inj hcut).1]
      exact hhere
  | cons b s ih =>
      cases hstrip : stripPrefix sep (b :: s) with
      | some rest =>
          simp only [splitOnce, hstrip, Option.some.injEq, Prod.mk.injEq] at h
          rw [← h.1]
          exact hhere
      | none =>
          simp only [splitOnce, hstrip, Option.map_eq_some_iff, Prod.mk.injEq] at h
          rcases h with ⟨⟨p', rest⟩, hcut, rfl, rfl⟩
          -- The first place is none in the old text, and so it is in the new one.
          have hlength : sep.length ≤ (b :: (p' ++ sep)).length := by
            rw [List.length_cons, List.length_append]
            omega
          have hold : b :: s = (b :: (p' ++ sep)) ++ rest := by
            rw [splitOnce_eq_some sep s p' rest hcut, List.cons_append, List.append_assoc]
          have hnew : b :: (p' ++ (sep ++ r')) = (b :: (p' ++ sep)) ++ r' := by
            rw [List.cons_append, List.append_assoc]
          have hnone : stripPrefix sep (b :: (p' ++ (sep ++ r'))) = none := by
            rw [hnew, stripPrefix_append_eq_none _ _ _ hlength,
              ← stripPrefix_append_eq_none _ _ rest hlength, ← hold]
            exact hstrip
          rw [List.cons_append, splitOnce, hnone]
          simp [ih p' hcut]

end Cut

/-- A written digit is a hexadecimal digit. -/
theorem isAsciiHexdigit_hexDigitLower (n : Nat) (h : n < 16) :
    isAsciiHexdigit (hexDigitLower n) = true := by
  interval_cases n <;> decide

end Bytes

end DccMcp
