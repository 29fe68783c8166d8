import Mathlib.Data.Nat.Digits.Defs
import Mathlib.Data.List.Basic

/-!
# Numbers in a Fixed Number of Digits

Numbers written with leading zeros, so that all of them take the same space.

Texts are compared character by character from the left. A field of a fixed
width is compared before anything behind it is looked at, and numbers of the
same width compare as their texts do, whatever the base. So a text that is
put together from such fields is ordered as the list of its numbers is.

## Main definitions

* `numeral`: A number in a fixed number of digits.

## Theorems

* `numeral_add`: A number is written part by part.
* `append_lt_append_iff`: Texts with fronts of the same length.
* `numeral_inj`, `numeral_lt_iff`: Numbers of the same width.
* `field_lt_iff`: A number with something behind it.
-/

namespace DccMcp

/-- The last `w` digits of a number in base `b`, which is at most 16. -/
def numeral (b : Nat) : Nat → Nat → List Char
  | 0, _ => []
  | w + 1, n => numeral b w (n / b) ++ [Nat.digitChar (n % b)]

theorem length_numeral (b w n : Nat) : (numeral b w n).length = w := by
  induction w generalizing n with
  | zero => rfl
  | succ w ih => rw [numeral, List.length_append, ih, List.length_singleton]

theorem digitChar_inj (m n : Nat) (hm : m < 16) (hn : n < 16)
    (h : Nat.digitChar m = Nat.digitChar n) : m = n := by
  have hall : ∀ i j : Fin 16, Nat.digitChar i = Nat.digitChar j → i = j := by decide
  exact congrArg Fin.val (hall ⟨m, hm⟩ ⟨n, hn⟩ h)

/-- The digits after 9 are letters, which come after all digits. -/
theorem digitChar_lt_iff (m n : Nat) (hm : m < 16) (hn : n < 16) :
    Nat.digitChar m < Nat.digitChar n ↔ m < n := by
  have hall : ∀ i j : Fin 16, Nat.digitChar i < Nat.digitChar j ↔ i < j := by decide
  exact hall ⟨m, hm⟩ ⟨n, hn⟩

/-- The characters of a number are digits. -/
theorem mem_numeral (b w n : Nat) (hb : 0 < b) (c : Char) (h : c ∈ numeral b w n) :
    ∃ d, d < b ∧ c = Nat.digitChar d := by
  induction w generalizing n with
  | zero => exact absurd h List.not_mem_nil
  | succ w ih =>
      rcases List.mem_append.mp h with h | h
      · exact ih (n / b) h
      · exact ⟨n % b, Nat.mod_lt n hb, List.mem_singleton.mp h⟩

/-- A number is written part by part. -/
theorem numeral_add (b v w n : Nat) :
    numeral b (v + w) n = numeral b v (n / b ^ w) ++ numeral b w (n % b ^ w) := by
  induction w generalizing n with
  | zero => rw [Nat.add_zero, Nat.pow_zero, Nat.div_one, numeral, List.append_nil]
  | succ w ih =>
      have hlow : n % b ^ (w + 1) / b = n / b % b ^ w := by
        rw [Nat.pow_succ', Nat.mod_mul_right_div_self]
      have hlast : n % b ^ (w + 1) % b = n % b :=
        Nat.mod_mod_of_dvd n (Dvd.intro_left (b ^ w) rfl)
      have hhigh : n / b / b ^ w = n / b ^ (w + 1) := by rw [Nat.div_div_eq_div_mul, Nat.pow_succ']
      rw [← Nat.add_assoc, numeral, ih, numeral, hlow, hlast, hhigh, List.append_assoc]

/-- Fronts of the same length are compared first. -/
theorem append_lt_append_iff (x x' y y' : List Char) (h : x.length = x'.length) :
    x ++ y < x' ++ y' ↔ x < x' ∨ x = x' ∧ y < y' := by
  induction x generalizing x' with
  | nil =>
      have hnil : x' = [] := List.length_eq_zero_iff.mp h.symm
      subst hnil
      simp [List.not_lt_nil]
  | cons c x ih =>
      cases x' with
      | nil => simp only [List.length_cons, List.length_nil, Nat.succ_ne_zero] at h
      | cons c' x' =>
          rw [List.length_cons, List.length_cons, Nat.add_right_cancel_iff] at h
          rw [List.cons_append, List.cons_append, List.cons_lt_cons_iff, List.cons_lt_cons_iff,
            ih x' h, List.cons.injEq]
          constructor
          · rintro (hlt | ⟨heq, hlt | ⟨heq', hlt⟩⟩)
            · exact .inl (.inl hlt)
            · exact .inl (.inr ⟨heq, hlt⟩)
            · exact .inr ⟨⟨heq, heq'⟩, hlt⟩
          · rintro ((hlt | ⟨heq, hlt⟩) | ⟨⟨heq, heq'⟩, hlt⟩)
            · exact .inl hlt
            · exact .inr ⟨heq, .inl hlt⟩
            · exact .inr ⟨heq, .inr ⟨heq', hlt⟩⟩

section Base

variable (b : Nat) (hb : 0 < b) (hb' : b ≤ 16)

include hb hb'

theorem numeral_mod (w m n : Nat) (h : numeral b w m = numeral b w n) :
    m % b ^ w = n % b ^ w := by
  induction w generalizing m n with
  | zero => rw [Nat.pow_zero, Nat.mod_one, Nat.mod_one]
  | succ w ih =>
      have hlength : (numeral b w (m / b)).length = (numeral b w (n / b)).length := by
        rw [length_numeral, length_numeral]
      rcases List.append_inj h hlength with ⟨hfront, hlast⟩
      have hdigit : m % b = n % b :=
        digitChar_inj _ _ (Nat.lt_of_lt_of_le (Nat.mod_lt m hb) hb')
          (Nat.lt_of_lt_of_le (Nat.mod_lt n hb) hb') (List.cons.inj hlast).1
      rw [Nat.pow_succ', Nat.mod_mul, Nat.mod_mul, ih _ _ hfront, hdigit]

/-- Numbers that fit and have the same digits are the same. -/
theorem numeral_inj (w m n : Nat) (hm : m < b ^ w) (hn : n < b ^ w)
    (h : numeral b w m = numeral b w n) : m = n := by
  have hmod := numeral_mod b hb hb' w m n h
  rwa [Nat.mod_eq_of_lt hm, Nat.mod_eq_of_lt hn] at hmod

/-- Numbers that fit are ordered as their digits are. -/
theorem numeral_lt_iff (w m n : Nat) (hm : m < b ^ w) (hn : n < b ^ w) :
    numeral b w m < numeral b w n ↔ m < n := by
  induction w generalizing m n with
  | zero =>
      have hm' : m = 0 := Nat.lt_one_iff.mp hm
      have hn' : n = 0 := Nat.lt_one_iff.mp hn
      rw [hm', hn']
      exact iff_of_false (List.not_lt_nil _) (Nat.lt_irrefl 0)
  | succ w ih =>
      have hfront : m / b < b ^ w := Nat.div_lt_of_lt_mul (by rwa [← Nat.pow_succ'])
      have hfront' : n / b < b ^ w := Nat.div_lt_of_lt_mul (by rwa [← Nat.pow_succ'])
      have hlength : (numeral b w (m / b)).length = (numeral b w (n / b)).length := by
        rw [length_numeral, length_numeral]
      have hsame : numeral b w (m / b) = numeral b w (n / b) ↔ m / b = n / b :=
        ⟨numeral_inj b hb hb' w _ _ hfront hfront', congrArg (numeral b w)⟩
      have hlast : [Nat.digitChar (m % b)] < [Nat.digitChar (n % b)] ↔ m % b < n % b := by
        rw [List.cons_lt_cons_iff, digitChar_lt_iff _ _ (Nat.lt_of_lt_of_le (Nat.mod_lt m hb) hb')
          (Nat.lt_of_lt_of_le (Nat.mod_lt n hb) hb')]
        simp [List.not_lt_nil]
      rw [numeral, numeral, append_lt_append_iff _ _ _ _ hlength, ih _ _ hfront hfront', hsame,
        hlast]
      -- The quotients decide, and the last digits where they agree.
      have hm'' := Nat.div_add_mod m b
      have hn'' := Nat.div_add_mod n b
      have hr := Nat.mod_lt m hb
      have hr' := Nat.mod_lt n hb
      constructor
      · rintro (hlt | ⟨heq, hlt⟩)
        · exact Nat.lt_of_div_lt_div hlt
        · rw [heq] at hm''
          omega
      · intro hlt
        rcases Nat.lt_or_eq_of_le (Nat.div_le_div_right (Nat.le_of_lt hlt)) with hdiv | hdiv
        · exact .inl hdiv
        · refine .inr ⟨hdiv, ?_⟩
          rw [hdiv] at hm''
          omega

/-- A number with something behind it: the number is compared first. -/
theorem field_lt_iff (w m n : Nat) (x y : List Char) (hm : m < b ^ w) (hn : n < b ^ w) :
    numeral b w m ++ x < numeral b w n ++ y ↔ m < n ∨ m = n ∧ x < y := by
  have hlength : (numeral b w m).length = (numeral b w n).length := by
    rw [length_numeral, length_numeral]
  have hsame : numeral b w m = numeral b w n ↔ m = n :=
    ⟨numeral_inj b hb hb' w m n hm hn, congrArg (numeral b w)⟩
  rw [append_lt_append_iff _ _ _ _ hlength, numeral_lt_iff b hb hb' w m n hm hn, hsame]

end Base

end DccMcp
