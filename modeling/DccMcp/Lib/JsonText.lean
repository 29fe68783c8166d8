import DccMcp.Lib.Json
import DccMcp.Lib.Python
import Mathlib.Data.Nat.Digits.Lemmas

/-!
# JSON Text

JSON values as text on one line, the way a compact serializer writes them:
no blanks, control characters escaped, everything else as it is. How the
magnitude of a float is written is a parameter.

The text is nearly Python. Lists, objects, strings and numbers are read as
the displays and literals they look like, escapes included. Only the words
differ: `true`, `false` and `null` are names to Python, and are not bound.

## Main definitions

* `writeValue`: The text of a value.
* `toExpr`: The Python expression that text is.
* `toPython`: The Python value that stands for a JSON value.
* `Value.plain`, `Value.finite`: Values without words, and without the bit
  patterns that are no numbers.

## Theorems

* `readExpr_write`: The text of a value is read as its expression.
* `eval_toExpr_iff`: The expression has the value if there are no words in it.
* `writeValue_line`: The text stays on one line.
-/

namespace DccMcp

namespace Json

open Python (Expr)

/-- The digits of a number, without leading zeros. -/
def decimal (n : Nat) : List Char :=
  if n = 0 then ['0'] else (Nat.digits 10 n).reverse.map Nat.digitChar

def escapeChar (c : Char) : List Char :=
  if c = '"' then ['\\', '"']
  else if c = '\\' then ['\\', '\\']
  else if c = '\x08' then ['\\', 'b']
  else if c = '\x0c' then ['\\', 'f']
  else if c = '\n' then ['\\', 'n']
  else if c = '\r' then ['\\', 'r']
  else if c = '\t' then ['\\', 't']
  else if c.toNat < 32 then
    ['\\', 'u', '0', '0', Nat.digitChar (c.toNat / 16), Nat.digitChar (c.toNat % 16)]
  else [c]

def writeStr (s : List Char) : List Char := '"' :: (s.flatMap escapeChar ++ ['"'])

/-- The sign bit of a float, and its other bits. -/
def signBit : Nat := 9223372036854775808

variable (floatText : Nat → List Char)

def writeNumber : Number → List Char
  | .posInt n => decimal n.toNat
  | .negInt n =>
    if n.toInt < 0 then '-' :: decimal n.toInt.natAbs else decimal n.toInt.natAbs
  | .float bits =>
    if signBit ≤ bits.toNat then '-' :: floatText (bits.toNat - signBit) else floatText bits.toNat

mutual

def writeValue : Value → List Char
  | .null => ['n', 'u', 'l', 'l']
  | .bool b => if b then ['t', 'r', 'u', 'e'] else ['f', 'a', 'l', 's', 'e']
  | .number n => writeNumber floatText n
  | .string s => writeStr s.toList
  | .array items => '[' :: (writeItems items ++ [']'])
  | .object members => '\x7b' :: (writeMembers members ++ ['\x7d'])

def writeItems : List Value → List Char
  | [] => []
  | v :: rest => writeValue v ++ (if rest.isEmpty then [] else ',' :: writeItems rest)

def writeMembers : List (String × Value) → List Char
  | [] => []
  | (name, v) :: rest =>
    writeStr name.toList ++ ':' ::
      (writeValue v ++ (if rest.isEmpty then [] else ',' :: writeMembers rest))

end

def numberExpr : Number → Expr
  | .posInt n => .int n.toNat
  | .negInt n => if n.toInt < 0 then .neg (.int n.toInt.natAbs) else .int n.toInt.natAbs
  | .float bits =>
    if signBit ≤ bits.toNat then .neg (.float (bits.toNat - signBit)) else .float bits.toNat

def numberPython : Number → Python.Value
  | .posInt n => .int n.toNat
  | .negInt n => .int n.toInt
  | .float bits =>
    if signBit ≤ bits.toNat then .float true (bits.toNat - signBit) else .float false bits.toNat

mutual

/-- The expression the text of a value is to Python. -/
def toExpr : Value → Expr
  | .null => .name ['n', 'u', 'l', 'l']
  | .bool b => .name (if b then ['t', 'r', 'u', 'e'] else ['f', 'a', 'l', 's', 'e'])
  | .number n => numberExpr n
  | .string s => .str s.toList
  | .array items => .list (toExprs items)
  | .object members => .dict (toPairs members)

def toExprs : List Value → List Expr
  | [] => []
  | v :: rest => toExpr v :: toExprs rest

def toPairs : List (String × Value) → List (Expr × Expr)
  | [] => []
  | (name, v) :: rest => (.str name.toList, toExpr v) :: toPairs rest

end

mutual

/-- The Python value that stands for a JSON value. -/
def toPython : Value → Python.Value
  | .null => .none
  | .bool b => .bool b
  | .number n => numberPython n
  | .string s => .str s.toList
  | .array items => .list (toPythons items)
  | .object members => Python.dictOf (toItems members)

def toPythons : List Value → List Python.Value
  | [] => []
  | v :: rest => toPython v :: toPythons rest

def toItems : List (String × Value) → List (List Char × Python.Value)
  | [] => []
  | (name, v) :: rest => (name.toList, toPython v) :: toItems rest

end

mutual

/-- There is no `true`, `false` or `null` in the value. -/
def Value.plain : Value → Bool
  | .null => false
  | .bool _ => false
  | .number _ => true
  | .string _ => true
  | .array items => plainItems items
  | .object members => plainMembers members

def plainItems : List Value → Bool
  | [] => true
  | v :: rest => v.plain && plainItems rest

def plainMembers : List (String × Value) → Bool
  | [] => true
  | (_, v) :: rest => v.plain && plainMembers rest

end

/-- The bits of a magnitude that is a number. -/
def finiteBits (bits : Nat) : Bool := decide (bits < 9218868437227405312)

def finiteNumber : Number → Bool
  | .float bits => finiteBits (bits.toNat % signBit)
  | _ => true

mutual

/-- Every float in the value is a number, as in JSON it is. -/
def Value.finite : Value → Bool
  | .number n => finiteNumber n
  | .array items => finiteItems items
  | .object members => finiteMembers members
  | _ => true

def finiteItems : List Value → Bool
  | [] => true
  | v :: rest => v.finite && finiteItems rest

def finiteMembers : List (String × Value) → Bool
  | [] => true
  | (_, v) :: rest => v.finite && finiteMembers rest

end

/-- What is relied on of the text of floats: it is the text of a float to
    Python too, and of the same one. -/
structure FloatFaithful (readFloat : List Char → Option Nat) : Prop where
  chars : ∀ bits, finiteBits bits = true → ∀ c ∈ floatText bits, Python.isNumberChar c = true
  head : ∀ bits, finiteBits bits = true → ∃ c rest, floatText bits = c :: rest ∧ c.isDigit = true
  float : ∀ bits, finiteBits bits = true → (floatText bits).all Char.isDigit = false
  read : ∀ bits, finiteBits bits = true → readFloat (floatText bits) = some bits

theorem digitChar_facts : ∀ d, d < 10 → (Nat.digitChar d).isDigit = true ∧
    (Nat.digitChar d).toNat - 48 = d ∧ (Nat.digitChar d = '0' → d = 0) := by
  decide

variable (c : Char) (n : Nat)

theorem decimal_digits : ∀ c ∈ decimal n, c.isDigit = true := by
  intro c hc
  unfold decimal at hc
  split at hc
  next =>
    rw [List.mem_singleton.mp hc]
    rfl
  next =>
    obtain ⟨d, hd, rfl⟩ := List.mem_map.mp hc
    exact (digitChar_facts d (Nat.digits_lt_base (by omega) (List.mem_reverse.mp hd))).1

theorem decimal_head : ∃ c rest, decimal n = c :: rest ∧ c.isDigit = true := by
  cases h : decimal n with
  | nil =>
      exfalso
      unfold decimal at h
      split at h
      next => cases h
      next hn =>
        rw [List.map_eq_nil_iff, List.reverse_eq_nil_iff] at h
        exact hn (Nat.digits_eq_nil_iff_eq_zero.mp h)
  | cons c rest => exact ⟨c, rest, rfl, decimal_digits n c (h ▸ List.mem_cons_self)⟩

theorem decimal_value : Nat.ofDigits 10 ((decimal n).reverse.map fun c => c.toNat - 48) = n := by
  unfold decimal
  split
  next h =>
    rw [h]
    rfl
  next =>
    rw [← List.map_reverse, List.reverse_reverse, List.map_map]
    have hsame : (Nat.digits 10 n).map ((fun c => c.toNat - 48) ∘ Nat.digitChar) =
        Nat.digits 10 n := by
      refine (List.map_congr_left (fun d hd => ?_)).trans (List.map_id _)
      exact (digitChar_facts d (Nat.digits_lt_base (by omega) hd)).2.1
    rw [hsame]
    exact Nat.ofDigits_digits 10 n

/-- No leading zeros. -/
theorem decimal_zero (h : (decimal n).head? = some '0') : decimal n = ['0'] := by
  unfold decimal at h ⊢
  split
  next => rfl
  next hn =>
    exfalso
    rw [if_neg hn, List.head?_map, List.head?_reverse] at h
    obtain ⟨d, hd, hzero⟩ := Option.map_eq_some_iff.mp h
    have hne : Nat.digits 10 n ≠ [] := mt Nat.digits_eq_nil_iff_eq_zero.mp hn
    have hlast := Nat.getLast_digit_ne_zero 10 hn
    rw [List.getLast?_eq_some_getLast hne, Option.some.injEq] at hd
    rw [hd] at hlast
    have hlt : d < 10 := Nat.digits_lt_base (by omega) (hd ▸ List.getLast_mem hne)
    exact hlast ((digitChar_facts d hlt).2.2 hzero)

theorem readNumber_decimal (readFloat : List Char → Option Nat) (n : Nat) :
    Python.readNumber readFloat (decimal n) = some (.int n) := by
  unfold Python.readNumber
  rw [if_pos (List.all_eq_true.mpr (decimal_digits n)), decimal_value, if_neg]
  rintro ⟨hzero, hne⟩
  exact hne (decimal_zero n hzero)

/-- A control character is read back from its escape. -/
theorem readEscape_control (hn : n < 32) (tail : List Char) : Python.readEscape
        (['u', '0', '0', Nat.digitChar (n / 16), Nat.digitChar (n % 16)] ++ tail) =
      some ([Char.ofNat n], tail) := by
  interval_cases n <;> rfl

/-- A character is written as it is, or as an escape that reads back. -/
theorem escapeChar_cases : (escapeChar c = [c] ∧ c ≠ '"' ∧ c ≠ '\\' ∧ c ≠ '\n' ∧ c ≠ '\r') ∨
      ∃ es, escapeChar c = '\\' :: es ∧
        ∀ tail, Python.readEscape (es ++ tail) = some ([c], tail) := by
  unfold escapeChar
  split
  next h => exact .inr ⟨['"'], rfl, fun tail => by rw [h]; rfl⟩
  next hquote =>
    split
    next h => exact .inr ⟨['\\'], rfl, fun tail => by rw [h]; rfl⟩
    next hback =>
      split
      next h => exact .inr ⟨['b'], rfl, fun tail => by rw [h]; rfl⟩
      next =>
        split
        next h => exact .inr ⟨['f'], rfl, fun tail => by rw [h]; rfl⟩
        next =>
          split
          next h => exact .inr ⟨['n'], rfl, fun tail => by rw [h]; rfl⟩
          next hline =>
            split
            next h => exact .inr ⟨['r'], rfl, fun tail => by rw [h]; rfl⟩
            next hreturn =>
              split
              next h => exact .inr ⟨['t'], rfl, fun tail => by rw [h]; rfl⟩
              next =>
                split
                next h =>
                  refine .inr ⟨_, rfl, fun tail => ?_⟩
                  have hread := readEscape_control c.toNat h tail
                  rw [Char.ofNat_toNat] at hread
                  exact hread
                next => exact .inl ⟨rfl, hquote, hback, hline, hreturn⟩

theorem readStr_escape (s rest : List Char) (fuel : Nat)
    (hfuel : (s.flatMap escapeChar).length < fuel) :
    Python.readStr fuel (s.flatMap escapeChar ++ '"' :: rest) = some (s, rest) := by
  induction s generalizing fuel with
  | nil =>
      cases fuel with
      | zero => cases hfuel
      | succ fuel => rfl
  | cons c s ih =>
      cases fuel with
      | zero => cases hfuel
      | succ fuel =>
          rw [List.flatMap_cons, List.length_append] at hfuel
          rw [List.flatMap_cons, List.append_assoc]
          rcases escapeChar_cases c with ⟨hplain, hquote, hback, hline, hreturn⟩ | ⟨es, hes, hread⟩
          · rw [hplain, List.length_singleton] at hfuel
            rw [hplain, List.singleton_append, Python.readStr, if_neg hquote,
              if_neg (not_or.mpr ⟨hline, hreturn⟩), if_neg hback, ih fuel (by omega)]
            rfl
          · rw [hes, List.length_cons] at hfuel
            rw [hes, List.cons_append, Python.readStr, if_neg (by decide), if_neg (by decide),
              if_pos rfl, hread, Option.bind_some, ih fuel (by omega)]
            rfl

theorem digit_facts (h : c.isDigit = true) :
    c ≠ '"' ∧ c ≠ '-' ∧ c ≠ '[' ∧ c ≠ '\x7b' ∧ Python.isNumberChar c = true := by
  refine ⟨?_, ?_, ?_, ?_, ?_⟩
  · rintro rfl
    cases h
  · rintro rfl
    cases h
  · rintro rfl
    cases h
  · rintro rfl
    cases h
  · simp only [Python.isNumberChar, h, Bool.true_or]

variable {readFloat : List Char → Option Nat}

/-- A number token is read up to where it ends. -/
theorem readExpr_token (token rest : List Char) (e : Expr) (fuel : Nat) (hfuel : 0 < fuel)
    (hhead : ∃ c tail, token = c :: tail ∧ c.isDigit = true)
    (hchars : ∀ c ∈ token, Python.isNumberChar c = true) (hrest : Python.Ends rest)
    (hread : Python.readNumber readFloat token = some e) :
    Python.readExpr readFloat fuel (token ++ rest) = some (e, rest) := by
  obtain ⟨c, tail, rfl, hc⟩ := hhead
  obtain ⟨hquote, hminus, hbracket, hbrace, -⟩ := digit_facts c hc
  obtain ⟨htake, hdrop⟩ := Python.span_append Python.isNumberChar (c :: tail) rest hchars
    (fun d hd => (hrest d hd).1)
  cases fuel with
  | zero => cases hfuel
  | succ fuel =>
      rw [List.cons_append, Python.readExpr, if_neg hquote, if_neg hminus, if_neg hbracket,
        if_neg hbrace, if_pos hc, ← List.cons_append, htake, hdrop, hread]
      rfl

theorem readExpr_decimal (rest : List Char) (fuel : Nat) (hfuel : 0 < fuel)
    (hrest : Python.Ends rest) :
    Python.readExpr readFloat fuel (decimal n ++ rest) = some (.int n, rest) :=
  readExpr_token (decimal n) rest (.int n) fuel hfuel (decimal_head n)
    (fun c hc => (digit_facts c (decimal_digits n c hc)).2.2.2.2) hrest
    (readNumber_decimal readFloat n)

theorem readExpr_float (hfloat : FloatFaithful floatText readFloat) (bits : Nat)
    (hbits : finiteBits bits = true) (rest : List Char) (fuel : Nat) (hfuel : 0 < fuel)
    (hrest : Python.Ends rest) :
    Python.readExpr readFloat fuel (floatText bits ++ rest) = some (.float bits, rest) := by
  refine readExpr_token (floatText bits) rest (.float bits) fuel hfuel (hfloat.head bits hbits)
    (hfloat.chars bits hbits) hrest ?_
  unfold Python.readNumber
  rw [if_neg (by rw [hfloat.float bits hbits]; decide), hfloat.read bits hbits]
  rfl

/-- A sign is read before its number. -/
theorem readExpr_minus (token rest : List Char) (e : Expr) (fuel : Nat)
    (h : Python.readExpr readFloat fuel (token ++ rest) = some (e, rest)) :
    Python.readExpr readFloat (fuel + 1) ('-' :: token ++ rest) = some (.neg e, rest) := by
  rw [List.cons_append, Python.readExpr, if_neg (by decide), if_pos rfl, h]
  rfl

theorem readExpr_number (hfloat : FloatFaithful floatText readFloat) (n : Number)
    (hn : finiteNumber n = true) (rest : List Char) (fuel : Nat)
    (hfuel : (writeNumber floatText n).length < fuel) (hrest : Python.Ends rest) :
    Python.readExpr readFloat fuel (writeNumber floatText n ++ rest) =
      some (numberExpr n, rest) := by
  cases n with
  | posInt n => exact readExpr_decimal n.toNat rest fuel (by omega) hrest
  | negInt n =>
      rw [writeNumber] at hfuel ⊢
      rw [numberExpr]
      by_cases h : n.toInt < 0
      · rw [if_pos h, List.length_cons] at hfuel
        rw [if_pos h, if_pos h]
        cases fuel with
        | zero => omega
        | succ fuel =>
            exact readExpr_minus _ rest _ fuel (readExpr_decimal _ rest fuel (by omega) hrest)
      · rw [if_neg h, if_neg h]
        exact readExpr_decimal _ rest fuel (by omega) hrest
  | float bits =>
      have hlt := bits.toNat_lt
      rw [finiteNumber] at hn
      rw [writeNumber] at hfuel ⊢
      rw [numberExpr]
      by_cases h : signBit ≤ bits.toNat
      · rw [if_pos h, List.length_cons] at hfuel
        rw [if_pos h, if_pos h]
        have hmod : bits.toNat % signBit = bits.toNat - signBit := by
          unfold signBit at h ⊢
          omega
        rw [hmod] at hn
        cases fuel with
        | zero => omega
        | succ fuel =>
            exact readExpr_minus _ rest _ fuel
              (readExpr_float floatText hfloat _ hn rest fuel (by omega) hrest)
      · rw [if_neg h, if_neg h]
        have hmod : bits.toNat % signBit = bits.toNat := by
          unfold signBit at h ⊢
          omega
        rw [hmod] at hn
        exact readExpr_float floatText hfloat _ hn rest fuel (by omega) hrest

/-- A word is read as a name. -/
theorem readExpr_name (word rest : List Char) (fuel : Nat) (hfuel : 0 < fuel)
    (hword : word = ['n', 'u', 'l', 'l'] ∨ word = ['t', 'r', 'u', 'e'] ∨
      word = ['f', 'a', 'l', 's', 'e']) (hrest : Python.Ends rest) :
    Python.readExpr readFloat fuel (word ++ rest) = some (.name word, rest) := by
  have hspan := fun token h => Python.span_append Python.isNameChar token rest h
    (fun d hd => (hrest d hd).2)
  cases fuel with
  | zero => cases hfuel
  | succ fuel =>
      rcases hword with rfl | rfl | rfl
      · obtain ⟨htake, hdrop⟩ :=
          hspan ['n', 'u', 'l', 'l'] (List.all_eq_true.mp (by decide))
        rw [List.cons_append, Python.readExpr, if_neg (by decide), if_neg (by decide),
          if_neg (by decide), if_neg (by decide), if_neg (by decide), if_pos (by decide),
          ← List.cons_append, htake, hdrop]
      · obtain ⟨htake, hdrop⟩ :=
          hspan ['t', 'r', 'u', 'e'] (List.all_eq_true.mp (by decide))
        rw [List.cons_append, Python.readExpr, if_neg (by decide), if_neg (by decide),
          if_neg (by decide), if_neg (by decide), if_neg (by decide), if_pos (by decide),
          ← List.cons_append, htake, hdrop]
      · obtain ⟨htake, hdrop⟩ :=
          hspan ['f', 'a', 'l', 's', 'e'] (List.all_eq_true.mp (by decide))
        rw [List.cons_append, Python.readExpr, if_neg (by decide), if_neg (by decide),
          if_neg (by decide), if_neg (by decide), if_neg (by decide), if_pos (by decide),
          ← List.cons_append, htake, hdrop]

theorem readExpr_str (s rest : List Char) (fuel : Nat) (hfuel : (writeStr s).length < fuel) :
    Python.readExpr readFloat fuel (writeStr s ++ rest) = some (.str s, rest) := by
  unfold writeStr at hfuel ⊢
  rw [List.length_cons, List.length_append, List.length_singleton] at hfuel
  cases fuel with
  | zero => omega
  | succ fuel =>
      rw [List.cons_append, Python.readExpr, if_pos rfl, List.append_assoc, List.singleton_append,
        readStr_escape s rest fuel (by omega)]
      rfl

theorem ends_cons (rest : List Char) (hnumber : Python.isNumberChar c = false)
    (hname : Python.isNameChar c = false) : Python.Ends (c :: rest) := by
  intro d hd
  rw [List.head?_cons, Option.mem_some_iff] at hd
  rw [← hd]
  exact ⟨hnumber, hname⟩

/-- The text of a value does not begin with a closing bracket. -/
theorem writeNumber_head (hfloat : FloatFaithful floatText readFloat) (n : Number)
    (hn : finiteNumber n = true) (c : Char) (rest : List Char)
    (h : writeNumber floatText n = c :: rest) : c ≠ ']' := by
  have hdigit : ∀ token : List Char, (∃ d tail, token = d :: tail ∧ d.isDigit = true) →
      token = c :: rest → c ≠ ']' := by
    rintro token ⟨d, tail, hd, hdigit⟩ htoken rfl
    rw [hd] at htoken
    rw [(List.cons.inj htoken).1] at hdigit
    cases hdigit
  have hminus : ∀ token : List Char, '-' :: token = c :: rest → c ≠ ']' := by
    rintro token htoken rfl
    cases (List.cons.inj htoken).1
  cases n with
  | posInt n => exact hdigit _ (decimal_head n.toNat) h
  | negInt n =>
      rw [writeNumber] at h
      split at h
      next => exact hminus _ h
      next => exact hdigit _ (decimal_head _) h
  | float bits =>
      have hlt := bits.toNat_lt
      rw [writeNumber] at h
      rw [finiteNumber] at hn
      split at h
      next => exact hminus _ h
      next hsign =>
        have hmod : bits.toNat % signBit = bits.toNat := by
          unfold signBit at hsign ⊢
          omega
        rw [hmod] at hn
        exact hdigit _ (hfloat.head _ hn) h

theorem writeValue_head (hfloat : FloatFaithful floatText readFloat) (v : Value)
    (hv : v.finite = true) (c : Char) (rest : List Char)
    (h : writeValue floatText v = c :: rest) : c ≠ ']' := by
  cases v with
  | null =>
      rw [writeValue] at h
      rintro rfl
      cases (List.cons.inj h).1
  | bool b =>
      rw [writeValue] at h
      rintro rfl
      cases b <;> cases (List.cons.inj h).1
  | number n =>
      rw [writeValue] at h
      rw [Value.finite] at hv
      exact writeNumber_head floatText hfloat n hv c rest h
  | string s =>
      rw [writeValue, writeStr] at h
      rintro rfl
      cases (List.cons.inj h).1
  | array items =>
      rw [writeValue] at h
      rintro rfl
      cases (List.cons.inj h).1
  | object members =>
      rw [writeValue] at h
      rintro rfl
      cases (List.cons.inj h).1

theorem writeValue_ne_nil (hfloat : FloatFaithful floatText readFloat) (v : Value)
    (hv : v.finite = true) : ∃ c rest, writeValue floatText v = c :: rest := by
  cases h : writeValue floatText v with
  | cons c rest => exact ⟨c, rest, rfl⟩
  | nil =>
      exfalso
      -- Nothing can be read off an empty text, but every value can.
      cases v with
      | null => cases h
      | bool b => cases b <;> cases h
      | string s => cases h
      | array items => rw [writeValue] at h; cases h
      | object members => rw [writeValue] at h; cases h
      | number n =>
          rw [writeValue] at h
          rw [Value.finite] at hv
          have hread := readExpr_number floatText hfloat n hv [] 1 (by rw [h]; decide)
            (fun c hc => by cases hc)
          rw [h] at hread
          cases hread

mutual

theorem readExpr_write (hfloat : FloatFaithful floatText readFloat) (v : Value)
    (hv : v.finite = true) (rest : List Char) (fuel : Nat)
    (hfuel : (writeValue floatText v).length < fuel) (hrest : Python.Ends rest) :
    Python.readExpr readFloat fuel (writeValue floatText v ++ rest) = some (toExpr v, rest) := by
  cases v with
  | null => exact readExpr_name _ rest fuel (by omega) (.inl rfl) hrest
  | bool b =>
      cases b with
      | true => exact readExpr_name _ rest fuel (by omega) (.inr (.inl rfl)) hrest
      | false => exact readExpr_name _ rest fuel (by omega) (.inr (.inr rfl)) hrest
  | number n =>
      rw [writeValue] at hfuel ⊢
      rw [Value.finite] at hv
      exact readExpr_number floatText hfloat n hv rest fuel hfuel hrest
  | string s =>
      rw [writeValue] at hfuel ⊢
      exact readExpr_str s.toList rest fuel hfuel
  | array items =>
      rw [writeValue, List.length_cons, List.length_append, List.length_singleton] at hfuel
      rw [Value.finite] at hv
      cases fuel with
      | zero => omega
      | succ fuel =>
          rw [writeValue, List.cons_append, Python.readExpr, if_neg (by decide),
            if_neg (by decide), if_pos rfl, List.append_assoc, List.singleton_append]
          cases items with
          | nil => rfl
          | cons first more =>
              have hread := readItems_write hfloat (first :: more) hv (List.cons_ne_nil _ _) rest
                fuel (by omega)
              obtain ⟨c, tail, hc⟩ := writeValue_ne_nil floatText hfloat first
                (Bool.and_eq_true_iff.mp hv).1
              have hhead := writeValue_head floatText hfloat first
                (Bool.and_eq_true_iff.mp hv).1 c tail hc
              rw [if_neg (by
                rw [writeItems, hc]
                simpa using hhead), hread]
              rfl
  | object members =>
      rw [writeValue, List.length_cons, List.length_append, List.length_singleton] at hfuel
      rw [Value.finite] at hv
      cases fuel with
      | zero => omega
      | succ fuel =>
          rw [writeValue, List.cons_append, Python.readExpr, if_neg (by decide),
            if_neg (by decide), if_neg (by decide), if_pos rfl, List.append_assoc,
            List.singleton_append]
          cases members with
          | nil => rfl
          | cons first more =>
              have hread := readPairs_write hfloat (first :: more) hv (List.cons_ne_nil _ _) rest
                fuel (by omega)
              rw [if_neg (by
                rw [writeMembers, writeStr]
                simp), hread]
              rfl

theorem readItems_write (hfloat : FloatFaithful floatText readFloat) (items : List Value)
    (hitems : finiteItems items = true) (hne : items ≠ []) (rest : List Char) (fuel : Nat)
    (hfuel : (writeItems floatText items).length + 1 < fuel) :
    Python.readItems readFloat fuel (writeItems floatText items ++ ']' :: rest) =
      some (toExprs items, rest) := by
  cases items with
  | nil => exact absurd rfl hne
  | cons v more =>
      obtain ⟨hv, hmore⟩ := Bool.and_eq_true_iff.mp hitems
      rw [writeItems, List.length_append] at hfuel
      cases fuel with
      | zero => omega
      | succ fuel =>
          rw [writeItems, Python.readItems, List.append_assoc]
          cases more with
          | nil =>
              rw [List.isEmpty_nil, if_pos rfl, List.nil_append,
                readExpr_write hfloat v hv _ fuel (by omega) (ends_cons ']' rest rfl rfl)]
              rfl
          | cons next more =>
              rw [if_neg (by simp), List.length_cons] at hfuel
              have hread := readItems_write hfloat (next :: more) hmore (List.cons_ne_nil _ _) rest
                fuel (by omega)
              rw [if_neg (by simp), List.cons_append,
                readExpr_write hfloat v hv _ fuel (by omega) (ends_cons ',' _ rfl rfl),
                Option.bind_some]
              dsimp only
              rw [if_pos rfl, hread]
              rfl

theorem readPairs_write (hfloat : FloatFaithful floatText readFloat)
    (members : List (String × Value)) (hmembers : finiteMembers members = true)
    (hne : members ≠ []) (rest : List Char) (fuel : Nat)
    (hfuel : (writeMembers floatText members).length + 1 < fuel) :
    Python.readPairs readFloat fuel (writeMembers floatText members ++ '\x7d' :: rest) =
      some (toPairs members, rest) := by
  cases members with
  | nil => exact absurd rfl hne
  | cons member more =>
      obtain ⟨name, v⟩ := member
      obtain ⟨hv, hmore⟩ := Bool.and_eq_true_iff.mp hmembers
      rw [writeMembers, List.length_append, List.length_cons, List.length_append] at hfuel
      cases fuel with
      | zero => omega
      | succ fuel =>
          rw [writeMembers, Python.readPairs, List.append_assoc, List.cons_append,
            readExpr_str name.toList _ fuel (by omega), Option.bind_some]
          dsimp only
          rw [List.head?_cons, if_pos rfl, List.tail_cons, List.append_assoc]
          cases more with
          | nil =>
              rw [List.isEmpty_nil, if_pos rfl, List.nil_append,
                readExpr_write hfloat v hv _ fuel (by omega) (ends_cons '\x7d' rest rfl rfl)]
              rfl
          | cons next more =>
              rw [if_neg (by simp), List.length_cons] at hfuel
              have hread := readPairs_write hfloat (next :: more) hmore (List.cons_ne_nil _ _) rest
                fuel (by omega)
              rw [if_neg (by simp), List.cons_append,
                readExpr_write hfloat v hv _ fuel (by omega) (ends_cons ',' _ rfl rfl),
                Option.bind_some]
              dsimp only
              rw [if_pos rfl, hread]
              rfl

end

theorem eval_numberExpr (n : Number) : (numberExpr n).eval = some (numberPython n) := by
  cases n with
  | posInt n => rfl
  | negInt n =>
      rw [numberExpr, numberPython]
      by_cases h : n.toInt < 0
      · rw [if_pos h]
        have hneg : -(n.toInt.natAbs : Int) = n.toInt := by omega
        simp only [Expr.eval, Option.bind_some, Python.negate, hneg]
      · rw [if_neg h]
        have hpos : (n.toInt.natAbs : Int) = n.toInt := by omega
        simp only [Expr.eval, hpos]
  | float bits =>
      rw [numberExpr, numberPython]
      split
      next => rfl
      next => rfl

/-- None of the words of JSON is bound in Python. -/
theorem lookupName_word (b : Bool) :
    Python.lookupName ['n', 'u', 'l', 'l'] = none ∧
      Python.lookupName (if b then ['t', 'r', 'u', 'e'] else ['f', 'a', 'l', 's', 'e']) = none := by
  cases b <;> decide

mutual

/-- An expression without words has the value it stands for. -/
theorem eval_toExpr (v : Value) (h : v.plain = true) : (toExpr v).eval = some (toPython v) := by
  cases v with
  | null => cases h
  | bool b => cases h
  | number n =>
      rw [toExpr, toPython]
      exact eval_numberExpr n
  | string s => rfl
  | array items =>
      rw [toExpr, toPython, Expr.eval, evalItems_toExprs items h]
      rfl
  | object members =>
      rw [toExpr, toPython, Expr.eval, evalPairs_toPairs members h]
      rfl

theorem evalItems_toExprs (items : List Value) (h : plainItems items = true) :
    Python.evalItems (toExprs items) = some (toPythons items) := by
  cases items with
  | nil => rfl
  | cons v rest =>
      obtain ⟨hv, hrest⟩ := Bool.and_eq_true_iff.mp h
      rw [toExprs, toPythons, Python.evalItems, eval_toExpr v hv, evalItems_toExprs rest hrest]
      rfl

theorem evalPairs_toPairs (members : List (String × Value)) (h : plainMembers members = true) :
    Python.evalPairs (toPairs members) = some (toItems members) := by
  cases members with
  | nil => rfl
  | cons member rest =>
      obtain ⟨name, v⟩ := member
      obtain ⟨hv, hrest⟩ := Bool.and_eq_true_iff.mp h
      rw [toPairs, toItems, Python.evalPairs, eval_toExpr v hv, evalPairs_toPairs rest hrest]
      rfl

end

mutual

/-- An expression with a word in it has no value. -/
theorem eval_of_word (v : Value) (h : v.plain = false) : (toExpr v).eval = none := by
  cases v with
  | null => exact (lookupName_word true).1
  | bool b => exact (lookupName_word b).2
  | number n => cases h
  | string s => cases h
  | array items =>
      rw [toExpr, Expr.eval, evalItems_of_word items h]
      rfl
  | object members =>
      rw [toExpr, Expr.eval, evalPairs_of_word members h]
      rfl

theorem evalItems_of_word (items : List Value) (h : plainItems items = false) :
    Python.evalItems (toExprs items) = none := by
  cases items with
  | nil => cases h
  | cons v rest =>
      rw [toExprs, Python.evalItems]
      rcases Bool.and_eq_false_iff.mp h with hv | hrest
      · rw [eval_of_word v hv]
        rfl
      · rw [evalItems_of_word rest hrest]
        cases (toExpr v).eval <;> rfl

theorem evalPairs_of_word (members : List (String × Value)) (h : plainMembers members = false) :
    Python.evalPairs (toPairs members) = none := by
  cases members with
  | nil => cases h
  | cons member rest =>
      obtain ⟨name, v⟩ := member
      rw [toPairs, Python.evalPairs]
      rcases Bool.and_eq_false_iff.mp h with hv | hrest
      · rw [eval_of_word v hv]
        rfl
      · rw [evalPairs_of_word rest hrest]
        cases (toExpr v).eval <;> rfl

end

theorem eval_toExpr_iff (v : Value) :
    (toExpr v).eval = some (toPython v) ↔ v.plain = true := by
  constructor
  · intro h
    by_contra hword
    rw [eval_of_word v (Bool.not_eq_true _ ▸ hword)] at h
    cases h
  · exact eval_toExpr v

/-- Neither of the characters that end a line. -/
def OneLine (text : List Char) : Prop := '\n' ∉ text ∧ '\r' ∉ text

theorem oneLine_append (a b : List Char) : OneLine (a ++ b) ↔ OneLine a ∧ OneLine b := by
  simp only [OneLine, List.mem_append, not_or]
  tauto

theorem oneLine_cons (text : List Char) :
    OneLine (c :: text) ↔ (c ≠ '\n' ∧ c ≠ '\r') ∧ OneLine text := by
  simp only [OneLine, List.mem_cons, not_or]
  constructor
  · rintro ⟨⟨hn, htextn⟩, hr, htextr⟩
    exact ⟨⟨fun h => hn h.symm, fun h => hr h.symm⟩, htextn, htextr⟩
  · rintro ⟨⟨hn, hr⟩, htextn, htextr⟩
    exact ⟨⟨fun h => hn h.symm, htextn⟩, fun h => hr h.symm, htextr⟩

theorem oneLine_nil : OneLine [] := ⟨List.not_mem_nil, List.not_mem_nil⟩

theorem digitChar_line : ∀ d, d < 16 → Nat.digitChar d ≠ '\n' ∧ Nat.digitChar d ≠ '\r' := by
  decide

theorem oneLine_escapeChar : OneLine (escapeChar c) := by
  unfold escapeChar
  repeat' split
  all_goals try (exact ⟨by decide, by decide⟩)
  next h =>
    have hhigh := digitChar_line (c.toNat / 16) (by omega)
    have hlow := digitChar_line (c.toNat % 16) (by omega)
    simp only [oneLine_cons]
    exact ⟨by decide, by decide, by decide, by decide, hhigh, hlow, oneLine_nil⟩
  next hline hreturn _ _ =>
    rw [oneLine_cons]
    exact ⟨⟨hline, hreturn⟩, oneLine_nil⟩

theorem oneLine_of_forall (text : List Char) (h : ∀ c ∈ text, c ≠ '\n' ∧ c ≠ '\r') :
    OneLine text := ⟨fun hmem => (h _ hmem).1 rfl, fun hmem => (h _ hmem).2 rfl⟩

theorem oneLine_writeStr (s : List Char) : OneLine (writeStr s) := by
  unfold writeStr
  rw [oneLine_cons, oneLine_append]
  refine ⟨by decide, oneLine_of_forall _ (fun c hc => ?_), ⟨by decide, by decide⟩⟩
  obtain ⟨d, -, hd⟩ := List.mem_flatMap.mp hc
  obtain ⟨hn, hr⟩ := oneLine_escapeChar d
  exact ⟨fun h => hn (h ▸ hd), fun h => hr (h ▸ hd)⟩

theorem oneLine_number (token : List Char) (h : ∀ c ∈ token, Python.isNumberChar c = true) :
    OneLine token := by
  refine oneLine_of_forall token (fun c hc => ⟨?_, ?_⟩)
  · rintro rfl
    exact absurd (h _ hc) (by decide)
  · rintro rfl
    exact absurd (h _ hc) (by decide)

theorem oneLine_decimal : OneLine (decimal n) :=
  oneLine_number _ (fun c hc => (digit_facts c (decimal_digits n c hc)).2.2.2.2)

theorem oneLine_writeNumber (hfloat : FloatFaithful floatText readFloat) (n : Number)
    (hn : finiteNumber n = true) : OneLine (writeNumber floatText n) := by
  cases n with
  | posInt n => exact oneLine_decimal n.toNat
  | negInt n =>
      rw [writeNumber]
      split
      next => exact (oneLine_cons _ _).mpr ⟨by decide, oneLine_decimal _⟩
      next => exact oneLine_decimal _
  | float bits =>
      have hlt := bits.toNat_lt
      rw [finiteNumber] at hn
      rw [writeNumber]
      split
      next h =>
        have hmod : bits.toNat % signBit = bits.toNat - signBit := by
          unfold signBit at h ⊢
          omega
        rw [hmod] at hn
        exact (oneLine_cons _ _).mpr ⟨by decide, oneLine_number _ (hfloat.chars _ hn)⟩
      next h =>
        have hmod : bits.toNat % signBit = bits.toNat := by
          unfold signBit at h ⊢
          omega
        rw [hmod] at hn
        exact oneLine_number _ (hfloat.chars _ hn)

mutual

/-- The text of a value stays on one line. -/
theorem writeValue_line (hfloat : FloatFaithful floatText readFloat) (v : Value)
    (hv : v.finite = true) : OneLine (writeValue floatText v) := by
  cases v with
  | null =>
      rw [writeValue]
      exact ⟨by decide, by decide⟩
  | bool b =>
      rw [writeValue]
      cases b <;> exact ⟨by decide, by decide⟩
  | number n =>
      rw [writeValue]
      rw [Value.finite] at hv
      exact oneLine_writeNumber floatText hfloat n hv
  | string s =>
      rw [writeValue]
      exact oneLine_writeStr s.toList
  | array items =>
      rw [writeValue, oneLine_cons, oneLine_append]
      rw [Value.finite] at hv
      exact ⟨by decide, writeItems_line hfloat items hv, ⟨by decide, by decide⟩⟩
  | object members =>
      rw [writeValue, oneLine_cons, oneLine_append]
      rw [Value.finite] at hv
      exact ⟨by decide, writeMembers_line hfloat members hv, ⟨by decide, by decide⟩⟩

theorem writeItems_line (hfloat : FloatFaithful floatText readFloat) (items : List Value)
    (hitems : finiteItems items = true) : OneLine (writeItems floatText items) := by
  cases items with
  | nil => exact oneLine_nil
  | cons v rest =>
      obtain ⟨hv, hrest⟩ := Bool.and_eq_true_iff.mp hitems
      rw [writeItems, oneLine_append]
      refine ⟨writeValue_line hfloat v hv, ?_⟩
      split
      next => exact oneLine_nil
      next => exact (oneLine_cons _ _).mpr ⟨by decide, writeItems_line hfloat rest hrest⟩

theorem writeMembers_line (hfloat : FloatFaithful floatText readFloat)
    (members : List (String × Value)) (hmembers : finiteMembers members = true) :
    OneLine (writeMembers floatText members) := by
  cases members with
  | nil => exact oneLine_nil
  | cons member rest =>
      obtain ⟨name, v⟩ := member
      obtain ⟨hv, hrest⟩ := Bool.and_eq_true_iff.mp hmembers
      rw [writeMembers, oneLine_append, oneLine_cons, oneLine_append]
      refine ⟨oneLine_writeStr name.toList, by decide, writeValue_line hfloat v hv, ?_⟩
      split
      next => exact oneLine_nil
      next => exact (oneLine_cons _ _).mpr ⟨by decide, writeMembers_line hfloat rest hrest⟩

end

end Json

end DccMcp
