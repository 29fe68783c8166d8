import Mathlib.Data.Nat.Digits.Defs

/-!
# Python Displays

The part of Python's expressions that stands for data: names, numbers with a
sign, strings in double quotes, lists and dictionaries, written without
blanks. Reading a text as an expression and evaluating the expression are two
steps, as they are in Python: a name that means nothing is still read as a
name, and fails only when it is evaluated.

Of the escapes in a string the octal ones, the named ones and the continued
line are left out, and a text that has one is not read. A number is a run of
characters that can stand in one, which is right where a comma, a colon or a
closing bracket follows. Floats are taken as their bits, and which text is
which float is a parameter.

## Main definitions

* `Expr`, `Value`: Expressions and what they evaluate to.
* `readExpr`, `parse`: Reading an expression.
* `Expr.eval`: Evaluating one, where only the keywords are bound.

## Theorems

* `span_append`: A token ends where its characters do.
-/

namespace DccMcp

namespace Python

inductive Expr
  | name (id : List Char)
  | int (n : Nat)
  | float (bits : Nat)
  | str (s : List Char)
  | neg (e : Expr)
  | list (items : List Expr)
  | dict (items : List (Expr × Expr))

inductive Value
  | none
  | bool (b : Bool)
  | int (n : Int)
  | float (negative : Bool) (bits : Nat)
  | str (s : List Char)
  | list (items : List Value)
  | dict (items : List (List Char × Value))

/-- An item of a dictionary is replaced in place, or put at the end. -/
def insertItem (key : List Char) (value : Value) :
    List (List Char × Value) → List (List Char × Value)
  | [] => [(key, value)]
  | item :: rest =>
    if item.1 = key then (key, value) :: rest else item :: insertItem key value rest

/-- A dictionary of the items of a display: a later item of a key wins. -/
def dictOf (items : List (List Char × Value)) : Value :=
  .dict (items.foldl (fun d item => insertItem item.1 item.2 d) [])

/-- What a name is bound to: only the keywords are. -/
def lookupName (id : List Char) : Option Value :=
  if id = ['T', 'r', 'u', 'e'] then some (.bool true)
  else if id = ['F', 'a', 'l', 's', 'e'] then some (.bool false)
  else if id = ['N', 'o', 'n', 'e'] then some .none
  else .none

/-- The unary minus. -/
def negate : Value → Option Value
  | .int n => some (.int (-n))
  | .float negative bits => some (.float (!negative) bits)
  | .bool b => some (.int (if b then -1 else 0))
  | _ => .none

/-- The keys of the dictionaries here are strings. -/
def asKey : Value → Option (List Char)
  | .str s => some s
  | _ => .none

mutual

/-- The value of an expression. A name that is not bound is an error. -/
def Expr.eval : Expr → Option Value
  | .name id => lookupName id
  | .int n => some (.int n)
  | .float bits => some (.float false bits)
  | .str s => some (.str s)
  | .neg e => (Expr.eval e).bind negate
  | .list items => (evalItems items).map .list
  | .dict items => (evalPairs items).map dictOf

def evalItems : List Expr → Option (List Value)
  | [] => some []
  | e :: rest => (Expr.eval e).bind fun v => (evalItems rest).map (v :: ·)

def evalPairs : List (Expr × Expr) → Option (List (List Char × Value))
  | [] => some []
  | (k, e) :: rest =>
    ((Expr.eval k).bind asKey).bind fun key =>
      (Expr.eval e).bind fun v => (evalPairs rest).map ((key, v) :: ·)

end

/-- The escapes of one character. -/
def simpleEscape (c : Char) : Option Char :=
  if c = '"' then some '"'
  else if c = '\\' then some '\\'
  else if c = '\'' then some '\''
  else if c = 'n' then some '\n'
  else if c = 'r' then some '\r'
  else if c = 't' then some '\t'
  else if c = 'b' then some '\x08'
  else if c = 'f' then some '\x0c'
  else if c = 'a' then some '\x07'
  else if c = 'v' then some '\x0b'
  else none

def hexValue (c : Char) : Option Nat :=
  if '0' ≤ c ∧ c ≤ '9' then some (c.toNat - 48)
  else if 'a' ≤ c ∧ c ≤ 'f' then some (c.toNat - 87)
  else if 'A' ≤ c ∧ c ≤ 'F' then some (c.toNat - 55)
  else none

/-- A character by some hexadecimal digits. -/
def readHex : Nat → Nat → List Char → Option (Char × List Char)
  | 0, code, rest => if code.isValidChar then some (Char.ofNat code, rest) else none
  | _ + 1, _, [] => none
  | n + 1, code, c :: rest => (hexValue c).bind fun d => readHex n (code * 16 + d) rest

/-- What stands for an escape, once its backslash has been read. An escape
    that means nothing stands for itself. -/
def readEscape : List Char → Option (List Char × List Char)
  | [] => none
  | c :: rest =>
    match simpleEscape c with
    | some d => some ([d], rest)
    | none =>
      if c = 'x' then (readHex 2 0 rest).map fun r => ([r.1], r.2)
      else if c = 'u' then (readHex 4 0 rest).map fun r => ([r.1], r.2)
      else if c = 'U' then (readHex 8 0 rest).map fun r => ([r.1], r.2)
      else if c.isDigit ∨ c = 'N' ∨ c = '\n' ∨ c = '\r' then none
      else some (['\\', c], rest)

/-- The rest of a string in double quotes, which stays on its line. -/
def readStr : Nat → List Char → Option (List Char × List Char)
  | 0, _ => none
  | _ + 1, [] => none
  | fuel + 1, c :: rest =>
    if c = '"' then some ([], rest)
    else if c = '\n' ∨ c = '\r' then none
    else if c = '\\' then
      (readEscape rest).bind fun r => (readStr fuel r.2).map fun r' => (r.1 ++ r'.1, r'.2)
    else (readStr fuel rest).map fun r' => (c :: r'.1, r'.2)

def isNumberChar (c : Char) : Bool :=
  c.isDigit || c == '.' || c == 'e' || c == 'E' || c == '+' || c == '-'

def isNameChar (c : Char) : Bool := c.isAlphanum || c == '_'

/-- A number token: decimal digits without leading zeros, or a float. -/
def readNumber (readFloat : List Char → Option Nat) (token : List Char) : Option Expr :=
  if token.all Char.isDigit then
    if token.head? = some '0' ∧ token ≠ ['0'] then none
    else some (.int (Nat.ofDigits 10 (token.reverse.map fun c => c.toNat - 48)))
  else (readFloat token).map .float

variable (readFloat : List Char → Option Nat)

mutual

/-- An expression at the front of a text, and what follows it. -/
def readExpr : Nat → List Char → Option (Expr × List Char)
  | 0, _ => none
  | _ + 1, [] => none
  | fuel + 1, c :: rest =>
    if c = '"' then (readStr fuel rest).map fun r => (.str r.1, r.2)
    else if c = '-' then (readExpr fuel rest).map fun r => (.neg r.1, r.2)
    else if c = '[' then
      if rest.head? = some ']' then some (.list [], rest.tail)
      else (readItems fuel rest).map fun r => (.list r.1, r.2)
    else if c = '\x7b' then
      if rest.head? = some '\x7d' then some (.dict [], rest.tail)
      else (readPairs fuel rest).map fun r => (.dict r.1, r.2)
    else if c.isDigit then
      (readNumber readFloat ((c :: rest).takeWhile isNumberChar)).map fun e =>
        (e, (c :: rest).dropWhile isNumberChar)
    else if isNameChar c then
      some (.name ((c :: rest).takeWhile isNameChar), (c :: rest).dropWhile isNameChar)
    else none

/-- The items of a list, up to its closing bracket. -/
def readItems : Nat → List Char → Option (List Expr × List Char)
  | 0, _ => none
  | fuel + 1, text =>
    (readExpr fuel text).bind fun r =>
      match r.2 with
      | [] => none
      | c :: rest =>
        if c = ',' then (readItems fuel rest).map fun r' => (r.1 :: r'.1, r'.2)
        else if c = ']' then some ([r.1], rest)
        else none

/-- The items of a dictionary, up to its closing brace. -/
def readPairs : Nat → List Char → Option (List (Expr × Expr) × List Char)
  | 0, _ => none
  | fuel + 1, text =>
    (readExpr fuel text).bind fun k =>
      if k.2.head? = some ':' then
        (readExpr fuel k.2.tail).bind fun r =>
          match r.2 with
          | [] => none
          | c :: rest =>
            if c = ',' then (readPairs fuel rest).map fun r' => ((k.1, r.1) :: r'.1, r'.2)
            else if c = '\x7d' then some ([(k.1, r.1)], rest)
            else none
      else none

end

/-- A whole text that is one expression. -/
def parse (text : List Char) : Option Expr :=
  match readExpr readFloat (text.length + 1) text with
  | some (e, []) => some e
  | _ => none

/-- The value of a text. -/
def evaluate (text : List Char) : Option Value := (parse readFloat text).bind Expr.eval

/-- What follows a token begins with a character that is not part of one. -/
def Ends (rest : List Char) : Prop :=
  ∀ c ∈ rest.head?, isNumberChar c = false ∧ isNameChar c = false

/-- A token ends where its characters do. -/
theorem span_append (ok : Char → Bool) (token rest : List Char) (htoken : ∀ c ∈ token, ok c = true)
    (hrest : ∀ c ∈ rest.head?, ok c = false) :
    (token ++ rest).takeWhile ok = token ∧ (token ++ rest).dropWhile ok = rest := by
  induction token with
  | nil =>
      cases rest with
      | nil => exact ⟨rfl, rfl⟩
      | cons c rest =>
          have hc := hrest c rfl
          simp [hc]
  | cons c token ih =>
      have hc := htoken c List.mem_cons_self
      obtain ⟨htake, hdrop⟩ := ih (fun d hd => htoken d (List.mem_cons_of_mem c hd))
      simp [hc, htake, hdrop]

end Python

end DccMcp
