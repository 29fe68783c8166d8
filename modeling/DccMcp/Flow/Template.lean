import DccMcp.Lib.Json
import Mathlib.Algebra.Group.Nat.Defs

/-!
# Templates

How the arguments of a step are rendered: every string in them may contain
references in double braces, which are replaced by what they resolve to.

A reference is a path. Its first name is looked up among the bindings of the
enclosing loops, and only then in the document of the whole context. The two
are not read at the same moment: the document is built once before the
rendering starts, and each lookup of a binding reads the context again. So
rendering is written over an arbitrary monad with a lookup, and the executor
runs it as a program that other branches can interrupt.

A string that is one reference and nothing else keeps the type of what it
resolves to. The test for this looks at the closing braces only: the
comparison that was meant to count the opening ones negates the number bit
by bit.

## Main definitions

* `TemplateError`, `PathToken`, `Piece`: The data.
* `tokenizePath`, `resolvePath`: Paths and what they resolve to.
* `pieces`: The text and the references of a string.
* `renderString`, `renderValue`: Rendering.
* `Related`: Programs of two kinds that do the same.

## Theorems

* `Related.renderValue`: Rendering does the same with lookups that do.
-/

namespace DccMcp

namespace Workflow

open Json

/-- Template and path resolution errors. -/
inductive TemplateError
  | unknownPath (template path : String)
  | malformed (template reason : String)

/-- A character in the debug form of a text. Beyond ASCII every character is
    taken as printable. -/
def debugChar (c : Char) : String :=
  if c = '"' then "\\\""
  else if c = '\\' then "\\\\"
  else if c = '\n' then "\\n"
  else if c = '\r' then "\\r"
  else if c = '\t' then "\\t"
  else if c.toNat = 0 then "\\0"
  else if c.toNat < 32 ∨ c.toNat = 127 then
    "\\u\x7b" ++ String.ofList (Nat.toDigits 16 c.toNat) ++ "\x7d"
  else c.toString

/-- The debug form of a text, as `:?` prints it. -/
def debugText (s : String) : String := "\"" ++ String.join (s.toList.map debugChar) ++ "\""

/-- `error.to_string()`. -/
def TemplateError.text : TemplateError → String
  | .unknownPath template path =>
    "template " ++ debugText template ++ " references unknown path " ++ debugText path
  | .malformed template reason => "malformed template " ++ debugText template ++ ": " ++ reason

/-- A step of a path: a name, or an index in brackets. -/
inductive PathToken
  | ident (name : String)
  | index (i : Nat)
  deriving DecidableEq

/-- `char::is_whitespace`, the characters that `trim` removes. -/
def isWhitespace (c : Char) : Bool :=
  let n := c.toNat
  (9 ≤ n && n ≤ 13) || n == 32 || n == 0x85 || n == 0xa0 || n == 0x1680 ||
    (0x2000 ≤ n && n ≤ 0x200a) || n == 0x2028 || n == 0x2029 || n == 0x202f || n == 0x205f ||
    n == 0x3000

def trim (s : List Char) : List Char :=
  ((s.dropWhile isWhitespace).reverse.dropWhile isWhitespace).reverse

/-- `str::parse::<usize>`: digits with an optional plus sign, below `2 ^ 64`. -/
def parseUsize (s : List Char) : Option Nat :=
  let digits := if s.head? = some '+' then s.tail else s
  if digits ≠ [] ∧ digits.all Char.isDigit then
    let n := digits.foldl (fun n c => 10 * n + (c.toNat - '0'.toNat)) 0
    if n < 2 ^ 64 then some n else none
  else none

/-- Where the scan of a path is: between two steps, in a name, or in an index.
    The characters read so far are in reverse. -/
inductive PathScan
  | between
  | inIdent (read : List Char)
  | inIndex (read : List Char)

/-- `tokenize_path`, one character at a time. -/
def tokenizeFrom : PathScan → List Char → Option (List PathToken)
  | .between, [] => some []
  | .inIdent read, [] => some [.ident (String.ofList read.reverse)]
  | .inIndex _, [] => none
  | .between, c :: rest =>
    if c = '.' then tokenizeFrom .between rest
    else if c = '[' then tokenizeFrom (.inIndex []) rest
    else tokenizeFrom (.inIdent [c]) rest
  | .inIdent read, c :: rest =>
    if c = '.' then
      (tokenizeFrom .between rest).map (.ident (String.ofList read.reverse) :: ·)
    else if c = '[' then
      (tokenizeFrom (.inIndex []) rest).map (.ident (String.ofList read.reverse) :: ·)
    else tokenizeFrom (.inIdent (c :: read)) rest
  | .inIndex read, c :: rest =>
    if c = ']' then
      match parseUsize read.reverse with
      | none => none
      | some i => (tokenizeFrom .between rest).map (.index i :: ·)
    else tokenizeFrom (.inIndex (c :: read)) rest

def tokenizePath (path : List Char) : Option (List PathToken) := tokenizeFrom .between path

/-- The steps of a path after the first, from a value on. What is not there
    is null. -/
def walkPath (value : Value) : List PathToken → Value
  | [] => value
  | .ident name :: rest => walkPath ((value.get name).getD .null) rest
  | .index i :: rest => walkPath ((value.getIndex i).getD .null) rest

section Render

variable {m : Type → Type} [Monad m] (lookupItem : String → m (Option Value)) (root : Value)

/-- `resolve_path`. A binding of an enclosing loop comes first; a name that is
    bound to nothing at all is unknown. -/
def resolvePath (path : List Char) : m (Option Value) :=
  match tokenizePath path with
  | some (.ident first :: rest) => do
    let bound ← lookupItem first
    let value := bound.getD ((root.get first).getD .null)
    match value, root.get first with
    | .null, none =>
      -- The source asks for the binding once more before it gives up.
      let again ← lookupItem first
      match again with
      | none => pure none
      | some _ => pure (some (walkPath value rest))
    | value, _ => pure (some (walkPath value rest))
  | _ => pure none

/-- A part of a string: text, the inside of a pair of braces, or the end of a
    string whose braces are not closed. -/
inductive Piece
  | text (s : List Char)
  | reference (path : List Char)
  | unterminated

/-- The parts of a string, where `read` is the text before the next reference,
    or the inside of the braces, in reverse. -/
def piecesFrom : Bool → List Char → List Char → List Piece
  | false, read, [] => [.text read.reverse]
  | false, read, '{' :: '{' :: rest => .text read.reverse :: piecesFrom true [] rest
  | false, read, c :: rest => piecesFrom false (c :: read) rest
  | true, _, [] => [.unterminated]
  | true, read, '}' :: '}' :: rest => .reference read.reverse :: piecesFrom false [] rest
  | true, read, c :: rest => piecesFrom true (c :: read) rest

/-- The parts of a string. -/
def pieces (s : List Char) : List Piece := piecesFrom false [] s

/-- `str::matches(..).count()` for a needle of two characters. -/
def countPairs (c : Char) : List Char → Nat
  | a :: b :: rest => if a = c ∧ b = c then countPairs c rest + 1 else countPairs c (b :: rest)
  | _ => 0

/-- The inside of a string that is one reference: it starts and ends with
    braces, and there are closing braces only once. -/
def wholeReference (s : List Char) : Option (List Char) :=
  let trimmed := trim s
  match trimmed with
  | '{' :: '{' :: rest =>
    if rest.reverse.take 2 = ['}', '}'] then
      -- The first test was meant for a number of opening braces other than one.
      if 2 ^ 64 - 1 - countPairs '{' trimmed = 1 ∨ countPairs '}' trimmed ≠ 1 then none
      else some (trim (rest.reverse.drop 2).reverse)
    else none
  | _ => none

/-- What a resolved value looks like inside a text. -/
def embeddedText (text : Value → String) : Value → String
  | .string s => s
  | .null => ""
  | value => text value

/-- The loop of `render_string` over the parts of a string. -/
def renderPieces (text : Value → String) (template : String) :
    List Piece → m (Except TemplateError String)
  | [] => pure (.ok "")
  | .text s :: rest => do
    match ← renderPieces text template rest with
    | .error e => pure (.error e)
    | .ok out => pure (.ok (String.ofList s ++ out))
  | .unterminated :: _ => pure (.error (.malformed template "unterminated '\x7b\x7b'"))
  | .reference path :: rest => do
    if trim path = [] then pure (.error (.malformed template "empty reference"))
    else match ← resolvePath lookupItem root (trim path) with
      | none => pure (.error (.unknownPath template (String.ofList (trim path))))
      | some value =>
        match ← renderPieces text template rest with
        | .error e => pure (.error e)
        | .ok out => pure (.ok (embeddedText text value ++ out))

def renderString (text : Value → String) (s : String) : m (Except TemplateError Value) :=
  match wholeReference s.toList with
  | some path => do
    match ← resolvePath lookupItem root path with
    | none => pure (.error (.unknownPath s (String.ofList path)))
    | some value => pure (.ok value)
  | none => do
    match ← renderPieces lookupItem root text s (pieces s.toList) with
    | .error e => pure (.error e)
    | .ok out => pure (.ok (.string out))

mutual

def renderValue (text : Value → String) : Value → m (Except TemplateError Value)
  | .string s => renderString lookupItem root text s
  | .array items => do
    match ← renderItems text items with
    | .error e => pure (.error e)
    | .ok items => pure (.ok (.array items))
  | .object members => do
    match ← renderMembers text members with
    | .error e => pure (.error e)
    | .ok members => pure (.ok (.object members))
  | value => pure (.ok value)

/-- The items of an array, up to the first error. -/
def renderItems (text : Value → String) : List Value → m (Except TemplateError (List Value))
  | [] => pure (.ok [])
  | item :: rest => do
    match ← renderValue text item with
    | .error e => pure (.error e)
    | .ok item =>
      match ← renderItems text rest with
      | .error e => pure (.error e)
      | .ok rest => pure (.ok (item :: rest))

/-- The members of an object, up to the first error. -/
def renderMembers (text : Value → String) :
    List (String × Value) → m (Except TemplateError (List (String × Value)))
  | [] => pure (.ok [])
  | (key, value) :: rest => do
    match ← renderValue text value with
    | .error e => pure (.error e)
    | .ok value =>
      match ← renderMembers text rest with
      | .error e => pure (.error e)
      | .ok rest => pure (.ok ((key, value) :: rest))

end

end Render

/-! ## Rendering in two ways at once -/

/-- A relation between programs of two kinds that is built up with them. -/
structure Related {m m' : Type → Type} [Monad m] [Monad m']
    (rel : (α : Type) → m α → m' α → Prop) : Prop where
  pure {α : Type} (r : α) : rel α (pure r) (pure r)
  bind {α β : Type} {x : m α} {x' : m' α} {f : α → m β} {f' : α → m' β} (hx : rel α x x')
    (hf : ∀ r, rel β (f r) (f' r)) : rel β (x >>= f) (x' >>= f')

namespace Related

variable {m m' : Type → Type} [Monad m] [Monad m'] {rel : (α : Type) → m α → m' α → Prop}
  (h : Related rel) (look : String → m (Option Value)) (look' : String → m' (Option Value))
  (hlook : ∀ name, rel _ (look name) (look' name)) (root : Value) (text : Value → String)

include h hlook

theorem resolvePath (path : List Char) :
    rel _ (resolvePath look root path) (resolvePath look' root path) := by
  unfold Workflow.resolvePath
  -- The binding is looked up once more if neither it nor a member was found.
  split
  · refine h.bind (hlook _) (fun bound => ?_)
    dsimp only
    split
    · refine h.bind (hlook _) (fun again => ?_)
      split <;> exact h.pure _
    · exact h.pure _
  · exact h.pure _

theorem renderPieces (template : String) (parts : List Piece) :
    rel _ (renderPieces look root text template parts)
      (renderPieces look' root text template parts) := by
  -- The pieces are rendered from left to right, up to the first error.
  induction parts with
  | nil => exact h.pure _
  | cons part rest ih =>
      cases part with
      | text s =>
          refine h.bind ih (fun out => ?_)
          split <;> exact h.pure _
      | unterminated => exact h.pure _
      | reference path =>
          unfold Workflow.renderPieces
          split
          · exact h.pure _
          · refine h.bind (h.resolvePath look look' hlook root _) (fun value => ?_)
            split
            · exact h.pure _
            · refine h.bind ih (fun out => ?_)
              split <;> exact h.pure _

theorem renderString (s : String) :
    rel _ (renderString look root text s) (renderString look' root text s) := by
  unfold Workflow.renderString
  split
  · refine h.bind (h.resolvePath look look' hlook root _) (fun value => ?_)
    split <;> exact h.pure _
  · refine h.bind (h.renderPieces look look' hlook root text _ _) (fun out => ?_)
    split <;> exact h.pure _

set_option linter.unusedSectionVars false in
mutual

/-- What is related for every name is related for every value with templates
    in it. -/
theorem renderValue (value : Value) :
    rel _ (renderValue look root text value) (renderValue look' root text value) := by
  cases value with
  | string s => exact h.renderString look look' hlook root text s
  | array items =>
      unfold Workflow.renderValue
      refine h.bind (renderItems items) (fun items => ?_)
      split <;> exact h.pure _
  | object members =>
      unfold Workflow.renderValue
      refine h.bind (renderMembers members) (fun members => ?_)
      split <;> exact h.pure _
  | null | bool | number => exact h.pure _

theorem renderItems (items : List Value) :
    rel _ (renderItems look root text items) (renderItems look' root text items) := by
  cases items with
  | nil => exact h.pure _
  | cons item rest =>
      unfold Workflow.renderItems
      refine h.bind (renderValue item) (fun item => ?_)
      split
      · exact h.pure _
      · refine h.bind (renderItems rest) (fun rest => ?_)
        split <;> exact h.pure _

theorem renderMembers (members : List (String × Value)) :
    rel _ (renderMembers look root text members) (renderMembers look' root text members) := by
  cases members with
  | nil => exact h.pure _
  | cons member rest =>
      obtain ⟨key, value⟩ := member
      unfold Workflow.renderMembers
      refine h.bind (renderValue value) (fun value => ?_)
      split
      · exact h.pure _
      · refine h.bind (renderMembers rest) (fun rest => ?_)
        split <;> exact h.pure _

end

end Related

end Workflow

end DccMcp
