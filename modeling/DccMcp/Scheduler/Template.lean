import DccMcp.Lib.Text
import DccMcp.Flow.Template

/-!
# Trigger Templates

How the inputs of a schedule are rendered when it fires. A string that is one
placeholder and nothing else becomes the value the placeholder resolves to; in
any other string the placeholders are replaced by text, and those that resolve
to nothing stay.

The loop of `interpolate` cuts its text at the next opening and closing
braces. Here it goes over the characters instead, with the inside of an open
placeholder as its state.

## Main definitions

* `RenderCtx`: What placeholders are looked up in.
* `lookupJson`, `resolve`: What a placeholder resolves to.
* `wholePlaceholder`, `interpolate`, `renderString`, `renderValue`: Rendering.
-/

namespace DccMcp

namespace Scheduler

open Json (Value)

/-- Context available to placeholder lookups. -/
structure RenderCtx where
  payload : Value
  scheduleId : String
  workflow : String

/-- The loop of `lookup_json` over the segments of a path. -/
def lookupSegments (cur : Value) : List String → Option Value
  | [] => some cur
  | seg :: rest =>
    if seg = "" then none
    else
      match Workflow.parseUsize seg.toList with
      | some i => (cur.getIndex i).bind (fun next => lookupSegments next rest)
      | none => (cur.get seg).bind (fun next => lookupSegments next rest)

def lookupJson (root : Value) (path : String) : Option Value :=
  if path = "" then some root
  else lookupSegments root ((Text.splitOn (· == '.') path.toList).map .ofList)

def resolve (path : String) (ctx : RenderCtx) : Option Value :=
  let path := Text.trim path
  match Bytes.stripPrefix "trigger.payload".toList path.toList with
  | some rest =>
    let jsonPath := (Bytes.stripPrefix ['.'] rest).getD []
    lookupJson ctx.payload (.ofList jsonPath)
  | none =>
    if path = "trigger.schedule_id" then some (.string ctx.scheduleId)
    else if path = "trigger.workflow" then some (.string ctx.workflow)
    else none

def stripSuffix (suffix s : List Char) : Option (List Char) :=
  (Bytes.stripPrefix suffix.reverse s.reverse).map List.reverse

def wholePlaceholder (s : String) : Option String := do
  let rest ← Bytes.stripPrefix ['{', '{'] (Text.trim s).toList
  let inner : String := .ofList (← stripSuffix ['}', '}'] rest)
  -- Nested braces are left to the interpolation.
  if Text.contains "\x7b\x7b" inner || Text.contains "\x7d\x7d" inner then none
  else some (Text.trim inner)

/-- What a placeholder inside a text is replaced by. The text of a value that
    is no string is the serializer's. -/
def replacement (text : Value → String) (ctx : RenderCtx) (inside : List Char) : List Char :=
  let path := Text.trim (.ofList inside)
  match resolve path ctx with
  | some (.string s) => s.toList
  | some other => (text other).toList
  | none => ['{', '{'] ++ path.toList ++ ['}', '}']

/-- The loop of `interpolate`. The state is the inside of a placeholder that
    has been opened, in reverse. -/
def interpolateFrom (text : Value → String) (ctx : RenderCtx) :
    Option (List Char) → List Char → List Char
  | none, [] => []
  | none, '{' :: '{' :: rest => interpolateFrom text ctx (some []) rest
  | none, c :: rest => c :: interpolateFrom text ctx none rest
  -- A placeholder that is not closed is kept as it is.
  | some read, [] => ['{', '{'] ++ read.reverse
  | some read, '}' :: '}' :: rest =>
    replacement text ctx read.reverse ++ interpolateFrom text ctx none rest
  | some read, c :: rest => interpolateFrom text ctx (some (c :: read)) rest

def interpolate (text : Value → String) (s : String) (ctx : RenderCtx) : String :=
  .ofList (interpolateFrom text ctx none s.toList)

def renderString (text : Value → String) (s : String) (ctx : RenderCtx) : Value :=
  match wholePlaceholder s with
  | some path => (resolve path ctx).getD (.string s)
  | none => .string (interpolate text s ctx)

mutual

def renderValue (text : Value → String) (ctx : RenderCtx) : Value → Value
  | .string s => renderString text s ctx
  | .array items => .array (renderItems text ctx items)
  | .object members => .object (renderMembers text ctx members)
  | other => other

def renderItems (text : Value → String) (ctx : RenderCtx) : List Value → List Value
  | [] => []
  | item :: rest => renderValue text ctx item :: renderItems text ctx rest

def renderMembers (text : Value → String) (ctx : RenderCtx) :
    List (String × Value) → List (String × Value)
  | [] => []
  | (key, value) :: rest => (key, renderValue text ctx value) :: renderMembers text ctx rest

end

end Scheduler

end DccMcp
