import DccMcp.Host.Rpc
import DccMcp.Lib.JsonText

/-!
# The Payload of a Command Port Call

`CommandPortClient::call` serializes its frame as JSON and puts the text into
a Python call as the argument, so the JSON is read as Python source. The two
agree on objects, arrays, strings and numbers. They do not agree on `true`,
`false` and `null`, which Python reads as names and does not know, and the
call then fails with a `NameError` before the dispatcher sees it.

The frame itself has none of these words, only the arguments may.

Where the dispatcher cannot be imported, the host installs one that answers
every call with an envelope that says so. The envelope keeps the request id in
its context. The client looks for it at the top, where the real dispatcher has
it, so it takes the reply for that of another call.

## Main definitions

* `payload`: The text that is put between the parentheses.
* `failureEnvelope`, `fallbackReply`: The reply of the fallback dispatcher.

## Theorems

* `payload_evaluates_iff`: For which arguments it is the expression meant.
* `fallback_never_returned`: The client returns no envelope of the fallback.
-/

namespace DccMcp

namespace Host

namespace Rpc

/-- `payload_json` of a call. -/
def payload (floatText : Nat → List Char) (r : Request) : List Char :=
  Json.writeValue floatText (wireFrame r)

theorem payload_parse (floatText : Nat → List Char) (readFloat : List Char → Option Nat)
    (hfloat : Json.FloatFaithful floatText readFloat) (r : Request)
    (hargs : r.args.finite = true) :
    Python.parse readFloat (payload floatText r) = some (Json.toExpr (wireFrame r)) := by
  have hframe : (wireFrame r).finite = true := by
    simp [wireFrame, Json.Value.finite, Json.finiteMembers, hargs]
  have hread := Json.readExpr_write floatText hfloat (wireFrame r) hframe []
    ((payload floatText r).length + 1) (Nat.lt_succ_self _) (fun c hc => by cases hc)
  rw [List.append_nil] at hread
  unfold Python.parse payload
  unfold payload at hread
  rw [hread]

theorem payload_evaluates_iff (floatText : Nat → List Char)
    (readFloat : List Char → Option Nat) (hfloat : Json.FloatFaithful floatText readFloat)
    (r : Request) (hargs : r.args.finite = true) :
    Json.OneLine (payload floatText r) ∧
      (Python.evaluate readFloat (payload floatText r) = some (Json.toPython (wireFrame r)) ↔
        r.args.plain = true) := by
  have hframe : (wireFrame r).finite = true := by
    simp [wireFrame, Json.Value.finite, Json.finiteMembers, hargs]
  have hplain : (wireFrame r).plain = r.args.plain := by
    simp [wireFrame, Json.Value.plain, Json.plainMembers]
  refine ⟨Json.writeValue_line floatText hfloat (wireFrame r) hframe, ?_⟩
  rw [Python.evaluate, payload_parse floatText readFloat hfloat r hargs, Option.bind_some,
    Json.eval_toExpr_iff, hplain]

/-- A text of floats for values that have none: the bits, with a point. -/
def bitsText (bits : Nat) : List Char := Json.decimal bits ++ ['.']

def bitsRead (token : List Char) : Option Nat :=
  some (Nat.ofDigits 10 (token.dropLast.reverse.map fun c => c.toNat - 48))

theorem bitsText_faithful : Json.FloatFaithful bitsText bitsRead where
  chars := by
    intro bits _ c hc
    rcases List.mem_append.mp hc with hc | hc
    · exact (Json.digit_facts c (Json.decimal_digits bits c hc)).2.2.2.2
    · rw [List.mem_singleton.mp hc]
      rfl
  head := by
    intro bits _
    obtain ⟨c, rest, hdecimal, hc⟩ := Json.decimal_head bits
    exact ⟨c, rest ++ ['.'], by rw [bitsText, hdecimal]; rfl, hc⟩
  float := by
    intro bits _
    rw [bitsText, List.all_append, Bool.and_eq_false_iff]
    exact .inr rfl
  read := by
    intro bits _
    rw [bitsRead, bitsText, List.dropLast_concat, Json.decimal_value]

/-- A request for a sphere that is shown, or not. -/
def sphere (shown : Json.Value) : Request := ⟨"1", "create_sphere", .object [("shown", shown)]⟩

theorem payload_evaluates_yes :
    Python.evaluate bitsRead (payload bitsText (sphere (.string "yes"))) =
      some (Json.toPython (wireFrame (sphere (.string "yes")))) :=
  (payload_evaluates_iff bitsText bitsRead bitsText_faithful (sphere (.string "yes")) rfl).2.mpr rfl

/-- A word of JSON in the arguments. -/
theorem payload_true :
    Json.FloatFaithful bitsText bitsRead ∧ (sphere (.bool true)).args.finite = true ∧
      payload bitsText (sphere (.bool true)) =
        ("\x7b\"action\":\"create_sphere\",\"args\":\x7b\"shown\":true\x7d," ++
          "\"request_id\":\"1\"\x7d").toList ∧
      Python.evaluate bitsRead (payload bitsText (sphere (.bool true))) = none := by
  refine ⟨bitsText_faithful, rfl, by decide +kernel, ?_⟩
  rw [Python.evaluate, payload_parse bitsText bitsRead bitsText_faithful (sphere (.bool true)) rfl,
    Option.bind_some]
  exact Json.eval_of_word _ rfl

/-! ## The fallback dispatcher -/

open Json (Value)

/-- `_payload_field`. `str` is what Python makes of a value that is no string. -/
def payloadField (str : Python.Value → String) (payload : Python.Value) (key : String) : Value :=
  match payload with
  | .dict items =>
    match items.lookup key.toList with
    | none | some .none => .null
    | some (.str s) => .string (String.ofList s)
    | some value => .string (str value)
  | _ => .null

/-- `_failure_envelope`, with its keys in order. -/
def failureEnvelope (str : Python.Value → String) (reason : String) (payload : Python.Value) :
    Value :=
  .object
    [("context", .object
      [("action", payloadField str payload "action"),
        ("kind", .string "sidecar_dispatcher_unavailable"),
        ("reason", .string reason),
        ("request_id", payloadField str payload "request_id")]),
      ("error", .string "sidecar-dispatcher-unavailable"),
      ("message", .string ("dcc_mcp_maya.sidecar._dispatcher is not importable; " ++
        "install or upgrade dcc-mcp-maya with sidecar dispatcher support.")),
      ("success", .bool false)]

/-- The line of `dispatch` of `_make_fallback_dispatch`, for `json.dumps`. -/
def fallbackReply (dumps : Value → List Char) (str : Python.Value → String) (reason : String)
    (payload : Python.Value) : List Char :=
  dumps (failureEnvelope str reason payload) ++ ['\n']

/-- A line end is all that is trimmed of a text on one line. -/
theorem trimEndMatches_line (text : List Char) (h : Json.OneLine text) :
    trimEndMatches (text ++ ['\n']) = text := by
  induction text with
  | nil => rfl
  | cons c rest ih =>
      obtain ⟨hc, hrest⟩ := (Json.oneLine_cons c rest).mp h
      rw [List.cons_append, trimEndMatches, ih hrest, if_neg (by simp [hc])]

/-- No call is answered with the envelope, whatever its reply is read as. When
    it is read as it was written, the call ends in a desync. -/
theorem fallback_never_returned (json : JsonText) (dumps : Value → List Char)
    (str : Python.Value → String) (reason : String) (r : Request) :
    let envelope := failureEnvelope str reason (Json.toPython (wireFrame r))
    let reply := fallbackReply dumps str reason (Json.toPython (wireFrame r))
    commandPortReply json r reply ≠ .ok envelope ∧
      (Json.OneLine (dumps envelope) → dumps envelope ≠ [] →
        json.read (dumps envelope) = some envelope →
        commandPortReply json r reply = .error (.desync r.action r.id none)) := by
  intro envelope reply
  -- The request id is in the context only.
  have hget : envelope.get "request_id" = none := rfl
  constructor
  · unfold commandPortReply
    by_cases hline : trimEndMatches reply = []
    · simp [hline]
    · cases hread : json.read (trimEndMatches reply) with
      | none => simp [hline, hread]
      | some response =>
          by_cases hid : response.get "request_id" = some (.string r.id)
          · intro h
            simp only [if_neg hline, hread, hid, ne_eq, not_true, if_false, Except.ok.injEq] at h
            rw [h, hget] at hid
            cases hid
          · simp [hline, hread, hid]
  · intro hone hne hread
    have htrim : trimEndMatches reply = dumps envelope := trimEndMatches_line _ hone
    unfold commandPortReply
    simp [htrim, hne, hread, hget]

/-- What `json.dumps` writes for a call of `ping`. -/
def pingReply : List Char :=
  ("\x7b\"context\": \x7b\"action\": \"ping\", \"kind\": \"sidecar_dispatcher_unavailable\", " ++
    "\"reason\": \"No module named 'dcc_mcp_maya.sidecar'\", \"request_id\": \"7\"\x7d, " ++
    "\"error\": \"sidecar-dispatcher-unavailable\", \"message\": " ++
    "\"dcc_mcp_maya.sidecar._dispatcher is not importable; install or upgrade dcc-mcp-maya " ++
    "with sidecar dispatcher support.\", \"success\": false\x7d").toList

def pingEnvelope : Value :=
  failureEnvelope (fun _ => "") "No module named 'dcc_mcp_maya.sidecar'"
    (Json.toPython (wireFrame ⟨"7", "ping", .object []⟩))

theorem fallback_ping :
    fallbackReply (fun _ => pingReply) (fun _ => "") "No module named 'dcc_mcp_maya.sidecar'"
        (Json.toPython (wireFrame ⟨"7", "ping", .object []⟩)) = pingReply ++ ['\n'] ∧
      commandPortReply
          ⟨fun _ => pingReply, fun text => if text = pingReply then some pingEnvelope else none⟩
          ⟨"7", "ping", .object []⟩ (pingReply ++ ['\n']) =
        .error (.desync "ping" "7" none) := by
  decide +kernel

end Rpc

end Host

end DccMcp
