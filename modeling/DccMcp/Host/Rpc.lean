import DccMcp.Lib.Json
import DccMcp.Lib.Machine

/-!
# Host RPC Clients

The clients that carry calls into the host application: `CommandPortClient`
and `QtServerClient`. Each has one connection behind a lock. A call takes the
lock, writes one line, and reads one line back as its reply.

Nothing ties the line read to the line written but their order, so the reply
is checked: it has to carry the request's own id. That is what keeps a call
from taking another call's answer. It does not put the connection back in
step. A call that is cancelled after it has begun to write leaves behind an
unfinished request, or a reply nobody has read, or the rest of one, and the
calls after it read that and are refused.

The peer is anything that answers every line it is sent with one line, in
order. What a call has consumed of a reply when it is cancelled is lost, and
the next call starts in the middle of that line.

## Main definitions

* `JsonText`: What is used of the JSON library.
* `Client.encode`, `Client.interpret`: The line of a request, and what is
  made of the line read back, for each of the two clients.
* `step`: One await point of the call that holds the lock, or a cancellation.

## Theorems

* `replies_correlated`: The two together, for every run.
-/

namespace DccMcp

namespace Host

namespace Rpc

open Json (Value)

/-- What the clients use of the JSON library: `to_string` and `from_str`. -/
structure JsonText where
  write : Value → List Char
  read : List Char → Option Value

structure Request where
  id : String
  action : String
  args : Value
  deriving DecidableEq

/-- The transport errors of a call whose reply has been read. -/
inductive HostRpcError
  | missingResponse (action id : String)
  | emptyLine
  | nonJson (raw : List Char)
  | desync (action expected : String) (got : Option Value)
  | dispatcher (action code message : String)
  | noResult (action : String) (envelope : Value)
  deriving DecidableEq

/-- The two clients. -/
inductive Client
  | commandPort
  | qtServer
  deriving DecidableEq

/-- A line without the line ends it may still have. -/
def trimEndMatches : List Char → List Char
  | [] => []
  | c :: rest =>
    if (c = '\r' ∨ c = '\n') ∧ trimEndMatches rest = [] then [] else c :: trimEndMatches rest

/-- `WireFrame`, the argument of the dispatcher in the host. -/
def wireFrame (r : Request) : Value :=
  .object [("action", .string r.action), ("args", r.args), ("request_id", .string r.id)]

/-- `WireRequest` of the Qt dispatcher. -/
def wireRequest (r : Request) : Value :=
  .object [("id", .string r.id), ("method", .string "dispatch"), ("params", wireFrame r)]

namespace Client

/-- The frame of a request, as a value. -/
def frame : Client → Request → Value
  | .commandPort, r => wireFrame r
  | .qtServer, r => wireRequest r

/-- What stands before the frame on the line. -/
def opening : Client → List Char
  | .commandPort =>
    "__import__('dcc_mcp_maya._sidecar', fromlist=['dispatch']).dispatch(".toList
  | .qtServer => []

/-- What stands after the frame on the line. -/
def closing : Client → List Char
  | .commandPort => [')']
  | .qtServer => []

/-- The line of a request, without the line end. -/
def encode (json : JsonText) (client : Client) (r : Request) : List Char :=
  client.opening ++ json.write (client.frame r) ++ client.closing

/-- The member of a reply that names the request. -/
def idKey : Client → String
  | .commandPort => "request_id"
  | .qtServer => "id"

end Client

/-- The end of `CommandPortClient::call`, once a line has been read. -/
def commandPortReply (json : JsonText) (r : Request) (buf : List Char) :
    Except HostRpcError Value :=
  let line := trimEndMatches buf
  if line = [] then
    .error (.missingResponse r.action r.id)
  else
    match json.read line with
    | none => .error (.nonJson line)
    | some response =>
      if response.get "request_id" ≠ some (.string r.id) then
        .error (.desync r.action r.id (response.get "request_id"))
      else
        .ok response

def interpretEnvelope (envelope : Value) (r : Request) : Except HostRpcError Value :=
  if envelope.get "id" ≠ some (.string r.id) then
    .error (.desync r.action r.id (envelope.get "id"))
  else
    match envelope.get "result" with
    | some result => .ok result
    | none =>
      match envelope.get "error" with
      | some error =>
        let code := ((error.get "code").bind Value.asStr).getD "dispatcher-error"
        let message := ((error.get "message").bind Value.asStr).getD "(no message)"
        .error (.dispatcher r.action code message)
      | none => .error (.noResult r.action envelope)

/-- The end of `QtServerClient::call`, once a line has been read. -/
def qtServerReply (json : JsonText) (r : Request) (buf : List Char) :
    Except HostRpcError Value :=
  let line := trimEndMatches buf
  if line = [] then
    .error .emptyLine
  else
    match json.read line with
    | none => .error (.nonJson line)
    | some envelope => interpretEnvelope envelope r

/-- What a client makes of the line it has read for a request. -/
def Client.interpret (json : JsonText) : Client → Request → List Char → Except HostRpcError Value
  | .commandPort => commandPortReply json
  | .qtServer => qtServerReply json

/-- The call that holds the lock: what it still has to write, and how much of
    the reply had been taken from the connection when it began to read. -/
structure Holder where
  request : Request
  unsent : List Char
  start : Nat

/-- The connection and its two ends. The peer's replies are determined by the
    lines it has received, so the state keeps how far they have been read. -/
structure State where
  /-- The lines the peer has received, each with the call that ended it. -/
  lines : List (Request × List Char)
  /-- What the peer has received of the next line. -/
  received : List Char
  /-- The replies that have been read to their end. -/
  answered : Nat
  /-- How much has been read of the reply after them. -/
  taken : Nat
  holder : Option Holder
  outcomes : List (Request × Except HostRpcError Value)

def initial : State := ⟨[], [], 0, 0, none, []⟩

inductive Event
  /-- A call that is waiting for the lock is cancelled. -/
  | abandon (r : Request)
  | acquire (r : Request)
  /-- One more character reaches the peer. -/
  | write
  /-- One more character of the reply is consumed, and the line goes on. -/
  | read
  /-- The line end is consumed, and the call returns. -/
  | finish
  /-- The call that holds the lock is cancelled. -/
  | cancel
  deriving DecidableEq

/-- The reply to the line that comes next to be answered. -/
def reply (answer : Nat → List Char → List Char) (s : State) : Option (List Char) :=
  s.lines[s.answered]?.map fun line => answer s.answered line.2

/-- A character reaches the peer. A line end makes what it has a line. -/
def deliver (s : State) (r : Request) (c : Char) : State :=
  if c = '\n' then { s with lines := s.lines ++ [(r, s.received)], received := [] }
  else { s with received := s.received ++ [c] }

def acquire (json : JsonText) (client : Client) (s : State) (r : Request) : Option State :=
  match s.holder with
  | some _ => none
  | none => some { s with holder := some ⟨r, client.encode json r ++ ['\n'], s.taken⟩ }

def write (s : State) : Option State :=
  match s.holder with
  | some ⟨r, c :: rest, start⟩ =>
    some { deliver s r c with holder := some ⟨r, rest, start⟩ }
  | _ => none

def read (answer : Nat → List Char → List Char) (s : State) : Option State :=
  match s.holder, reply answer s with
  | some ⟨_, [], _⟩, some text =>
    if s.taken < text.length then some { s with taken := s.taken + 1 } else none
  | _, _ => none

def finish (json : JsonText) (client : Client) (answer : Nat → List Char → List Char)
    (s : State) : Option State :=
  match s.holder, reply answer s with
  | some ⟨r, [], start⟩, some text =>
    some { s with
      answered := s.answered + 1
      taken := 0
      holder := none
      outcomes := s.outcomes ++ [(r, client.interpret json r (text.drop start))] }
  | _, _ => none

def cancel (s : State) : Option State :=
  match s.holder with
  | some _ => some { s with holder := none }
  | none => none

def step (json : JsonText) (client : Client) (answer : Nat → List Char → List Char)
    (s : State) : Event → Option State
  | .abandon _ => some s
  | .acquire r => acquire json client s r
  | .write => write s
  | .read => read answer s
  | .finish => finish json client answer s
  | .cancel => cancel s

variable (json : JsonText) (client : Client) (answer : Nat → List Char → List Char)

/-- The request whose call gets the lock. -/
def Event.acquired : Event → Option Request
  | .acquire r => some r
  | _ => none

/-- The requests whose calls get the lock. -/
def requests (events : List Event) : List Request := events.filterMap Event.acquired

/-- What is relied on of JSON texts. A frame is written on one line and reads
    back as itself, and a text that ends in the text of an object is that
    object's, with nothing but blanks before it. -/
structure Faithful (requests : List Request) : Prop where
  singleLine : ∀ r ∈ requests, '\n' ∉ client.encode json r
  readWrite : ∀ r ∈ requests, json.read (json.write (client.frame r)) = some (client.frame r)
  ending : ∀ text v k v' key m, json.read text = some v → json.read (text.drop k) = some v' →
    v'.get key = some m → v' = v

/-- What is relied on of the peer. A reply that names a request is the reply
    to a line that request ends, and a reply that is no JSON, such as the text
    of an exception, does not end in one that names a request. -/
structure Correlates (requests : List Request) : Prop where
  named : ∀ n line w id, json.read (trimEndMatches (answer n line)) = some w →
    w.get client.idKey = some (.string id) →
    ∃ r ∈ requests, r.id = id ∧ client.encode json r <:+ line
  unnamed : ∀ n line k w, json.read (trimEndMatches (answer n line)) = none →
    json.read ((trimEndMatches (answer n line)).drop k) = some w → w.get client.idKey = none

theorem trimEndMatches_drop (k : Nat) (text : List Char) :
    trimEndMatches (text.drop k) = (trimEndMatches text).drop k := by
  -- A line end at the end of the text is at the end of what is left of it.
  induction text generalizing k with
  | nil => simp only [List.drop_nil, trimEndMatches]
  | cons c rest ih =>
      cases k with
      | zero => rfl
      | succ k =>
          rw [List.drop_succ_cons, ih k, trimEndMatches]
          split
          next h => rw [h.2, List.drop_nil, List.drop_nil]
          next => rfl

/-- The frame of a request determines its id. -/
theorem frame_id (r r' : Request) (h : client.frame r = client.frame r') : r.id = r'.id := by
  cases client with
  | commandPort =>
      simp only [Client.frame, wireFrame, Value.object.injEq, List.cons.injEq, Prod.mk.injEq,
        Value.string.injEq, true_and, and_true] at h
      exact h.2.2
  | qtServer =>
      simp only [Client.frame, wireRequest, Value.object.injEq, List.cons.injEq, Prod.mk.injEq,
        Value.string.injEq, true_and, and_true] at h
      exact h.1

variable (rs : List Request) (s t : State) (r : Request)

/-- Every frame is an object with members. -/
theorem frame_get : ∃ key m, (client.frame r).get key = some m := by
  cases client with
  | commandPort => exact ⟨"action", .string r.action, rfl⟩
  | qtServer => exact ⟨"id", .string r.id, rfl⟩

theorem suffix_of_append (a b c : List Char) (h : a ++ c <:+ b ++ c) : a <:+ b := by
  obtain ⟨before, hbefore⟩ := h
  rw [← List.append_assoc] at hbefore
  exact ⟨before, List.append_cancel_right hbefore⟩

/-- Of two frames that end one text, the longer ends in the shorter. -/
theorem frame_of_suffix (hjson : Faithful json client rs) (r r' : Request) (hr : r ∈ rs)
    (hr' : r' ∈ rs)
    (h : json.write (client.frame r') <:+ json.write (client.frame r)) : r.id = r'.id := by
  obtain ⟨before, hbefore⟩ := h
  have hdrop : (json.write (client.frame r)).drop before.length =
      json.write (client.frame r') := by
    rw [← hbefore, List.drop_left]
  obtain ⟨key, m, hget⟩ := frame_get client r'
  have hread : json.read ((json.write (client.frame r)).drop before.length) =
      some (client.frame r') := by
    rw [hdrop]
    exact hjson.readWrite r' hr'
  exact frame_id client r r'
    (hjson.ending _ _ _ _ key m (hjson.readWrite r hr) hread hget).symm

/-- A line ends in the line of one request. -/
theorem id_of_suffix (hjson : Faithful json client rs) (r r' : Request) (hr : r ∈ rs)
    (hr' : r' ∈ rs) (line : List Char) (h : client.encode json r <:+ line)
    (h' : client.encode json r' <:+ line) : r.id = r'.id := by
  -- What follows the frame is the same for both, and is taken off first.
  have hframe : ∀ r, client.encode json r <:+ line →
      json.write (client.frame r) ++ client.closing <:+ line := by
    intro r hline
    rw [Client.encode, List.append_assoc] at hline
    exact (List.suffix_append _ _).trans hline
  rcases Nat.le_total (json.write (client.frame r) ++ client.closing).length
    (json.write (client.frame r') ++ client.closing).length with hle | hle
  · have hsuffix := List.suffix_of_suffix_length_le (hframe r h) (hframe r' h') hle
    exact (frame_of_suffix json client rs hjson r' r hr' hr
      (suffix_of_append _ _ _ hsuffix)).symm
  · have hsuffix := List.suffix_of_suffix_length_le (hframe r' h') (hframe r h) hle
    exact frame_of_suffix json client rs hjson r r' hr hr'
      (suffix_of_append _ _ _ hsuffix)

/-- A request is written up to its line end, which is the only one. -/
theorem line_ended (sent rest text : List Char) (hline : '\n' ∉ text)
    (h : sent ++ '\n' :: rest = text ++ ['\n']) : sent = text ∧ rest = [] := by
  induction sent generalizing text with
  | nil =>
      cases text with
      | nil => exact ⟨rfl, (List.cons.inj h).2⟩
      | cons c text =>
          have hc : '\n' = c := (List.cons.inj h).1
          rw [← hc] at hline
          exact absurd List.mem_cons_self hline
  | cons c sent ih =>
      cases text with
      | nil =>
          have hrest : sent ++ '\n' :: rest = [] := (List.cons.inj h).2
          cases sent <;> cases hrest
      | cons c' text =>
          obtain ⟨hc, hrest⟩ := List.cons.inj h
          obtain ⟨hsent, hempty⟩ := ih text (fun hmem => hline (List.mem_cons_of_mem c' hmem)) hrest
          exact ⟨by rw [hc, hsent], hempty⟩

/-- What holds in every state, whatever has been cancelled: a line ends in
    the line of the call that ended it, and a call that succeeds has made its
    result of the end of a reply. -/
structure Told (s : State) : Prop where
  lines : ∀ e ∈ s.lines, client.encode json e.1 <:+ e.2
  holder : ∀ h, s.holder = some h → h.unsent ≠ [] →
    ∃ sent, sent ++ h.unsent = client.encode json h.request ++ ['\n'] ∧ sent <:+ s.received
  outcomes : ∀ o ∈ s.outcomes, ∃ n line k, s.lines[n]? = some line ∧
    o.2 = client.interpret json o.1 ((answer n line.2).drop k)

/-- What holds while nothing has been cancelled halfway: the call that holds
    the lock is the only one with anything on the connection. -/
structure InStep (s : State) : Prop where
  idle : s.holder = none → s.received = [] ∧ s.answered = s.lines.length ∧ s.taken = 0
  writing : ∀ h, s.holder = some h → h.unsent ≠ [] →
    s.received ++ h.unsent = client.encode json h.request ++ ['\n'] ∧
      s.answered = s.lines.length ∧ s.taken = 0 ∧ h.start = 0
  reading : ∀ h, s.holder = some h → h.unsent = [] →
    s.received = [] ∧ h.start = 0 ∧ s.lines.length = s.answered + 1 ∧
      s.lines[s.answered]? = some (h.request, client.encode json h.request)
  outcomes : ∀ o ∈ s.outcomes, ∃ n : Nat, s.lines[n]? = some (o.1, client.encode json o.1) ∧
    o.2 = client.interpret json o.1 (answer n (client.encode json o.1))

/-- The call that holds the lock is a call of the run. -/
def Listed (rs : List Request) (s : State) : Prop := ∀ h, s.holder = some h → h.request ∈ rs

/-- A call is only cancelled while it waits for the lock, or before its first
    character is on the connection. -/
def Untouched (s : State) : Event → Prop
  | .cancel => ∀ h, s.holder = some h → h.unsent = client.encode json h.request ++ ['\n']
  | _ => True

/-- A run only takes the lock for calls of its list. -/
def Asked (rs : List Request) (_ : State) : Event → Prop
  | .acquire r => r ∈ rs
  | _ => True

theorem told_initial : Told json client answer initial where
  lines := fun e he => absurd he List.not_mem_nil
  holder := fun h hh => by cases hh
  outcomes := fun o ho => absurd ho List.not_mem_nil

theorem inStep_initial : InStep json client answer initial where
  idle := fun _ => ⟨rfl, rfl, rfl⟩
  writing := fun h hh => by cases hh
  reading := fun h hh => by cases hh
  outcomes := fun o ho => absurd ho List.not_mem_nil

/-- A step that writes: either the line is not over, or it is. -/
theorem write_cases (h : write s = some t) :
    ∃ r c rest start, s.holder = some ⟨r, c :: rest, start⟩ ∧
      t = { deliver s r c with holder := some ⟨r, rest, start⟩ } := by
  unfold write at h
  split at h
  next r c rest start hholder =>
    cases h
    exact ⟨r, c, rest, start, hholder, rfl⟩
  next => cases h

theorem acquire_cases (h : acquire json client s r = some t) : s.holder = none ∧
      t = { s with holder := some ⟨r, client.encode json r ++ ['\n'], s.taken⟩ } := by
  unfold acquire at h
  split at h
  next => cases h
  next hholder =>
    cases h
    exact ⟨hholder, rfl⟩

theorem read_cases (h : read answer s = some t) :
    ∃ r start, s.holder = some ⟨r, [], start⟩ ∧ t = { s with taken := s.taken + 1 } := by
  unfold read at h
  split at h
  next r start text hholder hreply =>
    split at h
    next =>
      cases h
      exact ⟨r, start, hholder, rfl⟩
    next => cases h
  next => cases h

theorem finish_cases (h : finish json client answer s = some t) :
    ∃ r start line, s.holder = some ⟨r, [], start⟩ ∧ s.lines[s.answered]? = some line ∧
      t = { s with
        answered := s.answered + 1
        taken := 0
        holder := none
        outcomes := s.outcomes ++
          [(r, client.interpret json r ((answer s.answered line.2).drop start))] } := by
  unfold finish at h
  split at h
  next r start text hholder hreply =>
    obtain ⟨line, hline, htext⟩ := Option.map_eq_some_iff.mp hreply
    cases h
    rw [← htext]
    exact ⟨r, start, line, hholder, hline, rfl⟩
  next => cases h

theorem cancel_cases (h : cancel s = some t) : (∃ holder, s.holder = some holder)
    ∧ t = { s with holder := none } := by
  unfold cancel at h
  split at h
  next holder hholder =>
    cases h
    exact ⟨⟨holder, hholder⟩, rfl⟩
  next => cases h

theorem listed_step (e : Event) (hs : Listed rs s) (hok : Asked rs s e)
    (h : step json client answer s e = some t) : Listed rs t := by
  intro holder hholder
  cases e with
  | abandon r =>
      cases h
      exact hs holder hholder
  | acquire r =>
      obtain ⟨-, rfl⟩ := acquire_cases json client s t r h
      cases hholder
      exact hok
  | write =>
      obtain ⟨r, c, rest, start, hbefore, rfl⟩ := write_cases s t h
      cases hholder
      exact hs ⟨r, c :: rest, start⟩ hbefore
  | read =>
      obtain ⟨r, start, -, rfl⟩ := read_cases answer s t h
      exact hs holder hholder
  | finish =>
      obtain ⟨r, start, line, -, -, rfl⟩ := finish_cases json client answer s t h
      cases hholder
  | cancel =>
      obtain ⟨-, rfl⟩ := cancel_cases s t h
      cases hholder

/-- The lines only grow, and what was in its place stays there. -/
theorem getElem?_lines_append {s : State} {n : Nat} {line : Request × List Char}
    (more : List (Request × List Char)) (h : s.lines[n]? = some line) :
    (s.lines ++ more)[n]? = some line := by
  have hlt : n < s.lines.length := (List.getElem?_eq_some_iff.mp h).1
  rw [List.getElem?_append_left hlt]
  exact h

theorem told_step (hjson : Faithful json client rs) (s t : State) (e : Event)
    (hlisted : Listed rs s) (hs : Told json client answer s)
    (h : step json client answer s e = some t) : Told json client answer t := by
  cases e with
  | abandon r =>
      cases h
      exact hs
  | acquire r =>
      obtain ⟨-, rfl⟩ := acquire_cases json client s t r h
      refine ⟨hs.lines, fun holder hholder _ => ?_, hs.outcomes⟩
      cases hholder
      exact ⟨[], rfl, List.nil_suffix⟩
  | write =>
      obtain ⟨r, c, rest, start, hholder, rfl⟩ := write_cases s t h
      obtain ⟨sent, hsent, hreceived⟩ := hs.holder _ hholder (List.cons_ne_nil c rest)
      by_cases hc : c = '\n'
      · -- The line is over: what was sent of it is the whole line.
        rw [hc] at hsent
        obtain ⟨rfl, rfl⟩ := line_ended sent rest _ (hjson.singleLine r (hlisted _ hholder)) hsent
        simp only [deliver, if_pos hc]
        refine ⟨fun e he => ?_, fun holder hnew hne => ?_, fun o ho => ?_⟩
        · rcases List.mem_append.mp he with he | he
          · exact hs.lines e he
          · rw [List.mem_singleton.mp he]
            exact hreceived
        · cases hnew
          exact absurd rfl hne
        · obtain ⟨n, line, k, hline, hresult⟩ := hs.outcomes o ho
          exact ⟨n, line, k, getElem?_lines_append _ hline, hresult⟩
      · simp only [deliver, if_neg hc]
        refine ⟨hs.lines, fun holder hnew _ => ?_, hs.outcomes⟩
        cases hnew
        obtain ⟨before, hbefore⟩ := hreceived
        refine ⟨sent ++ [c], ?_, before, ?_⟩
        · rw [List.append_assoc]
          exact hsent
        · rw [← List.append_assoc, hbefore]
  | read =>
      obtain ⟨r, start, -, rfl⟩ := read_cases answer s t h
      exact ⟨hs.lines, hs.holder, hs.outcomes⟩
  | finish =>
      obtain ⟨r, start, line, -, hline, rfl⟩ := finish_cases json client answer s t h
      refine ⟨hs.lines, fun holder hnew => (by cases hnew), fun o ho => ?_⟩
      rcases List.mem_append.mp ho with ho | ho
      · exact hs.outcomes o ho
      · rw [List.mem_singleton.mp ho]
        exact ⟨s.answered, line, start, hline, rfl⟩
  | cancel =>
      obtain ⟨-, rfl⟩ := cancel_cases s t h
      exact ⟨hs.lines, fun holder hnew => (by cases hnew), hs.outcomes⟩

theorem inStep_step (hjson : Faithful json client rs) (s t : State) (e : Event)
    (hlisted : Listed rs s) (hs : InStep json client answer s) (hok : Untouched json client s e)
    (h : step json client answer s e = some t) : InStep json client answer t := by
  cases e with
  | abandon r =>
      cases h
      exact hs
  | acquire r =>
      obtain ⟨hfree, rfl⟩ := acquire_cases json client s t r h
      obtain ⟨hreceived, hanswered, htaken⟩ := hs.idle hfree
      refine ⟨fun hnone => (by cases hnone), fun holder hnew _ => ?_, fun holder hnew hempty => ?_,
        hs.outcomes⟩
      · cases hnew
        exact ⟨by rw [hreceived, List.nil_append], hanswered, htaken, htaken⟩
      · cases hnew
        exact absurd hempty (by simp)
  | write =>
      obtain ⟨r, c, rest, start, hholder, rfl⟩ := write_cases s t h
      obtain ⟨hsent, hanswered, htaken, hstart⟩ :=
        hs.writing _ hholder (List.cons_ne_nil c rest)
      by_cases hc : c = '\n'
      · rw [hc] at hsent
        obtain ⟨hreceived, rfl⟩ :=
          line_ended s.received rest _ (hjson.singleLine r (hlisted _ hholder)) hsent
        simp only [deliver, if_pos hc]
        refine ⟨fun hnone => (by cases hnone), fun holder hnew hne => ?_,
          fun holder hnew hempty => ?_, fun o ho => ?_⟩
        · cases hnew
          exact absurd rfl hne
        · cases hnew
          refine ⟨rfl, hstart, ?_, ?_⟩
          · rw [List.length_append, hanswered, List.length_singleton]
          · rw [hanswered, List.getElem?_append_right (Nat.le_refl _), Nat.sub_self,
              hreceived, List.getElem?_cons_zero]
        · obtain ⟨n, hline, hresult⟩ := hs.outcomes o ho
          exact ⟨n, getElem?_lines_append _ hline, hresult⟩
      · simp only [deliver, if_neg hc]
        refine ⟨fun hnone => (by cases hnone), fun holder hnew _ => ?_,
          fun holder hnew hempty => ?_, hs.outcomes⟩
        · cases hnew
          refine ⟨?_, hanswered, htaken, hstart⟩
          rw [List.append_assoc]
          exact hsent
        · -- The last character of a line is its end.
          cases hnew
          subst hempty
          have hlast := congrArg List.getLast? hsent
          rw [List.getLast?_concat, List.getLast?_concat, Option.some.injEq] at hlast
          exact absurd hlast hc
  | read =>
      obtain ⟨r, start, hholder, rfl⟩ := read_cases answer s t h
      refine ⟨fun hnone => ?_, fun holder hnew hne => ?_, hs.reading, hs.outcomes⟩
      · rw [hholder] at hnone
        cases hnone
      · rw [hholder] at hnew
        cases hnew
        exact absurd rfl hne
  | finish =>
      obtain ⟨r, start, line, hholder, hline, rfl⟩ := finish_cases json client answer s t h
      obtain ⟨hreceived, (hstart : start = 0), hlength, hown⟩ := hs.reading _ hholder rfl
      refine ⟨fun _ => ⟨hreceived, hlength.symm, rfl⟩, fun holder hnew => (by cases hnew),
        fun holder hnew => (by cases hnew), fun o ho => ?_⟩
      rcases List.mem_append.mp ho with ho | ho
      · exact hs.outcomes o ho
      · rw [List.mem_singleton.mp ho]
        rw [hline, Option.some.injEq] at hown
        refine ⟨s.answered, ?_, ?_⟩
        · rw [hline, hown]
        · rw [hown, hstart, List.drop_zero]
  | cancel =>
      obtain ⟨⟨holder, hholder⟩, rfl⟩ := cancel_cases s t h
      have huntouched := hok holder hholder
      have hne : holder.unsent ≠ [] := by
        rw [huntouched]
        simp
      obtain ⟨hsent, hanswered, htaken, -⟩ := hs.writing holder hholder hne
      rw [huntouched, List.append_left_eq_self] at hsent
      exact ⟨fun _ => ⟨hsent, hanswered, htaken⟩, fun holder hnew => (by cases hnew),
        fun holder hnew => (by cases hnew), hs.outcomes⟩

/-- What a result that is not an error was read from. -/
theorem interpret_ok (buf : List Char) (v : Value) (h : client.interpret json r buf = .ok v) :
    trimEndMatches buf ≠ [] ∧
      ∃ w, json.read (trimEndMatches buf) = some w ∧ w.get client.idKey = some (.string r.id) := by
  cases client with
  | commandPort =>
      simp only [Client.interpret, commandPortReply] at h
      split at h
      next => cases h
      next hne =>
        split at h
        next => cases h
        next response hread =>
          split at h
          next => cases h
          next hid => exact ⟨hne, response, hread, not_not.mp hid⟩
  | qtServer =>
      simp only [Client.interpret, qtServerReply] at h
      split at h
      next => cases h
      next hne =>
        split at h
        next => cases h
        next envelope hread =>
          refine ⟨hne, envelope, hread, ?_⟩
          unfold interpretEnvelope at h
          split at h
          next => cases h
          next hid => exact not_not.mp hid

/-- The result depends on the line only through the value on it. -/
theorem interpret_congr (buf buf' : List Char) (w : Value) (hne : trimEndMatches buf ≠ [])
    (hne' : trimEndMatches buf' ≠ [])
    (h : json.read (trimEndMatches buf) = some w)
    (h' : json.read (trimEndMatches buf') = some w) :
    client.interpret json r buf = client.interpret json r buf' := by
  cases client with
  | commandPort =>
      simp only [Client.interpret, commandPortReply, if_neg hne, if_neg hne', h, h']
  | qtServer =>
      simp only [Client.interpret, qtServerReply, if_neg hne, if_neg hne', h, h']

/-- The end of a reply that names a request is the whole reply, and it is the
    reply to a line of that request. -/
theorem own_reply (hjson : Faithful json client rs) (hpeer : Correlates json client answer rs)
    (r owner : Request) (howner : owner ∈ rs)
    (n k : Nat) (line : List Char) (v : Value) (hline : client.encode json owner <:+ line)
    (h : client.interpret json r ((answer n line).drop k) = .ok v) :
    owner.id = r.id ∧ client.interpret json r (answer n line) = .ok v := by
  obtain ⟨hne, w, hread, hget⟩ := interpret_ok json client r _ v h
  rw [trimEndMatches_drop] at hread
  cases hwhole : json.read (trimEndMatches (answer n line)) with
  | none =>
      rw [hpeer.unnamed n line k w hwhole hread] at hget
      cases hget
  | some whole =>
      have hsame : w = whole := hjson.ending _ _ _ _ _ _ hwhole hread hget
      rw [← hsame] at hwhole
      obtain ⟨r', hr', hid, hended⟩ := hpeer.named n line w r.id hwhole hget
      have howned := id_of_suffix json client rs hjson owner r' howner hr' line hline hended
      refine ⟨howned.trans hid, ?_⟩
      have hfull : trimEndMatches (answer n line) ≠ [] := by
        intro hempty
        rw [trimEndMatches_drop, hempty, List.drop_nil] at hne
        exact hne rfl
      rw [← h]
      refine interpret_congr json client r _ _ w hfull hne hwhole ?_
      rw [trimEndMatches_drop]
      exact hread

/-- Every line was ended by a call of the run. -/
theorem owners_step (e : Event) (hlisted : Listed rs s) (hs : ∀ line ∈ s.lines, line.1 ∈ rs)
    (h : step json client answer s e = some t) :
    ∀ line ∈ t.lines, line.1 ∈ rs := by
  cases e with
  | abandon r =>
      cases h
      exact hs
  | acquire r =>
      obtain ⟨-, rfl⟩ := acquire_cases json client s t r h
      exact hs
  | write =>
      obtain ⟨r, c, rest, start, hholder, rfl⟩ := write_cases s t h
      intro line hline
      unfold deliver at hline
      split at hline
      · rcases List.mem_append.mp hline with hline | hline
        · exact hs line hline
        · rw [List.mem_singleton.mp hline]
          exact hlisted ⟨r, c :: rest, start⟩ hholder
      · exact hs line hline
  | read =>
      obtain ⟨r, start, -, rfl⟩ := read_cases answer s t h
      exact hs
  | finish =>
      obtain ⟨r, start, line, -, -, rfl⟩ := finish_cases json client answer s t h
      exact hs
  | cancel =>
      obtain ⟨-, rfl⟩ := cancel_cases s t h
      exact hs

theorem asked_requests (s : State) (events : List Event) :
    Machine.Along (step json client answer) (Asked (requests events)) s events := by
  refine Machine.along_of_forall_mem _ _ s events (fun e he t => ?_)
  cases e with
  | acquire r => exact List.mem_filterMap.mpr ⟨.acquire r, he, rfl⟩
  | abandon r => exact trivial
  | write => exact trivial
  | read => exact trivial
  | finish => exact trivial
  | cancel => exact trivial

/-- A call that succeeds has the answer to its own request, whatever has been
    cancelled before it. -/
theorem ok_own (events : List Event) (s : State) (hjson : Faithful json client (requests events))
    (hpeer : Correlates json client answer (requests events))
    (hrun : Machine.exec (step json client answer) initial events = some s) :
    ∀ r v, (r, .ok v) ∈ s.outcomes → ∃ (n : Nat) (owner : Request) (line : List Char),
      s.lines[n]? = some (owner, line) ∧ owner.id = r.id ∧ client.encode json owner <:+ line ∧
        client.interpret json r (answer n line) = .ok v := by
  have hinv := Machine.exec_history (step json client answer) (Asked (requests events))
    (fun _ t => Listed (requests events) t ∧ (∀ line ∈ t.lines, line.1 ∈ requests events) ∧
      Told json client answer t) initial
    ⟨fun h hh => (by cases hh), fun line hline => absurd hline List.not_mem_nil,
      told_initial json client answer⟩
    (fun _ t e u ht hok hu =>
      ⟨listed_step json client answer _ t u e ht.1 hok hu,
        owners_step json client answer _ t u e ht.1 ht.2.1 hu,
        told_step json client answer _ hjson t u e ht.1 ht.2.2 hu⟩)
    events s (asked_requests json client answer initial events) hrun
  intro r v ho
  obtain ⟨n, ⟨owner, line⟩, k, hline, hresult⟩ := hinv.2.2.outcomes (r, .ok v) ho
  have hmem := List.mem_of_getElem? hline
  obtain ⟨hid, hok⟩ := own_reply json client answer _ hjson hpeer r owner
    (hinv.2.1 (owner, line) hmem) n k line v (hinv.2.2.lines (owner, line) hmem) hresult.symm
  exact ⟨n, owner, line, hline, hid, hinv.2.2.lines (owner, line) hmem, hok⟩

/-- As long as no call has been cancelled halfway, every call that returns
    has the answer to its own request. -/
theorem in_step (events : List Event) (s : State) (hjson : Faithful json client (requests events))
    (hrun : Machine.exec (step json client answer) initial events = some s)
    (hok : Machine.Along (step json client answer) (Untouched json client) initial events) :
    ∀ o ∈ s.outcomes, ∃ n : Nat, s.lines[n]? = some (o.1, client.encode json o.1) ∧
      o.2 = client.interpret json o.1 (answer n (client.encode json o.1)) := by
  have hinv := Machine.exec_history (step json client answer)
    (fun t e => Asked (requests events) t e ∧ Untouched json client t e)
    (fun _ t => Listed (requests events) t ∧ InStep json client answer t) initial
    ⟨fun h hh => (by cases hh), inStep_initial json client answer⟩
    (fun _ t e u ht hboth hu =>
      ⟨listed_step json client answer _ t u e ht.1 hboth.1 hu,
        inStep_step json client answer _ hjson t u e ht.1 ht.2 hboth.2 hu⟩)
    events s
    (Machine.along_and _ _ _ initial events (asked_requests json client answer initial events) hok)
    hrun
  exact hinv.2.outcomes

theorem replies_correlated (events : List Event) (s : State)
    (hjson : Faithful json client (requests events))
    (hpeer : Correlates json client answer (requests events))
    (hrun : Machine.exec (step json client answer) initial events = some s) :
    (∀ r v, (r, .ok v) ∈ s.outcomes → ∃ (n : Nat) (owner : Request) (line : List Char),
      s.lines[n]? = some (owner, line) ∧ owner.id = r.id ∧ client.encode json owner <:+ line ∧
        client.interpret json r (answer n line) = .ok v) ∧
      (Machine.Along (step json client answer) (Untouched json client) initial events →
        ∀ o ∈ s.outcomes, ∃ n : Nat, s.lines[n]? = some (o.1, client.encode json o.1) ∧
          o.2 = client.interpret json o.1 (answer n (client.encode json o.1))) :=
  ⟨ok_own json client answer events s hjson hpeer hrun,
    in_step json client answer events s hjson hrun⟩

section Pair

/-- Two calls of one tool. -/
def slowCall : Request := ⟨"slow", "run", .null⟩

def fastCall : Request := ⟨"fast", "run", .null⟩

/-- The wire text of such a call. -/
def callText (id : String) : List Char :=
  "\x7b\"id\":\"".toList ++ id.toList ++
    ("\",\"method\":\"dispatch\",\"params\":\x7b\"action\":\"run\",\"args\":null," ++
      "\"request_id\":\"").toList ++ id.toList ++ "\"\x7d\x7d".toList

/-- The reply to it, and its text. -/
def callReply (id : String) : Value := .object [("id", .string id), ("result", .string id)]

def replyText (id : String) : List Char :=
  "\x7b\"id\":\"".toList ++ id.toList ++ "\",\"result\":\"".toList ++ id.toList ++
    "\"\x7d".toList

/-- The texts of the two calls and their replies. -/
def pairTexts : List (List Char × Value) :=
  [(callText "slow", wireRequest slowCall), (callText "fast", wireRequest fastCall),
    (replyText "slow", callReply "slow"), (replyText "fast", callReply "fast")]

def pairJson : JsonText where
  write v := ((pairTexts.find? (·.2 == v)).map (·.1)).getD []
  read text := pairTexts.lookup text

/-- A peer that answers the two calls, each with its own id. -/
def pairAnswer (_ : Nat) (line : List Char) : List Char :=
  if line = callText "slow" then replyText "slow"
  else if line = callText "fast" then replyText "fast"
  else []

/-- A call up to its line end. -/
def sent (r : Request) : List Event :=
  .acquire r :: List.replicate (callText r.id).length.succ .write

/-- Both calls return. -/
def fairRun : List Event := sent slowCall ++ [.finish] ++ (sent fastCall ++ [.finish])

/-- The first call is cancelled while it waits for its reply. -/
def staleRun : List Event := sent slowCall ++ [.cancel] ++ (sent fastCall ++ [.finish])

theorem pairTexts_ending : ∀ e ∈ pairTexts, ∀ e' ∈ pairTexts, e'.1 <:+ e.1 → e'.2 = e.2 := by
  decide

theorem pairTexts_encode : ∀ r ∈ [slowCall, fastCall],
    '\n' ∉ Client.encode pairJson .qtServer r ∧
      pairJson.read (pairJson.write (wireRequest r)) = some (wireRequest r) := by
  decide +kernel

theorem mem_of_read (text : List Char) (v : Value) (h : pairJson.read text = some v) :
    (text, v) ∈ pairTexts := by
  obtain ⟨before, after, hsplit, -⟩ := List.lookup_eq_some_iff.mp h
  rw [hsplit]
  exact List.mem_append_right _ List.mem_cons_self

theorem pair_faithful : Faithful pairJson .qtServer [slowCall, fastCall] where
  singleLine := fun r hr => (pairTexts_encode r hr).1
  readWrite := fun r hr => (pairTexts_encode r hr).2
  ending := by
    intro text v k v' key m hread hread' _
    have hmem := mem_of_read text v hread
    have hmem' := mem_of_read (text.drop k) v' hread'
    exact pairTexts_ending (text, v) hmem (text.drop k, v') hmem' (List.drop_suffix k text)

/-- The replies read back, and name the calls of their lines. -/
theorem pair_replies : ∀ r ∈ [slowCall, fastCall],
    pairJson.read (trimEndMatches (replyText r.id)) = some (callReply r.id) ∧
      Client.encode pairJson .qtServer r = callText r.id := by
  decide +kernel

theorem pair_correlates : Correlates pairJson .qtServer pairAnswer [slowCall, fastCall] where
  named := by
    intro n line w id hread hget
    unfold pairAnswer at hread
    split at hread
    next hline =>
      have hslow := pair_replies slowCall (by decide)
      rw [show replyText "slow" = replyText slowCall.id from rfl, hslow.1,
        Option.some.injEq] at hread
      rw [← hread] at hget
      cases hget
      exact ⟨slowCall, by decide, rfl, by rw [hslow.2, hline]; exact List.suffix_rfl⟩
    next =>
      split at hread
      next hline =>
        have hfast := pair_replies fastCall (by decide)
        rw [show replyText "fast" = replyText fastCall.id from rfl, hfast.1,
          Option.some.injEq] at hread
        rw [← hread] at hget
        cases hget
        exact ⟨fastCall, by decide, rfl, by rw [hfast.2, hline]; exact List.suffix_rfl⟩
      next => cases hread
  unnamed := by
    intro n line k w hread hread'
    unfold pairAnswer at hread hread'
    split at hread
    next hline => exact absurd hread (by decide +kernel)
    next =>
      split at hread
      next hline => exact absurd hread (by decide +kernel)
      next hslow hfast =>
        rw [if_neg hslow, if_neg hfast, trimEndMatches, List.drop_nil] at hread'
        cases hread'

theorem requests_runs :
    requests fairRun = [slowCall, fastCall] ∧ requests staleRun = [slowCall, fastCall] := by
  decide +kernel

theorem fairRun_outcomes :
    (Machine.exec (step pairJson .qtServer pairAnswer) initial fairRun).map (·.outcomes) =
      some [(slowCall, .ok (.string "slow")), (fastCall, .ok (.string "fast"))] := by
  decide +kernel

theorem replies_correlated_fair :
    ∃ s, Machine.exec (step pairJson .qtServer pairAnswer) initial fairRun = some s ∧
      s.outcomes = [(slowCall, .ok (.string "slow")), (fastCall, .ok (.string "fast"))] ∧
      ∀ r v, (r, .ok v) ∈ s.outcomes → ∃ (n : Nat) (owner : Request) (line : List Char),
        s.lines[n]? = some (owner, line) ∧ owner.id = r.id ∧
          Client.encode pairJson .qtServer owner <:+ line ∧
          Client.interpret pairJson .qtServer r (pairAnswer n line) = .ok v := by
  obtain ⟨s, hrun, houtcomes⟩ := Option.map_eq_some_iff.mp fairRun_outcomes
  refine ⟨s, hrun, houtcomes, (replies_correlated pairJson .qtServer pairAnswer fairRun s ?_ ?_
    hrun).1⟩
  · rw [requests_runs.1]
    exact pair_faithful
  · rw [requests_runs.1]
    exact pair_correlates

theorem staleRun_outcomes :
    (Machine.exec (step pairJson .qtServer pairAnswer) initial staleRun).map
        (fun s => (s.outcomes, s.lines)) =
      some ([(fastCall, .error (.desync "run" "fast" (some (.string "slow"))))],
        [(slowCall, callText "slow"), (fastCall, callText "fast")]) := by
  decide +kernel

/-- The second call is not cancelled and its answer is a good one, but what
    it reads is the reply that was left behind. -/
theorem stale_reply_refused :
    Faithful pairJson .qtServer (requests staleRun) ∧
      Correlates pairJson .qtServer pairAnswer (requests staleRun) ∧
      ∃ s, Machine.exec (step pairJson .qtServer pairAnswer) initial staleRun = some s ∧
        s.lines[1]? = some (fastCall, Client.encode pairJson .qtServer fastCall) ∧
        Client.interpret pairJson .qtServer fastCall
            (pairAnswer 1 (Client.encode pairJson .qtServer fastCall)) =
          .ok (.string "fast") ∧
        s.outcomes = [(fastCall, .error (.desync "run" "fast" (some (.string "slow"))))] := by
  rw [requests_runs.2]
  refine ⟨pair_faithful, pair_correlates, ?_⟩
  obtain ⟨s, hrun, hs⟩ := Option.map_eq_some_iff.mp staleRun_outcomes
  obtain ⟨houtcomes, hlines⟩ := Prod.mk.inj hs
  have hencode := (pair_replies fastCall (by decide)).2
  refine ⟨s, hrun, ?_, by decide +kernel, houtcomes⟩
  rw [hlines, hencode]
  rfl

end Pair

end Rpc

end Host

end DccMcp
