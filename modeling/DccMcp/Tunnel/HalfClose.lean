import DccMcp.Lib.Bytes
import DccMcp.Lib.Machine
import Mathlib.Algebra.BigOperators.Fin
import Mathlib.Algebra.Order.BigOperators.Group.Finset

/-!
# Clients that Stop Sending

What a client still gets from the agent after it has closed its sending side.

A session has two directions. What the agent sends goes through the read loop
of its connection into the inbox of the session, and from there a task of the
frontend writes it to the client. What the client sends is read by the other
task of the frontend. When that one sees the end of the stream it tells the
agent, and takes the session out of the map, although the first task is still
there to write. From then on what the agent sends for the session is thrown
away by the read loop, which finds no inbox. `delivered_iff` says that this is
the only way to lose anything: a client that can receive gets everything the
agent has sent, in order, exactly if all of it is read before the frontend
takes the session out.

A payload that the read loop has found an inbox for is not lost, even if the
session is taken out while the loop waits for room: it holds a sender of its
own, and the inbox stays open as long as it does.

## Main definitions

* `Session`, `Reader`, `State`: The tasks of one tunnel.
* `mainStep`, `pumpStep`, `step`: What they do.
* `State.inFlight`: What has been read for a session and not been written yet.
* `Clean`: A payload is read while its session is there, or after its end.

## Theorems

* `delivered_iff`: Nothing is lost exactly in the clean runs.
-/

namespace DccMcp

namespace Tunnel

namespace HalfClose

open Machine

/-- `SESSION_INBOX_QUEUE`. -/
def sessionInboxQueue : Nat := 32

/-- Where the task is that reads from the client. -/
inductive Main
  | reading
  | closing
  | unlinking
  | gone
  deriving DecidableEq

/-- Where the task is that writes to the client. -/
inductive Pump
  | draining
  | writing (payload : Bytes)
  | shutting
  | unlinking
  | ended
  deriving DecidableEq

/-- The task has not left its loop. -/
def Pump.inLoop : Pump → Bool
  | .draining => true
  | .writing _ => true
  | _ => false

/-- What the task has taken and not written yet. -/
def Pump.inHand : Pump → List Bytes
  | .writing payload => [payload]
  | _ => []

/-- A session, with what its client has closed, whether the agent's
    `CloseSession` has been read, the payloads that were read before it, and
    what has been written to the client. -/
structure Session where
  main : Main
  pump : Pump
  inSessions : Bool
  inbox : List Bytes
  sendingEnded : Bool
  receiving : Bool
  agentClosed : Bool
  sent : List Bytes
  written : List Bytes
  deriving DecidableEq

/-- Where the read loop of the agent's connection is: before the next frame,
    or with a payload and a sender of the inbox it is for. -/
inductive Reader (n : Nat)
  | idle
  | holding (i : Fin n) (payload : Bytes)
  deriving DecidableEq

variable {n : Nat}

/-- What the read loop holds for a session. -/
def Reader.inHand (i : Fin n) : Reader n → List Bytes
  | .idle => []
  | .holding j payload => if j = i then [payload] else []

/-- One tunnel of the relay, and whether its agent can be written to. -/
structure State (n : Nat) where
  reader : Reader n
  writable : Bool
  sessions : Fin n → Session

/-- Sessions that have just been opened. -/
def init : State n :=
  ⟨.idle, true, fun _ => ⟨.reading, .draining, true, [], false, true, false, [], []⟩⟩

/-- What has been read for a session and not been written yet, in order. -/
def State.inFlight (s : State n) (i : Fin n) : List Bytes :=
  (s.sessions i).pump.inHand ++ (s.sessions i).inbox ++ s.reader.inHand i

/-- A session changes. -/
def State.put (s : State n) (i : Fin n) (f : Session) : State n :=
  { s with sessions := Function.update s.sessions i f }

/-- The next step of the task that reads from the client, from where it waits
    for its end or for an agent that cannot be written to. -/
def mainStep (writable : Bool) (f : Session) : Option Session :=
  match f.main with
  | .reading => if f.sendingEnded || !writable then some { f with main := .closing } else none
  -- `CloseSession` to the agent, then `close_session`.
  | .closing => some { f with main := .unlinking }
  | .unlinking => some { f with main := .gone, inSessions := false }
  | .gone => none

/-- The next step of the task that writes to the client, where `held` says that
    the read loop has a sender of the inbox. A write to a client that can
    receive succeeds. -/
def pumpStep (held ok : Bool) (f : Session) : Option Session :=
  match f.pump with
  | .draining =>
    match f.inbox with
    | payload :: rest => some { f with pump := .writing payload, inbox := rest }
    | [] => if f.inSessions || held then none else some { f with pump := .shutting }
  | .writing payload =>
    if ok then some { f with pump := .draining, written := f.written ++ [payload] }
    else if f.receiving then none
    else some { f with pump := .shutting }
  | .shutting => some { f with pump := .unlinking }
  | .unlinking => some { f with pump := .ended, inSessions := false }
  | .ended => none

/-- One step of one task, of a client, or a frame from the agent. -/
inductive Action (n : Nat)
  | readData (i : Fin n) (payload : Bytes)
  | readClose (i : Fin n)
  | readerSend
  | clientEnds (i : Fin n)
  | clientLeaves (i : Fin n)
  | writerFails
  | main (i : Fin n)
  | pump (i : Fin n) (ok : Bool)

/-- Steps that the relay makes by itself. -/
def Action.isInternal : Action n → Bool
  | .readerSend | .main _ | .pump _ _ => true
  | _ => false

/-- What the steps do. -/
def step (s : State n) : Action n → Option (State n)
  -- `read_loop`: `session_inbox`, then `inbox.send`.
  | .readData i payload =>
    let f := s.sessions i
    match s.reader with
    | .idle =>
      let told := { f with sent := if f.agentClosed then f.sent else f.sent ++ [payload] }
      some { s.put i told with reader := if f.inSessions then .holding i payload else .idle }
    | .holding _ _ => none
  | .readClose i =>
    match s.reader with
    | .idle => some (s.put i { s.sessions i with inSessions := false, agentClosed := true })
    | .holding _ _ => none
  | .readerSend =>
    match s.reader with
    | .idle => none
    | .holding i payload =>
      let f := s.sessions i
      if f.pump = .ended then some { s.put i { f with inSessions := false } with reader := .idle }
      else if f.inbox.length < sessionInboxQueue then
        some { s.put i { f with inbox := f.inbox ++ [payload] } with reader := .idle }
      else none
  | .clientEnds i => some (s.put i { s.sessions i with sendingEnded := true })
  | .clientLeaves i => some (s.put i { s.sessions i with receiving := false })
  | .writerFails => some { s with writable := false }
  | .main i => (mainStep s.writable (s.sessions i)).map (s.put i)
  | .pump i ok => (pumpStep (s.reader.inHand i != []) ok (s.sessions i)).map (s.put i)

/-- A payload is read for a session that the frontend has not taken out, or
    after the agent has closed it. -/
def Clean (i : Fin n) (s : State n) : Action n → Prop
  | .readData j _ => j = i → (s.sessions i).agentClosed = true ∨ (s.sessions i).main ≠ .gone
  | _ => True

instance (i : Fin n) (s : State n) : ∀ a, Decidable (Clean i s a)
  | .readData j _ => inferInstanceAs (Decidable (j = i → _))
  | .readClose _ | .readerSend | .clientEnds _ | .clientLeaves _ | .writerFails | .main _
  | .pump _ _ => isTrue trivial

/-- The relay makes no step by itself. -/
def Rest (s : State n) : Prop := ∀ a : Action n, a.isInternal = true → step s a = none

/-- A step of the relay, seen from the state it leads to. -/
def Internal (t s : State n) : Prop := ∃ a : Action n, a.isInternal = true ∧ step s a = some t

/-! ## What a step does to one session -/

/-- The payload that is read for a session. -/
def Action.dataFor (i : Fin n) : Action n → Option Bytes
  | .readData j payload => if j = i then some payload else none
  | _ => none

/-- Everything a step can do to a session and to what the read loop holds for
    it. The first argument is the payload that is read for it. -/
inductive Moves (f : Session) : Option Bytes → List Bytes → Session → List Bytes → Prop
  | stay (hand : List Bytes) : Moves f none hand f hand
  | discarded (payload : Bytes) (hin : f.inSessions = false) :
      Moves f (some payload) []
        { f with sent := if f.agentClosed then f.sent else f.sent ++ [payload] } []
  | found (payload : Bytes) (hin : f.inSessions = true) :
      Moves f (some payload) []
        { f with sent := if f.agentClosed then f.sent else f.sent ++ [payload] } [payload]
  | closed : Moves f none [] { f with inSessions := false, agentClosed := true } []
  | refused (payload : Bytes) (hpump : f.pump = .ended) :
      Moves f none [payload] { f with inSessions := false } []
  | queued (payload : Bytes) (hpump : f.pump ≠ .ended) :
      Moves f none [payload] { f with inbox := f.inbox ++ [payload] } []
  | ends (hand : List Bytes) : Moves f none hand { f with sendingEnded := true } hand
  | leaves (hand : List Bytes) : Moves f none hand { f with receiving := false } hand
  | leftLoop (hand : List Bytes) (hmain : f.main = .reading) :
      Moves f none hand { f with main := .closing } hand
  | toldAgent (hand : List Bytes) (hmain : f.main = .closing) :
      Moves f none hand { f with main := .unlinking } hand
  | unlinked (hand : List Bytes) (hmain : f.main = .unlinking) :
      Moves f none hand { f with main := .gone, inSessions := false } hand
  | taken (hand : List Bytes) (payload : Bytes) (rest : List Bytes) (hpump : f.pump = .draining)
      (hinbox : f.inbox = payload :: rest) :
      Moves f none hand { f with pump := .writing payload, inbox := rest } hand
  | drained (hpump : f.pump = .draining) (hinbox : f.inbox = []) (hin : f.inSessions = false) :
      Moves f none [] { f with pump := .shutting } []
  | wrote (hand : List Bytes) (payload : Bytes) (hpump : f.pump = .writing payload) :
      Moves f none hand { f with pump := .draining, written := f.written ++ [payload] } hand
  | broken (hand : List Bytes) (payload : Bytes) (hpump : f.pump = .writing payload)
      (hgone : f.receiving = false) : Moves f none hand { f with pump := .shutting } hand
  | shut (hand : List Bytes) (hpump : f.pump = .shutting) :
      Moves f none hand { f with pump := .unlinking } hand
  | pumpUnlinked (hand : List Bytes) (hpump : f.pump = .unlinking) :
      Moves f none hand { f with pump := .ended, inSessions := false } hand

theorem moves_of_mainStep (writable : Bool) (f f' : Session) (hand : List Bytes)
    (h : mainStep writable f = some f') : Moves f none hand f' hand := by
  unfold mainStep at h
  split at h
  next hmain =>
    split at h
    · rw [← Option.some.inj h]
      exact .leftLoop hand hmain
    · simp at h
  next hmain =>
    rw [← Option.some.inj h]
    exact .toldAgent hand hmain
  next hmain =>
    rw [← Option.some.inj h]
    exact .unlinked hand hmain
  next => simp at h

theorem moves_of_pumpStep (ok : Bool) (f f' : Session) (hand : List Bytes)
    (h : pumpStep (hand != []) ok f = some f') : Moves f none hand f' hand := by
  unfold pumpStep at h
  split at h
  next hpump =>
    split at h
    next payload rest hinbox =>
      rw [← Option.some.inj h]
      exact .taken hand payload rest hpump hinbox
    next hinbox =>
      split at h
      next => simp only [reduceCtorEq] at h
      next hclosed =>
        -- The inbox is closed when neither the map nor the read loop has it.
        simp only [Bool.or_eq_true, not_or, Bool.not_eq_true, bne_eq_false_iff_eq] at hclosed
        rw [← Option.some.inj h, hclosed.2]
        exact .drained hpump hinbox hclosed.1
  next payload hpump =>
    split at h
    next =>
      rw [← Option.some.inj h]
      exact .wrote hand payload hpump
    next =>
      split at h
      next => simp only [reduceCtorEq] at h
      next hgone =>
        rw [← Option.some.inj h]
        exact .broken hand payload hpump (Bool.not_eq_true _ ▸ hgone)
  next hpump =>
    rw [← Option.some.inj h]
    exact .shut hand hpump
  next hpump =>
    rw [← Option.some.inj h]
    exact .pumpUnlinked hand hpump
  next => simp at h

variable (i : Fin n) (s : State n) (f f' : Session)

/-- A change of one session is a move of it, and the others stay. -/
theorem moves_put (reader : Reader n) (i j : Fin n) (f : Session) (label : Option Bytes)
    (hlabel : i ≠ j → label = none)
    (hreader : i ≠ j → reader.inHand j = s.reader.inHand j)
    (h : i = j → Moves (s.sessions j) label (s.reader.inHand j) f (reader.inHand j)) :
    Moves (s.sessions j) label (s.reader.inHand j)
      (Function.update s.sessions i f j) (reader.inHand j) := by
  by_cases hij : i = j
  · rw [hij, Function.update_self]
    exact h hij
  · rw [Function.update_of_ne (Ne.symm hij), hreader hij, hlabel hij]
    exact .stay _

/-- Every step is a move of every session. -/
theorem moves_of_step (s t : State n) (a : Action n) (j : Fin n) (h : step s a = some t) :
    Moves (s.sessions j) (a.dataFor j) (s.reader.inHand j) (t.sessions j) (t.reader.inHand j) := by
  cases a with
  | readData i payload =>
      simp only [step] at h
      split at h
      next hidle =>
        rw [← Option.some.inj h]
        refine moves_put s _ i j _ _ (fun hij => if_neg hij) (fun hij => ?_)
          (fun hij => ?_)
        · rw [hidle]
          split
          · exact if_neg hij
          · rfl
        · subst hij
          rw [hidle]
          rw [Action.dataFor, if_pos rfl]
          by_cases hin : (s.sessions i).inSessions = true
          · rw [if_pos hin, Reader.inHand, Reader.inHand, if_pos rfl]
            exact .found payload hin
          · rw [if_neg hin]
            exact .discarded payload (Bool.not_eq_true _ ▸ hin)
      next => simp at h
  | readClose i =>
      simp only [step] at h
      split at h
      next hidle =>
        rw [← Option.some.inj h]
        refine moves_put s s.reader i j _ _ (fun _ => rfl) (fun _ => rfl)
          (fun hij => ?_)
        subst hij
        rw [hidle]
        exact .closed
      next => simp at h
  | readerSend =>
      simp only [step] at h
      split at h
      next => simp only [reduceCtorEq] at h
      next i payload hreader =>
        have hother : i ≠ j → s.reader.inHand j = [] := by
          intro hij
          rw [hreader]
          exact if_neg hij
        have hself : s.reader.inHand i = [payload] := by
          rw [hreader]
          exact if_pos rfl
        split at h
        next hended =>
          rw [← Option.some.inj h]
          refine moves_put s .idle i j _ _ (fun _ => rfl)
            (fun hij => (hother hij).symm) (fun hij => ?_)
          subst hij
          rw [hself]
          exact .refused payload hended
        next hended =>
          split at h
          next =>
            rw [← Option.some.inj h]
            refine moves_put s .idle i j _ _ (fun _ => rfl)
              (fun hij => (hother hij).symm) (fun hij => ?_)
            subst hij
            rw [hself]
            exact .queued payload hended
          next => simp at h
  | clientEnds i =>
      rw [← Option.some.inj h]
      exact moves_put s s.reader i j _ _ (fun _ => rfl) (fun _ => rfl)
        (fun hij => hij ▸ .ends _)
  | clientLeaves i =>
      rw [← Option.some.inj h]
      exact moves_put s s.reader i j _ _ (fun _ => rfl) (fun _ => rfl)
        (fun hij => hij ▸ .leaves _)
  | writerFails =>
      rw [← Option.some.inj h]
      exact .stay _
  | main i =>
      rcases Option.map_eq_some_iff.mp h with ⟨f, hf, rfl⟩
      refine moves_put s s.reader i j f _ (fun _ => rfl) (fun _ => rfl) (fun hij => ?_)
      subst hij
      exact moves_of_mainStep s.writable _ f _ hf
  | pump i ok =>
      rcases Option.map_eq_some_iff.mp h with ⟨f, hf, rfl⟩
      refine moves_put s s.reader i j f _ (fun _ => rfl) (fun _ => rfl) (fun hij => ?_)
      subst hij
      exact moves_of_pumpStep ok _ f _ hf

/-! ## Sessions that are closed -/

/-- While the client can receive, the task that writes to it leaves its loop
    only when nothing can come any more, and a session is taken out only by the
    agent or by the task that reads from the client. -/
structure Wf (f : Session) (hand : List Bytes) : Prop where
  left : f.receiving = true → f.pump.inLoop = false →
    f.inSessions = false ∧ f.inbox = [] ∧ hand = []
  closed : f.receiving = true → f.inSessions = false → f.agentClosed = true ∨ f.main = .gone
  gone : f.main = .gone → f.inSessions = false
  agent : f.agentClosed = true → f.inSessions = false

theorem wf_moves (label : Option Bytes) (hand hand' : List Bytes) (h : Wf f hand)
    (hmoves : Moves f label hand f' hand') : Wf f' hand' := by
  cases hmoves with
  | stay => exact h
  | discarded | ends => exact ⟨h.left, h.closed, h.gone, h.agent⟩
  | found payload hin =>
      refine ⟨fun hopen hleft => ?_, h.closed, h.gone, h.agent⟩
      have hout := (h.left hopen hleft).1
      rw [hin] at hout
      exact absurd hout.symm Bool.false_ne_true
  | closed =>
      refine ⟨fun hopen hleft => ⟨rfl, (h.left hopen hleft).2⟩, fun _ _ => .inl rfl,
        fun _ => rfl, fun _ => rfl⟩
  | refused payload hpump =>
      -- The task would not have ended with a payload still to come.
      have hgone : f.receiving = false := by
        by_contra hopen
        rw [Bool.not_eq_false] at hopen
        have hhand := (h.left hopen (by rw [hpump]; rfl)).2.2
        simp at hhand
      refine ⟨fun hopen => ?_, fun hopen => ?_, fun _ => rfl, fun _ => rfl⟩
      · rw [hgone] at hopen
        exact absurd hopen Bool.false_ne_true
      · rw [hgone] at hopen
        exact absurd hopen Bool.false_ne_true
  | queued payload hpump =>
      refine ⟨fun hopen hleft => ?_, h.closed, h.gone, h.agent⟩
      have hhand := (h.left hopen hleft).2.2
      simp at hhand
  | leaves hand =>
      refine ⟨fun hopen => ?_, fun hopen => ?_, h.gone, h.agent⟩
      · exact absurd hopen Bool.false_ne_true
      · exact absurd hopen Bool.false_ne_true
  | leftLoop hand hmain | toldAgent hand hmain =>
      refine ⟨h.left, fun hopen hout => ?_, fun hgone => ?_, h.agent⟩
      · refine (h.closed hopen hout).imp_right (fun hgone => ?_)
        rw [hmain] at hgone
        simp at hgone
      · simp at hgone
  | unlinked hand hmain =>
      exact ⟨fun hopen hleft => ⟨rfl, (h.left hopen hleft).2⟩, fun _ _ => .inr rfl,
        fun _ => rfl, fun _ => rfl⟩
  | taken hand payload rest hpump hinbox =>
      exact ⟨fun _ hleft => absurd hleft.symm Bool.false_ne_true, h.closed, h.gone, h.agent⟩
  | drained hpump hinbox hin =>
      exact ⟨fun _ _ => ⟨hin, hinbox, rfl⟩, h.closed, h.gone, h.agent⟩
  | wrote hand payload hpump =>
      exact ⟨fun _ hleft => absurd hleft.symm Bool.false_ne_true, h.closed, h.gone, h.agent⟩
  | broken hand payload hpump hgone =>
      refine ⟨fun hopen => ?_, h.closed, h.gone, h.agent⟩
      rw [hgone] at hopen
      exact absurd hopen Bool.false_ne_true
  | shut hand hpump =>
      exact ⟨fun hopen _ => h.left hopen (by rw [hpump]; rfl), h.closed, h.gone, h.agent⟩
  | pumpUnlinked hand hpump =>
      have hleft : f.pump.inLoop = false := by rw [hpump]; rfl
      exact ⟨fun hopen _ => ⟨rfl, (h.left hopen hleft).2⟩,
        fun hopen _ => h.closed hopen (h.left hopen hleft).1, fun _ => rfl, fun _ => rfl⟩

theorem wf_step (s t : State n) (a : Action n) (h : ∀ i, Wf (s.sessions i) (s.reader.inHand i))
    (hstep : step s a = some t) (i : Fin n) : Wf (t.sessions i) (t.reader.inHand i) :=
  wf_moves _ _ _ _ _ (h i) (moves_of_step s t a i hstep)

/-! ## What is read is written or under way -/

/-- What a session has read and not written yet. -/
def Session.flight (f : Session) (hand : List Bytes) : List Bytes :=
  f.pump.inHand ++ f.inbox ++ hand

/-- A client that has left does not come back. -/
theorem receiving_of_moves (label : Option Bytes) (hand hand' : List Bytes)
    (hmoves : Moves f label hand f' hand') (hopen : f'.receiving = true) : f.receiving = true := by
  cases hmoves with
  | leaves => exact absurd hopen Bool.false_ne_true
  | _ => exact hopen

/-- Without a payload from the agent, what was read for a client that can
    receive only moves on, in order. -/
theorem flight_of_moves (hand hand' : List Bytes) (h : Wf f hand)
    (hmoves : Moves f none hand f' hand') (hopen : f'.receiving = true) :
    f'.sent = f.sent ∧ f'.written ++ f'.flight hand' = f.written ++ f.flight hand := by
  have hopen' := receiving_of_moves f f' none hand hand' hmoves hopen
  unfold Session.flight
  cases hmoves with
  | refused payload hpump =>
      have hhand := (h.left hopen' (by rw [hpump]; rfl)).2.2
      simp at hhand
  | leaves => exact absurd hopen Bool.false_ne_true
  | broken hand payload hpump hgone =>
      rw [hgone] at hopen'
      exact absurd hopen' Bool.false_ne_true
  | queued payload hpump => exact ⟨rfl, by simp⟩
  | taken hand payload rest hpump hinbox =>
      refine ⟨rfl, ?_⟩
      rw [hpump, hinbox]
      rfl
  | wrote hand payload hpump =>
      refine ⟨rfl, ?_⟩
      rw [hpump]
      simp [Pump.inHand]
  | drained hpump hinbox hin =>
      refine ⟨rfl, ?_⟩
      rw [hpump]
      rfl
  | shut hand hpump | pumpUnlinked hand hpump =>
      refine ⟨rfl, ?_⟩
      rw [hpump]
      rfl
  | stay | closed | ends | leftLoop | toldAgent | unlinked => exact ⟨rfl, rfl⟩

/-- A payload from the agent is under way if the session is there, and gone
    otherwise. -/
theorem flight_of_data (payload : Bytes) (hand hand' : List Bytes)
    (hmoves : Moves f (some payload) hand f' hand') :
    f'.written = f.written ∧
      f'.sent = (if f.agentClosed then f.sent else f.sent ++ [payload]) ∧
      f'.flight hand' = if f.inSessions then f.flight hand ++ [payload] else f.flight hand := by
  unfold Session.flight
  cases hmoves with
  | discarded _ hin =>
      rw [hin]
      exact ⟨rfl, rfl, rfl⟩
  | found _ hin =>
      rw [hin]
      refine ⟨rfl, rfl, ?_⟩
      simp

/-! ## The relay at rest -/

def Main.weight : Main → Nat
  | .reading => 3
  | .closing => 2
  | .unlinking => 1
  | .gone => 0

def Pump.weight : Pump → Nat
  | .writing _ => 4
  | .draining => 3
  | .shutting => 2
  | .unlinking => 1
  | .ended => 0

/-- What the tasks of a session have still to do: a payload in the hand of the
    read loop goes to the inbox, and one in the inbox is written. -/
def Session.weight (f : Session) (hand : List Bytes) : Nat :=
  f.main.weight + f.pump.weight + 2 * f.inbox.length + 3 * hand.length

theorem weight_of_moves (hand hand' : List Bytes) (h : Moves f none hand f' hand') :
    f'.weight hand' ≤ f.weight hand := by
  unfold Session.weight
  cases h with
  | stay | closed | ends | leaves => exact Nat.le_refl _
  | refused | queued =>
      simp only [List.length_append, List.length_singleton, List.length_nil]
      omega
  | leftLoop hand hmain | toldAgent hand hmain | unlinked hand hmain =>
      simp only [hmain, Main.weight]
      omega
  | taken hand payload rest hpump hinbox =>
      simp only [hpump, hinbox, Pump.weight, List.length_cons]
      omega
  | drained hpump | wrote _ _ hpump | broken _ _ hpump | shut _ hpump | pumpUnlinked _ hpump =>
      simp only [hpump, Pump.weight]
      omega

theorem weight_mainStep (writable : Bool) (f f' : Session) (hand : List Bytes)
    (h : mainStep writable f = some f') : f'.weight hand < f.weight hand := by
  unfold mainStep at h
  unfold Session.weight
  split at h
  next hmain =>
    split at h
    · rw [← Option.some.inj h]
      simp only [hmain, Main.weight]
      omega
    · simp at h
  next hmain =>
    rw [← Option.some.inj h]
    simp only [hmain, Main.weight]
    omega
  next hmain =>
    rw [← Option.some.inj h]
    simp only [hmain, Main.weight]
    omega
  next => simp at h

theorem weight_pumpStep (ok : Bool) (f f' : Session) (hand : List Bytes)
    (h : pumpStep (hand != []) ok f = some f') : f'.weight hand < f.weight hand := by
  unfold pumpStep at h
  unfold Session.weight
  split at h
  next hpump =>
    split at h
    next payload rest hinbox =>
      rw [← Option.some.inj h]
      simp only [hpump, hinbox, Pump.weight, List.length_cons]
      omega
    next =>
      split at h
      · simp at h
      · rw [← Option.some.inj h]
        simp only [hpump, Pump.weight]
        omega
  next payload hpump =>
    split at h
    · rw [← Option.some.inj h]
      simp only [hpump, Pump.weight]
      omega
    · split at h
      · simp at h
      · rw [← Option.some.inj h]
        simp only [hpump, Pump.weight]
        omega
  next hpump =>
    rw [← Option.some.inj h]
    simp only [hpump, Pump.weight]
    omega
  next hpump =>
    rw [← Option.some.inj h]
    simp only [hpump, Pump.weight]
    omega
  next => simp at h

/-- What all tasks have still to do. -/
def State.weight (s : State n) : Nat := ∑ i, (s.sessions i).weight (s.reader.inHand i)

/-- Every step of the relay leaves it less to do. -/
theorem weight_internal (s t : State n) (h : Internal t s) : t.weight < s.weight := by
  rcases h with ⟨a, hinternal, hstep⟩
  -- No session has more to do, and the one whose task moved has less.
  have hnone : ∀ i, a.dataFor i = none := by
    intro i
    cases a <;> first | rfl | cases hinternal
  refine Finset.sum_lt_sum (fun i _ => ?_) ?_
  · have hmoves := moves_of_step s t a i hstep
    rw [hnone i] at hmoves
    exact weight_of_moves _ _ _ _ hmoves
  · cases a with
    | main i =>
        rcases Option.map_eq_some_iff.mp hstep with ⟨f, hf, rfl⟩
        refine ⟨i, Finset.mem_univ i, ?_⟩
        simp only [State.put, Function.update_self]
        exact weight_mainStep _ _ f _ hf
    | pump i ok =>
        rcases Option.map_eq_some_iff.mp hstep with ⟨f, hf, rfl⟩
        refine ⟨i, Finset.mem_univ i, ?_⟩
        simp only [State.put, Function.update_self]
        exact weight_pumpStep ok _ f _ hf
    | readerSend =>
        simp only [step] at hstep
        split at hstep
        next => simp only [reduceCtorEq] at hstep
        next i payload hreader =>
          refine ⟨i, Finset.mem_univ i, ?_⟩
          split at hstep
          · rw [← Option.some.inj hstep, hreader]
            simp only [State.put, Function.update_self, Session.weight, Reader.inHand, if_true,
              List.length_singleton, List.length_nil]
            omega
          · split at hstep
            · rw [← Option.some.inj hstep, hreader]
              simp only [State.put, Function.update_self, Session.weight, Reader.inHand, if_true,
                List.length_append, List.length_singleton, List.length_nil]
              omega
            · simp at hstep
    | readData | readClose | clientEnds | clientLeaves | writerFails => cases hinternal

/-- The relay comes to rest if its clients and the agent do. -/
theorem internal_wf : WellFounded (Internal (n := n)) :=
  Subrelation.wf (fun {t s} h => weight_internal s t h) (measure State.weight).wf

/-- A task that writes to its client is never stuck, and one with an inbox is
    not either. -/
theorem pump_of_rest (s : State n) (h : Rest s) (i : Fin n) :
    (s.sessions i).pump = .ended ∨
      (s.sessions i).pump = .draining ∧ (s.sessions i).inbox = [] := by
  have hstuck := h (.pump i true) rfl
  simp only [step, Option.map_eq_none_iff, pumpStep] at hstuck
  split at hstuck
  next hpump =>
    split at hstuck
    next => simp only [reduceCtorEq] at hstuck
    next hinbox => exact .inr ⟨hpump, hinbox⟩
  next => simp only [if_true, reduceCtorEq] at hstuck
  next => simp only [reduceCtorEq] at hstuck
  next => simp only [reduceCtorEq] at hstuck
  next hpump => exact .inl hpump

/-- The read loop is not stuck on anybody's inbox. -/
theorem reader_of_rest (s : State n) (h : Rest s) : s.reader = .idle := by
  have hstuck := h .readerSend rfl
  cases hreader : s.reader with
  | idle => rfl
  | holding i payload =>
      simp only [step, hreader] at hstuck
      split at hstuck
      next => simp only [reduceCtorEq] at hstuck
      next hended =>
        have hinbox := ((pump_of_rest s h i).resolve_left hended).2
        rw [hinbox, if_pos (by decide)] at hstuck
        simp at hstuck

/-- A relay at rest has written everything to the clients that can receive. -/
theorem inFlight_of_rest (s : State n) (h : Rest s) (i : Fin n)
    (hwf : Wf (s.sessions i) (s.reader.inHand i)) (hopen : (s.sessions i).receiving = true) :
    s.inFlight i = [] := by
  unfold State.inFlight
  rw [reader_of_rest s h, Reader.inHand, List.append_nil]
  rcases pump_of_rest s h i with hended | ⟨hdraining, hinbox⟩
  · rw [hended, (hwf.left hopen (by rw [hended]; rfl)).2.1]
    rfl
  · rw [hdraining, hinbox]
    rfl

/-! ## What is lost -/

theorem clean_of_none (a : Action n) (h : a.dataFor i = none) : Clean i s a := by
  cases a with
  | readData j payload =>
      intro hji
      rw [Action.dataFor, if_pos hji] at h
      simp at h
  | _ => trivial

theorem clean_data (a : Action n) (payload : Bytes) (h : a.dataFor i = some payload) :
    Clean i s a ↔ ((s.sessions i).agentClosed = true ∨ (s.sessions i).main ≠ .gone) := by
  cases a with
  | readData j p =>
      simp only [Action.dataFor, Option.ite_none_right_eq_some] at h
      exact ⟨fun hclean => hclean h.1, fun hok _ => hok⟩
  | _ => simp [Action.dataFor] at h

/-- The books of a session after a run: for a client that can receive, what was
    read is what was written and what is under way, or more than that if a step
    was not clean. -/
structure Account (i : Fin n) (as : List (Action n)) (s : State n) : Prop where
  run : exec step init as = some s
  wf : ∀ j, Wf (s.sessions j) (s.reader.inHand j)
  kept : (s.sessions i).receiving = true → Along step (Clean i) init as →
    (s.sessions i).sent = (s.sessions i).written ++ s.inFlight i
  lost : (s.sessions i).receiving = true → ¬ Along step (Clean i) init as →
    ((s.sessions i).written ++ s.inFlight i).length < (s.sessions i).sent.length

theorem account_init : Account i [] (init : State n) where
  run := rfl
  wf _ :=
    ⟨fun _ hleft => absurd hleft.symm Bool.false_ne_true,
      fun _ hout => absurd hout.symm Bool.false_ne_true, nofun, nofun⟩
  kept _ _ := rfl
  lost _ h := absurd trivial h

theorem account_step (as : List (Action n)) (s t : State n) (a : Action n) (h : Account i as s)
    (hstep : step s a = some t) : Account i (as ++ [a]) t := by
  have hmoves := moves_of_step s t a i hstep
  have hclean : Along step (Clean i) init (as ++ [a]) ↔
      Along step (Clean i) init as ∧ Clean i s a := by
    rw [along_append]
    refine and_congr_right (fun _ => ⟨fun hall => (hall s h.run).1, fun ha u hu => ?_⟩)
    rw [h.run, Option.some.injEq] at hu
    exact hu ▸ ⟨ha, fun _ _ => trivial⟩
  have hrun := (exec_snoc step init t as a).mpr ⟨s, h.run, hstep⟩
  have hwf := wf_step s t a h.wf hstep
  cases hdata : a.dataFor i with
  | none =>
      rw [hdata] at hmoves
      refine ⟨hrun, hwf, fun hopen hall => ?_, fun hopen hall => ?_⟩
      · rcases flight_of_moves _ _ _ _ (h.wf i) hmoves hopen with ⟨hsent, hflight⟩
        rw [hsent]
        exact (h.kept (receiving_of_moves _ _ _ _ _ hmoves hopen) (hclean.mp hall).1).trans
          hflight.symm
      · rcases flight_of_moves _ _ _ _ (h.wf i) hmoves hopen with ⟨hsent, hflight⟩
        have hlost := h.lost (receiving_of_moves _ _ _ _ _ hmoves hopen)
          (fun hold => hall (hclean.mpr ⟨hold, clean_of_none i s a hdata⟩))
        rw [hsent]
        exact lt_of_eq_of_lt (congrArg List.length hflight) hlost
  | some payload =>
      rw [hdata] at hmoves
      rw [clean_data i s a payload hdata] at hclean
      rcases flight_of_data _ _ payload _ _ hmoves with ⟨hwritten, hsent, hflight⟩
      have hflight' : t.inFlight i =
          if (s.sessions i).inSessions then s.inFlight i ++ [payload] else s.inFlight i := hflight
      refine ⟨hrun, hwf, fun hopen hall => ?_, fun hopen hall => ?_⟩
      · have hold := h.kept (receiving_of_moves _ _ _ _ _ hmoves hopen) (hclean.mp hall).1
        rw [hwritten, hsent, hflight']
        rcases (hclean.mp hall).2 with hclosed | hthere
        · -- The agent has closed the session, and this is not counted.
          rw [hclosed, (h.wf i).agent hclosed]
          exact hold
        · by_cases hclosed : (s.sessions i).agentClosed = true
          · rw [hclosed, (h.wf i).agent hclosed]
            exact hold
          · have hin : (s.sessions i).inSessions = true := by
              by_contra hout
              rw [Bool.not_eq_true] at hout
              exact ((h.wf i).closed (receiving_of_moves _ _ _ _ _ hmoves hopen) hout).elim
                hclosed hthere
            rw [if_neg hclosed, if_pos hin, hold, List.append_assoc]
      · rw [hwritten, hsent, hflight']
        have hopen' := receiving_of_moves _ _ _ _ _ hmoves hopen
        by_cases hok : (s.sessions i).agentClosed = true ∨ (s.sessions i).main ≠ .gone
        · -- Something was lost before.
          have hlost := h.lost hopen' (fun hold => hall (hclean.mpr ⟨hold, hok⟩))
          rw [List.length_append] at hlost
          rw [List.length_append]
          by_cases hclosed : (s.sessions i).agentClosed = true
          · rw [hclosed, (h.wf i).agent hclosed]
            exact hlost
          · rw [if_neg hclosed, List.length_append, List.length_singleton]
            split
            · rw [List.length_append, List.length_singleton]
              omega
            · omega
        · -- This payload is thrown away.
          rw [not_or, not_not] at hok
          have hgrow : ((s.sessions i).sent ++ [payload]).length =
              (s.sessions i).sent.length + 1 := by
            rw [List.length_append, List.length_singleton]
          rw [if_neg hok.1, (h.wf i).gone hok.2, hgrow]
          have hle : ((s.sessions i).written ++ s.inFlight i).length ≤
              (s.sessions i).sent.length := by
            by_cases hall' : Along step (Clean i) init as
            · rw [h.kept hopen' hall']
            · exact Nat.le_of_lt (h.lost hopen' hall')
          exact Nat.lt_succ_of_le hle

theorem account_of_run (as : List (Action n)) (s : State n) (hrun : exec step init as = some s) :
    Account i as s :=
  exec_history step (fun _ _ => True) (Account i) init (account_init i)
    (fun as t a u ht _ hu => account_step i as t u a ht hu) as s (along_true step init as) hrun

/-- In every run and for every session whose client can receive: what the agent
    has sent before its `CloseSession` has been written to the client or is on
    the way to it, in order, and is all written once the relay is at rest,
    exactly if every payload was read before the frontend took the session
    out. -/
theorem delivered_iff (as : List (Action n)) (s : State n) (i : Fin n)
    (hrun : exec step init as = some s) (hopen : (s.sessions i).receiving = true) :
    ((s.sessions i).sent = (s.sessions i).written ++ s.inFlight i ∧ Acc Internal s ∧
        (Rest s → (s.sessions i).written = (s.sessions i).sent)) ↔
      Along step (Clean i) init as := by
  have h := account_of_run i as s hrun
  constructor
  · rintro ⟨hkept, _, _⟩
    by_contra hall
    have hlost := h.lost hopen hall
    rw [← hkept] at hlost
    exact Nat.lt_irrefl _ hlost
  · intro hall
    have hkept := h.kept hopen hall
    refine ⟨hkept, internal_wf.apply s, fun hrest => ?_⟩
    rw [hkept, inFlight_of_rest s hrest i (h.wf i) hopen, List.append_nil]

/-- The agent answers before the client stops sending. -/
def answeredFirst (i : Fin n) : List (Action n) :=
  [.readData i [1, 2], .readerSend, .pump i true, .pump i true, .readData i [3], .clientEnds i,
    .main i, .main i, .main i, .readerSend, .pump i true, .pump i true]

theorem delivered_iff_answered :
    ∃ s, exec step (init : State 1) (answeredFirst 0) = some s ∧
      (s.sessions 0).written = [[1, 2], [3]] ∧
      (s.sessions 0).sent = (s.sessions 0).written ++ s.inFlight 0 := by
  refine ⟨_, rfl, rfl, ?_⟩
  exact ((delivered_iff (answeredFirst 0) _ 0 rfl rfl).mpr (by decide +kernel)).1

/-- The agent answers after the client has stopped sending. -/
def answeredLate (i : Fin n) : List (Action n) :=
  [.clientEnds i, .main i, .main i, .main i, .readData i [1, 2], .readClose i, .pump i true,
    .pump i true, .pump i true]

/-- The client can still receive, and never gets the answer. -/
theorem half_closed_client_loses_answer :
    ∃ s, exec step (init : State 1) (answeredLate 0) = some s ∧ (s.sessions 0).receiving = true ∧
      (s.sessions 0).sent = [[1, 2]] ∧ (s.sessions 0).pump = .ended ∧
      (s.sessions 0).written = [] ∧ s.inFlight 0 = [] :=
  ⟨_, rfl, rfl, rfl, rfl, rfl, rfl⟩

end HalfClose

end Tunnel

end DccMcp
