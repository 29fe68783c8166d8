import DccMcp.Lib.Machine
import DccMcp.Tunnel.Codec

/-!
# Session Ids

How a tunnel tells its clients apart.

Every client that selects a tunnel opens a session on it. The handle of the
tunnel takes the next number of a counter of 32 bits as the session id, and then
puts the client's inbox into a map under this id, over whatever is there. What the
agent sends for a session is looked up in the map.

The counter is never asked whether the session that had a number before is still
open. Since it goes round, the id of an open is the id of every open that is a
multiple of `2 ^ 32` opens away, and of no other one. `sessions_kept_apart_iff`
says what that means for a run: ids are fresh and frames reach their own client
exactly as long as no session outlives the `2 ^ 32` opens that follow it.

Clients are numbered by the order in which they take their ids. Taking the id
and entering the inbox are two steps, since several clients open sessions at a
time. A session is open until it is first closed, by its client or by the agent;
it may be closed again after that, and the agent may still send for it.

## Main definitions

* `Session`, `TunnelHandle`: The sessions and the handle of a tunnel.
* `Action`, `step`: What clients and the agent do to it.
* `Apart`: A step that gives out a fresh id, or hands a frame to its client.
* `Outlived`: A step that meets no session from a whole round before.

## Theorems

* `inv_of_run`: The id of a session is its number.
* `sessions_kept_apart_iff`: Which runs keep the sessions apart.
-/

namespace DccMcp

namespace Tunnel

namespace Sessions

open Machine

/-- How far a session is. It has its id before its inbox is in the map. -/
inductive Phase
  | reserved
  | opened
  | closed
  deriving DecidableEq

/-- A session, with the id that `open_session` has taken for it. -/
structure Session where
  id : SessionId
  phase : Phase
  deriving DecidableEq

/-- The session ids of a tunnel. An inbox is named by its client, and a client by
    its place among the clients that have taken an id. -/
structure TunnelHandle where
  nextSession : SessionId
  sessions : SessionId → Option Nat
  clients : List Session

def TunnelHandle.new : TunnelHandle := ⟨1, fun _ => none, []⟩

namespace TunnelHandle

/-- A session that has taken an id and has not been closed. -/
def isOpen (s : TunnelHandle) (client : Nat) : Bool :=
  s.clients[client]?.any (fun session => session.phase != .closed)

/-- The id of a client's session. -/
def idOf (s : TunnelHandle) (client : Nat) : Option SessionId :=
  s.clients[client]?.map Session.id

/-- `session_inbox`, for the id of a client's session. -/
def sessionInbox (s : TunnelHandle) (client : Nat) : Option Nat :=
  (s.idOf client).bind s.sessions

end TunnelHandle

inductive Action
  /-- `open_session`: the id is taken. -/
  | fetchAdd
  /-- `open_session`: the inbox is entered. -/
  | insert (client : Nat)
  /-- `close_session`, for the id of the client. -/
  | closeSession (client : Nat)
  /-- A `Data` frame for the session of the client. -/
  | data (client : Nat)
  deriving DecidableEq

def step (s : TunnelHandle) : Action → Option TunnelHandle
  | .fetchAdd =>
    some { s with
      nextSession := s.nextSession + 1
      clients := s.clients ++ [⟨s.nextSession, .reserved⟩] }
  | .insert client =>
    match s.clients[client]? with
    | some ⟨id, .reserved⟩ =>
      some { s with
        sessions := Function.update s.sessions id (some client)
        clients := s.clients.set client ⟨id, .opened⟩ }
    | _ => none
  | .closeSession client =>
    match s.clients[client]? with
    | none => none
    | some ⟨_, .reserved⟩ => none
    | some ⟨id, _⟩ =>
      some { s with
        sessions := Function.update s.sessions id none
        clients := s.clients.set client ⟨id, .closed⟩ }
  -- The agent has heard of the session, and the frame changes nothing here.
  | .data client =>
    match s.clients[client]? with
    | none => none
    | some ⟨_, .reserved⟩ => none
    | some _ => some s

/-- The ids there are. -/
def idCount : Nat := 4294967296

/-- An id that is given out is not the id of an open session, and a frame for a
    client is handed to this client, if to anyone. -/
def Apart (s : TunnelHandle) : Action → Prop
  | .fetchAdd => ∀ client < s.clients.length, s.isOpen client = true →
      s.idOf client ≠ some s.nextSession
  | .data client => ∀ target ∈ s.sessionInbox client, target = client
  | _ => True

/-- Of the sessions that were opened a multiple of `2 ^ 32` opens before, none is open
    when a session is opened. Of those that were opened a multiple of `2 ^ 32` opens
    before or after, none has an inbox when a frame comes for a session. -/
def Outlived (s : TunnelHandle) : Action → Prop
  | .fetchAdd => ∀ client < s.clients.length,
      client % idCount = s.clients.length % idCount → s.isOpen client = false
  | .data client => ∀ other < s.clients.length, other ≠ client →
      other % idCount = client % idCount → s.sessionInbox other ≠ some other
  | _ => True

instance (s : TunnelHandle) : ∀ a, Decidable (Outlived s a)
  | .fetchAdd => inferInstanceAs (Decidable (∀ client < s.clients.length,
      client % idCount = s.clients.length % idCount → s.isOpen client = false))
  | .data client => inferInstanceAs (Decidable (∀ other < s.clients.length, other ≠ client →
      other % idCount = client % idCount → s.sessionInbox other ≠ some other))
  | .insert _ => isTrue trivial
  | .closeSession _ => isTrue trivial

/-- The ids are the numbers of the opens, and an inbox is entered under its id. -/
structure Inv (s : TunnelHandle) : Prop where
  next : s.nextSession = UInt32.ofNat (s.clients.length + 1)
  ids : ∀ client session, s.clients[client]? = some session →
    session.id = UInt32.ofNat (client + 1)
  entered : ∀ id client, s.sessions id = some client → s.idOf client = some id

theorem inv_new : Inv TunnelHandle.new := by
  refine ⟨rfl, fun client session h => ?_, fun id client h => ?_⟩
  · cases h
  · cases h

/-- A session moves on, and only the entry under its id changes. -/
theorem Inv.move (s : TunnelHandle) (h : Inv s) (client : Nat) (id : SessionId)
    (old phase : Phase) (entry : Option Nat) (hat : s.clients[client]? = some ⟨id, old⟩)
    (hentry : entry = none ∨ entry = some client) :
    Inv { s with
      sessions := Function.update s.sessions id entry
      clients := s.clients.set client ⟨id, phase⟩ } := by
  have hlt : client < s.clients.length := (List.getElem?_eq_some_iff.mp hat).1
  have hids : ∀ (other : Nat) (session : Session),
      (s.clients.set client ⟨id, phase⟩)[other]? = some session →
      ∃ before, s.clients[other]? = some before ∧ before.id = session.id := by
    intro other session hother
    by_cases heq : client = other
    · rw [← heq, List.getElem?_set_self hlt, Option.some.injEq] at hother
      exact ⟨⟨id, old⟩, heq ▸ hat, by rw [← hother]⟩
    · rw [List.getElem?_set_ne heq] at hother
      exact ⟨session, hother, rfl⟩
  refine ⟨?_, fun other session hother => ?_, fun other owner howner => ?_⟩
  · show s.nextSession = UInt32.ofNat ((s.clients.set client ⟨id, phase⟩).length + 1)
    rw [List.length_set]
    exact h.next
  · rcases hids other session hother with ⟨before, hbefore, hid⟩
    rw [← hid]
    exact h.ids other before hbefore
  · show ((s.clients.set client ⟨id, phase⟩)[owner]?).map Session.id = some other
    simp only [Function.update_apply] at howner
    split at howner
    next heq =>
      -- The entry that has been written is that of the client.
      have howns : owner = client := by
        rcases hentry with hnone | hsome
        · rw [hnone] at howner
          cases howner
        · rw [hsome, Option.some.injEq] at howner
          exact howner.symm
      rw [howns, List.getElem?_set_self hlt, heq]
      rfl
    next =>
      have hold := h.entered other owner howner
      by_cases heq : client = owner
      · rw [← heq, TunnelHandle.idOf, hat] at hold
        rw [← heq, List.getElem?_set_self hlt]
        exact hold
      · rw [List.getElem?_set_ne heq]
        exact hold

theorem inv_step (s : TunnelHandle) (a : Action) (t : TunnelHandle) (h : Inv s)
    (hstep : step s a = some t) :
    Inv t := by
  cases a with
  | fetchAdd =>
      cases hstep
      refine ⟨?_, fun client session hat => ?_, fun id client hentry => ?_⟩
      · show s.nextSession + 1 = UInt32.ofNat ((s.clients ++ [_]).length + 1)
        rw [List.length_append, UInt32.ofNat_add, h.next]
        rfl
      · by_cases hlt : client < s.clients.length
        · rw [List.getElem?_append_left hlt] at hat
          exact h.ids client session hat
        · rw [List.getElem?_append_right (Nat.le_of_not_lt hlt),
            List.getElem?_singleton] at hat
          split at hat
          next hzero =>
            have hlast : client = s.clients.length := by omega
            rw [Option.some.injEq] at hat
            rw [← hat, hlast]
            exact h.next
          next => cases hat
      · have hold := h.entered id client hentry
        rw [TunnelHandle.idOf, Option.map_eq_some_iff] at hold
        rcases hold with ⟨session, hat, hid⟩
        have hlt : client < s.clients.length := (List.getElem?_eq_some_iff.mp hat).1
        show ((s.clients ++ [_])[client]?).map Session.id = some id
        rw [List.getElem?_append_left hlt, hat, ← hid]
        rfl
  | insert client =>
      simp only [step] at hstep
      split at hstep
      next id hat =>
        cases hstep
        exact h.move s client id .reserved .opened _ hat (.inr rfl)
      next => cases hstep
  | closeSession client =>
      simp only [step] at hstep
      split at hstep
      next => cases hstep
      next => cases hstep
      next id old _ hat =>
        cases hstep
        exact h.move s client id old .closed _ hat (.inl rfl)
  | data client =>
      simp only [step] at hstep
      split at hstep
      next => cases hstep
      next => cases hstep
      next =>
        cases hstep
        exact h

theorem inv_of_run (s : TunnelHandle) (actions : List Action)
    (hrun : exec step .new actions = some s) : Inv s :=
  exec_invariant step Inv inv_step .new s actions inv_new hrun

/-- Two opens have the same id when they are whole rounds apart. -/
theorem sameId_iff (m n : Nat) :
    UInt32.ofNat (m + 1) = UInt32.ofNat (n + 1) ↔ m % idCount = n % idCount := by
  rw [UInt32.ofNat_eq_iff_mod_eq_toNat, UInt32.toNat_ofNat']
  unfold idCount
  omega

/-- A step keeps the sessions apart when it meets no session from a round before. -/
theorem apart_iff_outlived (s : TunnelHandle) (a : Action) (h : Inv s) (t : TunnelHandle)
    (hstep : step s a = some t) : Apart s a ↔ Outlived s a := by
  have hid : ∀ client, client < s.clients.length →
      s.idOf client = some (UInt32.ofNat (client + 1)) := by
    intro client hlt
    rw [TunnelHandle.idOf, List.getElem?_eq_getElem hlt, Option.map_some,
      h.ids client _ (List.getElem?_eq_getElem hlt)]
  cases a with
  | fetchAdd =>
      refine forall_congr' (fun client => forall_congr' (fun hlt => ?_))
      rw [hid client hlt, h.next, ne_eq, Option.some.injEq, sameId_iff, ← Bool.not_eq_true]
      exact imp_not_comm
  | data client =>
      have hlt : client < s.clients.length := by
        simp only [step] at hstep
        split at hstep
        next => cases hstep
        next => cases hstep
        next hat => exact (List.getElem?_eq_some_iff.mp hat).1
      have hinbox : ∀ other, other < s.clients.length →
          s.sessionInbox other = s.sessions (UInt32.ofNat (other + 1)) := by
        intro other hother
        rw [TunnelHandle.sessionInbox, hid other hother, Option.bind_some]
      constructor
      · intro hapart other hother hne hsame howns
        -- The other client has its inbox under the id of this one.
        rw [hinbox other hother, (sameId_iff other client).mpr hsame, ← hinbox client hlt] at howns
        exact hne (hapart other howns)
      · intro houtlived target htarget
        by_contra hne
        rw [Option.mem_def, hinbox client hlt] at htarget
        have hentered := h.entered _ target htarget
        have hlt' : target < s.clients.length := by
          rw [TunnelHandle.idOf, Option.map_eq_some_iff] at hentered
          rcases hentered with ⟨_, hat, _⟩
          exact (List.getElem?_eq_some_iff.mp hat).1
        rw [hid target hlt', Option.some.injEq] at hentered
        refine houtlived target hlt' hne ((sameId_iff target client).mp hentered) ?_
        rw [hinbox target hlt', hentered]
        exact htarget
  | insert client => exact Iff.rfl
  | closeSession client => exact Iff.rfl

/-- A run keeps the sessions of a tunnel apart exactly when no session outlives the
    round of ids that it was opened in. -/
theorem sessions_kept_apart_iff (actions : List Action) (s : TunnelHandle)
    (hrun : exec step .new actions = some s) :
    Along step Apart .new actions ↔ Along step Outlived .new actions :=
  along_iff step Apart Outlived Inv (fun s a t h _ hstep => inv_step s a t h hstep)
    (fun s a t h hstep => apart_iff_outlived s a h t hstep) .new s actions inv_new hrun

/-- Two clients, one of which leaves while the agent still sends for it. -/
def twoClients : List Action :=
  [.fetchAdd, .fetchAdd, .insert 1, .insert 0, .data 0, .closeSession 0, .data 0, .fetchAdd,
    .insert 2, .data 1]

theorem sessions_kept_apart_iff_two : Along step Apart .new twoClients :=
  (sessions_kept_apart_iff twoClients _ rfl).mpr (by decide)

/-- Clients that come and go, one after the other. -/
def turnover : Nat → List Action
  | 0 => []
  | n + 1 => turnover n ++ [.fetchAdd, .insert (n + 1), .closeSession (n + 1)]

/-- A client that stays while the others come and go takes part in nothing they do,
    as long as the ids have not gone round. -/
theorem exec_turnover (n : Nat) (hn : n < idCount) :
    ∃ s, exec step .new ([.fetchAdd, .insert 0] ++ turnover n) = some s ∧
      s.clients.length = n + 1 ∧ s.isOpen 0 = true := by
  induction n with
  | zero => exact ⟨_, rfl, rfl, rfl⟩
  | succ n ih =>
      rcases ih (by omega) with ⟨s, hrun, hlength, hopen⟩
      have hstay : ∀ (l : List Session), (s.clients ++ l)[0]? = s.clients[0]? :=
        fun l => List.getElem?_append_left (by omega)
      refine ⟨{ s with
        nextSession := s.nextSession + 1
        sessions := Function.update (Function.update s.sessions s.nextSession (some (n + 1)))
          s.nextSession none
        clients := s.clients ++ [⟨s.nextSession, .closed⟩] }, ?_, ?_, ?_⟩
      · rw [turnover, ← List.append_assoc, exec_append]
        refine ⟨s, hrun, ?_⟩
        have hlast : ∀ session : Session, (s.clients ++ [session])[n + 1]? = some session :=
          fun session => by rw [← hlength, List.getElem?_concat_length]
        have hset : ∀ session session' : Session,
            (s.clients ++ [session]).set (n + 1) session' = s.clients ++ [session'] :=
          fun session session' => by
            rw [← hlength, List.set_append_right _ _ (Nat.le_refl _), Nat.sub_self,
              List.set_cons_zero]
        simp only [exec, step, hlast, hset]
      · show (s.clients ++ [_]).length = n + 1 + 1
        rw [List.length_append, hlength, List.length_singleton]
      · rw [TunnelHandle.isOpen, hstay]
        exact hopen

/-- A session that is open while `2 ^ 32 - 1` others come and go shares its id with
    the next one. -/
theorem session_id_reused :
    ¬Along step Apart .new ([.fetchAdd, .insert 0] ++ turnover (idCount - 1) ++ [.fetchAdd]) := by
  intro hapart
  rcases exec_turnover (idCount - 1) (by decide) with ⟨s, hrun, hlength, hopen⟩
  have hinv := inv_of_run s _ hrun
  have hlast := (((along_append _ _ _ _ _).mp hapart).2 s hrun).1
  refine hlast 0 (by omega) hopen ?_
  -- The first id was taken from the same place of the counter.
  have hat := List.getElem?_eq_getElem (show 0 < s.clients.length by omega)
  rw [TunnelHandle.idOf, hat, Option.map_some, hinv.ids 0 _ hat, hinv.next, hlength,
    Option.some.injEq, sameId_iff]
  rfl

end Sessions

end Tunnel

end DccMcp
