import DccMcp.Lib.Machine
import DccMcp.Lib.Threads
import DccMcp.Tunnel.Codec
import Mathlib.Data.List.Nodup

/-!
# The Cap on Tunnels

How many agents the relay lets in.

A registration is checked, counted against the cap, and only then put into
the registry. The count and the insertion are two steps of one handler among
many, and the count is itself not one step: the registry is a sharded map
whose length is the sum of the lengths of its shards, read one after another.
So two handlers can count the same free slot. `cap_kept` says that this is the
only way over the cap: a registration that passes while those that have passed
before it and are not in the registry yet would fill it up.

## Main definitions

* `Relay`, `checkRequest`: The configuration and the checks of a request.
* `Phase`, `State`, `Action`, `step`: The handlers of the connections.
* `passes`, `Clean`: A registration is let through, and there is room for it.

## Theorems

* `within_step`: What a clean step keeps.
* `cap_kept`: The cap is kept in every clean run.
-/

namespace DccMcp

namespace Tunnel

namespace Capacity

open Machine
open Threads (countP_move getElem?_move)

/-- The claims of a token, as far as a registration looks at them. -/
structure Claims where
  allowedDcc : List String
  deriving DecidableEq

/-- `RelayConfig`, with the token check and the way the registry spreads its
    rows over its shards. -/
structure Relay where
  maxTunnels : Nat
  validate : String → Option Claims
  shards : Nat
  shardOf : TunnelId → Nat
  shardOf_lt : ∀ id, shardOf id < shards

/-- `PROTOCOL_VERSION`. -/
def protocolVersion : UInt16 := 2

/-- The checks `accept` makes before it looks at the registry. -/
def checkRequest (relay : Relay) (req : RegisterRequest) : Option ErrorCode :=
  if req.protocolVersion ≠ protocolVersion then some .protocolMismatch
  else match relay.validate req.token with
    | none => some .authFailed
    | some claims =>
      if claims.allowedDcc ≠ [] ∧ req.dcc ∉ claims.allowedDcc then some .dccNotAllowed else none

/-- Where the handler of a connection is. -/
inductive Phase
  | connected
  | counting (next seen : Nat)
  | admitted
  | acknowledging (id : TunnelId)
  | serving (id : TunnelId)
  | ended (id : TunnelId)
  | closed (rejection : Option ErrorCode)
  deriving DecidableEq

/-- The registration has passed and is not in the registry yet. -/
def Phase.isAdmitted : Phase → Bool
  | .admitted => true
  | _ => false

/-- The registry and the connections of the relay. -/
structure State where
  rows : List TunnelId
  conns : List Phase
  deriving DecidableEq

/-- The relay at the start. -/
def init : State := ⟨[], []⟩

namespace State

/-- The handler of a connection moves on. -/
def move (s : State) (c : Nat) (phase : Phase) : State := { s with conns := s.conns.set c phase }

/-- `TunnelRegistry::insert`. -/
def insertRow (s : State) (id : TunnelId) : State := { s with rows := s.rows.insert id }

/-- `TunnelRegistry::remove`. -/
def removeRow (s : State) (id : TunnelId) : State := { s with rows := s.rows.filter (· ≠ id) }

/-- The registrations that have passed and are not in the registry yet. -/
def admitted (s : State) : Nat := s.conns.countP Phase.isAdmitted

end State

/-- One step of one handler, or of the sweep. -/
inductive Action
  | connect
  | register (c : Nat) (req : RegisterRequest)
  | countShard (c : Nat)
  | compare (c : Nat)
  | insert (c : Nat) (id : TunnelId)
  | ackWritten (c : Nat) (ok : Bool)
  | readEnds (c : Nat)
  | remove (c : Nat)
  | evict (id : TunnelId)

/-- What the steps do. -/
def step (relay : Relay) (s : State) : Action → Option State
  | .connect => some { s with conns := s.conns ++ [.connected] }
  -- `accept`: a cap of zero is none, and the registry is not counted.
  | .register c req =>
    match s.conns[c]? with
    | some .connected =>
      match checkRequest relay req with
      | some code => some (s.move c (.closed (some code)))
      | none => some (s.move c (if relay.maxTunnels = 0 then .admitted else .counting 0 0))
    | _ => none
  -- `registry.len()`, one shard at a time.
  | .countShard c =>
    match s.conns[c]? with
    | some (.counting next seen) =>
      if next < relay.shards then
        some (s.move c (.counting (next + 1)
          (seen + s.rows.countP (fun id => relay.shardOf id = next))))
      else none
    | _ => none
  | .compare c =>
    match s.conns[c]? with
    | some (.counting next seen) =>
      if next = relay.shards then
        some (s.move c (if relay.maxTunnels ≤ seen then .closed (some .internal) else .admitted))
      else none
    | _ => none
  | .insert c id =>
    match s.conns[c]? with
    | some .admitted => some ((s.insertRow id).move c (.acknowledging id))
    | _ => none
  -- A connection whose acknowledgement cannot be written is taken out again.
  | .ackWritten c ok =>
    match s.conns[c]? with
    | some (.acknowledging id) =>
      if ok then some (s.move c (.serving id)) else some ((s.removeRow id).move c (.closed none))
    | _ => none
  | .readEnds c =>
    match s.conns[c]? with
    | some (.serving id) => some (s.move c (.ended id))
    | _ => none
  | .remove c =>
    match s.conns[c]? with
    | some (.ended id) => some ((s.removeRow id).move c (.closed none))
    | _ => none
  | .evict id => some (s.removeRow id)

/-- The step lets a registration through. -/
def passes (relay : Relay) (s : State) : Action → Bool
  | .register c req =>
    s.conns[c]? = some .connected && checkRequest relay req = none && relay.maxTunnels = 0
  | .compare c =>
    match s.conns[c]? with
    | some (.counting next seen) => next = relay.shards && seen < relay.maxTunnels
    | _ => false
  | _ => false

/-- A registration that is let through has a slot that no other one has. -/
def Clean (relay : Relay) (s : State) (a : Action) : Prop :=
  passes relay s a = true → s.rows.length + s.admitted < relay.maxTunnels

instance (relay : Relay) (s : State) (a : Action) : Decidable (Clean relay s a) :=
  inferInstanceAs (Decidable (_ → _))

/-! ## What a step can do -/

/-- What one handler can do: the phase it is in, the phase it goes to, and the
    rows afterwards. -/
inductive Move (relay : Relay) (s : State) (c : Nat) :
    Action → Phase → Phase → List TunnelId → Prop
  | rejected (req : RegisterRequest) (code : ErrorCode) :
      Move relay s c (.register c req) .connected (.closed (some code)) s.rows
  | uncapped (req : RegisterRequest) (hchecked : checkRequest relay req = none)
      (hnone : relay.maxTunnels = 0) :
      Move relay s c (.register c req) .connected .admitted s.rows
  | begun (req : RegisterRequest) (hcap : relay.maxTunnels ≠ 0) :
      Move relay s c (.register c req) .connected (.counting 0 0) s.rows
  | counted (next seen : Nat) (hnext : next < relay.shards) :
      Move relay s c (.countShard c) (.counting next seen) (.counting (next + 1)
        (seen + s.rows.countP (fun id => relay.shardOf id = next))) s.rows
  | full (seen : Nat) :
      Move relay s c (.compare c) (.counting relay.shards seen) (.closed (some .internal)) s.rows
  | passed (seen : Nat) (hseen : seen < relay.maxTunnels) :
      Move relay s c (.compare c) (.counting relay.shards seen) .admitted s.rows
  | inserted (id : TunnelId) :
      Move relay s c (.insert c id) .admitted (.acknowledging id) (s.rows.insert id)
  | acknowledged (id : TunnelId) :
      Move relay s c (.ackWritten c true) (.acknowledging id) (.serving id) s.rows
  | unacknowledged (id : TunnelId) :
      Move relay s c (.ackWritten c false) (.acknowledging id) (.closed none)
        (s.rows.filter (· ≠ id))
  | readEnded (id : TunnelId) : Move relay s c (.readEnds c) (.serving id) (.ended id) s.rows
  | removed (id : TunnelId) :
      Move relay s c (.remove c) (.ended id) (.closed none) (s.rows.filter (· ≠ id))

/-- Everything a step can do. -/
inductive Moves (relay : Relay) (s : State) : Action → State → Prop
  | connected : Moves relay s .connect { s with conns := s.conns ++ [.connected] }
  | evicted (id : TunnelId) : Moves relay s (.evict id) (s.removeRow id)
  | handler (a : Action) (c : Nat) (old new : Phase) (rows : List TunnelId)
      (hold : s.conns[c]? = some old) (hmove : Move relay s c a old new rows) :
      Moves relay s a ⟨rows, s.conns.set c new⟩

theorem moves_of_step (relay : Relay) (s t : State) (a : Action) (h : step relay s a = some t) :
    Moves relay s a t := by
  -- One case for each action, and the phase its handler has to be in.
  cases a with
  | connect =>
      rw [← Option.some.inj h]
      exact .connected
  | evict id =>
      rw [← Option.some.inj h]
      exact .evicted id
  | register c req =>
      simp only [step] at h
      split at h
      next hold =>
        split at h
        next code _ =>
          rw [← Option.some.inj h]
          exact .handler _ c _ _ _ hold (.rejected req code)
        next hchecked =>
          rw [← Option.some.inj h]
          split
          next hnone => exact .handler _ c _ _ _ hold (.uncapped req hchecked hnone)
          next hcap => exact .handler _ c _ _ _ hold (.begun req hcap)
      next => simp at h
  | countShard c =>
      simp only [step] at h
      split at h
      next next seen hold =>
        split at h
        next hnext =>
          rw [← Option.some.inj h]
          exact .handler _ c _ _ _ hold (.counted next seen hnext)
        next => simp at h
      next => simp at h
  | compare c =>
      simp only [step] at h
      split at h
      next next seen hold =>
        split at h
        next hnext =>
          rw [hnext] at hold
          rw [← Option.some.inj h]
          split
          next => exact .handler _ c _ _ _ hold (.full seen)
          next hseen => exact .handler _ c _ _ _ hold (.passed seen (Nat.not_le.mp hseen))
        next => simp at h
      next => simp at h
  | insert c id =>
      simp only [step] at h
      split at h
      next hold =>
        rw [← Option.some.inj h]
        exact .handler _ c _ _ _ hold (.inserted id)
      next => simp at h
  | ackWritten c ok =>
      simp only [step] at h
      split at h
      next id hold =>
        cases ok with
        | true =>
            rw [if_pos rfl] at h
            rw [← Option.some.inj h]
            exact .handler _ c _ _ _ hold (.acknowledged id)
        | false =>
            rw [if_neg Bool.false_ne_true] at h
            rw [← Option.some.inj h]
            exact .handler _ c _ _ _ hold (.unacknowledged id)
      next => simp at h
  | readEnds c =>
      simp only [step] at h
      split at h
      next id hold =>
        rw [← Option.some.inj h]
        exact .handler _ c _ _ _ hold (.readEnded id)
      next => simp at h
  | remove c =>
      simp only [step] at h
      split at h
      next id hold =>
        rw [← Option.some.inj h]
        exact .handler _ c _ _ _ hold (.removed id)
      next => simp at h

/-! ## The cap -/

/-- The rows and the registrations that have passed are within the cap. -/
def Within (relay : Relay) (s : State) : Prop :=
  s.rows.length + s.admitted ≤ relay.maxTunnels

theorem length_insert_le (id : TunnelId) (rows : List TunnelId) :
    (rows.insert id).length ≤ rows.length + 1 := by
  by_cases h : id ∈ rows
  · rw [List.insert_of_mem h]
    exact Nat.le_succ _
  · rw [List.insert_of_not_mem h, List.length_cons]

theorem within_step (relay : Relay) (s t : State) (a : Action) (h : Within relay s)
    (hclean : Clean relay s a) (hstep : step relay s a = some t) : Within relay t := by
  unfold Within State.admitted at h ⊢
  cases moves_of_step relay s t a hstep with
  | connected =>
      rw [List.countP_append]
      exact h
  | evicted id => exact Nat.le_trans (Nat.add_le_add_right (List.length_filter_le _ _) _) h
  | handler _ c old new rows hold hmove =>
      have hcount := countP_move Phase.isAdmitted s.conns c old new hold
      unfold Clean State.admitted at hclean
      dsimp only
      cases hmove with
      | uncapped req hchecked hnone =>
          -- A slot that is let through has to be free.
          have hroom := hclean (by
            simp [passes, hold, hchecked, hnone])
          simp only [Phase.isAdmitted, Bool.toNat_false, Bool.toNat_true] at hcount
          omega
      | passed seen hseen =>
          have hroom := hclean (by
            simp [passes, hold, hseen])
          simp only [Phase.isAdmitted, Bool.toNat_false, Bool.toNat_true] at hcount
          omega
      | inserted id =>
          have hrows := length_insert_le id s.rows
          simp only [Phase.isAdmitted, Bool.toNat_false, Bool.toNat_true] at hcount
          omega
      | unacknowledged id | removed id =>
          have hrows := List.length_filter_le (fun x => decide (x ≠ id)) s.rows
          simp only [Phase.isAdmitted, Bool.toNat_false] at hcount
          omega
      | rejected | begun | counted | full | acknowledged | readEnded =>
          simp only [Phase.isAdmitted, Bool.toNat_false] at hcount
          omega

/-- In every run in which a registration is let through only while there is a
    slot for it that no other registration was let through for, there are
    never more tunnels than the cap. -/
theorem cap_kept (relay : Relay) (as : List Action) (s : State)
    (hclean : Along (step relay) (Clean relay) init as)
    (hrun : exec (step relay) init as = some s) : s.rows.length ≤ relay.maxTunnels := by
  have h : Within relay s := exec_history (step relay) (Clean relay) (fun _ => Within relay) init
    (Nat.zero_le _) (fun _ t a u ht ha hu => within_step relay t u a ht ha hu) as s hclean hrun
  exact Nat.le_trans (Nat.le_add_right _ _) h

/-- A relay with one slot, whose registry has one shard. -/
def oneSlot : Relay where
  maxTunnels := 1
  validate _ := some ⟨[]⟩
  shards := 1
  shardOf _ := 0
  shardOf_lt _ := Nat.zero_lt_one

/-- The registration of an agent of one application. -/
def registration (dcc : String) : RegisterRequest :=
  ⟨2, "token", dcc, [], "dcc-mcp-tunnel-agent/0.1", none, none, none, none⟩

/-- The second agent registers when the first one is in the registry. -/
def oneAfterAnother : List Action :=
  [.connect, .connect, .register 0 (registration "maya"), .countShard 0, .compare 0,
    .insert 0 "a", .ackWritten 0 true, .register 1 (registration "houdini"), .countShard 1,
    .compare 1]

theorem cap_kept_refused :
    ∃ s, exec (step oneSlot) init oneAfterAnother = some s ∧
      s.conns = [.serving "a", .closed (some .internal)] ∧ s.rows.length ≤ 1 := by
  have hrun : exec (step oneSlot) init oneAfterAnother =
      some ⟨["a"], [.serving "a", .closed (some .internal)]⟩ := by decide +kernel
  exact ⟨_, hrun, rfl, cap_kept oneSlot oneAfterAnother _ (by decide +kernel) hrun⟩

/-- Both agents count before either of them is in the registry. -/
def bothAtOnce : List Action :=
  [.connect, .connect, .register 0 (registration "maya"), .register 1 (registration "houdini"),
    .countShard 0, .countShard 1, .compare 0, .compare 1, .insert 0 "a", .insert 1 "b"]

/-- Two agents get the one slot. -/
theorem cap_exceeded :
    ∃ s, exec (step oneSlot) init bothAtOnce = some s ∧ oneSlot.maxTunnels < s.rows.length := by
  have hrun : exec (step oneSlot) init bothAtOnce =
      some ⟨["b", "a"], [.acknowledging "a", .acknowledging "b"]⟩ := by decide +kernel
  exact ⟨_, hrun, by decide⟩

end Capacity

end Tunnel

end DccMcp
