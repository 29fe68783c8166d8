import DccMcp.Lib.Machine

/-!
# The Eviction Sweep

The relay keeps a row for every tunnel, and a sweep removes the rows whose
last heartbeat is too old. Three parties edit the rows: the handler of an
agent's connection, which puts its row in before it answers the registration
and takes it out when its read loop has ended; the heartbeats that the read
loop records; and the sweep, which first collects the tunnels that look stale
and then removes them one by one.

The handler never looks at its row again, except to record a heartbeat, and
the sweep never looks at the heartbeat again once it has chosen. So a sweep
that chooses a tunnel whose agent is still connected removes the row of a
connection that goes on being served, and a heartbeat that arrives in between
does not save it. `registry_agrees` says that this is the only way: if every
tunnel a sweep finds stale is one whose connection has ended, then rows and
connections agree, and no tunnel with a later heartbeat is removed.

A tunnel id is minted for each connection and is never used again. The sweep's
iterator may look at the rows in any order while others change them. Rows
carry the number of heartbeats recorded, which the program has no use for and
the statement needs.

## Main definitions

* `Handler`, `Sweeper`: The phases of the tasks.
* `State`, `Action`, `step`: The relay.
* `Clean`: What the sweep has to find for the rows to be right.
* `Agrees`: Rows and connections agree.

## Theorems

* `inv_step`: What every clean step keeps.
* `registry_agrees`: Rows and connections agree in every clean run.
-/

namespace DccMcp

namespace Tunnel

namespace Sweep

open Machine

abbrev TunnelId := String

/-- A row of the registry, as far as the sweep reads it. -/
structure TunnelEntry where
  lastHeartbeat : Nat
  beats : Nat
  deriving DecidableEq

/-- Where `handle_agent` is. -/
inductive Handler
  | absent
  | accepting
  | refused
  | serving
  | ended
  | done
  deriving DecidableEq

/-- The handler has not given the connection up. -/
def Handler.connected : Handler → Bool
  | .accepting => true
  | .serving => true
  | _ => false

/-- A tunnel that was found stale, with the heartbeats it had then. -/
structure Candidate where
  tunnelId : TunnelId
  beats : Nat
  deriving DecidableEq

/-- Where `sweep_once` is. -/
inductive Sweeper
  | idle
  | scanning (now : Nat) (stale : List Candidate)
  | removing (stale : List Candidate)
  deriving DecidableEq

/-- The tunnels the sweep has chosen and not yet removed. -/
def Sweeper.chosen : Sweeper → List Candidate
  | .idle => []
  | .scanning _ stale => stale
  | .removing stale => stale

/-- A row the sweep has removed, with the heartbeats it had when it was chosen
    and when it was removed. -/
structure Eviction where
  tunnelId : TunnelId
  beatsWhenChosen : Nat
  beatsWhenRemoved : Nat
  deriving DecidableEq

/-- The relay. -/
structure State where
  clock : Nat
  registry : TunnelId → Option TunnelEntry
  handler : TunnelId → Handler
  sweeper : Sweeper
  evicted : List Eviction

/-- The relay at the start. -/
def init : State := ⟨0, fun _ => none, fun _ => .absent, .idle, []⟩

namespace State

/-- A handler moves on. -/
def setHandler (s : State) (id : TunnelId) (phase : Handler) : State :=
  { s with handler := Function.update s.handler id phase }

/-- A row is written or removed. -/
def setRow (s : State) (id : TunnelId) (row : Option TunnelEntry) : State :=
  { s with registry := Function.update s.registry id row }

/-- The sweep finds a tunnel stale: `age > config.stale_timeout`. -/
def isStale (s : State) (staleTimeout : Nat) (id : TunnelId) : Bool :=
  match s.sweeper, s.registry id with
  | .scanning now _, some entry => staleTimeout < now - entry.lastHeartbeat
  | _, _ => false

end State

/-- One step of one task. -/
inductive Action
  | tick
  | register (id : TunnelId)
  | ackWritten (id : TunnelId)
  | ackFailed (id : TunnelId)
  | refusedRemove (id : TunnelId)
  | heartbeat (id : TunnelId)
  | readEnds (id : TunnelId)
  | endedRemove (id : TunnelId)
  | sweepStart
  | sweepVisit (id : TunnelId)
  | sweepCollected
  | sweepRemove
  | sweepDone
  deriving DecidableEq

/-- What the steps do. -/
def step (staleTimeout : Nat) (s : State) : Action → Option State
  | .tick => some { s with clock := s.clock + 1 }
  -- `accept`: the row is there before the answer is written.
  | .register id =>
    if s.handler id = .absent then
      some ((s.setRow id (some ⟨s.clock, 0⟩)).setHandler id .accepting)
    else none
  | .ackWritten id => if s.handler id = .accepting then some (s.setHandler id .serving) else none
  | .ackFailed id => if s.handler id = .accepting then some (s.setHandler id .refused) else none
  | .refusedRemove id =>
    if s.handler id = .refused then some ((s.setRow id none).setHandler id .done) else none
  -- `read_loop`: `touch`, if the row is there.
  | .heartbeat id =>
    if s.handler id = .serving then
      match s.registry id with
      | some entry => some (s.setRow id (some ⟨s.clock, entry.beats + 1⟩))
      | none => some s
    else none
  | .readEnds id => if s.handler id = .serving then some (s.setHandler id .ended) else none
  | .endedRemove id =>
    if s.handler id = .ended then some ((s.setRow id none).setHandler id .done) else none
  -- `sweep_once`.
  | .sweepStart =>
    match s.sweeper with
    | .idle => some { s with sweeper := .scanning s.clock [] }
    | _ => none
  | .sweepVisit id =>
    match s.sweeper, s.registry id with
    | .scanning now stale, some entry =>
      if staleTimeout < now - entry.lastHeartbeat then
        some { s with sweeper := .scanning now (stale ++ [⟨id, entry.beats⟩]) }
      else some s
    | _, _ => none
  | .sweepCollected =>
    match s.sweeper with
    | .scanning _ stale => some { s with sweeper := .removing stale }
    | _ => none
  | .sweepRemove =>
    match s.sweeper with
    | .removing (candidate :: rest) =>
      match s.registry candidate.tunnelId with
      | some entry =>
        some { s.setRow candidate.tunnelId none with
          sweeper := .removing rest
          evicted := ⟨candidate.tunnelId, candidate.beats, entry.beats⟩ :: s.evicted }
      | none => some { s with sweeper := .removing rest }
    | _ => none
  | .sweepDone =>
    match s.sweeper with
    | .removing [] => some { s with sweeper := .idle }
    | _ => none

/-- The row a step of the sweep looks at. -/
def Action.visited : Action → Option TunnelId
  | .sweepVisit id => some id
  | _ => none

/-- A tunnel that the sweep finds stale is one whose connection has ended. -/
def Clean (staleTimeout : Nat) (s : State) (a : Action) : Prop :=
  ∀ id ∈ a.visited, s.isStale staleTimeout id = true → (s.handler id).connected = false

instance (staleTimeout : Nat) (s : State) (a : Action) : Decidable (Clean staleTimeout s a) :=
  inferInstanceAs (Decidable (∀ id ∈ a.visited,
    s.isStale staleTimeout id = true → (s.handler id).connected = false))

/-- A connection that is served has a row, and no row was removed that had a
    heartbeat after it was chosen. -/
structure Agrees (s : State) : Prop where
  served : ∀ id, s.handler id = .serving → s.registry id ≠ none
  kept : ∀ eviction ∈ s.evicted, eviction.beatsWhenRemoved = eviction.beatsWhenChosen

/-- What clean steps keep. The tunnels that are chosen have no connection, so
    nobody but the sweep changes their rows. -/
structure Inv (s : State) : Prop where
  row : ∀ id, (s.handler id).connected = true → s.registry id ≠ none
  known : ∀ id, s.registry id ≠ none → s.handler id ≠ .absent
  chosen : ∀ c ∈ s.sweeper.chosen, (s.handler c.tunnelId).connected = false ∧
    s.handler c.tunnelId ≠ .absent ∧
    ∀ entry, s.registry c.tunnelId = some entry → entry.beats = c.beats
  kept : ∀ eviction ∈ s.evicted, eviction.beatsWhenRemoved = eviction.beatsWhenChosen

theorem inv_init : Inv init := by
  refine ⟨fun id h => ?_, fun id h => ?_, fun c hc => ?_, fun e he => ?_⟩
  · cases h
  · exact absurd rfl h
  · exact absurd hc List.not_mem_nil
  · exact absurd he List.not_mem_nil

theorem handler_setHandler (s : State) (id other : TunnelId) (phase : Handler) :
    (s.setHandler id phase).handler other = if other = id then phase else s.handler other :=
  Function.update_apply ..

theorem registry_setRow (s : State) (id other : TunnelId) (row : Option TunnelEntry) :
    (s.setRow id row).registry other = if other = id then row else s.registry other :=
  Function.update_apply ..

/-- A handler that moves on, and does not come back to its connection. -/
theorem Inv.move (s : State) (h : Inv s) (id : TunnelId) (phase : Handler)
    (hknown : phase ≠ .absent)
    (hconnected : phase.connected = true → (s.handler id).connected = true) :
    Inv (s.setHandler id phase) := by
  refine ⟨fun other hother => ?_, fun other hother => ?_, fun c hc => ?_, h.kept⟩
  · rw [handler_setHandler] at hother
    split at hother
    next heq =>
      rw [heq]
      exact h.row id (hconnected hother)
    next => exact h.row other hother
  · rw [handler_setHandler]
    split
    · exact hknown
    · exact h.known other hother
  · rcases h.chosen c hc with ⟨hgone, hthere, hbeats⟩
    rw [handler_setHandler]
    refine ⟨?_, ?_, hbeats⟩
    · split
      next heq =>
        -- A tunnel that is chosen has no connection to go on with.
        rw [heq] at hgone
        rw [Bool.eq_false_iff]
        exact fun htrue => Bool.eq_false_iff.mp hgone (hconnected htrue)
      next => exact hgone
    · split
      · exact hknown
      · exact hthere

/-- A row is removed that no connection has. -/
theorem Inv.remove (s : State) (h : Inv s) (id : TunnelId)
    (hgone : (s.handler id).connected = false) : Inv (s.setRow id none) := by
  -- Without a connection nobody misses the row.
  refine ⟨fun other hother => ?_, fun other hother => ?_, fun c hc => ?_, h.kept⟩
  · rw [registry_setRow]
    split
    next heq =>
      rw [heq] at hother
      exact absurd hother (Bool.eq_false_iff.mp hgone)
    next => exact h.row other hother
  · rw [registry_setRow] at hother
    split at hother
    next => exact absurd rfl hother
    next => exact h.known other hother
  · rcases h.chosen c hc with ⟨hgone', hthere, hbeats⟩
    refine ⟨hgone', hthere, fun entry hentry => ?_⟩
    rw [registry_setRow] at hentry
    split at hentry
    next => cases hentry
    next => exact hbeats entry hentry

/-- A new tunnel is not among the chosen ones. -/
theorem Inv.register (s : State) (h : Inv s) (id : TunnelId) (row : TunnelEntry)
    (hnew : s.handler id = .absent) :
    Inv ((s.setRow id (some row)).setHandler id .accepting) := by
  refine ⟨fun other hother => ?_, fun other hother => ?_, fun c hc => ?_, h.kept⟩
  · rw [handler_setHandler] at hother
    show (s.setRow id (some row)).registry other ≠ none
    rw [registry_setRow]
    split at hother
    next heq =>
      rw [if_pos heq]
      exact Option.some_ne_none row
    next hne =>
      rw [if_neg hne]
      exact h.row other hother
  · rw [handler_setHandler]
    split
    next => exact fun heq => by cases heq
    next hne =>
      have hrow : (s.setRow id (some row)).registry other ≠ none := hother
      rw [registry_setRow, if_neg hne] at hrow
      exact h.known other hrow
  · rcases h.chosen c hc with ⟨hgone, hthere, hbeats⟩
    -- A chosen tunnel has been registered before.
    have hne : c.tunnelId ≠ id := fun heq => hthere (heq ▸ hnew)
    rw [handler_setHandler, if_neg hne]
    refine ⟨hgone, hthere, fun entry hentry => ?_⟩
    have hrow : (s.setRow id (some row)).registry c.tunnelId = some entry := hentry
    rw [registry_setRow, if_neg hne] at hrow
    exact hbeats entry hrow

/-- A heartbeat is recorded for a connection, which no chosen tunnel has. -/
theorem Inv.touch (s : State) (h : Inv s) (id : TunnelId) (row : TunnelEntry)
    (hserving : s.handler id = .serving) : Inv (s.setRow id (some row)) := by
  refine ⟨fun other hother => ?_, fun other hother => ?_, fun c hc => ?_, h.kept⟩
  · rw [registry_setRow]
    split
    · exact Option.some_ne_none row
    · exact h.row other hother
  · rw [registry_setRow] at hother
    split at hother
    next heq =>
      have hphase : s.handler other = .serving := heq ▸ hserving
      rw [show (s.setRow id (some row)).handler other = s.handler other from rfl, hphase]
      exact fun habsent => by cases habsent
    next => exact h.known other hother
  · rcases h.chosen c hc with ⟨hgone, hthere, hbeats⟩
    refine ⟨hgone, hthere, fun entry hentry => ?_⟩
    -- A chosen tunnel is not served.
    have hne : c.tunnelId ≠ id := fun heq => by
      rw [heq, hserving] at hgone
      cases hgone
    rw [registry_setRow, if_neg hne] at hentry
    exact hbeats entry hentry

/-- The sweep moves on without touching a row. -/
theorem Inv.sweep (s : State) (h : Inv s) (sweeper : Sweeper)
    (hchosen : ∀ c ∈ sweeper.chosen, c ∈ s.sweeper.chosen) : Inv { s with sweeper } :=
  ⟨h.row, h.known, fun c hc => h.chosen c (hchosen c hc), h.kept⟩

/-- What every clean step keeps. -/
theorem inv_step (staleTimeout : Nat) (s t : State) (a : Action) (h : Inv s)
    (hclean : Clean staleTimeout s a) (hstep : step staleTimeout s a = some t) : Inv t := by
  cases a with
  | tick =>
      cases hstep
      exact ⟨h.row, h.known, h.chosen, h.kept⟩
  | register id =>
      simp only [step, Option.ite_none_right_eq_some, Option.some.injEq] at hstep
      rcases hstep with ⟨hnew, rfl⟩
      exact h.register s id _ hnew
  | ackWritten id =>
      simp only [step, Option.ite_none_right_eq_some, Option.some.injEq] at hstep
      rcases hstep with ⟨hphase, rfl⟩
      exact h.move s id .serving (by decide) (fun _ => by rw [hphase]; rfl)
  | ackFailed id =>
      simp only [step, Option.ite_none_right_eq_some, Option.some.injEq] at hstep
      rcases hstep with ⟨_, rfl⟩
      exact h.move s id .refused (by decide) (fun hconnected => by cases hconnected)
  | refusedRemove id =>
      simp only [step, Option.ite_none_right_eq_some, Option.some.injEq] at hstep
      rcases hstep with ⟨hphase, rfl⟩
      exact (h.remove s id (by rw [hphase]; rfl)).move _ id .done (by decide)
        (fun hconnected => by cases hconnected)
  | heartbeat id =>
      simp only [step, Option.ite_none_right_eq_some] at hstep
      rcases hstep with ⟨hserving, hstep⟩
      split at hstep
      next entry _ =>
        cases hstep
        exact h.touch s id _ hserving
      next =>
        cases hstep
        exact h
  | readEnds id =>
      simp only [step, Option.ite_none_right_eq_some, Option.some.injEq] at hstep
      rcases hstep with ⟨_, rfl⟩
      exact h.move s id .ended (by decide) (fun hconnected => by cases hconnected)
  | endedRemove id =>
      simp only [step, Option.ite_none_right_eq_some, Option.some.injEq] at hstep
      rcases hstep with ⟨hphase, rfl⟩
      exact (h.remove s id (by rw [hphase]; rfl)).move _ id .done (by decide)
        (fun hconnected => by cases hconnected)
  | sweepStart =>
      simp only [step] at hstep
      split at hstep
      next =>
        cases hstep
        exact h.sweep s _ (fun c hc => absurd hc List.not_mem_nil)
      next => cases hstep
  | sweepVisit id =>
      simp only [step] at hstep
      split at hstep
      next now stale entry hsweeper hrow =>
        split at hstep
        next hold =>
          cases hstep
          -- The tunnel that is chosen has no connection, since the step is clean.
          have hstale : s.isStale staleTimeout id = true := by
            rw [State.isStale, hsweeper, hrow]
            exact decide_eq_true hold
          have hgone := hclean id rfl hstale
          refine ⟨h.row, h.known, fun c hc => ?_, h.kept⟩
          rcases List.mem_append.mp hc with hc | hc
          · exact h.chosen c (by rw [hsweeper]; exact hc)
          · rw [List.mem_singleton] at hc
            rw [hc]
            refine ⟨hgone, h.known id (by rw [hrow]; exact Option.some_ne_none entry), ?_⟩
            intro entry' hentry'
            have hsame : some entry = some entry' := hrow.symm.trans hentry'
            rw [Option.some.inj hsame]
        next =>
          cases hstep
          exact h
      next => cases hstep
  | sweepCollected =>
      simp only [step] at hstep
      split at hstep
      next now stale hsweeper =>
        cases hstep
        exact h.sweep s _ (fun c hc => by rw [hsweeper]; exact hc)
      next => cases hstep
  | sweepRemove =>
      simp only [step] at hstep
      split at hstep
      next candidate rest hsweeper =>
        have hmem : candidate ∈ s.sweeper.chosen := by
          rw [hsweeper]
          exact List.mem_cons_self
        have hrest : ∀ c ∈ (Sweeper.removing rest).chosen, c ∈ s.sweeper.chosen := by
          intro c hc
          rw [hsweeper]
          exact List.mem_cons_of_mem candidate hc
        split at hstep
        next entry hrow =>
          cases hstep
          -- Nobody has recorded a heartbeat since it was chosen.
          have hremoved := (h.remove s candidate.tunnelId (h.chosen candidate hmem).1).sweep _
            (.removing rest) hrest
          refine ⟨hremoved.row, hremoved.known, hremoved.chosen, fun eviction he => ?_⟩
          rcases List.mem_cons.mp he with rfl | he
          · exact (h.chosen candidate hmem).2.2 entry hrow
          · exact h.kept eviction he
        next =>
          cases hstep
          exact h.sweep s _ hrest
      next => cases hstep
  | sweepDone =>
      simp only [step] at hstep
      split at hstep
      next =>
        cases hstep
        exact h.sweep s _ (fun c hc => absurd hc List.not_mem_nil)
      next => cases hstep

/-- In a run in which every tunnel that a sweep finds stale is one whose
    connection has ended, no connection is served without its row, and no
    tunnel is removed that had a heartbeat after it was chosen. -/
theorem registry_agrees (staleTimeout : Nat) (as : List Action) (s : State)
    (hclean : Along (step staleTimeout) (Clean staleTimeout) init as)
    (hrun : exec (step staleTimeout) init as = some s) : Agrees s := by
  have h : Inv s := exec_history (step staleTimeout) (Clean staleTimeout) (fun _ => Inv) init
    inv_init (fun _ t a u ht ha hu => inv_step staleTimeout t u a ht ha hu) as s hclean hrun
  exact ⟨fun id hserving => h.row id (by rw [hserving]; rfl), h.kept⟩

/-- A connection ends, and a sweep takes its row before the handler does. -/
def endedThenSwept : List Action :=
  [.register "maya", .ackWritten "maya", .heartbeat "maya", .readEnds "maya", .tick, .tick,
    .sweepStart, .sweepVisit "maya", .sweepCollected, .sweepRemove]

theorem registry_agrees_ended :
    ∃ s, exec (step 1) init endedThenSwept = some s ∧ s.evicted = [⟨"maya", 1, 1⟩] ∧ Agrees s := by
  have hrun : (exec (step 1) init endedThenSwept).map State.evicted = some [⟨"maya", 1, 1⟩] := by
    decide +kernel
  rcases Option.map_eq_some_iff.mp hrun with ⟨s, hs, hevicted⟩
  exact ⟨s, hs, hevicted, registry_agrees 1 endedThenSwept s (by decide +kernel) hs⟩

/-- A sweep chooses a tunnel whose agent is connected and late, and the
    heartbeat comes before the sweep removes the row. -/
def lateHeartbeat : List Action :=
  [.register "maya", .ackWritten "maya", .tick, .tick, .sweepStart, .sweepVisit "maya",
    .sweepCollected, .heartbeat "maya", .sweepRemove]

/-- The row is removed in spite of the heartbeat, and the connection is served
    without a row. -/
theorem registry_disagrees :
    ∃ s, exec (step 1) init lateHeartbeat = some s ∧
      (s.handler "maya" = .serving ∧ s.registry "maya" = none) ∧
      (∃ eviction ∈ s.evicted, eviction.beatsWhenRemoved ≠ eviction.beatsWhenChosen) := by
  have hrun : (exec (step 1) init lateHeartbeat).map (fun s =>
      (s.handler "maya", s.registry "maya", s.evicted)) =
      some (.serving, none, [⟨"maya", 0, 1⟩]) := by
    decide +kernel
  rcases Option.map_eq_some_iff.mp hrun with ⟨s, hs, hstate⟩
  rw [Prod.mk.injEq, Prod.mk.injEq] at hstate
  refine ⟨s, hs, ⟨hstate.1, hstate.2.1⟩, ⟨"maya", 0, 1⟩, ?_, by decide⟩
  rw [hstate.2.2]
  exact List.mem_singleton.mpr rfl

end Sweep

end Tunnel

end DccMcp
