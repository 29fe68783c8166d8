import DccMcp.Gateway.Subscriber
import DccMcp.Lib.Machine

/-!
# Subscriptions of many Sessions

The routing table of resource subscriptions has a set of routes for each
resource of a backend, and the sets of all resources are kept in shards with a
lock each. Sessions bind, unbind and are forgotten at the same time.

A bind holds the shard of its resource exclusively, so it is one step. An
unbind takes its route out under a shared guard, looks whether the set is
empty, gives the guard back, and then removes the resource from the table. A
forgotten session is taken out of one set after the other, and the resources
whose sets became empty are removed at the end. In both cases a bind of another
session can come between the look and the removal. It puts its route into the
set that was found empty, and the removal throws the set away with the route.
The session is told that it is subscribed, the backend is told that nobody is,
and no notification arrives any more.

Every route belongs to one session, and a session has one call at a time. So
whether a route is due depends on the calls of its session only, and all there
is to ask of the calls of the others is that a removal finds the set it removes
still empty.

## Main definitions

* `bindResourceSubscription`, `removeRoute`, `clearSession`: What the calls do
  to the table.
* `Place`, `State`, `step`: Where the calls are, and their steps.
* `Due`: What a session has bound and not given up.
* `Exact`, `Honest`: What is asked of every state.
* `Harmless`: The condition on a step.

## Theorems

* `exact_of_harmless`: No subscription is lost when removals are harmless.
* `bind_between_look_and_removal`: A subscription that is lost.
-/

namespace DccMcp

namespace Gateway

namespace Subscriptions

open Machine

/-! ## The calls -/

/-- A resource: the URL of its backend and its URI there. -/
abbrev ResourceKey := String ×ₗ String

abbrev Table := OrderedMap ResourceKey (List ResourceSubscriberRoute)

/-- The routes of a resource. -/
def stored (table : Table) (key : ResourceKey) : List ResourceSubscriberRoute :=
  (table.lookup key).getD []

/-- `bind_resource_subscription`, with whether the route is new. -/
def bindResourceSubscription (table : Table) (key : ResourceKey)
    (route : ResourceSubscriberRoute) : Bool × Table :=
  let routes := stored table key
  if route ∈ routes then (false, table.insert key routes)
  else (true, table.insert key (routes ++ [route]))

/-- The sharding of the table. -/
structure Sharding where
  shards : Nat
  shardOf : ResourceKey → Fin shards

inductive Call
  | bind (key : ResourceKey) (clientUri : String)
  | unbind (key : ResourceKey) (clientUri : String)
  | forget
  deriving DecidableEq

/-- Where a call is that has not returned. -/
inductive Place (o : Sharding)
  /-- An unbind has taken its route out, and is about to look at the set. -/
  | looking (key : ResourceKey)
  /-- An unbind has found the set empty, and is about to remove the resource. -/
  | removing (key : ResourceKey)
  /-- A forget is in a shard, and about to take its routes out of the next set. -/
  | clearing (shard : Fin o.shards) (keys : List ResourceKey) (shards : List (Fin o.shards))
      (dropKeys : List ResourceKey)
  /-- A forget has taken its routes out of a set, and is about to look at it. -/
  | sizing (shard : Fin o.shards) (key : ResourceKey) (removed : Bool) (keys : List ResourceKey)
      (shards : List (Fin o.shards)) (dropKeys : List ResourceKey)
  /-- A forget is about to remove the next resource. -/
  | dropping (keys emptied : List ResourceKey)

/-- The shard a call has a shared guard of. -/
def Place.guard (o : Sharding) : Place o → Option (Fin o.shards)
  | .looking key => some (o.shardOf key)
  | .clearing shard _ _ _ => some shard
  | .sizing shard _ _ _ _ _ => some shard
  | _ => none

/-- What an unbind has returned, with the calls that had begun by then. -/
structure Report where
  session : String
  key : ResourceKey
  empty : Bool
  history : List (String × Call)

/-- The table, the calls that have not returned, the calls that have begun, and
    what was returned. -/
structure State (o : Sharding) where
  table : Table
  running : OrderedMap String (Place o)
  history : List (String × Call)
  reports : List Report
  emptied : List (String × List ResourceKey)

def init (o : Sharding) : State o :=
  ⟨OrderedMap.empty _ _, OrderedMap.empty _ _, [], [], []⟩

inductive Action
  /-- A session without a call makes one. -/
  | call (session : String) (call : Call)
  /-- The call of a session takes its next step. -/
  | advance (session : String)

variable (o : Sharding)

/-- Nobody has a guard of a shard, so that it can be taken exclusively. -/
def State.free (s : State o) (shard : Fin o.shards) : Bool :=
  s.running.entries.all (fun e => e.2.guard o ≠ some shard)

/-- `set.remove`. -/
def removeRoute (route : ResourceSubscriberRoute) (routes : List ResourceSubscriberRoute) :
    List ResourceSubscriberRoute :=
  routes.filter (fun other => other ≠ route)

/-- `set.remove` of every route in `to_remove`. -/
def clearSession (session : String) (routes : List ResourceSubscriberRoute) :
    List ResourceSubscriberRoute :=
  routes.filter (fun route => route.clientSessionId ≠ session)

/-- `unbind_resource_subscription`, when nothing comes between its steps. -/
def unbindResourceSubscription (table : Table) (key : ResourceKey)
    (route : ResourceSubscriberRoute) : Bool × Table :=
  match table.lookup key with
  | none => (false, table)
  | some routes =>
    let rest := removeRoute route routes
    if rest.isEmpty then (true, table.erase key) else (false, table.insert key rest)

/-- The resources of a shard. -/
def keysOf (table : Table) (shard : Fin o.shards) : List ResourceKey :=
  (table.entries.map Prod.fst).filter (fun key => o.shardOf key = shard)

/-- A session goes on to another place. -/
def State.goto (s : State o) (session : String) (place : Place o) : State o :=
  { s with running := s.running.insert session place }

/-- The unbind of a session returns. -/
def State.answer (s : State o) (session : String) (key : ResourceKey) (empty : Bool) : State o :=
  { s with
    running := s.running.erase session
    reports := s.reports ++ [⟨session, key, empty, s.history⟩] }

/-- The iteration goes on to the next shard, and gives the guard of the one
    before back. After the last shard the resources that are empty are removed. -/
def State.enter (s : State o) (session : String) (dropKeys : List ResourceKey) :
    List (Fin o.shards) → State o
  | [] => s.goto o session (.dropping dropKeys dropKeys)
  | shard :: shards => s.goto o session (.clearing shard (keysOf o s.table shard) shards dropKeys)

/-- A session makes a call. -/
def begin (s : State o) (session : String) : Call → Option (State o)
  | .bind key clientUri =>
    if s.free o (o.shardOf key) then
      some { s with table := (bindResourceSubscription s.table key ⟨session, clientUri⟩).2 }
    else none
  | .unbind key clientUri =>
    match s.table.lookup key with
    | none => some (s.answer o session key false)
    | some routes =>
      some (State.goto o
        { s with table := s.table.insert key (removeRoute ⟨session, clientUri⟩ routes) }
        session (.looking key))
  | .forget => some (s.enter o session [] (List.finRange o.shards))

/-- The next step of `unbind_resource_subscription` or of
    `forget_client_resource_subs`. -/
def advance (s : State o) (session : String) : Place o → Option (State o)
  | .looking key =>
    some (if (stored s.table key).isEmpty then s.goto o session (.removing key)
      else s.answer o session key false)
  | .removing key =>
    if s.free o (o.shardOf key) then
      some (State.answer o { s with table := s.table.erase key } session key true)
    else none
  | .clearing _ [] shards dropKeys => some (s.enter o session dropKeys shards)
  | .clearing shard (key :: keys) shards dropKeys =>
    let routes := stored s.table key
    let removed := routes.any (fun route => route.clientSessionId = session)
    some (State.goto o
      { s with table := s.table.modify key (clearSession session) }
      session (.sizing shard key removed keys shards dropKeys))
  | .sizing shard key removed keys shards dropKeys =>
    let dropKeys :=
      if (stored s.table key).isEmpty && removed then dropKeys ++ [key] else dropKeys
    some (s.goto o session (.clearing shard keys shards dropKeys))
  | .dropping [] emptied =>
    some { s with
      running := s.running.erase session
      emptied := s.emptied ++ [(session, emptied)] }
  | .dropping (key :: keys) emptied =>
    if s.free o (o.shardOf key) then
      some (State.goto o { s with table := s.table.erase key } session (.dropping keys emptied))
    else none

def step (s : State o) : Action → Option (State o)
  | .call session call =>
    match s.running.lookup session with
    | some _ => none
    | none => begin o { s with history := s.history ++ [(session, call)] } session call
  | .advance session =>
    match s.running.lookup session with
    | some place => advance o s session place
    | none => none

/-! ## What is asked -/

/-- A route was bound, and not later unbound or forgotten by its session. -/
def Due (history : List (String × Call)) (key : ResourceKey) (route : ResourceSubscriberRoute) :
    Prop :=
  ∃ before after,
    history = before ++ (route.clientSessionId, .bind key route.clientUri) :: after ∧
      (route.clientSessionId, .unbind key route.clientUri) ∉ after ∧
        (route.clientSessionId, .forget) ∉ after

/-- When all calls have returned, the table has exactly the routes that are due. -/
def Exact (s : State o) : Prop :=
  s.running.entries = [] → ∀ key route, route ∈ stored s.table key ↔ Due s.history key route

/-- An unbind reports that a resource has no subscriber only if no other session
    is subscribed. -/
def Honest (s : State o) : Prop :=
  ∀ report ∈ s.reports, report.empty = true → ∀ route,
    route.clientSessionId ≠ report.session → ¬Due report.history report.key route

/-- The resource a call is about to remove. -/
def Place.removes : Place o → Option ResourceKey
  | .removing key => some key
  | .dropping (key :: _) _ => some key
  | _ => none

/-- A resource is removed while it has no routes. -/
def Harmless (s : State o) : Action → Prop
  | .call _ _ => True
  | .advance session =>
    ∀ key ∈ (s.running.lookup session).bind (Place.removes o), stored s.table key = []

instance (s : State o) : ∀ a : Action, Decidable (Harmless o s a)
  | .call _ _ => inferInstanceAs (Decidable True)
  | .advance session =>
    inferInstanceAs (Decidable (∀ key ∈ (s.running.lookup session).bind (Place.removes o),
      stored s.table key = []))

/-! ## What is due -/

/-- What one more call makes of the routes that are due. -/
theorem due_snoc (history : List (String × Call)) (session : String) (call : Call)
    (key : ResourceKey) (route : ResourceSubscriberRoute) :
    Due (history ++ [(session, call)]) key route ↔
      (session = route.clientSessionId ∧ call = .bind key route.clientUri) ∨
        (Due history key route ∧
          ¬(session = route.clientSessionId ∧
            (call = .unbind key route.clientUri ∨ call = .forget))) := by
  constructor
  · rintro ⟨before, after, hsplit, hunbind, hforget⟩
    -- The bind is the new call, or it was there before.
    rcases List.eq_nil_or_concat after with rfl | ⟨front, last, rfl⟩
    · have hlast := (List.append_inj' hsplit rfl).2
      rw [List.singleton_inj, Prod.mk.injEq] at hlast
      exact .inl hlast
    · rw [List.concat_eq_append, ← List.cons_append, ← List.append_assoc] at hsplit
      rcases List.append_inj' hsplit rfl with ⟨hfront, hlast⟩
      rw [List.singleton_inj] at hlast
      rw [List.concat_eq_append, List.mem_append, List.mem_singleton, ← hlast, not_or]
        at hunbind hforget
      refine .inr ⟨⟨before, front, hfront, hunbind.1, hforget.1⟩, ?_⟩
      rintro ⟨hsession, hcall | hcall⟩
      · exact hunbind.2 (by rw [hsession, hcall])
      · exact hforget.2 (by rw [hsession, hcall])
  · rintro (⟨hsession, hcall⟩ | ⟨⟨before, after, hsplit, hunbind, hforget⟩, hother⟩)
    · refine ⟨history, [], by rw [hsession, hcall], List.not_mem_nil, List.not_mem_nil⟩
    · refine ⟨before, after ++ [(session, call)], ?_, ?_, ?_⟩
      · rw [hsplit, List.append_assoc, List.cons_append]
      · rw [List.mem_append, List.mem_singleton, Prod.mk.injEq, not_or]
        exact ⟨hunbind, fun heq => hother ⟨heq.1.symm, .inl heq.2.symm⟩⟩
      · rw [List.mem_append, List.mem_singleton, Prod.mk.injEq, not_or]
        exact ⟨hforget, fun heq => hother ⟨heq.1.symm, .inr heq.2.symm⟩⟩

/-! ## What is stored -/

variable (table : Table)

theorem mem_stored_insert (key key' : ResourceKey) (routes : List ResourceSubscriberRoute)
    (route : ResourceSubscriberRoute) :
    route ∈ stored (table.insert key routes) key' ↔
      if key' = key then route ∈ routes else route ∈ stored table key' := by
  unfold stored
  by_cases hkey : key' = key
  · rw [hkey, OrderedMap.lookup_insert, if_pos rfl, Option.getD_some]
  · rw [OrderedMap.lookup_insert_ne _ _ _ _ hkey, if_neg hkey]

theorem mem_stored_bind (key key' : ResourceKey) (route route' : ResourceSubscriberRoute) :
    route' ∈ stored (bindResourceSubscription table key route).2 key' ↔
      (key' = key ∧ route' = route) ∨ route' ∈ stored table key' := by
  unfold bindResourceSubscription
  dsimp only
  by_cases hkey : key' = key
  · subst hkey
    by_cases hmem : route ∈ stored table key'
    · rw [if_pos hmem, mem_stored_insert, if_pos rfl]
      refine ⟨.inr, fun h => h.elim (fun heq => ?_) id⟩
      rw [heq.2]
      exact hmem
    · rw [if_neg hmem, mem_stored_insert, if_pos rfl, List.mem_append, List.mem_singleton, or_comm]
      simp
  · have hsame : ∀ routes, route' ∈ stored (table.insert key routes) key' ↔
        route' ∈ stored table key' := fun routes => by rw [mem_stored_insert, if_neg hkey]
    by_cases hmem : route ∈ stored table key
    · rw [if_pos hmem, hsame]
      simp [hkey]
    · rw [if_neg hmem, hsame]
      simp [hkey]

/-- The routes of a set that an unbind has taken its route out of. -/
theorem mem_stored_remove (key key' : ResourceKey) (route route' : ResourceSubscriberRoute)
    (routes : List ResourceSubscriberRoute)
    (hroutes : table.lookup key = some routes) :
    route' ∈ stored (table.insert key (removeRoute route routes)) key' ↔
      route' ∈ stored table key' ∧ ¬(key' = key ∧ route' = route) := by
  rw [mem_stored_insert, removeRoute, List.mem_filter, decide_eq_true_eq]
  by_cases hkey : key' = key
  · rw [if_pos hkey, hkey, stored, hroutes, Option.getD_some]
    simp
  · rw [if_neg hkey]
    simp [hkey]

theorem mem_stored_clear (key key' : ResourceKey) (session : String)
    (route : ResourceSubscriberRoute) :
    route ∈ stored (table.modify key (clearSession session)) key' ↔
      route ∈ stored table key' ∧ ¬(key' = key ∧ route.clientSessionId = session) := by
  unfold stored
  rw [OrderedMap.lookup_modify]
  by_cases hkey : key' = key
  · subst hkey
    rw [if_pos rfl]
    cases table.lookup key' with
    | none => simp only [Option.map_none, Option.getD_none, List.not_mem_nil, false_and]
    | some routes =>
        rw [Option.map_some, Option.getD_some, Option.getD_some, clearSession, List.mem_filter,
          decide_eq_true_eq]
        simp
  · rw [if_neg hkey]
    simp [hkey]

/-- Removing a resource without routes leaves all routes where they are. -/
theorem stored_erase (key key' : ResourceKey) (h : stored table key = []) :
    stored (table.erase key) key' = stored table key' := by
  unfold stored at *
  rw [OrderedMap.lookup_erase]
  split
  next hkey => rw [hkey, h, Option.getD_none]
  next => rfl

/-- A resource with a route is met in its shard. -/
theorem mem_keysOf (key : ResourceKey) (route : ResourceSubscriberRoute)
    (h : route ∈ stored table key) : key ∈ keysOf o table (o.shardOf key) := by
  unfold stored at h
  cases hlookup : table.lookup key with
  | none =>
      rw [hlookup, Option.getD_none] at h
      exact absurd h List.not_mem_nil
  | some routes =>
      refine List.mem_filter.mpr ⟨List.mem_map.mpr ⟨(key, routes), ?_, rfl⟩, decide_eq_true rfl⟩
      exact OrderedMap.mem_entries table key routes hlookup

/-! ## The invariant -/

/-- The resources a forget has still to look through. -/
def Place.covers : Place o → ResourceKey → Prop
  | .clearing _ keys shards _, key => key ∈ keys ∨ o.shardOf key ∈ shards
  | .sizing _ _ _ keys shards _, key => key ∈ keys ∨ o.shardOf key ∈ shards
  | _, _ => False

/-- The call is a forget. -/
def Place.forgets : Place o → Prop
  | .looking _ => False
  | .removing _ => False
  | _ => True

/-- What is due is stored, what is stored is due or will be met by the forget
    of its session, and nothing is due of a session that is being forgotten. -/
structure Kept (s : State o) : Prop where
  due : ∀ key route, Due s.history key route → route ∈ stored s.table key
  stored : ∀ key route, route ∈ stored s.table key → Due s.history key route ∨
    ∃ place, s.running.lookup route.clientSessionId = some place ∧ place.covers o key
  forgotten : ∀ key route place, s.running.lookup route.clientSessionId = some place →
    place.forgets o → ¬Due s.history key route
  honest : Honest o s

theorem kept_init : Kept o (init o) where
  due := by
    rintro key route ⟨before, after, hsplit, _⟩
    exact absurd hsplit.symm (List.append_ne_nil_of_right_ne_nil _ (List.cons_ne_nil _ _))
  stored := fun key route h => absurd h List.not_mem_nil
  forgotten := fun key route place h => by cases h
  honest := fun report h => absurd h List.not_mem_nil

/-- When all calls have returned, what is due is what is stored. -/
theorem Kept.exact (s : State o) (h : Kept o s) : Exact o s := by
  intro hquiet key route
  refine ⟨fun hstored => (h.stored key route hstored).resolve_right ?_, h.due key route⟩
  rintro ⟨place, hplace, _⟩
  have hmem := OrderedMap.mem_entries _ _ _ hplace
  rw [hquiet] at hmem
  exact List.not_mem_nil hmem

/-! ## The steps of a call -/

section Steps

variable (s t : State o) (h : Kept o s) (session : String)

/-- A step of a call that is under way: the routes of other sessions stay, and a
    forget takes out what it has looked through. -/
theorem Kept.move (place : Place o) (h : Kept o s)
    (hplace : s.running.lookup session = some place) (hhistory : t.history = s.history)
    (hothers : ∀ other, other ≠ session → t.running.lookup other = s.running.lookup other)
    (hfewer : ∀ key route, route ∈ Subscriptions.stored t.table key →
      route ∈ Subscriptions.stored s.table key)
    (hlost : ∀ key route, route ∈ Subscriptions.stored s.table key →
      route ∉ Subscriptions.stored t.table key →
        route.clientSessionId = session ∧ place.forgets o)
    (hcovers : ∀ key route, route ∈ Subscriptions.stored t.table key →
      route.clientSessionId = session → place.covers o key →
        ∃ next, t.running.lookup session = some next ∧ next.covers o key)
    (hforgets : ∀ next, t.running.lookup session = some next → next.forgets o → place.forgets o)
    (hhonest : Honest o t) : Kept o t where
  due := by
    intro key route hdue
    rw [hhistory] at hdue
    by_contra hgone
    rcases hlost key route (h.due key route hdue) hgone with ⟨hsession, hforget⟩
    exact h.forgotten key route place (by rw [hsession, hplace]) hforget hdue
  stored := by
    intro key route hstored
    rw [hhistory]
    rcases h.stored key route (hfewer key route hstored) with hdue | ⟨old, hold, hcover⟩
    · exact .inl hdue
    · by_cases hsession : route.clientSessionId = session
      · rw [hsession, hplace, Option.some.injEq] at hold
        rw [← hold] at hcover
        rw [hsession]
        exact .inr (hcovers key route hstored hsession hcover)
      · exact .inr ⟨old, (hothers _ hsession).trans hold, hcover⟩
  forgotten := by
    intro key route next hnext hforget
    rw [hhistory]
    by_cases hsession : route.clientSessionId = session
    · rw [hsession] at hnext
      exact h.forgotten key route place (by rw [hsession, hplace]) (hforgets next hnext hforget)
    · rw [hothers _ hsession] at hnext
      exact h.forgotten key route next hnext hforget
  honest := hhonest

/-- A session that has no call makes one: the routes of other sessions are due
    as before, and its own are stored as they are due. -/
theorem Kept.began (call : Call) (h : Kept o s) (hidle : s.running.lookup session = none)
    (hhistory : t.history = s.history ++ [(session, call)])
    (hothers : ∀ other, other ≠ session → t.running.lookup other = s.running.lookup other)
    (hframe : ∀ key route, route.clientSessionId ≠ session →
      (route ∈ Subscriptions.stored t.table key ↔ route ∈ Subscriptions.stored s.table key))
    (hdue : ∀ key route, route.clientSessionId = session → Due t.history key route →
      route ∈ Subscriptions.stored t.table key)
    (hstored : ∀ key route, route.clientSessionId = session →
      (route ∈ Subscriptions.stored s.table key ↔ Due s.history key route) →
        route ∈ Subscriptions.stored t.table key → Due t.history key route ∨
          ∃ place, t.running.lookup session = some place ∧ place.covers o key)
    (hforgotten : ∀ key route place, route.clientSessionId = session →
      t.running.lookup session = some place → place.forgets o → ¬Due t.history key route)
    (hhonest : Honest o t) : Kept o t := by
  -- The call of one session changes nothing of what is due of another.
  have hsame : ∀ key (route : ResourceSubscriberRoute), route.clientSessionId ≠ session →
      (Due t.history key route ↔ Due s.history key route) := by
    intro key route hother
    rw [hhistory, due_snoc]
    have hne : session ≠ route.clientSessionId := Ne.symm hother
    simp [hne]
  refine ⟨fun key route hroute => ?_, fun key route hroute => ?_, fun key route place hplace => ?_,
    hhonest⟩
  · by_cases hsession : route.clientSessionId = session
    · exact hdue key route hsession hroute
    · exact (hframe key route hsession).mpr (h.due key route ((hsame key route hsession).mp hroute))
  · by_cases hsession : route.clientSessionId = session
    · have hown : route ∈ Subscriptions.stored s.table key ↔ Due s.history key route := by
        refine ⟨fun hin => (h.stored key route hin).resolve_right ?_, h.due key route⟩
        rintro ⟨place, hplace, _⟩
        rw [hsession, hidle] at hplace
        cases hplace
      rw [hsession]
      exact hstored key route hsession hown hroute
    · rw [hsame key route hsession, hothers _ hsession]
      exact h.stored key route ((hframe key route hsession).mp hroute)
  · by_cases hsession : route.clientSessionId = session
    · rw [hsession] at hplace
      exact hforgotten key route place hsession hplace
    · rw [hothers _ hsession] at hplace
      rw [hsame key route hsession]
      exact h.forgotten key route place hplace

theorem lookup_goto (place : Place o) :
    (s.goto o session place).running.lookup session = some place :=
  OrderedMap.lookup_insert ..

theorem lookup_goto_ne (place : Place o) (other : String) (hne : other ≠ session) :
    (s.goto o session place).running.lookup other = s.running.lookup other :=
  OrderedMap.lookup_insert_ne _ _ _ _ hne

/-- A session is not found after its call has returned. -/
theorem lookup_returned : (s.running.erase session).lookup session = none := by
  rw [OrderedMap.lookup_erase, if_pos rfl]

theorem lookup_returned_ne (other : String) (hne : other ≠ session) :
    (s.running.erase session).lookup other = s.running.lookup other := by
  rw [OrderedMap.lookup_erase, if_neg hne]

/-- Where the iteration goes, it is still a forget. -/
theorem enter_eq (dropKeys : List ResourceKey) (shards : List (Fin o.shards)) :
    ∃ place, s.enter o session dropKeys shards = s.goto o session place ∧ place.forgets o ∧
      ∀ key route, route ∈ stored s.table key → o.shardOf key ∈ shards → place.covers o key := by
  cases shards with
  | nil => exact ⟨_, rfl, trivial, fun key route _ hmem => absurd hmem List.not_mem_nil⟩
  | cons shard shards =>
      refine ⟨_, rfl, trivial, fun key route hroute hmem => ?_⟩
      rcases List.mem_cons.mp hmem with heq | hmem
      · rw [← heq]
        exact .inl (mem_keysOf o s.table key route hroute)
      · exact .inr hmem

include h

/-- A call goes on to its next place, and the table stays. -/
theorem kept_goto (place next : Place o) (hplace : s.running.lookup session = some place)
    (hcovers : ∀ key route, route ∈ stored s.table key → place.covers o key → next.covers o key)
    (hforgets : next.forgets o → place.forgets o) : Kept o (s.goto o session next) := by
  refine h.move o s _ session place hplace rfl (lookup_goto_ne o s session next)
    (fun _ _ => id) (fun _ _ hin hout => absurd hin hout) ?_ ?_ h.honest
  · intro key route hroute _ hcover
    exact ⟨next, lookup_goto o s session next, hcovers key route hroute hcover⟩
  · intro next' hnext' hforget
    rw [lookup_goto, Option.some.injEq] at hnext'
    rw [← hnext'] at hforget
    exact hforgets hforget

/-- A forget takes the routes of its session out of a set. -/
theorem kept_clear (shard : Fin o.shards) (key : ResourceKey) (keys : List ResourceKey)
    (shards : List (Fin o.shards)) (dropKeys : List ResourceKey) (removed : Bool)
    (hplace : s.running.lookup session = some (.clearing shard (key :: keys) shards dropKeys)) :
    Kept o (State.goto o { s with table := s.table.modify key (clearSession session) }
      session (.sizing shard key removed keys shards dropKeys)) := by
  refine h.move o s _ session _ hplace rfl (lookup_goto_ne o s session _) ?_ ?_ ?_
    (fun _ _ _ => trivial) h.honest
  · intro key' route hmem
    exact ((mem_stored_clear s.table key key' session route).mp hmem).1
  · intro key' route hin hout
    refine ⟨?_, trivial⟩
    by_contra hother
    exact hout ((mem_stored_clear s.table key key' session route).mpr
      ⟨hin, fun heq => hother heq.2⟩)
  · intro key' route hroute hsession hcover
    refine ⟨_, lookup_goto o s session _, ?_⟩
    -- The set it has just looked through has no route of the session.
    have hne : key' ≠ key := fun heq =>
      ((mem_stored_clear s.table key key' session route).mp hroute).2 ⟨heq, hsession⟩
    rcases hcover with hkey | hshard
    · exact .inl ((List.mem_cons.mp hkey).resolve_left hne)
    · exact .inr hshard

/-- A resource is removed while it has no routes. -/
theorem kept_erase (place : Place o) (key : ResourceKey)
    (hplace : s.running.lookup session = some place) (hempty : stored s.table key = []) :
    Kept o { s with table := s.table.erase key } := by
  refine h.move o s _ session place hplace rfl (fun _ _ => rfl) ?_ ?_ ?_ ?_ h.honest
  · intro key' route hroute
    rwa [stored_erase s.table key key' hempty] at hroute
  · intro key' route hin hout
    rw [stored_erase s.table key key' hempty] at hout
    exact absurd hin hout
  · intro key' route _ _ hcover
    exact ⟨place, hplace, hcover⟩
  · intro next hnext hforget
    rw [hplace, Option.some.injEq] at hnext
    rwa [hnext]

/-- A call that has nothing to look through returns. -/
theorem kept_return (place : Place o) (hplace : s.running.lookup session = some place)
    (hcovers : ∀ key, ¬place.covers o key) (reports : List Report)
    (emptied : List (String × List ResourceKey))
    (hhonest : Honest o { s with reports := reports }) :
    Kept o { s with
      running := s.running.erase session
      reports := reports
      emptied := emptied } := by
  refine h.move o s _ session place hplace rfl (lookup_returned_ne o s session) (fun _ _ => id)
    (fun _ _ hin hout => absurd hin hout) ?_ ?_ hhonest
  · intro key route _ _ hcover
    exact absurd hcover (hcovers key)
  · intro next hnext
    rw [lookup_returned] at hnext
    cases hnext

/-- A report of a resource that has no routes is true. -/
theorem honest_report (key : ResourceKey) (empty : Bool)
    (hempty : empty = true → stored s.table key = []) :
    Honest o { s with reports := s.reports ++ [⟨session, key, empty, s.history⟩] } := by
  intro report hreport htrue route hother hdue
  rcases List.mem_append.mp hreport with hreport | hreport
  · exact h.honest report hreport htrue route hother hdue
  · rw [List.mem_singleton.mp hreport] at htrue hdue
    have hmem := h.due key route hdue
    rw [hempty htrue] at hmem
    exact List.not_mem_nil hmem

/-- The next step of a call keeps what is due, if it removes no routes. -/
theorem kept_advance (place : Place o) (hplace : s.running.lookup session = some place)
    (hharmless : ∀ key ∈ place.removes o, stored s.table key = [])
    (hstep : advance o s session place = some t) : Kept o t := by
  cases place with
  | looking key =>
      rw [← Option.some.inj hstep]
      split
      next => exact kept_goto o s h session _ _ hplace (fun _ _ _ => id) id
      next =>
        exact kept_return o s h session _ hplace (fun _ => id) _ _
          (honest_report o s h session key false Bool.noConfusion)
  | removing key =>
      simp only [advance] at hstep
      split at hstep
      next =>
        rw [← Option.some.inj hstep]
        have hempty := hharmless key rfl
        have herased := kept_erase o s h session _ key hplace hempty
        exact kept_return o _ herased session _ hplace (fun _ => id) _ _
          (honest_report o _ herased session key true
            (fun _ => (stored_erase s.table key key hempty).trans hempty))
      next => cases hstep
  | clearing shard keys shards dropKeys =>
      cases keys with
      | nil =>
          rw [← Option.some.inj hstep]
          rcases enter_eq o s session dropKeys shards with ⟨next, heq, _, hcover⟩
          rw [heq]
          refine kept_goto o s h session _ next hplace (fun key route hroute hold => ?_)
            (fun _ => trivial)
          exact hcover key route hroute (hold.resolve_left List.not_mem_nil)
      | cons key keys =>
          rw [← Option.some.inj hstep]
          exact kept_clear o s h session shard key keys shards dropKeys _ hplace
  | sizing shard key removed keys shards dropKeys =>
      rw [← Option.some.inj hstep]
      exact kept_goto o s h session _ _ hplace (fun _ _ _ => id) (fun _ => trivial)
  | dropping keys emptied =>
      cases keys with
      | nil =>
          rw [← Option.some.inj hstep]
          exact kept_return o s h session _ hplace (fun _ => id) _ _ h.honest
      | cons key keys =>
          simp only [advance] at hstep
          split at hstep
          next =>
            rw [← Option.some.inj hstep]
            have herased := kept_erase o s h session _ key hplace (hharmless key rfl)
            exact kept_goto o _ herased session _ _ hplace (fun _ _ _ => id) (fun _ => trivial)
          next => cases hstep

/-! ## The first step of a call -/

theorem kept_bind (key : ResourceKey) (clientUri : String)
    (hidle : s.running.lookup session = none) :
    Kept o { s with
      history := s.history ++ [(session, .bind key clientUri)]
      table := (bindResourceSubscription s.table key ⟨session, clientUri⟩).2 } := by
  refine h.began o s _ session (.bind key clientUri) hidle rfl (fun _ _ => rfl) ?_ ?_ ?_ ?_ h.honest
  · intro key' route hother
    rw [mem_stored_bind]
    refine or_iff_right (fun heq => hother ?_)
    rw [heq.2]
  · intro key' route hsession hdue
    rw [mem_stored_bind]
    rcases (due_snoc _ _ _ _ _).mp hdue with ⟨_, hcall⟩ | ⟨hold, _⟩
    · rw [Call.bind.injEq] at hcall
      refine .inl ⟨hcall.1.symm, ?_⟩
      rw [← hsession, hcall.2]
    · exact .inr (h.due key' route hold)
  · intro key' route hsession hown hroute
    refine .inl ((due_snoc _ _ _ _ _).mpr ?_)
    rcases (mem_stored_bind _ _ _ _ _).mp hroute with ⟨hkey, heq⟩ | hold
    · rw [heq, hkey]
      exact .inl ⟨rfl, rfl⟩
    · refine .inr ⟨hown.mp hold, fun hcall => ?_⟩
      rcases hcall.2 with hcall | hcall <;> cases hcall
  · intro key' route place _ hplace
    rw [hidle] at hplace
    cases hplace

/-- An unbind of a route that is not stored, or that has been taken out. -/
theorem kept_unbind (key : ResourceKey) (clientUri : String) (table : Table)
    (running : OrderedMap String (Place o)) (reports : List Report)
    (hidle : s.running.lookup session = none)
    (htable : ∀ key' route, route ∈ stored table key' ↔
      route ∈ stored s.table key' ∧ ¬(key' = key ∧ route = ⟨session, clientUri⟩))
    (hothers : ∀ other, other ≠ session → running.lookup other = s.running.lookup other)
    (hforgets : ∀ place, running.lookup session = some place → ¬place.forgets o)
    (hhonest : Honest o { s with reports := reports }) :
    Kept o { s with
      table := table
      running := running
      history := s.history ++ [(session, .unbind key clientUri)]
      reports := reports } := by
  refine h.began o s _ session (.unbind key clientUri) hidle rfl hothers ?_ ?_ ?_ ?_ hhonest
  · intro key' route hother
    rw [htable]
    refine and_iff_left (fun heq => hother ?_)
    rw [heq.2]
  · intro key' route hsession hdue
    rcases (due_snoc _ _ _ _ _).mp hdue with ⟨_, hcall⟩ | ⟨hold, hcall⟩
    · cases hcall
    · refine (htable key' route).mpr ⟨h.due key' route hold, fun heq => hcall ?_⟩
      rw [heq.1, heq.2]
      exact ⟨rfl, .inl rfl⟩
  · intro key' route hsession hown hroute
    rcases (htable key' route).mp hroute with ⟨hin, hother⟩
    refine .inl ((due_snoc _ _ _ _ _).mpr (.inr ⟨hown.mp hin, fun hcall => hother ?_⟩))
    rcases hcall.2 with heq | heq
    · rw [Call.unbind.injEq] at heq
      refine ⟨heq.1.symm, ?_⟩
      rw [heq.2, ← hsession]
    · cases heq
  · intro key' route place _ hplace hforget
    exact absurd hforget (hforgets place hplace)

/-- A session that is being forgotten is due nothing. -/
theorem kept_forget (hidle : s.running.lookup session = none) :
    Kept o (State.enter o { s with history := s.history ++ [(session, .forget)] } session []
      (List.finRange o.shards)) := by
  rcases enter_eq o { s with history := s.history ++ [(session, .forget)] } session []
    (List.finRange o.shards) with ⟨place, heq, _, hcovers⟩
  rw [heq]
  have hnone : ∀ key (route : ResourceSubscriberRoute), route.clientSessionId = session →
      ¬Due (s.history ++ [(session, .forget)]) key route := by
    intro key route hsession hdue
    rcases (due_snoc _ _ _ _ _).mp hdue with ⟨_, hcall⟩ | ⟨_, hcall⟩
    · cases hcall
    · exact hcall ⟨hsession.symm, .inr rfl⟩
  refine h.began o s _ session .forget hidle rfl (lookup_goto_ne o _ session place)
    (fun _ _ _ => Iff.rfl) ?_ ?_ ?_ h.honest
  · intro key route hsession hdue
    exact absurd hdue (hnone key route hsession)
  · intro key route _ _ hroute
    exact .inr ⟨place, lookup_goto o _ session place,
      hcovers key route hroute (List.mem_finRange _)⟩
  · intro key route _ hsession _ _
    exact hnone key route hsession

/-- The first step of a call keeps what is due. -/
theorem kept_begin (call : Call) (hidle : s.running.lookup session = none)
    (hstep : begin o { s with history := s.history ++ [(session, call)] } session call = some t) :
    Kept o t := by
  cases call with
  | bind key clientUri =>
      simp only [begin] at hstep
      split at hstep
      next =>
        rw [← Option.some.inj hstep]
        exact kept_bind o s h session key clientUri hidle
      next => cases hstep
  | unbind key clientUri =>
      simp only [begin] at hstep
      split at hstep
      next hlookup =>
        rw [← Option.some.inj hstep]
        -- Nothing is stored of the resource, so the route is not either.
        have habsent : stored s.table key = [] := by
          rw [stored, hlookup, Option.getD_none]
        refine kept_unbind o s h session key clientUri s.table (s.running.erase session)
          (s.reports ++ [⟨session, key, false, s.history ++ [(session, .unbind key clientUri)]⟩])
          hidle (fun key' route => ?_) (lookup_returned_ne o s session) ?_ ?_
        · refine (and_iff_left_of_imp (fun hin heq => ?_)).symm
          rw [heq.1, habsent] at hin
          exact List.not_mem_nil hin
        · intro place hplace
          rw [lookup_returned] at hplace
          cases hplace
        · intro report hreport htrue
          rcases List.mem_append.mp hreport with hreport | hreport
          · exact h.honest report hreport htrue
          · rw [List.mem_singleton.mp hreport] at htrue
            cases htrue
      next routes hroutes =>
        rw [← Option.some.inj hstep]
        refine kept_unbind o s h session key clientUri _ _ s.reports hidle
          (fun key' route => mem_stored_remove s.table key key' _ route routes hroutes)
          (lookup_goto_ne o s session _) ?_ h.honest
        intro place hplace hforget
        rw [OrderedMap.lookup_insert, Option.some.injEq] at hplace
        rw [← hplace] at hforget
        exact hforget
  | forget =>
      rw [← Option.some.inj hstep]
      exact kept_forget o s h session hidle

/-- A harmless step keeps what is due. -/
theorem kept_step (a : Action) (hharmless : Harmless o s a) (hstep : step o s a = some t) :
    Kept o t := by
  cases a with
  | call session call =>
      simp only [step] at hstep
      split at hstep
      next => cases hstep
      next hidle => exact kept_begin o s t h session call hidle hstep
  | advance session =>
      simp only [step] at hstep
      split at hstep
      next place hplace =>
        refine kept_advance o s t h session place hplace (fun key hkey => ?_) hstep
        refine hharmless key ?_
        rw [hplace]
        exact hkey
      next => cases hstep

end Steps

/-- In every run in which a resource is removed only while it has no routes, no
    subscription is lost: whenever all calls have returned, the table has exactly
    the routes that were bound and not later given up by their session, and an
    unbind reports that a resource has no subscriber only if no other session is
    subscribed. -/
theorem exact_of_harmless (o : Sharding) (as : List Action) (t : State o)
    (hharmless : Along (step o) (Harmless o) (init o) as)
    (hrun : exec (step o) (init o) as = some t) : Exact o t ∧ Honest o t := by
  have h : Kept o t := exec_history (step o) (Harmless o) (fun _ => Kept o) (init o) (kept_init o)
    (fun _ s a u hs ha hu => kept_step o s u hs a ha hu) as t hharmless hrun
  exact ⟨h.exact o t, h.honest⟩

/-- One shard for all resources. -/
def oneShard : Sharding := ⟨1, fun _ => Fin.last 0⟩

def scene : ResourceKey := toLex ("http://maya", "scene://current")

/-- A session gives up its subscription after another one has come. -/
def handover : List Action :=
  [.call "a" (.bind scene "u"), .call "b" (.bind scene "u"), .call "a" (.unbind scene "u"),
    .advance "a"]

theorem exact_handover :
    ∃ t, exec (step oneShard) (init oneShard) handover = some t ∧ Exact oneShard t ∧
      Honest oneShard t :=
  ⟨_, rfl, exact_of_harmless oneShard handover _ (by decide +kernel) rfl⟩

/-- The other session comes between the look and the removal. -/
theorem bind_between_look_and_removal :
    ¬ ∀ (o : Sharding) (as : List Action) (t : State o),
      exec (step o) (init o) as = some t → Exact o t ∧ Honest o t := by
  intro hall
  have h := hall oneShard [.call "a" (.bind scene "u"), .call "a" (.unbind scene "u"),
    .advance "a", .call "b" (.bind scene "u"), .advance "a"] _ rfl
  have hstored := (h.1 (by decide +kernel) scene ⟨"b", "u"⟩).mpr
    ⟨_, [], rfl, List.not_mem_nil, List.not_mem_nil⟩
  revert hstored
  decide +kernel

end Subscriptions

end Gateway

end DccMcp
