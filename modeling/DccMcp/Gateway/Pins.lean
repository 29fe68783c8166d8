import DccMcp.Gateway.Resolver
import DccMcp.Lib.Machine

/-!
# Pinned Instances

A session that has bound an instance for a DCC gets this instance whenever it
does not name one, until it binds another one, unbinds, or the slot goes. And
what a session is told to be bound is what it has bound.

Both rest on the slot: it is bound, and it has the instance of the bind. Other
sessions write other slots. What the session itself does to the slot with its
other calls depends on where they lead. A call that leads to the instance in
the slot writes what is there. A call that leads to another instance of the DCC
puts that one into the slot and leaves the flag, and from then on the session
is told that it has bound an instance it has only used.

## Main definitions

* `Held`: A slot has an instance, or it went since.
* `SteadyAt`, `Steady`: A call does not lead away from a slot.
* `PinsHold`, `BoundWasPassed`: What is asked of a list of calls.

## Theorems

* `pins_hold`: Both properties, when calls are steady.
* `named_instance_takes_the_pin`: A pin that is lost.
-/

namespace DccMcp

namespace Gateway

namespace Resolver

open Machine Registry

/-! ## A slot that is held -/

/-- A slot has an instance, and is bound if it was pinned; or it is among those
    that went since a point of the log. -/
structure Held (pinned : Bool) (n : Nat) (key : SlotKey) (id : HyphenatedUuid)
    (t : StickyInner) : Prop where
  log : n ≤ t.evicted.length
  slot : key ∈ t.evicted.drop n ∨
    ∃ bound, slot t key = some (id, bound) ∧ (pinned = true → bound = true)

/-- A call of the session of a slot does not lead to another instance of its
    DCC. Where the slot is pinned, only that is asked. -/
def SteadyAt (lib : Library) (pinned : Bool) (key : SlotKey) (inner : StickyInner) : Action → Prop
  | .resolve instanceHint dccFilter session live now recordedAt =>
    ∀ s, sessionKey session = some s → ∀ e,
      Leads lib.parseStr inner now (candidatesOf live dccFilter) instanceHint dccFilter session e →
      keyOf s e.dccType = key →
      ∀ id bound, slot (seen inner instanceHint now recordedAt) key = some (id, bound) →
        (pinned = true → bound = true) → e.instanceId = id
  | _ => True

/-- A call binds or unbinds a slot. -/
def Rebinds (key : SlotKey) : Action → Prop
  | .bind session dccType _ _ _ => ∃ s, sessionKey session = some s ∧ keyOf s dccType = key
  | .unbind session dccType _ => ∃ s, sessionKey session = some s ∧ unbinds s dccType key = true
  | .resolve .. => False

section Held

variable (lib : Library) (pinned : Bool) (n : Nat) (key : SlotKey) (id : HyphenatedUuid)

variable (inner : StickyInner) (calls : List Action) (a b : StickyInner)

theorem held_evicts (h : Held pinned n key id a) (hev : Evicts a b) : Held pinned n key id b where
  log := h.log.trans hev.log.length_le
  slot := by
    rcases h.slot with hmem | ⟨bound, hbound, hpin⟩
    · exact .inl <| mem_drop_of_prefix _ _ n key hev.log hmem
    · rcases hev.slots key with hsame | ⟨_, hmem⟩
      · exact .inr ⟨bound, hsame.trans hbound, hpin⟩
      · exact .inl (List.drop_subset_drop_left _ h.log hmem)

/-- Another slot is written, or this one with what it has. -/
theorem held_writes (other : SlotKey) (value : HyphenatedUuid × Bool) (h : Held pinned n key id a)
    (hwrite : Writes other value a b)
    (hsame : key = other → slot a key = some value ∨ slot a key = none) :
    Held pinned n key id b where
  log := by
    rw [hwrite.log]
    exact h.log
  slot := by
    rw [hwrite.log, hwrite.slots]
    rcases h.slot with hmem | ⟨bound, hbound, hpin⟩
    · exact .inl hmem
    · right
      by_cases hkey : key = other
      · rw [if_pos hkey]
        rcases hsame hkey with hvalue | hnone
        · exact ⟨bound, hvalue.symm.trans hbound, hpin⟩
        · rw [hnone] at hbound
          cases hbound
      · rw [if_neg hkey]
        exact ⟨bound, hbound, hpin⟩

/-- States that differ in their aliases only. -/
theorem held_congr (h : Held pinned n key id a) (hbindings : b.bindings = a.bindings)
    (hevicted : b.evicted = a.evicted) :
    Held pinned n key id b where
  log := by
    rw [hevicted]
    exact h.log
  slot := by
    rw [hevicted, Resolver.slot, hbindings]
    exact h.slot

theorem held_resolve (live : List ServiceEntry) (instanceHint dccFilter session : Option String)
    (now recordedAt : Nat)
    (h : Held pinned n key id inner)
    (hsteady : SteadyAt lib pinned key inner
      (.resolve instanceHint dccFilter session live now recordedAt)) :
    Held pinned n key id
      (next lib inner (.resolve instanceHint dccFilter session live now recordedAt)) := by
  rcases call_spec lib inner live instanceHint dccFilter session now recordedAt with hev |
    ⟨s, r, swept, mid, bound, hs, hout, hseen, hswept, hbound, hwrite, hafter⟩
  · exact held_evicts pinned n key id inner _ h hev
  · have hleads := (leads_of_ok lib.parseStr inner now (candidatesOf live dccFilter) instanceHint
      dccFilter session r hout).1
    have hheld := held_evicts pinned n key id inner swept h
      ((evicts_candidates lib.parseStr inner now (candidatesOf live dccFilter) instanceHint
        dccFilter session).trans _ _ _ hswept)
    rcases hheld.slot with hmem | ⟨flag, hflag, hpin⟩
    · -- The slot went before the result is recorded.
      refine held_evicts pinned n key id mid _ ⟨?_, .inl ?_⟩ hafter
      · rw [hwrite.log]
        exact hheld.log
      · rwa [hwrite.log]
    · refine held_evicts pinned n key id mid _
        (held_writes pinned n key id swept mid _ _ hheld hwrite (fun hkey => .inl ?_)) hafter
      -- The slot was there when the call looked, so the call leads to its instance.
      have hslot : slot (seen inner instanceHint now recordedAt) key = some (id, flag) := by
        rcases hseen.slots key with hsame | ⟨hnone, _⟩
        · exact hsame.symm.trans hflag
        · rw [hflag] at hnone
          cases hnone
      have hid := hsteady s hs r.entry hleads hkey.symm id flag hslot hpin
      rw [hbound, ← hkey, hflag, hid]
      rfl

theorem held_bind (session : Option String) (dccType : String) (other : HyphenatedUuid)
    (given : Option String) (now : Nat) (h : Held pinned n key id inner)
    (hkey : ¬Rebinds key (.bind session dccType other given now)) :
    Held pinned n key id (next lib inner (.bind session dccType other given now)) := by
  unfold next
  dsimp only
  split
  next => exact h
  next s hs =>
    rcases boundSlots_spec lib.order inner now s dccType other with ⟨mid, hwrite, hafter⟩
    have hmid : Held pinned n key id (boundSlots lib.order inner now s dccType other) := by
      refine held_evicts pinned n key id mid _ (held_writes pinned n key id _ mid _ _
        (held_evicts pinned n key id inner _ h (evicts_prune inner now)) hwrite ?_) hafter
      intro heq
      exact absurd ⟨s, hs, heq.symm⟩ hkey
    rw [bind_eq]
    split
    next => exact held_congr pinned n key id _ _ hmid rfl rfl
    next => exact hmid

theorem held_unbind (session dccType : Option String) (now : Nat) (h : Held pinned n key id inner)
    (hkey : ¬Rebinds key (.unbind session dccType now)) :
    Held pinned n key id (next lib inner (.unbind session dccType now)) := by
  unfold next
  dsimp only
  split
  next => exact h
  next s hs =>
    rcases unbind_spec inner now s dccType with ⟨hslots, hlog, _⟩
    have hswept := held_evicts pinned n key id inner _ h (evicts_prune inner now)
    refine ⟨?_, ?_⟩
    · rw [hlog]
      exact hswept.log
    · rw [hlog, hslots, if_neg (fun hunbinds => hkey ⟨s, hs, hunbinds⟩)]
      exact hswept.slot

/-- A call that does not lead away from a slot, and does not rebind it, leaves
    it as it is. -/
theorem held_next (a : Action) (h : Held pinned n key id inner) (hkey : ¬Rebinds key a)
    (hsteady : SteadyAt lib pinned key inner a) :
    Held pinned n key id (next lib inner a) := by
  cases a with
  | resolve instanceHint dccFilter session live now recordedAt =>
      exact held_resolve lib pinned n key id inner live instanceHint dccFilter session now
        recordedAt h hsteady
  | bind session dccType other given now =>
      exact held_bind lib pinned n key id inner session dccType other given now h hkey
  | unbind session dccType now =>
      exact held_unbind lib pinned n key id inner session dccType now h hkey

/-- Steady calls leave a slot as it is. -/
theorem held_run (h : Held pinned n key id inner) (hkey : ∀ a ∈ calls, ¬Rebinds key a)
    (hsteady : Along (total (next lib)) (SteadyAt lib pinned key) inner calls) :
    Held pinned n key id (calls.foldl (next lib) inner) := by
  induction calls generalizing inner with
  | nil => exact h
  | cons a calls ih =>
      exact ih _ (held_next lib pinned n key id inner a h (hkey a List.mem_cons_self) hsteady.1)
        (fun b hb => hkey b (List.mem_cons_of_mem a hb)) (hsteady.2 _ rfl)

end Held

/-! ## What is bound was passed to a bind -/

/-- A session has passed an instance to a bind. -/
def Passed (calls : List Action) (session : String) (id : HyphenatedUuid) : Prop :=
  ∃ caller dccType given now,
    .bind caller dccType id given now ∈ calls ∧ sessionKey caller = some session

/-- What slots call bound, and what aliases lead to, was passed to a bind. -/
structure AllPassed (calls : List Action) (inner : StickyInner) : Prop where
  slots : ∀ key id, slot inner key = some (id, true) → Passed calls (ofLex key).1 id
  aliases : ∀ session name dcc id, inner.aliases.lookup (toLex (session, name)) = some (dcc, id) →
    Passed calls session id

/-- A call does not lead away from any slot that is bound. -/
def Steady (lib : Library) (inner : StickyInner) (a : Action) : Prop :=
  ∀ key, SteadyAt lib true key inner a

theorem passed_mono (calls : List Action) (a : Action) (session : String) (id : HyphenatedUuid)
    (h : Passed calls session id) : Passed (calls ++ [a]) session id := by
  rcases h with ⟨caller, dccType, given, now, hmem, hsession⟩
  exact ⟨caller, dccType, given, now, List.mem_append_left _ hmem, hsession⟩

theorem allPassed_mono (calls : List Action) (a : Action) (inner : StickyInner)
    (h : AllPassed calls inner) : AllPassed (calls ++ [a]) inner where
  slots := fun key id hslot => passed_mono calls a _ id (h.slots key id hslot)
  aliases := fun session name dcc id halias =>
    passed_mono calls a session id (h.aliases session name dcc id halias)

theorem allPassed_evicts (calls : List Action) (a b : StickyInner) (h : AllPassed calls a)
    (hev : Evicts a b) : AllPassed calls b where
  slots := by
    intro key id hslot
    rcases hev.slots key with hsame | ⟨hnone, _⟩
    · exact h.slots key id (hsame.symm.trans hslot)
    · rw [hslot] at hnone
      cases hnone
  aliases := fun session name dcc id halias =>
    h.aliases session name dcc id (hev.aliases _ _ halias)

theorem allPassed_writes (calls : List Action) (a b : StickyInner) (key : SlotKey)
    (id : HyphenatedUuid) (bound : Bool) (h : AllPassed calls a)
    (hwrite : Writes key (id, bound) a b)
    (hpassed : bound = true → Passed calls (ofLex key).1 id) : AllPassed calls b where
  slots := by
    intro other id' hslot
    rw [hwrite.slots] at hslot
    split at hslot
    next hother =>
      rw [Option.some.injEq, Prod.mk.injEq] at hslot
      rw [hother, ← hslot.1]
      exact hpassed hslot.2
    next => exact h.slots other id' hslot
  aliases := by
    intro session name dcc id' halias
    rw [hwrite.aliases] at halias
    exact h.aliases session name dcc id' halias

section Passed

variable (lib : Library) (calls : List Action) (inner : StickyInner) (h : AllPassed calls inner)

include h

/-- A call that does not lead away from a bound slot makes nothing bound. -/
theorem passed_resolve (live : List ServiceEntry) (instanceHint dccFilter session : Option String)
    (now recordedAt : Nat)
    (hsteady : Steady lib inner
      (.resolve instanceHint dccFilter session live now recordedAt)) :
    AllPassed calls
      (next lib inner (.resolve instanceHint dccFilter session live now recordedAt)) := by
  rcases call_spec lib inner live instanceHint dccFilter session now recordedAt with hev |
    ⟨s, r, swept, mid, bound, hs, hout, hseen, hswept, hbound, hwrite, hafter⟩
  · exact allPassed_evicts calls inner _ h hev
  · have hleads := (leads_of_ok lib.parseStr inner now (candidatesOf live dccFilter) instanceHint
      dccFilter session r hout).1
    have hpassed := allPassed_evicts calls inner swept h
      ((evicts_candidates lib.parseStr inner now (candidatesOf live dccFilter) instanceHint
        dccFilter session).trans _ _ _ hswept)
    refine allPassed_evicts calls mid _
      (allPassed_writes calls swept mid _ _ bound hpassed hwrite (fun htrue => ?_)) hafter
    -- The flag is the one the slot had, and the slot had this instance.
    cases hslot : slot swept (keyOf s r.entry.dccType) with
    | none =>
        rw [hbound, hslot] at htrue
        cases htrue
    | some value =>
        rcases value with ⟨id, flag⟩
        rw [hbound, hslot, Option.any_some] at htrue
        dsimp only at htrue
        rw [htrue] at hslot
        have hslot' : slot (seen inner instanceHint now recordedAt) (keyOf s r.entry.dccType) =
            some (id, true) := by
          rcases hseen.slots (keyOf s r.entry.dccType) with hsame | ⟨hnone, _⟩
          · exact hsame.symm.trans hslot
          · rw [hslot] at hnone
            cases hnone
        rw [hsteady _ s hs r.entry hleads rfl id true hslot' (fun _ => rfl)]
        exact hpassed.slots _ id hslot

theorem passed_bind (session : Option String) (dccType : String) (id : HyphenatedUuid)
    (given : Option String) (now : Nat) :
    AllPassed (calls ++ [.bind session dccType id given now])
      (next lib inner (.bind session dccType id given now)) := by
  have hmono := allPassed_mono calls (.bind session dccType id given now) inner h
  unfold next
  dsimp only
  split
  next => exact hmono
  next s hs =>
    have hown : Passed (calls ++ [.bind session dccType id given now]) s id :=
      ⟨session, dccType, given, now, List.mem_append_right _ (List.mem_singleton_self _), hs⟩
    rcases boundSlots_spec lib.order inner now s dccType id with ⟨mid, hwrite, hafter⟩
    have hbound := allPassed_evicts _ mid _ (allPassed_writes _ _ mid _ id true
      (allPassed_evicts _ inner _ hmono (evicts_prune inner now)) hwrite (fun _ => hown)) hafter
    rw [bind_eq]
    split
    next name _ =>
      refine ⟨hbound.slots, fun session' name' dcc id' halias => ?_⟩
      by_cases hkey : toLex (session', name') = toLex (s, name)
      · rw [hkey, OrderedMap.lookup_insert, Option.some.injEq, Prod.mk.injEq] at halias
        rw [← halias.2, (Prod.mk.inj (toLex_inj.mp hkey)).1]
        exact hown
      · rw [OrderedMap.lookup_insert_ne _ _ _ _ hkey] at halias
        exact hbound.aliases session' name' dcc id' halias
    next => exact hbound

theorem passed_unbind (session dccType : Option String) (now : Nat) :
    AllPassed calls (next lib inner (.unbind session dccType now)) := by
  unfold next
  dsimp only
  split
  next => exact h
  next s hs =>
    rcases unbind_spec inner now s dccType with ⟨hslots, _, haliases, _⟩
    have hswept := allPassed_evicts calls inner _ h (evicts_prune inner now)
    refine ⟨fun key id hslot => ?_, fun session' name dcc id halias =>
      hswept.aliases session' name dcc id (haliases _ _ halias)⟩
    rw [hslots] at hslot
    split at hslot
    next => cases hslot
    next => exact hswept.slots key id hslot

theorem passed_next (a : Action) (hsteady : Steady lib inner a) :
    AllPassed (calls ++ [a]) (next lib inner a) := by
  cases a with
  | resolve instanceHint dccFilter session live now recordedAt =>
      exact allPassed_mono calls _ _
        (passed_resolve lib calls inner h live instanceHint dccFilter session now recordedAt
          hsteady)
  | bind session dccType id given now =>
      exact passed_bind lib calls inner h session dccType id given now
  | unbind session dccType now =>
      exact allPassed_mono calls _ _ (passed_unbind lib calls inner h session dccType now)

end Passed

theorem allPassed_run (lib : Library) (calls : List Action)
    (hsteady : Along (total (next lib)) (Steady lib) init calls) :
    AllPassed calls (run lib calls) := by
  refine exec_history (total (next lib)) (Steady lib) AllPassed init ?_ ?_ calls _ hsteady
    (exec_total (next lib) init calls)
  · refine ⟨fun key id h => ?_, fun session name dcc id h => ?_⟩
    · cases h
    · cases h
  · intro as t a u h ha hu
    rw [← Option.some.inj hu]
    exact passed_next lib as t h a ha

/-! ## The pins -/

/-- What a call of `resolve_instance_for_session` returns after a list of calls. -/
def answer (lib : Library) (calls : List Action) (live : List ServiceEntry)
    (instanceHint dccFilter session : Option String) (now recordedAt : Nat) :
    Except ResolveInstanceError ResolvedInstance :=
  (resolveInstanceForSession lib.parseStr lib.order (run lib calls) live instanceHint dccFilter
    session now recordedAt).2

/-- After a bind, a call of the session for the DCC that names no instance
    returns the bound one as bound, if it is among the candidates, the session
    has not bound or unbound the DCC in between, and the slot was not removed. -/
def PinsHold (lib : Library) (calls : List Action) : Prop :=
  ∀ before caller dccType id given boundAt between instanceHint dccFilter session live now
    recordedAt s, calls = before ++ .bind caller dccType id given boundAt ::
        (between ++ [.resolve instanceHint (some dccFilter) session live now recordedAt]) →
      sessionKey caller = some s → sessionKey session = some s → hintOf instanceHint = none →
      keyOf s dccFilter = keyOf s dccType →
      (∀ a ∈ between, ¬Rebinds (keyOf s dccType) a) →
      keyOf s dccType ∉ (pruneLocked
          (run lib (before ++ .bind caller dccType id given boundAt :: between)) now).evicted.drop
        (pruneLocked (run lib before) boundAt).evicted.length →
      (∃ e ∈ candidatesOf live (some dccFilter), e.instanceId = id) →
      ∃ r, answer lib (before ++ .bind caller dccType id given boundAt :: between) live instanceHint
          (some dccFilter) session now recordedAt = .ok r ∧
        r.entry.instanceId = id ∧ r.via = .bound

/-- A call returns a row as bound only if its session has passed the instance
    to a bind. -/
def BoundWasPassed (lib : Library) (calls : List Action) : Prop :=
  ∀ before instanceHint dccFilter session live now recordedAt r,
    calls = before ++ [.resolve instanceHint dccFilter session live now recordedAt] →
    answer lib before live instanceHint dccFilter session now recordedAt = .ok r → r.via = .bound →
      ∃ s, sessionKey session = some s ∧ Passed before s r.entry.instanceId

/-- The slot right after a bind. -/
theorem held_after_bind (lib : Library) (inner : StickyInner) (caller : Option String)
    (dccType : String) (id : HyphenatedUuid) (given : Option String) (boundAt : Nat) (s : String)
    (hs : sessionKey caller = some s) :
    Held true (pruneLocked inner boundAt).evicted.length (keyOf s dccType) id
      (next lib inner (.bind caller dccType id given boundAt)) := by
  rcases boundSlots_spec lib.order inner boundAt s dccType id with ⟨mid, hwrite, hafter⟩
  have hmid : Held true (pruneLocked inner boundAt).evicted.length (keyOf s dccType) id mid := by
    refine ⟨?_, .inr ⟨true, ?_, fun _ => rfl⟩⟩
    · rw [hwrite.log]
    · rw [hwrite.slots, if_pos rfl]
  have hbound := held_evicts _ _ _ id mid _ hmid hafter
  unfold next
  dsimp only
  rw [hs]
  dsimp only
  rw [bind_eq]
  split
  next => exact held_congr _ _ _ id _ _ hbound rfl rfl
  next => exact hbound

/-- In every list of calls of which none leads its session to another instance
    of a DCC than the one the session has bound, pins hold, and what is returned
    as bound was passed to a bind. -/
theorem pins_hold (lib : Library) (calls : List Action)
    (hsteady : Along (total (next lib)) (Steady lib) init calls) :
    PinsHold lib calls ∧ BoundWasPassed lib calls := by
  constructor
  · intro before caller dccType id given boundAt between instanceHint dccFilter session live now
      recordedAt s hcalls hcaller hsession hhint hkey hbetween hkept hlive
    subst hcalls
    -- The calls in between are made from the slot the bind leaves.
    have hfrom := ((along_append _ _ _ _ _).mp hsteady).2 _ (exec_total (next lib) init before)
    have hrest := ((along_append _ _ _ _ _).mp (hfrom.2 _ rfl)).1
    have hheld := held_run lib true _ (keyOf s dccType) id _ between
      (held_after_bind lib (run lib before) caller dccType id given boundAt s hcaller) hbetween
      (along_of_along _ _ _ (fun _ => True) (fun _ _ _ _ _ _ => trivial)
        (fun t a _ ha => ha (keyOf s dccType)) _ _ trivial hrest)
    have hrun : run lib (before ++ .bind caller dccType id given boundAt :: between) =
        between.foldl (next lib)
          (next lib (run lib before) (.bind caller dccType id given boundAt)) := by
      unfold run
      rw [List.foldl_append, List.foldl_cons]
    have hswept := held_evicts _ _ _ id _ _ hheld (evicts_prune _ now)
    rw [← hrun] at hswept
    rcases hswept.slot with hgone | ⟨bound, hbound, hpin⟩
    · exact absurd hgone hkept
    · rw [← hkey] at hbound
      rcases ok_of_slot lib.parseStr _ now (candidatesOf live (some dccFilter)) instanceHint
        (some dccFilter) session s id bound hhint hsession hbound hlive with ⟨r, hr, hid, hvia⟩
      rw [hpin rfl, if_pos rfl] at hvia
      exact ⟨r, hr, hid, hvia⟩
  · intro before instanceHint dccFilter session live now recordedAt r hcalls hout hvia
    subst hcalls
    have hpassed := allPassed_run lib before ((along_append _ _ _ _ _).mp hsteady).1
    rcases (leads_of_ok lib.parseStr _ now (candidatesOf live dccFilter) instanceHint dccFilter
      session r hout).2 hvia with ⟨s, hs, ⟨hint, dcc, halias⟩ | ⟨_, hslot⟩⟩
    · refine ⟨s, hs, ?_⟩
      unfold resolveAlias at halias
      dsimp only at halias
      split at halias
      next => cases halias
      next => exact hpassed.aliases s _ dcc _ halias
    · exact ⟨s, hs, (allPassed_evicts before _ _ hpassed (evicts_prune _ now)).slots _ _ hslot⟩

/-! ## A pin that is kept and one that is lost -/

theorem rowId_lt (n : UInt32) : n.toNat < 2 ^ 128 :=
  Nat.lt_of_lt_of_le n.toNat_lt (by decide)

def rowId (n : UInt32) : HyphenatedUuid := ⟨n.toNat, rowId_lt n⟩

/-- A row of an instance that registered at a time. -/
def hostRow (n : UInt32) (registeredAt : Nat) : ServiceEntry where
  schemaVersion := 1
  dccType := "maya"
  instanceId := rowId n
  version := none
  scene := none
  documents := []
  pid := none
  hostPid := none
  sentinelPath := none
  displayName := none
  metadata := OrderedMap.empty _ _
  extras := OrderedMap.empty _ _
  registeredAt := registeredAt
  lastHeartbeat := registeredAt
  status := .available
  leaseOwner := none
  currentJobId := none
  leaseExpiresAt := none

def hostRows : List ServiceEntry := [hostRow 1 5, hostRow 2 9]

def secondId : String := "00000000-0000-0000-0000-000000000002"

/-- A library that knows one UUID. -/
def oneUuid : Library := ⟨fun text => if text = secondId then some (rowId 2) else none, id⟩

def bindFirst : Action := .bind (some "a") "Maya" (rowId 1) none 0

/-- A call of the session for Maya that names no instance. -/
def unqualified : Action := .resolve none (some "maya") (some "a") hostRows 1 1

theorem bindFirst_steady : Along (total (next oneUuid)) (Steady oneUuid) init
    [bindFirst, unqualified] := by
  refine ⟨fun _ => trivial, fun t ht => ⟨fun key s hs e hleads hkey id bound hslot _ => ?_,
    fun _ _ => trivial⟩⟩
  rw [← Option.some.inj ht] at hleads hslot
  have hsession : s = "a" := by
    have hkey' : sessionKey (some "a") = some "a" := by decide +kernel
    exact (Option.some.inj (hkey'.symm.trans hs)).symm
  subst hsession
  -- Both rows are rows of Maya, and the call falls on the one of the slot.
  have hfound : slot (pruneLocked (next oneUuid init bindFirst) 1) (keyOf "a" "maya") =
      some (rowId 1, true) := by decide +kernel
  have hfalls : e.instanceId = rowId 1 := by
    have hfalls := hleads.2
    change FallsOn _ _ _ _ e at hfalls
    have hsession : sessionKey (some "a") = some "a" := by decide +kernel
    rw [FallsOn, hsession, Option.bind_some, Option.getD_some, hfound] at hfalls
    dsimp only at hfalls
    rwa [if_pos (by decide +kernel)] at hfalls
  have hdcc : keyOf "a" e.dccType = keyOf "a" "maya" := by
    have hmem := List.mem_of_mem_filter hleads.1
    rcases List.mem_cons.mp hmem with rfl | hmem
    · rfl
    · rw [List.mem_singleton.mp hmem]
      rfl
  rw [← hkey, hdcc] at hslot
  have hboth := hslot.symm.trans hfound
  rw [Option.some.injEq, Prod.mk.injEq] at hboth
  rw [hfalls, hboth.1]

theorem pin_of_first_holds : PinsHold oneUuid [bindFirst, unqualified] ∧
    BoundWasPassed oneUuid [bindFirst, unqualified] :=
  pins_hold oneUuid [bindFirst, unqualified] bindFirst_steady

/-- The session names the second instance once, and is then told that it has
    bound it. -/
theorem named_instance_takes_the_pin :
    ¬ ∀ (lib : Library) (calls : List Action), PinsHold lib calls ∧ BoundWasPassed lib calls := by
  intro hall
  have h := (hall oneUuid [bindFirst,
    .resolve (some secondId) (some "maya") (some "a") hostRows 1 1, unqualified]).1 []
    (some "a") "Maya" (rowId 1) none 0
    [.resolve (some secondId) (some "maya") (some "a") hostRows 1 1] none "maya" (some "a")
    hostRows 1 1 "a" rfl (by decide +kernel) (by decide +kernel) rfl (by decide +kernel) ?_
    (by decide +kernel) ⟨hostRow 1 5, by decide +kernel, rfl⟩
  · rcases h with ⟨r, hr, hid, _⟩
    have hsecond : (answer oneUuid ([] ++ .bind (some "a") "Maya" (rowId 1) none 0 ::
        [.resolve (some secondId) (some "maya") (some "a") hostRows 1 1]) hostRows none
        (some "maya") (some "a") 1 1).toOption.map (fun r => r.entry.instanceId) =
        some (rowId 2) := by decide +kernel
    rw [hr] at hsecond
    rw [Except.toOption, Option.map_some, hid] at hsecond
    exact absurd hsecond (by decide +kernel)
  · intro a ha
    rw [List.mem_singleton.mp ha]
    exact id

end Resolver

end Gateway

end DccMcp
