import DccMcp.Registry.Entry

/-!
# Resolving an Instance for a Session

A call that does not name an instance gets one: the one its session has bound
for the DCC, the one it used last, the only one, or the newest. What a session
has bound and what it used last are in one slot for each session and DCC, with
a flag that tells the two apart.

Every call that finds an instance writes it into the slot, and how the instance
was found makes no difference to this. A slot that is there keeps its flag. So
a call that names another instance puts that one where the bound one was, under
the flag of the bound one; and so does a call whose bound instance is gone, and
a call without a DCC, which does not look into the slot it then writes.

Slots go when they are too old or too many. Every removal is noted in a list,
so that statements can say that a slot was not removed.

## Main definitions

* `Binding`, `StickyInner`: A slot, and the slots with the aliases.
* `pruneLocked`, `enforceCapacityLocked`, `retainLiveAliases`: What goes.
* `lookup`, `record`, `bind`, `unbind`, `resolveAlias`: The operations.
* `resolve`, `resolveInstanceCandidates`, `resolveInstanceForSession`: A call.
* `Action`, `next`: The calls of all sessions.
* `Evicts`: From one state to another, slots and aliases go.
* `Leads`: The rows a call may lead to.

## Theorems

* `evicts_prune`, `evicts_enforceCapacity`: What goes is noted.
* `slot_record`: What is written is there, or it is noted that it went.
* `leads_of_ok`: A call leads to the row it returns.
-/

namespace DccMcp

namespace Gateway

namespace Resolver

open Registry Text

/-! ## The slots -/

/-- `MAX_BINDINGS`. -/
def maxBindings : Nat := 4096

/-- `BINDING_TTL`, in nanoseconds. -/
def bindingTtl : Nat := 30 * 60 * 1000000000

/-- The time between two sweeps, in nanoseconds. -/
def pruneInterval : Nat := 60 * 1000000000

/-- A session and a DCC, or a session and an alias. -/
abbrev SlotKey := String ×ₗ String

structure Binding where
  instanceId : HyphenatedUuid
  bound : Bool
  lastUsed : Nat
  deriving DecidableEq

/-- `StickyInner`. The keys that were removed for their age or for want of room
    are kept for the statements only. -/
structure StickyInner where
  bindings : OrderedMap SlotKey Binding
  aliases : OrderedMap SlotKey (String × HyphenatedUuid)
  lastPruned : Option Nat
  evicted : List SlotKey
  deriving DecidableEq

def init : StickyInner := ⟨OrderedMap.empty _ _, OrderedMap.empty _ _, none, []⟩

def retainLiveAliases (inner : StickyInner) : StickyInner :=
  { inner with
    aliases := inner.aliases.retain (fun key target =>
      (inner.bindings.lookup (toLex ((ofLex key).1, target.1))).any
        (fun binding => binding.instanceId = target.2)) }

def pruneLocked (inner : StickyInner) (now : Nat) : StickyInner :=
  if inner.lastPruned.all (fun last => pruneInterval < now - last) then
    let fresh (binding : Binding) : Bool := now - binding.lastUsed ≤ bindingTtl
    retainLiveAliases { inner with
      lastPruned := some now
      bindings := inner.bindings.filter fresh
      evicted := inner.evicted ++
        (inner.bindings.entries.filter (fun e => !fresh e.2)).map Prod.fst }
  else inner

/-- The order in which the hash map lists its entries. -/
abbrev Listing := List (SlotKey × Nat) → List (SlotKey × Nat)

def enforceCapacityLocked (order : Listing) (inner : StickyInner) : StickyInner :=
  if inner.bindings.entries.length ≤ maxBindings then inner
  else
    let keys := (order (inner.bindings.entries.map (fun e => (e.1, e.2.lastUsed)))).mergeSort
      (fun a b => a.2 ≤ b.2)
    let excess := inner.bindings.entries.length - maxBindings
    let dropped := (keys.take excess).map Prod.fst
    retainLiveAliases { inner with
      bindings := dropped.foldl OrderedMap.erase inner.bindings
      evicted := inner.evicted ++ dropped }

def lookup (inner : StickyInner) (now : Nat) (session dccType : String) :
    Option Binding × StickyInner :=
  let inner := pruneLocked inner now
  let key : SlotKey := toLex (session, toAsciiLowercase dccType)
  let touched := inner.bindings.modify key (fun binding => { binding with lastUsed := now })
  (touched.lookup key, { inner with bindings := touched })

def record (order : Listing) (inner : StickyInner) (now : Nat) (session dccType : String)
    (instanceId : HyphenatedUuid) : StickyInner :=
  let inner := pruneLocked inner now
  let key : SlotKey := toLex (session, toAsciiLowercase dccType)
  match inner.bindings.lookup key with
  | some existing =>
    { inner with bindings := inner.bindings.insert key ⟨instanceId, existing.bound, now⟩ }
  | none =>
    enforceCapacityLocked order
      { inner with bindings := inner.bindings.insert key ⟨instanceId, false, now⟩ }

/-- The alias a caller gives, if it is not empty. -/
def aliasOf (given : Option String) : Option String :=
  ((given.map trim).filter (fun text => text ≠ "")).map toAsciiLowercase

def bind (order : Listing) (inner : StickyInner) (now : Nat) (session dccType : String)
    (instanceId : HyphenatedUuid) (given : Option String) : Option String × StickyInner :=
  let inner := pruneLocked inner now
  let dccKey := toAsciiLowercase dccType
  let inner := enforceCapacityLocked order
    { inner with
      bindings := inner.bindings.insert (toLex (session, dccKey)) ⟨instanceId, true, now⟩ }
  match aliasOf given with
  | some name =>
    (some name,
      { inner with aliases := inner.aliases.insert (toLex (session, name)) (dccKey, instanceId) })
  | none => (none, inner)

/-- `unbind`, with the number of slots that were removed. -/
def unbind (inner : StickyInner) (now : Nat) (session : String) (dccType : Option String) :
    Nat × StickyInner :=
  let inner := pruneLocked inner now
  let filter := dccType.map toAsciiLowercase
  let kept := inner.bindings.retain (fun key _ =>
    (ofLex key).1 ≠ session || filter.any (fun f => f ≠ (ofLex key).2))
  let removed := inner.bindings.entries.length - kept.entries.length
  (removed,
    if 0 < removed then retainLiveAliases { inner with bindings := kept }
    else { inner with bindings := kept })

def resolveAlias (inner : StickyInner) (session name : String) :
    Option (String × HyphenatedUuid) :=
  let name := toAsciiLowercase (trim name)
  if name = "" then none else inner.aliases.lookup (toLex (session, name))

/-! ## A call -/

inductive ResolveVia
  | explicit
  | bound
  | sticky
  | single
  | newest
  deriving DecidableEq

structure ResolvedInstance where
  entry : ServiceEntry
  via : ResolveVia
  previousInstanceId : Option HyphenatedUuid

/-- Why no instance is found. Where several match, the message describes them. -/
inductive ResolveInstanceError
  | noMatch (hint dcc : Option String)
  | prefixTooShort (given : String) (minLen : Nat)
  | multipleMatches (candidates : List ServiceEntry)

/-- The session of a call: trimmed, and none if nothing is left. -/
def sessionKey (session : Option String) : Option String :=
  (session.map trim).filter (fun key => key ≠ "")

/-- `newest_first`: the newest registration, and the smallest id among these. -/
def newestFirst (a b : ServiceEntry) : Bool :=
  b.registeredAt < a.registeredAt ||
    (b.registeredAt = a.registeredAt && a.instanceId.value ≤ b.instanceId.value)

def pickNewest (candidates : List ServiceEntry) : Option ServiceEntry :=
  (candidates.mergeSort newestFirst).head?

/-- The end of the ladder: the only candidate, or the newest. -/
def pick (candidates : List ServiceEntry) (previous : Option HyphenatedUuid) :
    Except (List ServiceEntry) ResolvedInstance :=
  match candidates with
  | [entry] => .ok ⟨entry, .single, previous⟩
  | candidates =>
    match pickNewest candidates with
    | some entry => .ok ⟨entry, .newest, previous⟩
    | none => .error candidates

def resolve (inner : StickyInner) (now : Nat) (candidates : List ServiceEntry)
    (dccFilter session : Option String) :
    StickyInner × Except (List ServiceEntry) ResolvedInstance :=
  match sessionKey session with
  | none => (inner, pick candidates none)
  | some session =>
    let found := lookup inner now session (toAsciiLowercase (dccFilter.getD ""))
    match found.1 with
    | none => (found.2, pick candidates none)
    | some binding =>
      match candidates.find? (fun e => e.instanceId = binding.instanceId) with
      | some entry => (found.2, .ok ⟨entry, if binding.bound then .bound else .sticky, none⟩)
      -- The row of the slot is gone.
      | none => (found.2, pick candidates (some binding.instanceId))

/-- `MIN_PREFIX_LEN`. -/
def minPrefixLen : Nat := 4

/-- The text of a UUID without hyphens. -/
def simpleText (id : HyphenatedUuid) : String := .ofList id.digits

/-- A hint that names an instance, or none if it is blank. -/
def hintOf (instanceHint : Option String) : Option String :=
  (instanceHint.map trim).filter (fun hint => hint ≠ "")

/-- The row an alias of the session leads to, if it is a candidate. -/
def aliasHit (inner : StickyInner) (candidates : List ServiceEntry) (session : Option String)
    (hint : String) : Option ServiceEntry :=
  ((sessionKey session).bind (fun session => resolveAlias inner session hint)).bind
    (fun target => candidates.find? (fun e => e.instanceId = target.2))

/-- `resolve_instance_candidates`. The parser is the one of the UUID library. -/
def resolveInstanceCandidates (parseStr : String → Option HyphenatedUuid) (inner : StickyInner)
    (now : Nat) (candidates : List ServiceEntry) (instanceHint dccFilter session : Option String) :
    StickyInner × Except ResolveInstanceError ResolvedInstance :=
  match hintOf instanceHint with
  | some rawHint =>
    match aliasHit inner candidates session rawHint with
    | some entry => (inner, .ok ⟨entry, .bound, none⟩)
    | none =>
      match parseStr rawHint with
      | some id =>
        match candidates.find? (fun e => e.instanceId = id) with
        | some entry => (inner, .ok ⟨entry, .explicit, none⟩)
        | none => (inner, .error (.noMatch (some rawHint) dccFilter))
      | none =>
        let hint := toAsciiLowercase rawHint
        if hint.utf8ByteSize < minPrefixLen then
          (inner, .error (.prefixTooShort rawHint minPrefixLen))
        else
          match candidates.filter (fun e => startsWith hint (simpleText e.instanceId)) with
          | [] => (inner, .error (.noMatch (some rawHint) dccFilter))
          | [entry] => (inner, .ok ⟨entry, .explicit, none⟩)
          | several => (inner, .error (.multipleMatches several))
  | none =>
    let out := resolve inner now candidates dccFilter session
    (out.1,
      match out.2 with
      | .ok resolved => .ok resolved
      | .error [] => .error (.noMatch none dccFilter)
      | .error several => .error (.multipleMatches several))

/-- The live rows a filter lets through. -/
def candidatesOf (live : List ServiceEntry) (dccFilter : Option String) : List ServiceEntry :=
  live.filter (fun e => dccFilter.all (fun f => eqIgnoreAsciiCase e.dccType f))

/-- What a call found is written into the slot of its session. -/
def remember (order : Listing) (inner : StickyInner) (recordedAt : Nat) (session : Option String)
    (found : Except ResolveInstanceError ResolvedInstance) : StickyInner :=
  match found, sessionKey session with
  | .ok resolved, some session =>
    record order inner recordedAt session (toAsciiLowercase resolved.entry.dccType)
      resolved.entry.instanceId
  | _, _ => inner

/-- `resolve_instance_for_session`. The clock is read before the ladder and
    again when the result is recorded. -/
def resolveInstanceForSession (parseStr : String → Option HyphenatedUuid) (order : Listing)
    (inner : StickyInner) (live : List ServiceEntry)
    (instanceHint dccFilter session : Option String) (now recordedAt : Nat) :
    StickyInner × Except ResolveInstanceError ResolvedInstance :=
  let out := resolveInstanceCandidates parseStr inner now (candidatesOf live dccFilter)
    instanceHint dccFilter session
  (remember order out.1 recordedAt session out.2, out.2)

/-! ## The calls of all sessions -/

inductive Action
  /-- A call of `resolve_instance_for_session`, with the rows that are live. -/
  | resolve (instanceHint dccFilter session : Option String) (live : List ServiceEntry)
      (now recordedAt : Nat)
  /-- A call of `bind`. A caller without a session is refused. -/
  | bind (session : Option String) (dccType : String) (instanceId : HyphenatedUuid)
      (given : Option String) (now : Nat)
  /-- A call of `unbind`. A caller without a session is refused. -/
  | unbind (session : Option String) (dccType : Option String) (now : Nat)

/-- The parser of UUIDs, and the order of the hash map. -/
structure Library where
  parseStr : String → Option HyphenatedUuid
  order : Listing

def next (lib : Library) (inner : StickyInner) : Action → StickyInner
  | .resolve instanceHint dccFilter session live now recordedAt =>
    (resolveInstanceForSession lib.parseStr lib.order inner live instanceHint dccFilter session now
      recordedAt).1
  | .bind session dccType instanceId given now =>
    match sessionKey session with
    | none => inner
    | some session => (bind lib.order inner now session dccType instanceId given).2
  | .unbind session dccType now =>
    match sessionKey session with
    | none => inner
    | some session => (unbind inner now session dccType).2

/-- The slots after a list of calls. -/
def run (lib : Library) (calls : List Action) : StickyInner := calls.foldl (next lib) init

/-! ## What a slot says -/

/-- The instance of a slot, and whether it is bound. -/
def slot (inner : StickyInner) (key : SlotKey) : Option (HyphenatedUuid × Bool) :=
  (inner.bindings.lookup key).map (fun binding => (binding.instanceId, binding.bound))

/-- The slot of a session for a DCC. -/
def keyOf (session dccType : String) : SlotKey := toLex (session, toAsciiLowercase dccType)

/-- Every alias names the instance of the slot it was made for. -/
def AliasesLive (inner : StickyInner) : Prop :=
  ∀ session name dcc id, inner.aliases.lookup (toLex (session, name)) = some (dcc, id) →
    ∃ bound, slot inner (toLex (session, dcc)) = some (id, bound)

/-- From one state to another slots and aliases go, and the slots that go are
    noted. -/
structure Evicts (a b : StickyInner) : Prop where
  slots : ∀ key, slot b key = slot a key ∨
    slot b key = none ∧ key ∈ b.evicted.drop a.evicted.length
  log : a.evicted <+: b.evicted
  aliases : ∀ key target, b.aliases.lookup key = some target → a.aliases.lookup key = some target
  live : AliasesLive a → AliasesLive b

/-- From one state to another one slot is written. -/
structure Writes (key : SlotKey) (value : HyphenatedUuid × Bool) (a b : StickyInner) : Prop where
  slots : ∀ other, slot b other = if other = key then some value else slot a other
  log : b.evicted = a.evicted
  aliases : b.aliases = a.aliases

theorem mem_drop_of_prefix (l l' : List SlotKey) (n : Nat) (key : SlotKey) (h : l <+: l')
    (hkey : key ∈ l.drop n) : key ∈ l'.drop n := by
  rcases h with ⟨more, rfl⟩
  rw [List.drop_append]
  exact List.mem_append_left _ hkey

theorem Evicts.refl (a : StickyInner) : Evicts a a :=
  ⟨fun _ => .inl rfl, List.prefix_rfl, fun _ _ => id, id⟩

theorem Evicts.trans (a b c : StickyInner) (h : Evicts a b) (h' : Evicts b c) : Evicts a c where
  slots := by
    intro key
    rcases h'.slots key with hsame | ⟨hnone, hmem⟩
    · rcases h.slots key with hsame' | ⟨hnone, hmem⟩
      · exact .inl (hsame.trans hsame')
      · exact .inr ⟨hsame.trans hnone, mem_drop_of_prefix _ _ _ key h'.log hmem⟩
    · exact .inr ⟨hnone, List.drop_subset_drop_left _ h.log.length_le hmem⟩
  log := h.log.trans h'.log
  aliases := fun key target htarget => h.aliases key target (h'.aliases key target htarget)
  live := fun hlive => h'.live (h.live hlive)

/-- States with the same slots, the same aliases and the same log. -/
theorem Evicts.of_eq (a b : StickyInner) (hslots : ∀ key, slot b key = slot a key)
    (hlog : b.evicted = a.evicted) (haliases : b.aliases = a.aliases) : Evicts a b where
  slots := fun key => .inl (hslots key)
  log := hlog ▸ List.prefix_rfl
  aliases := fun key target h => by rwa [haliases] at h
  live := by
    intro hlive session name dcc id h
    rw [haliases] at h
    rw [hslots]
    exact hlive session name dcc id h

theorem slot_congr (a b : StickyInner) (key : SlotKey)
    (h : b.bindings.lookup key = a.bindings.lookup key) : slot b key = slot a key := by
  rw [slot, slot, h]

/-! ## What goes -/

variable (order : Listing) (inner : StickyInner) (now : Nat) (session dccType : String)

theorem lookup_retainLiveAliases (session name dcc : String) (id : HyphenatedUuid) :
    (retainLiveAliases inner).aliases.lookup (toLex (session, name)) = some (dcc, id) ↔
      inner.aliases.lookup (toLex (session, name)) = some (dcc, id) ∧
        ∃ bound, slot inner (toLex (session, dcc)) = some (id, bound) := by
  rw [retainLiveAliases, OrderedMap.lookup_retain, Option.filter_eq_some_iff]
  refine and_congr_right (fun _ => ?_)
  rw [slot, ofLex_toLex]
  dsimp only
  cases inner.bindings.lookup (toLex (session, dcc)) with
  | none => simp only [Option.any_none, Bool.false_eq_true, Option.map_none, reduceCtorEq,
      exists_false]
  | some binding =>
      simp [Option.any_some, exists_and_left]

theorem aliasesLive_retainLiveAliases :
    AliasesLive (retainLiveAliases inner) := fun session name dcc id h =>
  ((lookup_retainLiveAliases inner session name dcc id).mp h).2

/-- Slots go, what goes is noted, and then the aliases are looked through. -/
theorem evicts_retainLiveAliases (a b : StickyInner)
    (hslots : ∀ key, slot b key = slot a key ∨
      slot b key = none ∧ key ∈ b.evicted.drop a.evicted.length)
    (hlog : a.evicted <+: b.evicted) (haliases : b.aliases = a.aliases) :
    Evicts a (retainLiveAliases b) where
  slots := hslots
  log := hlog
  aliases := by
    intro key target h
    rw [retainLiveAliases, OrderedMap.lookup_retain, Option.filter_eq_some_iff] at h
    rw [← haliases]
    exact h.1
  live := fun _ => aliasesLive_retainLiveAliases b

/-- The cap is kept, or the aliases are looked through. -/
theorem enforceCapacity_cases : enforceCapacityLocked order inner = inner ∨
      AliasesLive (enforceCapacityLocked order inner) := by
  unfold enforceCapacityLocked
  split
  next => exact .inl rfl
  next => exact .inr (aliasesLive_retainLiveAliases _)

/-- What a sweep removes is noted. -/
theorem evicts_prune : Evicts inner (pruneLocked inner now) := by
  unfold pruneLocked
  split
  next =>
    refine evicts_retainLiveAliases inner _ (fun key => ?_) (List.prefix_append _ _) rfl
    unfold slot
    dsimp only
    rw [OrderedMap.lookup_filter, List.drop_left]
    cases hbinding : inner.bindings.lookup key with
    | none => exact .inl rfl
    | some binding =>
        by_cases hfresh : now - binding.lastUsed ≤ bindingTtl
        · left
          rw [Option.filter_some, if_pos (decide_eq_true hfresh)]
        · refine .inr ⟨?_, ?_⟩
          · rw [Option.filter_some, decide_eq_false hfresh]
            rfl
          · refine List.mem_map.mpr ⟨(key, binding), List.mem_filter.mpr ⟨?_, ?_⟩, rfl⟩
            · exact OrderedMap.mem_entries _ _ _ hbinding
            · rw [decide_eq_false hfresh]
              rfl
  next => exact Evicts.refl inner

theorem lookup_foldl_erase (keys : List SlotKey) (m : OrderedMap SlotKey Binding) (key : SlotKey) :
    (keys.foldl OrderedMap.erase m).lookup key = if key ∈ keys then none else m.lookup key := by
  induction keys generalizing m with
  | nil => rfl
  | cons first keys ih =>
      rw [List.foldl_cons, ih, OrderedMap.lookup_erase]
      by_cases hfirst : key = first
      · simp [hfirst, ite_self]
      · simp [hfirst]

/-- What the cap removes is noted. -/
theorem evicts_enforceCapacity : Evicts inner (enforceCapacityLocked order inner) := by
  unfold enforceCapacityLocked
  split
  next => exact Evicts.refl inner
  next =>
    refine evicts_retainLiveAliases inner _ (fun key => ?_) (List.prefix_append _ _) rfl
    unfold slot
    dsimp only
    rw [lookup_foldl_erase, List.drop_left]
    split
    next hmem => exact .inr ⟨rfl, hmem⟩
    next => exact .inl rfl

/-! ## What the operations do -/

theorem writes_insert (a : StickyInner) (key : SlotKey) (instanceId : HyphenatedUuid)
    (bound : Bool) (now : Nat) : Writes key (instanceId, bound) a
      { a with bindings := a.bindings.insert key ⟨instanceId, bound, now⟩ } where
  slots := by
    intro other
    unfold slot
    dsimp only
    by_cases hother : other = key
    · rw [hother, OrderedMap.lookup_insert, if_pos rfl]
      rfl
    · rw [OrderedMap.lookup_insert_ne _ _ _ _ hother, if_neg hother]
  log := rfl
  aliases := rfl

/-- A lookup sweeps, and answers with the slot that is left. -/
theorem lookup_spec : Evicts (pruneLocked inner now) (lookup inner now session dccType).2 ∧
      (lookup inner now session dccType).1.map (fun b => (b.instanceId, b.bound)) =
        slot (pruneLocked inner now) (keyOf session dccType) := by
  unfold lookup keyOf slot
  dsimp only
  constructor
  · refine Evicts.of_eq _ _ (fun key => ?_) rfl rfl
    -- Only the time of its last use changes.
    unfold slot
    dsimp only
    rw [OrderedMap.lookup_modify]
    split
    next hkey => rw [hkey, Option.map_map]; rfl
    next => rfl
  · rw [OrderedMap.lookup_modify, if_pos rfl, Option.map_map]
    rfl

/-- What is recorded is written into the slot, and the slot keeps its flag. -/
theorem record_spec (instanceId : HyphenatedUuid) :
    ∃ bound mid, bound = ((slot (pruneLocked inner now) (keyOf session dccType)).any Prod.snd) ∧
      Writes (keyOf session dccType) (instanceId, bound) (pruneLocked inner now) mid ∧
        Evicts mid (record order inner now session dccType instanceId) := by
  unfold record keyOf slot
  dsimp only
  cases (pruneLocked inner now).bindings.lookup (toLex (session, toAsciiLowercase dccType)) with
  | none =>
      exact ⟨false, _, rfl, writes_insert _ _ instanceId false now, evicts_enforceCapacity order _⟩
  | some existing =>
      exact ⟨existing.bound, _, rfl, writes_insert _ _ instanceId existing.bound now,
        Evicts.refl _⟩

/-- The slots a bind leaves, before the alias is put down. -/
def boundSlots (order : Listing) (inner : StickyInner) (now : Nat) (session dccType : String)
    (instanceId : HyphenatedUuid) : StickyInner :=
  let inner := pruneLocked inner now
  enforceCapacityLocked order
    { inner with
      bindings := inner.bindings.insert (keyOf session dccType) ⟨instanceId, true, now⟩ }

theorem bind_eq (instanceId : HyphenatedUuid) (given : Option String) :
    (bind order inner now session dccType instanceId given).2 =
      match aliasOf given with
      | some name =>
        { boundSlots order inner now session dccType instanceId with
          aliases := (boundSlots order inner now session dccType instanceId).aliases.insert
            (toLex (session, name)) (toAsciiLowercase dccType, instanceId) }
      | none => boundSlots order inner now session dccType instanceId := by
  unfold bind boundSlots keyOf
  dsimp only
  cases aliasOf given <;> rfl

theorem boundSlots_spec (instanceId : HyphenatedUuid) :
    ∃ mid, Writes (keyOf session dccType) (instanceId, true) (pruneLocked inner now) mid ∧
      Evicts mid (boundSlots order inner now session dccType instanceId) :=
  ⟨_, writes_insert _ _ instanceId true now, evicts_enforceCapacity order _⟩

/-- Whether an unbind removes a slot. -/
def unbinds (session : String) (dccType : Option String) (key : SlotKey) : Bool :=
  (ofLex key).1 = session && (dccType.map toAsciiLowercase).all (fun f => f = (ofLex key).2)

/-- An unbind removes its slots, and with the first of them the aliases. -/
theorem unbind_spec (session : String) (dccType : Option String) :
    (∀ key, slot (unbind inner now session dccType).2 key =
        if unbinds session dccType key then none else slot (pruneLocked inner now) key) ∧
      (unbind inner now session dccType).2.evicted = (pruneLocked inner now).evicted ∧
      (∀ key target, (unbind inner now session dccType).2.aliases.lookup key = some target →
        (pruneLocked inner now).aliases.lookup key = some target) ∧
      (AliasesLive (pruneLocked inner now) → AliasesLive (unbind inner now session dccType).2) := by
  obtain ⟨swept, hswept⟩ : ∃ swept, swept = pruneLocked inner now := ⟨_, rfl⟩
  obtain ⟨kept, hkept⟩ : ∃ kept, kept = swept.bindings.retain (fun key _ =>
      (ofLex key).1 ≠ session ||
        (dccType.map toAsciiLowercase).any (fun f => f ≠ (ofLex key).2)) := ⟨_, rfl⟩
  have hunbind : (unbind inner now session dccType).2 =
      if 0 < swept.bindings.entries.length - kept.entries.length then
        retainLiveAliases { swept with bindings := kept }
      else { swept with bindings := kept } := by
    rw [hkept, hswept]
    rfl
  have hslots : ∀ key, slot { swept with bindings := kept } key =
      if unbinds session dccType key then none else slot swept key := by
    intro key
    unfold slot unbinds
    dsimp only
    rw [hkept, OrderedMap.lookup_retain]
    cases swept.bindings.lookup key with
    | none => simp only [Option.filter_none, Option.map_none, ite_self]
    | some binding =>
        rw [Option.filter_some]
        by_cases hsession : (ofLex key).1 = session
        · cases dccType with
          | none => simp only [hsession, ne_eq, not_true_eq_false, decide_false, Option.map_none,
              Option.any_none, Bool.or_false, Bool.false_eq_true, if_false, decide_true,
              Option.all_none, Bool.and_true, if_true]
          | some f =>
              by_cases hf : toAsciiLowercase f = (ofLex key).2
              · simp [hsession, hf]
              · simp [hsession, hf]
        · simp [hsession, Bool.true_or]
  rw [← hswept, hunbind]
  split
  next =>
    refine ⟨hslots, rfl, fun key target h => ?_, fun _ => aliasesLive_retainLiveAliases _⟩
    rw [retainLiveAliases, OrderedMap.lookup_retain, Option.filter_eq_some_iff] at h
    exact h.1
  next hnone =>
    refine ⟨hslots, rfl, fun _ _ => id, fun hlive => ?_⟩
    -- No slot was removed, so the slots are those that were there.
    have hlength : kept.entries.length = swept.bindings.entries.length := by
      have hle : kept.entries.length ≤ swept.bindings.entries.length := by
        rw [hkept]
        exact List.length_filter_le _ _
      omega
    have hsame : kept.entries = swept.bindings.entries := by
      rw [hkept] at hlength ⊢
      exact List.filter_eq_self.mpr (List.length_filter_eq_length_iff.mp hlength)
    intro session' name dcc id halias
    rcases hlive session' name dcc id halias with ⟨bound, hbound⟩
    refine ⟨bound, ?_⟩
    rw [← hbound]
    refine slot_congr _ _ _ ?_
    change OrderedMap.lookupIn _ kept.entries = OrderedMap.lookupIn _ swept.bindings.entries
    rw [hsame]

/-! ## Where a call leads -/

theorem keyOf_lower : keyOf session (toAsciiLowercase dccType) = keyOf session dccType := by
  unfold keyOf
  rw [toAsciiLowercase_idem]

/-- A hint names a row: it is an alias for it, its id, or the front of its id. -/
def Named (parseStr : String → Option HyphenatedUuid) (inner : StickyInner)
    (session : Option String) (hint : String) (e : ServiceEntry) : Prop :=
  (∃ dcc, (sessionKey session).bind (fun session => resolveAlias inner session hint) =
      some (dcc, e.instanceId)) ∨
    parseStr hint = some e.instanceId ∨
      startsWith (toAsciiLowercase hint) (simpleText e.instanceId) = true

/-- A call without a hint falls on a row: the one of the slot it looks into, if
    that is a candidate, and otherwise the newest. -/
def FallsOn (inner : StickyInner) (candidates : List ServiceEntry)
    (dccFilter session : Option String) (e : ServiceEntry) : Prop :=
  match (sessionKey session).bind (fun s => slot inner (keyOf s (dccFilter.getD ""))) with
  | some (id, _) =>
    if candidates.any (fun c => c.instanceId = id) then e.instanceId = id
    else pickNewest candidates = some e
  | none => pickNewest candidates = some e

/-- The slots a call finds: those a sweep leaves of what is there. -/
def seen (inner : StickyInner) (instanceHint : Option String) (now recordedAt : Nat) :
    StickyInner :=
  match hintOf instanceHint with
  | some _ => pruneLocked inner recordedAt
  | none => pruneLocked inner now

/-- The rows a call may lead to. -/
def Leads (parseStr : String → Option HyphenatedUuid) (inner : StickyInner) (now : Nat)
    (candidates : List ServiceEntry) (instanceHint dccFilter session : Option String)
    (e : ServiceEntry) : Prop :=
  e ∈ candidates ∧
    match hintOf instanceHint with
    | some hint => Named parseStr inner session hint e
    | none => FallsOn (pruneLocked inner now) candidates dccFilter session e

/-- The end of the ladder is the newest row. -/
theorem pick_spec (candidates : List ServiceEntry) (previous : Option HyphenatedUuid)
    (r : ResolvedInstance) (h : pick candidates previous = .ok r) :
    pickNewest candidates = some r.entry ∧ r.entry ∈ candidates ∧
      (r.via = .single ∨ r.via = .newest) := by
  have hmem : ∀ e, pickNewest candidates = some e → e ∈ candidates := fun e he =>
    (List.mergeSort_perm _ _).mem_iff.mp (List.mem_of_mem_head? he)
  unfold pick at h
  split at h
  next entry =>
    rw [← Except.ok.inj h]
    exact ⟨by rw [pickNewest, List.mergeSort_singleton]; rfl, List.mem_singleton_self _, .inl rfl⟩
  next =>
    split at h
    next entry hentry =>
      rw [← Except.ok.inj h]
      exact ⟨hentry, hmem entry hentry, .inr rfl⟩
    next => cases h

/-- No candidate is newer than the newest one. -/
theorem newestFirst_of_pickNewest (candidates : List ServiceEntry) (e c : ServiceEntry)
    (h : pickNewest candidates = some e) (hc : c ∈ candidates) : newestFirst e c = true := by
  have htrans : ∀ a b d, newestFirst a b = true → newestFirst b d = true →
      newestFirst a d = true := by
    intro a b d hab hbd
    simp only [newestFirst, Bool.or_eq_true, Bool.and_eq_true, decide_eq_true_eq] at *
    omega
  have htotal : ∀ a b, (newestFirst a b || newestFirst b a) = true := by
    intro a b
    simp only [newestFirst, Bool.or_eq_true, Bool.and_eq_true, decide_eq_true_eq]
    omega
  have hsorted := List.pairwise_mergeSort htrans htotal candidates
  have hmem : c ∈ candidates.mergeSort newestFirst := List.mem_mergeSort.mpr hc
  rcases List.head?_eq_some_iff.mp h with ⟨rest, hrest⟩
  rw [hrest] at hsorted hmem
  rcases List.mem_cons.mp hmem with rfl | hmem
  · have hself := htotal c c
    rwa [Bool.or_self] at hself
  · exact (List.pairwise_cons.mp hsorted).1 c hmem

theorem any_of_find? (candidates : List ServiceEntry) (id : HyphenatedUuid) (e : ServiceEntry)
    (h : candidates.find? (fun e => e.instanceId = id) = some e) :
    e ∈ candidates ∧ e.instanceId = id ∧ candidates.any (fun c => c.instanceId = id) = true := by
  have hid : e.instanceId = id := by
    have htest := List.find?_some h
    exact of_decide_eq_true htest
  have hmem := List.mem_of_find?_eq_some h
  exact ⟨hmem, hid, List.any_eq_true.mpr ⟨e, hmem, decide_eq_true hid⟩⟩

theorem any_of_find?_eq_none (candidates : List ServiceEntry) (id : HyphenatedUuid)
    (h : candidates.find? (fun e => e.instanceId = id) = none) :
    candidates.any (fun c => c.instanceId = id) = false := by
  rw [← Bool.not_eq_true, List.any_eq_true]
  rintro ⟨e, he, hid⟩
  exact absurd hid (List.find?_eq_none.mp h e he)

section Ladder

variable (inner : StickyInner) (now : Nat) (candidates : List ServiceEntry)
  (dccFilter : Option String)

/-- The ladder of a caller with a session: what it makes of its slot. -/
theorem resolve_spec (session : Option String) (s : String)
    (hsession : sessionKey session = some s) :
    Evicts (pruneLocked inner now) (resolve inner now candidates dccFilter session).1 ∧
      match slot (pruneLocked inner now) (keyOf s (dccFilter.getD "")) with
      | none => (resolve inner now candidates dccFilter session).2 = pick candidates none
      | some (id, bound) =>
        match candidates.find? (fun e => e.instanceId = id) with
        | some entry => (resolve inner now candidates dccFilter session).2 =
            .ok ⟨entry, if bound then .bound else .sticky, none⟩
        | none =>
          (resolve inner now candidates dccFilter session).2 = pick candidates (some id) := by
  have hfound := lookup_spec inner now s (toAsciiLowercase (dccFilter.getD ""))
  rw [keyOf_lower] at hfound
  unfold resolve
  rw [hsession, ← hfound.2]
  dsimp only
  cases (lookup inner now s (toAsciiLowercase (dccFilter.getD ""))).1 with
  | none => exact ⟨hfound.1, rfl⟩
  | some binding =>
      dsimp only [Option.map_some]
      cases candidates.find? (fun e => e.instanceId = binding.instanceId) with
      | none => exact ⟨hfound.1, rfl⟩
      | some entry => exact ⟨hfound.1, rfl⟩

/-- What the ladder returns: the row of the slot, under its flag, or the end of
    the ladder. -/
theorem resolve_ok (session : Option String) (r : ResolvedInstance)
    (h : (resolve inner now candidates dccFilter session).2 = .ok r) :
    r.entry ∈ candidates ∧ FallsOn (pruneLocked inner now) candidates dccFilter session r.entry ∧
      (r.via = .bound → ∃ s, sessionKey session = some s ∧
        slot (pruneLocked inner now) (keyOf s (dccFilter.getD "")) =
          some (r.entry.instanceId, true)) := by
  cases hsession : sessionKey session with
  | none =>
      rw [resolve, hsession] at h
      rcases pick_spec candidates none r h with ⟨hnewest, hmem, hvia⟩
      refine ⟨hmem, ?_, fun hbound => ?_⟩
      · rw [FallsOn, hsession]
        exact hnewest
      · rcases hvia with hvia | hvia <;> rw [hvia] at hbound <;> cases hbound
  | some s =>
      have hspec := (resolve_spec inner now candidates dccFilter session s hsession).2
      unfold FallsOn
      rw [hsession, Option.bind_some]
      cases hslot : slot (pruneLocked inner now) (keyOf s (dccFilter.getD "")) with
      | none =>
          rw [hslot] at hspec
          rcases pick_spec candidates none r (hspec.symm.trans h) with ⟨hnewest, hmem, hvia⟩
          refine ⟨hmem, hnewest, fun hbound => ?_⟩
          rcases hvia with hvia | hvia <;> rw [hvia] at hbound <;> cases hbound
      | some value =>
          rcases value with ⟨id, bound⟩
          rw [hslot] at hspec
          dsimp only at hspec ⊢
          cases hfind : candidates.find? (fun e => e.instanceId = id) with
          | none =>
              rw [hfind] at hspec
              rcases pick_spec candidates (some id) r (hspec.symm.trans h) with
                ⟨hnewest, hmem, hvia⟩
              rw [any_of_find?_eq_none candidates id hfind]
              refine ⟨hmem, hnewest, fun hbound => ?_⟩
              rcases hvia with hvia | hvia <;> rw [hvia] at hbound <;> cases hbound
          | some entry =>
              rw [hfind] at hspec
              rw [← Except.ok.inj (hspec.symm.trans h)]
              rcases any_of_find? candidates id entry hfind with ⟨hmem, hid, hany⟩
              rw [if_pos hany]
              refine ⟨hmem, hid, fun hbound => ⟨s, rfl, ?_⟩⟩
              cases bound with
              | false => cases hbound
              | true => rw [hslot, hid]

/-- A caller whose slot names a candidate gets it, under the flag of the slot. -/
theorem resolve_of_slot (session : Option String) (s : String) (id : HyphenatedUuid) (bound : Bool)
    (hsession : sessionKey session = some s)
    (hslot : slot (pruneLocked inner now) (keyOf s (dccFilter.getD "")) = some (id, bound))
    (hlive : ∃ e ∈ candidates, e.instanceId = id) :
    ∃ r, (resolve inner now candidates dccFilter session).2 = .ok r ∧ r.entry.instanceId = id ∧
      r.via = if bound then .bound else .sticky := by
  have hspec := (resolve_spec inner now candidates dccFilter session s hsession).2
  rw [hslot] at hspec
  dsimp only at hspec
  cases hfind : candidates.find? (fun e => e.instanceId = id) with
  | none =>
      rcases hlive with ⟨e, he, hid⟩
      exact absurd (decide_eq_true hid) (List.find?_eq_none.mp hfind e he)
  | some entry =>
      rw [hfind] at hspec
      exact ⟨_, hspec, (any_of_find? candidates id entry hfind).2.1, rfl⟩

end Ladder

section Call

variable (parseStr : String → Option HyphenatedUuid) (inner : StickyInner) (now : Nat)
  (candidates : List ServiceEntry) (instanceHint dccFilter session : Option String)

/-- Where a call leads, it returns a row, and whether it calls the row bound. -/
theorem leads_of_ok (r : ResolvedInstance)
    (h : (resolveInstanceCandidates parseStr inner now candidates instanceHint dccFilter
      session).2 = .ok r) :
    Leads parseStr inner now candidates instanceHint dccFilter session r.entry ∧
      (r.via = .bound → ∃ s, sessionKey session = some s ∧
        ((∃ hint dcc, resolveAlias inner s hint = some (dcc, r.entry.instanceId)) ∨
          hintOf instanceHint = none ∧ slot (pruneLocked inner now) (keyOf s (dccFilter.getD "")) =
            some (r.entry.instanceId, true))) := by
  unfold resolveInstanceCandidates at h
  unfold Leads
  cases hhint : hintOf instanceHint with
  | none =>
      rw [hhint] at h
      dsimp only at h
      cases hout : (resolve inner now candidates dccFilter session).2 with
      | ok r' =>
          rw [hout] at h
          rw [← Except.ok.inj h]
          rcases resolve_ok inner now candidates dccFilter session r' hout with ⟨hmem, hfalls, hvia⟩
          refine ⟨⟨hmem, hfalls⟩, fun hbound => ?_⟩
          rcases hvia hbound with ⟨s, hs, hslot⟩
          exact ⟨s, hs, .inr ⟨rfl, hslot⟩⟩
      | error rest =>
          rw [hout] at h
          cases rest <;> cases h
  | some hint =>
      rw [hhint] at h
      dsimp only at h
      split at h
      next entry hhit =>
        rw [← Except.ok.inj h]
        rcases Option.bind_eq_some_iff.mp hhit with ⟨⟨dcc, id⟩, htarget, hfind⟩
        rcases any_of_find? candidates id entry hfind with ⟨hmem, hid, _⟩
        dsimp only
        rw [hid]
        refine ⟨⟨hmem, .inl ⟨dcc, ?_⟩⟩, fun _ => ?_⟩
        · rw [hid]
          exact htarget
        · rcases Option.bind_eq_some_iff.mp htarget with ⟨s, hs, halias⟩
          exact ⟨s, hs, .inl ⟨hint, dcc, halias⟩⟩
      next =>
        split at h
        next id hparse =>
          split at h
          next entry hfind =>
            rw [← Except.ok.inj h]
            rcases any_of_find? candidates id entry hfind with ⟨hmem, hid, _⟩
            refine ⟨⟨hmem, .inr (.inl ?_)⟩, fun hbound => by cases hbound⟩
            rw [hparse, hid]
          next => cases h
        next =>
          split at h
          next => cases h
          next =>
            split at h
            next => cases h
            next entry hfilter =>
              rw [← Except.ok.inj h]
              have hmem : entry ∈ candidates.filter
                  (fun e => startsWith (toAsciiLowercase hint) (simpleText e.instanceId)) := by
                rw [hfilter]
                exact List.mem_singleton_self _
              rcases List.mem_filter.mp hmem with ⟨hin, hstart⟩
              exact ⟨⟨hin, .inr (.inr hstart)⟩, fun hbound => by cases hbound⟩
            next => cases h

/-- A call without a hint whose slot names a candidate gets it. -/
theorem ok_of_slot (s : String) (id : HyphenatedUuid) (bound : Bool)
    (hhint : hintOf instanceHint = none) (hsession : sessionKey session = some s)
    (hslot : slot (pruneLocked inner now) (keyOf s (dccFilter.getD "")) = some (id, bound))
    (hlive : ∃ e ∈ candidates, e.instanceId = id) :
    ∃ r, (resolveInstanceCandidates parseStr inner now candidates instanceHint dccFilter
        session).2 = .ok r ∧ r.entry.instanceId = id ∧
      r.via = if bound then .bound else .sticky := by
  rcases resolve_of_slot inner now candidates dccFilter session s id bound hsession hslot hlive with
    ⟨r, hr, hid⟩
  refine ⟨r, ?_, hid⟩
  unfold resolveInstanceCandidates
  rw [hhint]
  dsimp only
  rw [hr]

/-- The ladder itself only removes slots, and what it removes is noted. -/
theorem evicts_candidates :
    Evicts inner (resolveInstanceCandidates parseStr inner now candidates instanceHint dccFilter
      session).1 := by
  unfold resolveInstanceCandidates
  cases hintOf instanceHint with
  | none =>
      dsimp only
      cases hsession : sessionKey session with
      | none =>
          rw [resolve, hsession]
          exact Evicts.refl inner
      | some s =>
          exact (evicts_prune inner now).trans _ _ _
            (resolve_spec inner now candidates dccFilter session s hsession).1
  | some hint =>
      dsimp only
      split
      next => exact Evicts.refl inner
      next =>
        split
        next => split <;> exact Evicts.refl inner
        next =>
          split
          next => exact Evicts.refl inner
          next => split <;> exact Evicts.refl inner

/-- When a call records what it found, it finds no other slots than those it has
    seen. -/
theorem evicts_seen (recordedAt : Nat) (s : String) (hsession : sessionKey session = some s) :
    Evicts (seen inner instanceHint now recordedAt)
      (pruneLocked (resolveInstanceCandidates parseStr inner now candidates instanceHint dccFilter
        session).1 recordedAt) := by
  have hprune := evicts_prune (resolveInstanceCandidates parseStr inner now candidates instanceHint
    dccFilter session).1 recordedAt
  unfold seen
  cases hhint : hintOf instanceHint with
  | none =>
      dsimp only
      refine Evicts.trans _ _ _ ?_ hprune
      unfold resolveInstanceCandidates
      rw [hhint]
      exact (resolve_spec inner now candidates dccFilter session s hsession).1
  | some hint =>
      have hsame : (resolveInstanceCandidates parseStr inner now candidates instanceHint dccFilter
          session).1 = inner := by
        unfold resolveInstanceCandidates
        rw [hhint]
        dsimp only
        split
        next => rfl
        next =>
          split
          next => split <;> rfl
          next =>
            split
            next => rfl
            next => split <;> rfl
      rw [hsame]
      exact Evicts.refl _

end Call

section Effect

variable (lib : Library) (inner : StickyInner) (live : List ServiceEntry)
  (instanceHint dccFilter session : Option String) (now recordedAt : Nat)

/-- A call that finds a row for a session: slots go, the row is written into the
    slot of the session for the DCC of the row, and slots go. -/
theorem call_ok (s : String) (r : ResolvedInstance) (hsession : sessionKey session = some s)
    (hout : (resolveInstanceCandidates lib.parseStr inner now (candidatesOf live dccFilter)
      instanceHint dccFilter session).2 = .ok r) :
    ∃ swept mid bound,
      Evicts (seen inner instanceHint now recordedAt) swept ∧
      Evicts (resolveInstanceCandidates lib.parseStr inner now (candidatesOf live dccFilter)
        instanceHint dccFilter session).1 swept ∧
      bound = (slot swept (keyOf s r.entry.dccType)).any Prod.snd ∧
      Writes (keyOf s r.entry.dccType) (r.entry.instanceId, bound) swept mid ∧
      Evicts mid
        (next lib inner (.resolve instanceHint dccFilter session live now recordedAt)) := by
  have hseen := evicts_seen lib.parseStr inner now (candidatesOf live dccFilter) instanceHint
    dccFilter session recordedAt s hsession
  rcases record_spec lib.order (resolveInstanceCandidates lib.parseStr inner now
    (candidatesOf live dccFilter) instanceHint dccFilter session).1 recordedAt s
    (toAsciiLowercase r.entry.dccType) r.entry.instanceId with ⟨bound, mid, hbound, hwrite, hafter⟩
  rw [keyOf_lower] at hbound hwrite
  refine ⟨_, mid, bound, hseen, evicts_prune _ recordedAt, hbound, hwrite, ?_⟩
  unfold next resolveInstanceForSession remember
  dsimp only
  rw [hout, hsession]
  exact hafter

/-- What a call does to the slots: it finds nothing, or is nobody's, and slots
    go; or it writes what it found. -/
theorem call_spec :
    Evicts inner (next lib inner (.resolve instanceHint dccFilter session live now recordedAt)) ∨
      ∃ s r swept mid bound, sessionKey session = some s ∧
        (resolveInstanceCandidates lib.parseStr inner now (candidatesOf live dccFilter) instanceHint
          dccFilter session).2 = .ok r ∧
        Evicts (seen inner instanceHint now recordedAt) swept ∧
        Evicts (resolveInstanceCandidates lib.parseStr inner now (candidatesOf live dccFilter)
          instanceHint dccFilter session).1 swept ∧
        bound = (slot swept (keyOf s r.entry.dccType)).any Prod.snd ∧
        Writes (keyOf s r.entry.dccType) (r.entry.instanceId, bound) swept mid ∧
        Evicts mid
          (next lib inner (.resolve instanceHint dccFilter session live now recordedAt)) := by
  have hbefore := evicts_candidates lib.parseStr inner now (candidatesOf live dccFilter)
    instanceHint dccFilter session
  have hok := call_ok lib inner live instanceHint dccFilter session now recordedAt
  unfold next resolveInstanceForSession remember at *
  dsimp only at *
  split
  next r s hout hsession =>
    rcases hok s r hsession hout with ⟨swept, mid, bound, hseen, hswept, hbound, hwrite, hafter⟩
    rw [hout, hsession] at hafter
    exact .inr ⟨s, r, swept, mid, bound, hsession, hout, hseen, hswept, hbound, hwrite, hafter⟩
  next => exact .inl hbefore

end Effect

end Resolver

end Gateway

end DccMcp
