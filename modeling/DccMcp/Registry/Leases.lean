import DccMcp.Lib.Machine
import DccMcp.Registry.Entry
import Mathlib.Data.List.Find

/-!
# Instance Leases

A client that wants an instance for itself leases it. The registry looks for a
row that is available and has no lease, and while it goes over the rows it
clears the leases that have run out.

It clears them with the function that gives an instance back, not with the one
the readers use. So a row that is shutting down and has a lease that ran out
becomes available, and is granted to the next client; and every row that is
reclaimed looks as if its instance had just been heard of. A hint that should
pick one instance is compared as a prefix, and the first of several rows with
this prefix is taken. And a row that is registered again loses its lease.

`leases_lawful` says that these are all the ways in which the rules of leasing
are broken. The rows are a hash map, so the order in which a scan meets them is
a parameter of the operation, as are the moments at which it reads the clock.

## Main definitions

* `Rows`, `Order`, `Request`: The rows, the order of a scan, what is asked for.
* `scanRow`, `acquireLease`, `releaseLease`, `updateEntry`: The operations.
* `Operation`, `next`: One operation of a run.
* `KeepsLeases`, `GrantsFree`, `ReclaimsAsProjected`, `GrantsSingle`, `Lawful`:
  The rules of leasing.
* `Clean`: The condition under which an operation follows them.

## Theorems

* `leases_lawful`: And so it is for whole runs.
-/

namespace DccMcp

namespace Registry

namespace Leases

open Machine

/-- The rows of the registry by their keys. -/
abbrev Rows := OrderedMap ServiceKey ServiceEntry

/-- The order in which a hash map is gone over. -/
structure Order where
  arrange : List ServiceKey → List ServiceKey
  perm : ∀ keys, (arrange keys).Perm keys

/-- What `acquire_lease` is asked for, and the moments at which it reads the
    clock: at the start, and when it touches a row. -/
structure Request where
  dccType : String
  instanceId : Option String
  owner : String
  currentJobId : Option String
  ttl : Option Nat
  now : Nat
  touched : ServiceKey → Nat

/-- The row has the type that is asked for, and the hint fits. -/
def Request.selects (req : Request) (entry : ServiceEntry) : Bool :=
  Text.eqIgnoreAsciiCase entry.dccType req.dccType &&
    match req.instanceId with
    | none => true
    | some id =>
      let full : String := .ofList entry.instanceId.text
      full == id || Text.startsWith id full

/-- The row can be granted as it is. -/
def isFree (entry : ServiceEntry) : Bool :=
  entry.status == .available && entry.leaseOwner.isNone

/-- A lease that has run out is cleared. -/
def Request.reclaim (req : Request) (key : ServiceKey) (entry : ServiceEntry) : ServiceEntry :=
  if entry.leaseExpired req.now then entry.clearLease (req.touched key) else entry

/-- The row with the lease that is asked for. -/
def Request.grant (req : Request) (key : ServiceKey) (entry : ServiceEntry) : ServiceEntry :=
  entry.acquireLease req.owner req.currentJobId (req.ttl.map (req.now + ·)) (req.touched key)

/-- What the scan of `acquire_lease` keeps. The row that is selected has its
    key with it. -/
structure Scan where
  rows : Rows
  selected : Option (ServiceKey × ServiceEntry)
  changed : Bool

/-- One round of the scan. -/
def scanRow (req : Request) (s : Scan) (key : ServiceKey) : Scan :=
  match s.rows.lookup key with
  | none => s
  | some entry =>
    let reclaimed := req.reclaim key entry
    let s := { s with
      rows := s.rows.insert key reclaimed
      changed := s.changed || entry.leaseExpired req.now }
    if s.selected.isSome || !req.selects reclaimed then s
    else if isFree reclaimed then
      let granted := req.grant key reclaimed
      ⟨s.rows.insert key granted, some (key, granted), true⟩
    else s

/-- The scan over all rows. -/
def scan (req : Request) (s : Scan) (keys : List ServiceKey) : Scan := keys.foldl (scanRow req) s

/-- `FileRegistry::acquire_lease`: the rows, and the row that was granted. -/
def acquireLease (rows : Rows) (order : Order) (req : Request) : Scan :=
  scan req ⟨rows, none, false⟩ (order.arrange (rows.entries.map Prod.fst))

def releaseLease (rows : Rows) (key : ServiceKey) (owner : Option String) (now : Nat) :
    Option ServiceEntry × Rows :=
  match rows.lookup key with
  | none => (none, rows)
  | some entry =>
    let ownerMatches := owner.any (fun expected => entry.leaseOwner == some expected)
    if ownerMatches && entry.leaseOwner.isSome then
      (some (entry.clearLease now), rows.insert key (entry.clearLease now))
    else (none, rows)

/-- `heartbeat`, `update_status` and `update_snapshot`: a change of one row, if
    it is there. -/
def updateEntry (rows : Rows) (key : ServiceKey) (f : ServiceEntry → ServiceEntry) : Rows :=
  rows.modify key f

/-- One operation, with the moment at which it is made. -/
inductive Operation
  | register (entry : ServiceEntry) (now : Nat)
  | acquire (order : Order) (req : Request)
  | release (key : ServiceKey) (owner : Option String) (now : Nat)
  | updateStatus (key : ServiceKey) (status : ServiceStatus) (now : Nat)
  | heartbeat (key : ServiceKey) (now : Nat)
  | updateSnapshot (key : ServiceKey) (snapshot : ServiceSnapshot) (now : Nat)

/-- The moment of an operation. -/
def Operation.now : Operation → Nat
  | .register _ now => now
  | .acquire _ req => req.now
  | .release _ _ now => now
  | .updateStatus _ _ now => now
  | .heartbeat _ now => now
  | .updateSnapshot _ _ now => now

/-- The rows after an operation. -/
def next (rows : Rows) : Operation → Rows
  | .register entry _ => rows.insert entry.key entry
  | .acquire order req => (acquireLease rows order req).rows
  | .release key owner now => (releaseLease rows key owner now).2
  | .updateStatus key status _ =>
    updateEntry rows key (fun entry => { entry with status := status })
  | .heartbeat key now => updateEntry rows key (fun entry => entry.touch now)
  | .updateSnapshot key snapshot now =>
    updateEntry rows key (fun entry => entry.applySnapshot snapshot now)

/-! ## The rules of leasing -/

/-- A row with a lease that has not run out keeps it, unless its own owner
    releases it. -/
def KeepsLeases (rows : Rows) (op : Operation) : Prop :=
  ∀ key entry owner, rows.lookup key = some entry → entry.activeLeaseOwner op.now = some owner →
    (∀ now, op ≠ .release key (some owner) now) →
      ∃ entry', (next rows op).lookup key = some entry' ∧ entry'.lease = entry.lease

/-- A row that is granted was available and had no lease, as a reader sees it. -/
def GrantsFree (rows : Rows) (order : Order) (req : Request) : Prop :=
  ∀ key granted, (acquireLease rows order req).selected = some (key, granted) →
    ∃ entry, rows.lookup key = some entry ∧
      (entry.clearExpiredLease req.now).status = .available ∧
      (entry.clearExpiredLease req.now).leaseOwner = none

/-- A lease that has run out is cleared as a reader sees it, in a row that is
    then granted and in any other. -/
def ReclaimsAsProjected (rows : Rows) (order : Order) (req : Request) : Prop :=
  ∀ key entry, rows.lookup key = some entry → entry.leaseExpired req.now = true →
    let projected := entry.clearExpiredLease req.now
    (acquireLease rows order req).rows.lookup key =
      if (acquireLease rows order req).selected.any (fun found => found.1 = key) then
        some (req.grant key projected)
      else some projected

/-- With a hint, a row is granted only if the hint selects no other one. -/
def GrantsSingle (rows : Rows) (order : Order) (req : Request) : Prop :=
  req.instanceId.isSome → (acquireLease rows order req).selected.isSome →
    ∀ key key' entry entry', rows.lookup key = some entry → rows.lookup key' = some entry' →
      req.selects entry = true → req.selects entry' = true → key = key'

/-- An operation follows the rules. -/
def Lawful (rows : Rows) (op : Operation) : Prop :=
  KeepsLeases rows op ∧
    match op with
    | .acquire order req =>
      GrantsFree rows order req ∧ ReclaimsAsProjected rows order req ∧ GrantsSingle rows order req
    | _ => True

/-! ## The condition -/

/-- The row can be granted as a reader sees it. -/
def Request.wants (req : Request) (rows : Rows) (key : ServiceKey) : Bool :=
  match rows.lookup key with
  | none => false
  | some entry => req.selects entry && isFree (entry.clearExpiredLease req.now)

/-- The first row of a scan that can be granted as a reader sees it. -/
def Request.first (req : Request) (rows : Rows) (order : Order) : Option ServiceKey :=
  (order.arrange (rows.entries.map Prod.fst)).find? (req.wants rows)

/-- Every row whose lease has run out is available or busy, and was heard of at
    this moment unless it is the one to be granted; and a hint that fits a row
    that can be granted fits no other one. -/
def CleanAcquire (rows : Rows) (order : Order) (req : Request) : Prop :=
  (∀ key entry, rows.lookup key = some entry → entry.leaseExpired req.now = true →
    (entry.status = .available ∨ entry.status = .busy) ∧
      (entry.lastHeartbeat = req.touched key ∨ req.first rows order = some key)) ∧
  (req.instanceId.isSome → (req.first rows order).isSome →
    ∀ key key' entry entry', rows.lookup key = some entry → rows.lookup key' = some entry' →
      req.selects entry = true → req.selects entry' = true → key = key')

/-- A row that is registered over has no lease that has not run out, or the
    same one. -/
def Clean (rows : Rows) (op : Operation) : Prop :=
  match op with
  | .register entry now =>
    ∀ old owner, rows.lookup entry.key = some old → old.activeLeaseOwner now = some owner →
      entry.lease = old.lease
  | .acquire order req => CleanAcquire rows order req
  | _ => True

/-! ## What a scan does -/

/-- The row is granted when the scan meets it and has selected none before. -/
def Request.takes (req : Request) (rows : Rows) (key : ServiceKey) : Bool :=
  match rows.lookup key with
  | none => false
  | some entry => req.selects entry && isFree (req.reclaim key entry)

/-- What becomes of a row. -/
def Request.outcome (req : Request) (granted : Bool) (key : ServiceKey) (entry : ServiceEntry) :
    ServiceEntry :=
  if granted then req.grant key (req.reclaim key entry) else req.reclaim key entry

variable (req : Request) (s : Scan) (rows : Rows) (order : Order)

theorem selects_reclaim (key : ServiceKey) (entry : ServiceEntry) :
    req.selects (req.reclaim key entry) = req.selects entry := by
  unfold Request.reclaim
  split <;> rfl

theorem takes_congr (rows rows' : Rows) (key : ServiceKey)
    (h : rows'.lookup key = rows.lookup key) : req.takes rows' key = req.takes rows key := by
  unfold Request.takes
  rw [h]

theorem scanRow_none (key : ServiceKey) (h : s.rows.lookup key = none) : scanRow req s key = s := by
  unfold scanRow
  rw [h]

theorem scanRow_some (key : ServiceKey) (entry : ServiceEntry)
    (h : s.rows.lookup key = some entry) :
    ∃ changed, scanRow req s key =
      if s.selected.isNone && req.takes s.rows key then
        ⟨(s.rows.insert key (req.reclaim key entry)).insert key
            (req.grant key (req.reclaim key entry)),
          some (key, req.grant key (req.reclaim key entry)), true⟩
      else ⟨s.rows.insert key (req.reclaim key entry), s.selected, changed⟩ := by
  refine ⟨s.changed || entry.leaseExpired req.now, ?_⟩
  have htakes : req.takes s.rows key = (req.selects entry && isFree (req.reclaim key entry)) := by
    unfold Request.takes
    rw [h]
  unfold scanRow
  rw [h, htakes]
  simp only [selects_reclaim]
  cases hselected : s.selected with
  | some found => rfl
  | none =>
      cases req.selects entry <;> cases isFree (req.reclaim key entry) <;> rfl

theorem lookup_insert_ite (rows : Rows) (key key' : ServiceKey) (entry : ServiceEntry) :
    (rows.insert key entry).lookup key' = if key' = key then some entry else rows.lookup key' := by
  split
  next hkey => rw [hkey, OrderedMap.lookup_insert]
  next hkey => rw [OrderedMap.lookup_insert_ne _ _ _ _ hkey]

/-- One round of the scan, for the row it meets and for the others. -/
theorem lookup_scanRow (req : Request) (s : Scan) (key key' : ServiceKey) :
    (scanRow req s key).rows.lookup key' =
      if key' = key then
        (s.rows.lookup key).map
          (req.outcome (s.selected.isNone && req.takes s.rows key) key)
      else s.rows.lookup key' := by
  cases hentry : s.rows.lookup key with
  | none =>
      rw [scanRow_none req s key hentry]
      split
      next hkey => rw [hkey, hentry]; rfl
      next => rfl
  | some entry =>
      rcases scanRow_some req s key entry hentry with ⟨changed, heq⟩
      rw [heq, Option.map_some]
      unfold Request.outcome
      split
      next =>
        rw [lookup_insert_ite, lookup_insert_ite]
        split <;> rfl
      next => rw [lookup_insert_ite]

theorem selected_scanRow (key : ServiceKey) : (scanRow req s key).selected =
      if s.selected.isNone && req.takes s.rows key then
        (s.rows.lookup key).map (fun entry => (key, req.grant key (req.reclaim key entry)))
      else s.selected := by
  cases hentry : s.rows.lookup key with
  | none =>
      rw [scanRow_none req s key hentry]
      split
      next hboth =>
        rw [Bool.and_eq_true] at hboth
        rw [Option.map_none, Option.isNone_iff_eq_none.mp hboth.1]
      next => rfl
  | some entry =>
      rcases scanRow_some req s key entry hentry with ⟨changed, heq⟩
      rw [heq, Option.map_some]
      split <;> rfl

/-- The row a scan grants: the first one it takes, if none was selected before. -/
def Request.found (req : Request) (s : Scan) (keys : List ServiceKey) : Option ServiceKey :=
  if s.selected.isNone then keys.find? (req.takes s.rows) else none

/-- What a scan does to every row. The induction is on the keys that are still
    to come; none of them has been touched. -/
theorem lookup_scan (keys : List ServiceKey) (hnodup : keys.Nodup) (s : Scan) :
    (∀ key, (scan req s keys).rows.lookup key =
      if key ∈ keys then
        (s.rows.lookup key).map (req.outcome (decide (req.found s keys = some key)) key)
      else s.rows.lookup key) ∧
    (scan req s keys).selected =
      match req.found s keys with
      | none => s.selected
      | some key =>
        (s.rows.lookup key).map (fun entry => (key, req.grant key (req.reclaim key entry))) := by
  induction keys generalizing s with
  | nil =>
      have hfound : req.found s [] = none := by
        unfold Request.found
        split <;> rfl
      rw [hfound]
      refine ⟨fun key => ?_, rfl⟩
      rw [if_neg List.not_mem_nil]
      rfl
  | cons first rest ih =>
      rw [List.nodup_cons] at hnodup
      have hother : ∀ key ∈ rest, (scanRow req s first).rows.lookup key = s.rows.lookup key := by
        intro key hkey
        rw [lookup_scanRow, if_neg]
        rintro rfl
        exact hnodup.1 hkey
      have htakes : rest.find? (req.takes (scanRow req s first).rows) =
          rest.find? (req.takes s.rows) :=
        List.find?_congr (fun key hkey => takes_congr req _ _ key (hother key hkey))
      have hscan : scan req s (first :: rest) = scan req (scanRow req s first) rest := rfl
      rcases ih hnodup.2 (scanRow req s first) with ⟨hrows, hselected⟩
      have hfirst := selected_scanRow req s first
      -- Either the first row is the one that is granted, or it is one of the rest.
      by_cases hgranted : (s.selected.isNone && req.takes s.rows first) = true
      · have hboth := hgranted
        rw [Bool.and_eq_true] at hboth
        have hfound : req.found s (first :: rest) = some first := by
          unfold Request.found
          rw [if_pos hboth.1, List.find?_cons_of_pos hboth.2]
        rw [if_pos hgranted] at hfirst
        have hpresent : ∃ entry, s.rows.lookup first = some entry := by
          have htaken := hboth.2
          unfold Request.takes at htaken
          split at htaken
          next => cases htaken
          next entry hentry => exact ⟨entry, hentry⟩
        rcases hpresent with ⟨entry, hentry⟩
        rw [hentry, Option.map_some] at hfirst
        have hrest : req.found (scanRow req s first) rest = none := by
          unfold Request.found
          rw [hfirst]
          rfl
        rw [hrest] at hrows hselected
        refine ⟨fun key => ?_, ?_⟩
        · rw [hscan, hrows, hfound]
          by_cases hkey : key = first
          · rw [hkey, if_neg hnodup.1, if_pos List.mem_cons_self, lookup_scanRow, if_pos rfl,
              hgranted, decide_eq_true rfl]
          · have hne : decide (some first = some key) = decide (none = some key) := by
              simp only [Option.some.injEq, reduceCtorEq, decide_eq_decide, iff_false]
              exact fun h => hkey h.symm
            rw [lookup_scanRow, if_neg hkey, hne]
            by_cases hmem : key ∈ rest
            · rw [if_pos hmem, if_pos (List.mem_cons_of_mem first hmem)]
            · rw [if_neg hmem, if_neg (fun h => (List.mem_cons.mp h).elim hkey hmem)]
        · rw [hscan, hselected, hfound, hfirst]
          simp [hentry]
      · rw [if_neg hgranted] at hfirst
        have hfound : req.found s (first :: rest) = req.found (scanRow req s first) rest := by
          unfold Request.found
          rw [hfirst, htakes]
          split
          next hnone =>
            rw [hnone, Bool.true_and] at hgranted
            rw [List.find?_cons_of_neg hgranted]
          next => rfl
        have hfalse : (s.selected.isNone && req.takes s.rows first) = false :=
          Bool.eq_false_iff.mpr hgranted
        have hnot : ∀ key, req.found s (first :: rest) = some key → key ≠ first := by
          intro key hkey heq
          rw [hfound] at hkey
          unfold Request.found at hkey
          split at hkey
          next => exact hnodup.1 (heq ▸ List.mem_of_find?_eq_some hkey)
          next => cases hkey
        refine ⟨fun key => ?_, ?_⟩
        · rw [hscan, hrows, ← hfound]
          by_cases hkey : key = first
          · have hne : decide (req.found s (first :: rest) = some first) = false :=
              decide_eq_false (fun h => hnot first h rfl)
            rw [hkey, if_neg hnodup.1, if_pos List.mem_cons_self, lookup_scanRow, if_pos rfl,
              hfalse, hne]
          · rw [lookup_scanRow, if_neg hkey]
            by_cases hmem : key ∈ rest
            · rw [if_pos hmem, if_pos (List.mem_cons_of_mem first hmem)]
            · rw [if_neg hmem, if_neg (fun h => (List.mem_cons.mp h).elim hkey hmem)]
        · rw [hscan, hselected, ← hfound, hfirst]
          cases hfoundkey : req.found s (first :: rest) with
          | none => rfl
          | some key =>
              simp only [lookup_scanRow, if_neg (hnot key hfoundkey)]

/-- The row that an acquisition grants. -/
def Request.granted (req : Request) (rows : Rows) (order : Order) : Option ServiceKey :=
  (order.arrange (rows.entries.map Prod.fst)).find? (req.takes rows)

theorem mem_keys (key : ServiceKey) :
    key ∈ order.arrange (rows.entries.map Prod.fst) ↔ ∃ entry, rows.lookup key = some entry := by
  rw [(order.perm _).mem_iff, List.mem_map]
  constructor
  · rintro ⟨e, he, rfl⟩
    exact ⟨e.2, OrderedMap.lookup_of_mem rows e.1 e.2 he⟩
  · rintro ⟨entry, hentry⟩
    exact ⟨(key, entry), OrderedMap.mem_entries rows key entry hentry, rfl⟩

theorem granted_eq_some (key : ServiceKey) (h : req.granted rows order = some key) :
    ∃ entry, rows.lookup key = some entry ∧ req.selects entry = true ∧
      isFree (req.reclaim key entry) = true := by
  have htakes := List.find?_some h
  unfold Request.takes at htakes
  split at htakes
  next => cases htakes
  next entry hentry =>
    rw [Bool.and_eq_true] at htakes
    exact ⟨entry, hentry, htakes⟩

/-- What an acquisition does to a row. -/
theorem lookup_acquire (rows : Rows) (order : Order) (req : Request) (key : ServiceKey) :
    (acquireLease rows order req).rows.lookup key =
      (rows.lookup key).map (req.outcome (decide (req.granted rows order = some key)) key) := by
  have hnodup : (order.arrange (rows.entries.map Prod.fst)).Nodup :=
    (order.perm _).nodup_iff.mpr rows.nodup_keys
  have hscan := (lookup_scan req _ hnodup ⟨rows, none, false⟩).1 key
  unfold acquireLease
  rw [hscan]
  split
  next => rfl
  next hmem =>
    cases hentry : rows.lookup key with
    | none => rfl
    | some entry => exact absurd ((mem_keys rows order key).mpr ⟨entry, hentry⟩) hmem

/-- What an acquisition returns. -/
theorem selected_acquire (req : Request) : (acquireLease rows order req).selected =
      match req.granted rows order with
      | none => none
      | some key =>
        (rows.lookup key).map (fun entry => (key, req.grant key (req.reclaim key entry))) :=
  (lookup_scan req _ ((order.perm _).nodup_iff.mpr rows.nodup_keys) ⟨rows, none, false⟩).2

theorem selected_any (rows : Rows) (order : Order) (req : Request) (key : ServiceKey) :
    (acquireLease rows order req).selected.any (fun found => found.1 = key) =
      decide (req.granted rows order = some key) := by
  rw [selected_acquire]
  cases hgranted : req.granted rows order with
  | none => rfl
  | some found =>
      rcases granted_eq_some req rows order found hgranted with ⟨entry, hentry, -⟩
      simp [hentry, Option.any_some]

theorem selected_isSome (rows : Rows) (order : Order) (req : Request) :
    (acquireLease rows order req).selected.isSome = (req.granted rows order).isSome := by
  rw [selected_acquire]
  cases hgranted : req.granted rows order with
  | none => rfl
  | some found =>
      rcases granted_eq_some req rows order found hgranted with ⟨entry, hentry, -⟩
      simp [hentry]

/-! ## One operation -/

theorem isFree_iff (entry : ServiceEntry) :
    isFree entry = true ↔ entry.status = .available ∧ entry.leaseOwner = none := by
  unfold isFree
  rw [Bool.and_eq_true, beq_iff_eq, Option.isNone_iff_eq_none]

/-- A row that can be granted as a reader sees it is one the scan takes. -/
theorem isFree_reclaim_of_projected (key : ServiceKey) (entry : ServiceEntry)
    (h : isFree (entry.clearExpiredLease req.now) = true) :
    isFree (req.reclaim key entry) = true := by
  unfold Request.reclaim
  split
  next => rfl
  next hexpired =>
    unfold ServiceEntry.clearExpiredLease at h
    rw [if_neg hexpired] at h
    exact h

theorem takes_of_wants (key : ServiceKey) (h : req.wants rows key = true) :
    req.takes rows key = true := by
  unfold Request.wants at h
  unfold Request.takes
  cases hentry : rows.lookup key with
  | none =>
      rw [hentry] at h
      cases h
  | some entry =>
      rw [hentry] at h
      simp only [Bool.and_eq_true] at h ⊢
      exact ⟨h.1, isFree_reclaim_of_projected req key entry h.2⟩

/-- If the row that is granted can be granted as a reader sees it, it is the
    first such row; and if there is such a row, then one is granted. -/
theorem first_eq_granted
    (h : ∀ key, req.granted rows order = some key → req.wants rows key = true) :
    req.first rows order = req.granted rows order := by
  unfold Request.first Request.granted at *
  generalize order.arrange (rows.entries.map Prod.fst) = keys at *
  induction keys with
  | nil => rfl
  | cons first rest ih =>
      by_cases htakes : req.takes rows first = true
      · rw [List.find?_cons_of_pos htakes] at h ⊢
        rw [List.find?_cons_of_pos (h first rfl)]
      · have hwants : ¬ req.wants rows first = true := fun hw =>
          htakes (takes_of_wants req rows first hw)
        rw [List.find?_cons_of_neg htakes] at h ⊢
        rw [List.find?_cons_of_neg hwants, ih h]

theorem grantsFree_iff (req : Request) : GrantsFree rows order req ↔
      ∀ key, req.granted rows order = some key → req.wants rows key = true := by
  unfold GrantsFree Request.wants
  rw [selected_acquire]
  constructor
  · intro h key hgranted
    rcases granted_eq_some req rows order key hgranted with ⟨entry, hentry, hselects, hfree⟩
    rw [hgranted] at h
    simp only [hentry, Option.map_some, Option.some.injEq, Prod.mk.injEq] at h
    rcases h key _ ⟨rfl, rfl⟩ with ⟨entry', hentry', hprojected⟩
    rw [hentry, Option.some.injEq] at hentry'
    simp only [hentry, Bool.and_eq_true]
    exact ⟨hselects, (isFree_iff _).mpr (hentry' ▸ hprojected)⟩
  · intro h key granted hselected
    cases hgranted : req.granted rows order with
    | none =>
        rw [hgranted] at hselected
        cases hselected
    | some found =>
        rcases granted_eq_some req rows order found hgranted with ⟨entry, hentry, -⟩
        have hwants := h found hgranted
        rw [hgranted] at hselected
        simp only [hentry, Option.map_some, Option.some.injEq, Prod.mk.injEq] at hselected
        simp only [hentry, Bool.and_eq_true] at hwants
        rw [← hselected.1]
        exact ⟨entry, hentry, (isFree_iff _).mp hwants.2⟩

/-- A row with a lease that has not run out is not touched by an acquisition. -/
theorem keepsLeases_acquire (rows : Rows) (order : Order) (req : Request) :
    KeepsLeases rows (.acquire order req) := by
  intro key entry owner hentry hactive _
  rcases (entry.activeLeaseOwner_eq_some req.now owner).mp hactive with ⟨howner, hexpired⟩
  have hreclaim : req.reclaim key entry = entry := by
    unfold Request.reclaim
    rw [hexpired]
    rfl
  have hnot : req.granted rows order ≠ some key := by
    intro hgranted
    rcases granted_eq_some req rows order key hgranted with ⟨entry', hentry', -, hfree⟩
    rw [hentry, Option.some.injEq] at hentry'
    rw [← hentry', hreclaim, isFree_iff, howner] at hfree
    cases hfree.2
  refine ⟨entry, ?_, rfl⟩
  unfold next
  rw [lookup_acquire, hentry, Option.map_some, decide_eq_false hnot]
  unfold Request.outcome
  rw [if_neg Bool.false_ne_true, hreclaim]

/-- A change of one row that leaves its lease alone. -/
theorem lease_updateEntry (key key' : ServiceKey) (f : ServiceEntry → ServiceEntry)
    (hf : ∀ entry, (f entry).lease = entry.lease) (entry : ServiceEntry)
    (hentry : rows.lookup key' = some entry) :
    ∃ entry', (updateEntry rows key f).lookup key' = some entry' ∧ entry'.lease = entry.lease := by
  unfold updateEntry
  rw [OrderedMap.lookup_modify, hentry]
  split
  next => exact ⟨f entry, rfl, hf entry⟩
  next => exact ⟨entry, rfl, rfl⟩

theorem keepsLeases_release (rows : Rows) (key : ServiceKey) (owner : Option String) (now : Nat) :
    KeepsLeases rows (.release key owner now) := by
  intro key' entry owner' hentry hactive hnot
  rcases (entry.activeLeaseOwner_eq_some now owner').mp hactive with ⟨howner, -⟩
  refine ⟨entry, ?_, rfl⟩
  simp only [next, releaseLease]
  split
  next => exact hentry
  next found hfound =>
    split
    next hmatches =>
      -- The row that is released is another one.
      rw [lookup_insert_ite, if_neg, hentry]
      rintro rfl
      rw [hentry, Option.some.injEq] at hfound
      cases owner with
      | none => cases hmatches
      | some expected =>
          rw [← hfound, howner] at hmatches
          simp only [Option.any_some, Bool.and_eq_true, beq_iff_eq, Option.some.injEq] at hmatches
          exact hnot now (by rw [hmatches.1])
    next => exact hentry

theorem keepsLeases_register (rows : Rows) (entry : ServiceEntry) (now : Nat) :
    KeepsLeases rows (.register entry now) ↔ Clean rows (.register entry now) := by
  constructor
  · intro h old owner hold hactive
    rcases h entry.key old owner hold hactive (fun _ hne => by cases hne)
      with ⟨entry', hentry', hlease⟩
    unfold next at hentry'
    rw [OrderedMap.lookup_insert, Option.some.injEq] at hentry'
    rw [hentry', hlease]
  · intro h key old owner hold hactive _
    unfold next
    rw [lookup_insert_ite]
    split
    next hkey =>
      rw [hkey] at hold
      exact ⟨entry, rfl, h old owner hold hactive⟩
    next => exact ⟨old, hold, rfl⟩

/-- An acquisition that keeps to the rules meets the condition. -/
theorem cleanAcquire_of_lawful (rows : Rows) (order : Order) (req : Request)
    (hfree : GrantsFree rows order req) (hreclaims : ReclaimsAsProjected rows order req)
    (hsingle : GrantsSingle rows order req) : CleanAcquire rows order req := by
  have hwants := (grantsFree_iff rows order req).mp hfree
  have hfirst := first_eq_granted req rows order hwants
  refine ⟨fun key entry hentry hexpired => ?_, fun hhint hsome => ?_⟩
  · have hrow := hreclaims key entry hentry hexpired
    simp only [selected_any, lookup_acquire, hentry, Option.map_some, decide_eq_true_eq] at hrow
    by_cases hgranted : req.granted rows order = some key
    · -- The row that is granted was free as a reader sees it.
      have hprojected := hwants key hgranted
      unfold Request.wants at hprojected
      simp only [hentry, Bool.and_eq_true] at hprojected
      exact ⟨(entry.clearExpiredLease_free req.now hexpired).mp
        ((isFree_iff _).mp hprojected.2), .inr (hfirst.trans hgranted)⟩
    · -- On any other row the two ways to clear a lease have done the same.
      rw [if_neg hgranted, decide_eq_false hgranted, Option.some.injEq] at hrow
      unfold Request.outcome Request.reclaim at hrow
      rw [if_neg Bool.false_ne_true, if_pos hexpired] at hrow
      have hboth := (entry.clearLease_eq_clearExpiredLease req.now _ hexpired).mp hrow
      exact ⟨hboth.1, .inl hboth.2⟩
  · rw [hfirst, ← selected_isSome] at hsome
    exact hsingle hhint hsome

/-- The row that a clean acquisition grants is one that is wanted. -/
theorem wants_of_granted (req : Request) (h : CleanAcquire rows order req) (key : ServiceKey)
    (hgranted : req.granted rows order = some key) : req.wants rows key = true := by
  rcases granted_eq_some req rows order key hgranted with ⟨entry, hentry, hselects, hfree⟩
  unfold Request.wants
  simp only [hentry, Bool.and_eq_true]
  refine ⟨hselects, ?_⟩
  by_cases hexpired : entry.leaseExpired req.now = true
  · exact (isFree_iff _).mpr ((entry.clearExpiredLease_free req.now hexpired).mpr
      (h.1 key entry hentry hexpired).1)
  · unfold Request.reclaim at hfree
    rw [if_neg hexpired] at hfree
    unfold ServiceEntry.clearExpiredLease
    rw [if_neg hexpired]
    exact hfree

/-- The condition is exact for an acquisition. -/
theorem acquire_lawful_iff (rows : Rows) (order : Order) (req : Request) :
    (GrantsFree rows order req ∧ ReclaimsAsProjected rows order req ∧
        GrantsSingle rows order req) ↔ CleanAcquire rows order req := by
  constructor
  · rintro ⟨hfree, hreclaims, hsingle⟩
    exact cleanAcquire_of_lawful rows order req hfree hreclaims hsingle
  · intro hclean
    have hwants := wants_of_granted rows order req hclean
    have hfirst := first_eq_granted req rows order hwants
    refine ⟨(grantsFree_iff rows order req).mpr hwants, ?_, ?_⟩
    · intro key entry hentry h
      simp only [selected_any, lookup_acquire, hentry, Option.map_some, decide_eq_true_eq]
      have hrow := hclean.1 key entry hentry h
      by_cases hgranted : req.granted rows order = some key
      · -- The grant overwrites what the clearing has left.
        rw [if_pos hgranted, decide_eq_true hgranted]
        unfold Request.outcome Request.reclaim Request.grant
        rw [if_pos rfl, if_pos h, entry.acquireLease_clearLease _ _ _ req.now _ h]
      · have hheartbeat : entry.lastHeartbeat = req.touched key :=
          hrow.2.resolve_right (fun heq => hgranted (hfirst.symm.trans heq))
        rw [if_neg hgranted, decide_eq_false hgranted]
        unfold Request.outcome Request.reclaim
        rw [if_neg Bool.false_ne_true, if_pos h,
          (entry.clearLease_eq_clearExpiredLease req.now _ h).mpr ⟨hrow.1, hheartbeat⟩]
    · intro hhint hsome
      rw [selected_isSome, ← hfirst] at hsome
      exact hclean.2 hhint hsome

/-- The condition is exact for one operation. -/
theorem lawful_iff_clean (op : Operation) : Lawful rows op ↔ Clean rows op := by
  cases op with
  | register entry now =>
      exact (and_iff_left trivial).trans (keepsLeases_register rows entry now)
  | acquire order req =>
      exact (and_iff_right (keepsLeases_acquire rows order req)).trans
        (acquire_lawful_iff rows order req)
  | release key owner now =>
      exact iff_of_true ⟨keepsLeases_release rows key owner now, trivial⟩ trivial
  | updateStatus key status now =>
      refine iff_of_true ⟨fun key' entry owner hentry _ _ => ?_, trivial⟩ trivial
      exact lease_updateEntry rows key key' (fun entry => { entry with status := status })
        (fun _ => rfl) entry hentry
  | heartbeat key now =>
      refine iff_of_true ⟨fun key' entry owner hentry _ _ => ?_, trivial⟩ trivial
      exact lease_updateEntry rows key key' (fun entry => entry.touch now) (fun _ => rfl) entry
        hentry
  | updateSnapshot key snapshot now =>
      refine iff_of_true ⟨fun key' entry owner hentry _ _ => ?_, trivial⟩ trivial
      exact lease_updateEntry rows key key' (fun entry => entry.applySnapshot snapshot now)
        (fun entry => entry.lease_applySnapshot snapshot now) entry hentry

/-! ## Runs -/

/-- Every operation of a run follows the rules of leasing exactly when every
    operation of the run meets the condition where it is made. -/
theorem leases_lawful (rows : Rows) (ops : List Operation) :
    Along (total next) Lawful rows ops ↔ Along (total next) Clean rows ops := by
  constructor
  · exact along_of_along (total next) Lawful Clean (fun _ => True) (fun _ _ _ _ _ _ => trivial)
      (fun rows op _ => (lawful_iff_clean rows op).mp) rows ops trivial
  · exact along_of_along (total next) Clean Lawful (fun _ => True) (fun _ _ _ _ _ _ => trivial)
      (fun rows op _ => (lawful_iff_clean rows op).mpr) rows ops trivial

/-- An instance that has just been registered. -/
def mayaInstance (id : HyphenatedUuid) (now : Nat) : ServiceEntry where
  schemaVersion := 1
  dccType := "maya"
  instanceId := id
  version := none
  scene := none
  documents := []
  pid := none
  hostPid := none
  sentinelPath := none
  displayName := none
  metadata := OrderedMap.empty _ _
  extras := OrderedMap.empty _ _
  registeredAt := now
  lastHeartbeat := now
  status := .available
  leaseOwner := none
  currentJobId := none
  leaseExpiresAt := none

/-- The rows in the order of the map. -/
def inOrder : Order := ⟨id, fun _ => List.Perm.refl _⟩

/-- An acquisition that takes no time. -/
def request (hint : Option String) (owner : String) (ttl now : Nat) : Request where
  dccType := "maya"
  instanceId := hint
  owner := owner
  currentJobId := none
  ttl := some ttl
  now := now
  touched := fun _ => now

/-- An instance that shuts down is granted when its lease has run out, a hint
    that fits two instances gets one of them, and a row that is registered
    again loses its lease. -/
theorem leases_not_lawful :
    let one := mayaInstance ⟨1, by decide⟩ 0
    let two := mayaInstance ⟨2, by decide⟩ 0
    let empty : Rows := OrderedMap.empty _ _
    ¬ Along (total next) Lawful empty
        [.register one 0, .acquire inOrder (request none "a" 10 0),
          .updateStatus one.key .shuttingDown 5, .acquire inOrder (request none "b" 10 20)] ∧
      ¬ Along (total next) Lawful empty
        [.register one 0, .register two 0, .acquire inOrder (request (some "0") "a" 10 0)] ∧
      ¬ Along (total next) Lawful empty
        [.register one 0, .acquire inOrder (request none "a" 10 0), .register one 5] := by
  intro one two empty
  refine ⟨fun h => ?_, fun h => ?_, fun h => ?_⟩
  · have hlast := (((h.2 _ rfl).2 _ rfl).2 _ rfl).1
    rw [lawful_iff_clean] at hlast
    -- The row is there, shuts down, and its lease has run out.
    have hrow : ((next (next (next empty (.register one 0))
        (.acquire inOrder (request none "a" 10 0)))
        (.updateStatus one.key .shuttingDown 5)).lookup one.key).map
          (fun entry => (entry.status, entry.leaseExpired 20)) = some (.shuttingDown, true) := by
      decide +kernel
    rcases Option.map_eq_some_iff.mp hrow with ⟨entry, hentry, hfields⟩
    rcases Prod.mk.inj hfields with ⟨hstatus, hexpired⟩
    have hclean := (hlast.1 one.key entry hentry hexpired).1
    rw [hstatus] at hclean
    rcases hclean with hclean | hclean <;> cases hclean
  · have hlast := ((h.2 _ rfl).2 _ rfl).1
    rw [lawful_iff_clean] at hlast
    have hne : one.key ≠ two.key := fun h => by
      have hvalue := congrArg (fun key : ServiceKey => key.instanceId.value) h
      exact absurd hvalue (by decide)
    have hone : (next (next empty (.register one 0)) (.register two 0)).lookup one.key =
        some one := by
      unfold next
      rw [OrderedMap.lookup_insert_ne _ _ _ _ hne]
      exact OrderedMap.lookup_insert _ _ _
    have htwo : (next (next empty (.register one 0)) (.register two 0)).lookup two.key =
        some two := OrderedMap.lookup_insert _ _ _
    exact hne (hlast.2 rfl (by decide +kernel) one.key two.key one two hone htwo (by decide +kernel)
      (by decide +kernel))
  · have hlast := ((h.2 _ rfl).2 _ rfl).1
    rw [lawful_iff_clean] at hlast
    have hrow : ((next (next empty (.register one 0))
        (.acquire inOrder (request none "a" 10 0))).lookup one.key).map
          (fun entry => (entry.activeLeaseOwner 5, entry.leaseOwner)) =
        some (some "a", some "a") := by
      decide +kernel
    rcases Option.map_eq_some_iff.mp hrow with ⟨entry, hentry, hfields⟩
    rcases Prod.mk.inj hfields with ⟨hactive, howner⟩
    have hlease := congrArg Prod.fst (hlast entry "a" hentry hactive)
    rw [ServiceEntry.lease, ServiceEntry.lease, howner] at hlease
    cases hlease

end Leases

end Registry

end DccMcp
