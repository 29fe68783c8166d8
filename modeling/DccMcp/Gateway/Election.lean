import DccMcp.Lib.Text
import Mathlib.Data.Prod.Lex
import Mathlib.Data.List.Chain

/-!
# Gateway Election

Which of two gateways owns the port. A challenger asks whether it is newer than
the resident, and a resident that meets a newer challenger yields to it, so a
cycle of the relation would have gateways evict each other forever.

The comparison has three layers (the crate version, the adapter version, and
whether a real DCC stands behind the gateway), and an exception in the middle
of them: the standalone daemon is not asked about its adapter at all. What rules
out a cycle is that every layer looks at one number of each side. `rank` puts the
three in order, and the exception only takes pairs out of the relation, so a
challenger that wins has the greater rank.

## Main definitions

* `parseSemver`: The triple of a version text, which any text has.
* `ElectionInfo`: What one side of an election says of itself.
* `isNewerElection`: Whether the candidate displaces the resident.
* `rank`: The place of a gateway in the order behind the election.

## Theorems

* `rank_lt`: A candidate that wins has the greater rank.
* `election_acyclic`: No gateway comes back, and only a newer crate displaces
  the daemon.
-/

namespace DccMcp

namespace Gateway

/-- Three numbers, compared from the left. -/
abbrev Version := Nat ×ₗ Nat ×ₗ Nat

/-- `str::parse::<u64>`: digits with an optional plus sign, below `2 ^ 64`. -/
def parseU64 (s : List Char) : Option Nat :=
  let digits := if s.head? = some '+' then s.tail else s
  if digits ≠ [] ∧ digits.all Char.isDigit then
    let n := digits.foldl (fun n c => 10 * n + (c.toNat - '0'.toNat)) 0
    if n < 18446744073709551616 then some n else none
  else none

/-- The triple of a version. A piece that is no number is left out, and the
    pieces behind it move up. -/
def parseSemver (v : String) : Version :=
  let parts := (Text.splitOn (· == '.') (v.toList.dropWhile (· == 'v'))).filterMap
    (fun seg => parseU64 (seg.takeWhile (· != '-')))
  toLex (parts.head?.getD 0, toLex (parts[1]?.getD 0, parts[2]?.getD 0))

def isNewerVersion (candidate current : String) : Bool :=
  decide (parseSemver current < parseSemver candidate)

def standaloneGatewayDcc : String := "gateway"

structure ElectionInfo where
  crateVersion : String
  adapterVersion : Option String
  adapterDcc : Option String
  deriving DecidableEq

def isUnknownDcc : Option String → Bool
  | none => true
  | some s => s.isEmpty || Text.eqIgnoreAsciiCase s "unknown"

def isStandaloneGatewayDaemon (dcc : Option String) : Bool :=
  dcc.any (fun dcc => Text.eqIgnoreAsciiCase dcc standaloneGatewayDcc)

/-- The adapter version of one side. None is below every version. -/
def ElectionInfo.adapter (info : ElectionInfo) : WithBot Version :=
  info.adapterVersion.map parseSemver

def isNewerElection (candidate current : ElectionInfo) : Bool :=
  let candCrate := parseSemver candidate.crateVersion
  let curCrate := parseSemver current.crateVersion
  if candCrate ≠ curCrate then decide (curCrate < candCrate)
  -- The resident is the daemon of the machine, which has no adapter to compare.
  else if isStandaloneGatewayDaemon current.adapterDcc then false
  else if candidate.adapter ≠ current.adapter then decide (current.adapter < candidate.adapter)
  else isUnknownDcc current.adapterDcc && !isUnknownDcc candidate.adapterDcc

/-- The crate version decides, then the adapter version, then whether there is
    a real DCC. -/
def ElectionInfo.rank (info : ElectionInfo) : Version ×ₗ WithBot Version ×ₗ Bool :=
  toLex (parseSemver info.crateVersion, toLex (info.adapter, !isUnknownDcc info.adapterDcc))

theorem rank_lt (candidate current : ElectionInfo)
    (h : isNewerElection candidate current = true) : current.rank < candidate.rank := by
  unfold ElectionInfo.rank
  rw [Prod.Lex.toLex_lt_toLex, Prod.Lex.toLex_lt_toLex]
  simp only [isNewerElection] at h
  split at h
  next => exact .inl (of_decide_eq_true h)
  next hcrate =>
    refine .inr ⟨(not_not.mp hcrate).symm, ?_⟩
    split at h
    next => cases h
    next =>
      split at h
      next => exact .inl (of_decide_eq_true h)
      next hadapter =>
        refine .inr ⟨(not_not.mp hadapter).symm, ?_⟩
        rw [Bool.and_eq_true] at h
        show (!isUnknownDcc current.adapterDcc) < (!isUnknownDcc candidate.adapterDcc)
        rw [h.1, h.2]
        decide

/-- A candidate at the crate version of the daemon does not displace it. -/
theorem crate_lt_of_daemon (candidate current : ElectionInfo)
    (hdaemon : isStandaloneGatewayDaemon current.adapterDcc = true)
    (h : isNewerElection candidate current = true) :
    parseSemver current.crateVersion < parseSemver candidate.crateVersion := by
  simp only [isNewerElection, if_pos hdaemon] at h
  split at h
  next => exact of_decide_eq_true h
  next => cases h

/-- Along a line of gateways that displace each other the ranks go up. -/
theorem rank_increasing (line : List ElectionInfo)
    (h : line.IsChain (fun current candidate => isNewerElection candidate current = true)) :
    line.Pairwise (fun earlier later => earlier.rank < later.rank) := by
  have hchain : (line.map ElectionInfo.rank).IsChain (· < ·) := by
    rw [List.isChain_map]
    exact h.imp (fun current candidate hnewer => rank_lt candidate current hnewer)
  rw [List.isChain_iff_pairwise, List.pairwise_map] at hchain
  exact hchain

/-- However long gateways displace each other, none of them comes twice. -/
theorem election_acyclic (line : List ElectionInfo)
    (h : line.IsChain (fun current candidate => isNewerElection candidate current = true)) :
    line.Nodup ∧
      (∀ info, isNewerElection info info = false) ∧
      (∀ a b, isNewerElection a b = true → isNewerElection b a = false) ∧
      ∀ candidate current, isStandaloneGatewayDaemon current.adapterDcc = true →
        isNewerElection candidate current = true →
        parseSemver current.crateVersion < parseSemver candidate.crateVersion := by
  refine ⟨(rank_increasing line h).imp ?_, ?_, ?_, ?_⟩
  · intro earlier later hlt heq
    rw [heq] at hlt
    exact lt_irrefl _ hlt
  · intro info
    rw [Bool.eq_false_iff]
    exact fun hself => lt_irrefl _ (rank_lt info info hself)
  · intro a b hab
    rw [Bool.eq_false_iff]
    exact fun hba => lt_asymm (rank_lt a b hab) (rank_lt b a hba)
  · intro candidate current hdaemon hnewer
    exact crate_lt_of_daemon candidate current hdaemon hnewer

/-- A server of an unreadable version, a Maya of the same crate, the daemon of the next
    crate, and a candidate release after it. -/
def yieldingLine : List ElectionInfo :=
  [⟨"one.two", none, some "Unknown"⟩, ⟨"v0", none, some "maya"⟩,
    ⟨"0.14.0", none, some "gateway"⟩, ⟨"0.14.1-rc1", some "", none⟩]

theorem election_acyclic_yielding : yieldingLine.Nodup :=
  (election_acyclic yieldingLine (by decide +kernel)).1

end Gateway

end DccMcp
