import Mathlib.Data.List.Sort
import Mathlib.Data.String.Basic
import DccMcp.Lib.Text
import DccMcp.Lib.Uuid

/-!
# Search

The search over the capability rows of the gateway: which rows a request is about,
how they are ranked, and the page that is answered.

How well a row fits a clause of a request is what a ranking says. It is not modelled,
since it counts with floats and with a matcher that is not part of the repository. A
page is a function of what the ranking says, all the same.

## Main definitions

* `SearchQuery`, `SearchRecord`: A request, and a row.
* `Ranking`: How well a row fits a clause.
* `rankAll`, `searchPage`: The rows that are found, and a page of them.
* `Reordered`: Two requests with the same filters in a different order.

## Theorems

* `searchPage_reordered`: The order of the filters makes no difference.
-/

namespace DccMcp

namespace Gateway

namespace Search

open Text

/-! ## Requests and rows -/

inductive SearchMode
  | fuzzy
  | exact
  | hybrid
  deriving DecidableEq

structure SearchQuery where
  query : String
  dccType : Option String
  dccTypes : List String
  instanceId : Option HyphenatedUuid
  tags : List String
  tagsAny : List String
  excludeTags : List String
  loadedOnly : Option Bool
  sceneHint : Option String
  minScore : Option UInt32
  skillHint : Option String
  orQueries : List String
  limit : Option UInt32
  offset : Option UInt32
  mode : SearchMode

/-- What a `SearchRecord` tells of a row. -/
structure SearchRecord where
  toolSlug : String
  backendTool : String
  summary : String
  skillName : Option String
  tags : List String
  searchTokens : List String
  searchAliases : List String
  dccType : String
  instanceId : HyphenatedUuid
  loaded : Bool
  toolRole : Option String
  risk : Option String
  rankLayer : Option String
  rankPathSource : Option String
  rankScope : UInt8

structure ScoreBreakdown where
  score : Nat
  matchReasons : List String

structure SearchHit where
  record : SearchRecord
  rank : Nat
  score : Nat
  matchReasons : List String

structure SearchPage where
  hits : List SearchHit
  total : Nat
  offset : Nat
  limit : Nat

/-- How well a row fits a clause, for a mode and a hint, and what its layer and the source
    of its path make of the score. None leaves the row out. -/
structure Ranking where
  explain : SearchMode → SearchRecord → String → Option String → ScoreBreakdown
  adjust : Nat → Option String → Option String → Bool → Option Nat

/-- `u32::MAX`. -/
def maxScore : Nat := 4294967295

/-! ## The rows of a request -/

def normalise (text : String) : String := toAsciiLowercase (trim text)

/-- The values of a filter that say something. -/
def filterValues (values : List String) : List String :=
  (values.map normalise).filter (· ≠ "")

def carries (r : SearchRecord) (tag : String) : Bool :=
  r.tags.any (fun own => toAsciiLowercase own == tag)

/-- The rows that a request is about. -/
def isCandidate (q : SearchQuery) (r : SearchRecord) : Bool :=
  let dccFilter := ((q.dccType.map trim).filter (· ≠ "")).map toAsciiLowercase
  let dccTypes := filterValues q.dccTypes
  ((dccFilter.isNone && dccTypes.isEmpty) || dccFilter.any (eqIgnoreAsciiCase r.dccType) ||
      dccTypes.any (eqIgnoreAsciiCase r.dccType)) &&
    q.instanceId.all (r.instanceId == ·) &&
    (q.loadedOnly != some true || r.loaded) &&
    (filterValues q.tags).all (carries r) &&
    ((filterValues q.tagsAny).isEmpty || (filterValues q.tagsAny).any (carries r)) &&
    !(filterValues q.excludeTags).any (carries r)

/-- The clauses of a request: its query, and each other one once. -/
def clauses (q : SearchQuery) : List String :=
  let first := if normalise q.query = "" then [] else [normalise q.query]
  q.orQueries.foldl (fun found o =>
    if normalise o = "" ∨ normalise o ∈ found then found else found ++ [normalise o]) first

/-- A request that asks for a layer. -/
def explicitLayer (q : SearchQuery) : Bool :=
  q.tags.any (fun tag =>
    ["domain", "thin-harness", "infrastructure", "example"].contains (normalise tag))

/-! ## Ranking -/

def laterMax (best : Option ScoreBreakdown) (b : ScoreBreakdown) : Option ScoreBreakdown :=
  match best with
  | none => some b
  | some a => if a.score ≤ b.score then some b else some a

/-- `max_by`: of several greatest ones the last. -/
def lastMax (breakdowns : List ScoreBreakdown) : Option ScoreBreakdown :=
  breakdowns.foldl laterMax none

/-- A row as a hit of a request, before the hits are ranked: `rank_multi`. -/
def hit (rk : Ranking) (q : SearchQuery) (r : SearchRecord) : Option SearchHit :=
  let breakdown := ((lastMax ((clauses q).map (fun clause =>
    rk.explain q.mode r clause (q.sceneHint.map toAsciiLowercase))))).getD ⟨0, []⟩
  let exactName := (clauses q).any (fun clause =>
    eqIgnoreAsciiCase r.backendTool clause || r.skillName.any (eqIgnoreAsciiCase · clause))
  let score :=
    if exactName then some maxScore
    else rk.adjust breakdown.score r.rankLayer r.rankPathSource (explicitLayer q)
  (score.map (fun score => SearchHit.mk r 0 score breakdown.matchReasons)).filter (fun h =>
    (clauses q).isEmpty || 0 < h.score)

def applySkillHintBoost (hint : Option String) (h : SearchHit) : SearchHit :=
  match (hint.map trim).filter (· ≠ "") with
  | none => h
  | some hint =>
    if (toAsciiLowercase hint).utf8ByteSize < 2 then h
    else if h.record.skillName.any (fun name =>
        contains (toAsciiLowercase hint) (toAsciiLowercase name)) then
      { h with
        score := min (h.score + 8) maxScore
        matchReasons :=
          if h.matchReasons.contains "skill_hint" then h.matchReasons
          else h.matchReasons ++ ["skill_hint"] }
    else h

/-- Whether a hit may stand before another. -/
def before (a b : SearchHit) : Bool :=
  if a.score ≠ b.score then b.score < a.score
  else if a.record.rankScope ≠ b.record.rankScope then b.record.rankScope < a.record.rankScope
  else a.record.toolSlug ≤ b.record.toolSlug

def rankAll (rk : Ranking) (records : List SearchRecord) (q : SearchQuery) : List SearchHit :=
  let hits := ((records.filter (isCandidate q)).filterMap (hit rk q)).map
    (applySkillHintBoost q.skillHint)
  let kept := hits.filter (fun h =>
    (clauses q).isEmpty || q.minScore.all (fun least => least.toNat ≤ h.score))
  (kept.insertionSort (fun a b => before a b = true)).zipIdx.map (fun entry =>
    { entry.1 with rank := (entry.2 + 1) % 4294967296 })

def effectiveLimit (limit : Option UInt32) : Nat :=
  match limit with
  | none => 25
  | some n => if n = 0 then 25 else min n.toNat 100

/-- `search_page`. The number of hits is kept in 32 bits. -/
def searchPage (rk : Ranking) (records : List SearchRecord) (q : SearchQuery) : SearchPage :=
  let hits := rankAll rk records q
  let total := hits.length % 4294967296
  let limit := effectiveLimit q.limit
  let offset := min ((q.offset.map UInt32.toNat).getD 0) total
  let last := min (min (offset + limit) maxScore) total
  ⟨if offset < total then (hits.take last).drop offset else [], total, offset, limit⟩

/-! ## The order of the filters -/

/-- Two requests that are the same but for the order of the values in their filters. -/
structure Reordered (q q' : SearchQuery) : Prop where
  query : q.query = q'.query
  dccType : q.dccType = q'.dccType
  dccTypes : q.dccTypes.Perm q'.dccTypes
  instanceId : q.instanceId = q'.instanceId
  tags : q.tags.Perm q'.tags
  tagsAny : q.tagsAny.Perm q'.tagsAny
  excludeTags : q.excludeTags.Perm q'.excludeTags
  loadedOnly : q.loadedOnly = q'.loadedOnly
  sceneHint : q.sceneHint = q'.sceneHint
  minScore : q.minScore = q'.minScore
  skillHint : q.skillHint = q'.skillHint
  orQueries : q.orQueries = q'.orQueries
  limit : q.limit = q'.limit
  offset : q.offset = q'.offset
  mode : q.mode = q'.mode

theorem filterValues_perm (values values' : List String) (h : values.Perm values') :
    (filterValues values).Perm (filterValues values') :=
  (h.map normalise).filter _

theorem any_perm {α : Type} (p : α → Bool) (l l' : List α) (h : l.Perm l') :
    l.any p = l'.any p := by
  rw [Bool.eq_iff_iff, List.any_eq_true, List.any_eq_true]
  exact exists_congr (fun a => and_congr_left (fun _ => h.mem_iff))

theorem all_perm {α : Type} (p : α → Bool) (l l' : List α) (h : l.Perm l') :
    l.all p = l'.all p := by
  rw [Bool.eq_iff_iff, List.all_eq_true, List.all_eq_true]
  exact forall_congr' (fun a => by rw [h.mem_iff])

theorem isEmpty_perm {α : Type} (l l' : List α) (h : l.Perm l') : l.isEmpty = l'.isEmpty := by
  rw [Bool.eq_iff_iff, List.isEmpty_iff, List.isEmpty_iff]
  exact ⟨fun hl => (hl ▸ h).nil_eq.symm, fun hl' => (hl' ▸ h).eq_nil⟩

theorem isCandidate_reordered (q q' : SearchQuery) (h : Reordered q q') (r : SearchRecord) :
    isCandidate q r = isCandidate q' r := by
  unfold isCandidate
  dsimp only
  rw [h.dccType, h.instanceId, h.loadedOnly,
    isEmpty_perm _ _ (filterValues_perm _ _ h.dccTypes),
    any_perm _ _ _ (filterValues_perm _ _ h.dccTypes),
    all_perm _ _ _ (filterValues_perm _ _ h.tags),
    isEmpty_perm _ _ (filterValues_perm _ _ h.tagsAny),
    any_perm _ _ _ (filterValues_perm _ _ h.tagsAny),
    any_perm _ _ _ (filterValues_perm _ _ h.excludeTags)]

/-- The order of the values in the filters makes no difference. -/
theorem searchPage_reordered (rk : Ranking) (records : List SearchRecord) (q q' : SearchQuery)
    (h : Reordered q q') : searchPage rk records q = searchPage rk records q' := by
  have hclauses : clauses q = clauses q' := by
    unfold clauses
    rw [h.query, h.orQueries]
  have hlayer : explicitLayer q = explicitLayer q' := any_perm _ _ _ h.tags
  have hhit : hit rk q = hit rk q' := by
    funext r
    unfold hit
    rw [hclauses, hlayer, h.mode, h.sceneHint]
  have hrank : rankAll rk records q = rankAll rk records q' := by
    have hcandidate : isCandidate q = isCandidate q' := funext (isCandidate_reordered q q' h)
    unfold rankAll
    rw [hcandidate, hhit, hclauses, h.skillHint, h.minScore]
  unfold searchPage
  rw [hrank, h.limit, h.offset]

end Search

end Gateway

end DccMcp
