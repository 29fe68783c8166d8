import DccMcp.Gateway.Search

/-!
# The Pages of a Search

What a caller sees who walks through the pages of a search.

Hits are ordered by their score, then by the scope of the row, then by its slug. Slugs
are different, so there is one order, and it does not matter in which order the rows
are kept. A page is a piece of it.

A further clause can only help: the score of a row is the greatest one its clauses
give it, and what the policy makes of a score grows with the score. A row that is
asked for by its name has the greatest score there is.

How many hits there are is counted in 32 bits, so all of this needs that there are
fewer rows than that.

## Main definitions

* `applyRankPolicy`: What the layer and the source of the path make of a score.
* `walk`: All pages of a search, one after the other.
* `countCandidates`: The number of rows that are scored.

## Theorems

* `search_pageable`: All of it, for fewer than 2^32 rows.
* `crowd_not_pageable`: With 2^32 rows all pages are empty.
-/

namespace DccMcp

namespace Gateway

namespace Search

open Text

/-! ## The policy -/

inductive LayerMultiplier
  | full
  | infrastructure
  | thinHarness

inductive PathMultiplier
  | full
  | bundled
  | platform

/-- What is written in a field, without blanks around it and without letter case. -/
def fieldIs (field : Option String) (value : String) : Bool :=
  ((field.map trim).filter (· ≠ "")).any (eqIgnoreAsciiCase · value)

def layerMultiplier (layer : Option String) (explicit : Bool) : Option LayerMultiplier :=
  if explicit then some .full
  else if fieldIs layer "example" then none
  else if fieldIs layer "infrastructure" then some .infrastructure
  else if fieldIs layer "thin-harness" then some .thinHarness
  else some .full

def pathSourceMultiplier (source : Option String) : PathMultiplier :=
  if fieldIs source "bundled" then .bundled
  else if fieldIs source "platform" then .platform
  else .full

/-- The product with a score, rounded. -/
abbrev Scale := LayerMultiplier → PathMultiplier → Nat → Nat

def applyRankPolicy (scale : Scale) (rawScore : Nat) (layer source : Option String)
    (explicit : Bool) : Option Nat :=
  (layerMultiplier layer explicit).map fun l =>
    if 0 < rawScore then max (min (scale l (pathSourceMultiplier source) rawScore) maxScore) 1
    else 0

/-- The ranking with the policy. -/
def policyRanking (explain : SearchMode → SearchRecord → String → Option String → ScoreBreakdown)
    (scale : Scale) : Ranking :=
  ⟨explain, applyRankPolicy scale⟩

/-! ## The rows that are scored -/

/-- `count_candidates`, which has the filters once more, one after the other. -/
def countCandidates (records : List SearchRecord) (q : SearchQuery) : Nat :=
  let dccFilter := ((q.dccType.map trim).filter (· ≠ "")).map toAsciiLowercase
  let dccTypes := filterValues q.dccTypes
  let tagsFilter := filterValues q.tags
  let tagsAny := filterValues q.tagsAny
  let excludeTags := filterValues q.excludeTags
  let ofDcc := records.filter fun r =>
    (dccFilter.isNone && dccTypes.isEmpty) || dccFilter.any (eqIgnoreAsciiCase r.dccType) ||
      dccTypes.any (eqIgnoreAsciiCase r.dccType)
  let ofInstance := ofDcc.filter fun r => q.instanceId.all (r.instanceId == ·)
  let ofLoaded := ofInstance.filter fun r => q.loadedOnly != some true || r.loaded
  let ofTags := ofLoaded.filter fun r => tagsFilter.all (carries r)
  let ofAny := ofTags.filter fun r => tagsAny.isEmpty || tagsAny.any (carries r)
  (ofAny.filter fun r => !excludeTags.any (carries r)).length

variable (rk : Ranking) (records : List SearchRecord) (q : SearchQuery)

theorem countCandidates_eq :
    countCandidates records q = (records.filter (isCandidate q)).length := by
  unfold countCandidates
  dsimp only
  rw [List.filter_filter, List.filter_filter, List.filter_filter, List.filter_filter,
    List.filter_filter]
  congr 2
  funext r
  unfold isCandidate
  dsimp only
  simp only [Bool.and_comm, Bool.and_assoc, Bool.and_left_comm]

/-- The hits before they are put in order. -/
def keptHits (rk : Ranking) (records : List SearchRecord) (q : SearchQuery) : List SearchHit :=
  (((records.filter (isCandidate q)).filterMap (hit rk q)).map
    (applySkillHintBoost q.skillHint)).filter (fun h =>
      (clauses q).isEmpty || q.minScore.all (fun least => least.toNat ≤ h.score))

/-- The hits in order. -/
def ordered (rk : Ranking) (records : List SearchRecord) (q : SearchQuery) : List SearchHit :=
  (keptHits rk records q).insertionSort (fun a b => before a b = true)

theorem rankAll_eq : rankAll rk records q = (ordered rk records q).zipIdx.map (fun entry =>
      { entry.1 with rank := (entry.2 + 1) % 4294967296 }) := rfl

theorem length_rankAll : (rankAll rk records q).length = (keptHits rk records q).length := by
  rw [rankAll_eq, List.length_map, List.length_zipIdx]
  exact List.length_insertionSort _ _

theorem length_keptHits_le : (keptHits rk records q).length ≤ records.length := by
  unfold keptHits
  calc _ ≤ _ := List.length_filter_le _ _
    _ = _ := List.length_map _
    _ ≤ _ := List.length_filterMap_le _ _
    _ ≤ _ := List.length_filter_le _ _

/-- Hits are numbered from one on. -/
theorem ranks_rankAll (rk : Ranking) (records : List SearchRecord) (q : SearchQuery)
    (h : (rankAll rk records q).length < 4294967296) :
    (rankAll rk records q).map (·.rank) = List.range' 1 (rankAll rk records q).length := by
  have hlength : (rankAll rk records q).length = (ordered rk records q).length := by
    rw [rankAll_eq, List.length_map, List.length_zipIdx]
  refine List.ext_getElem (by simp) (fun i hi hi' => ?_)
  rw [List.length_range'] at hi'
  simp only [rankAll_eq, List.getElem_map, List.getElem_zipIdx, List.getElem_range']
  omega

/-! ## The order of the rows -/

theorem boost_record (hint : Option String) (h : SearchHit) :
    (applySkillHintBoost hint h).record = h.record := by
  unfold applySkillHintBoost
  split
  · rfl
  · split
    · rfl
    · split <;> rfl

theorem hit_record (r : SearchRecord) (h : SearchHit) (hhit : hit rk q r = some h) :
    h.record = r := by
  unfold hit at hhit
  rcases Option.filter_eq_some_iff.mp hhit with ⟨hmap, _⟩
  rcases Option.map_eq_some_iff.mp hmap with ⟨score, _, rfl⟩
  rfl

theorem mem_keptHits (k : SearchHit) : k ∈ keptHits rk records q ↔
      ∃ r ∈ records, isCandidate q r = true ∧ ∃ h, hit rk q r = some h ∧
        k = applySkillHintBoost q.skillHint h ∧
        ((clauses q).isEmpty || q.minScore.all (fun least => least.toNat ≤ k.score)) = true := by
  unfold keptHits
  simp only [List.mem_filter, List.mem_map, List.mem_filterMap]
  constructor
  · rintro ⟨⟨h, ⟨r, ⟨hr, hcandidate⟩, hhit⟩, rfl⟩, hscore⟩
    exact ⟨r, hr, hcandidate, h, hhit, rfl, hscore⟩
  · rintro ⟨r, hr, hcandidate, h, hhit, rfl, hscore⟩
    exact ⟨⟨h, ⟨r, ⟨hr, hcandidate⟩, hhit⟩, rfl⟩, hscore⟩

theorem before_iff (a b : SearchHit) : before a b = true ↔
    b.score < a.score ∨ a.score = b.score ∧
      (b.record.rankScope.toNat < a.record.rankScope.toNat ∨
        a.record.rankScope.toNat = b.record.rankScope.toNat ∧
          a.record.toolSlug ≤ b.record.toolSlug) := by
  unfold before
  rw [← UInt8.lt_iff_toNat_lt, UInt8.toNat_inj]
  by_cases hscore : a.score = b.score
  · by_cases hscope : a.record.rankScope = b.record.rankScope
    · simp [hscore, hscope]
    · simp [hscore, hscope]
  · simp [hscore]

instance : Std.Total (fun a b : SearchHit => before a b = true) where
  total a b := by
    rw [before_iff, before_iff]
    rcases le_total a.record.toolSlug b.record.toolSlug with hle | hle
    · by_cases hfirst : b.score < a.score ∨ a.score = b.score ∧
          b.record.rankScope.toNat ≤ a.record.rankScope.toNat
      · refine Or.inl ?_
        simp only [hle, and_true]
        omega
      · exact Or.inr (by omega)
    · by_cases hfirst : a.score < b.score ∨ a.score = b.score ∧
          a.record.rankScope.toNat ≤ b.record.rankScope.toNat
      · refine Or.inr ?_
        simp only [hle, and_true]
        omega
      · exact Or.inl (by omega)

instance : IsTrans SearchHit (fun a b => before a b = true) where
  trans a b c := by
    rw [before_iff, before_iff, before_iff]
    rintro (hab | ⟨hab, hab' | ⟨hab', hslug⟩⟩) (hbc | ⟨hbc, hbc' | ⟨hbc', hslug'⟩⟩)
    case inr.inr.inr.inr =>
      exact Or.inr ⟨hab.trans hbc, Or.inr ⟨hab'.trans hbc', hslug.trans hslug'⟩⟩
    all_goals omega

/-- Of two hits of different rows one stands before the other. -/
theorem before_antisymm (hslugs : (records.map (·.toolSlug)).Nodup) (a b : SearchHit)
    (ha : a ∈ keptHits rk records q) (hb : b ∈ keptHits rk records q) (hab : before a b = true)
    (hba : before b a = true) : a = b := by
  rcases (mem_keptHits rk records q a).mp ha with ⟨r, hr, _, h, hhit, rfl, _⟩
  rcases (mem_keptHits rk records q b).mp hb with ⟨r', hr', _, h', hhit', rfl, _⟩
  have hslug : r.toolSlug = r'.toolSlug := by
    rw [before_iff] at hab hba
    rw [boost_record, boost_record, hit_record rk q r h hhit,
      hit_record rk q r' h' hhit'] at hab hba
    rcases hab with hab | ⟨hab, hab' | ⟨hab', hle⟩⟩
    · omega
    · omega
    · rcases hba with hba | ⟨hba, hba' | ⟨hba', hle'⟩⟩
      · omega
      · omega
      · exact le_antisymm hle hle'
  have hrecord : r = r' := List.inj_on_of_nodup_map hslugs hr hr' hslug
  rw [hrecord, hhit', Option.some.injEq] at hhit
  rw [hhit]

/-- The order of the rows makes no difference. -/
theorem rankAll_perm (records records' : List SearchRecord) (q : SearchQuery)
    (hslugs : (records.map (·.toolSlug)).Nodup) (h : records.Perm records') :
    rankAll rk records' q = rankAll rk records q := by
  have hkept : (keptHits rk records' q).Perm (keptHits rk records q) :=
    (((h.symm.filter _).filterMap _).map _).filter _
  have hordered : ordered rk records' q = ordered rk records q := by
    unfold ordered
    refine List.Perm.eq_of_pairwise (fun a b ha hb hab hba => ?_)
      (List.pairwise_insertionSort _ _) (List.pairwise_insertionSort _ _)
      (((List.perm_insertionSort _ _).trans hkept).trans (List.perm_insertionSort _ _).symm)
    have ha' := hkept.mem_iff.mp ((List.mem_insertionSort _).mp ha)
    exact before_antisymm rk records q hslugs a b ha' ((List.mem_insertionSort _).mp hb) hab hba
  rw [rankAll_eq, rankAll_eq, hordered]

/-! ## The pages -/

/-- All pages: a caller asks for the first one, and then for the others at steps of the
    limit. -/
def walk (rk : Ranking) (records : List SearchRecord) (q : SearchQuery) : List SearchHit :=
  let first := searchPage rk records { q with offset := none }
  (List.range ((first.total + first.limit - 1) / first.limit)).flatMap fun k =>
    (searchPage rk records { q with offset := some (UInt32.ofNat (k * first.limit)) }).hits

theorem effectiveLimit_pos (limit : Option UInt32) : 0 < effectiveLimit limit := by
  unfold effectiveLimit
  cases limit with
  | none => decide
  | some n =>
      dsimp only
      by_cases hn : n = 0
      · rw [if_pos hn]
        decide
      · have hpos : n.toNat ≠ 0 := fun h => hn (UInt32.toNat_inj.mp h)
        rw [if_neg hn]
        omega

/-- Pieces of the same length, put together again. -/
theorem flatMap_pieces {α : Type} (l : List α) (limit count : Nat) :
    (List.range count).flatMap (fun k => (l.drop (k * limit)).take limit) =
      l.take (count * limit) := by
  induction count with
  | zero => rw [Nat.zero_mul, List.take_zero]; rfl
  | succ count ih =>
      rw [List.range_succ, List.flatMap_append, ih, List.flatMap_singleton, Nat.succ_mul,
        List.take_add]

theorem page_eq (offset : Nat) (hfew : (rankAll rk records q).length < 4294967296)
    (hoffset : offset < (rankAll rk records q).length) :
    (searchPage rk records { q with offset := some (UInt32.ofNat offset) }).hits =
      ((rankAll rk records q).drop offset).take (effectiveLimit q.limit) := by
  have hrank : rankAll rk records { q with offset := some (UInt32.ofNat offset) } =
      rankAll rk records q := rfl
  have hsmall : (UInt32.ofNat offset).toNat = offset := UInt32.toNat_ofNat_of_lt' (by
    have : UInt32.size = 4294967296 := rfl
    omega)
  have hpos := effectiveLimit_pos q.limit
  unfold searchPage
  dsimp only
  rw [hrank, Option.map_some, Option.getD_some, hsmall, Nat.mod_eq_of_lt hfew,
    Nat.min_eq_left (Nat.le_of_lt hoffset), if_pos hoffset]
  have hlast : min (min (offset + effectiveLimit q.limit) maxScore)
      (rankAll rk records q).length =
        min (offset + effectiveLimit q.limit) (rankAll rk records q).length := by
    have hmax : maxScore = 4294967295 := rfl
    omega
  rw [hlast, List.drop_take]
  by_cases hle : offset + effectiveLimit q.limit ≤ (rankAll rk records q).length
  · rw [Nat.min_eq_left hle, Nat.add_sub_cancel_left]
  · rw [Nat.min_eq_right (by omega), List.take_of_length_le (by rw [List.length_drop]),
      List.take_of_length_le (by rw [List.length_drop]; omega)]

theorem total_eq (offset : Option UInt32) :
    (searchPage rk records { q with offset := offset }).total =
      (rankAll rk records q).length % 4294967296 := rfl

/-- The pages are the ranking, cut into pieces. -/
theorem walk_eq (hfew : (rankAll rk records q).length < 4294967296) :
    walk rk records q = rankAll rk records q := by
  have hpos := effectiveLimit_pos q.limit
  have htotal : (searchPage rk records { q with offset := none }).total =
      (rankAll rk records q).length := (total_eq rk records q none).trans (Nat.mod_eq_of_lt hfew)
  have hlimit : (searchPage rk records { q with offset := none }).limit =
      effectiveLimit q.limit := rfl
  have hpages : ∀ k ∈ List.range (((rankAll rk records q).length + effectiveLimit q.limit - 1) /
      effectiveLimit q.limit),
      (searchPage rk records
        { q with offset := some (UInt32.ofNat (k * effectiveLimit q.limit)) }).hits =
          ((rankAll rk records q).drop (k * effectiveLimit q.limit)).take
            (effectiveLimit q.limit) := by
    intro k hk
    have hlt := List.mem_range.mp hk
    have hbound : (k + 1) * effectiveLimit q.limit ≤
        (rankAll rk records q).length + effectiveLimit q.limit - 1 :=
      (Nat.le_div_iff_mul_le hpos).mp hlt
    rw [Nat.succ_mul] at hbound
    exact page_eq rk records q _ hfew (by omega)
  have hcount : (rankAll rk records q).length ≤
      ((rankAll rk records q).length + effectiveLimit q.limit - 1) / effectiveLimit q.limit *
        effectiveLimit q.limit := by
    have hdiv := Nat.div_add_mod ((rankAll rk records q).length + effectiveLimit q.limit - 1)
      (effectiveLimit q.limit)
    have hmod := Nat.mod_lt ((rankAll rk records q).length + effectiveLimit q.limit - 1) hpos
    rw [Nat.mul_comm] at hdiv
    omega
  unfold walk
  dsimp only
  rw [htotal, hlimit, List.flatMap_congr hpages, flatMap_pieces,
    List.take_of_length_le hcount]

/-! ## A further clause -/

theorem foldl_laterMax (l : List ScoreBreakdown) (a : ScoreBreakdown) :
    ∃ b ∈ a :: l, l.foldl laterMax (some a) = some b ∧ ∀ c ∈ a :: l, c.score ≤ b.score := by
  induction l generalizing a with
  | nil => exact ⟨a, List.mem_cons_self, rfl, fun c hc => by rw [List.mem_singleton.mp hc]⟩
  | cons x l ih =>
      rw [List.foldl_cons, laterMax]
      by_cases hle : a.score ≤ x.score
      · rcases ih x with ⟨b, hb, hfold, hgreatest⟩
        have hx := hgreatest x List.mem_cons_self
        rw [if_pos hle]
        refine ⟨b, List.mem_cons_of_mem _ hb, hfold, fun c hc => ?_⟩
        rcases List.mem_cons.mp hc with rfl | hc
        · omega
        · exact hgreatest c hc
      · rcases ih a with ⟨b, hb, hfold, hgreatest⟩
        have ha := hgreatest a List.mem_cons_self
        rw [if_neg hle]
        refine ⟨b, ?_, hfold, fun c hc => ?_⟩
        · rcases List.mem_cons.mp hb with rfl | hb
          · exact List.mem_cons_self
          · exact List.mem_cons_of_mem _ (List.mem_cons_of_mem _ hb)
        · simp only [List.mem_cons] at hc
          rcases hc with rfl | rfl | hc
          · exact ha
          · omega
          · exact hgreatest c (List.mem_cons_of_mem _ hc)

/-- The breakdown that is kept is one of them, and none has a greater score. -/
theorem lastMax_spec (l : List ScoreBreakdown) (hne : l ≠ []) :
    ∃ b ∈ l, lastMax l = some b ∧ ∀ c ∈ l, c.score ≤ b.score := by
  cases l with
  | nil => exact absurd rfl hne
  | cons x l => exact foldl_laterMax l x

/-- What the clauses give a row. -/
def bestScore (l : List ScoreBreakdown) : Nat := ((lastMax l).getD ⟨0, []⟩).score

theorem bestScore_mono (l l' : List ScoreBreakdown) (h : ∀ b ∈ l, b ∈ l') :
    bestScore l ≤ bestScore l' := by
  cases l with
  | nil => exact Nat.zero_le _
  | cons x l =>
      rcases lastMax_spec (x :: l) (List.cons_ne_nil x l) with ⟨b, hb, hbest, _⟩
      rcases lastMax_spec l' (List.ne_nil_of_mem (h b hb)) with ⟨b', _, hbest', hgreatest⟩
      unfold bestScore
      rw [hbest, hbest']
      exact hgreatest b (h b hb)

theorem mem_foldl_clauses (l : List String) (found : List String) (c : String) :
    c ∈ l.foldl (fun found o =>
        if normalise o = "" ∨ normalise o ∈ found then found else found ++ [normalise o]) found ↔
      c ∈ found ∨ (c ≠ "" ∧ ∃ o ∈ l, normalise o = c) := by
  induction l generalizing found with
  | nil => simp
  | cons o l ih =>
      rw [List.foldl_cons, ih]
      simp only [List.mem_cons, exists_eq_or_imp]
      by_cases hold : normalise o = "" ∨ normalise o ∈ found
      · rw [if_pos hold]
        constructor
        · rintro (hc | ⟨hne, hrest⟩)
          · exact Or.inl hc
          · exact Or.inr ⟨hne, Or.inr hrest⟩
        · rintro (hc | ⟨hne, rfl | hrest⟩)
          · exact Or.inl hc
          · exact Or.inl (hold.resolve_left hne)
          · exact Or.inr ⟨hne, hrest⟩
      · rw [if_neg hold, List.mem_append, List.mem_singleton]
        constructor
        · rintro ((hc | rfl) | ⟨hne, hrest⟩)
          · exact Or.inl hc
          · exact Or.inr ⟨fun h => hold (Or.inl h), Or.inl rfl⟩
          · exact Or.inr ⟨hne, Or.inr hrest⟩
        · rintro (hc | ⟨hne, rfl | hrest⟩)
          · exact Or.inl (Or.inl hc)
          · exact Or.inl (Or.inr rfl)
          · exact Or.inr ⟨hne, hrest⟩

/-- A request with one clause more, at any place among the others. -/
structure Widened (q q' : SearchQuery) : Prop where
  orQueries : ∃ earlier o later, q.orQueries = earlier ++ later ∧
    q' = { q with orQueries := earlier ++ o :: later }

theorem clauses_widened (q q' : SearchQuery) (h : Widened q q') (c : String)
    (hc : c ∈ clauses q) : c ∈ clauses q' := by
  rcases h.orQueries with ⟨earlier, o, later, hq, rfl⟩
  unfold clauses at hc ⊢
  rw [mem_foldl_clauses] at hc ⊢
  rcases hc with hc | ⟨hne, o', ho', rfl⟩
  · exact Or.inl hc
  · refine Or.inr ⟨hne, o', ?_, rfl⟩
    rw [hq] at ho'
    dsimp only
    rw [List.mem_append, List.mem_cons]
    rcases List.mem_append.mp ho' with ho' | ho'
    · exact Or.inl ho'
    · exact Or.inr (Or.inr ho')

/-- The names a row is asked for by. -/
def isExactName (q : SearchQuery) (r : SearchRecord) : Bool :=
  (clauses q).any (fun clause =>
    eqIgnoreAsciiCase r.backendTool clause || r.skillName.any (eqIgnoreAsciiCase · clause))

/-- The score of a row, without the boost. -/
def rawScore (rk : Ranking) (q : SearchQuery) (r : SearchRecord) : Nat :=
  bestScore ((clauses q).map (fun clause =>
    rk.explain q.mode r clause (q.sceneHint.map toAsciiLowercase)))

theorem hit_eq_some_iff (r : SearchRecord) (score : Nat) :
    (∃ h, hit rk q r = some h ∧ h.record = r ∧ h.score = score) ↔
      (if isExactName q r = true then some maxScore
        else rk.adjust (rawScore rk q r) r.rankLayer r.rankPathSource (explicitLayer q)) =
          some score ∧ ((clauses q).isEmpty || 0 < score) = true := by
  unfold hit
  dsimp only
  constructor
  · rintro ⟨h, hhit, _, rfl⟩
    rcases Option.filter_eq_some_iff.mp hhit with ⟨hmap, hpositive⟩
    rcases Option.map_eq_some_iff.mp hmap with ⟨score, hscore, rfl⟩
    exact ⟨hscore, hpositive⟩
  · rintro ⟨hscore, hpositive⟩
    refine ⟨_, Option.filter_eq_some_iff.mpr
      ⟨Option.map_eq_some_iff.mpr ⟨score, hscore, rfl⟩, hpositive⟩, rfl, rfl⟩

theorem applyRankPolicy_mono (scale : Scale) (hscale : ∀ l p, Monotone (scale l p))
    (a b : Nat) (hle : a ≤ b) (layer source : Option String) (explicit : Bool) (x : Nat)
    (hx : applyRankPolicy scale a layer source explicit = some x) :
    x ≤ maxScore ∧ ∃ y, applyRankPolicy scale b layer source explicit = some y ∧ x ≤ y := by
  unfold applyRankPolicy at hx ⊢
  rcases Option.map_eq_some_iff.mp hx with ⟨l, hl, hscore⟩
  have hscaled := hscale l (pathSourceMultiplier source) hle
  have hmax : maxScore = 4294967295 := rfl
  rw [hl]
  refine ⟨?_, _, rfl, ?_⟩
  · split at hscore <;> omega
  · dsimp only
    by_cases hzero : 0 < a
    · rw [if_pos hzero] at hscore
      rw [if_pos (by omega)]
      omega
    · rw [if_neg hzero] at hscore
      omega

theorem boost_score (hint : Option String) (h h' : SearchHit) (hrecord : h.record = h'.record)
    (hle : h.score ≤ h'.score) :
    (applySkillHintBoost hint h).score ≤ (applySkillHintBoost hint h').score := by
  unfold applySkillHintBoost
  split
  · exact hle
  · by_cases hshort : (toAsciiLowercase ‹String›).utf8ByteSize < 2
    · rw [if_pos hshort, if_pos hshort]
      exact hle
    · rw [if_neg hshort, if_neg hshort, hrecord]
      split
      · dsimp only
        omega
      · exact hle

/-- A row that is a hit is one with a further clause too, and with no lower score. -/
theorem hit_widened (explain : SearchMode → SearchRecord → String → Option String → ScoreBreakdown)
    (scale : Scale) (hscale : ∀ l p, Monotone (scale l p)) (q q' : SearchQuery)
    (hwidened : Widened q q') (hsome : clauses q ≠ []) (r : SearchRecord) (h : SearchHit)
    (hhit : hit (policyRanking explain scale) q r = some h) :
    ∃ h', hit (policyRanking explain scale) q' r = some h' ∧ h'.record = r ∧
      h.score ≤ h'.score := by
  have hsub := clauses_widened q q' hwidened
  have hq' : q'.mode = q.mode ∧ q'.sceneHint = q.sceneHint ∧
      explicitLayer q' = explicitLayer q := by
    rcases hwidened.orQueries with ⟨earlier, o, later, _, rfl⟩
    exact ⟨rfl, rfl, rfl⟩
  rcases (hit_eq_some_iff _ q r h.score).mp ⟨h, hhit, hit_record _ q r h hhit, rfl⟩ with
    ⟨hscore, hpositive⟩
  have hpos : 0 < h.score := by
    rw [List.isEmpty_eq_false_iff.mpr hsome, Bool.false_or, decide_eq_true_eq] at hpositive
    exact hpositive
  have hraw : rawScore (policyRanking explain scale) q r ≤
      rawScore (policyRanking explain scale) q' r := by
    refine bestScore_mono _ _ (fun b hb => ?_)
    rcases List.mem_map.mp hb with ⟨clause, hclause, rfl⟩
    refine List.mem_map.mpr ⟨clause, hsub clause hclause, ?_⟩
    rw [hq'.1, hq'.2.1]
  have hmax : maxScore = 4294967295 := rfl
  -- the score of the row for the wider request
  have hwide : ∃ score', (if isExactName q' r = true then some maxScore
      else (policyRanking explain scale).adjust (rawScore (policyRanking explain scale) q' r)
        r.rankLayer r.rankPathSource (explicitLayer q')) = some score' ∧ h.score ≤ score' := by
    by_cases hexact : isExactName q r = true
    · have hexact' : isExactName q' r = true := by
        unfold isExactName at hexact ⊢
        rcases List.any_eq_true.mp hexact with ⟨clause, hclause, hname⟩
        exact List.any_eq_true.mpr ⟨clause, hsub clause hclause, hname⟩
      rw [if_pos hexact, Option.some.injEq] at hscore
      exact ⟨maxScore, if_pos hexact', by omega⟩
    · rw [if_neg hexact] at hscore
      rcases applyRankPolicy_mono scale hscale _ _ hraw _ _ _ _ hscore with ⟨hle, y, hy, hxy⟩
      by_cases hexact' : isExactName q' r = true
      · exact ⟨maxScore, if_pos hexact', hle⟩
      · refine ⟨y, ?_, hxy⟩
        rw [if_neg hexact', hq'.2.2]
        exact hy
  rcases hwide with ⟨score', hscore', hle⟩
  have hpositive' : ((clauses q').isEmpty || decide (0 < score')) = true := by
    rw [Bool.or_eq_true, decide_eq_true_eq]
    exact Or.inr (by omega)
  rcases (hit_eq_some_iff _ q' r score').mpr ⟨hscore', hpositive'⟩ with ⟨h', hhit', hr', rfl⟩
  exact ⟨h', hhit', hr', hle⟩

theorem mem_rankAll (r : SearchRecord) (score : Nat) :
    (∃ h ∈ rankAll rk records q, h.record = r ∧ h.score = score) ↔
      ∃ k ∈ keptHits rk records q, k.record = r ∧ k.score = score := by
  rw [rankAll_eq]
  constructor
  · rintro ⟨h, hh, hr, hscore⟩
    rcases List.mem_map.mp hh with ⟨entry, hentry, rfl⟩
    exact ⟨entry.1, (List.mem_insertionSort _).mp (List.fst_mem_of_mem_zipIdx hentry), hr, hscore⟩
  · rintro ⟨k, hk, hr, hscore⟩
    rcases List.mem_iff_getElem.mp ((List.mem_insertionSort (fun a b => before a b = true)).mpr hk)
      with ⟨i, hi, rfl⟩
    refine ⟨_, List.mem_map.mpr ⟨(_, i), List.mk_mem_zipIdx_iff_getElem?.mpr
      (List.getElem?_eq_getElem hi), rfl⟩, hr, hscore⟩

/-- A further clause removes no hit and lowers no score. -/
theorem rankAll_clause
    (explain : SearchMode → SearchRecord → String → Option String → ScoreBreakdown)
    (scale : Scale) (hscale : ∀ l p, Monotone (scale l p)) (records : List SearchRecord)
    (q q' : SearchQuery) (hwidened : Widened q q') (hsome : clauses q ≠ []) (h : SearchHit)
    (hh : h ∈ rankAll (policyRanking explain scale) records q) :
    ∃ h' ∈ rankAll (policyRanking explain scale) records q', h'.record = h.record ∧
      h.score ≤ h'.score := by
  rcases (mem_rankAll _ records q h.record h.score).mp ⟨h, hh, rfl, rfl⟩ with
    ⟨k, hk, hkr, hks⟩
  rcases (mem_keptHits _ records q k).mp hk with ⟨r, hr, hcandidate, hit₀, hhit, rfl, hkept⟩
  rcases hit_widened explain scale hscale q q' hwidened hsome r hit₀ hhit with
    ⟨hit₁, hhit', hr', hle⟩
  have hrecord := hit_record _ q r hit₀ hhit
  have hq' : isCandidate q' = isCandidate q ∧ q'.skillHint = q.skillHint ∧
      q'.minScore = q.minScore := by
    rcases hwidened.orQueries with ⟨earlier, o, later, _, rfl⟩
    exact ⟨rfl, rfl, rfl⟩
  have hboost := boost_score q.skillHint hit₀ hit₁ (hrecord.trans hr'.symm) hle
  have hkept' : applySkillHintBoost q'.skillHint hit₁ ∈
      keptHits (policyRanking explain scale) records q' := by
    refine (mem_keptHits _ records q' _).mpr
      ⟨r, hr, by rw [hq'.1]; exact hcandidate, hit₁, hhit', rfl, ?_⟩
    rw [hq'.2.1, hq'.2.2]
    rw [List.isEmpty_eq_false_iff.mpr hsome, Bool.false_or, Option.all_eq_true] at hkept
    rw [Bool.or_eq_true, Option.all_eq_true]
    refine Or.inr (fun least hleast => ?_)
    have hold := hkept least hleast
    rw [decide_eq_true_eq] at hold ⊢
    omega
  rcases (mem_rankAll _ records q' r _).mpr
    ⟨_, hkept', (boost_record _ hit₁).trans hr', rfl⟩ with ⟨h', hh', hhr, hhs⟩
  refine ⟨h', hh', ?_, ?_⟩
  · rw [hhr, ← hkr, boost_record, hrecord]
  · rw [hhs, ← hks, hq'.2.1]
    exact hboost

/-! ## All of it -/

/-- A search finds the same hits in the same order in whatever order the rows are kept, its
    pages are the ranking cut into pieces, as many rows are scored as are counted, and a
    further clause can only help. -/
theorem search_pageable
    (explain : SearchMode → SearchRecord → String → Option String → ScoreBreakdown)
    (scale : Scale) (hscale : ∀ l p, Monotone (scale l p)) (records records' : List SearchRecord)
    (hslugs : (records.map (·.toolSlug)).Nodup) (hperm : records.Perm records')
    (hfew : records.length < 4294967296) (q : SearchQuery) :
    rankAll (policyRanking explain scale) records' q =
        rankAll (policyRanking explain scale) records q ∧
      (rankAll (policyRanking explain scale) records q).map (·.rank) =
        List.range' 1 (rankAll (policyRanking explain scale) records q).length ∧
      walk (policyRanking explain scale) records q =
        rankAll (policyRanking explain scale) records q ∧
      countCandidates records q = (records.filter (isCandidate q)).length ∧
      ∀ q', Widened q q' → clauses q ≠ [] →
        ∀ h ∈ rankAll (policyRanking explain scale) records q,
          ∃ h' ∈ rankAll (policyRanking explain scale) records q',
            h'.record = h.record ∧ h.score ≤ h'.score := by
  have hlength : (rankAll (policyRanking explain scale) records q).length < 4294967296 := by
    have hle := length_keptHits_le (policyRanking explain scale) records q
    rw [length_rankAll]
    omega
  exact ⟨rankAll_perm _ records records' q hslugs hperm, ranks_rankAll _ records q hlength,
    walk_eq _ records q hlength, countCandidates_eq records q,
    fun q' hwidened hsome => rankAll_clause explain scale hscale records q q' hwidened hsome⟩

/-- A request for everything. -/
def everything : SearchQuery where
  query := ""
  dccType := none
  dccTypes := []
  instanceId := none
  tags := []
  tagsAny := []
  excludeTags := []
  loadedOnly := none
  sceneHint := none
  minScore := none
  skillHint := none
  orQueries := []
  limit := none
  offset := none
  mode := .fuzzy

theorem firstInstance_lt : 1 < 2 ^ 128 := by decide

/-- A row that says nothing but its name. -/
def plainRow (slug : String) : SearchRecord where
  toolSlug := slug
  backendTool := slug
  summary := ""
  skillName := none
  tags := []
  searchTokens := []
  searchAliases := []
  dccType := ""
  instanceId := ⟨1, firstInstance_lt⟩
  loaded := true
  toolRole := none
  risk := none
  rankLayer := none
  rankPathSource := none
  rankScope := 0

/-- A row fits a clause as well as its name is long. -/
def byLength : SearchMode → SearchRecord → String → Option String → ScoreBreakdown :=
  fun _ r _ _ => ⟨r.toolSlug.length, []⟩

def unscaled : Scale := fun _ _ score => score

theorem search_pageable_two :
    rankAll (policyRanking byLength unscaled) [plainRow "ab", plainRow "a"] everything =
        rankAll (policyRanking byLength unscaled) [plainRow "a", plainRow "ab"] everything ∧
      walk (policyRanking byLength unscaled) [plainRow "a", plainRow "ab"] everything =
        rankAll (policyRanking byLength unscaled) [plainRow "a", plainRow "ab"] everything := by
  have h := search_pageable byLength unscaled (fun _ _ _ _ hle => hle)
    [plainRow "a", plainRow "ab"] [plainRow "ab", plainRow "a"] (by decide)
    (List.Perm.swap _ _ []) (by decide) everything
  exact ⟨h.1, h.2.2.1⟩

/-- Rows with different names. -/
def crowd (n : Nat) : List SearchRecord :=
  (List.range n).map fun i => plainRow (.ofList (List.replicate i 'a'))

theorem hit_plainRow (slug : String) :
    hit (policyRanking byLength unscaled) everything (plainRow slug) =
      some ⟨plainRow slug, 0, 0, []⟩ := rfl

theorem length_keptHits_crowd (n : Nat) :
    (keptHits (policyRanking byLength unscaled) (crowd n) everything).length = n := by
  have hcandidates : (crowd n).filter (isCandidate everything) = crowd n := by
    refine List.filter_eq_self.mpr (fun r hr => ?_)
    rcases List.mem_map.mp hr with ⟨i, _, rfl⟩
    rfl
  have hhits : ∀ l : List Nat, ((l.map fun i => plainRow (.ofList (List.replicate i 'a'))).filterMap
      (hit (policyRanking byLength unscaled) everything)).length = l.length := by
    intro l
    induction l with
    | nil => rfl
    | cons i l ih =>
        rw [List.map_cons, List.filterMap_cons_some (hit_plainRow _), List.length_cons, ih,
          List.length_cons]
  unfold keptHits
  rw [hcandidates]
  refine (congrArg List.length (List.filter_eq_self.mpr (fun h _ => rfl))).trans ?_
  rw [List.length_map]
  exact (hhits (List.range n)).trans List.length_range

/-- With 2^32 hits there are none, as far as the pages can tell. -/
theorem walk_overflow (hlimit : q.limit = none)
    (hlength : (rankAll rk records q).length = 4294967296) :
    walk rk records q = [] := by
  have htotal := total_eq rk records q none
  have hfirst : (searchPage rk records { q with offset := none }).limit = 25 := by
    change effectiveLimit q.limit = 25
    rw [hlimit]
    rfl
  rw [hlength, Nat.mod_self] at htotal
  unfold walk
  dsimp only
  rw [htotal, hfirst]
  rfl

theorem nodup_crowd (n : Nat) : ((crowd n).map (·.toolSlug)).Nodup := by
  unfold crowd
  rw [List.map_map]
  refine List.Nodup.map (fun i j h => ?_) List.nodup_range
  have hlist := String.ofList_injective h
  rw [← List.length_replicate (n := i) (a := 'a'), hlist, List.length_replicate]

theorem length_rankAll_crowd (n : Nat) :
    (rankAll (policyRanking byLength unscaled) (crowd n) everything).length = n :=
  (length_rankAll _ _ _).trans (length_keptHits_crowd n)

theorem crowd_walk (n : Nat) (h : n = 4294967296) :
    walk (policyRanking byLength unscaled) (crowd n) everything ≠
      rankAll (policyRanking byLength unscaled) (crowd n) everything := by
  have hlength := length_rankAll_crowd n
  have hempty := walk_overflow _ _ everything rfl (hlength.trans h)
  intro heq
  rw [← heq, hempty, List.length_nil] at hlength
  omega

theorem crowd_not_pageable :
    ((crowd 4294967296).map (·.toolSlug)).Nodup ∧
      walk (policyRanking byLength unscaled) (crowd 4294967296) everything ≠
        rankAll (policyRanking byLength unscaled) (crowd 4294967296) everything :=
  ⟨nodup_crowd 4294967296, crowd_walk 4294967296 rfl⟩

end Search

end Gateway

end DccMcp
