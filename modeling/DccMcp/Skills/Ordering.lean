import DccMcp.Skills.Resolver

/-!
# The Order of Skills

Kahn's loop, for any counts that agree with the dependencies.

The invariant is about the finished positions alone. The count of a position
is the number of its dependencies that are not finished, and the positions
that are finished or in the queue are exactly those whose count is zero. From
the first it follows that a position is finished behind all it depends on,
from the second that a position which is never finished depends on another
one that is not.

## Main definitions

* `KahnInv`: The invariant of the loop.

## Theorems

* `relax_spec`: What a finished position does to the counts and the queue.
* `kahnInv_step`: One turn of the loop keeps the invariant.
* `kahn_spec`: The loop ends with an empty queue.
* `orderedIndices_ordered`: The finished positions are in order.
* `not_acyclic_of_stuck`: If not all are finished there is a cycle.
-/

namespace DccMcp

namespace Skills

open Dependency

/-- The neighbours of one finished position. Each count drops by the number of
    edges, and the positions whose count drops to zero are queued, once. -/
theorem relax_spec (neighbors : List Nat) (inDegree : Nat → Nat) (queue : List Nat)
    (hcount : ∀ i, neighbors.count i ≤ inDegree i) :
    (∀ i, (neighbors.foldl relax (inDegree, queue)).1 i = inDegree i - neighbors.count i) ∧
    ∃ added, (neighbors.foldl relax (inDegree, queue)).2 = queue ++ added ∧ added.Nodup ∧
      ∀ i, i ∈ added ↔ i ∈ neighbors ∧ inDegree i = neighbors.count i := by
  induction neighbors generalizing inDegree queue with
  | nil =>
      refine ⟨fun i => rfl, [], (List.append_nil queue).symm, List.nodup_nil, fun i => ?_⟩
      exact iff_of_false List.not_mem_nil (fun h => List.not_mem_nil h.1)
  | cons a rest ih =>
      -- The counts after the first neighbour.
      have hcons : ∀ i, (a :: rest).count i = rest.count i + if i = a then 1 else 0 := by
        intro i
        rw [List.count_cons]
        by_cases hi : i = a
        · rw [if_pos hi, if_pos (beq_iff_eq.mpr hi.symm)]
        · rw [if_neg hi, if_neg (fun h => hi (beq_iff_eq.mp h).symm)]
      have hpos : 1 ≤ inDegree a := by
        have ha := hcount a
        rw [hcons, if_pos rfl] at ha
        omega
      let next := Function.update inDegree a (inDegree a - 1)
      have hnext : ∀ i, next i = inDegree i - if i = a then 1 else 0 := by
        intro i
        by_cases hi : i = a
        · subst hi
          rw [if_pos rfl]
          exact Function.update_self ..
        · rw [if_neg hi, Nat.sub_zero]
          exact Function.update_of_ne hi ..
      have hrest : ∀ i, rest.count i ≤ next i := by
        intro i
        have hi := hcount i
        rw [hcons] at hi
        rw [hnext]
        omega
      rw [List.foldl_cons]
      rcases ih next (relax (inDegree, queue) a).2 hrest with ⟨hdegree, added, hqueue, hnodup, hadded⟩
      refine ⟨fun i => ?_, ?_⟩
      · rw [hcons]
        have hi : (rest.foldl relax (relax (inDegree, queue) a)).1 i = next i - rest.count i :=
          hdegree i
        rw [hi, hnext]
        omega
      · by_cases hzero : next a = 0
        · have hrelax : (relax (inDegree, queue) a).2 = queue ++ [a] := if_pos hzero
          have hnot : a ∉ rest := by
            intro ha
            have hone := List.one_le_count_iff.mpr ha
            have hle := hrest a
            omega
          refine ⟨a :: added, ?_, ?_, fun i => ?_⟩
          · have hq : (rest.foldl relax (relax (inDegree, queue) a)).2
                = (relax (inDegree, queue) a).2 ++ added := hqueue
            rw [hq, hrelax, List.append_assoc]
            rfl
          · exact List.nodup_cons.mpr ⟨fun ha => hnot ((hadded a).mp ha).1, hnodup⟩
          · rw [List.mem_cons, hadded, List.mem_cons, hcons]
            by_cases hi : i = a
            · subst hi
              have hzero' := hnext i
              rw [if_pos rfl] at hzero'
              rw [if_pos rfl, List.count_eq_zero_of_not_mem hnot]
              exact iff_of_true (.inl rfl) ⟨.inl rfl, by omega⟩
            · have hsame := hnext i
              rw [if_neg hi] at hsame
              rw [if_neg hi, hsame]
              simp [hi]
        · have hrelax : (relax (inDegree, queue) a).2 = queue := if_neg hzero
          refine ⟨added, ?_, hnodup, fun i => ?_⟩
          · have hq : (rest.foldl relax (relax (inDegree, queue) a)).2
                = (relax (inDegree, queue) a).2 ++ added := hqueue
            rw [hq, hrelax]
          · rw [hadded, List.mem_cons, hcons, hnext]
            by_cases hi : i = a
            · subst hi
              have hne := hnext i
              rw [if_pos rfl] at hne
              rw [if_pos rfl]
              constructor
              · rintro ⟨hmem, heq⟩
                exact ⟨.inl rfl, by omega⟩
              · rintro ⟨_, heq⟩
                have hcountpos : 0 < rest.count i := by omega
                exact ⟨List.one_le_count_iff.mp hcountpos, by omega⟩
            · rw [if_neg hi]
              simp [hi]

section Loop

variable (n : Nat) (deps adj : Nat → List Nat)

/-- The invariant of Kahn's loop. -/
structure KahnInv (ordered queue : List Nat) (inDegree : Nat → Nat) : Prop where
  nodup : (ordered ++ queue).Nodup
  degree : ∀ i, inDegree i = (deps i).countP (fun d => d ∉ ordered)
  ready : ∀ i, i ∈ ordered ++ queue ↔ i < n ∧ inDegree i = 0
  sorted : Ordered (fun i d => d ∈ deps i) ordered

/-- Finishing one more position closes its edges. -/
theorem countP_snoc (l ordered : List Nat) (idx : Nat) (h : idx ∉ ordered) :
    l.countP (fun d => d ∉ ordered ++ [idx]) + l.count idx = l.countP (fun d => d ∉ ordered) := by
  induction l with
  | nil => rfl
  | cons d rest ih =>
      rw [List.countP_cons, List.countP_cons, List.count_cons, ← ih]
      -- An entry that is the new position moves from one count to the other.
      by_cases hd : d = idx
      · subst hd
        simp only [List.mem_append, List.mem_singleton, or_true, not_true_eq_false, decide_false,
          Bool.false_eq_true, if_false, beq_self_eq_true, if_true, h, not_false_eq_true,
          decide_true]
        omega
      · simp only [List.mem_append, List.mem_singleton, hd, or_false, beq_iff_eq, if_false]
        omega

theorem length_le_of_ready (ordered queue : List Nat) (inDegree : Nat → Nat)
    (h : KahnInv n deps ordered queue inDegree) : (ordered ++ queue).length ≤ n := by
  have hsub : ordered ++ queue ⊆ List.range n := by
    intro i hi
    exact List.mem_range.mpr ((h.ready i).mp hi).1
  have hle := (h.nodup.subperm hsub).length_le
  rwa [List.length_range] at hle

variable (hadj : ∀ d i, (adj d).count i = (deps i).count d)
  (hdeps : ∀ i d, d ∈ deps i → i < n)

include hadj hdeps in
/-- One turn of the loop keeps the invariant. -/
theorem kahnInv_step (ordered queue : List Nat) (idx : Nat) (inDegree : Nat → Nat)
    (h : KahnInv n deps ordered (idx :: queue) inDegree) :
    KahnInv n deps (ordered ++ [idx]) ((adj idx).foldl relax (inDegree, queue)).2
      ((adj idx).foldl relax (inDegree, queue)).1 := by
  have hfresh : idx ∉ ordered := fun hmem =>
    (List.nodup_append.mp h.nodup).2.2 idx hmem idx List.mem_cons_self rfl
  -- The edges that are closed were all counted.
  have hcount : ∀ i, (adj idx).count i ≤ inDegree i := by
    intro i
    rw [hadj, h.degree, ← countP_snoc (deps i) ordered idx hfresh]
    exact Nat.le_add_left ..
  rcases relax_spec (adj idx) inDegree queue hcount with ⟨hdegree, added, hqueue, hnodup, hadded⟩
  have hold : ∀ i, i ∈ ordered ++ [idx] ++ queue ↔ i ∈ ordered ++ idx :: queue := by
    intro i
    rw [List.append_assoc]
    rfl
  have hmem : ∀ i, i ∈ (adj idx) ↔ 0 < (adj idx).count i := fun i => List.count_pos_iff.symm
  refine ⟨?_, fun i => ?_, fun i => ?_, ?_⟩
  · -- A position is queued when its count drops to zero, so it was not ready before.
    rw [hqueue, ← List.append_assoc]
    refine List.nodup_append.mpr ⟨?_, hnodup, fun i hi j hj hij => ?_⟩
    · rw [List.append_assoc]
      exact h.nodup
    · subst hij
      have hready := ((h.ready i).mp ((hold i).mp hi)).2
      have hin := (hadded i).mp hj
      have hpos := (hmem i).mp hin.1
      omega
  · rw [hdegree, hadj, h.degree]
    have hsnoc := countP_snoc (deps i) ordered idx hfresh
    omega
  · rw [hqueue, ← List.append_assoc, List.mem_append, hold, h.ready, hadded, hdegree]
    constructor
    · rintro (⟨hlt, hzero⟩ | ⟨hin, heq⟩)
      · exact ⟨hlt, by omega⟩
      · refine ⟨?_, by omega⟩
        have hpos := (hmem i).mp hin
        rw [hadj] at hpos
        exact hdeps i idx (List.count_pos_iff.mp hpos)
    · rintro ⟨hlt, hzero⟩
      have hle := hcount i
      by_cases hready : inDegree i = 0
      · exact .inl ⟨hlt, hready⟩
      · exact .inr ⟨(hmem i).mpr (by omega), by omega⟩
  · refine ordered_snoc _ ordered idx h.sorted (fun d hd => ?_)
    -- The position had no open dependency when it was taken.
    have hzero := ((h.ready idx).mp (List.mem_append_right ordered List.mem_cons_self)).2
    rw [h.degree, List.countP_eq_zero] at hzero
    have hnot := hzero d hd
    simp only [decide_eq_true_eq, not_not] at hnot
    exact hnot

include hadj hdeps in
/-- The loop ends with an empty queue: as many turns as there are positions
    are enough. -/
theorem kahn_spec (fuel : Nat) (ordered queue : List Nat) (inDegree : Nat → Nat)
    (h : KahnInv n deps ordered queue inDegree) (hfuel : n ≤ fuel + ordered.length) :
    ∃ final, KahnInv n deps (kahn adj fuel queue inDegree ordered) [] final := by
  -- By induction on the fuel. Every turn finishes a position.
  induction fuel generalizing ordered queue inDegree with
  | zero =>
      have hle := length_le_of_ready n deps ordered queue inDegree h
      rw [List.length_append] at hle
      have hempty : queue = [] := List.length_eq_zero_iff.mp (by omega)
      rw [hempty] at h ⊢
      exact ⟨inDegree, h⟩
  | succ fuel ih =>
      cases queue with
      | nil => exact ⟨inDegree, h⟩
      | cons idx queue =>
          rw [kahn]
          refine ih _ _ _ (kahnInv_step n deps adj hadj hdeps ordered queue idx inDegree h) ?_
          rw [List.length_append, List.length_singleton]
          omega

end Loop

variable {δ : Type}

/-- The finished positions, in every case. -/
theorem orderedIndices_inv (skills : List (SkillMetadata δ)) :
    ∃ final, KahnInv skills.length (depsOf skills)
      (orderedIndices (nameToIdx skills) skills) [] final := by
  unfold orderedIndices
  refine kahn_spec skills.length (depsOf skills) _ (buildGraph_adj skills)
    (fun i d hd => depsOf_left_lt skills i d hd) skills.length [] _ _ ?_ (by omega)
  refine ⟨?_, fun i => ?_, fun i => ?_, ordered_nil _⟩
  · exact List.nodup_range.filter _
  · rw [buildGraph_inDegree]
    have hall : (fun d : Nat => decide (d ∉ ([] : List Nat))) = fun _ => true := by
      funext d
      exact decide_eq_true List.not_mem_nil
    rw [hall, List.countP_true]
  · rw [List.nil_append, List.mem_filter, List.mem_range, decide_eq_true_eq]

/-- The finished positions are in order. -/
theorem orderedIndices_ordered (skills : List (SkillMetadata δ)) :
    (orderedIndices (nameToIdx skills) skills).Nodup ∧
      (∀ i ∈ orderedIndices (nameToIdx skills) skills, i < skills.length) ∧
      Ordered (fun i d => d ∈ depsOf skills i) (orderedIndices (nameToIdx skills) skills) := by
  rcases orderedIndices_inv skills with ⟨final, h⟩
  refine ⟨?_, fun i hi => ?_, h.sorted⟩
  · have hnodup := h.nodup
    rwa [List.append_nil] at hnodup
  · exact ((h.ready i).mp (List.mem_append_left [] hi)).1

/-- If not all positions are finished there is a cycle: each of the others
    depends on another one of them. -/
theorem not_acyclic_of_stuck (skills : List (SkillMetadata δ))
    (hnames : (skills.map SkillMetadata.name).Nodup)
    (hstuck : (orderedIndices (nameToIdx skills) skills).length ≠ skills.length) :
    ¬ Acyclic (fun i d => d ∈ depsOf skills i) := by
  rcases orderedIndices_inv skills with ⟨final, h⟩
  rw [show orderedIndices (nameToIdx skills) skills =
    orderedIndices (nameToIdx skills) skills ++ [] from (List.append_nil _).symm] at hstuck
  have hle := length_le_of_ready _ _ _ _ _ h
  let ordered := orderedIndices (nameToIdx skills) skills
  let rest := (List.range skills.length).filter (fun i => i ∉ ordered)
  have hrest : ∀ i, i ∈ rest ↔ i < skills.length ∧ i ∉ ordered := by
    intro i
    rw [List.mem_filter, List.mem_range, decide_eq_true_eq]
  -- Some position is not finished, since fewer are than there are.
  have hsome : ∃ i, i ∈ rest := by
    by_contra hnone
    push Not at hnone
    have hsub : List.range skills.length ⊆ ordered ++ [] := by
      intro i hi
      by_contra hout
      rw [List.append_nil] at hout
      exact hnone i ((hrest i).mpr ⟨List.mem_range.mp hi, hout⟩)
    have hge := (List.nodup_range.subperm hsub).length_le
    rw [List.length_range] at hge
    exact hstuck (Nat.le_antisymm hle hge)
  rcases hsome with ⟨i, hi⟩
  refine not_acyclic_of_closed _ rest i hi (fun j hj => ?_)
  rcases (hrest j).mp hj with ⟨hlt, hout⟩
  -- A position that is not finished has an open dependency.
  have hopen : final j ≠ 0 := fun hzero => by
    have hmem := (h.ready j).mpr ⟨hlt, hzero⟩
    rw [List.append_nil] at hmem
    exact hout hmem
  rw [h.degree] at hopen
  rcases List.countP_pos_iff.mp (Nat.pos_of_ne_zero hopen) with ⟨d, hd, hnot⟩
  exact ⟨d, (hrest d).mpr ⟨(depsOf_lt skills hnames j d hd).2, of_decide_eq_true hnot⟩, hd⟩

end Skills

end DccMcp
