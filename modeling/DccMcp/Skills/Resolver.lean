import DccMcp.Lib.Dependency
import DccMcp.Lib.OrderedMap
import Mathlib.Data.String.Basic

/-!
# The Skill Dependency Resolver

Skills name the skills they depend on, and the resolver puts a list of skills
into an order in which every skill stands behind its dependencies. It works
on positions in the list: it looks every name up once, counts for each skill
how many of its dependencies are still open, and takes skills off a queue as
their count drops to zero.

If that gets stuck there is a cycle, and a second walk looks for one to show:
a depth-first search that colours skills white, gray and black, remembers by
whom each was found, and follows those links back when it meets a gray skill.

Both loops are bounded by the number of skills, so they are written with that
bound as fuel. That the bound is enough is part of what is proved about them.

## Main definitions

* `SkillMetadata`, `ResolveError`: Skills and what can be wrong with them.
* `nameToIdx`, `findMissing`, `buildGraph`: The preparation.
* `kahn`: The loop over the queue.
* `dfsFindCycle`, `findCycle`: The search for a cycle.
* `resolveDependencies`: The resolver.
* `depsOf`: The positions a skill depends on.

## Theorems

* `lookup_nameToIdx`: Distinct names are found at their positions.
* `buildGraph_inDegree`, `buildGraph_adj`: What the preparation counts.
-/

namespace DccMcp

namespace Skills

/-- A skill: its name, what it depends on, and what the resolver does not look
    at. -/
structure SkillMetadata (δ : Type) where
  name : String
  depends : List String
  details : δ

/-- Errors of the resolution. -/
inductive ResolveError
  | missingDependency (skill dependency : String)
  | cyclicDependency (cycle : List String)
  deriving DecidableEq

variable {δ : Type}

/-- The map from names to positions; the last of equal names wins. -/
def nameToIdx (skills : List (SkillMetadata δ)) : OrderedMap String Nat :=
  skills.zipIdx.foldl (fun index e => index.insert e.1.name e.2) (.empty _ _)

/-- The validation loop: the first dependency that is not there. -/
def findMissing (index : OrderedMap String Nat) : List (SkillMetadata δ) → Option ResolveError
  | [] => none
  | skill :: rest =>
    match skill.depends.find? (fun dep => (index.lookup dep).isNone) with
    | some dep => some (.missingDependency skill.name dep)
    | none => findMissing index rest

/-- Dependents of each position, and how many dependencies each has. -/
structure Graph where
  adj : Nat → List Nat
  inDegree : Nat → Nat

namespace Graph

def empty : Graph := ⟨fun _ => [], fun _ => 0⟩

/-- `adj[dep].push(i)` and `in_degree[i] += 1`. -/
def addEdge (g : Graph) (edge : Nat × Nat) : Graph where
  adj := Function.update g.adj edge.1 (g.adj edge.1 ++ [edge.2])
  inDegree := Function.update g.inDegree edge.2 (g.inDegree edge.2 + 1)

end Graph

/-- The edges of one skill. -/
def addSkill (index : OrderedMap String Nat) (i : Nat) (g : Graph) (depends : List String) : Graph :=
  depends.foldl (fun g dep =>
    match index.lookup dep with
    | some depIdx => g.addEdge (depIdx, i)
    | none => g) g

/-- The adjacency list and the counts. -/
def buildGraph (index : OrderedMap String Nat) (skills : List (SkillMetadata δ)) : Graph :=
  skills.zipIdx.foldl (fun g e => addSkill index e.2 g e.1.depends) .empty

/-- One neighbour of a finished position. -/
def relax (state : (Nat → Nat) × List Nat) (neighbor : Nat) : (Nat → Nat) × List Nat :=
  let inDegree := Function.update state.1 neighbor (state.1 neighbor - 1)
  (inDegree, if inDegree neighbor = 0 then state.2 ++ [neighbor] else state.2)

/-- The loop of Kahn's algorithm. -/
def kahn (adj : Nat → List Nat) : Nat → List Nat → (Nat → Nat) → List Nat → List Nat
  | 0, _, _, ordered => ordered
  | _ + 1, [], _, ordered => ordered
  | fuel + 1, idx :: queue, inDegree, ordered =>
    let relaxed := (adj idx).foldl relax (inDegree, queue)
    kahn adj fuel relaxed.2 relaxed.1 (ordered ++ [idx])

/-- Colours of the depth-first search. -/
inductive Color
  | white
  | gray
  | black
  deriving DecidableEq

/-- The state of the depth-first search. -/
structure Search where
  color : Nat → Color
  parent : Nat → Option Nat

/-- The name at a position. -/
def nameAt (skills : List (SkillMetadata δ)) (i : Nat) : String :=
  match skills[i]? with
  | some skill => skill.name
  | none => ""

/-- The dependencies of the skill at a position. -/
def dependsAt (skills : List (SkillMetadata δ)) (i : Nat) : List String :=
  match skills[i]? with
  | some skill => skill.depends
  | none => []

/-- The way back from a position along the links, up to a given one. -/
def backtrack (skills : List (SkillMetadata δ)) (parent : Nat → Option Nat) (depIdx : Nat) :
    Nat → Nat → List String → List String
  | 0, _, cycle => cycle
  | fuel + 1, cur, cycle =>
    if cur = depIdx then cycle
    else backtrack skills parent depIdx fuel ((parent cur).getD depIdx) (cycle ++ [nameAt skills cur])

/-- The cycle through a gray position. -/
def closeCycle (skills : List (SkillMetadata δ)) (parent : Nat → Option Nat) (node depIdx : Nat) :
    List String :=
  (backtrack skills parent depIdx (skills.length + 1) node [nameAt skills depIdx] ++
    [nameAt skills depIdx]).reverse

/-- The loop over the dependencies of a position, with the search that visits
    a white one. -/
def visitDeps (skills : List (SkillMetadata δ)) (index : OrderedMap String Nat)
    (visit : Nat → Search → Option (List String) × Search) (node : Nat) :
    List String → Search → Option (List String) × Search
  | [], st => (none, st)
  | dep :: rest, st =>
    match index.lookup dep with
    | none => visitDeps skills index visit node rest st
    | some depIdx =>
      match st.color depIdx with
      | .gray => (some (closeCycle skills st.parent node depIdx), st)
      | .white =>
        match visit depIdx { st with parent := Function.update st.parent depIdx (some node) } with
        | (some cycle, st') => (some cycle, st')
        | (none, st') => visitDeps skills index visit node rest st'
      | .black => visitDeps skills index visit node rest st

def dfsFindCycle (skills : List (SkillMetadata δ)) (index : OrderedMap String Nat) :
    Nat → Nat → Search → Option (List String) × Search
  | 0, _, st => (none, st)
  | fuel + 1, node, st =>
    match visitDeps skills index (dfsFindCycle skills index fuel) node (dependsAt skills node)
      { st with color := Function.update st.color node .gray } with
    | (some cycle, st') => (some cycle, st')
    | (none, st') => (none, { st' with color := Function.update st'.color node .black })

/-- The loop over the start positions. -/
def findFrom (skills : List (SkillMetadata δ)) (index : OrderedMap String Nat) :
    List Nat → Search → Option (List String)
  | [], _ => none
  | start :: rest, st =>
    if st.color start = .white then
      match dfsFindCycle skills index skills.length start st with
      | (some cycle, _) => some cycle
      | (none, st') => findFrom skills index rest st'
    else findFrom skills index rest st

/-- `find_cycle`, with its fallback. -/
def findCycle (skills : List (SkillMetadata δ)) (index : OrderedMap String Nat) : List String :=
  match findFrom skills index (List.range skills.length) ⟨fun _ => .white, fun _ => none⟩ with
  | some cycle => cycle
  | none => (skills.filter (fun skill => !skill.depends.isEmpty)).map SkillMetadata.name

/-- The positions in the order in which Kahn's algorithm finishes them. -/
def orderedIndices (index : OrderedMap String Nat) (skills : List (SkillMetadata δ)) : List Nat :=
  let graph := buildGraph index skills
  let queue := (List.range skills.length).filter (fun i => graph.inDegree i = 0)
  kahn graph.adj skills.length queue graph.inDegree []

def resolveDependencies (skills : List (SkillMetadata δ)) :
    Except ResolveError (List (SkillMetadata δ)) :=
  if skills.isEmpty then .ok []
  else
    let index := nameToIdx skills
    match findMissing index skills with
    | some error => .error error
    | none =>
      let ordered := orderedIndices index skills
      if ordered.length ≠ skills.length then .error (.cyclicDependency (findCycle skills index))
      else .ok (ordered.filterMap (fun i => skills[i]?))

/-! ## Names and positions -/

/-- The positions a skill depends on, each as often as it is named. -/
def depsOf (skills : List (SkillMetadata δ)) (i : Nat) : List Nat :=
  (dependsAt skills i).filterMap (nameToIdx skills).lookup

variable (skills : List (SkillMetadata δ))

/-- Distinct names are found at their positions. -/
theorem lookup_nameToIdx (hnames : (skills.map SkillMetadata.name).Nodup) (name : String)
    (i : Nat) :
    (nameToIdx skills).lookup name = some i ↔
      ∃ skill, skills[i]? = some skill ∧ skill.name = name := by
  -- The loop inserts the names with their positions, in order.
  have hfold : nameToIdx skills = (skills.zipIdx.map (fun e => (e.1.name, e.2))).foldl
      (fun index e => index.insert e.1 (id e.2)) (.empty _ _) := by
    rw [List.foldl_map]
    rfl
  have hkeys : (skills.zipIdx.map (fun e => (e.1.name, e.2))).map Prod.fst
      = skills.map SkillMetadata.name := by
    have hcomp : (skills.zipIdx.map (fun e => (e.1.name, e.2))).map Prod.fst
        = (skills.zipIdx.map Prod.fst).map SkillMetadata.name := by
      rw [List.map_map, List.map_map]
      rfl
    rw [hcomp, List.zipIdx_map_fst]
  -- No name is inserted twice, so every position stays.
  have hfound : ∀ j skill, skills[j]? = some skill →
      (nameToIdx skills).lookup skill.name = some j := by
    intro j skill hskill
    rw [hfold]
    refine OrderedMap.lookup_foldl_insert id _ _ skill.name j (hkeys.symm ▸ hnames) ?_
    exact List.mem_map.mpr ⟨(skill, j), List.mem_zipIdx_iff_getElem?.mpr hskill, rfl⟩
  constructor
  · intro hlookup
    -- A name that is found is the name of some skill, and then at its position.
    by_cases hmem : name ∈ skills.map SkillMetadata.name
    · rcases List.mem_map.mp hmem with ⟨skill, hskill, rfl⟩
      rcases List.mem_iff_getElem?.mp hskill with ⟨j, hj⟩
      rw [hfound j skill hj, Option.some.injEq] at hlookup
      exact ⟨skill, hlookup ▸ hj, rfl⟩
    · rw [hfold, OrderedMap.lookup_foldl_insert_of_notMem id _ _ name (hkeys.symm ▸ hmem)] at hlookup
      cases hlookup
  · rintro ⟨skill, hskill, rfl⟩
    exact hfound i skill hskill

/-- A skill depends on a position when it names the skill that is there. -/
theorem mem_depsOf (hnames : (skills.map SkillMetadata.name).Nodup) (i j : Nat) :
    j ∈ depsOf skills i ↔ ∃ skill other, skills[i]? = some skill ∧ skills[j]? = some other ∧
      other.name ∈ skill.depends := by
  simp only [depsOf, List.mem_filterMap, lookup_nameToIdx skills hnames, dependsAt]
  constructor
  · rintro ⟨dep, hdep, other, hother, rfl⟩
    split at hdep
    next skill hskill => exact ⟨skill, other, hskill, hother, hdep⟩
    next => exact absurd hdep List.not_mem_nil
  · rintro ⟨skill, other, hskill, hother, hdep⟩
    refine ⟨other.name, ?_, other, hother, rfl⟩
    rw [hskill]
    exact hdep

/-- Only a skill of the list depends on something. -/
theorem depsOf_left_lt (i j : Nat) (h : j ∈ depsOf skills i) : i < skills.length := by
  by_contra hlt
  have hnone : skills[i]? = none := List.getElem?_eq_none (Nat.not_lt.mp hlt)
  rw [depsOf, dependsAt, hnone] at h
  exact absurd h List.not_mem_nil

theorem depsOf_lt (hnames : (skills.map SkillMetadata.name).Nodup) (i j : Nat)
    (h : j ∈ depsOf skills i) :
    i < skills.length ∧ j < skills.length := by
  rcases (mem_depsOf skills hnames i j).mp h with ⟨skill, other, hskill, hother, _⟩
  exact ⟨(List.getElem?_eq_some_iff.mp hskill).1, (List.getElem?_eq_some_iff.mp hother).1⟩

/-! ## The counts -/

/-- The edges, in the order in which they are added. -/
def edgesFrom (index : OrderedMap String Nat) : Nat → List (SkillMetadata δ) → List (Nat × Nat)
  | _, [] => []
  | k, skill :: rest =>
    (skill.depends.filterMap index.lookup).map (fun d => (d, k)) ++ edgesFrom index (k + 1) rest

theorem addSkill_eq (index : OrderedMap String Nat) (i : Nat) (g : Graph) (depends : List String) :
    addSkill index i g depends =
      ((depends.filterMap index.lookup).map (fun d => (d, i))).foldl Graph.addEdge g := by
  unfold addSkill
  induction depends generalizing g with
  | nil => rfl
  | cons dep rest ih =>
      rw [List.foldl_cons, List.filterMap_cons, ih]
      cases index.lookup dep with
      | none => rfl
      | some depIdx => rfl

theorem buildGraph_eq (index : OrderedMap String Nat) (skills : List (SkillMetadata δ)) :
    buildGraph index skills = (edgesFrom index 0 skills).foldl Graph.addEdge .empty := by
  have hfrom : ∀ k g, (skills.zipIdx k).foldl (fun g e => addSkill index e.2 g e.1.depends) g
      = (edgesFrom index k skills).foldl Graph.addEdge g := by
    induction skills with
    | nil => exact fun k g => rfl
    | cons skill rest ih =>
        intro k g
        rw [List.zipIdx_cons, List.foldl_cons, ih, edgesFrom, List.foldl_append, addSkill_eq]
  exact hfrom 0 .empty

theorem addEdge_counts (edges : List (Nat × Nat)) (g : Graph) :
    (∀ i, (edges.foldl Graph.addEdge g).inDegree i =
      g.inDegree i + edges.countP (fun e => e.2 = i)) ∧
    (∀ d i, ((edges.foldl Graph.addEdge g).adj d).count i =
      (g.adj d).count i + edges.countP (fun e => e.2 = i ∧ e.1 = d)) := by
  -- Every edge adds one to the degree of its end and one entry to the list of
  -- its start.
  induction edges generalizing g with
  | nil => exact ⟨fun i => rfl, fun d i => rfl⟩
  | cons edge rest ih =>
      rcases ih (g.addEdge edge) with ⟨hdegree, hadj⟩
      refine ⟨fun i => ?_, fun d i => ?_⟩
      · rw [List.foldl_cons, hdegree, List.countP_cons, Graph.addEdge]
        by_cases hi : edge.2 = i
        · subst hi
          simp only [Function.update_self, decide_true, if_true]
          omega
        · simp [Function.update_of_ne (Ne.symm hi), hi]
      · rw [List.foldl_cons, hadj, List.countP_cons, Graph.addEdge]
        by_cases hd : edge.1 = d
        · subst hd
          simp only [Function.update_self, List.count_append, List.count_singleton, beq_iff_eq,
            and_true, decide_eq_true_eq]
          omega
        · simp [Function.update_of_ne (Ne.symm hd), hd]

/-- The edges of a position are its dependencies. -/
theorem countP_edgesFrom (index : OrderedMap String Nat) (p : Nat → Bool)
    (skills : List (SkillMetadata δ)) (k i : Nat) :
    (edgesFrom index k skills).countP (fun e => e.2 = i ∧ p e.1) =
      if k ≤ i then ((dependsAt skills (i - k)).filterMap index.lookup).countP p else 0 := by
  induction skills generalizing k with
  | nil =>
      have hempty : dependsAt ([] : List (SkillMetadata δ)) (i - k) = [] := rfl
      rw [hempty]
      exact (ite_self 0).symm
  | cons skill rest ih =>
      rw [edgesFrom, List.countP_append, ih, List.countP_map]
      -- The edges of a skill all end at its own position.
      by_cases hk : k = i
      · subst hk
        rw [if_neg (by omega), if_pos (le_refl k), Nat.sub_self, Nat.add_zero]
        refine List.countP_congr (fun d _ => ?_)
        simp [Function.comp_apply, Bool.decide_eq_true]
      · have hnone : (skill.depends.filterMap index.lookup).countP
            ((fun e : Nat × Nat => decide (e.2 = i ∧ p e.1 = true)) ∘ fun d => (d, k)) = 0 := by
          refine List.countP_eq_zero.mpr (fun d _ => ?_)
          simp [Function.comp_apply, hk]
        rw [hnone, Nat.zero_add]
        by_cases hle : k + 1 ≤ i
        · rw [if_pos hle, if_pos (by omega)]
          have hsub : i - k = (i - (k + 1)) + 1 := by omega
          rw [hsub]
          rfl
        · rw [if_neg hle, if_neg (by omega)]

theorem buildGraph_inDegree (skills : List (SkillMetadata δ)) (i : Nat) :
    (buildGraph (nameToIdx skills) skills).inDegree i = (depsOf skills i).length := by
  have hcount := countP_edgesFrom (nameToIdx skills) (fun _ => true) skills 0 i
  rw [if_pos (Nat.zero_le i), List.countP_true, Nat.sub_zero] at hcount
  simp only [and_true] at hcount
  rw [buildGraph_eq, (addEdge_counts _ _).1, depsOf, ← hcount]
  exact Nat.zero_add _

theorem buildGraph_adj (skills : List (SkillMetadata δ)) (d i : Nat) :
    ((buildGraph (nameToIdx skills) skills).adj d).count i = (depsOf skills i).count d := by
  have hcount := countP_edgesFrom (nameToIdx skills) (fun e => e == d) skills 0 i
  rw [if_pos (Nat.zero_le i), Nat.sub_zero] at hcount
  simp only [beq_iff_eq] at hcount
  rw [buildGraph_eq, (addEdge_counts _ _).2, hcount]
  exact Nat.zero_add _

end Skills

end DccMcp
