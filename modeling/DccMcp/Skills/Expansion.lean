import DccMcp.Skills.Cycles

/-!
# Transitive Dependencies

What one skill needs, directly or not, as a depth-first search finds it. The
search works on names, and it is written independently of the resolver of the
whole list: it marks a name as visited when it leaves it, keeps the names it is
inside of on a path, and stops at a name of the path or at a dependency that is
not there.

A name that was left is settled: it is there, and so is all it needs, without a
cycle anywhere below it. That is an inductive property, and it is the only thing
about visited names the search has to keep. A name on the path needs the name
that is looked at, so meeting it again is a cycle. Both errors therefore show
something that the root reaches, and a search without an error has settled the
root, which leaves nothing of that kind to reach.

Names may be declared twice. The last skill of a name is the one that counts,
here as in the resolver, so what a successful resolution says about positions
carries over to names.

## Main definitions

* `nameToSkill`, `Expansion`, `expandDfs`, `expandTransitiveDependencies`: The
  search.
* `Needs`: The dependencies between names.
* `Settled`: A name below which nothing is wrong.
* `Broken`: What makes the search fail.
* `ExpandInv`: What holds between any two steps of the search.

## Theorems

* `expand_spec`: The expansion.
-/

namespace DccMcp

namespace Skills

open Dependency Relation

variable {δ : Type}

/-- The map from names to skills; the last of equal names wins. -/
def nameToSkill (skills : List (SkillMetadata δ)) : OrderedMap String (SkillMetadata δ) :=
  skills.foldl (fun index skill => index.insert skill.name skill) (.empty _ _)

/-- The three collections that the search changes. -/
structure Expansion where
  visited : List String
  path : List String
  result : List String

/-- A dependency goes into the result once. -/
def Expansion.addResult (st : Expansion) (dep : String) : Expansion :=
  if dep ∈ st.result then st else { st with result := st.result ++ [dep] }

/-- The loop over the dependencies of a skill, with the search that visits one. -/
def expandDeps (index : OrderedMap String (SkillMetadata δ))
    (visit : String → Expansion → Option (Except ResolveError Expansion)) (name : String) :
    List String → Expansion → Option (Except ResolveError Expansion)
  | [], st => some (.ok st)
  | dep :: rest, st =>
    match index.lookup dep with
    | none => some (.error (.missingDependency name dep))
    | some _ =>
      match visit dep st with
      | some (.ok st') => expandDeps index visit name rest (st'.addResult dep)
      | other => other

/-- `expand_dfs`. The fuel bounds the depth of the recursion. -/
def expandDfs (index : OrderedMap String (SkillMetadata δ)) :
    Nat → String → Expansion → Option (Except ResolveError Expansion)
  | 0, _, _ => none
  | fuel + 1, name, st =>
    if name ∈ st.visited then some (.ok st)
    else
      match st.path.findIdx? (fun p => p == name) with
      | some pos => some (.error (.cyclicDependency (st.path.drop pos ++ [name])))
      | none =>
        match index.lookup name with
        | none =>
          -- Only the root may be a name that nothing is known of.
          match st.path.getLast? with
          | some last => some (.error (.missingDependency last name))
          | none => some (.ok st)
        | some skill =>
          match expandDeps index (expandDfs index fuel) name skill.depends
            { st with path := st.path ++ [name] } with
          | some (.ok st') =>
            some (.ok { st' with path := st'.path.dropLast, visited := name :: st'.visited })
          | other => other

/-- `expand_transitive_dependencies`. The path never has a name twice, so the
    number of names bounds the recursion. -/
def expandTransitiveDependencies (skills : List (SkillMetadata δ)) (skillName : String) :
    Option (Except ResolveError (List String)) :=
  let index := nameToSkill skills
  match expandDfs index (index.entries.length + 1) skillName ⟨[], [], []⟩ with
  | some (.ok st) => some (.ok st.result)
  | some (.error error) => some (.error error)
  | none => none

/-! ## Dependencies between names -/

section Search

variable (index : OrderedMap String (SkillMetadata δ))

/-- The skill of one name declares a dependency on another name. -/
def Needs (name dep : String) : Prop :=
  ∃ skill, index.lookup name = some skill ∧ dep ∈ skill.depends

/-- A name that is there, and below which everything is. -/
inductive Settled : String → Prop
  | intro (name : String) (skill : SkillMetadata δ) (hskill : index.lookup name = some skill)
      (hdeps : ∀ dep ∈ skill.depends, Settled dep) : Settled name

/-- Something that the search must not run into: a dependency that is not there,
    or a name that needs itself. -/
def Broken (root : String) : Prop :=
  ∃ name, ReflTransGen (Needs index) root name ∧
    ((∃ dep, Needs index name dep ∧ index.lookup dep = none) ∨ TransGen (Needs index) name name)

variable {index}

theorem Settled.needs {name dep : String} (h : Settled index name) (hdep : Needs index name dep) :
    Settled index dep := by
  cases h with
  | intro name skill hskill hdeps =>
      rcases hdep with ⟨skill', hskill', hmem⟩
      rw [hskill, Option.some.injEq] at hskill'
      rw [← hskill'] at hmem
      exact hdeps dep hmem

theorem Settled.reaches {name other : String} (h : Settled index name)
    (hreach : ReflTransGen (Needs index) name other) : Settled index other := by
  induction hreach with
  | refl => exact h
  | tail _ hstep ih => exact ih.needs hstep

/-- A settled name does not need itself. -/
theorem Settled.irrefl {name : String} (h : Settled index name) :
    ¬TransGen (Needs index) name name := by
  induction h with
  | intro name skill hskill hdeps ih =>
      intro hcycle
      -- The first step leads to a dependency that needs itself as well.
      rcases TransGen.head'_iff.mp hcycle with ⟨dep, hstep, hback⟩
      have hstep' := hstep
      rcases hstep' with ⟨skill', hskill', hmem⟩
      rw [hskill, Option.some.injEq] at hskill'
      rw [← hskill'] at hmem
      exact ih dep hmem (TransGen.tail'_iff.mpr ⟨name, hback, hstep⟩)

theorem Settled.lookup_ne {name : String} (h : Settled index name) : index.lookup name ≠ none := by
  cases h with
  | intro name skill hskill hdeps =>
      rw [hskill]
      exact Option.some_ne_none skill

/-- Below a settled name nothing is broken. -/
theorem Settled.not_broken {root : String} (h : Settled index root) : ¬Broken index root := by
  rintro ⟨name, hreach, ⟨dep, hdep, hnone⟩ | hcycle⟩
  · exact ((h.reaches hreach).needs hdep).lookup_ne hnone
  · exact (h.reaches hreach).irrefl hcycle

/-! ## The search -/

variable (index) in
/-- Between any two steps of a search from a root: what was left is settled and
    has all it needs in the result, the result is what the root needs, and the
    path has no name twice. -/
structure ExpandInv (root : String) (st : Expansion) : Prop where
  settled : ∀ name ∈ st.visited, Settled index name
  closed : ∀ name ∈ st.visited, ∀ dep, Needs index name dep →
    dep ∈ st.visited ∧ dep ∈ st.result
  sound : ∀ name ∈ st.result, TransGen (Needs index) root name
  nodup : st.result.Nodup
  pathNodup : st.path.Nodup
  pathThere : ∀ name ∈ st.path, ∃ skill, index.lookup name = some skill
  pathReached : ∀ name ∈ st.path, ReflTransGen (Needs index) root name

variable (index) in
/-- What a visit comes back with: more visited names, or something broken. -/
def Expands (root : String) (st : Expansion) (done : Expansion → Prop) :
    Option (Except ResolveError Expansion) → Prop
  | some (.ok st') => ExpandInv index root st' ∧ st'.path = st.path ∧
      st.visited ⊆ st'.visited ∧ st.result ⊆ st'.result ∧ done st'
  | some (.error _) => Broken index root
  | none => False

/-- The path is no longer than the map. -/
theorem ExpandInv.length_le {root : String} {st : Expansion}
    (h : ExpandInv index root st) : st.path.length ≤ index.entries.length := by
  have hsub : st.path ⊆ index.entries.map Prod.fst := by
    intro name hname
    rcases h.pathThere name hname with ⟨skill, hskill⟩
    exact List.mem_map.mpr ⟨(name, skill), index.mem_entries name skill hskill, rfl⟩
  have hle := (h.pathNodup.subperm hsub).length_le
  rwa [List.length_map] at hle

theorem addResult_frame (st : Expansion) (dep : String) :
    (st.addResult dep).visited = st.visited ∧ (st.addResult dep).path = st.path := by
  unfold Expansion.addResult
  split
  next => exact ⟨rfl, rfl⟩
  next => exact ⟨rfl, rfl⟩

theorem mem_addResult (st : Expansion) (dep name : String) :
    name ∈ (st.addResult dep).result ↔ name ∈ st.result ∨ name = dep := by
  unfold Expansion.addResult
  split
  next hdep => exact ⟨.inl, fun h => h.elim id (fun heq => heq ▸ hdep)⟩
  next => rw [List.mem_append, List.mem_singleton]

theorem ExpandInv.addResult {root dep : String} {st : Expansion}
    (h : ExpandInv index root st) (hdep : TransGen (Needs index) root dep) :
    ExpandInv index root (st.addResult dep) := by
  rcases addResult_frame st dep with ⟨hvisited, hpath⟩
  refine ⟨?_, ?_, ?_, ?_, ?_, ?_, ?_⟩
  · rw [hvisited]
    exact h.settled
  · intro name hname other hother
    rw [hvisited] at hname ⊢
    have hclosed := h.closed name hname other hother
    exact ⟨hclosed.1, (mem_addResult st dep other).mpr (.inl hclosed.2)⟩
  · intro name hname
    rcases (mem_addResult st dep name).mp hname with hname | rfl
    · exact h.sound name hname
    · exact hdep
  · unfold Expansion.addResult
    split
    next => exact h.nodup
    next hnot => exact List.concat_eq_append ▸ h.nodup.concat hnot
  · rw [hpath]
    exact h.pathNodup
  · rw [hpath]
    exact h.pathThere
  · rw [hpath]
    exact h.pathReached

/-- A name that is there and not on the path goes to its end. -/
theorem ExpandInv.enter {root name : String} {st : Expansion}
    (h : ExpandInv index root st) (hoff : name ∉ st.path)
    (hthere : ∃ skill, index.lookup name = some skill)
    (hroot : ReflTransGen (Needs index) root name) :
    ExpandInv index root { st with path := st.path ++ [name] } := by
  refine ⟨h.settled, h.closed, h.sound, h.nodup, ?_, fun other hother => ?_, fun other hother => ?_⟩
  · exact List.concat_eq_append ▸ h.pathNodup.concat hoff
  · rcases List.mem_append.mp hother with hother | hother
    · exact h.pathThere other hother
    · rw [List.mem_singleton.mp hother]
      exact hthere
  · rcases List.mem_append.mp hother with hother | hother
    · exact h.pathReached other hother
    · rw [List.mem_singleton.mp hother]
      exact hroot

/-- A name whose dependencies have all been visited is left. -/
theorem ExpandInv.leave {root name : String} {skill : SkillMetadata δ} {st : Expansion}
    {path : List String} (h : ExpandInv index root st)
    (hskill : index.lookup name = some skill) (hpath : st.path = path ++ [name])
    (hdone : ∀ dep ∈ skill.depends, dep ∈ st.visited ∧ dep ∈ st.result) :
    ExpandInv index root
      { st with path := st.path.dropLast, visited := name :: st.visited } := by
  have hsub : st.path.dropLast ⊆ st.path := List.dropLast_subset st.path
  refine ⟨fun other hother => ?_, fun other hother dep hdep => ?_, h.sound, h.nodup,
    h.pathNodup.sublist (List.dropLast_sublist st.path), fun other hother =>
    h.pathThere other (hsub hother), fun other hother => h.pathReached other (hsub hother)⟩
  · rcases List.mem_cons.mp hother with rfl | hother
    · exact .intro other skill hskill (fun dep hdep => h.settled dep (hdone dep hdep).1)
    · exact h.settled other hother
  · rcases List.mem_cons.mp hother with rfl | hother
    · rcases hdep with ⟨skill', hskill', hmem⟩
      rw [hskill, Option.some.injEq] at hskill'
      rw [← hskill'] at hmem
      exact ⟨List.mem_cons_of_mem other (hdone dep hmem).1, (hdone dep hmem).2⟩
    · have hclosed := h.closed other hother dep hdep
      exact ⟨List.mem_cons_of_mem name hclosed.1, hclosed.2⟩

theorem Expands.imp {root : String} {st : Expansion} {P Q : Expansion → Prop}
    {r : Option (Except ResolveError Expansion)} (h : Expands index root st P r)
    (hPQ : ∀ st', P st' → Q st') : Expands index root st Q r := by
  cases r with
  | none => exact h
  | some outcome =>
      cases outcome with
      | error error => exact h
      | ok st' => exact ⟨h.1, h.2.1, h.2.2.1, h.2.2.2.1, hPQ st' h.2.2.2.2⟩

/-- The dependencies of a reachable name, given what a visit to each comes back with. -/
theorem expandDeps_spec (visit : String → Expansion → Option (Except ResolveError Expansion))
    (root name : String) (path : List String) (hroot : ReflTransGen (Needs index) root name)
    (hvisit : ∀ dep st, Needs index name dep → (∃ skill, index.lookup dep = some skill) →
      ExpandInv index root st → st.path = path →
      Expands index root st (fun st' => dep ∈ st'.visited) (visit dep st))
    (deps : List String) (hdeps : ∀ dep ∈ deps, Needs index name dep) (st : Expansion)
    (hinv : ExpandInv index root st) (hpath : st.path = path) :
    Expands index root st
      (fun st' => ∀ dep ∈ deps, dep ∈ st'.visited ∧ dep ∈ st'.result)
      (expandDeps index visit name deps st) := by
  induction deps generalizing st with
  | nil =>
      exact ⟨hinv, rfl, fun _ h => h, fun _ h => h, fun dep hdep => absurd hdep List.not_mem_nil⟩
  | cons dep rest ih =>
      have hneeds := hdeps dep List.mem_cons_self
      unfold expandDeps
      split
      next hnone => exact ⟨name, hroot, .inl ⟨dep, hneeds, hnone⟩⟩
      next skill hskill =>
        have hone := hvisit dep st hneeds ⟨skill, hskill⟩ hinv hpath
        cases hresult : visit dep st with
        | none =>
            rw [hresult] at hone
            exact hone.elim
        | some outcome =>
            rw [hresult] at hone
            cases outcome with
            | error error => exact hone
            | ok st' =>
                rcases hone with ⟨hinv', hpath', hvisited, hres, hdone⟩
                rcases addResult_frame st' dep with ⟨hsame, hsame'⟩
                have hmore := ih (fun other hother => hdeps other (List.mem_cons_of_mem dep hother))
                  (st'.addResult dep)
                  (hinv'.addResult (TransGen.tail'_iff.mpr ⟨name, hroot, hneeds⟩))
                  (by rw [hsame', hpath', hpath])
                dsimp only
                cases hrest : expandDeps index visit name rest (st'.addResult dep) with
                | none =>
                    rw [hrest] at hmore
                    exact hmore.elim
                | some outcome =>
                    rw [hrest] at hmore
                    cases outcome with
                    | error error => exact hmore
                    | ok final =>
                        rcases hmore with ⟨hfinal, hpath'', hvisited', hres', hdone'⟩
                        rw [hsame] at hvisited'
                        refine ⟨hfinal, by rw [hpath'', hsame', hpath'],
                          fun other hother => hvisited' (hvisited hother),
                          fun other hother => hres' ?_, ?_⟩
                        · exact (mem_addResult st' dep other).mpr (.inl (hres hother))
                        · intro other hother
                          rcases List.mem_cons.mp hother with rfl | hother
                          · exact ⟨hvisited' hdone,
                              hres' ((mem_addResult st' other other).mpr (.inr rfl))⟩
                          · exact hdone' other hother

/-- What a visit comes back with. The fuel is what is left of the number of names
    once the path is taken off, and one more. -/
theorem expandDfs_spec (fuel : Nat) (root name : String) (st : Expansion)
    (hinv : ExpandInv index root st) (hroot : ReflTransGen (Needs index) root name)
    (hpath : ∀ p ∈ st.path, TransGen (Needs index) p name)
    (hfuel : index.entries.length < st.path.length + fuel) :
    Expands index root st
      (fun st' => name ∈ st'.visited ∨ st.path = [] ∧ index.lookup name = none ∧ st' = st)
      (expandDfs index fuel name st) := by
  induction fuel generalizing name st with
  | zero => exact absurd hinv.length_le (Nat.not_le.mpr hfuel)
  | succ fuel ih =>
      unfold expandDfs
      split
      next hvisited => exact ⟨hinv, rfl, fun _ h => h, fun _ h => h, .inl hvisited⟩
      next hnew =>
        split
        next pos hpos =>
          -- The name is on the path, so it needs itself.
          have hany : st.path.any (fun p => p == name) = true := by
            rw [← List.findIdx?_isSome, hpos]
            rfl
          rcases List.any_eq_true.mp hany with ⟨p, hp, heq⟩
          have hcycle := hpath p hp
          rw [beq_iff_eq.mp heq] at hcycle
          exact ⟨name, hroot, .inr hcycle⟩
        next hoff =>
          have hnot : name ∉ st.path := fun hmem => by
            have hfalse := List.findIdx?_eq_none_iff.mp hoff name hmem
            rw [beq_self_eq_true] at hfalse
            cases hfalse
          split
          next hnone =>
            split
            next last hlast =>
              have hmem := List.mem_of_getLast? hlast
              rcases TransGen.tail'_iff.mp (hpath last hmem) with ⟨before, hreach, hstep⟩
              exact ⟨before, (hinv.pathReached last hmem).trans hreach,
                .inl ⟨name, hstep, hnone⟩⟩
            next hempty =>
              exact ⟨hinv, rfl, fun _ h => h, fun _ h => h,
                .inr ⟨List.getLast?_eq_none_iff.mp hempty, hnone, rfl⟩⟩
          next skill hskill =>
            have hdeps := expandDeps_spec (expandDfs index fuel) root name (st.path ++ [name]) hroot
              (fun dep st' hneeds _ hinv' hpath' => by
                refine (ih dep st' hinv' (hroot.tail hneeds) (fun p hp => ?_) ?_).imp
                  (fun st'' h => h.resolve_right (fun hnil => ?_))
                · rw [hpath'] at hp
                  rcases List.mem_append.mp hp with hp | hp
                  · exact (hpath p hp).tail hneeds
                  · rw [List.mem_singleton.mp hp]
                    exact .single hneeds
                · rw [hpath', List.length_append, List.length_singleton]
                  omega
                · rw [hpath'] at hnil
                  exact List.append_ne_nil_of_right_ne_nil _ (List.cons_ne_nil _ _) hnil.1)
              skill.depends (fun dep hdep => ⟨skill, hskill, hdep⟩)
              { st with path := st.path ++ [name] } (hinv.enter hnot ⟨skill, hskill⟩ hroot) rfl
            cases hresult : expandDeps index (expandDfs index fuel) name skill.depends
                { st with path := st.path ++ [name] } with
            | none =>
                rw [hresult] at hdeps
                exact hdeps.elim
            | some outcome =>
                rw [hresult] at hdeps
                cases outcome with
                | error error => exact hdeps
                | ok st' =>
                    rcases hdeps with ⟨hinv', hpath', hvisited, hres, hdone⟩
                    refine ⟨hinv'.leave hskill hpath' hdone, ?_,
                      fun other hother => List.mem_cons_of_mem name (hvisited hother), hres,
                      .inl List.mem_cons_self⟩
                    rw [hpath', List.dropLast_concat]

end Search

/-! ## Names and positions -/

section Resolved

variable (skills : List (SkillMetadata δ))

theorem lookup_foldl_insert (all rest : List (SkillMetadata δ)) (k : Nat)
    (hrest : ∀ e ∈ rest.zipIdx k, all[e.2]? = some e.1)
    (names : OrderedMap String (SkillMetadata δ)) (positions : OrderedMap String Nat)
    (h : ∀ name, names.lookup name = (positions.lookup name).bind (fun i => all[i]?))
    (name : String) :
    (rest.foldl (fun index skill => index.insert skill.name skill) names).lookup name =
      (((rest.zipIdx k).foldl (fun index e => index.insert e.1.name e.2) positions).lookup
        name).bind (fun i => all[i]?) := by
  induction rest generalizing k names positions with
  | nil => exact h name
  | cons skill rest ih =>
      rw [List.zipIdx_cons] at hrest ⊢
      refine ih (k + 1) (fun e he => hrest e (List.mem_cons_of_mem _ he)) _ _ (fun other => ?_)
      by_cases hother : other = skill.name
      · rw [hother, OrderedMap.lookup_insert, OrderedMap.lookup_insert, Option.bind_some]
        exact (hrest (skill, k) List.mem_cons_self).symm
      · rw [OrderedMap.lookup_insert_ne _ _ _ _ hother, OrderedMap.lookup_insert_ne _ _ _ _ hother]
        exact h other

/-- A name stands for the skill at its position. -/
theorem lookup_nameToSkill (name : String) :
    (nameToSkill skills).lookup name =
      ((nameToIdx skills).lookup name).bind (fun i => skills[i]?) :=
  lookup_foldl_insert skills skills 0
    (fun _ he => List.mem_zipIdx_iff_getElem?.mp he) _ _ (fun _ => rfl) name

/-- A resolution that succeeds settles every name it knows: the positions are in
    order, and along the order each name has settled dependencies. -/
theorem settled_of_resolved (ordered : List (SkillMetadata δ))
    (h : resolveDependencies skills = .ok ordered) (name : String)
    (hname : (nameToSkill skills).lookup name ≠ none) : Settled (nameToSkill skills) name := by
  by_cases hempty : skills = []
  · rw [hempty] at hname
    exact absurd rfl hname
  have hunfold : skills.isEmpty = false := List.isEmpty_eq_false_iff.mpr hempty
  have hmissing := findMissing_spec (nameToIdx skills) skills
  simp only [resolveDependencies, hunfold, Bool.false_eq_true, if_false] at h
  cases hfind : findMissing (nameToIdx skills) skills with
  | some error =>
      rw [hfind] at h
      cases h
  | none =>
      rw [hfind] at h hmissing
      dsimp only at h
      split at h
      next => cases h
      next hall =>
        rcases orderedIndices_ordered skills with ⟨hnodup, hlt, hsorted⟩
        have hsub : orderedIndices (nameToIdx skills) skills ⊆ List.range skills.length :=
          fun i hi => List.mem_range.mpr (hlt i hi)
        have hperm : (orderedIndices (nameToIdx skills) skills).Perm
            (List.range skills.length) := by
          refine (hnodup.subperm hsub).perm_of_length_le ?_
          rw [List.length_range, not_not.mp hall]
        have hsettled := ordered_induction _ _ hsorted
          (fun i => ∀ name, (nameToIdx skills).lookup name = some i →
            Settled (nameToSkill skills) name) (fun i hi ih name hlookup => by
          rcases List.getElem?_eq_some_iff.mpr ⟨hlt i hi, rfl⟩ with hskill
          refine .intro name _ (by rw [lookup_nameToSkill, hlookup]; exact hskill) ?_
          intro dep hdep
          have hthere := hmissing _ (List.mem_of_getElem? hskill) dep hdep
          rw [Option.isNone_eq_false_iff, Option.isSome_iff_exists] at hthere
          rcases hthere with ⟨j, hj⟩
          refine ih j ?_ dep hj
          rw [depsOf, dependsAt, hskill]
          exact List.mem_filterMap.mpr ⟨dep, hdep, hj⟩)
        rw [lookup_nameToSkill] at hname
        cases hlookup : (nameToIdx skills).lookup name with
        | none =>
            rw [hlookup] at hname
            exact absurd rfl hname
        | some i =>
            rw [hlookup, Option.bind_some] at hname
            have hi : i < skills.length := by
              by_contra hge
              exact hname (List.getElem?_eq_none (Nat.not_lt.mp hge))
            exact hsettled i (hperm.mem_iff.mpr (List.mem_range.mpr hi)) name hlookup

end Resolved

/-! ## The expansion -/

section Expansion

variable {index : OrderedMap String (SkillMetadata δ)} {root : String}

/-- A name that is not there needs nothing. -/
theorem not_transGen_of_absent (h : index.lookup root = none) (name : String) :
    ¬TransGen (Needs index) root name := by
  intro hreach
  rcases TransGen.head'_iff.mp hreach with ⟨dep, ⟨skill, hskill, _⟩, _⟩
  rw [h] at hskill
  cases hskill

theorem not_broken_of_absent (h : index.lookup root = none) : ¬Broken index root := by
  rintro ⟨name, hreach, hbad⟩
  rcases ReflTransGen.cases_head hreach with rfl | ⟨dep, hstep, _⟩
  · rcases hbad with ⟨dep, hdep, _⟩ | hcycle
    · exact not_transGen_of_absent h dep (.single hdep)
    · exact not_transGen_of_absent h root hcycle
  · exact not_transGen_of_absent h dep (.single hstep)

/-- All that a visited name needs is in the result. -/
theorem ExpandInv.complete {st : Expansion} (h : ExpandInv index root st)
    (hroot : root ∈ st.visited) (name : String) (hreach : TransGen (Needs index) root name) :
    name ∈ st.visited ∧ name ∈ st.result := by
  induction hreach with
  | single hstep => exact h.closed root hroot _ hstep
  | tail _ hstep ih => exact h.closed _ ih.1 _ hstep

end Expansion

/-- The expansion of a root. It comes back; what it returns is what the root
    needs, directly or not, each name once and the root not among them; it
    fails exactly where the root reaches a dependency that is not there or a
    cycle; and it succeeds for every root if the list can be resolved. -/
theorem expand_spec (skills : List (SkillMetadata δ)) (root : String) :
    ∃ outcome, expandTransitiveDependencies skills root = some outcome ∧
      (∀ names, outcome = .ok names → names.Nodup ∧ root ∉ names ∧
        ∀ name, name ∈ names ↔ TransGen (Needs (nameToSkill skills)) root name) ∧
      ((∃ error, outcome = .error error) ↔ Broken (nameToSkill skills) root) ∧
      ((∃ ordered, resolveDependencies skills = .ok ordered) → ∃ names, outcome = .ok names) := by
  have hinit : ExpandInv (nameToSkill skills) root ⟨[], [], []⟩ :=
    ⟨fun _ h => absurd h List.not_mem_nil, fun _ h => absurd h List.not_mem_nil,
      fun _ h => absurd h List.not_mem_nil, List.nodup_nil, List.nodup_nil,
      fun _ h => absurd h List.not_mem_nil, fun _ h => absurd h List.not_mem_nil⟩
  have hspec := expandDfs_spec ((nameToSkill skills).entries.length + 1) root root ⟨[], [], []⟩
    hinit .refl (fun _ h => absurd h List.not_mem_nil) (by
      rw [List.length_nil]
      omega)
  have hresolved : (∃ ordered, resolveDependencies skills = .ok ordered) →
      ¬Broken (nameToSkill skills) root := by
    rintro ⟨ordered, hordered⟩
    by_cases hroot : (nameToSkill skills).lookup root = none
    · exact not_broken_of_absent hroot
    · exact (settled_of_resolved skills ordered hordered root hroot).not_broken
  unfold expandTransitiveDependencies
  dsimp only
  cases hresult : expandDfs (nameToSkill skills) ((nameToSkill skills).entries.length + 1) root
      ⟨[], [], []⟩ with
  | none =>
      rw [hresult] at hspec
      exact hspec.elim
  | some outcome =>
      rw [hresult] at hspec
      cases outcome with
      | error error =>
          refine ⟨.error error, rfl, fun names h => (nomatch h),
            ⟨fun _ => hspec, fun _ => ⟨error, rfl⟩⟩, fun hok => absurd hspec (hresolved hok)⟩
      | ok st =>
          rcases hspec with ⟨hinv, -, -, -, hroot | ⟨-, habsent, hst⟩⟩
          · have hsettled := hinv.settled root hroot
            refine ⟨.ok st.result, rfl, fun names h => ?_, ⟨fun h => ?_, fun h => ?_⟩,
              fun _ => ⟨st.result, rfl⟩⟩
            · rw [← Except.ok.inj h]
              exact ⟨hinv.nodup, fun hmem => hsettled.irrefl (hinv.sound root hmem),
                fun name => ⟨hinv.sound name, fun hreach => (hinv.complete hroot name hreach).2⟩⟩
            · rcases h with ⟨error, herror⟩
              cases herror
            · exact absurd h hsettled.not_broken
          · refine ⟨.ok st.result, rfl, fun names h => ?_, ⟨fun h => ?_, fun h => ?_⟩,
              fun _ => ⟨st.result, rfl⟩⟩
            · rw [← Except.ok.inj h, hst]
              exact ⟨List.nodup_nil, List.not_mem_nil, fun name =>
                ⟨fun hmem => absurd hmem List.not_mem_nil,
                  fun hreach => absurd hreach (not_transGen_of_absent habsent name)⟩⟩
            · rcases h with ⟨error, herror⟩
              cases herror
            · exact absurd h (not_broken_of_absent habsent)

end Skills

end DccMcp
