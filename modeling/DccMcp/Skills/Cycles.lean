import DccMcp.Skills.Ordering

/-!
# The Cycle in the Error

The depth-first search for a cycle, and the resolver as a whole.

At any moment the gray positions are a path: each was found by the next one
below it, and is one of its dependencies. The black positions are in an order
in which each stands behind its dependencies. A gray dependency closes the
path to a cycle, and the links back along the path are the ones the search
left. If no dependency is ever gray all positions end up black, hence in
order, and there is no cycle to find. So the search finds one whenever Kahn's
loop got stuck, and the list of names the source falls back to is never used.

## Main definitions

* `SearchInv`: The path and the order of the search.
* `Visits`: What a visit has to do with its outcome.
* `DependsOn`: The dependencies between names.

## Theorems

* `resolveDependencies_spec`: The resolver.
-/

namespace DccMcp

namespace Skills

open Dependency

variable {δ : Type}

/-- The dependencies between positions. -/
def DependsAt (skills : List (SkillMetadata δ)) (i j : Nat) : Prop := j ∈ depsOf skills i

/-- The gray positions are a path of dependencies with the links of the
    search, top first; the black ones are in order. -/
structure SearchInv (skills : List (SkillMetadata δ)) (path done : List Nat) (st : Search) :
    Prop where
  gray : ∀ i, st.color i = .gray ↔ i ∈ path
  black : ∀ i, st.color i = .black ↔ i ∈ done
  nodup : path.Nodup
  bound : ∀ i ∈ path, i < skills.length
  links : path.IsChain (fun child parent =>
    st.parent child = some parent ∧ DependsAt skills parent child)
  sorted : Ordered (DependsAt skills) done

variable (skills : List (SkillMetadata δ))

theorem SearchInv.length_le (path done : List Nat) (st : Search)
    (h : SearchInv skills path done st) : path.length ≤ skills.length := by
  have hsub : path ⊆ List.range skills.length := fun i hi => List.mem_range.mpr (h.bound i hi)
  have hle := (h.nodup.subperm hsub).length_le
  rwa [List.length_range] at hle

/-! ## The way back -/

/-- The links lead back along the path. -/
theorem backtrack_eq (parent : Nat → Option Nat) (depIdx : Nat) (segment : List Nat)
    (fuel cur : Nat) (rest : List Nat) (cycle : List String)
    (hpath : cur :: rest = segment ++ [depIdx]) (hnot : depIdx ∉ segment)
    (hlinks : (cur :: rest).IsChain (fun child above => parent child = some above))
    (hfuel : segment.length < fuel) :
    backtrack skills parent depIdx fuel cur cycle = cycle ++ segment.map (nameAt skills) := by
  -- By induction on the part of the path that is still to be walked.
  induction segment generalizing fuel cur rest cycle with
  | nil =>
      rw [List.nil_append, List.cons.injEq] at hpath
      rcases fuel with _ | fuel
      · exact absurd hfuel (Nat.not_lt_zero _)
      · rw [backtrack, if_pos hpath.1, List.map_nil, List.append_nil]
  | cons first segment ih =>
      rw [List.cons_append, List.cons.injEq] at hpath
      rcases fuel with _ | fuel
      · exact absurd hfuel (Nat.not_lt_zero _)
      · have hne : cur ≠ depIdx := fun heq =>
          hnot (by rw [← heq, hpath.1]; exact List.mem_cons_self)
        rw [backtrack, if_neg hne]
        -- The position above is the next one of the path.
        rcases rest with _ | ⟨above, rest⟩
        · exact absurd hpath.2.symm (List.append_ne_nil_of_right_ne_nil _ (List.cons_ne_nil _ _))
        · rw [List.isChain_cons_cons] at hlinks
          have hlt : segment.length < fuel := by
            rw [List.length_cons] at hfuel
            omega
          rw [hlinks.1, Option.getD_some, ih fuel above rest _ hpath.2
            (fun hmem => hnot (List.mem_cons_of_mem first hmem)) hlinks.2 hlt, hpath.1,
            List.map_cons, List.append_assoc]
          rfl

/-- A gray dependency of the top of the path closes it to a cycle. -/
theorem closeCycle_isCycle (node depIdx : Nat) (path done : List Nat) (st : Search)
    (h : SearchInv skills (node :: path) done st)
    (hdep : DependsAt skills node depIdx) (hgray : st.color depIdx = .gray) :
    ∃ walk, IsCycle (DependsAt skills) walk ∧
      closeCycle skills st.parent node depIdx = walk.map (nameAt skills) := by
  rcases List.eq_append_cons_of_mem ((h.gray depIdx).mp hgray) with ⟨segment, below, hsplit, hnot⟩
  have hpath : node :: path = (segment ++ [depIdx]) ++ below := by
    rw [hsplit, List.append_assoc]
    rfl
  -- The part of the path from the top down to the dependency.
  have hlinks : (segment ++ [depIdx]).IsChain (fun child parent =>
      st.parent child = some parent ∧ DependsAt skills parent child) := by
    have hall := h.links
    rw [hpath] at hall
    exact hall.left_of_append
  have htop : ∃ rest, segment ++ [depIdx] = node :: rest := by
    rcases segment with _ | ⟨first, segment⟩
    · rw [List.nil_append, List.cons.injEq] at hsplit
      exact ⟨[], by rw [hsplit.1]; rfl⟩
    · rw [List.cons_append, List.cons.injEq] at hsplit
      exact ⟨segment ++ [depIdx], by rw [hsplit.1]; rfl⟩
  rcases htop with ⟨rest, htop⟩
  have hshort : segment.length < skills.length + 1 := by
    have hle := h.length_le
    rw [hpath, List.length_append, List.length_append] at hle
    omega
  -- The walk goes from the dependency down the path to the top and back to it.
  refine ⟨(depIdx :: (segment ++ [depIdx])).reverse, ⟨?_, ?_, ?_⟩, ?_⟩
  · rw [List.isChain_reverse, htop, List.isChain_cons_cons, ← htop]
    exact ⟨hdep, hlinks.imp (fun _ _ hlink => hlink.2)⟩
  · rw [List.head?_reverse, List.getLast?_reverse, List.head?_cons, ← List.cons_append,
      List.getLast?_concat]
  · rw [List.length_reverse, List.length_cons, List.length_append, List.length_singleton]
    omega
  · rw [closeCycle, backtrack_eq skills st.parent depIdx segment _ node rest _ htop.symm hnot
      (htop ▸ hlinks.imp (fun _ _ hlink => hlink.1)) hshort, List.map_reverse, List.map_cons,
      List.map_append]
    rfl

/-! ## The search -/

/-- What a visit comes back with: a cycle, or the path as it was and an order
    that the visited positions were added to. -/
def Visits (skills : List (SkillMetadata δ)) (path done : List Nat) (visited : Nat → Prop) :
    Option (List String) × Search → Prop
  | (some cycle, _) => ∃ walk, IsCycle (DependsAt skills) walk ∧ cycle = walk.map (nameAt skills)
  | (none, st) => ∃ done', SearchInv skills path done' st ∧ done ⊆ done' ∧
      ∀ i, visited i → i ∈ done'

theorem paint_color (st : Search) (node i : Nat) (color : Color) :
    ({ st with color := Function.update st.color node color } : Search).color i
      = if i = node then color else st.color i :=
  Function.update_apply ..

/-- A white position that hangs on the top of the path can be put on it. -/
theorem SearchInv.push (node : Nat) (path done : List Nat) (st : Search)
    (h : SearchInv skills path done st) (hwhite : st.color node = .white)
    (hlt : node < skills.length)
    (htop : ∀ top ∈ path.head?, st.parent node = some top ∧ DependsAt skills top node) :
    SearchInv skills (node :: path) done
      { st with color := Function.update st.color node .gray } := by
  -- A white position is on neither list.
  have hout : node ∉ path := fun hmem => by
    rw [(h.gray node).mpr hmem] at hwhite
    cases hwhite
  have hopen : node ∉ done := fun hmem => by
    rw [(h.black node).mpr hmem] at hwhite
    cases hwhite
  refine ⟨fun i => ?_, fun i => ?_, List.nodup_cons.mpr ⟨hout, h.nodup⟩, fun i hi => ?_, ?_, h.sorted⟩
  · rw [paint_color, List.mem_cons]
    by_cases hi : i = node
    · rw [if_pos hi]
      exact iff_of_true rfl (.inl hi)
    · rw [if_neg hi, h.gray]
      exact ⟨.inr, fun hmem => hmem.resolve_left hi⟩
  · rw [paint_color]
    by_cases hi : i = node
    · rw [if_pos hi, hi]
      exact iff_of_false (fun hblack => by cases hblack) hopen
    · rw [if_neg hi, h.black]
  · rcases List.mem_cons.mp hi with rfl | hmem
    · exact hlt
    · exact h.bound i hmem
  · exact List.isChain_cons.mpr ⟨htop, h.links⟩

/-- The top of the path is finished when all its dependencies are. -/
theorem SearchInv.pop (node : Nat) (path done : List Nat) (st : Search)
    (h : SearchInv skills (node :: path) done st)
    (hdeps : ∀ d, DependsAt skills node d → d ∈ done) :
    SearchInv skills path (done ++ [node])
      { st with color := Function.update st.color node .black } := by
  have hout := (List.nodup_cons.mp h.nodup).1
  -- Its dependencies are in front of it in the order, so it may be added.
  refine ⟨fun i => ?_, fun i => ?_, (List.nodup_cons.mp h.nodup).2,
    fun i hi => h.bound i (List.mem_cons_of_mem node hi), h.links.tail,
    ordered_snoc _ done node h.sorted hdeps⟩
  · rw [paint_color]
    by_cases hi : i = node
    · rw [if_pos hi, hi]
      exact iff_of_false (fun hgray => by cases hgray) hout
    · rw [if_neg hi, h.gray, List.mem_cons]
      exact ⟨fun hmem => hmem.resolve_left hi, .inr⟩
  · rw [paint_color, List.mem_append, List.mem_singleton]
    by_cases hi : i = node
    · rw [if_pos hi]
      exact iff_of_true rfl (.inr hi)
    · rw [if_neg hi, h.black]
      exact ⟨.inl, fun hmem => hmem.resolve_right hi⟩

/-- A link from outside the path changes nothing on it. -/
theorem SearchInv.link (child : Nat) (parent : Option Nat) (path done : List Nat) (st : Search)
    (h : SearchInv skills path done st)
    (hwhite : st.color child = .white) :
    SearchInv skills path done { st with parent := Function.update st.parent child parent } := by
  refine ⟨h.gray, h.black, h.nodup, h.bound, ?_, h.sorted⟩
  refine h.links.imp_of_mem_imp (fun i above hi _ hlink => ⟨?_, hlink.2⟩)
  have hne : i ≠ child := fun heq => by
    rw [← heq, (h.gray i).mpr hi] at hwhite
    cases hwhite
  exact (Function.update_of_ne hne _ _).trans hlink.1

section Search

variable (skills : List (SkillMetadata δ)) (hnames : (skills.map SkillMetadata.name).Nodup)

/-- The loop over the dependencies, for a visit that does its part. -/
theorem visitDeps_visits (visit : Nat → Search → Option (List String) × Search) (node : Nat)
    (path : List Nat)
    (hvisit : ∀ child st done, SearchInv skills (node :: path) done st → st.color child = .white →
      st.parent child = some node → DependsAt skills node child →
      Visits skills (node :: path) done (· = child) (visit child st))
    (deps : List String)
    (hdeps : ∀ dep ∈ deps, ∀ d, (nameToIdx skills).lookup dep = some d → DependsAt skills node d)
    (done : List Nat) (st : Search) (h : SearchInv skills (node :: path) done st) :
    Visits skills (node :: path) done
      (fun d => ∃ dep ∈ deps, (nameToIdx skills).lookup dep = some d)
      (visitDeps skills (nameToIdx skills) visit node deps st) := by
  induction deps generalizing done st with
  | nil =>
      refine ⟨done, h, List.Subset.refl done, fun d hd => ?_⟩
      rcases hd with ⟨dep, hmem, _⟩
      exact absurd hmem List.not_mem_nil
  | cons dep rest ih =>
      have hrest := fun dep' hmem => hdeps dep' (List.mem_cons_of_mem dep hmem)
      -- What remains to be shown once the first dependency is finished.
      have hgo : ∀ done' st', SearchInv skills (node :: path) done' st' → done ⊆ done' →
          (∀ d, (nameToIdx skills).lookup dep = some d → d ∈ done') →
          Visits skills (node :: path) done
            (fun d => ∃ dep' ∈ dep :: rest, (nameToIdx skills).lookup dep' = some d)
            (visitDeps skills (nameToIdx skills) visit node rest st') := by
        intro done' st' h' hsub hfirst
        have hloop := ih hrest done' st' h'
        rcases hout : visitDeps skills (nameToIdx skills) visit node rest st' with ⟨_ | cycle, final⟩
        · rw [hout] at hloop
          rcases hloop with ⟨done'', hinv, hsub', hall⟩
          refine ⟨done'', hinv, List.Subset.trans hsub hsub', fun d hd => ?_⟩
          rcases hd with ⟨dep', hmem, hlookup⟩
          rcases List.mem_cons.mp hmem with rfl | hmem
          · exact hsub' (hfirst d hlookup)
          · exact hall d ⟨dep', hmem, hlookup⟩
        · rw [hout] at hloop
          exact hloop
      rw [visitDeps]
      cases hlookup : (nameToIdx skills).lookup dep with
      | none => exact hgo done st h (List.Subset.refl done) (fun d hd => by rw [hlookup] at hd; cases hd)
      | some depIdx =>
          have hdepends := hdeps dep List.mem_cons_self depIdx hlookup
          dsimp only
          -- Gray is on the path, black is finished, white is visited.
          cases hcolor : st.color depIdx with
          | gray => exact closeCycle_isCycle skills node depIdx path done st h hdepends hcolor
          | black =>
              refine hgo done st h (List.Subset.refl done) (fun d hd => ?_)
              rw [hlookup, Option.some.injEq] at hd
              rw [← hd]
              exact (h.black depIdx).mp hcolor
          | white =>
              have hchild := hvisit depIdx
                { st with parent := Function.update st.parent depIdx (some node) } done
                (h.link skills depIdx (some node) (node :: path) done st hcolor) hcolor
                (Function.update_self ..) hdepends
              dsimp only
              split
              next cycle st' hout =>
                rw [hout] at hchild
                exact hchild
              next st' hout =>
                rw [hout] at hchild
                rcases hchild with ⟨done', hinv, hsub, hmem⟩
                refine hgo done' st' hinv hsub (fun d hd => ?_)
                rw [hlookup, Option.some.injEq] at hd
                exact hmem d hd.symm

include hnames in
/-- A visit finishes its position or finds a cycle. The path and the fuel
    together have room for all positions. -/
theorem dfsFindCycle_visits (fuel node : Nat) (path done : List Nat) (st : Search)
    (h : SearchInv skills path done st) (hwhite : st.color node = .white)
    (hlt : node < skills.length)
    (htop : ∀ top ∈ path.head?, st.parent node = some top ∧ DependsAt skills top node)
    (hfuel : skills.length ≤ fuel + path.length) :
    Visits skills path done (· = node) (dfsFindCycle skills (nameToIdx skills) fuel node st) := by
  -- By induction on the fuel. A path has no repetitions, so the fuel lasts.
  induction fuel generalizing node path done st with
  | zero =>
      have hpush := (h.push skills node path done st hwhite hlt htop).length_le
      rw [List.length_cons] at hpush
      omega
  | succ fuel ih =>
      have hpush := h.push skills node path done st hwhite hlt htop
      have hloop := visitDeps_visits skills (dfsFindCycle skills (nameToIdx skills) fuel) node path
        (fun child st' done' hinv hwhite' hparent hdepends => by
          refine ih child (node :: path) done' st' hinv hwhite'
            (depsOf_lt skills hnames node child hdepends).2 (fun top htop' => ?_) ?_
          · rw [List.head?_cons, Option.mem_some_iff] at htop'
            rw [← htop']
            exact ⟨hparent, hdepends⟩
          · rw [List.length_cons]
            omega)
        (dependsAt skills node)
        (fun dep hmem d hlookup => List.mem_filterMap.mpr ⟨dep, hmem, hlookup⟩) done _ hpush
      rw [dfsFindCycle]
      split
      next cycle st' hout =>
        rw [hout] at hloop
        exact hloop
      next st' hout =>
        rw [hout] at hloop
        rcases hloop with ⟨done', hinv, hsub, hall⟩
        -- No cycle below, so the position is finished.
        refine ⟨done' ++ [node], hinv.pop skills node path done' st' (fun d hd => ?_),
          List.Subset.trans hsub (List.subset_append_left done' [node]), fun i hi => ?_⟩
        · rcases List.mem_filterMap.mp hd with ⟨dep, hmem, hlookup⟩
          exact hall d ⟨dep, hmem, hlookup⟩
        · rw [hi]
          exact List.mem_append_right done' List.mem_cons_self

include hnames in
/-- The loop over the start positions finds a cycle or finishes all of them. -/
theorem findFrom_visits (starts done : List Nat) (st : Search)
    (hstarts : ∀ i ∈ starts, i < skills.length) (h : SearchInv skills [] done st) :
    match findFrom skills (nameToIdx skills) starts st with
    | some cycle => ∃ walk, IsCycle (DependsAt skills) walk ∧ cycle = walk.map (nameAt skills)
    | none => ∃ done', Ordered (DependsAt skills) done' ∧ done ⊆ done' ∧ ∀ i ∈ starts, i ∈ done' := by
  induction starts generalizing done st with
  | nil => exact ⟨done, h.sorted, List.Subset.refl done, fun i hi => absurd hi List.not_mem_nil⟩
  | cons start rest ih =>
      have hrest := fun i hi => hstarts i (List.mem_cons_of_mem start hi)
      have hgo : ∀ done' st', SearchInv skills [] done' st' → done ⊆ done' → start ∈ done' →
          match findFrom skills (nameToIdx skills) rest st' with
          | some cycle => ∃ walk, IsCycle (DependsAt skills) walk ∧
              cycle = walk.map (nameAt skills)
          | none => ∃ final, Ordered (DependsAt skills) final ∧ done ⊆ final ∧
              ∀ i ∈ start :: rest, i ∈ final := by
        intro done' st' h' hsub hstart
        have hloop := ih done' st' hrest h'
        cases hout : findFrom skills (nameToIdx skills) rest st' with
        | some cycle =>
            rw [hout] at hloop
            exact hloop
        | none =>
            rw [hout] at hloop
            rcases hloop with ⟨final, hsorted, hsub', hall⟩
            refine ⟨final, hsorted, List.Subset.trans hsub hsub', fun i hi => ?_⟩
            rcases List.mem_cons.mp hi with rfl | hi
            · exact hsub' hstart
            · exact hall i hi
      rw [findFrom]
      by_cases hwhite : st.color start = .white
      · rw [if_pos hwhite]
        have hvisit := dfsFindCycle_visits skills hnames skills.length start [] done st h hwhite
          (hstarts start List.mem_cons_self) (fun top htop => absurd htop (Option.not_mem_none top))
          (Nat.le_add_right ..)
        rcases hout : dfsFindCycle skills (nameToIdx skills) skills.length start st with
          ⟨_ | cycle, st'⟩
        · rw [hout] at hvisit
          rcases hvisit with ⟨done', hinv, hsub, hmem⟩
          exact hgo done' st' hinv hsub (hmem start rfl)
        · rw [hout] at hvisit
          exact hvisit
      · rw [if_neg hwhite]
        -- Between two starts nothing is gray, so the position is black.
        refine hgo done st h (List.Subset.refl done) ((h.black start).mp ?_)
        cases hcolor : st.color start with
        | white => exact absurd hcolor hwhite
        | gray => exact absurd ((h.gray start).mp hcolor) List.not_mem_nil
        | black => rfl

include hnames in
/-- A stuck resolution has a cycle to show. -/
theorem findCycle_isCycle
    (hstuck : (orderedIndices (nameToIdx skills) skills).length ≠ skills.length) :
    ∃ walk, IsCycle (DependsAt skills) walk ∧
      findCycle skills (nameToIdx skills) = walk.map (nameAt skills) := by
  have hstart : SearchInv skills [] [] ⟨fun _ => .white, fun _ => none⟩ := by
    refine ⟨fun i => ?_, fun i => ?_, List.nodup_nil, fun i hi => absurd hi List.not_mem_nil,
      List.IsChain.nil, ordered_nil _⟩
    · exact iff_of_false (fun h => by cases h) List.not_mem_nil
    · exact iff_of_false (fun h => by cases h) List.not_mem_nil
  have hfrom := findFrom_visits skills hnames (List.range skills.length) [] _
    (fun i hi => List.mem_range.mp hi) hstart
  unfold findCycle
  cases hout : findFrom skills (nameToIdx skills) (List.range skills.length)
      ⟨fun _ => .white, fun _ => none⟩ with
  | some cycle =>
      rw [hout] at hfrom
      exact hfrom
  | none =>
      -- Everything was finished in order, so nothing could have been stuck.
      rw [hout] at hfrom
      rcases hfrom with ⟨done, hsorted, _, hall⟩
      refine absurd ?_ (not_acyclic_of_stuck skills hnames hstuck)
      exact acyclic_of_ordered _ done hsorted
        (fun i j hij => hall i (List.mem_range.mpr (depsOf_lt skills hnames i j hij).1))

end Search

/-! ## The resolver -/

/-- The skill of one name depends on another name. -/
def DependsOn (skills : List (SkillMetadata δ)) (name dependency : String) : Prop :=
  ∃ skill ∈ skills, skill.name = name ∧ dependency ∈ skill.depends

/-- Every declared dependency is a skill of the list. -/
def Complete (skills : List (SkillMetadata δ)) : Prop :=
  ∀ skill ∈ skills, ∀ dep ∈ skill.depends, ∃ other ∈ skills, other.name = dep

/-- Every skill comes after all its dependencies. -/
def AfterDependencies (ordered : List (SkillMetadata δ)) : Prop :=
  ∀ front skill back, ordered = front ++ skill :: back →
    ∀ dep ∈ skill.depends, ∃ other ∈ front, other.name = dep

theorem nameAt_eq (i : Nat) (skill : SkillMetadata δ) (h : skills[i]? = some skill) :
    nameAt skills i = skill.name := by
  rw [nameAt, h]

theorem dependsOn_of_dependsAt (hnames : (skills.map SkillMetadata.name).Nodup) (i j : Nat)
    (h : DependsAt skills i j) :
    DependsOn skills (nameAt skills i) (nameAt skills j) := by
  rcases (mem_depsOf skills hnames i j).mp h with ⟨skill, other, hskill, hother, hdep⟩
  rw [nameAt_eq skills i skill hskill, nameAt_eq skills j other hother]
  exact ⟨skill, List.mem_of_getElem? hskill, rfl, hdep⟩

/-- A name is missing in the map when no skill has it. -/
theorem lookup_isNone (hnames : (skills.map SkillMetadata.name).Nodup) (name : String) :
    ((nameToIdx skills).lookup name).isNone = true ↔ ∀ skill ∈ skills, skill.name ≠ name := by
  rw [Option.isNone_iff_eq_none]
  constructor
  · intro hnone skill hskill heq
    rcases List.mem_iff_getElem?.mp hskill with ⟨i, hi⟩
    rw [(lookup_nameToIdx skills hnames name i).mpr ⟨skill, hi, heq⟩] at hnone
    cases hnone
  · intro hall
    cases hlookup : (nameToIdx skills).lookup name with
    | none => rfl
    | some i =>
        rcases (lookup_nameToIdx skills hnames name i).mp hlookup with ⟨skill, hi, heq⟩
        exact absurd heq (hall skill (List.mem_of_getElem? hi))

/-- The validation finds nothing exactly when nothing is missing, and what it
    reports is missing. -/
theorem findMissing_spec (index : OrderedMap String Nat) (skills : List (SkillMetadata δ)) :
    match findMissing index skills with
    | none => ∀ skill ∈ skills, ∀ dep ∈ skill.depends, (index.lookup dep).isNone = false
    | some error => ∃ skill ∈ skills, ∃ dep ∈ skill.depends, (index.lookup dep).isNone = true ∧
        error = .missingDependency skill.name dep := by
  -- The first missing dependency of the first skill that has one.
  induction skills with
  | nil => exact fun skill hskill => absurd hskill List.not_mem_nil
  | cons first rest ih =>
      rw [findMissing]
      cases hfind : first.depends.find? (fun dep => (index.lookup dep).isNone) with
      | some dep =>
          exact ⟨first, List.mem_cons_self, dep, List.mem_of_find?_eq_some hfind,
            List.find?_some (p := fun dep => (index.lookup dep).isNone) hfind, rfl⟩
      | none =>
          dsimp only
          cases hrest : findMissing index rest with
          | some error =>
              rw [hrest] at ih
              rcases ih with ⟨skill, hskill, hdep⟩
              exact ⟨skill, List.mem_cons_of_mem first hskill, hdep⟩
          | none =>
              rw [hrest] at ih
              intro skill hskill dep hdep
              rcases List.mem_cons.mp hskill with rfl | hskill
              · exact Bool.eq_false_iff.mpr (List.find?_eq_none.mp hfind dep hdep)
              · exact ih skill hskill dep hdep

theorem filterMap_range : (List.range skills.length).filterMap (fun i => skills[i]?) = skills := by
  induction skills with
  | nil => rfl
  | cons skill rest ih =>
      rw [List.length_cons, List.range_succ_eq_map, List.filterMap_cons, List.filterMap_map]
      exact congrArg (skill :: ·) ih

section Resolver

variable (skills : List (SkillMetadata δ)) (hnames : (skills.map SkillMetadata.name).Nodup)

/-- The skills at the finished positions. -/
def resolved : List (SkillMetadata δ) :=
  (orderedIndices (nameToIdx skills) skills).filterMap (fun i => skills[i]?)

/-- All skills are there, each as often as it was, if no position is left. -/
theorem resolved_perm
    (hall : (orderedIndices (nameToIdx skills) skills).length = skills.length) :
    (resolved skills).Perm skills := by
  rcases orderedIndices_ordered skills with ⟨hnodup, hlt, _⟩
  have hsub : orderedIndices (nameToIdx skills) skills ⊆ List.range skills.length :=
    fun i hi => List.mem_range.mpr (hlt i hi)
  have hperm : (orderedIndices (nameToIdx skills) skills).Perm (List.range skills.length) := by
    refine (hnodup.subperm hsub).perm_of_length_le ?_
    rw [List.length_range, hall]
  have hmap := hperm.filterMap (fun i => skills[i]?)
  rwa [filterMap_range] at hmap

include hnames in
/-- A skill stands behind the skills it names, if nothing is missing. -/
theorem resolved_afterDependencies (hcomplete : Complete skills)
    (hmem : ∀ skill ∈ resolved skills, skill ∈ skills) : AfterDependencies (resolved skills) := by
  rcases orderedIndices_ordered skills with ⟨_, hlt, hsorted⟩
  intro front skill back hsplit dep hdep
  have hskill : skill ∈ skills := hmem skill (by
    rw [hsplit]
    exact List.mem_append_right front List.mem_cons_self)
  rcases hcomplete skill hskill dep hdep with ⟨other, hother, rfl⟩
  -- The positions in front of the skill's own are those of the skills in front.
  rcases List.filterMap_eq_append_iff.mp hsplit with ⟨before, after, hpositions, hfront, hafter⟩
  rcases List.filterMap_eq_cons_iff.mp hafter with ⟨skipped, i, behind, rfl, hskipped, hi, _⟩
  rcases List.mem_iff_getElem?.mp hother with ⟨j, hj⟩
  have hdepends : j ∈ depsOf skills i :=
    (mem_depsOf skills hnames i j).mpr ⟨skill, other, hi, hj, hdep⟩
  have hbefore := hsorted (before ++ skipped) i behind (by rw [hpositions, List.append_assoc]) j hdepends
  rcases List.mem_append.mp hbefore with hbefore | hbefore
  · refine ⟨other, ?_, rfl⟩
    rw [← hfront]
    exact List.mem_filterMap.mpr ⟨j, hbefore, hj⟩
  · rw [hskipped j hbefore] at hj
    cases hj

include hnames in
/-- The names of an order that respects the dependencies leave no room for a
    cycle. -/
theorem acyclic_of_afterDependencies (ordered : List (SkillMetadata δ))
    (hperm : ordered.Perm skills) (hafter : AfterDependencies ordered) :
    Acyclic (DependsOn skills) := by
  refine acyclic_of_ordered _ (ordered.map SkillMetadata.name) ?_ ?_
  · intro front name back hsplit dep hdep
    rcases hdep with ⟨skill, hskill, rfl, hdep⟩
    rcases List.map_eq_append_iff.mp hsplit with ⟨before, rest, rfl, rfl, hrest⟩
    rcases List.map_eq_cons_iff.mp hrest with ⟨found, behind, rfl, hname, _⟩
    -- Names are distinct, so the skill of that name is the one meant.
    have hsame : found = skill := by
      refine List.inj_on_of_nodup_map hnames (hperm.mem_iff.mp ?_) hskill hname
      exact List.mem_append_right before List.mem_cons_self
    rcases hafter before found behind rfl dep (hsame ▸ hdep) with ⟨other, hother, rfl⟩
    exact List.mem_map.mpr ⟨other, hother, rfl⟩
  · intro name dep hdep
    rcases hdep with ⟨skill, hskill, rfl, _⟩
    exact List.mem_map.mpr ⟨skill, hperm.mem_iff.mpr hskill, rfl⟩

include hnames in
/-- The three outcomes of the resolver. -/
theorem resolveDependencies_cases :
    (∃ skill ∈ skills, ∃ dep ∈ skill.depends, (∀ other ∈ skills, other.name ≠ dep) ∧
      resolveDependencies skills = .error (.missingDependency skill.name dep)) ∨
    (Complete skills ∧ ∃ cycle, IsCycle (DependsOn skills) cycle ∧
      resolveDependencies skills = .error (.cyclicDependency cycle)) ∨
    (Complete skills ∧ ∃ ordered, ordered.Perm skills ∧ AfterDependencies ordered ∧
      resolveDependencies skills = .ok ordered) := by
  by_cases hempty : skills = []
  · subst hempty
    refine .inr (.inr ⟨fun skill hskill => absurd hskill List.not_mem_nil, [], List.Perm.refl [], ?_, rfl⟩)
    intro front skill back hsplit
    exact absurd hsplit.symm (List.append_ne_nil_of_right_ne_nil front (List.cons_ne_nil skill back))
  have hunfold : skills.isEmpty = false := List.isEmpty_eq_false_iff.mpr hempty
  -- The map is complete if the names are distinct, so what is not in it is
  -- missing.
  have hmissing := findMissing_spec (nameToIdx skills) skills
  simp only [resolveDependencies, hunfold, Bool.false_eq_true, if_false]
  cases hfind : findMissing (nameToIdx skills) skills with
  | some error =>
      rw [hfind] at hmissing
      rcases hmissing with ⟨skill, hskill, dep, hdep, hnone, rfl⟩
      exact .inl ⟨skill, hskill, dep, hdep, (lookup_isNone skills hnames dep).mp hnone, rfl⟩
  | none =>
      rw [hfind] at hmissing
      have hcomplete : Complete skills := by
        intro skill hskill dep hdep
        by_contra hnot
        have hnone := (lookup_isNone skills hnames dep).mpr
          (fun other hother heq => hnot ⟨other, hother, heq⟩)
        rw [hmissing skill hskill dep hdep] at hnone
        cases hnone
      -- All positions are finished, or the loop is stuck on a cycle.
      by_cases hall : (orderedIndices (nameToIdx skills) skills).length = skills.length
      · have hperm := resolved_perm skills hall
        refine .inr (.inr ⟨hcomplete, resolved skills, hperm, ?_, if_neg (not_not.mpr hall)⟩)
        exact resolved_afterDependencies skills hnames hcomplete (fun skill => hperm.mem_iff.mp)
      · rcases findCycle_isCycle skills hnames hall with ⟨walk, hcycle, hnamesOf⟩
        refine .inr (.inl ⟨hcomplete, walk.map (nameAt skills), ?_, ?_⟩)
        · exact hcycle.map _ _ _ walk (dependsOn_of_dependsAt skills hnames)
        · rw [← hnamesOf]
          exact if_pos hall

end Resolver

/-- The resolver, for skills with distinct names. It succeeds exactly when
    every dependency is there and none is part of a cycle; then the skills are
    put in an order in which each comes after all its dependencies. Otherwise
    it names a dependency that is not there, or skills of which each depends
    on the next and the last is the first. -/
theorem resolveDependencies_spec (skills : List (SkillMetadata δ))
    (hnames : (skills.map SkillMetadata.name).Nodup) :
    ((∃ ordered, resolveDependencies skills = .ok ordered) ↔
      Complete skills ∧ Acyclic (DependsOn skills)) ∧
    (∀ ordered, resolveDependencies skills = .ok ordered →
      ordered.Perm skills ∧ AfterDependencies ordered) ∧
    (∀ name dep, resolveDependencies skills = .error (.missingDependency name dep) →
      DependsOn skills name dep ∧ ∀ other ∈ skills, other.name ≠ dep) ∧
    (∀ cycle, resolveDependencies skills = .error (.cyclicDependency cycle) →
      IsCycle (DependsOn skills) cycle) := by
  -- Each outcome excludes the other two, and decides all four statements.
  rcases resolveDependencies_cases skills hnames with
    ⟨skill, hskill, dep, hdep, habsent, hresult⟩ | ⟨hcomplete, cycle, hcycle, hresult⟩ |
    ⟨hcomplete, ordered, hperm, hafter, hresult⟩
  · rw [hresult]
    refine ⟨⟨?_, ?_⟩, ?_, ?_, ?_⟩
    · rintro ⟨_, hok⟩
      cases hok
    · rintro ⟨hcomplete, _⟩
      rcases hcomplete skill hskill dep hdep with ⟨other, hother, heq⟩
      exact absurd heq (habsent other hother)
    · intro _ hok
      cases hok
    · intro name dep' herror
      cases herror
      exact ⟨⟨skill, hskill, rfl, hdep⟩, habsent⟩
    · intro _ herror
      cases herror
  · rw [hresult]
    refine ⟨⟨?_, ?_⟩, ?_, ?_, ?_⟩
    · rintro ⟨_, hok⟩
      cases hok
    · rintro ⟨_, hacyclic⟩
      exact absurd hacyclic (hcycle.not_acyclic _ cycle)
    · intro _ hok
      cases hok
    · intro _ _ herror
      cases herror
    · intro cycle' herror
      cases herror
      exact hcycle
  · rw [hresult]
    refine ⟨⟨?_, ?_⟩, ?_, ?_, ?_⟩
    · intro _
      exact ⟨hcomplete, acyclic_of_afterDependencies skills hnames ordered hperm hafter⟩
    · intro _
      exact ⟨ordered, rfl⟩
    · intro ordered' hok
      cases hok
      exact ⟨hperm, hafter⟩
    · intro _ _ herror
      cases herror
    · intro _ herror
      cases herror

/-- Two skills that depend on each other, and one that depends on them: the
    order fails, and the error shows the two. -/
theorem resolveDependencies_spec_loop :
    let skills : List (SkillMetadata Unit) :=
      [⟨"lighting", ["rigging"], ()⟩, ⟨"rigging", ["modeling"], ()⟩, ⟨"modeling", ["rigging"], ()⟩]
    resolveDependencies skills = .error (.cyclicDependency ["rigging", "modeling", "rigging"]) ∧
      ¬ (Complete skills ∧ Acyclic (DependsOn skills)) := by
  intro skills
  have hresult : resolveDependencies skills
      = .error (.cyclicDependency ["rigging", "modeling", "rigging"]) := by rfl
  refine ⟨hresult, fun h => ?_⟩
  rcases (resolveDependencies_spec skills (by decide)).1.mpr h with ⟨ordered, hok⟩
  rw [hresult] at hok
  cases hok

end Skills

end DccMcp
