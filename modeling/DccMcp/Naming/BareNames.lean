import DccMcp.Naming.SkillTools
import Mathlib.Data.Finset.Insert

/-!
# Bare Tool Names

Which actions of an instance are published without their skill in front. The
resolver goes over the actions twice: it collects for every bare name the
skills that have it, and then lets those actions through whose bare name is on
one skill's list only.

What is collected for a name is the list of the skills of the actions with that
name, in their order, so the two passes together ask one question of every
pair of actions. The question is about skills: two actions of one skill with
one bare name do not stand in each other's way.

## Main definitions

* `BareNameInput`, `BareNameInput.bare`: An action, and its bare name.
* `BareNameInput.Eligible`: The actions that are counted.
* `resolveBareNames`: The resolver.

## Theorems

* `bare_names_resolved`: They are told apart across skills, and none is missing.
* `one_skill_collides`: Two actions of one skill under one name.
-/

namespace DccMcp

namespace Naming

open Text Capability

/-- `BareNameInput`: an action, and the skill it belongs to. -/
structure BareNameInput where
  skillName : String
  actionName : String
  deriving DecidableEq

namespace BareNameInput

def bare (inp : BareNameInput) : String := extractBareToolName inp.skillName inp.actionName

/-- A bare name that is neither reserved nor qualified itself. -/
def Unreserved (inp : BareNameInput) : Prop :=
  isCoreTool inp.bare = false ∧ contains "__" inp.bare = false

/-- The actions that are counted. -/
def Eligible (inp : BareNameInput) : Prop := inp.skillName ≠ "" ∧ inp.Unreserved

instance (inp : BareNameInput) : Decidable inp.Unreserved :=
  inferInstanceAs (Decidable (_ ∧ _))

instance (inp : BareNameInput) : Decidable inp.Eligible := inferInstanceAs (Decidable (_ ∧ _))

end BareNameInput

/-- The first pass of `resolve_bare_names`, on one action. -/
def countBare (counts : OrderedMap String (List String)) (inp : BareNameInput) :
    OrderedMap String (List String) :=
  if inp.skillName.isEmpty then counts
  else if isCoreTool inp.bare || contains "__" inp.bare then counts
  else counts.insert inp.bare (((counts.lookup inp.bare).getD []) ++ [inp.skillName])

/-- The second pass, on one action. -/
def publishBare (counts : OrderedMap String (List String)) (out : Finset (String × String))
    (inp : BareNameInput) : Finset (String × String) :=
  if inp.skillName.isEmpty then out
  else
    match counts.lookup inp.bare with
    | none => out
    | some skills =>
      -- Every entry refers to the skill of the first one.
      if skills.all (fun s => s == skills.head?.getD "") then
        insert (inp.skillName, inp.actionName) out
      else out

def resolveBareNames (inputs : List BareNameInput) : Finset (String × String) :=
  inputs.foldl (publishBare (inputs.foldl countBare (.empty _ _))) ∅

/-- The skills of the actions with a bare name, in their order. -/
def skillsOf (inputs : List BareNameInput) (bare : String) : List String :=
  (inputs.filter (fun inp => decide (inp.Eligible ∧ inp.bare = bare))).map BareNameInput.skillName

/-! ## The two passes -/

theorem isEmpty_iff (s : String) : s.isEmpty = true ↔ s = "" := String.isEmpty_iff

/-- The first pass skips what is not eligible, and appends the skill of the rest. -/
theorem countBare_eq (counts : OrderedMap String (List String)) (inp : BareNameInput) :
    countBare counts inp =
      if inp.Eligible then
        counts.insert inp.bare (((counts.lookup inp.bare).getD []) ++ [inp.skillName])
      else counts := by
  unfold countBare
  split
  next hempty => rw [if_neg (fun h => h.1 ((isEmpty_iff _).mp hempty))]
  next hskill =>
    split
    next hreserved =>
      rw [if_neg]
      rintro ⟨-, hcore, hqualified⟩
      rw [hcore, hqualified] at hreserved
      cases hreserved
    next hfree =>
      rw [Bool.not_eq_true, Bool.or_eq_false_iff] at hfree
      rw [if_pos ⟨fun h => hskill ((isEmpty_iff _).mpr h), hfree⟩]

theorem skillsOf_cons (inp : BareNameInput) (rest : List BareNameInput) (bare : String) :
    skillsOf (inp :: rest) bare =
      if inp.Eligible ∧ inp.bare = bare then inp.skillName :: skillsOf rest bare
      else skillsOf rest bare := by
  unfold skillsOf
  rw [List.filter_cons]
  by_cases h : inp.Eligible ∧ inp.bare = bare
  · rw [if_pos h, if_pos (decide_eq_true h), List.map_cons]
  · rw [if_neg h, if_neg (fun htrue => h (of_decide_eq_true htrue))]

variable (inputs : List BareNameInput)

theorem mem_skillsOf (bare skill : String) : skill ∈ skillsOf inputs bare ↔
      ∃ inp ∈ inputs, inp.Eligible ∧ inp.bare = bare ∧ inp.skillName = skill := by
  unfold skillsOf
  simp [and_assoc]

theorem lookup_foldl_countBare (counts : OrderedMap String (List String)) (bare : String) :
    ((inputs.foldl countBare counts).lookup bare).getD [] =
      ((counts.lookup bare).getD []) ++ skillsOf inputs bare := by
  induction inputs generalizing counts with
  | nil => exact (List.append_nil _).symm
  | cons inp rest ih =>
      rw [List.foldl_cons, ih, countBare_eq, skillsOf_cons]
      by_cases heligible : inp.Eligible
      · rw [if_pos heligible]
        by_cases hbare : inp.bare = bare
        · rw [if_pos ⟨heligible, hbare⟩, ← hbare, OrderedMap.lookup_insert, Option.getD_some,
            List.append_assoc]
          rfl
        · rw [if_neg (fun h => hbare h.2), OrderedMap.lookup_insert_ne _ _ _ _ (Ne.symm hbare)]
      · rw [if_neg heligible, if_neg (fun h => heligible h.1)]

/-- A name that is there has a skill. -/
theorem lookup_ne_nil (inputs : List BareNameInput) (bare : String) :
    (inputs.foldl countBare (.empty _ _)).lookup bare ≠ some [] := by
  refine List.foldlRecOn inputs countBare
    (motive := fun counts => counts.lookup bare ≠ some []) ?_ ?_
  · rw [OrderedMap.lookup_empty]
    exact fun h => (nomatch h)
  intro counts ih inp _
  rw [countBare_eq]
  split
  next =>
    by_cases hbare : bare = inp.bare
    · rw [hbare, OrderedMap.lookup_insert]
      exact fun h => List.append_ne_nil_of_right_ne_nil _ (List.cons_ne_nil _ _) (Option.some.inj h)
    · rw [OrderedMap.lookup_insert_ne _ _ _ _ hbare]
      exact ih
  next => exact ih

/-- What is collected for a name: the skills that have it, if any has. -/
theorem lookup_counts (inputs : List BareNameInput) (bare : String) :
    (inputs.foldl countBare (.empty _ _)).lookup bare =
      if skillsOf inputs bare = [] then none else some (skillsOf inputs bare) := by
  have hall := lookup_foldl_countBare inputs (.empty _ _) bare
  have hne := lookup_ne_nil inputs bare
  rw [OrderedMap.lookup_empty, Option.getD_none, List.nil_append] at hall
  cases hlookup : (inputs.foldl countBare (.empty _ _)).lookup bare with
  | none =>
      rw [hlookup, Option.getD_none] at hall
      rw [if_pos hall.symm]
  | some skills =>
      rw [hlookup, Option.getD_some] at hall
      rw [hlookup, hall] at hne
      rw [if_neg (fun hnil => hne (by rw [hnil])), hall]

/-- The actions that the second pass lets through: all that are counted under
    their bare name belong to one skill. -/
def Published (inputs : List BareNameInput) (inp : BareNameInput) : Prop :=
  inp.Eligible ∧
    ∀ other ∈ inputs, other.Eligible → other.bare = inp.bare → other.skillName = inp.skillName

/-- Every skill is the first one exactly when every skill is this one. -/
theorem all_head_iff (skills : List String) (skill : String) (h : skill ∈ skills) :
    skills.all (fun s => s == skills.head?.getD "") = true ↔ ∀ s ∈ skills, s = skill := by
  rw [List.all_eq_true]
  cases skills with
  | nil => exact absurd h List.not_mem_nil
  | cons first rest =>
      rw [List.head?_cons, Option.getD_some]
      constructor
      · intro hall s hs
        rw [beq_iff_eq.mp (hall s hs), beq_iff_eq.mp (hall skill h)]
      · intro hall s hs
        rw [beq_iff_eq, hall s hs, hall first List.mem_cons_self]

/-- The test of the second pass, on an action of the list. -/
theorem publishBare_of_published (out : Finset (String × String)) (inp : BareNameInput)
    (hmem : inp ∈ inputs) (h : Published inputs inp) :
    publishBare (inputs.foldl countBare (.empty _ _)) out inp =
      insert (inp.skillName, inp.actionName) out := by
  have hskill : inp.skillName ∈ skillsOf inputs inp.bare :=
    (mem_skillsOf inputs inp.bare inp.skillName).mpr ⟨inp, hmem, h.1, rfl, rfl⟩
  have hone : ∀ s ∈ skillsOf inputs inp.bare, s = inp.skillName := by
    intro s hs
    rcases (mem_skillsOf inputs inp.bare s).mp hs with ⟨other, hother, heligible, hbare, rfl⟩
    exact h.2 other hother heligible hbare
  unfold publishBare
  rw [if_neg (fun hempty => h.1.1 ((isEmpty_iff _).mp hempty)), lookup_counts,
    if_neg (List.ne_nil_of_mem hskill)]
  dsimp only
  rw [if_pos ((all_head_iff _ _ hskill).mpr hone)]

theorem publishBare_of_not_published (out : Finset (String × String)) (inp : BareNameInput)
    (hmem : inp ∈ inputs)
    (h : ¬Published inputs inp) :
    publishBare (inputs.foldl countBare (.empty _ _)) out inp = out := by
  unfold publishBare
  split
  next => rfl
  next hskill =>
    rw [lookup_counts]
    split
    next => rfl
    next skills hlookup =>
      rw [if_neg]
      intro hall
      refine h ?_
      split at hlookup
      next => cases hlookup
      next hne =>
        rw [← Option.some.inj hlookup] at hall
        -- Some counted action has the bare name, so it is not reserved.
        rcases List.exists_mem_of_ne_nil _ hne with ⟨skill, hs⟩
        rcases (mem_skillsOf inputs inp.bare skill).mp hs with ⟨other, _, heligible, hbare, _⟩
        have hself : inp.Eligible := by
          refine ⟨fun hnil => hskill ((isEmpty_iff _).mpr hnil), ?_⟩
          unfold BareNameInput.Unreserved
          rw [← hbare]
          exact heligible.2
        have hmine : inp.skillName ∈ skillsOf inputs inp.bare :=
          (mem_skillsOf inputs inp.bare inp.skillName).mpr ⟨inp, hmem, hself, rfl, rfl⟩
        refine ⟨hself, fun other hother heligible hbare => ?_⟩
        exact (all_head_iff _ _ hmine).mp hall other.skillName
          ((mem_skillsOf inputs inp.bare other.skillName).mpr
            ⟨other, hother, heligible, hbare, rfl⟩)

theorem mem_foldl_publishBare (inputs rest : List BareNameInput) (hsub : ∀ inp ∈ rest, inp ∈ inputs)
    (out : Finset (String × String)) (pair : String × String) :
    pair ∈ rest.foldl (publishBare (inputs.foldl countBare (.empty _ _))) out ↔
      pair ∈ out ∨
        ∃ inp ∈ rest, Published inputs inp ∧ (inp.skillName, inp.actionName) = pair := by
  induction rest generalizing out with
  | nil => simp only [List.foldl_nil, List.not_mem_nil, false_and, exists_false, or_false]
  | cons inp rest ih =>
      have hinp := hsub inp List.mem_cons_self
      rw [List.foldl_cons, ih (fun other hother => hsub other (List.mem_cons_of_mem inp hother))]
      simp only [List.mem_cons, exists_eq_or_imp]
      by_cases hpub : Published inputs inp
      · rw [publishBare_of_published inputs out inp hinp hpub, Finset.mem_insert,
          or_comm (b := _ ∈ _),
          or_assoc, and_iff_right hpub, eq_comm (a := pair)]
      · rw [publishBare_of_not_published inputs out inp hinp hpub]
        simp [hpub]

/-- The actions that are let through. -/
theorem mem_resolveBareNames (pair : String × String) : pair ∈ resolveBareNames inputs ↔
      ∃ inp ∈ inputs, Published inputs inp ∧ (inp.skillName, inp.actionName) = pair := by
  unfold resolveBareNames
  rw [mem_foldl_publishBare inputs inputs (fun _ h => h)]
  simp [Finset.notMem_empty]

/-- Published bare names are told apart across skills: two actions with the same one belong to
    one skill. None is reserved or qualified, and no action is missing whose bare name is
    neither and is that of no other counted action. -/
theorem bare_names_resolved (inputs : List BareNameInput) :
    (∀ p ∈ resolveBareNames inputs, ∀ q ∈ resolveBareNames inputs,
      extractBareToolName p.1 p.2 = extractBareToolName q.1 q.2 → p.1 = q.1) ∧
    (∀ p ∈ resolveBareNames inputs, isCoreTool (extractBareToolName p.1 p.2) = false ∧
      contains "__" (extractBareToolName p.1 p.2) = false) ∧
    ∀ inp ∈ inputs, inp.Eligible →
      (∀ other ∈ inputs, other.Eligible → other.bare = inp.bare → other = inp) →
      (inp.skillName, inp.actionName) ∈ resolveBareNames inputs := by
  refine ⟨fun p hp q hq hbare => ?_, fun p hp => ?_, fun inp hinp heligible hunique => ?_⟩
  · rcases (mem_resolveBareNames inputs p).mp hp with ⟨inp, _, hpub, rfl⟩
    rcases (mem_resolveBareNames inputs q).mp hq with ⟨other, hother, hpub', rfl⟩
    exact (hpub.2 other hother hpub'.1 hbare.symm).symm
  · rcases (mem_resolveBareNames inputs p).mp hp with ⟨inp, _, hpub, rfl⟩
    exact hpub.1.2
  · refine (mem_resolveBareNames inputs _).mpr ⟨inp, hinp, ⟨heligible, ?_⟩, rfl⟩
    intro other hother helig hbare
    rw [hunique other hother helig hbare]

/-- Two actions of one skill are let through under one name, and an action whose
    bare name is qualified itself is not, with nothing beside it. -/
theorem one_skill_collides :
    ("maya", "maya__bake") ∈ resolveBareNames [⟨"maya", "maya__bake"⟩, ⟨"maya", "bake"⟩] ∧
      ("maya", "bake") ∈ resolveBareNames [⟨"maya", "maya__bake"⟩, ⟨"maya", "bake"⟩] ∧
      extractBareToolName "maya" "maya__bake" = extractBareToolName "maya" "bake" ∧
      isCoreTool (extractBareToolName "maya" "geo__bake") = false ∧
      resolveBareNames [⟨"maya", "geo__bake"⟩] = ∅ := by
  decide +kernel

end Naming

end DccMcp
