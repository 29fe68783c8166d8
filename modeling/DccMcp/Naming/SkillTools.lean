import DccMcp.Capability.Builder
import Mathlib.Data.List.Infix

/-!
# Skill-Qualified Tool Names

A tool of a skill is published as `<skill>__<tool>`, and the name is taken
apart again where a call comes in. Three conventions share these names: the
skill in front, the short id of an instance in front, and the cursor-safe form
behind `i_`. The decoder of skill names refuses what looks like one of the other
two, so the skills whose own names look like them are not read back.

A skill name is a slug without underscores, which is what makes the first
separator of a name the one behind the skill, and what keeps every such name
apart from the cursor-safe form: `i__` may begin a name, and what follows is no
instance id.

## Main definitions

* `isValidSkillName`: The slugs that are skill names.
* `skillToolName`: The published name of a tool of a skill.
* `ReadBack`: The skills and tools whose name is read back.

## Theorems

* `skill_tool_round_trip`: Which names are read back.
* `instance_like_skill_lost`: A skill whose name is taken for an instance.
-/

namespace DccMcp

namespace Naming

open Bytes Text Capability

/-- `MAX_SKILL_NAME_LEN`. -/
def maxSkillNameLen : Nat := 64

def isValidSkillName (name : String) : Bool :=
  !name.isEmpty && decide (name.utf8ByteSize ≤ maxSkillNameLen) &&
    name.toList.all (fun ch => ch.isLower || ch.isDigit || ch == '-') &&
    !startsWith "-" name && name.toList.getLast? != some '-' && !contains "--" name

def skillToolName (skillName actionName : String) : Option String :=
  if skillName.isEmpty then none
  else
    let bare := extractBareToolName skillName actionName
    if isCoreTool bare || contains "__" bare then none else some (skillName ++ "__" ++ bare)

/-- The skills and tools whose name is read back: the skill looks like no part
    of another convention, and the tool has a qualified name at all. -/
def ReadBack (skill tool : String) : Prop :=
  skill ≠ "i" ∧ isInstancePrefix (utf8 skill) = false ∧ isCoreTool tool = false ∧
    contains "__" tool = false

/-! ## The characters of a skill name -/

theorem skillName_ne_nil (skill : String) (h : isValidSkillName skill = true) :
    skill.toList ≠ [] := by
  simp only [isValidSkillName, Bool.and_eq_true, Bool.not_eq_true'] at h
  intro hnil
  rw [String.toList_eq_nil_iff] at hnil
  rw [hnil] at h
  exact absurd h.1.1.1.1.1 (by decide)

theorem skillName_chars (skill : String) (h : isValidSkillName skill = true) (c : Char)
    (hc : c ∈ skill.toList) : c.isLower = true ∨ c.isDigit = true ∨ c = '-' := by
  simp only [isValidSkillName, Bool.and_eq_true] at h
  have hall := List.all_eq_true.mp h.1.1.1.2 c hc
  rw [Bool.or_eq_true, Bool.or_eq_true, beq_iff_eq, or_assoc] at hall
  exact hall

theorem skillName_ne (skill : String) (h : isValidSkillName skill = true) (d : Char)
    (hd : (d.isLower || d.isDigit || d == '-') = false) : d ∉ skill.toList := by
  intro hmem
  rw [Bool.or_eq_false_iff, Bool.or_eq_false_iff, beq_eq_false_iff_ne] at hd
  rcases skillName_chars skill h d hmem with hc | hc | hc
  · rw [hd.1.1] at hc
    cases hc
  · rw [hd.1.2] at hc
    cases hc
  · exact hd.2 hc

/-- A skill name is ASCII, so no byte of it is an underscore either. -/
theorem underscore_notMem_utf8 (skill : String) (h : isValidSkillName skill = true) :
    byte '_' ∉ utf8 skill := by
  intro hmem
  rcases List.mem_flatMap.mp hmem with ⟨c, hc, hbyte⟩
  have hascii : c.toNat ≤ 127 := by
    rcases skillName_chars skill h c hc with hlower | hdigit | rfl
    · have hle : c.val ≤ 'z'.val := of_decide_eq_true (Bool.and_eq_true_iff.mp hlower).2
      exact le_trans (UInt32.le_iff_toNat_le.mp hle) (by decide)
    · exact le_trans (Char.isDigit_iff_toNat.mp hdigit).2 (by decide)
    · decide
  have hsize : c.utf8Size = 1 := Char.utf8Size_eq_one_iff.mpr (UInt32.le_iff_toNat_le.mpr hascii)
  rw [String.utf8EncodeChar_eq_singleton hsize, List.mem_singleton] at hbyte
  have hval : 95 = c.toNat % 256 := congrArg UInt8.toNat hbyte
  have hc' : c = '_' := Char.ext (UInt32.toNat_inj.mp (by
    show c.toNat = 95
    omega))
  rw [hc'] at hc
  exact skillName_ne skill h '_' (by decide) hc

/-! ## Reading a name -/

/-- The first separator is the one behind a text without underscores. -/
theorem splitOnceIn_append (skill tool : List Char) (h : '_' ∉ skill) :
    splitOnceIn ['_', '_'] (skill ++ '_' :: '_' :: tool) = some (skill, tool) := by
  induction skill with
  | nil => rfl
  | cons c rest ih =>
      rw [List.mem_cons, not_or] at h
      have hprefix : ['_', '_'].isPrefixOf (c :: (rest ++ '_' :: '_' :: tool)) = false := by
        rw [List.isPrefixOf, beq_eq_false_iff_ne.mpr h.1, Bool.false_and]
      rw [List.cons_append, splitOnceIn, hprefix, if_neg Bool.false_ne_true, ih h.2]

/-- The prefixes that are refused, on a text without underscores in front of a
    separator. Only `i` makes one of them. -/
theorem isPrefixOf_append (skill tool : List Char) (hne : skill ≠ []) (h : '_' ∉ skill) :
    ['_', '_'].isPrefixOf (skill ++ '_' :: '_' :: tool) = false ∧
      ['i', '_'].isPrefixOf (skill ++ '_' :: '_' :: tool) = decide (skill = ['i']) := by
  cases skill with
  | nil => exact absurd rfl hne
  | cons c rest =>
      rw [List.mem_cons, not_or] at h
      refine ⟨by rw [List.cons_append, List.isPrefixOf, beq_eq_false_iff_ne.mpr h.1,
        Bool.false_and], ?_⟩
      cases rest with
      | nil =>
          rw [List.cons_append, List.isPrefixOf]
          by_cases hc : c = 'i'
          · rw [hc]
            rfl
          · rw [beq_eq_false_iff_ne.mpr (Ne.symm hc), Bool.false_and,
              decide_eq_false (fun heq => hc (List.cons.inj heq).1)]
      | cons d rest =>
          rw [List.mem_cons, not_or] at h
          rw [List.cons_append, List.cons_append, List.isPrefixOf, List.isPrefixOf,
            beq_eq_false_iff_ne.mpr h.2.1, Bool.false_and, Bool.and_false]
          exact (decide_eq_false (fun heq => by cases heq)).symm

/-- What is read off a skill in front of a tool. -/
theorem decodeSkillToolName_append (skill tool : String) (h : isValidSkillName skill = true)
    (hslash : '/' ∉ tool.toList) :
    decodeSkillToolName (skill ++ "__" ++ tool) =
      if skill = "i" ∨ isInstancePrefix (utf8 skill) = true then none else some (skill, tool) := by
  have hunder := skillName_ne skill h '_' (by decide)
  have htext : (skill ++ "__" ++ tool).toList = skill.toList ++ '_' :: '_' :: tool.toList := by
    rw [String.toList_append, String.toList_append, List.append_assoc]
    rfl
  have hno : '/' ∉ skill.toList ++ '_' :: '_' :: tool.toList := by
    rw [List.mem_append, List.mem_cons, List.mem_cons]
    rintro (hmem | hmem | hmem | hmem)
    · exact skillName_ne skill h '/' (by decide) hmem
    · cases hmem
    · cases hmem
    · exact hslash hmem
  have hcut : splitOnce "__" (skill ++ "__" ++ tool) = some (skill, tool) := by
    rw [Text.splitOnce, htext]
    show (splitOnceIn ['_', '_'] _).map _ = _
    rw [splitOnceIn_append _ _ hunder, Option.map_some, String.ofList_toList, String.ofList_toList]
  have hprefix := isPrefixOf_append skill.toList tool.toList (skillName_ne_nil skill h) hunder
  rw [← htext] at hprefix
  have hstub : startsWith "__" (skill ++ "__" ++ tool) = false := hprefix.1
  have hi : startsWith "i_" (skill ++ "__" ++ tool) = decide (skill.toList = ['i']) := hprefix.2
  have hname : skill.toList = ['i'] ↔ skill = "i" := by
    rw [← String.toList_inj]
    rfl
  unfold decodeSkillToolName
  rw [hstub, hcut, hi, List.contains_eq_mem, htext, decide_eq_false hno, Bool.or_false,
    if_neg Bool.false_ne_true]
  by_cases hskill : skill = "i"
  · rw [if_pos (decide_eq_true (hname.mpr hskill)), if_pos (Or.inl hskill)]
  · rw [if_neg (fun heq => hskill (hname.mp (of_decide_eq_true heq)))]
    dsimp only
    by_cases hinstance : isInstancePrefix (utf8 skill) = true
    · rw [if_pos hinstance, if_pos (Or.inr hinstance)]
    · rw [if_neg hinstance, if_neg (fun hboth => hboth.elim hskill hinstance)]

/-- No name with a skill in front is cursor-safe. -/
theorem decodeToolName_skill (skill tool : Bytes) (h : byte '_' ∉ skill) :
    decodeToolName (skill ++ (cursorSafeSep ++ tool)) = none := by
  unfold decodeToolName
  split
  · rfl
  · split
    · rfl
    · next rest hstrip =>
        rw [stripPrefix_eq_some] at hstrip
        -- The skill is `i`, so the rest begins with an underscore.
        have hrest : rest = byte '_' :: tool := by
          cases skill with
          | nil =>
              have hhead := (List.cons.inj hstrip).1
              exact absurd hhead (by decide)
          | cons b skill =>
              have htail := (List.cons.inj hstrip).2
              cases skill with
              | nil => exact (List.cons.inj htail).2.symm
              | cons b' skill =>
                  have hsecond : b' = byte '_' := (List.cons.inj htail).1
                  rw [hsecond] at h
                  exact absurd (List.mem_cons_of_mem b List.mem_cons_self) h
        split
        · rfl
        · next p escaped hcut =>
            split
            · next hprefix =>
                have hsplit := splitOnce_eq_some _ _ _ _ hcut
                refine absurd ?_ (underscore_not_mem p hprefix)
                rw [hrest] at hsplit
                cases p with
                | nil => cases hprefix
                | cons b p =>
                    rw [(List.cons.inj hsplit).1]
                    exact List.mem_cons_self
            · rfl

/-! ## The round trip -/

theorem toolName_chars (tool : List Char) (offset : Nat)
    (h : Workflow.scanToolName offset tool = none) : '/' ∉ tool := by
  induction tool generalizing offset with
  | nil => exact List.not_mem_nil
  | cons c rest ih =>
      unfold Workflow.scanToolName at h
      split at h
      next => cases h
      next =>
        split at h
        next hc =>
          intro hmem
          rcases List.mem_cons.mp hmem with heq | hmem
          · rw [← heq] at hc
            exact absurd hc (by decide)
          · exact ih _ h hmem
        next => cases h

/-- A valid tool name has no slash. -/
theorem slash_notMem (tool : String) (h : Workflow.validateToolName tool = none) :
    '/' ∉ tool.toList := by
  unfold Workflow.validateToolName at h
  split at h
  next => cases h
  next =>
    split at h
    next => cases h
    next => exact toolName_chars tool.toList 0 h

/-- A text with a separator in it. -/
theorem contains_of_split (s : String) (front rest : List Char)
    (h : s.toList = front ++ '_' :: '_' :: rest) : contains "__" s = true := by
  refine List.any_eq_true.mpr ⟨'_' :: '_' :: rest, ?_, rfl⟩
  rw [List.mem_tails, h]
  exact List.suffix_append front _

theorem eq_append_drop (front s rest : List Char) (h : front ++ rest = s) :
    s = front ++ (String.ofList (s.drop front.length)).toList := by
  rw [String.toList_ofList, ← h, List.drop_left]

/-- The bare name of a tool is the tool, or what stands behind a separator in it. -/
theorem extractBareToolName_cases (skill tool : String) :
    extractBareToolName skill tool = tool ∨
      contains "__" tool = true ∧
        ∃ front, tool.toList = front ++ (extractBareToolName skill tool).toList := by
  unfold extractBareToolName
  split
  next => exact .inl rfl
  next =>
    dsimp only
    split
    next hprefix =>
      rcases List.isPrefixOf_iff_prefix.mp hprefix with ⟨rest, hrest⟩
      refine .inr ⟨?_, _, eq_append_drop _ _ rest hrest⟩
      rw [List.append_assoc] at hrest
      exact contains_of_split tool _ rest hrest.symm
    next => exact .inl rfl

/-- A tool without a separator keeps its name. -/
theorem extractBareToolName_eq_self (skill tool : String) (h : contains "__" tool = false) :
    extractBareToolName skill tool = tool := by
  rcases extractBareToolName_cases skill tool with heq | ⟨hcontains, _⟩
  · exact heq
  · rw [h] at hcontains
    cases hcontains

/-- A skill and a tool with valid names. Their name is never taken for a
    cursor-safe one, and it is read back exactly where the skill looks like no
    other convention and the tool has a qualified name. -/
theorem skill_tool_round_trip (skill tool : String) (hskill : isValidSkillName skill = true)
    (htool : Workflow.validateToolName tool = none) :
    (∀ name, skillToolName skill tool = some name → decodeToolName (utf8 name) = none) ∧
      ((skillToolName skill tool).bind decodeSkillToolName = some (skill, tool) ↔
        ReadBack skill tool) := by
  have hslash : '/' ∉ (extractBareToolName skill tool).toList := by
    rcases extractBareToolName_cases skill tool with heq | ⟨_, front, hfront⟩
    · rw [heq]
      exact slash_notMem tool htool
    · intro hmem
      refine slash_notMem tool htool ?_
      rw [hfront]
      exact List.mem_append_right front hmem
  have hempty : skill.isEmpty = false := by
    simp only [isValidSkillName, Bool.and_eq_true, Bool.not_eq_true'] at hskill
    exact hskill.1.1.1.1.1
  unfold skillToolName
  rw [hempty, if_neg Bool.false_ne_true]
  dsimp only
  split
  next hnone =>
    refine ⟨fun name hname => (nomatch hname), fun h => (nomatch h), ?_⟩
    rintro ⟨-, -, hcore, hcontains⟩
    rw [extractBareToolName_eq_self skill tool hcontains, hcore, hcontains] at hnone
    cases hnone
  next hsome =>
    rw [Bool.not_eq_true, Bool.or_eq_false_iff] at hsome
    refine ⟨fun name hname => ?_, ?_⟩
    · rw [← Option.some.inj hname]
      have hbytes : utf8 (skill ++ "__" ++ extractBareToolName skill tool) =
          utf8 skill ++ (cursorSafeSep ++ utf8 (extractBareToolName skill tool)) := by
        unfold utf8
        rw [String.toList_append, String.toList_append, List.flatMap_append, List.flatMap_append,
          List.append_assoc]
        rfl
      rw [hbytes]
      exact decodeToolName_skill _ _ (underscore_notMem_utf8 skill hskill)
    · rw [Option.bind_some, decodeSkillToolName_append skill _ hskill hslash]
      constructor
      · intro h
        split at h
        next => cases h
        next hok =>
          rw [not_or, Bool.not_eq_true] at hok
          have heq : extractBareToolName skill tool = tool := (Prod.mk.inj (Option.some.inj h)).2
          rw [heq] at hsome
          exact ⟨hok.1, hok.2, hsome.1, hsome.2⟩
      · rintro ⟨hi, hinstance, -, hcontains⟩
        have hneither : ¬(skill = "i" ∨ isInstancePrefix (utf8 skill) = true) := by
          rw [not_or, Bool.not_eq_true]
          exact ⟨hi, hinstance⟩
        rw [if_neg hneither, extractBareToolName_eq_self skill tool hcontains]

/-- The name of a tool of the skill `maya-animation`. -/
theorem skill_tool_round_trip_keyframe :
    (skillToolName "maya-animation" "set_keyframe").bind decodeSkillToolName =
      some ("maya-animation", "set_keyframe") :=
  (skill_tool_round_trip "maya-animation" "set_keyframe" (by decide +kernel)
    (by decide +kernel)).2.mpr ⟨by decide, by decide +kernel, by decide +kernel, by decide +kernel⟩

/-- A skill whose name is eight hexadecimal digits is taken for an instance, and
    the skill `i` for the front of a cursor-safe name. -/
theorem instance_like_skill_lost :
    isValidSkillName "deadbeef" = true ∧ isValidSkillName "i" = true ∧
      Workflow.validateToolName "create_sphere" = none ∧
      skillToolName "deadbeef" "create_sphere" = some "deadbeef__create_sphere" ∧
      decodeSkillToolName "deadbeef__create_sphere" = none ∧
      skillToolName "i" "create_sphere" = some "i__create_sphere" ∧
      decodeSkillToolName "i__create_sphere" = none := by
  decide +kernel

end Naming

end DccMcp
