import DccMcp.Lib.Text
import DccMcp.Naming.CursorSafe

/-!
# Capability Records

The unit of the gateway's index: one record for one action of a backend. A
record does not carry the schema of the action, only what a search needs, and
it is addressed by a slug that names the DCC, the instance and the action.

## Main definitions

* `toolSlug`, `parseSlug`: Slugs and how they are read.
* `CapabilityRecord`: The records.
* `normaliseSummary`, `normaliseSearchTokens`: What bounds their size.

## Theorems

* `parseSlug_toolSlug`: A slug is read back when its first part has no dot.
* `parseSlug_eq_some`: The first part of a slug that is read has no dot.
* `toolSlug_inj`: Slugs of one instance differ if the actions do.
-/

namespace DccMcp

namespace Capability

open Naming Text

/-- `instance_short`, as a text. -/
def instanceShortText (id : Uuid) : String :=
  .ofList ((instanceShort id).map (fun b => Char.ofNat b.toNat))

def toolSlug (dccType : String) (instanceId : Uuid) (backendTool : String) : String :=
  dccType ++ "." ++ instanceShortText instanceId ++ "." ++ backendTool

/-- The test of the middle segment in `parse_slug`. `Uuid::parse_str` is the
    parser of the UUID library. -/
def isInstanceSegment (parseStr : String → Option Uuid) (id8 : String) : Bool :=
  if id8.utf8ByteSize < 4 || 36 < id8.utf8ByteSize then false
  else if id8.toList.contains '-' then (parseStr id8).isSome
  else id8.toList.all isAsciiHexdigit

def parseSlug (parseStr : String → Option Uuid) (slug : String) :
    Option (String × String × String) :=
  match cutAt '.' slug.toList with
  | none => none
  | some (dcc, rest) =>
    match cutAt '.' rest with
    | none => none
    | some (id8, tool) =>
      if dcc.isEmpty || tool.isEmpty then none
      else if isInstanceSegment parseStr (.ofList id8) then
        some (.ofList dcc, .ofList id8, .ofList tool)
      else none

def isValidDccBucket (dccType : String) : Bool :=
  !dccType.isEmpty && isCursorSafeAlphabet (utf8 dccType) && !dccType.toList.contains '.'

/-- Hints on the safety of an action. -/
structure CapabilityAnnotations where
  title : Option String
  readOnlyHint : Option Bool
  destructiveHint : Option Bool
  idempotentHint : Option Bool
  openWorldHint : Option Bool
  deriving DecidableEq

def CapabilityAnnotations.isEmpty (annotations : CapabilityAnnotations) : Bool :=
  annotations.title.isNone && annotations.readOnlyHint.isNone &&
    annotations.destructiveHint.isNone && annotations.idempotentHint.isNone &&
    annotations.openWorldHint.isNone

/-- How an action is executed. -/
structure CapabilityMetadata where
  affinity : Option String
  execution : Option String
  timeoutHintSecs : Option UInt32
  jobStrategy : Option String
  enforceThreadAffinity : Option Bool
  risk : Option String
  toolRole : Option String
  deriving DecidableEq

def CapabilityMetadata.isEmpty (metadata : CapabilityMetadata) : Bool :=
  metadata.affinity.isNone && metadata.execution.isNone && metadata.timeoutHintSecs.isNone &&
    metadata.jobStrategy.isNone && metadata.enforceThreadAffinity.isNone &&
    metadata.risk.isNone && metadata.toolRole.isNone

/-- A group of tools that is activated as a whole. -/
structure CapabilityGroupInfo where
  name : String
  description : String
  tools : List String
  defaultActive : Bool
  active : Option Bool
  deriving DecidableEq

/-- One record of the index. -/
structure CapabilityRecord where
  toolSlug : String
  backendTool : String
  callableId : String
  skillName : Option String
  summary : String
  tags : List String
  searchTokens : List String
  rankLayer : Option String
  rankPathSource : Option String
  dccType : String
  instanceId : Uuid
  hasSchema : Bool
  loaded : Bool
  annotations : Option CapabilityAnnotations
  metadata : Option CapabilityMetadata
  availableGroups : List CapabilityGroupInfo
  toolGroup : Option String
  discoveryOnly : Bool
  deriving DecidableEq

/-- `MAX_SUMMARY_LEN`. -/
def maxSummaryLen : Nat := 160

/-- The loop of `normalise_summary`: runs of white space become one space, and
    the summary stops growing at the limit. -/
def collapse (out : List Char) (prevSpace : Bool) : List Char → List Char
  | [] => out
  | ch :: rest =>
    if isWhitespace ch then
      if !prevSpace && !out.isEmpty then collapse (out ++ [' ']) true rest
      else collapse out prevSpace rest
    else if maxSummaryLen ≤ (String.ofList (out ++ [ch])).utf8ByteSize then out ++ [ch]
    else collapse (out ++ [ch]) false rest

def normaliseSummary (raw : String) : String :=
  let out := ((collapse [] false raw.toList).reverse.dropWhile (· == ' ')).reverse
  if maxSummaryLen < raw.toList.length then .ofList (out ++ "...".toList) else .ofList out

/-- The loop of `normalise_search_tokens`. -/
def keepTokens (seen out : List String) : List String → List String
  | [] => out
  | raw :: rest =>
    let token := trim (" ".intercalate (splitWhitespace raw))
    if token.utf8ByteSize < 2 || 64 < token.utf8ByteSize then keepTokens seen out rest
    else
      let key := toAsciiLowercase token
      let out := if seen.contains key then out else out ++ [token]
      if 64 ≤ out.length then out else keepTokens (key :: seen) out rest

def normaliseSearchTokens (tokens : List String) : List String := keepTokens [] [] tokens

namespace CapabilityRecord

def new (toolSlug backendTool callableId : String) (skillName : Option String) (summary : String)
    (tags : List String) (dccType : String) (instanceId : Uuid) (hasSchema loaded : Bool)
    (toolGroup : Option String) : CapabilityRecord where
  toolSlug
  backendTool
  callableId
  skillName
  summary := normaliseSummary summary
  tags
  searchTokens := []
  rankLayer := none
  rankPathSource := none
  dccType
  instanceId
  hasSchema
  loaded
  annotations := none
  metadata := none
  availableGroups := []
  toolGroup
  discoveryOnly := false

def withSurfaceMetadata (record : CapabilityRecord) (annotations : Option CapabilityAnnotations)
    (metadata : Option CapabilityMetadata) : CapabilityRecord :=
  { record with
    annotations := annotations.filter (fun hints => !hints.isEmpty)
    metadata := metadata.filter (fun hints => !hints.isEmpty) }

def withAvailableGroups (record : CapabilityRecord) (groups : List CapabilityGroupInfo) :
    CapabilityRecord :=
  { record with availableGroups := groups.filter (fun group => !group.name.isEmpty) }

def withSearchTokens (record : CapabilityRecord) (tokens : List String) : CapabilityRecord :=
  { record with searchTokens := normaliseSearchTokens tokens }

def withRankPolicy (record : CapabilityRecord) (layer pathSource : Option String) :
    CapabilityRecord :=
  { record with
    rankLayer := layer.filter (fun value => !value.isEmpty)
    rankPathSource := pathSource.filter (fun value => !value.isEmpty) }

def withDiscoveryOnly (record : CapabilityRecord) (discoveryOnly : Bool) : CapabilityRecord :=
  { record with discoveryOnly }

/-- `from_skill_tool`: a record of a skill that is not loaded, for no instance. -/
def fromSkillTool (skillName toolName toolDescription dccType : String)
    (toolGroup : Option String) : CapabilityRecord :=
  new (Capability.toolSlug dccType ⟨0⟩ toolName) toolName toolName (some skillName)
    toolDescription [] dccType ⟨0⟩ false false toolGroup

end CapabilityRecord

/-! ## Slugs -/

theorem toolSlug_toList (dccType : String) (instanceId : Uuid) (backendTool : String) :
    (toolSlug dccType instanceId backendTool).toList =
      dccType.toList ++ '.' :: ((instanceShortText instanceId).toList ++ '.' :: backendTool.toList) := by
  have hdot : ".".toList = ['.'] := rfl
  simp [toolSlug, String.toList_append, hdot]

/-- Slugs of one instance differ if the actions do. -/
theorem toolSlug_inj (dccType : String) (instanceId : Uuid) (tool tool' : String)
    (h : toolSlug dccType instanceId tool = toolSlug dccType instanceId tool') : tool = tool' := by
  have hlist := congrArg String.toList h
  rw [toolSlug_toList, toolSlug_toList, List.append_cancel_left_eq, List.cons.injEq,
    List.append_cancel_left_eq, List.cons.injEq] at hlist
  exact String.toList_inj.mp hlist.2.2

/-- A digit of an id is a character of one byte, a hexadecimal digit and none
    of the separators. -/
theorem digit_char (n : Nat) (h : n < 16) :
    let c := Char.ofNat (Bytes.hexDigitLower n).toNat
    c.utf8Size = 1 ∧ isAsciiHexdigit c = true ∧ c ≠ '-' ∧ c ≠ '.' := by
  interval_cases n <;> decide

/-- The eight digits of a short id pass for an instance. -/
theorem isInstanceSegment_short (parseStr : String → Option Uuid) (instanceId : Uuid) :
    isInstanceSegment parseStr (instanceShortText instanceId) = true ∧
      '.' ∉ (instanceShortText instanceId).toList := by
  -- All that matters about the short id is that its characters are digits.
  have hdigit : ∀ c ∈ (instanceShort instanceId).map (fun b => Char.ofNat b.toNat),
      c.utf8Size = 1 ∧ isAsciiHexdigit c = true ∧ c ≠ '-' ∧ c ≠ '.' := by
    intro c hc
    rcases List.mem_map.mp hc with ⟨b, hb, rfl⟩
    rcases List.mem_map.mp (List.mem_of_mem_take hb) with ⟨i, _, rfl⟩
    exact digit_char _ (Nat.mod_lt _ (by decide))
  have hsize : (instanceShortText instanceId).utf8ByteSize = 8 := by
    rw [instanceShortText, utf8ByteSize_ofList _ (fun c hc => (hdigit c hc).1), List.length_map]
    simp only [instanceShort, Uuid.simple, List.length_take, List.length_map, List.length_range,
      idPrefixLen]
    decide
  have hhyphen : (instanceShortText instanceId).toList.contains '-' = false := by
    rw [instanceShortText, String.toList_ofList, List.contains_eq_mem, decide_eq_false_iff_not]
    exact fun hmem => (hdigit '-' hmem).2.2.1 rfl
  have hall : (instanceShortText instanceId).toList.all isAsciiHexdigit = true := by
    rw [instanceShortText, String.toList_ofList, List.all_eq_true]
    exact fun c hc => (hdigit c hc).2.1
  refine ⟨?_, ?_⟩
  · rw [isInstanceSegment, hsize, hhyphen, hall]
    rfl
  · rw [instanceShortText, String.toList_ofList]
    exact fun hmem => (hdigit '.' hmem).2.2.2 rfl

/-- A slug is read back when its first part is there and has no dot. -/
theorem parseSlug_toolSlug (parseStr : String → Option Uuid) (dccType : String) (instanceId : Uuid)
    (tool : String) (hdcc : dccType ≠ "") (hdot : '.' ∉ dccType.toList) (htool : tool ≠ "") :
    parseSlug parseStr (toolSlug dccType instanceId tool) =
      some (dccType, instanceShortText instanceId, tool) := by
  rcases isInstanceSegment_short parseStr instanceId with ⟨hsegment, hshort⟩
  have hne : (dccType.toList.isEmpty || tool.toList.isEmpty) = false := by
    rw [Bool.or_eq_false_iff, List.isEmpty_eq_false_iff, List.isEmpty_eq_false_iff, Ne,
      String.toList_eq_nil_iff, Ne, String.toList_eq_nil_iff]
    exact ⟨hdcc, htool⟩
  -- The first dot ends the DCC and the second the id, whatever the action is
  -- called.
  simp [parseSlug, toolSlug_toList, cutAt_append '.' _ _ hdot, cutAt_append '.' _ _ hshort, hne, hsegment]

/-- The first part of a slug that is read is there and has no dot. -/
theorem parseSlug_eq_some (parseStr : String → Option Uuid) (slug dcc id8 tool : String)
    (h : parseSlug parseStr slug = some (dcc, id8, tool)) : dcc ≠ "" ∧ '.' ∉ dcc.toList := by
  unfold parseSlug at h
  split at h
  next => cases h
  next first rest hcut =>
    split at h
    next => cases h
    next id8' tool' hcut' =>
      split at h
      next => cases h
      next hne =>
        split at h
        next =>
          rw [Option.some.injEq, Prod.mk.injEq] at h
          rw [← h.1, String.toList_ofList]
          refine ⟨fun hempty => ?_, (cutAt_eq_some '.' _ first rest hcut).2⟩
          rw [Bool.or_eq_true, not_or, List.isEmpty_iff] at hne
          have hnil := congrArg String.toList hempty
          rw [String.toList_ofList, String.toList_empty] at hnil
          exact hne.1 hnil
        next => cases h

end Capability

end DccMcp
