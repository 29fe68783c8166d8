import DccMcp.Capability.Fingerprint
import DccMcp.Flow.Spec

/-!
# Building Records

How the tools a backend lists and the tools of its unloaded skills become the
records of one instance.

The tools of the backend are checked: the DCC has to be usable as the first
part of a slug, and the name of a tool has to be one that the gateway routes.
Most of the record is read off the free-form metadata of the tool. The tools
of unloaded skills come as hints which carry their data directly, and the only
check made on them is that they have a name.

What comes from the libraries is a parameter: the hasher behind the
fingerprints, the table of alphanumeric characters, and the decoder of group
descriptions.

## Main definitions

* `Library`: What comes from the libraries.
* `McpTool`, `UnloadedCapabilityHint`: What records are built from.
* `shouldSkip`: The names that are not indexed.
* `extractTags`, `extractSearchTokens`, `extractMetadata`: What is read off a
  tool.
* `recordOfTool`, `buildRecordsFromBackend`: The records of the tools.
* `recordOfHint`, `buildRefreshRecords`: The records of an instance.
* `isUnchanged`: The test that skips a refresh.
* `keptNames`, `unsortedRecords`: What a refresh puts in the index.

## Theorems

* `buildRecordsFromBackend_perm`, `refreshRecords_perm`: Sorting keeps the
  records.
* `mem_unsortedRecords`: A record is identified by its name.
* `slugs_unsortedRecords`: The slugs of a refresh.
-/

namespace DccMcp

namespace Capability

open Naming Text Json

/-- What comes from the libraries. -/
structure Library where
  finish : Bytes → UInt64
  isAlphanumeric : Char → Bool
  groupsFromValue : Value → Option (List CapabilityGroupInfo)

/-- The annotations of a tool, as far as records use them. -/
structure McpToolAnnotations where
  title : Option String
  readOnlyHint : Option Bool
  destructiveHint : Option Bool
  idempotentHint : Option Bool
  openWorldHint : Option Bool

/-- A tool of a backend, as far as records use it. -/
structure McpTool where
  name : String
  description : String
  inputSchema : Value
  annotations : Option McpToolAnnotations
  toolMeta : Option (List (String × Value))

/-- The records of the tools, how many tools were not indexed, and the
    fingerprint. -/
structure BuildOutcome where
  records : List CapabilityRecord
  fingerprint : InstanceFingerprint
  skipped : Nat

def BuildOutcome.default : BuildOutcome := ⟨[], ⟨0⟩, 0⟩

/-! ## Names -/

/-- `CORE_TOOL_NAMES`. -/
def coreToolNames : List String :=
  ["search", "describe", "call", "lease", "load_skill", "unload_skill", "list_skills",
    "get_skill_info", "search_skills", "activate_tool_group", "deactivate_tool_group",
    "search_tools", "describe_tool", "call_tool", "call_tools", "acquire_dcc_instance",
    "release_dcc_instance", "jobs_get_status", "jobs_poll_contract", "jobs_cleanup",
    "jobs_checkpoint_status", "jobs_resume_context", "project_save", "project_load",
    "project_resume", "project_status", "workflows_run", "workflows_get_status",
    "workflows_cancel", "workflows_lookup", "workflows_resume", "workflows_list",
    "workflows_describe"]

def isCoreTool (name : String) : Bool := coreToolNames.contains name

def isBackendJobTool (name : String) : Bool := name == "jobs_get_status"

def shouldSkip (name : String) : Bool :=
  if name.isEmpty then true
  else if (Workflow.validateToolName name).isSome then true
  else if startsWith "__skill__" name || contains "__skill__" name then true
  else isLocalTool (utf8 name) || (isCoreTool name && !isBackendJobTool name)

def isDiscoveryOnlyTool (backendTool : String) : Bool :=
  toAsciiLowercase backendTool == "dcc_capability_manifest"

def extractBareToolName (skillName actionName : String) : String :=
  if skillName.isEmpty then actionName
  else
    let skill := (skillName.toList.map (fun c => if c = '-' then '_' else c)) ++ "__".toList
    if skill.isPrefixOf actionName.toList then .ofList (actionName.toList.drop skill.length)
    else actionName

def decodeSkillToolName (namespaced : String) : Option (String × String) :=
  if startsWith "__" namespaced || namespaced.toList.contains '/' then none
  else if startsWith "i_" namespaced then none
  else
    match splitOnce "__" namespaced with
    | some (head, rest) => if isInstancePrefix (utf8 head) then none else some (head, rest)
    | none => none

def extractSkillAndBare (name : String) : Option String × String :=
  match decodeSkillToolName name with
  | some (skill, action) => (some skill, action)
  | none =>
    match splitOnce "__" name with
    | some (skill, action) =>
      if !skill.isEmpty && !action.isEmpty then (some skill, action)
      else (none, extractBareToolName "" name)
    | none => (none, extractBareToolName "" name)

/-! ## Metadata -/

/-- The members under `dcc` in the metadata of a tool. -/
def dccMembers (toolMeta : Option (List (String × Value))) : Option (List (String × Value)) :=
  (toolMeta.bind (·.lookup "dcc")).bind Value.asObject

/-- The first of some keys that is there. -/
def lookupFirst (members : List (String × Value)) (keys : List String) : Option Value :=
  keys.findSome? (fun key => members.lookup key)

/-- A text that is there and not empty. -/
def nonEmptyText (value : Option Value) : Option String :=
  (value.bind Value.asStr).filter (fun s => !s.isEmpty)

def tokenise (lib : Library) (text : String) : List String :=
  (((splitOn (fun c => !lib.isAlphanumeric c) text.toList).map String.ofList).filter (fun s =>
    !s.isEmpty && 2 < s.utf8ByteSize)).map toAsciiLowercase

/-- The tags of the annotations. -/
def annotationTags (lib : Library) (annotations : McpToolAnnotations) : List String :=
  (match annotations.title with
    | some title => tokenise lib title
    | none => []) ++
  (if annotations.readOnlyHint = some true then ["read-only"] else []) ++
  (if annotations.idempotentHint = some true then ["idempotent"] else []) ++
  (if annotations.destructiveHint = some true then ["destructive"] else [])

def extractTags (lib : Library) (annotations : Option McpToolAnnotations)
    (toolMeta : Option (List (String × Value))) : List String :=
  let fromAnnotations := (annotations.map (annotationTags lib)).getD []
  let fromMeta := ((toolMeta.bind (·.lookup "dcc.tags")).bind Value.asArray).getD []
  (fromAnnotations ++ fromMeta.filterMap Value.asStr).eraseDups

def hasMeaningfulSchema (schema : Value) : Bool :=
  match schema.asObject with
  | none => false
  | some obj =>
    ((obj.lookup "properties").bind Value.asObject).any (fun props => !props.isEmpty) ||
      ((obj.lookup "required").bind Value.asArray).any (fun required => !required.isEmpty)

def metaDeclaresSchema (toolMeta : Option (List (String × Value))) : Bool :=
  (((dccMembers toolMeta).bind (·.lookup "has_schema")).bind Value.asBool).getD false

def prefixed (marker value : String) : String :=
  if marker.isEmpty || startsWith "alias:" value || startsWith "schema:" value ||
    startsWith "required:" value then value
  else marker ++ value

def appendSearchValues (marker : String) : Value → List String
  | .string s =>
    ((((splitOn (· == ',') s.toList).map (fun item => trim (.ofList item)))).filter
      (fun item => !item.isEmpty)).map (prefixed marker)
  | .array items =>
    (((items.filterMap Value.asStr).map trim).filter (fun item => !item.isEmpty)).map
      (prefixed marker)
  | _ => []

def metaSearchValues (toolMeta : List (String × Value)) (keys : List String) (marker : String) :
    List String :=
  match (toolMeta.lookup "dcc").bind Value.asObject with
  | none => []
  | some dcc => (keys.filterMap (fun key => dcc.lookup key)).flatMap (appendSearchValues marker)

def pushSchemaToken (out : List String) (marker value : String) : List String :=
  let value := trim value
  if value.isEmpty then out else out ++ [prefixed marker value]

def shortDescription (description : String) : String :=
  " ".intercalate ((splitWhitespace description).take 8)

/-- The loop over the properties of a schema. -/
def collectProperties (collect : Value → List String → List String)
    (props : List (String × Value)) : List String → List String → List String
  | [], out => out
  | name :: names, out =>
    let out := pushSchemaToken out "schema:" name
    match props.lookup name with
    | none => collectProperties collect props names out
    | some prop =>
      let out :=
        match (prop.get "description").bind Value.asStr with
        | some description => pushSchemaToken out "schema:" (shortDescription description)
        | none => out
      let out := collect prop out
      if 48 ≤ out.length then out else collectProperties collect props names out

/-- `collect_schema_search_tokens`, for as many levels as are still to be
    looked at. -/
def collectSchemaSearchTokens : Nat → Value → List String → List String
  | 0, _, out => out
  | levels + 1, schema, out =>
    if 48 ≤ out.length then out
    else
      match schema.asObject with
      | none => out
      | some obj =>
        let required := ((obj.lookup "required").bind Value.asArray).getD []
        let out := (required.filterMap Value.asStr).foldl
          (fun out field => pushSchemaToken out "required:" field) out
        match (obj.lookup "properties").bind Value.asObject with
        | none => out
        | some props =>
          collectProperties (collectSchemaSearchTokens levels) props
            ((props.map Prod.fst).mergeSort (· ≤ ·)) out

/-- `schema_search_tokens`: the schema and two levels below it. -/
def schemaSearchTokens (schema : Value) : List String := collectSchemaSearchTokens 3 schema []

def extractSearchTokens (tool : McpTool) : List String :=
  (match tool.toolMeta with
    | some toolMeta =>
      metaSearchValues toolMeta ["searchAliases", "search_aliases", "aliases"] "alias:" ++
        metaSearchValues toolMeta ["searchTokens", "search_tokens"] ""
    | none => []) ++
  schemaSearchTokens tool.inputSchema

def extractRankPolicy (toolMeta : Option (List (String × Value))) :
    Option String × Option String :=
  match dccMembers toolMeta with
  | none => (none, none)
  | some dcc =>
    (nonEmptyText (lookupFirst dcc ["rankLayer", "rank_layer"]),
      nonEmptyText (lookupFirst dcc ["rankPathSource", "rank_path_source"]))

def extractAnnotations (annotations : Option McpToolAnnotations) : Option CapabilityAnnotations :=
  annotations.map (fun hints => ⟨hints.title, hints.readOnlyHint, hints.destructiveHint,
    hints.idempotentHint, hints.openWorldHint⟩)

/-- `u32::try_from`. -/
def toU32 (n : UInt64) : Option UInt32 :=
  if n.toNat < 4294967296 then some (UInt32.ofNat n.toNat) else none

def extractMetadata (toolMeta : Option (List (String × Value))) : Option CapabilityMetadata :=
  (dccMembers toolMeta).map (fun dcc => {
    affinity := (dcc.lookup "affinity").bind Value.asStr
    execution := (dcc.lookup "execution").bind Value.asStr
    timeoutHintSecs :=
      ((lookupFirst dcc ["timeoutHintSecs", "timeout_hint_secs"]).bind Value.asU64).bind toU32
    jobStrategy := (lookupFirst dcc ["jobStrategy", "job_strategy"]).bind Value.asStr
    enforceThreadAffinity :=
      (lookupFirst dcc ["enforceThreadAffinity", "enforce_thread_affinity"]).bind Value.asBool
    risk := (dcc.lookup "risk").bind Value.asStr
    toolRole := (lookupFirst dcc ["toolRole", "tool_role"]).bind Value.asStr })

def skillNameFromMeta (toolMeta : Option (List (String × Value))) : Option String :=
  nonEmptyText ((dccMembers toolMeta).bind (lookupFirst · ["skill", "skillName", "skill_name"]))

def extractToolGroupFromMeta (toolMeta : Option (List (String × Value))) : Option String :=
  nonEmptyText ((dccMembers toolMeta).bind (lookupFirst · ["group", "tool_group", "toolGroup"]))

def extractAvailableGroupsFromMeta (lib : Library) (toolMeta : Option (List (String × Value))) :
    List CapabilityGroupInfo :=
  match (dccMembers toolMeta).bind (lookupFirst · ["available_groups", "groups"]) with
  | none => []
  | some value => (lib.groupsFromValue value).getD []

/-! ## The builders -/

/-- The summary before it is normalised. -/
def summaryOf (tool : McpTool) (hasSchema : Bool) : String :=
  if tool.description.isEmpty && hasSchema then tool.name ++ " (schema:available)"
  else tool.description

/-- The record of one tool. -/
def recordOfTool (lib : Library) (instanceId : Uuid) (dccType : String) (tool : McpTool) :
    CapabilityRecord :=
  let hasSchema := hasMeaningfulSchema tool.inputSchema || metaDeclaresSchema tool.toolMeta
  let rank := extractRankPolicy tool.toolMeta
  CapabilityRecord.new (toolSlug dccType instanceId tool.name) tool.name tool.name
      ((skillNameFromMeta tool.toolMeta).or (extractSkillAndBare tool.name).1)
      (summaryOf tool hasSchema) (extractTags lib tool.annotations tool.toolMeta) dccType instanceId
      hasSchema true (extractToolGroupFromMeta tool.toolMeta)
    |>.withSurfaceMetadata (extractAnnotations tool.annotations) (extractMetadata tool.toolMeta)
    |>.withAvailableGroups (extractAvailableGroupsFromMeta lib tool.toolMeta)
    |>.withSearchTokens (extractSearchTokens tool)
    |>.withRankPolicy rank.1 rank.2
    |>.withDiscoveryOnly (isDiscoveryOnlyTool tool.name)

/-- The tools that get a record. -/
def keptTools (tools : List McpTool) : List McpTool :=
  tools.filter (fun tool => !shouldSkip tool.name)

def buildRecordsFromBackend (lib : Library) (instanceId : Uuid) (dccType : String)
    (backendTools : List McpTool) : BuildOutcome :=
  if !isValidDccBucket dccType then .default
  else
    let records := sortBySlug ((keptTools backendTools).map (recordOfTool lib instanceId dccType))
    ⟨records, computeFingerprint lib.finish records,
      backendTools.countP (fun tool => shouldSkip tool.name)⟩

/-- A tool of a skill that is not loaded. -/
structure UnloadedCapabilityHint where
  skillName : String
  toolName : String
  summary : String
  searchTokens : List String
  rankLayer : Option String
  rankPathSource : Option String
  availableGroups : List CapabilityGroupInfo
  toolGroup : Option String

/-- The record of one hint. -/
def recordOfHint (instanceId : Uuid) (dccType : String) (hint : UnloadedCapabilityHint) :
    CapabilityRecord :=
  { CapabilityRecord.fromSkillTool hint.skillName hint.toolName hint.summary dccType hint.toolGroup
      |>.withAvailableGroups hint.availableGroups
      |>.withSearchTokens hint.searchTokens
      |>.withRankPolicy hint.rankLayer hint.rankPathSource with
    instanceId
    toolSlug := toolSlug dccType instanceId hint.toolName }

/-- The hints that get a record. -/
def keptHints (hints : List UnloadedCapabilityHint) : List UnloadedCapabilityHint :=
  hints.filter (fun hint => !hint.toolName.isEmpty)

def buildUnloadedRecords (hints : List UnloadedCapabilityHint) (instanceId : Uuid)
    (dccType : String) : List CapabilityRecord :=
  (keptHints hints).map (recordOfHint instanceId dccType)

/-- The records of an instance. -/
structure RefreshBuildOutcome where
  records : List CapabilityRecord
  fingerprint : InstanceFingerprint
  loaded : Nat
  unloaded : Nat
  skipped : Nat

def buildRefreshRecords (lib : Library) (loaded : BuildOutcome)
    (unloadedHints : List UnloadedCapabilityHint) (instanceId : Uuid) (dccType : String) :
    RefreshBuildOutcome :=
  let records := sortBySlug (loaded.records ++ buildUnloadedRecords unloadedHints instanceId dccType)
  { records
    fingerprint := computeFingerprint lib.finish records
    loaded := loaded.records.length
    unloaded := records.length - loaded.records.length
    skipped := loaded.skipped }

def RefreshBuildOutcome.isUnchanged (outcome : RefreshBuildOutcome)
    (previous : Option InstanceFingerprint) : Bool :=
  !outcome.records.isEmpty && previous == some outcome.fingerprint

/-- The records of one refresh of an instance. -/
def refreshRecords (lib : Library) (instanceId : Uuid) (dccType : String)
    (backendTools : List McpTool) (unloadedHints : List UnloadedCapabilityHint) :
    RefreshBuildOutcome :=
  buildRefreshRecords lib (buildRecordsFromBackend lib instanceId dccType backendTools)
    unloadedHints instanceId dccType

/-! ## Where records come from -/

/-- What identifies a record is determined by its name. -/
structure Identified (instanceId : Uuid) (dccType name : String) (r : CapabilityRecord) : Prop where
  toolSlug : r.toolSlug = toolSlug dccType instanceId name
  backendTool : r.backendTool = name
  callableId : r.callableId = name
  dccType : r.dccType = dccType
  instanceId : r.instanceId = instanceId
  discoveryOnly : r.discoveryOnly = (r.loaded && isDiscoveryOnlyTool name)

theorem recordOfTool_identified (lib : Library) (instanceId : Uuid) (dccType : String)
    (tool : McpTool) :
    Identified instanceId dccType tool.name (recordOfTool lib instanceId dccType tool) :=
  ⟨rfl, rfl, rfl, rfl, rfl, rfl⟩

theorem recordOfHint_identified (instanceId : Uuid) (dccType : String)
    (hint : UnloadedCapabilityHint) :
    Identified instanceId dccType hint.toolName (recordOfHint instanceId dccType hint) :=
  ⟨rfl, rfl, rfl, rfl, rfl, rfl⟩

/-- The names that get a record: those of the tools, if the DCC is usable, and
    those of the hints. -/
def keptNames (dccType : String) (backendTools : List McpTool)
    (unloadedHints : List UnloadedCapabilityHint) : List String :=
  (if isValidDccBucket dccType then (keptTools backendTools).map McpTool.name else []) ++
    (keptHints unloadedHints).map UnloadedCapabilityHint.toolName

/-- The records of a refresh before they are sorted. -/
def unsortedRecords (lib : Library) (instanceId : Uuid) (dccType : String)
    (backendTools : List McpTool) (unloadedHints : List UnloadedCapabilityHint) :
    List CapabilityRecord :=
  (if isValidDccBucket dccType then (keptTools backendTools).map (recordOfTool lib instanceId dccType)
    else []) ++ buildUnloadedRecords unloadedHints instanceId dccType

section Refresh

variable (lib : Library) (instanceId : Uuid) (dccType : String) (backendTools : List McpTool)
  (unloadedHints : List UnloadedCapabilityHint)

theorem buildRecordsFromBackend_perm :
    (buildRecordsFromBackend lib instanceId dccType backendTools).records.Perm
      (unsortedRecords lib instanceId dccType backendTools []) := by
  unfold buildRecordsFromBackend unsortedRecords
  by_cases hvalid : isValidDccBucket dccType = true
  · rw [if_neg (by rw [hvalid]; decide), if_pos hvalid]
    exact (List.mergeSort_perm _ _).trans (List.Perm.of_eq (List.append_nil _).symm)
  · rw [if_neg hvalid, if_pos (by rw [Bool.eq_false_iff.mpr hvalid]; decide)]
    exact List.Perm.refl []

theorem refreshRecords_perm :
    (refreshRecords lib instanceId dccType backendTools unloadedHints).records.Perm
      (unsortedRecords lib instanceId dccType backendTools unloadedHints) := by
  refine (List.mergeSort_perm _ _).trans ?_
  have htools := buildRecordsFromBackend_perm lib instanceId dccType backendTools
  have hnone : buildUnloadedRecords [] instanceId dccType = [] := rfl
  rw [unsortedRecords, hnone, List.append_nil] at htools
  exact htools.append_right _

/-- Every record is identified by a name that was kept. -/
theorem mem_unsortedRecords (r : CapabilityRecord)
    (h : r ∈ unsortedRecords lib instanceId dccType backendTools unloadedHints) :
    ∃ name ∈ keptNames dccType backendTools unloadedHints,
      Identified instanceId dccType name r := by
  -- A record comes from a tool or from a hint.
  rcases List.mem_append.mp h with h | h
  · split at h
    next hvalid =>
      rcases List.mem_map.mp h with ⟨tool, htool, rfl⟩
      refine ⟨tool.name, List.mem_append_left _ ?_, recordOfTool_identified ..⟩
      rw [if_pos hvalid]
      exact List.mem_map.mpr ⟨tool, htool, rfl⟩
    next => exact absurd h List.not_mem_nil
  · rcases List.mem_map.mp h with ⟨hint, hhint, rfl⟩
    refine ⟨hint.toolName, List.mem_append_right _ ?_, recordOfHint_identified ..⟩
    exact List.mem_map.mpr ⟨hint, hhint, rfl⟩

/-- The slugs are those of the names that were kept. -/
theorem slugs_unsortedRecords :
    (unsortedRecords lib instanceId dccType backendTools unloadedHints).map
        CapabilityRecord.toolSlug =
      (keptNames dccType backendTools unloadedHints).map (toolSlug dccType instanceId) := by
  unfold unsortedRecords keptNames buildUnloadedRecords
  rw [List.map_append, List.map_append, List.map_map, List.map_map]
  -- Both builders make the slug from the name alone.
  refine congrArg₂ (· ++ ·) ?_ rfl
  split
  next =>
    rw [List.map_map, List.map_map]
    rfl
  next => rfl

/-- A hint that gets a record leaves it among those of the refresh. -/
theorem recordOfHint_mem (hint : UnloadedCapabilityHint) (h : hint ∈ keptHints unloadedHints) :
    recordOfHint instanceId dccType hint ∈
      (refreshRecords lib instanceId dccType backendTools unloadedHints).records :=
  (refreshRecords_perm lib instanceId dccType backendTools unloadedHints).mem_iff.mpr
    (List.mem_append_right _ (List.mem_map.mpr ⟨hint, h, rfl⟩))

end Refresh

end Capability

end DccMcp
