import DccMcp.Actions.Coherence
import DccMcp.Lib.Text

/-!
# The Skill Catalog

The catalog of skills: what was discovered, what is loaded, and the names of the
skills of each DCC. Loading a skill registers its tools, binds their handlers and
activates its groups; unloading takes that back.

A catalog is a value here and an operation a function on it. The maps and sets of the
source have no order of their own, so they are ordered maps and lists without one
meaning anything.

What an operation finds around the catalog is one value, the host: the transform that
may rewrite a skill while it is loaded, the subscribers that may veto, the executor, and
what a tool of a skill looks like to the registry. A host is an argument of the
operation, so it may be another one each time.

Loading follows dependencies. The source keeps the skills that are being loaded on a
list and refuses to visit one twice, so the number of entries bounds the depth, and that
is the fuel.

## Main definitions

* `SkillMetadata`, `SkillEntry`, `SkillCatalog`: The data.
* `Host`: What an operation finds around the catalog.
* `activateGroup`, `deactivateGroup`, `activateSkillGroup`, `deactivateSkillGroup`: The
  tool groups.
* `loadSkillWithOptions`, `loadSkillTargetGroup`, `loadSkillObject`, `unloadSkill`: Loading.
* `discover`, `rediscover`, `addSkill`, `removeSkill`, `clear`: What the catalog knows.
* `register`, `remove`: The shared registry contract.
* `Op`, `step`: A call that changes the catalog.
-/

namespace DccMcp

namespace Catalog

open Actions Text

/-! ## Skills -/

structure SkillGroup where
  name : String
  defaultActive : Bool
  deriving DecidableEq

/-- A tool that a skill declares. `details` is what only the registry is told. -/
structure ToolDeclaration (δ : Type) where
  name : String
  group : String
  requiresInProcess : Bool
  mainThread : Bool
  details : δ
  deriving DecidableEq

structure SkillMetadata (δ : Type) where
  name : String
  dcc : String
  tags : List String
  depends : List String
  groups : List SkillGroup
  tools : List (ToolDeclaration δ)
  scripts : List String
  details : δ
  deriving DecidableEq

inductive SkillState
  | discovered
  | pendingDeps (missing : List String)
  | loaded
  | error (message : String)
  deriving DecidableEq

inductive SkillScope
  | repo
  | user
  | team
  | system
  | admin
  deriving DecidableEq

/-- The order of the scopes. -/
def SkillScope.rank : SkillScope → Nat
  | .repo => 0
  | .user => 1
  | .team => 2
  | .system => 3
  | .admin => 4

/-- Where a skill was found, by the label of the source. -/
structure SkillPathSource where
  label : String
  deriving DecidableEq

/-- `SkillPathSource::default`. -/
def SkillPathSource.unknown : SkillPathSource := ⟨"unknown"⟩

structure SkillEntry (δ : Type) where
  metadata : SkillMetadata δ
  state : SkillState
  registeredTools : List String
  scope : SkillScope
  pathSource : SkillPathSource
  deriving DecidableEq

/-- The catalog, with the registry and the dispatcher it works on. -/
structure SkillCatalog (δ ε η : Type) where
  entries : OrderedMap String (SkillEntry δ)
  loaded : List String
  dccShards : OrderedMap String (List String)
  activeGroups : List String
  registry : ToolRegistry ε
  dispatcher : Option (OrderedMap String η)

/-- What an operation finds around the catalog. -/
structure Host (δ ε η : Type) where
  transform : Option (SkillMetadata δ → Option (SkillMetadata δ))
  vetoes : SkillMetadata δ → Bool
  hasExecutor : Bool
  resolveToolScript : SkillMetadata δ → ToolDeclaration δ → Option String
  toolDetails : SkillMetadata δ → ToolDeclaration δ → ε
  scriptDetails : SkillMetadata δ → String → ε
  toolHandler : SkillMetadata δ → ToolDeclaration δ → String → η
  scriptHandler : SkillMetadata δ → String → η

/-- A host without hooks and without scripts. -/
def plainHost : Host Unit Unit Unit where
  transform := none
  vetoes _ := false
  hasExecutor := false
  resolveToolScript _ _ := none
  toolDetails _ _ := ()
  scriptDetails _ _ := ()
  toolHandler _ _ _ := ()
  scriptHandler _ _ := ()

/-- Why a skill is not loaded. -/
inductive LoadError
  | emptyName
  | dependencyCycle (cycle : List String)
  | notFound (skillName : String)
  | transformRefused (skillName : String)
  | missingDependencies (missing : List String)
  | dependencyFailed (dependency : String) (reason : LoadError)
  | vetoed (skillName : String)
  | missingExecutor (actionName : String)
  | groupNotFound (group : String)
  | outOfFuel

variable {δ ε η : Type}

namespace SkillCatalog

/-- `SkillCatalog::new` and `new_with_dispatcher`. -/
def new (registry : ToolRegistry ε) (dispatcher : Option (OrderedMap String η)) :
    SkillCatalog δ ε η :=
  ⟨.empty _ _, [], .empty _ _, [], registry, dispatcher⟩

/-- The catalog with an entry, new or in place of another one. -/
def place (c : SkillCatalog δ ε η) (name : String) (entry : SkillEntry δ) : SkillCatalog δ ε η :=
  { c with entries := c.entries.insert name entry }

/-! ## The shards -/

/-- The names in the shard of a DCC. -/
def shard (c : SkillCatalog δ ε η) (key : String) : List String := (c.dccShards.lookup key).getD []

def shardInsert (c : SkillCatalog δ ε η) (name dcc : String) : SkillCatalog δ ε η :=
  let key := toAsciiLowercase dcc
  { c with dccShards := c.dccShards.insert key ((c.shard key).insert name) }

/-- `shard_remove`. A shard that becomes empty goes. -/
def shardRemove (c : SkillCatalog δ ε η) (name dcc : String) : SkillCatalog δ ε η :=
  let key := toAsciiLowercase dcc
  match c.dccShards.lookup key with
  | none => c
  | some names =>
    let rest := names.filter (fun other => other ≠ name)
    if rest = [] then { c with dccShards := c.dccShards.erase key }
    else { c with dccShards := c.dccShards.insert key rest }

def shardMove (c : SkillCatalog δ ε η) (name oldDcc newDcc : String) : SkillCatalog δ ε η :=
  if eqIgnoreAsciiCase oldDcc newDcc then c
  else (c.shardRemove name oldDcc).shardInsert name newDcc

/-! ## The states of the entries -/

/-- The dependencies that the catalog does not know. -/
def missingOf (c : SkillCatalog δ ε η) (metadata : SkillMetadata δ) : List String :=
  metadata.depends.filter (fun dep => (c.entries.lookup dep).isNone)

def dependencyStateFor (c : SkillCatalog δ ε η) (metadata : SkillMetadata δ) : SkillState :=
  if c.missingOf metadata = [] then .discovered else .pendingDeps (c.missingOf metadata)

/-- What `refresh_dependency_states` makes of one state. -/
def refreshedState (c : SkillCatalog δ ε η) (name : String) (entry : SkillEntry δ) : SkillState :=
  if name ∈ c.loaded then .loaded
  else
    match entry.state with
    | .error message => .error message
    | _ => c.dependencyStateFor entry.metadata

/-- `refresh_dependency_states`: every key is looked at once. -/
def refreshDependencyStates (c : SkillCatalog δ ε η) : SkillCatalog δ ε η :=
  let refreshed (entries : OrderedMap String (SkillEntry δ)) (name : String) :=
    entries.modify name (fun entry => { entry with state := c.refreshedState name entry })
  { c with entries := (c.entries.entries.map Prod.fst).foldl refreshed c.entries }

/-! ## Tool groups -/

def skillGroupKey (skillName groupName : String) : String := skillName ++ ":" ++ groupName

def hasSkillGroup (c : SkillCatalog δ ε η) (skillName groupName : String) : Bool :=
  (c.entries.lookup skillName).any (fun entry =>
    entry.metadata.groups.any (fun item => item.name == groupName) ||
      entry.metadata.tools.any (fun tool => tool.group == groupName))

def activateGroup (c : SkillCatalog δ ε η) (groupName : String) : SkillCatalog δ ε η :=
  { c with
    activeGroups := c.activeGroups.insert groupName
    registry := (c.registry.setGroupEnabled groupName true).2 }

/-- `deactivate_group`. Every key that ends in the name goes, of whatever skill. -/
def deactivateGroup (c : SkillCatalog δ ε η) (groupName : String) : SkillCatalog δ ε η :=
  { c with
    activeGroups := c.activeGroups.filter (fun key =>
      key ≠ groupName && !((":" ++ groupName).toList.isSuffixOf key.toList))
    registry := (c.registry.setGroupEnabled groupName false).2 }

def activateSkillGroup (c : SkillCatalog δ ε η) (skillName groupName : String) :
    SkillCatalog δ ε η :=
  { c with
    activeGroups := c.activeGroups.insert (skillGroupKey skillName groupName)
    registry := (c.registry.setSkillGroupEnabled skillName groupName true).2 }

/-- The other loaded skills with a group, whose keys replace a bare one. -/
def otherOwners (c : SkillCatalog δ ε η) (skillName groupName : String) : List String :=
  c.loaded.filter (fun owner => owner ≠ skillName && c.hasSkillGroup owner groupName)

/-- The keys once a bare key has been handed to the other owners of the group. -/
def migrateLegacy (c : SkillCatalog δ ε η) (skillName groupName : String) : List String :=
  if groupName ∈ c.activeGroups then
    ((c.otherOwners skillName groupName).foldl
      (fun keys owner => keys.insert (skillGroupKey owner groupName)) c.activeGroups).filter
        (fun key => key ≠ groupName)
  else c.activeGroups

def deactivateSkillGroup (c : SkillCatalog δ ε η) (skillName groupName : String) :
    SkillCatalog δ ε η :=
  { c with
    activeGroups := (c.migrateLegacy skillName groupName).filter
      (fun key => key ≠ skillGroupKey skillName groupName)
    registry := (c.registry.setSkillGroupEnabled skillName groupName false).2 }

def activateSkillGroups (c : SkillCatalog δ ε η) (skillName : String) (metadata : SkillMetadata δ) :
    SkillCatalog δ ε η :=
  let named := metadata.groups.map SkillGroup.name ++ metadata.tools.map ToolDeclaration.group
  (named.filter (fun group => group ≠ "")).foldl
    (fun acc group => acc.activateSkillGroup skillName group) c

def groupDefaultActive (groups : List SkillGroup) (groupName : String) : Bool :=
  groupName = "" ||
    ((groups.find? (fun group => group.name == groupName)).map SkillGroup.defaultActive).getD false

/-! ## Registering the tools of a skill -/

/-- `name.replace('-', "_")`. -/
def underscored (name : String) : String :=
  .ofList (name.toList.map (fun c => if c = '-' then '_' else c))

/-- The name under which a tool is registered. -/
def actionName (metadata : SkillMetadata δ) (tool : ToolDeclaration δ) : String :=
  if contains "__" tool.name then tool.name
  else underscored metadata.name ++ "__" ++ underscored tool.name

/-- `Path::file_stem`, of a script. -/
def fileStem (path : String) : String :=
  let parts := (Text.splitOn (fun c => c == '/') path.toList).filter
    (fun part => part ≠ [] && part ≠ ['.'])
  match parts.getLast? with
  | none => "unknown"
  | some file =>
    let front := ((file.reverse.dropWhile (fun c => c ≠ '.')).drop 1).reverse
    if file = ['.', '.'] then "unknown"
    else .ofList (if front = [] then file else front)

/-- The name under which a script is registered. -/
def scriptActionName (metadata : SkillMetadata δ) (script : String) : String :=
  underscored metadata.name ++ "__" ++ underscored (fileStem script)

/-- What loading has registered so far. -/
structure Registration (ε η : Type) where
  registry : ToolRegistry ε
  dispatcher : Option (OrderedMap String η)
  registered : List String

/-- Whether a tool is enabled when its skill is loaded. -/
def enabledAtLoad (metadata : SkillMetadata δ) (tool : ToolDeclaration δ) (activateGroups : Bool) :
    Option String → Bool
  | none => activateGroups || groupDefaultActive metadata.groups tool.group
  | some group => tool.group == "" || tool.group == group

/-- The entry of the registry for a tool. -/
def toolMeta (host : Host δ ε η) (skillName : String) (metadata : SkillMetadata δ)
    (activateGroups : Bool) (targetGroup : Option String) (tool : ToolDeclaration δ) :
    ToolMeta ε where
  name := actionName metadata tool
  dcc := metadata.dcc
  skillName := some skillName
  group := tool.group
  enabled := enabledAtLoad metadata tool activateGroups targetGroup
  details := host.toolDetails metadata tool

/-- One turn of the loop over the tools. A name that is taken is skipped, and
    still counts as registered. -/
def registerTool (host : Host δ ε η) (skillName : String) (metadata : SkillMetadata δ)
    (activateGroups : Bool) (targetGroup : Option String) (acc : Registration ε η)
    (tool : ToolDeclaration δ) : Registration ε η :=
  let action := actionName metadata tool
  if (acc.registry.getAction action none).isSome then
    { acc with registered := acc.registered ++ [action] }
  else
    { registry := acc.registry.registerAction
        (toolMeta host skillName metadata activateGroups targetGroup tool)
      dispatcher :=
        match host.resolveToolScript metadata tool with
        | none => acc.dispatcher
        | some script => acc.dispatcher.map
            (fun handlers => handlers.insert action (host.toolHandler metadata tool script))
      registered := acc.registered ++ [action] }

/-- The entry of the registry for a script. -/
def scriptMeta (host : Host δ ε η) (skillName : String) (metadata : SkillMetadata δ)
    (script : String) : ToolMeta ε where
  name := scriptActionName metadata script
  dcc := metadata.dcc
  skillName := some skillName
  group := ""
  enabled := true
  details := host.scriptDetails metadata script

/-- One turn of the loop over the scripts of a skill that declares no tools. -/
def registerScript (host : Host δ ε η) (skillName : String) (metadata : SkillMetadata δ)
    (acc : Registration ε η) (script : String) : Registration ε η where
  registry := acc.registry.registerAction (scriptMeta host skillName metadata script)
  dispatcher := acc.dispatcher.map (fun handlers =>
    handlers.insert (scriptActionName metadata script) (host.scriptHandler metadata script))
  registered := acc.registered ++ [scriptActionName metadata script]

/-- Both loops. -/
def registerAll (host : Host δ ε η) (skillName : String) (metadata : SkillMetadata δ)
    (activateGroups : Bool) (targetGroup : Option String) (acc : Registration ε η) :
    Registration ε η :=
  let tools := metadata.tools.foldl
    (registerTool host skillName metadata activateGroups targetGroup) acc
  if metadata.tools = [] then metadata.scripts.foldl (registerScript host skillName metadata) tools
  else tools

/-! ## Loading -/

/-- A tool that needs an executor in the process, would be registered and has a script. -/
def needsExecutor (host : Host δ ε η) (c : SkillCatalog δ ε η) (metadata : SkillMetadata δ)
    (tool : ToolDeclaration δ) : Bool :=
  (tool.requiresInProcess || tool.mainThread) &&
    (c.registry.getAction (actionName metadata tool) none).isNone &&
      (host.resolveToolScript metadata tool).isSome

/-- The groups that are activated before the tools are registered. -/
def activateAtLoad (c : SkillCatalog δ ε η) (skillName : String) (metadata : SkillMetadata δ)
    (activateGroups : Bool) : Option String → SkillCatalog δ ε η
  | some group => c.activateSkillGroup skillName group
  | none =>
    if activateGroups then c.activateSkillGroups skillName metadata
    else
      ((metadata.groups.filter SkillGroup.defaultActive).map SkillGroup.name).foldl
        (fun acc group => acc.activateSkillGroup skillName group) c

/-- What is registered once nothing stands in the way. -/
def registration (host : Host δ ε η) (c : SkillCatalog δ ε η) (skillName : String)
    (metadata : SkillMetadata δ) (activateGroups : Bool) (targetGroup : Option String) :
    Registration ε η :=
  let active := c.activateAtLoad skillName metadata activateGroups targetGroup
  registerAll host skillName metadata activateGroups targetGroup
    ⟨active.registry, active.dispatcher, []⟩

/-- The catalog once the tools are registered. -/
def install (host : Host δ ε η) (c : SkillCatalog δ ε η) (skillName : String)
    (metadata : SkillMetadata δ) (activateGroups : Bool) (targetGroup : Option String) :
    SkillCatalog δ ε η :=
  let active := c.activateAtLoad skillName metadata activateGroups targetGroup
  let done := registration host c skillName metadata activateGroups targetGroup
  { active with
    registry := done.registry
    dispatcher := done.dispatcher
    entries := active.entries.modify skillName (fun entry =>
      { entry with metadata := metadata, state := .loaded, registeredTools := done.registered })
    loaded := active.loaded.insert skillName }

/-- The tools that an entry has registered. -/
def toolsOf (c : SkillCatalog δ ε η) (skillName : String) : List String :=
  ((c.entries.lookup skillName).map SkillEntry.registeredTools).getD []

/-- Why `load_skill_metadata` registers nothing. -/
def refusal (host : Host δ ε η) (c : SkillCatalog δ ε η) (skillName : String)
    (metadata : SkillMetadata δ) (targetGroup : Option String) : Option LoadError :=
  if host.vetoes metadata then some (.vetoed skillName)
  else
    let waiting := if host.hasExecutor then none
      else metadata.tools.find? (needsExecutor host c metadata)
    match waiting with
    | some tool => some (.missingExecutor (actionName metadata tool))
    | none =>
      match targetGroup with
      | none => none
      | some group =>
        if metadata.groups.any (fun item => item.name == group) then none
        else some (.groupNotFound group)

def loadSkillMetadata (host : Host δ ε η) (c : SkillCatalog δ ε η) (skillName : String)
    (metadata : SkillMetadata δ) (activateGroups : Bool) (targetGroup : Option String) :
    SkillCatalog δ ε η × Except LoadError (List String) :=
  match refusal host c skillName metadata targetGroup with
  | some err => (c, .error err)
  | none => (install host c skillName metadata activateGroups targetGroup,
      .ok (registration host c skillName metadata activateGroups targetGroup).registered)

def applySkillLoadTransform (host : Host δ ε η) (skillName : String) (metadata : SkillMetadata δ) :
    Option (SkillMetadata δ) :=
  match host.transform with
  | none => some metadata
  | some transform => (transform metadata).filter
      (fun transformed => transformed.name = metadata.name && transformed.name = skillName)

/-- The loop over the dependencies. -/
def loadDependencies
    (load : SkillCatalog δ ε η → String → SkillCatalog δ ε η × Except LoadError (List String)) :
    List String → SkillCatalog δ ε η → SkillCatalog δ ε η × Option LoadError
  | [], c => (c, none)
  | dep :: rest, c =>
    if dep ∈ c.loaded then loadDependencies load rest c
    else
      match load c dep with
      | (c', .ok _) => loadDependencies load rest c'
      | (c', .error reason) => (c', some (.dependencyFailed dep reason))

/-- A loaded skill that is loaded again. -/
def reload (c : SkillCatalog δ ε η) (skillName : String) (activateGroups : Bool) :
    SkillCatalog δ ε η :=
  match c.entries.lookup skillName with
  | none => c
  | some entry => if activateGroups then c.activateSkillGroups skillName entry.metadata else c

def loadSkillRecursive (host : Host δ ε η) (activateGroups : Bool) :
    Nat → List String → Option String → SkillCatalog δ ε η → String →
      SkillCatalog δ ε η × Except LoadError (List String)
  | 0, _, _, c, _ => (c, .error .outOfFuel)
  | fuel + 1, visiting, targetGroup, c, skillName =>
    if skillName ∈ c.loaded then (c.reload skillName activateGroups, .ok (c.toolsOf skillName))
    else if skillName ∈ visiting then
      (c, .error (.dependencyCycle
        (visiting.dropWhile (fun name => name ≠ skillName) ++ [skillName])))
    else
      match c.entries.lookup skillName with
      | none => (c, .error (.notFound skillName))
      | some entry =>
        match applySkillLoadTransform host skillName entry.metadata with
        | none => (c, .error (.transformRefused skillName))
        | some metadata =>
          if c.missingOf metadata ≠ [] then
            (c.place skillName { entry with state := .pendingDeps (c.missingOf metadata) },
              .error (.missingDependencies (c.missingOf metadata)))
          else
            match loadDependencies (fun c' dep =>
              loadSkillRecursive host activateGroups fuel (visiting ++ [skillName]) none c' dep)
                metadata.depends c with
            | (c', some err) => (c', .error err)
            | (c', none) =>
              if skillName ∈ c'.loaded then (c', .ok (c'.toolsOf skillName))
              else loadSkillMetadata host c' skillName metadata activateGroups targetGroup

/-- The number of entries bounds how deep loading goes. -/
def loadFuel (c : SkillCatalog δ ε η) : Nat := c.entries.entries.length + 2

/-- `load_skill_with_options`; `load_skill` activates the groups. -/
def loadSkillWithOptions (host : Host δ ε η) (c : SkillCatalog δ ε η) (skillName : String)
    (activateGroups : Bool) : SkillCatalog δ ε η × Except LoadError (List String) :=
  loadSkillRecursive host activateGroups c.loadFuel [] none c skillName

def loadSkillTargetGroup (host : Host δ ε η) (c : SkillCatalog δ ε η) (skillName group : String) :
    SkillCatalog δ ε η × Except LoadError (List String) :=
  loadSkillRecursive host false c.loadFuel [] (some group) c skillName

/-! ## Unloading -/

/-- `key.strip_prefix("skill:")`. -/
def scopedGroup (skillName key : String) : Option String :=
  if startsWith (skillName ++ ":") key then
    some (.ofList (key.toList.drop (skillName ++ ":").toList.length))
  else none

/-- `unload_skill`, which answers how many entries the registry lost. -/
def unloadSkill (c : SkillCatalog δ ε η) (skillName : String) : SkillCatalog δ ε η × Option Nat :=
  if skillName ∉ c.loaded then (c, none)
  else
    let dispatcher := c.dispatcher.map (fun handlers =>
      (c.toolsOf skillName).foldl (fun rest name => rest.erase name) handlers)
    let scopedGroups := c.activeGroups.filterMap (scopedGroup skillName)
    let quiet := scopedGroups.foldl (fun acc group => acc.deactivateSkillGroup skillName group) c
    let left := quiet.registry.unregisterSkill skillName
    ({ quiet with
        dispatcher := dispatcher
        registry := left.2
        entries := quiet.entries.modify skillName
          (fun entry => { entry with state := .discovered, registeredTools := [] })
        loaded := quiet.loaded.filter (fun name => name ≠ skillName) }, some left.1)

/-- `load_skill_object`. The scope and the source of the entry are kept. -/
def loadSkillObject (host : Host δ ε η) (c : SkillCatalog δ ε η) (metadata : SkillMetadata δ) :
    SkillCatalog δ ε η × Except LoadError (List String) :=
  if Text.trim metadata.name = "" then (c, .error .emptyName)
  else
    let old := c.entries.lookup metadata.name
    let unloaded := (c.unloadSkill metadata.name).1
    let entry : SkillEntry δ :=
      { metadata := metadata
        state := .discovered
        registeredTools := []
        scope := (old.map SkillEntry.scope).getD .repo
        pathSource := (old.map SkillEntry.pathSource).getD .unknown }
    loadSkillWithOptions host (unloaded.place metadata.name entry).refreshDependencyStates
      metadata.name true

/-! ## What the catalog knows -/

/-- An entry for a skill that has just been found. -/
def found (metadata : SkillMetadata δ) (scope : SkillScope) (source : SkillPathSource) :
    SkillEntry δ :=
  ⟨metadata, .discovered, [], scope, source⟩

/-- A found skill that the catalog does not know yet is added. -/
def discoverOne (scope : SkillScope) (c : SkillCatalog δ ε η)
    (skill : SkillMetadata δ × SkillPathSource) : SkillCatalog δ ε η :=
  match c.entries.lookup skill.1.name with
  | some _ => c
  | none =>
    (c.place skill.1.name (found skill.1 scope skill.2)).shardInsert skill.1.name skill.1.dcc

/-- `discover`, given what the scan found if it did not fail. -/
def discover (c : SkillCatalog δ ε η) :
    Option (List (SkillMetadata δ × SkillPathSource)) → SkillCatalog δ ε η
  | none => c
  | some skills => (skills.foldl (discoverOne .repo) c).refreshDependencyStates

/-- `discover_scoped`, given what the scan of each scope found. -/
def discoverScoped (c : SkillCatalog δ ε η)
    (scans : List (SkillScope × Option (List (SkillMetadata δ)))) : SkillCatalog δ ε η :=
  (scans.foldl (fun acc scan =>
    ((scan.2.getD []).map (fun skill => (skill, SkillPathSource.unknown))).foldl
      (discoverOne scan.1) acc) c).refreshDependencyStates

/-- `add_skill`. A loaded skill is left as it is. -/
def addSkill (c : SkillCatalog δ ε η) (metadata : SkillMetadata δ) : SkillCatalog δ ε η :=
  let added : SkillCatalog δ ε η :=
    match c.entries.lookup metadata.name with
    | none =>
      (c.place metadata.name (found metadata .repo .unknown)).shardInsert metadata.name metadata.dcc
    | some old =>
      if old.state = .loaded then c
      else
        (c.place metadata.name { old with metadata := metadata, state := .discovered }).shardMove
          metadata.name old.metadata.dcc metadata.dcc
  added.refreshDependencyStates

def removeSkill (c : SkillCatalog δ ε η) (skillName : String) : SkillCatalog δ ε η :=
  let unloaded := (c.unloadSkill skillName).1
  match unloaded.entries.lookup skillName with
  | none => unloaded
  | some entry =>
    let cleared := unloaded.shardRemove skillName entry.metadata.dcc
    { cleared with entries := cleared.entries.erase skillName }.refreshDependencyStates

/-- `clear`. The registry keeps what is not of a loaded skill. -/
def clear (c : SkillCatalog δ ε η) : SkillCatalog δ ε η :=
  let unloaded := c.loaded.foldl (fun acc name => (acc.unloadSkill name).1) c
  { unloaded with
    entries := .empty _ _
    dccShards := .empty _ _ }

section Rediscover

variable [DecidableEq δ]

/-- What the scan does with a found skill. An entry that changed takes over what was
    found. -/
def rediscoverOne (c : SkillCatalog δ ε η) (skill : SkillMetadata δ × SkillPathSource) :
    SkillCatalog δ ε η :=
  match c.entries.lookup skill.1.name with
  | none =>
    (c.place skill.1.name (found skill.1 .repo skill.2)).shardInsert skill.1.name skill.1.dcc
  | some old =>
    let updated : SkillEntry δ :=
      { old with
        metadata := skill.1
        pathSource := skill.2
        state := if old.state = .loaded then .loaded else .discovered }
    (if old.metadata ≠ skill.1 ∨ old.pathSource ≠ skill.2 then c.place skill.1.name updated
      else c).shardMove skill.1.name old.metadata.dcc skill.1.dcc

/-- The loaded skill whose metadata the scan changes. -/
def reloadName (c : SkillCatalog δ ε η) (skill : SkillMetadata δ × SkillPathSource) : List String :=
  match c.entries.lookup skill.1.name with
  | none => []
  | some old => if old.state = .loaded ∧ old.metadata ≠ skill.1 then [skill.1.name] else []

/-- The first loop of `rediscover`, with the names to load again. -/
def rediscoverScan (skills : List (SkillMetadata δ × SkillPathSource)) (c : SkillCatalog δ ε η) :
    SkillCatalog δ ε η × List String :=
  skills.foldl (fun acc skill => (rediscoverOne acc.1 skill, acc.2 ++ reloadName acc.1 skill))
    (c, [])

/-- The skills of the catalog that the scan did not find go. -/
def removeUnseen (skills : List (SkillMetadata δ × SkillPathSource)) (c : SkillCatalog δ ε η) :
    SkillCatalog δ ε η :=
  let unseen := (c.entries.entries.map Prod.fst).filter
    (fun name => name ∉ skills.map (fun skill => skill.1.name))
  unseen.foldl removeSkill c

/-- A changed skill is unloaded and loaded again. -/
def reloadChanged (host : Host δ ε η) (c : SkillCatalog δ ε η) (skillName : String) :
    SkillCatalog δ ε η :=
  match (c.unloadSkill skillName).2 with
  | none => c
  | some _ => (loadSkillWithOptions host (c.unloadSkill skillName).1 skillName true).1

/-- `rediscover`, given what the scan found if it did not fail. -/
def rediscover (host : Host δ ε η) (c : SkillCatalog δ ε η) :
    Option (List (SkillMetadata δ × SkillPathSource)) → SkillCatalog δ ε η
  | none => c
  | some skills =>
    let scanned := rediscoverScan skills c
    scanned.2.foldl (reloadChanged host) (removeUnseen skills scanned.1).refreshDependencyStates

end Rediscover

/-! ## The shared registry contract -/

/-- `Registry::register`. The entry comes with the state its maker gave it. -/
def register (c : SkillCatalog δ ε η) (entry : SkillEntry δ) : SkillCatalog δ ε η :=
  let key := entry.metadata.name
  let cleared : SkillCatalog δ ε η :=
    match c.entries.lookup key with
    | none => c
    | some old => c.shardRemove key old.metadata.dcc
  ((cleared.place key entry).shardInsert key entry.metadata.dcc).refreshDependencyStates

/-- `Registry::remove`. Nothing is unloaded. -/
def remove (c : SkillCatalog δ ε η) (key : String) : SkillCatalog δ ε η :=
  match c.entries.lookup key with
  | none => c
  | some entry =>
    let cleared := c.shardRemove key entry.metadata.dcc
    { cleared with entries := cleared.entries.erase key }.refreshDependencyStates

end SkillCatalog

/-! ## Calls -/

/-- A call that changes the catalog. -/
inductive Op (δ ε η : Type)
  | discover (skills : Option (List (SkillMetadata δ × SkillPathSource)))
  | discoverScoped (scans : List (SkillScope × Option (List (SkillMetadata δ))))
  | rediscover (host : Host δ ε η) (skills : Option (List (SkillMetadata δ × SkillPathSource)))
  | addSkill (metadata : SkillMetadata δ)
  | loadSkill (host : Host δ ε η) (skillName : String) (activateGroups : Bool)
  | loadSkillTargetGroup (host : Host δ ε η) (skillName group : String)
  | loadSkillObject (host : Host δ ε η) (metadata : SkillMetadata δ)
  | unloadSkill (skillName : String)
  | removeSkill (skillName : String)
  | clear
  | register (entry : SkillEntry δ)
  | remove (key : String)
  | activateGroup (group : String)
  | deactivateGroup (group : String)
  | activateSkillGroup (skillName group : String)
  | deactivateSkillGroup (skillName group : String)

namespace SkillCatalog

/-- The catalog after a call. -/
def apply [DecidableEq δ] (c : SkillCatalog δ ε η) : Op δ ε η → SkillCatalog δ ε η
  | .discover skills => c.discover skills
  | .discoverScoped scans => c.discoverScoped scans
  | .rediscover host skills => c.rediscover host skills
  | .addSkill metadata => c.addSkill metadata
  | .loadSkill host skillName activateGroups =>
    (loadSkillWithOptions host c skillName activateGroups).1
  | .loadSkillTargetGroup host skillName group => (loadSkillTargetGroup host c skillName group).1
  | .loadSkillObject host metadata => (loadSkillObject host c metadata).1
  | .unloadSkill skillName => (c.unloadSkill skillName).1
  | .removeSkill skillName => c.removeSkill skillName
  | .clear => c.clear
  | .register entry => c.register entry
  | .remove key => c.remove key
  | .activateGroup group => c.activateGroup group
  | .deactivateGroup group => c.deactivateGroup group
  | .activateSkillGroup skillName group => c.activateSkillGroup skillName group
  | .deactivateSkillGroup skillName group => c.deactivateSkillGroup skillName group

/-- A call is always enabled. -/
def step [DecidableEq δ] (c : SkillCatalog δ ε η) (op : Op δ ε η) : Option (SkillCatalog δ ε η) :=
  some (c.apply op)

end SkillCatalog

end Catalog

end DccMcp
