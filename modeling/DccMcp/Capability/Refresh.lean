import DccMcp.Capability.Builder

/-!
# Refreshing an Instance

Two things the gateway relies on when it refreshes what it knows of an
instance.

It addresses records by their slugs, so the slugs of one refresh have to be
distinct and to be read back. The tools of the backend get that from the check
of the DCC; the hints of unloaded skills are not checked, and neither builder
looks for a name that occurs twice. `slugs_work_iff` says exactly when slugs
work.

It skips a refresh whose fingerprint is the one it has. What the fingerprint
does not see is the text and the tools of a group, and where one list of texts
ends and the next begins. `skip_sound_iff` says that these are the only things
that can get lost.

## Main definitions

* `SlugsWork`: Slugs are read back and distinct.
* `Checked`: What the inputs have to satisfy for that.

## Theorems

* `slugs_work_iff`: When slugs work.
* `skip_sound_iff`: When a skipped refresh changes nothing.
-/

namespace DccMcp

namespace Capability

open Naming Text

/-! ## Slugs -/

/-- Every slug is read back into what it was made of, and no two records share
    one. -/
structure SlugsWork (parseStr : String → Option Uuid) (records : List CapabilityRecord) :
    Prop where
  split : ∀ r ∈ records,
    parseSlug parseStr r.toolSlug = some (r.dccType, instanceShortText r.instanceId, r.callableId)
  distinct : (records.map CapabilityRecord.toolSlug).Nodup

/-- A hint has a name only for a DCC that can start a slug, and the names that
    get a record are distinct. -/
structure Checked (dccType : String) (backendTools : List McpTool)
    (unloadedHints : List UnloadedCapabilityHint) : Prop where
  hinted : ∀ hint ∈ unloadedHints, hint.toolName ≠ "" → dccType ≠ "" ∧ '.' ∉ dccType.toList
  names : (keptNames dccType backendTools unloadedHints).Nodup

theorem SlugsWork.perm (parseStr : String → Option Uuid) (records records' : List CapabilityRecord)
    (hperm : records.Perm records') (h : SlugsWork parseStr records) :
    SlugsWork parseStr records' where
  split r hr := h.split r (hperm.mem_iff.mpr hr)
  distinct := (hperm.map _).nodup h.distinct

theorem isValidDccBucket_spec (dccType : String) (h : isValidDccBucket dccType = true) :
    dccType ≠ "" ∧ '.' ∉ dccType.toList := by
  simp only [isValidDccBucket, Bool.and_eq_true, Bool.not_eq_true', List.contains_eq_mem,
    decide_eq_false_iff_not] at h
  refine ⟨fun hempty => ?_, h.2⟩
  rw [hempty] at h
  exact absurd h.1.1 (by decide)

/-- The name of a tool that gets a record is not empty. -/
theorem name_ne_of_kept (backendTools : List McpTool) (tool : McpTool)
    (h : tool ∈ keptTools backendTools) : tool.name ≠ "" := by
  intro hempty
  have hskip := (List.mem_filter.mp h).2
  rw [hempty] at hskip
  exact absurd hskip (by decide)

section Refresh

variable (lib : Library) (parseStr : String → Option Uuid) (instanceId : Uuid) (dccType : String)
  (backendTools : List McpTool) (unloadedHints : List UnloadedCapabilityHint)

theorem mem_keptHints (hint : UnloadedCapabilityHint) :
    hint ∈ keptHints unloadedHints ↔ hint ∈ unloadedHints ∧ hint.toolName ≠ "" := by
  rw [keptHints, List.mem_filter, Bool.not_eq_true', String.isEmpty_eq_false_iff]

/-- The slug of a name that was kept is read back. -/
theorem split_of_checked (h : Checked dccType backendTools unloadedHints) (name : String)
    (hname : name ∈ keptNames dccType backendTools unloadedHints) :
    parseSlug parseStr (toolSlug dccType instanceId name) =
      some (dccType, instanceShortText instanceId, name) := by
  -- The builder has checked the DCC for the tools, and nobody for the hints.
  rcases List.mem_append.mp hname with hname | hname
  · split at hname
    next hvalid =>
      rcases List.mem_map.mp hname with ⟨tool, htool, rfl⟩
      rcases isValidDccBucket_spec dccType hvalid with ⟨hdcc, hdot⟩
      exact parseSlug_toolSlug parseStr dccType instanceId tool.name hdcc hdot
        (name_ne_of_kept backendTools tool htool)
    next => exact absurd hname List.not_mem_nil
  · rcases List.mem_map.mp hname with ⟨hint, hhint, rfl⟩
    rcases (mem_keptHints unloadedHints hint).mp hhint with ⟨hmem, hne⟩
    rcases h.hinted hint hmem hne with ⟨hdcc, hdot⟩
    exact parseSlug_toolSlug parseStr dccType instanceId hint.toolName hdcc hdot hne

theorem slugsWork_of_checked (h : Checked dccType backendTools unloadedHints) :
    SlugsWork parseStr (unsortedRecords lib instanceId dccType backendTools unloadedHints) where
  split r hr := by
    rcases mem_unsortedRecords lib instanceId dccType backendTools unloadedHints r hr with
      ⟨name, hname, hid⟩
    rw [hid.toolSlug, hid.dccType, hid.instanceId, hid.callableId]
    exact split_of_checked parseStr instanceId dccType backendTools unloadedHints h name hname
  distinct := by
    rw [slugs_unsortedRecords]
    exact h.names.map (toolSlug_inj dccType instanceId)

/-- Without the hints there is less to check. -/
theorem Checked.tools (h : Checked dccType backendTools unloadedHints) :
    Checked dccType backendTools [] where
  hinted hint hhint := absurd hhint List.not_mem_nil
  names := by
    have hnames := (List.nodup_append.mp h.names).1
    rw [keptNames]
    exact (List.append_nil _).symm ▸ hnames

theorem checked_of_slugsWork
    (h : SlugsWork parseStr (unsortedRecords lib instanceId dccType backendTools unloadedHints)) :
    Checked dccType backendTools unloadedHints where
  hinted hint hhint hne := by
    -- A slug that is read back shows that the DCC can start one.
    have hmem : recordOfHint instanceId dccType hint ∈
        unsortedRecords lib instanceId dccType backendTools unloadedHints :=
      List.mem_append_right _ (List.mem_map.mpr
        ⟨hint, (mem_keptHints unloadedHints hint).mpr ⟨hhint, hne⟩, rfl⟩)
    exact parseSlug_eq_some parseStr _ _ _ _ (h.split _ hmem)
  names := by
    have hdistinct := h.distinct
    rw [slugs_unsortedRecords] at hdistinct
    exact List.Nodup.of_map _ hdistinct

/-- The slugs of both builders are read back and distinct exactly when a hint
    has a name only for a DCC that can start a slug, and no name that gets a
    record occurs twice. -/
theorem slugs_work_iff :
    (SlugsWork parseStr (buildRecordsFromBackend lib instanceId dccType backendTools).records ∧
      SlugsWork parseStr
        (refreshRecords lib instanceId dccType backendTools unloadedHints).records) ↔
      Checked dccType backendTools unloadedHints := by
  -- Sorting does not matter for either property.
  have htools := buildRecordsFromBackend_perm lib instanceId dccType backendTools
  have hrefresh := refreshRecords_perm lib instanceId dccType backendTools unloadedHints
  constructor
  · rintro ⟨_, h⟩
    exact checked_of_slugsWork lib parseStr instanceId dccType backendTools unloadedHints
      (h.perm parseStr _ _ hrefresh)
  · intro h
    have hfewer := h.tools dccType backendTools unloadedHints
    exact ⟨(slugsWork_of_checked lib parseStr instanceId dccType backendTools [] hfewer).perm
        parseStr _ _ htools.symm,
      (slugsWork_of_checked lib parseStr instanceId dccType backendTools unloadedHints h).perm
        parseStr _ _ hrefresh.symm⟩

end Refresh

/-- A hint of a tool without anything else. -/
def plainHint (toolName : String) (availableGroups : List CapabilityGroupInfo) :
    UnloadedCapabilityHint where
  skillName := "maya-primitives"
  toolName
  summary := "Create a sphere"
  searchTokens := []
  rankLayer := none
  rankPathSource := none
  availableGroups
  toolGroup := none

/-- A library of which only the hasher is used. -/
def plainLibrary : Library where
  finish bytes := UInt64.ofNat bytes.length
  isAlphanumeric := Char.isAlphanum
  groupsFromValue _ := none

/-- An instance without a DCC is refused by the builder, and its hints are
    indexed all the same, under slugs that are not read back. -/
theorem slugs_break_without_dcc :
    ¬ (SlugsWork (fun _ => none) (buildRecordsFromBackend plainLibrary ⟨1⟩ "" []).records ∧
      SlugsWork (fun _ => none)
        (refreshRecords plainLibrary ⟨1⟩ "" [] [plainHint "create_sphere" []]).records) := by
  rintro ⟨_, hrefresh⟩
  have hmem := recordOfHint_mem plainLibrary ⟨1⟩ "" [] [plainHint "create_sphere" []]
    (plainHint "create_sphere" [])
    ((mem_keptHints _ _).mpr ⟨List.mem_singleton.mpr rfl, by decide⟩)
  have hsplit := hrefresh.split _ hmem
  exact absurd hsplit (by decide +kernel)

/-! ## Skipped refreshes -/

/-- Records of one instance and one DCC that agree in what is fed are equal:
    the slug gives the name, and the name gives the rest. -/
theorem eq_of_sameFed (instanceId : Uuid) (dccType name name' : String) (r r' : CapabilityRecord)
    (h : SameFed r r') (hid : Identified instanceId dccType name r)
    (hid' : Identified instanceId dccType name' r') : r = r' := by
  -- The slug names the DCC and the instance, which are the same.
  have hname : name = name' := by
    refine toolSlug_inj dccType instanceId name name' ?_
    rw [← hid.toolSlug, ← hid'.toolSlug, h.toolSlug]
  -- Fields that are not fed follow from the name.
  have hbackend : r.backendTool = r'.backendTool := by
    rw [hid.backendTool, hid'.backendTool, hname]
  have hcallable : r.callableId = r'.callableId := by
    rw [hid.callableId, hid'.callableId, hname]
  have hdcc : r.dccType = r'.dccType := hid.dccType.trans hid'.dccType.symm
  have hinstance : r.instanceId = r'.instanceId := hid.instanceId.trans hid'.instanceId.symm
  have hdiscovery : r.discoveryOnly = r'.discoveryOnly := by
    rw [hid.discoveryOnly, hid'.discoveryOnly, hname, h.loaded]
  rcases h with ⟨hslug, hskill, hschema, hsummary, hloaded, hgroup, hannotations, hmetadata, hgroups,
    htags, htokens, hlayer, hsource⟩
  cases r
  cases r'
  rw [CapabilityRecord.mk.injEq]
  exact ⟨hslug, hbackend, hcallable, hskill, hsummary, htags, htokens, hlayer, hsource, hdcc,
    hinstance, hschema, hloaded, hannotations, hmetadata, hgroups, hgroup, hdiscovery⟩

theorem records_eq_of_sameFed (instanceId : Uuid) (dccType : String)
    (records records' : List CapabilityRecord)
    (hrecords : ∀ r ∈ records, ∃ name, Identified instanceId dccType name r)
    (hrecords' : ∀ r ∈ records', ∃ name, Identified instanceId dccType name r)
    (h : List.Forall₂ SameFed records records') : records = records' := by
  induction h with
  | nil => rfl
  | @cons r r' rest rest' hfirst _ ih =>
      rcases hrecords r List.mem_cons_self with ⟨name, hid⟩
      rcases hrecords' r' List.mem_cons_self with ⟨name', hid'⟩
      rw [eq_of_sameFed instanceId dccType name name' r r' hfirst hid hid',
        ih (fun x hx => hrecords x (List.mem_cons_of_mem r hx))
          (fun x hx => hrecords' x (List.mem_cons_of_mem r' hx))]

theorem refreshRecords_identified (lib : Library) (instanceId : Uuid) (dccType : String)
    (backendTools : List McpTool) (unloadedHints : List UnloadedCapabilityHint)
    (r : CapabilityRecord)
    (hr : r ∈ (refreshRecords lib instanceId dccType backendTools unloadedHints).records) :
    ∃ name, Identified instanceId dccType name r := by
  rcases mem_unsortedRecords lib instanceId dccType backendTools unloadedHints r
    ((refreshRecords_perm ..).mem_iff.mp hr) with ⟨name, _, hid⟩
  exact ⟨name, hid⟩

/-- What a skipped refresh would have written, had it not been skipped, is what
    is there. -/
def SkipSound (st : CapabilityIndexState) (instanceId : Uuid) (old new : RefreshBuildOutcome) :
    Prop :=
  new.records = old.records ∧
    st.upsertInstance instanceId new.records new.fingerprint = (st, some new.fingerprint, false)

/-- Two refreshes of one instance, the first of which is in the index. If the
    hasher does not confuse the bytes of the two and the second is skipped
    because of its fingerprint, then skipping it changes nothing exactly when
    both are for one DCC and the records have the same shapes. -/
theorem skip_sound_iff (lib : Library) (ops : List Operation) (instanceId : Uuid)
    (dccType dccType' : String) (backendTools backendTools' : List McpTool)
    (unloadedHints unloadedHints' : List UnloadedCapabilityHint)
    (old new : RefreshBuildOutcome)
    (hold : old = refreshRecords lib instanceId dccType backendTools unloadedHints)
    (hnew : new = refreshRecords lib instanceId dccType' backendTools' unloadedHints')
    (hstored : (run ops).perInstance.lookup instanceId = some ⟨old.records, old.fingerprint⟩)
    (hcollision : lib.finish (feed new.records) = lib.finish (feed old.records) →
      feed new.records = feed old.records)
    (hskip : new.isUnchanged ((run ops).fingerprintFor instanceId) = true) :
    SkipSound (run ops) instanceId old new ↔
      dccType' = dccType ∧ new.records.map shapeOf = old.records.map shapeOf := by
  -- What the skipped refresh says: there are records, and the hash is the same.
  simp only [RefreshBuildOutcome.isUnchanged, CapabilityIndexState.fingerprintFor, hstored,
    Option.map_some, Bool.and_eq_true, Bool.not_eq_true', List.isEmpty_eq_false_iff,
    beq_iff_eq, Option.some.injEq] at hskip
  have hfeed : feed new.records = feed old.records := by
    refine hcollision ?_
    have hvalue := congrArg InstanceFingerprint.value hskip.2
    rw [hold, hnew] at hvalue
    rw [hold, hnew]
    exact hvalue.symm
  constructor
  · rintro ⟨hrecords, _⟩
    refine ⟨?_, congrArg _ hrecords⟩
    -- A record that both have names the DCC of both.
    rcases List.exists_mem_of_ne_nil _ hskip.1 with ⟨r, hr⟩
    rcases refreshRecords_identified lib instanceId dccType' backendTools' unloadedHints' r
      (hnew ▸ hr) with ⟨_, hid'⟩
    rcases refreshRecords_identified lib instanceId dccType backendTools unloadedHints r
      (hold ▸ hrecords ▸ hr) with ⟨_, hid⟩
    exact hid'.dccType.symm.trans hid.dccType
  · rintro ⟨hdcc, hshape⟩
    -- What is fed agrees by the bytes, and what is not by the shapes and names.
    have hrecords : new.records = old.records := by
      refine records_eq_of_sameFed instanceId dccType new.records old.records (fun r hr => ?_)
        (fun r hr => ?_) (feed_inj _ _ hshape hfeed)
      · exact refreshRecords_identified lib instanceId dccType backendTools' unloadedHints' r
          (hdcc ▸ hnew ▸ hr)
      · exact refreshRecords_identified lib instanceId dccType backendTools unloadedHints r
          (hold ▸ hr)
    refine ⟨hrecords, ?_⟩
    -- The upsert would find the slice it was about to store.
    have hcurrent : (run ops).perInstance.lookup instanceId
        = some ⟨new.records, new.fingerprint⟩ := by
      rw [hstored, hrecords, hskip.2]
    unfold CapabilityIndexState.upsertInstance
    rw [if_neg (by rw [List.isEmpty_iff]; exact hskip.1), if_pos hcurrent,
      withoutTombstone_eq_self (run ops) instanceId (indexInv_run ops) _ hcurrent]

/-- The refresh of an instance that has one hint. -/
theorem refreshRecords_hint (lib : Library) (instanceId : Uuid) (dccType : String)
    (hint : UnloadedCapabilityHint) (h : hint.toolName ≠ "") :
    (refreshRecords lib instanceId dccType [] [hint]).records
      = [recordOfHint instanceId dccType hint] := by
  have hperm := refreshRecords_perm lib instanceId dccType [] [hint]
  have hkept : keptHints [hint] = [hint] :=
    List.filter_eq_self.mpr (fun other hother => by
      rw [List.mem_singleton.mp hother, Bool.not_eq_true', String.isEmpty_eq_false_iff]
      exact h)
  have htools : keptTools [] = [] := rfl
  rw [unsortedRecords, buildUnloadedRecords, hkept, htools, List.map_nil, ite_self] at hperm
  exact List.perm_singleton.mp hperm

/-- The index after a first refresh. -/
theorem run_upsertInstance (instanceId : Uuid) (records : List CapabilityRecord)
    (fingerprint : InstanceFingerprint) (h : records ≠ []) :
    (run [.upsertInstance instanceId records fingerprint]).perInstance.lookup instanceId
      = some ⟨records, fingerprint⟩ := by
  have hrun : run [.upsertInstance instanceId records fingerprint] =
      (CapabilityIndexState.default.upsertInstance instanceId records fingerprint).1 := rfl
  have hcurrent : CapabilityIndexState.default.perInstance.lookup instanceId
      ≠ some ⟨records, fingerprint⟩ := fun heq => by cases heq
  rw [hrun]
  unfold CapabilityIndexState.upsertInstance
  rw [if_neg (by rw [List.isEmpty_iff]; exact h), if_neg hcurrent]
  exact OrderedMap.lookup_insert ..

/-- A refresh that finds what is there is skipped, and nothing is lost. -/
theorem skip_sound_iff_same :
    let refresh := refreshRecords plainLibrary ⟨1⟩ "maya" [] [plainHint "create_sphere" []]
    SkipSound (run [.upsertInstance ⟨1⟩ refresh.records refresh.fingerprint]) ⟨1⟩ refresh refresh := by
  intro refresh
  have hne : refresh.records ≠ [] := by
    rw [refreshRecords_hint _ _ _ _ (by decide)]
    exact List.cons_ne_nil _ _
  have hstored := run_upsertInstance ⟨1⟩ refresh.records refresh.fingerprint hne
  -- The fingerprint that is stored is the one that is computed again.
  have hskip : refresh.isUnchanged ((run [.upsertInstance ⟨1⟩ refresh.records
      refresh.fingerprint]).fingerprintFor ⟨1⟩) = true := by
    rw [CapabilityIndexState.fingerprintFor, hstored, RefreshBuildOutcome.isUnchanged,
      List.isEmpty_eq_false_iff.mpr hne]
    exact beq_self_eq_true _
  exact (skip_sound_iff plainLibrary _ ⟨1⟩ "maya" "maya" [] [] [plainHint "create_sphere" []]
    [plainHint "create_sphere" []] refresh refresh rfl rfl hstored (fun _ => rfl) hskip).mpr
    ⟨rfl, rfl⟩

/-- A group of tools with a text. -/
def sculptGroup (description : String) : CapabilityGroupInfo :=
  ⟨"sculpt", description, ["create_sphere"], true, none⟩

/-- The text of a group changes. The bytes fed to the hasher are the same, so
    the refresh is skipped, and the index keeps the old text. -/
theorem skip_loses_description :
    let old := refreshRecords plainLibrary ⟨1⟩ "maya" []
      [plainHint "create_sphere" [sculptGroup "Sculpting"]]
    let new := refreshRecords plainLibrary ⟨1⟩ "maya" []
      [plainHint "create_sphere" [sculptGroup "Sculpting and painting"]]
    let st := run [.upsertInstance ⟨1⟩ old.records old.fingerprint]
    feed new.records = feed old.records ∧
      new.isUnchanged (st.fingerprintFor ⟨1⟩) = true ∧ new.records ≠ old.records := by
  intro old new st
  have hold : old.records = [recordOfHint ⟨1⟩ "maya"
      (plainHint "create_sphere" [sculptGroup "Sculpting"])] :=
    refreshRecords_hint _ _ _ _ (by decide)
  have hnew : new.records = [recordOfHint ⟨1⟩ "maya"
      (plainHint "create_sphere" [sculptGroup "Sculpting and painting"])] :=
    refreshRecords_hint _ _ _ _ (by decide)
  have hfeed : feed new.records = feed old.records := by
    rw [hold, hnew]
    decide +kernel
  refine ⟨hfeed, ?_, ?_⟩
  · have hfingerprint : new.fingerprint = old.fingerprint :=
      congrArg (fun bytes => InstanceFingerprint.mk (plainLibrary.finish bytes)) hfeed
    have hstored : st.perInstance.lookup ⟨1⟩ = some ⟨old.records, old.fingerprint⟩ :=
      run_upsertInstance ⟨1⟩ old.records old.fingerprint
        (by rw [hold]; exact List.cons_ne_nil _ _)
    rw [CapabilityIndexState.fingerprintFor, hstored, RefreshBuildOutcome.isUnchanged, hnew,
      hfingerprint]
    exact beq_self_eq_true _
  · rw [hold, hnew]
    decide +kernel

end Capability

end DccMcp
