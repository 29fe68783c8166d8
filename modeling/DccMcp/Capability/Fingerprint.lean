import DccMcp.Capability.Index
import DccMcp.Lib.Delimited

/-!
# Fingerprints

What the gateway hashes of an instance's records. Fields are fed to the hasher
one after the other, each in the way the standard library hashes its type: a
text as its bytes and `0xff`, an option as a tag of eight bytes and its value,
a flag as one byte. Lists are fed item by item, without their length, and of a
group only the name and the two flags are fed.

Each of these codes delimits itself, so two records that are fed the same bytes
agree in everything that is fed, as long as their lists have the same lengths.
`Shape` is what has to be known besides the bytes.

The hasher sees nothing but the bytes, so it is a function of them.

## Main definitions

* `feedRecord`, `feed`: The bytes fed to the hasher.
* `computeFingerprint`: The fingerprint.
* `Shape`, `shapeOf`: What the bytes leave open.
* `SameFed`: What they say.

## Theorems

* `feedRecord_inj`: What follows from the same bytes and the same shape.
* `feed_inj`: The same for lists of records.
-/

namespace DccMcp

namespace Capability

open Delimited

/-- The hash of the annotations, field by field. -/
def feedAnnotations (annotations : CapabilityAnnotations) : Bytes :=
  encodeOption encodeText annotations.title ++
    (encodeOption encodeBool annotations.readOnlyHint ++
      (encodeOption encodeBool annotations.destructiveHint ++
        (encodeOption encodeBool annotations.idempotentHint ++
          encodeOption encodeBool annotations.openWorldHint)))

/-- The hash of the metadata, field by field. -/
def feedMetadata (metadata : CapabilityMetadata) : Bytes :=
  encodeOption encodeText metadata.affinity ++
    (encodeOption encodeText metadata.execution ++
      (encodeOption encodeU32 metadata.timeoutHintSecs ++
        (encodeOption encodeText metadata.jobStrategy ++
          (encodeOption encodeBool metadata.enforceThreadAffinity ++
            (encodeOption encodeText metadata.risk ++
              encodeOption encodeText metadata.toolRole)))))

/-- What is hashed of a group. -/
structure FedGroup where
  name : String
  defaultActive : Bool
  active : Option Bool

def fedGroup (group : CapabilityGroupInfo) : FedGroup :=
  ⟨group.name, group.defaultActive, group.active⟩

/-- The body of the loop over the groups. -/
def feedGroup (group : FedGroup) : Bytes :=
  encodeText group.name ++ (encodeBool group.defaultActive ++ encodeOption encodeBool group.active)

/-- The body of the loop over the records. -/
def feedRecord (r : CapabilityRecord) : Bytes :=
  encodeText r.toolSlug ++ (encodeOption encodeText r.skillName ++ (encodeBool r.hasSchema ++
    (encodeText r.summary ++ (encodeBool r.loaded ++ (encodeOption encodeText r.toolGroup ++
      (encodeOption feedAnnotations r.annotations ++ (encodeOption feedMetadata r.metadata ++
        ((r.availableGroups.map fedGroup).flatMap feedGroup ++ (r.tags.flatMap encodeText ++
          (r.searchTokens.flatMap encodeText ++ (encodeOption encodeText r.rankLayer ++
            encodeOption encodeText r.rankPathSource)))))))))))

/-- The bytes fed to the hasher. -/
def feed (records : List CapabilityRecord) : Bytes := records.flatMap feedRecord

/-- `compute_fingerprint`, with the hasher as a function of what it is fed. -/
def computeFingerprint (finish : Bytes → UInt64) (records : List CapabilityRecord) :
    InstanceFingerprint := ⟨finish (feed records)⟩

theorem selfDelimiting_annotations : SelfDelimiting feedAnnotations := by
  intro a b rest rest' h
  simp only [feedAnnotations, List.append_assoc] at h
  -- The fields are read off the bytes one after the other.
  rcases SelfDelimiting.text.option _ _ _ _ _ h with ⟨htitle, h⟩
  rcases SelfDelimiting.bool.option _ _ _ _ _ h with ⟨hreadOnly, h⟩
  rcases SelfDelimiting.bool.option _ _ _ _ _ h with ⟨hdestructive, h⟩
  rcases SelfDelimiting.bool.option _ _ _ _ _ h with ⟨hidempotent, h⟩
  rcases SelfDelimiting.bool.option _ _ _ _ _ h with ⟨hopenWorld, hrest⟩
  cases a
  cases b
  exact ⟨CapabilityAnnotations.mk.injEq .. ▸
    ⟨htitle, hreadOnly, hdestructive, hidempotent, hopenWorld⟩, hrest⟩

theorem selfDelimiting_metadata : SelfDelimiting feedMetadata := by
  intro a b rest rest' h
  simp only [feedMetadata, List.append_assoc] at h
  rcases SelfDelimiting.text.option _ _ _ _ _ h with ⟨haffinity, h⟩
  rcases SelfDelimiting.text.option _ _ _ _ _ h with ⟨hexecution, h⟩
  rcases SelfDelimiting.u32.option _ _ _ _ _ h with ⟨htimeout, h⟩
  rcases SelfDelimiting.text.option _ _ _ _ _ h with ⟨hstrategy, h⟩
  rcases SelfDelimiting.bool.option _ _ _ _ _ h with ⟨henforce, h⟩
  rcases SelfDelimiting.text.option _ _ _ _ _ h with ⟨hrisk, h⟩
  rcases SelfDelimiting.text.option _ _ _ _ _ h with ⟨hrole, hrest⟩
  cases a
  cases b
  exact ⟨CapabilityMetadata.mk.injEq .. ▸
    ⟨haffinity, hexecution, htimeout, hstrategy, henforce, hrisk, hrole⟩, hrest⟩

theorem selfDelimiting_group : SelfDelimiting feedGroup := by
  intro a b rest rest' h
  simp only [feedGroup, List.append_assoc] at h
  rcases SelfDelimiting.text _ _ _ _ h with ⟨hname, h⟩
  rcases SelfDelimiting.bool _ _ _ _ h with ⟨hdefault, h⟩
  rcases SelfDelimiting.bool.option _ _ _ _ _ h with ⟨hactive, hrest⟩
  cases a
  cases b
  exact ⟨FedGroup.mk.injEq .. ▸ ⟨hname, hdefault, hactive⟩, hrest⟩

/-- What the bytes leave open: the texts and tools of the groups, and how many
    tags and tokens there are. -/
structure Shape where
  groups : List (String × List String)
  tags : Nat
  searchTokens : Nat
  deriving DecidableEq

def shapeOf (r : CapabilityRecord) : Shape where
  groups := r.availableGroups.map (fun group => (group.description, group.tools))
  tags := r.tags.length
  searchTokens := r.searchTokens.length

/-- The fields that are fed, with the groups as a whole. -/
structure SameFed (r r' : CapabilityRecord) : Prop where
  toolSlug : r.toolSlug = r'.toolSlug
  skillName : r.skillName = r'.skillName
  hasSchema : r.hasSchema = r'.hasSchema
  summary : r.summary = r'.summary
  loaded : r.loaded = r'.loaded
  toolGroup : r.toolGroup = r'.toolGroup
  annotations : r.annotations = r'.annotations
  metadata : r.metadata = r'.metadata
  availableGroups : r.availableGroups = r'.availableGroups
  tags : r.tags = r'.tags
  searchTokens : r.searchTokens = r'.searchTokens
  rankLayer : r.rankLayer = r'.rankLayer
  rankPathSource : r.rankPathSource = r'.rankPathSource

/-- Groups agree if what is fed of them does and what is not. -/
theorem groups_ext (groups groups' : List CapabilityGroupInfo)
    (hfed : groups.map fedGroup = groups'.map fedGroup)
    (hshape : groups.map (fun group => (group.description, group.tools)) =
      groups'.map (fun group => (group.description, group.tools))) : groups = groups' := by
  induction groups generalizing groups' with
  | nil => exact (List.map_eq_nil_iff.mp hfed.symm).symm
  | cons group rest ih =>
      rcases groups' with _ | ⟨group', rest'⟩
      · cases hfed
      · rw [List.map_cons, List.map_cons, List.cons.injEq] at hfed hshape
        -- Name and flags come from the bytes, the rest from the shape.
        rw [ih rest' hfed.2 hshape.2]
        cases group
        cases group'
        simp only [fedGroup, FedGroup.mk.injEq] at hfed
        simp only [Prod.mk.injEq] at hshape
        rw [hfed.1.1, hfed.1.2.1, hfed.1.2.2, hshape.1.1, hshape.1.2]

/-- Records of one shape that are fed the same bytes agree in what is fed. -/
theorem feedRecord_inj (r r' : CapabilityRecord) (hshape : shapeOf r = shapeOf r')
    (rest rest' : Bytes) (h : feedRecord r ++ rest = feedRecord r' ++ rest') :
    SameFed r r' ∧ rest = rest' := by
  simp only [shapeOf, Shape.mk.injEq] at hshape
  -- The groups are fed without their number, which the shape supplies.
  have hgroups : (r.availableGroups.map fedGroup).length
      = (r'.availableGroups.map fedGroup).length := by
    have hlen := congrArg List.length hshape.1
    rwa [List.length_map, List.length_map] at hlen ⊢
  simp only [feedRecord, List.append_assoc] at h
  -- The fields in the order in which they are fed. Lists have no length in
  -- front of them, so their lengths come from the shape.
  rcases SelfDelimiting.text _ _ _ _ h with ⟨hslug, h⟩
  rcases SelfDelimiting.text.option _ _ _ _ _ h with ⟨hskill, h⟩
  rcases SelfDelimiting.bool _ _ _ _ h with ⟨hschema, h⟩
  rcases SelfDelimiting.text _ _ _ _ h with ⟨hsummary, h⟩
  rcases SelfDelimiting.bool _ _ _ _ h with ⟨hloaded, h⟩
  rcases SelfDelimiting.text.option _ _ _ _ _ h with ⟨hgroup, h⟩
  rcases selfDelimiting_annotations.option _ _ _ _ _ h with ⟨hannotations, h⟩
  rcases selfDelimiting_metadata.option _ _ _ _ _ h with ⟨hmetadata, h⟩
  rcases selfDelimiting_group.list _ _ _ hgroups _ _ h with ⟨hfed, h⟩
  rcases SelfDelimiting.text.list _ _ _ hshape.2.1 _ _ h with ⟨htags, h⟩
  rcases SelfDelimiting.text.list _ _ _ hshape.2.2 _ _ h with ⟨htokens, h⟩
  rcases SelfDelimiting.text.option _ _ _ _ _ h with ⟨hlayer, h⟩
  rcases SelfDelimiting.text.option _ _ _ _ _ h with ⟨hsource, h⟩
  exact ⟨⟨hslug, hskill, hschema, hsummary, hloaded, hgroup, hannotations, hmetadata,
    groups_ext _ _ hfed hshape.1, htags, htokens, hlayer, hsource⟩, h⟩

/-- Lists of records of the same shapes that are fed the same bytes agree in
    what is fed. -/
theorem feed_inj (records records' : List CapabilityRecord)
    (hshape : records.map shapeOf = records'.map shapeOf) (h : feed records = feed records') :
    List.Forall₂ SameFed records records' := by
  induction records generalizing records' with
  | nil =>
      rw [List.map_eq_nil_iff.mp hshape.symm]
      exact .nil
  | cons r rest ih =>
      rcases records' with _ | ⟨r', rest'⟩
      · cases hshape
      · rw [List.map_cons, List.map_cons, List.cons.injEq] at hshape
        rcases feedRecord_inj r r' hshape.1 _ _ h with ⟨hsame, hrest⟩
        exact .cons hsame (ih rest' hshape.2 hrest)

end Capability

end DccMcp
