import DccMcp.Lib.Masking
import DccMcp.Lib.Text

/-!
# Traffic Redaction

What the gateway takes out of a frame before it captures the frame.

Four passes follow each other: the sensitive fields in the body of a request, the
data of inline images, the paths that are configured, and the attribution of the
caller wherever it stands. Each decides by the names in the frame. The first pass
needs the frame to say that it is a request, the second that an object is an image,
and a configured path that its objects are there. None of this is itself among
what is taken out, except below a member that the last pass takes out as a whole.

## Main definitions

* `redactSensitiveFields`, `redactInlineImagePayloads`, `replacePath`,
  `redactDefaultAttributionFields`: The passes.
* `redact`: What is captured, and the paths that are reported.
* `Differ`: Two frames that differ in sensitive values only.

## Theorems

* `redact_noninterference`: Such frames are the same once they are redacted.
* `redact_idem`: A redacted frame stays as it is.
-/

namespace DccMcp

namespace Gateway

namespace Redaction

open Json Text

/-! ## Sensitive names -/

/-- `char::to_lowercase`, as far as the names below can tell: of the letters that are not
    ASCII, only two become an ASCII letter, or begin with one. -/
def toLowercase (ch : Char) : List Char :=
  if ch = '\u212a' then ['k']
  else if ch = '\u0130' then ['i', '\u0307']
  else [ch.toLower]

def normalised (key : String) : String :=
  .ofList ((key.toList.filter (fun ch => ch ≠ '_' && ch ≠ '-' && ch ≠ ' ')).flatMap toLowercase)

def isHighSensitivityAgentKey (key : String) : Bool :=
  ["agentreply", "agentresponse", "apikey", "authsubject", "authorization", "bearertoken",
    "chainofthought", "email", "hiddencot", "messages", "password", "prompt", "prompts",
    "rawagentreply", "rawagentresponse", "rawprompt", "rawresponse", "rawuserinput", "reply",
    "response", "token", "userinput"].contains (normalised key) ||
    contains "secret" (normalised key) || contains "email" (normalised key) ||
    contains "apikey" (normalised key) || contains "token" (normalised key)

/-- The fields of a request that are sensitive. -/
def isSensitiveField (key : String) : Bool :=
  eqIgnoreAsciiCase key "text" || isHighSensitivityAgentKey key ||
    ["code", "content", "script", "python", "mel"].contains key

def isSensitiveAttributionKey (key : String) : Bool :=
  ["actorid", "actorname", "actoremail", "actoremailhash", "authsubject", "clienthost",
    "forwardedfor", "sourceip", "userinputhash", "agentreplyhash"].contains (normalised key)

/-! ## The passes -/

/-- Where a pass is: the frame, its body, what is under the data of its body, or elsewhere. -/
inductive Zone
  | frame
  | body
  | input
  | elsewhere
  deriving DecidableEq

def isImage (members : List (String × Value)) : Bool :=
  ["type", "kind"].any (fun key =>
    ((members.lookup key).bind Value.asStr).any (eqIgnoreAsciiCase · "image"))

def descent : Descent Zone Bool where
  member zone key :=
    match zone with
    | .frame => if key = "body" then .body else .elsewhere
    | .body => if key = "data" then .input else .elsewhere
    | .input => .input
    | .elsewhere => .elsewhere
  item zone :=
    match zone with
    | .input => .input
    | _ => .elsewhere
  sign := isImage

def sensitiveInput : Rule Zone Bool := fun zone _ key _ =>
  if zone = .input ∧ isSensitiveField key = true then some "[REDACTED_SENSITIVE_INPUT]" else none

def inlineImage : Rule Zone Bool := fun _ image key null =>
  if image && key == "data" && !null then some "<omitted; native image content>" else none

def attribution : Rule Zone Bool := fun _ _ key null =>
  if isSensitiveAttributionKey key && !null then some "[REDACTED_ATTRIBUTION]" else none

def redactSensitiveFields : Value → Value := mask descent sensitiveInput .input

/-- What a frame says it is, at `/mcp/kind`. -/
def isRequest (attributes : Value) : Bool :=
  ((attributes.get "mcp").bind (Value.get "kind")).bind Value.asStr == some "request"

def redactSensitiveRequestPayload (attributes : Value) : Value :=
  if isRequest attributes then
    attributes.modifyMember "body" (Value.modifyMember "data" redactSensitiveFields)
  else attributes

def redactInlineImagePayloads : Value → Value := mask descent inlineImage .frame

def redactDefaultAttributionFields : Value → Value := mask descent attribution .frame

structure RedactRule where
  path : List String
  displayPath : String
  replacement : String

/-- Whether `replace_path` finds what it replaces. -/
def hasPath : List String → Value → Bool
  | [], _ => false
  | [last], v => (v.get last).isSome
  | segment :: rest, v => (v.get segment).any (hasPath rest)

/-- `replace_path`. A path that is not there is not made. -/
def replacePath (replacement : String) : List String → Value → Value
  | [], v => v
  | [last], v => v.modifyMember last (fun _ => .string replacement)
  | segment :: rest, v => v.modifyMember segment (replacePath replacement rest)

/-! ## The paths -/

mutual

/-- The images whose data is left out. The data of an image is in front of what is in it. -/
def imagePaths (path : List String) : Value → List (List String)
  | .array items => imagePathsItems path 0 items
  | .object members =>
    (if isImage members && (members.lookup "data").any (fun data => !data.isNull) then
      [path ++ ["data"]] else []) ++ imagePathsMembers (isImage members) path members
  | _ => []

def imagePathsItems (path : List String) (idx : Nat) : List Value → List (List String)
  | [] => []
  | v :: rest => imagePaths (path ++ [toString idx]) v ++ imagePathsItems path (idx + 1) rest

def imagePathsMembers (image : Bool) (path : List String) :
    List (String × Value) → List (List String)
  | [] => []
  | (key, v) :: rest =>
    (if image && key == "data" then [] else imagePaths (path ++ [key]) v) ++
      imagePathsMembers image path rest

end

def join (path : List String) : String := ".".intercalate path

def inputPaths (attributes : Value) : List String :=
  if isRequest attributes then
    match (attributes.get "body").bind (Value.get "data") with
    | some data => (marked descent sensitiveInput .input ["body", "data"] data).map join
    | none => []
  else []

/-- The configured rules, one after the other, on what the rules before have left. -/
def applyRules : List RedactRule → Value → Value
  | [], v => v
  | rule :: rest, v => applyRules rest (replacePath rule.replacement rule.path v)

def rulePaths : List RedactRule → Value → List String
  | [], _ => []
  | rule :: rest, v =>
    (if hasPath rule.path v then [rule.displayPath] else []) ++
      rulePaths rest (replacePath rule.replacement rule.path v)

/-- `TrafficRedactor::redact`. A path is reported once. -/
def redact (rules : List RedactRule) (attributes : Value) : List String × Value :=
  let requested := redactSensitiveRequestPayload attributes
  let imaged := redactInlineImagePayloads requested
  let ruled := applyRules rules imaged
  ((inputPaths attributes ++ (imagePaths [] requested).map join ++ rulePaths rules imaged ++
      (marked descent attribution .frame [] ruled).map join).eraseDups,
    redactDefaultAttributionFields ruled)

/-! ## What is not sensitive -/

theorem isSensitiveField_type : isSensitiveField "type" = false := by decide

theorem isSensitiveField_kind : isSensitiveField "kind" = false := by decide

theorem isSensitiveAttributionKey_structural (key : String)
    (h : key ∈ ["type", "kind", "mcp", "body", "data"]) :
    isSensitiveAttributionKey key = false := by
  revert key
  decide

/-- The rule leaves the names by which an object is an image. -/
def Structural (f : Rule Zone Bool) : Prop :=
  ∀ zone image null, f zone image "type" null = none ∧ f zone image "kind" null = none

theorem isImage_eq (members members' : List (String × Value))
    (htype : (members.lookup "type").bind Value.asStr = (members'.lookup "type").bind Value.asStr)
    (hkind : (members.lookup "kind").bind Value.asStr = (members'.lookup "kind").bind Value.asStr) :
    isImage members = isImage members' := by
  unfold isImage
  rw [List.any_cons, List.any_cons, List.any_cons, List.any_cons, htype, hkind]
  rfl

theorem unseen_of_structural (f : Rule Zone Bool) (h : Structural f) : Unseen descent f := by
  have htext : ∀ zone (o : Option Value),
      (o.map (mask descent f zone)).bind Value.asStr = o.bind Value.asStr := by
    intro zone o
    cases o with
    | none => rfl
    | some v => exact asStr_mask descent f zone v
  intro zone image members
  refine isImage_eq _ _ ?_ ?_
  · rw [lookup_maskMembers descent f zone image "type" (fun null => (h zone image null).1), htext]
  · rw [lookup_maskMembers descent f zone image "kind" (fun null => (h zone image null).2), htext]

/-! ## The first pass as a walk -/

/-- The first pass is the walk of a rule that is for the data of the body of a request. -/
def requestInput (request : Bool) : Rule Zone Bool := fun zone image key null =>
  if request then sensitiveInput zone image key null else none

theorem mask_elsewhere (v : Value) : mask descent sensitiveInput .elsewhere v = v := by
  refine mask_eq_self descent sensitiveInput (· = .elsewhere) ?_ ?_ ?_ _ rfl v
  · intro zone key hzone
    rw [hzone]
    rfl
  · intro zone hzone
    rw [hzone]
    rfl
  · intro zone image key null hzone
    rw [hzone]
    rfl

/-- Below a name, what is masked is what is behind that name. -/
theorem mask_modifyMember (zone : Zone) (key : String) (below : Zone)
    (hmember : ∀ name, descent.member zone name = if name = key then below else .elsewhere)
    (hitem : descent.item zone = .elsewhere) (hzone : zone ≠ .input) (v : Value) :
    mask descent sensitiveInput zone v =
      v.modifyMember key (mask descent sensitiveInput below) := by
  cases v with
  | array items =>
      show Value.array (maskItems descent sensitiveInput (descent.item zone) items) = .array items
      rw [hitem]
      have h := mask_elsewhere (.array items)
      exact h
  | object members =>
      refine congrArg Value.object ?_
      generalize descent.sign members = image
      induction members with
      | nil => rfl
      | cons entry rest ih =>
          rcases entry with ⟨name, v⟩
          unfold maskMembers
          have hnone : sensitiveInput zone image name v.isNull = none :=
            if_neg (fun h => hzone h.1)
          rw [hnone, ih, hmember, List.map_cons]
          dsimp only
          split
          next => rfl
          next => rw [mask_elsewhere]
  | null | bool _ | number _ | string _ => rfl

theorem redactSensitiveRequestPayload_eq (v : Value) :
    redactSensitiveRequestPayload v = mask descent (requestInput (isRequest v)) .frame v := by
  unfold redactSensitiveRequestPayload
  cases isRequest v with
  | true =>
      rw [if_pos rfl, show requestInput true = sensitiveInput from rfl,
        mask_modifyMember .frame "body" .body (fun _ => rfl) rfl (by decide)]
      congr 1
      funext body
      exact (mask_modifyMember .body "data" .input (fun _ => rfl) rfl (by decide) body).symm
  | false =>
      rw [if_neg Bool.false_ne_true]
      exact (mask_eq_self descent (requestInput false) (fun _ => True) (fun _ _ _ => trivial)
        (fun _ _ => trivial) (fun _ _ _ _ _ => rfl) .frame trivial v).symm

/-! ## Non-interference -/

/-- The members that a frame is redacted for. -/
def secret (request : Bool) : Secret Zone Bool := fun zone image key =>
  isSensitiveAttributionKey key || (image && key == "data") ||
    (request && zone == .input && isSensitiveField key)

/-- Two frames that differ only in what is stored under sensitive names. A value that is
    null is none of that. -/
def Differ (v v' : Value) : Prop := Alike descent (secret (isRequest v)) .frame v v'

/-- What is still to be taken out after the second pass. -/
def attributed : Secret Zone Bool := fun _ _ key => isSensitiveAttributionKey key

theorem secret_structural (request : Bool) (zone : Zone) (image : Bool) (key : String)
    (hkey : key = "type" ∨ key = "kind") : secret request zone image key = false := by
  have hattribution : isSensitiveAttributionKey key = false := by
    refine isSensitiveAttributionKey_structural key ?_
    rcases hkey with rfl | rfl <;> decide
  have hfield : isSensitiveField key = false := by
    rcases hkey with rfl | rfl
    · exact isSensitiveField_type
    · exact isSensitiveField_kind
  have hdata : (key == "data") = false := by
    rcases hkey with rfl | rfl <;> decide
  unfold secret
  rw [hattribution, hdata, hfield, Bool.and_false, Bool.and_false]
  rfl

theorem asStr_of_rel (S : Secret Zone Bool) (zone : Zone) (o o' : Option Value)
    (h : Option.Rel (Alike descent S zone) o o') : o.bind Value.asStr = o'.bind Value.asStr := by
  cases h with
  | none => rfl
  | some hagree => exact hagree.asStr

theorem open_secret (request : Bool) : Open descent (secret request) := by
  intro zone image members members' h
  refine isImage_eq _ _ ?_ ?_
  · exact asStr_of_rel _ _ _ _ (h.lookup descent _ _ _ "type"
      (secret_structural request zone image "type" (.inl rfl)))
  · exact asStr_of_rel _ _ _ _ (h.lookup descent _ _ _ "kind"
      (secret_structural request zone image "kind" (.inr rfl)))

/-- The first two passes. -/
def builtin (request : Bool) : Rule Zone Bool := (requestInput request).andThen inlineImage

theorem structural_requestInput (request : Bool) : Structural (requestInput request) := by
  have hnone : ∀ zone image key null, isSensitiveField key = false →
      requestInput request zone image key null = none := by
    intro zone image key null hkey
    cases request with
    | true =>
        show (if zone = .input ∧ isSensitiveField key = true then some _ else none) = none
        rw [hkey]
        exact if_neg (fun h => Bool.false_ne_true h.2)
    | false => rfl
  intro zone image null
  exact ⟨hnone _ _ _ _ isSensitiveField_type, hnone _ _ _ _ isSensitiveField_kind⟩

theorem structural_inlineImage : Structural inlineImage := by
  intro zone image null
  cases image <;> exact ⟨rfl, rfl⟩

theorem structural_attribution : Structural attribution := by
  intro zone image null
  unfold attribution
  rw [isSensitiveAttributionKey_structural "type" (by decide),
    isSensitiveAttributionKey_structural "kind" (by decide)]
  exact ⟨rfl, rfl⟩

theorem structural_andThen (f g : Rule Zone Bool) (hf : Structural f) (hg : Structural g) :
    Structural (f.andThen g) := by
  intro zone image null
  unfold Rule.andThen
  rw [(hf zone image null).1, (hf zone image null).2]
  exact hg zone image null

theorem structural_builtin (request : Bool) : Structural (builtin request) :=
  structural_andThen _ _ (structural_requestInput request) structural_inlineImage

/-- The first two passes are one walk. -/
theorem builtin_eq (v : Value) :
    redactInlineImagePayloads (redactSensitiveRequestPayload v) =
      mask descent (builtin (isRequest v)) .frame v := by
  rw [redactSensitiveRequestPayload_eq]
  exact mask_mask descent _ _ (unseen_of_structural _ (structural_requestInput _)) .frame v

/-- What a frame says it is, is not sensitive. -/
theorem isRequest_of_differ (v v' : Value) (h : Differ v v') : isRequest v = isRequest v' := by
  have hkind : ∀ zone image, secret (isRequest v) zone image "kind" = false :=
    fun zone image => secret_structural _ zone image "kind" (.inr rfl)
  have hmcp : ∀ image, secret (isRequest v) .frame image "mcp" = false := by
    intro image
    unfold secret
    rw [isSensitiveAttributionKey_structural "mcp" (by decide), show
      ("mcp" == "data") = false by decide, Bool.and_false, show
      (Zone.frame == Zone.input) = false by decide, Bool.and_false]
    rfl
  have hget : ∀ (zone : Zone) (key : String) (w w' : Value),
      (∀ image, secret (isRequest v) zone image key = false) →
      Alike descent (secret (isRequest v)) zone w w' →
      Option.Rel (Alike descent (secret (isRequest v)) (descent.member zone key))
        (w.get key) (w'.get key) := by
    intro zone key w w' hkey hagree
    cases w with
    | object members =>
        cases w' with
        | object members' => exact hagree.lookup descent _ _ _ key (hkey _)
        | null | bool _ | number _ | string _ | array _ => cases hagree
    | array _ | null | bool _ | number _ | string _ =>
        cases w' <;> first | exact .none | cases hagree
  have hrel := hget .frame "mcp" v v' hmcp h
  unfold isRequest
  cases hmcp : v.get "mcp" with
  | none =>
      rw [hmcp] at hrel
      cases hmcp' : v'.get "mcp" with
      | none => rfl
      | some w' =>
          rw [hmcp'] at hrel
          cases hrel
  | some w =>
      rw [hmcp] at hrel
      cases hmcp' : v'.get "mcp" with
      | none =>
          rw [hmcp'] at hrel
          cases hrel
      | some w' =>
          rw [hmcp'] at hrel
          cases hrel with
          | some hagree =>
              have hkinds := hget _ "kind" w w' (hkind _) hagree
              show ((w.get "kind").bind Value.asStr == _) = ((w'.get "kind").bind Value.asStr == _)
              rw [asStr_of_rel _ _ _ _ hkinds]

theorem replacePath_isNull (replacement : String) (path : List String) (v : Value)
    (h : v.isNull = false) : (replacePath replacement path v).isNull = false := by
  cases path with
  | nil => exact h
  | cons segment rest =>
      cases rest with
      | nil => exact (isNull_modifyMember segment _ v).trans h
      | cons _ _ => exact (isNull_modifyMember segment _ v).trans h

/-- A configured path is replaced in both frames or below attribution in one of them. -/
theorem agree_replacePath (replacement : String) (path : List String) (zone : Zone)
    (v v' : Value) (h : Alike descent attributed zone v v') :
    Alike descent attributed zone (replacePath replacement path v)
      (replacePath replacement path v') := by
  induction path generalizing zone v v' with
  | nil => exact h
  | cons segment rest ih =>
      cases rest with
      | nil =>
          exact alike_modifyMember descent attributed zone segment (fun _ => .string replacement)
            (fun _ _ _ => rfl) (fun _ _ _ => alike_refl descent attributed _ _) (fun _ _ => rfl)
            v v' h
      | cons next rest =>
          exact alike_modifyMember descent attributed zone segment _ (fun _ _ _ => rfl)
            (fun w w' hw => ih _ w w' hw)
            (fun w hw => replacePath_isNull replacement (next :: rest) w hw) v v' h

theorem agree_applyRules (rules : List RedactRule) (v v' : Value)
    (h : Alike descent attributed .frame v v') :
    Alike descent attributed .frame (applyRules rules v) (applyRules rules v') := by
  induction rules generalizing v v' with
  | nil => exact h
  | cons rule rest ih =>
      exact ih _ _ (agree_replacePath rule.replacement rule.path .frame v v' h)

/-- After the first two passes, only attribution is left to take out. -/
theorem agree_builtin (v v' : Value) (h : Differ v v') :
    Alike descent attributed .frame
      (redactInlineImagePayloads (redactSensitiveRequestPayload v))
      (redactInlineImagePayloads (redactSensitiveRequestPayload v')) := by
  rw [builtin_eq, builtin_eq, ← isRequest_of_differ v v' h]
  refine alike_mask descent _ _ attributed ?_
    (unseen_of_structural _ (structural_builtin _)) (open_secret _) .frame v v' h
  intro zone image key hsecret
  unfold secret at hsecret
  rw [Bool.or_eq_true, Bool.or_eq_true] at hsecret
  unfold builtin Rule.andThen
  rcases hsecret with (hattribution | himage) | hinput
  · exact .inr hattribution
  · left
    have hmark : inlineImage zone image key false = some "<omitted; native image content>" :=
      if_pos (by rw [himage]; rfl)
    rw [hmark]
    cases requestInput (isRequest v) zone image key false <;> rfl
  · left
    rw [Bool.and_eq_true, Bool.and_eq_true, beq_iff_eq] at hinput
    have hmark : requestInput (isRequest v) zone image key false =
        some "[REDACTED_SENSITIVE_INPUT]" := by
      unfold requestInput sensitiveInput
      rw [if_pos hinput.1.1, if_pos ⟨hinput.1.2, hinput.2⟩]
    rw [hmark]
    rfl

theorem open_attributed : Open descent attributed := by
  intro zone image members members' h
  have hlookup : ∀ key, key = "type" ∨ key = "kind" →
      (members.lookup key).bind Value.asStr = (members'.lookup key).bind Value.asStr := by
    intro key hkey
    refine asStr_of_rel _ _ _ _ (h.lookup descent _ _ _ key ?_)
    refine isSensitiveAttributionKey_structural key ?_
    rcases hkey with rfl | rfl <;> decide
  exact isImage_eq _ _ (hlookup "type" (.inl rfl)) (hlookup "kind" (.inr rfl))

/-! ## Idempotence -/

/-- The four passes without configured paths. -/
def all (request : Bool) : Rule Zone Bool := (builtin request).andThen attribution

theorem redact_nil (v : Value) :
    (redact [] v).2 = mask descent (all (isRequest v)) .frame v := by
  show redactDefaultAttributionFields
    (redactInlineImagePayloads (redactSensitiveRequestPayload v)) = _
  rw [builtin_eq]
  exact mask_mask descent _ _ (unseen_of_structural _ (structural_builtin _)) .frame v

theorem all_andThen (request : Bool) : (all request).andThen (all request) = all request := by
  funext zone image key null
  unfold all builtin Rule.andThen requestInput sensitiveInput inlineImage attribution
  cases request <;> cases zone <;> cases image <;> cases null <;>
    cases isSensitiveField key <;> cases key == "data" <;>
    cases isSensitiveAttributionKey key <;> rfl

theorem isRequest_mask (f : Rule Zone Bool)
    (hmcp : ∀ image null, f .frame image "mcp" null = none)
    (hkind : ∀ zone image null, f zone image "kind" null = none) (v : Value) :
    isRequest (mask descent f .frame v) = isRequest v := by
  have hget : ∀ (zone : Zone) (key : String) (w : Value),
      (∀ image null, f zone image key null = none) →
      (mask descent f zone w).get key =
        (w.get key).map (mask descent f (descent.member zone key)) := by
    intro zone key w hkey
    cases w with
    | object members => exact lookup_maskMembers descent f zone _ key (hkey _) members
    | null | bool _ | number _ | string _ | array _ => rfl
  unfold isRequest
  rw [hget .frame "mcp" v hmcp]
  cases v.get "mcp" with
  | none => rfl
  | some w =>
      show (((mask descent f _ w).get "kind").bind Value.asStr == _) =
        ((w.get "kind").bind Value.asStr == _)
      rw [hget _ "kind" w (hkind _)]
      cases w.get "kind" with
      | none => rfl
      | some kind =>
          show ((mask descent f _ kind).asStr == _) = _
          rw [asStr_mask]
          rfl

theorem structural_all (request : Bool) : Structural (all request) :=
  structural_andThen _ _ (structural_builtin request) structural_attribution

theorem all_mcp (request image null : Bool) : all request .frame image "mcp" null = none := by
  unfold all builtin Rule.andThen requestInput sensitiveInput inlineImage attribution
  rw [isSensitiveAttributionKey_structural "mcp" (by decide)]
  cases request <;> cases image <;> rfl

/-- What has been redacted without configured paths stays as it is. -/
theorem redact_idem (v : Value) : (redact [] (redact [] v).2).2 = (redact [] v).2 := by
  rw [redact_nil, redact_nil, isRequest_mask _ (all_mcp _)
    (fun zone image null => (structural_all _ zone image null).2),
    mask_mask descent _ _ (unseen_of_structural _ (structural_all _)), all_andThen]

/-! ## Redaction -/

/-- Frames that differ in sensitive values only are the same once they are redacted, and
    a frame that has been redacted without configured paths stays as it is. -/
theorem redact_noninterference (rules : List RedactRule) (v v' : Value) (h : Differ v v') :
    (redact rules v).2 = (redact rules v').2 ∧ (redact [] (redact [] v).2).2 = (redact [] v).2 := by
  refine ⟨?_, redact_idem v⟩
  have hrules := agree_applyRules rules _ _ (agree_builtin v v' h)
  refine eq_of_alike descent (fun _ _ _ => false) (fun _ _ _ => rfl) .frame _ _
    (alike_mask descent attribution attributed _ ?_
      (unseen_of_structural _ structural_attribution) open_attributed .frame _ _ hrules)
  intro zone image key hattribution
  left
  unfold attribution
  rw [show isSensitiveAttributionKey key = true from hattribution]
  rfl

/-- A request, with an image among its arguments. -/
def request (code data actor : Value) : Value :=
  .object [("mcp", .object [("kind", .string "request")]),
    ("body", .object [("data", .object [("code", code),
      ("content-parts", .array [.object [("type", .string "IMAGE"), ("data", data)]])])]),
    ("Actor_ID", actor)]

theorem differ_request (code code' data data' actor actor' : Value)
    (hcode : code.isNull = false ∧ code'.isNull = false)
    (hdata : data.isNull = false ∧ data'.isNull = false)
    (hactor : actor.isNull = false ∧ actor'.isNull = false) :
    Differ (request code data actor) (request code' data' actor') := by
  have hsecretData : secret true .input true "data" = true := by decide
  have hsecretCode : secret true .input false "code" = true := by decide
  have hsecretActor : secret true .frame false "Actor_ID" = true := by decide
  have himage : AlikeItems descent (secret true) .input
      [.object [("type", .string "IMAGE"), ("data", data)]]
      [.object [("type", .string "IMAGE"), ("data", data')]] :=
    And.intro (And.intro rfl (And.intro (.inl rfl)
      (And.intro rfl (And.intro (.inr ⟨hsecretData, hdata⟩) trivial)))) trivial
  have hbody : Alike descent (secret true) .body
      (.object [("data", .object [("code", code),
        ("content-parts", .array [.object [("type", .string "IMAGE"), ("data", data)]])])])
      (.object [("data", .object [("code", code'),
        ("content-parts", .array [.object [("type", .string "IMAGE"), ("data", data')]])])]) :=
    And.intro rfl (And.intro (.inl (And.intro rfl (And.intro (.inr ⟨hsecretCode, hcode⟩)
      (And.intro rfl (And.intro (.inl himage) trivial))))) trivial)
  exact And.intro rfl (And.intro (.inl (alike_refl _ _ _ _)) (And.intro rfl
    (And.intro (.inl hbody) (And.intro rfl (And.intro (.inr ⟨hsecretActor, hactor⟩) trivial)))))

theorem redact_noninterference_request :
    (redact [⟨["Actor_ID", "name"], "Actor_ID.name", "x"⟩]
        (request (.string "rm") (.string "AAAA") (.object [("name", .string "ann")]))).2 =
      (redact [⟨["Actor_ID", "name"], "Actor_ID.name", "x"⟩]
        (request (.bool true) (.array [.null]) (.string "bob"))).2 :=
  (redact_noninterference _ _ _ (differ_request _ _ _ _ _ _ ⟨rfl, rfl⟩ ⟨rfl, rfl⟩ ⟨rfl, rfl⟩)).1

end Redaction

end Gateway

end DccMcp
