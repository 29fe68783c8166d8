import DccMcp.Artefact.Lifetime
import DccMcp.Artefact.Memory

/-!
# The Artefact Store on Disk, with Limits

A store that is opened with limits refuses bodies that are too large, and
after every reference it writes it drops the oldest ones until the others
fit. Dropping a reference is a search: the sidecars of its digest are read
until one of them holds it. The body goes with the last sidecar.

An operation is done at one instant here. The readings of the clock within an
operation matter to what a caller was promised, and not to what is compared.

What is left after each change is said for the sidecars, one by one. For the
bodies nothing has to be said: what is left of a sound disk has the bodies of
the sidecars that are left.

## Main definitions

* `Store.removeRef`, `Store.enforceRetentionLimits`, `Store.createWithin`,
  `Store.putWithin`: Retention, and a put.
* `Store.Holds`, `Store.Timed`: A reference is there; no two were made at one
  instant.

## Theorems

* `Store.mem_cleanupExpired`, `Store.removeRef_spec`,
  `Store.mem_sidecar_deleteHex`: What is left after a cleanup, a turn of the
  retention loop and a delete.
* `Store.mem_readAllSidecars`, `Store.distinct_readAllSidecars`: What is read
  back.
* `Store.readSidecar_cases`: What a look for a sidecar finds.
-/

namespace DccMcp

namespace Artefact

namespace Store

variable (store : Store) (limits : Limits)

/-! ## The store on disk, with limits -/

/-- The search for the sidecar that holds a reference, and its removal. -/
def removeSidecar (fr : FileRef) : List Name → Disk → Disk
  | [], d => d
  | name :: rest, d =>
    match store.readFile name d with
    | (some (.sidecar candidate), d) =>
      if candidate = fr then store.removeFile name d else removeSidecar fr rest d
    | (_, d) => removeSidecar fr rest d

/-- One turn of the retention loop. -/
def removeRef (fr : FileRef) (d : Disk) : Disk :=
  match fr.sha256Hex with
  | some hex =>
    let d := store.removeSidecar fr (store.sidecarPaths hex d) d
    if (store.sidecarPaths hex d).isEmpty then store.removeFile (bodyName hex) d else d
  | none => d

def enforceRetentionLimits (now : Int) (d : Disk) : Disk :=
  let (refs, d) := store.readAllSidecars (store.cleanupExpired now d)
  limits.evict store.removeRef (byCreation refs) d

/-- The second half of `put_inner`. -/
def createWithin (bytes : List UInt8) (o : PutOptions) (now : Int) (d : Disk) :
    Except PutError FileRef × Disk :=
  let hex := store.hash bytes
  let d := if (store.find (bodyName hex) d).isSome then d
    else store.writeFile (bodyName hex) (.raw bytes) d
  match store.makeFileRef (makeUriSha256 hex) hex bytes.length o now with
  | .error failure => (.error (.failure failure), d)
  | .ok fr =>
    let d := store.writeFile (sidecarName hex (store.logicalSidecarKey o)) (.sidecar fr) d
    (.ok fr, store.enforceRetentionLimits limits now d)

/-- `put_inner` of a store with limits, at one instant. -/
def putWithin (body : Option (List UInt8)) (o : PutOptions) (now : Int) (d : Disk) :
    Except PutError FileRef × Disk :=
  let d := store.cleanupExpired now d
  match body with
  | none => (.error (.failure .io), d)
  | some bytes =>
    if exceeds limits.maxBodyBytes bytes.length then
      (.error (.limitExceeded (limitText bytes.length (limits.maxBodyBytes.getD 0))), d)
    else
      let name := sidecarName (store.hash bytes) (store.logicalSidecarKey o)
      match store.readFile name d with
      | (some (.sidecar existing), d) =>
        if existing.isExpiredAt now then
          store.createWithin limits bytes o now (store.removeFile name d)
        else (.ok existing, d)
      | (some (.raw _), d) => (.error (.failure .serde), d)
      | (none, d) => store.createWithin limits bytes o now d

/-! ## What is on the disk -/

variable {bodies : List (List UInt8)}

theorem Sound.sidecar {d : Disk} (hd : store.Sound bodies d) (name : Name) (fr : FileRef)
    (h : (store.place name, Content.sidecar fr) ∈ d.files) :
    ∃ hex key, isDigest hex = true ∧ name = sidecarName hex key ∧ Plain name ∧
      isJson name = true ∧ fr.sha256Hex = some hex ∧ fr.uri = makeUriSha256 hex := by
  rcases hd.own name _ h with
    ⟨_, _, _, hraw⟩ | ⟨hex, key, fr', hhex, rfl, hplain, hfr, hdigest, huri⟩
  · cases hraw
  · cases hfr
    exact ⟨hex, key, hhex, rfl, hplain, isJson_sidecarName hex key (digest_ne_nil hex hhex),
      hdigest, huri⟩

theorem removeFile_subset (name : Name) (d : Disk) : (store.removeFile name d).files ⊆ d.files :=
  fun file hfile => ((store.mem_removeFile name d file).mp hfile).1

theorem Sound.mono {bodies' : List (List UInt8)} {d : Disk} (hd : store.Sound bodies d)
    (hsub : bodies ⊆ bodies') : store.Sound bodies' d where
  unique := hd.unique
  own := by
    intro name content h
    rcases hd.own name content h with ⟨bytes, hbytes, hrest⟩ | hsidecar
    · exact .inl ⟨bytes, hsub hbytes, hrest⟩
    · exact .inr hsidecar
  body := by
    intro hex fr hhex hside
    obtain ⟨bytes, hbytes, hrest⟩ := hd.body hex fr hhex hside
    exact ⟨bytes, hsub hbytes, hrest⟩

/-- What is left of a sound disk has the bodies of the sidecars that are left. -/
theorem Sound.body_kept {d d' : Disk} (hd' : store.Sound bodies d') (hunique : Unique d)
    (hsub : d'.files ⊆ d.files) (hex name : Name) (fr : FileRef) (bytes : List UInt8)
    (hside : (store.place name, Content.sidecar fr) ∈ d'.files) (huri : fr.uri = makeUriSha256 hex)
    (h : (store.place (bodyName hex), Content.raw bytes) ∈ d.files) :
    (store.place (bodyName hex), Content.raw bytes) ∈ d'.files := by
  obtain ⟨hex', key, hhex, rfl, hplain, -, -, huri'⟩ := hd'.sidecar store name fr hside
  obtain rfl : hex' = hex := List.append_cancel_left (huri'.symm.trans huri)
  obtain ⟨old, -, -, hbody⟩ := hd'.body hex' fr hhex ⟨key, hplain, hside⟩
  rw [← hunique.content _ _ _ (hsub hbody) h]
  exact hbody

variable (now : Int) (hex : Name) (d : Disk)

theorem cleanupFile_subset (name : Name) (hd : store.Sound bodies d) (hname : Plain name)
    (hjson : isJson name = true) :
    (store.cleanupFile now d name).files ⊆ d.files := by
  rcases store.cleanupFile_cases now d name hd hname hjson with
    hfiles | ⟨hex, key, fr, -, -, -, -, hfiles | ⟨-, hfiles⟩⟩
  · rw [hfiles]
    exact List.Subset.refl _
  · rw [hfiles]
    exact store.removeFile_subset name d
  · rw [hfiles]
    exact List.Subset.trans (store.removeFile_subset _ _) (store.removeFile_subset name d)

/-- A file that a cleanup has looked at does not hold an expired reference. -/
theorem cleanupFile_live (name : Name) (hd : store.Sound bodies d) (hname : Plain name)
    (hjson : isJson name = true) (fr : FileRef)
    (h : (store.place name, Content.sidecar fr) ∈ (store.cleanupFile now d name).files) :
    fr.isExpiredAt now = false := by
  have hold := store.cleanupFile_subset now d name hd hname hjson h
  have hcontent := store.readFile_of_mem name d _ hd.unique hname hold
  unfold cleanupFile at h
  split at h
  next fr' d' heq =>
    rw [heq] at hcontent
    cases hcontent
    split at h
    next hexpired =>
      have hgone : ∀ e : Disk, e.files ⊆ (store.removeFile name d').files →
          (store.place name, Content.sidecar fr) ∉ e.files := by
        intro e he hmem
        exact ((store.mem_removeFile_plain name d' hname _).mp (he hmem)).2 rfl
      refine absurd h (hgone _ ?_)
      dsimp only
      split
      next =>
        split
        next => exact store.removeFile_subset _ _
        next => exact List.Subset.refl _
      next => exact List.Subset.refl _
    next hlive => exact Bool.eq_false_iff.mpr hlive
  next d' hnot heq =>
    rw [heq] at hcontent
    exact absurd hcontent (hnot fr)

/-- A cleanup leaves files that were there, and no expired reference. -/
theorem cleanupExpired_live (now : Int) (d : Disk) (hd : store.Sound bodies d) :
    (store.cleanupExpired now d).files ⊆ d.files ∧
      ∀ name fr, (store.place name, Content.sidecar fr) ∈ (store.cleanupExpired now d).files →
        fr.isExpiredAt now = false := by
  have hfold : ∀ (names : List Name) (e : Disk), (∀ name ∈ names, Plain name ∧ isJson name = true) →
      store.Sound bodies e → (names.foldl (store.cleanupFile now) e).files ⊆ e.files ∧
        ∀ name ∈ names, ∀ fr, (store.place name, Content.sidecar fr) ∈
          (names.foldl (store.cleanupFile now) e).files → fr.isExpiredAt now = false := by
    intro names
    induction names with
    | nil => exact fun e _ _ => ⟨List.Subset.refl _, fun _ h => absurd h List.not_mem_nil⟩
    | cons first rest ih =>
        intro e hnames he
        obtain ⟨hplain, hjson⟩ := hnames first List.mem_cons_self
        have hstep := store.cleanupFile_sound now e first he hplain hjson
        obtain ⟨hsub, hlive⟩ := ih _ (fun n hn => hnames n (List.mem_cons_of_mem first hn)) hstep
        refine ⟨List.Subset.trans hsub (store.cleanupFile_subset now e first he hplain hjson), ?_⟩
        intro name hname fr h
        rcases List.mem_cons.mp hname with rfl | hrest
        · exact store.cleanupFile_live now e name he hplain hjson fr (hsub h)
        · exact hlive name hrest fr h
  obtain ⟨hsub, hlive⟩ := hfold _ d (store.plain_of_jsonNames d hd) hd
  refine ⟨hsub, fun name fr h => hlive name ?_ fr h⟩
  obtain ⟨-, -, -, -, -, hjson, -⟩ := hd.sidecar store name fr (hsub h)
  exact (store.mem_jsonNames name d).mpr ⟨hjson, _, hsub h⟩

/-- The sidecars after a cleanup are those that have not expired. -/
theorem mem_cleanupExpired (now : Int) (d : Disk) (hd : store.Sound bodies d) (name : Name)
    (fr : FileRef) :
    (store.place name, Content.sidecar fr) ∈ (store.cleanupExpired now d).files ↔
      (store.place name, Content.sidecar fr) ∈ d.files ∧ fr.isExpiredAt now = false := by
  obtain ⟨hsub, hlive⟩ := store.cleanupExpired_live now d hd
  constructor
  · exact fun h => ⟨hsub h, hlive name fr h⟩
  · rintro ⟨h, hfr⟩
    obtain ⟨-, -, -, -, -, hjson, -⟩ := hd.sidecar store name fr h
    exact (store.cleanupExpired_sound now d hd).2 name fr hjson hfr h

/-! ## The references of a disk -/

/-- A reference is on the disk. -/
def Holds (fr : FileRef) (d : Disk) : Prop :=
  ∃ name, (store.place name, Content.sidecar fr) ∈ d.files

theorem holds_cleanupExpired (hd : store.Sound bodies d) (fr : FileRef) :
    store.Holds fr (store.cleanupExpired now d) ↔
      store.Holds fr d ∧ fr.isExpiredAt now = false := by
  unfold Holds
  simp [store.mem_cleanupExpired now d hd]

/-- The reference a file name leads to. -/
def sidecarAt (d : Disk) (name : Name) : Option FileRef :=
  match store.find name d with
  | some (_, .sidecar fr) => some fr
  | _ => none

theorem readRefs_eq (names : List Name) (d : Disk) :
    (store.readRefs names d).1 = names.filterMap (store.sidecarAt d) := by
  induction names generalizing d with
  | nil => rfl
  | cons name rest ih =>
      have hread := store.readFile_files name d
      have hcontent := store.readFile_content name d
      have hcongr : ∀ d' : Disk, d'.files = d.files → store.sidecarAt d' = store.sidecarAt d := by
        intro d' h
        funext name'
        unfold sidecarAt
        rw [store.find_congr name' d' d h]
      rw [readRefs, List.filterMap_cons]
      split
      next fr d' heq =>
        rw [heq] at hread hcontent
        obtain ⟨⟨loc, content⟩, hfind, hfr⟩ := Option.map_eq_some_iff.mp hcontent.symm
        have hfr' : content = .sidecar fr := hfr
        have hat : store.sidecarAt d name = some fr := by
          unfold sidecarAt
          rw [hfind, hfr']
        rw [hat]
        exact congrArg (fr :: ·) ((ih d').trans (by rw [hcongr d' hread]))
      next d' hnot heq =>
        rw [heq] at hread hcontent
        have hat : store.sidecarAt d name = none := by
          unfold sidecarAt
          split
          next loc fr hfind =>
            rw [hfind] at hcontent
            exact absurd hcontent (hnot fr)
          next => rfl
        rw [hat]
        exact (ih d').trans (by rw [hcongr d' hread])

theorem sidecarAt_eq_some (hd : Unique d) (name : Name) (hname : Plain name) (fr : FileRef) :
    store.sidecarAt d name = some fr ↔ (store.place name, Content.sidecar fr) ∈ d.files := by
  unfold sidecarAt
  constructor
  · intro h
    split at h
    next loc fr' hfind =>
      cases h
      obtain ⟨hresolve, hmem⟩ := store.mem_of_find name d loc _ hfind
      rw [store.resolve_of_name name hname.slash hname.long, Option.some.injEq] at hresolve
      rw [place, hresolve]
      exact hmem
    next => cases h
  · intro h
    rw [store.find_of_mem name d _ hd hname h]

/-- No two sidecars were made at one instant. -/
def Timed (d : Disk) : Prop :=
  ∀ name name' fr fr', (store.place name, Content.sidecar fr) ∈ d.files →
    (store.place name', Content.sidecar fr') ∈ d.files → fr.createdAt = fr'.createdAt → name = name'

theorem Timed.subset {d d' : Disk} (h : store.Timed d) (hsub : d'.files ⊆ d.files) :
    store.Timed d' :=
  fun name name' fr fr' hfr hfr' heq => h name name' fr fr' (hsub hfr) (hsub hfr') heq

theorem mem_readAllSidecars (hd : store.Sound bodies d) (fr : FileRef) :
    fr ∈ (store.readAllSidecars d).1 ↔
      ∃ name, (store.place name, Content.sidecar fr) ∈ d.files := by
  unfold readAllSidecars
  rw [store.readRefs_eq, List.mem_filterMap]
  constructor
  · rintro ⟨name, hname, hfr⟩
    have hplain := (store.plain_of_jsonNames d hd name hname).1
    exact ⟨name, (store.sidecarAt_eq_some d hd.unique name hplain fr).mp hfr⟩
  · rintro ⟨name, hmem⟩
    obtain ⟨-, -, -, -, hplain, hjson, -⟩ := hd.sidecar store name fr hmem
    exact ⟨name, (store.mem_jsonNames name d).mpr ⟨hjson, _, hmem⟩,
      (store.sidecarAt_eq_some d hd.unique name hplain fr).mpr hmem⟩

theorem nodup_jsonNames (hd : Unique d) : (store.jsonNames d).Nodup := by
  refine List.Nodup.filter _ ?_
  refine List.pairwise_filterMap.mpr ((List.pairwise_map.mp hd).imp ?_)
  intro file file' hne name hname name' hname' heq
  rw [(store.childName_eq_some _ _).mp hname, (store.childName_eq_some _ _).mp hname', heq] at hne
  exact hne rfl

theorem distinct_readAllSidecars (hd : store.Sound bodies d) (htimed : store.Timed d) :
    Distinct (store.readAllSidecars d).1 := by
  unfold readAllSidecars
  rw [store.readRefs_eq]
  refine List.pairwise_filterMap.mpr
    ((store.nodup_jsonNames d hd.unique).imp_of_mem ?_)
  intro name name' hname hname' hne fr hfr fr' hfr' heq
  have hplain := (store.plain_of_jsonNames d hd name hname).1
  have hplain' := (store.plain_of_jsonNames d hd name' hname').1
  exact hne (htimed name name' fr fr'
    ((store.sidecarAt_eq_some d hd.unique name hplain fr).mp hfr)
    ((store.sidecarAt_eq_some d hd.unique name' hplain' fr').mp hfr') heq)

theorem makeFileRef_createdAt (uri hex : Name) (size : Nat) (o : PutOptions) (now : Int)
    (fr : FileRef) (h : store.makeFileRef uri hex size o now = .ok fr) : fr.createdAt = now := by
  unfold makeFileRef at h
  dsimp only at h
  split at h
  next ttl _ =>
    cases hexpiry : expiresAtFromTtl now ttl with
    | error failure =>
        rw [hexpiry] at h
        cases h
    | ok expiry =>
        rw [hexpiry] at h
        cases h
        rfl
  next =>
    cases h
    rfl

/-! ## The removal of a reference -/

/-- The search removes the one sidecar that holds the reference, or finds none. -/
theorem removeSidecar_cases (fr : FileRef) (names : List Name) (d : Disk) (hd : Unique d)
    (hnames : ∀ name ∈ names, Plain name) :
    ((store.removeSidecar fr names d).files = d.files ∧
        ∀ name ∈ names, (store.place name, Content.sidecar fr) ∉ d.files) ∨
      ∃ name ∈ names, (store.place name, Content.sidecar fr) ∈ d.files ∧
        (store.removeSidecar fr names d).files = (store.removeFile name d).files := by
  induction names generalizing d with
  | nil => exact .inl ⟨rfl, fun _ h => absurd h List.not_mem_nil⟩
  | cons first rest ih =>
      have hread := store.readFile_files first d
      have hfirst := hnames first List.mem_cons_self
      -- What is found later is found on the same files.
      have hlater : ∀ d' : Disk, d'.files = d.files →
          (store.place first, Content.sidecar fr) ∉ d.files →
          ((store.removeSidecar fr rest d').files = d.files ∧
              ∀ name ∈ first :: rest, (store.place name, Content.sidecar fr) ∉ d.files) ∨
            ∃ name ∈ first :: rest, (store.place name, Content.sidecar fr) ∈ d.files ∧
              (store.removeSidecar fr rest d').files = (store.removeFile name d).files := by
        intro d' hfiles hother
        have hunique : Unique d' := by
          unfold Unique
          rw [hfiles]
          exact hd
        rcases ih d' hunique (fun n hn => hnames n (List.mem_cons_of_mem first hn)) with
          ⟨hsame, hnone⟩ | ⟨name, hname, hmem, hremoved⟩
        · rw [hfiles] at hsame hnone
          refine .inl ⟨hsame, fun name hname => ?_⟩
          rcases List.mem_cons.mp hname with rfl | hrest
          · exact hother
          · exact hnone name hrest
        · rw [hfiles] at hmem
          exact .inr ⟨name, List.mem_cons_of_mem first hname, hmem,
            hremoved.trans (store.removeFile_congr name d' d hfiles)⟩
      rw [removeSidecar]
      split
      next candidate d' heq =>
        rw [heq] at hread
        have hmem := store.mem_of_readFile first d _ hfirst (congrArg Prod.fst heq)
        split
        next hsame =>
          rw [hsame] at hmem
          exact .inr ⟨first, List.mem_cons_self, hmem, store.removeFile_congr first d' d hread⟩
        next hother =>
          refine hlater d' hread (fun hfr => hother ?_)
          exact Content.sidecar.inj (hd.content _ _ _ hmem hfr)
      next d' hnot heq =>
        rw [heq] at hread
        refine hlater d' hread (fun hfr => hnot fr ?_)
        rw [← store.readFile_of_mem first d _ hd hfirst hfr, heq]

/-- A turn of the loop takes the reference, and nothing of another one. -/
theorem removeRef_spec (fr : FileRef) (hex : Name) (d : Disk) (hd : store.Sound bodies d)
    (htimed : store.Timed d) (hhex : isDigest hex = true) (hdigest : fr.sha256Hex = some hex) :
    store.Sound bodies (store.removeRef fr d) ∧ (store.removeRef fr d).files ⊆ d.files ∧
      ∀ name fr', (store.place name, Content.sidecar fr') ∈ (store.removeRef fr d).files ↔
        (store.place name, Content.sidecar fr') ∈ d.files ∧ fr' ≠ fr := by
  have hfound : store.Sound bodies (store.removeSidecar fr (store.sidecarPaths hex d) d) ∧
      (store.removeSidecar fr (store.sidecarPaths hex d) d).files ⊆ d.files ∧
      ∀ name fr', (store.place name, Content.sidecar fr') ∈
          (store.removeSidecar fr (store.sidecarPaths hex d) d).files ↔
        (store.place name, Content.sidecar fr') ∈ d.files ∧ fr' ≠ fr := by
    rcases store.removeSidecar_cases fr (store.sidecarPaths hex d) d hd.unique
      (fun name hname => (store.plain_of_jsonNames d hd name
        ((store.mem_sidecarPaths hex name d).mp hname).1).1) with
      ⟨hsame, hnone⟩ | ⟨name₀, -, hmem₀, hremoved⟩
    · refine ⟨hd.congr store hsame, hsame ▸ List.Subset.refl _, fun name fr' => ?_⟩
      rw [hsame]
      refine ⟨fun h => ⟨h, ?_⟩, And.left⟩
      rintro rfl
      -- The sidecar would be among those that were looked at.
      obtain ⟨hex', key, hhex', rfl, -, -, hdigest', -⟩ := hd.sidecar store name fr' h
      rw [hdigest, Option.some.injEq] at hdigest'
      subst hdigest'
      exact hnone _ (store.mem_sidecarPaths_of_sidecar hex key _ d hhex h) h
    · obtain ⟨hex', key, -, hname₀, hplain, -, -⟩ := hd.sidecar store name₀ fr hmem₀
      have hmem := store.mem_removeFile_plain name₀ d hplain
      refine ⟨?_, hremoved ▸ store.removeFile_subset name₀ d, fun name fr' => ?_⟩
      · refine Sound.congr store ?_ hremoved
        rw [hname₀] at hplain ⊢
        exact hd.removeSidecar store hex' key hplain
      · rw [hremoved, hmem]
        refine and_congr_right (fun h => ⟨?_, ?_⟩)
        · rintro hne rfl
          exact hne (congrArg store.place (htimed name name₀ fr' fr' h hmem₀ rfl))
        · intro hne heq
          have hplace : store.place name = store.place name₀ := heq
          rw [hplace] at h
          cases hd.unique.content _ _ _ h hmem₀
          exact hne rfl
  obtain ⟨hsound, hsub, hmem⟩ := hfound
  have hbody := plain_bodyName hex hhex
  unfold removeRef
  rw [hdigest]
  dsimp only
  split
  next hempty =>
    have hnil := List.isEmpty_iff.mp hempty
    refine ⟨hsound.removeBody store hex hhex hnil,
      List.Subset.trans (store.removeFile_subset _ _) hsub, fun name fr' => ?_⟩
    rw [store.mem_removeFile_plain _ _ hbody, hmem]
    refine ⟨And.left, fun h => ⟨h, fun heq => ?_⟩⟩
    obtain ⟨hex', key, -, rfl, -⟩ := hd.sidecar store name fr' h.1
    exact sidecarName_ne_bodyName hex' hex key (store.place_inj _ _ heq)
  next => exact ⟨hsound, hsub, hmem⟩

/-- What is left of the sidecars after a delete by digest. -/
theorem mem_sidecar_deleteHex (hd : store.Sound bodies d) (hhex : isDigest hex = true) (name : Name)
    (fr : FileRef) :
    (store.place name, Content.sidecar fr) ∈ (store.deleteHex hex d).files ↔
      (store.place name, Content.sidecar fr) ∈ d.files ∧ fr.uri ≠ makeUriSha256 hex := by
  constructor
  · intro h
    have hmem := (store.mem_deleteHex hex d hd hhex _).mp h
    refine ⟨hmem.1, fun huri => ?_⟩
    obtain ⟨hex', key, -, rfl, -, -, -, huri'⟩ := hd.sidecar store name fr hmem.1
    obtain rfl : hex' = hex := List.append_cancel_left (huri'.symm.trans huri)
    refine hmem.2.2 (sidecarName hex' key) ?_ rfl
    exact store.mem_sidecarPaths_of_sidecar hex' key _ _ hhex
      ((store.mem_removeFile_plain _ d (plain_bodyName hex' hhex) _).mpr ⟨hmem.1, hmem.2.1⟩)
  · rintro ⟨h, huri⟩
    obtain ⟨hex', key, -, -, -, hjson, hdigest, huri'⟩ := hd.sidecar store name fr h
    refine store.deleteHex_keeps hex hex' name fr d hd hhex hjson hdigest ?_ h
    rintro rfl
    exact huri huri'

theorem holds_deleteHex (hd : store.Sound bodies d) (hhex : isDigest hex = true) (fr : FileRef) :
    store.Holds fr (store.deleteHex hex d) ↔ store.Holds fr d ∧ fr.uri ≠ makeUriSha256 hex := by
  unfold Holds
  simp [store.mem_sidecar_deleteHex hex d hd hhex]

theorem deleteHex_subset (hd : store.Sound bodies d) (hhex : isDigest hex = true) :
    (store.deleteHex hex d).files ⊆ d.files :=
  fun file hfile => ((store.mem_deleteHex hex d hd hhex file).mp hfile).1

theorem delete_eq : store.delete (makeUriSha256 hex) d = (.ok (), store.deleteHex hex d) := by
  unfold Store.delete
  rw [parse_makeUri]

/-! ## Reading -/

theorem mem_sidecarPaths_iff (hd : store.Sound bodies d) (hhex : isDigest hex = true)
    (name : Name) :
    name ∈ store.sidecarPaths hex d ↔
      ∃ fr, (store.place name, Content.sidecar fr) ∈ d.files ∧ fr.uri = makeUriSha256 hex := by
  constructor
  · intro hname
    obtain ⟨hlisted, hmatch⟩ := (store.mem_sidecarPaths hex name d).mp hname
    obtain ⟨hjson, content, hmem⟩ := (store.mem_jsonNames name d).mp hlisted
    obtain ⟨hex', key, fr, hhex', rfl, -, rfl, -, huri⟩ := hd.listed store name content hjson hmem
    obtain rfl := eq_of_isSidecarOf hex hex' key hhex hhex' hmatch
    exact ⟨fr, hmem, huri⟩
  · rintro ⟨fr, hmem, huri⟩
    obtain ⟨hex', key, -, rfl, -, -, -, huri'⟩ := hd.sidecar store name fr hmem
    obtain rfl : hex' = hex := List.append_cancel_left (huri'.symm.trans huri)
    exact store.mem_sidecarPaths_of_sidecar hex' key _ d hhex hmem

theorem firstRef_eq (names : List Name) (d : Disk) :
    (store.firstRef names d).1 = (store.readRefs names d).1.head? := by
  induction names generalizing d with
  | nil => rfl
  | cons name rest ih =>
      rw [firstRef, readRefs]
      split
      next => rfl
      next => exact ih _

/-- What a look for a sidecar finds: a reference of the digest, if there is one. -/
theorem readSidecar_cases (hd : store.Sound bodies d) (hhex : isDigest hex = true) :
    ((store.readSidecar hex d).1 = .ok none ∧
        ∀ fr, store.Holds fr d → fr.uri ≠ makeUriSha256 hex) ∨
      ∃ fr, (store.readSidecar hex d).1 = .ok (some fr) ∧ store.Holds fr d ∧
        fr.uri = makeUriSha256 hex := by
  have hplain : Plain (sidecarName hex none) := plain_sidecarName hex none hhex (by simp)
  have hjson := isJson_sidecarName hex none (digest_ne_nil hex hhex)
  have hfiles := store.readFile_files (sidecarName hex none) d
  unfold readSidecar
  split
  next fr d' heq =>
    have hmem := store.mem_of_readFile _ d _ hplain (congrArg Prod.fst heq)
    obtain ⟨hex', key, fr', hhex', hname, -, hfr, -, huri⟩ := hd.listed store _ _ hjson hmem
    cases hfr
    have hmatch := isSidecarOf_self hex none
    rw [hname] at hmatch
    obtain rfl := eq_of_isSidecarOf hex hex' key hhex hhex' hmatch
    exact .inr ⟨fr, rfl, ⟨_, hmem⟩, huri⟩
  next bytes d' heq =>
    obtain ⟨_, _, _, _, _, _, hraw, _⟩ :=
      hd.listed store _ _ hjson (store.mem_of_readFile _ d _ hplain (congrArg Prod.fst heq))
    cases hraw
  next d' heq =>
    rw [heq] at hfiles
    have hd' := hd.congr store hfiles
    dsimp only
    rw [store.firstRef_eq, store.readRefs_eq]
    cases hfirst : ((store.sidecarPaths hex d').filterMap (store.sidecarAt d')).head? with
    | none =>
        refine .inl ⟨rfl, fun fr ⟨name, hname⟩ huri => ?_⟩
        rw [← hfiles] at hname
        obtain ⟨-, -, -, -, hplain', -⟩ := hd'.sidecar store name fr hname
        have hat := (store.sidecarAt_eq_some d' hd'.unique name hplain' fr).mpr hname
        have hpath := (store.mem_sidecarPaths_iff hex d' hd' hhex name).mpr ⟨fr, hname, huri⟩
        have hmem := List.mem_filterMap.mpr ⟨name, hpath, hat⟩
        rw [List.head?_eq_none_iff.mp hfirst] at hmem
        exact List.not_mem_nil hmem
    | some fr =>
        obtain ⟨name, hpath, hat⟩ := List.mem_filterMap.mp (List.mem_of_head? hfirst)
        obtain ⟨fr', hname, huri⟩ := (store.mem_sidecarPaths_iff hex d' hd' hhex name).mp hpath
        obtain ⟨-, -, -, -, hplain', -⟩ := hd'.sidecar store name fr' hname
        obtain rfl := Option.some.inj
          (hat.symm.trans ((store.sidecarAt_eq_some d' hd'.unique name hplain' fr').mpr hname))
        exact .inr ⟨fr, rfl, ⟨name, hfiles ▸ hname⟩, huri⟩

end Store

end Artefact

end DccMcp
