import DccMcp.Artefact.Retention

/-!
# Two Backends of the Artefact Store

A store on disk and a store in memory that are given the same requests at the
same instants. What one knows by the name of a file the other knows by
comparing fields, so they do not always agree: with options the disk finds
what was put under them before, and the memory does not look; without any,
the memory is content with every reference, and the disk wants its primary
one; and a head of the disk deletes a whole digest for one reference that has
expired. Where nothing of this happens, and the clock does not stand still
between two puts, they do.

The two are alike when they hold the same references that have not expired,
with the same bytes. What has expired may still lie about in one of them, as
not every operation cleans up. After a cleanup of both there is nothing but
what they share, and it is from there that references are dropped.

## Main definitions

* `Request`, `Answer`, `Answer.Agrees`, `Backends`: What is asked, and what is
  compared.
* `Store.Alike`, `Store.Clean`: The relation, and the relation after a
  cleanup.
* `Store.Undisputed`, `Store.HeadSafe`, `Store.Meets`: The requests that do not
  divide the two.

## Theorems

* `Store.backends_agree`: The backends agree in every run of such requests.
-/

namespace DccMcp

namespace Artefact

namespace Store

variable (store : Store) (limits : Limits)

variable {bodies : List (List UInt8)}

/-! ## A disk and a memory that are alike -/

/-- The two hold the same references that have not expired, and the bytes of these. -/
structure Alike (now : Int) (d : Disk) (m : Memory) : Prop where
  sound : ∃ bodies, store.Sound bodies d
  timed : store.Timed d
  formed : m.Formed
  refs : ∀ fr, fr.isExpiredAt now = false → (store.Holds fr d ↔ fr ∈ m.refs)
  bodies : ∀ e ∈ m, ∀ hex fr, e.uri = makeUriSha256 hex → fr ∈ e.refs →
    fr.isExpiredAt now = false → (store.place (bodyName hex), Content.raw e.bytes) ∈ d.files

/-- They are alike and nothing has expired. -/
structure Clean (now : Int) (d : Disk) (m : Memory) : Prop extends store.Alike now d m where
  diskLive : ∀ fr, store.Holds fr d → fr.isExpiredAt now = false
  memoryLive : ∀ fr ∈ m.refs, fr.isExpiredAt now = false

/-- Every entry of a map is what is left of one of another map. -/
def LeftOf (m' m : Memory) : Prop :=
  ∀ e' ∈ m', ∃ e ∈ m, e'.uri = e.uri ∧ e'.bytes = e.bytes ∧ e'.refs ⊆ e.refs

theorem leftOf_thin (keep : Entry → List FileRef) (m : Memory)
    (hkeep : ∀ e ∈ m, keep e ⊆ e.refs) : LeftOf (Memory.thin keep m) m := by
  intro e' he'
  obtain ⟨e, he, -, rfl⟩ := (Memory.mem_thin keep m e').mp he'
  exact ⟨e, he, rfl, rfl, hkeep e he⟩

theorem leftOf_refl (m : Memory) : LeftOf m m :=
  fun e he => ⟨e, he, rfl, rfl, List.Subset.refl _⟩

/-- The two stay alike where both lose, and they lose the same. -/
theorem Alike.shrink {t now : Int} {d d' : Disk} {m m' : Memory} (h : store.Alike t d m)
    (hle : t ≤ now) (hsound : store.Sound bodies d') (hsub : d'.files ⊆ d.files)
    (hformed : m'.Formed) (hleft : LeftOf m' m)
    (hrefs : ∀ fr, fr.isExpiredAt now = false → (store.Holds fr d' ↔ fr ∈ m'.refs)) :
    store.Alike now d' m' where
  sound := ⟨bodies, hsound⟩
  timed := h.timed.subset store hsub
  formed := hformed
  refs := hrefs
  bodies := by
    intro e' he' hex fr huri hfr hlive
    obtain ⟨e, he, hsame, hbytes, hsubset⟩ := hleft e' he'
    obtain ⟨old, hold⟩ := h.sound
    have hbody := h.bodies e he hex fr (hsame.symm.trans huri) (hsubset hfr)
      (live_of_le fr t now hle hlive)
    obtain ⟨name, hname⟩ := (hrefs fr hlive).mpr ((Memory.mem_refs fr m').mpr ⟨e', he', hfr⟩)
    rw [hbytes]
    exact hsound.body_kept store hold.unique hsub hex name fr e.bytes hname
      ((hformed.own e' he' fr hfr).trans huri) hbody

/-- A cleanup of the disk. -/
theorem Alike.cleanDisk {t now : Int} {d : Disk} {m : Memory} (h : store.Alike t d m)
    (hle : t ≤ now) : store.Alike now (store.cleanupExpired now d) m := by
  obtain ⟨bodies, hd⟩ := h.sound
  refine h.shrink store hle (store.cleanupExpired_sound now d hd).1
    (store.cleanupExpired_live now d hd).1 h.formed (leftOf_refl m) (fun fr hlive => ?_)
  rw [store.holds_cleanupExpired now d hd, ← h.refs fr (live_of_le fr t now hle hlive)]
  exact ⟨And.left, fun hfr => ⟨hfr, hlive⟩⟩

/-- A cleanup of the memory. -/
theorem Alike.cleanMemory {t now : Int} {d : Disk} {m : Memory} (h : store.Alike t d m)
    (hle : t ≤ now) : store.Alike now d (m.cleanupExpired now) := by
  obtain ⟨bodies, hd⟩ := h.sound
  refine h.shrink store hle hd (List.Subset.refl _) (h.formed.cleanupExpired now)
    (leftOf_thin _ m fun e _ => List.filter_sublist.subset) (fun fr hlive => ?_)
  rw [h.refs fr (live_of_le fr t now hle hlive), Memory.mem_refs_cleanupExpired]
  exact ⟨fun hfr => ⟨hfr, hlive⟩, And.left⟩

/-- A cleanup of both leaves the two clean. -/
theorem Alike.clean {t now : Int} {d : Disk} {m : Memory} (h : store.Alike t d m) (hle : t ≤ now) :
    store.Clean now (store.cleanupExpired now d) (m.cleanupExpired now) := by
  obtain ⟨bodies, hd⟩ := h.sound
  have hboth := (h.cleanDisk store hle).cleanMemory store (Int.le_refl now)
  refine ⟨hboth, fun fr hfr => ?_, fun fr hfr => ?_⟩
  · exact ((store.holds_cleanupExpired now d hd fr).mp hfr).2
  · exact ((Memory.mem_refs_cleanupExpired now m fr).mp hfr).2

theorem Clean.holds_iff {now : Int} {d : Disk} {m : Memory} (h : store.Clean now d m)
    (fr : FileRef) : store.Holds fr d ↔ fr ∈ m.refs :=
  ⟨fun hfr => (h.refs fr (h.diskLive fr hfr)).mp hfr,
    fun hfr => (h.refs fr (h.memoryLive fr hfr)).mpr hfr⟩

/-- Reading changes nothing. -/
theorem Alike.congr {now : Int} {d d' : Disk} {m : Memory} (h : store.Alike now d m)
    (hfiles : d'.files = d.files) : store.Alike now d' m := by
  obtain ⟨bodies, hd⟩ := h.sound
  refine h.shrink store (Int.le_refl now) (hd.congr store hfiles) (hfiles ▸ List.Subset.refl _)
    h.formed (leftOf_refl m) (fun fr hlive => ?_)
  rw [← h.refs fr hlive, Holds, Holds, hfiles]

theorem Clean.congr {now : Int} {d d' : Disk} {m : Memory} (h : store.Clean now d m)
    (hfiles : d'.files = d.files) : store.Clean now d' m := by
  refine ⟨h.toAlike.congr store hfiles, fun fr hfr => ?_, h.memoryLive⟩
  rw [Holds, hfiles] at hfr
  exact h.diskLive fr hfr

/-- The references of the two are the same. -/
theorem Clean.perm {now : Int} {d : Disk} {m : Memory} (h : store.Clean now d m) :
    (store.readAllSidecars d).1.Perm m.refs := by
  obtain ⟨bodies, hd⟩ := h.sound
  refine (List.perm_ext_iff_of_nodup (store.distinct_readAllSidecars d hd h.timed).nodup
    h.formed.distinct.nodup).mpr (fun fr => ?_)
  exact (store.mem_readAllSidecars d hd fr).trans (h.holds_iff store fr)

/-- One turn of the loop, in both. -/
theorem Clean.remove {now : Int} {d : Disk} {m : Memory} (h : store.Clean now d m) (fr : FileRef)
    (hex : Name) (hhex : isDigest hex = true) (hdigest : fr.sha256Hex = some hex) :
    store.Clean now (store.removeRef fr d) (m.remove fr) := by
  obtain ⟨bodies, hd⟩ := h.sound
  obtain ⟨hsound, hsub, hmem⟩ := store.removeRef_spec fr hex d hd h.timed hhex hdigest
  have hholds : ∀ fr', store.Holds fr' (store.removeRef fr d) ↔ store.Holds fr' d ∧ fr' ≠ fr := by
    intro fr'
    unfold Holds
    simp [hmem]
  have hleft : LeftOf (m.remove fr) m := by
    rw [h.formed.remove_eq fr]
    refine leftOf_thin _ m (fun e _ => ?_)
    unfold Memory.without
    split
    next => exact List.erase_subset
    next => exact List.Subset.refl _
  refine ⟨h.toAlike.shrink store (Int.le_refl now) hsound hsub (h.formed.remove fr) hleft
    (fun fr' _ => ?_), fun fr' hfr' => h.diskLive fr' ((hholds fr').mp hfr').1,
    fun fr' hfr' => h.memoryLive fr' ((h.formed.mem_refs_remove fr fr').mp hfr').1⟩
  rw [hholds, h.formed.mem_refs_remove, h.holds_iff]

/-- The limits are enforced alike. -/
theorem Alike.enforce {t now : Int} {d : Disk} {m : Memory} (h : store.Alike t d m)
    (hle : t ≤ now) :
    store.Clean now (store.enforceRetentionLimits limits now d)
      (m.enforceRetention limits now) := by
  have hclean := h.clean store hle
  obtain ⟨bodies, hd⟩ := hclean.sound
  have hfiles := store.readRefs_files (store.jsonNames (store.cleanupExpired now d))
    (store.cleanupExpired now d)
  have hsame : byCreation (store.readAllSidecars (store.cleanupExpired now d)).1 =
      byCreation (m.cleanupExpired now).refs :=
    byCreation_congr _ _ (hclean.perm store) hclean.formed.distinct
  unfold enforceRetentionLimits Memory.enforceRetention
  dsimp only
  rw [hsame]
  refine evict_invariant limits store.removeRef Memory.remove
    (fun fr => ∃ hex, isDigest hex = true ∧ fr.sha256Hex = some hex) (store.Clean now)
    ?_ _ _ _ ?_ ?_
  · rintro fr d' m' ⟨hex, hhex, hdigest⟩ h'
    exact h'.remove store fr hex hhex hdigest
  · intro fr hfr
    obtain ⟨name, hname⟩ := (hclean.holds_iff store fr).mpr ((mem_byCreation fr _).mp hfr)
    obtain ⟨hex, -, hhex, -, -, -, hdigest, -⟩ := hd.sidecar store name fr hname
    exact ⟨hex, hhex, hdigest⟩
  · exact hclean.congr store hfiles

/-! ## Reading -/

/-- A get of both. -/
theorem Alike.get {t now : Int} {d : Disk} {m : Memory} (h : store.Alike t d m) (hle : t ≤ now)
    (hex : Name) (hhex : isDigest hex = true) :
    (store.get (makeUriSha256 hex) now d).1 = .ok (m.get (makeUriSha256 hex) now).1 ∧
      store.Alike now (store.get (makeUriSha256 hex) now d).2
        (m.get (makeUriSha256 hex) now).2 := by
  have hclean := h.clean store hle
  obtain ⟨bodies, hd⟩ := hclean.sound
  have hmemory : (m.get (makeUriSha256 hex) now).2 = m.cleanupExpired now := rfl
  refine ⟨?_, ?_⟩
  · unfold Memory.get
    dsimp only
    cases hentry : (m.cleanupExpired now).entry (makeUriSha256 hex) with
    | none =>
        have hnone : store.sidecarPaths hex (store.cleanupExpired now d) = [] := by
          refine List.eq_nil_iff_forall_not_mem.mpr (fun name hname => ?_)
          obtain ⟨fr, hfr, huri⟩ := (store.mem_sidecarPaths_iff hex _ hd hhex name).mp hname
          have hsome := (Memory.entry_isSome_iff _ hclean.formed (makeUriSha256 hex)).mpr
            ⟨fr, (hclean.holds_iff store fr).mp ⟨name, hfr⟩, huri⟩
          rw [hentry] at hsome
          cases hsome
        unfold Store.get
        rw [parse_makeUri]
        dsimp only
        rw [if_pos (List.isEmpty_iff.mpr hnone)]
        rfl
    | some e =>
        obtain ⟨he, huri⟩ := (Memory.entry_eq_some _ hclean.formed _ e).mp hentry
        obtain ⟨fr, hfr⟩ := List.exists_mem_of_ne_nil _ (hclean.formed.some e he)
        have hmem := (Memory.mem_refs fr _).mpr ⟨e, he, hfr⟩
        obtain ⟨name, hname⟩ := (hclean.holds_iff store fr).mpr hmem
        have hpath := (store.mem_sidecarPaths_iff hex _ hd hhex name).mpr
          ⟨fr, hname, (hclean.formed.own e he fr hfr).trans huri⟩
        have hbody := hclean.bodies e he hex fr huri hfr (hclean.memoryLive fr hmem)
        have hread := store.readFile_of_mem _ _ _ hd.unique (plain_bodyName hex hhex) hbody
        unfold Store.get
        rw [parse_makeUri]
        dsimp only
        rw [if_neg (fun hempty => List.ne_nil_of_mem hpath (List.isEmpty_iff.mp hempty))]
        split
        next heq =>
          rw [heq] at hread
          cases hread
          rfl
        next heq =>
          rw [heq] at hread
          cases hread
        next heq =>
          rw [heq] at hread
          cases hread
  · rw [hmemory]
    rcases store.get_files (makeUriSha256 hex) now d with hfiles | hfiles
    · exact (h.cleanMemory store hle).congr store hfiles
    · exact hclean.toAlike.congr store hfiles

/-- A list of both. -/
theorem Alike.list {t now : Int} {d : Disk} {m : Memory} (h : store.Alike t d m) (hle : t ≤ now)
    (f : Filter) :
    (store.list f now d).1.Perm (m.list f now).1 ∧
      store.Alike now (store.list f now d).2 (m.list f now).2 := by
  have hclean := h.clean store hle
  exact ⟨(hclean.perm store).filter _, hclean.toAlike.congr store (store.list_files f now d)⟩

/-- A delete from both. -/
theorem Alike.delete {now : Int} {d : Disk} {m : Memory} (h : store.Alike now d m) (hex : Name)
    (hhex : isDigest hex = true) :
    store.Alike now (store.deleteHex hex d) (m.delete (makeUriSha256 hex)) := by
  obtain ⟨bodies, hd⟩ := h.sound
  refine h.shrink store (Int.le_refl now) (store.deleteHex_sound hex d hd hhex)
    (store.deleteHex_subset hex d hd hhex) (Memory.formed_delete m h.formed _)
    (fun e he => ⟨e, List.mem_of_mem_filter he, rfl, rfl, List.Subset.refl _⟩) (fun fr hlive => ?_)
  rw [store.holds_deleteHex hex d hd hhex, Memory.mem_refs_delete m h.formed, h.refs fr hlive]

/-- What a head of the memory finds. -/
theorem Alike.head_isSome {t now : Int} {d : Disk} {m : Memory} (h : store.Alike t d m)
    (hle : t ≤ now) (uri : Name) :
    (m.head uri now).1.isSome = true ↔
      ∃ fr, store.Holds fr d ∧ fr.uri = uri ∧ fr.isExpiredAt now = false := by
  have hclean := h.cleanMemory store hle
  have hsame : (m.head uri now).1.isSome = ((m.cleanupExpired now).entry uri).isSome := by
    unfold Memory.head
    dsimp only
    cases hentry : (m.cleanupExpired now).entry uri with
    | none => rfl
    | some e =>
        have he := ((Memory.entry_eq_some _ hclean.formed uri e).mp hentry).1
        obtain ⟨fr, rest, hrefs⟩ := List.exists_cons_of_ne_nil (hclean.formed.some e he)
        rw [Option.bind_some, hrefs]
        rfl
  rw [hsame, Memory.entry_isSome_iff _ hclean.formed]
  constructor
  · rintro ⟨fr, hfr, huri⟩
    have hlive := ((Memory.mem_refs_cleanupExpired now m fr).mp hfr).2
    exact ⟨fr, (hclean.refs fr hlive).mpr hfr, huri, hlive⟩
  · rintro ⟨fr, hfr, huri, hlive⟩
    exact ⟨fr, (hclean.refs fr hlive).mp hfr, huri⟩

/-- What a head finds first has not expired, or nothing of its digest is left. -/
def HeadSafe (hex : Name) (now : Int) (d : Disk) : Prop :=
  ∀ fr, (store.readSidecar hex d).1 = .ok (some fr) → fr.isExpiredAt now = true →
    ∀ fr', store.Holds fr' d → fr'.uri = makeUriSha256 hex → fr'.isExpiredAt now = true

/-- A head of both. -/
theorem Alike.head {t now : Int} {d : Disk} {m : Memory} (h : store.Alike t d m) (hle : t ≤ now)
    (hex : Name) (hhex : isDigest hex = true) (hsafe : store.HeadSafe hex now d) :
    (store.head (makeUriSha256 hex) now d).1.map Option.isSome =
        .ok (m.head (makeUriSha256 hex) now).1.isSome ∧
      store.Alike now (store.head (makeUriSha256 hex) now d).2
        (m.head (makeUriSha256 hex) now).2 := by
  have hiff := h.head_isSome store hle (makeUriSha256 hex)
  have hmemory : (m.head (makeUriSha256 hex) now).2 = m.cleanupExpired now := rfl
  have hclean := h.cleanMemory store hle
  obtain ⟨bodies, hd⟩ := h.sound
  have hfiles := store.readSidecar_files hex d
  have hcases := store.readSidecar_cases hex d hd hhex
  unfold HeadSafe at hsafe
  rw [hmemory]
  unfold Store.head
  rw [parse_makeUri]
  dsimp only
  rcases hread : store.readSidecar hex d with ⟨r, d'⟩
  rw [hread] at hfiles hcases hsafe
  have hd' := hd.congr store hfiles
  have hagain := store.readSidecar_cases hex d' hd' hhex
  have hfiles' := store.readSidecar_files hex d'
  rcases hcases with ⟨hr, hnone⟩ | ⟨fr, hr, hfr, huri⟩
  · have hr' : r = .ok none := hr
    subst hr'
    dsimp only
    refine ⟨?_, hclean.congr store (hfiles'.trans hfiles)⟩
    have hmissing : (m.head (makeUriSha256 hex) now).1.isSome = false := by
      refine Bool.eq_false_iff.mpr (fun hsome => ?_)
      obtain ⟨fr, hfr, huri, -⟩ := hiff.mp hsome
      exact hnone fr hfr huri
    rcases hagain with ⟨hr, -⟩ | ⟨fr, -, ⟨name, hname⟩, huri⟩
    · rw [hr, hmissing]
      rfl
    · exact absurd huri (hnone fr ⟨name, hfiles ▸ hname⟩)
  · have hr' : r = .ok (some fr) := hr
    subst hr'
    dsimp only
    split
    next hexpired =>
      have hgone := hsafe fr rfl hexpired
      have hmissing : (m.head (makeUriSha256 hex) now).1.isSome = false := by
        refine Bool.eq_false_iff.mpr (fun hsome => ?_)
        obtain ⟨fr', hfr', huri', hlive⟩ := hiff.mp hsome
        rw [hgone fr' hfr' huri'] at hlive
        cases hlive
      refine ⟨by rw [hmissing]; rfl, ?_⟩
      rw [store.delete_eq]
      refine (hclean.congr store hfiles).shrink store (Int.le_refl now)
        (store.deleteHex_sound hex d' hd' hhex) (store.deleteHex_subset hex d' hd' hhex)
        hclean.formed (leftOf_refl _) (fun fr' hlive => ?_)
      rw [store.holds_deleteHex hex d' hd' hhex, ← (hclean.congr store hfiles).refs fr' hlive]
      refine ⟨And.left, fun hfr' => ⟨hfr', fun huri' => ?_⟩⟩
      rw [Holds, hfiles] at hfr'
      rw [hgone fr' hfr' huri'] at hlive
      cases hlive
    next hlive =>
      refine ⟨?_, hclean.congr store (hfiles'.trans hfiles)⟩
      have hthere : (m.head (makeUriSha256 hex) now).1.isSome = true :=
        hiff.mpr ⟨fr, hfr, huri, Bool.eq_false_iff.mpr hlive⟩
      rcases hagain with ⟨-, hnone⟩ | ⟨fr', hr, -, -⟩
      · obtain ⟨name, hname⟩ := hfr
        exact absurd huri (hnone fr ⟨name, hfiles.symm ▸ hname⟩)
      · rw [hr, hthere]
        rfl

/-! ## Putting -/

/-- What a put finds on the disk does not divide the backends. With options, no
    reference that has not expired is under their key; without any, the primary
    one is there if any is. No reference that is there was made at the instant
    of the put, and no other bytes of the same digest are there. -/
structure Undisputed (bytes : List UInt8) (o : PutOptions) (now : Int) (d : Disk) : Prop where
  logical : o.hasLogicalMetadata = true → ∀ fr, (store.place (sidecarName (store.hash bytes)
    (store.logicalSidecarKey o)), Content.sidecar fr) ∈ d.files → fr.isExpiredAt now = true
  primary : o.hasLogicalMetadata = false → ∀ fr, store.Holds fr d →
    fr.uri = makeUriSha256 (store.hash bytes) → fr.isExpiredAt now = false →
      ∃ fr', (store.place (sidecarName (store.hash bytes) none), Content.sidecar fr') ∈ d.files ∧
        fr'.isExpiredAt now = false
  instant : ∀ fr, store.Holds fr d → fr.isExpiredAt now = false → fr.createdAt ≠ now
  collision : ∀ old, (store.place (bodyName (store.hash bytes)), Content.raw old) ∈ d.files →
    old = bytes

/-- The body that a put makes sure of. -/
theorem Clean.ensureBody {now : Int} {d : Disk} {m : Memory} (h : store.Clean now d m)
    (bytes : List UInt8) (hcollision : ∀ old,
      (store.place (bodyName (store.hash bytes)), Content.raw old) ∈ d.files → old = bytes) :
    ∃ d', (if (store.find (bodyName (store.hash bytes)) d).isSome then d
        else store.writeFile (bodyName (store.hash bytes)) (.raw bytes) d) = d' ∧
      store.Clean now d' m ∧
      (∃ bodies, store.Sound bodies d' ∧ store.HasBody bodies (store.hash bytes) d') ∧
      (store.place (bodyName (store.hash bytes)), Content.raw bytes) ∈ d'.files ∧
      ∀ name fr, (store.place name, Content.sidecar fr) ∈ d'.files ↔
        (store.place name, Content.sidecar fr) ∈ d.files := by
  obtain ⟨bodies, hd⟩ := h.sound
  have hplain := plain_bodyName _ (store.hash_digest bytes)
  obtain ⟨d', hd', hsound, hbody, hside⟩ := store.ensureBody bytes d
    (hd.mono store (List.subset_cons_self bytes bodies)) List.mem_cons_self
  have hholds : ∀ fr, store.Holds fr d' ↔ store.Holds fr d := fun fr =>
    exists_congr fun name => hside name fr
  -- The bodies that were there stay, and this one holds these bytes.
  have hkept : (∀ hex old, (store.place (bodyName hex), Content.raw old) ∈ d.files →
        (store.place (bodyName hex), Content.raw old) ∈ d'.files) ∧
      (store.place (bodyName (store.hash bytes)), Content.raw bytes) ∈ d'.files := by
    rw [← hd']
    split
    next hfound =>
      refine ⟨fun _ _ h => h, ?_⟩
      rw [if_pos hfound] at hd'
      obtain ⟨old, -, -, hold⟩ := hbody
      rw [← hd'] at hold
      obtain rfl := hcollision old hold
      exact hold
    next hmissing =>
      have hmem := store.mem_writeFile_plain (bodyName (store.hash bytes)) (.raw bytes) d hplain
      refine ⟨fun hex old hold => (hmem _).mpr (.inl ⟨hold, fun heq => ?_⟩),
        (hmem _).mpr (.inr rfl)⟩
      have hplace : store.place (bodyName hex) = store.place (bodyName (store.hash bytes)) := heq
      rw [hplace] at hold
      rw [store.find_of_mem _ d _ hd.unique hplain hold] at hmissing
      exact hmissing rfl
  refine ⟨d', hd', ⟨⟨⟨_, hsound⟩, ?_, h.formed, ?_, ?_⟩, ?_, h.memoryLive⟩, ⟨_, hsound, hbody⟩,
    hkept.2, hside⟩
  · intro name name' fr fr' hfr hfr'
    exact h.timed name name' fr fr' ((hside name fr).mp hfr) ((hside name' fr').mp hfr')
  · exact fun fr hlive => (hholds fr).trans (h.refs fr hlive)
  · exact fun e he hex fr huri hfr hlive =>
      hkept.1 hex e.bytes (h.bodies e he hex fr huri hfr hlive)
  · exact fun fr hfr => h.diskLive fr ((hholds fr).mp hfr)

/-- The sidecar of a new reference, and the reference in the map. -/
theorem Clean.create {now : Int} {d : Disk} {m : Memory} (h : store.Clean now d m)
    (bytes : List UInt8) (o : PutOptions) (fr : FileRef)
    (hfr : store.makeFileRef (makeUriSha256 (store.hash bytes)) (store.hash bytes) bytes.length o
      now = .ok fr)
    (hsound : ∃ bodies, store.Sound bodies d ∧ store.HasBody bodies (store.hash bytes) d)
    (hbody : (store.place (bodyName (store.hash bytes)), Content.raw bytes) ∈ d.files)
    (hfree : ∀ content, (store.place (sidecarName (store.hash bytes) (store.logicalSidecarKey o)),
      content) ∉ d.files)
    (hinstant : ∀ fr', store.Holds fr' d → fr'.createdAt ≠ now) :
    store.Alike now (store.writeFile (sidecarName (store.hash bytes) (store.logicalSidecarKey o))
      (.sidecar fr) d) (m.push fr bytes) := by
  obtain ⟨bodies, hd, hhas⟩ := hsound
  obtain ⟨hdigest, huri⟩ := store.makeFileRef_hex _ _ _ _ _ fr hfr
  have hcreated := store.makeFileRef_createdAt _ _ _ _ _ fr hfr
  have hplain := store.plain_key bytes o
  have hmem := store.mem_writeFile_plain
    (sidecarName (store.hash bytes) (store.logicalSidecarKey o)) (.sidecar fr) d hplain
  have hold : ∀ name content, (store.place name, content) ∈ d.files → (store.place name, content) ∈
      (store.writeFile (sidecarName (store.hash bytes) (store.logicalSidecarKey o)) (.sidecar fr)
        d).files := by
    refine fun name content hin => (hmem _).mpr (.inl ⟨hin, fun heq => ?_⟩)
    have hplace : store.place name =
        store.place (sidecarName (store.hash bytes) (store.logicalSidecarKey o)) := heq
    rw [hplace] at hin
    exact hfree content hin
  have hholds : ∀ fr', store.Holds fr' (store.writeFile
      (sidecarName (store.hash bytes) (store.logicalSidecarKey o)) (.sidecar fr) d) ↔
        store.Holds fr' d ∨ fr' = fr := by
    intro fr'
    constructor
    · rintro ⟨name, hname⟩
      rcases (hmem _).mp hname with ⟨hin, -⟩ | hnew
      · exact .inl ⟨name, hin⟩
      · obtain ⟨-, hcontent⟩ := Prod.mk.inj hnew
        exact .inr (Content.sidecar.inj hcontent)
    · rintro (⟨name, hin⟩ | rfl)
      · exact ⟨name, hold name _ hin⟩
      · exact ⟨_, (hmem _).mpr (.inr rfl)⟩
  refine ⟨⟨bodies, hd.writeSidecar store _ _ fr (store.hash_digest bytes) hplain hdigest huri hhas⟩,
    ?_, h.formed.push fr bytes (fun fr' hfr' heq => ?_), fun fr' _ => ?_, ?_⟩
  · intro name name' a b ha hb heq
    rcases (hmem _).mp ha with ⟨hina, -⟩ | hnewa <;> rcases (hmem _).mp hb with ⟨hinb, -⟩ | hnewb
    · exact h.timed name name' a b hina hinb heq
    · cases Content.sidecar.inj (Prod.mk.inj hnewb).2
      exact absurd (heq.trans hcreated) (hinstant a ⟨name, hina⟩)
    · cases Content.sidecar.inj (Prod.mk.inj hnewa).2
      exact absurd (heq.symm.trans hcreated) (hinstant b ⟨name', hinb⟩)
    · have hplace := (Prod.mk.inj hnewa).1.trans (Prod.mk.inj hnewb).1.symm
      exact store.place_inj _ _ hplace
  · exact hinstant fr' ((h.holds_iff store fr').mpr hfr') (heq.symm.trans hcreated)
  · rw [hholds, Memory.mem_refs_push, h.holds_iff store]
  · intro e' he' hex fr' huri' hfr' hlive
    rcases (Memory.mem_push m fr bytes e').mp he' with ⟨he, -⟩ | ⟨e, he, -, rfl⟩ | ⟨-, rfl⟩
    · exact hold _ _ (h.bodies e' he hex fr' huri' hfr' hlive)
    · -- The entry had a reference before, and its body is that one's.
      obtain ⟨first, hfirst⟩ := List.exists_mem_of_ne_nil _ (h.formed.some e he)
      exact hold _ _ (h.bodies e he hex first huri' hfirst
        (h.memoryLive first ((Memory.mem_refs first m).mpr ⟨e, he, hfirst⟩)))
    · have hsame : store.hash bytes = hex := List.append_cancel_left (huri.symm.trans huri')
      rw [← hsame]
      exact hold _ _ hbody

/-- The second half of a put, in both. -/
theorem Clean.createWithin {now : Int} {d : Disk} {m : Memory} (h : store.Clean now d m)
    (bytes : List UInt8) (o : PutOptions)
    (hfree : ∀ content, (store.place (sidecarName (store.hash bytes) (store.logicalSidecarKey o)),
      content) ∉ d.files)
    (hinstant : ∀ fr, store.Holds fr d → fr.createdAt ≠ now)
    (hcollision : ∀ old, (store.place (bodyName (store.hash bytes)), Content.raw old) ∈ d.files →
      old = bytes) (r : Except PutError FileRef × Memory)
    (hr : (match store.makeFileRef (makeUriSha256 (store.hash bytes)) (store.hash bytes)
        bytes.length o now with
      | .error failure => (.error (.failure failure), m)
      | .ok fr => (.ok fr, (m.push fr bytes).enforceRetention limits now)) = r) :
    (store.createWithin limits bytes o now d).1 = r.1 ∧
      store.Alike now (store.createWithin limits bytes o now d).2 r.2 := by
  obtain ⟨d', hd', hclean, hsound, hbody, hside⟩ := h.ensureBody store bytes hcollision
  have hholds : ∀ fr, store.Holds fr d' ↔ store.Holds fr d := fun fr =>
    exists_congr fun name => hside name fr
  have hfree' : ∀ content, (store.place (sidecarName (store.hash bytes)
      (store.logicalSidecarKey o)), content) ∉ d'.files := by
    intro content hin
    obtain ⟨bodies, hd'', -⟩ := hsound
    obtain ⟨_, _, fr, _, _, _, rfl, _⟩ := hd''.listed store _ content
      (isJson_sidecarName _ _ (digest_ne_nil _ (store.hash_digest bytes))) hin
    exact hfree _ ((hside _ fr).mp hin)
  subst hr
  unfold Store.createWithin
  dsimp only
  rw [hd']
  cases hfr : store.makeFileRef (makeUriSha256 (store.hash bytes)) (store.hash bytes)
      bytes.length o now with
  | error failure => exact ⟨rfl, hclean.toAlike⟩
  | ok fr =>
      have hcreated := hclean.create store bytes o fr hfr hsound hbody hfree'
        fun fr' hfr' => hinstant fr' ((hholds fr').mp hfr')
      exact ⟨rfl, (hcreated.enforce store limits (Int.le_refl now)).toAlike⟩

/-- A put of both. -/
theorem Alike.put {t now : Int} {d : Disk} {m : Memory} (h : store.Alike t d m) (hle : t ≤ now)
    (body : Option (List UInt8)) (o : PutOptions)
    (hmeets : ∀ bytes, body = some bytes → exceeds limits.maxBodyBytes bytes.length = false →
      store.Undisputed bytes o now d) :
    (store.putWithin limits body o now d).1.map FileRef.uri =
        (m.put store limits body o now).1.map FileRef.uri ∧
      store.Alike now (store.putWithin limits body o now d).2
        (m.put store limits body o now).2 := by
  have hdisk := h.cleanDisk store hle
  have hclean := h.clean store hle
  obtain ⟨bodies, hold⟩ := h.sound
  obtain ⟨bodies', hd⟩ := hclean.sound
  unfold putWithin Memory.put
  dsimp only
  cases body with
  | none => exact ⟨rfl, hdisk⟩
  | some bytes =>
      dsimp only
      split
      next => exact ⟨rfl, hdisk⟩
      next hwithin =>
        have hmeets' := hmeets bytes rfl (Bool.eq_false_iff.mpr hwithin)
        have hdigest := store.hash_digest bytes
        have hplain := store.plain_key bytes o
        have hjson := isJson_sidecarName (store.hash bytes) (store.logicalSidecarKey o)
          (digest_ne_nil _ hdigest)
        have hsub := (store.cleanupExpired_live now d hold).1
        have hfiles := store.readFile_files
          (sidecarName (store.hash bytes) (store.logicalSidecarKey o))
          (store.cleanupExpired now d)
        -- Nothing is where the sidecar goes, if nothing was read.
        have hfree : (store.readFile (sidecarName (store.hash bytes) (store.logicalSidecarKey o))
            (store.cleanupExpired now d)).1 = none → ∀ content,
            (store.place (sidecarName (store.hash bytes) (store.logicalSidecarKey o)), content) ∉
              (store.cleanupExpired now d).files := by
          intro hread content hin
          rw [store.readFile_of_mem _ _ _ hd.unique hplain hin] at hread
          cases hread
        split
        next existing d' heq =>
          rw [heq] at hfiles
          have hplace := store.mem_of_readFile _ _ _ hplain (congrArg Prod.fst heq)
          have hlive := hclean.diskLive existing ⟨_, hplace⟩
          obtain ⟨hex, key, hhex, hname, -, -, -, huri⟩ := hd.sidecar store _ existing hplace
          have hmatch := isSidecarOf_self (store.hash bytes) (store.logicalSidecarKey o)
          rw [hname] at hmatch
          rw [← eq_of_isSidecarOf _ _ _ hdigest hhex hmatch] at huri
          have hnot : o.hasLogicalMetadata = false := by
            refine Bool.eq_false_iff.mpr (fun hlogical => ?_)
            rw [hmeets'.logical hlogical existing (hsub hplace)] at hlive
            cases hlive
          rw [if_neg (by rw [hlive]; exact Bool.false_ne_true)]
          -- The memory has some reference of the bytes too.
          cases hexisting :
            (m.cleanupExpired now).existing (makeUriSha256 (store.hash bytes)) o with
          | none =>
              have hheld := (hclean.holds_iff store existing).mp ⟨_, hplace⟩
              rcases (Memory.existing_eq_none _ hclean.formed _ o).mp hexisting with
                hlogical | hnone
              · rw [hnot] at hlogical
                cases hlogical
              · exact absurd huri (hnone existing hheld)
          | some fr =>
              refine ⟨?_, hclean.toAlike.congr store hfiles⟩
              exact congrArg Except.ok
                (huri.trans (Memory.existing_uri _ hclean.formed _ o fr hexisting).symm)
        next raw d' heq =>
          obtain ⟨_, _, _, _, _, _, hsidecar, _⟩ := hd.listed store _ _ hjson
            (store.mem_of_readFile _ _ _ hplain (congrArg Prod.fst heq))
          cases hsidecar
        next d' heq =>
          rw [heq] at hfiles
          have hfree' := hfree (congrArg Prod.fst heq)
          have hnone : (m.cleanupExpired now).existing (makeUriSha256 (store.hash bytes)) o =
              none := by
            refine (Memory.existing_eq_none _ hclean.formed _ o).mpr ?_
            cases hlogical : o.hasLogicalMetadata with
            | true => exact .inl rfl
            | false =>
                refine .inr (fun fr hfr huri => ?_)
                have hkey : store.logicalSidecarKey o = none := by
                  unfold logicalSidecarKey
                  rw [hlogical]
                  rfl
                have hheld := (store.holds_cleanupExpired now d hold fr).mp
                  ((hclean.holds_iff store fr).mpr hfr)
                obtain ⟨fr', hmem, hlive⟩ := hmeets'.primary hlogical fr hheld.1 huri hheld.2
                have hmem' := (store.mem_cleanupExpired now d hold _ fr').mpr ⟨hmem, hlive⟩
                rw [← hkey] at hmem'
                exact hfree' _ hmem'
          rw [hnone]
          have hclean' := hclean.congr store hfiles
          obtain ⟨hfirst, hsecond⟩ := hclean'.createWithin store limits bytes o
            (fun content hin => hfree' content (hfiles ▸ hin))
            (fun fr ⟨name, hname⟩ => by
              rw [hfiles] at hname
              exact hmeets'.instant fr ⟨name, hsub hname⟩ (hclean.diskLive fr ⟨name, hname⟩))
            (fun old hin => hmeets'.collision old (hsub (hfiles ▸ hin))) _ rfl
          exact ⟨congrArg (Except.map FileRef.uri) hfirst, hsecond⟩

/-! ## Runs of both -/

end Store

/-- The text of a digest. -/
abbrev Digest := { hex : Name // isDigest hex = true }

def Digest.uri (hex : Digest) : Name := makeUriSha256 hex.1

/-- What both backends are asked. A put without options has the default ones. -/
inductive Request
  | put (body : Option (List UInt8)) (o : PutOptions) (now : Int)
  | get (hex : Digest) (now : Int)
  | head (hex : Digest) (now : Int)
  | list (f : Filter) (now : Int)
  | delete (hex : Digest)

inductive Answer
  | stored (r : Except PutError FileRef)
  | body (r : Except Failure (Option (List UInt8)))
  | found (r : Except Failure (Option FileRef))
  | refs (refs : List FileRef)
  | deleted (r : Except Failure Unit)

/-- The same bytes and presence, and the same references in any order. -/
def Answer.Agrees : Answer → Answer → Prop
  | .stored r, .stored r' => r.map FileRef.uri = r'.map FileRef.uri
  | .body r, .body r' => r = r'
  | .found r, .found r' => r.map Option.isSome = r'.map Option.isSome
  | .refs l, .refs l' => l.Perm l'
  | .deleted r, .deleted r' => r = r'
  | _, _ => False

/-- The two backends, the last instant they have seen, and what each has answered. -/
structure Backends where
  disk : Disk
  memory : Memory
  clock : Int
  answers : List (Answer × Answer)

/-- Both are opened, the one in memory empty. -/
def Backends.opened (d : Disk) (now : Int) : Backends := ⟨d, [], now, []⟩

namespace Store

variable (store : Store) (limits : Limits)

def onDisk (d : Disk) : Request → Answer × Disk
  | .put body o now => let r := store.putWithin limits body o now d; (.stored r.1, r.2)
  | .get hex now => let r := store.get hex.uri now d; (.body r.1, r.2)
  | .head hex now => let r := store.head hex.uri now d; (.found r.1, r.2)
  | .list f now => let r := store.list f now d; (.refs r.1, r.2)
  | .delete hex => let r := store.delete hex.uri d; (.deleted r.1, r.2)

def inMemory (m : Memory) : Request → Answer × Memory
  | .put body o now => let r := m.put store limits body o now; (.stored r.1, r.2)
  | .get hex now => let r := m.get hex.uri now; (.body (.ok r.1), r.2)
  | .head hex now => let r := m.head hex.uri now; (.found (.ok r.1), r.2)
  | .list f now => let r := m.list f now; (.refs r.1, r.2)
  | .delete hex => (.deleted (.ok ()), m.delete hex.uri)

/-- The instant of a request; a delete looks at no clock. -/
def instantOf (clock : Int) : Request → Int
  | .put _ _ now => now
  | .get _ now => now
  | .head _ now => now
  | .list _ now => now
  | .delete _ => clock

/-- Both are asked at one instant, which is not before the last. -/
def request (s : Backends) (r : Request) : Option Backends :=
  if s.clock ≤ instantOf s.clock r then
    let onDisk := store.onDisk limits s.disk r
    let inMemory := store.inMemory limits s.memory r
    some ⟨onDisk.2, inMemory.2, instantOf s.clock r, s.answers ++ [(onDisk.1, inMemory.1)]⟩
  else none

/-- The requests that do not divide the backends. -/
def Meets (s : Backends) : Request → Prop
  | .put body o now => ∀ bytes, body = some bytes →
    exceeds limits.maxBodyBytes bytes.length = false → store.Undisputed bytes o now s.disk
  | .head hex now => store.HeadSafe hex.1 now s.disk
  | _ => True

theorem request_cases (s u : Backends) (r : Request) (h : store.request limits s r = some u) :
    s.clock ≤ instantOf s.clock r ∧ u = ⟨(store.onDisk limits s.disk r).2,
      (store.inMemory limits s.memory r).2, instantOf s.clock r,
      s.answers ++ [((store.onDisk limits s.disk r).1, (store.inMemory limits s.memory r).1)]⟩ := by
  unfold request at h
  split at h
  next hle => exact ⟨hle, (Option.some.inj h).symm⟩
  next => cases h

/-- Backends that are alike give answers that agree and stay alike. -/
theorem agrees_request (s : Backends) (r : Request)
    (halike : store.Alike s.clock s.disk s.memory) (hle : s.clock ≤ instantOf s.clock r)
    (hmeets : store.Meets limits s r) :
    (store.onDisk limits s.disk r).1.Agrees (store.inMemory limits s.memory r).1 ∧
      store.Alike (instantOf s.clock r) (store.onDisk limits s.disk r).2
        (store.inMemory limits s.memory r).2 := by
  cases r with
  | put body o now => exact halike.put store limits hle body o hmeets
  | get hex now => exact halike.get store hle hex.1 hex.2
  | head hex now => exact halike.head store hle hex.1 hex.2 hmeets
  | list f now => exact halike.list store hle f
  | delete hex =>
      have hdelete := store.delete_eq hex.1 s.disk
      refine ⟨?_, ?_⟩
      · exact congrArg Prod.fst hdelete
      · have halike' := halike.delete store hex.1 hex.2
        unfold onDisk Digest.uri
        dsimp only
        rw [hdelete]
        exact halike'

/-- A disk without files in the root and an empty map are alike. -/
theorem alike_opened (d : Disk) (now : Int) (hunique : Unique d)
    (hfresh : ∀ name content, (store.place name, content) ∉ d.files) : store.Alike now d [] where
  sound := ⟨[], hunique, fun name content h => absurd h (hfresh name content),
    fun _ _ _ ⟨_, _, h⟩ => absurd h (hfresh _ _)⟩
  timed := fun name _ _ _ h => absurd h (hfresh name _)
  formed := ⟨List.Pairwise.nil, fun _ h => absurd h List.not_mem_nil,
    fun _ h => absurd h List.not_mem_nil, List.Pairwise.nil⟩
  refs := fun _ _ => iff_of_false (fun ⟨name, h⟩ => hfresh name _ h) List.not_mem_nil
  bodies := fun _ h => absurd h List.not_mem_nil

theorem backends_agree (d : Disk) (start : Int) (hunique : Unique d)
    (hfresh : ∀ name content, (store.place name, content) ∉ d.files) (requests : List Request)
    (s : Backends)
    (hrun : Machine.exec (store.request limits) (Backends.opened d start) requests = some s)
    (hmeets : Machine.Along (store.request limits) (store.Meets limits) (Backends.opened d start)
      requests) :
    (∀ p ∈ s.answers, p.1.Agrees p.2) ∧
      (∀ f now, s.clock ≤ now → (store.list f now s.disk).1.Perm (s.memory.list f now).1) ∧
      ∀ (hex : Digest) (now : Int), s.clock ≤ now →
        (store.get hex.uri now s.disk).1 = .ok (s.memory.get hex.uri now).1 := by
  have hinv : (∀ p ∈ s.answers, p.1.Agrees p.2) ∧ store.Alike s.clock s.disk s.memory := by
    refine Machine.exec_history (store.request limits) (store.Meets limits)
      (fun _ t => (∀ p ∈ t.answers, p.1.Agrees p.2) ∧ store.Alike t.clock t.disk t.memory)
      (Backends.opened d start) ⟨fun _ h => absurd h List.not_mem_nil,
        store.alike_opened d start hunique hfresh⟩ ?_ requests s hmeets hrun
    rintro _ t r u ⟨hagree, halike⟩ hmeets' hstep
    obtain ⟨hle, rfl⟩ := store.request_cases limits t u r hstep
    obtain ⟨hanswer, halike'⟩ := store.agrees_request limits t r halike hle hmeets'
    refine ⟨fun p hp => ?_, halike'⟩
    rcases List.mem_append.mp hp with hold | hnew
    · exact hagree p hold
    · rw [List.mem_singleton.mp hnew]
      exact hanswer
  exact ⟨hinv.1, fun f now hle => (hinv.2.list store hle f).1,
    fun hex now hle => (hinv.2.get store hle hex.1 hex.2).1⟩

def noLimits : Limits := ⟨none, none, none⟩

/-- One byte is put without options, and the references are listed. -/
def putAndList : List Request := [.put (some [1]) PutOptions.default 0, .list Filter.default 1]

/-- How many references an answer lists. -/
def listed : Answer → Nat
  | .refs refs => refs.length
  | _ => 0

theorem putAndList_run :
    (Machine.exec (plainStore.request noLimits) (Backends.opened ⟨[], []⟩ 0) putAndList).map
        (fun s => s.answers.map fun p => (listed p.1, listed p.2)) = some [(0, 0), (1, 1)] := by
  decide +kernel

theorem backends_agree_putAndList :
    ∃ s, Machine.exec (plainStore.request noLimits) (Backends.opened ⟨[], []⟩ 0) putAndList =
        some s ∧ s.answers.map (fun p => (listed p.1, listed p.2)) = [(0, 0), (1, 1)] ∧
      ∀ p ∈ s.answers, p.1.Agrees p.2 := by
  obtain ⟨s, hrun, hs⟩ := Option.map_eq_some_iff.mp putAndList_run
  refine ⟨s, hrun, hs, (backends_agree plainStore noLimits ⟨[], []⟩ 0 List.nodup_nil
    (fun _ _ h => absurd h List.not_mem_nil) putAndList s hrun ⟨?_, fun t _ => ⟨trivial,
      fun _ _ => trivial⟩⟩).1⟩
  exact fun bytes _ _ => ⟨fun _ _ h => absurd h List.not_mem_nil,
    fun _ _ ⟨_, h⟩ => absurd h List.not_mem_nil, fun _ ⟨_, h⟩ => absurd h List.not_mem_nil,
    fun _ h => absurd h List.not_mem_nil⟩

/-- The same byte is put twice with the same type, and the references are listed. -/
def putTwice : List Request :=
  [.put (some [1]) { PutOptions.default with mime := some "text/plain" } 0,
    .put (some [1]) { PutOptions.default with mime := some "text/plain" } 1,
    .list Filter.default 2]

/-- The disk has one reference, and the memory two. -/
theorem put_twice_divides :
    ∃ s, Machine.exec (plainStore.request noLimits) (Backends.opened ⟨[], []⟩ 0) putTwice =
        some s ∧ ∃ p ∈ s.answers, ¬ p.1.Agrees p.2 := by
  have hrun : (Machine.exec (plainStore.request noLimits) (Backends.opened ⟨[], []⟩ 0)
      putTwice).map (fun s => (s.answers.map fun p => (listed p.1, listed p.2)).getLast?) =
        some (some (1, 2)) := by
    decide +kernel
  obtain ⟨s, hs, hlast⟩ := Option.map_eq_some_iff.mp hrun
  obtain ⟨p, hp, hcounts⟩ := List.mem_map.mp (List.mem_of_getLast? hlast)
  refine ⟨s, hs, p, hp, fun hagrees => ?_⟩
  obtain ⟨hdisk, hmemory⟩ := Prod.mk.inj hcounts
  -- Lists of one and of two references are not the same in any order.
  have hsame : listed p.1 = listed p.2 := by
    rcases p with ⟨a, b⟩
    cases a <;> cases b <;> first | rfl | exact hagrees.elim | exact List.Perm.length_eq hagrees
  omega

end Store

end Artefact

end DccMcp
