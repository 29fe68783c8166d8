import DccMcp.Artefact.Confinement

/-!
# Lifetime of Artefacts

How long a reference that a put has returned stays readable. Several
references share one body, and each has a sidecar and an expiry of its own.
The body has to be there as long as one of the sidecars is.

That every sidecar has its body is the invariant. A cleanup keeps it, because
it removes a body only after it has listed no sidecar for it, and so does a
delete by the digest, which takes the sidecars too. What a cleanup removes has
expired, so an unexpired sidecar is only lost to a delete. The trouble is that
a head deletes as well: it looks at one of the sidecars, and if that one has
expired it deletes the URI, with the other references to the same bytes.

The other limit is a conversion. A time to live beyond what a duration can
hold in milliseconds, but still within 64 bits, makes the put panic.

## Main definitions

* `Sound`: The files of the root are the store's own, and every sidecar has
  its body.
* `State`, `step`: A store in use, with what it has promised.
* `Careful`: The operations that do not reach the two defects.

## Theorems

* `readable`: Along a run, every unexpired reference is listed and its bytes
  can be read, and nothing panics.
-/

namespace DccMcp

namespace Artefact

namespace Store

variable (store : Store)

variable (now : Int) (name : Name) (hex : Name) (key : Option Name)

theorem isJson_sidecarName (h : hex ≠ []) : isJson (sidecarName hex key) = true := by
  unfold isJson
  rw [Bool.and_eq_true, List.isSuffixOf_iff_suffix, bne_iff_ne]
  cases key with
  | none =>
      refine ⟨List.suffix_append _ _, fun heq => h ?_⟩
      exact List.append_left_eq_self.mp heq
  | some k =>
      refine ⟨List.suffix_append _ _, fun heq => ?_⟩
      have hnil := List.append_left_eq_self.mp heq
      exact absurd (List.append_eq_nil_iff.mp hnil).2 (List.cons_ne_nil _ _)

theorem sidecarName_eq : ∃ rest, sidecarName hex key = hex ++ '.' :: rest := by
  cases key with
  | none => exact ⟨['j', 's', 'o', 'n'], rfl⟩
  | some k => exact ⟨k ++ jsonExt, List.append_assoc hex ('.' :: k) jsonExt⟩

theorem isSidecarOf_self : isSidecarOf hex (sidecarName hex key) = true := by
  obtain ⟨rest, hrest⟩ := sidecarName_eq hex key
  unfold isSidecarOf
  rw [Bool.or_eq_true, List.isPrefixOf_iff_prefix, hrest]
  exact .inr ⟨rest, by rw [List.append_assoc]; rfl⟩

/-- Text before the first dot. -/
theorem eq_of_dot (hex hex' rest rest' : Name) (h : '.' ∉ hex) (h' : '.' ∉ hex')
    (heq : hex ++ '.' :: rest = hex' ++ '.' :: rest') : hex = hex' := by
  induction hex generalizing hex' with
  | nil =>
      cases hex' with
      | nil => rfl
      | cons c hex' =>
          have hc : '.' = c := (List.cons.inj heq).1
          rw [← hc] at h'
          exact absurd List.mem_cons_self h'
  | cons c hex ih =>
      cases hex' with
      | nil =>
          have hc : c = '.' := (List.cons.inj heq).1
          rw [hc] at h
          exact absurd List.mem_cons_self h
      | cons c' hex' =>
          obtain ⟨hc, hrest⟩ := List.cons.inj heq
          rw [hc, ih hex' (fun hmem => h (List.mem_cons_of_mem c hmem))
            (fun hmem => h' (List.mem_cons_of_mem c' hmem)) hrest]

/-- A sidecar belongs to one digest. -/
theorem eq_of_isSidecarOf (hex hex' : Name) (key : Option Name) (h : isDigest hex = true)
    (h' : isDigest hex' = true) (hmatch : isSidecarOf hex (sidecarName hex' key) = true) :
    hex = hex' := by
  obtain ⟨rest', hrest'⟩ := sidecarName_eq hex' key
  have hdots := (digest_chars hex h).2
  have hdots' := (digest_chars hex' h').2
  unfold isSidecarOf at hmatch
  rw [Bool.or_eq_true, beq_iff_eq, List.isPrefixOf_iff_prefix, hrest'] at hmatch
  rcases hmatch with heq | ⟨rest, heq⟩
  · exact (eq_of_dot hex' hex rest' ['j', 's', 'o', 'n'] hdots' hdots heq).symm
  · rw [List.append_assoc] at heq
    exact eq_of_dot hex hex' rest rest' hdots hdots' heq

theorem sidecarName_ne_bodyName (hex hex' : Name) (key : Option Name) :
    sidecarName hex key ≠ bodyName hex' := by
  intro heq
  have hjson : jsonExt <:+ sidecarName hex key := by
    cases key with
    | none => exact List.suffix_append _ _
    | some k => exact List.suffix_append _ _
  have hbin : binExt <:+ sidecarName hex key := heq ▸ List.suffix_append hex' binExt
  have hsuffix := List.suffix_of_suffix_length_le hbin hjson (by decide)
  exact absurd hsuffix (by decide)

theorem digest_length (h : isDigest hex = true) : hex.length = 64 :=
  beq_iff_eq.mp (Bool.and_eq_true_iff.mp h).1

theorem digest_ne_nil (h : isDigest hex = true) : hex ≠ [] := by
  rintro rfl
  cases h

/-- The place of a file of the root. -/
def place (name : Name) : Location := store.root ++ [name]

theorem place_inj (name name' : Name) (h : store.place name = store.place name') : name = name' :=
  (List.cons.inj (List.append_cancel_left h)).1

/-- A name of the store: one component. -/
structure Plain (name : Name) : Prop where
  slash : '/' ∉ name
  long : 2 < name.length

theorem plain_bodyName (h : isDigest hex = true) : Plain (bodyName hex) := by
  refine ⟨fun hmem => ?_, ?_⟩
  · rcases List.mem_append.mp hmem with hmem | hmem
    · exact (digest_chars hex h).1 hmem
    · exact absurd hmem (by decide)
  · have hlength := digest_length hex h
    rw [bodyName, List.length_append]
    omega

theorem plain_sidecarName (h : isDigest hex = true) (hkey : ∀ k, key = some k → '/' ∉ k) :
    Plain (sidecarName hex key) := by
  refine ⟨slash_sidecarName hex key (digest_chars hex h).1 hkey, ?_⟩
  have hlength := digest_length hex h
  obtain ⟨rest, hrest⟩ := sidecarName_eq hex key
  rw [hrest, List.length_append]
  omega

/-- Where a plain name is removed, its place is empty, and nothing else is. -/
theorem mem_removeFile_plain (d : Disk) (hname : Plain name) (file : Location × Content) :
    file ∈ (store.removeFile name d).files ↔ file ∈ d.files ∧ file.1 ≠ store.place name := by
  have hresolve := store.resolve_of_name name hname.slash hname.long
  rw [store.mem_removeFile]
  refine and_congr_right (fun hmem => ⟨fun h heq => ?_, fun h loc content hfind => ?_⟩)
  · obtain ⟨content, hfind⟩ := store.find_isSome_of_mem name d file.1 file.2
      (heq ▸ hresolve) hmem
    exact h _ content hfind rfl
  · have hloc := (store.mem_of_find name d loc content hfind).1
    rw [hresolve, Option.some.injEq] at hloc
    exact hloc ▸ h

/-- No place holds two files. -/
def Unique (d : Disk) : Prop := (d.files.map (·.1)).Nodup

theorem Unique.content {d : Disk} (hd : Unique d) (loc : Location) (c c' : Content)
    (h : (loc, c) ∈ d.files) (h' : (loc, c') ∈ d.files) : c = c' := by
  have heq := List.inj_on_of_nodup_map hd h h' rfl
  exact (Prod.mk.inj heq).2

theorem find_of_mem (d : Disk) (content : Content) (hd : Unique d) (hname : Plain name)
    (h : (store.place name, content) ∈ d.files) :
    store.find name d = some (store.place name, content) := by
  have hresolve := store.resolve_of_name name hname.slash hname.long
  obtain ⟨content', hfind⟩ := store.find_isSome_of_mem name d _ content hresolve h
  have hmem := (store.mem_of_find name d _ content' hfind).2
  rw [hfind, hd.content _ _ _ hmem h]
  rfl

/-- What is read under a name of the store is the file of that name. -/
theorem mem_of_readFile (d : Disk) (content : Content) (hname : Plain name)
    (h : (store.readFile name d).1 = some content) : (store.place name, content) ∈ d.files := by
  rw [store.readFile_content] at h
  obtain ⟨⟨loc, content'⟩, hfind, heq⟩ := Option.map_eq_some_iff.mp h
  obtain ⟨hresolve, hmem⟩ := store.mem_of_find name d loc content' hfind
  rw [store.resolve_of_name name hname.slash hname.long, Option.some.injEq] at hresolve
  have heq' : content' = content := heq
  rw [place, hresolve, ← heq']
  exact hmem

theorem readFile_of_mem (d : Disk) (content : Content) (hd : Unique d) (hname : Plain name)
    (h : (store.place name, content) ∈ d.files) :
    (store.readFile name d).1 = some content := by
  rw [store.readFile_content, store.find_of_mem name d content hd hname h]
  rfl

theorem unique_removeFile (d : Disk) (hd : Unique d) : Unique (store.removeFile name d) := by
  unfold removeFile
  split
  next => exact (List.filter_sublist.map _).nodup hd
  next => exact hd

theorem unique_writeFile (content : Content) (d : Disk) (hd : Unique d) :
    Unique (store.writeFile name content d) := by
  unfold writeFile
  split
  next loc _ =>
    unfold Unique
    dsimp only
    rw [List.map_append, List.nodup_append]
    refine ⟨(List.filter_sublist.map _).nodup hd, List.nodup_singleton _, ?_⟩
    intro a ha b hb heq
    obtain ⟨file, hfile, rfl⟩ := List.mem_map.mp ha
    have hb' : b = loc := List.mem_singleton.mp hb
    have hne := (List.mem_filter.mp hfile).2
    rw [bne_iff_ne] at hne
    exact hne (heq.trans hb')
  next => exact hd

theorem mem_writeFile_plain (content : Content) (d : Disk) (hname : Plain name)
    (file : Location × Content) : file ∈ (store.writeFile name content d).files ↔
      (file ∈ d.files ∧ file.1 ≠ store.place name) ∨ file = (store.place name, content) := by
  unfold writeFile
  rw [store.resolve_of_name name hname.slash hname.long]
  simp [bne_iff_ne, place]

/-- Some reference of the bytes has a sidecar. -/
def HasSidecar (hex : Name) (fr : FileRef) (d : Disk) : Prop :=
  ∃ key, Plain (sidecarName hex key) ∧ (store.place (sidecarName hex key), .sidecar fr) ∈ d.files

/-- The body of a digest is there, and it is one of those that were put. -/
def HasBody (bodies : List (List UInt8)) (hex : Name) (d : Disk) : Prop :=
  ∃ bytes ∈ bodies, store.hash bytes = hex ∧
    (store.place (bodyName hex), .raw bytes) ∈ d.files

/-- The files of the root are the store's own, and every sidecar has its
    body. -/
structure Sound (bodies : List (List UInt8)) (d : Disk) : Prop where
  unique : Unique d
  own : ∀ name content, (store.place name, content) ∈ d.files →
    (∃ bytes ∈ bodies, name = bodyName (store.hash bytes) ∧ content = .raw bytes) ∨
      ∃ hex key fr, isDigest hex = true ∧ name = sidecarName hex key ∧ Plain name ∧
        content = .sidecar fr ∧ fr.sha256Hex = some hex ∧ fr.uri = makeUriSha256 hex
  body : ∀ hex fr, isDigest hex = true → store.HasSidecar hex fr d → store.HasBody bodies hex d

variable {bodies : List (List UInt8)}

theorem Sound.congr {d d' : Disk} (hd : store.Sound bodies d) (h : d'.files = d.files) :
    store.Sound bodies d' := by
  refine ⟨?_, ?_, ?_⟩
  · unfold Unique
    rw [h]
    exact hd.unique
  · rw [h]
    exact hd.own
  · unfold HasSidecar HasBody
    rw [h]
    exact hd.body

/-- A listed file is a sidecar of a digest. -/
theorem Sound.listed {d : Disk} (hd : store.Sound bodies d) (name : Name) (content : Content)
    (hjson : isJson name = true) (h : (store.place name, content) ∈ d.files) :
    ∃ hex key fr, isDigest hex = true ∧ name = sidecarName hex key ∧ Plain name ∧
      content = .sidecar fr ∧ fr.sha256Hex = some hex ∧ fr.uri = makeUriSha256 hex := by
  rcases hd.own name content h with ⟨bytes, -, rfl, -⟩ | hsidecar
  · exfalso
    have hsuffix := List.isSuffixOf_iff_suffix.mp (Bool.and_eq_true_iff.mp hjson).1
    have hbin : binExt <:+ bodyName (store.hash bytes) := List.suffix_append _ _
    exact absurd (List.suffix_of_suffix_length_le hbin hsuffix (by decide)) (by decide)
  · exact hsidecar

theorem plain_of_jsonNames (d : Disk) (hd : store.Sound bodies d) :
    ∀ name ∈ store.jsonNames d, Plain name ∧ isJson name = true := by
  intro name hname
  obtain ⟨hjson, content, hmem⟩ := (store.mem_jsonNames name d).mp hname
  obtain ⟨-, -, -, -, -, hplain, -, -⟩ := hd.listed store name content hjson hmem
  exact ⟨hplain, hjson⟩

/-- The sidecars of a digest are those its listing finds. -/
theorem mem_sidecarPaths_of_sidecar (content : Content) (d : Disk) (hhex : isDigest hex = true)
    (h : (store.place (sidecarName hex key), content) ∈ d.files) :
    sidecarName hex key ∈ store.sidecarPaths hex d := by
  rw [mem_sidecarPaths, mem_jsonNames]
  exact ⟨⟨isJson_sidecarName hex key (digest_ne_nil hex hhex), content, h⟩,
    isSidecarOf_self hex key⟩

/-- Removing a sidecar leaves the bodies. -/
theorem Sound.removeSidecar {d : Disk} (hd : store.Sound bodies d) (hex : Name) (key : Option Name)
    (hname : Plain (sidecarName hex key)) :
    store.Sound bodies (store.removeFile (sidecarName hex key) d) := by
  have hmem := store.mem_removeFile_plain (sidecarName hex key) d hname
  refine ⟨store.unique_removeFile _ d hd.unique,
    fun name content h => hd.own name content ((hmem _).mp h).1, ?_⟩
  rintro hex' fr hhex' ⟨key', hplain, hfile⟩
  obtain ⟨bytes, hbytes, hhash, hbody⟩ :=
    hd.body hex' fr hhex' ⟨key', hplain, ((hmem _).mp hfile).1⟩
  refine ⟨bytes, hbytes, hhash, (hmem _).mpr ⟨hbody, fun heq => ?_⟩⟩
  exact sidecarName_ne_bodyName hex hex' key (store.place_inj _ _ heq).symm

/-- Removing a body that has no sidecar leaves the others theirs. -/
theorem Sound.removeBody {d : Disk} (hd : store.Sound bodies d) (hex : Name)
    (hhex : isDigest hex = true) (hnone : store.sidecarPaths hex d = []) :
    store.Sound bodies (store.removeFile (bodyName hex) d) := by
  have hmem := store.mem_removeFile_plain (bodyName hex) d (plain_bodyName hex hhex)
  refine ⟨store.unique_removeFile _ d hd.unique,
    fun name content h => hd.own name content ((hmem _).mp h).1, ?_⟩
  rintro hex' fr hhex' ⟨key', hplain, hfile⟩
  have hfile' := ((hmem _).mp hfile).1
  obtain ⟨bytes, hbytes, hhash, hbody⟩ := hd.body hex' fr hhex' ⟨key', hplain, hfile'⟩
  refine ⟨bytes, hbytes, hhash, (hmem _).mpr ⟨hbody, fun heq => ?_⟩⟩
  -- The body would be that of a sidecar that is listed.
  have hname := store.place_inj _ _ heq
  have hsame : hex' = hex := List.append_cancel_right hname
  have hlisted := store.mem_sidecarPaths_of_sidecar hex' key' _ d hhex' hfile'
  rw [hsame, hnone] at hlisted
  cases hlisted

theorem removeFile_congr (name : Name) (d d' : Disk) (h : d.files = d'.files) :
    (store.removeFile name d).files = (store.removeFile name d').files := by
  unfold removeFile
  rw [store.find_congr name d d' h]
  split
  next => rw [h]
  next => exact h

theorem sidecarPaths_congr (d d' : Disk) (h : d.files = d'.files) :
    store.sidecarPaths hex d = store.sidecarPaths hex d' := by
  unfold sidecarPaths
  rw [store.jsonNames_congr d d' h]

/-- What a cleanup does to one file of its listing: nothing, or the sidecar
    goes, or the sidecar and a body without one. -/
theorem cleanupFile_cases (now : Int) (d : Disk) (name : Name) (hd : store.Sound bodies d)
    (hname : Plain name) (hjson : isJson name = true) :
    (store.cleanupFile now d name).files = d.files ∨
      ∃ hex key fr, isDigest hex = true ∧ name = sidecarName hex key ∧
        (store.place name, Content.sidecar fr) ∈ d.files ∧ fr.isExpiredAt now = true ∧
        ((store.cleanupFile now d name).files = (store.removeFile name d).files ∨
          (store.sidecarPaths hex (store.removeFile name d) = [] ∧
            (store.cleanupFile now d name).files =
              (store.removeFile (bodyName hex) (store.removeFile name d)).files)) := by
  have hread := store.readFile_files name d
  unfold cleanupFile
  split
  next fr d' heq =>
    rw [heq] at hread
    have hagain := store.removeFile_congr name d' d hread
    split
    next hexpired =>
      right
      have hplace := store.mem_of_readFile name d _ hname (congrArg Prod.fst heq)
      obtain ⟨hex, key, fr', hhex, hsidecar, -, hfile, hdigest, -⟩ :=
        hd.listed store name _ hjson hplace
      cases hfile
      refine ⟨hex, key, fr, hhex, hsidecar, hplace, hexpired, ?_⟩
      dsimp only
      rw [hdigest]
      dsimp only
      split
      next hempty =>
        rw [store.sidecarPaths_congr hex _ _ hagain, List.isEmpty_iff] at hempty
        exact .inr ⟨hempty, store.removeFile_congr (bodyName hex) _ _ hagain⟩
      next => exact .inl hagain
    next => exact .inl hread
  next d' _ heq =>
    rw [heq] at hread
    exact .inl hread

theorem cleanupFile_sound (d : Disk) (name : Name) (hd : store.Sound bodies d) (hname : Plain name)
    (hjson : isJson name = true) :
    store.Sound bodies (store.cleanupFile now d name) := by
  rcases store.cleanupFile_cases now d name hd hname hjson with
    hfiles | ⟨hex, key, fr, hhex, rfl, -, -, hfiles | ⟨hnone, hfiles⟩⟩
  · exact hd.congr store hfiles
  · exact (hd.removeSidecar store hex key hname).congr store hfiles
  · have hremoved := hd.removeSidecar store hex key hname
    exact (hremoved.removeBody store hex hhex hnone).congr store hfiles

/-- A cleanup keeps the sidecars that have not expired. -/
theorem cleanupFile_keeps (d : Disk) (name kept : Name) (fr : FileRef) (hd : store.Sound bodies d)
    (hname : Plain name) (hjson : isJson name = true)
    (hlive : fr.isExpiredAt now = false) (hkept : isJson kept = true)
    (h : (store.place kept, .sidecar fr) ∈ d.files) :
    (store.place kept, .sidecar fr) ∈ (store.cleanupFile now d name).files := by
  rcases store.cleanupFile_cases now d name hd hname hjson with
    hfiles | ⟨hex, key, expired, hhex, hsidecar, hmem, hexpired, hfiles⟩
  · rw [hfiles]
    exact h
  · -- What is removed has expired, so it is another file.
    have hne : store.place kept ≠ store.place name := by
      intro heq
      rw [heq] at h
      cases hd.unique.content _ _ _ h hmem
      rw [hlive] at hexpired
      cases hexpired
    have hremoved := (store.mem_removeFile_plain name d hname _).mpr ⟨h, hne⟩
    rcases hfiles with hfiles | ⟨-, hfiles⟩
    · rw [hfiles]
      exact hremoved
    · rw [hfiles]
      refine (store.mem_removeFile_plain _ _ (plain_bodyName hex hhex) _).mpr ⟨hremoved, ?_⟩
      intro heq
      obtain ⟨hex', key', fr', hhex', hkept', -, -, -⟩ := hd.listed store kept _ hkept h
      rw [hkept'] at heq
      exact sidecarName_ne_bodyName hex' hex key' (store.place_inj _ _ heq)

/-- A fold over the listing of a sound disk. -/
theorem cleanupExpired_sound (d : Disk) (hd : store.Sound bodies d) :
    store.Sound bodies (store.cleanupExpired now d) ∧
      ∀ kept fr, isJson kept = true → fr.isExpiredAt now = false →
        (store.place kept, .sidecar fr) ∈ d.files →
        (store.place kept, .sidecar fr) ∈ (store.cleanupExpired now d).files := by
  have hfold : ∀ (names : List Name) (e : Disk), (∀ name ∈ names, Plain name ∧ isJson name = true) →
      store.Sound bodies e → store.Sound bodies (names.foldl (store.cleanupFile now) e) ∧
        ∀ kept fr, isJson kept = true → fr.isExpiredAt now = false →
          (store.place kept, .sidecar fr) ∈ e.files →
          (store.place kept, .sidecar fr) ∈ (names.foldl (store.cleanupFile now) e).files := by
    intro names
    induction names with
    | nil => exact fun e _ he => ⟨he, fun _ _ _ _ h => h⟩
    | cons name rest ih =>
        intro e hnames he
        obtain ⟨hplain, hjson⟩ := hnames name List.mem_cons_self
        have hstep := store.cleanupFile_sound now e name he hplain hjson
        obtain ⟨hsound, hkeeps⟩ := ih _ (fun n hn => hnames n (List.mem_cons_of_mem name hn)) hstep
        exact ⟨hsound, fun kept fr hkept hlive h => hkeeps kept fr hkept hlive
          (store.cleanupFile_keeps now e name kept fr he hplain hjson hlive hkept h)⟩
  exact hfold _ d (store.plain_of_jsonNames d hd) hd

theorem mem_foldl_removeFile (names : List Name) (d : Disk) (hnames : ∀ name ∈ names, Plain name)
    (file : Location × Content) :
    file ∈ (names.foldl (fun d name => store.removeFile name d) d).files ↔
      file ∈ d.files ∧ ∀ name ∈ names, file.1 ≠ store.place name := by
  induction names generalizing d with
  | nil => simp
  | cons name rest ih =>
      rw [List.foldl_cons, ih _ (fun n hn => hnames n (List.mem_cons_of_mem name hn)),
        store.mem_removeFile_plain name d (hnames name List.mem_cons_self), and_assoc,
        List.forall_mem_cons]

theorem unique_foldl_removeFile (names : List Name) (d : Disk) (hd : Unique d) :
    Unique (names.foldl (fun d name => store.removeFile name d) d) := by
  induction names generalizing d with
  | nil => exact hd
  | cons name rest ih => exact ih _ (store.unique_removeFile name d hd)

/-- A delete by digest takes the body and the sidecars of that digest, and
    nothing else. -/
theorem mem_deleteHex (d : Disk) (hd : store.Sound bodies d) (hhex : isDigest hex = true)
    (file : Location × Content) :
    file ∈ (store.deleteHex hex d).files ↔ file ∈ d.files ∧
      file.1 ≠ store.place (bodyName hex) ∧
      ∀ name ∈ store.sidecarPaths hex (store.removeFile (bodyName hex) d),
        file.1 ≠ store.place name := by
  have hbody := plain_bodyName hex hhex
  unfold deleteHex
  dsimp only
  rw [store.mem_foldl_removeFile, store.mem_removeFile_plain _ d hbody, and_assoc]
  intro name hname
  obtain ⟨hjson, content, hmem⟩ :=
    (store.mem_jsonNames name _).mp ((store.mem_sidecarPaths hex name _).mp hname).1
  have hmem' := ((store.mem_removeFile_plain _ d hbody _).mp hmem).1
  obtain ⟨-, -, -, -, -, hplain, -⟩ := hd.listed store name content hjson hmem'
  exact hplain

/-- The names a delete by digest goes through are its own sidecars. -/
theorem sidecar_of_deleted (hex name : Name) (d : Disk) (hd : store.Sound bodies d)
    (hhex : isDigest hex = true)
    (hname : name ∈ store.sidecarPaths hex (store.removeFile (bodyName hex) d)) :
    ∃ key fr, name = sidecarName hex key ∧ (store.place name, Content.sidecar fr) ∈ d.files ∧
      fr.sha256Hex = some hex := by
  obtain ⟨hlisted, hmatch⟩ := (store.mem_sidecarPaths hex name _).mp hname
  obtain ⟨hjson, content, hmem⟩ := (store.mem_jsonNames name _).mp hlisted
  have hmem' := ((store.mem_removeFile_plain _ d (plain_bodyName hex hhex) _).mp hmem).1
  obtain ⟨hex', key, fr, hhex', rfl, -, rfl, hdigest, -⟩ := hd.listed store name content hjson hmem'
  obtain rfl := eq_of_isSidecarOf hex hex' key hhex hhex' hmatch
  exact ⟨key, fr, rfl, hmem', hdigest⟩

theorem deleteHex_sound (d : Disk) (hd : store.Sound bodies d) (hhex : isDigest hex = true) :
    store.Sound bodies (store.deleteHex hex d) := by
  have hmem := store.mem_deleteHex hex d hd hhex
  refine ⟨store.unique_foldl_removeFile _ _ (store.unique_removeFile _ d hd.unique),
    fun name content h => hd.own name content ((hmem _).mp h).1, ?_⟩
  rintro hex' fr hhex' ⟨key', hplain, hfile⟩
  obtain ⟨hfile', hnebody, hnesidecar⟩ := (hmem _).mp hfile
  obtain ⟨bytes, hbytes, hhash, hbody⟩ := hd.body hex' fr hhex' ⟨key', hplain, hfile'⟩
  refine ⟨bytes, hbytes, hhash, (hmem _).mpr ⟨hbody, fun heq => ?_, fun name hname heq => ?_⟩⟩
  · -- A sidecar of the digest itself would have been removed too.
    have hsame : hex' = hex := List.append_cancel_right (store.place_inj _ _ heq)
    subst hsame
    refine hnesidecar (sidecarName hex' key') ?_ rfl
    exact store.mem_sidecarPaths_of_sidecar hex' key' _ _ hhex'
      ((store.mem_removeFile_plain _ d (plain_bodyName hex' hhex') _).mpr ⟨hfile', hnebody⟩)
  · obtain ⟨key, fr', rfl, -, -⟩ := store.sidecar_of_deleted hex name d hd hhex hname
    exact sidecarName_ne_bodyName hex hex' key (store.place_inj _ _ heq).symm

/-- A delete by digest keeps the sidecars of other digests. -/
theorem deleteHex_keeps (hex hex' kept : Name) (fr : FileRef) (d : Disk)
    (hd : store.Sound bodies d) (hhex : isDigest hex = true) (hkept : isJson kept = true)
    (hother : fr.sha256Hex = some hex') (hne : hex' ≠ hex)
    (h : (store.place kept, .sidecar fr) ∈ d.files) :
    (store.place kept, .sidecar fr) ∈ (store.deleteHex hex d).files := by
  refine (store.mem_deleteHex hex d hd hhex _).mpr ⟨h, fun heq => ?_, fun name hname heq => ?_⟩
  · obtain ⟨hex'', key, fr', -, hsidecar, -⟩ := hd.listed store kept _ hkept h
    rw [hsidecar] at heq
    exact sidecarName_ne_bodyName hex'' hex key (store.place_inj _ _ heq)
  · obtain ⟨key, fr', rfl, hmem, hdigest⟩ := store.sidecar_of_deleted hex name d hd hhex hname
    have heq' : store.place kept = store.place (sidecarName hex key) := heq
    rw [heq'] at h
    cases hd.unique.content _ _ _ h hmem
    rw [hother, Option.some.injEq] at hdigest
    exact hne hdigest

/-- Writing the body of some bytes. -/
theorem Sound.writeBody {d : Disk} (hd : store.Sound bodies d) (bytes : List UInt8)
    (hbytes : bytes ∈ bodies) :
    store.Sound bodies (store.writeFile (bodyName (store.hash bytes)) (.raw bytes) d) ∧
      store.HasBody bodies (store.hash bytes)
        (store.writeFile (bodyName (store.hash bytes)) (.raw bytes) d) := by
  have hmem := store.mem_writeFile_plain (bodyName (store.hash bytes)) (.raw bytes) d
    (plain_bodyName _ (store.hash_digest bytes))
  have hnew : store.HasBody bodies (store.hash bytes)
      (store.writeFile (bodyName (store.hash bytes)) (.raw bytes) d) :=
    ⟨bytes, hbytes, rfl, (hmem _).mpr (.inr rfl)⟩
  refine ⟨⟨store.unique_writeFile _ _ d hd.unique, fun name content h => ?_, ?_⟩, hnew⟩
  · rcases (hmem _).mp h with h | h
    · exact hd.own name content h.1
    · obtain ⟨hplace, rfl⟩ := Prod.mk.inj h
      exact .inl ⟨bytes, hbytes, store.place_inj _ _ hplace, rfl⟩
  · rintro hex fr hhex ⟨key, hplain, hfile⟩
    rcases (hmem _).mp hfile with hfile | hfile
    · by_cases hsame : hex = store.hash bytes
      · rw [hsame]
        exact hnew
      · obtain ⟨old, hold, hhash, hbody⟩ := hd.body hex fr hhex ⟨key, hplain, hfile.1⟩
        refine ⟨old, hold, hhash, (hmem _).mpr (.inl ⟨hbody, fun heq => ?_⟩)⟩
        exact hsame (List.append_cancel_right (store.place_inj _ _ heq))
    · cases (Prod.mk.inj hfile).2

/-- Writing a sidecar beside its body. -/
theorem Sound.writeSidecar {d : Disk} (hd : store.Sound bodies d) (hex : Name) (key : Option Name)
    (fr : FileRef) (hhex : isDigest hex = true) (hplain : Plain (sidecarName hex key))
    (hdigest : fr.sha256Hex = some hex) (huri : fr.uri = makeUriSha256 hex)
    (hbody : store.HasBody bodies hex d) :
    store.Sound bodies (store.writeFile (sidecarName hex key) (.sidecar fr) d) := by
  have hmem := store.mem_writeFile_plain (sidecarName hex key) (.sidecar fr) d hplain
  refine ⟨store.unique_writeFile _ _ d hd.unique, fun name content h => ?_, ?_⟩
  · rcases (hmem _).mp h with h | h
    · exact hd.own name content h.1
    · obtain ⟨hplace, rfl⟩ := Prod.mk.inj h
      obtain rfl := store.place_inj _ _ hplace
      exact .inr ⟨hex, key, fr, hhex, rfl, hplain, rfl, hdigest, huri⟩
  · rintro hex' fr' hhex' ⟨key', hplain', hfile⟩
    have hold : store.HasBody bodies hex' d := by
      rcases (hmem _).mp hfile with hfile | hfile
      · exact hd.body hex' fr' hhex' ⟨key', hplain', hfile.1⟩
      · have hname := store.place_inj _ _ (Prod.mk.inj hfile).1
        have hmatch := isSidecarOf_self hex' key'
        rw [hname] at hmatch
        rw [eq_of_isSidecarOf hex' hex key hhex' hhex hmatch]
        exact hbody
    obtain ⟨bytes, hbytes, hhash, hfile'⟩ := hold
    refine ⟨bytes, hbytes, hhash, (hmem _).mpr (.inl ⟨hfile', fun heq => ?_⟩)⟩
    exact sidecarName_ne_bodyName hex hex' key (store.place_inj _ _ heq).symm

/-- What has not expired by some time is kept. -/
def KeepsLive (now : Int) (d d' : Disk) : Prop :=
  ∀ kept fr, isJson kept = true → fr.isExpiredAt now = false →
    (store.place kept, .sidecar fr) ∈ d.files → (store.place kept, .sidecar fr) ∈ d'.files

theorem KeepsLive.trans {now : Int} {d e f : Disk} (h : store.KeepsLive now d e)
    (h' : store.KeepsLive now e f) : store.KeepsLive now d f :=
  fun kept fr hkept hlive hmem => h' kept fr hkept hlive (h kept fr hkept hlive hmem)

theorem KeepsLive.of_files {now : Int} {d d' : Disk} (h : d'.files = d.files) :
    store.KeepsLive now d d' := fun _ _ _ _ hmem => h ▸ hmem

/-- What is not expired later is not expired now. -/
theorem live_of_le (fr : FileRef) (now later : Int) (hle : now ≤ later)
    (h : fr.isExpiredAt later = false) : fr.isExpiredAt now = false := by
  unfold FileRef.isExpiredAt at h ⊢
  cases hexpiry : fr.expiresAt with
  | none => rfl
  | some expiresAt =>
      rw [hexpiry] at h
      simp only [decide_eq_false_iff_not] at h ⊢
      omega

theorem cleanupExpired_keeps (now later : Int) (d : Disk) (hd : store.Sound bodies d)
    (hle : now ≤ later) : store.KeepsLive later d (store.cleanupExpired now d) :=
  fun kept fr hkept hlive hmem => (store.cleanupExpired_sound now d hd).2 kept fr hkept
    (live_of_le fr now later hle hlive) hmem

/-- A time to live within the range of durations, or beyond that of 64 bits. -/
def TtlInRange (ttl : UInt64) : Prop :=
  ttl.toNat ≤ 9223372036854775 ∨ 9223372036854775807 < ttl.toNat

theorem makeFileRef_ok (uri hex : Name) (size : Nat) (o : PutOptions) (now : Int)
    (h : ∀ ttl, (o.ttlSecs <|> store.defaultTtl) = some ttl → TtlInRange ttl) :
    ∃ fr, store.makeFileRef uri hex size o now = .ok fr := by
  unfold makeFileRef
  dsimp only
  split
  next ttl httl =>
    unfold expiresAtFromTtl
    rcases h ttl httl with hsmall | hlarge
    · rw [if_neg (by omega), if_neg (by omega)]
      split
      next => exact ⟨_, rfl⟩
      next => exact ⟨_, rfl⟩
    · rw [if_pos hlarge]
      exact ⟨_, rfl⟩
  next => exact ⟨_, rfl⟩

/-- What is promised with a reference: its sidecar and its bytes. -/
structure Backed (bodies : List (List UInt8)) (fr : FileRef) (bytes : List UInt8) (d : Disk) :
    Prop where
  put : bytes ∈ bodies
  uri : fr.uri = makeUriSha256 (store.hash bytes)
  digest : fr.sha256Hex = some (store.hash bytes)
  sidecar : store.HasSidecar (store.hash bytes) fr d

theorem plain_key (bytes : List UInt8) (o : PutOptions) :
    Plain (sidecarName (store.hash bytes) (store.logicalSidecarKey o)) :=
  plain_sidecarName _ _ (store.hash_digest bytes) (store.slash_key o)

/-- The body is there before the sidecar is written. -/
theorem ensureBody (bytes : List UInt8) (d : Disk) (hd : store.Sound bodies d)
    (hbytes : bytes ∈ bodies) :
    ∃ d', (if (store.find (bodyName (store.hash bytes)) d).isSome then d
        else store.writeFile (bodyName (store.hash bytes)) (.raw bytes) d) = d' ∧
      store.Sound bodies d' ∧ store.HasBody bodies (store.hash bytes) d' ∧
      ∀ name fr, (store.place name, Content.sidecar fr) ∈ d'.files ↔
        (store.place name, Content.sidecar fr) ∈ d.files := by
  have hplain := plain_bodyName _ (store.hash_digest bytes)
  split
  next hfound =>
    refine ⟨d, rfl, hd, ?_, fun _ _ => Iff.rfl⟩
    obtain ⟨⟨loc, content⟩, hfind⟩ := Option.isSome_iff_exists.mp hfound
    obtain ⟨hresolve, hmem⟩ := store.mem_of_find _ d loc content hfind
    rw [store.resolve_of_name _ hplain.slash hplain.long, Option.some.injEq] at hresolve
    rw [← hresolve] at hmem
    rcases hd.own _ content hmem with ⟨old, hold, hname, rfl⟩ | ⟨hex, key, fr, -, hname, -⟩
    · exact ⟨old, hold, (List.append_cancel_right hname).symm, hmem⟩
    · exact absurd hname.symm (sidecarName_ne_bodyName hex _ key)
  next hmissing =>
    obtain ⟨hsound, hbody⟩ := hd.writeBody store bytes hbytes
    refine ⟨_, rfl, hsound, hbody, fun name fr => ?_⟩
    rw [store.mem_writeFile_plain _ _ d hplain]
    constructor
    · rintro (h | h)
      · exact h.1
      · cases (Prod.mk.inj h).2
    · intro h
      refine .inl ⟨h, fun heq => ?_⟩
      -- A sidecar does not stand where the body goes.
      have hplace : store.place name = store.place (bodyName (store.hash bytes)) := heq
      rw [hplace] at h
      obtain ⟨content, hfind⟩ := store.find_isSome_of_mem (bodyName (store.hash bytes)) d _ _
        (store.resolve_of_name _ hplain.slash hplain.long) h
      rw [hfind] at hmissing
      exact hmissing rfl

/-- The second half of a put, where its sidecar is not there yet. -/
theorem putNew_kept (bytes : List UInt8) (o : PutOptions) (at_ : Instants) (d : Disk)
    (hd : store.Sound bodies d) (hbytes : bytes ∈ bodies)
    (httl : ∀ ttl, (o.ttlSecs <|> store.defaultTtl) = some ttl → TtlInRange ttl)
    (hfree : ∀ content,
      (store.place (sidecarName (store.hash bytes) (store.logicalSidecarKey o)), content) ∉
        d.files) :
    store.Sound bodies (store.putNew bytes o at_ d).2 ∧
      store.KeepsLive at_.finish d (store.putNew bytes o at_ d).2 ∧
      ∃ fr, (store.putNew bytes o at_ d).1 = .ok fr ∧
        (fr.isExpiredAt at_.finish = false →
          store.Backed bodies fr bytes (store.putNew bytes o at_ d).2) ∧
        fr.uri = makeUriSha256 (store.hash bytes) := by
  obtain ⟨d', hd', hsound, hbody, hsame⟩ := store.ensureBody bytes d hd hbytes
  obtain ⟨fr, hfr⟩ := store.makeFileRef_ok (makeUriSha256 (store.hash bytes)) (store.hash bytes)
    bytes.length o at_.create httl
  obtain ⟨hdigest, huri⟩ := store.makeFileRef_hex _ _ _ _ _ fr hfr
  have hplain := store.plain_key bytes o
  have hwritten := hsound.writeSidecar store (store.hash bytes) (store.logicalSidecarKey o) fr
    (store.hash_digest bytes) hplain hdigest huri hbody
  have hmem := store.mem_writeFile_plain
    (sidecarName (store.hash bytes) (store.logicalSidecarKey o)) (.sidecar fr) d' hplain
  have hclean := store.cleanupExpired_keeps at_.finish at_.finish _ hwritten (Int.le_refl _)
  have hput : store.putNew bytes o at_ d =
      (.ok fr, store.cleanupExpired at_.finish
        (store.writeFile (sidecarName (store.hash bytes) (store.logicalSidecarKey o))
          (.sidecar fr) d')) := by
    unfold putNew
    dsimp only
    rw [hd', hfr]
  rw [hput]
  refine ⟨(store.cleanupExpired_sound at_.finish _ hwritten).1, ?_, fr, rfl, fun hlive => ?_, huri⟩
  · refine KeepsLive.trans store (fun kept fr' hkept _ h => ?_) hclean
    refine (hmem _).mpr (.inl ⟨(hsame kept fr').mpr h, fun heq => ?_⟩)
    have hplace : store.place kept =
        store.place (sidecarName (store.hash bytes) (store.logicalSidecarKey o)) := heq
    rw [hplace] at h
    exact hfree _ h
  · refine ⟨hbytes, huri, hdigest, store.logicalSidecarKey o, hplain, ?_⟩
    exact hclean _ fr (isJson_sidecarName _ _ (digest_ne_nil _ (store.hash_digest bytes))) hlive
      ((hmem _).mpr (.inr rfl))

/-- The instants of a put, one after the other and not before a time. -/
structure Instants.From (at_ : Instants) (clock : Int) : Prop where
  cleanup : clock ≤ at_.cleanup
  check : at_.cleanup ≤ at_.check
  create : at_.check ≤ at_.create
  finish : at_.create ≤ at_.finish

theorem putInner_kept (bytes : List UInt8) (o : PutOptions) (at_ : Instants) (clock : Int)
    (d : Disk) (hd : store.Sound bodies d) (hbytes : bytes ∈ bodies) (hat : at_.From clock)
    (httl : ∀ ttl, (o.ttlSecs <|> store.defaultTtl) = some ttl → TtlInRange ttl) :
    store.Sound bodies (store.putInner (some bytes) o at_ d).2 ∧
      store.KeepsLive at_.finish d (store.putInner (some bytes) o at_ d).2 ∧
      ∃ fr, (store.putInner (some bytes) o at_ d).1 = .ok fr ∧
        (fr.isExpiredAt at_.finish = false →
          store.Backed bodies fr bytes (store.putInner (some bytes) o at_ d).2) ∧
        fr.uri = makeUriSha256 (store.hash bytes) := by
  have hcheck := hat.check
  have hcreate := hat.create
  have hfinish := hat.finish
  have hclean := (store.cleanupExpired_sound at_.cleanup d hd).1
  have hkeeps := store.cleanupExpired_keeps at_.cleanup at_.finish d hd (by omega)
  have hplain := store.plain_key bytes o
  have hfiles := store.readFile_files
    (sidecarName (store.hash bytes) (store.logicalSidecarKey o))
    (store.cleanupExpired at_.cleanup d)
  have hcontent := store.readFile_content
    (sidecarName (store.hash bytes) (store.logicalSidecarKey o))
    (store.cleanupExpired at_.cleanup d)
  unfold putInner
  dsimp only
  split
  next existing d' heq =>
    rw [heq] at hfiles
    have hsound := hclean.congr store hfiles
    -- The sidecar that is found belongs to the same bytes.
    have hplace := store.mem_of_readFile _ _ _ hplain (congrArg Prod.fst heq)
    rw [← hfiles] at hplace
    have hdigest := store.hash_digest bytes
    obtain ⟨hex, key, fr, hhex, hname, -, hfr, hfrhex, huri⟩ := hsound.listed store _ _
      (isJson_sidecarName _ _ (digest_ne_nil _ hdigest)) hplace
    cases hfr
    have hmatch := isSidecarOf_self (store.hash bytes) (store.logicalSidecarKey o)
    rw [hname] at hmatch
    have hhash := eq_of_isSidecarOf (store.hash bytes) hex key hdigest hhex hmatch
    rw [← hhash] at hfrhex huri
    split
    next hexpired =>
      have hremoved := hsound.removeSidecar store (store.hash bytes)
        (store.logicalSidecarKey o) hplain
      have hmemr := store.mem_removeFile_plain
        (sidecarName (store.hash bytes) (store.logicalSidecarKey o)) d' hplain
      obtain ⟨hnew, hlater, hresult⟩ := store.putNew_kept bytes o at_ _ hremoved hbytes httl
        (fun content h => ((hmemr _).mp h).2 rfl)
      refine ⟨hnew, ?_, hresult⟩
      refine hkeeps.trans store ((KeepsLive.of_files store hfiles).trans store
        (KeepsLive.trans store (fun kept fr hkept hlive h => ?_) hlater))
      refine (hmemr _).mpr ⟨h, fun heq => ?_⟩
      -- The one that is removed has expired.
      have hsame : store.place kept =
          store.place (sidecarName (store.hash bytes) (store.logicalSidecarKey o)) := heq
      rw [hsame] at h
      cases hsound.unique.content _ _ _ h hplace
      rw [live_of_le existing at_.check at_.finish (by omega) hlive] at hexpired
      cases hexpired
    next hlive =>
      exact ⟨hsound, hkeeps.trans store (KeepsLive.of_files store hfiles), existing, rfl,
        fun _ => ⟨hbytes, huri, hfrhex, store.logicalSidecarKey o, hplain, hplace⟩, huri⟩
  next bytes' d' heq =>
    obtain ⟨-, -, fr, -, -, -, hfr, -⟩ := hclean.listed store _ _
      (isJson_sidecarName _ _ (digest_ne_nil _ (store.hash_digest bytes)))
      (store.mem_of_readFile _ _ _ hplain (congrArg Prod.fst heq))
    cases hfr
  next d' heq =>
    rw [heq] at hfiles hcontent
    have hsound := hclean.congr store hfiles
    obtain ⟨hnew, hlater, hresult⟩ := store.putNew_kept bytes o at_ d' hsound hbytes httl
      (fun content h => by
        rw [hfiles] at h
        rw [store.find_of_mem _ _ content hclean.unique hplain h] at hcontent
        cases hcontent)
    exact ⟨hnew, hkeeps.trans store ((KeepsLive.of_files store hfiles).trans store hlater), hresult⟩

/-- A store in use: the last instant it has seen, the references it has
    returned with their bytes, less those whose URI was deleted, and all it
    has answered. -/
structure State where
  disk : Disk
  clock : Int
  promised : List (FileRef × List UInt8)
  responses : List Response

def State.opened (d : Disk) (now : Int) : State := ⟨d, now, [], []⟩

/-- What a put promises. -/
def promise (body : Option (List UInt8)) : Except Failure FileRef → List (FileRef × List UInt8)
  | .ok fr => body.toList.map fun bytes => (fr, bytes)
  | .error _ => []

instance (at_ : Instants) (clock : Int) : Decidable (at_.From clock) :=
  decidable_of_iff
    (clock ≤ at_.cleanup ∧ at_.cleanup ≤ at_.check ∧ at_.check ≤ at_.create ∧
      at_.create ≤ at_.finish)
    ⟨fun h => ⟨h.1, h.2.1, h.2.2.1, h.2.2.2⟩, fun h => ⟨h.cleanup, h.check, h.create, h.finish⟩⟩

/-- The clock after an operation. Time does not go back. -/
def tick (clock : Int) : Op → Option Int
  | .put _ _ at_ => if at_.From clock then some at_.finish else none
  | .get _ now => if clock ≤ now then some now else none
  | .head _ now => if clock ≤ now then some now else none
  | .list _ now => if clock ≤ now then some now else none
  | .delete _ => some clock

/-- The promises after an operation with its response. -/
def promises (s : State) : Op → Response → List (FileRef × List UInt8)
  | .put body _ _, .ref r => s.promised ++ promise body r
  | .delete uri, _ => s.promised.filter fun p => p.1.uri != uri
  | _, _ => s.promised

def step (s : State) (op : Op) : Option State :=
  (tick s.clock op).map fun clock =>
    let r := store.apply s.disk op
    { disk := r.2, clock, promised := promises s op r.1, responses := s.responses ++ [r.1] }

/-- The text of a URI leads to no file. -/
structure Unrelated (hex : Name) (d : Disk) : Prop where
  sidecar : store.find (sidecarName hex none) d = none
  listed : store.sidecarPaths hex d = []
  body : store.find (bodyName hex) d = none

/-- The operations that do not reach a defect: the time to live of a put can
    be a duration; a URI is a digest's, or its text leads to no file; and a
    head does not look at an expired sidecar beside one that has not. -/
def Careful (s : State) : Op → Prop
  | .put _ o _ => ∀ ttl, (o.ttlSecs <|> store.defaultTtl) = some ttl → TtlInRange ttl
  | .head uri now => ∀ hex, parseSha256Uri uri = some hex →
    (isDigest hex = true ∧
      ∀ fr, (store.readSidecar hex s.disk).1 = .ok (some fr) → fr.isExpiredAt now = true →
        ∀ name fr', (store.place name, Content.sidecar fr') ∈ s.disk.files →
          fr'.sha256Hex = some hex → fr'.isExpiredAt now = true) ∨
      store.Unrelated hex s.disk
  | .delete uri => ∀ hex, parseSha256Uri uri = some hex →
    isDigest hex = true ∨ store.Unrelated hex s.disk
  | _ => True

/-- The bytes that are put along a run. -/
def bodiesOf : List Op → List (List UInt8)
  | [] => []
  | .put (some bytes) _ _ :: rest => bytes :: bodiesOf rest
  | _ :: rest => bodiesOf rest

/-- A put is of bytes of the run. -/
def Among (bodies : List (List UInt8)) : Op → Prop
  | .put (some bytes) _ _ => bytes ∈ bodies
  | _ => True

/-- What holds along a run: the disk is sound, what is promised and has not
    expired is backed, and nothing has panicked. -/
structure Kept (bodies : List (List UInt8)) (s : State) : Prop where
  sound : store.Sound bodies s.disk
  backed : ∀ p ∈ s.promised, p.1.isExpiredAt s.clock = false →
    store.Backed bodies p.1 p.2 s.disk
  calm : ∀ r ∈ s.responses, r ≠ .ref (.error .panic)

/-- A backed reference stays so where the live sidecars are kept. -/
theorem Backed.of_keeps {now : Int} {d d' : Disk} (fr : FileRef) (bytes : List UInt8)
    (h : store.Backed bodies fr bytes d) (hlive : fr.isExpiredAt now = false)
    (hkeeps : store.KeepsLive now d d') : store.Backed bodies fr bytes d' := by
  obtain ⟨key, hplain, hmem⟩ := h.sidecar
  exact ⟨h.put, h.uri, h.digest, key, hplain, hkeeps _ fr
    (isJson_sidecarName _ _ (digest_ne_nil _ (store.hash_digest bytes))) hlive hmem⟩

theorem get_files (uri : Name) (now : Int) (d : Disk) :
    (store.get uri now d).2.files = d.files ∨
      (store.get uri now d).2.files = (store.cleanupExpired now d).files := by
  unfold get
  split
  next => exact .inl rfl
  next hex _ =>
    right
    dsimp only
    split
    next => rfl
    next =>
      have hread := store.readFile_files (bodyName hex) (store.cleanupExpired now d)
      split
      next heq => rw [heq] at hread; exact hread
      next heq => rw [heq] at hread; exact hread
      next heq => rw [heq] at hread; exact hread

theorem list_files (f : Filter) (now : Int) (d : Disk) :
    (store.list f now d).2.files = (store.cleanupExpired now d).files :=
  store.readRefs_files _ _

/-- A head changes nothing, or deletes what it has found expired. -/
theorem head_cases (uri : Name) (now : Int) (d : Disk) :
    (store.head uri now d).2.files = d.files ∨
      ∃ hex fr d', parseSha256Uri uri = some hex ∧ d'.files = d.files ∧
        (store.readSidecar hex d).1 = .ok (some fr) ∧ fr.isExpiredAt now = true ∧
        (store.head uri now d).2 = store.deleteHex hex d' := by
  unfold head
  split
  next => exact .inl rfl
  next hex hparse =>
    have hfiles := store.readSidecar_files hex d
    split
    next heq => rw [heq] at hfiles; exact .inl hfiles
    next fr d' heq =>
      rw [heq] at hfiles
      split
      next hexpired =>
        right
        refine ⟨hex, fr, d', hparse, hfiles, by rw [heq], hexpired, ?_⟩
        unfold delete
        rw [hparse]
      next => exact .inl ((store.readSidecar_files hex d').trans hfiles)
    next d' heq =>
      rw [heq] at hfiles
      exact .inl ((store.readSidecar_files hex d').trans hfiles)

theorem uri_of_parse (uri hex : Name) (h : parseSha256Uri uri = some hex) :
    uri = makeUriSha256 hex := by
  unfold parseSha256Uri at h
  split at h
  next hscheme =>
    obtain ⟨rest, rfl⟩ := List.isPrefixOf_iff_prefix.mp hscheme
    rw [List.drop_left, Option.some.injEq] at h
    rw [makeUriSha256, h]
  next => cases h

/-- Text that leads to no file has no sidecar to be found expired. -/
theorem readSidecar_unrelated (hex : Name) (d : Disk) (h : store.Unrelated hex d) :
    (store.readSidecar hex d).1 = .ok none := by
  unfold readSidecar
  have hread : store.readFile (sidecarName hex none) d = (none, d) := by
    unfold readFile
    rw [h.sidecar]
  rw [hread]
  dsimp only
  rw [h.listed]
  rfl

/-- A backed reference survives the deletion of another digest. -/
theorem Backed.of_deleteHex {hex : Name} {d : Disk} (hd : store.Sound bodies d) (fr : FileRef)
    (bytes : List UInt8) (hhex : isDigest hex = true) (hne : store.hash bytes ≠ hex)
    (h : store.Backed bodies fr bytes d) :
    store.Backed bodies fr bytes (store.deleteHex hex d) := by
  obtain ⟨key, hplain, hmem⟩ := h.sidecar
  exact ⟨h.put, h.uri, h.digest, key, hplain, store.deleteHex_keeps hex (store.hash bytes) _ fr d hd
    hhex (isJson_sidecarName _ _ (digest_ne_nil _ (store.hash_digest bytes))) h.digest hne hmem⟩

theorem Backed.congr {d d' : Disk} (fr : FileRef) (bytes : List UInt8)
    (h : store.Backed bodies fr bytes d) (hfiles : d'.files = d.files) :
    store.Backed bodies fr bytes d' := by
  obtain ⟨key, hplain, hmem⟩ := h.sidecar
  exact ⟨h.put, h.uri, h.digest, key, hplain, hfiles ▸ hmem⟩

theorem step_cases (s t : State) (op : Op) (h : store.step s op = some t) :
    ∃ clock, tick s.clock op = some clock ∧ t = ⟨(store.apply s.disk op).2, clock,
      promises s op (store.apply s.disk op).1, s.responses ++ [(store.apply s.disk op).1]⟩ := by
  obtain ⟨clock, hclock, ht⟩ := Option.map_eq_some_iff.mp h
  exact ⟨clock, hclock, ht.symm⟩

/-- The responses stay free of panics if the new one is. -/
theorem calm_append (responses : List Response) (r : Response)
    (h : ∀ r ∈ responses, r ≠ .ref (.error .panic)) (hr : r ≠ .ref (.error .panic)) :
    ∀ r' ∈ responses ++ [r], r' ≠ .ref (.error .panic) := by
  intro r' hr'
  rcases List.mem_append.mp hr' with hr' | hr'
  · exact h r' hr'
  · rw [List.mem_singleton.mp hr']
    exact hr

/-- A step that only cleans up keeps every promise. -/
theorem kept_cleanup (s : State) (clock : Int) (d : Disk) (r : Response)
    (hs : store.Kept bodies s) (hclock : s.clock ≤ clock)
    (hd : d.files = s.disk.files ∨ d.files = (store.cleanupExpired clock s.disk).files)
    (hr : r ≠ .ref (.error .panic)) :
    store.Kept bodies ⟨d, clock, s.promised, s.responses ++ [r]⟩ := by
  have hclean := (store.cleanupExpired_sound clock s.disk hs.sound).1
  have hkeeps := store.cleanupExpired_keeps clock clock s.disk hs.sound (Int.le_refl _)
  refine ⟨?_, fun p hp hlive => ?_, calm_append _ _ hs.calm hr⟩
  · rcases hd with hd | hd
    · exact hs.sound.congr store hd
    · exact hclean.congr store hd
  · have hbacked := hs.backed p hp (live_of_le p.1 s.clock clock hclock hlive)
    rcases hd with hd | hd
    · exact hbacked.congr store _ _ hd
    · exact (hbacked.of_keeps store _ _ hlive hkeeps).congr store _ _ hd

/-- Every careful operation keeps every promise. -/
theorem kept_step (s t : State) (op : Op) (hs : store.Kept bodies s) (hamong : Among bodies op)
    (hop : store.Careful s op) (h : store.step s op = some t) : store.Kept bodies t := by
  obtain ⟨clock, hclock, rfl⟩ := store.step_cases s t op h
  cases op with
  | put body o at_ =>
      rw [tick] at hclock
      split at hclock
      next hat =>
        cases hclock
        have hle : s.clock ≤ at_.finish := by
          have := hat.cleanup
          have := hat.check
          have := hat.create
          have := hat.finish
          omega
        cases body with
        | none =>
            -- The file to be stored could not be read.
            have hclean := (store.cleanupExpired_sound at_.cleanup s.disk hs.sound).1
            have hr : (store.apply s.disk (.put none o at_)).1 = .ref (.error .io) := rfl
            rw [hr]
            refine ⟨hclean, fun p hp hlive => ?_, calm_append _ _ hs.calm (by simp)⟩
            have hp' : p ∈ s.promised ++ [] := hp
            rw [List.append_nil] at hp'
            exact (hs.backed p hp' (live_of_le p.1 s.clock _ hle hlive)).of_keeps store _ _ hlive
              (store.cleanupExpired_keeps at_.cleanup at_.finish s.disk hs.sound (by
                have := hat.check
                have := hat.create
                have := hat.finish
                omega))
        | some bytes =>
            obtain ⟨hsound, hkeeps, fr, hfr, hnew, huri⟩ :=
              store.putInner_kept bytes o at_ s.clock s.disk hs.sound hamong hat hop
            have hr : (store.apply s.disk (.put (some bytes) o at_)).1 = .ref (.ok fr) :=
              congrArg Response.ref hfr
            rw [hr]
            refine ⟨hsound, fun p hp hlive => ?_, calm_append _ _ hs.calm (by simp)⟩
            have hp' : p ∈ s.promised ++ [(fr, bytes)] := hp
            rcases List.mem_append.mp hp' with hp | hp
            · exact (hs.backed p hp (live_of_le p.1 s.clock _ hle hlive)).of_keeps store _ _ hlive
                hkeeps
            · rw [List.mem_singleton.mp hp] at hlive ⊢
              exact hnew hlive
      next => cases hclock
  | get uri now =>
      rw [tick] at hclock
      split at hclock
      next hle =>
        cases hclock
        exact store.kept_cleanup s clock _ _ hs hle (store.get_files uri clock s.disk)
          (by simp [apply])
      next => cases hclock
  | list f now =>
      rw [tick] at hclock
      split at hclock
      next hle =>
        cases hclock
        exact store.kept_cleanup s clock _ _ hs hle (.inr (store.list_files f clock s.disk))
          (by simp [apply])
      next => cases hclock
  | head uri now =>
      rw [tick] at hclock
      split at hclock
      next hle =>
        cases hclock
        rcases store.head_cases uri clock s.disk with hfiles |
          ⟨hex, fr, d', hparse, hfiles, hread, hexpired, hhead⟩
        · exact store.kept_cleanup s clock _ _ hs hle (.inl hfiles) (by simp [apply])
        · -- It has deleted, so all references to those bytes have expired.
          have hsound' := hs.sound.congr store hfiles
          rcases hop hex hparse with ⟨hhex, hall⟩ | hunrelated
          · have hdisk : (store.apply s.disk (.head uri clock)).2 = store.deleteHex hex d' := hhead
            refine ⟨?_, fun p hp hlive => ?_, calm_append _ _ hs.calm (by simp [apply])⟩
            · rw [hdisk]
              exact store.deleteHex_sound hex d' hsound' hhex
            · have hbacked := hs.backed p hp (live_of_le p.1 s.clock clock hle hlive)
              have hne : store.hash p.2 ≠ hex := by
                intro heq
                obtain ⟨key, -, hmem⟩ := hbacked.sidecar
                have hdigest := hbacked.digest
                rw [heq] at hdigest
                rw [hall fr hread hexpired _ p.1 hmem hdigest] at hlive
                cases hlive
              rw [hdisk]
              exact (hbacked.congr store _ _ hfiles).of_deleteHex store hsound' _ _ hhex hne
          · rw [store.readSidecar_unrelated hex s.disk hunrelated] at hread
            cases hread
      next => cases hclock
  | delete uri =>
      cases hclock
      have hfilter : ∀ p, p ∈ promises s (.delete uri) (store.apply s.disk (.delete uri)).1 →
          p ∈ s.promised ∧ p.1.uri ≠ uri := by
        intro p hp
        obtain ⟨hmem, hne⟩ := List.mem_filter.mp hp
        exact ⟨hmem, by simpa using hne⟩
      cases hparse : parseSha256Uri uri with
      | none =>
          have hdisk : (store.apply s.disk (.delete uri)).2 = s.disk := by
            simp only [apply, delete, hparse]
          rw [hdisk]
          exact ⟨hs.sound, fun p hp => hs.backed p (hfilter p hp).1,
            calm_append _ _ hs.calm (by simp [apply])⟩
      | some hex =>
          have hdisk : (store.apply s.disk (.delete uri)).2 = store.deleteHex hex s.disk := by
            simp only [apply, delete, hparse]
          rw [hdisk]
          rcases hop hex hparse with hhex | hunrelated
          · refine ⟨store.deleteHex_sound hex s.disk hs.sound hhex, fun p hp hlive => ?_,
              calm_append _ _ hs.calm (by simp [apply])⟩
            obtain ⟨hmem, hne⟩ := hfilter p hp
            have hbacked := hs.backed p hmem hlive
            refine hbacked.of_deleteHex store hs.sound _ _ hhex (fun heq => hne ?_)
            rw [hbacked.uri, heq]
            exact (uri_of_parse uri hex hparse).symm
          · rw [store.deleteHex_of_none hex s.disk hunrelated.body hunrelated.listed]
            exact ⟨hs.sound, fun p hp => hs.backed p (hfilter p hp).1,
              calm_append _ _ hs.calm (by simp [apply])⟩

theorem among_bodiesOf (ops : List Op) : ∀ op ∈ ops, Among (bodiesOf ops) op := by
  induction ops with
  | nil => exact fun op hop => absurd hop List.not_mem_nil
  | cons first rest ih =>
      have hmore : ∀ bytes, bytes ∈ bodiesOf rest → bytes ∈ bodiesOf (first :: rest) := by
        intro bytes hbytes
        cases first with
        | put body o at_ =>
            cases body with
            | none => exact hbytes
            | some b => exact List.mem_cons_of_mem b hbytes
        | get uri now => exact hbytes
        | head uri now => exact hbytes
        | list f now => exact hbytes
        | delete uri => exact hbytes
      intro op hop
      rcases List.mem_cons.mp hop with rfl | hop
      · cases op with
        | put body o at_ =>
            cases body with
            | none => exact trivial
            | some b => exact List.mem_cons_self
        | get uri now => exact trivial
        | head uri now => exact trivial
        | list f now => exact trivial
        | delete uri => exact trivial
      · have hrest := ih op hop
        cases op with
        | put body o at_ =>
            cases body with
            | none => exact trivial
            | some b => exact hmore b hrest
        | get uri now => exact trivial
        | head uri now => exact trivial
        | list f now => exact trivial
        | delete uri => exact trivial

theorem mem_readRefs (names : List Name) (d : Disk) (name : Name) (loc : Location) (fr : FileRef)
    (hname : name ∈ names) (h : store.find name d = some (loc, .sidecar fr)) :
    fr ∈ (store.readRefs names d).1 := by
  induction names generalizing d with
  | nil => exact absurd hname List.not_mem_nil
  | cons first rest ih =>
      have hread := store.readFile_files first d
      have hcontent := store.readFile_content first d
      have hlater : ∀ d', d'.files = d.files → name ∈ rest →
          fr ∈ (store.readRefs rest d').1 :=
        fun d' hfiles hrest => ih d' hrest ((store.find_congr name d' d hfiles).trans h)
      rw [readRefs]
      split
      next fr' d' heq =>
        rw [heq] at hread hcontent
        rcases List.mem_cons.mp hname with rfl | hrest
        · rw [h] at hcontent
          cases hcontent
          exact List.mem_cons_self
        · exact List.mem_cons_of_mem _ (hlater d' hread hrest)
      next d' hnot heq =>
        rw [heq] at hread hcontent
        rcases List.mem_cons.mp hname with rfl | hrest
        · rw [h] at hcontent
          exact absurd hcontent (hnot fr)
        · exact hlater d' hread hrest

theorem applyFilter_default (fr : FileRef) : applyFilter fr Filter.default = true := rfl

/-- What is backed is listed, as long as it has not expired. -/
theorem listed_of_backed (fr : FileRef) (bytes : List UInt8) (now : Int) (d : Disk)
    (hd : store.Sound bodies d) (h : store.Backed bodies fr bytes d)
    (hlive : fr.isExpiredAt now = false) : fr ∈ (store.list Filter.default now d).1 := by
  have hclean := (store.cleanupExpired_sound now d hd).1
  obtain ⟨key, hplain, hmem⟩ :=
    (h.of_keeps store _ _ hlive
      (store.cleanupExpired_keeps now now d hd (Int.le_refl _))).sidecar
  refine List.mem_filter.mpr ⟨?_, applyFilter_default fr⟩
  refine store.mem_readRefs _ _ (sidecarName (store.hash bytes) key) _ fr ?_
    (store.find_of_mem _ _ _ hclean.unique hplain hmem)
  rw [mem_jsonNames]
  exact ⟨isJson_sidecarName _ _ (digest_ne_nil _ (store.hash_digest bytes)), _, hmem⟩

theorem parse_makeUri : parseSha256Uri (makeUriSha256 hex) = some hex := by
  unfold parseSha256Uri makeUriSha256
  rw [if_pos (List.isPrefixOf_iff_prefix.mpr (List.prefix_append _ _)), List.drop_left]

/-- What is backed can be read, if no other bytes have the same digest. -/
theorem get_of_backed (fr : FileRef) (bytes : List UInt8) (now : Int) (d : Disk)
    (hd : store.Sound bodies d) (h : store.Backed bodies fr bytes d)
    (hlive : fr.isExpiredAt now = false)
    (hcollision : ∀ b ∈ bodies, store.hash b = store.hash bytes → b = bytes) :
    (store.get fr.uri now d).1 = .ok (some bytes) := by
  have hclean := (store.cleanupExpired_sound now d hd).1
  have hbacked := h.of_keeps store _ _ hlive
    (store.cleanupExpired_keeps now now d hd (Int.le_refl _))
  have hdigest := store.hash_digest bytes
  obtain ⟨key, hplain, hmem⟩ := hbacked.sidecar
  obtain ⟨old, hold, hhash, hbody⟩ := hclean.body (store.hash bytes) fr hdigest ⟨key, hplain, hmem⟩
  have hread : (store.readFile (bodyName (store.hash bytes)) (store.cleanupExpired now d)).1 =
      some (.raw bytes) := by
    rw [store.readFile_of_mem _ _ _ hclean.unique (plain_bodyName _ hdigest) hbody,
      hcollision old hold hhash]
  have hlisted := store.mem_sidecarPaths_of_sidecar (store.hash bytes) key _ _ hdigest hmem
  unfold get
  rw [h.uri, parse_makeUri]
  dsimp only
  rw [if_neg (by
    rw [List.isEmpty_iff]
    intro hnil
    rw [hnil] at hlisted
    cases hlisted)]
  split
  next heq =>
    rw [heq] at hread
    cases hread
    rfl
  next heq =>
    rw [heq] at hread
    cases hread
  next heq =>
    rw [heq] at hread
    cases hread

/-- A store that is opened on a root without files. -/
theorem kept_opened (bodies : List (List UInt8)) (d : Disk) (now : Int) (hunique : Unique d)
    (hfresh : ∀ name content, (store.place name, content) ∉ d.files) :
    store.Kept bodies (State.opened d now) where
  sound := ⟨hunique, fun name content h => absurd h (hfresh name content),
    fun _ _ _ ⟨_, _, h⟩ => absurd h (hfresh _ _)⟩
  backed := fun _ hp => absurd hp List.not_mem_nil
  calm := fun _ hr => absurd hr List.not_mem_nil

theorem readable (d : Disk) (start : Int) (hunique : Unique d)
    (hfresh : ∀ name content, (store.place name, content) ∉ d.files) (ops : List Op) (s : State)
    (hrun : Machine.exec store.step (State.opened d start) ops = some s)
    (hcareful : Machine.Along store.step store.Careful (State.opened d start) ops)
    (hcollision : ∀ b ∈ bodiesOf ops, ∀ b' ∈ bodiesOf ops, store.hash b = store.hash b' → b = b') :
    (∀ r ∈ s.responses, r ≠ .ref (.error .panic)) ∧
      ∀ p ∈ s.promised, ∀ now, s.clock ≤ now → p.1.isExpiredAt now = false →
        p.1 ∈ (store.list Filter.default now s.disk).1 ∧
          (store.get p.1.uri now s.disk).1 = .ok (some p.2) := by
  have hamong : Machine.Along store.step (fun _ => Among (bodiesOf ops)) (State.opened d start)
      ops :=
    Machine.along_of_forall_mem _ _ _ ops (fun op hop _ => among_bodiesOf ops op hop)
  have hkept := Machine.exec_history store.step
    (fun t op => Among (bodiesOf ops) op ∧ store.Careful t op)
    (fun _ t => store.Kept (bodiesOf ops) t) (State.opened d start)
    (store.kept_opened _ d start hunique hfresh)
    (fun _ t op u ht hop hu => store.kept_step t u op ht hop.1 hop.2 hu) ops s
    (Machine.along_and _ _ _ _ ops hamong hcareful) hrun
  refine ⟨hkept.calm, fun p hp now hnow hlive => ?_⟩
  have hbacked := hkept.backed p hp (live_of_le p.1 s.clock now hnow hlive)
  exact ⟨store.listed_of_backed p.1 p.2 now s.disk hkept.sound hbacked hlive,
    store.get_of_backed p.1 p.2 now s.disk hkept.sound hbacked hlive
      (fun b hb heq => hcollision b hb p.2 hbacked.put heq)⟩

/-- One instant for all of a put. -/
def instant (now : Int) : Instants := ⟨now, now, now, now⟩

/-- A put of one byte, looked for an hour later. -/
def onePut : List Op :=
  [.put (some [1]) PutOptions.default (instant 0), .list Filter.default 3600000000000]

theorem onePut_run :
    (Machine.exec plainStore.step (State.opened ⟨[], []⟩ 0) onePut).map
        (fun s => (s.clock, s.promised.map (·.2))) = some (3600000000000, [[1]]) := by
  decide +kernel

/-- The store of the same kind whose references live for a second. -/
def shortStore : Store := { plainStore with defaultTtl := some 1 }

/-- The same byte is put again for a longer time, and when the first
    reference has expired there is a head. -/
def headRun : List Op :=
  [.put (some [1]) PutOptions.default (instant 0),
    .put (some [1]) { PutOptions.default with ttlSecs := some 100 } (instant 0),
    .head (makeUriSha256 (List.replicate 64 '0')) 2000000000]

theorem headRun_run :
    (Machine.exec shortStore.step (State.opened ⟨[], []⟩ 0) headRun).map
        (fun s => (s.clock, s.promised.map (·.1.expiresAt), s.disk.files.length)) =
      some (2000000000, [some 1000000000, some 100000000000], 0) := by
  decide +kernel

theorem readable_onePut :
    ∃ s, Machine.exec plainStore.step (State.opened ⟨[], []⟩ 0) onePut = some s ∧
      s.promised.map (·.2) = [[1]] ∧
      ∀ p ∈ s.promised, ∀ now, s.clock ≤ now → p.1.isExpiredAt now = false →
        p.1 ∈ (plainStore.list Filter.default now s.disk).1 ∧
          (plainStore.get p.1.uri now s.disk).1 = .ok (some p.2) := by
  obtain ⟨s, hrun, hs⟩ := Option.map_eq_some_iff.mp onePut_run
  refine ⟨s, hrun, (Prod.mk.inj hs).2, (plainStore.readable ⟨[], []⟩ 0 List.nodup_nil
    (fun _ _ h => absurd h List.not_mem_nil) onePut s hrun ?_ ?_).2⟩
  · refine Machine.along_of_forall_mem _ _ _ onePut (fun op hop t => ?_)
    rcases List.mem_cons.mp hop with rfl | hop
    · intro ttl httl
      cases httl
    · rw [List.mem_singleton.mp hop]
      exact trivial
  · intro b hb b' hb' _
    rw [List.mem_singleton.mp hb, List.mem_singleton.mp hb']

/-- A live reference that goes with an expired one. -/
theorem live_lost :
    ∃ s, Machine.exec shortStore.step (State.opened ⟨[], []⟩ 0) headRun = some s ∧
      (∃ p ∈ s.promised, p.1.isExpiredAt s.clock = false) ∧
      (shortStore.list Filter.default s.clock s.disk).1 = [] ∧
      ∀ uri, .delete uri ∉ headRun := by
  obtain ⟨s, hrun, hs⟩ := Option.map_eq_some_iff.mp headRun_run
  obtain ⟨hclock, hrest⟩ := Prod.mk.inj hs
  obtain ⟨hpromised, hfiles⟩ := Prod.mk.inj hrest
  refine ⟨s, hrun, ?_, ?_, fun uri huri => ?_⟩
  · have hmem : some 100000000000 ∈ s.promised.map (·.1.expiresAt) := by
      rw [hpromised]
      exact List.mem_cons_of_mem _ (List.mem_singleton_self _)
    obtain ⟨p, hp, hexpiry⟩ := List.mem_map.mp hmem
    refine ⟨p, hp, ?_⟩
    rw [FileRef.isExpiredAt, hexpiry, hclock]
    decide
  · rw [List.length_eq_zero_iff] at hfiles
    have hnames : shortStore.jsonNames s.disk = [] := by
      unfold jsonNames
      rw [hfiles]
      rfl
    have hclean : shortStore.cleanupExpired s.clock s.disk = s.disk := by
      unfold cleanupExpired
      rw [hnames]
      rfl
    unfold list readAllSidecars
    rw [hclean, hnames]
    rfl
  · rcases List.mem_cons.mp huri with h | h
    · cases h
    · rcases List.mem_cons.mp h with h | h
      · cases h
      · cases List.mem_singleton.mp h

end Store

end Artefact

end DccMcp
