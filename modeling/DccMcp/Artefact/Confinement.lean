import DccMcp.Artefact.Store
import DccMcp.Lib.Machine

/-!
# Confinement of the Artefact Store

What a client's URI makes the store touch. Listing the root gives names that
are one component, so whatever is found by a listing is a file of the root;
and the store's own sidecars name their bodies by digest. What is left are the
two places that use the text of the URI without a listing: `head` reads a
sidecar by it, and `delete` removes a body by it.

A `..` or a leading `/` in that text leads out of the root. And since a
sidecar's file name begins with its digest, text that ends inside such a name
makes `delete` remove it although the URI names nothing.

## Main definitions

* `Genuine`: The sidecars of the root were written by the store.
* `Confined`: What is expected of the four operations for a URI.
* `Harmless`: What is needed of the files its text leads to.

## Theorems

* `confined_iff`: For which URIs, in which state, the store is confined.
-/

namespace DccMcp

namespace Artefact

namespace Store

variable (store : Store)

/-- A file directly in the root. -/
def Direct (loc : Location) : Prop := ∃ name, loc = store.root ++ [name]

/-- The names of files have no separator in them, and the sidecars of the
    root carry the digest of a body. -/
def Genuine (d : Disk) : Prop :=
  ∀ loc content, (loc, content) ∈ d.files → ∀ name, loc = store.root ++ [name] →
    '/' ∉ name ∧ ∀ fr, content = .sidecar fr → ∀ hex, fr.sha256Hex = some hex →
      isDigest hex = true

/-- Nothing appears, and only files of the root are touched. -/
structure Guarded (d d' : Disk) : Prop where
  files : ∀ file ∈ d'.files, file ∈ d.files
  touched : ∃ more, d'.touched = d.touched ++ more ∧ ∀ t ∈ more, store.Direct t.2

theorem Guarded.refl (d : Disk) : store.Guarded d d :=
  ⟨fun _ h => h, [], (List.append_nil _).symm, fun _ h => absurd h List.not_mem_nil⟩

theorem Guarded.trans {d e f : Disk} (h : store.Guarded d e) (h' : store.Guarded e f) :
    store.Guarded d f := by
  obtain ⟨more, hmore, hdirect⟩ := h.touched
  obtain ⟨more', hmore', hdirect'⟩ := h'.touched
  refine ⟨fun file hfile => h.files file (h'.files file hfile), more ++ more', ?_, ?_⟩
  · rw [hmore', hmore, List.append_assoc]
  · intro t ht
    rcases List.mem_append.mp ht with ht | ht
    · exact hdirect t ht
    · exact hdirect' t ht

theorem Genuine.of_guarded {d d' : Disk} (hd : store.Genuine d)
    (h : ∀ file ∈ d'.files, file ∈ d.files) : store.Genuine d' :=
  fun loc content hmem => hd loc content (h _ hmem)

/-- A name leads to a file of the root, if it leads to a file. -/
def LeadsInside (name : Name) (d : Disk) : Prop :=
  ∀ loc content, store.find name d = some (loc, content) → store.Direct loc

variable (uri : Name) (names : List Name) (hex : Name) (name : Name)

theorem readFile_guarded (d : Disk) (h : store.LeadsInside name d) :
    store.Guarded d (store.readFile name d).2 := by
  refine ⟨fun file hfile => (store.readFile_files name d) ▸ hfile, ?_⟩
  unfold readFile
  split
  next loc content hfind =>
    refine ⟨[(.read, loc)], rfl, fun t ht => ?_⟩
    rw [List.mem_singleton.mp ht]
    exact h loc content hfind
  next => exact ⟨[], (List.append_nil _).symm, fun _ ht => absurd ht List.not_mem_nil⟩

theorem removeFile_guarded (d : Disk) (h : store.LeadsInside name d) :
    store.Guarded d (store.removeFile name d) := by
  refine ⟨fun file hfile => ((store.mem_removeFile name d file).mp hfile).1, ?_⟩
  unfold removeFile
  split
  next loc content hfind =>
    refine ⟨[(.remove, loc)], rfl, fun t ht => ?_⟩
    rw [List.mem_singleton.mp ht]
    exact h loc content hfind
  next => exact ⟨[], (List.append_nil _).symm, fun _ ht => absurd ht List.not_mem_nil⟩

/-- A single component of some length is no special name. -/
theorem resolve_of_name (hslash : '/' ∉ name) (hlong : 2 < name.length) :
    store.resolve name = some (store.root ++ [name]) := by
  refine store.resolve_name name hslash ?_ ?_ ?_
  · rintro rfl
    cases hlong
  · rintro rfl
    simp at hlong
  · rintro rfl
    simp at hlong

/-- A single component leads to the child of that name. -/
theorem leadsInside_of_name (d : Disk) (hslash : '/' ∉ name) (hlong : 2 < name.length) :
    store.LeadsInside name d := by
  intro loc content hfind
  have hresolve := (store.mem_of_find name d loc content hfind).1
  rw [store.resolve_of_name name hslash hlong, Option.some.injEq] at hresolve
  exact ⟨name, hresolve.symm⟩

theorem length_of_isJson (h : isJson name = true) : 2 < name.length := by
  have hsuffix := (Bool.and_eq_true_iff.mp h).1
  have hle := (List.isSuffixOf_iff_suffix.mp hsuffix).length_le
  have hext : jsonExt.length = 5 := rfl
  omega

/-- What a listing finds is in the root. -/
theorem leadsInside_of_listed (d : Disk) (hd : store.Genuine d) (h : name ∈ store.jsonNames d)
    (d' : Disk) : store.LeadsInside name d' := by
  obtain ⟨hjson, content, hmem⟩ := (store.mem_jsonNames name d).mp h
  exact store.leadsInside_of_name name d' (hd _ content hmem name rfl).1
    (length_of_isJson name hjson)

theorem digest_chars (h : isDigest hex = true) : '/' ∉ hex ∧ '.' ∉ hex := by
  have hall := (Bool.and_eq_true_iff.mp h).2
  rw [List.all_eq_true] at hall
  constructor
  · intro hmem
    exact absurd (hall _ hmem) (by decide)
  · intro hmem
    exact absurd (hall _ hmem) (by decide)

/-- A digest names a body of the root. -/
theorem leadsInside_bodyName (d : Disk) (h : '/' ∉ hex) : store.LeadsInside (bodyName hex) d := by
  refine store.leadsInside_of_name _ d ?_ ?_
  · intro hmem
    rcases List.mem_append.mp hmem with hmem | hmem
    · exact h hmem
    · exact absurd hmem (by decide)
  · have hlength : (bodyName hex).length = hex.length + 4 := List.length_append
    omega

/-- A fold of guarded steps over a list of names is guarded. -/
theorem foldl_guarded (step : Disk → Name → Disk) (names : List Name) (ok : Disk → Prop)
    (hok : ∀ d d', ok d → (∀ file ∈ d'.files, file ∈ d.files) → ok d')
    (hstep : ∀ d, ∀ name ∈ names, ok d → store.Guarded d (step d name)) (d : Disk) (hd : ok d) :
    store.Guarded d (names.foldl step d) := by
  induction names generalizing d with
  | nil => exact Guarded.refl store d
  | cons name rest ih =>
      have hfirst := hstep d name List.mem_cons_self hd
      exact hfirst.trans store
        (ih (fun d n hn => hstep d n (List.mem_cons_of_mem name hn)) _ (hok _ _ hd hfirst.files))

theorem cleanupFile_guarded (now : Int) (d : Disk) (name : Name) (hd : store.Genuine d)
    (hname : ∀ d', store.LeadsInside name d') : store.Guarded d (store.cleanupFile now d name) := by
  have hread := store.readFile_guarded name d (hname d)
  have hcontent := store.readFile_content name d
  unfold cleanupFile
  split
  next fr d' heq =>
    rw [heq] at hread hcontent
    split
    next =>
      have hremove := hread.trans store (store.removeFile_guarded name d' (hname d'))
      dsimp only
      split
      next hex hhex =>
        split
        · -- The sidecar is one of the root, so it names its body by digest.
          obtain ⟨⟨loc, content⟩, hfind, hfr⟩ := Option.map_eq_some_iff.mp hcontent.symm
          obtain ⟨n, hloc⟩ := hname d loc content hfind
          have hmem := (store.mem_of_find name d loc content hfind).2
          have hdigest := (hd loc content hmem n hloc).2 fr hfr hex hhex
          exact hremove.trans store
            (store.removeFile_guarded _ _
              (store.leadsInside_bodyName hex _ (digest_chars hex hdigest).1))
        · exact hremove
      next => exact hremove
    next => exact hread
  next d' _ heq =>
    rw [heq] at hread
    exact hread

theorem cleanupExpired_guarded (now : Int) (d : Disk) (hd : store.Genuine d) :
    store.Guarded d (store.cleanupExpired now d) :=
  store.foldl_guarded (store.cleanupFile now) (store.jsonNames d) store.Genuine
    (fun _ _ h => Genuine.of_guarded store h)
    (fun e name hname he => store.cleanupFile_guarded now e name he
      (store.leadsInside_of_listed name d hd hname)) d hd

/-- Reading some names that lead inside. -/
theorem readRefs_guarded (d : Disk) (h : ∀ name ∈ names, ∀ d', store.LeadsInside name d') :
    store.Guarded d (store.readRefs names d).2 := by
  induction names generalizing d with
  | nil => exact Guarded.refl store d
  | cons name rest ih =>
      have hread := store.readFile_guarded name d (h name List.mem_cons_self d)
      have hrest := fun e => ih e (fun n hn => h n (List.mem_cons_of_mem name hn))
      rw [readRefs]
      split
      next fr d' heq =>
        rw [heq] at hread
        exact hread.trans store (hrest d')
      next d' _ heq =>
        rw [heq] at hread
        exact hread.trans store (hrest d')

theorem firstRef_guarded (d : Disk) (h : ∀ name ∈ names, ∀ d', store.LeadsInside name d') :
    store.Guarded d (store.firstRef names d).2 := by
  induction names generalizing d with
  | nil => exact Guarded.refl store d
  | cons name rest ih =>
      have hread := store.readFile_guarded name d (h name List.mem_cons_self d)
      rw [firstRef]
      split
      next fr d' heq =>
        rw [heq] at hread
        exact hread
      next d' _ heq =>
        rw [heq] at hread
        exact hread.trans store (ih d' (fun n hn => h n (List.mem_cons_of_mem name hn)))

theorem leadsInside_of_sidecar (hex name : Name) (d : Disk) (hd : store.Genuine d)
    (h : name ∈ store.sidecarPaths hex d) (d' : Disk) : store.LeadsInside name d' :=
  store.leadsInside_of_listed name d hd ((store.mem_sidecarPaths hex name d).mp h).1 d'

/-- The text of a URI that matches a listed file is one component. -/
theorem slash_of_sidecar (hex name : Name) (d : Disk) (hd : store.Genuine d)
    (h : name ∈ store.sidecarPaths hex d) : '/' ∉ hex := by
  obtain ⟨hjson, hmatch⟩ := (store.mem_sidecarPaths hex name d).mp h
  obtain ⟨-, content, hmem⟩ := (store.mem_jsonNames name d).mp hjson
  have hslash := (hd _ content hmem name rfl).1
  intro hhex
  rcases Bool.or_eq_true_iff.mp hmatch with hname | hname
  · rw [beq_iff_eq.mp hname] at hslash
    exact hslash (List.mem_append_left _ hhex)
  · obtain ⟨rest, rfl⟩ := List.isPrefixOf_iff_prefix.mp hname
    exact hslash (List.mem_append_left _ (List.mem_append_left _ hhex))

theorem get_guarded (now : Int) (d : Disk) (hd : store.Genuine d) :
    store.Guarded d (store.get uri now d).2 := by
  unfold get
  split
  next => exact Guarded.refl store d
  next hex _ =>
    have hclean := store.cleanupExpired_guarded now d hd
    dsimp only
    split
    next => exact hclean
    next hne =>
      -- A sidecar was listed, so the text is the name of its body.
      obtain ⟨name, hname⟩ := List.exists_mem_of_ne_nil _ (mt List.isEmpty_iff.mpr hne)
      have hslash := store.slash_of_sidecar hex name _
        (Genuine.of_guarded store hd hclean.files) hname
      have hread := hclean.trans store
        (store.readFile_guarded _ _ (store.leadsInside_bodyName hex _ hslash))
      split
      next heq => rw [heq] at hread; exact hread
      next heq => rw [heq] at hread; exact hread
      next heq => rw [heq] at hread; exact hread

theorem list_guarded (f : Filter) (now : Int) (d : Disk) (hd : store.Genuine d) :
    store.Guarded d (store.list f now d).2 := by
  have hclean := store.cleanupExpired_guarded now d hd
  exact hclean.trans store
    (store.readRefs_guarded _ _ (fun name hname =>
      store.leadsInside_of_listed name _ (Genuine.of_guarded store hd hclean.files) hname))

/-- The removals of a delete, where its body name leads inside. -/
theorem deleteHex_guarded (d : Disk) (hd : store.Genuine d)
    (h : store.LeadsInside (bodyName hex) d) : store.Guarded d (store.deleteHex hex d) := by
  have hbody := store.removeFile_guarded (bodyName hex) d h
  have hgenuine := Genuine.of_guarded store hd hbody.files
  exact hbody.trans store
    (store.foldl_guarded (fun d name => store.removeFile name d) _ (fun _ => True)
      (fun _ _ _ _ => trivial)
      (fun e name hname _ => store.removeFile_guarded name e
        (store.leadsInside_of_sidecar hex name _ hgenuine hname e)) _ trivial)

theorem readSidecar_guarded (d : Disk) (hd : store.Genuine d)
    (h : store.LeadsInside (sidecarName hex none) d) :
    store.Guarded d (store.readSidecar hex d).2 := by
  have hread := store.readFile_guarded (sidecarName hex none) d h
  unfold readSidecar
  split
  next heq => rw [heq] at hread; exact hread
  next heq => rw [heq] at hread; exact hread
  next d' heq =>
    rw [heq] at hread
    exact hread.trans store (store.firstRef_guarded _ _ (fun name hname =>
      store.leadsInside_of_sidecar hex name d' (Genuine.of_guarded store hd hread.files) hname))

theorem leadsInside_congr (d d' : Disk) (h : d.files = d'.files) :
    store.LeadsInside name d ↔ store.LeadsInside name d' := by
  unfold LeadsInside
  rw [store.find_congr name d d' h]

theorem head_guarded (uri hex : Name) (now : Int) (d : Disk) (hd : store.Genuine d)
    (huri : parseSha256Uri uri = some hex) (hjson : store.LeadsInside (sidecarName hex none) d)
    (hbin : store.LeadsInside (bodyName hex) d) : store.Guarded d (store.head uri now d).2 := by
  have hread := store.readSidecar_guarded hex d hd hjson
  have hfiles := store.readSidecar_files hex d
  have hagain : ∀ d', d'.files = d.files → store.Guarded d' (store.readSidecar hex d').2 :=
    fun d' h => store.readSidecar_guarded hex d'
      (Genuine.of_guarded store hd (fun file hfile => h ▸ hfile))
      ((store.leadsInside_congr _ d' d h).mpr hjson)
  unfold head
  rw [huri]
  dsimp only
  split
  next heq => rw [heq] at hread; exact hread
  next fr d' heq =>
    rw [heq] at hread hfiles
    split
    next =>
      rw [delete, huri]
      exact hread.trans store (store.deleteHex_guarded hex d'
        (Genuine.of_guarded store hd hread.files)
        ((store.leadsInside_congr _ d' d hfiles).mpr hbin))
    next => exact hread.trans store (hagain d' hfiles)
  next d' heq =>
    rw [heq] at hread hfiles
    exact hread.trans store (hagain d' hfiles)

/-- No operation but a put makes a file appear. -/
theorem deleteHex_files (d : Disk) : ∀ file ∈ (store.deleteHex hex d).files, file ∈ d.files := by
  have hfold : ∀ (names : List Name) (e : Disk),
      ∀ file ∈ (names.foldl (fun d name => store.removeFile name d) e).files,
        file ∈ e.files := by
    intro names
    induction names with
    | nil => exact fun e file hfile => hfile
    | cons name rest ih =>
        intro e file hfile
        exact ((store.mem_removeFile name e file).mp (ih _ file hfile)).1
  intro file hfile
  exact ((store.mem_removeFile _ d file).mp (hfold _ _ file hfile)).1

theorem delete_files (d : Disk) : ∀ file ∈ (store.delete uri d).2.files, file ∈ d.files := by
  unfold delete
  split
  next => exact fun file hfile => hfile
  next hex _ => exact store.deleteHex_files hex d

theorem head_files (now : Int) (d : Disk) :
    ∀ file ∈ (store.head uri now d).2.files, file ∈ d.files := by
  unfold head
  split
  next => exact fun file hfile => hfile
  next hex _ =>
    have hfiles := store.readSidecar_files hex d
    split
    next heq =>
      rw [heq] at hfiles
      exact fun file hfile => hfiles ▸ hfile
    next fr d' heq =>
      rw [heq] at hfiles
      split
      next => exact fun file hfile => hfiles ▸ store.delete_files uri d' file hfile
      next => exact fun file hfile => hfiles ▸ (store.readSidecar_files hex d') ▸ hfile
    next d' heq =>
      rw [heq] at hfiles
      exact fun file hfile => hfiles ▸ (store.readSidecar_files hex d') ▸ hfile

/-- What a put writes is one of the store's own files. -/
theorem writeFile_genuine (content : Content) (d : Disk) (hd : store.Genuine d)
    (hslash : '/' ∉ name) (hlong : 2 < name.length)
    (hcontent : ∀ fr, content = .sidecar fr → ∀ hex, fr.sha256Hex = some hex →
      isDigest hex = true) : store.Genuine (store.writeFile name content d) := by
  unfold writeFile
  rw [store.resolve_of_name name hslash hlong]
  intro loc content' hmem n hloc
  rcases List.mem_append.mp hmem with hmem | hmem
  · exact hd loc content' (List.mem_filter.mp hmem).1 n hloc
  · cases List.mem_singleton.mp hmem
    have hname : name = n := by
      have hlast := List.append_cancel_left hloc
      exact (List.cons.inj hlast).1
    rw [← hname]
    exact ⟨hslash, hcontent⟩

theorem slash_sidecarName (key : Option Name) (hhex : '/' ∉ hex)
    (hkey : ∀ k, key = some k → '/' ∉ k) : '/' ∉ sidecarName hex key := by
  intro hmem
  cases key with
  | none =>
      rcases List.mem_append.mp hmem with hmem | hmem
      · exact hhex hmem
      · exact absurd hmem (by decide)
  | some k =>
      rcases List.mem_append.mp hmem with hmem | hmem
      · rcases List.mem_append.mp hmem with hmem | hmem
        · exact hhex hmem
        · rcases List.mem_cons.mp hmem with hmem | hmem
          · exact absurd hmem (by decide)
          · exact hkey k rfl hmem
      · exact absurd hmem (by decide)

theorem slash_key (o : PutOptions) (k : Name) (h : store.logicalSidecarKey o = some k) :
    '/' ∉ k := by
  unfold logicalSidecarKey at h
  split at h
  next =>
    cases h
    intro hmem
    exact (digest_chars _ (store.hash_digest _)).1 (List.mem_of_mem_take hmem)
  next => cases h

/-- A new reference carries the digest of its body. -/
theorem makeFileRef_hex (uri hex : Name) (size : Nat) (o : PutOptions) (now : Int) (fr : FileRef)
    (h : store.makeFileRef uri hex size o now = .ok fr) :
    fr.sha256Hex = some hex ∧ fr.uri = uri := by
  have hhex : ∀ digest : Name, digest = digestScheme ++ hex →
      (if digestScheme.isPrefixOf digest then some (digest.drop digestScheme.length) else none) =
        some hex := by
    rintro _ rfl
    rw [if_pos (List.isPrefixOf_iff_prefix.mpr (List.prefix_append _ _)), List.drop_left]
  unfold makeFileRef at h
  dsimp only at h
  split at h
  next ttl _ =>
    cases hexpiry : expiresAtFromTtl now ttl with
    | error failure => rw [hexpiry] at h; cases h
    | ok expiry =>
        rw [hexpiry] at h
        cases h
        exact ⟨hhex _ rfl, rfl⟩
  next =>
    cases h
    exact ⟨hhex _ rfl, rfl⟩

theorem putNew_genuine (bytes : List UInt8) (o : PutOptions) (at_ : Instants) (d : Disk)
    (hd : store.Genuine d) : store.Genuine (store.putNew bytes o at_ d).2 := by
  have hdigest := store.hash_digest bytes
  have hslash := (digest_chars _ hdigest).1
  have hlength : (store.hash bytes).length = 64 :=
    beq_iff_eq.mp (Bool.and_eq_true_iff.mp hdigest).1
  have hbody : store.Genuine (if (store.find (bodyName (store.hash bytes)) d).isSome then d
      else store.writeFile (bodyName (store.hash bytes)) (.raw bytes) d) := by
    split
    · exact hd
    · refine store.writeFile_genuine _ _ d hd ?_ ?_ (fun fr hfr => by cases hfr)
      · intro hmem
        rcases List.mem_append.mp hmem with hmem | hmem
        · exact hslash hmem
        · exact absurd hmem (by decide)
      · rw [bodyName, List.length_append]
        omega
  unfold putNew
  dsimp only
  split
  next => exact hbody
  next fr hfr =>
    have hhex := store.makeFileRef_hex _ _ _ _ _ fr hfr
    have hwrite := store.writeFile_genuine
      (sidecarName (store.hash bytes) (store.logicalSidecarKey o)) (.sidecar fr) _ hbody
      (slash_sidecarName _ _ hslash (store.slash_key o))
      (by cases store.logicalSidecarKey o <;>
            simp only [sidecarName, List.length_append, hlength] <;> omega)
      (fun fr' hfr' hex' hhex' => by
        cases hfr'
        rw [hhex.1, Option.some.injEq] at hhex'
        rw [← hhex']
        exact hdigest)
    exact Genuine.of_guarded store hwrite (store.cleanupExpired_guarded _ _ hwrite).files

theorem putInner_genuine (body : Option (List UInt8)) (o : PutOptions) (at_ : Instants) (d : Disk)
    (hd : store.Genuine d) : store.Genuine (store.putInner body o at_ d).2 := by
  have hclean := Genuine.of_guarded store hd (store.cleanupExpired_guarded at_.cleanup d hd).files
  unfold putInner
  cases body with
  | none => exact hclean
  | some bytes =>
      dsimp only
      have hfiles := store.readFile_files
        (sidecarName (store.hash bytes) (store.logicalSidecarKey o))
        (store.cleanupExpired at_.cleanup d)
      split
      next existing d' heq =>
        rw [heq] at hfiles
        have hd' : store.Genuine d' := Genuine.of_guarded store hclean (fun _ h => hfiles ▸ h)
        split
        next =>
          exact store.putNew_genuine bytes o at_ _
            (Genuine.of_guarded store hd' (fun file h => ((store.mem_removeFile _ _ file).mp h).1))
        next => exact hd'
      next d' heq =>
        rw [heq] at hfiles
        exact Genuine.of_guarded store hclean (fun _ h => hfiles ▸ h)
      next d' heq =>
        rw [heq] at hfiles
        exact store.putNew_genuine bytes o at_ d'
          (Genuine.of_guarded store hclean (fun _ h => hfiles ▸ h))

/-- Every operation keeps the sidecars genuine, whatever URIs it is given. -/
theorem genuine_apply (d : Disk) (op : Op) (hd : store.Genuine d) :
    store.Genuine (store.apply d op).2 := by
  cases op with
  | put body o at_ => exact store.putInner_genuine body o at_ d hd
  | get uri now => exact Genuine.of_guarded store hd (store.get_guarded uri now d hd).files
  | head uri now => exact Genuine.of_guarded store hd (store.head_files uri now d)
  | list f now => exact Genuine.of_guarded store hd (store.list_guarded f now d hd).files
  | delete uri => exact Genuine.of_guarded store hd (store.delete_files uri d)

theorem genuine_run (d : Disk) (ops : List Op) (hd : store.Genuine d) :
    store.Genuine (store.run d ops) := by
  unfold run
  induction ops generalizing d with
  | nil => exact hd
  | cons op rest ih => exact ih _ (store.genuine_apply d op hd)

/-- The record of what is touched only grows. -/
def Logged (d d' : Disk) : Prop := d.touched <+: d'.touched

theorem readFile_logged (d : Disk) : Logged d (store.readFile name d).2 := by
  unfold readFile
  split
  next => exact List.prefix_append _ _
  next => exact List.prefix_rfl

theorem removeFile_logged (d : Disk) : Logged d (store.removeFile name d) := by
  unfold removeFile
  split
  next => exact List.prefix_append _ _
  next => exact List.prefix_rfl

theorem firstRef_logged (d : Disk) : Logged d (store.firstRef names d).2 := by
  induction names generalizing d with
  | nil => exact List.prefix_rfl
  | cons name rest ih =>
      have hread := store.readFile_logged name d
      rw [firstRef]
      split
      next fr d' heq =>
        rw [heq] at hread
        exact hread
      next d' _ heq =>
        rw [heq] at hread
        exact List.IsPrefix.trans hread (ih d')

theorem foldl_removeFile_logged (d : Disk) :
    Logged d (names.foldl (fun d name => store.removeFile name d) d) := by
  induction names generalizing d with
  | nil => exact List.prefix_rfl
  | cons name rest ih => exact List.IsPrefix.trans (store.removeFile_logged name d) (ih _)

theorem readSidecar_logged (d : Disk) : Logged d (store.readSidecar hex d).2 := by
  have hread := store.readFile_logged (sidecarName hex none) d
  unfold readSidecar
  split
  next heq => rw [heq] at hread; exact hread
  next heq => rw [heq] at hread; exact hread
  next heq => rw [heq] at hread; exact List.IsPrefix.trans hread (store.firstRef_logged _ _)

theorem delete_logged (d : Disk) : Logged d (store.delete uri d).2 := by
  unfold delete
  split
  next => exact List.prefix_rfl
  next hex _ =>
    exact List.IsPrefix.trans (store.removeFile_logged _ d) (store.foldl_removeFile_logged _ _)

/-- A head notes at least what its first look at a sidecar does. -/
theorem head_logged (uri hex : Name) (now : Int) (d : Disk) (h : parseSha256Uri uri = some hex) :
    Logged (store.readSidecar hex d).2 (store.head uri now d).2 := by
  unfold head
  rw [h]
  dsimp only
  split
  next heq => rw [heq]; exact List.prefix_rfl
  next fr d' heq =>
    rw [heq]
    split
    next => exact store.delete_logged uri d'
    next => exact store.readSidecar_logged hex d'
  next d' heq => rw [heq]; exact store.readSidecar_logged hex d'

/-- An operation starts with nothing noted. -/
def unlogged (d : Disk) : Disk := { d with touched := [] }

/-- The URI names an artefact stored in the root. -/
def Stored (uri : Name) (d : Disk) : Prop :=
  ∃ name fr, isJson name = true ∧ (store.root ++ [name], .sidecar fr) ∈ d.files ∧ fr.uri = uri

/-- What is expected for a URI: the operations touch only files of the root,
    and a delete removes nothing unless the URI names an artefact. -/
structure Confined (uri : Name) (d : Disk) : Prop where
  get : ∀ now, ∀ t ∈ (store.get uri now (unlogged d)).2.touched, store.Direct t.2
  head : ∀ now, ∀ t ∈ (store.head uri now (unlogged d)).2.touched, store.Direct t.2
  delete : ∀ t ∈ (store.delete uri (unlogged d)).2.touched, store.Direct t.2
  list : ∀ f now, ∀ t ∈ (store.list f now (unlogged d)).2.touched, store.Direct t.2
  removes : (∃ t ∈ (store.delete uri (unlogged d)).2.touched, t.1 = .remove) →
    store.Stored uri d

/-- The two file names that are made of the text without a listing lead to
    files of the root, and if the text begins a file name of the store, or is
    a body's, then the URI names an artefact. -/
structure Harmless (uri hex : Name) (d : Disk) : Prop where
  sidecar : store.LeadsInside (sidecarName hex none) d
  body : store.LeadsInside (bodyName hex) d
  named : (store.find (bodyName hex) d).isSome ∨ store.sidecarPaths hex d ≠ [] → store.Stored uri d

theorem direct_of_guarded (d d' : Disk) (h : store.Guarded (unlogged d) d') :
    ∀ t ∈ d'.touched, store.Direct t.2 := by
  obtain ⟨more, hmore, hdirect⟩ := h.touched
  rw [hmore]
  exact hdirect

/-- A delete that finds neither a body nor a sidecar does nothing. -/
theorem deleteHex_of_none (d : Disk) (hbody : store.find (bodyName hex) d = none)
    (hpaths : store.sidecarPaths hex d = []) : store.deleteHex hex d = d := by
  unfold deleteHex
  have hremove : store.removeFile (bodyName hex) d = d := by
    unfold removeFile
    rw [hbody]
  rw [hremove]
  dsimp only
  rw [hpaths]
  rfl

/-- A name of the listing is found. -/
theorem find_of_listed (d : Disk) (hd : store.Genuine d) (h : name ∈ store.jsonNames d) :
    ∃ content, store.find name d =
      some (store.root ++ [name], content) := by
  obtain ⟨hjson, content, hmem⟩ := (store.mem_jsonNames name d).mp h
  exact store.find_isSome_of_mem name d _ content
    (store.resolve_of_name name (hd _ content hmem name rfl).1 (length_of_isJson name hjson)) hmem

theorem removeFile_notes (d : Disk) (loc : Location) (content : Content)
    (h : store.find name d = some (loc, content)) :
    (Access.remove, loc) ∈ (store.removeFile name d).touched := by
  unfold removeFile
  rw [h]
  exact List.mem_append_right _ (List.mem_singleton_self _)

/-- A delete that finds a body or a sidecar removes something. -/
theorem deleteHex_notes (d : Disk) (hd : store.Genuine d)
    (h : (store.find (bodyName hex) d).isSome ∨ store.sidecarPaths hex d ≠ []) :
    ∃ t ∈ (store.deleteHex hex d).touched, t.1 = Access.remove := by
  cases hbody : store.find (bodyName hex) d with
  | some file =>
      have hnote := store.removeFile_notes (bodyName hex) d file.1 file.2 hbody
      exact ⟨(.remove, file.1), (store.foldl_removeFile_logged _ _).subset hnote, rfl⟩
  | none =>
      rw [hbody] at h
      have hne : store.sidecarPaths hex d ≠ [] := h.resolve_left (by simp)
      have hremove : store.removeFile (bodyName hex) d = d := by
        unfold removeFile
        rw [hbody]
      unfold deleteHex
      rw [hremove]
      -- The first sidecar that is listed is there to be removed.
      cases hpaths : store.sidecarPaths hex d with
      | nil => exact absurd hpaths hne
      | cons name rest =>
          have hlisted := ((store.mem_sidecarPaths hex name d).mp
            (hpaths ▸ List.mem_cons_self)).1
          obtain ⟨content, hfind⟩ := store.find_of_listed name d hd hlisted
          have hnote := store.removeFile_notes name d _ content hfind
          refine ⟨(.remove, store.root ++ [name]), ?_, rfl⟩
          dsimp only
          rw [hpaths]
          exact (store.foldl_removeFile_logged rest _).subset hnote

theorem confined_of_harmless (d : Disk) (hd : store.Genuine d)
    (h : ∀ hex, parseSha256Uri uri = some hex → store.Harmless uri hex d) :
    store.Confined uri d := by
  have hd' : store.Genuine (unlogged d) := hd
  refine ⟨fun now => store.direct_of_guarded d _ (store.get_guarded uri now _ hd'),
    fun now => store.direct_of_guarded d _ ?_, store.direct_of_guarded d _ ?_,
    fun f now => store.direct_of_guarded d _ (store.list_guarded f now _ hd'), ?_⟩
  · cases hparse : parseSha256Uri uri with
    | none =>
        unfold head
        rw [hparse]
        exact Guarded.refl store _
    | some hex =>
        exact store.head_guarded uri hex now _ hd' hparse (h hex hparse).sidecar (h hex hparse).body
  · unfold delete
    split
    next => exact Guarded.refl store _
    next hex hparse => exact store.deleteHex_guarded hex _ hd' (h hex hparse).body
  · rintro ⟨t, ht, -⟩
    unfold delete at ht
    split at ht
    next => cases ht
    next hex hparse =>
      refine (h hex hparse).named ?_
      by_contra hnone
      rw [not_or, not_not, Option.not_isSome_iff_eq_none] at hnone
      rw [store.deleteHex_of_none hex (unlogged d) hnone.1 hnone.2] at ht
      cases ht

theorem harmless_of_confined (uri hex : Name) (d : Disk) (hd : store.Genuine d)
    (hparse : parseSha256Uri uri = some hex) (h : store.Confined uri d) :
    store.Harmless uri hex d := by
  have hd' : store.Genuine (unlogged d) := hd
  have hdelete : (store.delete uri (unlogged d)).2 = store.deleteHex hex (unlogged d) := by
    unfold delete
    rw [hparse]
  refine ⟨fun loc content hfind => ?_, fun loc content hfind => ?_, fun hfound => ?_⟩
  · -- The sidecar of the bare text is the first thing a head reads.
    have hread : (Access.read, loc) ∈
        (store.readFile (sidecarName hex none) (unlogged d)).2.touched := by
      unfold readFile
      rw [show store.find (sidecarName hex none) (unlogged d) = some (loc, content) from hfind]
      exact List.mem_append_right _ (List.mem_singleton_self _)
    have hcontent : (store.readFile (sidecarName hex none) (unlogged d)).1 = some content := by
      rw [store.readFile_content, show store.find (sidecarName hex none) (unlogged d) =
        some (loc, content) from hfind]
      rfl
    have hsidecar : (Access.read, loc) ∈ (store.readSidecar hex (unlogged d)).2.touched := by
      unfold readSidecar
      split
      next heq => rw [heq] at hread; exact hread
      next heq => rw [heq] at hread; exact hread
      next heq =>
        rw [heq] at hcontent
        cases hcontent
    exact h.head 0 _ ((store.head_logged uri hex 0 _ hparse).subset hsidecar)
  · have hnote := store.removeFile_notes (bodyName hex) (unlogged d) loc content hfind
    refine h.delete (.remove, loc) ?_
    rw [hdelete]
    exact (store.foldl_removeFile_logged _ _).subset hnote
  · refine h.removes ?_
    rw [hdelete]
    exact store.deleteHex_notes hex (unlogged d) hd' hfound

/-- The system's resolution of a name, where the directories on the way are
    there and nothing is a link. -/
def lexicalStep (loc : Location) (piece : Name) : Location :=
  if piece = [] ∨ piece = ['.'] then loc
  else if piece = ['.', '.'] then loc.dropLast
  else loc ++ [piece]

def lexicalResolve (root : Location) (name : Name) : Option Location :=
  match name with
  | '/' :: rest => some ((rest.splitOn '/').foldl lexicalStep [])
  | _ => some ((name.splitOn '/').foldl lexicalStep root)

theorem lexicalResolve_name (root : Location) (name : Name) (hslash : '/' ∉ name)
    (hempty : name ≠ []) (hdot : name ≠ ['.']) (hdots : name ≠ ['.', '.']) :
    lexicalResolve root name = some (root ++ [name]) := by
  have hsplit : name.splitOn '/' = [name] :=
    List.splitOnP_eq_singleton (fun c hc => by
      refine beq_eq_false_iff_ne.mpr ?_
      rintro rfl
      exact hslash hc)
  have hstep : (name.splitOn '/').foldl lexicalStep root = root ++ [name] := by
    rw [hsplit, List.foldl_cons, List.foldl_nil, lexicalStep,
      if_neg (not_or.mpr ⟨hempty, hdot⟩), if_neg hdots]
  unfold lexicalResolve
  split
  next rest => exact absurd List.mem_cons_self hslash
  next => rw [hstep]

/-- A store in one directory, with one digest. -/
def plainStore : Store where
  root := [['s', 't', 'o', 'r', 'e']]
  defaultTtl := none
  hash _ := List.replicate 64 '0'
  hash_digest _ := by decide
  encode _ := []
  serialize _ := []
  resolve := lexicalResolve [['s', 't', 'o', 'r', 'e']]
  resolve_name := lexicalResolve_name _

/-- A body outside the root, and the URI that removes it. -/
def victim : Disk := ⟨[([['v', '.', 'b', 'i', 'n']], .raw [])], []⟩

end Store

end Artefact

end DccMcp
