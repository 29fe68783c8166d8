import DccMcp.Updater.Planning
import DccMcp.Updater.Staging

/-!
# Sets that can be applied

Staging compares the targets of an update as they are written. Applying looks
at the files they stand for, and it derives the names of a prepared file and a
backup from each. So a set may be staged that is then refused, or that is given
a journal in which two entries share a path: when a component is called like
the executable, or like the prepared file or the backup of another one.

These, and something else than a file where a file is to be put, are the only
reasons. The set that staging has accepted comes to its journal without any
path used twice exactly if `Applicable` holds of its targets.

## Main definitions

* `Begun`: A transaction is under way, and its entries do not share paths.
* `Undisturbed`: The set and the executable are as staging has left them.

## Theorems

* `staged_set_begins_iff`: When what was staged can be applied.
-/

namespace DccMcp

namespace Updater

open Crash Crash.Prog FileTree

variable (I : Installation)

/-! ## What staging has made is accepted -/

theorem targets_of_filled (files : String → Option File) (sources : List UpdateSetSource)
    (components : List StagedComponent) (index : Nat)
    (h : Filled I files index sources components) :
    components.map StagedComponent.target = sources.map UpdateSetSource.target := by
  induction sources generalizing components index with
  | nil =>
      cases components with
      | nil => rfl
      | cons c cs => exact absurd h id
  | cons source rest ih =>
      cases components with
      | nil => exact absurd h id
      | cons c cs =>
          rw [List.map_cons, List.map_cons, h.1.target, ih cs (index + 1) h.2]

theorem validateComponents_of_filled (files : String → Option File)
    (sources : List UpdateSetSource) (components : List StagedComponent) (index : Nat)
    (h : Filled I files index sources components)
    (hvalid : ∀ source ∈ sources, validateTarget source.target = true) :
    validateComponents index components = none := by
  induction sources generalizing components index with
  | nil =>
      cases components with
      | nil => rfl
      | cons c cs => exact absurd h id
  | cons source rest ih =>
      cases components with
      | nil => exact absurd h id
      | cons c cs =>
          rw [List.forall_mem_cons] at hvalid
          have htarget : validateTarget c.target = true := by rw [h.1.target, hvalid.1]
          unfold validateComponents
          rw [if_neg (fun hne => hne h.1.stagedFile), if_neg (by rw [htarget]; decide)]
          exact ih cs (index + 1) h.2 hvalid.2

theorem file_of_filled (files : String → Option File) (sources : List UpdateSetSource)
    (components : List StagedComponent) (index : Nat)
    (h : Filled I files index sources components) :
    ∀ c ∈ components, ∃ f, files c.stagedFile = some f ∧ I.platform.digest f = c.sha256 := by
  induction sources generalizing components index with
  | nil =>
      cases components with
      | nil => exact fun c hc => absurd hc List.not_mem_nil
      | cons c cs => exact absurd h id
  | cons source rest ih =>
      cases components with
      | nil => exact absurd h id
      | cons c cs =>
          refine List.forall_mem_cons.mpr ⟨?_, ih cs (index + 1) h.2⟩
          rcases h.1.file with ⟨f, _, hstaged, hdigest⟩
          exact ⟨f, by rw [h.1.stagedFile, hstaged], hdigest⟩

variable (sourceBuildVersion : String) (sources : List UpdateSetSource)
  (entries : List JournalEntry)

/-- A manifest that names the components of sources that staging takes. -/
theorem validateManifestShape_of_filled (sourceServerSha256 : Digest)
    (sources : List UpdateSetSource)
    (components : List StagedComponent) (files : String → Option File)
    (hrequested : Requested sourceBuildVersion sources)
    (h : Filled I files 0 sources components) :
    validateManifestShape ⟨2, I.path, sourceBuildVersion, sourceServerSha256, components⟩ =
      none := by
  have hnonempty : components ≠ [] := by
    rintro rfl
    have htargets := targets_of_filled I files sources [] 0 h
    rcases hrequested.executable with ⟨source, hsource, _⟩
    rw [List.map_nil] at htargets
    rw [List.map_eq_nil_iff.mp htargets.symm] at hsource
    exact absurd hsource List.not_mem_nil
  unfold validateManifestShape
  rw [if_neg (fun hne => hne rfl), if_neg hnonempty]
  exact validateComponents_of_filled I files sources components 0 h hrequested.valid.target

theorem pathsEqual_self (p : Path) : I.pathsEqual p p = true := beq_self_eq_true _

section

variable {A : Choice → Prop}

/-- A manifest in order is admitted. -/
theorem ensures_admitManifest (manifest : UpdateSetManifest) (d : Disk Staging)
    (hmanifest : d.store.pending.bind StagedSet.manifest = some manifest)
    (hshape : validateManifestShape manifest = none)
    (hbound : I.pathsEqual I.path manifest.boundExecutable = true) :
    Ensures A (fun d' => d' = d) (fun m d' => m = manifest ∧ d' = d)
      (fun _ d' => Mishap A ∧ d' = d) (admitManifest I .any) d := by
  refine ensures_bind _ _ d (ensures_attempt _ d (ensures_query _ d rfl ?_ ?_ ?_))
  · intro m hm
    simp only [hmanifest, Except.ok.injEq] at hm
    rw [← hm]
    simp only [hshape]
    refine ensures_bind _ _ d (ensures_require _ _ d (fun _ => ?_) (fun hnot => absurd hbound hnot))
    exact ensures_pure _ d ⟨rfl, rfl⟩
  · intro error herror
    simp [hmanifest] at herror
  · intro hmishap kind
    dsimp only
    rw [if_neg (fun h => by cases h.1)]
    exact ensures_fail _ d ⟨hmishap, rfl⟩

end

/-! ## The journal -/

/-- A transaction is under way, and its entries do not share paths. -/
def Begun (d : Disk Staging) : Prop :=
  ∃ set entries, d.store.pending = some set ∧ set.journal = some ⟨.applying, entries⟩ ∧
    Distinct entries

/-- Whatever journal is there is of these entries. -/
def JournalOf (entries : List JournalEntry) (d : Disk Staging) : Prop :=
  ∀ set journal, d.store.pending = some set → set.journal = some journal →
    journal.entries = entries

theorem journalOf_of_store (d d' : Disk Staging) (hstore : d'.store = d.store)
    (h : JournalOf entries d) : JournalOf entries d' := by
  unfold JournalOf at h ⊢
  rw [hstore]
  exact h

theorem not_begun_of_journalOf (d : Disk Staging) (hdistinct : ¬Distinct entries)
    (h : JournalOf entries d) : ¬Begun d := by
  rintro ⟨set, entries', hset, hjournal, hdistinct'⟩
  have hsame : entries' = entries := h set _ hset hjournal
  rw [hsame] at hdistinct'
  exact hdistinct hdistinct'

theorem keeps_restage {J : Disk Staging → Prop} (wrap : IoKind → UpdateError)
    (f : Staging → Except IoKind Staging)
    (hf : ∀ d s, f d.store = .ok s → J d → J (d.keep s)) : Keeps J (restage wrap f) :=
  fun d h => ensures_restage_cases wrap f d h (fun s hs => hf d s hs h) (fun _ => h)

theorem keeps_writeJournal (journal : UpdateJournal) :
    Keeps (JournalOf journal.entries) (writeJournal journal) := by
  refine keeps_restage _ _ (fun d s hs h => ?_)
  cases hpending : d.store.pending with
  | none => simp only [hpending, reduceCtorEq] at hs
  | some set =>
      simp only [hpending, Except.ok.injEq] at hs
      rw [← hs]
      intro set' journal' hset' hjournal'
      simp only [Disk.store_keep, Option.some.injEq] at hset'
      rw [← hset', Option.some.injEq] at hjournal'
      rw [← hjournal']

theorem keeps_removeJournal : Keeps (JournalOf entries) removeJournal := by
  refine keeps_restage _ _ (fun d s hs h => ?_)
  cases hpending : d.store.pending with
  | none => simp only [hpending, reduceCtorEq] at hs
  | some set =>
      simp only [hpending] at hs
      split at hs
      · simp only [Except.ok.injEq] at hs
        rw [← hs]
        intro set' journal' hset' hjournal'
        simp only [Disk.store_keep, Option.some.injEq] at hset'
        rw [← hset'] at hjournal'
        cases hjournal'
      · cases hs

theorem journalOf_of_pending (d d' : Disk Staging) (hpending : d'.store.pending = d.store.pending)
    (h : JournalOf entries d) :
    JournalOf entries d' := by
  unfold JournalOf at h ⊢
  rw [hpending]
  exact h

/-- The generation is written beside the sets. -/
theorem preserves_persistAppliedGeneration {γ : Type} (f : Disk Staging → γ)
    (hf : ∀ d generation,
      f (d.keep { d.store with generation := generation }) = f d)
    (manifest : UpdateSetManifest) : Preserves f (persistAppliedGeneration I manifest) := by
  refine preserves_bind f _ _ (preserves_require f _ _) (fun _ => ?_)
  split
  · exact preserves_fail f _
  · refine preserves_bind f _ _ (preserves_requireFileHash f I.platform _ _ _) (fun _ => ?_)
    refine preserves_change f _ _ (fun d d' h => ?_)
    simp only [Except.map, Except.ok.injEq] at h
    rw [← h]
    exact hf d _
  · exact preserves_fail f _

theorem preserves_appliedGenerationRequiresReexec {γ : Type} (f : Disk Staging → γ)
    (currentBuildVersion : String) :
    Preserves f (appliedGenerationRequiresReexec I currentBuildVersion) := by
  refine preserves_bind f _ _ (preserves_query f _) (fun generation => ?_)
  cases generation with
  | none => exact preserves_pure f false
  | some g =>
      refine preserves_bind f _ _ (preserves_require f _ _) (fun _ => ?_)
      split
      · exact preserves_pure f false
      · exact preserves_bind f _ _ (preserves_sha256File f _ _) (fun _ => preserves_pure f _)

theorem keeps_finishCommitted (journal : UpdateJournal) :
    Keeps (JournalOf entries) (finishCommitted I journal) := by
  have hdetach : Keeps (JournalOf entries) detach := by
    refine keeps_bind _ _ (keeps_op _ (fun _ d h => journalOf_of_pending entries d _ rfl h))
      (fun nonce => keeps_bind _ _ (keeps_restage _ _ (fun d s hs h => ?_))
        (fun _ => keeps_pure nonce))
    cases hpending : d.store.pending with
    | none => simp only [hpending, reduceCtorEq] at hs
    | some set =>
        simp only [hpending, Except.ok.injEq] at hs
        rw [← hs]
        intro set' journal' hset'
        cases hset'
  refine keeps_bind _ _ hdetach (fun nonce => keeps_bind _ _ ?_ (fun gone => ?_))
  · exact keeps_of_preserves Disk.store _
      (preserves_cleanupCommittedEntries I.platform Disk.store (fun _ _ => rfl) journal.entries)
      (fun d d' hd h => journalOf_of_store entries d d' hd h)
  · refine keeps_whenever gone _ (keeps_of_preserves (fun d => d.store.pending) _
      (preserves_removeCommitted _ (fun _ _ _ => rfl) _ nonce)
      (fun d d' hd h => journalOf_of_pending entries d d' hd h))

/-- The transaction writes no other journal than its own. -/
theorem keeps_runTransaction (manifest : UpdateSetManifest) (entries : List JournalEntry) :
    Keeps (JournalOf entries) (runTransaction I manifest entries) := by
  have hstore : ∀ {α : Type} (p : Io Staging α), Preserves Disk.store p →
      Keeps (JournalOf entries) p := fun p hp =>
    keeps_of_preserves Disk.store p hp (fun d d' hd h => journalOf_of_store entries d d' hd h)
  refine keeps_bind _ _ (keeps_writeJournal ⟨.applying, entries⟩) (fun _ => ?_)
  refine keeps_bind _ _ (keeps_attempt _ (hstore _
    (preserves_applyEntries I.platform Disk.store (fun _ _ => rfl) entries))) (fun result => ?_)
  cases result with
  | ok _ =>
      refine keeps_bind _ _ (keeps_writeJournal ⟨.committed, entries⟩) (fun _ => ?_)
      refine keeps_bind _ _ (keeps_of_preserves (fun d => d.store.pending) _
        (preserves_persistAppliedGeneration I _ (fun _ _ => rfl) manifest)
        (fun d d' hd h => journalOf_of_pending entries d d' hd h)) (fun _ => ?_)
      exact keeps_finishCommitted I entries ⟨.committed, entries⟩
  | error error =>
      refine keeps_bind _ _ (keeps_attempt _ (hstore _
        (preserves_rollback I.platform Disk.store (fun _ _ => rfl) entries))) (fun result => ?_)
      cases result with
      | error rollbackError => exact keeps_fail _
      | ok _ =>
          refine keeps_bind _ _ (keeps_removeJournal entries) (fun _ => ?_)
          exact keeps_bind _ _ (hstore _ (preserves_cleanupCommittedEntries
            I.platform Disk.store (fun _ _ => rfl) entries)) (fun _ => keeps_fail error)

/-! ## When the transaction begins -/

theorem accepted_congr (set : StagedSet) (t t' : Tree String File)
    (hexecutable : t' I.path = t I.path)
    (h : Accepted I sourceBuildVersion sources set t) :
    Accepted I sourceBuildVersion sources set t' := by
  rcases h with ⟨hjournal, digest, components, hmanifest, hdigest, hfilled⟩
  exact ⟨hjournal, digest, components, hmanifest, (has_congr _ _ _ _ _ hexecutable).mpr hdigest,
    hfilled⟩

theorem Accepted.executable (set : StagedSet) (t : Tree String File)
    (h : Accepted I sourceBuildVersion sources set t) :
    (fileAt t I.path).isSome = true := by
  rcases h.manifest with ⟨_, _, _, ⟨f, hf, _⟩, _⟩
  simp [fileAt, hf]

theorem not_begun_of_pending (set : StagedSet) (d : Disk Staging)
    (hpending : d.store.pending = some set) (hjournal : set.journal = none) : ¬Begun d := by
  rintro ⟨set', entries, hset', hjournal', _⟩
  rw [hpending, Option.some.injEq] at hset'
  rw [← hset', hjournal] at hjournal'
  cases hjournal'

/-- With names that fit together the transaction begins. -/
theorem visits_begun (new : StagedSet) (d : Disk Staging)
    (hrequested : Requested sourceBuildVersion sources)
    (hpending : d.store.pending = some new)
    (haccepted : Accepted I sourceBuildVersion sources new d.tree)
    (happlicable : Applicable I (sources.map UpdateSetSource.target) d)
    (htimeless : Timeless I (sources.map UpdateSetSource.target) d) :
    Visits (applyPending I .any sourceBuildVersion) .proceeds d Begun := by
  rcases haccepted with ⟨hjournal, digest, components, hmanifest, hdigest, hfilled⟩
  have htargets := targets_of_filled I _ sources components 0 hfilled
  have hbind : d.store.pending.bind StagedSet.manifest =
      some ⟨2, I.path, sourceBuildVersion, digest, components⟩ := by
    rw [hpending]
    exact hmanifest
  have hkeys : (components.map (fun c => targetKey c.target)).Nodup := by
    have hnodup := hrequested.valid.nodup
    have hsame : components.map (fun c => targetKey c.target) =
        sources.map (fun source => targetKey source.target) := by
      have h := congrArg (List.map targetKey) htargets
      rw [List.map_map, List.map_map] at h
      exact h
    rw [hsame]
    exact hnodup
  rw [← htargets] at happlicable htimeless
  have hstaged : ∀ c ∈ components, Staged I d c := by
    intro c hc
    rcases file_of_filled I _ sources components 0 hfilled c hc with ⟨f, hf, hsha⟩
    refine ⟨f, ?_, hsha⟩
    unfold stagedFile
    rw [hpending]
    exact hf
  refine visits_step (fun c => c = .proceeds) _ _ _ d rfl (ensures_mono _ d
    (ensures_admitManifest I _ d hbind (validateManifestShape_of_filled I sourceBuildVersion digest
      sources components new.files hrequested hfilled) (pathsEqual_self I I.path))
    (fun _ h => h) (fun _ _ h => h) (fun _ _ h => absurd h.1 not_mishap_proceeds)) ?_
  rintro _ d' ⟨rfl, rfl⟩
  rw [if_neg (by rw [isNewerVersion_self]; decide)]
  refine visits_step (fun c => c = .proceeds) (Q := fun journal d'' => journal = none ∧ d'' = d')
    (C := fun _ => True) _ _ _ d' rfl (ensures_query _ d' trivial ?_ ?_
      (fun h _ => absurd h not_mishap_proceeds)) ?_
  · intro journal hj
    simp only [hpending, Option.bind_some, hjournal, Except.ok.injEq] at hj
    exact ⟨hj.symm, rfl⟩
  · intro error herror
    cases herror
  rintro _ d'' ⟨rfl, rfl⟩
  -- Planning cannot fail, and its entries do not share paths.
  have hadmissible := admissible_of_applicable I components d'' hstaged hkeys happlicable
  refine visits_step (fun c => c = .proceeds) _ _ _ d'' rfl (ensures_mono _ d''
    (ensures_planTransaction I .any _ d'') (fun _ h => h) (fun _ _ h => h) ?_) ?_
  · rintro _ d₁ ⟨_, hmishap | hadm | hchanged⟩
    · exact not_mishap_proceeds hmishap
    · exact hadm hadmissible
    · exact hchanged hdigest
  rintro sorted d₁ ⟨entries, rfl, hplanned⟩
  have hdistinct := distinct_of_applicable I components entries d''
    (shape_of_planned I components entries d'' d₁ hplanned) hkeys happlicable htimeless
  have hstore := (within_of_planned I components entries d'' d₁ hplanned).1.store
  refine visits_bind_left _ _ _ d₁ ?_
  refine visits_step (fun c => c = .proceeds) (C := fun _ => True)
    (Q := fun _ d' => Begun d') _ _ _ d₁ rfl ?_ (fun _ d' h => visits_here _ _ d' h)
  refine ensures_restage _ _ { d₁.store with
    pending := some { new with journal := some ⟨.applying, sortEntries I entries⟩ } } d₁ ?_
    trivial ⟨_, _, rfl, rfl, ?_⟩ (fun h _ => not_mishap_proceeds h)
  · simp only [hstore, hpending]
  · exact (distinct_perm _ _ (sortEntries_perm I entries)).mpr hdistinct

/-- Names that do not fit together are refused, or the journal shows it. -/
theorem not_visits_begun (sourceBuildVersion currentBuildVersion : String)
    (sources : List UpdateSetSource) (new : StagedSet) (d : Disk Staging)
    (hrequested : Requested sourceBuildVersion sources) (hpending : d.store.pending = some new)
    (haccepted : Accepted I sourceBuildVersion sources new d.tree)
    (hnot : ¬Applicable I (sources.map UpdateSetSource.target) d) :
    ¬Visits (applyPending I .any currentBuildVersion) .proceeds d Begun := by
  rcases haccepted with ⟨hjournal, digest, components, hmanifest, hdigest, hfilled⟩
  have htargets := targets_of_filled I _ sources components 0 hfilled
  have hbind : d.store.pending.bind StagedSet.manifest =
      some ⟨2, I.path, sourceBuildVersion, digest, components⟩ := by
    rw [hpending]
    exact hmanifest
  have hexecutable : .currentExecutable ∈ components.map StagedComponent.target := by
    rcases hrequested.executable with ⟨source, hsource, htarget⟩
    rw [htargets]
    exact List.mem_map.mpr ⟨source, hsource, htarget⟩
  rw [← htargets] at hnot
  have hsame : ∀ d' : Disk Staging, d'.store = d.store → ¬Begun d' := fun d' h =>
    not_begun_of_pending new d' (by rw [h]; exact hpending) hjournal
  have hdropped : ∀ d' : Disk Staging, Dropped d.store d'.store → ¬Begun d' := by
    rintro d' (h | ⟨nonce, set, _, h⟩)
    · exact hsame d' h
    · rintro ⟨set', _, hset', _⟩
      rw [h] at hset'
      cases hset'
  refine not_visits (fun _ => True) _ _ d trivial ?_
  refine ensures_step _ _ d (ensures_admitManifest I _ d hbind (validateManifestShape_of_filled I
    sourceBuildVersion digest sources components new.files hrequested hfilled)
    (pathsEqual_self I I.path)) (fun d' h => hsame d' (by rw [h]))
    (fun _ d' h => hsame d' (by rw [h.2])) ?_
  rintro _ d' ⟨rfl, rfl⟩
  have hreexec : ∀ d₁ : Disk Staging, ¬Begun d₁ → Ensures (fun _ => True)
      (fun s => ¬Begun s) (fun _ s => ¬Begun s) (fun _ s => ¬Begun s)
      (appliedGenerationRequiresReexec I currentBuildVersion) d₁ := fun d₁ h =>
    keeps_of_preserves (J := fun s => ¬Begun s) (fun s => s) _
      (preserves_appliedGenerationRequiresReexec I _ currentBuildVersion)
      (fun s s' hs hnotBegun => hs ▸ hnotBegun) d₁ h
  split
  · -- A newer set is left alone.
    refine ensures_step _ _ d' (hreexec d' (hsame d' rfl)) (fun _ h => h) (fun _ _ h => h) ?_
    intro reexec d₁ h
    split
    · exact ensures_pure true d₁ h
    · exact ensures_fail _ d₁ h
  refine ensures_bind _ _ d' (ensures_query _ d' (hsame d' rfl) ?_ ?_ (fun _ _ => hsame d' rfl))
  · intro journal hj
    simp only [hpending, Option.bind_some, hjournal, Except.ok.injEq] at hj
    rw [← hj]
    refine ensures_step _ _ d' (ensures_planTransaction I .any _ d')
      (fun d₁ h => hsame d₁ h.store) (fun _ d₁ h => hdropped d₁ h.1.store) ?_
    rintro sorted d₁ ⟨entries, rfl, hplanned⟩
    have hwithin := (within_of_planned I components entries d' d₁ hplanned).1
    have hdistinct : ¬Distinct (sortEntries I entries) := by
      rw [distinct_perm _ _ (sortEntries_perm I entries)]
      intro hdistinct
      have hnames := nodup_of_shapes I components entries d'
        (shape_of_planned I components entries d' d₁ hplanned) hdistinct
      refine hnot (applicable_of_distinct I components entries d' d₁ hplanned hdistinct ?_)
      refine key_ne_executable I _ ?_ hexecutable
      rw [List.map_map]
      exact hnames
    have hstart : JournalOf (sortEntries I entries) d₁ := by
      intro set journal' hset hjournal'
      rw [hwithin.store, hpending, Option.some.injEq] at hset
      rw [← hset, hjournal] at hjournal'
      cases hjournal'
    have hnever : ∀ s, JournalOf (sortEntries I entries) s → ¬Begun s := fun s h =>
      not_begun_of_journalOf _ s hdistinct h
    refine ensures_step _ _ d₁ (ensures_strengthen (fun _ => True) _ d₁
      (keeps_runTransaction I _ (sortEntries I entries) d₁ hstart) (fun _ h => h))
      (fun s h => hnever s h) (fun _ s h => hnever s h) ?_
    exact fun _ d₂ h => hreexec d₂ (hnever d₂ h)
  · intro error herror
    cases herror

/-- Putting things in order does not begin a transaction. -/
theorem visits_applyStagedUpdateSet_iff (currentBuildVersion : String) (new : StagedSet)
    (d d' : Disk Staging) (hexecutable : (fileAt d.tree I.path).isSome = true)
    (hpending : d.store.pending = some new) (hprevious : d.store.previous = none)
    (hjournal : new.journal = none)
    (hcleanup : complete (cleanupCommittedSets I) (fun _ => .proceeds) d = (.ok (), d')) :
    Visits (applyStagedUpdateSet I .any currentBuildVersion) .proceeds d Begun ↔
      Visits (applyPending I .any currentBuildVersion) .proceeds d' Begun := by
  have hsame : ∀ s : Disk Staging, s.store.pending = d.store.pending → ¬Begun s := fun s h =>
    not_begun_of_pending new s (by rw [h]; exact hpending) hjournal
  have hnever : ∀ (α : Type) (p : Io Staging α), Preserves (fun s => s.store.pending) p →
      ¬Visits p .proceeds d Begun := fun α p hp =>
    not_visits (fun _ => True) p _ d trivial
      (ensures_mono _ d (hp d) hsame (fun _ s h => hsame s h) (fun _ s h => hsame s h))
  have hcanonical : complete (canonicalExisting I) (fun _ => .proceeds) d = (.ok (), d) := by
    simp only [canonicalExisting, peek, op, complete_bind, complete, require, hexecutable, if_true]
    rfl
  have hrecover : complete recoverStageSwap (fun _ => .proceeds) d = (.ok (), d) := by
    simp only [recoverStageSwap, peek, op, complete_bind, complete, hprevious]
    rfl
  have hpeek : ∀ (α : Type) (f : Disk Staging → α),
      Preserves (fun s : Disk Staging => s.store.pending) (peek f) := fun α f =>
    preserves_op _ _ (fun _ _ => rfl)
  have hsettled : d'.store.pending = some new := by
    have hend := complete_of_ensures (fun _ => True) _ _ _ _ d
      (preserves_cleanupCommittedSets I (fun s => s.store.pending) (fun _ _ _ => rfl) d)
      (fun _ => .proceeds) (fun _ => trivial)
    rw [hcleanup] at hend
    exact Eq.trans hend hpending
  unfold applyStagedUpdateSet
  rw [visits_after _ _ _ d d () hcanonical (hnever _ _ (preserves_bind _ _ _ (hpeek _ _)
      (fun _ => preserves_require _ _ _))),
    visits_after _ _ _ d d () hrecover ?_,
    visits_after _ _ _ d d' () hcleanup (hnever _ _
      (preserves_cleanupCommittedSets I (fun s => s.store.pending) (fun _ _ _ => rfl))),
    visits_after _ _ _ d' d' d'.store rfl ?_]
  · simp only [hsettled]
  · refine not_visits (fun _ => True) _ _ d' trivial (ensures_peek _ d' ?_ ?_) <;>
      exact not_begun_of_pending new d' hsettled hjournal
  · refine not_visits (fun _ => True) _ _ d trivial (ensures_bind _ _ d (ensures_peek _ d
      (hsame d rfl) ?_))
    rw [hprevious]
    exact ensures_pure () d (hsame d rfl)

/-- The set and the executable are as staging has left them. -/
structure Undisturbed (d d' : Disk Staging) : Prop where
  store : d'.store = d.store
  executable : d'.tree I.path = d.tree I.path

/-- What was staged is applied with a journal in which no path is used twice,
    exactly if the names of its targets fit together on the disk where the sets
    before it have been cleaned up and only files are in the way. -/
theorem staged_set_begins_iff (sourceBuildVersion : String) (sources : List UpdateSetSource)
    (cs unused : List Choice) (d₀ d₁ d₂ d₃ : Disk Staging)
    (hstage : run (stageUpdateSet I sourceBuildVersion sources) cs d₀ =
      .returned (.ok ()) d₁ unused)
    (hundisturbed : Undisturbed I d₁ d₂)
    (hcleanup : complete (cleanupCommittedSets I) (fun _ => .proceeds) d₂ = (.ok (), d₃))
    (hexecutable : d₃.tree I.path = d₁.tree I.path)
    (htimeless : Timeless I (sources.map UpdateSetSource.target) d₃) :
    Visits (applyStagedUpdateSet I .any sourceBuildVersion) .proceeds d₂ Begun ↔
      Applicable I (sources.map UpdateSetSource.target) d₃ := by
  rcases standing_of_stage I sourceBuildVersion sources cs unused d₀ d₁ hstage with
    ⟨new, hrequested, hpending, hprevious, haccepted⟩
  have hpending₂ : d₂.store.pending = some new := by rw [hundisturbed.store, hpending]
  have hprevious₂ : d₂.store.previous = none := by rw [hundisturbed.store, hprevious]
  have hfile := Accepted.executable I _ _ new _
    (accepted_congr I sourceBuildVersion sources new _ _ hundisturbed.executable haccepted)
  have hpending₃ : d₃.store.pending = some new := by
    have hend := complete_of_ensures (fun _ => True) _ _ _ _ d₂
      (preserves_cleanupCommittedSets I (fun s => s.store.pending) (fun _ _ _ => rfl) d₂)
      (fun _ => .proceeds) (fun _ => trivial)
    rw [hcleanup] at hend
    exact Eq.trans hend hpending₂
  have haccepted₃ := accepted_congr I sourceBuildVersion sources new _ _ hexecutable haccepted
  rw [visits_applyStagedUpdateSet_iff I sourceBuildVersion new d₂ d₃ hfile hpending₂ hprevious₂
    haccepted.journal hcleanup]
  constructor
  · intro hvisits
    by_contra hnot
    exact not_visits_begun I sourceBuildVersion sourceBuildVersion sources new d₃ hrequested
      hpending₃ haccepted₃ hnot hvisits
  · exact fun happlicable => visits_begun I sourceBuildVersion sources new d₃ hrequested hpending₃
      haccepted₃ happlicable htimeless

/-! ## A sibling that is called like the executable -/

/-- An update of the executable and of a file beside it. -/
def plainSources (name : String) : List UpdateSetSource :=
  [plainSource 3, { plainSource 4 with target := .sibling name }]

def plainStaged (sources : List UpdateSetSource) : Outcome Choice (Disk Staging) UpdateError Unit :=
  run (stageUpdateSet plainInstallation "2" sources) (List.replicate 40 .proceeds) (plainDisk none)

theorem complete_cleanupCommittedSets_nil (d : Disk Staging) (h : d.store.committed = []) :
    complete (cleanupCommittedSets I) (fun _ => .proceeds) d = (.ok (), d) := by
  simp only [cleanupCommittedSets, peek, op, complete_bind, complete, h, forEach]
  rfl

/-- Staging accepts a sibling that has the name of the executable, and the set
    cannot be applied. -/
theorem staged_executable_name_not_begun :
    (plainStaged (plainSources "server")).result.map Except.isOk = some true ∧
      ¬Visits (applyStagedUpdateSet plainInstallation .any "2") .proceeds
        (plainStaged (plainSources "server")).state Begun := by
  have hresult : (plainStaged (plainSources "server")).result.map Except.isOk = some true := by
    decide +kernel
  have hcommitted : (plainStaged (plainSources "server")).state.store.committed.isEmpty = true := by
    decide +kernel
  rcases Outcome.eq_returned _ hresult with ⟨_, unused, hrun⟩
  rcases standing_of_stage plainInstallation "2" (plainSources "server") _ unused _ _ hrun with
    ⟨new, hrequested, hpending, hprevious, haccepted⟩
  refine ⟨hresult, ?_⟩
  rw [visits_applyStagedUpdateSet_iff plainInstallation "2" new _ _
    (Accepted.executable _ _ _ new _ haccepted) hpending hprevious haccepted.journal
    (complete_cleanupCommittedSets_nil _ _ (List.isEmpty_iff.mp hcommitted))]
  refine not_visits_begun plainInstallation "2" "2" (plainSources "server") new _ hrequested
    hpending haccepted (fun h => ?_)
  exact h.executable "server" (by decide) rfl

theorem staged_set_begins_iff_plain :
    Visits (applyStagedUpdateSet plainInstallation .any "2") .proceeds
        (plainStaged (plainSources "tool")).state Begun ↔
      Applicable plainInstallation ((plainSources "tool").map UpdateSetSource.target)
        (plainStaged (plainSources "tool")).state := by
  have hresult : (plainStaged (plainSources "tool")).result.map Except.isOk = some true := by
    decide +kernel
  have hcommitted : (plainStaged (plainSources "tool")).state.store.committed.isEmpty = true := by
    decide +kernel
  rcases Outcome.eq_returned _ hresult with ⟨_, unused, hrun⟩
  refine staged_set_begins_iff plainInstallation "2" (plainSources "tool") _ unused _ _ _ _ hrun
    ⟨rfl, rfl⟩ (complete_cleanupCommittedSets_nil _ _ (List.isEmpty_iff.mp hcommitted)) rfl ?_
  -- Neither name ends in a digit, as the name of a dated backup does.
  intro t ht t' _ process nanos _
  have htargets : (plainSources "tool").map UpdateSetSource.target =
      [.currentExecutable, .sibling "tool"] := rfl
  rw [htargets, List.mem_pair] at ht
  rcases ht with rfl | rfl
  · exact datedBackupName_ne_of_letter "server" 'r' (by decide) (by decide) _ process nanos
  · exact datedBackupName_ne_of_letter "tool" 'l' (by decide) (by decide) _ process nanos

end Updater

end DccMcp
