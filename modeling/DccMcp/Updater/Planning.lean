import DccMcp.Updater.UpdateSet
import Mathlib.Data.List.Nodup

/-!
# The Journal that is planned

Before anything is replaced each component of the pending set gets its entry.
The entry is made from what is on the disk at that moment, and its prepared
file is written at once, so what the next component finds may be what the one
before has written.

Whether the names of the components fit together shows in the journal only.
When no component is called like another one's prepared file, the disk that
all of them find is the one the plan started with, except for prepared files.
When besides none is called like another one's backup, the paths of the
journal are pairwise different. The exception is a backup that is there
already. It is avoided, and then its name may as well be that of a component.

## Main definitions

* `PlannedEntry`, `Planned`: What is known of the entries that were made.
* `Applicable`: The names fit together, and files are what is in their way.
* `Timeless`: No component has a name that is made from a time to come.

## Theorems

* `ensures_buildEntries`, `ensures_planTransaction`: What planning ensures.
* `distinct_of_applicable`: Names that fit together give different paths.
* `applicable_of_distinct`: Only names that fit together do.
-/

namespace DccMcp

namespace Updater

open Crash Crash.Prog FileTree

/-- Of the directory only the paths of the list change, and time goes on. -/
structure Within (ps : List Path) (d d' : Disk Staging) : Prop where
  tree : Only ps d.tree d'.tree
  store : d'.store = d.store
  nanos : d.nanos ≤ d'.nanos

/-- The pending set is where it was, or it was moved away. -/
def Dropped (s s' : Staging) : Prop :=
  s' = s ∨ ∃ nonce set, s.pending = some set ∧
    s' = { s with pending := none, rejected := s.rejected ++ [(nonce, set)] }

/-- The same for a call that has failed. -/
structure Failed (ps : List Path) (d d' : Disk Staging) : Prop where
  tree : Only ps d.tree d'.tree
  store : Dropped d.store d'.store
  nanos : d.nanos ≤ d'.nanos

theorem within_refl (ps : List Path) (d : Disk Staging) : Within ps d d :=
  ⟨only_refl ps d.tree, rfl, Nat.le_refl _⟩

theorem within_trans (ps : List Path) (d d' d'' : Disk Staging) (h : Within ps d d')
    (h' : Within ps d' d'') : Within ps d d'' where
  tree := only_trans ps _ _ _ h.tree h'.tree
  store := by rw [h'.store, h.store]
  nanos := Nat.le_trans h.nanos h'.nanos

theorem within_mono (ps qs : List Path) (d d' : Disk Staging) (h : Within ps d d')
    (hsub : ∀ p ∈ ps, p ∈ qs) : Within qs d d' :=
  ⟨only_mono ps qs _ _ h.tree hsub, h.store, h.nanos⟩

theorem Within.failed (ps : List Path) (d d' : Disk Staging) (h : Within ps d d') :
    Failed ps d d' := ⟨h.tree, Or.inl h.store, h.nanos⟩

theorem failed_of_within (ps qs : List Path) (d d' d'' : Disk Staging) (h : Within ps d d')
    (h' : Failed qs d' d'') (hps : ∀ p ∈ ps, p ∈ qs) : Failed qs d d'' where
  tree := only_trans qs _ _ _ (only_mono ps qs _ _ h.tree hps) h'.tree
  store := by
    rw [← h.store]
    exact h'.store
  nanos := Nat.le_trans h.nanos h'.nanos

theorem failed_mono (ps qs : List Path) (d d' : Disk Staging) (h : Failed ps d d')
    (hsub : ∀ p ∈ ps, p ∈ qs) : Failed qs d d' :=
  ⟨only_mono ps qs _ _ h.tree hsub, h.store, h.nanos⟩

variable (I : Installation) {A : Choice → Prop}

theorem ensures_rejectOrReturn {α : Type} {Q : α → Disk Staging → Prop}
    {C : Disk Staging → Prop} {E : UpdateError → Disk Staging → Prop} (policy : UpdateSetPolicy)
    (error : UpdateError) (d : Disk Staging) (hC : ∀ d', Within [] d d' → C d')
    (hE : ∀ error d', Failed [] d d' → E error d') :
    Ensures A C Q E (rejectOrReturn policy error) d := by
  cases policy with
  | any => exact ensures_fail error d (hE error d (Within.failed _ d d (within_refl _ d)))
  | currentExecutableOnly =>
      have hlater : Within [] d { d with nanos := d.nanos + 1 } :=
        ⟨only_refl _ _, rfl, Nat.le_succ _⟩
      refine ensures_bind _ _ d (ensures_nextNonce d (hC d (within_refl _ d)) ?_)
      refine ensures_bind _ _ _ (ensures_restage_cases _ _ _ (hC _ hlater) (fun s hs => ?_)
        (fun error => hE error _ (Within.failed _ _ _ hlater)))
      refine ensures_fail _ _ (hE _ _ ⟨only_refl _ _, ?_, Nat.le_succ _⟩)
      cases hpending : d.store.pending with
      | none => simp only [hpending, reduceCtorEq] at hs
      | some set =>
          simp only [hpending, Except.ok.injEq] at hs
          exact Or.inr ⟨_, set, hpending, hs.symm⟩

/-- What is known of an entry that was made on the disk `d` and has led to
    `d'`. -/
structure PlannedEntry (d : Disk Staging) (c : StagedComponent) (e : JournalEntry)
    (d' : Disk Staging) : Prop where
  target : e.target = [targetName I c.target]
  prepared : e.prepared = [preparedName (targetName I c.target)]
  backup : (fileAt d.tree [backupName (targetName I c.target)] = none ∧
      e.backup = [backupName (targetName I c.target)]) ∨
    ((fileAt d.tree [backupName (targetName I c.target)]).isSome = true ∧
      ∃ process nanos, d.nanos ≤ nanos ∧ nanos < d'.nanos ∧
        e.backup = [datedBackupName (targetName I c.target) process nanos])
  hadOriginal : e.hadOriginal = e.originalSha256.isSome
  original : e.originalSha256 =
    (fileAt d.tree [targetName I c.target]).map I.platform.digest
  expected : e.expectedSha256 = c.sha256
  freeTarget : Free d.tree [targetName I c.target]
  freePrepared : Free d.tree [preparedName (targetName I c.target)]
  file : ∃ f, I.platform.digest f = c.sha256 ∧
    d'.tree = put d.tree [preparedName (targetName I c.target)] (some (.file f))
  store : d'.store = d.store
  nanos : d.nanos ≤ d'.nanos

/-- One entry after the other. -/
def Planned : Disk Staging → List StagedComponent → List JournalEntry → Disk Staging → Prop
  | d, [], [], d' => d' = d
  | d, c :: components, e :: entries, d' =>
    ∃ d₁, PlannedEntry I d c e d₁ ∧ Planned d₁ components entries d'
  | _, _, _, _ => False

/-- The bytes of the component are there, with the digest of the manifest. -/
def Staged (d : Disk Staging) (c : StagedComponent) : Prop :=
  ∃ f, stagedFile c.stagedFile d = some f ∧ I.platform.digest f = c.sha256

/-- What an entry needs to be made. -/
structure Placeable (d : Disk Staging) (c : StagedComponent) : Prop where
  staged : Staged I d c
  target : Free d.tree [targetName I c.target]
  prepared : Free d.tree [preparedName (targetName I c.target)]

theorem ensures_backupPath {C : Disk Staging → Prop} {E : UpdateError → Disk Staging → Prop}
    {Q : Path → Disk Staging → Prop} (name : String) (d : Disk Staging) (hC : C d)
    (hcanonical : fileAt d.tree [backupName name] = none → Q [backupName name] d)
    (hdated : (fileAt d.tree [backupName name]).isSome = true →
      Q [datedBackupName name d.process d.nanos] { d with nanos := d.nanos + 1 }) :
    Ensures A C Q E (backupPathForTransaction name) d := by
  refine ensures_bind _ _ d (ensures_peek _ d hC ?_)
  cases hfile : fileAt d.tree [backupName name] with
  | none => exact hcanonical hfile
  | some f => exact ensures_bind _ _ d (ensures_nextNonce d hC (hdated (by rw [hfile]; rfl)))

theorem ensures_checkComponent {C : Disk Staging → Prop} {E : UpdateError → Disk Staging → Prop}
    {R : Unit → Disk Staging → Prop} (policy : UpdateSetPolicy) (c : StagedComponent)
    (d : Disk Staging) (hC : ∀ d', Within [] d d' → C d') (hok : Staged I d c → R () d)
    (hE : ∀ error d', Failed [] d d' → Mishap A ∨ ¬Staged I d c → E error d') :
    Ensures A C R E (checkComponent I policy c) d := by
  have hC' : C d := hC d (within_refl _ d)
  have hrefl : Failed [] d d := Within.failed _ d d (within_refl _ d)
  refine ensures_bind _ _ d (ensures_peek _ d hC' ?_)
  cases hfile : stagedFile c.stagedFile d with
  | none =>
      refine ensures_rejectOrReturn policy _ d hC (fun error d' h => hE error d' h (Or.inr ?_))
      rintro ⟨f, hf, _⟩
      rw [hfile] at hf
      cases hf
  | some f =>
      refine ensures_bind _ _ d (ensures_query _ d hC' ?_ ?_
        (fun h _ => hE _ d hrefl (Or.inl h)))
      · intro actual hactual
        simp only [Except.ok.injEq] at hactual
        rw [← hactual]
        split
        next hdigest => exact ensures_pure () d (hok ⟨f, hfile, hdigest⟩)
        next hdigest =>
            refine ensures_rejectOrReturn policy _ d hC
              (fun error d' h => hE error d' h (Or.inr ?_))
            rintro ⟨g, hg, hdigest'⟩
            rw [hfile, Option.some.injEq] at hg
            rw [← hg] at hdigest'
            exact hdigest hdigest'
      · intro error herror
        cases herror

theorem ensures_originalDigest {C : Disk Staging → Prop} {E : UpdateError → Disk Staging → Prop}
    {Q : Option Digest → Disk Staging → Prop} (p : Path) (hadOriginal : Bool) (d : Disk Staging)
    (hfile : hadOriginal = (fileAt d.tree p).isSome) (hC : C d)
    (hok : Q ((fileAt d.tree p).map I.platform.digest) d)
    (hio : Mishap A → ∀ error, E error d) :
    Ensures A C Q E (originalDigest I p hadOriginal) d := by
  rw [hfile]
  unfold originalDigest
  cases hf : fileAt d.tree p with
  | none =>
      rw [hf] at hok
      exact ensures_pure none d hok
  | some f =>
      rw [hf] at hok
      refine ensures_bind _ _ d (ensures_query _ d hC ?_ ?_ (fun h _ => hio h _))
      · intro a ha
        simp only [hf, Except.ok.injEq] at ha
        rw [← ha]
        exact ensures_pure _ d hok
      · intro error herror
        simp [hf] at herror

/-- The prepared file of a component. -/
def preparedOf (c : StagedComponent) : Path := [preparedName (targetName I c.target)]

theorem ensures_prepareEntry (c : StagedComponent) (d : Disk Staging) (hstaged : Staged I d c) :
    Ensures A (Within [preparedOf I c] d) (fun e d' => PlannedEntry I d c e d')
      (fun _ d' => Within [preparedOf I c] d d' ∧ (Mishap A ∨ ¬Placeable I d c))
      (prepareEntry I c) d := by
  rcases hstaged with ⟨f, hf, hdigest⟩
  -- Whichever backup was chosen, the rest is the same.
  have hrest : ∀ (backup : Path) (d₁ : Disk Staging), d₁.tree = d.tree → d₁.store = d.store →
      d.nanos ≤ d₁.nanos →
      ((fileAt d.tree [backupName (targetName I c.target)] = none ∧
          backup = [backupName (targetName I c.target)]) ∨
        ((fileAt d.tree [backupName (targetName I c.target)]).isSome = true ∧
          ∃ process nanos, d.nanos ≤ nanos ∧ nanos < d₁.nanos ∧
            backup = [datedBackupName (targetName I c.target) process nanos])) →
      Ensures A (Within [preparedOf I c] d) (fun e d' => PlannedEntry I d c e d')
        (fun _ d' => Within [preparedOf I c] d d' ∧ (Mishap A ∨ ¬Placeable I d c)) (do
          let hadOriginal ← ensureReservedFilePath [targetName I c.target] "update target"
          let originalSha256 ← originalDigest I [targetName I c.target] hadOriginal
          prepareVerifiedCopy I.platform (stagedFile c.stagedFile)
            [preparedName (targetName I c.target)] "prepared update path" c.sha256
          pure ⟨[targetName I c.target], [preparedName (targetName I c.target)], backup,
            hadOriginal, originalSha256, c.sha256⟩) d₁ := by
    intro backup d₁ htree hstore hnanos hbackup
    have hsame : Within [preparedOf I c] d d₁ := ⟨by rw [htree]; exact only_refl _ _, hstore, hnanos⟩
    have hput : ∀ g, Within [preparedOf I c] d
        (d₁.put [preparedName (targetName I c.target)] (some (.file g))) := fun g =>
      ⟨only_put _ _ _ _ _ hsame.tree List.mem_cons_self, hstore, hnanos⟩
    have hgoOn : ∀ hadOriginal, hadOriginal = (fileAt d₁.tree [targetName I c.target]).isSome →
        Free d₁.tree [targetName I c.target] →
        Ensures A (Within [preparedOf I c] d) (fun e d' => PlannedEntry I d c e d')
          (fun _ d' => Within [preparedOf I c] d d' ∧ (Mishap A ∨ ¬Placeable I d c)) (do
            let originalSha256 ← originalDigest I [targetName I c.target] hadOriginal
            prepareVerifiedCopy I.platform (stagedFile c.stagedFile)
              [preparedName (targetName I c.target)] "prepared update path" c.sha256
            pure ⟨[targetName I c.target], [preparedName (targetName I c.target)], backup,
              hadOriginal, originalSha256, c.sha256⟩) d₁ := by
      intro hadOriginal hhad hfreeTarget
      refine ensures_bind _ _ d₁ (ensures_originalDigest I _ hadOriginal d₁ hhad hsame ?_
        (fun h _ => ⟨hsame, Or.inl h⟩))
      have hsource : stagedFile c.stagedFile d₁ = some f := by
        unfold stagedFile at hf ⊢
        rw [hstore]
        exact hf
      by_cases hfreePrepared : Free d₁.tree [preparedName (targetName I c.target)]
      · refine ensures_bind _ _ d₁ (ensures_prepareVerifiedCopy I.platform _ _ _ _ f d₁ hsource
          hdigest hfreePrepared rfl hsame hput ?_ (fun h _ => ⟨hsame, Or.inl h⟩)
          (fun h _ g => ⟨hput g, Or.inl h⟩))
        refine ensures_pure _ _ ?_
        exact {
          target := rfl
          prepared := rfl
          backup := hbackup
          hadOriginal := by rw [hhad, Option.isSome_map]
          original := by rw [htree]
          expected := rfl
          freeTarget := by rw [← htree]; exact hfreeTarget
          freePrepared := by rw [← htree]; exact hfreePrepared
          file := ⟨f, hdigest, by rw [Disk.tree_put, htree]⟩
          store := hstore
          nanos := hnanos }
      · refine ensures_bind _ _ d₁ (ensures_bind _ _ d₁ (ensures_ensureReservedFilePath _ _ d₁
          hsame ?_ ?_ ?_ (fun h _ => ⟨hsame, Or.inl h⟩)))
        · exact fun hnone => absurd (free_of_none _ _ hnone) hfreePrepared
        · exact fun g hg => absurd (free_of_file _ _ g hg) hfreePrepared
        · refine fun _ => ⟨hsame, Or.inr (fun h => hfreePrepared ?_)⟩
          rw [htree]
          exact h.prepared
    refine ensures_bind _ _ d₁ (ensures_ensureReservedFilePath _ _ d₁ hsame ?_ ?_ ?_
      (fun h _ => ⟨hsame, Or.inl h⟩))
    · intro hnone
      exact hgoOn false (by simp [fileAt, hnone]) (free_of_none _ _ hnone)
    · intro g hg
      exact hgoOn true (by simp [fileAt, hg]) (free_of_file _ _ g hg)
    · refine fun hfree => ⟨hsame, Or.inr (fun h => hfree ?_)⟩
      rw [htree]
      exact h.target
  refine ensures_bind _ _ d (ensures_backupPath _ d (within_refl _ d) ?_ ?_)
  · intro hnone
    exact hrest _ d rfl rfl (Nat.le_refl _) (Or.inl ⟨hnone, rfl⟩)
  · intro hsome
    exact hrest _ _ rfl rfl (Nat.le_succ _)
      (Or.inr ⟨hsome, _, _, Nat.le_refl _, Nat.lt_succ_self _, rfl⟩)

/-- What planning needs, when some names have been seen. -/
structure Admissible (seen : List String) (components : List StagedComponent)
    (d : Disk Staging) : Prop where
  placeable : ∀ c ∈ components, Placeable I d c
  nodup : (components.map (fun c => targetName I c.target)).Nodup
  unseen : ∀ c ∈ components, targetName I c.target ∉ seen
  prepared : ∀ c ∈ components, ∀ c' ∈ components,
    targetName I c.target ≠ preparedName (targetName I c'.target)

/-- What one entry writes does not get in the way of the next. -/
theorem admissible_tail (seen : List String) (c : StagedComponent) (rest : List StagedComponent)
    (d d₁ : Disk Staging) (e : JournalEntry) (hentry : PlannedEntry I d c e d₁)
    (h : Admissible I seen (c :: rest) d) :
    Admissible I (targetName I c.target :: seen) rest d₁ := by
  have hnodup := h.nodup
  rw [List.map_cons, List.nodup_cons] at hnodup
  have hne : ∀ c' ∈ rest, targetName I c'.target ≠ targetName I c.target := by
    intro c' hc' heq
    exact hnodup.1 (List.mem_map.mpr ⟨c', hc', heq⟩)
  rcases hentry.file with ⟨f, _, htree⟩
  refine ⟨fun c' hc' => ?_, hnodup.2, fun c' hc' hmem => ?_, fun c' hc' c'' hc'' =>
    h.prepared c' (List.mem_cons_of_mem _ hc') c'' (List.mem_cons_of_mem _ hc'')⟩
  · have hplace := h.placeable c' (List.mem_cons_of_mem _ hc')
    refine ⟨?_, ?_, ?_⟩
    · rcases hplace.staged with ⟨g, hg, hdigest⟩
      refine ⟨g, ?_, hdigest⟩
      unfold stagedFile at hg ⊢
      rw [hentry.store]
      exact hg
    · refine (free_congr _ _ _ ?_).mpr hplace.target
      rw [htree]
      refine put_ne _ _ _ _ (fun heq => ?_)
      exact h.prepared c' (List.mem_cons_of_mem _ hc') c List.mem_cons_self (List.cons.inj heq).1
    · refine (free_congr _ _ _ ?_).mpr hplace.prepared
      rw [htree]
      refine put_ne _ _ _ _ (fun heq => ?_)
      exact hne c' hc' ((preparedName_inj _ _).mp (List.cons.inj heq).1)
  · rcases List.mem_cons.mp hmem with heq | hseen
    · exact hne c' hc' heq
    · exact h.unseen c' (List.mem_cons_of_mem _ hc') hseen

def preparedPaths (components : List StagedComponent) : List Path :=
  components.map (preparedOf I)

variable (policy : UpdateSetPolicy) (components : List StagedComponent) (entries : List JournalEntry)
  (d : Disk Staging)

theorem ensures_buildEntry (seen : List String) (c : StagedComponent) (d : Disk Staging) :
    Ensures A (Within [preparedOf I c] d) (fun e d' => PlannedEntry I d c e d')
      (fun _ d' => Failed [preparedOf I c] d d' ∧
        (Mishap A ∨ ¬Placeable I d c ∨ targetName I c.target ∈ seen))
      (buildEntry I policy seen c) d := by
  have hnil : ∀ d', Failed [] d d' → Failed [preparedOf I c] d d' := fun d' h =>
    failed_mono _ _ d d' h (fun p hp => absurd hp List.not_mem_nil)
  have hwithin : ∀ d', Within [] d d' → Within [preparedOf I c] d d' := fun d' h =>
    within_mono _ _ d d' h (fun p hp => absurd hp List.not_mem_nil)
  refine ensures_bind _ _ d (ensures_checkComponent I policy c d hwithin ?_ ?_)
  · intro hstaged
    split
    next hseen =>
        exact ensures_rejectOrReturn policy _ d hwithin
          (fun _ d' h => ⟨hnil d' h, Or.inr (Or.inr hseen)⟩)
    next hseen =>
        refine ensures_mono _ d (ensures_prepareEntry I c d hstaged) (fun _ h => h)
          (fun _ _ h => h) ?_
        rintro _ d' ⟨h, hmishap | hplace⟩
        · exact ⟨Within.failed _ d d' h, Or.inl hmishap⟩
        · exact ⟨Within.failed _ d d' h, Or.inr (Or.inl hplace)⟩
  · rintro _ d' h (hmishap | hstaged)
    · exact ⟨hnil d' h, Or.inl hmishap⟩
    · exact ⟨hnil d' h, Or.inr (Or.inl (fun hplace => hstaged hplace.staged))⟩

theorem PlannedEntry.within (d d₁ : Disk Staging) (c : StagedComponent) (e : JournalEntry)
    (h : PlannedEntry I d c e d₁) : Within [preparedOf I c] d d₁ := by
  rcases h.file with ⟨f, _, htree⟩
  refine ⟨?_, h.store, h.nanos⟩
  rw [htree]
  exact only_put _ _ _ _ _ (only_refl _ _) List.mem_cons_self

/-- Planning entries one after the other. Without a mishap it fails only where
    names or files do not fit. -/
theorem ensures_buildEntries (seen : List String) (d : Disk Staging) :
    Ensures A (Within (preparedPaths I components) d)
      (fun entries d' => Planned I d components entries d')
      (fun _ d' => Failed (preparedPaths I components) d d' ∧
        (Mishap A ∨ ¬Admissible I seen components d))
      (buildEntries I policy seen components) d := by
  induction components generalizing seen d with
  | nil => exact ensures_pure [] d rfl
  | cons c rest ih =>
      have hhead : ∀ p ∈ [preparedOf I c], p ∈ preparedPaths I (c :: rest) := by
        intro p hp
        rw [List.mem_singleton] at hp
        rw [hp]
        exact List.mem_cons_self
      have htail : ∀ p ∈ preparedPaths I rest, p ∈ preparedPaths I (c :: rest) := fun p hp =>
        List.mem_cons_of_mem _ hp
      refine ensures_step _ _ d (ensures_buildEntry I policy seen c d) ?_ ?_ ?_
      · exact fun d' h => within_mono _ _ d d' h hhead
      · rintro _ d' ⟨h, hwhy⟩
        refine ⟨failed_mono _ _ d d' h hhead, ?_⟩
        rcases hwhy with hmishap | hplace | hseen
        · exact Or.inl hmishap
        · exact Or.inr (fun hadm => hplace (hadm.placeable c List.mem_cons_self))
        · exact Or.inr (fun hadm => hadm.unseen c List.mem_cons_self hseen)
      · intro e d₁ hentry
        have hwithin : Within (preparedPaths I (c :: rest)) d d₁ :=
          within_mono _ _ d d₁ (PlannedEntry.within I d d₁ c e hentry) hhead
        refine ensures_step _ _ d₁ (ih (targetName I c.target :: seen) d₁) ?_ ?_ ?_
        · exact fun d' h => within_trans _ d d₁ d' hwithin (within_mono _ _ d₁ d' h htail)
        · rintro _ d' ⟨h, hwhy⟩
          refine ⟨failed_of_within _ _ d d₁ d' hwithin (failed_mono _ _ d₁ d' h htail)
            (fun p hp => hp), ?_⟩
          rcases hwhy with hmishap | hadm
          · exact Or.inl hmishap
          · exact Or.inr (fun hall => hadm (admissible_tail I seen c rest d d₁ e hentry hall))
        · intro entries d' hplanned
          exact ensures_pure _ d' ⟨d₁, hentry, hplanned⟩

/-! ## Names that fit together -/

/-- The names of the components fit together on this disk, and there is nothing
    but files where files are to be. -/
structure Applicable (targets : List UpdateTarget) (d : Disk Staging) : Prop where
  executable : ∀ name, .sibling name ∈ targets → I.key name ≠ I.key I.executable
  prepared : ∀ t ∈ targets, ∀ t' ∈ targets, targetName I t ≠ preparedName (targetName I t')
  backup : ∀ t ∈ targets, ∀ t' ∈ targets, targetName I t = backupName (targetName I t') →
    (fileAt d.tree [targetName I t]).isSome = true
  freeTarget : ∀ t ∈ targets, Free d.tree [targetName I t]
  freePrepared : ∀ t ∈ targets, Free d.tree [preparedName (targetName I t)]

/-- No component is named after another one and a time to come. -/
def Timeless (targets : List UpdateTarget) (d : Disk Staging) : Prop :=
  ∀ t ∈ targets, ∀ t' ∈ targets, ∀ process nanos, d.nanos ≤ nanos →
    targetName I t ≠ datedBackupName (targetName I t') process nanos

/-- What staging compares tells components apart, the executable's name aside. -/
theorem nodup_targetName (targets : List UpdateTarget) (hkeys : (targets.map targetKey).Nodup)
    (hexecutable : ∀ name, .sibling name ∈ targets → I.key name ≠ I.key I.executable) :
    (targets.map (targetName I)).Nodup := by
  have hkey : ∀ m n, I.key m = I.key n → Text.toAsciiLowercase m = Text.toAsciiLowercase n := by
    intro m n h
    unfold Installation.key pathKey at h
    cases hwindows : I.platform.windows with
    | true =>
        rw [hwindows, if_pos rfl, if_pos rfl] at h
        exact h
    | false =>
        rw [hwindows, if_neg (by decide), if_neg (by decide)] at h
        rw [h]
  unfold List.Nodup at hkeys ⊢
  rw [List.pairwise_map] at hkeys ⊢
  refine List.Pairwise.imp_of_mem ?_ hkeys
  intro t t' ht ht' hne heq
  cases t with
  | currentExecutable =>
      cases t' with
      | currentExecutable => exact hne rfl
      | sibling n => exact hexecutable n ht' heq.symm
  | sibling m =>
      cases t' with
      | currentExecutable => exact hexecutable m ht heq
      | sibling n =>
          refine hne ?_
          show "sibling:" ++ Text.toAsciiLowercase m = "sibling:" ++ Text.toAsciiLowercase n
          rw [hkey m n heq]

/-- The paths of an entry for a component, seen from the disk at the start. -/
structure Shape (d : Disk Staging) (name : String) (e : JournalEntry) : Prop where
  target : e.target = [name]
  prepared : e.prepared = [preparedName name]
  backup : (fileAt d.tree [backupName name] = none ∧ e.backup = [backupName name]) ∨
    ((fileAt d.tree [backupName name]).isSome = true ∧
      ∃ process nanos, d.nanos ≤ nanos ∧ e.backup = [datedBackupName name process nanos])

theorem fileAt_congr (t t' : Tree String File) (p : Path) (h : t' p = t p) :
    fileAt t' p = fileAt t p := by
  unfold fileAt
  rw [h]

/-- No prepared file has the name of a backup, so planning does not change
    which backups are there. -/
theorem shape_of_planned (d d' : Disk Staging) (h : Planned I d components entries d') :
    List.Forall₂ (fun c e => Shape d (targetName I c.target) e) components entries := by
  induction components generalizing entries d with
  | nil =>
      cases entries with
      | nil => exact List.Forall₂.nil
      | cons e es => exact absurd h id
  | cons c rest ih =>
      cases entries with
      | nil => exact absurd h id
      | cons e es =>
          rcases h with ⟨d₁, hentry, hrest⟩
          refine List.Forall₂.cons ⟨hentry.target, hentry.prepared, ?_⟩ ?_
          · rcases hentry.backup with h | ⟨h, process, nanos, hle, _, hbackup⟩
            · exact Or.inl h
            · exact Or.inr ⟨h, process, nanos, hle, hbackup⟩
          · rcases hentry.file with ⟨f, _, htree⟩
            refine List.Forall₂.imp (fun c' e' hshape => ?_) (ih es d₁ hrest)
            have hsame : fileAt d₁.tree [backupName (targetName I c'.target)] =
                fileAt d.tree [backupName (targetName I c'.target)] := by
              refine fileAt_congr _ _ _ ?_
              rw [htree]
              exact put_ne _ _ _ _
                (fun heq => preparedName_ne_backupName _ _ (List.cons.inj heq).1.symm)
            refine ⟨hshape.target, hshape.prepared, ?_⟩
            rw [← hsame]
            rcases hshape.backup with h | ⟨h, process, nanos, hle, hbackup⟩
            · exact Or.inl h
            · exact Or.inr ⟨h, process, nanos, Nat.le_trans hentry.nanos hle, hbackup⟩

theorem exists_left_of_forall₂ {α β : Type} (R : α → β → Prop) (as : List α) (bs : List β)
    (h : List.Forall₂ R as bs) (b : β) (hb : b ∈ bs) : ∃ a ∈ as, R a b := by
  induction h with
  | nil => exact absurd hb List.not_mem_nil
  | @cons a b' as bs hR _ ih =>
      rcases List.mem_cons.mp hb with rfl | hmem
      · exact ⟨a, List.mem_cons_self, hR⟩
      · rcases ih hmem with ⟨a', ha', hR'⟩
        exact ⟨a', List.mem_cons_of_mem _ ha', hR'⟩

theorem exists_right_of_forall₂ {α β : Type} (R : α → β → Prop) (as : List α) (bs : List β)
    (h : List.Forall₂ R as bs) (a : α) (ha : a ∈ as) : ∃ b ∈ bs, R a b := by
  rcases exists_left_of_forall₂ (fun b a => R a b) bs as (List.Forall₂.flip h) a ha with
    ⟨b, hb, hR⟩
  exact ⟨b, hb, hR⟩

/-- The three names of an entry are different. -/
theorem nodup_of_shape (name : String) (e : JournalEntry) (h : Shape d name e) : e.paths.Nodup := by
  have hpaths : e.paths = [e.target, e.prepared, e.backup] := rfl
  rw [hpaths, h.target, h.prepared]
  rcases h.backup with ⟨_, hbackup⟩ | ⟨_, process, nanos, _, hbackup⟩
  · rw [hbackup]
    simp only [List.nodup_cons, List.mem_cons, List.cons.injEq, and_true, List.not_mem_nil,
      or_false, not_or, not_false_eq_true, List.nodup_nil]
    exact ⟨⟨preparedName_ne_self name, backupName_ne_self name⟩, preparedName_ne_backupName _ _⟩
  · rw [hbackup]
    simp only [List.nodup_cons, List.mem_cons, List.cons.injEq, and_true, List.not_mem_nil,
      or_false, not_or, not_false_eq_true, List.nodup_nil]
    exact ⟨⟨preparedName_ne_self name, datedBackupName_ne_self name process nanos⟩,
      preparedName_ne_datedBackupName _ _ _ _⟩

/-- Two components with names that fit together share no path. -/
theorem disjoint_of_shape (m n : String) (e e' : JournalEntry) (h : Shape d m e) (h' : Shape d n e')
    (hne : m ≠ n) (hprepared : m ≠ preparedName n)
    (hprepared' : n ≠ preparedName m)
    (hbackup : m = backupName n → (fileAt d.tree [m]).isSome = true)
    (hbackup' : n = backupName m → (fileAt d.tree [n]).isSome = true)
    (hdated : ∀ process nanos, d.nanos ≤ nanos → m ≠ datedBackupName n process nanos)
    (hdated' : ∀ process nanos, d.nanos ≤ nanos → n ≠ datedBackupName m process nanos) :
    ∀ p ∈ e.paths, p ∉ e'.paths := by
  -- The backup of one is neither the file nor the prepared file of the other.
  have hother : ∀ (a b : String) (x : JournalEntry), Shape d a x →
      (b = backupName a → (fileAt d.tree [b]).isSome = true) →
      (∀ process nanos, d.nanos ≤ nanos → b ≠ datedBackupName a process nanos) →
      x.backup ≠ [b] ∧ x.backup ≠ [preparedName b] := by
    intro a b x hx hcanonical hdate
    rcases hx.backup with ⟨hnone, heq⟩ | ⟨_, process, nanos, hle, heq⟩
    · rw [heq]
      refine ⟨fun h => ?_, fun h => preparedName_ne_backupName _ _ (List.cons.inj h).1.symm⟩
      have hb : b = backupName a := (List.cons.inj h).1.symm
      have hsome := hcanonical hb
      rw [hb, hnone] at hsome
      cases hsome
    · rw [heq]
      exact ⟨fun h => hdate process nanos hle (List.cons.inj h).1.symm,
        fun h => preparedName_ne_datedBackupName _ _ _ _ (List.cons.inj h).1.symm⟩
  have hbackups : e.backup ≠ e'.backup := by
    rcases h.backup with ⟨_, heq⟩ | ⟨_, process, nanos, _, heq⟩ <;>
      rcases h'.backup with ⟨_, heq'⟩ | ⟨_, process', nanos', _, heq'⟩ <;> rw [heq, heq'] <;>
      intro hsame
    · exact hne ((backupName_inj m n).mp (List.cons.inj hsame).1)
    · exact backupName_ne_datedBackupName _ _ _ _ (List.cons.inj hsame).1
    · exact backupName_ne_datedBackupName _ _ _ _ (List.cons.inj hsame).1.symm
    · exact hne (datedBackupName_inj _ _ _ _ _ _ (List.cons.inj hsame).1).1
  have h₁ := hother m n e h hbackup' hdated'
  have h₂ := hother n m e' h' hbackup hdated
  intro p hp hp'
  simp only [JournalEntry.paths, List.mem_cons, List.not_mem_nil, or_false] at hp hp'
  rcases hp with rfl | rfl | rfl
  · rw [h.target] at hp'
    rcases hp' with heq | heq | heq
    · rw [h'.target] at heq
      exact hne (List.cons.inj heq).1
    · rw [h'.prepared] at heq
      exact hprepared (List.cons.inj heq).1
    · exact h₂.1 heq.symm
  · rw [h.prepared] at hp'
    rcases hp' with heq | heq | heq
    · rw [h'.target] at heq
      exact hprepared' (List.cons.inj heq).1.symm
    · rw [h'.prepared] at heq
      exact hne ((preparedName_inj m n).mp (List.cons.inj heq).1)
    · exact h₂.2 heq.symm
  · rcases hp' with heq | heq | heq
    · rw [h'.target] at heq
      exact h₁.1 heq
    · rw [h'.prepared] at heq
      exact h₁.2 heq
    · exact hbackups heq

/-- Entries with different names that do not get in each other's way. -/
theorem distinct_of_shapes
    (hshape : List.Forall₂ (fun c e => Shape d (targetName I c.target) e) components entries)
    (hnames : (components.map (fun c => targetName I c.target)).Nodup)
    (hprepared : ∀ c ∈ components, ∀ c' ∈ components,
      targetName I c.target ≠ preparedName (targetName I c'.target))
    (hbackup : ∀ c ∈ components, ∀ c' ∈ components,
      targetName I c.target = backupName (targetName I c'.target) →
        (fileAt d.tree [targetName I c.target]).isSome = true)
    (htimeless : Timeless I (components.map StagedComponent.target) d) : Distinct entries := by
  have hmem : ∀ c ∈ components, c.target ∈ components.map StagedComponent.target := fun c hc =>
    List.mem_map.mpr ⟨c, hc, rfl⟩
  -- The conditions are about two components at a time, so they hold of any part.
  have hpair : ∀ c ∈ components, ∀ c' ∈ components, ∀ e e',
      Shape d (targetName I c.target) e → Shape d (targetName I c'.target) e' →
      targetName I c.target ≠ targetName I c'.target → ∀ p ∈ e.paths, p ∉ e'.paths := by
    intro c hc c' hc' e e' he he' hne
    exact disjoint_of_shape d _ _ e e' he he' hne (hprepared c hc c' hc') (hprepared c' hc' c hc)
      (hbackup c hc c' hc') (hbackup c' hc' c hc) (htimeless _ (hmem c hc) _ (hmem c' hc'))
      (htimeless _ (hmem c' hc') _ (hmem c hc))
  clear hprepared hbackup htimeless hmem
  induction hshape with
  | nil => exact List.nodup_nil
  | @cons c e cs es hce hrest ih =>
      rw [List.map_cons, List.nodup_cons] at hnames
      refine (distinct_cons e es).mpr ⟨nodup_of_shape d _ e hce, ih hnames.2
        (fun c' hc' c'' hc'' => hpair c' (List.mem_cons_of_mem _ hc') c''
          (List.mem_cons_of_mem _ hc'')), fun p hp hmem => ?_⟩
      rcases (mem_allPaths es p).mp hmem with ⟨e', he', hp'⟩
      rcases exists_left_of_forall₂ _ cs es hrest e' he' with ⟨c', hc', hce'⟩
      refine hpair c List.mem_cons_self c' (List.mem_cons_of_mem _ hc') e e' hce hce'
        (fun heq => hnames.1 ?_) p hp hp'
      rw [heq]
      exact List.mem_map.mpr ⟨c', hc', rfl⟩

/-- Names that fit together give a journal without a path used twice. -/
theorem distinct_of_applicable
    (hshape : List.Forall₂ (fun c e => Shape d (targetName I c.target) e) components entries)
    (hkeys : (components.map (fun c => targetKey c.target)).Nodup)
    (happlicable : Applicable I (components.map StagedComponent.target) d)
    (htimeless : Timeless I (components.map StagedComponent.target) d) : Distinct entries := by
  have hnames := nodup_targetName I (components.map StagedComponent.target)
    (by rw [List.map_map]; exact hkeys) happlicable.executable
  rw [List.map_map] at hnames
  have hmem : ∀ c ∈ components, c.target ∈ components.map StagedComponent.target := fun c hc =>
    List.mem_map.mpr ⟨c, hc, rfl⟩
  exact distinct_of_shapes I components entries d hshape hnames
    (fun c hc c' hc' => happlicable.prepared _ (hmem c hc) _ (hmem c' hc'))
    (fun c hc c' hc' => happlicable.backup _ (hmem c hc) _ (hmem c' hc')) htimeless

/-- Entries that share no path have different names. -/
theorem nodup_of_shapes
    (hshape : List.Forall₂ (fun c e => Shape d (targetName I c.target) e) components entries)
    (hdistinct : Distinct entries) :
    (components.map (fun c => targetName I c.target)).Nodup := by
  induction hshape with
  | nil => exact List.nodup_nil
  | @cons c e cs es hce hrest ih =>
      rcases (distinct_cons e es).mp hdistinct with ⟨_, hdistinct', hapart⟩
      rw [List.map_cons, List.nodup_cons]
      refine ⟨fun hmem => ?_, ih hdistinct'⟩
      rcases List.mem_map.mp hmem with ⟨c', hc', hname⟩
      rcases exists_right_of_forall₂ _ _ _ hrest c' hc' with ⟨e', he', hshape'⟩
      refine hapart e.target (mem_target e) ((mem_allPaths es _).mpr ⟨e', he', ?_⟩)
      rw [hce.target, ← hname, ← hshape'.target]
      exact mem_target e'

/-- With different names none is that of the executable but its own. -/
theorem key_ne_executable (targets : List UpdateTarget)
    (hnames : (targets.map (targetName I)).Nodup) (hmem : .currentExecutable ∈ targets) :
    ∀ name, .sibling name ∈ targets → I.key name ≠ I.key I.executable := by
  intro name hname heq
  have hsame : UpdateTarget.sibling name = .currentExecutable :=
    List.inj_on_of_nodup_map hnames hname hmem heq
  cases hsame

/-- A prepared file gets in the way only of a component of that name. -/
theorem free_of_planned (d d' : Disk Staging) (h : Planned I d components entries d')
    (hdistinct : Distinct entries) :
    ∀ c ∈ components, Free d.tree [targetName I c.target] ∧
      Free d.tree [preparedName (targetName I c.target)] := by
  induction components generalizing entries d with
  | nil => exact fun c hc => absurd hc List.not_mem_nil
  | cons c rest ih =>
      cases entries with
      | nil => exact absurd h id
      | cons e es =>
          have hshapes := shape_of_planned I (c :: rest) (e :: es) d d' h
          rcases h with ⟨d₁, hentry, hrest⟩
          rcases (distinct_cons e es).mp hdistinct with ⟨_, hdistinct', hapart⟩
          intro c' hc'
          rcases List.mem_cons.mp hc' with rfl | hc'
          · exact ⟨hentry.freeTarget, hentry.freePrepared⟩
          · rcases hentry.file with ⟨f, _, htree⟩
            rcases exists_right_of_forall₂ _ _ _ (List.forall₂_cons.mp hshapes).2 c' hc' with
              ⟨e', he', hshape'⟩
            -- Neither path of the later component is the prepared file of this one.
            have hsame : ∀ p ∈ e'.paths, d₁.tree p = d.tree p := by
              intro p hp
              rw [htree]
              refine put_ne _ _ _ _ (fun heq => ?_)
              refine hapart p ?_ ((mem_allPaths es p).mpr ⟨e', he', hp⟩)
              rw [heq, ← hentry.prepared]
              exact mem_prepared e
            rcases ih es d₁ hrest hdistinct' c' hc' with ⟨htarget, hprepared⟩
            refine ⟨(free_congr _ _ _ ?_).mp htarget, (free_congr _ _ _ ?_).mp hprepared⟩
            · rw [← hshape'.target]
              exact hsame _ (mem_target e')
            · rw [← hshape'.prepared]
              exact hsame _ (mem_prepared e')

/-- Only names that fit together give a journal without a path used twice. -/
theorem applicable_of_distinct (d d' : Disk Staging) (hplanned : Planned I d components entries d')
    (hdistinct : Distinct entries)
    (hexecutable : ∀ name, .sibling name ∈ components.map StagedComponent.target →
      I.key name ≠ I.key I.executable) :
    Applicable I (components.map StagedComponent.target) d := by
  have hshapes := shape_of_planned I components entries d d' hplanned
  have hfree := free_of_planned I components entries d d' hplanned hdistinct
  have hentry : ∀ t ∈ components.map StagedComponent.target, ∃ e ∈ entries,
      Shape d (targetName I t) e := by
    intro t ht
    rcases List.mem_map.mp ht with ⟨c, hc, rfl⟩
    exact exists_right_of_forall₂ _ _ _ hshapes c hc
  refine ⟨hexecutable, fun t ht t' ht' heq => ?_, fun t ht t' ht' heq => ?_, fun t ht => ?_,
    fun t ht => ?_⟩
  · rcases hentry t ht with ⟨e, he, hshape⟩
    rcases hentry t' ht' with ⟨e', he', hshape'⟩
    have hpath : e.target = e'.prepared := by rw [hshape.target, hshape'.prepared, heq]
    have hsame := eq_of_distinct entries hdistinct e e' he he' e.target (mem_target e)
      (by rw [hpath]; exact mem_prepared e')
    rw [hsame] at hpath
    exact (ne_of_nodup e' (nodup_of_distinct entries hdistinct e' he')).1 hpath
  · rcases hentry t ht with ⟨e, he, hshape⟩
    rcases hentry t' ht' with ⟨e', he', hshape'⟩
    rcases hshape'.backup with ⟨_, hbackup⟩ | ⟨hsome, _⟩
    · exfalso
      have hpath : e.target = e'.backup := by rw [hshape.target, hbackup, heq]
      have hsame := eq_of_distinct entries hdistinct e e' he he' e.target (mem_target e)
        (by rw [hpath]; exact mem_backup e')
      rw [hsame] at hpath
      exact (ne_of_nodup e' (nodup_of_distinct entries hdistinct e' he')).2.1 hpath
    · rw [heq]
      exact hsome
  · rcases List.mem_map.mp ht with ⟨c, hc, rfl⟩
    exact (hfree c hc).1
  · rcases List.mem_map.mp ht with ⟨c, hc, rfl⟩
    exact (hfree c hc).2

/-- Names that fit together and files that are there can be planned. -/
theorem admissible_of_applicable (hstaged : ∀ c ∈ components, Staged I d c)
    (hkeys : (components.map (fun c => targetKey c.target)).Nodup)
    (h : Applicable I (components.map StagedComponent.target) d) :
    Admissible I [] components d := by
  have hmem : ∀ c ∈ components, c.target ∈ components.map StagedComponent.target := fun c hc =>
    List.mem_map.mpr ⟨c, hc, rfl⟩
  have hnames := nodup_targetName I (components.map StagedComponent.target)
    (by rw [List.map_map]; exact hkeys) h.executable
  rw [List.map_map] at hnames
  exact ⟨fun c hc => ⟨hstaged c hc, h.freeTarget _ (hmem c hc), h.freePrepared _ (hmem c hc)⟩,
    hnames, fun c hc => List.not_mem_nil,
    fun c hc c' hc' => h.prepared _ (hmem c hc) _ (hmem c' hc')⟩

theorem sortEntries_perm : (sortEntries I entries).Perm entries := by
  have h := List.filter_append_perm (fun e => !I.pathsEqual e.target I.path) entries
  simp only [Bool.not_not] at h
  exact h

/-! ## After planning -/

theorem within_of_planned (d d' : Disk Staging) (h : Planned I d components entries d') :
    Within (preparedPaths I components) d d' ∧
      ∀ p ∈ preparedPaths I components, ∃ e ∈ entries, e.prepared = p := by
  induction components generalizing entries d with
  | nil =>
      cases entries with
      | nil =>
          have hsame : d' = d := h
          rw [hsame]
          exact ⟨within_refl _ d, fun p hp => absurd hp List.not_mem_nil⟩
      | cons e es => exact absurd h id
  | cons c rest ih =>
      cases entries with
      | nil => exact absurd h id
      | cons e es =>
          rcases h with ⟨d₁, hentry, hrest⟩
          rcases ih es d₁ hrest with ⟨hwithin, hprepared⟩
          constructor
          · refine within_trans _ d d₁ d' (within_mono _ _ d d₁
              (PlannedEntry.within I d d₁ c e hentry) ?_)
              (within_mono _ _ d₁ d' hwithin (fun p hp => List.mem_cons_of_mem _ hp))
            intro p hp
            rw [List.mem_singleton] at hp
            rw [hp]
            exact List.mem_cons_self
          · intro p hp
            rcases List.mem_cons.mp hp with heq | hp
            · exact ⟨e, List.mem_cons_self, by rw [heq, hentry.prepared]; rfl⟩
            · rcases hprepared p hp with ⟨e', he', hp'⟩
              exact ⟨e', List.mem_cons_of_mem _ he', hp'⟩

/-- The whole plan. Without a mishap it fails only where the executable has
    changed, or names or files do not fit. -/
theorem ensures_planTransaction (manifest : UpdateSetManifest) (d : Disk Staging) :
    Ensures A (Within (preparedPaths I manifest.components) d)
      (fun sorted d' => ∃ entries, sorted = sortEntries I entries ∧
        Planned I d manifest.components entries d')
      (fun _ d' => Failed (preparedPaths I manifest.components) d d' ∧
        (Mishap A ∨ ¬Admissible I [] manifest.components d ∨
          ¬Has I.platform.digest d.tree I.path manifest.sourceServerSha256))
      (planTransaction I policy manifest) d := by
  have hrefl := within_refl (preparedPaths I manifest.components) d
  have hnil : ∀ p ∈ ([] : List Path), p ∈ preparedPaths I manifest.components := fun p hp =>
    absurd hp List.not_mem_nil
  refine ensures_bind _ _ d (ensures_query _ d hrefl ?_ ?_
    (fun h _ => ⟨Within.failed _ d d hrefl, Or.inl h⟩))
  · intro actual hactual
    have hhas : Has I.platform.digest d.tree I.path actual := by
      unfold fileAt at hactual
      rcases hpath : d.tree I.path with _ | f | _ | _ <;>
        simp [hpath] at hactual
      exact ⟨f, hpath, hactual⟩
    split
    next hsame =>
        refine ensures_step _ _ d (ensures_buildEntries I policy manifest.components [] d)
          (fun _ h => h) ?_ ?_
        · rintro _ d' ⟨hfailed, hmishap | hadm⟩
          · exact ⟨hfailed, Or.inl hmishap⟩
          · exact ⟨hfailed, Or.inr (Or.inl hadm)⟩
        · exact fun entries d' hplanned => ensures_pure _ d' ⟨entries, rfl, hplanned⟩
    next hchanged =>
        refine ensures_rejectOrReturn policy _ d (fun d' h => within_mono _ _ d d' h hnil) ?_
        refine fun _ d' h => ⟨failed_mono _ _ d d' h hnil, Or.inr (Or.inr (fun h => ?_))⟩
        exact hchanged (has_unique _ _ _ _ _ hhas h)
  · intro error herror
    refine ⟨Within.failed _ d d hrefl, Or.inr (Or.inr ?_)⟩
    rintro ⟨f, hf, _⟩
    simp [fileAt, hf] at herror

end Updater

end DccMcp
