import DccMcp.Updater.UpdateSet

/-!
# Swapping a Set In

Staging fills a directory of its own and then renames twice: what is pending
becomes the previous set, and the directory becomes the pending one. Whatever
calls come next first put things in order. Without a pending set the previous
one goes back to its place, and with both of them the previous one is removed.

So at any time there is one set that the next call will see, and it is the
pending set, or the previous one while there is no pending set. Staging changes
it in one operation, the second renaming, and by then the new set has its
manifest and all of its files. An operation that fails before leaves the old
set to be seen. One that fails afterwards cannot take the new set back: the
removal of what was replaced is reported as a failure of staging.

## Main definitions

* `Sees`, `Presents`: The set that the next call will see, on the disk and by
  what that call does.
* `Accepted`: A whole set, as the sources of staging say.
* `StuckBehind`: The removal of what was replaced fails.

## Theorems

* `stageUpdateSet_atomic_iff`: The old set or the new one, and no error with
  the new one unless the removal fails.
-/

namespace DccMcp

namespace Updater

open Crash Crash.Prog FileTree

/-! ## The set that is seen -/

/-- The next call will see this as the pending set. -/
structure Sees (v : Option StagedSet) (d : Disk Staging) : Prop where
  visible : d.store.pending.or d.store.previous = v
  whole : d.store.previous.isSome = true → ∀ set, d.store.pending = some set →
    set.manifest.isSome = true

/-- The directories of the two sets are all that changes. -/
def Moved (d d' : Disk Staging) : Prop :=
  d' = d.keep { d.store with pending := d'.store.pending, previous := d'.store.previous }

theorem moved_refl (d : Disk Staging) : Moved d d := rfl

theorem sees_of_pending (v : Option StagedSet) (d : Disk Staging) (hpending : d.store.pending = v)
    (hprevious : d.store.previous = none) : Sees v d := by
  refine ⟨by rw [hpending, hprevious, Option.or_none], fun h => ?_⟩
  rw [hprevious] at h
  cases h

theorem sees_of_previous (v : Option StagedSet) (d : Disk Staging)
    (hpending : d.store.pending = none) (hprevious : d.store.previous = v) : Sees v d := by
  refine ⟨by rw [hpending, hprevious, Option.none_or], fun _ set hset => ?_⟩
  rw [hpending] at hset
  cases hset

theorem sees_congr (v : Option StagedSet) (d d' : Disk Staging)
    (hpending : d'.store.pending = d.store.pending)
    (hprevious : d'.store.previous = d.store.previous) (h : Sees v d) : Sees v d' := by
  refine ⟨by rw [hpending, hprevious, h.visible], fun hsome set hset => ?_⟩
  rw [hprevious] at hsome
  rw [hpending] at hset
  exact h.whole hsome set hset

/-- A whole set is seen whatever is left of the one before. -/
theorem sees_of_whole (set : StagedSet) (d : Disk Staging) (hpending : d.store.pending = some set)
    (hmanifest : set.manifest.isSome = true) : Sees (some set) d := by
  refine ⟨by rw [hpending, Option.some_or], fun _ set' hset' => ?_⟩
  rw [hpending, Option.some.injEq] at hset'
  rw [← hset']
  exact hmanifest

section

variable {A : Choice → Prop}

/-- The previous set is removed in two operations. Nothing depends on it while
    there is a whole pending set. -/
theorem ensures_removePrevious (wrap : IoKind → UpdateError) (set : StagedSet) (d : Disk Staging)
    (hpending : d.store.pending = some set) (hmanifest : set.manifest.isSome = true) :
    Ensures A (fun d' => Sees (some set) d' ∧ d'.store.pending = some set ∧ Moved d d')
      (fun _ d' => d'.store.pending = some set ∧ d'.store.previous = none ∧ Moved d d')
      (fun _ d' => Mishap A ∧ Sees (some set) d' ∧ d'.store.pending = some set ∧ Moved d d')
      (removePrevious wrap) d := by
  have hstart : Sees (some set) d ∧ d.store.pending = some set ∧ Moved d d :=
    ⟨sees_of_whole set d hpending hmanifest, hpending, moved_refl d⟩
  have hrest : ∀ d' : Disk Staging, Moved d d' → d'.store.pending = some set →
      Ensures A (fun d' => Sees (some set) d' ∧ d'.store.pending = some set ∧ Moved d d')
        (fun _ d' => d'.store.pending = some set ∧ d'.store.previous = none ∧ Moved d d')
        (fun _ d' => Mishap A ∧ Sees (some set) d' ∧ d'.store.pending = some set ∧ Moved d d')
        (restage wrap fun s => .ok { s with previous := none }) d' := by
    intro d' hmoved hpending'
    have hsees := sees_of_whole set d' hpending' hmanifest
    refine ensures_restage wrap _ _ d' rfl ⟨hsees, hpending', hmoved⟩ ?_
      (fun h _ => ⟨h, hsees, hpending', hmoved⟩)
    refine ⟨hpending', rfl, ?_⟩
    unfold Moved at hmoved ⊢
    rw [hmoved]
    rfl
  refine ensures_bind _ _ d (ensures_removeSome wrap _ d hstart ?_ ?_
    (fun h _ => ⟨h, hstart⟩))
  · exact hrest d (moved_refl d) hpending
  · exact fun names => hrest _ rfl hpending

/-- Putting things in order does not change what is seen. -/
theorem ensures_recoverStageSwap (v : Option StagedSet) (d : Disk Staging) (h : Sees v d) :
    Ensures A (fun d' => Sees v d' ∧ Moved d d')
      (fun _ d' => d'.store.pending = v ∧ d'.store.previous = none ∧ Moved d d')
      (fun _ d' => Mishap A ∧ Sees v d' ∧ Moved d d') recoverStageSwap d := by
  have hstart : Sees v d ∧ Moved d d := ⟨h, moved_refl d⟩
  refine ensures_bind _ _ d (ensures_peek _ d hstart ?_)
  have hvisible := h.visible
  cases hprevious : d.store.previous with
  | none =>
      rw [hprevious, Option.or_none] at hvisible
      exact ensures_pure () d ⟨hvisible, hprevious, moved_refl d⟩
  | some old =>
      cases hpending : d.store.pending with
      | none =>
          rw [hprevious, hpending, Option.none_or] at hvisible
          refine ensures_restage _ _ { d.store with previous := none, pending := some old } d ?_
            hstart ⟨hvisible, rfl, rfl⟩ (fun h _ => ⟨h, hstart⟩)
          simp only [hprevious, hpending]
      | some set =>
          have hmanifest : set.manifest.isSome = true :=
            h.whole (by rw [hprevious]; rfl) set hpending
          rw [hpending, Option.some_or] at hvisible
          refine ensures_bind _ _ d (ensures_require _ _ d (fun _ => ?_)
            (fun hnot => absurd hmanifest hnot))
          refine ensures_mono _ d (ensures_removePrevious _ set d hpending hmanifest) ?_ ?_ ?_
          · exact fun d' h => ⟨hvisible ▸ h.1, h.2.2⟩
          · exact fun _ d' h => ⟨hvisible ▸ h.1, h.2⟩
          · exact fun _ d' h => ⟨h.1, hvisible ▸ h.2.1, h.2.2.2⟩

end

theorem not_mishap_proceeds : ¬Mishap (fun c => c = .proceeds) := by
  rintro ⟨c, rfl, h⟩
  exact h rfl

/-- What the next call does: whenever it has put things in order this is the
    pending set, and it can put them in order. -/
def Presents (v : Option StagedSet) (d : Disk Staging) : Prop :=
  (∀ cs d' rest, run recoverStageSwap cs d = .returned (.ok ()) d' rest → d'.store.pending = v) ∧
    (complete recoverStageSwap (fun _ => .proceeds) d).1 = .ok ()

theorem presents_of_sees (v : Option StagedSet) (d : Disk Staging) (h : Sees v d) :
    Presents v d := by
  constructor
  · intro cs d' rest hrun
    have hmeets := run_of_ensures (fun _ => True) _ _ _ _ d (ensures_recoverStageSwap v d h) cs
      (fun _ _ => trivial)
    rw [hrun] at hmeets
    exact hmeets.1
  · have hmeets := complete_of_ensures (fun c => c = .proceeds) _ _ _ _ d
      (ensures_recoverStageSwap v d h) (fun _ => .proceeds) (fun _ => rfl)
    rcases hc : complete recoverStageSwap (fun _ => .proceeds) d with ⟨r, d'⟩
    rw [hc] at hmeets
    cases r with
    | ok _ => rfl
    | error e => exact absurd hmeets.1 not_mishap_proceeds

/-- There is one set that is presented. -/
theorem presents_unique (v w : Option StagedSet) (d : Disk Staging) (h : Presents v d)
    (h' : Presents w d) : v = w := by
  rcases run_of_complete recoverStageSwap .proceeds d with ⟨n, hn⟩
  rw [h.2] at hn
  rw [← h.1 _ _ _ hn, ← h'.1 _ _ _ hn]

/-- Something is seen unless what is pending is not whole and has replaced
    another set. -/
theorem sees_or_incomplete (d : Disk Staging) :
    (∃ v, Sees v d) ∨ ∃ old set, d.store.previous = some old ∧ d.store.pending = some set ∧
      set.manifest = none := by
  cases hprevious : d.store.previous with
  | none => exact Or.inl ⟨_, sees_of_pending _ d rfl hprevious⟩
  | some old =>
      cases hset : d.store.pending with
      | none => exact Or.inl ⟨_, sees_of_previous _ d hset rfl⟩
      | some set =>
          cases hmanifest : set.manifest with
          | some manifest =>
              exact Or.inl ⟨_, sees_of_whole set d hset (by rw [hmanifest]; rfl)⟩
          | none => exact Or.inr ⟨old, set, rfl, rfl, hmanifest⟩

/-- What is not whole is refused while there is another set. -/
theorem ensures_recoverStageSwap_incomplete {A : Choice → Prop} (old set : StagedSet)
    (d : Disk Staging) (hprevious : d.store.previous = some old)
    (hpending : d.store.pending = some set) (hmanifest : set.manifest = none) :
    Ensures A (fun d' => d' = d) (fun _ _ => False) (fun _ d' => d' = d) recoverStageSwap d := by
  refine ensures_bind _ _ d (ensures_peek _ d rfl ?_)
  rw [hprevious, hpending]
  refine ensures_bind _ _ d (ensures_require _ _ d (fun hwhole => ?_) (fun _ => rfl))
  rw [hmanifest] at hwhole
  cases hwhole

theorem sees_of_presents (v : Option StagedSet) (d : Disk Staging) (h : Presents v d) :
    Sees v d := by
  rcases sees_or_incomplete d with ⟨w, hw⟩ | ⟨old, set, hprevious, hpending, hmanifest⟩
  · rw [presents_unique v w d h (presents_of_sees w d hw)]
    exact hw
  · exfalso
    have hend := complete_of_ensures (fun _ => True) _ _ _ recoverStageSwap d
      (ensures_recoverStageSwap_incomplete old set d hprevious hpending hmanifest)
      (fun _ => .proceeds) (fun _ => trivial)
    rcases hc : complete recoverStageSwap (fun _ => .proceeds) d with ⟨r, d'⟩
    have hok := h.2
    rw [hc] at hend hok
    cases hok
    exact hend

/-! ## Committed sets are elsewhere -/

variable (I : Installation)

section

variable {γ : Type} (f : Disk Staging → γ)
  (hf : ∀ d t committed,
    f { d with tree := t, store := { d.store with committed := committed } } = f d)

include hf

theorem preserves_removeCommitted (wrap : IoKind → UpdateError) (nonce : String) :
    Preserves f (removeCommitted wrap nonce) := by
  refine preserves_bind f _ _ (preserves_op f _ (fun c d => ?_)) (fun _ =>
    preserves_change f wrap _ (fun d d' h => ?_))
  · cases c with
    | proceeds => rfl
    | fails => rfl
    | locked => rfl
    | leaves bytes => rfl
    | keeps names => exact hf d d.tree _
  · simp only [Except.map, Except.ok.injEq] at h
    rw [← h]
    exact hf d d.tree _

theorem preserves_cleanupCommittedSets : Preserves f (cleanupCommittedSets I) := by
  have hpeek : Preserves f (peek fun d => d.store.committed) := preserves_op f _ (fun _ _ => rfl)
  refine preserves_bind f _ _ hpeek (fun sets => preserves_forEach f _ sets (fun entry => ?_))
  unfold cleanupCommittedSet
  cases entry.2.journal with
  | none => exact preserves_fail f _
  | some journal =>
      refine preserves_bind f _ _ (preserves_require f _ _) (fun _ => ?_)
      refine preserves_bind f _ _ (preserves_cleanupCommittedEntries I.platform f
        (fun d t => hf d t d.store.committed) journal.entries) (fun gone => ?_)
      exact preserves_whenever f gone _ (preserves_removeCommitted f hf IoError entry.1)

end

/-! ## The set that is made -/

/-- The set that is being made is all that changes. -/
def Elsewhere (d d' : Disk Staging) : Prop :=
  d' = d.keep { d.store with temporary := d'.store.temporary }

theorem elsewhere_refl (d : Disk Staging) : Elsewhere d d := rfl

theorem elsewhere_edit (nonce : String) (f : StagedSet → StagedSet) (d d' : Disk Staging)
    (h : Elsewhere d d') : Elsewhere d (d'.keep (editTemporary nonce f d'.store)) := by
  unfold Elsewhere at h ⊢
  rw [h]
  rfl

theorem elsewhere_trans (d d' d'' : Disk Staging) (h : Elsewhere d d') (h' : Elsewhere d' d'') :
    Elsewhere d d'' := by
  unfold Elsewhere at h h' ⊢
  rw [h', h]
  rfl

theorem sees_of_elsewhere (v : Option StagedSet) (d d' : Disk Staging) (hd' : Elsewhere d d')
    (h : Sees v d) : Sees v d' := by
  refine sees_congr v d d' ?_ ?_ h
  · rw [hd']
    rfl
  · rw [hd']
    rfl

theorem editTemporary_self (nonce : String) (f : StagedSet → StagedSet) (s : Staging)
    (set : StagedSet) (h : s.temporary nonce = some set) :
    (editTemporary nonce f s).temporary nonce = some (f set) := by
  show Function.update s.temporary nonce ((s.temporary nonce).map f) nonce = some (f set)
  rw [Function.update_self, h]
  rfl

theorem componentFile_inj (i j : Nat) (h : componentFile i = componentFile j) : i = j := by
  have hlist := congrArg String.toList h
  simp only [componentFile, String.toList_append, List.append_cancel_right_eq,
    List.append_cancel_left_eq] at hlist
  simp only [Nat.toList_repr] at hlist
  have hdigits := congrArg (fun digits => Nat.ofDigitChars 10 digits 0) hlist
  simpa only [Nat.ofDigitChars_ten_toDigits] using hdigits

/-- A component and its file are those of a source. -/
structure StagedFrom (files : String → Option File) (index : Nat) (source : UpdateSetSource)
    (c : StagedComponent) : Prop where
  stagedFile : c.stagedFile = componentFile index
  target : c.target = source.target
  expected : Text.eqIgnoreAsciiCase (digestText c.sha256) source.expectedSha256 = true
  file : ∃ f, source.downloaded = some f ∧ files (componentFile index) = some f ∧
    I.platform.digest f = c.sha256

/-- The components and their files are those of the sources, in this order. -/
def Filled (files : String → Option File) (index : Nat) :
    List UpdateSetSource → List StagedComponent → Prop
  | [], [] => True
  | source :: rest, c :: components =>
    StagedFrom I files index source c ∧ Filled files (index + 1) rest components
  | _, _ => False

/-- What staging checks of its sources, when some targets have been seen. -/
structure Valid (keys : List String) (sources : List UpdateSetSource) : Prop where
  target : ∀ source ∈ sources, validateTarget source.target = true
  unseen : ∀ source ∈ sources, targetKey source.target ∉ keys
  nodup : (sources.map (fun source => targetKey source.target)).Nodup

section

variable {A : Choice → Prop}

theorem ensures_validateSources (sources : List UpdateSetSource) (keys : List String)
    (d : Disk Staging) :
    Ensures A (fun d' => d' = d) (fun _ d' => d' = d ∧ Valid keys sources) (fun _ d' => d' = d)
      (validateSources I keys sources) d := by
  induction sources generalizing keys with
  | nil =>
      exact ensures_pure () d ⟨rfl, fun _ h => absurd h List.not_mem_nil,
        fun _ h => absurd h List.not_mem_nil, List.nodup_nil⟩
  | cons source rest ih =>
      have hrest : validateTarget source.target = true → targetKey source.target ∉ keys →
          Ensures A (fun d' => d' = d) (fun _ d' => d' = d ∧ Valid keys (source :: rest))
            (fun _ d' => d' = d)
            (validateSources I (targetKey source.target :: keys) rest) d := by
        intro htarget hunseen
        refine ensures_mono _ d (ih (targetKey source.target :: keys)) (fun _ h => h) ?_
          (fun _ _ h => h)
        rintro _ d' ⟨hd, hvalid⟩
        refine ⟨hd, List.forall_mem_cons.mpr ⟨htarget, hvalid.target⟩,
          List.forall_mem_cons.mpr ⟨hunseen, fun s hs hmem =>
            hvalid.unseen s hs (List.mem_cons_of_mem _ hmem)⟩,
          List.nodup_cons.mpr ⟨fun hmem => ?_, hvalid.nodup⟩⟩
        rcases List.mem_map.mp hmem with ⟨s, hs, hkey⟩
        exact hvalid.unseen s hs (hkey ▸ List.mem_cons_self)
      refine ensures_bind _ _ d ?_
      refine ensures_bind _ _ d (ensures_require _ _ d (fun htarget => ?_) (fun _ => rfl))
      refine ensures_bind _ _ d (ensures_require _ _ d (fun hunseen => ?_) (fun _ => rfl))
      refine ensures_bind _ _ d (ensures_require _ _ d (fun _ => ?_) (fun _ => rfl))
      cases hdownloaded : source.downloaded with
      | none => exact ensures_fail _ d rfl
      | some file =>
          refine ensures_bind _ _ d (ensures_query _ d rfl (fun actual _ => ?_) (fun _ _ => rfl)
            (fun _ _ => rfl))
          exact ensures_require _ _ d (fun _ => hrest htarget hunseen) (fun _ => rfl)

theorem ensures_copyIntoTemporary (nonce name : String) (file : File) (set : StagedSet)
    (d : Disk Staging) (hset : d.store.temporary nonce = some set) :
    Ensures A (Elsewhere d)
      (fun _ d' => Elsewhere d d' ∧ d'.store.temporary nonce = some (addFile name file set))
      (fun _ => Elsewhere d) (copyIntoTemporary nonce name file) d := by
  -- Whatever bytes there are so far, the second operation puts the file in their place.
  have hfinish : ∀ g, Ensures A (Elsewhere d)
      (fun _ d' => Elsewhere d d' ∧ d'.store.temporary nonce = some (addFile name file set))
      (fun _ => Elsewhere d)
      (restage IoError fun s => .ok (editTemporary nonce (addFile name file) s))
      (d.keep (editTemporary nonce (addFile name g) d.store)) := by
    intro g
    have hhalf : Elsewhere d (d.keep (editTemporary nonce (addFile name g) d.store)) :=
      elsewhere_edit nonce _ d d (elsewhere_refl d)
    have hset' := editTemporary_self nonce (addFile name file)
      (editTemporary nonce (addFile name g) d.store) (addFile name g set)
      (editTemporary_self nonce (addFile name g) d.store set hset)
    refine ensures_restage _ _ _ _ rfl hhalf ⟨elsewhere_edit nonce _ d _ hhalf, ?_⟩
      (fun _ _ => hhalf)
    refine hset'.trans ?_
    simp [addFile]
  refine ensures_bind _ _ d (ensures_op _ d (elsewhere_refl d) (fun c hc => ?_))
  cases c with
  | proceeds => exact hfinish _
  | fails => exact elsewhere_refl d
  | locked => exact elsewhere_refl d
  | leaves bytes => exact hfinish _
  | keeps names => exact hfinish _

theorem ensures_stageComponent (nonce : String) (index : Nat) (source : UpdateSetSource)
    (set : StagedSet) (d : Disk Staging) (hset : d.store.temporary nonce = some set) :
    Ensures A (Elsewhere d)
      (fun c d' => Elsewhere d d' ∧ ∃ f,
        d'.store.temporary nonce = some (addFile (componentFile index) f set) ∧
          StagedFrom I (addFile (componentFile index) f set).files index source c)
      (fun _ => Elsewhere d) (stageComponent I nonce index source) d := by
  unfold stageComponent
  cases hdownloaded : source.downloaded with
  | none => exact ensures_fail _ d (elsewhere_refl d)
  | some file =>
      refine ensures_step _ _ d
        (ensures_copyIntoTemporary nonce (componentFile index) file set d hset)
        (fun _ h => h) (fun _ _ h => h) ?_
      rintro _ d₁ ⟨hd₁, hset₁⟩
      have hfile : (addFile (componentFile index) file set).files (componentFile index) =
          some file := Function.update_self _ _ _
      refine ensures_bind _ _ d₁ (ensures_query _ d₁ hd₁ ?_ (fun _ _ => hd₁) (fun _ _ => hd₁))
      intro digest hdigest
      simp only [hset₁, hfile, Except.ok.injEq] at hdigest
      -- What the comparison says is not computed while the goal is matched.
      generalize hsame : Text.eqIgnoreAsciiCase (digestText digest) source.expectedSha256 = same
      refine ensures_bind _ _ d₁ ?_
      refine ensures_require _ _ d₁ (fun h => ?_) (fun _ => hd₁)
      exact ensures_pure _ d₁
        ⟨hd₁, file, hset₁, rfl, rfl, hsame.trans h, file, hdownloaded, hfile, hdigest⟩

/-- The files of later components do not take the place of earlier ones. -/
theorem ensures_stageComponents (nonce : String) (sources : List UpdateSetSource) (index : Nat)
    (set : StagedSet) (d : Disk Staging) (hset : d.store.temporary nonce = some set) :
    Ensures A (Elsewhere d)
      (fun components d' => Elsewhere d d' ∧ ∃ files,
        d'.store.temporary nonce = some { set with files := files } ∧
          (∀ i, i < index → files (componentFile i) = set.files (componentFile i)) ∧
          Filled I files index sources components)
      (fun _ => Elsewhere d) (stageComponents I nonce index sources) d := by
  induction sources generalizing index set d with
  | nil =>
      exact ensures_pure [] d ⟨elsewhere_refl d, set.files, hset, fun _ _ => rfl, trivial⟩
  | cons source rest ih =>
      refine ensures_step _ _ d (ensures_stageComponent I nonce index source set d hset)
        (fun _ h => h) (fun _ _ h => h) ?_
      rintro c d₁ ⟨hd₁, f, hset₁, hc⟩
      refine ensures_step _ _ d₁ (ih (index + 1) _ d₁ hset₁)
        (fun d' h => elsewhere_trans d d₁ d' hd₁ h)
        (fun _ d' h => elsewhere_trans d d₁ d' hd₁ h) ?_
      rintro components d₂ ⟨hd₂, files, hset₂, hbefore, hfilled⟩
      refine ensures_pure _ d₂ ⟨elsewhere_trans d d₁ d₂ hd₁ hd₂, files, hset₂, fun i hi => ?_, ?_,
        hfilled⟩
      · rw [hbefore i (by omega)]
        refine Function.update_of_ne (fun heq => ?_) _ _
        have hindex := componentFile_inj i index heq
        omega
      · rcases hc.file with ⟨g, hg, hstaged, hdigest⟩
        refine ⟨hc.stagedFile, hc.target, hc.expected, g, hg, ?_, hdigest⟩
        rw [hbefore index (by omega)]
        exact hstaged

end

/-! ## Until the set is swapped in -/

/-- A whole set for this executable, as the sources say. -/
structure Accepted (sourceBuildVersion : String) (sources : List UpdateSetSource)
    (set : StagedSet) (t : Tree String File) : Prop where
  journal : set.journal = none
  manifest : ∃ sourceServerSha256 components,
    set.manifest = some ⟨2, I.path, sourceBuildVersion, sourceServerSha256, components⟩ ∧
      Has I.platform.digest t I.path sourceServerSha256 ∧ Filled I set.files 0 sources components

theorem Accepted.whole (sourceBuildVersion : String) (sources : List UpdateSetSource)
    (set : StagedSet) (t : Tree String File) (h : Accepted I sourceBuildVersion sources set t) :
    set.manifest.isSome = true := by
  rcases h.manifest with ⟨_, _, hmanifest, _⟩
  rw [hmanifest]
  rfl

/-- What staging checks before it makes anything. -/
structure Requested (sourceBuildVersion : String) (sources : List UpdateSetSource) : Prop where
  valid : Valid [] sources
  executable : ∃ source ∈ sources, source.target = .currentExecutable
  version : 1 ≤ sourceBuildVersion.utf8ByteSize ∧ sourceBuildVersion.utf8ByteSize ≤ 128

/-- The new set is in the place of the old one. -/
structure SwappedIn (sourceBuildVersion : String) (sources : List UpdateSetSource)
    (old : Option StagedSet) (d : Disk Staging) : Prop where
  requested : Requested sourceBuildVersion sources
  pending : ∃ new, d.store.pending = some new ∧
    Accepted I sourceBuildVersion sources new d.tree
  previous : d.store.previous = old
  journal : old.bind StagedSet.journal = none

section

variable {A : Choice → Prop}

theorem ensures_fillTemporary (nonce sourceBuildVersion : String) (sourceServerSha256 : Digest)
    (sources : List UpdateSetSource) (d : Disk Staging)
    (hset : d.store.temporary nonce = some StagedSet.empty)
    (hdigest : Has I.platform.digest d.tree I.path sourceServerSha256) :
    Ensures A (Elsewhere d)
      (fun _ d' => Elsewhere d d' ∧ ∃ new, d'.store.temporary nonce = some new ∧
        Accepted I sourceBuildVersion sources new d'.tree)
      (fun _ => Elsewhere d)
      (fillTemporary I nonce sourceBuildVersion sourceServerSha256 sources) d := by
  refine ensures_step _ _ d (ensures_stageComponents I nonce sources 0 StagedSet.empty d hset)
    (fun _ h => h) (fun _ _ h => h) ?_
  rintro components d₁ ⟨hd₁, files, hset₁, _, hfilled⟩
  have htree : d₁.tree = d.tree := by
    rw [hd₁]
    rfl
  refine ensures_restage _ _ _ d₁ rfl hd₁ ⟨elsewhere_edit nonce _ d d₁ hd₁, _,
    editTemporary_self nonce _ d₁.store _ hset₁, ?_, ?_⟩ (fun _ _ => hd₁)
  · rfl
  · refine ⟨sourceServerSha256, components, rfl, ?_, hfilled⟩
    show Has I.platform.digest d₁.tree I.path sourceServerSha256
    rw [htree]
    exact hdigest

theorem ensures_removeTemporary (nonce : String) (d : Disk Staging) :
    Ensures A (Elsewhere d) (fun _ => Elsewhere d) (fun _ => Elsewhere d)
      (removeTemporary nonce) d := by
  have hrest : ∀ d', Elsewhere d d' → Ensures A (Elsewhere d) (fun _ => Elsewhere d)
      (fun _ => Elsewhere d) (restage IoError fun s =>
        .ok { s with temporary := Function.update s.temporary nonce none }) d' := by
    intro d' h
    refine ensures_restage _ _ _ d' rfl h ?_ (fun _ _ => h)
    unfold Elsewhere at h ⊢
    rw [h]
    rfl
  refine ensures_bind _ _ d (ensures_removeSome _ _ d (elsewhere_refl d) ?_ ?_
    (fun _ _ => elsewhere_refl d))
  · exact hrest d (elsewhere_refl d)
  · exact fun names => hrest _ rfl

/-- Giving up ends with an error, and what is seen is as before. -/
theorem ensures_abandon {R : Unit → Disk Staging → Prop} (v : Option StagedSet) (nonce : String)
    (error : UpdateError) (d : Disk Staging) (h : Sees v d) :
    Ensures A (Sees v) R (fun _ => Sees v) (abandon nonce error) d := by
  have hsees : ∀ d', Elsewhere d d' → Sees v d' := fun d' hd' => sees_of_elsewhere v d d' hd' h
  refine ensures_bind _ _ d (ensures_attempt _ d (ensures_mono _ d
    (ensures_removeTemporary nonce d) hsees ?_ ?_))
  · exact fun _ d' hd' => ensures_fail error d' (hsees d' hd')
  · exact fun _ d' hd' => ensures_fail error d' (hsees d' hd')

/-- The two renamings. The second one decides which set is seen. -/
theorem ensures_swapIn (nonce sourceBuildVersion : String) (sources : List UpdateSetSource)
    (old : Option StagedSet) (new : StagedSet) (d : Disk Staging)
    (hrequested : Requested sourceBuildVersion sources)
    (hjournal : old.bind StagedSet.journal = none) (hpending : d.store.pending = old)
    (hprevious : d.store.previous = none) (hset : d.store.temporary nonce = some new)
    (hnew : Accepted I sourceBuildVersion sources new d.tree) :
    Ensures A (Sees old)
      (fun _ => SwappedIn I sourceBuildVersion sources old) (fun _ => Sees old)
      (swapIn nonce) d := by
  have hold : Sees old d := sees_of_pending old d hpending hprevious
  -- With nothing pending the new set takes the place, or the old one goes back.
  have hrest : ∀ (settle : Except UpdateError Unit → Io Staging Unit)
      (_ : settle (.ok ()) = pure ())
      (_ : ∀ error, settle (.error error) = (do
        let s ← peek Disk.store
        whenever s.previous.isSome do
          let _ ← attempt (renamePreviousToPending IoError)
        abandon nonce error))
      (d' : Disk Staging), d'.store.pending = none → d'.store.previous = old →
      d'.store.temporary nonce = some new → d'.tree = d.tree →
      Ensures A (Sees old)
        (fun _ => SwappedIn I sourceBuildVersion sources old) (fun _ => Sees old)
        (attempt (renameTemporaryToPending nonce) >>= settle) d' := by
    intro settle hok herror d' hpending' hprevious' hset' htree
    have hold' : Sees old d' := sees_of_previous old d' hpending' hprevious'
    have hgiveUp : ∀ error d'', Sees old d'' → Ensures A (Sees old)
        (fun _ => SwappedIn I sourceBuildVersion sources old) (fun _ => Sees old)
        (abandon nonce error) d'' := fun error d'' h => ensures_abandon old nonce error d'' h
    refine ensures_bind _ _ d' (ensures_attempt _ d' ?_)
    refine ensures_restage _ _ { d'.store with
      temporary := Function.update d'.store.temporary nonce none, pending := some new } d' ?_
      hold' ?_ ?_
    · simp only [hset', hpending']
    · rw [hok]
      refine ensures_pure () _ ⟨hrequested, ⟨new, rfl, ?_⟩, hprevious', hjournal⟩
      rw [Disk.tree_keep, htree]
      exact hnew
    · intro _ kind
      rw [herror]
      refine ensures_bind _ _ d' (ensures_peek _ d' hold' ?_)
      cases hsome : old with
      | none =>
          rw [hprevious', hsome]
          rw [hsome] at hold' hgiveUp
          exact ensures_bind _ _ d' (ensures_pure () d' (hgiveUp _ d' hold'))
      | some set =>
          rw [hprevious', hsome]
          rw [hsome] at hold' hgiveUp hprevious'
          refine ensures_bind _ _ d' (ensures_bind _ _ d' (ensures_attempt _ d' ?_))
          refine ensures_restage _ _ { d'.store with previous := none, pending := some set } d' ?_
            hold' ?_ ?_
          · simp only [hprevious', hpending']
          · exact ensures_pure () _ (hgiveUp _ _ (sees_of_pending _ _ rfl rfl))
          · exact fun _ _ => ensures_pure () d' (hgiveUp _ d' hold')
  refine ensures_bind _ _ d (ensures_peek _ d hold ?_)
  cases hsome : old with
  | none =>
      rw [hsome] at hpending hrest
      rw [hpending]
      refine ensures_bind _ _ d (ensures_pure () d ?_)
      refine hrest _ ?_ (fun _ => ?_) d hpending hprevious hset rfl
      · rfl
      · rfl
  | some set =>
      rw [hsome] at hpending hrest hold
      rw [hpending]
      refine ensures_bind _ _ d ?_
      show Ensures A _ _ _ renamePendingToPrevious d
      refine ensures_restage _ _ { d.store with pending := none, previous := some set } d ?_
        hold ?_ (fun _ _ => hold)
      · simp only [hpending, hprevious]
      · refine hrest _ ?_ (fun _ => ?_) _ ?_ ?_ hset ?_
        all_goals rfl

theorem ensures_canonicalExisting (d : Disk Staging) :
    Ensures A (fun d' => d' = d) (fun _ d' => d' = d ∧ (fileAt d.tree I.path).isSome = true)
      (fun _ d' => d' = d ∧ fileAt d.tree I.path = none) (canonicalExisting I) d := by
  refine ensures_bind _ _ d (ensures_peek _ d rfl ?_)
  refine ensures_require _ _ d (fun h => ⟨rfl, h⟩) (fun h => ⟨rfl, ?_⟩)
  rw [Bool.not_eq_true] at h
  exact Option.isNone_iff_eq_none.mp (by rw [← Option.not_isSome, h]; rfl)

theorem ensures_makeTemporary (v : Option StagedSet) (d : Disk Staging) (h : Sees v d) :
    Ensures A (Sees v)
      (fun nonce d' => d'.store.temporary nonce = some StagedSet.empty ∧ d'.tree = d.tree ∧
        d'.store.pending = d.store.pending ∧ d'.store.previous = d.store.previous)
      (fun _ => Sees v) makeTemporary d := by
  have hlater : Sees v { d with nanos := d.nanos + 1 } := sees_congr v d _ rfl rfl h
  refine ensures_bind _ _ d (ensures_nextNonce d h ?_)
  refine ensures_bind _ _ _ (ensures_restage_cases _ _ _ hlater (fun s hs => ?_) (fun _ => hlater))
  split at hs
  · cases hs
  · simp only [Except.ok.injEq] at hs
    rw [← hs]
    exact ensures_pure _ _ ⟨Function.update_self _ _ _, rfl, rfl, rfl⟩

/-- Until the set is swapped in, the old one is seen. -/
theorem ensures_stageAndSwap (sourceBuildVersion : String) (sources : List UpdateSetSource)
    (old : Option StagedSet) (d : Disk Staging) (h : Sees old d) :
    Ensures A (Sees old) (fun _ => SwappedIn I sourceBuildVersion sources old)
      (fun _ => Sees old) (stageAndSwap I sourceBuildVersion sources) d := by
  refine ensures_step _ _ d (ensures_canonicalExisting I d) (fun _ hd => hd ▸ h)
    (fun _ _ hd => hd.1 ▸ h) ?_
  rintro _ d' ⟨rfl, _⟩
  refine ensures_step _ _ _ (ensures_recoverStageSwap old _ h) (fun _ h => h.1)
    (fun _ _ h => h.2.1) ?_
  rintro _ d₁ ⟨hpending₁, hprevious₁, _⟩
  have hsees₁ : Sees old d₁ := sees_of_pending old d₁ hpending₁ hprevious₁
  have hsame : Ensures A (fun d' => (d'.store.pending, d'.store.previous) = (old, none))
      (fun _ d' => (d'.store.pending, d'.store.previous) = (old, none))
      (fun _ d' => (d'.store.pending, d'.store.previous) = (old, none))
      (cleanupCommittedSets I) d₁ := by
    have hpreserves := preserves_cleanupCommittedSets I
      (fun d => (d.store.pending, d.store.previous)) (fun _ _ _ => rfl) d₁
    simp only [hpending₁, hprevious₁] at hpreserves
    exact ensures_strengthen A _ d₁ hpreserves (fun _ _ => trivial)
  have hsees : ∀ d' : Disk Staging, (d'.store.pending, d'.store.previous) = (old, none) →
      Sees old d' := by
    intro d' hd'
    simp only [Prod.mk.injEq] at hd'
    exact sees_of_pending old d' hd'.1 hd'.2
  refine ensures_step _ _ d₁ hsame hsees (fun _ d' hd' => hsees d' hd') ?_
  intro _ d₂ hd₂
  have hsees₂ : Sees old d₂ := hsees d₂ hd₂
  simp only [Prod.mk.injEq] at hd₂
  rcases hd₂ with ⟨hpending₂, hprevious₂⟩
  refine ensures_bind _ _ d₂ (ensures_peek _ d₂ hsees₂ ?_)
  refine ensures_bind _ _ d₂ (ensures_require _ _ d₂ (fun hjournal => ?_) (fun _ => hsees₂))
  rw [hpending₂, Option.isNone_iff_eq_none] at hjournal
  refine ensures_bind _ _ d₂ (ensures_require _ _ d₂ (fun _ => ?_) (fun _ => hsees₂))
  refine ensures_step _ _ d₂ (ensures_validateSources I sources [] d₂) (fun _ hd => hd ▸ hsees₂)
    (fun _ _ hd => hd ▸ hsees₂) ?_
  rintro _ d' ⟨rfl, hvalid⟩
  refine ensures_bind _ _ _ (ensures_require _ _ _ (fun hany => ?_) (fun _ => hsees₂))
  refine ensures_bind _ _ _ (ensures_require _ _ _ (fun hversion => ?_) (fun _ => hsees₂))
  have hrequested : Requested sourceBuildVersion sources := by
    rcases List.any_eq_true.mp hany with ⟨source, hsource, htarget⟩
    exact ⟨hvalid, ⟨source, hsource, by simpa using htarget⟩, hversion⟩
  refine ensures_bind _ _ _ (ensures_query _ _ hsees₂ ?_ (fun _ _ => hsees₂) (fun _ _ => hsees₂))
  intro digest hdigest
  have hhas : Has I.platform.digest d'.tree I.path digest := by
    unfold fileAt at hdigest
    rcases hpath : d'.tree I.path with _ | f | _ | _ <;>
      simp [hpath] at hdigest
    exact ⟨f, hpath, hdigest⟩
  refine ensures_step _ _ d' (ensures_makeTemporary old d' hsees₂) (fun _ h => h)
    (fun _ _ h => h) ?_
  rintro nonce d₃ ⟨hset, htree, hpending₃, hprevious₃⟩
  rw [hpending₂] at hpending₃
  rw [hprevious₂] at hprevious₃
  rw [← htree] at hhas
  have hsees₃ : Sees old d₃ := sees_of_pending old d₃ hpending₃ hprevious₃
  refine ensures_bind _ _ d₃ (ensures_attempt _ d₃ (ensures_mono _ d₃
    (ensures_fillTemporary I nonce sourceBuildVersion digest sources d₃ hset hhas) ?_ ?_ ?_))
  · exact fun d' hd' => sees_of_elsewhere old d₃ d' hd' hsees₃
  · rintro _ d₄ ⟨hd₄, new, hset₄, hnew⟩
    refine ensures_swapIn I nonce sourceBuildVersion sources old new d₄ hrequested hjournal ?_ ?_
      hset₄ hnew
    · rw [hd₄]
      exact hpending₃
    · rw [hd₄]
      exact hprevious₃
  · exact fun error d' hd' => ensures_abandon old nonce error d'
      (sees_of_elsewhere old d₃ d' hd' hsees₃)

end

/-! ## The whole call -/

/-- What a call of staging leaves. Where it is cut off the old set or the new
    one is presented. -/
def SwapAtomic (sourceBuildVersion : String) (sources : List UpdateSetSource)
    (old : Option StagedSet) : Outcome Choice (Disk Staging) UpdateError Unit → Prop
  | .crashed d => Presents old d ∨
      ∃ new, Accepted I sourceBuildVersion sources new d.tree ∧ Presents (some new) d
  | .returned (.ok _) d _ =>
      ∃ new, Accepted I sourceBuildVersion sources new d.tree ∧ Presents (some new) d
  | .returned (.error _) d _ => Presents old d

/-- The new set is in its place, and the old one, which is another, cannot be
    removed: one of the two operations after the look at it fails. -/
def StuckBehind (sourceBuildVersion : String) (sources : List UpdateSetSource)
    (old : Option StagedSet) (cs : List Choice) (d : Disk Staging) : Prop :=
  ∃ d' rest, run (stageAndSwap I sourceBuildVersion sources) cs d = .returned (.ok ()) d' rest ∧
    old ≠ none ∧ d'.store.pending ≠ old ∧ ∃ c ∈ (rest.drop 1).take 2, c.failure ≠ none

/-- A removal fails when one of its operations does. -/
theorem run_removePrevious_error (wrap : IoKind → UpdateError) (cs : List Choice)
    (d : Disk Staging) :
    (∃ e d' rest, run (removePrevious wrap) cs d = .returned (.error e) d' rest) ↔
      ∃ c ∈ cs.take 2, c.failure ≠ none := by
  rcases cs with _ | ⟨c₁, _ | ⟨c₂, rest⟩⟩
  · simp [removePrevious, removeSome, op, run_bind, run]
  · cases c₁ <;>
      simp [removePrevious, removeSome, restage, change, op, run_bind, run, Choice.failure]
  · cases c₁ <;> cases c₂ <;>
      simp [removePrevious, removeSome, restage, change, op, run_bind, run, Choice.failure,
        Except.map]

/-- With the new set in its place it is what is presented from then on. -/
theorem run_removeSuperseded (old : Option StagedSet) (new : StagedSet) (rest : List Choice)
    (d : Disk Staging) (hpending : d.store.pending = some new)
    (hmanifest : new.manifest.isSome = true) (hprevious : d.store.previous = old) :
    (Sees (some new) (run removeSuperseded rest d).state ∧
      (run removeSuperseded rest d).state.tree = d.tree) ∧
      ((∃ e d' unused, run removeSuperseded rest d = .returned (.error e) d' unused) ↔
        old ≠ none ∧ ∃ c ∈ (rest.drop 1).take 2, c.failure ≠ none) := by
  have hsees := sees_of_whole new d hpending hmanifest
  cases rest with
  | nil => exact ⟨⟨hsees, rfl⟩, by simp [removeSuperseded, peek, op, run_bind, run]⟩
  | cons c rest =>
      have hrun : run removeSuperseded (c :: rest) d =
          run (whenever d.store.previous.isSome (removePrevious IoError)) rest d := rfl
      rw [hrun, hprevious]
      cases old with
      | none =>
          have hpure : run (whenever (none : Option StagedSet).isSome (removePrevious IoError)) rest
              d = .returned (.ok ()) d rest := rfl
          rw [hpure]
          exact ⟨⟨hsees, rfl⟩, by simp⟩
      | some set =>
          have hremove : run (whenever (some set).isSome (removePrevious IoError)) rest d =
              run (removePrevious IoError) rest d := rfl
          rw [hremove]
          have hmeets := run_of_ensures (fun _ => True) _ _ _ _ d
            (ensures_removePrevious IoError new d hpending hmanifest) rest (fun _ _ => trivial)
          have htree : ∀ d', Moved d d' → d'.tree = d.tree := by
            intro d' hd'
            rw [hd']
            rfl
          constructor
          · cases hout : run (removePrevious IoError) rest d with
            | crashed d' =>
                rw [hout] at hmeets
                exact ⟨hmeets.1, htree d' hmeets.2.2⟩
            | returned r d' unused =>
                rw [hout] at hmeets
                cases r with
                | ok _ => exact ⟨sees_of_pending _ d' hmeets.1 hmeets.2.1, htree d' hmeets.2.2⟩
                | error e => exact ⟨hmeets.2.1, htree d' hmeets.2.2.2⟩
          · rw [run_removePrevious_error, List.drop_one, List.tail_cons]
            exact ⟨fun h => ⟨Option.some_ne_none set, h⟩, fun h => h.2⟩

/-- Staging leaves the old set or the new one, and with an error the old one,
    exactly unless it cannot remove what the new set has replaced. -/
theorem stageUpdateSet_atomic_iff (sourceBuildVersion : String)
    (sources : List UpdateSetSource) (old : Option StagedSet) (cs : List Choice)
    (d : Disk Staging) (h : Presents old d) :
    SwapAtomic I sourceBuildVersion sources old
        (run (stageUpdateSet I sourceBuildVersion sources) cs d) ↔
      ¬StuckBehind I sourceBuildVersion sources old cs d := by
  have hsees := sees_of_presents old d h
  have hmeets := run_of_ensures (fun _ => True) _ _ _ _ d
    (ensures_stageAndSwap I sourceBuildVersion sources old d hsees) cs (fun _ _ => trivial)
  have hbind : run (stageUpdateSet I sourceBuildVersion sources) cs d = _ := run_bind _ _ cs d
  rw [hbind]
  rcases hrun : run (stageAndSwap I sourceBuildVersion sources) cs d with d₁ | ⟨_ | _, d₁, rest⟩
  · -- It was cut off before there was anything new to be seen.
    rw [hrun] at hmeets
    refine ⟨fun _ => ?_, fun _ => Or.inl (presents_of_sees old d₁ hmeets)⟩
    rintro ⟨_, _, heq, _⟩
    rw [hrun] at heq
    cases heq
  · rw [hrun] at hmeets
    refine ⟨fun _ => ?_, fun _ => presents_of_sees old d₁ hmeets⟩
    rintro ⟨_, _, heq, _⟩
    rw [hrun] at heq
    cases heq
  · rw [hrun] at hmeets
    rcases hmeets.pending with ⟨new, hpending, hnew⟩
    have hmanifest := Accepted.whole I sourceBuildVersion sources new d₁.tree hnew
    rcases run_removeSuperseded old new rest d₁ hpending hmanifest hmeets.previous with
      ⟨⟨hsees', htree⟩, herror⟩
    rw [← htree] at hnew
    have hpresents := presents_of_sees (some new) _ hsees'
    -- The condition is about this run, and says that the removal fails.
    have hstuck : StuckBehind I sourceBuildVersion sources old cs d ↔ some new ≠ old ∧
        ∃ e d' unused, run removeSuperseded rest d₁ = .returned (.error e) d' unused := by
      unfold StuckBehind
      rw [hrun, herror, ← hpending]
      constructor
      · rintro ⟨d', unused, heq, hold, hne, hfails⟩
        cases heq
        exact ⟨hne, hold, hfails⟩
      · rintro ⟨hne, hold, hfails⟩
        exact ⟨d₁, rest, rfl, hold, hne, hfails⟩
    rw [hstuck]
    dsimp only
    rcases hout : run removeSuperseded rest d₁ with d₂ | ⟨e | _, d₂, unused⟩
    · rw [hout] at hnew hpresents
      refine ⟨fun _ => ?_, fun _ => Or.inr ⟨new, hnew, hpresents⟩⟩
      rintro ⟨_, _, _, _, heq⟩
      cases heq
    · rw [hout] at hpresents
      constructor
      · rintro hold ⟨hne, _⟩
        exact hne (presents_unique _ _ _ hpresents hold)
      · intro hnot
        have hsame : some new = old := by
          by_contra hne
          exact hnot ⟨hne, e, d₂, unused, rfl⟩
        rw [← hsame]
        exact hpresents
    · rw [hout] at hnew hpresents
      refine ⟨fun _ => ?_, fun _ => ⟨new, hnew, hpresents⟩⟩
      rintro ⟨_, _, _, _, heq⟩
      cases heq

/-- What a call of staging that succeeds leaves, whatever it has found. -/
structure Standing (sourceBuildVersion : String) (sources : List UpdateSetSource)
    (new : StagedSet) (d : Disk Staging) : Prop where
  requested : Requested sourceBuildVersion sources
  pending : d.store.pending = some new
  previous : d.store.previous = none
  accepted : Accepted I sourceBuildVersion sources new d.tree

theorem ensures_stageUpdateSet {A : Choice → Prop} (sourceBuildVersion : String)
    (sources : List UpdateSetSource) (d : Disk Staging) :
    Ensures A (fun _ => True) (fun _ d' => ∃ new, Standing I sourceBuildVersion sources new d')
      (fun _ _ => True) (stageUpdateSet I sourceBuildVersion sources) d := by
  rcases sees_or_incomplete d with ⟨old, hold⟩ | ⟨old, set, hprevious, hpending, hmanifest⟩
  · refine ensures_step _ _ d (ensures_stageAndSwap I sourceBuildVersion sources old d hold)
      (fun _ _ => trivial) (fun _ _ _ => trivial) ?_
    rintro _ d₁ ⟨hrequested, ⟨new, hpending, hnew⟩, hprevious, _⟩
    have hmanifest := Accepted.whole I sourceBuildVersion sources new d₁.tree hnew
    refine ensures_bind _ _ d₁ (ensures_peek _ d₁ trivial ?_)
    rw [hprevious]
    cases old with
    | none => exact ensures_pure () d₁ ⟨new, hrequested, hpending, hprevious, hnew⟩
    | some set =>
        refine ensures_mono _ d₁ (ensures_removePrevious IoError new d₁ hpending hmanifest)
          (fun _ _ => trivial) ?_ (fun _ _ _ => trivial)
        rintro _ d₂ ⟨hpending₂, hprevious₂, hmoved⟩
        refine ⟨new, hrequested, hpending₂, hprevious₂, ?_⟩
        rw [hmoved]
        exact hnew
  · refine ensures_bind _ _ d ?_
    refine ensures_step _ _ d (ensures_canonicalExisting I d) (fun _ _ => trivial)
      (fun _ _ _ => trivial) ?_
    rintro _ d' ⟨rfl, _⟩
    exact ensures_step _ _ _ (ensures_recoverStageSwap_incomplete old set _ hprevious hpending
      hmanifest) (fun _ _ => trivial) (fun _ _ _ => trivial) (fun _ _ h => absurd h id)

/-- A call of staging that has succeeded. -/
theorem standing_of_stage (sourceBuildVersion : String) (sources : List UpdateSetSource)
    (cs unused : List Choice) (d d' : Disk Staging)
    (h : run (stageUpdateSet I sourceBuildVersion sources) cs d = .returned (.ok ()) d' unused) :
    ∃ new, Standing I sourceBuildVersion sources new d' := by
  have hmeets := run_of_ensures (fun _ => True) _ _ _ _ d
    (ensures_stageUpdateSet I sourceBuildVersion sources d) cs (fun _ _ => trivial)
  rw [h] at hmeets
  exact hmeets

/-! ## A set that cannot be removed -/

/-- A platform on which a digest is the first byte, over and over. -/
def plainPlatform : Platform where
  windows := false
  sha256 := fun bytes => Vector.replicate 32 (bytes.headD 0)

def plainInstallation : Installation := ⟨plainPlatform, "server"⟩

def plainFile (b : UInt8) : File := ⟨[b], 493⟩

/-- An update of the executable to the file of a byte. -/
def plainSource (b : UInt8) : UpdateSetSource where
  downloaded := some (plainFile b)
  target := .currentExecutable
  expectedSha256 := digestText (plainPlatform.digest (plainFile b))

/-- A set that was staged by build 1. -/
def plainSet (b : UInt8) : StagedSet where
  manifest := some ⟨2, ["server"], "1", plainPlatform.digest (plainFile 1),
    [⟨componentFile 0, .currentExecutable, plainPlatform.digest (plainFile b)⟩]⟩
  journal := none
  files := fun name => if name = componentFile 0 then some (plainFile b) else none

def plainStaging (pending : Option StagedSet) : Staging where
  pending := pending
  previous := none
  temporary := fun _ => none
  committed := []
  rejected := []
  generation := none

/-- An installation with an executable and nothing else. -/
def plainDisk (pending : Option StagedSet) : Disk Staging where
  tree := fun p => if p = ["server"] then some (.file (plainFile 1)) else none
  store := plainStaging pending
  process := 7
  nanos := 100

theorem presents_plainDisk (pending : Option StagedSet) : Presents pending (plainDisk pending) :=
  presents_of_sees pending _ (sees_of_pending pending _ rfl rfl)

/-- The seventeenth operation is the first half of the removal. It fails, and
    an error is reported although the new set is the one that is seen. -/
theorem stageUpdateSet_error_with_new_set :
    ¬SwapAtomic plainInstallation "2" [plainSource 3] (some (plainSet 2))
      (run (stageUpdateSet plainInstallation "2" [plainSource 3])
        (List.replicate 16 .proceeds ++ [.fails]) (plainDisk (some (plainSet 2)))) := by
  have hresult : (run (stageUpdateSet plainInstallation "2" [plainSource 3])
      (List.replicate 16 .proceeds ++ [.fails])
      (plainDisk (some (plainSet 2)))).result.map Except.isOk = some false := by
    decide +kernel
  have hversion : ((run (stageUpdateSet plainInstallation "2" [plainSource 3])
      (List.replicate 16 .proceeds ++ [.fails])
      (plainDisk (some (plainSet 2)))).state.store.pending.bind StagedSet.manifest).map
        UpdateSetManifest.sourceBuildVersion = some "2" := by
    decide +kernel
  intro h
  rcases hout : run (stageUpdateSet plainInstallation "2" [plainSource 3])
      (List.replicate 16 .proceeds ++ [.fails])
      (plainDisk (some (plainSet 2))) with d | ⟨e | _, d, unused⟩
  · rw [hout] at hresult
    cases hresult
  · rw [hout] at h hversion
    -- What is seen is pending, and its manifest is that of the new set.
    have hvisible := (sees_of_presents _ d h).visible
    simp only [Outcome.state] at hversion
    cases hpending : d.store.pending with
    | none =>
        rw [hpending] at hversion
        cases hversion
    | some set =>
        rw [hpending, Option.some_or, Option.some.injEq] at hvisible
        rw [hpending, hvisible] at hversion
        exact absurd hversion (by decide)
  · rw [hout] at hresult
    cases hresult

theorem stageUpdateSet_atomic_iff_plain :
    SwapAtomic plainInstallation "2" [plainSource 3] (some (plainSet 2))
        (run (stageUpdateSet plainInstallation "2" [plainSource 3])
          (List.replicate 16 .proceeds) (plainDisk (some (plainSet 2)))) ↔
      ¬StuckBehind plainInstallation "2" [plainSource 3] (some (plainSet 2))
        (List.replicate 16 .proceeds) (plainDisk (some (plainSet 2))) :=
  stageUpdateSet_atomic_iff plainInstallation "2" [plainSource 3] (some (plainSet 2))
    (List.replicate 16 .proceeds) (plainDisk (some (plainSet 2)))
    (presents_plainDisk (some (plainSet 2)))

end Updater

end DccMcp
