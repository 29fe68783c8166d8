import DccMcp.Artefact.Store
import Mathlib.Data.List.Flatten

/-!
# The Artefact Store in Memory

The second backend of the artefact store keeps no files. It has a map from
URIs to entries, and an entry holds the references of some bytes in the order
they were made, together with the bytes. Nothing of the first backend's names
is there: a reference is found by comparing fields, or by its place.

Both backends drop references when there are too many, oldest first, and
count the bytes of a URI once however many references it has. The loop that
decides how many to drop looks at the references alone, so it is written once
here, with what dropping means as a parameter.

The map is a list of entries. The order in which a map is walked is not
something its users may rely on.

## Main definitions

* `Limits`, `Limits.exceeded`, `Limits.evict`: The bounds, and the loop.
* `Entry`, `Memory`: The map.
* `Memory.put`, `Memory.get`, `Memory.head`, `Memory.delete`, `Memory.list`:
  The operations.
* `Memory.Formed`: An entry has references, which are its own, and no two
  references were made at one instant.

## Theorems

* `Memory.mem_refs_cleanupExpired`, `Memory.mem_refs_remove`,
  `Memory.mem_refs_push`: What the changes of the map do to the references.
* `Memory.Formed.thin`, `Memory.Formed.push`: They keep it formed.
-/

namespace DccMcp

namespace Artefact

open Json (Value)

/-! ## Limits -/

/-- `ArtefactStoreLimits`, without the default time to live, which a store has. -/
structure Limits where
  maxBodyBytes : Option Nat
  maxEntries : Option Nat
  maxTotalBytes : Option Nat
  deriving DecidableEq

inductive PutError
  | failure (f : Failure)
  | limitExceeded (text : String)
  deriving DecidableEq

/-- Whether there is a limit and a number is above it. -/
def exceeds (limit : Option Nat) (n : Nat) : Bool := limit.any fun most => decide (most < n)

def limitText (size most : Nat) : String := s!"{size} bytes exceeds max_body_bytes={most}"

/-- The bytes of the references whose URI is not among those seen. -/
def bytesUnseen (seen : List Name) : List FileRef → Nat
  | [] => 0
  | fr :: rest =>
    if fr.uri ∈ seen then bytesUnseen seen rest
    else fr.sizeBytes.getD 0 + bytesUnseen (fr.uri :: seen) rest

def totalUniqueBodyBytes (refs : List FileRef) : Nat := bytesUnseen [] refs

/-- The condition of the retention loop. -/
def Limits.exceeded (limits : Limits) (refs : List FileRef) : Bool :=
  exceeds limits.maxEntries refs.length || exceeds limits.maxTotalBytes (totalUniqueBodyBytes refs)

/-- The retention loop: references go from the front while there are too many. -/
def Limits.evict {σ : Type} (limits : Limits) (remove : FileRef → σ → σ) : List FileRef → σ → σ
  | [], s => s
  | fr :: rest, s =>
    if limits.exceeded (fr :: rest) then limits.evict remove rest (remove fr s) else s

/-- The references, oldest first. -/
def byCreation (refs : List FileRef) : List FileRef :=
  refs.insertionSort fun a b => a.createdAt ≤ b.createdAt

/-- What each removal keeps, as long as the reference is of a kind, the loop keeps, in two
    stores at once. -/
theorem evict_invariant {σ τ : Type} (limits : Limits) (remove : FileRef → σ → σ)
    (remove' : FileRef → τ → τ) (ok : FileRef → Prop) (R : σ → τ → Prop)
    (hstep : ∀ fr s t, ok fr → R s t → R (remove fr s) (remove' fr t)) (refs : List FileRef) (s : σ)
    (t : τ) (hrefs : ∀ fr ∈ refs, ok fr) (h : R s t) :
    R (limits.evict remove refs s) (limits.evict remove' refs t) := by
  induction refs generalizing s t with
  | nil => exact h
  | cons fr rest ih =>
      rw [Limits.evict, Limits.evict]
      split
      next =>
        exact ih _ _ (fun fr' hfr' => hrefs fr' (List.mem_cons_of_mem fr hfr'))
          (hstep fr s t (hrefs fr List.mem_cons_self) h)
      next => exact h

/-- No two references were made at one instant. -/
def Distinct (refs : List FileRef) : Prop :=
  refs.Pairwise fun a b => a.createdAt ≠ b.createdAt

theorem Distinct.eq_of_createdAt {refs : List FileRef} (h : Distinct refs) (a b : FileRef)
    (ha : a ∈ refs) (hb : b ∈ refs) (heq : a.createdAt = b.createdAt) : a = b :=
  List.inj_on_of_nodup_map (List.pairwise_map.mpr h) ha hb heq

theorem Distinct.nodup {refs : List FileRef} (h : Distinct refs) : refs.Nodup :=
  List.Pairwise.imp (fun hne heq => hne (congrArg FileRef.createdAt heq)) h

theorem mem_byCreation (fr : FileRef) (refs : List FileRef) : fr ∈ byCreation refs ↔ fr ∈ refs :=
  List.mem_insertionSort _

theorem pairwise_byCreation (refs : List FileRef) :
    (byCreation refs).Pairwise fun a b => a.createdAt ≤ b.createdAt := by
  have htotal : Std.Total fun a b : FileRef => a.createdAt ≤ b.createdAt :=
    ⟨fun _ _ => Int.le_total _ _⟩
  have htrans : IsTrans FileRef fun a b => a.createdAt ≤ b.createdAt :=
    ⟨fun _ _ _ => Int.le_trans⟩
  exact List.pairwise_insertionSort _ refs

/-- The same references in any order are the same list once they are sorted. -/
theorem byCreation_congr (refs refs' : List FileRef) (hperm : refs.Perm refs')
    (hdistinct : Distinct refs') : byCreation refs = byCreation refs' := by
  have hall : (byCreation refs).Perm (byCreation refs') :=
    (List.perm_insertionSort _ _).trans (hperm.trans (List.perm_insertionSort _ _).symm)
  refine List.Perm.eq_of_pairwise ?_ (pairwise_byCreation refs) (pairwise_byCreation refs') hall
  intro a b ha hb hab hba
  have ha' := (mem_byCreation a refs').mp (hall.mem_iff.mp ha)
  have hb' := (mem_byCreation b refs').mp hb
  exact hdistinct.eq_of_createdAt a b ha' hb' (Int.le_antisymm hab hba)

/-! ## The map -/

/-- An entry of the map: the references and the bytes of a URI. -/
structure Entry where
  uri : Name
  refs : List FileRef
  bytes : List UInt8
  deriving DecidableEq

abbrev Memory := List Entry

/-- An entry with other references, unless there are none. -/
def Entry.withRefs (e : Entry) (refs : List FileRef) : Option Entry :=
  if refs.isEmpty then none else some { e with refs }

/-- A reference without any of the optional fields. -/
def FileRef.isPlain (fr : FileRef) : Bool :=
  fr.mime.isNone && fr.displayName.isNone && fr.producerJobId.isNone && fr.toolCallId.isNone &&
    fr.sessionId.isNone && fr.correlationId.isNone && fr.expiresAt.isNone && fr.metadata == .null

namespace Memory

def refs (m : Memory) : List FileRef := m.flatMap (·.refs)

def entry (uri : Name) (m : Memory) : Option Entry := List.find? (fun e => e.uri == uri) m

/-- `cleanup_expired_locked`. -/
def cleanupExpired (now : Int) (m : Memory) : Memory :=
  m.filterMap fun e => e.withRefs (e.refs.filter fun fr => !fr.isExpiredAt now)

/-- The removal of a reference, and of an entry that has none left. -/
def remove (fr : FileRef) (m : Memory) : Memory :=
  m.filterMap fun e => if e.uri = fr.uri then e.withRefs (e.refs.erase fr) else some e

/-- `enforce_retention_locked`. -/
def enforceRetention (limits : Limits) (now : Int) (m : Memory) : Memory :=
  let m := cleanupExpired now m
  limits.evict remove (byCreation (refs m)) m

/-- A reference more: at the end of its entry, or in a new one. -/
def push (fr : FileRef) (bytes : List UInt8) (m : Memory) : Memory :=
  match entry fr.uri m with
  | some _ => m.map fun e => if e.uri = fr.uri then { e with refs := e.refs ++ [fr] } else e
  | none => m ++ [⟨fr.uri, [fr], bytes⟩]

/-- The reference a put without options finds. -/
def existing (uri : Name) (o : PutOptions) (m : Memory) : Option FileRef :=
  (entry uri m).bind fun e =>
    if o.hasLogicalMetadata then none else e.refs.find? FileRef.isPlain <|> e.refs.head?

variable (store : Store) (limits : Limits)

def put (body : Option (List UInt8)) (o : PutOptions) (now : Int) (m : Memory) :
    Except PutError FileRef × Memory :=
  match body with
  | none => (.error (.failure .io), m)
  | some bytes =>
    if exceeds limits.maxBodyBytes bytes.length then
      (.error (.limitExceeded (limitText bytes.length (limits.maxBodyBytes.getD 0))), m)
    else
      let hex := store.hash bytes
      let m := cleanupExpired now m
      match existing (makeUriSha256 hex) o m with
      | some fr => (.ok fr, m)
      | none =>
        match store.makeFileRef (makeUriSha256 hex) hex bytes.length o now with
        | .error failure => (.error (.failure failure), m)
        | .ok fr => (.ok fr, enforceRetention limits now (push fr bytes m))

def get (uri : Name) (now : Int) (m : Memory) : Option (List UInt8) × Memory :=
  let m := cleanupExpired now m
  ((entry uri m).map (·.bytes), m)

def head (uri : Name) (now : Int) (m : Memory) : Option FileRef × Memory :=
  let m := cleanupExpired now m
  ((entry uri m).bind (·.refs.head?), m)

def delete (uri : Name) (m : Memory) : Memory := m.filter fun e => e.uri != uri

def list (f : Filter) (now : Int) (m : Memory) : List FileRef × Memory :=
  let m := cleanupExpired now m
  ((refs m).filter fun fr => applyFilter fr f, m)

/-! ## What the changes do -/

/-- An entry is its own URI's, has references, and holds only references of that URI. -/
structure Formed (m : Memory) : Prop where
  uris : m.Pairwise fun e e' => e.uri ≠ e'.uri
  own : ∀ e ∈ m, ∀ fr ∈ e.refs, fr.uri = e.uri
  some : ∀ e ∈ m, e.refs ≠ []
  distinct : Distinct (refs m)

theorem mem_refs (fr : FileRef) (m : Memory) : fr ∈ refs m ↔ ∃ e ∈ m, fr ∈ e.refs :=
  List.mem_flatMap

theorem withRefs_eq_some (e e' : Entry) (refs : List FileRef) :
    e.withRefs refs = some e' ↔ refs ≠ [] ∧ e' = { e with refs } := by
  unfold Entry.withRefs
  cases refs with
  | nil => simp
  | cons fr rest => simp [eq_comm]

/-- Entries with fewer references. -/
def thin (keep : Entry → List FileRef) (m : Memory) : Memory :=
  m.filterMap fun e => e.withRefs (keep e)

theorem mem_thin (keep : Entry → List FileRef) (m : Memory) (e' : Entry) :
    e' ∈ thin keep m ↔ ∃ e ∈ m, keep e ≠ [] ∧ e' = { e with refs := keep e } := by
  unfold thin
  rw [List.mem_filterMap]
  simp only [withRefs_eq_some]

theorem refs_thin (keep : Entry → List FileRef) (m : Memory) :
    refs (thin keep m) = m.flatMap keep := by
  unfold refs thin
  induction m with
  | nil => rfl
  | cons e rest ih =>
      rw [List.flatMap_cons, ← ih]
      cases hkeep : keep e with
      | nil => simp [Entry.withRefs, hkeep]
      | cons fr more => simp [Entry.withRefs, hkeep]

theorem Formed.thin {m : Memory} (h : Formed m) (keep : Entry → List FileRef)
    (hkeep : ∀ e ∈ m, (keep e).Sublist e.refs) : Formed (thin keep m) where
  uris := by
    refine List.pairwise_filterMap.mpr (h.uris.imp ?_)
    intro e e' hne x hx x' hx'
    obtain ⟨-, rfl⟩ := (withRefs_eq_some e x _).mp hx
    obtain ⟨-, rfl⟩ := (withRefs_eq_some e' x' _).mp hx'
    exact hne
  own := by
    intro e' he' fr hfr
    obtain ⟨e, he, -, rfl⟩ := (mem_thin keep m e').mp he'
    exact h.own e he fr ((hkeep e he).subset hfr)
  some := by
    intro e' he'
    obtain ⟨e, -, hne, rfl⟩ := (mem_thin keep m e').mp he'
    exact hne
  distinct := by
    rw [refs_thin]
    refine List.Pairwise.sublist ?_ h.distinct
    have hdistinct := h.distinct
    clear h hdistinct
    induction m with
    | nil => exact List.Sublist.refl _
    | cons e rest ih =>
        exact (hkeep e List.mem_cons_self).append
          (ih fun e' he' => hkeep e' (List.mem_cons_of_mem e he'))

theorem cleanupExpired_eq (now : Int) (m : Memory) :
    cleanupExpired now m = thin (fun e => e.refs.filter fun fr => !fr.isExpiredAt now) m := rfl

/-- What a removal leaves of an entry. -/
def without (fr : FileRef) (e : Entry) : List FileRef :=
  if e.uri = fr.uri then e.refs.erase fr else e.refs

theorem Formed.remove_eq {m : Memory} (h : Formed m) (fr : FileRef) :
    remove fr m = Memory.thin (without fr) m := by
  refine List.filterMap_congr (fun e he => ?_)
  unfold without
  split
  next => rfl
  next => exact ((withRefs_eq_some e e e.refs).mpr ⟨h.some e he, rfl⟩).symm

theorem Formed.cleanupExpired {m : Memory} (h : Formed m) (now : Int) :
    Formed (cleanupExpired now m) :=
  h.thin _ fun _ _ => List.filter_sublist

theorem Formed.remove {m : Memory} (h : Formed m) (fr : FileRef) : Formed (remove fr m) := by
  rw [h.remove_eq fr]
  refine h.thin _ (fun e _ => ?_)
  unfold without
  split
  next => exact List.erase_sublist
  next => exact List.Sublist.refl _

theorem mem_refs_cleanupExpired (now : Int) (m : Memory) (fr : FileRef) :
    fr ∈ refs (cleanupExpired now m) ↔ fr ∈ refs m ∧ fr.isExpiredAt now = false := by
  rw [cleanupExpired_eq, refs_thin, List.mem_flatMap, mem_refs]
  simp only [List.mem_filter, Bool.not_eq_true']
  constructor
  · rintro ⟨e, he, hfr, hlive⟩
    exact ⟨⟨e, he, hfr⟩, hlive⟩
  · rintro ⟨⟨e, he, hfr⟩, hlive⟩
    exact ⟨e, he, hfr, hlive⟩

theorem Formed.nodup {m : Memory} (h : Formed m) (e : Entry) (he : e ∈ m) : e.refs.Nodup := by
  have hsub : e.refs.Sublist (refs m) := by
    unfold refs
    rw [List.flatMap_def]
    exact List.sublist_flatten_of_mem (List.mem_map_of_mem he)
  exact hsub.nodup h.distinct.nodup

theorem Formed.mem_refs_remove {m : Memory} (h : Formed m) (fr fr' : FileRef) :
    fr' ∈ refs (Memory.remove fr m) ↔ fr' ∈ refs m ∧ fr' ≠ fr := by
  rw [h.remove_eq fr, refs_thin, List.mem_flatMap, mem_refs]
  constructor
  · rintro ⟨e, he, hfr'⟩
    unfold without at hfr'
    split at hfr'
    next =>
      obtain ⟨hne, hmem⟩ := ((h.nodup e he).mem_erase_iff).mp hfr'
      exact ⟨⟨e, he, hmem⟩, hne⟩
    next hother =>
      refine ⟨⟨e, he, hfr'⟩, ?_⟩
      rintro rfl
      exact hother (h.own e he fr' hfr').symm
  · rintro ⟨⟨e, he, hmem⟩, hne⟩
    refine ⟨e, he, ?_⟩
    unfold without
    split
    next => exact ((h.nodup e he).mem_erase_iff).mpr ⟨hne, hmem⟩
    next => exact hmem

variable (m : Memory)

theorem entry_eq_some (h : Formed m) (uri : Name) (e : Entry) :
    entry uri m = some e ↔ e ∈ m ∧ e.uri = uri := by
  unfold entry
  constructor
  · intro hfind
    exact ⟨List.mem_of_find?_eq_some hfind,
      beq_iff_eq.mp (List.find?_some (p := fun e' : Entry => e'.uri == uri) hfind)⟩
  · rintro ⟨he, rfl⟩
    cases hfind : List.find? (fun e' => e'.uri == e.uri) m with
    | none => exact absurd (beq_self_eq_true e.uri) (List.find?_eq_none.mp hfind e he)
    | some e' =>
        have he' := List.mem_of_find?_eq_some hfind
        have huri : e'.uri = e.uri :=
          beq_iff_eq.mp (List.find?_some (p := fun x : Entry => x.uri == e.uri) hfind)
        rw [List.inj_on_of_nodup_map (List.pairwise_map.mpr h.uris) he' he huri]

theorem entry_eq_none (uri : Name) : entry uri m = none ↔ ∀ e ∈ m, e.uri ≠ uri := by
  unfold entry
  rw [List.find?_eq_none]
  simp

/-- What a new reference does to the entries. -/
theorem mem_push (fr : FileRef) (bytes : List UInt8) (e' : Entry) :
    e' ∈ push fr bytes m ↔ (e' ∈ m ∧ e'.uri ≠ fr.uri) ∨
      (∃ e ∈ m, e.uri = fr.uri ∧ e' = { e with refs := e.refs ++ [fr] }) ∨
      ((∀ e ∈ m, e.uri ≠ fr.uri) ∧ e' = ⟨fr.uri, [fr], bytes⟩) := by
  unfold push
  split
  next e hentry =>
    have he := List.mem_of_find?_eq_some hentry
    have huri : e.uri = fr.uri :=
      beq_iff_eq.mp (List.find?_some (p := fun x : Entry => x.uri == fr.uri) hentry)
    rw [List.mem_map]
    constructor
    · rintro ⟨x, hx, rfl⟩
      split
      next hsame => exact .inr (.inl ⟨x, hx, hsame, rfl⟩)
      next hother => exact .inl ⟨hx, hother⟩
    · rintro (⟨hx, hother⟩ | ⟨x, hx, hsame, rfl⟩ | ⟨hnone, -⟩)
      · exact ⟨e', hx, if_neg hother⟩
      · exact ⟨x, hx, if_pos hsame⟩
      · exact absurd huri (hnone e he)
  next hentry =>
    have hnone := (entry_eq_none m fr.uri).mp hentry
    rw [List.mem_append, List.mem_singleton]
    constructor
    · rintro (hx | rfl)
      · exact .inl ⟨hx, hnone e' hx⟩
      · exact .inr (.inr ⟨hnone, rfl⟩)
    · rintro (⟨hx, -⟩ | ⟨x, hx, hsame, -⟩ | ⟨-, rfl⟩)
      · exact .inl hx
      · exact absurd hsame (hnone x hx)
      · exact .inr rfl

theorem mem_refs_push (fr fr' : FileRef) (bytes : List UInt8) :
    fr' ∈ refs (push fr bytes m) ↔ fr' ∈ refs m ∨ fr' = fr := by
  rw [mem_refs, mem_refs]
  constructor
  · rintro ⟨e', he', hfr'⟩
    rcases (mem_push m fr bytes e').mp he' with ⟨hx, -⟩ | ⟨x, hx, -, rfl⟩ | ⟨-, rfl⟩
    · exact .inl ⟨e', hx, hfr'⟩
    · rcases List.mem_append.mp hfr' with hold | hnew
      · exact .inl ⟨x, hx, hold⟩
      · exact .inr (List.mem_singleton.mp hnew)
    · exact .inr (List.mem_singleton.mp hfr')
  · rintro (⟨e, he, hfr'⟩ | rfl)
    · by_cases hsame : e.uri = fr.uri
      · exact ⟨_, (mem_push m fr bytes _).mpr (.inr (.inl ⟨e, he, hsame, rfl⟩)),
          List.mem_append_left _ hfr'⟩
      · exact ⟨e, (mem_push m fr bytes e).mpr (.inl ⟨he, hsame⟩), hfr'⟩
    · by_cases hthere : ∃ e ∈ m, e.uri = fr'.uri
      · obtain ⟨e, he, hsame⟩ := hthere
        exact ⟨_, (mem_push m fr' bytes _).mpr (.inr (.inl ⟨e, he, hsame, rfl⟩)),
          List.mem_append_right _ List.mem_cons_self⟩
      · exact ⟨_, (mem_push m fr' bytes _).mpr
          (.inr (.inr ⟨fun e he hsame => hthere ⟨e, he, hsame⟩, rfl⟩)), List.mem_cons_self⟩

/-- The references after one more are the old ones and the new one. -/
theorem refs_push_perm (m : Memory) (h : Formed m) (fr : FileRef) (bytes : List UInt8) :
    (refs (push fr bytes m)).Perm (fr :: refs m) := by
  unfold push
  split
  next e hentry =>
    obtain ⟨he, huri⟩ := (entry_eq_some m h fr.uri e).mp hentry
    obtain ⟨front, back, rfl⟩ := List.append_of_mem he
    have huris := List.pairwise_append.mp h.uris
    have hback := (List.pairwise_cons.mp huris.2.1).1
    have hfront : ∀ x ∈ front, x.uri ≠ fr.uri := fun x hx heq =>
      huris.2.2 x hx e List.mem_cons_self (heq.trans huri.symm)
    have hkeep : ∀ l : List Entry, (∀ x ∈ l, x.uri ≠ fr.uri) →
        l.map (fun x => if x.uri = fr.uri then { x with refs := x.refs ++ [fr] } else x) = l :=
      fun l hl => (List.map_congr_left fun x hx => if_neg (hl x hx)).trans (List.map_id l)
    unfold refs
    rw [List.map_append, List.map_cons, hkeep front hfront,
      hkeep back (fun x hx heq => hback x hx (huri.trans heq.symm)), if_pos huri]
    simp only [List.flatMap_append, List.flatMap_cons, List.append_assoc]
    have hmiddle : (front.flatMap (·.refs) ++ e.refs ++ fr :: back.flatMap (·.refs)).Perm
        (fr :: (front.flatMap (·.refs) ++ e.refs ++ back.flatMap (·.refs))) := List.perm_middle
    simpa only [List.append_assoc, List.cons_append, List.nil_append] using hmiddle
  next =>
    unfold refs
    rw [List.flatMap_append]
    exact List.perm_append_comm

theorem Formed.push {m : Memory} (h : Formed m) (fr : FileRef) (bytes : List UInt8)
    (hfresh : ∀ fr' ∈ refs m, fr.createdAt ≠ fr'.createdAt) : Formed (push fr bytes m) where
  uris := by
    unfold Memory.push
    split
    next =>
      refine List.pairwise_map.mpr (h.uris.imp ?_)
      intro e e' hne
      split <;> split <;> exact hne
    next hentry =>
      refine List.pairwise_append.mpr ⟨h.uris, List.pairwise_singleton _ _, ?_⟩
      intro e he e' he'
      rw [List.mem_singleton.mp he']
      exact (entry_eq_none m fr.uri).mp hentry e he
  own := by
    intro e' he' fr' hfr'
    rcases (mem_push m fr bytes e').mp he' with ⟨hx, -⟩ | ⟨x, hx, hsame, rfl⟩ | ⟨-, rfl⟩
    · exact h.own e' hx fr' hfr'
    · rcases List.mem_append.mp hfr' with hold | hnew
      · exact h.own x hx fr' hold
      · rw [List.mem_singleton.mp hnew]
        exact hsame.symm
    · rw [List.mem_singleton.mp hfr']
  some := by
    intro e' he'
    rcases (mem_push m fr bytes e').mp he' with ⟨hx, -⟩ | ⟨x, hx, -, rfl⟩ | ⟨-, rfl⟩
    · exact h.some e' hx
    · exact List.append_ne_nil_of_right_ne_nil _ (List.cons_ne_nil _ _)
    · exact List.cons_ne_nil _ _
  distinct := by
    have hcons : Distinct (fr :: refs m) := List.pairwise_cons.mpr ⟨hfresh, h.distinct⟩
    exact hcons.perm (refs_push_perm m h fr bytes).symm fun hab => hab.symm

/-- The map has an entry for a URI where it has a reference. -/
theorem entry_isSome_iff (m : Memory) (h : m.Formed) (uri : Name) :
    (m.entry uri).isSome = true ↔ ∃ fr ∈ m.refs, fr.uri = uri := by
  rw [Option.isSome_iff_exists]
  constructor
  · rintro ⟨e, hentry⟩
    obtain ⟨he, huri⟩ := (entry_eq_some m h uri e).mp hentry
    obtain ⟨fr, hfr⟩ := List.exists_mem_of_ne_nil _ (h.some e he)
    exact ⟨fr, (mem_refs fr m).mpr ⟨e, he, hfr⟩, (h.own e he fr hfr).trans huri⟩
  · rintro ⟨fr, hfr, huri⟩
    obtain ⟨e, he, hmem⟩ := (mem_refs fr m).mp hfr
    exact ⟨e, (entry_eq_some m h uri e).mpr ⟨he, (h.own e he fr hmem).symm.trans huri⟩⟩

/-- A delete from the memory. -/
theorem mem_refs_delete (h : m.Formed) (uri : Name) (fr : FileRef) :
    fr ∈ refs (m.delete uri) ↔ fr ∈ m.refs ∧ fr.uri ≠ uri := by
  unfold delete
  simp only [mem_refs, List.mem_filter, bne_iff_ne, ne_eq]
  constructor
  · rintro ⟨e, ⟨he, hne⟩, hfr⟩
    exact ⟨⟨e, he, hfr⟩, fun huri => hne ((h.own e he fr hfr).symm.trans huri)⟩
  · rintro ⟨⟨e, he, hfr⟩, hne⟩
    exact ⟨e, ⟨he, fun huri => hne ((h.own e he fr hfr).trans huri)⟩, hfr⟩

theorem formed_delete (h : m.Formed) (uri : Name) : Formed (m.delete uri) where
  uris := h.uris.filter _
  own := fun e he => h.own e (List.mem_of_mem_filter he)
  some := fun e he => h.some e (List.mem_of_mem_filter he)
  distinct := by
    unfold delete refs
    rw [List.flatMap_def]
    refine List.Pairwise.sublist (List.filter_sublist.map _).flatten ?_
    rw [← List.flatMap_def]
    exact h.distinct

/-- What is found without options, or with. -/
theorem existing_eq_none (m : Memory) (h : m.Formed) (uri : Name) (o : PutOptions) :
    m.existing uri o = none ↔ o.hasLogicalMetadata = true ∨ ∀ fr ∈ m.refs, fr.uri ≠ uri := by
  unfold existing
  cases hentry : m.entry uri with
  | none =>
      refine iff_of_true rfl (.inr fun fr hfr huri => ?_)
      have hsome := (entry_isSome_iff m h uri).mpr ⟨fr, hfr, huri⟩
      rw [hentry] at hsome
      cases hsome
  | some e =>
      have he := ((entry_eq_some m h uri e).mp hentry).1
      obtain ⟨fr, hfr, huri⟩ := (entry_isSome_iff m h uri).mp (by rw [hentry]; rfl)
      obtain ⟨first, rest, hrefs⟩ := List.exists_cons_of_ne_nil (h.some e he)
      rw [Option.bind_some]
      split
      next hlogical => exact iff_of_true rfl (.inl hlogical)
      next hplain =>
        refine iff_of_false (fun hnone => ?_) ?_
        · rw [hrefs] at hnone
          cases hfind : List.find? FileRef.isPlain (first :: rest) with
          | none =>
              rw [hfind] at hnone
              cases hnone
          | some found =>
              rw [hfind] at hnone
              cases hnone
        · rintro (hlogical | hnone)
          · exact hplain hlogical
          · exact hnone fr hfr huri

theorem existing_uri (h : m.Formed) (uri : Name) (o : PutOptions) (fr : FileRef)
    (hfr : m.existing uri o = some fr) : fr.uri = uri := by
  obtain ⟨e, hentry, hfound⟩ := Option.bind_eq_some_iff.mp hfr
  obtain ⟨he, huri⟩ := (entry_eq_some m h uri e).mp hentry
  have hmem : fr ∈ e.refs := by
    split at hfound
    next => cases hfound
    next =>
      cases hfind : List.find? FileRef.isPlain e.refs with
      | none =>
          rw [hfind] at hfound
          exact List.mem_of_head? hfound
      | some found =>
          rw [hfind] at hfound
          cases hfound
          exact List.mem_of_find?_eq_some hfind
  exact (h.own e he fr hmem).trans huri

end Memory

end Artefact

end DccMcp
