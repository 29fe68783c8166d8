import DccMcp.Capability.Index
import DccMcp.Lib.Machine
import DccMcp.Lib.Uuid

/-!
# The Generation of a Snapshot

`CapabilityIndex` around the state: a lock, and a revision counter that readers
get with their snapshot, so that what was computed from one snapshot can be
kept for the next with the same generation.

A reader captures the two under the read guard, and nothing is written while it
does. But the revision is no part of what the lock protects. A writer changes
the state under the write guard, gives the guard back, and only then adds one
to the revision. A reader that comes between gets the new records under the
generation of the old ones; whoever kept a result of the old records keeps
using it, and whoever keeps a result of the new ones shares its generation.

What makes generations identify content is that a reader never loads the
revision while a writer owes an addition. Then the revision counts the changes
that were made, and an operation that reports no change makes none.

## Main definitions

* `Shared`, `Action`, `step`: The index, its counter, and the atomic steps of
  the calls.
* `snapshotWithGeneration`: What a reader returns.
* `Coherent`: Generations identify content.
* `Settled`: The condition on a step.

## Theorems

* `coherent_of_settled`: Generations identify content when steps are settled.
* `reader_between_change_and_bump`: One generation for two contents.
-/

namespace DccMcp

namespace Capability

open Naming Text

namespace Generation

/-- The index and the calls on it that are under way. A reader that has taken
    its snapshot holds the read guard until it returns. -/
structure Shared where
  inner : CapabilityIndexState
  revision : BitVec 64
  /-- The writers that have given the write guard back after a change, and have
      not called `bump_revision` yet. -/
  owed : Nat
  readers : List IndexSnapshot
  returned : List (IndexSnapshot × String)

/-- `CapabilityIndex::new`. -/
def init : Shared := ⟨.default, 0, 0, [], []⟩

/-- The atomic steps of the calls. -/
inductive Action
  /-- A writer takes the write guard, runs its operation and gives it back. -/
  | write (op : Operation)
  /-- A writer that changed something calls `bump_revision`. -/
  | bump
  /-- A reader takes the read guard and its snapshot. -/
  | capture
  /-- A reader loads the revision and returns. -/
  | load (reader : Nat)

/-- `generation_string`: the seed, and the revision in 16 digits. -/
def generationString (seed : Uuid) (revision : BitVec 64) : String :=
  .ofList (seed.simple.map (fun b => Char.ofNat b.toNat) ++ ':' :: hexDigits 16 revision.toNat)

/-- `snapshot_with_generation`, when the revision is loaded. -/
def snapshotWithGeneration (seed : Uuid) (s : Shared) (snapshot : IndexSnapshot) :
    IndexSnapshot × String :=
  (snapshot, generationString seed s.revision)

def step (seed : Uuid) (s : Shared) : Action → Option Shared
  | .write op =>
    -- The write guard is given while no reader holds a guard.
    if s.readers = [] then
      let out := op.apply s.inner
      some { s with inner := out.1, owed := if out.2 then s.owed + 1 else s.owed }
    else none
  | .bump =>
    if s.owed = 0 then none
    else some { s with revision := s.revision + 1, owed := s.owed - 1 }
  | .capture => some { s with readers := s.readers ++ [s.inner.snapshot] }
  | .load reader =>
    match s.readers[reader]? with
    | none => none
    | some snapshot =>
      some { s with
        readers := s.readers.eraseIdx reader
        returned := s.returned ++ [snapshotWithGeneration seed s snapshot] }

/-- Two calls that return the same generation return the same snapshot. -/
def Coherent (s : Shared) : Prop :=
  ∀ a ∈ s.returned, ∀ b ∈ s.returned, a.2 = b.2 → a.1 = b.1

/-- A reader loads the revision while no writer owes an addition, and the
    counter does not wrap. -/
def Settled (s : Shared) : Action → Prop
  | .load _ => s.owed = 0
  | .bump => s.revision ≠ BitVec.allOnes 64
  | .write _ => True
  | .capture => True

instance (s : Shared) : ∀ a : Action, Decidable (Settled s a)
  | .load _ => inferInstanceAs (Decidable (s.owed = 0))
  | .bump => inferInstanceAs (Decidable (s.revision ≠ _))
  | .write _ => inferInstanceAs (Decidable True)
  | .capture => inferInstanceAs (Decidable True)

/-- A generation is its revision. -/
theorem generationString_inj (seed : Uuid) (m n : BitVec 64)
    (h : generationString seed m = generationString seed n) : m = n := by
  have htext := List.append_cancel_left (String.ofList_injective h)
  have hdigits := (List.cons.inj htext).2
  exact BitVec.eq_of_toNat_eq (numeral_inj 16 (by decide) (by decide) 16 _ _ m.isLt n.isLt hdigits)

/-- What is returned was there when the revision was as it says: the revision
    of a call that has returned is no later than the current one, and if it is
    the current one and no addition is owed, its snapshot is still current. -/
structure Counted (seed : Uuid) (s : Shared) : Prop where
  index : IndexInv s.inner
  held : ∀ snapshot ∈ s.readers, snapshot = s.inner.snapshot
  past : ∀ out ∈ s.returned, ∃ n : BitVec 64, out.2 = generationString seed n ∧
    n.toNat ≤ s.revision.toNat ∧ (n = s.revision → s.owed = 0 → out.1 = s.inner.snapshot)
  coherent : Coherent s

theorem counted_init (seed : Uuid) : Counted seed init where
  index := indexInv_default
  held := fun _ h => absurd h List.not_mem_nil
  past := fun _ h => absurd h List.not_mem_nil
  coherent := fun _ h => absurd h List.not_mem_nil

section Steps

variable (seed : Uuid) (s t : Shared) (h : Counted seed s)

include h

/-- A writer: either nothing changes, or an addition is owed. -/
theorem counted_write (op : Operation) (hfree : s.readers = []) :
    Counted seed { s with
      inner := (op.apply s.inner).1
      owed := if (op.apply s.inner).2 then s.owed + 1 else s.owed } := by
  cases hchanged : (op.apply s.inner).2 with
  | false =>
      rw [apply_unchanged s.inner h.index op hchanged]
      exact ⟨h.index, h.held, h.past, h.coherent⟩
  | true =>
      refine ⟨indexInv_apply s.inner h.index op, fun snapshot hmem => ?_, fun out hout => ?_,
        h.coherent⟩
      · rw [hfree] at hmem
        exact absurd hmem List.not_mem_nil
      · rcases h.past out hout with ⟨n, hn, hle, _⟩
        refine ⟨n, hn, hle, fun _ howed => ?_⟩
        rw [if_pos rfl] at howed
        exact absurd howed (Nat.succ_ne_zero _)

/-- After an addition every generation that was returned is an earlier one. -/
theorem counted_bump (hroom : s.revision ≠ BitVec.allOnes 64) :
    Counted seed { s with revision := s.revision + 1, owed := s.owed - 1 } := by
  have hnext : (s.revision + 1).toNat = s.revision.toNat + 1 := by
    have hne : s.revision.toNat ≠ 18446744073709551615 := fun heq =>
      hroom (BitVec.eq_of_toNat_eq (heq.trans (by decide)))
    have hlt := s.revision.isLt
    rw [BitVec.toNat_add, show (1 : BitVec 64).toNat = 1 from rfl]
    omega
  refine ⟨h.index, h.held, fun out hout => ?_, h.coherent⟩
  rcases h.past out hout with ⟨n, hn, hle, _⟩
  refine ⟨n, hn, Nat.le_trans hle (hnext ▸ Nat.le_succ _), fun heq _ => ?_⟩
  rw [heq, hnext] at hle
  omega

theorem counted_capture :
    Counted seed { s with readers := s.readers ++ [s.inner.snapshot] } := by
  refine ⟨h.index, fun snapshot hmem => ?_, h.past, h.coherent⟩
  rcases List.mem_append.mp hmem with hmem | hmem
  · exact h.held snapshot hmem
  · exact List.mem_singleton.mp hmem

/-- A reader that returns while nothing is owed returns what is there, and so
    did every other call with its generation. -/
theorem counted_load (reader : Nat) (snapshot : IndexSnapshot)
    (hreader : s.readers[reader]? = some snapshot) (howed : s.owed = 0) :
    Counted seed { s with
      readers := s.readers.eraseIdx reader
      returned := s.returned ++ [snapshotWithGeneration seed s snapshot] } := by
  have hcurrent := h.held snapshot (List.mem_of_getElem? hreader)
  have hsame : ∀ out ∈ s.returned, out.2 = generationString seed s.revision →
      out.1 = snapshot := by
    intro out hout heq
    rcases h.past out hout with ⟨n, hn, _, hnow⟩
    rw [hnow (generationString_inj seed n s.revision (hn.symm.trans heq)) howed, hcurrent]
  refine ⟨h.index, fun other hmem => h.held other (List.mem_of_mem_eraseIdx hmem),
    fun out hout => ?_, ?_⟩
  · rcases List.mem_append.mp hout with hout | hout
    · exact h.past out hout
    · rw [List.mem_singleton.mp hout]
      exact ⟨s.revision, rfl, Nat.le_refl _, fun _ _ => hcurrent⟩
  · intro a ha b hb hab
    rcases List.mem_append.mp ha with ha | ha <;> rcases List.mem_append.mp hb with hb | hb
    · exact h.coherent a ha b hb hab
    · rw [List.mem_singleton.mp hb] at hab ⊢
      exact hsame a ha hab
    · rw [List.mem_singleton.mp ha] at hab ⊢
      exact (hsame b hb hab.symm).symm
    · rw [List.mem_singleton.mp ha, List.mem_singleton.mp hb]

/-- A settled step keeps the count of the changes. -/
theorem counted_step (a : Action) (hsettled : Settled s a) (hstep : step seed s a = some t) :
    Counted seed t := by
  cases a with
  | write op =>
      simp only [step] at hstep
      split at hstep
      next hfree =>
        rw [← Option.some.inj hstep]
        exact counted_write seed s h op hfree
      next => cases hstep
  | bump =>
      simp only [step] at hstep
      split at hstep
      next => cases hstep
      next =>
        rw [← Option.some.inj hstep]
        exact counted_bump seed s h hsettled
  | capture =>
      rw [← Option.some.inj hstep]
      exact counted_capture seed s h
  | load reader =>
      simp only [step] at hstep
      split at hstep
      next => cases hstep
      next snapshot hreader =>
        rw [← Option.some.inj hstep]
        exact counted_load seed s h reader snapshot hreader hsettled

end Steps

/-- In every run in which readers load the revision only while no writer is
    between its change and its addition, and the counter does not wrap, two
    calls that return the same generation return the same snapshot. -/
theorem coherent_of_settled (seed : Uuid) (as : List Action) (t : Shared)
    (hsettled : Machine.Along (step seed) Settled init as)
    (hrun : Machine.exec (step seed) init as = some t) : Coherent t :=
  (Machine.exec_history (step seed) Settled (fun _ => Counted seed) init (counted_init seed)
    (fun _ s a u hs ha hu => counted_step seed s u hs a ha hu) as t hsettled hrun).coherent

/-- The action of a backend. -/
def bakeRow : CapabilityRecord := .fromSkillTool "maya-bake" "bake" "Bake a cache" "maya" none

/-- An instance comes while nobody reads, and there is a reader before and a
    reader after it. -/
def arrival : List Action :=
  [.capture, .load 0, .write (.upsertInstance ⟨1⟩ [bakeRow] ⟨5⟩), .bump, .capture, .load 0]

theorem coherent_arrival :
    ∃ t, Machine.exec (step ⟨7⟩) init arrival = some t ∧ t.returned.length = 2 ∧ Coherent t :=
  ⟨_, rfl, rfl, coherent_of_settled ⟨7⟩ arrival _ (by decide) rfl⟩

/-- An instance comes, and a reader captures the index before the addition: it
    has the generation of the reader that came before the instance. -/
theorem reader_between_change_and_bump :
    ¬ ∀ (seed : Uuid) (as : List Action) (t : Shared),
      Machine.exec (step seed) init as = some t → Coherent t := by
  intro hall
  have h := hall ⟨7⟩ [.capture, .load 0, .write (.upsertInstance ⟨1⟩ [bakeRow] ⟨5⟩), .capture,
    .load 0, .bump] _ rfl
  have hsame := h _ (List.mem_cons_self) _ (List.mem_cons_of_mem _ List.mem_cons_self) rfl
  have hfingerprint := congrArg (fun out => out.fingerprints.lookup ⟨1⟩) hsame
  revert hfingerprint
  decide

end Generation

end Capability

end DccMcp
