import Mathlib.Data.List.Nodup
import Mathlib.Data.List.Infix

/-!
# Hand-Over Through a Queue

Items enter a queue, are taken out of it by parties, and each party settles
the items it took, in the order it took them.

A ledger writes the three things down as they happen. What it is worth is in
`Balanced`: together with the queue and with what every party still holds,
the ledger accounts for every item exactly once. Three lemmas keep the
balance, one per entry, and everything that is said about a hand-over follows
from the balance alone. No item is settled twice or by two parties, and a
party settles in the order of the queue.

The order across parties needs more. Two parties that hold items at the same
time may settle them in any order. `Serial` says that of a class of parties
only one holds anything, and then that class as a whole settles in the order
of the queue.

## Main definitions

* `Ledger`: What entered, what was taken and by whom, what was settled.
* `Ledger.takenBy`, `Ledger.settledBy`, `Ledger.entriesIn`: The entries of
  one party, and of a class of parties.
* `Balanced`: Every item is accounted for.
* `Serial`: Of a class of parties, only one holds anything.

## Theorems

* `Balanced.enter`, `Balanced.take`, `Balanced.settle`: Keeping the balance.
* `Balanced.settled_nodup`: No item is settled twice.
* `Balanced.settledBy_sublist`: A party settles in the order of the queue.
* `Serial.take`, `Serial.settle`: Keeping a class serial.
* `Serial.settled_sublist`: A serial class settles in the order of the queue.
-/

namespace DccMcp

/-- What entered a queue, what was taken out and by whom, and what was
    settled and by whom, each in the order it happened. -/
structure Ledger (π ι : Type) where
  entered : List ι
  taken : List (π × ι)
  settled : List (π × ι)

namespace Ledger

variable {π ι : Type} [DecidableEq π]

/-- The empty ledger. -/
def empty : Ledger π ι := ⟨[], [], []⟩

/-- An item enters the queue. -/
def enter (l : Ledger π ι) (i : ι) : Ledger π ι := { l with entered := l.entered ++ [i] }

/-- A party takes an item out of the queue. -/
def take (l : Ledger π ι) (p : π) (i : ι) : Ledger π ι := { l with taken := l.taken ++ [(p, i)] }

/-- A party settles an item. -/
def settle (l : Ledger π ι) (p : π) (i : ι) : Ledger π ι :=
  { l with settled := l.settled ++ [(p, i)] }

/-- The items of the entries one party made. -/
def entriesOf (entries : List (π × ι)) (p : π) : List ι :=
  (entries.filter (fun e => e.1 = p)).map Prod.snd

/-- The items one party took. -/
def takenBy (l : Ledger π ι) (p : π) : List ι := entriesOf l.taken p

/-- The items one party settled. -/
def settledBy (l : Ledger π ι) (p : π) : List ι := entriesOf l.settled p

variable (l : Ledger π ι) (queue : List ι) (held : π → List ι) (entries : List (π × ι))

theorem entriesOf_append_self (p : π) (i : ι) :
    entriesOf (entries ++ [(p, i)]) p = entriesOf entries p ++ [i] := by
  simp [entriesOf]

theorem entriesOf_append_ne (p q : π) (i : ι) (h : p ≠ q) :
    entriesOf (entries ++ [(q, i)]) p = entriesOf entries p := by
  simp [entriesOf, h.symm]

theorem mem_entriesOf (p : π) (i : ι) : i ∈ entriesOf entries p ↔ (p, i) ∈ entries := by
  simp only [entriesOf, List.mem_map, List.mem_filter, decide_eq_true_eq]
  constructor
  · rintro ⟨⟨q, j⟩, ⟨hmem, rfl⟩, rfl⟩
    exact hmem
  · intro hmem
    exact ⟨(p, i), ⟨hmem, rfl⟩, rfl⟩

theorem entriesOf_sublist (p : π) : (entriesOf entries p).Sublist (entries.map Prod.snd) :=
  List.filter_sublist.map Prod.snd

/-! ## The balance -/

/-- Every item is accounted for: it is in the queue or was taken, and what a
    party took it has settled or still holds. -/
structure Balanced (l : Ledger π ι) (queue : List ι) (held : π → List ι) : Prop where
  entered : l.entered = l.taken.map Prod.snd ++ queue
  nodup : l.entered.Nodup
  parties : ∀ p, l.takenBy p = l.settledBy p ++ held p

theorem balanced_empty : Balanced (empty : Ledger π ι) [] (fun _ => []) where
  entered := rfl
  nodup := List.nodup_nil
  parties _ := rfl

theorem Balanced.enter (i : ι) (h : Balanced l queue held) (hi : i ∉ l.entered) :
    Balanced (l.enter i) (queue ++ [i]) held where
  entered := by rw [Ledger.enter, h.entered, List.append_assoc]
  nodup := by
    refine List.nodup_append.mpr ⟨h.nodup, List.nodup_singleton i, ?_⟩
    intro a ha b hb hab
    rw [List.mem_singleton] at hb
    rw [hab, hb] at ha
    exact hi ha
  parties := h.parties

theorem Balanced.take (p : π) (i : ι) (h : Balanced l (i :: queue) held) :
    Balanced (l.take p i) queue (Function.update held p (held p ++ [i])) where
  entered := by
    simp [Ledger.take, h.entered]
  nodup := h.nodup
  parties q := by
    by_cases hq : q = p
    · subst hq
      rw [Function.update_self, takenBy, Ledger.take, entriesOf_append_self, ← List.append_assoc]
      exact congrArg (· ++ [i]) (h.parties q)
    · rw [Function.update_of_ne hq, takenBy, Ledger.take, entriesOf_append_ne _ _ _ _ hq]
      exact h.parties q

theorem Balanced.settle (p : π) (i : ι) (rest : List ι) (h : Balanced l queue held)
    (hp : held p = i :: rest) :
    Balanced (l.settle p i) queue (Function.update held p rest) where
  entered := h.entered
  nodup := h.nodup
  parties q := by
    by_cases hq : q = p
    · subst hq
      have hparty := h.parties q
      rw [hp] at hparty
      rw [Function.update_self, settledBy, Ledger.settle, entriesOf_append_self, List.append_assoc]
      exact hparty
    · rw [Function.update_of_ne hq, settledBy, Ledger.settle, entriesOf_append_ne _ _ _ _ hq]
      exact h.parties q

section Consequences

variable (l : Ledger π ι) (queue : List ι) (held : π → List ι)

theorem Balanced.taken_nodup (h : Balanced l queue held) : (l.taken.map Prod.snd).Nodup := by
  have hnodup := h.nodup
  rw [h.entered] at hnodup
  exact (List.nodup_append.mp hnodup).1

/-- An item is taken by one party only. -/
theorem Balanced.taken_unique (h : Balanced l queue held) (p q : π) (i : ι)
    (hp : (p, i) ∈ l.taken) (hq : (q, i) ∈ l.taken) : p = q := by
  have hinj := List.inj_on_of_nodup_map (h.taken_nodup l queue held) hp hq rfl
  exact congrArg Prod.fst hinj

/-- What is settled was taken, by the party that settled it. -/
theorem Balanced.settled_taken (h : Balanced l queue held) (p : π) (i : ι)
    (hp : (p, i) ∈ l.settled) : (p, i) ∈ l.taken := by
  have hmem : i ∈ l.takenBy p := by
    rw [h.parties p]
    exact List.mem_append_left _ ((mem_entriesOf _ p i).mpr hp)
  exact (mem_entriesOf _ p i).mp hmem

/-- What was taken had entered. -/
theorem Balanced.taken_entered (h : Balanced l queue held) (p : π) (i : ι)
    (hp : (p, i) ∈ l.taken) : i ∈ l.entered := by
  rw [h.entered]
  exact List.mem_append_left _ (List.mem_map_of_mem hp)

/-- What a party took it holds or has settled. -/
theorem Balanced.taken_cases (h : Balanced l queue held) (p : π) (i : ι)
    (hp : (p, i) ∈ l.taken) : (p, i) ∈ l.settled ∨ i ∈ held p := by
  have hmem : i ∈ l.takenBy p := (mem_entriesOf _ p i).mpr hp
  rw [h.parties p] at hmem
  exact (List.mem_append.mp hmem).imp_left (mem_entriesOf _ p i).mp

theorem Balanced.takenBy_nodup (h : Balanced l queue held) (p : π) : (l.takenBy p).Nodup :=
  (h.taken_nodup l queue held).sublist (entriesOf_sublist l.taken p)

/-- A party settles in the order of the queue. -/
theorem Balanced.settledBy_sublist (h : Balanced l queue held) (p : π) :
    (l.settledBy p).Sublist l.entered := by
  have hfirst : (l.settledBy p).Sublist (l.takenBy p) := by
    rw [h.parties p]
    exact List.sublist_append_left _ _
  have htaken : (l.takenBy p).Sublist (l.taken.map Prod.snd) := entriesOf_sublist l.taken p
  rw [h.entered]
  exact (hfirst.trans htaken).trans (List.sublist_append_left _ _)

/-- No item is settled twice. The entries of one party do not repeat, and
    two parties have no item in common. -/
theorem Balanced.settled_nodup (h : Balanced l queue held) : (l.settled.map Prod.snd).Nodup := by
  have hparty : ∀ p, (l.settledBy p).Nodup := by
    -- Who settles an entry has taken it, and nobody takes it twice.
    intro p
    have hnodup := h.takenBy_nodup l queue held p
    rw [h.parties p] at hnodup
    exact (List.nodup_append.mp hnodup).1
  have hpairs : l.settled.Nodup := by
    rw [List.nodup_iff_pairwise_ne, List.pairwise_iff_forall_sublist]
    rintro ⟨p, i⟩ ⟨q, j⟩ hsub hpq
    simp only [Prod.mk.injEq] at hpq
    rcases hpq with ⟨rfl, rfl⟩
    have htwice : ([i, i] : List ι).Sublist (l.settledBy p) := by
      have := (hsub.filter (fun e => e.1 = p)).map Prod.snd
      simpa only [settledBy, entriesOf, List.filter_cons, decide_true, if_true, List.filter_nil,
        List.map_cons, List.map_nil] using this
    have hne := (hparty p).sublist htwice
    simp [List.nodup_cons] at hne
  refine hpairs.map_on ?_
  rintro ⟨p, i⟩ hp ⟨q, j⟩ hq hij
  simp only at hij
  subst hij
  have hpq := h.taken_unique l queue held p q i (h.settled_taken l queue held p i hp)
    (h.settled_taken l queue held q i hq)
  rw [hpq]

end Consequences

/-! ## Serial classes of parties -/

/-- The items of the entries that parties of a class made. -/
def entriesIn (entries : List (π × ι)) (C : π → Bool) : List ι :=
  (entries.filter (fun e => C e.1)).map Prod.snd

omit [DecidableEq π] in
theorem entriesIn_append_mem (C : π → Bool) (p : π) (i : ι) (hp : C p = true) :
    entriesIn (entries ++ [(p, i)]) C = entriesIn entries C ++ [i] := by
  simp [entriesIn, hp]

omit [DecidableEq π] in
theorem entriesIn_append_not_mem (C : π → Bool) (p : π) (i : ι) (hp : C p = false) :
    entriesIn (entries ++ [(p, i)]) C = entriesIn entries C := by
  simp [entriesIn, hp]

omit [DecidableEq π] in
theorem mem_entriesIn (C : π → Bool) (i : ι) :
    i ∈ entriesIn entries C ↔ ∃ p, C p = true ∧ (p, i) ∈ entries := by
  simp only [entriesIn, List.mem_map, List.mem_filter]
  constructor
  · rintro ⟨⟨p, j⟩, ⟨hmem, hC⟩, rfl⟩
    exact ⟨p, hC, hmem⟩
  · rintro ⟨p, hC, hmem⟩
    exact ⟨(p, i), ⟨hmem, hC⟩, rfl⟩

/-- Of the parties in a class only one holds anything, and apart from that
    the class has settled what it took, in order. -/
def Serial (l : Ledger π ι) (held : π → List ι) (C : π → Bool) : Prop :=
  ∃ p, C p = true ∧ (∀ q, C q = true → q ≠ p → held q = []) ∧
    entriesIn l.taken C = entriesIn l.settled C ++ held p

omit [DecidableEq π] in
theorem serial_empty (C : π → Bool) (p : π) (hp : C p = true) :
    Serial (empty : Ledger π ι) (fun _ => []) C :=
  ⟨p, hp, fun _ _ _ => rfl, rfl⟩

/-- A party of the class may take an item when no other one holds any. -/
theorem Serial.take (C : π → Bool) (p : π) (i : ι) (h : Serial l held C) (hp : C p = true)
    (hothers : ∀ q, C q = true → q ≠ p → held q = []) :
    Serial (l.take p i) (Function.update held p (held p ++ [i])) C := by
  rcases h with ⟨p₀, hp₀, hfree, htaken⟩
  have hnow : entriesIn l.taken C = entriesIn l.settled C ++ held p := by
    by_cases hpp : p₀ = p
    · rw [htaken, hpp]
    · rw [htaken, hothers p₀ hp₀ hpp, hfree p hp (Ne.symm hpp)]
  refine ⟨p, hp, fun q hq hqp => ?_, ?_⟩
  · rw [Function.update_of_ne hqp]
    exact hothers q hq hqp
  · rw [Ledger.take, entriesIn_append_mem _ _ _ _ hp, hnow, Function.update_self, List.append_assoc]

/-- What parties outside the class take does not matter to it. -/
theorem Serial.take_other (C : π → Bool) (p : π) (i : ι) (h : Serial l held C) (hp : C p = false)
    (rest : List ι) :
    Serial (l.take p i) (Function.update held p rest) C := by
  rcases h with ⟨p₀, hp₀, hfree, htaken⟩
  have hne : ∀ q, C q = true → q ≠ p := by
    rintro q hq rfl
    exact absurd hq (by rw [hp]; decide)
  refine ⟨p₀, hp₀, fun q hq hqp => ?_, ?_⟩
  · rw [Function.update_of_ne (hne q hq)]
    exact hfree q hq hqp
  · rw [Ledger.take, entriesIn_append_not_mem _ _ _ _ hp, Function.update_of_ne (hne p₀ hp₀)]
    exact htaken

theorem Serial.settle (C : π → Bool) (p : π) (i : ι) (rest : List ι) (h : Serial l held C)
    (hp : C p = true) (hheld : held p = i :: rest) :
    Serial (l.settle p i) (Function.update held p rest) C := by
  rcases h with ⟨p₀, hp₀, hfree, htaken⟩
  have hpp : p = p₀ := by
    by_contra hne
    rw [hfree p hp hne] at hheld
    simp at hheld
  subst hpp
  refine ⟨p, hp, fun q hq hqp => ?_, ?_⟩
  · rw [Function.update_of_ne hqp]
    exact hfree q hq hqp
  · rw [Ledger.settle, entriesIn_append_mem _ _ _ _ hp, Function.update_self, List.append_assoc,
      List.singleton_append, ← hheld]
    exact htaken

theorem Serial.settle_other (C : π → Bool) (p : π) (i : ι) (rest : List ι) (h : Serial l held C)
    (hp : C p = false) :
    Serial (l.settle p i) (Function.update held p rest) C := by
  rcases h with ⟨p₀, hp₀, hfree, htaken⟩
  have hne : ∀ q, C q = true → q ≠ p := by
    rintro q hq rfl
    exact absurd hq (by rw [hp]; decide)
  refine ⟨p₀, hp₀, fun q hq hqp => ?_, ?_⟩
  · rw [Function.update_of_ne (hne q hq)]
    exact hfree q hq hqp
  · rw [Ledger.settle, entriesIn_append_not_mem _ _ _ _ hp, Function.update_of_ne (hne p₀ hp₀)]
    exact htaken

/-- A serial class settles in the order of the queue. -/
theorem Serial.settled_sublist (C : π → Bool) (h : Serial l held C)
    (hbalanced : Balanced l queue held) :
    (entriesIn l.settled C).Sublist l.entered := by
  rcases h with ⟨p, _, _, htaken⟩
  have hsettled : (entriesIn l.settled C).Sublist (entriesIn l.taken C) := by
    rw [htaken]
    exact List.sublist_append_left _ _
  rw [hbalanced.entered]
  exact (hsettled.trans (List.filter_sublist.map Prod.snd)).trans (List.sublist_append_left _ _)

end Ledger

end DccMcp
