import Mathlib.Data.List.Basic

/-!
# Services That Answer Calls

A service has a state, which a call changes, and it answers. The answer need
not be determined by the state and the call: a listing may come in any order.
So what is given of the answers is which of them are possible, and a sequence
of answers to a sequence of calls is possible if each of them is, in the state
that the calls before it have left behind.

Two services with different states are compared by a relation between the
states. If related states give answers that agree, and are still related
after the call, then the services agree along every sequence of calls, each
of which may ask for a condition of its own.

## Main definitions

* `Service`: What a call does, and what may be answered.
* `Service.afterAll`, `Service.Replies`: Sequences of calls.
* `Service.Along`: A condition on every call, where it is made.
* `Service.Compared`: The answers of two services, call by call.
* `Service.Simulates`: What a relation of the states has to keep.

## Theorems

* `Service.exists_replies`: There are answers to every sequence of calls.
* `Service.Simulates.related`: The states stay related.
* `Service.Simulates.compared`: The answers agree.
-/

namespace DccMcp

/-- What a call does to the state of a service, and which answers it can get. -/
structure Service (σ κ ρ : Type) where
  after : σ → κ → σ
  Answers : σ → κ → ρ → Prop

namespace Service

variable {σ τ κ ρ : Type}

/-- The state after some calls. -/
def afterAll (S : Service σ κ ρ) (s : σ) (calls : List κ) : σ := calls.foldl S.after s

/-- The answers are possible for the calls, one after the other. -/
def Replies (S : Service σ κ ρ) : σ → List κ → List ρ → Prop
  | _, [], [] => True
  | s, call :: calls, r :: rs => S.Answers s call r ∧ S.Replies (S.after s call) calls rs
  | _, _, _ => False

/-- Every call is made in a state that it is allowed in. -/
def Along (S : Service σ κ ρ) (ok : σ → κ → Prop) : σ → List κ → Prop
  | _, [] => True
  | s, call :: calls => ok s call ∧ S.Along ok (S.after s call) calls

/-- Two sequences of answers to the same calls, one call after the other,
    where the states are those of the first service. -/
def Compared (S : Service σ κ ρ) (Agree : σ → κ → ρ → ρ → Prop) :
    σ → List κ → List ρ → List ρ → Prop
  | _, [], [], [] => True
  | s, call :: calls, r :: rs, r' :: rs' =>
    Agree s call r r' ∧ S.Compared Agree (S.after s call) calls rs rs'
  | _, _, _, _ => False

/-- A service that always has an answer has answers to all sequences of calls. -/
theorem exists_replies (S : Service σ κ ρ) (h : ∀ s call, ∃ r, S.Answers s call r)
    (calls : List κ) (s : σ) : ∃ rs, S.Replies s calls rs := by
  induction calls generalizing s with
  | nil => exact ⟨[], trivial⟩
  | cons call calls ih =>
      rcases h s call with ⟨r, hr⟩
      rcases ih (S.after s call) with ⟨rs, hrs⟩
      exact ⟨r :: rs, hr, hrs⟩

/-- The relation between the states of two services is kept by every call
    that meets the condition, and the answers to it agree. -/
structure Simulates (S : Service σ κ ρ) (T : Service τ κ ρ) (R : σ → τ → Prop)
    (ok : σ → κ → Prop) (Agree : σ → κ → ρ → ρ → Prop) : Prop where
  after : ∀ s t call, R s t → ok s call → R (S.after s call) (T.after t call)
  answers : ∀ s t call r r', R s t → ok s call → S.Answers s call r → T.Answers t call r' →
    Agree s call r r'

namespace Simulates

variable (S : Service σ κ ρ) (T : Service τ κ ρ) (R : σ → τ → Prop) (ok : σ → κ → Prop)
  (Agree : σ → κ → ρ → ρ → Prop)

/-- The states stay related. -/
theorem related (h : Simulates S T R ok Agree) (calls : List κ) (s : σ) (t : τ) (hst : R s t)
    (hok : S.Along ok s calls) : R (S.afterAll s calls) (T.afterAll t calls) := by
  induction calls generalizing s t with
  | nil => exact hst
  | cons call calls ih =>
      exact ih (S.after s call) (T.after t call) (h.after s t call hst hok.1) hok.2

/-- The answers agree. -/
theorem compared (h : Simulates S T R ok Agree) (calls : List κ) (s : σ) (t : τ) (rs rs' : List ρ)
    (hst : R s t) (hok : S.Along ok s calls) (hrs : S.Replies s calls rs)
    (hrs' : T.Replies t calls rs') : S.Compared Agree s calls rs rs' := by
  induction calls generalizing s t rs rs' with
  | nil =>
      cases rs with
      | nil =>
          cases rs' with
          | nil => exact trivial
          | cons r' rs' => exact hrs'
      | cons r rs => exact absurd hrs id
  | cons call calls ih =>
      cases rs with
      | nil => exact absurd hrs id
      | cons r rs =>
          cases rs' with
          | nil => exact absurd hrs' id
          | cons r' rs' =>
              exact ⟨h.answers s t call r r' hst hok.1 hrs.1 hrs'.1,
                ih _ _ rs rs' (h.after s t call hst hok.1) hok.2 hrs.2 hrs'.2⟩

end Simulates

end Service

end DccMcp
