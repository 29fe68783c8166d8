import DccMcp.Flow.Wire

/-!
# The Delay before a Retry

`next_delay` on the integers it is computed with: attempts are `u32`, delays
are milliseconds in a `u64`, and a subtraction below zero or a shift by the
width is a panic. The executor uses the same delay on unbounded numbers, and
what is proved here is that the two are one function.

The shift is bounded before it is made and the product saturates, so the only
bound a delay meets is the policy's own.

## Main definitions

* `checkedSub`, `checkedShl`, `saturatingMulU64`: The operations that may panic,
  and the one that may not.
* `RetryPolicy.nextDelay`: The computation.

## Theorems

* `nextDelay_eq`: It never panics, and is the delay of the executor.
* `nextDelay_spec`: It grows with the attempt, between the bounds of the policy.
-/

namespace DccMcp

namespace Workflow

section Executor

variable (retry : RetryPolicy) (m n : Nat)

/-- Before the first attempt there is no delay, before every other one it is
    within the bounds of the policy. -/
theorem nextDelay_bounds (h : retry.initialDelay ≤ retry.maxDelay) (hn : 2 ≤ n)
    (hword : retry.maxDelay < 2 ^ 64) :
    retry.initialDelay ≤ retry.nextDelay n ∧ retry.nextDelay n ≤ retry.maxDelay := by
  refine ⟨?_, ?_⟩
  · unfold RetryPolicy.nextDelay
    rw [if_neg (by omega)]
    -- Every factor is at least one, and a saturated product is above any bound.
    have hgrow : ∀ k, 0 < k → retry.initialDelay ≤ saturatingMul retry.initialDelay k := by
      intro k hk
      have := Nat.le_mul_of_pos_right retry.initialDelay hk
      unfold saturatingMul
      omega
    refine Nat.le_min.mpr ⟨?_, h⟩
    cases retry.backoff with
    | fixed => exact Nat.le_refl _
    | linear => exact hgrow _ (by omega)
    | exponential => exact hgrow _ (Nat.two_pow_pos _)
  · unfold RetryPolicy.nextDelay
    rw [if_neg (by omega)]
    exact Nat.min_le_right _ _

theorem saturatingMul_mono (a k k' : Nat) (h : k ≤ k') :
    saturatingMul a k ≤ saturatingMul a k' := by
  have := Nat.mul_le_mul_left a h
  unfold saturatingMul
  omega

theorem nextDelay_mono (h : m ≤ n) : retry.nextDelay m ≤ retry.nextDelay n := by
  unfold RetryPolicy.nextDelay
  by_cases hm : m ≤ 1
  · rw [if_pos hm]
    exact Nat.zero_le _
  · rw [if_neg hm, if_neg (by omega)]
    have hraw : ∀ a b, a ≤ b → min a retry.maxDelay ≤ min b retry.maxDelay := by omega
    apply hraw
    cases retry.backoff with
    | fixed => exact Nat.le_refl _
    | linear => exact saturatingMul_mono _ _ _ (by omega)
    | exponential => exact saturatingMul_mono _ _ _ (Nat.pow_le_pow_right (by omega) (by omega))

end Executor

namespace Wire

/-- A subtraction of `u32`, which panics below zero. -/
def checkedSub (a b : UInt32) : Option UInt32 := if b ≤ a then some (a - b) else none

/-- `1u64 << shift`, which panics from the width on. -/
def checkedShl (shift : UInt32) : Option UInt64 :=
  if shift < 64 then some (1 <<< shift.toUInt64) else none

/-- `u64::saturating_mul`. -/
def saturatingMulU64 (a b : UInt64) : UInt64 := .ofNat (saturatingMul a.toNat b.toNat)

/-- `RetryPolicy::next_delay`, with `none` for a panic. -/
def RetryPolicy.nextDelay {F : Type} (retry : RetryPolicy F) (attempt : UInt32) : Option UInt64 :=
  if attempt ≤ 1 then some 0
  else do
    let n ← checkedSub attempt 1
    let raw ← match retry.backoff with
      | .fixed => some retry.initialDelay
      | .linear => some (saturatingMulU64 retry.initialDelay n.toUInt64)
      | .exponential => do
        let shift ← checkedSub n 1
        let factor ← checkedShl (min shift 63)
        some (saturatingMulU64 retry.initialDelay factor)
    some (min raw retry.maxDelay)

/-- The policy as the executor has it. -/
def RetryPolicy.executed {F : Type} (retry : RetryPolicy F) : Workflow.RetryPolicy where
  maxAttempts := retry.maxAttempts.toNat
  backoff := retry.backoff
  initialDelay := retry.initialDelay.toNat
  maxDelay := retry.maxDelay.toNat
  retryOn := retry.retryOn

theorem checkedSub_eq (a b : UInt32) (h : b.toNat ≤ a.toNat) :
    ∃ c, checkedSub a b = some c ∧ c.toNat = a.toNat - b.toNat :=
  ⟨a - b, if_pos (UInt32.le_iff_toNat_le.mpr h), UInt32.toNat_sub_of_le a b h⟩

theorem checkedShl_eq (shift : UInt32) (h : shift.toNat < 64) :
    ∃ c, checkedShl shift = some c ∧ c.toNat = 2 ^ shift.toNat := by
  refine ⟨_, if_pos (UInt32.lt_iff_toNat_lt.mpr h), ?_⟩
  have hpow : 2 ^ shift.toNat < 2 ^ 64 := Nat.pow_lt_pow_right (by omega) h
  rw [UInt64.toNat_shiftLeft, UInt32.toNat_toUInt64, Nat.mod_eq_of_lt h, UInt64.toNat_one,
    Nat.one_shiftLeft, Nat.mod_eq_of_lt hpow]

theorem toNat_saturatingMulU64 (a b : UInt64) :
    (saturatingMulU64 a b).toNat = saturatingMul a.toNat b.toNat := by
  unfold saturatingMulU64
  rw [UInt64.toNat_ofNat', Nat.mod_eq_of_lt]
  unfold saturatingMul
  omega

theorem toNat_min (a b : UInt64) : (min a b).toNat = min a.toNat b.toNat := by
  show (if a ≤ b then a else b).toNat = _
  rw [Nat.min_def, apply_ite UInt64.toNat]
  simp [UInt64.le_iff_toNat_le]

theorem toNat_min32 (a b : UInt32) : (min a b).toNat = min a.toNat b.toNat := by
  show (if a ≤ b then a else b).toNat = _
  rw [Nat.min_def, apply_ite UInt32.toNat]
  simp [UInt32.le_iff_toNat_le]

variable {F : Type} (retry : RetryPolicy F)

/-- No step of the computation panics, and it is the delay of the executor. -/
theorem nextDelay_eq (attempt : UInt32) :
    ∃ d, retry.nextDelay attempt = some d ∧ d.toNat = retry.executed.nextDelay attempt.toNat := by
  unfold RetryPolicy.nextDelay Workflow.RetryPolicy.nextDelay
  by_cases hfirst : attempt ≤ 1
  · have hattempt : attempt.toNat ≤ 1 := UInt32.le_iff_toNat_le.mp hfirst
    rw [if_pos hfirst, if_pos hattempt]
    exact ⟨0, rfl, rfl⟩
  · have hattempt : ¬ attempt.toNat ≤ 1 := fun h => hfirst (UInt32.le_iff_toNat_le.mpr h)
    rw [if_neg hfirst, if_neg hattempt]
    obtain ⟨n, hn, hvalue⟩ := checkedSub_eq attempt 1 (Nat.le_of_lt (Nat.lt_of_not_le hattempt))
    rw [hn, Option.bind_eq_bind, Option.bind_some]
    replace hvalue : n.toNat = attempt.toNat - 1 := hvalue
    -- The product is made on `u64` as it is on numbers.
    have hproduct : ∀ (b : UInt64) (k : Nat), b.toNat = k →
        (min (saturatingMulU64 retry.initialDelay b) retry.maxDelay).toNat =
          min (saturatingMul retry.initialDelay.toNat k) retry.maxDelay.toNat := by
      intro b k hk
      rw [toNat_min, toNat_saturatingMulU64, hk]
    cases hbackoff : retry.backoff with
    | fixed => exact ⟨_, rfl, by simp [RetryPolicy.executed, hbackoff, toNat_min]⟩
    | linear =>
        refine ⟨_, rfl, ?_⟩
        simp only [RetryPolicy.executed, hbackoff]
        exact hproduct _ _ (by rw [UInt32.toNat_toUInt64, hvalue])
    | exponential =>
        obtain ⟨shift, hshift, hbits⟩ := checkedSub_eq n 1 (by
          show 1 ≤ n.toNat
          omega)
        have hmin : (min shift 63).toNat = min (attempt.toNat - 1 - 1) 63 := by
          rw [toNat_min32, hbits, hvalue]
          rfl
        obtain ⟨factor, hfactor, hpower⟩ := checkedShl_eq (min shift 63) (by omega)
        simp only [hshift, Option.bind_eq_bind, Option.bind_some, hfactor]
        refine ⟨_, rfl, ?_⟩
        simp only [RetryPolicy.executed, hbackoff]
        exact hproduct _ _ (by rw [hpower, hmin])

/-- The delays of a policy that validation accepts. -/
theorem nextDelay_spec (f : Float32) (stepId : String) (raw : RawRetryPolicy f.F)
    (retry : RetryPolicy f.F) (h : raw.intoPolicy f stepId = .ok retry) :
    ∃ delays : UInt32 → UInt64, (∀ attempt, retry.nextDelay attempt = some (delays attempt)) ∧
      (∀ a b, a ≤ b → delays a ≤ delays b) ∧
      ∀ attempt, 2 ≤ attempt →
        retry.initialDelay ≤ delays attempt ∧ delays attempt ≤ retry.maxDelay := by
  have hnormal : retry.Normal :=
    normal_of_intoRetry stepId (some raw) (some retry) (by rw [intoRetry, h]; rfl) retry rfl
  have hbounds : retry.executed.initialDelay ≤ retry.executed.maxDelay :=
    Nat.le_of_not_lt (fun hlt => hnormal.delays (UInt64.lt_iff_toNat_lt.mpr hlt))
  choose delays hdelays hvalue using fun attempt => nextDelay_eq retry attempt
  refine ⟨delays, hdelays, ?_, ?_⟩
  · intro a b hab
    rw [UInt64.le_iff_toNat_le, hvalue, hvalue]
    exact nextDelay_mono _ _ _ (UInt32.le_iff_toNat_le.mp hab)
  · intro attempt hattempt
    rw [UInt64.le_iff_toNat_le, UInt64.le_iff_toNat_le, hvalue]
    exact nextDelay_bounds _ _ hbounds (UInt32.le_iff_toNat_le.mp hattempt)
      (UInt64.toNat_lt retry.maxDelay)

/-- A retry block that sets nothing but its attempts. -/
def threeAttempts : RawRetryPolicy twoFloats.F := ⟨3, none, none, none, none, none⟩

theorem nextDelay_spec_threeAttempts :
    ∃ retry, threeAttempts.intoPolicy twoFloats "render" = .ok retry ∧
      [1, 2, 3, 7, 4294967295].map retry.nextDelay =
        [some 0, some 500, some 1000, some 10000, some 10000] ∧
      ∃ delays : UInt32 → UInt64, (∀ attempt, retry.nextDelay attempt = some (delays attempt)) ∧
        (∀ a b, a ≤ b → delays a ≤ delays b) ∧
        ∀ attempt, 2 ≤ attempt →
          retry.initialDelay ≤ delays attempt ∧ delays attempt ≤ retry.maxDelay :=
  ⟨_, rfl, by decide +kernel, nextDelay_spec twoFloats "render" threeAttempts _ rfl⟩

end Wire

end Workflow

end DccMcp
