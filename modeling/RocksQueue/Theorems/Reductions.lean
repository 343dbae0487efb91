import Mathlib.Algebra.Order.Floor.Semifield
import RocksQueue.Theorems.ThrottleCycles

/-! # What a throttle reduces

`apply_throttle` scales the rate and the inflight limit by a quarter, keeps the rate above a floor of its own, and
makes the burst follow the reduced rate. A small rate, a small burst and a small limit each fall out of step: the floor
raises the rate, the burst grows to the rate, and the limit is rounded down to nothing. -/

namespace RocksQueue

/-- What `f64` does to a whole number that is scaled by a quarter and cast back: below 2^53 the numbers are exact, and
    above it the rounding leaves the quarter far within the number. -/
structure F64.Quarters (R : Type) [F64 R] : Prop where
  exact : ∀ {size n : Nat}, n < 2 ^ 53 → F64.toUnsigned size (F64.ofNat n * 0.25 : R) = min (n / 4) (size - 1)
  rounded : ∀ {n : Nat}, 2 ^ 53 ≤ n → n < 2 ^ 64 →
    1 ≤ F64.toUnsigned u64Size (F64.ofNat n * 0.25 : R) ∧ F64.toUnsigned u64Size (F64.ofNat n * 0.25 : R) ≤ n

theorem F64.quarters_rat : F64.Quarters Rat where
  exact := by
    intro size n _
    have hquarter : (n : Rat) * 0.25 = n / (4 : Nat) := by norm_num [div_eq_mul_inv]
    show min ⌊(n : Rat) * 0.25⌋₊ (size - 1) = _
    rw [hquarter, Nat.floor_div_eq_div]
  rounded := by
    intro n hlarge hfits
    have hquarter : (n : Rat) * 0.25 = n / (4 : Nat) := by norm_num [div_eq_mul_inv]
    show 1 ≤ min ⌊(n : Rat) * 0.25⌋₊ (u64Size - 1) ∧ min ⌊(n : Rat) * 0.25⌋₊ (u64Size - 1) ≤ n
    rw [hquarter, Nat.floor_div_eq_div]
    simp only [u64Size]
    omega

/-- No limit of a policy is larger than before, and a tenant that may have tasks inflight still may. -/
structure TenantPolicy.Tightens (before after : TenantPolicy) : Prop where
  rate : after.ratePerSec ≤ before.ratePerSec
  burst : after.burstTokens ≤ before.burstTokens
  inflight : after.maxInflight ≤ before.maxInflight
  schedulable : 1 ≤ before.maxInflight → 1 ≤ after.maxInflight

variable {R : Type} [F64 R]

section Defaults
variable {n : Nat} {policy : TenantPolicy}

theorem appliedRate_default (h : F64.Quarters R) (hrate : n < 2 ^ 32) :
    (ThrottleConfig.default : ThrottleConfig R).appliedRate n = max (n / 4) 5 := by
  have hreduce : (ThrottleConfig.default : ThrottleConfig R).reduce u32Size n = min (n / 4) (u32Size - 1) :=
    h.exact (by omega)
  rw [ThrottleConfig.appliedRate, hreduce]
  simp only [u32Size, ThrottleConfig.default]
  omega

/-- The reduced limit, above and below the numbers that are exact. -/
theorem reduce_default (h : F64.Quarters R) (hfits : n < 2 ^ 64) :
    (ThrottleConfig.default : ThrottleConfig R).reduce u64Size n ≤ n ∧
      (1 ≤ (ThrottleConfig.default : ThrottleConfig R).reduce u64Size n ↔ 4 ≤ n) := by
  have hreduce : (ThrottleConfig.default : ThrottleConfig R).reduce u64Size n =
      F64.toUnsigned u64Size (F64.ofNat n * 0.25 : R) := rfl
  rw [hreduce]
  by_cases hexact : n < 2 ^ 53
  · rw [h.exact hexact]
    simp only [u64Size]
    omega
  · obtain ⟨hpos, hle⟩ := h.rounded (Nat.not_lt.mp hexact) hfits
    exact ⟨hle, fun _ => by omega, fun _ => hpos⟩

/-- A throttle tightens a policy exactly when its rate is above the floor already, its burst is no smaller than the
    reduced rate, and its inflight limit is 0 or at least 4. -/
theorem tightens_iff {a : AutoThrottle R} {tenant reason : String} {now instant : Nat} (h : F64.Quarters R)
    (hconfig : a.config = .default) (hpolicy : a.scheduler.policy tenant = some policy)
    (hrate : policy.ratePerSec < 2 ^ 32) (hinflight : policy.maxInflight < 2 ^ 64) :
    ∃ after, (a.applyThrottle tenant reason now instant).scheduler.policy tenant = some after ∧
      (policy.Tightens after ↔ 5 ≤ policy.ratePerSec ∧ max (policy.ratePerSec / 4) 5 ≤ policy.burstTokens ∧
        (policy.maxInflight = 0 ∨ 4 ≤ policy.maxInflight)) := by
  refine ⟨a.config.throttledPolicy policy, ?_, ?_⟩
  · rw [AutoThrottle.policy_applyThrottle, if_pos rfl, hpolicy]
    rfl
  · obtain ⟨hle, hpos⟩ := reduce_default h hinflight
    have hrateAfter : (a.config.throttledPolicy policy).ratePerSec = max (policy.ratePerSec / 4) 5 := by
      rw [hconfig, ThrottleConfig.throttledPolicy, appliedRate_default h hrate]
    -- The reduced burst is the reduced rate, which the floor keeps above zero.
    have hburstAfter : (a.config.throttledPolicy policy).burstTokens = max (policy.ratePerSec / 4) 5 := by
      rw [hconfig, ThrottleConfig.throttledPolicy, appliedRate_default h hrate]
      exact Nat.max_eq_left (by omega)
    have hinflightAfter : (a.config.throttledPolicy policy).maxInflight =
        (ThrottleConfig.default : ThrottleConfig R).reduce u64Size policy.maxInflight := by
      rw [hconfig, ThrottleConfig.throttledPolicy]
    constructor
    · rintro ⟨hrateLe, hburstLe, -, hschedulable⟩
      rw [hrateAfter] at hrateLe
      rw [hburstAfter] at hburstLe
      rw [hinflightAfter, hpos] at hschedulable
      omega
    · rintro ⟨hfloor, hburst, hlimit⟩
      constructor
      · rw [hrateAfter]
        omega
      · rw [hburstAfter]
        exact hburst
      · rw [hinflightAfter]
        exact hle
      · rw [hinflightAfter, hpos]
        omega

end Defaults

/-! ## A small tenant and a standard one -/

/-- Two tasks a second, one at a time, three of them inflight. -/
def smallPolicy : TenantPolicy := ⟨"t", 10, 3, 1, 2⟩

/-- Each limit goes the wrong way: the rate and the burst up to 5, and the inflight limit down to 0. -/
theorem not_tightens :
    ((AutoThrottle.oneTenant smallPolicy).applyThrottle "t" "rate_spike_detected" 0 0).scheduler.policy "t" =
        some ⟨"t", 10, 0, 5, 5⟩ ∧
      ¬∃ after, ((AutoThrottle.oneTenant smallPolicy).applyThrottle "t" "rate_spike_detected" 0 0).scheduler.policy "t" =
          some after ∧ smallPolicy.Tightens after := by
  have hafter : ((AutoThrottle.oneTenant smallPolicy).applyThrottle "t" "rate_spike_detected" 0 0).scheduler.policy "t" =
      some ⟨"t", 10, 0, 5, 5⟩ := by decide +kernel
  refine ⟨hafter, ?_⟩
  rintro ⟨after, hsome, htightens⟩
  rw [hafter, Option.some.injEq] at hsome
  rw [← hsome] at htightens
  exact absurd htightens.rate (by decide)

theorem tightens_standard : ∃ after,
    ((AutoThrottle.oneTenant AutoThrottle.standardPolicy).applyThrottle "t" "rate_spike_detected" 0 0).scheduler.policy "t" =
        some after ∧ AutoThrottle.standardPolicy.Tightens after := by
  have hpolicy : (AutoThrottle.oneTenant AutoThrottle.standardPolicy).scheduler.policy "t" =
      some AutoThrottle.standardPolicy := by
    decide +kernel
  obtain ⟨after, hafter, hiff⟩ := tightens_iff F64.quarters_rat rfl hpolicy (by decide) (by decide)
  exact ⟨after, hafter, hiff.mpr (by decide)⟩

end RocksQueue
