import RocksQueue.Lib.TokenBucket
import RocksQueue.Theorems.Allocations

/-! # The rate of a tenant

A tenant's tokens are a lazily filled bucket: `schedule` fills it up to now and takes out what the first loop
grants, so the tenant gets no more than one burst and its rate over time. The leftover step takes nothing out,
and the bound holds for a tenant as long as that step passes it over. -/

namespace RocksQueue

open Runs

namespace TenantState
variable {state state' : TenantState Rat} {now elapsed n : Nat}

/-- What the tenant's bucket holds at a moment. -/
def held (state : TenantState Rat) (now : Nat) : Rat :=
  TokenBucket.level state.policy.burstTokens state.policy.ratePerSec state.tokens (asSecsF64 (now - state.lastRefill))

theorem held_congr (hpolicy : state'.policy = state.policy) (htokens : state'.tokens = state.tokens)
    (hrefill : state'.lastRefill = state.lastRefill) : state'.held now = state.held now := by
  rw [held, held, hpolicy, htokens, hrefill]

theorem held_refill (state : TenantState Rat) :
    state.held now =
      TokenBucket.level (state.policy.burstTokens : Rat) state.policy.ratePerSec (state.refill now).tokens 0 := by
  rw [held, tokens_refill, TokenBucket.level_refill]

theorem held_wait :
    state.held (now + elapsed) ≤ state.held now + state.policy.ratePerSec * asSecsF64 elapsed := by
  obtain ⟨more, hmore, hle⟩ : ∃ more, now + elapsed - state.lastRefill = now - state.lastRefill + more ∧ more ≤ elapsed :=
    ⟨now + elapsed - state.lastRefill - (now - state.lastRefill), by omega, by omega⟩
  have hrate : (0 : Rat) ≤ state.policy.ratePerSec := Nat.cast_nonneg _
  have hsecs : (asSecsF64 (now - state.lastRefill + more) : Rat) = asSecsF64 (now - state.lastRefill) + asSecsF64 more := by
    rw [asSecsF64_eq, asSecsF64_eq, asSecsF64_eq, Nat.cast_add, add_div]
  have hmore0 : (0 : Rat) ≤ asSecsF64 more := by
    rw [asSecsF64_eq]
    positivity
  have hsecsle : (asSecsF64 more : Rat) ≤ asSecsF64 elapsed := by
    rw [asSecsF64_eq, asSecsF64_eq]
    gcongr
  rw [held, hmore, hsecs]
  refine (TokenBucket.level_wait hrate hmore0).trans ?_
  exact add_le_add_right (mul_le_mul_of_nonneg_left hsecsle hrate) _

/-- The cast of the tokens to a number of slots stays within them. -/
theorem le_of_le_toUnsigned {tokens : Rat} (h : n ≤ F64.toUnsigned u64Size tokens) : (n : Rat) ≤ max 0 tokens := by
  have hfloor : n ≤ ⌊tokens⌋₊ := h.trans (Nat.min_le_left _ _)
  have hmono : ⌊tokens⌋₊ ≤ ⌊max 0 tokens⌋₊ := Nat.floor_mono (le_max_right _ _)
  calc (n : Rat) ≤ ⌊max 0 tokens⌋₊ := by exact_mod_cast hfloor.trans hmono
    _ ≤ max 0 tokens := Nat.floor_le (le_max_left _ _)

theorem Pays.held_le (h : state.Pays state' now n) : state'.held now + n ≤ state.held now := by
  rcases h with ⟨hpolicy, htokens, hrefill, rfl⟩ | ⟨hpolicy, hrefill, htokens, hslots⟩
  · rw [held_congr hpolicy htokens hrefill, Nat.cast_zero, add_zero]
  · have hpaid : state'.tokens = (state.refill now).tokens - n := by
      rw [htokens]
      split
      · rename_i hzero
        rw [hzero, Nat.cast_zero, sub_zero]
      · rfl
    have hburst : (state.refill now).tokens ≤ state.policy.burstTokens := by
      rw [tokens_refill]
      exact min_le_left _ _
    have hzero : (asSecsF64 (now - now) : Rat) = 0 := by rw [asSecsF64_eq, Nat.sub_self, Nat.cast_zero, zero_div]
    rw [state.held_refill, held, hpolicy, hrefill, hpaid, hzero]
    exact TokenBucket.level_take hburst (Nat.cast_nonneg _) (le_of_le_toUnsigned hslots)

end TenantState

namespace SchedulerRun
variable {s s' : SchedulerRun Rat} {call : SchedulerCall} {scheduler : WFQScheduler Rat} {clock : Nat} {tenant : String}
  {p : TenantPolicy}

/-- The tenant has been granted no more than its burst and its rate over the time since `clock`. -/
def RateCapped (s : SchedulerRun Rat) (tenant : String) (p : TenantPolicy) (clock : Nat) : Prop :=
  (s.granted tenant : Rat) ≤ p.burstTokens + p.ratePerSec * ((s.clock - clock : Nat) / 10 ^ 9 : Rat)

/-- The call gives leftover slots to the tenant: those that are let in ask for fewer slots than there are, and the tenant
    is the first of them that asks for any. -/
def GivesLeftover {R : Type} [F64 R] (tenant : String) (s : SchedulerRun R) : SchedulerCall → Prop
  | .schedule totalSlots => s.scheduler.totalWeight ≠ 0 ∧ s.scheduler.askedInAll totalSlots s.clock < totalSlots ∧
      ∃ state, s.scheduler.tenants.lookup tenant = some state ∧ state.eligible = true ∧
        (state.refill s.clock).candidate.demand totalSlots s.scheduler.totalWeight ≠ 0 ∧
        s.scheduler.askedAhead totalSlots s.clock tenant = 0
  | _ => False

theorem givesLeftover_iff {totalSlots : Nat} {state : TenantState Rat} (h : s.scheduler.tenants.lookup tenant = some state) :
    GivesLeftover tenant s (.schedule totalSlots) ↔ s.scheduler.leftoverTo totalSlots s.clock = some tenant := by
  unfold GivesLeftover WFQScheduler.leftoverTo
  by_cases hnone : totalSlots = 0 ∨ s.scheduler.totalWeight = 0
  · rw [if_pos hnone]
    constructor
    · rintro ⟨hweight, hasked, -⟩
      rcases hnone with hslots | hzero
      · omega
      · exact absurd hzero hweight
    · intro hto
      cases hto
  · obtain ⟨hslots, hweight⟩ := not_or.mp hnone
    rw [if_neg hnone]
    cases heligible : state.eligible with
    | false =>
      refine iff_of_false ?_ (WFQScheduler.not_leftoverTo h heligible hslots)
      rintro ⟨-, -, state', hstate', heligible', -⟩
      rw [h] at hstate'
      cases hstate'
      rw [heligible] at heligible'
      cases heligible'
    | true =>
      rw [WFQScheduler.leftoverTo_allocate h heligible hslots, Nat.sub_pos_iff_lt]
      constructor
      · rintro ⟨-, hasked, state', hstate', -, hdemand, hahead⟩
        rw [h] at hstate'
        cases hstate'
        exact ⟨hasked, hdemand, hahead⟩
      · rintro ⟨hasked, hdemand, hahead⟩
        exact ⟨hweight, hasked, state, h, heligible, hdemand, hahead⟩

/-- The bucket of the tenant covers what it has been granted since `clock`. -/
structure Covered (s : SchedulerRun Rat) (tenant : String) (p : TenantPolicy) (clock : Nat) : Prop where
  since : clock ≤ s.clock
  tenant : ∃ state, s.scheduler.tenants.lookup tenant = some state ∧ state.policy = p ∧
    TokenBucket.Covered (p.burstTokens : Rat) p.ratePerSec (state.held s.clock) (s.granted tenant)
      (asSecsF64 (s.clock - clock))

theorem covered_start (h : scheduler.policy tenant = some p) : (start scheduler clock).Covered tenant p clock := by
  obtain ⟨state, hstate, hpolicy⟩ := Option.map_eq_some_iff.mp h
  refine ⟨Nat.le_refl _, state, hstate, hpolicy, ?_⟩
  have hzero : (asSecsF64 (clock - clock) : Rat) = 0 := by rw [asSecsF64_eq, Nat.sub_self, Nat.cast_zero, zero_div]
  show TokenBucket.Covered _ _ _ ((0 : Nat) : Rat) (asSecsF64 (clock - clock))
  rw [hzero, Nat.cast_zero, ← hpolicy]
  exact .start (TokenBucket.level_le_burst (Nat.cast_nonneg _))

/-- A call that changes neither the policy nor the bucket of the tenant, nor what it has been granted. -/
theorem Covered.of_kept (h : s.Covered tenant p clock) (hclock : s'.clock = s.clock)
    (hgranted : s'.granted tenant = s.granted tenant)
    (hkept : ∀ state, s.scheduler.tenants.lookup tenant = some state →
      ∃ state', s'.scheduler.tenants.lookup tenant = some state' ∧ state'.policy = state.policy ∧
        state'.tokens = state.tokens ∧ state'.lastRefill = state.lastRefill) :
    s'.Covered tenant p clock := by
  obtain ⟨hle, state, hstate, hp, hcovered⟩ := h
  obtain ⟨state', hstate', hpolicy, htokens, hrefill⟩ := hkept state hstate
  refine ⟨hclock ▸ hle, state', hstate', hpolicy.trans hp, ?_⟩
  rw [TenantState.held_congr hpolicy htokens hrefill, hclock, hgranted]
  exact hcovered

theorem covered_of_next (hI : s.Covered tenant p clock) (hok : ¬GivesLeftover tenant s call)
    (hnext : s.next call = some s') : s'.Covered tenant p clock := by
  cases call with
  | schedule totalSlots =>
    cases hnext
    obtain ⟨hle, state, hstate, hp, hcovered⟩ := hI
    obtain ⟨state', n, hstate', hpays, hgranted⟩ := WFQScheduler.schedule_pays hstate totalSlots s.clock
    -- The leftover slots go to another tenant, or to none.
    have hothers : ¬s.scheduler.leftoverTo totalSlots s.clock = some tenant := fun hto =>
      hok ((givesLeftover_iff hstate).mpr hto)
    rw [if_neg hothers, Nat.add_zero] at hgranted
    refine ⟨hle, state', hstate', ?_, ?_⟩
    · rcases hpays with ⟨hpolicy, -, -, -⟩ | ⟨hpolicy, -, -, -⟩
      · exact hpolicy.trans hp
      · exact hpolicy.trans hp
    · show TokenBucket.Covered _ _ _ ((s.granted tenant + grantedTo tenant _ : Nat) : Rat) _
      rw [hgranted, Nat.cast_add]
      exact hcovered.take hpays.held_le
  | release t n =>
    cases hnext
    refine hI.of_kept rfl rfl fun state hstate => ?_
    -- The slots in flight are not part of what covers the grants.
    show ∃ state', (s.scheduler.release t n).tenants.lookup tenant = some state' ∧ _
    rw [WFQScheduler.lookup_release, hstate]
    split
    · exact ⟨_, rfl, rfl, rfl, rfl⟩
    · exact ⟨state, rfl, rfl, rfl, rfl⟩
  | setPaused t paused =>
    cases hnext
    refine hI.of_kept rfl rfl fun state hstate => ?_
    show ∃ state', ((s.scheduler.setPaused t paused).getD s.scheduler).tenants.lookup tenant = some state' ∧ _
    rw [WFQScheduler.lookup_setPaused, hstate]
    split
    · exact ⟨_, rfl, rfl, rfl, rfl⟩
    · exact ⟨state, rfl, rfl, rfl, rfl⟩
  | wait nanos =>
    cases hnext
    obtain ⟨hle, state, hstate, hp, hcovered⟩ := hI
    have hsecs : (asSecsF64 (s.clock + nanos - clock) : Rat) = asSecsF64 (s.clock - clock) + asSecsF64 nanos := by
      rw [Nat.sub_add_comm hle, asSecsF64_eq, asSecsF64_eq, asSecsF64_eq, Nat.cast_add, add_div]
    refine ⟨Nat.le_add_right_of_le hle, state, hstate, hp, ?_⟩
    show TokenBucket.Covered _ _ (state.held (s.clock + nanos)) _ (asSecsF64 (s.clock + nanos - clock))
    rw [hsecs]
    -- A wait refills the bucket by no more than the rate allows.
    refine hcovered.wait ?_
    rw [← hp]
    exact TenantState.held_wait

theorem Covered.rateCapped (h : s.Covered tenant p clock) : s.RateCapped tenant p clock := by
  obtain ⟨-, state, -, -, hcovered⟩ := h
  have hle := hcovered.spent_le TokenBucket.level_nonneg
  rw [asSecsF64_eq] at hle
  exact hle

/-- While the leftover slots go to others, the token bucket caps the rate of the tenant. -/
theorem rateCapped_of_noLeftover (hpolicy : scheduler.policy tenant = some p)
    (hrun : Run next (fun s call => ¬GivesLeftover tenant s call) (start scheduler clock) s) :
    s.RateCapped tenant p clock :=
  (hrun.invariant covered_of_next (covered_start hpolicy)).rateCapped

/-! ## A standard and a premium tenant -/

def standardTenant : TenantPolicy := (NamespacePolicy.standard "standard").toTenantPolicy "standard"

def premiumTenant : TenantPolicy := (NamespacePolicy.premium "premium").toTenantPolicy "premium"

def oneStandard : WFQScheduler Rat := WFQScheduler.new.register standardTenant 0

def standardAndPremium : WFQScheduler Rat := oneStandard.register premiumTenant 0

/-- The leftover slots go to a tenant without tokens. -/
theorem not_rateCapped : ¬∀ (scheduler : WFQScheduler Rat) (clock : Nat) (tenant : String) (p : TenantPolicy)
    (s : SchedulerRun Rat), scheduler.policy tenant = some p →
      Run next (fun _ _ => True) (start scheduler clock) s → s.RateCapped tenant p clock := by
  intro h
  obtain ⟨s, hs⟩ : ∃ s, (start oneStandard 0).next (.schedule 200) = some s := ⟨_, rfl⟩
  have hgranted : s.granted "standard" = 200 := by
    obtain rfl := Option.some.inj hs
    decide +kernel
  have hclock : s.clock = 0 := by
    obtain rfl := Option.some.inj hs
    rfl
  have hcapped := h oneStandard 0 "standard" standardTenant s (by decide +kernel) (.step .refl trivial hs)
  rw [RateCapped, hgranted, hclock] at hcapped
  exact absurd hcapped (by decide +kernel)

def cappedCalls : List SchedulerCall :=
  [.schedule 600, .release "standard" 100, .setPaused "premium" false, .wait (10 ^ 9), .schedule 60]

/-- The test that a call leaves the standard tenant out of the leftover step. -/
def passesOver (s : SchedulerRun Rat) : SchedulerCall → Bool
  | .schedule totalSlots => s.scheduler.leftoverTo totalSlots s.clock != some "standard"
  | _ => true

theorem not_givesLeftover_of_passesOver {call : SchedulerCall} (h : passesOver s call = true) :
    ¬GivesLeftover "standard" s call := by
  intro hgives
  cases call with
  | schedule totalSlots =>
    obtain ⟨-, -, state, hstate, -⟩ := id hgives
    exact (bne_iff_ne.mp h) ((givesLeftover_iff hstate).mp hgives)
  | release t n => exact hgives
  | setPaused t paused => exact hgives
  | wait nanos => exact hgives

theorem rateCapped_evenShares : ∃ s, execWhile next passesOver (start standardAndPremium 0) cappedCalls = some s ∧
    s.granted "standard" = 110 ∧ s.RateCapped "standard" standardTenant 0 := by
  have hsome : ((execWhile next passesOver (start standardAndPremium 0) cappedCalls).map fun s =>
      s.granted "standard") = some 110 := by decide +kernel
  obtain ⟨s, hs, hgranted⟩ := Option.map_eq_some_iff.mp hsome
  have hpolicy : standardAndPremium.policy "standard" = some standardTenant := by decide +kernel
  refine ⟨s, hs, hgranted, rateCapped_of_noLeftover hpolicy ?_⟩
  exact (run_of_execWhile hs).mono fun _ _ => not_givesLeftover_of_passesOver

end SchedulerRun

end RocksQueue
