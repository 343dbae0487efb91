import RocksQueue.Throttle

/-! # Auto-release and its own guard

`evaluate` keeps the `Ref` that it got for a tenant while it releases that tenant's throttle, and the release
removes the tenant from the same map. So it waits for itself as soon as one release falls due. -/

namespace RocksQueue
namespace AutoThrottle

variable {R : Type} [F64 R] {σ : Type} [DecidableEq σ] {shard : String → σ} {a : AutoThrottle R}
  {stats : TenantStats R} {tenant : String} {now instant : Nat}

/-- When the cooldown of the throttle in force ends. -/
def cooldown (a : AutoThrottle R) (tenant : String) : Option Nat :=
  ((a.states.lookup tenant).filter ThrottleState.throttled).map ThrottleState.cooldownUntilMs

/-- The tenant is throttled when its statistics are evaluated. -/
def throttles (a : AutoThrottle R) (stats : TenantStats R) : Bool :=
  a.shouldThrottle stats && (a.scheduler.policy stats.tenantId).isSome

/-- When the cooldown ends of the throttle that `evaluate` finds for a tenant once it has been through
    `earlier`: it is one that was there before, or one that it has just applied. -/
def cooldownAfter (a : AutoThrottle R) (now : Nat) (earlier : List (TenantStats R)) (tenant : String) : Option Nat :=
  match a.cooldown tenant with
  | some deadline => some deadline
  | none =>
    if earlier.any fun s => s.tenantId = tenant && a.throttles s then some ((now + a.config.cooldownSecs * 1000) % u64Size)
    else none

/-- The throttle of a tenant is due for release when its turn comes after `earlier`. -/
def DueAfter (a : AutoThrottle R) (now : Nat) (earlier : List (TenantStats R)) (stats : TenantStats R) : Prop :=
  ∃ deadline, a.cooldownAfter now earlier stats.tenantId = some deadline ∧ deadline ≤ now ∧ a.calm stats = true

/-! ## One round -/

theorem runsThrough_append_apply {calls : List StatesCall} :
    runsThrough shard [] ((if a.shouldThrottle stats then a.applyThrottleCalls tenant else []) ++ calls) =
      runsThrough shard [] calls := by
  simp only [applyThrottleCalls]
  split
  · split <;> rfl
  · rfl

/-- A round runs through, and gives its `Ref` back, unless it releases the throttle. -/
theorem runsThrough_evaluateOneCalls {calls : List StatesCall} :
    runsThrough shard [] (a.evaluateOneCalls stats now ++ calls) = true ↔
      ¬a.DueAfter now [] stats ∧ runsThrough shard [] calls = true := by
  have happly : runsThrough shard []
      ((if a.shouldThrottle stats then a.applyThrottleCalls stats.tenantId else []) ++ calls) = runsThrough shard [] calls :=
    runsThrough_append_apply
  simp only [evaluateOneCalls, DueAfter, cooldownAfter, cooldown]
  cases hlookup : a.states.lookup stats.tenantId with
  | none => simp [runsThrough, happly]
  | some existing =>
    cases hthrottled : existing.throttled with
    | false => simp [runsThrough, happly, Option.filter, hthrottled]
    | true =>
      have hdue : a.releaseDue existing stats now = true ↔ existing.cooldownUntilMs ≤ now ∧ a.calm stats = true := by
        simp [releaseDue]
      cases hrelease : a.releaseDue existing stats now with
      | true => simp [runsThrough, releaseThrottleCalls, Option.filter, hthrottled, hrelease, hdue.mp hrelease]
      | false =>
        have hnot : ¬(existing.cooldownUntilMs ≤ now ∧ a.calm stats = true) := fun h => by
          rw [hdue.mpr h] at hrelease
          cases hrelease
        simp [runsThrough, Option.filter, hthrottled, hrelease, hnot]

/-- What a round that releases nothing leaves for the later ones: the configuration and the baselines, which
    tenants the scheduler knows, and the throttles, to which it may add one. -/
structure RoundKeeps (a b : AutoThrottle R) (stats : TenantStats R) (now : Nat) : Prop where
  config : b.config = a.config
  baselines : b.baselines = a.baselines
  known : ∀ t, (b.scheduler.policy t).isSome = (a.scheduler.policy t).isSome
  cooldown : ∀ t, b.cooldown t = a.cooldownAfter now [stats] t

theorem cooldownAfter_nil : a.cooldownAfter now [] tenant = a.cooldown tenant := by
  unfold cooldownAfter
  split
  · rename_i h
    exact h.symm
  · rename_i h
    exact h.symm

theorem roundKeeps_applyThrottle (h : a.throttles stats = true) (hfree : a.cooldown stats.tenantId = none) {reason : String} :
    RoundKeeps a (a.applyThrottle stats.tenantId reason now instant) stats now := by
  have hknown : (a.scheduler.policy stats.tenantId).isSome = true := by
    simp only [throttles, Bool.and_eq_true] at h
    exact h.2
  obtain ⟨policy, hpolicy⟩ := Option.isSome_iff_exists.mp hknown
  have hid : policy.tenantId = stats.tenantId := WFQScheduler.tenantId_of_policy hpolicy
  refine ⟨?_, ?_, fun t => ?_, fun t => ?_⟩
  · simp [applyThrottle, hpolicy]
  · simp [applyThrottle, hpolicy]
  · simp only [applyThrottle, hpolicy, WFQScheduler.policy_updatePolicy, ThrottleConfig.throttledPolicy, hid]
    split
    · rename_i heq
      rw [heq, hpolicy]
      rfl
    · rfl
  · simp only [applyThrottle, hpolicy, cooldown, IdMap.lookup_insert, ThrottleConfig.throttleState]
    by_cases ht : t = stats.tenantId
    · subst ht
      simp [cooldownAfter, hfree, h, Option.filter]
    · have hcooldown : a.cooldownAfter now [stats] t = a.cooldown t := by
        unfold cooldownAfter
        split
        · rename_i heq
          exact heq.symm
        · rename_i heq
          simp [Ne.symm ht, heq]
      simp [ht, hcooldown, cooldown]

/-- Without a throttle on the tenant, or a throttling signal, the round changes nothing. -/
theorem roundKeeps_refl (h : a.cooldown stats.tenantId ≠ none ∨ a.throttles stats = false) : RoundKeeps a a stats now := by
  refine ⟨rfl, rfl, fun _ => rfl, fun t => ?_⟩
  unfold cooldownAfter
  split
  · rename_i heq
    exact heq
  · rename_i heq
    rcases h with h | h
    · have hne : ¬stats.tenantId = t := by
        rintro rfl
        exact h heq
      simp [hne, heq]
    · simp [h, heq]

theorem roundKeeps_evaluateOne (instant : Nat) (h : ¬a.DueAfter now [] stats) :
    RoundKeeps a (a.evaluateOne stats now instant) stats now := by
  simp only [DueAfter, cooldownAfter_nil, cooldown] at h
  unfold evaluateOne
  split
  · rename_i existing hexisting
    have hnot : a.releaseDue existing stats now = false := by
      cases hdue : a.releaseDue existing stats now with
      | false => rfl
      | true =>
        simp only [releaseDue, Bool.and_eq_true, decide_eq_true_eq] at hdue
        exact absurd ⟨existing.cooldownUntilMs, by rw [hexisting]; rfl, hdue⟩ h
    rw [hnot]
    refine roundKeeps_refl (Or.inl ?_)
    simp [cooldown, hexisting]
  · rename_i hnone
    have hfree : a.cooldown stats.tenantId = none := by simp [cooldown, hnone]
    split
    · rename_i hsignal
      cases hpolicy : a.scheduler.policy stats.tenantId with
      | none =>
        have hsame : a.applyThrottle stats.tenantId (a.reason stats) now instant = a := by simp [applyThrottle, hpolicy]
        rw [hsame]
        exact roundKeeps_refl (Or.inr (by simp [throttles, hpolicy]))
      | some policy => exact roundKeeps_applyThrottle (by simp [throttles, hsignal, hpolicy]) hfree
    · rename_i hsignal
      exact roundKeeps_refl (Or.inr (by simp [throttles, hsignal]))

/-! ## The whole list -/

section Rounds
variable {b : AutoThrottle R} {earlier : List (TenantStats R)} {other : TenantStats R}

theorem RoundKeeps.throttles (h : RoundKeeps a b stats now) : b.throttles other = a.throttles other := by
  simp only [AutoThrottle.throttles, shouldThrottle, h.config, h.baselines, h.known]

theorem RoundKeeps.calm (h : RoundKeeps a b stats now) : b.calm other = a.calm other := by
  simp only [AutoThrottle.calm, h.config, h.baselines]

theorem RoundKeeps.cooldownAfter (h : RoundKeeps a b stats now) :
    b.cooldownAfter now earlier tenant = a.cooldownAfter now (stats :: earlier) tenant := by
  have hnow := h.cooldown tenant
  simp only [AutoThrottle.cooldownAfter, h.throttles, h.config] at hnow ⊢
  cases hcooldown : a.cooldown tenant with
  | some deadline => simp [hnow, hcooldown]
  | none =>
    simp only [hcooldown, List.any_cons, List.any_nil, Bool.or_false] at hnow
    cases hstats : (decide (stats.tenantId = tenant) && a.throttles stats) with
    | true =>
      simp only [hstats, if_true] at hnow
      simp [hnow, hstats]
    | false =>
      simp only [hstats, Bool.false_eq_true, if_false] at hnow
      simp [hnow, hstats]

theorem RoundKeeps.dueAfter (h : RoundKeeps a b stats now) :
    b.DueAfter now earlier other ↔ a.DueAfter now (stats :: earlier) other := by
  simp only [DueAfter, h.cooldownAfter, h.calm]

end Rounds

/-- `evaluate` runs through exactly if no throttle falls due for release. -/
theorem evaluate_runsThrough_iff {allStats : List (TenantStats R)} :
    runsThrough shard [] (a.evaluateCalls now instant allStats) = true ↔
      ∀ earlier stats later, allStats = earlier ++ stats :: later → ¬a.DueAfter now earlier stats := by
  induction allStats generalizing a with
  | nil => simp [evaluateCalls, runsThrough]
  | cons x rest ih =>
    rw [evaluateCalls, runsThrough_evaluateOneCalls, ih]
    constructor
    · rintro ⟨hx, hrest⟩ earlier stats later heq
      have hkeeps := roundKeeps_evaluateOne instant hx
      cases earlier with
      | nil =>
        obtain ⟨rfl, rfl⟩ := List.cons.inj heq
        exact hx
      | cons y earlier =>
        obtain ⟨rfl, hrest'⟩ := List.cons.inj heq
        exact fun hdue => hrest earlier stats later hrest' (hkeeps.dueAfter.mpr hdue)
    · intro h
      have hx : ¬a.DueAfter now [] x := h [] x rest rfl
      have hkeeps := roundKeeps_evaluateOne instant hx
      refine ⟨hx, fun earlier stats later heq hdue => ?_⟩
      exact h (x :: earlier) stats later (by rw [heq]; rfl) (hkeeps.dueAfter.mp hdue)

/-! ## A release that falls due -/

/-- A tenant with the standard policy, just throttled for a burst at time 0. -/
def justThrottled : AutoThrottle Rat :=
  let start : AutoThrottle Rat :=
    { config := .default
      states := .empty
      scheduler := WFQScheduler.new.register ((NamespacePolicy.standard "t").toTenantPolicy "t") 0
      baselines := .empty
      store := ⟨some .empty, ∅⟩ }
  start.evaluate [{ TenantStats.new "t" 0 with burstScore := 6 }] 0 0

/-- Thirty seconds later the tenant is calm. -/
theorem not_evaluate_runsThrough : ¬∀ (a : AutoThrottle Rat) (now instant : Nat) (allStats : List (TenantStats Rat)),
    runsThrough id [] (a.evaluateCalls now instant allStats) = true := by
  intro h
  have hblocked : runsThrough id [] (justThrottled.evaluateCalls 30000 0 [TenantStats.new "t" 0]) = false := by
    decide +kernel
  exact absurd (h justThrottled 30000 0 _) (by rw [hblocked]; decide)

omit [F64 R] in
/-- The sibling path gives its `Ref` back first. -/
theorem forceRelease_runsThrough : runsThrough shard [] (a.forceReleaseCalls tenant) = true := by
  unfold forceReleaseCalls
  split
  · simp [runsThrough, releaseThrottleCalls]
  · rfl

end AutoThrottle
end RocksQueue
