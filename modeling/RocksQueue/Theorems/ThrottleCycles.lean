import Mathlib.Algebra.Order.Floor.Semifield
import RocksQueue.Lib.Runs
import RocksQueue.Throttle

/-! # Throttle and release

A throttle rewrites three fields of the scheduler's policy and remembers one of them, and the release
restores two from that one. So the policy comes back only when those two were equal and the third was not
changed, and otherwise each cycle reduces `max_inflight` again. -/

namespace RocksQueue

variable {R : Type} [F64 R]

/-- The throttle and the release between them leave this policy as it was. -/
def ThrottleConfig.Restores (c : ThrottleConfig R) (policy : TenantPolicy) : Prop :=
  policy.burstTokens = policy.ratePerSec ∧ c.reduce u64Size policy.maxInflight = policy.maxInflight

theorem ThrottleConfig.restores_iff {c : ThrottleConfig R} {policy : TenantPolicy} :
    (c.throttledPolicy policy).released policy.ratePerSec = policy ↔ c.Restores policy := by
  obtain ⟨tenantId, weight, maxInflight, burstTokens, ratePerSec⟩ := policy
  simp only [TenantPolicy.released, throttledPolicy, Restores, TenantPolicy.mk.injEq, true_and, and_true]
  constructor
  · rintro ⟨hinflight, hburst⟩
    exact ⟨hburst.symm, hinflight⟩
  · rintro ⟨hburst, hinflight⟩
    exact ⟨hinflight, hburst.symm⟩

namespace AutoThrottle

/-- What happens to the throttle: one round of `evaluate`, a forced release, or anything that the others do
    to what it shares with them. -/
inductive Event (R : Type) where
  | round (stats : TenantStats R) (now instant : Nat)
  | forceRelease (tenant : String) (instant : Nat)
  | elsewhere (scheduler : WFQScheduler R) (baselines : BaselineRegistry R) (store : Database R)

def next (a : AutoThrottle R) : Event R → Option (AutoThrottle R)
  | .round stats now instant => some (a.evaluateOne stats now instant)
  | .forceRelease tenant instant => some (a.forceRelease tenant instant)
  | .elsewhere scheduler baselines store => some { a with scheduler := scheduler, baselines := baselines, store := store }

/-- The operator leaves the tenant's policy alone. -/
def LeavesPolicy (tenant : String) (a : AutoThrottle R) : Event R → Prop
  | .elsewhere scheduler _ _ => scheduler.policy tenant = a.scheduler.policy tenant
  | _ => True

/-- A whole `evaluate` is a run of its rounds. -/
theorem run_evaluate {tenant : String} {a : AutoThrottle R} {allStats : List (TenantStats R)} {now instant : Nat} :
    Runs.Run next (LeavesPolicy tenant) a (a.evaluate allStats now instant) := by
  induction allStats generalizing a with
  | nil => exact .refl
  | cons stats rest ih => exact Runs.Run.head (l := .round stats now instant) trivial rfl ih

section Cycles
variable {a b c d : AutoThrottle R} {e e' : Event R} {tenant : String} {policy : TenantPolicy}

/-- There is a throttle on the tenant. -/
def Throttled (a : AutoThrottle R) (tenant : String) : Prop := a.states.lookup tenant ≠ none

/-- The tenant is free and has this policy. -/
structure Free (a : AutoThrottle R) (tenant : String) (policy : TenantPolicy) : Prop where
  state : a.states.lookup tenant = none
  policy : a.scheduler.policy tenant = some policy

/-- The tenant is under a throttle that was applied to this policy. -/
structure Reduced (a : AutoThrottle R) (tenant : String) (policy : TenantPolicy) : Prop where
  state : ∃ st, a.states.lookup tenant = some st ∧ st.throttled = true ∧ st.originalRate = policy.ratePerSec
  policy : a.scheduler.policy tenant = some (a.config.throttledPolicy policy)

/-- What an event does to one tenant. -/
inductive Move (a b : AutoThrottle R) (tenant : String) : Prop where
  | kept (state : b.states.lookup tenant = a.states.lookup tenant)
      (policy : b.scheduler.policy tenant = a.scheduler.policy tenant)
  | throttled (p : TenantPolicy) (free : ¬∃ st, a.states.lookup tenant = some st ∧ st.throttled = true)
      (before : a.scheduler.policy tenant = some p) (after : Reduced b tenant p)
  | released (st : ThrottleState) (before : a.states.lookup tenant = some st) (after : b.states.lookup tenant = none)
      (policy : b.scheduler.policy tenant = (a.scheduler.policy tenant).map fun p => p.released st.originalRate)

theorem move_applyThrottle {t reason : String} {now instant : Nat}
    (hfree : ¬∃ st, a.states.lookup t = some st ∧ st.throttled = true) :
    Move a (a.applyThrottle t reason now instant) tenant := by
  cases hpolicy : a.scheduler.policy t with
  | none =>
    rw [applyThrottle_unknown hpolicy]
    exact .kept rfl rfl
  | some p =>
    by_cases ht : tenant = t
    · subst ht
      refine .throttled p hfree hpolicy ⟨⟨_, by rw [states_applyThrottle hpolicy, if_pos rfl], rfl, rfl⟩, ?_⟩
      rw [policy_applyThrottle, if_pos rfl, hpolicy, config_applyThrottle]
      rfl
    · refine .kept (states_applyThrottle_of_ne ht) ?_
      rw [policy_applyThrottle, if_neg ht]

theorem move_releaseThrottle {t : String} {st : ThrottleState} {instant : Nat} (hstate : a.states.lookup t = some st) :
    Move a (a.releaseThrottle t st.originalRate instant) tenant := by
  by_cases ht : tenant = t
  · subst ht
    refine .released st hstate ?_ ?_
    · rw [states_releaseThrottle, if_pos rfl]
    · rw [policy_releaseThrottle, if_pos rfl]
  · refine .kept ?_ ?_
    · rw [states_releaseThrottle, if_neg ht]
    · rw [policy_releaseThrottle, if_neg ht]

theorem move_of_next (h : a.next e = some b) (hok : LeavesPolicy tenant a e) : Move a b tenant := by
  cases e with
  | round stats now instant =>
    cases h
    unfold evaluateOne
    split
    · rename_i existing hexisting
      obtain ⟨hstate, -⟩ := Option.filter_eq_some_iff.mp hexisting
      split
      · exact move_releaseThrottle hstate
      · exact .kept rfl rfl
    · rename_i hnone
      split
      · refine move_applyThrottle ?_
        rintro ⟨st, hst, hthrottled⟩
        rw [hst] at hnone
        simp [Option.filter, hthrottled] at hnone
      · exact .kept rfl rfl
  | forceRelease t instant =>
    cases h
    unfold forceRelease
    split
    · rename_i st hstate
      exact move_releaseThrottle hstate
    · exact .kept rfl rfl
  | elsewhere scheduler baselines store =>
    cases h
    exact .kept rfl hok

theorem config_next (h : a.next e = some b) : b.config = a.config := by
  cases e with
  | round stats now instant =>
    cases h
    unfold evaluateOne
    split
    · split <;> rfl
    · split
      · exact config_applyThrottle
      · rfl
  | forceRelease t instant =>
    cases h
    unfold forceRelease
    split <;> rfl
  | elsewhere scheduler baselines store =>
    cases h
    rfl

/-- A throttle stays as it is until it is released. -/
theorem Reduced.next (hr : Reduced a tenant policy) (h : a.next e = some b) (hok : LeavesPolicy tenant a e) :
    Reduced b tenant policy ∨
      b.states.lookup tenant = none ∧
        b.scheduler.policy tenant = some ((a.config.throttledPolicy policy).released policy.ratePerSec) := by
  obtain ⟨st, hstate, hthrottled, hrate⟩ := hr.state
  cases move_of_next h hok with
  | kept hstate' hpolicy' =>
    refine Or.inl ⟨⟨st, hstate'.trans hstate, hthrottled, hrate⟩, ?_⟩
    rw [hpolicy', hr.policy, config_next h]
  | throttled p hfree _ _ => exact absurd ⟨st, hstate, hthrottled⟩ hfree
  | released st' hstate' hgone hpolicy' =>
    obtain rfl : st = st' := Option.some.inj (hstate.symm.trans hstate')
    refine Or.inr ⟨hgone, ?_⟩
    rw [hpolicy', hr.policy, hrate]
    rfl

/-- A tenant that is free stays so, with its policy, until it is throttled. -/
theorem Free.next (hf : Free a tenant policy) (h : a.next e = some b) (hok : LeavesPolicy tenant a e) :
    Free b tenant policy ∨ Reduced b tenant policy := by
  cases move_of_next h hok with
  | kept hstate hpolicy => exact Or.inl ⟨hstate.trans hf.state, hpolicy.trans hf.policy⟩
  | throttled p _ hpolicy hr =>
    obtain rfl : policy = p := Option.some.inj (hf.policy.symm.trans hpolicy)
    exact Or.inr hr
  | released st hstate _ _ =>
    rw [hf.state] at hstate
    cases hstate

theorem config_run {ok : AutoThrottle R → Event R → Prop} (h : Runs.Run AutoThrottle.next ok a b) : b.config = a.config := by
  induction h with
  | refl => rfl
  | step _ _ hn ih => exact (config_next hn).trans ih

/-- The run keeps the tenant throttled. -/
def StaysThrottled (tenant : String) (a : AutoThrottle R) (e : Event R) : Prop :=
  LeavesPolicy tenant a e ∧ ∀ b, a.next e = some b → Throttled b tenant

/-- One cycle: the tenant is free, an event throttles it, it stays so for a while, and an event releases it. -/
structure Cycle (tenant : String) (a d : AutoThrottle R) : Prop where
  free : a.states.lookup tenant = none
  run : ∃ b c e e', a.next e = some b ∧ LeavesPolicy tenant a e ∧ Throttled b tenant ∧
    Runs.Run AutoThrottle.next (StaysThrottled tenant) b c ∧ c.next e' = some d ∧ LeavesPolicy tenant c e'
  released : d.states.lookup tenant = none

theorem Reduced.run (hr : Reduced a tenant policy) (h : Runs.Run AutoThrottle.next (StaysThrottled tenant) a b) :
    Reduced b tenant policy := by
  refine h.invariant (I := fun a => Reduced a tenant policy) (fun {c e d} hc hok hn => ?_) hr
  rcases hc.next hn hok.1 with hd | ⟨hgone, _⟩
  · exact hd
  · exact absurd hgone (hok.2 d hn)

/-- What a cycle leaves of the policy. -/
theorem policy_of_cycle (h : Cycle tenant a d) (hpolicy : a.scheduler.policy tenant = some policy) :
    d.scheduler.policy tenant = some ((a.config.throttledPolicy policy).released policy.ratePerSec) := by
  obtain ⟨b, c, e, e', hab, hok, hb, hbc, hcd, hok'⟩ := h.run
  have hreduced : Reduced b tenant policy := by
    rcases Free.next ⟨h.free, hpolicy⟩ hab hok with hfree | hreduced
    · exact absurd hfree.state hb
    · exact hreduced
  have hconfig : c.config = a.config := (config_run hbc).trans (config_next hab)
  rcases (hreduced.run hbc).next hcd hok' with hd | ⟨_, hd⟩
  · obtain ⟨st, hst, -⟩ := hd.state
    rw [h.released] at hst
    cases hst
  · rwa [hconfig] at hd

/-- A policy that the release restores comes back after any number of cycles. -/
theorem free_or_reduced_of_run (hf : Free a tenant policy) (hrestores : a.config.Restores policy)
    (h : Runs.Run AutoThrottle.next (LeavesPolicy tenant) a b) : Free b tenant policy ∨ Reduced b tenant policy := by
  have hall : (Free b tenant policy ∨ Reduced b tenant policy) ∧ b.config = a.config := by
    refine h.invariant (I := fun b => (Free b tenant policy ∨ Reduced b tenant policy) ∧ b.config = a.config)
      (fun {c e d} hc hok hn => ⟨?_, (config_next hn).trans hc.2⟩) ⟨Or.inl hf, rfl⟩
    rcases hc.1 with hfree | hreduced
    · exact hfree.next hn hok
    · rcases hreduced.next hn hok with hd | ⟨hgone, hpolicy⟩
      · exact Or.inr hd
      · rw [hc.2, ThrottleConfig.restores_iff.mpr hrestores] at hpolicy
        exact Or.inl ⟨hgone, hpolicy⟩
  exact hall.1

/-- Every run returns to the policy it began with if the release restores that policy, and each cycle gives
    back the policy it began with exactly then. -/
theorem released_policy_iff (hf : Free a tenant policy) :
    (a.config.Restores policy → ∀ b, Runs.Run AutoThrottle.next (LeavesPolicy tenant) a b →
        b.states.lookup tenant = none → b.scheduler.policy tenant = some policy) ∧
      ∀ d, Cycle tenant a d → (d.scheduler.policy tenant = some policy ↔ a.config.Restores policy) := by
  refine ⟨fun hrestores b hrun hstate => ?_, fun d hcycle => ?_⟩
  · rcases free_or_reduced_of_run hf hrestores hrun with hfree | hreduced
    · exact hfree.policy
    · obtain ⟨st, hst, -⟩ := hreduced.state
      rw [hstate] at hst
      cases hst
  · rw [policy_of_cycle hcycle hf.policy, Option.some.injEq, ThrottleConfig.restores_iff]

end Cycles

/-! ## In exact arithmetic -/

section Exact

theorem reduce_default (n : Nat) : (ThrottleConfig.default : ThrottleConfig Rat).reduce u64Size n = min (n / 4) (u64Size - 1) := by
  have hquarter : ((n : Rat) * 0.25) = (n : Rat) / (4 : Nat) := by
    norm_num
    ring
  have hreduce : (ThrottleConfig.default : ThrottleConfig Rat).reduce u64Size n = min ⌊(n : Rat) * 0.25⌋₊ (u64Size - 1) := rfl
  rw [hreduce, hquarter, Nat.floor_div_eq_div]

/-- With a quarter of the inflight limit taken at each throttle, only a limit of zero comes back. -/
theorem restores_default_iff {policy : TenantPolicy} : (ThrottleConfig.default : ThrottleConfig Rat).Restores policy ↔
    policy.burstTokens = policy.ratePerSec ∧ policy.maxInflight = 0 := by
  rw [ThrottleConfig.Restores, reduce_default]
  refine and_congr_right fun _ => ⟨fun h => ?_, fun h => by simp [h]⟩
  have hle : policy.maxInflight ≤ policy.maxInflight / 4 := h.symm.le.trans (min_le_left _ _)
  omega

/-- A server with one tenant, which has this policy. -/
def oneTenant (policy : TenantPolicy) : AutoThrottle Rat where
  config := .default
  states := .empty
  scheduler := WFQScheduler.new.register policy 0
  baselines := .empty
  store := ⟨some .empty, ∅⟩

/-- The standard policy, throttled for a burst and released by force. -/
def throttledOnce (policy : TenantPolicy) : AutoThrottle Rat :=
  ((oneTenant policy).evaluateOne { TenantStats.new policy.tenantId 0 with burstScore := 6 } 0 0).forceRelease policy.tenantId 0

def standardPolicy : TenantPolicy := (NamespacePolicy.standard "t").toTenantPolicy "t"

theorem cycle_throttledOnce (policy : TenantPolicy)
    (hfree : (oneTenant policy).states.lookup policy.tenantId = none)
    (hthrottled : ((oneTenant policy).evaluateOne { TenantStats.new policy.tenantId 0 with burstScore := 6 } 0 0).states.lookup
      policy.tenantId ≠ none)
    (hreleased : (throttledOnce policy).states.lookup policy.tenantId = none) :
    Cycle policy.tenantId (oneTenant policy) (throttledOnce policy) :=
  ⟨hfree, ⟨_, _, .round _ 0 0, .forceRelease policy.tenantId 0, rfl, trivial, hthrottled, .refl, rfl, trivial⟩, hreleased⟩

theorem not_released_policy : ¬∀ (a : AutoThrottle Rat) (tenant : String) (policy : TenantPolicy),
    Free a tenant policy → ∀ d, Cycle tenant a d → d.scheduler.policy tenant = some policy := by
  intro h
  have hcycle : Cycle "t" (oneTenant standardPolicy) (throttledOnce standardPolicy) :=
    cycle_throttledOnce standardPolicy (by decide +kernel) (by decide +kernel) (by decide +kernel)
  have hpolicy := h _ _ standardPolicy ⟨by decide +kernel, by decide +kernel⟩ _ hcycle
  have hreduced : (throttledOnce standardPolicy).scheduler.policy "t" = some { standardPolicy with maxInflight := 125 } := by
    decide +kernel
  rw [hreduced] at hpolicy
  exact absurd hpolicy (by decide)

/-- Five cycles leave a tenant that may have nothing inflight. -/
example : (fun n => (ThrottleConfig.default : ThrottleConfig Rat).reduce u64Size n)^[5] 500 = 0 := by decide +kernel

/-- The standard policy without any inflight allowance. -/
def blockedPolicy : TenantPolicy := { standardPolicy with maxInflight := 0 }

theorem released_policy_blocked :
    ∃ d, Cycle "t" (oneTenant blockedPolicy) d ∧ d.scheduler.policy "t" = some blockedPolicy := by
  have hcycle : Cycle "t" (oneTenant blockedPolicy) (throttledOnce blockedPolicy) :=
    cycle_throttledOnce blockedPolicy (by decide +kernel) (by decide +kernel) (by decide +kernel)
  have hfree : Free (oneTenant blockedPolicy) "t" blockedPolicy := ⟨by decide +kernel, by decide +kernel⟩
  exact ⟨_, hcycle, ((released_policy_iff hfree).2 _ hcycle).mpr (restores_default_iff.mpr ⟨rfl, rfl⟩)⟩

end Exact

end AutoThrottle

end RocksQueue
