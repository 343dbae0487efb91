import RocksQueue.Lib.Interleaving
import RocksQueue.Throttle

/-! # Concurrent calls on the throttle

`evaluate` of the daemon, `force_release` of an operator and `UpdatePolicy`, taken apart at their steps: each
policy that is read from the scheduler or set there, and each call on `states` or on the store, is one step.
The calls on `states` are taken to complete. -/

namespace RocksQueue

/-- What the calls share. `latest` has the policy of the last `UpdatePolicy` for each tenant, and no step reads it. -/
structure ThrottleShared (R : Type) where
  throttle : AutoThrottle R
  latest : String → Option TenantPolicy

inductive ThrottleRequest (R : Type) where
  | evaluate (allStats : List (TenantStats R)) (now : Nat)
  | forceRelease (tenantId : String)
  | updatePolicy (policy : TenantPolicy)

/-- Where `release_throttle` returns to: the loop of `evaluate`, or the end of the call. -/
inductive ReleaseReturn (R : Type) where
  | round (todo : List (TenantStats R)) (now : Nat)
  | returned

/-- Where a call stands. A policy is read under the id that it has, so the frames keep the policy only. -/
inductive ThrottleFrame (R : Type) where
  | round (todo : List (TenantStats R)) (now : Nat)
  | applyRead (tenantId reason : String) (todo : List (TenantStats R)) (now : Nat)
  | applyWrite (policy : TenantPolicy) (reason : String) (todo : List (TenantStats R)) (now : Nat)
  | applyPersist (state : ThrottleState) (todo : List (TenantStats R)) (now : Nat)
  | applyInsert (state : ThrottleState) (todo : List (TenantStats R)) (now : Nat)
  | forceGet (tenantId : String)
  | forceClear (tenantId : String)
  | releaseRead (tenantId : String) (originalRate : Nat) (ret : ReleaseReturn R)
  | releaseWrite (policy : TenantPolicy) (ret : ReleaseReturn R)
  | releaseClear (tenantId : String) (ret : ReleaseReturn R)
  | releaseRemove (tenantId : String) (ret : ReleaseReturn R)
  | updatePolicy (policy : TenantPolicy)
  | returned

/-- The baselines as the daemon finds them, and the monotonic clock. -/
structure ThrottleInput (R : Type) where
  baselines : BaselineRegistry R
  instant : Nat

variable {R : Type} [F64 R]

namespace ThrottleShared

def setPolicy (s : ThrottleShared R) (policy : TenantPolicy) (instant : Nat) : ThrottleShared R :=
  { s with throttle := { s.throttle with scheduler := s.throttle.scheduler.updatePolicy policy instant } }

def setStore (s : ThrottleShared R) (store : Database R) : ThrottleShared R :=
  { s with throttle := { s.throttle with store := store } }

def setStates (s : ThrottleShared R) (states : IdMap ThrottleState.tenantId) : ThrottleShared R :=
  { s with throttle := { s.throttle with states := states } }

def complete (s : ThrottleShared R) (policy : TenantPolicy) : ThrottleShared R :=
  { s with latest := fun t => if t = policy.tenantId then some policy else s.latest t }

end ThrottleShared

def ReleaseReturn.frame : ReleaseReturn R → ThrottleFrame R
  | .round todo now => .round todo now
  | .returned => .returned

namespace ThrottleFrame

def start : ThrottleRequest R → ThrottleFrame R
  | .evaluate allStats now => .round allStats now
  | .forceRelease tenantId => .forceGet tenantId
  | .updatePolicy policy => .updatePolicy policy

/-- The decision at the head of a round of `evaluate`. -/
def decide (a : AutoThrottle R) (stats : TenantStats R) (todo : List (TenantStats R)) (now : Nat) : ThrottleFrame R :=
  match (a.states.lookup stats.tenantId).filter ThrottleState.throttled with
  | some existing =>
    if a.releaseDue existing stats now then .releaseRead stats.tenantId existing.originalRate (.round todo now)
    else .round todo now
  | none => if a.shouldThrottle stats then .applyRead stats.tenantId (a.reason stats) todo now else .round todo now

def step (s : ThrottleShared R) (f : ThrottleFrame R) (input : ThrottleInput R) :
    Option (ThrottleShared R × ThrottleFrame R) :=
  let a := s.throttle
  match f with
  | .round [] _ => some (s, .returned)
  | .round (stats :: todo) now => some (s, decide { a with baselines := input.baselines } stats todo now)
  | .applyRead tenantId reason todo now =>
    match a.scheduler.policy tenantId with
    | some policy => some (s, .applyWrite policy reason todo now)
    | none => some (s, .round todo now)
  | .applyWrite policy reason todo now =>
    some (s.setPolicy (a.config.throttledPolicy policy) input.instant,
      .applyPersist (a.config.throttleState policy.tenantId reason policy.ratePerSec now) todo now)
  | .applyPersist state todo now => some (s.setStore (a.store.persistThrottle state.persisted), .applyInsert state todo now)
  | .applyInsert state todo now => some (s.setStates (a.states.insert state), .round todo now)
  | .forceGet tenantId =>
    match a.states.lookup tenantId with
    | some state => some (s, .releaseRead tenantId state.originalRate .returned)
    | none => some (s, .forceClear tenantId)
  | .forceClear tenantId => some (s.setStore (a.store.clearThrottle tenantId), .returned)
  | .releaseRead tenantId originalRate ret =>
    match a.scheduler.policy tenantId with
    | some policy => some (s, .releaseWrite (policy.released originalRate) ret)
    | none => some (s, .releaseClear tenantId ret)
  | .releaseWrite policy ret => some (s.setPolicy policy input.instant, .releaseClear policy.tenantId ret)
  | .releaseClear tenantId ret => some (s.setStore (a.store.clearThrottle tenantId), .releaseRemove tenantId ret)
  | .releaseRemove tenantId ret => some (s.setStates (a.states.erase tenantId), ret.frame)
  | .updatePolicy policy => some ((s.setPolicy policy input.instant).complete policy, .returned)
  | .returned => none

end ThrottleFrame

open Interleaving in
/-- Any number of calls, which only the scheduler's locks keep apart. -/
def throttleSystem : System (ThrottleShared R) (ThrottleFrame R) (ThrottleRequest R) (ThrottleInput R) where
  start := ThrottleFrame.start
  step s _ f input := f.step s input
  env s := s

/-! ## Undisturbed calls -/

section Solo
open Interleaving

variable {a : AutoThrottle R} {latest : String → Option TenantPolicy} {i now instant : Nat} {tenant : String}

/-- A release alone does what `release_throttle` does. -/
theorem solo_releaseThrottle {rate : Nat} {ret : ReleaseReturn R} :
    throttleSystem.Solo i ⟨a, latest⟩ (.releaseRead tenant rate ret) ⟨a.releaseThrottle tenant rate instant, latest⟩ ret.frame := by
  cases hpolicy : a.scheduler.policy tenant with
  | none =>
    have hread : throttleSystem.step ⟨a, latest⟩ i (.releaseRead tenant rate ret) ⟨a.baselines, instant⟩ =
        some (⟨a, latest⟩, .releaseClear tenant ret) := by simp only [throttleSystem, ThrottleFrame.step, hpolicy]
    have hend : a.releaseThrottle tenant rate instant =
        { a with store := a.store.clearThrottle tenant, states := a.states.erase tenant } := by
      simp only [AutoThrottle.releaseThrottle, hpolicy]
    rw [hend]
    exact .step hread (.step (a := ⟨a.baselines, instant⟩) rfl (.step (a := ⟨a.baselines, instant⟩) rfl .refl))
  | some policy =>
    have hpolicyId : policy.tenantId = tenant := WFQScheduler.tenantId_of_policy hpolicy
    have hid : (policy.released rate).tenantId = tenant := hpolicyId
    have hread : throttleSystem.step ⟨a, latest⟩ i (.releaseRead tenant rate ret) ⟨a.baselines, instant⟩ =
        some (⟨a, latest⟩, .releaseWrite (policy.released rate) ret) := by
      simp only [throttleSystem, ThrottleFrame.step, hpolicy]
    have hend : a.releaseThrottle tenant rate instant =
        { a with
          scheduler := a.scheduler.updatePolicy (policy.released rate) instant
          store := a.store.clearThrottle (policy.released rate).tenantId
          states := a.states.erase (policy.released rate).tenantId } := by
      simp only [AutoThrottle.releaseThrottle, hpolicy, hid]
    rw [hend]
    exact .step hread (.step (a := ⟨a.baselines, instant⟩) rfl
      (.step (a := ⟨a.baselines, instant⟩) rfl (.step (a := ⟨a.baselines, instant⟩) rfl .refl)))

theorem solo_applyThrottle {reason : String} {todo : List (TenantStats R)} :
    throttleSystem.Solo i ⟨a, latest⟩ (.applyRead tenant reason todo now)
      ⟨a.applyThrottle tenant reason now instant, latest⟩ (.round todo now) := by
  cases hpolicy : a.scheduler.policy tenant with
  | none =>
    have hread : throttleSystem.step ⟨a, latest⟩ i (.applyRead tenant reason todo now) ⟨a.baselines, instant⟩ =
        some (⟨a, latest⟩, .round todo now) := by simp only [throttleSystem, ThrottleFrame.step, hpolicy]
    rw [AutoThrottle.applyThrottle_unknown hpolicy]
    exact .step hread .refl
  | some policy =>
    have hid : policy.tenantId = tenant := WFQScheduler.tenantId_of_policy hpolicy
    have hread : throttleSystem.step ⟨a, latest⟩ i (.applyRead tenant reason todo now) ⟨a.baselines, instant⟩ =
        some (⟨a, latest⟩, .applyWrite policy reason todo now) := by simp only [throttleSystem, ThrottleFrame.step, hpolicy]
    have hend : a.applyThrottle tenant reason now instant =
        { a with
          scheduler := a.scheduler.updatePolicy (a.config.throttledPolicy policy) instant
          store := a.store.persistThrottle (a.config.throttleState policy.tenantId reason policy.ratePerSec now).persisted
          states := a.states.insert (a.config.throttleState policy.tenantId reason policy.ratePerSec now) } := by
      simp only [AutoThrottle.applyThrottle, hpolicy, hid]
    rw [hend]
    exact .step hread (.step (a := ⟨a.baselines, instant⟩) rfl
      (.step (a := ⟨a.baselines, instant⟩) rfl (.step (a := ⟨a.baselines, instant⟩) rfl .refl)))

theorem solo_evaluate {allStats : List (TenantStats R)} :
    throttleSystem.Solo i ⟨a, latest⟩ (.round allStats now) ⟨a.evaluate allStats now instant, latest⟩ .returned := by
  induction allStats generalizing a with
  | nil => exact .step (a := ⟨a.baselines, instant⟩) rfl .refl
  | cons stats todo ih =>
    have hdecide : throttleSystem.step ⟨a, latest⟩ i (.round (stats :: todo) now) ⟨a.baselines, instant⟩ =
        some (⟨a, latest⟩, .decide a stats todo now) := rfl
    refine .step hdecide (.trans ?_ (ih (a := a.evaluateOne stats now instant)))
    unfold ThrottleFrame.decide AutoThrottle.evaluateOne
    cases (a.states.lookup stats.tenantId).filter ThrottleState.throttled with
    | some existing =>
      by_cases hdue : a.releaseDue existing stats now = true
      · simp only [if_pos hdue]
        exact solo_releaseThrottle
      · simp only [if_neg hdue]
        exact .refl
    | none =>
      by_cases hthrottle : a.shouldThrottle stats = true
      · simp only [if_pos hthrottle]
        exact solo_applyThrottle
      · simp only [if_neg hthrottle]
        exact .refl

theorem solo_forceRelease :
    throttleSystem.Solo i ⟨a, latest⟩ (.forceGet tenant) ⟨a.forceRelease tenant instant, latest⟩ .returned := by
  cases hstate : a.states.lookup tenant with
  | none =>
    have hget : throttleSystem.step ⟨a, latest⟩ i (.forceGet tenant) ⟨a.baselines, instant⟩ =
        some (⟨a, latest⟩, .forceClear tenant) := by simp only [throttleSystem, ThrottleFrame.step, hstate]
    have hend : a.forceRelease tenant instant = { a with store := a.store.clearThrottle tenant } := by
      simp only [AutoThrottle.forceRelease, hstate]
    rw [hend]
    exact .step hget (.step (a := ⟨a.baselines, instant⟩) rfl .refl)
  | some state =>
    have hget : throttleSystem.step ⟨a, latest⟩ i (.forceGet tenant) ⟨a.baselines, instant⟩ =
        some (⟨a, latest⟩, .releaseRead tenant state.originalRate .returned) := by
      simp only [throttleSystem, ThrottleFrame.step, hstate]
    have hend : a.forceRelease tenant instant = a.releaseThrottle tenant state.originalRate instant := by
      simp only [AutoThrottle.forceRelease, hstate]
    rw [hend]
    exact .step hget solo_releaseThrottle

end Solo

end RocksQueue
