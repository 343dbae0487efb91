import RocksQueue.Scheduler
import RocksQueue.StatsStore

/-! # Automatic throttling

`throttle.rs`: a noisy tenant's policy is reduced until its signals have calmed down and a cooldown is over.
The calls on `states` are taken to complete here. -/

namespace RocksQueue

structure ThrottleConfig (R : Type) where
  burstThreshold : R
  rateSpikeFactor : R
  backlogThreshold : R
  reductionFactor : R
  minRateFloor : Nat
  cooldownSecs : Nat
  baselineWindowSecs : Nat

structure ThrottleState where
  tenantId : String
  throttled : Bool
  reason : String
  originalRate : Nat
  appliedRate : Nat
  triggeredAtMs : Nat
  cooldownUntilMs : Nat
  deriving DecidableEq, Repr

variable {R : Type} [F64 R]

def ThrottleConfig.default : ThrottleConfig R where
  burstThreshold := 5.0
  rateSpikeFactor := 3.0
  backlogThreshold := 0.85
  reductionFactor := 0.25
  minRateFloor := 5
  cooldownSecs := 30
  baselineWindowSecs := 300

/-- The throttle, with the scheduler, the baselines and the database that it shares with the others. -/
structure AutoThrottle (R : Type) where
  config : ThrottleConfig R
  states : IdMap ThrottleState.tenantId
  scheduler : WFQScheduler R
  baselines : BaselineRegistry R
  store : Database R

def ThrottleState.persisted (s : ThrottleState) : PersistedThrottle where
  tenantId := s.tenantId
  throttled := s.throttled
  reason := s.reason
  originalRate := s.originalRate
  appliedRate := s.appliedRate
  triggeredAtMs := s.triggeredAtMs
  cooldownUntilMs := s.cooldownUntilMs

def PersistedThrottle.state (p : PersistedThrottle) : ThrottleState where
  tenantId := p.tenantId
  throttled := true
  reason := p.reason
  originalRate := p.originalRate
  appliedRate := p.appliedRate
  triggeredAtMs := p.triggeredAtMs
  cooldownUntilMs := p.cooldownUntilMs

namespace ThrottleConfig

/-- `(n as f64 * reduction_factor) as u32` or `as usize`. -/
def reduce (c : ThrottleConfig R) (size n : Nat) : Nat := F64.toUnsigned size (F64.ofNat n * c.reductionFactor)

def appliedRate (c : ThrottleConfig R) (originalRate : Nat) : Nat :=
  max (c.reduce u32Size originalRate) c.minRateFloor

/-- The policy that `apply_throttle` installs. -/
def throttledPolicy (c : ThrottleConfig R) (policy : TenantPolicy) : TenantPolicy :=
  { policy with
    ratePerSec := c.appliedRate policy.ratePerSec
    burstTokens := max (c.appliedRate policy.ratePerSec) 1
    maxInflight := c.reduce u64Size policy.maxInflight }

/-- The state that `apply_throttle` records; the sum wraps in a release build. -/
def throttleState (c : ThrottleConfig R) (tenantId reason : String) (originalRate now : Nat) : ThrottleState where
  tenantId := tenantId
  throttled := true
  reason := reason
  originalRate := originalRate
  appliedRate := c.appliedRate originalRate
  triggeredAtMs := now
  cooldownUntilMs := (now + c.cooldownSecs * 1000) % u64Size

end ThrottleConfig

/-- The policy that `restore_from_store` reinstates. -/
def PersistedThrottle.reapplied (p : PersistedThrottle) (policy : TenantPolicy) : TenantPolicy :=
  { policy with ratePerSec := p.appliedRate, burstTokens := max p.appliedRate 1 }

/-- The policy that `release_throttle` installs. -/
def TenantPolicy.released (policy : TenantPolicy) (originalRate : Nat) : TenantPolicy :=
  { policy with ratePerSec := originalRate, burstTokens := originalRate }

namespace AutoThrottle

/-- One round of the loop of `restore_from_store`. -/
def restoreOne (a : AutoThrottle R) (p : PersistedThrottle) (now instant : Nat) : AutoThrottle R :=
  if p.throttled then
    if now < p.cooldownUntilMs then
      let scheduler :=
        match a.scheduler.policy p.tenantId with
        | some policy => a.scheduler.updatePolicy (p.reapplied policy) instant
        | none => a.scheduler
      { a with scheduler := scheduler, states := a.states.insert p.state }
    else { a with store := a.store.clearThrottle p.tenantId }
  else a

def restoreFromStore (a : AutoThrottle R) (now instant : Nat) : AutoThrottle R :=
  a.store.loadAllThrottles.foldl (fun a p => a.restoreOne p now instant) a

def applyThrottle (a : AutoThrottle R) (tenantId reason : String) (now instant : Nat) : AutoThrottle R :=
  match a.scheduler.policy tenantId with
  | none => a
  | some policy =>
    let state := a.config.throttleState tenantId reason policy.ratePerSec now
    { a with
      scheduler := a.scheduler.updatePolicy (a.config.throttledPolicy policy) instant
      store := a.store.persistThrottle state.persisted
      states := a.states.insert state }

def releaseThrottle (a : AutoThrottle R) (tenantId : String) (originalRate instant : Nat) : AutoThrottle R :=
  let scheduler :=
    match a.scheduler.policy tenantId with
    | some policy => a.scheduler.updatePolicy (policy.released originalRate) instant
    | none => a.scheduler
  { a with
    scheduler := scheduler
    store := a.store.clearThrottle tenantId
    states := a.states.erase tenantId }

def forceRelease (a : AutoThrottle R) (tenantId : String) (instant : Nat) : AutoThrottle R :=
  match a.states.lookup tenantId with
  | some state => a.releaseThrottle tenantId state.originalRate instant
  | none => { a with store := a.store.clearThrottle tenantId }

def shouldThrottle (a : AutoThrottle R) (stats : TenantStats R) : Bool :=
  a.config.burstThreshold < stats.burstScore || a.config.backlogThreshold < stats.backlogRatio ||
    a.baselines.isSpike stats.tenantId stats.arrivalRate

def reason (a : AutoThrottle R) (stats : TenantStats R) : String :=
  if a.config.burstThreshold < stats.burstScore then "burst_score_exceeded"
  else if a.config.backlogThreshold < stats.backlogRatio then "backlog_threshold_exceeded"
  else "rate_spike_detected"

/-- `burst_ok && backlog_ok && rate_ok`. -/
def calm (a : AutoThrottle R) (stats : TenantStats R) : Bool :=
  stats.burstScore < a.config.burstThreshold * 0.5 && stats.backlogRatio < a.config.backlogThreshold * 0.7 &&
    stats.arrivalRate < (a.baselines.spikeThreshold stats.tenantId).getD F64.largest * 0.7

/-- The throttle of the tenant is lifted when these statistics are evaluated. -/
def releaseDue (a : AutoThrottle R) (existing : ThrottleState) (stats : TenantStats R) (now : Nat) : Bool :=
  existing.cooldownUntilMs ≤ now && a.calm stats

/-- One round of the loop of `evaluate`. -/
def evaluateOne (a : AutoThrottle R) (stats : TenantStats R) (now instant : Nat) : AutoThrottle R :=
  match (a.states.lookup stats.tenantId).filter ThrottleState.throttled with
  | some existing =>
    if a.releaseDue existing stats now then a.releaseThrottle stats.tenantId existing.originalRate instant else a
  | none =>
    if a.shouldThrottle stats then a.applyThrottle stats.tenantId (a.reason stats) now instant else a

def evaluate (a : AutoThrottle R) (allStats : List (TenantStats R)) (now instant : Nat) : AutoThrottle R :=
  allStats.foldl (fun a stats => a.evaluateOne stats now instant) a

/-! ## The calls on `states` -/

/-- A call on `states`, or the end of the `Ref` that a `get` returned. -/
inductive StatesCall where
  | get (tenantId : String) (found : Bool)
  | drop (tenantId : String)
  | insert (tenantId : String)
  | remove (tenantId : String)
  deriving DecidableEq, Repr

/-- The calls run through in one thread, which starts with a `Ref` on the shards `held`: `insert` and
    `remove` wait while a `Ref` on their shard is alive. -/
def runsThrough {σ : Type} [DecidableEq σ] (shard : String → σ) (held : List σ) : List StatesCall → Bool
  | [] => true
  | .get t found :: rest => runsThrough shard (if found then shard t :: held else held) rest
  | .drop t :: rest => runsThrough shard (held.erase (shard t)) rest
  | .insert t :: rest => !held.contains (shard t) && runsThrough shard held rest
  | .remove t :: rest => !held.contains (shard t) && runsThrough shard held rest

def releaseThrottleCalls (tenantId : String) : List StatesCall := [.remove tenantId]

def applyThrottleCalls (a : AutoThrottle R) (tenantId : String) : List StatesCall :=
  if (a.scheduler.policy tenantId).isSome then [.insert tenantId] else []

def forceReleaseCalls (a : AutoThrottle R) (tenantId : String) : List StatesCall :=
  match a.states.lookup tenantId with
  | some _ => [.get tenantId true, .drop tenantId] ++ releaseThrottleCalls tenantId
  | none => [.get tenantId false]

/-- The `Ref` in `if let Some(existing) = self.states.get(tenant_id)` lives to the end of that block. -/
def evaluateOneCalls (a : AutoThrottle R) (stats : TenantStats R) (now : Nat) : List StatesCall :=
  let t := stats.tenantId
  let apply := if a.shouldThrottle stats then a.applyThrottleCalls t else []
  match a.states.lookup t with
  | some existing =>
    if existing.throttled then
      let release := if a.releaseDue existing stats now then releaseThrottleCalls t else []
      .get t true :: release ++ [.drop t]
    else .get t true :: .drop t :: apply
  | none => .get t false :: apply

def evaluateCalls (a : AutoThrottle R) (now instant : Nat) : List (TenantStats R) → List StatesCall
  | [] => []
  | stats :: rest => a.evaluateOneCalls stats now ++ (a.evaluateOne stats now instant).evaluateCalls now instant rest

def snapshot (a : AutoThrottle R) (tenantId : String) : Option ThrottleState := a.states.lookup tenantId

def allSnapshots (a : AutoThrottle R) : List ThrottleState := a.states.values

/-! ## What the calls do to one tenant -/

section Calls
variable {a : AutoThrottle R} {tenant other reason : String} {policy : TenantPolicy} {rate now instant : Nat}

/-- Setting the policy that was read back under the tenant's id. -/
theorem policy_updatePolicy_map {s : WFQScheduler R} {f : TenantPolicy → TenantPolicy}
    (hf : ∀ p, (f p).tenantId = p.tenantId) (t : String) :
    (match s.policy tenant with
      | some policy => s.updatePolicy (f policy) instant
      | none => s).policy t = if t = tenant then (s.policy t).map f else s.policy t := by
  cases hpolicy : s.policy tenant with
  | none =>
    by_cases ht : t = tenant
    · rw [if_pos ht, ht, hpolicy]
      rfl
    · rw [if_neg ht]
  | some policy =>
    have hid : (f policy).tenantId = tenant := (hf policy).trans (WFQScheduler.tenantId_of_policy hpolicy)
    simp only [WFQScheduler.policy_updatePolicy, hid]
    by_cases ht : t = tenant
    · simp [ht, hpolicy]
    · simp [ht]

theorem policy_applyThrottle (t : String) : (a.applyThrottle tenant reason now instant).scheduler.policy t =
    if t = tenant then (a.scheduler.policy t).map a.config.throttledPolicy else a.scheduler.policy t := by
  have hmap : (match a.scheduler.policy tenant with
      | some policy => a.scheduler.updatePolicy (a.config.throttledPolicy policy) instant
      | none => a.scheduler).policy t = _ := policy_updatePolicy_map (f := a.config.throttledPolicy) (fun _ => rfl) t
  rw [← hmap]
  unfold applyThrottle
  split <;> simp [*]

theorem policy_releaseThrottle (t : String) : (a.releaseThrottle tenant rate instant).scheduler.policy t =
    if t = tenant then (a.scheduler.policy t).map fun p => p.released rate else a.scheduler.policy t :=
  policy_updatePolicy_map (f := fun p => p.released rate) (fun _ => rfl) t

theorem states_applyThrottle (hpolicy : a.scheduler.policy tenant = some policy) (t : String) :
    (a.applyThrottle tenant reason now instant).states.lookup t =
      if t = tenant then some (a.config.throttleState tenant reason policy.ratePerSec now) else a.states.lookup t := by
  simp [applyThrottle, hpolicy, IdMap.lookup_insert, ThrottleConfig.throttleState]

theorem applyThrottle_unknown (hpolicy : a.scheduler.policy tenant = none) :
    a.applyThrottle tenant reason now instant = a := by
  simp [applyThrottle, hpolicy]

theorem states_releaseThrottle (t : String) : (a.releaseThrottle tenant rate instant).states.lookup t =
    if t = tenant then none else a.states.lookup t :=
  IdMap.lookup_erase

@[simp] theorem config_applyThrottle : (a.applyThrottle tenant reason now instant).config = a.config := by
  unfold applyThrottle
  split <;> rfl

@[simp] theorem baselines_applyThrottle : (a.applyThrottle tenant reason now instant).baselines = a.baselines := by
  unfold applyThrottle
  split <;> rfl

/-- What a call does to a tenant it is not addressed to: nothing. -/
theorem states_applyThrottle_of_ne (h : other ≠ tenant) :
    (a.applyThrottle tenant reason now instant).states.lookup other = a.states.lookup other := by
  cases hpolicy : a.scheduler.policy tenant with
  | none => rw [applyThrottle_unknown hpolicy]
  | some policy => rw [states_applyThrottle hpolicy, if_neg h]

end Calls

end AutoThrottle

end RocksQueue
