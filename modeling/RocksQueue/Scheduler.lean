import RocksQueue.Lib.IdMap
import RocksQueue.Numbers
import RocksQueue.System

/-! # The scheduler's policies

`scheduler.rs`: the table of tenants, and the calls that register them and change their policies. An
`Instant` is the number of nanoseconds since some fixed one. -/

namespace RocksQueue

structure TenantPolicy where
  tenantId : String
  weight : Nat
  maxInflight : Nat
  burstTokens : Nat
  ratePerSec : Nat
  deriving DecidableEq, Repr

/-- The part of a namespace policy that the scheduler is registered with. -/
def NamespacePolicy.toTenantPolicy (p : NamespacePolicy) (tenantId : String) : TenantPolicy where
  tenantId := tenantId
  weight := p.weight
  maxInflight := p.maxInflight
  burstTokens := p.burstTokens
  ratePerSec := p.ratePerSec

structure TenantState (R : Type) where
  policy : TenantPolicy
  tokens : R
  inflight : Nat
  paused : Bool
  virtualFinishTime : R
  lastRefill : Nat
  createdAt : Nat

/-- Each tenant is filed under the id of its policy. -/
structure WFQScheduler (R : Type) where
  tenants : IdMap fun state : TenantState R => state.policy.tenantId
  virtualTime : Nat

variable {R : Type} [F64 R]

def TenantState.new (policy : TenantPolicy) (instant : Nat) : TenantState R where
  policy := policy
  tokens := F64.ofNat policy.burstTokens
  inflight := 0
  paused := false
  virtualFinishTime := 0.0
  lastRefill := instant
  createdAt := instant

namespace WFQScheduler

def new : WFQScheduler R := ⟨.empty, 0⟩

def register (s : WFQScheduler R) (policy : TenantPolicy) (instant : Nat) : WFQScheduler R :=
  { s with tenants := s.tenants.insert (.new policy instant) }

def deregister (s : WFQScheduler R) (tenantId : String) : WFQScheduler R :=
  { s with tenants := s.tenants.erase tenantId }

/-- The tenant's tokens, inflight count and pause stay; a tenant that is not there is registered. -/
def updatePolicy (s : WFQScheduler R) (policy : TenantPolicy) (instant : Nat) : WFQScheduler R :=
  match s.tenants.lookup policy.tenantId with
  | some _ =>
    { s with
      tenants := s.tenants.modify policy.tenantId (fun state => { state with policy := policy }) fun _ _ => rfl }
  | none => s.register policy instant

/-- `none` when the tenant is not there. -/
def setPaused (s : WFQScheduler R) (tenantId : String) (paused : Bool) : Option (WFQScheduler R) :=
  match s.tenants.lookup tenantId with
  | some _ =>
    some
      { s with
        tenants := s.tenants.modify tenantId (fun state => { state with paused := paused }) fun _ h => h }
  | none => none

def policy (s : WFQScheduler R) (tenantId : String) : Option TenantPolicy :=
  (s.tenants.lookup tenantId).map fun state => state.policy

section Policies
variable {s s' : WFQScheduler R} {p : TenantPolicy} {instant : Nat} {tenant : String} {paused : Bool}

omit [F64 R] in
theorem tenantId_of_policy (h : s.policy tenant = some p) : p.tenantId = tenant := by
  obtain ⟨state, hstate, rfl⟩ := Option.map_eq_some_iff.mp h
  exact s.tenants.keyed hstate

@[simp] theorem policy_register :
    (s.register p instant).policy tenant = if tenant = p.tenantId then some p else s.policy tenant := by
  simp only [register, policy, IdMap.lookup_insert, TenantState.new]
  split <;> rfl

omit [F64 R] in
@[simp] theorem policy_deregister {dropped : String} :
    (s.deregister dropped).policy tenant = if tenant = dropped then none else s.policy tenant := by
  simp only [deregister, policy, IdMap.lookup_erase]
  split <;> rfl

@[simp] theorem policy_updatePolicy :
    (s.updatePolicy p instant).policy tenant = if tenant = p.tenantId then some p else s.policy tenant := by
  unfold updatePolicy
  split
  · rename_i state hstate
    simp only [policy, IdMap.lookup_modify]
    split
    · rename_i heq
      rw [heq, hstate]
      rfl
    · rfl
  · exact policy_register

omit [F64 R] in
theorem policy_setPaused (h : s.setPaused tenant paused = some s') (t : String) : s'.policy t = s.policy t := by
  simp only [setPaused] at h
  split at h
  · cases h
    simp only [policy, IdMap.lookup_modify]
    split
    · rw [Option.map_map]
      rfl
    · rfl
  · cases h

end Policies

end WFQScheduler

end RocksQueue
