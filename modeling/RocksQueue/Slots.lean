import Mathlib.Data.List.Sort
import RocksQueue.Lib.Runs
import RocksQueue.Scheduler

/-! # Slots

`schedule` and `release` of the scheduler: the eligible tenants have their buckets refilled, the first loop
gives each its share of the slots in the order of the virtual finish times, and what is left goes to the
first tenant that got any. A call takes all the tenants from one moment. -/

namespace RocksQueue

variable {R : Type} [F64 R]

/-- `Duration::as_secs_f64`. -/
def asSecsF64 (nanos : Nat) : R := F64.ofNat (nanos / 10 ^ 9) + F64.ofNat (nanos % 10 ^ 9) / F64.ofNat (10 ^ 9)

namespace TenantState

def refill (state : TenantState R) (now : Nat) : TenantState R :=
  let refill := asSecsF64 (now - state.lastRefill) * F64.ofNat state.policy.ratePerSec
  let burst := F64.ofNat state.policy.burstTokens
  -- `f64::min`; the burst is a number.
  { state with
    tokens := if state.tokens + refill < burst then state.tokens + refill else burst
    lastRefill := now }

def eligible (state : TenantState R) : Bool := !state.paused && decide (state.inflight < state.policy.maxInflight)

/-- Pay for slots and move the virtual finish time. -/
def charge (virtualTime : R) (weight slots : Nat) (state : TenantState R) : TenantState R :=
  { state with
    tokens := state.tokens - F64.ofNat slots
    virtualFinishTime := F64.max virtualTime state.virtualFinishTime + F64.ofNat slots / F64.ofNat (max weight 1)
    inflight := (state.inflight + slots) % u64Size }

def addInflight (slots : Nat) (state : TenantState R) : TenantState R :=
  { state with inflight := (state.inflight + slots) % u64Size }

section Keyed
variable {state : TenantState R} {tenantId : String} {now weight slots : Nat} {virtualTime : R}

theorem keyed_refill : (state.refill now).policy.tenantId = state.policy.tenantId := rfl

theorem keyed_charge (h : state.policy.tenantId = tenantId) :
    (state.charge virtualTime weight slots).policy.tenantId = tenantId := h

omit [F64 R] in
theorem keyed_addInflight (h : state.policy.tenantId = tenantId) :
    (state.addInflight slots).policy.tenantId = tenantId := h

end Keyed

end TenantState

/-- What the first loop knows of a tenant. -/
structure Candidate (R : Type) where
  tenantId : String
  virtualFinishTime : R
  weight : Nat
  tokens : R

def TenantState.candidate (state : TenantState R) : Candidate R where
  tenantId := state.policy.tenantId
  virtualFinishTime := state.virtualFinishTime
  weight := state.policy.weight
  tokens := state.tokens

namespace Candidate

/-- The share by weight. The cast drops the fraction, as the `floor` before it does. -/
def rawSlots (c : Candidate R) (totalSlots totalWeight : Nat) : Nat :=
  F64.toUnsigned u64Size (F64.ofNat totalSlots * (F64.ofNat c.weight / F64.ofNat totalWeight) : R)

def tokenCap (c : Candidate R) : Nat := F64.toUnsigned u64Size c.tokens

def slots (c : Candidate R) (totalSlots totalWeight remaining : Nat) : Nat :=
  min (min (c.rawSlots totalSlots totalWeight) c.tokenCap) remaining

end Candidate

/-- The variables of the first loop. -/
structure Allocation (R : Type) where
  tenants : IdMap fun state : TenantState R => state.policy.tenantId
  allocations : List (String × Nat)
  remaining : Nat

namespace Allocation

/-- One round of the first loop. -/
def grant (virtualTime : R) (totalSlots totalWeight : Nat) (a : Allocation R) (c : Candidate R) : Allocation R :=
  if a.remaining = 0 then a
  else
    let slots := c.slots totalSlots totalWeight a.remaining
    if slots = 0 then a
    else
      { tenants := a.tenants.modify c.tenantId (TenantState.charge virtualTime c.weight slots) fun _ => TenantState.keyed_charge
        allocations := a.allocations ++ [(c.tenantId, slots)]
        remaining := a.remaining - slots }

/-- The leftover slots go to the first tenant in the list of allocations. -/
def giveLeftover (a : Allocation R) : Allocation R :=
  if 0 < a.remaining then
    match a.allocations with
    | [] => a
    | (tenantId, slots) :: rest =>
      { a with
        tenants := a.tenants.modify tenantId (TenantState.addInflight a.remaining) fun _ => TenantState.keyed_addInflight
        allocations := (tenantId, slots + a.remaining) :: rest }
  else a

end Allocation

namespace WFQScheduler

/-- The sum is a `u32`. -/
def totalWeight (s : WFQScheduler R) : Nat :=
  ((s.tenants.values.filter TenantState.eligible).map fun state => state.policy.weight).sum % u32Size

def refillEligible (s : WFQScheduler R) (now : Nat) : IdMap fun state : TenantState R => state.policy.tenantId :=
  s.tenants.mapValues (fun state => if state.eligible then state.refill now else state) fun _ => by
    split
    · exact TenantState.keyed_refill
    · rfl

/-- The eligible tenants, refilled, in the order of their virtual finish times. The sort is stable. -/
def candidates (s : WFQScheduler R) (now : Nat) : List (Candidate R) :=
  (((s.tenants.values.filter TenantState.eligible).map fun state => (state.refill now).candidate)).insertionSort
    fun a b => ¬b.virtualFinishTime < a.virtualFinishTime

/-- What the first loop leads to. -/
def allocate (s : WFQScheduler R) (totalSlots now : Nat) : Allocation R :=
  (s.candidates now).foldl (Allocation.grant (F64.ofNat s.virtualTime) totalSlots s.totalWeight)
    ⟨s.refillEligible now, [], totalSlots⟩

/-- The slots that each tenant is given; a tenant is listed once at most. -/
def schedule (s : WFQScheduler R) (totalSlots now : Nat) : WFQScheduler R × List (String × Nat) :=
  if totalSlots = 0 then (s, [])
  else if s.totalWeight = 0 then (s, [])
  else
    let a := (s.allocate totalSlots now).giveLeftover
    let virtualTime := F64.toUnsigned u64Size (F64.ofNat s.virtualTime + 1.0 : R)
    ({ tenants := a.tenants, virtualTime := virtualTime }, a.allocations)

def release (s : WFQScheduler R) (tenantId : String) (n : Nat) : WFQScheduler R :=
  { s with
    tenants := s.tenants.modify tenantId (fun state => { state with inflight := state.inflight - n }) fun _ h => h }

end WFQScheduler

/-- The slots that a list of allocations gives a tenant. -/
def grantedTo (tenant : String) (allocations : List (String × Nat)) : Nat :=
  ((allocations.filter fun a => a.1 = tenant).map Prod.snd).sum

/-- A scheduler in use: the monotonic clock, and the slots that `schedule` has given each tenant so far. -/
structure SchedulerRun (R : Type) where
  scheduler : WFQScheduler R
  clock : Nat
  granted : String → Nat

inductive SchedulerCall where
  | schedule (totalSlots : Nat)
  | release (tenantId : String) (n : Nat)
  | setPaused (tenantId : String) (paused : Bool)
  | wait (nanos : Nat)
  deriving DecidableEq, Repr

namespace SchedulerRun

def start (scheduler : WFQScheduler R) (clock : Nat) : SchedulerRun R := ⟨scheduler, clock, fun _ => 0⟩

def next (s : SchedulerRun R) : SchedulerCall → Option (SchedulerRun R)
  | .schedule totalSlots =>
    let result := s.scheduler.schedule totalSlots s.clock
    some { s with scheduler := result.1, granted := fun t => s.granted t + grantedTo t result.2 }
  | .release tenantId n => some { s with scheduler := s.scheduler.release tenantId n }
  -- The call answers `None` for a tenant that is not there, and changes nothing.
  | .setPaused tenantId paused => some { s with scheduler := (s.scheduler.setPaused tenantId paused).getD s.scheduler }
  | .wait nanos => some { s with clock := s.clock + nanos }

end SchedulerRun

end RocksQueue
