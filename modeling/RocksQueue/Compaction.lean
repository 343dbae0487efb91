import RocksQueue.Concurrent
import RocksQueue.Retention

/-! # Compaction among the calls on a tenant

RocksDB compacts a family when it likes. It asks the filter that the family was opened with about a record, and
drops the record if the filter says so; the filters count what they decide. -/

namespace RocksQueue
open Interleaving

structure CompactionCounters where
  pendingExpired : Nat
  dlqExpired : Nat
  inflightStale : Nat
  kept : Nat
  deriving DecidableEq, Repr

namespace CompactionCounters

def new : CompactionCounters := ⟨0, 0, 0, 0⟩

/-- `fetch_add` wraps. -/
def count (c : CompactionCounters) : CompactionFilter → Decision → CompactionCounters
  | _, .keep => { c with kept := (c.kept + 1) % u64Size }
  | .pending _, .remove => { c with pendingExpired := (c.pendingExpired + 1) % u64Size }
  | .dlq _, .remove => { c with dlqExpired := (c.dlqExpired + 1) % u64Size }
  | .inflight _, .remove => { c with inflightStale := (c.inflightStale + 1) % u64Size }

end CompactionCounters

/-- These are the filters that the options of the families get. -/
theorem tenantFilters_eq (tenant : String) (r : RetentionPolicy) :
    tenantFilters tenant r =
      [(cfPending tenant, r.filter .pending), (cfInflight tenant, r.filter .inflight), (cfDlq tenant, r.filter .dlq)] :=
  rfl

/-- A record that a filter removed. -/
structure Expiry where
  cf : Cf
  key : Key
  value : Value
  retention : RetentionPolicy
  now : Nat

/-- Calls on a tenant, and the compaction of its families. The filters keep the retention that the families were
    opened with. `expired` records what they ever removed, and no step reads it. -/
structure CompactedPool where
  pool : Config Shared Frame
  retention : RetentionPolicy
  expired : List Expiry

inductive CompactionEvent where
  | step (l : Label Call StepInput)
  | filter (cf : Cf) (key : Key) (now : Nat)
  | reopen (retention : RetentionPolicy) (now : Nat)

namespace CompactedPool

def start (retention : RetentionPolicy) (now : Nat) : CompactedPool where
  pool := ⟨.start now, []⟩
  retention := retention
  expired := []

/-- The record goes, and nothing is written to the log of the calls. -/
def drop (c : CompactedPool) (e : Expiry) : CompactedPool :=
  { c with
    pool := ⟨{ c.pool.shared with db := c.pool.shared.db.apply (.delete e.cf e.key) }, c.pool.threads⟩
    expired := c.expired ++ [e] }

/-- A filter is asked about a record. -/
def ask (c : CompactedPool) (cf : Cf) (key : Key) (value : Value) (now : Nat) : CompactedPool :=
  match (c.retention.filter cf).decision now value with
  | .keep => c
  | .remove => c.drop ⟨cf, key, value, c.retention, now⟩

def next (tenant : String) (c : CompactedPool) : CompactionEvent → Option CompactedPool
  | .step l => ((system tenant).next c.pool l).map fun pool => { c with pool := pool }
  | .filter cf key now => (c.pool.shared.db.get cf key).map fun value => c.ask cf key value now
  | .reopen retention now => some { c with pool := restart c.pool now, retention := retention }

end CompactedPool

/-! ## The tenants of a process -/

/-- The tenants of a process, whose filters share their counters. `dropped` and `keeps` record what the filters decided
    since the process started, and no step reads them. -/
structure CompactedTenants where
  tenants : String → CompactedPool
  counters : CompactionCounters
  dropped : List (String × Expiry)
  keeps : Nat

inductive TenantsEvent where
  | provision (tenant : String) (retention : RetentionPolicy) (now : Nat)
  | step (tenant : String) (l : Label Call StepInput)
  | filter (tenant : String) (cf : Cf) (key : Key) (now : Nat)
  | restart (retention : String → RetentionPolicy) (now : Nat)

namespace CompactedTenants

def start (retention : String → RetentionPolicy) (now : Nat) : CompactedTenants where
  tenants tenant := .start (retention tenant) now
  counters := .new
  dropped := []
  keeps := 0

def set (s : CompactedTenants) (tenant : String) (c : CompactedPool) : CompactedTenants :=
  { s with tenants := Function.update s.tenants tenant c }

/-- What a filter of the tenant decides is counted. -/
def ask (s : CompactedTenants) (tenant : String) (cf : Cf) (key : Key) (value : Value) (now : Nat) : CompactedTenants :=
  let c := s.tenants tenant
  let filter := c.retention.filter cf
  let decision := filter.decision now value
  let counted := { s.set tenant (c.ask cf key value now) with counters := s.counters.count filter decision }
  match decision with
  | .keep => { counted with keeps := s.keeps + 1 }
  | .remove => { counted with dropped := s.dropped ++ [(tenant, ⟨cf, key, value, c.retention, now⟩)] }

/-- A tenant that is provisioned has new families, whatever was dropped before; a restart opens all families again, with
    new counters. -/
def next (s : CompactedTenants) : TenantsEvent → Option CompactedTenants
  | .provision tenant retention now => some (s.set tenant (.start retention now))
  | .step tenant l => ((s.tenants tenant).next tenant (.step l)).map fun c => s.set tenant c
  | .filter tenant cf key now =>
    ((s.tenants tenant).pool.shared.db.get cf key).map fun value => s.ask tenant cf key value now
  | .restart retention now => some
    { tenants := fun tenant =>
        { s.tenants tenant with pool := restart (s.tenants tenant).pool now, retention := retention tenant }
      counters := .new
      dropped := []
      keeps := 0 }

/-- `get_compaction_stats`: the counters are those of the process, whichever tenant is asked for. -/
def getCompactionStats (s : CompactedTenants) (tenant : String) : String × CompactionCounters := (tenant, s.counters)

end CompactedTenants

end RocksQueue
