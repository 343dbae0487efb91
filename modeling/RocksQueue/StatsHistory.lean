import RocksQueue.Lib.Runs
import RocksQueue.StatsStore

/-! # Statistics over several lifetimes

The calls that the process makes on its statistics collector from one start to the next, for tenants that exist
throughout. At a start the tenants are registered and warmed up from what was flushed. -/

namespace RocksQueue

/-- What the calls of a history have recorded for a tenant. -/
structure Totals where
  enqueued : Nat := 0
  acked : Nat := 0
  nacked : Nat := 0
  deriving DecidableEq, Repr

instance : Add Totals := ⟨fun a b => ⟨a.enqueued + b.enqueued, a.acked + b.acked, a.nacked + b.nacked⟩⟩

inductive StatsEvent where
  | recordEnqueue (tenantId : String) (count : Nat)
  | recordAckCount (tenantId : String) (count latencyMs : Nat)
  | recordNack (tenantId : String)
  | refresh
  | flushStats (now : Nat)
  | restart (now instant : Nat)
  deriving DecidableEq, Repr

/-- What the event records for the tenant. -/
def StatsEvent.records (tenant : String) : StatsEvent → Totals
  | .recordEnqueue tenantId count => if tenantId = tenant then ⟨count, 0, 0⟩ else {}
  | .recordAckCount tenantId count _ => if tenantId = tenant then ⟨0, count, 0⟩ else {}
  | .recordNack tenantId => if tenantId = tenant then ⟨0, 0, 1⟩ else {}
  | .refresh => {}
  | .flushStats _ => {}
  | .restart _ _ => {}

/-- The collector and the database. No call reads what was recorded in the earlier lifetimes and in this one. -/
structure StatsHistory (R : Type) where
  collector : StatsCollector R
  store : Database R
  earlier : String → Totals
  current : String → Totals

namespace StatsHistory
variable {R : Type} [F64 R]

def registerAll (tenants : List String) (instant : Nat) : StatsCollector R :=
  tenants.foldl (fun c tenantId => c.register tenantId instant) .empty

/-- The first start, with an empty database. -/
def start (tenants : List String) (instant : Nat) : StatsHistory R where
  collector := registerAll tenants instant
  store := ⟨some .empty, ∅⟩
  earlier := fun _ => {}
  current := fun _ => {}

/-- The call, as the collector and the database see it. -/
def call (tenants : List String) (s : StatsHistory R) : StatsEvent → StatsHistory R
  | .recordEnqueue tenantId count => { s with collector := s.collector.recordEnqueue tenantId count }
  | .recordAckCount tenantId count latencyMs =>
    { s with collector := s.collector.recordAckCount tenantId count latencyMs }
  | .recordNack tenantId => { s with collector := s.collector.recordNack tenantId }
  | .refresh => { s with collector := s.collector.refresh }
  | .flushStats now => { s with store := s.store.flushStats s.collector.allSnapshots now }
  | .restart now instant =>
    { s with collector := (registerAll tenants instant).warmFromStore (s.store.loadAllStats now) }

/-- A restart ends the lifetime; a call on a tenant that is not registered is not recorded. -/
def next (tenants : List String) (s : StatsHistory R) (e : StatsEvent) : Option (StatsHistory R) :=
  match e with
  | .restart now instant =>
    some { s.call tenants (.restart now instant) with earlier := fun t => s.earlier t + s.current t, current := fun _ => {} }
  | e => some { s.call tenants e with current := fun t => if t ∈ tenants then s.current t + e.records t else s.current t }

/-- All that was ever recorded for the tenant. -/
def lifetime (s : StatsHistory R) (tenant : String) : Totals := s.earlier tenant + s.current tenant

/-- The totals of a snapshot. -/
def totals (s : TenantStats R) : Totals := ⟨s.totalEnqueued, s.totalAcked, s.totalNacked⟩

/-- The process comes to this state. -/
def Reached (tenants : List String) (s : StatsHistory R) : Prop :=
  ∃ instant, Runs.Run (next tenants) (fun _ _ => True) (start tenants instant) s

end StatsHistory

end RocksQueue
