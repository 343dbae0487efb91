import RocksQueue.Lib.IdMap
import RocksQueue.Numbers
import RocksQueue.System

/-! # The statistics collector

`stats.rs`: the counters that the calls add to, the moving averages that a refresh makes of them, and the
records from which they are warmed up after a restart. -/

namespace RocksQueue

structure TenantStats (R : Type) where
  tenantId : String
  arrivalRate : R
  processingRate : R
  avgTaskLatency : R
  burstScore : R
  backlogRatio : R
  lastEnqueueAt : Nat
  lastDequeueAt : Nat
  lastAllocFraction : R
  isNew : Bool
  totalEnqueued : Nat
  totalAcked : Nat
  totalNacked : Nat
  statsVersion : Nat

structure TenantCounters where
  enqueueCount : Nat := 0
  ackCount : Nat := 0
  nackCount : Nat := 0
  latencySumMs : Nat := 0
  totalEnqueued : Nat := 0
  totalAcked : Nat := 0
  totalNacked : Nat := 0
  deriving DecidableEq, Repr

/-- `TenantCounters::new`. -/
def TenantCounters.zero : TenantCounters := {}

structure TenantStatsState (R : Type) where
  stats : TenantStats R
  counters : TenantCounters

/-- Each tenant is filed under the id in its statistics. -/
abbrev StatsCollector (R : Type) := IdMap fun state : TenantStatsState R => state.stats.tenantId

variable {R : Type} [F64 R]

/-- `fetch_add` on an `AtomicU64`. -/
def fetchAdd (a b : Nat) : Nat := (a + b) % u64Size

/-- The statistics of a tenant that `register` makes. -/
def TenantStats.new (tenantId : String) (instant : Nat) : TenantStats R where
  tenantId := tenantId
  arrivalRate := 0.0
  processingRate := 0.0
  avgTaskLatency := 0.0
  burstScore := 0.0
  backlogRatio := 0.0
  lastEnqueueAt := instant
  lastDequeueAt := instant
  lastAllocFraction := 0.0
  isNew := true
  totalEnqueued := 0
  totalAcked := 0
  totalNacked := 0
  statsVersion := 0

namespace TenantCounters

def recordEnqueue (c : TenantCounters) (count : Nat) : TenantCounters :=
  { c with enqueueCount := fetchAdd c.enqueueCount count, totalEnqueued := fetchAdd c.totalEnqueued count }

def recordAckCount (c : TenantCounters) (count latencyMs : Nat) : TenantCounters :=
  { c with
    ackCount := fetchAdd c.ackCount count
    latencySumMs := fetchAdd c.latencySumMs (latencyMs * count)
    totalAcked := fetchAdd c.totalAcked count }

def recordNack (c : TenantCounters) : TenantCounters :=
  { c with nackCount := fetchAdd c.nackCount 1, totalNacked := fetchAdd c.totalNacked 1 }

/-- What the swaps of a refresh leave. -/
def swapped (c : TenantCounters) : TenantCounters :=
  { c with enqueueCount := 0, ackCount := 0, nackCount := 0, latencySumMs := 0 }

end TenantCounters

/-- `alpha * new + (1.0 - alpha) * old`. -/
def movingAverage (alpha new old : R) : R := alpha * new + (1.0 - alpha) * old

/-- `alpha` of the collector. -/
def statsAlpha : R := 0.2

namespace TenantStatsState

/-- The round of the refresh loop for one tenant. -/
def refresh (state : TenantStatsState R) : TenantStatsState R :=
  let c := state.counters
  let stats := state.stats
  let newArrival : R := F64.ofNat c.enqueueCount
  let arrivalRate := movingAverage statsAlpha newArrival stats.arrivalRate
  let newProc : R := F64.ofNat (fetchAdd c.ackCount c.nackCount)
  let deviation := newArrival - arrivalRate
  { stats :=
      { stats with
        arrivalRate := arrivalRate
        processingRate := movingAverage statsAlpha newProc stats.processingRate
        avgTaskLatency :=
          if 0 < c.ackCount then
            movingAverage statsAlpha (F64.ofNat c.latencySumMs / F64.ofNat c.ackCount / 1000.0) stats.avgTaskLatency
          else stats.avgTaskLatency
        burstScore := movingAverage statsAlpha (deviation * deviation) stats.burstScore
        totalEnqueued := c.totalEnqueued
        totalAcked := c.totalAcked
        totalNacked := c.totalNacked
        statsVersion := fetchAdd stats.statsVersion 1
        isNew := stats.isNew && !(0 < c.enqueueCount : Bool) }
    counters := c.swapped }

def recordBacklog (state : TenantStatsState R) (pending inflight : Nat) : TenantStatsState R :=
  let total := pending + inflight
  { state with
    stats :=
      { state.stats with
        backlogRatio := if 0 < total then F64.ofNat pending / F64.ofNat total else 0.0 } }

def warm (state : TenantStatsState R) (persisted : PersistedStats R) : TenantStatsState R :=
  { state with
    stats :=
      { state.stats with
        arrivalRate := persisted.arrivalRate
        processingRate := persisted.processingRate
        avgTaskLatency := persisted.avgTaskLatency
        burstScore := persisted.burstScore
        backlogRatio := persisted.backlogRatio
        totalEnqueued := persisted.totalEnqueued
        totalAcked := persisted.totalAcked
        totalNacked := persisted.totalNacked
        statsVersion := persisted.statsVersion
        isNew := false } }

def count (state : TenantStatsState R) (f : TenantCounters → TenantCounters) : TenantStatsState R :=
  { state with counters := f state.counters }

end TenantStatsState

namespace StatsCollector

def register (s : StatsCollector R) (tenantId : String) (instant : Nat) : StatsCollector R :=
  s.insert ⟨.new tenantId instant, .zero⟩

def deregister (s : StatsCollector R) (tenantId : String) : StatsCollector R := s.erase tenantId

def recordEnqueue (s : StatsCollector R) (tenantId : String) (count : Nat) : StatsCollector R :=
  s.modify tenantId (fun state => state.count fun c => c.recordEnqueue count) fun _ h => h

def recordAckCount (s : StatsCollector R) (tenantId : String) (count latencyMs : Nat) : StatsCollector R :=
  s.modify tenantId (fun state => state.count fun c => c.recordAckCount count latencyMs) fun _ h => h

def recordAck (s : StatsCollector R) (tenantId : String) (latencyMs : Nat) : StatsCollector R :=
  s.recordAckCount tenantId 1 latencyMs

def recordNack (s : StatsCollector R) (tenantId : String) : StatsCollector R :=
  s.modify tenantId (fun state => state.count TenantCounters.recordNack) fun _ h => h

def recordBacklog (s : StatsCollector R) (tenantId : String) (pending inflight : Nat) : StatsCollector R :=
  s.modify tenantId (fun state => state.recordBacklog pending inflight) fun _ h => h

def refresh (s : StatsCollector R) : StatsCollector R := s.mapValues (fun state => state.refresh) fun _ => rfl

/-- `persisted` is what `load_all_stats` returned. -/
def warmFromStore (s : StatsCollector R) (persisted : List (PersistedStats R)) : StatsCollector R :=
  persisted.foldl (fun s p => s.modify p.tenantId (fun state => state.warm p) fun _ h => h) s

def snapshot (s : StatsCollector R) (tenantId : String) : Option (TenantStats R) :=
  (s.lookup tenantId).map fun state => state.stats

def allSnapshots (s : StatsCollector R) : List (TenantStats R) := s.values.map fun state => state.stats

omit [F64 R] in
theorem allSnapshots_ids_nodup (s : StatsCollector R) : (s.allSnapshots.map TenantStats.tenantId).Nodup := by
  rw [allSnapshots, List.map_map]
  exact s.values_ids_nodup

omit [F64 R] in
theorem lookup_recordEnqueue {s : StatsCollector R} {t tenantId : String} {count : Nat} :
    (s.recordEnqueue t count).lookup tenantId =
      if tenantId = t then (s.lookup tenantId).map fun state => state.count fun c => c.recordEnqueue count
      else s.lookup tenantId :=
  IdMap.lookup_modify

theorem lookup_refresh {s : StatsCollector R} {tenantId : String} :
    s.refresh.lookup tenantId = (s.lookup tenantId).map TenantStatsState.refresh :=
  IdMap.lookup_mapValues

end StatsCollector

end RocksQueue
