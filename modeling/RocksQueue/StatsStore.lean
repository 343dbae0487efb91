import RocksQueue.Baseline
import RocksQueue.Database
import RocksQueue.Stats

/-! # The statistics store

The writes of `stats_store.rs` into `__system__`, and what it loads from there. -/

namespace RocksQueue

inductive StoreWrite (R : Type) where
  | flushStats (s : PersistedStats R)
  | persistThrottle (t : PersistedThrottle)
  | clearThrottle (tenant : String)
  | flushBaseline (b : BaselineRecord R)
  | clearBaseline (tenant : String)

variable {R : Type}

def StoreWrite.key : StoreWrite R → Bytes
  | .flushStats s => statsKey s.tenantId
  | .persistThrottle t => throttleKey t.tenantId
  | .clearThrottle tenant => throttleKey tenant
  | .flushBaseline b => baselineKey b.tenantId
  | .clearBaseline tenant => baselineKey tenant

def StoreWrite.tenantId : StoreWrite R → String
  | .flushStats s => s.tenantId
  | .persistThrottle t => t.tenantId
  | .clearThrottle tenant => tenant
  | .flushBaseline b => b.tenantId
  | .clearBaseline tenant => tenant

def Database.store (db : Database R) (w : StoreWrite R) : Database R :=
  match w with
  | .flushStats s => db.putSystem w.key (.stats s)
  | .persistThrottle t => db.putSystem w.key (.throttle t)
  | .clearThrottle _ => db.deleteSystem w.key
  | .flushBaseline b => db.putSystem w.key (.baseline b)
  | .clearBaseline _ => db.deleteSystem w.key

/-! ## Records -/

def TenantStats.persisted (s : TenantStats R) (now : Nat) : PersistedStats R where
  tenantId := s.tenantId
  arrivalRate := s.arrivalRate
  processingRate := s.processingRate
  avgTaskLatency := s.avgTaskLatency
  burstScore := s.burstScore
  backlogRatio := s.backlogRatio
  totalEnqueued := s.totalEnqueued
  totalAcked := s.totalAcked
  totalNacked := s.totalNacked
  statsVersion := s.statsVersion
  flushedAtMs := now

def TenantBaseline.persisted (b : TenantBaseline R) (now : Nat) : BaselineRecord R where
  tenantId := b.tenantId
  shortEma := b.shortEma
  longEma := b.longEma
  spikeThreshold := b.spikeThreshold
  savedAtMs := now

/-- The rates decay by half for each minute offline. -/
def PersistedStats.decayed [F64 R] (s : PersistedStats R) (now : Nat) : PersistedStats R :=
  let offlineSecs : R := F64.ofNat (now - s.flushedAtMs) / 1000.0
  let offlineMins := offlineSecs / 60.0
  let decay := F64.exp2 (-offlineMins)
  { s with
    arrivalRate := s.arrivalRate * decay
    burstScore := s.burstScore * decay
    backlogRatio := s.backlogRatio * decay
    processingRate := s.processingRate * ((decay + 1.0) / 2.0)
    avgTaskLatency := s.avgTaskLatency * ((decay + 1.0) / 2.0) }

/-! ## Flushing and loading -/

namespace Database

def flushStats (db : Database R) (stats : List (TenantStats R)) (now : Nat) : Database R :=
  stats.foldl (fun db s => db.store (.flushStats (s.persisted now))) db

def flushBaselines (db : Database R) (baselines : List (TenantBaseline R)) (now : Nat) : Database R :=
  baselines.foldl (fun db b => db.store (.flushBaseline (b.persisted now))) db

def persistThrottle (db : Database R) (state : PersistedThrottle) : Database R := db.store (.persistThrottle state)

def clearThrottle (db : Database R) (tenantId : String) : Database R := db.store (.clearThrottle tenantId)

/-- The record under a key of `__system__`. -/
def record? (db : Database R) (key : Bytes) : Option (SystemRecord R) := db.system.bind fun cf => cf.get? key

/-- The records of one kind, in key order. -/
def records (db : Database R) (keyPrefix : Bytes) : List (SystemRecord R) :=
  match db.system with
  | none => []
  | some cf => (seekPrefix cf keyPrefix).map Prod.snd

/-- Records that do not deserialize are passed over. -/
def loadAllStats [F64 R] (db : Database R) (now : Nat) : List (PersistedStats R) :=
  (db.records statsPrefix).filterMap fun
    | .stats s => some (s.decayed now)
    | _ => none

def loadAllThrottles (db : Database R) : List PersistedThrottle :=
  (db.records throttlePrefix).filterMap fun
    | .throttle t => some t
    | _ => none

def loadBaseline (db : Database R) (tenantId : String) : Option (BaselineRecord R) :=
  match db.record? (baselineKey tenantId) with
  | some (.baseline b) => some b
  | _ => none

end Database

end RocksQueue
