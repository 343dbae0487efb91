import RocksQueue.Calls
import RocksQueue.Lib.Runs
import RocksQueue.Registry
import RocksQueue.Throttle

/-! # The server

`main.rs` wires the registry, the scheduler, the collector, the baselines and the throttle together, restores
them when the process starts, and lets the requests of the control plane, the statistics daemon and the reaper
work on them. Each request, each cycle of the daemon, each tick of the reaper and each compaction that RocksDB runs by
itself is one event, and reads the clock once, but for the filters, which read it for each record. -/

namespace RocksQueue

/-- A reading of the wall clock in milliseconds, and of the monotonic clock. -/
structure Clock where
  millis : Nat
  instant : Nat

structure Server (R : Type) where
  registry : TenantRegistry R
  scheduler : WFQScheduler R
  collector : StatsCollector R
  baselines : BaselineRegistry R
  throttles : IdMap ThrottleState.tenantId
  /-- `cycle_count` of the daemon. -/
  cycles : Nat

/-- The queues watched by daemon and reaper. -/
def watchedQueues : List String := ["default"]

/-- `DEFAULT_DEQUEUE_LIMIT`. -/
def defaultDequeueLimit : Nat := 500

def queueOrDefault (queue : String) : String := if queue = "" then "default" else queue

/-- The policy in an `UpdatePolicy` request. -/
structure Policy where
  weight : Nat
  maxInflight : Nat
  burstTokens : Nat
  ratePerSec : Nat

structure NamespacePolicyRequest where
  tenantId : String
  backlogQuota : Nat
  backlogPolicy : String
  blockTimeoutMs : Nat
  pendingRetentionSecs : Nat
  dlqRetentionSecs : Nat
  inflightStaleSecs : Nat

/-- The requests that change something. A key of a task is the bytes that its `ack_key` decodes to. -/
inductive Request where
  | provisionTenant (tenantId tier : String)
  | dropTenant (tenantId : String)
  | updatePolicy (tenantId : String) (policy : Option Policy)
  | setNamespacePolicy (r : NamespacePolicyRequest)
  | enqueueTask (tenantId queue : String) (payload : Bytes)
  | enqueueBatch (tenantId queue : String) (payloads : List Bytes)
  | dequeueTasks (tenantId queue : String) (limit : Nat)
  | ackTask (tenantId : String) (key : Key)
  | ackBatch (tenantId : String) (keys : List Key)
  | nackTask (tenantId : String) (key : Key)
  | forceReleaseThrottle (tenantId : String)
  | pauseTenant (tenantId : String)
  | resumeTenant (tenantId : String)
  | drainTenant (tenantId : String)
  | purgeDlq (tenantId : String)
  | replayDlq (tenantId : String)
  | compactTenant (tenantId : String)

namespace Request

/-- The tenant that a request is addressed to. -/
def tenantId : Request → String
  | provisionTenant t _ => t
  | dropTenant t => t
  | updatePolicy t _ => t
  | setNamespacePolicy r => r.tenantId
  | enqueueTask t _ _ => t
  | enqueueBatch t _ _ => t
  | dequeueTasks t _ _ => t
  | ackTask t _ => t
  | ackBatch t _ => t
  | nackTask t _ => t
  | forceReleaseThrottle t => t
  | pauseTenant t => t
  | resumeTenant t => t
  | drainTenant t => t
  | purgeDlq t => t
  | replayDlq t => t
  | compactTenant t => t

end Request

def tierPolicy (tier tenantId : String) : NamespacePolicy :=
  if tier = "premium" then .premium tenantId else .standard tenantId

def NamespacePolicyRequest.policy (r : NamespacePolicyRequest) : NamespacePolicy where
  tenantId := r.tenantId
  «namespace» := r.tenantId
  weight := 10
  maxInflight := 500
  burstTokens := 100
  ratePerSec := 100
  backlogQuota := if r.backlogQuota = 0 then none else some r.backlogQuota
  backlogPolicy :=
    if r.backlogPolicy = "block" then .block r.blockTimeoutMs
    else if r.backlogPolicy = "evict_oldest" then .evictOldest
    else .reject
  retention :=
    { pendingRetentionSecs := r.pendingRetentionSecs
      dlqRetentionSecs := if r.dlqRetentionSecs = 0 then 7 * 24 * 3600 else r.dlqRetentionSecs
      inflightStaleSecs := if r.inflightStaleSecs = 0 then 300 else r.inflightStaleSecs }

def Policy.toTenantPolicy (p : Policy) (tenantId : String) : TenantPolicy where
  tenantId := tenantId
  weight := p.weight
  maxInflight := p.maxInflight
  burstTokens := p.burstTokens
  ratePerSec := p.ratePerSec

namespace Server
variable {R : Type} [F64 R]

/-- The throttle, with the parts of the server that it shares. -/
def throttle (s : Server R) : AutoThrottle R where
  config := .default
  states := s.throttles
  scheduler := s.scheduler
  baselines := s.baselines
  store := s.registry.db

def withThrottle (s : Server R) (a : AutoThrottle R) : Server R :=
  { s with
    registry := { s.registry with db := a.store }
    scheduler := a.scheduler
    baselines := a.baselines
    throttles := a.states }

def setDb (s : Server R) (db : Database R) : Server R := { s with registry := { s.registry with db := db } }

/-! ## Start-up -/

/-- What is registered for a tenant, here and when it is provisioned. -/
def registerTenant (s : Server R) (tenantId : String) (policy : NamespacePolicy) (clock : Clock) : Server R :=
  { s with
    scheduler := s.scheduler.register (policy.toTenantPolicy tenantId) clock.instant
    collector := s.collector.register tenantId clock.instant
    baselines := s.baselines.register tenantId 0.0 (s.registry.db.loadBaseline tenantId) clock.millis }

/-- The loop over the restored tenants. -/
def registerTenants (s : Server R) (tenants : List String) (clock : Clock) : Server R :=
  tenants.foldl
    (fun s tenantId =>
      match s.registry.getPolicy tenantId with
      | some policy => s.registerTenant tenantId policy clock
      | none => s) s

/-- `main`, up to the point where the server takes requests; `none` when the database does not open. -/
def main (db : Database R) (clock : Clock) : Option (Server R) :=
  match TenantRegistry.open db clock.millis with
  | none => none
  | some registry =>
    let s : Server R := ⟨registry, .new, .empty, .empty, .empty, 0⟩
    let s := s.withThrottle (s.throttle.restoreFromStore clock.millis clock.instant)
    let s := s.registerTenants registry.listTenants clock
    some { s with collector := s.collector.warmFromStore (s.registry.db.loadAllStats clock.millis) }

/-- The server after a first start. -/
def empty : Server R := ⟨⟨⟨some .empty, ∅⟩, 0, ∅⟩, .new, .empty, .empty, .empty, 0⟩

example : main (.fresh : Database Rat) ⟨0, 0⟩ = some .empty := rfl

/-! ## Requests -/

/-- Whether the tenant was provisioned comes second. -/
def provisionTenant (s : Server R) (tenantId tier : String) (clock : Clock) : Server R × Bool :=
  match s.registry.provisionTenant tenantId (tierPolicy tier tenantId) with
  | (registry, false) => ({ s with registry := registry }, false)
  | (registry, true) => ({ s with registry := registry }.registerTenant tenantId (tierPolicy tier tenantId) clock, true)

def dropTenant (s : Server R) (tenantId : String) : Server R × Bool :=
  match s.registry.dropTenant tenantId with
  | (registry, false) => ({ s with registry := registry }, false)
  | (registry, true) =>
    ({ s with
        registry := registry
        scheduler := s.scheduler.deregister tenantId
        collector := s.collector.deregister tenantId
        baselines := s.baselines.deregister tenantId }, true)

def updatePolicy (s : Server R) (tenantId : String) (policy : Option Policy) (clock : Clock) : Server R :=
  match policy with
  | none => s
  | some p => { s with scheduler := s.scheduler.updatePolicy (p.toTenantPolicy tenantId) clock.instant }

def setNamespacePolicy (s : Server R) (r : NamespacePolicyRequest) : Server R :=
  { s with registry := (s.registry.updateNamespacePolicy r.tenantId r.policy).1 }

/-- An undisturbed call on a tenant whose families exist, and what it returned; without them it fails. The
    result is `none` when the call has not returned. -/
def callTenant (s : Server R) (tenantId : String) (io : Inputs) (call : Call) : Option (Server R × Option Reply) :=
  match s.registry.db.tenantDb? tenantId with
  | none => some (s, none)
  | some db =>
    match Tenant.exec tenantId ⟨db, s.registry.seq⟩ io call with
    | none => none
    | some (t, reply) =>
      some ({ s with
          registry := { s.registry with db := s.registry.db.setTenantDb tenantId t.db, seq := t.seq } }, some reply)

omit [F64 R] in
/-- A call changes the records of its tenant and draws numbers, if the tenant has families. -/
theorem callTenant_cases {s s' : Server R} {tenantId : String} {io : Inputs} {call : Call} {reply : Option Reply}
    (h : s.callTenant tenantId io call = some (s', reply)) :
    (s.registry.db.tenantDb? tenantId = none ∧ s' = s ∧ reply = none) ∨
      ∃ db t returned, s.registry.db.tenantDb? tenantId = some db ∧
        Tenant.exec tenantId ⟨db, s.registry.seq⟩ io call = some (t, returned) ∧
        s' = { s with registry := { s.registry with db := s.registry.db.setTenantDb tenantId t.db, seq := t.seq } } ∧
        reply = some returned := by
  unfold callTenant at h
  split at h
  · rename_i hnone
    cases h
    exact Or.inl ⟨hnone, rfl, rfl⟩
  · rename_i db hdb
    split at h
    · cases h
    · rename_i t returned hexec
      cases h
      exact Or.inr ⟨db, t, returned, hdb, hexec, rfl, rfl⟩

/-- A call on a tenant that has a policy, and what the collector records when it is done. -/
def withPolicy (s : Server R) (tenantId : String) (io : Inputs) (call : NamespacePolicy → Call)
    (record : Reply → StatsCollector R → StatsCollector R) : Option (Server R) :=
  match s.registry.getPolicy tenantId with
  | none => some s
  | some policy =>
    (s.callTenant tenantId io (call policy)).map fun
      | (s', some reply) => { s' with collector := record reply s'.collector }
      | (s', none) => s'

/-- The same for a call that does not look at the policy. -/
def withoutPolicy (s : Server R) (tenantId : String) (io : Inputs) (call : Call)
    (record : Reply → StatsCollector R → StatsCollector R) : Option (Server R) :=
  (s.callTenant tenantId io call).map fun
    | (s', some reply) => { s' with collector := record reply s'.collector }
    | (s', none) => s'

def recordEnqueued (tenantId : String) (count : Nat) : Reply → StatsCollector R → StatsCollector R
  | .enqueued _, c => c.recordEnqueue tenantId count
  | _, c => c

def enqueueTask (s : Server R) (tenantId queue : String) (payload : Bytes) (io : Inputs) : Option (Server R) :=
  s.withPolicy tenantId io (.enqueueBatch (queueOrDefault queue) [payload]) (recordEnqueued tenantId 1)

def enqueueBatch (s : Server R) (tenantId queue : String) (payloads : List Bytes) (io : Inputs) : Option (Server R) :=
  if payloads = [] then some s
  else s.withPolicy tenantId io (.enqueueBatch (queueOrDefault queue) payloads) (recordEnqueued tenantId payloads.length)

def dequeueTasks (s : Server R) (tenantId queue : String) (limit : Nat) (io : Inputs) : Option (Server R) :=
  let limit := if limit = 0 then defaultDequeueLimit else limit
  s.withPolicy tenantId io
    (fun policy => .dequeueWithMaxInflight (queueOrDefault queue) limit 60000 policy.maxInflight) fun _ c => c

def recordAcked (tenantId : String) : Reply → StatsCollector R → StatsCollector R
  | .acked counted, c => if counted.length = 1 then c.recordAck tenantId 0 else c
  | _, c => c

def recordAckedBatch (tenantId : String) : Reply → StatsCollector R → StatsCollector R
  | .acked counted, c => c.recordAckCount tenantId counted.length 0
  | _, c => c

def recordNacked (tenantId : String) : Reply → StatsCollector R → StatsCollector R
  | .done, c => c.recordNack tenantId
  | _, c => c

def ackTask (s : Server R) (tenantId : String) (key : Key) (io : Inputs) : Option (Server R) :=
  s.withoutPolicy tenantId io (.ackBatch [key]) (recordAcked tenantId)

def ackBatch (s : Server R) (tenantId : String) (keys : List Key) (io : Inputs) : Option (Server R) :=
  if keys = [] then some s else s.withoutPolicy tenantId io (.ackBatch keys) (recordAckedBatch tenantId)

def nackTask (s : Server R) (tenantId : String) (key : Key) (io : Inputs) : Option (Server R) :=
  s.withoutPolicy tenantId io (.nack key) (recordNacked tenantId)

def forceReleaseThrottle (s : Server R) (tenantId : String) (clock : Clock) : Server R :=
  s.withThrottle (s.throttle.forceRelease tenantId clock.instant)

/-- Pausing a tenant that the scheduler does not know changes nothing. -/
def setPaused (s : Server R) (tenantId : String) (paused : Bool) : Server R :=
  { s with scheduler := (s.scheduler.setPaused tenantId paused).getD s.scheduler }

/-- Whether the families of the tenant were found comes second. -/
def compactTenant (s : Server R) (tenantId : String) (c : Compaction) : Server R × Bool :=
  match s.registry.compactTenant tenantId c with
  | (registry, ok) => ({ s with registry := registry }, ok)

/-- Carry out a request; `none` when it has not returned. `drain_tenant` only reads after it has paused the
    tenant. -/
def handle (s : Server R) (clock : Clock) (io : Inputs) : Request → Option (Server R)
  | .provisionTenant tenantId tier => some (s.provisionTenant tenantId tier clock).1
  | .dropTenant tenantId => some (s.dropTenant tenantId).1
  | .updatePolicy tenantId policy => some (s.updatePolicy tenantId policy clock)
  | .setNamespacePolicy r => some (s.setNamespacePolicy r)
  | .enqueueTask tenantId queue payload => s.enqueueTask tenantId queue payload io
  | .enqueueBatch tenantId queue payloads => s.enqueueBatch tenantId queue payloads io
  | .dequeueTasks tenantId queue limit => s.dequeueTasks tenantId queue limit io
  | .ackTask tenantId key => s.ackTask tenantId key io
  | .ackBatch tenantId keys => s.ackBatch tenantId keys io
  | .nackTask tenantId key => s.nackTask tenantId key io
  | .forceReleaseThrottle tenantId => some (s.forceReleaseThrottle tenantId clock)
  | .pauseTenant tenantId => some (s.setPaused tenantId true)
  | .resumeTenant tenantId => some (s.setPaused tenantId false)
  | .drainTenant tenantId => some (s.setPaused tenantId true)
  | .purgeDlq tenantId => s.withoutPolicy tenantId io .purgeDlq fun _ c => c
  | .replayDlq tenantId => s.withoutPolicy tenantId io .replayDlq fun _ c => c
  | .compactTenant tenantId => some (s.compactTenant tenantId io.compaction).1

/-! ## The daemon and the reaper -/

/-- Step 2 of a cycle for one tenant; a depth that cannot be read is passed over. -/
def recordBacklogs (db : Database R) (queues : List String) (collector : StatsCollector R) (tenantId : String) :
    StatsCollector R :=
  match db.tenantDb? tenantId with
  | none => collector
  | some t =>
    queues.foldl
      (fun c queue => c.recordBacklog tenantId (t.countPrefix .pending queue) (t.countPrefix .inflight queue)) collector

/-- Step 3 of a cycle for one tenant: a baseline is flushed when it is promoted. -/
def updateBaseline (s : Server R) (clock : Clock) (stats : TenantStats R) : Server R :=
  match s.baselines.update stats.tenantId stats.arrivalRate clock.millis with
  | (baselines, none) => { s with baselines := baselines }
  | (baselines, some _) =>
    let s := { s with baselines := baselines }
    s.setDb (s.registry.db.flushBaselines (baselines.snapshot stats.tenantId).toList clock.millis)

/-- Step 5 of a cycle. -/
def flush (s : Server R) (snapshots : List (TenantStats R)) (clock : Clock) : Server R :=
  let db := s.registry.db.flushStats snapshots clock.millis
  s.setDb (db.flushBaselines s.baselines.allSnapshots clock.millis)

def daemonCycle (s : Server R) (clock : Clock) : Server R :=
  let cycles := (s.cycles + 1) % u64Size
  let collector :=
    s.registry.listTenants.foldl (recordBacklogs s.registry.db watchedQueues) s.collector.refresh
  let snapshots := collector.allSnapshots
  let s := snapshots.foldl (fun s stats => s.updateBaseline clock stats) { s with collector := collector, cycles := cycles }
  let s := s.withThrottle (s.throttle.evaluate snapshots clock.millis clock.instant)
  if cycles % 10 = 0 then s.flush snapshots clock else s

/-- Steps 1 and 2 of a cycle. -/
def counted (s : Server R) : Server R :=
  { s with
    collector := s.registry.listTenants.foldl (recordBacklogs s.registry.db watchedQueues) s.collector.refresh
    cycles := (s.cycles + 1) % u64Size }

/-- Step 3 of a cycle, for the first of its tenants. -/
def rebased (s : Server R) (clock : Clock) (snapshots : List (TenantStats R)) : Server R :=
  snapshots.foldl (fun s stats => s.updateBaseline clock stats) s.counted

theorem daemonCycle_eq (s : Server R) (clock : Clock) : s.daemonCycle clock =
    let snapshots := s.counted.collector.allSnapshots
    let s' := s.rebased clock snapshots
    let s'' := s'.withThrottle (s'.throttle.evaluate snapshots clock.millis clock.instant)
    if (s.cycles + 1) % u64Size % 10 = 0 then s''.flush snapshots clock else s'' :=
  rfl

/-- One sweep of a tick; an error is only logged. -/
def reapQueue (db : Database R) (tenantId queue : String) (now : Nat) : Database R :=
  match db.tenantDb? tenantId with
  | none => db
  | some t => db.setTenantDb tenantId (t.reapInflight queue now)

def reapTenant (now : Nat) (db : Database R) (tenantId : String) : Database R :=
  watchedQueues.foldl (fun db queue => reapQueue db tenantId queue now) db

def reaperTick (s : Server R) (now : Nat) : Server R :=
  s.setDb (s.registry.listTenants.foldl (reapTenant now) s.registry.db)

/-- RocksDB compacts the families of a tenant by itself. -/
def compact (s : Server R) (tenantId : String) (c : Compaction) : Server R := s.setDb (s.registry.db.compact tenantId c)

/-! ## Runs -/

inductive Event where
  | request (r : Request) (clock : Clock) (io : Inputs)
  | compaction (tenantId : String) (c : Compaction)
  | daemonCycle (clock : Clock)
  | reaperTick (now : Nat)
  | restart (clock : Clock)

/-- `none` when a request has not returned, or the database does not open any more. -/
def next (s : Server R) : Event → Option (Server R)
  | .request r clock io => s.handle clock io r
  | .compaction tenantId c => some (s.compact tenantId c)
  | .daemonCycle clock => some (s.daemonCycle clock)
  | .reaperTick now => some (s.reaperTick now)
  | .restart clock => main s.registry.db clock

/-- The server comes to this state after it was first started on an empty path. -/
def Reached (s : Server R) : Prop :=
  ∃ s₀ clock, main (.fresh : Database R) clock = some s₀ ∧ Runs.Run next (fun _ _ => True) s₀ s

end Server

end RocksQueue
