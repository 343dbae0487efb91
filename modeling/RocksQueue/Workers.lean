import Mathlib.Data.Rat.Sqrt
import RocksQueue.Server
import RocksQueue.Slots

/-! # The worker pool

`fair_worker.rs`, and `allocate_slots` of `stats.rs`, which tells it how many tasks to take from which tenant. A tick
of a worker is its schedule, taken from the collector at one moment, and then one registry call after the other, with
requests and other workers in between. A run also keeps which tenants are paused, and which of their tasks were taken
nevertheless. -/

namespace RocksQueue

/-- `f64::sqrt`. -/
class F64Sqrt (R : Type) where
  sqrt : R → R

/-- Exact on the squares of rationals. -/
instance F64Sqrt.instRat : F64Sqrt Rat := ⟨Rat.sqrt⟩

variable {R : Type} [F64 R] [F64Sqrt R]

/-! ## Slots by statistics -/

/-- `min_guarantee_slots` of the collector. -/
def minGuaranteeSlots : Nat := 5

namespace TenantStats

omit [F64Sqrt R] in
/-- The tenant has not enqueued anything for more than `dormancy_threshold_secs`. -/
def dormant (s : TenantStats R) (instant : Nat) : Bool :=
  decide ((30.0 : R) < asSecsF64 (instant - s.lastEnqueueAt))

def guaranteed (s : TenantStats R) (instant : Nat) : Bool := s.isNew || s.dormant instant

/-- The arrival rate, more under backlog pressure and less for bursts; `burst_penalty` is 2. -/
def score (s : TenantStats R) : R :=
  s.arrivalRate * (1.0 + s.backlogRatio) / (1.0 + 2.0 * F64Sqrt.sqrt s.burstScore)

end TenantStats

/-- Add to the first entry of a tenant. -/
def addSlots (tenantId : String) (n : Nat) : List (String × Nat) → List (String × Nat)
  | [] => []
  | (id, slots) :: rest => if id = tenantId then (id, slots + n) :: rest else (id, slots) :: addSlots tenantId n rest

/-- The shares of the tenants that have no guarantee. -/
def normalShares (normal : List (TenantStats R)) (budget : Nat) : List (String × Nat) :=
  let scored := normal.map fun s => (s, s.score)
  let totalScore := (scored.map Prod.snd).foldl (fun a b => a + b) (0.0 : R)
  let shares :=
    if (0.0 : R) < totalScore then
      scored.map fun s => (s.1.tenantId, F64.toUnsigned u64Size (F64.ofNat budget * (s.2 / totalScore) : R))
    else []
  let leftover := shares.foldl (fun left a => left - a.2) budget
  if 0 < leftover then
    -- The sort is stable, the largest backlog first.
    match (scored.insertionSort fun a b => ¬a.1.backlogRatio < b.1.backlogRatio) with
    | [] => shares
    | first :: _ => addSlots first.1.tenantId leftover shares
  else shares

/-- `allocate_slots`: the normal tenants share what the guarantees leave, and the others get theirs. -/
def StatsCollector.allocateSlots (c : StatsCollector R) (totalSlots instant : Nat) : List (String × Nat) :=
  if totalSlots = 0 then []
  else
    let all := c.allSnapshots
    let guaranteed := all.filter fun s => s.guaranteed instant
    let normal := all.filter fun s => !s.guaranteed instant
    let guaranteedBudget := min (minGuaranteeSlots * guaranteed.length) totalSlots
    let allocations := normalShares normal (totalSlots - guaranteedBudget) ++
      guaranteed.map fun s => (s.tenantId, minGuaranteeSlots)
    allocations.filter fun a => 0 < a.2

/-! ## Workers -/

structure FairWorkerPool where
  queues : List String
  concurrency : Nat
  totalSlots : Nat

/-- What a worker has to do next: a call of `dequeue`, or the handler for a task and the call after it. -/
inductive Work where
  | dequeue (tenantId queue : String) (slots : Nat)
  | process (tenantId : String) (key : Key) (task : Task)
  deriving DecidableEq, Repr

namespace FairWorkerPool

def workerSlots (p : FairWorkerPool) : Nat := max (p.totalSlots / p.concurrency) 1

/-- The calls that a tick starts out with. -/
def tick (p : FairWorkerPool) (c : StatsCollector R) (instant : Nat) : List Work :=
  ((c.allocateSlots p.workerSlots instant).filter fun a => a.2 ≠ 0).flatMap fun a =>
    p.queues.map fun queue => .dequeue a.1 queue a.2

end FairWorkerPool

namespace Server

omit [F64Sqrt R] in
/-- The key was still inflight, and the latency is recorded. -/
def recordHandled (tenantId : String) (latencyMs : Nat) : Reply → StatsCollector R → StatsCollector R
  | .acked counted, c => if counted.length = 1 then c.recordAck tenantId latencyMs else c
  | _, c => c

/-- `process_task`, with the time that the handler took, or `none` when it failed. -/
def processTask (s : Server R) (tenantId : String) (key : Key) (io : Inputs) : Option Nat → Option (Server R)
  | some latencyMs => s.withoutPolicy tenantId io (.ackBatch [key]) (recordHandled tenantId latencyMs)
  | none => { s with collector := s.collector.recordNack tenantId }.withoutPolicy tenantId io (.nack key) fun _ c => c

/-- The tasks that a dequeue returned, to be processed. -/
def processAll (tenantId : String) : Option Reply → List Work
  | some (.delivered results) => results.map fun r => .process tenantId r.1 r.2
  | _ => []

/-- One step of a worker, and what it adds to do; an error is only logged. -/
def perform (s : Server R) (io : Inputs) (handled : Option Nat) : Work → Option (Server R × List Work)
  | .dequeue tenantId queue slots =>
    (s.callTenant tenantId io (.dequeueBatch queue slots defaultVisibilityTimeoutMs)).map fun r =>
      (r.1, processAll tenantId r.2)
  | .process tenantId key _ => (s.processTask tenantId key io handled).map fun s => (s, [])

end Server

/-! ## Runs -/

/-- The tenant's pending tasks that are inflight, and pending no more, after a step. -/
def movedTasks (db db' : TenantDb) : List Key :=
  (db.pending.entries.filter fun e =>
    (Task.deserialize e.2).isSome && (db'.get .pending e.1).isNone && (db'.get .inflight e.1).isSome).map Prod.fst

/-- The server, and what each worker has still to do in its tick. -/
structure PoolRun (R : Type) where
  server : Server R
  workers : List (List Work)
  /-- The tenants that were paused or drained, and not resumed since. -/
  paused : List String
  /-- Their tasks that a `DequeueTasks` or a worker has taken. -/
  moved : List (String × Key)

inductive PoolEvent where
  | server (e : Server.Event)
  | tick (worker instant : Nat)
  | work (worker : Nat) (io : Inputs) (handled : Option Nat)

namespace PoolRun
variable (c : PoolRun R) (s' : Server R)

omit [F64 R] [F64Sqrt R]

def start (s : Server R) (concurrency : Nat) : PoolRun R := ⟨s, .replicate concurrency [], [], []⟩

/-- A pause succeeds for a tenant that the scheduler knows. -/
def pausedAfter : Server.Event → List String
  | .request (.pauseTenant tenantId) _ _ =>
    if (c.server.scheduler.tenants.lookup tenantId).isSome then tenantId :: c.paused else c.paused
  | .request (.drainTenant tenantId) _ _ => tenantId :: c.paused
  | .request (.resumeTenant tenantId) _ _ => c.paused.filter fun t => t ≠ tenantId
  | _ => c.paused

/-- A restart ends the ticks of all workers. -/
def workersAfter : Server.Event → List (List Work)
  | .restart _ => c.workers.map fun _ => []
  | _ => c.workers

/-- The tasks of paused tenants that a step takes. -/
def taken : List (String × Key) :=
  c.paused.flatMap fun tenantId =>
    match c.server.registry.db.tenantDb? tenantId, s'.registry.db.tenantDb? tenantId with
    | some db, some db' => (movedTasks db db').map fun key => (tenantId, key)
    | _, _ => []

/-- Deliveries are watched at the calls of `DequeueTasks`. -/
def takenBy : Server.Event → List (String × Key)
  | .request (.dequeueTasks _ _ _) _ _ => c.taken s'
  | _ => []

end PoolRun

/-- A tick starts when the worker is done with the one before. -/
def FairWorkerPool.next (p : FairWorkerPool) (c : PoolRun R) : PoolEvent → Option (PoolRun R)
  | .server e => (c.server.next e).map fun s' =>
      { server := s'
        workers := c.workersAfter e
        paused := c.pausedAfter e
        moved := c.moved ++ c.takenBy s' e }
  | .tick worker instant =>
    if c.workers[worker]? = some [] then
      some { c with workers := c.workers.set worker (p.tick c.server.collector instant) }
    else none
  | .work worker io handled =>
    match c.workers[worker]? with
    | some (item :: rest) =>
      (c.server.perform io handled item).map fun r =>
        { c with
          server := r.1
          workers := c.workers.set worker (r.2 ++ rest)
          moved := c.moved ++ c.taken r.1 }
    | _ => none

end RocksQueue
