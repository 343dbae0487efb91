import RocksQueue.Calls
import RocksQueue.Lib.Runs
import RocksQueue.Registry
import RocksQueue.StatsStore

/-! # Operations on the stored data

The operations of `TenantRegistry`, of the reaper and of `StatsStore` that write to the database, each of
which is addressed to one tenant, and the restarts of the process in between. -/

namespace RocksQueue

/-- `reap_inflight` looks the families up by names that it builds itself. -/
def reaperInflight (tenant : String) : String := tenant ++ "__inflight"

def reaperPending (tenant : String) : String := tenant ++ "__pending"

def reaperDlq (tenant : String) : String := tenant ++ "__dlq"

inductive Operation (R : Type) where
  | provisionTenant (tenant : String) (policy : NamespacePolicy)
  | updateNamespacePolicy (tenant : String) (policy : NamespacePolicy)
  | dropTenant (tenant : String)
  | call (tenant : String) (io : Inputs) (call : Call)
  | compactTenant (tenant : String) (c : Compaction)
  | reapInflight (tenant queue : String) (now : Nat)
  | store (w : StoreWrite R)

/-- An operation, an operation of which RocksDB carries out `n` durable steps only and then fails, a compaction that
    RocksDB runs by itself, or a restart of the process: on its own, or because it crashed after `n` durable steps of an
    operation. -/
inductive DataEvent (R : Type) where
  | operation (op : Operation R)
  | fails (op : Operation R) (n : Nat)
  | compaction (tenant : String) (c : Compaction)
  | restart (now : Nat)
  | crash (op : Operation R) (n now : Nat)

variable {R : Type}

namespace Operation

/-- The tenant that the operation is addressed to. -/
def tenant : Operation R → String
  | .provisionTenant tenant _ => tenant
  | .updateNamespacePolicy tenant _ => tenant
  | .dropTenant tenant => tenant
  | .call tenant _ _ => tenant
  | .compactTenant tenant _ => tenant
  | .reapInflight tenant _ _ => tenant
  | .store w => w.tenantId

/-- The durable steps of the operations that take several. -/
def steps : Operation R → List (DbStep R)
  | .provisionTenant tenant policy => provisionSteps tenant policy
  | .dropTenant tenant => dropSteps tenant
  | _ => []

end Operation

/-- `reap_inflight`: it fails when a family is missing. -/
def Database.reapInflight (db : Database R) (tenant queue : String) (now : Nat) : Database R :=
  match db.cfs.lookup (reaperInflight tenant), db.cfs.lookup (reaperPending tenant), db.cfs.lookup (reaperDlq tenant) with
  | some inflight, some pending, some dlq =>
    let t := TenantDb.reapInflight ⟨pending, inflight, dlq⟩ queue now
    let cfs := (db.cfs.insert (reaperPending tenant) t.pending).insert (reaperInflight tenant) t.inflight
    { db with cfs := cfs.insert (reaperDlq tenant) t.dlq }
  | _, _, _ => db

/-- The families that a call looks up before it reads or writes anything. `dequeue_with_max_inflight` may return, or
    fail, with less, but not do anything. -/
def Call.families : Call → List Cf
  | .enqueueBatch _ _ policy => if policy.backlogQuota.isNone then [.pending] else [.pending, .inflight, .dlq]
  | .dequeueBatch _ limit _ => if limit = 0 then [] else [.pending, .inflight, .dlq]
  | .dequeueWithMaxInflight _ _ _ maxInflight => if maxInflight = 0 then [] else [.pending, .inflight, .dlq]
  | .ackBatch _ => [.inflight]
  | .nack _ => [.pending, .inflight, .dlq]
  | .cumulativeAck _ _ => [.inflight]
  | .reapInflight _ => [.pending, .inflight, .dlq]
  | .purgeDlq => [.dlq]
  | .replayDlq => [.pending, .dlq]

/-- The tenant has these families. -/
def Database.hasFamilies (db : Database R) (tenant : String) (families : List Cf) : Bool :=
  families.all fun c => decide (c.name tenant ∈ db.cfs)

namespace TenantRegistry

/-- A call on a tenant, which fails when a family that it uses is missing; `none` when it has not returned. -/
def callTenant (r : TenantRegistry R) (tenant : String) (io : Inputs) (call : Call) : Option (TenantRegistry R) :=
  if r.db.hasFamilies tenant call.families then
    (Tenant.exec tenant ⟨r.db.someTenantDb tenant, r.seq⟩ io call).map fun (t, _) =>
      { r with db := r.db.putSomeTenantDb tenant t.db, seq := t.seq }
  else some r

def operate (r : TenantRegistry R) : Operation R → Option (TenantRegistry R)
  | .provisionTenant tenant policy => some (r.provisionTenant tenant policy).1
  | .updateNamespacePolicy tenant policy => some (r.updateNamespacePolicy tenant policy).1
  | .dropTenant tenant => some (r.dropTenant tenant).1
  | .call tenant io call => r.callTenant tenant io call
  | .compactTenant tenant c => some (r.compactTenant tenant c).1
  | .reapInflight tenant queue now => some { r with db := r.db.reapInflight tenant queue now }
  | .store w => some { r with db := r.db.store w }

/-- The database after the first `n` durable steps. -/
def stopped (r : TenantRegistry R) (op : Operation R) (n : Nat) : Database R := (r.db.carryOut (op.steps.take n)).1

def next (r : TenantRegistry R) : DataEvent R → Option (TenantRegistry R)
  | .operation op => r.operate op
  | .fails op n => if n < op.steps.length then some { r with db := r.stopped op n } else none
  | .compaction tenant c => some { r with db := r.db.compact tenant c }
  | .restart now => TenantRegistry.open r.db now
  | .crash op n now => TenantRegistry.open (r.stopped op n) now

/-- The process comes to this state from an empty disk. -/
def Reached (r : TenantRegistry R) : Prop :=
  ∃ r₀ now, TenantRegistry.open (.fresh : Database R) now = some r₀ ∧ Runs.Run next (fun _ _ => True) r₀ r

end TenantRegistry

end RocksQueue
