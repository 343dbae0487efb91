import RocksQueue.Lib.Interleaving
import RocksQueue.Registry

/-! # The table of queue locks

`queue_locks` of `tenant.rs`, under the calls that fetch a lock from it and those that change which
tenants there are. A call first takes the mutex out of the table and locks it afterwards, and
`drop_tenant` removes entries without locking any mutex. -/

namespace RocksQueue
open Interleaving

/-- What the calls share. A mutex is the number under which it was made, and `holders` says which thread
    has it locked. -/
structure LockTable (R : Type) where
  registry : TenantRegistry R
  queueLocks : String → Option Nat
  made : Nat
  holders : Nat → Option Nat

/-- The guarded sections read, draw sequence numbers and write batches; this is what one does next. -/
inductive SectionStep where
  | draw
  | write (batch : WriteBatch)
  | leave

/-- Where a call stands. `todo` holds the durable steps still to take. -/
inductive LockFrame (R : Type) where
  | fetch (tenant queue : String)
  | lock (tenant queue : String) (mutex : Nat)
  | inside (tenant queue : String) (mutex : Nat)
  | provision (tenant : String) (policy : NamespacePolicy) (todo : List (DbStep R))
  | drop (tenant : String) (todo : List (DbStep R))
  | clear (tenant : String)
  | returned

inductive LockCall where
  | enqueueBatchSync (tenant queue : String)
  | dequeueBatch (tenant queue : String)
  | dequeueWithMaxInflight (tenant queue : String) (maxInflight : Nat)
  | provisionTenant (tenant : String) (policy : NamespacePolicy)
  | dropTenant (tenant : String)

/-- `k.starts_with("{tenant}/")`. -/
def startsWithTenant (tenant name : String) : Bool := (tenant ++ "/").toList.isPrefixOf name.toList

namespace LockTable
variable {R : Type}

/-- A process that has opened its database; no call has asked for a lock yet. -/
def start (registry : TenantRegistry R) : LockTable R where
  registry := registry
  queueLocks := fun _ => none
  made := 0
  holders := fun _ => none

/-- The mutex of the entry, which is made when there is none. -/
def queueLock (s : LockTable R) (tenant queue : String) : LockTable R × Nat :=
  match s.queueLocks (lockName tenant queue) with
  | some mutex => (s, mutex)
  | none =>
    ({ s with
        queueLocks := fun name => if name = lockName tenant queue then some s.made else s.queueLocks name
        made := s.made + 1 }, s.made)

/-- `none` while another thread holds the mutex. -/
def lock (s : LockTable R) (i mutex : Nat) : Option (LockTable R) :=
  if s.holders mutex = none then
    some { s with holders := fun m => if m = mutex then some i else s.holders m }
  else none

def unlock (s : LockTable R) (mutex : Nat) : LockTable R :=
  { s with holders := fun m => if m = mutex then none else s.holders m }

/-- The `retain` of `drop_tenant` on `queue_locks`. -/
def retain (s : LockTable R) (tenant : String) : LockTable R :=
  { s with queueLocks := fun name => if startsWithTenant tenant name then none else s.queueLocks name }

def setDb (s : LockTable R) (db : Database R) : LockTable R :=
  { s with registry := { s.registry with db := db } }

def setPolicies (s : LockTable R) (policies : DashMap NamespacePolicy) : LockTable R :=
  { s with registry := { s.registry with policies := policies } }

end LockTable

namespace LockFrame
variable {R : Type}

/-- One step of a guarded section; it ends with an error when a family of the tenant is missing. -/
def sectionStep (s : LockTable R) (tenant queue : String) (mutex : Nat) : SectionStep → LockTable R × LockFrame R
  | .draw => ({ s with registry := { s.registry with seq := nextSeq s.registry.seq } }, .inside tenant queue mutex)
  | .write batch =>
    match s.registry.db.tenantDb? tenant with
    | none => (s.unlock mutex, .returned)
    | some t => (s.setDb (s.registry.db.setTenantDb tenant (t.write batch)), .inside tenant queue mutex)
  | .leave => (s.unlock mutex, .returned)

/-- The next atomic step; `none` when it has to wait, or has returned. -/
def step (s : LockTable R) (i : Nat) (f : LockFrame R) (a : SectionStep) : Option (LockTable R × LockFrame R) :=
  match f with
  | .fetch tenant queue =>
    let (s', mutex) := s.queueLock tenant queue
    some (s', .lock tenant queue mutex)
  | .lock tenant queue mutex => (s.lock i mutex).map fun s' => (s', .inside tenant queue mutex)
  | .inside tenant queue mutex => some (sectionStep s tenant queue mutex a)
  | .provision tenant policy [] => some (s.setPolicies (s.registry.policies.insert tenant policy), .returned)
  | .provision tenant policy (d :: todo) =>
    match s.registry.db.apply d with
    | none => some (s, .returned)
    | some db => some (s.setDb db, .provision tenant policy todo)
  | .drop tenant [] => some (s.setPolicies (s.registry.policies.erase tenant), .clear tenant)
  | .drop tenant (d :: todo) =>
    match s.registry.db.apply d with
    | none => some (s, .returned)
    | some db => some (s.setDb db, .drop tenant todo)
  | .clear tenant => some (s.retain tenant, .returned)
  | .returned => none

/-- The lock that a call has fetched and not yet released, by its name and its mutex. -/
def fetched : LockFrame R → Option (String × Nat)
  | .lock tenant queue mutex => some (lockName tenant queue, mutex)
  | .inside tenant queue mutex => some (lockName tenant queue, mutex)
  | _ => none

/-- The mutex whose guard a call holds. -/
def guard : LockFrame R → Option Nat
  | .inside _ _ mutex => some mutex
  | _ => none

/-- The call is inside the section guarded by `queue_lock(tenant, queue)`. -/
def Inside (tenant queue : String) (f : LockFrame R) : Prop := ∃ mutex, f = .inside tenant queue mutex

end LockFrame

def LockCall.start {R : Type} : LockCall → LockFrame R
  | .enqueueBatchSync tenant queue => .fetch tenant queue
  | .dequeueBatch tenant queue => .fetch tenant queue
  | .dequeueWithMaxInflight tenant queue maxInflight =>
    if maxInflight = 0 then .returned else .fetch tenant queue
  | .provisionTenant tenant policy => .provision tenant policy (provisionSteps tenant policy)
  | .dropTenant tenant => .drop tenant (dropSteps tenant)

/-- The calls, and no one else, act on the table. -/
def lockTableSystem (R : Type) : System (LockTable R) (LockFrame R) LockCall SectionStep where
  start := LockCall.start
  step := LockFrame.step
  env := id

end RocksQueue
