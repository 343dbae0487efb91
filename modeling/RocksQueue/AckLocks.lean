import RocksQueue.Concurrent
import RocksQueue.LockTable

/-! # The table of ack locks

`ack_locks` of `tenant.rs`, under the calls of `ack_batch` on all tenants and those of `drop_tenant`, which
remove entries. A call first takes the mutexes of all its queues out of the table, and then locks one after
the other. -/

namespace RocksQueue
open Interleaving

/-- A mutex: the entry for which it was made, and a number. -/
structure AckMutex where
  name : String
  number : Nat
  deriving DecidableEq, Repr

/-- What the calls share. `holders` says which thread has a mutex locked. -/
structure AckTable (R : Type) where
  registry : TenantRegistry R
  ackLocks : String → Option AckMutex
  made : Nat
  holders : AckMutex → Option Nat

/-- Where a call stands. `todo` holds what is left of the loop that the call is in. -/
inductive AckFrame (R : Type) where
  | start (tenant : String) (keys : List Key)
  | fetch (tenant : String) (keys : List Key) (locks : List AckMutex) (todo : List String)
  | lock (tenant : String) (keys : List Key) (guards todo : List AckMutex)
  | get (tenant : String) (key : Key) (todo seen counted : List Key) (guards : List AckMutex)
  | write (tenant : String) (counted : List Key) (guards : List AckMutex)
  | unlock (guards : List AckMutex)
  | drop (tenant : String) (todo : List (DbStep R))
  | clear (tenant : String)
  | returned

inductive AckCall where
  | ackBatch (tenant : String) (keys : List Key)
  | dropTenant (tenant : String)

namespace AckTable
variable {R : Type}

/-- A process that has opened its database; no call has asked for a lock yet. -/
def start (registry : TenantRegistry R) : AckTable R where
  registry := registry
  ackLocks := fun _ => none
  made := 0
  holders := fun _ => none

/-- The mutex of the entry, which is made when there is none. -/
def ackLock (s : AckTable R) (tenant queue : String) : AckTable R × AckMutex :=
  let name := lockName tenant queue
  match s.ackLocks name with
  | some mutex => (s, mutex)
  | none =>
    let mutex : AckMutex := ⟨name, s.made⟩
    ({ s with
        ackLocks := fun n => if n = name then some mutex else s.ackLocks n
        made := s.made + 1 }, mutex)

/-- `none` while a thread holds the mutex, be it thread `i` itself. -/
def lock (s : AckTable R) (i : Nat) (mutex : AckMutex) : Option (AckTable R) :=
  if s.holders mutex = none then
    some { s with holders := fun m => if m = mutex then some i else s.holders m }
  else none

def unlock (s : AckTable R) (mutex : AckMutex) : AckTable R :=
  { s with holders := fun m => if m = mutex then none else s.holders m }

/-- The `retain` of `drop_tenant` on `ack_locks`. -/
def retain (s : AckTable R) (tenant : String) : AckTable R :=
  { s with ackLocks := fun name => if startsWithTenant tenant name then none else s.ackLocks name }

def setDb (s : AckTable R) (db : Database R) : AckTable R :=
  { s with registry := { s.registry with db := db } }

def setPolicies (s : AckTable R) (policies : DashMap NamespacePolicy) : AckTable R :=
  { s with registry := { s.registry with policies := policies } }

/-- The batch of deletes; `none` when the family does not exist. -/
def deleteInflight (s : AckTable R) (tenant : String) (keys : List Key) : Option (AckTable R) :=
  (s.registry.db.cfs.lookup (cfInflight tenant)).map fun cf =>
    s.setDb { s.registry.db with cfs := s.registry.db.cfs.insert (cfInflight tenant) (keys.foldl OrderedMap.erase cf) }

end AckTable

namespace AckFrame
variable {R : Type}

/-- The loop over the keys of `ack_batch`: on to the next key not seen yet. -/
def nextGet (tenant : String) (guards : List AckMutex) : List Key → List Key → List Key → AckFrame R
  | [], _, counted => if counted = [] then .unlock guards else .write tenant counted guards
  | key :: todo, seen, counted =>
    if key ∈ seen then nextGet tenant guards todo seen counted else .get tenant key todo (key :: seen) counted guards

/-- The loop over the mutexes. -/
def nextLock (tenant : String) (keys : List Key) (guards : List AckMutex) : List AckMutex → AckFrame R
  | [] => nextGet tenant guards keys [] []
  | mutex :: todo => .lock tenant keys guards (mutex :: todo)

/-- The loop over the queues. -/
def nextFetch (tenant : String) (keys : List Key) (locks : List AckMutex) : List String → AckFrame R
  | [] => nextLock tenant keys [] locks
  | queue :: todo => .fetch tenant keys locks (queue :: todo)

/-- The next atomic step; `none` when it has to wait, or has returned. `fails` says that RocksDB fails, should
    the step ask it for something: then the call ends with an error. -/
def step (s : AckTable R) (i : Nat) (f : AckFrame R) (fails : Bool) : Option (AckTable R × AckFrame R) :=
  match f with
  | .start tenant keys =>
    some (s, if cfInflight tenant ∈ s.registry.db.cfs then nextFetch tenant keys [] (Frame.ackQueues keys) else .returned)
  | .fetch _ _ _ [] => none
  | .fetch tenant keys locks (queue :: todo) =>
    let (s', mutex) := s.ackLock tenant queue
    some (s', nextFetch tenant keys (locks ++ [mutex]) todo)
  | .lock _ _ _ [] => none
  | .lock tenant keys guards (mutex :: todo) =>
    (s.lock i mutex).map fun s' => (s', nextLock tenant keys (guards ++ [mutex]) todo)
  | .get tenant key todo seen counted guards =>
    match fails, s.registry.db.cfs.lookup (cfInflight tenant) with
    | false, some cf =>
      some (s, nextGet tenant guards todo seen (if (cf.get? key).isSome then counted ++ [key] else counted))
    | _, _ => some (s, .unlock guards)
  | .write tenant counted guards =>
    match fails, s.deleteInflight tenant counted with
    | false, some s' => some (s', .unlock guards)
    | _, _ => some (s, .unlock guards)
  -- The guards are dropped in the order of the vector.
  | .unlock [] => some (s, .returned)
  | .unlock (mutex :: guards) => some (s.unlock mutex, .unlock guards)
  | .drop tenant [] => some (s.setPolicies (s.registry.policies.erase tenant), .clear tenant)
  | .drop tenant (d :: todo) =>
    match fails, s.registry.db.apply d with
    | false, some db => some (s.setDb db, .drop tenant todo)
    | _, _ => some (s, .returned)
  | .clear tenant => some (s.retain tenant, .returned)
  | .returned => none

/-- The mutexes whose guards the call holds. -/
def guards : AckFrame R → List AckMutex
  | .lock _ _ guards _ => guards
  | .get _ _ _ _ _ guards => guards
  | .write _ _ guards => guards
  | .unlock guards => guards
  | _ => []

/-- The mutex that the call locks next. -/
def awaited : AckFrame R → Option AckMutex
  | .lock _ _ _ (mutex :: _) => some mutex
  | _ => none

end AckFrame

def AckCall.start {R : Type} : AckCall → AckFrame R
  | .ackBatch tenant keys => .start tenant keys
  | .dropTenant tenant => .drop tenant (dropSteps tenant)

/-- The calls, and no one else, act on the table. -/
def ackTableSystem (R : Type) : System (AckTable R) (AckFrame R) AckCall Bool where
  start := AckCall.start
  step := AckFrame.step
  env := id

end RocksQueue
