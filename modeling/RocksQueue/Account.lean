import RocksQueue.ControlPlane

/-! # The server as one tenant has it

A tenant is provisioned, with a policy and its records, or it is not. Its requests find and leave an account, and
are answered from it; of the other tenants they see nothing but how far the counter is. -/

namespace RocksQueue

/-- What a provisioned tenant has. -/
structure Account where
  policy : NamespacePolicy
  db : TenantDb

namespace Rpc

/-- The tenant whose account the request is about. The other requests leave all accounts alone. -/
def account? : Rpc → Option String
  | provisionTenant t _ => some t
  | dropTenant t => some t
  | setNamespacePolicy r => some r.tenantId
  | getNamespacePolicy t => some t
  | enqueueTask t _ _ => some t
  | enqueueBatch t _ _ => some t
  | dequeueTasks t _ _ => some t
  | ackTask t _ => some t
  | ackBatch t _ => some t
  | nackTask t _ => some t
  | purgeDlq t => some t
  | replayDlq t => some t
  | compactTenant t => some t
  | _ => none

end Rpc

namespace Account
variable {R : Type}

/-- What a request leaves, and its answer. -/
abbrev Outcome (R : Type) := Option Account × Answer R

/-- A family that is missing. -/
def missing (x : Externals) (name : String) : Outcome R := (none, .error (queueError x (.columnFamilyMissing name)))

def answer (x : Externals) (respond : Reply → Response R) : Reply → Answer R
  | .failed e => .error (queueError x (.failed e))
  | reply => .ok (respond reply)

def call (x : Externals) (tenant : String) (seq : Nat) (io : Inputs) (a : Account) (call : Call)
    (respond : Reply → Response R) : Option (Outcome R) :=
  (Tenant.exec tenant ⟨a.db, seq⟩ io call).map fun r => (some { a with db := r.1.db }, answer x respond r.2)

def enqueue (x : Externals) (tenant : String) (seq : Nat) (io : Inputs) (queue : String) (payloads : List Bytes) :
    Option Account → Option (Outcome R)
  | none => some (none, .error (notFound "tenant not found"))
  | some a =>
    a.call x tenant seq io (.enqueueBatch (queueOrDefault queue) payloads a.policy) fun reply =>
      .enqueued tenant (queueOrDefault queue) reply.ids

def dequeue (x : Externals) (tenant : String) (seq : Nat) (io : Inputs) (queue : String) (limit : Nat) :
    Option Account → Option (Outcome R)
  | none => some (none, .error (notFound "tenant not found"))
  | some a =>
    let limit := if limit = 0 then defaultDequeueLimit else limit
    a.call x tenant seq io (.dequeueWithMaxInflight (queueOrDefault queue) limit 60000 a.policy.maxInflight) fun reply =>
      .dequeued tenant (queueOrDefault queue) (reply.results.map (dequeuedTask x))

/-- A call that needs no policy. -/
def callOr (x : Externals) (tenant : String) (seq : Nat) (io : Inputs) (family : String) (c : Call)
    (respond : Reply → Response R) : Option Account → Option (Outcome R)
  | none => some (missing x family)
  | some a => a.call x tenant seq io c respond

/-- RocksDB compacts the families. -/
def compact (c : Compaction) (a : Account) : Account := { a with db := a.db.compact c }

/-- A request of the tenant that is about its account; `none` when it has not returned. -/
def serve (x : Externals) (seq : Nat) (io : Inputs) (a : Option Account) : Rpc → Option (Outcome R)
  | .provisionTenant t tier =>
    match a with
    | none => some (some ⟨tierPolicy tier t, .empty⟩, .ok (.tenant t true "provisioned"))
    | some a => some (some a, .error (queueError x .rocksdb))
  | .dropTenant t =>
    match a with
    | none => some (none, .error (queueError x .rocksdb))
    | some _ => some (none, .ok (.tenant t true "dropped"))
  | .setNamespacePolicy r =>
    match a with
    | none => some (none, .error (queueError x (.queueNotFound ("tenant not found: " ++ r.tenantId))))
    | some a => some (some { a with policy := r.policy }, .ok (.tenant r.tenantId true "namespace policy set"))
  | .getNamespacePolicy t =>
    match a with
    | none => some (none, .error (notFound "tenant not found"))
    | some a => some (some a, .ok (.namespacePolicy (a.policy.response t)))
  | .enqueueTask t queue payload => enqueue x t seq io queue [Bytes.utf8 payload] a
  | .enqueueBatch t queue payloads =>
    if payloads = [] then some (a, .error ⟨.invalidArgument, "payloads must not be empty"⟩)
    else enqueue x t seq io queue (payloads.map Bytes.utf8) a
  | .dequeueTasks t queue limit => dequeue x t seq io queue limit a
  | .ackTask t ackKey =>
    match decodeAckKey x ackKey with
    | .error status => some (a, .error status)
    | .ok key => callOr x t seq io (cfInflight t) (.ackBatch [key]) (fun _ => .taskOp t true "acked") a
  | .ackBatch t ackKeys =>
    if ackKeys = [] then some (a, .error ⟨.invalidArgument, "ack_keys must not be empty"⟩)
    else
      match decodeAckKeys x ackKeys with
      | .error status => some (a, .error status)
      | .ok keys =>
        callOr x t seq io (cfInflight t) (.ackBatch keys)
          (fun reply => .taskOp t true ("acked " ++ toString reply.removed)) a
  | .nackTask t ackKey =>
    match decodeAckKey x ackKey with
    | .error status => some (a, .error status)
    | .ok key => callOr x t seq io (cfPending t) (.nack key) (fun _ => .taskOp t true "nacked") a
  | .purgeDlq t => callOr x t seq io (cfDlq t) .purgeDlq (fun reply => .purged t reply.removed) a
  | .replayDlq t => callOr x t seq io (cfPending t) .replayDlq (fun reply => .replayed t reply.removed) a
  | .compactTenant t =>
    match a with
    | none => some (missing x (cfPending t))
    | some a => some (some (a.compact io.compaction), .ok (.compacted t true))
  | _ => none

/-- A tick of the reaper. -/
def reap (now : Nat) (a : Account) : Account :=
  { a with db := watchedQueues.foldl (fun db queue => db.reapInflight queue now) a.db }

end Account

/-- The tenant's account with the server. -/
def Server.account {R : Type} (s : Server R) (tenant : String) : Option Account :=
  match s.registry.getPolicy tenant, s.registry.db.tenantDb? tenant with
  | some policy, some db => some ⟨policy, db⟩
  | _, _ => none

deriving instance DecidableEq for Inputs

/-- What a tenant sees of what happens to the server. -/
inductive Seen where
  | asked (rpc : Rpc) (io : Inputs) (seq : Nat)
  | reaped (now : Nat)
  | compacted (c : Compaction)
  deriving DecidableEq

/-- A tenant's account, and the answers to its requests. -/
structure View (R : Type) where
  account : Option Account
  answers : List (Rpc × Answer R)

namespace View
variable {R : Type}

/-- The view of a tenant that has made no request. -/
def start : View R := ⟨none, []⟩

def next (x : Externals) (v : View R) : Seen → Option (View R)
  | .asked rpc io seq => (Account.serve x seq io v.account rpc).map fun r => ⟨r.1, v.answers ++ [(rpc, r.2)]⟩
  | .reaped now => some { v with account := v.account.map (Account.reap now) }
  | .compacted c => some { v with account := v.account.map (Account.compact c) }

end View

namespace Session
variable {R : Type}

/-- A tenant sees its own requests, with the counter that they find, the ticks of the reaper, and the compactions of its
    families. -/
def see (tenant : String) (c : Session R) : Traffic → Option Seen
  | .rpc rpc _ io => if rpc.account? = some tenant then some (.asked rpc io c.server.registry.seq) else none
  | .compaction t compaction => if t = tenant then some (.compacted compaction) else none
  | .daemonCycle _ => none
  | .reaperTick now => some (.reaped now)
  | .restart _ => none

def view (tenant : String) (c : Session R) : View R where
  account := c.server.account tenant
  answers := c.answers.filter fun a => a.1.account? = some tenant

end Session

end RocksQueue
