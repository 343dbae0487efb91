import RocksQueue.Concurrent

/-! # Draining a tenant

`drain_tenant` pauses the tenant and then reads the depth of the first configured queue until it finds nothing or
its time is up. Each of the three scans of `depth` is a step, and the calls on the tenant take theirs in between. -/

namespace RocksQueue

/-- Where the loop stands: about to scan a family, or asleep until a time. -/
inductive DrainFrame where
  | scanPending
  | scanInflight (pending : Nat)
  | scanDlq (pending inflight : Nat)
  | sleeping (wake : Nat)
  | returned (drained : Bool) (remaining : Nat)
  deriving DecidableEq, Repr

/-- `self.queues.first()`, or the empty name when there is none. -/
def drainedQueue (queues : List String) : String := queues.head?.getD ""

/-- The next step of the loop; the third count is not used. -/
def DrainFrame.step (db : TenantDb) (queue : String) (deadline now : Nat) : DrainFrame → Option DrainFrame
  | .scanPending => some (.scanInflight (db.countPrefix .pending queue))
  | .scanInflight pending => some (.scanDlq pending (db.countPrefix .inflight queue))
  | .scanDlq pending inflight =>
    if pending = 0 ∧ inflight = 0 then some (.returned true 0)
    else if deadline ≤ now then some (.returned false (pending + inflight))
    else some (.sleeping (now + 500))
  | .sleeping wake => if wake ≤ now then some .scanPending else none
  | .returned _ _ => none

/-- A drain among the calls on its tenant. -/
structure DrainRun where
  pool : Interleaving.Config Shared Frame
  deadline : Nat
  drain : DrainFrame

inductive DrainLabel where
  | pool (l : Interleaving.Label Call StepInput)
  | drain (now : Nat)

namespace DrainRun

/-- The request arrives. No call reads whether the tenant is paused. -/
def start (pool : Interleaving.Config Shared Frame) (now timeoutSecs : Nat) : DrainRun where
  pool := pool
  deadline := now + max timeoutSecs 1 * 1000
  drain := .scanPending

def next (tenant : String) (queues : List String) (c : DrainRun) : DrainLabel → Option DrainRun
  | .pool l => ((system tenant).next c.pool l).map fun pool => { c with pool := pool }
  | .drain now =>
    (c.drain.step c.pool.shared.db (drainedQueue queues) c.deadline now).map fun drain => { c with drain := drain }

end DrainRun

end RocksQueue
