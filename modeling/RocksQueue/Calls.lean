import RocksQueue.Reaper

/-! # Calls

The calls that change a tenant's records, and an undisturbed call as one step from what it finds to what
it leaves and returns. -/

namespace RocksQueue

/-- `dequeue` is `dequeueBatch` with the default timeout, and `ack` is `ackBatch` of one key. -/
inductive Call where
  | enqueueBatch (queue : String) (payloads : List Bytes) (policy : NamespacePolicy)
  | dequeueBatch (queue : String) (limit visibilityTimeoutMs : Nat)
  | dequeueWithMaxInflight (queue : String) (limit visibilityTimeoutMs maxInflight : Nat)
  | ackBatch (keys : List Key)
  | nack (key : Key)
  | cumulativeAck (queue : String) (upToSeq : Nat)
  | reapInflight (queue : String)
  | purgeDlq
  | replayDlq

/-- What a call returns. `ack_batch` returns the number of the keys in `acked`. -/
inductive Reply where
  | enqueued (ids : List String)
  | delivered (results : List (Key × Task))
  | acked (counted : List Key)
  | count (n : Nat)
  | done
  | failed (e : QueueError)
  deriving DecidableEq, Repr

/-- What is delivered. -/
def Reply.results : Reply → List (Key × Task)
  | .delivered results => results
  | _ => []

def Reply.ofExcept {α : Type} (ok : α → Reply) : Except QueueError α → Reply
  | .ok a => ok a
  | .error e => .failed e

/-- An undisturbed call; `none` when it has not returned. -/
def Tenant.exec (tenant : String) (t : Tenant) (io : Inputs) : Call → Option (Tenant × Reply)
  | .enqueueBatch queue payloads policy =>
    (t.enqueueBatchSync tenant queue payloads policy io).map fun r => (r.1, .ofExcept .enqueued r.2)
  | .dequeueBatch queue limit timeout =>
    let r := t.db.dequeueBatch queue limit timeout io.now
    some ({ t with db := r.1 }, .delivered r.2)
  | .dequeueWithMaxInflight queue limit timeout maxInflight =>
    let r := t.db.dequeueWithMaxInflight queue limit timeout maxInflight io.now
    some ({ t with db := r.1 }, .delivered r.2)
  | .ackBatch keys =>
    let r := t.db.ackBatch keys
    some ({ t with db := r.1 }, .acked r.2)
  | .nack key => some (t.nack key io.now, .done)
  | .cumulativeAck queue upToSeq =>
    let r := t.db.cumulativeAck queue upToSeq
    some ({ t with db := r.1 }, .count r.2)
  | .reapInflight queue => some ({ t with db := t.db.reapInflight queue io.now }, .done)
  | .purgeDlq =>
    let r := t.db.purgeDlq
    some ({ t with db := r.1 }, .count r.2)
  | .replayDlq =>
    let r := t.replayDlq
    some (r.1, .ofExcept .count r.2)

end RocksQueue
