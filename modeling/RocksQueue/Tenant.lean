import RocksQueue.Filters

/-! # The queue operations of the registry

`tenant.rs`, for one provisioned tenant. What an operation writes is a function of what it has read, so
each operation is split at its reads: the `…Loop` and `…Batch` functions build the write batch from the
records read, and the functions named after the source run an undisturbed call. -/

namespace RocksQueue

def defaultVisibilityTimeoutMs : Nat := 60000

/-- `max_attempts` in `nack`. -/
def maxAttempts : Nat := 5

/-- The counter after `next_seq` handed out one number (`fetch_add` wraps). -/
def nextSeq (seq : Nat) : Nat := (seq + 1) % u64Size

theorem nextSeq_eq {seq : Nat} (h : seq + 1 < u64Size) : nextSeq seq = seq + 1 := Nat.mod_eq_of_lt h

/-- The counter after `n` numbers. -/
def advance (seq n : Nat) : Nat := (seq + n) % u64Size

theorem advance_zero {seq : Nat} (h : seq < u64Size) : advance seq 0 = seq := Nat.mod_eq_of_lt h

theorem advance_succ (seq n : Nat) : advance (nextSeq seq) n = advance seq (n + 1) := by
  simp only [advance, nextSeq, Nat.mod_add_mod]
  congr 1
  omega

/-- `{tenant}/{queue}`. -/
def lockName (tenant queue : String) : String := tenant ++ "/" ++ queue

/-- One tenant's records, and the sequence counter that it shares with the other tenants. -/
structure Tenant where
  db : TenantDb
  seq : Nat

/-- `TenantRegistry::open`: the records stay, and the counter starts from the wall clock. -/
def Tenant.open (t : Tenant) (now : Nat) : Tenant := { t with seq := now % u64Size }

/-- What a call takes from outside: the clock, the clock readings of the wait loop under
    `BacklogPolicy::Block`, the clock when an enqueue makes its tasks, the generated task ids, and what RocksDB does
    when it is told to compact. -/
structure Inputs where
  now : Nat
  polls : List Nat := []
  madeAt : Nat := now
  ids : List String := []
  compaction : Compaction := .none

/-! ## Enqueue -/

def quotaExceeded (tenant queue : String) (current quota incoming : Nat) : QueueError :=
  .backlogQuotaExceeded tenant queue current quota incoming

/-- The wait loop of `BacklogPolicy::Block`, over the backlog and the clock that it reads each time
    round; `none` while it still waits. -/
def waitLoop (tenant queue : String) (quota incoming deadline : Nat) : List (Nat × Nat) → Option (Except QueueError Unit)
  | [] => none
  | (current, now) :: rest =>
    if current + incoming ≤ quota then some (.ok ())
    else if deadline ≤ now then some (.error (quotaExceeded tenant queue current quota incoming))
    else waitLoop tenant queue quota incoming deadline rest

/-- `evict_oldest_pending`: delete the first `count` of the pending records read. -/
def evictBatch (items : List (Key × Value)) (count : Nat) : WriteBatch :=
  (items.take count).map fun item => .delete .pending item.1

/-- `enforce_quota`: the batch that evicts, or the error. -/
def enforceQuota (tenant : String) (db : TenantDb) (queue : String) (policy : NamespacePolicy) (incoming : Nat)
    (io : Inputs) : Option (Except QueueError WriteBatch) :=
  match policy.backlogQuota with
  | none => some (.ok [])
  | some quota =>
    let current := db.countPrefix .pending queue + db.countPrefix .inflight queue
    match policy.backlogPolicy with
    | .reject =>
      if quota < current + incoming then some (.error (quotaExceeded tenant queue current quota incoming))
      else some (.ok [])
    | .block timeoutMs =>
      -- `now_millis() + timeout_ms` wraps in a release build.
      let deadline := (io.now + timeoutMs) % u64Size
      match waitLoop tenant queue quota incoming deadline (io.polls.map fun now => (current, now)) with
      | none => none
      | some (.error e) => some (.error e)
      | some (.ok ()) => some (.ok [])
    | .evictOldest =>
      if quota < current + incoming then
        some (.ok (evictBatch (db.scanQueue .pending queue) (current + incoming - quota)))
      else some (.ok [])

def newTask (queue : String) (payload : Bytes) (id : String) (now : Nat) : Task where
  id := id
  queue := queue
  payload := payload
  enqueuedAt := now
  attempts := 0
  deadline := 0

def enqueueOp (queue : String) (now seq : Nat) (payload : Bytes) (id : String) : WriteOp :=
  .put .pending (encodeKey queue seq) (newTask queue payload id now).serialize

def enqueueLoop (queue : String) (now : Nat) : Nat → List (Bytes × String) → WriteBatch
  | _, [] => []
  | seq, (payload, id) :: rest => enqueueOp queue now seq payload id :: enqueueLoop queue now (nextSeq seq) rest

namespace Tenant

/-- `none` when the call has not returned: `Block` still waits, or the inputs hold no id per payload. -/
def enqueueBatchSync (tenant : String) (t : Tenant) (queue : String) (payloads : List Bytes)
    (policy : NamespacePolicy) (io : Inputs) : Option (Tenant × Except QueueError (List String)) :=
  if io.ids.length ≠ payloads.length then none
  else
    match enforceQuota tenant t.db queue policy payloads.length io with
    | none => none
    | some (.error e) => some (t, .error e)
    | some (.ok evicted) =>
      let batch := enqueueLoop queue io.madeAt t.seq (payloads.zip io.ids)
      some (⟨(t.db.write evicted).write batch, advance t.seq payloads.length⟩, .ok io.ids)

end Tenant

/-! ## Dequeue -/

/-- What the loop of `dequeue_batch_unlocked` builds. -/
structure Delivery where
  batch : WriteBatch
  results : List (Key × Task)
  poisoned : Nat

def Delivery.empty : Delivery := ⟨[], [], 0⟩

/-- The delivered form of a pending task (`attempts` is a `u32`). -/
def Task.delivered (t : Task) (deadline : Nat) : Task :=
  { t with attempts := (t.attempts + 1) % u32Size, deadline := deadline }

/-- Move an unparseable record of `src` to the dead-letter family, in an envelope. -/
def poisonBatch (src : Cf) (queue : String) (key : Key) (raw : Bytes) (now : Nat) : WriteBatch :=
  [.delete src key, .put .dlq key (Task.poison queue raw now).serialize]

def deliverBatch (key : Key) (task : Task) : WriteBatch :=
  [.delete .pending key, .put .inflight key task.serialize]

def dequeueLoop (queue : String) (now deadline : Nat) : Nat → List (Key × Value) → Delivery
  | _, [] => .empty
  | limit, (key, .corrupt raw) :: rest =>
    let d := dequeueLoop queue now deadline limit rest
    { d with batch := poisonBatch .pending queue key raw now ++ d.batch, poisoned := d.poisoned + 1 }
  | limit, (key, .task task) :: rest =>
    let d := if limit ≤ 1 then .empty else dequeueLoop queue now deadline (limit - 1) rest
    { d with
      batch := deliverBatch key (task.delivered deadline) ++ d.batch
      results := (key, task.delivered deadline) :: d.results }

/-- The delivery built from the pending records of a queue. -/
def deliver (queue : String) (limit visibilityTimeoutMs now : Nat) (items : List (Key × Value)) : Delivery :=
  dequeueLoop queue now (saturatingAdd now visibilityTimeoutMs) limit items

namespace TenantDb

def dequeueBatchUnlocked (db : TenantDb) (queue : String) (limit visibilityTimeoutMs now : Nat) :
    TenantDb × List (Key × Task) :=
  if limit = 0 then (db, [])
  else
    let d := deliver queue limit visibilityTimeoutMs now (db.scanQueue .pending queue)
    (db.write d.batch, d.results)

def dequeueBatch (db : TenantDb) (queue : String) (limit visibilityTimeoutMs now : Nat) :
    TenantDb × List (Key × Task) :=
  db.dequeueBatchUnlocked queue limit visibilityTimeoutMs now

def dequeue (db : TenantDb) (queue : String) (limit now : Nat) : TenantDb × List (Key × Task) :=
  db.dequeueBatch queue limit defaultVisibilityTimeoutMs now

def dequeueWithMaxInflight (db : TenantDb) (queue : String) (limit visibilityTimeoutMs maxInflight now : Nat) :
    TenantDb × List (Key × Task) :=
  if maxInflight = 0 then (db, [])
  else
    let inflight := db.countPrefix .inflight queue
    if maxInflight ≤ inflight then (db, [])
    else db.dequeueBatchUnlocked queue (min limit (maxInflight - inflight)) visibilityTimeoutMs now

/-! ## Acknowledge -/

/-- The keys that `ack_batch` counts: each key once, and only while it is inflight. -/
def ackLoop (db : TenantDb) : List Key → List Key → List Key
  | _, [] => []
  | seen, key :: rest =>
    if key ∈ seen then ackLoop db seen rest
    else if (db.get .inflight key).isSome then key :: ackLoop db (key :: seen) rest
    else ackLoop db (key :: seen) rest

def ackDeletes (counted : List Key) : WriteBatch := counted.map fun key => .delete .inflight key

/-- The keys counted; the source returns their number. -/
def ackBatch (db : TenantDb) (keys : List Key) : TenantDb × List Key :=
  let counted := db.ackLoop [] keys
  (db.write (ackDeletes counted), counted)

end TenantDb

def cumulativeLoop (upToSeq : Nat) : List (Key × Value) → WriteBatch
  | [] => []
  | (key, _) :: rest =>
    match decodeKeySeq key with
    | none => cumulativeLoop upToSeq rest
    | some seq => if upToSeq < seq then [] else .delete .inflight key :: cumulativeLoop upToSeq rest

def TenantDb.cumulativeAck (db : TenantDb) (queue : String) (upToSeq : Nat) : TenantDb × Nat :=
  let batch := cumulativeLoop upToSeq (db.scanQueue .inflight queue)
  (db.write batch, batch.length)

/-! ## Negative acknowledge -/

def deadLetterBatch (key : Key) (value : Value) : WriteBatch :=
  [.delete .inflight key, .put .dlq key value]

def retryBatch (key : Key) (task : Task) (seq : Nat) : WriteBatch :=
  [.delete .inflight key, .put .pending (encodeKey task.queue seq) { task with deadline := 0 }.serialize]

namespace Tenant

def nack (t : Tenant) (key : Key) (now : Nat) : Tenant :=
  match t.db.get .inflight key with
  | none => t
  | some (.corrupt raw) =>
    { t with db := t.db.write (poisonBatch .inflight (fromUtf8Lossy (keyQueueBytes key)) key raw now) }
  | some (.task task) =>
    if maxAttempts ≤ task.attempts then { t with db := t.db.write (deadLetterBatch key task.serialize) }
    else ⟨t.db.write (retryBatch key task t.seq), nextSeq t.seq⟩

end Tenant

/-! ## Dead letters -/

def purgeBatch (items : List (Key × Value)) : WriteBatch := items.map fun item => .delete .dlq item.1

def TenantDb.purgeDlq (db : TenantDb) : TenantDb × Nat :=
  let batch := purgeBatch db.dlq.entries
  (db.write batch, batch.length)

/-- A replayed task starts over. -/
def Task.replayed (t : Task) : Task := { t with attempts := 0, deadline := 0 }

def replayOps (key : Key) (task : Task) (seq : Nat) : WriteBatch :=
  [.put .pending (encodeKey task.queue seq) task.replayed.serialize, .delete .dlq key]

/-- The loop of `replay_dlq`; `none` when a record does not deserialize. -/
def replayLoop : Nat → List (Key × Value) → Option WriteBatch
  | _, [] => some []
  | _, (_, .corrupt _) :: _ => none
  | seq, (key, .task task) :: rest =>
    match replayLoop (nextSeq seq) rest with
    | none => none
    | some batch => some (replayOps key task seq ++ batch)

/-- The numbers that `replay_dlq` draws: one for each record before the first that does not
    deserialize. -/
def replayDraws : List (Key × Value) → Nat
  | (_, .task _) :: rest => replayDraws rest + 1
  | _ => 0

def Tenant.replayDlq (t : Tenant) : Tenant × Except QueueError Nat :=
  let items := t.db.dlq.entries
  let seq := advance t.seq (replayDraws items)
  match replayLoop t.seq items with
  | none => (⟨t.db, seq⟩, .error .serialization)
  | some batch => (⟨t.db.write batch, seq⟩, .ok items.length)

/-- `depth`: the pending, inflight and dead-letter counts of a queue. -/
def TenantDb.depth (db : TenantDb) (queue : String) : Nat × Nat × Nat :=
  (db.countPrefix .pending queue, db.countPrefix .inflight queue, db.countPrefix .dlq queue)

end RocksQueue
