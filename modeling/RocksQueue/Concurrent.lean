import RocksQueue.Calls
import RocksQueue.Lib.Interleaving
import Mathlib.Data.List.Sort

/-! # Concurrent calls on a tenant

The calls of `Tenant.exec` taken apart at their atomic steps: every point read, snapshot scan and write
batch of RocksDB is one step, and so are taking a lock and drawing a sequence number. A frame holds the
local variables of a call and says which step comes next. What is read is turned into a batch by the
same functions as in an undisturbed call. -/

namespace RocksQueue

/-- An entry of `queue_locks` or of `ack_locks`. -/
inductive Lock where
  | queue (name : String)
  | ack (name : String)
  deriving DecidableEq, Repr

inductive WriteKind where
  | enqueue
  | evict
  | dequeue
  | ack
  | cumulativeAck
  | nack
  | reap
  | purge
  | replay
  deriving DecidableEq, Repr

/-- A batch that was written: by which thread, on which records, and what its call then returns (an
    eviction is followed by the enqueue). -/
structure Write where
  thread : Nat
  kind : WriteKind
  batch : WriteBatch
  before : TenantDb
  reply : Option Reply

inductive Event where
  | minted (thread : Nat) (key : Key) (id : String)
  | wrote (w : Write)

/-- What the calls on a tenant share. `issued` holds the task ids generated so far, which are distinct;
    `history` records the keys made for tasks and the batches written, and no step reads it. -/
structure Shared where
  db : TenantDb
  seq : Nat
  locks : Lock → Option Nat
  issued : List String
  history : List Event

namespace Shared

/-- A process that opens an empty tenant when the clock reads `now`. -/
def start (now : Nat) : Shared where
  db := .empty
  seq := now % u64Size
  locks := fun _ => none
  issued := []
  history := []

def acquire (s : Shared) (i : Nat) (l : Lock) : Option Shared :=
  if s.locks l = none then some { s with locks := fun l' => if l' = l then some i else s.locks l' } else none

def release (s : Shared) (ls : List Lock) : Shared :=
  { s with locks := fun l => if l ∈ ls then none else s.locks l }

def draw (s : Shared) (i : Nat) (key : Key) (id : String) : Shared :=
  { s with seq := nextSeq s.seq, history := s.history ++ [.minted i key id] }

def write (s : Shared) (i : Nat) (kind : WriteKind) (batch : WriteBatch) (reply : Option Reply) : Shared :=
  { s with db := s.db.write batch, history := s.history ++ [.wrote ⟨i, kind, batch, s.db, reply⟩] }

end Shared

structure EnqueueRequest where
  queue : String
  payloads : List Bytes
  policy : NamespacePolicy

/-- Where a call stands. `deadline` in the quota frames is that of the wait loop, once it has begun. -/
inductive Frame where
  | enqueueLock (r : EnqueueRequest)
  | quotaPending (r : EnqueueRequest) (quota : Nat) (deadline : Option Nat)
  | quotaInflight (r : EnqueueRequest) (quota : Nat) (deadline : Option Nat) (pending : Nat)
  | quotaDlq (r : EnqueueRequest) (quota : Nat) (deadline : Option Nat) (pending inflight : Nat)
  | evictScan (r : EnqueueRequest) (toEvict : Nat)
  | evictWrite (r : EnqueueRequest) (batch : WriteBatch)
  | mint (r : EnqueueRequest) (now : Nat) (todo : List Bytes) (batch : WriteBatch) (ids : List String)
  | dequeueLock (queue : String) (limit timeout : Nat) (maxInflight : Option Nat)
  | countInflight (queue : String) (limit timeout maxInflight : Nat)
  | dequeueScan (queue : String) (limit timeout : Nat)
  | ackLocks (keys : List Key) (held todo : List Lock)
  | ackGet (key : Key) (todo seen counted : List Key) (held : List Lock)
  | nackGet (key : Key)
  | nackDraw (key : Key) (task : Task)
  | cumulativeScan (queue : String) (upToSeq : Nat)
  | reapScan (queue : String)
  | purgeScan
  | replayScan
  | replayDraw (key : Key) (task : Task) (todo : List (Key × Value)) (batch : WriteBatch) (count : Nat)
  | write (kind : WriteKind) (batch : WriteBatch) (held : List Lock) (reply : Reply)
  | unlock (held : List Lock) (reply : Reply)
  | returned (reply : Reply)

/-- The clock reading and the generated id that a step may use. -/
structure StepInput where
  now : Nat := 0
  id : String := ""

namespace Frame

/-- `enforce_quota` let the enqueue through. -/
def beginMint (tenant : String) (r : EnqueueRequest) (now : Nat) : Frame :=
  if r.payloads = [] then .write .enqueue [] [.queue (lockName tenant r.queue)] (.enqueued [])
  else .mint r now r.payloads [] []

/-- The head of `enforce_quota`. -/
def beginQuota (tenant : String) (r : EnqueueRequest) (now : Nat) : Frame :=
  match r.policy.backlogQuota with
  | none => beginMint tenant r now
  | some quota => .quotaPending r quota none

/-- `enforce_quota` once `depth` has counted. -/
def checkQuota (tenant : String) (r : EnqueueRequest) (quota : Nat) (deadline : Option Nat) (current now : Nat) :
    Frame :=
  let refuse : Frame := .unlock [.queue (lockName tenant r.queue)]
    (.failed (quotaExceeded tenant r.queue current quota r.payloads.length))
  match deadline with
  | some deadline =>
    if current + r.payloads.length ≤ quota then beginMint tenant r now
    else if deadline ≤ now then refuse
    else .quotaPending r quota (some deadline)
  | none =>
    match r.policy.backlogPolicy with
    | .reject => if quota < current + r.payloads.length then refuse else beginMint tenant r now
    | .block timeoutMs => .quotaPending r quota (some ((now + timeoutMs) % u64Size))
    | .evictOldest =>
      if quota < current + r.payloads.length then .evictScan r (current + r.payloads.length - quota)
      else beginMint tenant r now

/-- The loop over the payloads, after one more task was made. -/
def nextMint (tenant : String) (r : EnqueueRequest) (now : Nat) (todo : List Bytes) (batch : WriteBatch)
    (ids : List String) : Frame :=
  if todo = [] then .write .enqueue batch [.queue (lockName tenant r.queue)] (.enqueued ids)
  else .mint r now todo batch ids

/-- The head of `dequeue_batch_unlocked`. -/
def beginDequeue (tenant queue : String) (limit timeout : Nat) : Frame :=
  if limit = 0 then .unlock [.queue (lockName tenant queue)] (.delivered []) else .dequeueScan queue limit timeout

/-- Write a batch, or return without one when it is empty. -/
def writeOr (kind : WriteKind) (batch : WriteBatch) (held : List Lock) (reply : Reply) : Frame :=
  if batch = [] then .unlock held reply else .write kind batch held reply

/-- The queues that `ack_batch` locks: sorted and without duplicates. -/
def ackQueues (keys : List Key) : List String :=
  ((keys.map fun key => fromUtf8Lossy (keyQueueBytes key)).insertionSort (· ≤ ·)).destutter (· ≠ ·)

def ackLockList (tenant : String) (keys : List Key) : List Lock :=
  (ackQueues keys).map fun queue => .ack (lockName tenant queue)

/-- The loop over the keys of `ack_batch`: on to the next key not seen yet. -/
def nextAck (held : List Lock) : List Key → List Key → List Key → Frame
  | [], _, counted => writeOr .ack (TenantDb.ackDeletes counted) held (.acked counted)
  | key :: todo, seen, counted =>
    if key ∈ seen then nextAck held todo seen counted else .ackGet key todo (key :: seen) counted held

/-- The loop over the locks of `ack_batch`. -/
def nextAckLock (keys : List Key) (held : List Lock) : List Lock → Frame
  | [] => nextAck held keys [] []
  | l :: todo => .ackLocks keys held (l :: todo)

/-- The loop over the records of `replay_dlq`. -/
def nextReplay (batch : WriteBatch) (count : Nat) : List (Key × Value) → Frame
  | [] => writeOr .replay batch [] (.count count)
  | (_, .corrupt _) :: _ => .unlock [] (.failed .serialization)
  | (key, .task task) :: todo => .replayDraw key task todo batch count

def start (tenant : String) : Call → Frame
  | .enqueueBatch queue payloads policy => .enqueueLock ⟨queue, payloads, policy⟩
  | .dequeueBatch queue limit timeout => .dequeueLock queue limit timeout none
  | .dequeueWithMaxInflight queue limit timeout maxInflight =>
    if maxInflight = 0 then .returned (.delivered []) else .dequeueLock queue limit timeout (some maxInflight)
  | .ackBatch keys => nextAckLock keys [] (ackLockList tenant keys)
  | .nack key => .nackGet key
  | .cumulativeAck queue upToSeq => .cumulativeScan queue upToSeq
  | .reapInflight queue => .reapScan queue
  | .purgeDlq => .purgeScan
  | .replayDlq => .replayScan

/-- The next atomic step of thread `i`. -/
def step (tenant : String) (s : Shared) (i : Nat) : Frame → StepInput → Option (Shared × Frame)
  | .enqueueLock r, io =>
    match s.acquire i (.queue (lockName tenant r.queue)) with
    | none => none
    | some s' => some (s', beginQuota tenant r io.now)
  -- The three scans of `depth`; the third count is not used.
  | .quotaPending r quota deadline, _ =>
    some (s, .quotaInflight r quota deadline (s.db.countPrefix .pending r.queue))
  | .quotaInflight r quota deadline pending, _ =>
    some (s, .quotaDlq r quota deadline pending (s.db.countPrefix .inflight r.queue))
  | .quotaDlq r quota deadline pending inflight, io =>
    some (s, checkQuota tenant r quota deadline (pending + inflight) io.now)
  | .evictScan r toEvict, io =>
    let batch := evictBatch (s.db.scanQueue .pending r.queue) toEvict
    some (s, if batch = [] then beginMint tenant r io.now else .evictWrite r batch)
  | .evictWrite r batch, io => some (s.write i .evict batch none, beginMint tenant r io.now)
  | .mint _ _ [] _ _, _ => none
  | .mint r now (payload :: todo) batch ids, io =>
    if io.id ∈ s.issued then none
    else
      let op := enqueueOp r.queue now s.seq payload io.id
      some ({ s.draw i (encodeKey r.queue s.seq) io.id with issued := io.id :: s.issued },
        nextMint tenant r now todo (batch ++ [op]) (ids ++ [io.id]))
  | .dequeueLock queue limit timeout maxInflight, _ =>
    match s.acquire i (.queue (lockName tenant queue)) with
    | none => none
    | some s' =>
      some (s', match maxInflight with
        | none => beginDequeue tenant queue limit timeout
        | some maxInflight => .countInflight queue limit timeout maxInflight)
  | .countInflight queue limit timeout maxInflight, _ =>
    let inflight := s.db.countPrefix .inflight queue
    some (s, if maxInflight ≤ inflight then .unlock [.queue (lockName tenant queue)] (.delivered [])
      else beginDequeue tenant queue (min limit (maxInflight - inflight)) timeout)
  | .dequeueScan queue limit timeout, io =>
    let d := deliver queue limit timeout io.now (s.db.scanQueue .pending queue)
    some (s, writeOr .dequeue d.batch [.queue (lockName tenant queue)] (.delivered d.results))
  | .ackLocks _ _ [], _ => none
  | .ackLocks keys held (l :: todo), _ =>
    match s.acquire i l with
    | none => none
    | some s' => some (s', nextAckLock keys (held ++ [l]) todo)
  | .ackGet key todo seen counted held, _ =>
    some (s, nextAck held todo seen (if (s.db.get .inflight key).isSome then counted ++ [key] else counted))
  | .nackGet key, io =>
    some (s, match s.db.get .inflight key with
      | none => .unlock [] .done
      | some (.corrupt raw) =>
        .write .nack (poisonBatch .inflight (fromUtf8Lossy (keyQueueBytes key)) key raw io.now) [] .done
      | some (.task task) =>
        if maxAttempts ≤ task.attempts then .write .nack (deadLetterBatch key task.serialize) [] .done
        else .nackDraw key task)
  | .nackDraw key task, _ =>
    some (s.draw i (encodeKey task.queue s.seq) task.id, .write .nack (retryBatch key task s.seq) [] .done)
  | .cumulativeScan queue upToSeq, _ =>
    let batch := cumulativeLoop upToSeq (s.db.scanQueue .inflight queue)
    some (s, writeOr .cumulativeAck batch [] (.count batch.length))
  | .reapScan queue, io =>
    some (s, writeOr .reap (reapLoop queue io.now (RocksQueue.reapScan s.db queue)) [] .done)
  | .purgeScan, _ =>
    let batch := purgeBatch s.db.dlq.entries
    some (s, writeOr .purge batch [] (.count batch.length))
  | .replayScan, _ => some (s, nextReplay [] 0 s.db.dlq.entries)
  | .replayDraw key task todo batch count, _ =>
    some (s.draw i (encodeKey task.queue s.seq) task.id,
      nextReplay (batch ++ replayOps key task s.seq) (count + 1) todo)
  | .write kind batch held reply, _ => some (s.write i kind batch (some reply), .unlock held reply)
  | .unlock held reply, _ => some (s.release held, .returned reply)
  | .returned _, _ => none

end Frame

/-- The calls on a tenant. The environment is a call on another tenant, which draws a number from the
    registry's counter. -/
def system (tenant : String) : Interleaving.System Shared Frame Call StepInput where
  start := Frame.start tenant
  step := Frame.step tenant
  env := fun s => { s with seq := nextSeq s.seq }

/-- The process stops, whatever its calls were at, and another one opens the records it left. -/
def restart (c : Interleaving.Config Shared Frame) (now : Nat) : Interleaving.Config Shared Frame :=
  ⟨{ c.shared with seq := now % u64Size, locks := fun _ => none }, []⟩

/-- The configurations that the calls on a tenant get to, over any number of restarts. -/
inductive Reached (tenant : String) : Interleaving.Config Shared Frame → Prop where
  | start (now : Nat) : Reached tenant ⟨.start now, []⟩
  | step {c c' : Interleaving.Config Shared Frame} {l : Interleaving.Label Call StepInput} :
    Reached tenant c → (system tenant).next c l = some c' → Reached tenant c'
  | restart (now : Nat) {c : Interleaving.Config Shared Frame} : Reached tenant c → Reached tenant (RocksQueue.restart c now)

theorem Reached.run {tenant : String} {ok : Interleaving.Config Shared Frame → Interleaving.Label Call StepInput → Prop}
    {c c' : Interleaving.Config Shared Frame} (h : Reached tenant c) (hrun : (system tenant).Run ok c c') :
    Reached tenant c' := by
  induction hrun with
  | refl => exact h
  | step _ _ hn ih => exact ih.step hn

end RocksQueue
