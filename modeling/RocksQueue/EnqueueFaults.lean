import RocksQueue.Tenant

/-! # Enqueues with failing steps

`enqueue_batch_sync` once more, with each of the steps that its `?` operators return at: the column-family handles
and scans of `depth` and of the eviction, the serialization of a task, and the two writes. A write that fails
changes nothing, as a write batch is atomic. -/

namespace RocksQueue

/-- The errors of an enqueue: those of its own checks, and those of the database. -/
inductive EnqueueError where
  | queue (e : QueueError)
  | rocksDb (message : String)
  | columnFamilyMissing (name : String)
  deriving DecidableEq, Repr

/-- The error with which each fallible step of one call fails, `none` where it succeeds. -/
structure Faults where
  /-- The call's `n`-th `depth`, with its handles and scans. -/
  depth : Nat → Option EnqueueError := fun _ => none
  /-- The handle and the scan of `evict_oldest_pending`. -/
  evictScan : Option EnqueueError := none
  evictWrite : Option EnqueueError := none
  /-- The handle for the new records. -/
  pendingCf : Option EnqueueError := none
  /-- The serialization of the `n`-th task. -/
  serialize : Nat → Option EnqueueError := fun _ => none
  write : Option EnqueueError := none

/-- `evict_oldest_pending`, which writes only if it found something to evict. -/
def evictOldestPending (faults : Faults) (db : TenantDb) (queue : String) (count : Nat) :
    TenantDb × Except EnqueueError Unit :=
  match faults.evictScan with
  | some e => (db, .error e)
  | none =>
    let batch := evictBatch (db.scanQueue .pending queue) count
    if batch = [] then (db, .ok ())
    else
      match faults.evictWrite with
      | some e => (db, .error e)
      | none => (db.write batch, .ok ())

/-- The rounds of the wait loop: the backlog that each reads, or the error of its `depth`. -/
def pollRounds (faults : Faults) (current : Nat) : Nat → List Nat → List (Except EnqueueError (Nat × Nat))
  | _, [] => []
  | n, now :: polls =>
    (match faults.depth n with
      | some e => .error e
      | none => .ok (current, now)) :: pollRounds faults current (n + 1) polls

def waitRounds (tenant queue : String) (quota incoming deadline : Nat) :
    List (Except EnqueueError (Nat × Nat)) → Option (Except EnqueueError Unit)
  | [] => none
  | .error e :: _ => some (.error e)
  | .ok (current, now) :: rest =>
    if current + incoming ≤ quota then some (.ok ())
    else if deadline ≤ now then some (.error (.queue (quotaExceeded tenant queue current quota incoming)))
    else waitRounds tenant queue quota incoming deadline rest

/-- `enforce_quota`, with what is stored after it. -/
def enforceQuotaUnder (faults : Faults) (tenant : String) (db : TenantDb) (queue : String) (policy : NamespacePolicy)
    (incoming : Nat) (io : Inputs) : Option (TenantDb × Except EnqueueError Unit) :=
  match policy.backlogQuota with
  | none => some (db, .ok ())
  | some quota =>
    match faults.depth 0 with
    | some e => some (db, .error e)
    | none =>
      let current := db.countPrefix .pending queue + db.countPrefix .inflight queue
      match policy.backlogPolicy with
      | .reject =>
        if quota < current + incoming then some (db, .error (.queue (quotaExceeded tenant queue current quota incoming)))
        else some (db, .ok ())
      | .block timeoutMs =>
        let deadline := (io.now + timeoutMs) % u64Size
        (waitRounds tenant queue quota incoming deadline (pollRounds faults current 1 io.polls)).map fun r => (db, r)
      | .evictOldest =>
        if quota < current + incoming then some (evictOldestPending faults db queue (current + incoming - quota))
        else some (db, .ok ())

/-- The loop that makes the tasks: the counter after it, and the batch. -/
def mintUnder (faults : Faults) (queue : String) (now : Nat) :
    Nat → Nat → List (Bytes × String) → Nat × Except EnqueueError WriteBatch
  | _, seq, [] => (seq, .ok [])
  | n, seq, (payload, id) :: rest =>
    match faults.serialize n with
    | some e => (nextSeq seq, .error e)
    | none =>
      let minted := mintUnder faults queue now (n + 1) (nextSeq seq) rest
      (minted.1, minted.2.map fun batch => enqueueOp queue now seq payload id :: batch)

/-- `enqueue_batch_sync`. -/
def Tenant.enqueueBatchSyncUnder (faults : Faults) (tenant : String) (t : Tenant) (queue : String) (payloads : List Bytes)
    (policy : NamespacePolicy) (io : Inputs) : Option (Tenant × Except EnqueueError (List String)) :=
  if io.ids.length ≠ payloads.length then none
  else
    match enforceQuotaUnder faults tenant t.db queue policy payloads.length io with
    | none => none
    | some (db, .error e) => some (⟨db, t.seq⟩, .error e)
    | some (db, .ok ()) =>
      match faults.pendingCf with
      | some e => some (⟨db, t.seq⟩, .error e)
      | none =>
        let minted := mintUnder faults queue io.madeAt 0 t.seq (payloads.zip io.ids)
        match minted.2 with
        | .error e => some (⟨db, minted.1⟩, .error e)
        | .ok batch =>
          match faults.write with
          | some e => some (⟨db, minted.1⟩, .error e)
          | none => some (⟨db.write batch, minted.1⟩, .ok io.ids)

/-! ## Without faults -/

section NoFaults
variable {tenant queue : String} {t : Tenant} {db : TenantDb} {policy : NamespacePolicy} {io : Inputs}

theorem waitRounds_none {quota incoming deadline current n : Nat} {polls : List Nat} :
    waitRounds tenant queue quota incoming deadline (pollRounds {} current n polls) =
      (waitLoop tenant queue quota incoming deadline (polls.map fun now => (current, now))).map (Except.mapError .queue) := by
  induction polls generalizing n with
  | nil => rfl
  | cons now polls ih =>
    simp only [pollRounds, waitRounds, List.map_cons, waitLoop]
    split
    · rfl
    · split
      · rfl
      · exact ih

theorem mintUnder_none {now n seq : Nat} {todo : List (Bytes × String)} (hseq : seq < u64Size) :
    mintUnder {} queue now n seq todo = (advance seq todo.length, .ok (enqueueLoop queue now seq todo)) := by
  induction todo generalizing n seq with
  | nil => rw [List.length_nil, advance_zero hseq]; rfl
  | cons item todo ih =>
    obtain ⟨payload, id⟩ := item
    have hnext : nextSeq seq < u64Size := Nat.mod_lt _ (by decide)
    simp only [mintUnder, ih hnext, advance_succ, List.length_cons, enqueueLoop]
    rfl

theorem evictOldestPending_none {count : Nat} :
    evictOldestPending {} db queue count = (db.write (evictBatch (db.scanQueue .pending queue) count), .ok ()) := by
  simp only [evictOldestPending]
  split
  · rename_i hnil
    rw [hnil]
    rfl
  · rfl

theorem enforceQuotaUnder_none (tenant queue : String) (db : TenantDb) (policy : NamespacePolicy) (incoming : Nat)
    (io : Inputs) :
    (∀ r, enforceQuota tenant db queue policy incoming io = some (.error r) →
      enforceQuotaUnder {} tenant db queue policy incoming io = some (db, .error (.queue r))) ∧
    (∀ evicted, enforceQuota tenant db queue policy incoming io = some (.ok evicted) →
      enforceQuotaUnder {} tenant db queue policy incoming io = some (db.write evicted, .ok ())) ∧
    (enforceQuota tenant db queue policy incoming io = none →
      enforceQuotaUnder {} tenant db queue policy incoming io = none) := by
  simp only [enforceQuota, enforceQuotaUnder]
  cases policy.backlogQuota with
  | none => simp
  | some quota =>
    cases policy.backlogPolicy with
    | reject =>
      simp only
      split <;> simp
    | block timeoutMs =>
      simp only [waitRounds_none]
      split <;> simp_all [Except.mapError]
    | evictOldest =>
      simp only [evictOldestPending_none]
      split <;> simp

/-- Where no step fails, this is the enqueue of the model without faults. -/
theorem enqueueBatchSyncUnder_none {payloads : List Bytes} (hseq : t.seq < u64Size) :
    Tenant.enqueueBatchSyncUnder {} tenant t queue payloads policy io =
      (Tenant.enqueueBatchSync tenant t queue payloads policy io).map fun r => (r.1, r.2.mapError .queue) := by
  obtain ⟨herror, hok, hnone⟩ := enforceQuotaUnder_none tenant queue t.db policy payloads.length io
  simp only [Tenant.enqueueBatchSyncUnder, Tenant.enqueueBatchSync]
  split
  · rfl
  · rename_i hids
    have hlen : (payloads.zip io.ids).length = payloads.length := by simp [Decidable.not_not.mp hids]
    cases henforce : enforceQuota tenant t.db queue policy payloads.length io with
    | none =>
      rw [hnone henforce]
      rfl
    | some r =>
      cases r with
      | error e =>
        rw [herror e henforce]
        rfl
      | ok evicted =>
        rw [hok evicted henforce]
        simp only [mintUnder_none hseq, hlen]
        rfl

end NoFaults

end RocksQueue
