import RocksQueue.Theorems.Moves

/-! # Steps

The steps that a call can take, said once (`stepped_of_step`), with the guard of each, what it does to
the locks and the counter, and where it leads. What they do to the records follows (`step_effect`): a
step that changes them writes a batch whose moves were read earlier (`Planned`), and every other step
leaves them alone. -/

namespace RocksQueue

/-- Thread `i` has got the lock. -/
def Shared.take (s : Shared) (i : Nat) (l : Lock) : Shared :=
  { s with locks := fun l' => if l' = l then some i else s.locks l' }

def Reply.ackedKeys : Reply → List Key
  | .acked counted => counted
  | _ => []

namespace Frame

/-! ### The turns of the code -/

/-- A step of thread `i`: one case for each turn that the code can take. -/
inductive Stepped (tenant : String) (s : Shared) (i : Nat) (io : StepInput) : Frame → Shared → Frame → Prop where
  | enqueueLock (r : EnqueueRequest) : s.locks (.queue (lockName tenant r.queue)) = none →
      Stepped tenant s i io (.enqueueLock r) (s.take i (.queue (lockName tenant r.queue)))
        (beginQuota tenant r io.now)
  | quotaPending (r : EnqueueRequest) (quota : Nat) (deadline : Option Nat) :
      Stepped tenant s i io (.quotaPending r quota deadline) s
        (.quotaInflight r quota deadline (s.db.countPrefix .pending r.queue))
  | quotaInflight (r : EnqueueRequest) (quota : Nat) (deadline : Option Nat) (pending : Nat) :
      Stepped tenant s i io (.quotaInflight r quota deadline pending) s
        (.quotaDlq r quota deadline pending (s.db.countPrefix .inflight r.queue))
  | quotaDlq (r : EnqueueRequest) (quota : Nat) (deadline : Option Nat) (pending inflight : Nat) :
      Stepped tenant s i io (.quotaDlq r quota deadline pending inflight) s
        (checkQuota tenant r quota deadline (pending + inflight) io.now)
  | evictNothing (r : EnqueueRequest) (toEvict : Nat) : evictBatch (s.db.scanQueue .pending r.queue) toEvict = [] →
      Stepped tenant s i io (.evictScan r toEvict) s (beginMint tenant r io.now)
  | evictScan (r : EnqueueRequest) (toEvict : Nat) : evictBatch (s.db.scanQueue .pending r.queue) toEvict ≠ [] →
      Stepped tenant s i io (.evictScan r toEvict) s
        (.evictWrite r (evictBatch (s.db.scanQueue .pending r.queue) toEvict))
  | evictWrite (r : EnqueueRequest) (batch : WriteBatch) :
      Stepped tenant s i io (.evictWrite r batch) (s.write i .evict batch none) (beginMint tenant r io.now)
  | mint (r : EnqueueRequest) (now : Nat) (payload : Bytes) (todo : List Bytes) (batch : WriteBatch)
      (ids : List String) : io.id ∉ s.issued →
      Stepped tenant s i io (.mint r now (payload :: todo) batch ids)
        { s.draw i (encodeKey r.queue s.seq) io.id with issued := io.id :: s.issued }
        (nextMint tenant r now todo (batch ++ [enqueueOp r.queue now s.seq payload io.id]) (ids ++ [io.id]))
  | dequeueLock (queue : String) (limit timeout : Nat) : s.locks (.queue (lockName tenant queue)) = none →
      Stepped tenant s i io (.dequeueLock queue limit timeout none) (s.take i (.queue (lockName tenant queue)))
        (beginDequeue tenant queue limit timeout)
  | cappedLock (queue : String) (limit timeout maxInflight : Nat) :
      s.locks (.queue (lockName tenant queue)) = none →
      Stepped tenant s i io (.dequeueLock queue limit timeout (some maxInflight))
        (s.take i (.queue (lockName tenant queue))) (.countInflight queue limit timeout maxInflight)
  | countFull (queue : String) (limit timeout maxInflight : Nat) : maxInflight ≤ s.db.countPrefix .inflight queue →
      Stepped tenant s i io (.countInflight queue limit timeout maxInflight) s
        (.unlock [.queue (lockName tenant queue)] (.delivered []))
  | countInflight (queue : String) (limit timeout maxInflight : Nat) :
      s.db.countPrefix .inflight queue < maxInflight →
      Stepped tenant s i io (.countInflight queue limit timeout maxInflight) s
        (beginDequeue tenant queue (min limit (maxInflight - s.db.countPrefix .inflight queue)) timeout)
  | dequeueScan (queue : String) (limit timeout : Nat) :
      Stepped tenant s i io (.dequeueScan queue limit timeout) s
        (writeOr .dequeue (deliver queue limit timeout io.now (s.db.scanQueue .pending queue)).batch
          [.queue (lockName tenant queue)]
          (.delivered (deliver queue limit timeout io.now (s.db.scanQueue .pending queue)).results))
  | ackLock (keys : List Key) (held : List Lock) (l : Lock) (todo : List Lock) : s.locks l = none →
      Stepped tenant s i io (.ackLocks keys held (l :: todo)) (s.take i l) (nextAckLock keys (held ++ [l]) todo)
  | ackGet (key : Key) (todo seen counted : List Key) (held : List Lock) :
      Stepped tenant s i io (.ackGet key todo seen counted held) s
        (nextAck held todo seen (if (s.db.get .inflight key).isSome then counted ++ [key] else counted))
  | nackNone (key : Key) : s.db.get .inflight key = none →
      Stepped tenant s i io (.nackGet key) s (.unlock [] .done)
  | nackPoison (key : Key) (raw : Bytes) : s.db.get .inflight key = some (.corrupt raw) →
      Stepped tenant s i io (.nackGet key) s
        (.write .nack (poisonBatch .inflight (fromUtf8Lossy (keyQueueBytes key)) key raw io.now) [] .done)
  | nackLetter (key : Key) (task : Task) : s.db.get .inflight key = some (.task task) → maxAttempts ≤ task.attempts →
      Stepped tenant s i io (.nackGet key) s (.write .nack (deadLetterBatch key task.serialize) [] .done)
  | nackGet (key : Key) (task : Task) : s.db.get .inflight key = some (.task task) → task.attempts < maxAttempts →
      Stepped tenant s i io (.nackGet key) s (.nackDraw key task)
  | nackDraw (key : Key) (task : Task) :
      Stepped tenant s i io (.nackDraw key task) (s.draw i (encodeKey task.queue s.seq) task.id)
        (.write .nack (retryBatch key task s.seq) [] .done)
  | cumulativeScan (queue : String) (upToSeq : Nat) :
      Stepped tenant s i io (.cumulativeScan queue upToSeq) s
        (writeOr .cumulativeAck (cumulativeLoop upToSeq (s.db.scanQueue .inflight queue)) []
          (.count (cumulativeLoop upToSeq (s.db.scanQueue .inflight queue)).length))
  | reapScan (queue : String) :
      Stepped tenant s i io (.reapScan queue) s
        (writeOr .reap (reapLoop queue io.now (RocksQueue.reapScan s.db queue)) [] .done)
  | purgeScan :
      Stepped tenant s i io .purgeScan s
        (writeOr .purge (purgeBatch s.db.dlq.entries) [] (.count (purgeBatch s.db.dlq.entries).length))
  | replayScan : Stepped tenant s i io .replayScan s (nextReplay [] 0 s.db.dlq.entries)
  | replayDraw (key : Key) (task : Task) (todo : List (Key × Value)) (batch : WriteBatch) (count : Nat) :
      Stepped tenant s i io (.replayDraw key task todo batch count)
        (s.draw i (encodeKey task.queue s.seq) task.id)
        (nextReplay (batch ++ replayOps key task s.seq) (count + 1) todo)
  | write (kind : WriteKind) (batch : WriteBatch) (held : List Lock) (reply : Reply) :
      Stepped tenant s i io (.write kind batch held reply) (s.write i kind batch (some reply)) (.unlock held reply)
  | unlock (held : List Lock) (reply : Reply) :
      Stepped tenant s i io (.unlock held reply) (s.release held) (.returned reply)

variable {tenant : String} {s s' : Shared} {i : Nat} {io : StepInput} {f f' : Frame}

theorem acquire_inv {l : Lock} (h : s.acquire i l = some s') : s.locks l = none ∧ s' = s.take i l := by
  simp only [Shared.acquire] at h
  split at h
  · rename_i hfree
    exact ⟨hfree, (Option.some.inj h).symm⟩
  · cases h

theorem stepped_of_step (h : Frame.step tenant s i f io = some (s', f')) : Stepped tenant s i io f s' f' := by
  cases f with
  | enqueueLock r =>
    simp only [Frame.step] at h
    split at h
    · cases h
    · rename_i s₁ hs₁
      obtain ⟨hfree, rfl⟩ := acquire_inv hs₁
      cases h
      exact .enqueueLock r hfree
  | dequeueLock queue limit timeout maxInflight =>
    simp only [Frame.step] at h
    split at h
    · cases h
    · rename_i s₁ hs₁
      obtain ⟨hfree, rfl⟩ := acquire_inv hs₁
      cases h
      cases maxInflight with
      | none => exact .dequeueLock queue limit timeout hfree
      | some maxInflight => exact .cappedLock queue limit timeout maxInflight hfree
  | ackLocks keys held todo =>
    cases todo with
    | nil => cases h
    | cons l todo =>
      simp only [Frame.step] at h
      split at h
      · cases h
      · rename_i s₁ hs₁
        obtain ⟨hfree, rfl⟩ := acquire_inv hs₁
        cases h
        exact .ackLock keys held l todo hfree
  | evictScan r toEvict =>
    simp only [Frame.step, Option.some.injEq, Prod.mk.injEq] at h
    obtain ⟨rfl, rfl⟩ := h
    split
    · rename_i hnil
      exact .evictNothing r toEvict hnil
    · rename_i hne
      exact .evictScan r toEvict hne
  | mint r now todo batch ids =>
    cases todo with
    | nil => cases h
    | cons payload todo =>
      simp only [Frame.step] at h
      split at h
      · cases h
      · rename_i hfresh
        cases h
        exact .mint r now payload todo batch ids hfresh
  | countInflight queue limit timeout maxInflight =>
    simp only [Frame.step, Option.some.injEq, Prod.mk.injEq] at h
    obtain ⟨rfl, rfl⟩ := h
    split
    · rename_i hfull
      exact .countFull queue limit timeout maxInflight hfull
    · rename_i hroom
      exact .countInflight queue limit timeout maxInflight (Nat.lt_of_not_le hroom)
  | nackGet key =>
    simp only [Frame.step, Option.some.injEq, Prod.mk.injEq] at h
    obtain ⟨rfl, rfl⟩ := h
    split
    · rename_i hget
      exact .nackNone key hget
    · rename_i raw hget
      exact .nackPoison key raw hget
    · rename_i task hget
      split
      · rename_i hmax
        exact .nackLetter key task hget hmax
      · rename_i hmax
        exact .nackGet key task hget (Nat.lt_of_not_le hmax)
  | returned reply => cases h
  -- The other frames have one step, which nothing stops.
  | _ =>
    cases h
    constructor

/-! ### What the frames hold -/

/-- The tasks of an enqueue that are made but not written yet. -/
def fresh : Frame → List String
  | .mint _ _ _ batch _ => putIds batch
  | .write .enqueue batch _ _ => putIds batch
  | _ => []

/-- The tasks that were read and are to be written to another place. -/
def carried : Frame → List String
  | .nackDraw _ task => [task.id]
  | .replayDraw _ task todo batch _ => putIds batch ++ task.id :: taskIds todo
  | .write .enqueue _ _ _ => []
  | .write _ batch _ _ => putIds batch
  | _ => []

/-- What the frame has put together for its write. -/
def batch : Frame → WriteBatch
  | .evictWrite _ batch => batch
  | .mint _ _ _ batch _ => batch
  | .replayDraw _ _ _ batch _ => batch
  | .write _ batch _ _ => batch
  | _ => []

/-- What the frame is still going to write does not depend on a record that was read. -/
def Idle : Frame → Prop
  | .evictWrite _ _ => False
  | .nackDraw _ _ => False
  | .replayDraw _ _ _ _ _ => False
  | .mint _ _ _ batch _ => batch = []
  | .write _ batch _ reply => batch = [] ∧ reply.ackedKeys = [] ∧ reply.results = []
  | .unlock _ reply => reply.ackedKeys = [] ∧ reply.results = []
  | .returned reply => reply.ackedKeys = [] ∧ reply.results = []
  | _ => True

/-- A frame whose next write was just decided from the records of `db`. -/
inductive Planned (db : TenantDb) : Frame → Prop where
  | evict {r : EnqueueRequest} {keys : List Key} : Planned db (.evictWrite r (deletes .pending keys))
  | ack {counted : List Key} {held : List Lock} :
      Planned db (.write .ack (deletes .inflight counted) held (.acked counted))
  | cumulativeAck {keys : List Key} {held : List Lock} {n : Nat} :
      Planned db (.write .cumulativeAck (deletes .inflight keys) held (.count n))
  | purge {keys : List Key} {held : List Lock} {n : Nat} :
      Planned db (.write .purge (deletes .dlq keys) held (.count n))
  | deliver {b : WriteBatch} {ms : List Move} {held : List Lock} {results : List (Key × Task)} (now : Nat) :
      IsMoves b ms → (ms.map Move.key).Nodup → (∀ m ∈ ms, Moved db now .dequeue m ∧ m.newKey = m.key) →
      (∀ k t, (k, t) ∈ results → ∃ m ∈ ms, m.newKey = k ∧ m.task = t) →
      Planned db (.write .dequeue b held (.delivered results))
  | move {kind : WriteKind} {b : WriteBatch} {ms : List Move} {held : List Lock} (now : Nat) :
      kind = .nack ∨ kind = .reap → IsMoves b ms → (ms.map Move.key).Nodup →
      (∀ m ∈ ms, Moved db now kind m ∧ m.newKey = m.key) →
      Planned db (.write kind b held .done)
  | retry {key : Key} {task : Task} : db.get .inflight key = some (.task task) → task.attempts < maxAttempts →
      Planned db (.nackDraw key task)
  | replay {key : Key} {task : Task} {todo : List (Key × Value)} :
      db.dlq.entries = (key, .task task) :: todo → Planned db (.replayDraw key task todo [] 0)

/-- What a step of thread `i` does. -/
inductive Effect (tenant : String) (s : Shared) (i : Nat) (io : StepInput) : Frame → Shared → Frame → Prop where
  | quiet {f f' : Frame} (locks : Lock → Option Nat) : f'.Idle → Effect tenant s i io f { s with locks := locks } f'
  | plan {f f' : Frame} : Planned s.db f' → Effect tenant s i io f s f'
  | unlock {held : List Lock} {reply : Reply} :
      Effect tenant s i io (.unlock held reply) (s.release held) (.returned reply)
  | mint {r : EnqueueRequest} {now : Nat} {payload : Bytes} {todo : List Bytes} {batch : WriteBatch}
      {ids : List String} : io.id ∉ s.issued →
      Effect tenant s i io (.mint r now (payload :: todo) batch ids)
        { s.draw i (encodeKey r.queue s.seq) io.id with issued := io.id :: s.issued }
        (nextMint tenant r now todo (batch ++ [enqueueOp r.queue now s.seq payload io.id]) (ids ++ [io.id]))
  | retry {key : Key} {task : Task} :
      Effect tenant s i io (.nackDraw key task) (s.draw i (encodeKey task.queue s.seq) task.id)
        (.write .nack (retryBatch key task s.seq) [] .done)
  | replay {key : Key} {task : Task} {todo : List (Key × Value)} {batch : WriteBatch} {count : Nat} :
      Effect tenant s i io (.replayDraw key task todo batch count) (s.draw i (encodeKey task.queue s.seq) task.id)
        (nextReplay (batch ++ replayOps key task s.seq) (count + 1) todo)
  | evict {r : EnqueueRequest} {b : WriteBatch} {f' : Frame} : f'.Idle →
      Effect tenant s i io (.evictWrite r b) (s.write i .evict b none) f'
  | write {kind : WriteKind} {b : WriteBatch} {held : List Lock} {reply : Reply} :
      Effect tenant s i io (.write kind b held reply) (s.write i kind b (some reply)) (.unlock held reply)

/-! ### The frames that a read leads to -/

theorem beginMint_idle {r : EnqueueRequest} {now : Nat} : (beginMint tenant r now).Idle := by
  unfold beginMint
  split
  · exact ⟨rfl, rfl, rfl⟩
  · rfl

theorem beginQuota_idle {r : EnqueueRequest} {now : Nat} : (beginQuota tenant r now).Idle := by
  unfold beginQuota
  split
  · exact beginMint_idle
  · trivial

theorem checkQuota_idle {r : EnqueueRequest} {quota current now : Nat} {deadline : Option Nat} :
    (checkQuota tenant r quota deadline current now).Idle := by
  unfold checkQuota
  dsimp only
  repeat' split
  all_goals first | exact beginMint_idle | trivial

theorem beginDequeue_idle {queue : String} {limit timeout : Nat} : (beginDequeue tenant queue limit timeout).Idle := by
  unfold beginDequeue
  split
  · exact ⟨rfl, rfl⟩
  · trivial

theorem writeOr_eq (kind : WriteKind) (b : WriteBatch) (held : List Lock) (reply : Reply) :
    (b = [] ∧ writeOr kind b held reply = .unlock held reply) ∨
      (b ≠ [] ∧ writeOr kind b held reply = .write kind b held reply) := by
  unfold writeOr
  split
  · rename_i hnil
    exact Or.inl ⟨hnil, rfl⟩
  · rename_i hne
    exact Or.inr ⟨hne, rfl⟩

/-- The ack loop stops at a read of the next key, or at the deletes of what it counted. -/
theorem nextAck_cases (held : List Lock) (todo seen counted : List Key) :
    (∃ key rest, key ∈ todo ∧ nextAck held todo seen counted = .ackGet key rest (key :: seen) counted held) ∨
      (counted = [] ∧ nextAck held todo seen counted = .unlock held (.acked [])) ∨
      nextAck held todo seen counted = .write .ack (deletes .inflight counted) held (.acked counted) := by
  induction todo with
  | nil =>
    rcases writeOr_eq .ack (TenantDb.ackDeletes counted) held (.acked counted) with ⟨hnil, heq⟩ | ⟨-, heq⟩
    · have hcounted : counted = [] := List.map_eq_nil_iff.mp hnil
      subst hcounted
      exact Or.inr (Or.inl ⟨rfl, heq⟩)
    · exact Or.inr (Or.inr heq)
  | cons key rest ih =>
    simp only [nextAck]
    split
    · rcases ih with ⟨key', rest', hmem, heq⟩ | h
      · exact Or.inl ⟨key', rest', List.mem_cons_of_mem _ hmem, heq⟩
      · exact Or.inr h
    · exact Or.inl ⟨key, rest, List.mem_cons_self, rfl⟩

theorem nextAck_idle_or_planned (db : TenantDb) (held : List Lock) (todo seen counted : List Key) :
    (nextAck held todo seen counted).Idle ∨ Planned db (nextAck held todo seen counted) := by
  rcases nextAck_cases held todo seen counted with ⟨key, rest, -, heq⟩ | ⟨-, heq⟩ | heq <;> rw [heq]
  · exact Or.inl trivial
  · exact Or.inl ⟨rfl, rfl⟩
  · exact Or.inr .ack

theorem nextAckLock_idle (keys : List Key) (held todo : List Lock) : (nextAckLock keys held todo).Idle := by
  cases todo with
  | cons l todo => trivial
  | nil =>
    rcases nextAck_cases held keys [] [] with ⟨key, rest, -, heq⟩ | ⟨-, heq⟩ | heq
    · simp only [nextAckLock, heq]
      trivial
    · simp only [nextAckLock, heq]
      exact ⟨rfl, rfl⟩
    · simp only [nextAckLock, heq]
      exact ⟨rfl, rfl, rfl⟩

/-- A call that begins has read nothing. -/
theorem start_idle (tenant : String) (call : Call) : (Frame.start tenant call).Idle := by
  cases call with
  | ackBatch keys => exact nextAckLock_idle keys [] _
  | dequeueWithMaxInflight queue limit timeout maxInflight =>
    simp only [Frame.start]
    split
    · exact ⟨rfl, rfl⟩
    · trivial
  | _ => trivial

theorem dequeueScan_planned {queue : String} {limit timeout now : Nat} (db : TenantDb) (held : List Lock) :
    let d := deliver queue limit timeout now (db.scanQueue .pending queue)
    (writeOr .dequeue d.batch held (.delivered d.results)).Idle ∨
      Planned db (writeOr .dequeue d.batch held (.delivered d.results)) := by
  intro d
  have hread : ∀ k v, (k, v) ∈ db.scanQueue .pending queue → db.get .pending k = some v :=
    fun k v hmem => (TenantDb.mem_scanQueue.mp hmem).1
  obtain ⟨ms, hms, hsub, hmoved, hres⟩ :=
    dequeueLoop_moves queue now timeout limit hread
  rcases writeOr_eq .dequeue d.batch held (.delivered d.results) with ⟨hnil, heq⟩ | ⟨-, heq⟩ <;> rw [heq]
  · -- Nothing was moved, so nothing is returned.
    have hnone : IsMoves d.batch ms := hms
    rw [hnil] at hnone
    obtain rfl := hnone.eq_nil
    exact Or.inl ⟨rfl, hres⟩
  · refine Or.inr (.deliver now hms (hsub.nodup TenantDb.scanQueue_keys_nodup)
      (fun m hm => ⟨hmoved m hm, (hmoved m hm).newKey_eq (Or.inl rfl)⟩) fun k t hkt => ?_)
    have hkt' : (k, t) ∈ (dequeueLoop queue now (saturatingAdd now timeout) limit
        (db.scanQueue .pending queue)).results := hkt
    rw [hres] at hkt'
    obtain ⟨m, hm, heq⟩ := List.mem_map.mp hkt'
    exact ⟨m, (List.mem_filter.mp hm).1, (Prod.mk.inj heq).1, (Prod.mk.inj heq).2⟩

theorem reapScan_planned {queue : String} {now : Nat} (db : TenantDb) (held : List Lock) :
    (writeOr .reap (reapLoop queue now (RocksQueue.reapScan db queue)) held .done).Idle ∨
      Planned db (writeOr .reap (reapLoop queue now (RocksQueue.reapScan db queue)) held .done) := by
  have hread : ∀ k v, (k, v) ∈ RocksQueue.reapScan db queue → db.get .inflight k = some v := fun k v hmem => by
    rw [reapScan_eq] at hmem
    exact (TenantDb.mem_scanQueue.mp hmem).1
  have hnodup : ((RocksQueue.reapScan db queue).map Prod.fst).Nodup := by
    rw [reapScan_eq]
    exact TenantDb.scanQueue_keys_nodup
  obtain ⟨ms, hms, hsub, hmoved⟩ := reapLoop_moves queue now hread
  rcases writeOr_eq .reap (reapLoop queue now (RocksQueue.reapScan db queue)) held .done with
    ⟨-, heq⟩ | ⟨-, heq⟩ <;> rw [heq]
  · exact Or.inl ⟨rfl, rfl⟩
  · exact Or.inr (.move now (Or.inr rfl) hms (hsub.nodup hnodup) fun m hm =>
      ⟨hmoved m hm, (hmoved m hm).newKey_eq (Or.inr rfl)⟩)

theorem nextReplay_start (db : TenantDb) :
    (nextReplay [] 0 db.dlq.entries).Idle ∨ Planned db (nextReplay [] 0 db.dlq.entries) := by
  cases h : db.dlq.entries with
  | nil => exact Or.inl ⟨rfl, rfl⟩
  | cons item todo =>
    obtain ⟨key, v⟩ := item
    cases v with
    | corrupt raw => exact Or.inl ⟨rfl, rfl⟩
    | task task => exact Or.inr (.replay h)

/-! ### The step -/

theorem Effect.same (h : f'.Idle ∨ Planned s.db f') : Effect tenant s i io f s f' := by
  rcases h with h | h
  · exact .quiet s.locks h
  · exact .plan h

theorem step_effect (h : Frame.step tenant s i f io = some (s', f')) : Effect tenant s i io f s' f' := by
  cases stepped_of_step h with
  | enqueueLock => exact .quiet _ beginQuota_idle
  | quotaPending => exact .same (Or.inl trivial)
  | quotaInflight => exact .same (Or.inl trivial)
  | quotaDlq => exact .same (Or.inl checkQuota_idle)
  | evictNothing => exact .same (Or.inl beginMint_idle)
  | evictScan =>
    rw [evictBatch_eq]
    exact .plan .evict
  | evictWrite => exact .evict beginMint_idle
  | mint _ _ _ _ _ _ hfresh => exact .mint hfresh
  | dequeueLock => exact .quiet _ beginDequeue_idle
  | cappedLock => exact .quiet _ trivial
  | countFull => exact .same (Or.inl ⟨rfl, rfl⟩)
  | countInflight => exact .same (Or.inl beginDequeue_idle)
  | dequeueScan => exact .same (dequeueScan_planned s.db _)
  | ackLock keys held l todo => exact .quiet _ (nextAckLock_idle keys _ _)
  | ackGet => exact .same (nextAck_idle_or_planned s.db _ _ _ _)
  | nackNone => exact .same (Or.inl ⟨rfl, rfl⟩)
  | nackPoison key raw hget =>
    refine .plan (.move io.now (Or.inl rfl) (poisonBatch_moves .inflight key raw) (List.pairwise_singleton _ _) ?_)
    exact List.forall_mem_singleton.mpr ⟨.poisonInflight (Or.inr rfl) hget, rfl⟩
  | nackLetter key task hget hmax =>
    refine .plan (.move io.now (Or.inl rfl) (deadLetterBatch_moves key task) (List.pairwise_singleton _ _) ?_)
    exact List.forall_mem_singleton.mpr ⟨.deadLetter hget hmax, rfl⟩
  | nackGet key task hget hless => exact .plan (.retry hget hless)
  | nackDraw => exact .retry
  | cumulativeScan queue upToSeq =>
    obtain ⟨keys, hkeys, -⟩ := cumulativeLoop_eq upToSeq (s.db.scanQueue .inflight queue)
    rw [hkeys]
    rcases writeOr_eq .cumulativeAck (deletes .inflight keys) [] (.count (deletes .inflight keys).length) with
      ⟨-, heq⟩ | ⟨-, heq⟩ <;> rw [heq]
    · exact .same (Or.inl ⟨rfl, rfl⟩)
    · exact .plan .cumulativeAck
  | reapScan => exact .same (reapScan_planned s.db _)
  | purgeScan =>
    rw [purgeBatch_eq]
    rcases writeOr_eq .purge (deletes .dlq (s.db.dlq.entries.map Prod.fst)) []
      (.count (deletes .dlq (s.db.dlq.entries.map Prod.fst)).length) with ⟨-, heq⟩ | ⟨-, heq⟩ <;> rw [heq]
    · exact .same (Or.inl ⟨rfl, rfl⟩)
    · exact .plan .purge
  | replayScan => exact .same (nextReplay_start s.db)
  | replayDraw => exact .replay
  | write => exact .write
  | unlock => exact .unlock

/-- A step only adds to the history. -/
theorem step_history (h : Frame.step tenant s i f io = some (s', f')) : ∃ es, s'.history = s.history ++ es := by
  cases step_effect h with
  | quiet => exact ⟨[], (List.append_nil _).symm⟩
  | plan => exact ⟨[], (List.append_nil _).symm⟩
  | unlock => exact ⟨[], (List.append_nil _).symm⟩
  | mint => exact ⟨_, rfl⟩
  | retry => exact ⟨_, rfl⟩
  | replay => exact ⟨_, rfl⟩
  | evict => exact ⟨_, rfl⟩
  | write => exact ⟨_, rfl⟩

end Frame

end RocksQueue
