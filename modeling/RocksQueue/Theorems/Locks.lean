import RocksQueue.Theorems.TaskIds

/-! # Locks

Which locks a call holds at each point, and that a lock has one holder (`locks_outline`). A call stays
the call it is until its write or its end (`step_shape`). -/

namespace RocksQueue
open Interleaving

/-- What a call in progress is at. -/
inductive Job where
  | enqueue (r : EnqueueRequest)
  | dequeue (queue : String)
  | nack (key : Key)
  | reap (queue : String)
  | replay
  | remove
  | settled

/-- How a step changes the lock table and what its thread holds. -/
inductive LockStep (s s' : Shared) (i : Nat) (held held' : List Lock) : Prop where
  | keep : s'.locks = s.locks → held' ⊆ held → LockStep s s' i held held'
  | acquire (l : Lock) : s.locks l = none → (s'.locks = fun l' => if l' = l then some i else s.locks l') →
      held' ⊆ l :: held → LockStep s s' i held held'
  | release : (s'.locks = fun l => if l ∈ held then none else s.locks l) → held' = [] → LockStep s s' i held held'

namespace Frame

/-- The locks that a call holds. -/
def held (tenant : String) : Frame → List Lock
  | .quotaPending r _ _ => [.queue (lockName tenant r.queue)]
  | .quotaInflight r _ _ _ => [.queue (lockName tenant r.queue)]
  | .quotaDlq r _ _ _ _ => [.queue (lockName tenant r.queue)]
  | .evictScan r _ => [.queue (lockName tenant r.queue)]
  | .evictWrite r _ => [.queue (lockName tenant r.queue)]
  | .mint r _ _ _ _ => [.queue (lockName tenant r.queue)]
  | .countInflight queue _ _ _ => [.queue (lockName tenant queue)]
  | .dequeueScan queue _ _ => [.queue (lockName tenant queue)]
  | .ackLocks _ held _ => held
  | .ackGet _ _ _ _ held => held
  | .write _ _ held _ => held
  | .unlock held _ => held
  | _ => []

def job : Frame → Job
  | .enqueueLock r => .enqueue r
  | .quotaPending r _ _ => .enqueue r
  | .quotaInflight r _ _ _ => .enqueue r
  | .quotaDlq r _ _ _ _ => .enqueue r
  | .evictScan r _ => .enqueue r
  | .evictWrite r _ => .enqueue r
  | .mint r _ _ _ _ => .enqueue r
  | .dequeueLock queue _ _ _ => .dequeue queue
  | .countInflight queue _ _ _ => .dequeue queue
  | .dequeueScan queue _ _ => .dequeue queue
  | .nackGet key => .nack key
  | .nackDraw key _ => .nack key
  | .reapScan queue => .reap queue
  | .replayScan => .replay
  | .replayDraw _ _ _ _ _ => .replay
  | .ackLocks _ _ _ => .remove
  | .ackGet _ _ _ _ _ => .remove
  | .cumulativeScan _ _ => .remove
  | .purgeScan => .remove
  | .write _ _ _ _ => .settled
  | .unlock _ _ => .settled
  | .returned _ => .settled

variable {tenant : String} {s s' : Shared} {i : Nat} {io : StepInput} {f f' : Frame}

/-! ### The frames that a read leads to -/

theorem beginMint_shape (tenant : String) (r : EnqueueRequest) (now : Nat) :
    ((beginMint tenant r now).job = .enqueue r ∨ (beginMint tenant r now).job = .settled) ∧
      (beginMint tenant r now).held tenant = [.queue (lockName tenant r.queue)] := by
  unfold beginMint
  split
  · exact ⟨Or.inr rfl, rfl⟩
  · exact ⟨Or.inl rfl, rfl⟩

theorem beginQuota_shape (tenant : String) (r : EnqueueRequest) (now : Nat) :
    ((beginQuota tenant r now).job = .enqueue r ∨ (beginQuota tenant r now).job = .settled) ∧
      (beginQuota tenant r now).held tenant = [.queue (lockName tenant r.queue)] := by
  unfold beginQuota
  split
  · exact beginMint_shape tenant r now
  · exact ⟨Or.inl rfl, rfl⟩

theorem checkQuota_shape (tenant : String) (r : EnqueueRequest) (quota : Nat) (deadline : Option Nat)
    (current now : Nat) :
    ((checkQuota tenant r quota deadline current now).job = .enqueue r ∨
      (checkQuota tenant r quota deadline current now).job = .settled) ∧
      (checkQuota tenant r quota deadline current now).held tenant = [.queue (lockName tenant r.queue)] := by
  unfold checkQuota
  dsimp only
  repeat' split
  all_goals first | exact beginMint_shape tenant r now | exact ⟨Or.inr rfl, rfl⟩ | exact ⟨Or.inl rfl, rfl⟩

theorem nextMint_shape (tenant : String) (r : EnqueueRequest) (now : Nat) (todo : List Bytes) (b : WriteBatch)
    (ids : List String) :
    ((nextMint tenant r now todo b ids).job = .enqueue r ∨ (nextMint tenant r now todo b ids).job = .settled) ∧
      (nextMint tenant r now todo b ids).held tenant = [.queue (lockName tenant r.queue)] := by
  unfold nextMint
  split
  · exact ⟨Or.inr rfl, rfl⟩
  · exact ⟨Or.inl rfl, rfl⟩

theorem beginDequeue_shape (tenant queue : String) (limit timeout : Nat) :
    ((beginDequeue tenant queue limit timeout).job = .dequeue queue ∨
      (beginDequeue tenant queue limit timeout).job = .settled) ∧
      (beginDequeue tenant queue limit timeout).held tenant = [.queue (lockName tenant queue)] := by
  unfold beginDequeue
  split
  · exact ⟨Or.inr rfl, rfl⟩
  · exact ⟨Or.inl rfl, rfl⟩

theorem writeOr_shape (tenant : String) (kind : WriteKind) (b : WriteBatch) (ls : List Lock) (reply : Reply) :
    (writeOr kind b ls reply).job = .settled ∧ (writeOr kind b ls reply).held tenant = ls := by
  unfold writeOr
  split <;> exact ⟨rfl, rfl⟩

theorem nextAck_shape (tenant : String) (ls : List Lock) (todo seen counted : List Key) :
    ((nextAck ls todo seen counted).job = .remove ∨ (nextAck ls todo seen counted).job = .settled) ∧
      (nextAck ls todo seen counted).held tenant = ls := by
  rcases nextAck_cases ls todo seen counted with ⟨key, rest, -, heq⟩ | ⟨-, heq⟩ | heq <;> rw [heq]
  · exact ⟨Or.inl rfl, rfl⟩
  · exact ⟨Or.inr rfl, rfl⟩
  · exact ⟨Or.inr rfl, rfl⟩

theorem nextAckLock_shape (tenant : String) (keys : List Key) (ls todo : List Lock) :
    ((nextAckLock keys ls todo).job = .remove ∨ (nextAckLock keys ls todo).job = .settled) ∧
      (nextAckLock keys ls todo).held tenant = ls := by
  cases todo with
  | nil => exact nextAck_shape tenant ls keys [] []
  | cons l todo => exact ⟨Or.inl rfl, rfl⟩

theorem nextReplay_shape (tenant : String) (b : WriteBatch) (count : Nat) (todo : List (Key × Value)) :
    ((nextReplay b count todo).job = .replay ∨ (nextReplay b count todo).job = .settled) ∧
      (nextReplay b count todo).held tenant = [] := by
  cases todo with
  | nil => exact ⟨Or.inr (writeOr_shape tenant _ _ _ _).1, (writeOr_shape tenant _ _ _ _).2⟩
  | cons item todo =>
    obtain ⟨key, v⟩ := item
    cases v with
    | corrupt raw => exact ⟨Or.inr rfl, rfl⟩
    | task task => exact ⟨Or.inl rfl, rfl⟩

/-! ### The step -/

/-- A call stays the call it is until its write or its end, and the lock table changes only by what it
    takes or gives back. -/
theorem step_shape (h : Frame.step tenant s i f io = some (s', f')) :
    (f'.job = f.job ∨ f'.job = .settled) ∧ LockStep s s' i (f.held tenant) (f'.held tenant) := by
  have keep : ∀ {s₁ : Shared} {ls ls' : List Lock}, s₁.locks = s.locks → ls' = ls → LockStep s s₁ i ls ls' :=
    fun hlocks heq => .keep hlocks (heq ▸ List.Subset.refl _)
  cases stepped_of_step h with
  -- A lock is taken.
  | enqueueLock r hfree =>
    obtain ⟨hjob, hheld⟩ := beginQuota_shape tenant r io.now
    exact ⟨hjob, .acquire _ hfree rfl (hheld ▸ List.Subset.refl _)⟩
  | dequeueLock queue limit timeout hfree =>
    obtain ⟨hjob, hheld⟩ := beginDequeue_shape tenant queue limit timeout
    exact ⟨hjob, .acquire _ hfree rfl (hheld ▸ List.Subset.refl _)⟩
  | cappedLock queue limit timeout maxInflight hfree =>
    exact ⟨Or.inl rfl, .acquire _ hfree rfl (List.Subset.refl _)⟩
  | ackLock keys ls l todo hfree =>
    obtain ⟨hjob, hheld⟩ := nextAckLock_shape tenant keys (ls ++ [l]) todo
    refine ⟨hjob, .acquire l hfree rfl fun l' hl' => ?_⟩
    rw [hheld] at hl'
    rcases List.mem_append.mp hl' with hold | hnew
    · exact List.mem_cons_of_mem _ hold
    · exact List.mem_singleton.mp hnew ▸ List.mem_cons_self
  -- The locks are given back.
  | unlock ls reply => exact ⟨Or.inl rfl, .release rfl rfl⟩
  -- The locks stay, and the call goes on.
  | quotaPending r quota deadline => exact ⟨Or.inl rfl, keep rfl rfl⟩
  | quotaInflight r quota deadline pending => exact ⟨Or.inl rfl, keep rfl rfl⟩
  | quotaDlq r quota deadline pending inflight =>
    obtain ⟨hjob, hheld⟩ := checkQuota_shape tenant r quota deadline (pending + inflight) io.now
    exact ⟨hjob, keep rfl hheld⟩
  | evictNothing r toEvict hnil =>
    obtain ⟨hjob, hheld⟩ := beginMint_shape tenant r io.now
    exact ⟨hjob, keep rfl hheld⟩
  | evictScan r toEvict hne => exact ⟨Or.inl rfl, keep rfl rfl⟩
  | evictWrite r b =>
    obtain ⟨hjob, hheld⟩ := beginMint_shape tenant r io.now
    exact ⟨hjob, keep rfl hheld⟩
  | mint r now payload todo b ids hfresh =>
    obtain ⟨hjob, hheld⟩ := nextMint_shape tenant r now todo
      (b ++ [enqueueOp r.queue now s.seq payload io.id]) (ids ++ [io.id])
    exact ⟨hjob, keep rfl hheld⟩
  | countInflight queue limit timeout maxInflight hroom =>
    obtain ⟨hjob, hheld⟩ :=
      beginDequeue_shape tenant queue (min limit (maxInflight - s.db.countPrefix .inflight queue)) timeout
    exact ⟨hjob, keep rfl hheld⟩
  | ackGet key todo seen counted ls =>
    obtain ⟨hjob, hheld⟩ := nextAck_shape tenant ls todo seen
      (if (s.db.get .inflight key).isSome then counted ++ [key] else counted)
    exact ⟨hjob, keep rfl hheld⟩
  | nackGet key task hget hless => exact ⟨Or.inl rfl, keep rfl rfl⟩
  | replayScan =>
    obtain ⟨hjob, hheld⟩ := nextReplay_shape tenant [] 0 s.db.dlq.entries
    exact ⟨hjob, keep rfl hheld⟩
  | replayDraw key task todo b count =>
    obtain ⟨hjob, hheld⟩ := nextReplay_shape tenant (b ++ replayOps key task s.seq) (count + 1) todo
    exact ⟨hjob, keep rfl hheld⟩
  -- The locks stay, and the call has only its write or its end before it.
  | countFull queue limit timeout maxInflight hfull => exact ⟨Or.inr rfl, keep rfl rfl⟩
  | dequeueScan queue limit timeout =>
    exact ⟨Or.inr (writeOr_shape tenant _ _ _ _).1, keep rfl (writeOr_shape tenant _ _ _ _).2⟩
  | nackNone key hget => exact ⟨Or.inr rfl, keep rfl rfl⟩
  | nackPoison key raw hget => exact ⟨Or.inr rfl, keep rfl rfl⟩
  | nackLetter key task hget hmax => exact ⟨Or.inr rfl, keep rfl rfl⟩
  | nackDraw key task => exact ⟨Or.inr rfl, keep rfl rfl⟩
  | cumulativeScan queue upToSeq =>
    exact ⟨Or.inr (writeOr_shape tenant _ _ _ _).1, keep rfl (writeOr_shape tenant _ _ _ _).2⟩
  | reapScan queue =>
    exact ⟨Or.inr (writeOr_shape tenant _ _ _ _).1, keep rfl (writeOr_shape tenant _ _ _ _).2⟩
  | purgeScan =>
    exact ⟨Or.inr (writeOr_shape tenant _ _ _ _).1, keep rfl (writeOr_shape tenant _ _ _ _).2⟩
  | write kind b ls reply => exact ⟨Or.inl rfl, keep rfl rfl⟩

/-! ### What is still written -/

/-- The kinds of write that a call may still do. -/
def writes : Frame → List WriteKind
  | .enqueueLock _ => [.evict, .enqueue]
  | .quotaPending _ _ _ => [.evict, .enqueue]
  | .quotaInflight _ _ _ _ => [.evict, .enqueue]
  | .quotaDlq _ _ _ _ _ => [.evict, .enqueue]
  | .evictScan _ _ => [.evict, .enqueue]
  | .evictWrite _ _ => [.evict, .enqueue]
  | .mint _ _ _ _ _ => [.enqueue]
  | .dequeueLock _ _ _ _ => [.dequeue]
  | .countInflight _ _ _ _ => [.dequeue]
  | .dequeueScan _ _ _ => [.dequeue]
  | .ackLocks _ _ _ => [.ack]
  | .ackGet _ _ _ _ _ => [.ack]
  | .nackGet _ => [.nack]
  | .nackDraw _ _ => [.nack]
  | .cumulativeScan _ _ => [.cumulativeAck]
  | .reapScan _ => [.reap]
  | .purgeScan => [.purge]
  | .replayScan => [.replay]
  | .replayDraw _ _ _ _ _ => [.replay]
  | .write kind _ _ _ => [kind]
  | .unlock _ _ => []
  | .returned _ => []

theorem writeOr_writes (kind : WriteKind) (b : WriteBatch) (ls : List Lock) (reply : Reply) :
    (writeOr kind b ls reply).writes ⊆ [kind] := by
  rcases writeOr_eq kind b ls reply with ⟨-, heq⟩ | ⟨-, heq⟩ <;> rw [heq] <;> simp [writes]

theorem beginMint_writes (tenant : String) (r : EnqueueRequest) (now : Nat) :
    (beginMint tenant r now).writes ⊆ [.evict, .enqueue] := by
  unfold beginMint
  split <;> simp [writes]

theorem beginQuota_writes (tenant : String) (r : EnqueueRequest) (now : Nat) :
    (beginQuota tenant r now).writes ⊆ [.evict, .enqueue] := by
  unfold beginQuota
  split
  · exact beginMint_writes tenant r now
  · simp [writes]

theorem checkQuota_writes (tenant : String) (r : EnqueueRequest) (quota : Nat) (deadline : Option Nat)
    (current now : Nat) : (checkQuota tenant r quota deadline current now).writes ⊆ [.evict, .enqueue] := by
  unfold checkQuota
  dsimp only
  repeat' split
  all_goals first | exact beginMint_writes tenant r now | simp [writes]

theorem beginDequeue_writes (tenant queue : String) (limit timeout : Nat) :
    (beginDequeue tenant queue limit timeout).writes ⊆ [.dequeue] := by
  unfold beginDequeue
  split <;> simp [writes]

theorem nextAck_writes (ls : List Lock) (todo seen counted : List Key) :
    (nextAck ls todo seen counted).writes ⊆ [.ack] := by
  rcases nextAck_cases ls todo seen counted with ⟨key, rest, -, heq⟩ | ⟨-, heq⟩ | heq <;> rw [heq] <;> simp [writes]

theorem nextAckLock_writes (keys : List Key) (ls todo : List Lock) : (nextAckLock keys ls todo).writes ⊆ [.ack] := by
  cases todo with
  | nil => exact nextAck_writes ls keys [] []
  | cons l todo => exact List.Subset.refl _

theorem nextReplay_writes (b : WriteBatch) (count : Nat) (todo : List (Key × Value)) :
    (nextReplay b count todo).writes ⊆ [.replay] := by
  cases todo with
  | nil => exact writeOr_writes _ _ _ _
  | cons item todo =>
    obtain ⟨key, v⟩ := item
    cases v <;> simp [nextReplay, writes]

/-- No step adds to what its call writes. -/
theorem step_writes (h : Frame.step tenant s i f io = some (s', f')) : f'.writes ⊆ f.writes := by
  cases stepped_of_step h with
  | enqueueLock r => exact beginQuota_writes tenant r io.now
  | quotaPending => exact List.Subset.refl _
  | quotaInflight => exact List.Subset.refl _
  | quotaDlq r quota deadline => exact checkQuota_writes tenant r quota deadline _ io.now
  | evictNothing r => exact beginMint_writes tenant r io.now
  | evictScan => exact List.Subset.refl _
  | evictWrite r => exact beginMint_writes tenant r io.now
  | mint =>
    unfold nextMint
    split <;> exact List.Subset.refl _
  | dequeueLock queue limit timeout => exact beginDequeue_writes tenant queue limit timeout
  | cappedLock => exact List.Subset.refl _
  | countFull => simp [writes]
  | countInflight queue limit timeout => exact beginDequeue_writes tenant queue _ timeout
  | dequeueScan => exact writeOr_writes _ _ _ _
  | ackLock keys ls l todo => exact nextAckLock_writes keys _ todo
  | ackGet key todo seen counted ls => exact nextAck_writes ls todo seen _
  | nackNone => simp [writes]
  | nackPoison => exact List.Subset.refl _
  | nackLetter => exact List.Subset.refl _
  | nackGet => exact List.Subset.refl _
  | nackDraw => exact List.Subset.refl _
  | cumulativeScan => exact writeOr_writes _ _ _ _
  | reapScan => exact writeOr_writes _ _ _ _
  | purgeScan => exact writeOr_writes _ _ _ _
  | replayScan => exact nextReplay_writes [] 0 _
  | replayDraw key task todo => exact nextReplay_writes _ _ todo
  | write => exact List.nil_subset _
  | unlock => exact List.Subset.refl _

end Frame

/-! ### What a write does -/

/-- The family that a batch of this kind deletes from. -/
def WriteKind.takesFrom : WriteKind → Option Cf
  | .enqueue => none
  | kind => some kind.source

/-- The families that it puts into. -/
def WriteKind.putsInto : WriteKind → List Cf
  | .enqueue => [.pending]
  | .dequeue => [.inflight, .dlq]
  | .nack => [.pending, .dlq]
  | .reap => [.pending, .dlq]
  | .replay => [.pending]
  | _ => []

/-- Only a dequeue puts into inflight. -/
theorem WriteKind.eq_dequeue {kind : WriteKind} (h : .inflight ∈ kind.putsInto) : kind = .dequeue := by
  cases kind <;> simp [putsInto] at h ⊢

def WriteKind.Does (kind : WriteKind) : WriteOp → Prop
  | .delete c _ => kind.takesFrom = some c
  | .put c _ _ => c ∈ kind.putsInto

section Does
variable {db : TenantDb} {kind : WriteKind} {b : WriteBatch} {ms : List Move} {now : Nat}

theorem IsMoves.does (h : IsMoves b ms) (hms : ∀ m ∈ ms, kind.takesFrom = some m.src ∧ m.dst ∈ kind.putsInto) :
    ∀ op ∈ b, kind.Does op := by
  intro op hop
  cases op with
  | delete c k =>
    obtain ⟨m, hm, rfl, -⟩ := h.mem_delete.mp hop
    exact (hms m hm).1
  | put c k v =>
    obtain ⟨m, hm, rfl, -⟩ := h.mem_put.mp hop
    exact (hms m hm).2

theorem Moved.does {m : Move} (h : Moved db now kind m) : kind.takesFrom = some m.src ∧ m.dst ∈ kind.putsInto := by
  cases h with
  | poisonInflight hkind => rcases hkind with rfl | rfl <;> exact ⟨rfl, by simp [WriteKind.putsInto]⟩
  | _ => exact ⟨rfl, by simp [WriteKind.putsInto]⟩

theorem does_deletes {c : Cf} {keys : List Key} (hc : kind.takesFrom = some c) : ∀ op ∈ deletes c keys, kind.Does op := by
  intro op hop
  obtain ⟨key, -, rfl⟩ := List.mem_map.mp hop
  exact hc

end Does

namespace Frame
variable {tenant : String} {s s' : Shared} {i : Nat} {io : StepInput} {f f' : Frame} {db : TenantDb} {b : WriteBatch}
  {kind : WriteKind}

/-- The batch of a frame consists of what the next write of its call does. An eviction is written by a frame of its
    own. -/
structure Fits (f : Frame) : Prop where
  does : ∀ op ∈ f.batch, ∃ kind, f.writes.head? = some kind ∧ kind.Does op
  evicts : ∀ {b held reply}, f = .write .evict b held reply → b = []

theorem fits_of_nil (h : f.batch = []) : f.Fits where
  does op hop := by
    rw [h] at hop
    cases hop
  evicts heq := by
    rw [heq] at h
    exact h

theorem fits_of_does (hbatch : f.batch = b) (hkind : f.writes.head? = some kind) (hne : kind ≠ .evict)
    (hdoes : ∀ op ∈ b, kind.Does op) : f.Fits where
  does op hop := ⟨kind, hkind, hdoes op (hbatch ▸ hop)⟩
  evicts heq := by
    rw [heq] at hkind
    exact absurd (Option.some.inj hkind).symm hne

theorem Planned.fits (h : Planned db f) : f.Fits := by
  cases h with
  | evict => exact ⟨fun op hop => ⟨.evict, rfl, does_deletes rfl op hop⟩, fun heq => by cases heq⟩
  | ack => exact fits_of_does rfl rfl (by simp) (does_deletes rfl)
  | cumulativeAck => exact fits_of_does rfl rfl (by simp) (does_deletes rfl)
  | purge => exact fits_of_does rfl rfl (by simp) (does_deletes rfl)
  | deliver now hms hnodup hmoved => exact fits_of_does rfl rfl (by simp) (hms.does fun m hm => (hmoved m hm).1.does)
  | move now hkind hms hnodup hmoved =>
    refine fits_of_does rfl rfl ?_ (hms.does fun m hm => (hmoved m hm).1.does)
    rcases hkind with rfl | rfl <;> simp
  | retry => exact fits_of_nil rfl
  | replay => exact fits_of_nil rfl

theorem Fits.does_of (h : f.Fits) (hkind : f.writes.head? = some kind) : ∀ op ∈ f.batch, kind.Does op := by
  intro op hop
  obtain ⟨kind', hkind', hdoes⟩ := h.does op hop
  obtain rfl : kind = kind' := Option.some.inj (hkind.symm.trans hkind')
  exact hdoes

theorem nextMint_fits {r : EnqueueRequest} {now : Nat} {todo : List Bytes} {ids : List String}
    (h : ∀ op ∈ b, WriteKind.enqueue.Does op) : (nextMint tenant r now todo b ids).Fits := by
  unfold nextMint
  split
  · exact fits_of_does rfl rfl (by simp) h
  · exact fits_of_does rfl rfl (by simp) h

theorem nextReplay_fits {count : Nat} (todo : List (Key × Value)) (h : ∀ op ∈ b, WriteKind.replay.Does op) :
    (nextReplay b count todo).Fits := by
  cases todo with
  | nil =>
    rcases writeOr_eq .replay b [] (.count count) with ⟨-, heq⟩ | ⟨-, heq⟩ <;> rw [nextReplay, heq]
    · exact fits_of_nil rfl
    · exact fits_of_does rfl rfl (by simp) h
  | cons item todo =>
    obtain ⟨key, v⟩ := item
    cases v with
    | corrupt raw => exact fits_of_nil rfl
    | task task => exact fits_of_does rfl rfl (by simp) h

/-- Each step leads to a frame whose batch fits. -/
theorem step_fits (hf : f.Fits) (h : Frame.step tenant s i f io = some (s', f')) : f'.Fits := by
  cases step_effect h with
  | quiet locks hidle => exact fits_of_nil hidle.bare.2.2
  | plan hplan => exact hplan.fits
  | unlock => exact fits_of_nil rfl
  | mint =>
    refine nextMint_fits fun op hop => ?_
    rcases List.mem_append.mp hop with hold | hnew
    · exact hf.does_of rfl op hold
    · obtain rfl := List.mem_singleton.mp hnew
      exact List.mem_singleton_self _
  | @retry key task =>
    refine fits_of_does rfl rfl (by simp) ((retryBatch_moves key task s.seq).does fun m hm => ?_)
    obtain rfl := List.mem_singleton.mp hm
    exact ⟨rfl, List.mem_cons_self⟩
  | @replay key task =>
    refine nextReplay_fits _ fun op hop => ?_
    rcases List.mem_append.mp hop with hold | hnew
    · exact hf.does_of rfl op hold
    · refine (replayOps_moves key task s.seq).does (fun m hm => ?_) op hnew
      obtain rfl := List.mem_singleton.mp hm
      exact ⟨rfl, List.mem_cons_self⟩
  | evict hidle => exact fits_of_nil hidle.bare.2.2
  | write => exact fits_of_nil rfl

/-- The lock table gives each lock that the call holds to its thread. -/
def Holding (tenant : String) (s : Shared) (i : Nat) (f : Frame) : Prop := ∀ l ∈ f.held tenant, s.locks l = some i

theorem start_held (tenant : String) (call : Call) : (Frame.start tenant call).held tenant = [] := by
  cases call with
  | ackBatch keys => exact (nextAckLock_shape tenant keys [] _).2
  | dequeueWithMaxInflight queue limit timeout maxInflight =>
    simp only [Frame.start]
    split <;> rfl
  | _ => rfl

/-- A lock has one holder. -/
theorem Holding.unique {g : Frame} {j : Nat} {l : Lock} (hf : f.Holding tenant s i) (hg : g.Holding tenant s j)
    (hl : l ∈ f.held tenant) (hl' : l ∈ g.held tenant) : i = j :=
  Option.some.inj ((hf l hl).symm.trans (hg l hl'))

end Frame

/-- In every interleaving, what the calls have put together fits their writes. -/
theorem fits_outline {tenant : String} {ok : Config Shared Frame → Label Call StepInput → Prop} :
    Outline (system tenant) ok (fun _ => True) (fun _ _ f => f.Fits) fun _ _ => True where
  call _ _ := Frame.fits_of_nil (Frame.start_idle _ _).bare.2.2
  callApart _ := ⟨trivial, trivial⟩
  env _ _ := ⟨trivial, fun hf => hf⟩
  own h _ hf hs := ⟨trivial, Frame.step_fits (h.frames hf) hs⟩
  others h _ _ _ _ hg := ⟨h.frames hg, trivial, trivial⟩

theorem locks_outline {tenant : String} {ok : Config Shared Frame → Label Call StepInput → Prop} :
    Outline (system tenant) ok (fun _ => True) (Frame.Holding tenant) fun _ _ => True where
  call {c k} _ _ := by
    intro l hl
    have hnil : ((system tenant).start k).held tenant = [] := Frame.start_held tenant k
    rw [hnil] at hl
    cases hl
  callApart _ := ⟨trivial, trivial⟩
  env h _ := ⟨trivial, fun hf => hf⟩
  own {c i f a s f'} h _ hf hs := by
    have hheld := h.frames hf
    refine ⟨trivial, fun l hl => ?_⟩
    cases (Frame.step_shape hs).2 with
    | keep hlocks hsub => exact hlocks ▸ hheld l (hsub hl)
    | acquire l₀ hfree hlocks hsub =>
      rw [hlocks]
      -- A lock held after the step is the one just taken, or was held before.
      by_cases heq : l = l₀
      · simp [heq]
      · have hold : l ∈ f.held tenant := (List.mem_cons.mp (hsub hl)).resolve_left heq
        simp [heq, hheld l hold]
    | release hlocks hnil =>
      rw [hnil] at hl
      cases hl
  others {c i f a s f' j g} h _ hf hs hij hg := by
    refine ⟨fun l hl => ?_, trivial, trivial⟩
    have hj := h.frames hg l hl
    cases (Frame.step_shape hs).2 with
    | keep hlocks hsub => exact hlocks ▸ hj
    | acquire l₀ hfree hlocks hsub =>
      have hne : l ≠ l₀ := by
        rintro rfl
        rw [hfree] at hj
        cases hj
      simp [hlocks, hne, hj]
    | release hlocks hnil =>
      have hnot : l ∉ f.held tenant := fun hl' => hij ((h.frames hf).unique (h.frames hg) hl' hl)
      simp [hlocks, hnot, hj]

/-- What is known of the ids and of the locks in every interleaving. -/
structure Grounded (tenant : String) (c : Config Shared Frame) : Prop where
  known : Holds Known Frame.Known Frame.Apart c
  locks : Holds (fun _ => True) (Frame.Holding tenant) (fun _ _ => True) c

theorem Grounded.next {tenant : String} {c c' : Config Shared Frame} {l : Label Call StepInput} (h : Grounded tenant c)
    (hn : (system tenant).next c l = some c') : Grounded tenant c' := by
  have hknown : Outline (system tenant) (fun _ _ => True) Known Frame.Known Frame.Apart := known_outline
  have hlocks : Outline (system tenant) (fun _ _ => True) (fun _ => True) (Frame.Holding tenant) fun _ _ => True :=
    locks_outline
  exact ⟨hknown.next h.known trivial hn, hlocks.next h.locks trivial hn⟩

theorem grounded_of_known {tenant : String} {s : Shared} (h : Known s) : Grounded tenant ⟨s, []⟩ :=
  ⟨.start h, .start trivial⟩

end RocksQueue
