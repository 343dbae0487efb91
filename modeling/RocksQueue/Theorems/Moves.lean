import RocksQueue.Concurrent

/-! # Moves

What the batches of the queue operations do, said once. A dequeue, a nack, a sweep of the reaper and a
replay write moves: each record they take from one family they put into another. The other operations
write only puts (enqueue) or only deletes. -/

namespace RocksQueue

/-- A record on its way from one family to another. -/
structure Move where
  src : Cf
  key : Key
  dst : Cf
  newKey : Key
  task : Task

def Move.ops (m : Move) : WriteBatch := [.delete m.src m.key, .put m.dst m.newKey m.task.serialize]

/-- A batch that consists of the moves `ms`. A replay writes the put before the delete, which makes no
    difference to what is stored afterwards. -/
structure IsMoves (b : WriteBatch) (ms : List Move) : Prop where
  perm : b.Perm (ms.flatMap Move.ops)
  write : ∀ db : TenantDb, db.write b = db.write (ms.flatMap Move.ops)

/-- A batch of deletes from one family. -/
def deletes (c : Cf) (keys : List Key) : WriteBatch := keys.map (.delete c)

/-- The ids of the tasks that a batch puts. -/
def putIds (b : WriteBatch) : List String :=
  b.filterMap fun
    | .put _ _ (.task t) => some t.id
    | _ => none

/-- The ids of the tasks among the records of a scan. -/
def taskIds (items : List (Key × Value)) : List String :=
  items.filterMap fun
    | (_, .task t) => some t.id
    | _ => none

/-- What one record found in `db` becomes under each operation that moves records, at clock `now`. -/
inductive Moved (db : TenantDb) (now : Nat) : WriteKind → Move → Prop where
  | deliver {k : Key} {t : Task} {timeout : Nat} : db.get .pending k = some (.task t) →
      Moved db now .dequeue ⟨.pending, k, .inflight, k, t.delivered (saturatingAdd now timeout)⟩
  | reclaim {k : Key} {t : Task} : db.get .inflight k = some (.task t) → t.expired now = true →
      Moved db now .reap ⟨.inflight, k, .pending, k, { t with deadline := 0 }⟩
  | retry {k : Key} {t : Task} {seq : Nat} : db.get .inflight k = some (.task t) → t.attempts < maxAttempts →
      Moved db now .nack ⟨.inflight, k, .pending, encodeKey t.queue seq, { t with deadline := 0 }⟩
  | deadLetter {k : Key} {t : Task} : db.get .inflight k = some (.task t) → maxAttempts ≤ t.attempts →
      Moved db now .nack ⟨.inflight, k, .dlq, k, t⟩
  | replay {k : Key} {t : Task} {seq : Nat} : db.get .dlq k = some (.task t) →
      Moved db now .replay ⟨.dlq, k, .pending, encodeKey t.queue seq, t.replayed⟩
  | poisonPending {k : Key} {raw : Bytes} {queue : String} : db.get .pending k = some (.corrupt raw) →
      Moved db now .dequeue ⟨.pending, k, .dlq, k, .poison queue raw now⟩
  | poisonInflight {k : Key} {raw : Bytes} {queue : String} {kind : WriteKind} : kind = .reap ∨ kind = .nack →
      db.get .inflight k = some (.corrupt raw) → Moved db now kind ⟨.inflight, k, .dlq, k, .poison queue raw now⟩

/-- Every stored value is a task. -/
def AllTasks (db : TenantDb) : Prop := ∀ {c : Cf} {k : Key} {v : Value}, db.get c k = some v → ∃ t, v = .task t

/-- What a move takes is a task, which keeps its id and its queue. -/
theorem Moved.stored {db : TenantDb} {now : Nat} {kind : WriteKind} {m : Move} (hall : AllTasks db)
    (h : Moved db now kind m) :
    ∃ t, db.get m.src m.key = some (.task t) ∧ t.id = m.task.id ∧ t.queue = m.task.queue := by
  cases h with
  | deliver h => exact ⟨_, h, rfl, rfl⟩
  | reclaim h => exact ⟨_, h, rfl, rfl⟩
  | retry h => exact ⟨_, h, rfl, rfl⟩
  | deadLetter h => exact ⟨_, h, rfl, rfl⟩
  | replay h => exact ⟨_, h, rfl, rfl⟩
  | poisonPending h => exact absurd (hall h) (by simp)
  | poisonInflight hk h => exact absurd (hall h) (by simp)

/-! ## Batches of moves -/

section Batches
variable {db : TenantDb} {b b' : WriteBatch} {ms ms' : List Move} {m : Move} {c c' : Cf} {k k' : Key} {v : Value}

theorem TenantDb.apply_comm (h : c ≠ c') :
    (db.apply (.put c k v)).apply (.delete c' k') = (db.apply (.delete c' k')).apply (.put c k v) := by
  cases c <;> cases c' <;> first | rfl | exact absurd rfl h

theorem IsMoves.nil : IsMoves [] [] := ⟨.nil, fun _ => rfl⟩

/-- The moves one after another. -/
theorem IsMoves.ops (ms : List Move) : IsMoves (ms.flatMap Move.ops) ms := ⟨.refl _, fun _ => rfl⟩

theorem IsMoves.eq_nil (h : IsMoves [] ms) : ms = [] := by
  cases ms with
  | nil => rfl
  | cons m ms => exact absurd h.perm.symm.eq_nil (by simp [Move.ops])

theorem IsMoves.single {t : Task} :
    IsMoves [.delete c k, .put c' k' t.serialize] [⟨c, k, c', k', t⟩] := ⟨.refl _, fun _ => rfl⟩

/-- The order that a replay writes in. -/
theorem IsMoves.putFirst (h : m.src ≠ m.dst) :
    IsMoves [.put m.dst m.newKey m.task.serialize, .delete m.src m.key] [m] := by
  refine ⟨?_, fun db => ?_⟩
  · simpa [Move.ops] using List.Perm.swap _ _ []
  · simpa [Move.ops] using TenantDb.apply_comm h.symm

theorem IsMoves.append (h : IsMoves b ms) (h' : IsMoves b' ms') : IsMoves (b ++ b') (ms ++ ms') := by
  refine ⟨?_, fun db => ?_⟩
  · rw [List.flatMap_append]
    exact h.perm.append h'.perm
  · rw [List.flatMap_append, TenantDb.write_append, TenantDb.write_append, h.write, h'.write]

theorem IsMoves.mem_put (h : IsMoves b ms) :
    .put c k v ∈ b ↔ ∃ m ∈ ms, m.dst = c ∧ m.newKey = k ∧ m.task.serialize = v := by
  rw [h.perm.mem_iff, List.mem_flatMap]
  simp [Move.ops, eq_comm]

theorem IsMoves.mem_delete (h : IsMoves b ms) : .delete c k ∈ b ↔ ∃ m ∈ ms, m.src = c ∧ m.key = k := by
  rw [h.perm.mem_iff, List.mem_flatMap]
  simp [Move.ops, eq_comm]

@[simp] theorem putIds_nil : putIds [] = [] := rfl

@[simp] theorem putIds_append : putIds (b ++ b') = putIds b ++ putIds b' := List.filterMap_append

@[simp] theorem putIds_put_task {t : Task} : putIds (.put c k (.task t) :: b) = t.id :: putIds b := rfl

@[simp] theorem putIds_delete : putIds (.delete c k :: b) = putIds b := rfl

theorem mem_putIds {t : Task} (h : .put c k (.task t) ∈ b) : t.id ∈ putIds b :=
  List.mem_filterMap.mpr ⟨_, h, rfl⟩

theorem putIds_moves : putIds (ms.flatMap Move.ops) = ms.map fun m => m.task.id := by
  induction ms with
  | nil => rfl
  | cons m ms ih =>
    rw [List.flatMap_cons, putIds_append, ih]
    rfl

theorem IsMoves.putIds_perm (h : IsMoves b ms) : (putIds b).Perm (ms.map fun m => m.task.id) := by
  rw [← putIds_moves]
  exact h.perm.filterMap _

@[simp] theorem putIds_deletes {keys : List Key} : putIds (deletes c keys) = [] := by
  induction keys with
  | nil => rfl
  | cons k keys ih => exact ih

theorem put_not_mem_deletes {keys : List Key} : .put c k v ∉ deletes c' keys := by
  simp [deletes]

theorem mem_deletes {keys : List Key} : .delete c k ∈ deletes c' keys ↔ c = c' ∧ k ∈ keys := by
  simp only [deletes, List.mem_map, WriteOp.delete.injEq]
  constructor
  · rintro ⟨k', hk', rfl, rfl⟩
    exact ⟨rfl, hk'⟩
  · rintro ⟨rfl, hk⟩
    exact ⟨k, hk, rfl, rfl⟩

/-- The family that an operation takes records from. -/
def WriteKind.source : WriteKind → Cf
  | .nack => .inflight
  | .reap => .inflight
  | .ack => .inflight
  | .cumulativeAck => .inflight
  | .purge => .dlq
  | .replay => .dlq
  | _ => .pending

theorem Moved.src_eq {kind : WriteKind} {now : Nat} (h : Moved db now kind m) : m.src = kind.source := by
  cases h with
  | poisonInflight hkind => rcases hkind with rfl | rfl <;> rfl
  | _ => rfl

theorem Moved.src_ne_dst {kind : WriteKind} {now : Nat} (h : Moved db now kind m) : m.src ≠ m.dst := by
  cases h <;> simp

/-- A delivery and a sweep keep the key. -/
theorem Moved.newKey_eq {kind : WriteKind} {now : Nat} (h : Moved db now kind m) (hkind : kind = .dequeue ∨ kind = .reap) :
    m.newKey = m.key := by
  cases h with
  | retry => simp at hkind
  | replay => simp at hkind
  | _ => rfl

end Batches

/-! ## What a batch puts -/

section Puts
variable {c : Cf} {p : Key → Bool} {b b' : WriteBatch} {ms : List Move}

open TenantDb

@[simp] theorem puts_nil : puts c p [] = 0 := rfl

@[simp] theorem puts_append : puts c p (b ++ b') = puts c p b + puts c p b' := List.countP_append

@[simp] theorem puts_put {c' : Cf} {k : Key} {v : Value} :
    puts c p [.put c' k v] = if c' = c ∧ p k = true then 1 else 0 := by
  simp [puts, List.countP_cons]

@[simp] theorem puts_deletes {c' : Cf} {keys : List Key} : puts c p (deletes c' keys) = 0 := by
  refine List.countP_eq_zero.mpr fun op hop => ?_
  obtain ⟨k, -, rfl⟩ := List.mem_map.mp hop
  exact Bool.false_ne_true

theorem puts_moves (h : IsMoves b ms) : puts c p b = (ms.filter fun m => m.dst = c ∧ p m.newKey = true).length := by
  rw [puts, h.perm.countP_eq]
  induction ms generalizing b with
  | nil => rfl
  | cons m ms ih =>
    have hrest := ih (.ops _)
    rw [List.flatMap_cons, List.countP_append, hrest]
    by_cases hm : m.dst = c ∧ p m.newKey = true
    · simp [Move.ops, hm]
      omega
    · simp [Move.ops, hm]

/-- Moves into other families put nothing into this one. -/
theorem puts_moves_away (h : IsMoves b ms) (hdst : ∀ m ∈ ms, m.dst ≠ c) : puts c p b = 0 := by
  rw [puts_moves h, List.length_eq_zero_iff, List.filter_eq_nil_iff]
  intro m hm hin
  exact hdst m hm (of_decide_eq_true hin).1

end Puts

/-! ## What the operations write -/

section Operations
variable {db : TenantDb} {items : List (Key × Value)} {queue : String} {now timeout : Nat}

theorem deliverBatch_moves (key : Key) (task : Task) :
    IsMoves (deliverBatch key task) [⟨.pending, key, .inflight, key, task⟩] := .single

theorem poisonBatch_moves (src : Cf) (key : Key) (raw : Bytes) :
    IsMoves (poisonBatch src queue key raw now) [⟨src, key, .dlq, key, .poison queue raw now⟩] := .single

theorem reclaimBatch_moves (key : Key) (task : Task) :
    IsMoves (reclaimBatch key task) [⟨.inflight, key, .pending, key, { task with deadline := 0 }⟩] := .single

theorem retryBatch_moves (key : Key) (task : Task) (seq : Nat) :
    IsMoves (retryBatch key task seq)
      [⟨.inflight, key, .pending, encodeKey task.queue seq, { task with deadline := 0 }⟩] := .single

theorem deadLetterBatch_moves (key : Key) (task : Task) :
    IsMoves (deadLetterBatch key task.serialize) [⟨.inflight, key, .dlq, key, task⟩] := .single

/-- A dequeue moves records in scan order, and returns those that became inflight. -/
theorem dequeueLoop_moves (queue : String) (now timeout limit : Nat)
    (hread : ∀ k v, (k, v) ∈ items → db.get .pending k = some v) :
    ∃ ms, IsMoves (dequeueLoop queue now (saturatingAdd now timeout) limit items).batch ms ∧
      (ms.map Move.key).Sublist (items.map Prod.fst) ∧ (∀ m ∈ ms, Moved db now .dequeue m) ∧
      (dequeueLoop queue now (saturatingAdd now timeout) limit items).results =
        (ms.filter fun m => m.dst = .inflight).map fun m => (m.newKey, m.task) := by
  induction items generalizing limit with
  | nil => exact ⟨[], .nil, .slnil, by simp, rfl⟩
  | cons item rest ih =>
    obtain ⟨key, v⟩ := item
    have hkey := hread key v List.mem_cons_self
    have hrest := fun k v hmem => hread k v (List.mem_cons_of_mem _ hmem)
    cases v with
    | corrupt raw =>
      obtain ⟨ms, hms, hsub, hmoved, hres⟩ := ih limit hrest
      -- A record that does not deserialize is moved, and does not count against the limit.
      refine ⟨⟨.pending, key, .dlq, key, .poison queue raw now⟩ :: ms,
        (poisonBatch_moves .pending key raw).append hms, hsub.cons_cons _, ?_, ?_⟩
      · exact List.forall_mem_cons.mpr ⟨.poisonPending hkey, hmoved⟩
      · simpa [dequeueLoop] using hres
    | task task =>
      -- The last task that the limit allows ends the loop.
      by_cases hlimit : limit ≤ 1
      · refine ⟨[⟨.pending, key, .inflight, key, task.delivered (saturatingAdd now timeout)⟩], ?_,
          (List.nil_sublist _).cons_cons _, ?_, ?_⟩
        · simpa [dequeueLoop, hlimit, Delivery.empty] using deliverBatch_moves key _
        · exact List.forall_mem_singleton.mpr (.deliver hkey)
        · simp [dequeueLoop, hlimit, Delivery.empty]
      · obtain ⟨ms, hms, hsub, hmoved, hres⟩ := ih (limit - 1) hrest
        refine ⟨⟨.pending, key, .inflight, key, task.delivered (saturatingAdd now timeout)⟩ :: ms, ?_,
          hsub.cons_cons _, ?_, ?_⟩
        · simpa [dequeueLoop, hlimit] using (deliverBatch_moves key _).append hms
        · exact List.forall_mem_cons.mpr ⟨.deliver hkey, hmoved⟩
        · simpa [dequeueLoop, hlimit] using hres

theorem dequeueLoop_length {deadline : Nat} (limit : Nat) (hlimit : 0 < limit) :
    (dequeueLoop queue now deadline limit items).results.length ≤ limit := by
  induction items generalizing limit with
  | nil => exact Nat.zero_le _
  | cons item rest ih =>
    obtain ⟨key, v⟩ := item
    cases v with
    | corrupt raw => exact ih limit hlimit
    | task task =>
      by_cases h1 : limit ≤ 1
      · simp [dequeueLoop, h1, Delivery.empty]
        omega
      · have hrest := ih (limit - 1) (by omega)
        simp only [dequeueLoop, h1, if_false, List.length_cons]
        omega

/-- A sweep moves the expired records back, and the unparseable ones to the dead letters. -/
theorem reapLoop_moves (queue : String) (now : Nat) (hread : ∀ k v, (k, v) ∈ items → db.get .inflight k = some v) :
    ∃ ms, IsMoves (reapLoop queue now items) ms ∧ (ms.map Move.key).Sublist (items.map Prod.fst) ∧
      ∀ m ∈ ms, Moved db now .reap m := by
  induction items with
  | nil => exact ⟨[], .nil, .slnil, by simp⟩
  | cons item rest ih =>
    obtain ⟨key, v⟩ := item
    have hkey := hread key v List.mem_cons_self
    obtain ⟨ms, hms, hsub, hmoved⟩ := ih fun k v hmem => hread k v (List.mem_cons_of_mem _ hmem)
    cases v with
    | corrupt raw =>
      refine ⟨⟨.inflight, key, .dlq, key, .poison queue raw now⟩ :: ms,
        (poisonBatch_moves .inflight key raw).append hms, hsub.cons_cons _, ?_⟩
      exact List.forall_mem_cons.mpr ⟨.poisonInflight (Or.inl rfl) hkey, hmoved⟩
    | task task =>
      by_cases hexp : task.expired now = true
      · refine ⟨⟨.inflight, key, .pending, key, { task with deadline := 0 }⟩ :: ms, ?_, hsub.cons_cons _, ?_⟩
        · simpa [reapLoop, hexp] using (reclaimBatch_moves key task).append hms
        · exact List.forall_mem_cons.mpr ⟨.reclaim hkey hexp, hmoved⟩
      · refine ⟨ms, ?_, hsub.cons _, hmoved⟩
        simpa [reapLoop, hexp] using hms

def Move.ofReplay (key : Key) (task : Task) (seq : Nat) : Move :=
  ⟨.dlq, key, .pending, encodeKey task.queue seq, task.replayed⟩

theorem replayOps_moves (key : Key) (task : Task) (seq : Nat) :
    IsMoves (replayOps key task seq) [.ofReplay key task seq] := by
  have hne : (Move.ofReplay key task seq).src ≠ (Move.ofReplay key task seq).dst := by simp [Move.ofReplay]
  exact IsMoves.putFirst hne

/-- The moves of a replay that finds only tasks. -/
def replayMoves : Nat → List (Key × Value) → List Move
  | seq, (key, .task task) :: rest => .ofReplay key task seq :: replayMoves (nextSeq seq) rest
  | _, _ => []

theorem replayLoop_moves {seq : Nat} {b : WriteBatch} (h : replayLoop seq items = some b) :
    IsMoves b (replayMoves seq items) ∧ (replayMoves seq items).map Move.key = items.map Prod.fst ∧
      replayDraws items = items.length := by
  induction items generalizing seq b with
  | nil =>
    obtain rfl := Option.some.inj h
    exact ⟨.nil, rfl, rfl⟩
  | cons item rest ih =>
    obtain ⟨key, v⟩ := item
    cases v with
    | corrupt raw => cases h
    | task task =>
      simp only [replayLoop] at h
      split at h
      · cases h
      · rename_i b' hb'
        obtain rfl := Option.some.inj h
        obtain ⟨hms, hkeys, hdraws⟩ := ih hb'
        refine ⟨IsMoves.append (replayOps_moves key task seq) hms, ?_, ?_⟩
        · simp [replayMoves, Move.ofReplay, hkeys]
        · simp [replayDraws, hdraws]

theorem replayMoves_moved {seq : Nat} {m : Move} (hread : ∀ k v, (k, v) ∈ items → db.get .dlq k = some v)
    (h : m ∈ replayMoves seq items) : Moved db now .replay m := by
  induction items generalizing seq with
  | nil => cases h
  | cons item rest ih =>
    obtain ⟨key, v⟩ := item
    cases v with
    | corrupt raw => cases h
    | task task =>
      rcases List.mem_cons.mp h with rfl | h
      · exact .replay (hread key _ List.mem_cons_self)
      · exact ih (fun k v hmem => hread k v (List.mem_cons_of_mem _ hmem)) h

theorem replayMoves_ids {seq : Nat} {b : WriteBatch} (h : replayLoop seq items = some b) :
    (replayMoves seq items).map (fun m => m.task.id) = taskIds items := by
  induction items generalizing seq b with
  | nil => rfl
  | cons item rest ih =>
    obtain ⟨key, v⟩ := item
    cases v with
    | corrupt raw => cases h
    | task task =>
      simp only [replayLoop] at h
      split at h
      · cases h
      · rename_i b' hb'
        simp [replayMoves, Move.ofReplay, Task.replayed, taskIds, ih hb']

theorem mem_enqueueLoop_pending {seq : Nat} {todo : List (Bytes × String)} {op : WriteOp}
    (h : op ∈ enqueueLoop queue now seq todo) : ∃ k v, op = .put .pending k v := by
  induction todo generalizing seq with
  | nil => cases h
  | cons item todo ih =>
    obtain ⟨payload, id⟩ := item
    rcases List.mem_cons.mp h with rfl | h
    · exact ⟨_, _, rfl⟩
    · exact ih h

theorem put_mem_enqueueLoop {seq : Nat} {todo : List (Bytes × String)} {c : Cf} {k : Key} {v : Value}
    (h : .put c k v ∈ enqueueLoop queue now seq todo) :
    ∃ payload id, (payload, id) ∈ todo ∧ v = .task (newTask queue payload id now) := by
  induction todo generalizing seq with
  | nil => cases h
  | cons item todo ih =>
    obtain ⟨payload, id⟩ := item
    rcases List.mem_cons.mp h with heq | h
    · cases heq
      exact ⟨payload, id, List.mem_cons_self, rfl⟩
    · obtain ⟨payload', id', hmem, hv⟩ := ih h
      exact ⟨payload', id', List.mem_cons_of_mem _ hmem, hv⟩

theorem putIds_enqueueLoop {seq : Nat} {todo : List (Bytes × String)} :
    putIds (enqueueLoop queue now seq todo) = todo.map Prod.snd := by
  induction todo generalizing seq with
  | nil => rfl
  | cons item todo ih =>
    obtain ⟨payload, id⟩ := item
    simp only [enqueueLoop, enqueueOp, Task.serialize, putIds_put_task, newTask, ih, List.map_cons]

theorem evictBatch_eq {n : Nat} : evictBatch items n = deletes .pending ((items.take n).map Prod.fst) := by
  simp [evictBatch, deletes, Function.comp_def]

theorem purgeBatch_eq : purgeBatch items = deletes .dlq (items.map Prod.fst) := by
  simp [purgeBatch, deletes, Function.comp_def]

theorem cumulativeLoop_eq (upToSeq : Nat) (items : List (Key × Value)) :
    ∃ keys, cumulativeLoop upToSeq items = deletes .inflight keys ∧ keys.Sublist (items.map Prod.fst) := by
  induction items with
  | nil => exact ⟨[], rfl, .slnil⟩
  | cons item rest ih =>
    obtain ⟨key, v⟩ := item
    obtain ⟨keys, hkeys, hsub⟩ := ih
    simp only [cumulativeLoop]
    split
    · exact ⟨keys, hkeys, hsub.cons _⟩
    · split
      · exact ⟨[], rfl, List.nil_sublist _⟩
      · exact ⟨key :: keys, by rw [hkeys]; rfl, hsub.cons_cons _⟩

end Operations

end RocksQueue
