import RocksQueue.Lib.Segments
import RocksQueue.Theorems.Moves
import RocksQueue.Theorems.ReaperTick

/-! # Exact dequeues and sweeps

What an undisturbed dequeue and an undisturbed sweep do to any stored bytes. Both write moves that keep their
keys, so that their effect is known record by record. -/

namespace RocksQueue
open TenantDb

/-! ## Moves that keep their keys -/

/-- Moves out of one family, at most one for each key. -/
structure KeepsKeys (src : Cf) (ms : List Move) : Prop where
  src_eq : ∀ m ∈ ms, m.src = src
  newKey_eq : ∀ m ∈ ms, m.newKey = m.key
  dst_ne : ∀ m ∈ ms, m.dst ≠ src
  nodup : (ms.map Move.key).Nodup

section KeepsKeys
variable {db : TenantDb} {b : WriteBatch} {ms : List Move} {m : Move} {c src : Cf} {k : Key}

theorem KeepsKeys.of_key (h : KeepsKeys src ms) {m' : Move} (hm : m ∈ ms) (hm' : m' ∈ ms) (heq : m'.key = m.key) : m' = m :=
  List.inj_on_of_nodup_map h.nodup hm' hm heq

theorem KeepsKeys.get_src (h : KeepsKeys src ms) (hb : IsMoves b ms) (hm : m ∈ ms) : (db.write b).get src m.key = none := by
  cases hget : (db.write b).get src m.key with
  | none => rfl
  | some v =>
    rcases get_write hget with hput | ⟨-, hdel⟩
    · obtain ⟨m', hm', hdst, -⟩ := hb.mem_put.mp hput
      exact absurd hdst (h.dst_ne m' hm')
    · exact absurd (hb.mem_delete.mpr ⟨m, hm, h.src_eq m hm, rfl⟩) hdel

theorem KeepsKeys.get_dst (h : KeepsKeys src ms) (hb : IsMoves b ms) (hm : m ∈ ms) :
    (db.write b).get m.dst m.key = some m.task.serialize := by
  have hput : .put m.dst m.key m.task.serialize ∈ b := hb.mem_put.mpr ⟨m, hm, rfl, h.newKey_eq m hm, rfl⟩
  have hdel : .delete m.dst m.key ∉ b := fun hmem => by
    obtain ⟨m', hm', hsrc, -⟩ := hb.mem_delete.mp hmem
    exact h.dst_ne m hm (hsrc.symm.trans (h.src_eq m' hm'))
  obtain ⟨v, hget, hput'⟩ := get_write_of_put db hput hdel
  obtain ⟨m', hm', -, hkey, rfl⟩ := hb.mem_put.mp hput'
  obtain rfl := h.of_key hm hm' ((h.newKey_eq m' hm').symm.trans hkey)
  exact hget

theorem KeepsKeys.get_other (h : KeepsKeys src ms) (hb : IsMoves b ms) (hm : m ∈ ms) (hsrc : c ≠ src) (hdst : c ≠ m.dst) :
    (db.write b).get c m.key = db.get c m.key := by
  refine get_write_of_untouched (fun v hput => ?_) fun hdel => ?_
  · obtain ⟨m', hm', hdst', hkey, -⟩ := hb.mem_put.mp hput
    obtain rfl := h.of_key hm hm' ((h.newKey_eq m' hm').symm.trans hkey)
    exact hdst hdst'.symm
  · obtain ⟨m', hm', hsrc', -⟩ := hb.mem_delete.mp hdel
    exact hsrc (hsrc'.symm.trans (h.src_eq m' hm'))

theorem KeepsKeys.get_unmoved (h : KeepsKeys src ms) (hb : IsMoves b ms) (hk : k ∉ ms.map Move.key) :
    (db.write b).get c k = db.get c k := by
  refine get_write_of_untouched (fun v hput => ?_) fun hdel => ?_
  · obtain ⟨m, hm, -, hkey, -⟩ := hb.mem_put.mp hput
    exact hk (List.mem_map.mpr ⟨m, hm, (h.newKey_eq m hm).symm.trans hkey⟩)
  · obtain ⟨m, hm, -, hkey⟩ := hb.mem_delete.mp hdel
    exact hk (List.mem_map.mpr ⟨m, hm, hkey⟩)

end KeepsKeys

/-! ## Dequeues -/

/-- The record deserializes. -/
def decodable (item : Key × Value) : Bool := (Task.deserialize item.2).isSome

/-- What a dequeue does with a record that it takes. -/
def deliveryMove (queue : String) (now deadline : Nat) : Key × Value → Move
  | (key, .task task) => ⟨.pending, key, .inflight, key, task.delivered deadline⟩
  | (key, .corrupt raw) => ⟨.pending, key, .dlq, key, .poison queue raw now⟩

/-- What a dequeue returns for a record that it takes. -/
def deliveredResult (deadline : Nat) : Key × Value → Option (Key × Task)
  | (key, .task task) => some (key, task.delivered deadline)
  | (_, .corrupt _) => none

section Dequeue
variable {db : TenantDb} {queue : String} {items taken : List (Key × Value)} {n timeout now deadline : Nat}

/-- The loop takes the shortest initial segment with enough tasks, record by record. -/
theorem dequeueLoop_eq (hn : 0 < n) : dequeueLoop queue now deadline n items =
    { batch := ((segment decodable n items).map (deliveryMove queue now deadline)).flatMap Move.ops
      results := (segment decodable n items).filterMap (deliveredResult deadline)
      poisoned := (segment decodable n items).countP fun item => !decodable item } := by
  induction items generalizing n with
  | nil => rfl
  | cons item items ih =>
    obtain ⟨key, v⟩ := item
    rw [segment_cons hn]
    cases v with
    | corrupt raw =>
      have hrest := ih hn
      have hnone : deliveredResult deadline (key, .corrupt raw) = none := rfl
      simp [dequeueLoop, hrest, decodable, Task.deserialize, deliveryMove, List.filterMap_cons_none hnone, Move.ops,
        poisonBatch]
    | task task =>
      by_cases hone : n ≤ 1
      · have hzero : n - 1 = 0 := by omega
        simp [dequeueLoop, hone, hzero, Delivery.empty, decodable, Task.deserialize, deliveryMove, deliveredResult,
          Move.ops, deliverBatch]
      · have hrest := ih (n := n - 1) (by omega)
        simp [dequeueLoop, hone, hrest, decodable, Task.deserialize, deliveryMove, deliveredResult, Move.ops,
          deliverBatch]

theorem deliveryMove_key (item : Key × Value) : (deliveryMove queue now deadline item).key = item.1 := by
  obtain ⟨key, v⟩ := item
  cases v <;> rfl

theorem deliveryMove_keys (taken : List (Key × Value)) :
    (taken.map (deliveryMove queue now deadline)).map Move.key = taken.map Prod.fst := by
  rw [List.map_map]
  exact List.map_congr_left fun item _ => deliveryMove_key item

theorem keepsKeys_deliveryMove (hnodup : (taken.map Prod.fst).Nodup) :
    KeepsKeys .pending (taken.map (deliveryMove queue now deadline)) where
  src_eq := List.forall_mem_map.mpr fun ⟨_, v⟩ _ => by cases v <;> rfl
  newKey_eq := List.forall_mem_map.mpr fun ⟨_, v⟩ _ => by cases v <;> rfl
  dst_ne := List.forall_mem_map.mpr fun ⟨_, v⟩ _ => by cases v <;> simp [deliveryMove]
  nodup := by
    rw [deliveryMove_keys]
    exact hnodup

theorem segment_keys_nodup : ((segment decodable n (db.scanQueue .pending queue)).map Prod.fst).Nodup :=
  scanQueue_keys_nodup.sublist ((isShortest_segment _ _ _).initial.sublist.map _)

theorem dequeueBatch_eq (hn : 1 ≤ n) : db.dequeueBatch queue n timeout now =
    (db.write (((segment decodable n (db.scanQueue .pending queue)).map
        (deliveryMove queue now (saturatingAdd now timeout))).flatMap Move.ops),
      (segment decodable n (db.scanQueue .pending queue)).filterMap (deliveredResult (saturatingAdd now timeout))) := by
  have hne : n ≠ 0 := by omega
  simp only [dequeueBatch, dequeueBatchUnlocked, if_neg hne, deliver, dequeueLoop_eq hn]

end Dequeue

/-! ## Sweeps -/

/-- What a sweep does with an inflight record of its queue, if it moves it. -/
def reapMove (queue : String) (now : Nat) : Key × Value → Option Move
  | (key, .corrupt raw) => some ⟨.inflight, key, .dlq, key, .poison queue raw now⟩
  | (key, .task task) =>
    if task.expired now then some ⟨.inflight, key, .pending, key, { task with deadline := 0 }⟩ else none

/-- A sweep of `queue` at clock `now`: expired tasks are pending again, undecodable bytes become the payload of a
    dead letter, and nothing else changes. -/
structure SweptOnce (db db' : TenantDb) (queue : String) (now : Nat) : Prop where
  reclaimed : ∀ key task, db.get .inflight key = some (.task task) → inQueue queue key = true →
    0 < task.deadline → task.deadline < now → db'.get .inflight key = none ∧ db'.get .dlq key = none ∧
      db'.get .pending key = some (.task { task with deadline := 0 })
  poisoned : ∀ key raw, db.get .inflight key = some (.corrupt raw) → inQueue queue key = true →
    db'.get .inflight key = none ∧ db'.get .pending key = none ∧
      ∃ letter : Task, db'.get .dlq key = some (.task letter) ∧ letter.payload = raw
  others : ∀ c key, (∀ v, db.get .inflight key = some v → inQueue queue key = true →
    ∃ task, v = .task task ∧ ¬(0 < task.deadline ∧ task.deadline < now)) → db'.get c key = db.get c key

section Sweep
variable {db : TenantDb} {queue : String} {items : List (Key × Value)} {now : Nat} {key : Key} {v : Value} {m : Move}

theorem reapLoop_eq : reapLoop queue now items = (items.filterMap (reapMove queue now)).flatMap Move.ops := by
  induction items with
  | nil => rfl
  | cons item items ih =>
    obtain ⟨key, v⟩ := item
    cases v with
    | corrupt raw => simp [reapLoop, ih, reapMove, Move.ops, poisonBatch]
    | task task =>
      by_cases hexp : task.expired now = true
      · simp [reapLoop, ih, reapMove, hexp, Move.ops, reclaimBatch]
      · simp [reapLoop, ih, reapMove, hexp]

theorem reapMove_eq_some (h : reapMove queue now (key, v) = some m) : v.reaped now = true ∧ m.src = .inflight ∧
    m.key = key ∧ m.newKey = m.key ∧ m.dst ≠ .inflight := by
  cases v with
  | corrupt raw =>
    obtain rfl := Option.some.inj h
    simp [Value.reaped]
  | task task =>
    simp only [reapMove] at h
    split at h
    · rename_i hexp
      obtain rfl := Option.some.inj h
      exact ⟨hexp, rfl, rfl, rfl, by simp⟩
    · cases h

theorem reapMove_isSome : (reapMove queue now (key, v)).isSome = v.reaped now := by
  cases v with
  | corrupt raw => rfl
  | task task =>
    simp only [reapMove, Value.reaped]
    split <;> simp_all

theorem keepsKeys_reapMove (hnodup : (items.map Prod.fst).Nodup) :
    KeepsKeys .inflight (items.filterMap (reapMove queue now)) := by
  have hmove : ∀ m ∈ items.filterMap (reapMove queue now), m.src = .inflight ∧ m.newKey = m.key ∧ m.dst ≠ .inflight := by
    intro m hm
    obtain ⟨⟨key, v⟩, -, hsome⟩ := List.mem_filterMap.mp hm
    obtain ⟨-, hsrc, -, hkey, hdst⟩ := reapMove_eq_some hsome
    exact ⟨hsrc, hkey, hdst⟩
  have hkeys : ((items.filterMap (reapMove queue now)).map Move.key).Sublist (items.map Prod.fst) := by
    clear hnodup hmove
    induction items with
    | nil => exact .slnil
    | cons item items ih =>
      obtain ⟨key, v⟩ := item
      cases hsome : reapMove queue now (key, v) with
      | none =>
        rw [List.filterMap_cons_none hsome]
        exact ih.cons _
      | some m =>
        rw [List.filterMap_cons_some hsome, List.map_cons, (reapMove_eq_some hsome).2.2.1]
        exact ih.cons_cons _
  exact ⟨fun m hm => (hmove m hm).1, fun m hm => (hmove m hm).2.1, fun m hm => (hmove m hm).2.2, hnodup.sublist hkeys⟩

theorem Task.expired_iff {task : Task} : task.expired now = true ↔ 0 < task.deadline ∧ task.deadline < now := by
  simp [Task.expired]

/-- A sweep moves exactly the expired and the undecodable records of its queue. -/
theorem sweptOnce_reapInflight
    (hdisjoint : ∀ key, db.get .inflight key ≠ none → db.get .pending key = none ∧ db.get .dlq key = none) :
    SweptOnce db (db.reapInflight queue now) queue now := by
  have hplace : KeepsKeys .inflight ((db.scanQueue .inflight queue).filterMap (reapMove queue now)) :=
    keepsKeys_reapMove scanQueue_keys_nodup
  have hmoves : IsMoves (reapLoop queue now (reapScan db queue))
      ((db.scanQueue .inflight queue).filterMap (reapMove queue now)) := by
    rw [reapScan_eq, reapLoop_eq]
    exact .ops _
  have hmem : ∀ {key v m}, db.get .inflight key = some v → inQueue queue key = true →
      reapMove queue now (key, v) = some m → m ∈ (db.scanQueue .inflight queue).filterMap (reapMove queue now) :=
    fun hget hin hsome => List.mem_filterMap.mpr ⟨_, mem_scanQueue.mpr ⟨hget, hin⟩, hsome⟩
  have hapart : ∀ {key v}, db.get .inflight key = some v → db.get .pending key = none ∧ db.get .dlq key = none :=
    fun {key v} hget => hdisjoint key (by simp [hget])
  refine ⟨fun key task hget hin hpos hlt => ?_, fun key raw hget hin => ?_, fun c key hkept => ?_⟩
  · have hsome : reapMove queue now (key, .task task) = some ⟨.inflight, key, .pending, key, { task with deadline := 0 }⟩ :=
      if_pos (Task.expired_iff.mpr ⟨hpos, hlt⟩)
    have hmove := hmem hget hin hsome
    refine ⟨hplace.get_src hmoves hmove, ?_, hplace.get_dst hmoves hmove⟩
    exact (hplace.get_other hmoves hmove (by simp) (by simp)).trans (hapart hget).2
  · have hmove := hmem hget hin (rfl : reapMove queue now (key, .corrupt raw) = some _)
    refine ⟨hplace.get_src hmoves hmove, ?_, .poison queue raw now, hplace.get_dst hmoves hmove, rfl⟩
    exact (hplace.get_other hmoves hmove (by simp) (by simp)).trans (hapart hget).1
  · refine hplace.get_unmoved hmoves fun hkey => ?_
    obtain ⟨m, hm, rfl⟩ := List.mem_map.mp hkey
    obtain ⟨⟨key, v⟩, hscan, hsome⟩ := List.mem_filterMap.mp hm
    obtain ⟨hreaped, -, hkey, -⟩ := reapMove_eq_some hsome
    obtain ⟨hget, hin⟩ := mem_scanQueue.mp hscan
    rw [hkey] at hkept
    obtain ⟨task, rfl, hnot⟩ := hkept v hget hin
    exact hnot (Task.expired_iff.mp hreaped)

/-- A sweep leaves nothing to move for a second one at the same clock. -/
theorem reapInflight_reapInflight : (db.reapInflight queue now).reapInflight queue now = db.reapInflight queue now := by
  have hnone : (reapScan (db.reapInflight queue now) queue).filterMap (reapMove queue now) = [] := by
    rw [List.filterMap_eq_nil_iff, reapScan_eq]
    intro ⟨key, v⟩ hscan
    obtain ⟨hget, hin⟩ := mem_scanQueue.mp hscan
    obtain ⟨-, hkept⟩ := get_reapInflight.mp hget
    rw [← Option.not_isSome_iff_eq_none, reapMove_isSome]
    exact fun hreaped => hkept ⟨hin, hreaped⟩
  rw [TenantDb.reapInflight, reapLoop_eq, hnone]
  rfl

/-- The deadline of a delivered task is its visibility timeout from the delivery on, as far as a `u64` goes. -/
theorem deadline_of_delivered {limit timeout start : Nat} {task : Task}
    (h : (key, task) ∈ (db.dequeueBatchUnlocked queue limit timeout start).2) :
    task.deadline = saturatingAdd start timeout := by
  simp only [dequeueBatchUnlocked] at h
  split at h
  · cases h
  · rename_i hlimit
    rw [deliver, dequeueLoop_eq (Nat.pos_of_ne_zero hlimit)] at h
    obtain ⟨⟨key', v⟩, -, hsome⟩ := List.mem_filterMap.mp h
    cases v with
    | corrupt raw => cases hsome
    | task t =>
      cases hsome
      rfl

/-- No sweep takes a record before its deadline has passed. -/
theorem get_reapInflight_of_live {task : Task} (hget : db.get .inflight key = some (.task task)) (hlive : now ≤ task.deadline) :
    (db.reapInflight queue now).get .inflight key = some (.task task) := by
  refine get_reapInflight.mpr ⟨hget, ?_⟩
  rintro ⟨-, hreaped⟩
  have hexpired := Task.expired_iff.mp hreaped
  omega

/-- A sweep is exact and idempotent, and never takes a delivery back before its visibility timeout has passed. -/
theorem reapInflight_exact
    (hdisjoint : ∀ key, db.get .inflight key ≠ none → db.get .pending key = none ∧ db.get .dlq key = none) :
    SweptOnce db (db.reapInflight queue now) queue now ∧
      (db.reapInflight queue now).reapInflight queue now = db.reapInflight queue now ∧
      ∀ (before after : TenantDb) (q q' : String) (limit timeout start later : Nat) (key : Key) (task : Task),
        (key, task) ∈ (before.dequeueBatchUnlocked q limit timeout start).2 →
        after.get .inflight key = some (.task task) → later < 2 ^ 64 →
        later ≤ start + timeout ∨ 2 ^ 64 ≤ start + timeout →
        (after.reapInflight q' later).get .inflight key = some (.task task) := by
  refine ⟨sweptOnce_reapInflight hdisjoint, reapInflight_reapInflight, ?_⟩
  intro before after q q' limit timeout start later key task hdelivered hget hlater hlive
  refine get_reapInflight_of_live hget ?_
  rw [deadline_of_delivered hdelivered, saturatingAdd, u64Size]
  omega

/-- An expired, a live and an undecodable record of a queue. -/
def sweptRecords : TenantDb :=
  TenantDb.empty.write
    [.put .inflight (encodeKey "q" 1) ((newTask "q" [1] "a" 0).delivered 10).serialize,
      .put .inflight (encodeKey "q" 2) ((newTask "q" [2] "b" 0).delivered 30).serialize,
      .put .inflight (encodeKey "q" 3) (.corrupt [7])]

theorem reapInflight_exact_mixed :
    SweptOnce sweptRecords (sweptRecords.reapInflight "q" 20) "q" 20 ∧
      (sweptRecords.reapInflight "q" 20).reapInflight "q" 20 = sweptRecords.reapInflight "q" 20 := by
  have hdisjoint : ∀ key, sweptRecords.get .inflight key ≠ none →
      sweptRecords.get .pending key = none ∧ sweptRecords.get .dlq key = none := fun key _ => by
    simp [sweptRecords, get_apply_put]
  obtain ⟨hswept, htwice, -⟩ := reapInflight_exact hdisjoint
  exact ⟨hswept, htwice⟩

end Sweep

end RocksQueue
