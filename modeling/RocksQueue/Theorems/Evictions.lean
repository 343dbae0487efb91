import RocksQueue.EnqueueFaults
import RocksQueue.Theorems.Quota
import RocksQueue.Theorems.Replays

/-! # Enqueues into full queues

An enqueue under `EvictOldest` makes room by deleting pending records, which it can only do as far as there are
any, and deletes them in a write of its own. -/

namespace RocksQueue
open TenantDb

/-! ## Batches on one family -/

section Batches
variable {db : TenantDb} {b : WriteBatch} {c : Cf} {queue : String} {now seq : Nat} {todo : List (Bytes × String)}

theorem cf_write_of_untouched (hput : ∀ k v, .put c k v ∉ b) (hdel : ∀ k, .delete c k ∉ b) : (db.write b).cf c = db.cf c :=
  OrderedMap.ext_get? fun k => get_write_of_untouched (hput k) (hdel k)

theorem countPrefix_write_of_untouched (hput : ∀ k v, .put c k v ∉ b) (hdel : ∀ k, .delete c k ∉ b) :
    (db.write b).countPrefix c queue = db.countPrefix c queue := by
  simp only [countPrefix, scanQueue, cf_write_of_untouched hput hdel]

theorem length_enqueueLoop : (enqueueLoop queue now seq todo).length = todo.length := by
  induction todo generalizing seq with
  | nil => rfl
  | cons item todo ih =>
    obtain ⟨payload, id⟩ := item
    exact congrArg (· + 1) ih

/-- New tasks under keys of their own add to the queue what they are. -/
theorem countPrefix_enqueueLoop (hseq : seq < u64Size) (hlen : todo.length ≤ u64Size)
    (hfresh : ∀ i < todo.length, db.get .pending (encodeKey queue (advance seq i)) = none) :
    (db.write (enqueueLoop queue now seq todo)).countPrefix .pending queue = db.countPrefix .pending queue + todo.length := by
  induction todo generalizing seq db with
  | nil => rfl
  | cons item todo ih =>
    obtain ⟨payload, id⟩ := item
    rw [List.length_cons] at hlen hfresh ⊢
    have hnone : db.get .pending (encodeKey queue seq) = none := by
      have hzero := hfresh 0 (Nat.succ_pos _)
      rwa [advance_zero hseq] at hzero
    have hrest : ∀ i < todo.length, (db.apply (enqueueOp queue now seq payload id)).get .pending
        (encodeKey queue (advance (nextSeq seq) i)) = none := by
      intro i hi
      have hne : encodeKey queue (advance seq (i + 1)) ≠ encodeKey queue seq := by
        intro heq
        have hnumbers := (encodeKey_inj (Nat.mod_lt _ (by decide)) hseq heq).2
        have hzero : i + 1 = 0 := advance_inj (by omega) (by decide) (hnumbers.trans (advance_zero hseq).symm)
        omega
      rw [enqueueOp, get_apply_put, advance_succ, if_neg fun h => hne h.2]
      exact hfresh (i + 1) (by omega)
    have hnext : nextSeq seq < u64Size := Nat.mod_lt _ (by decide)
    have hloop := ih hnext (by omega) hrest
    have hput : (db.apply (enqueueOp queue now seq payload id)).countPrefix .pending queue =
        db.countPrefix .pending queue + 1 := by
      rw [countPrefix_eq_count, countPrefix_eq_count, enqueueOp, count_apply_put, if_pos]
      exact ⟨rfl, inQueue_encodeKey queue seq, hnone⟩
    rw [enqueueLoop, write_cons, hloop, hput]
    omega

/-- Deleting different records of a queue takes each of them from its count. -/
theorem countPrefix_deletes {keys : List Key} (hnodup : keys.Nodup)
    (hget : ∀ k ∈ keys, (db.get c k).isSome ∧ inQueue queue k = true) :
    (db.write (deletes c keys)).countPrefix c queue + keys.length = db.countPrefix c queue := by
  induction keys generalizing db with
  | nil => rfl
  | cons k keys ih =>
    obtain ⟨hnot, hrest⟩ := List.nodup_cons.mp hnodup
    obtain ⟨⟨hstored, hin⟩, hkeys⟩ := List.forall_mem_cons.mp hget
    have hdel : (db.apply (.delete c k)).count c (inQueue queue) + _ = db.count c (inQueue queue) := count_apply_delete
    rw [if_pos ⟨rfl, hin, Option.isSome_iff_ne_none.mp hstored⟩] at hdel
    have hleft : ∀ k' ∈ keys, ((db.apply (.delete c k)).get c k').isSome ∧ inQueue queue k' = true := by
      intro k' hk'
      have hne : k' ≠ k := fun heq => hnot (heq ▸ hk')
      simpa [get_apply_delete, hne] using hkeys k' hk'
    have htail := ih hrest hleft
    have hwrite : (db.write (deletes c (k :: keys))).count c (inQueue queue) =
        ((db.apply (.delete c k)).write (deletes c keys)).count c (inQueue queue) := rfl
    simp only [countPrefix_eq_count] at htail ⊢
    rw [hwrite, List.length_cons]
    omega

/-- An eviction takes as many records as it is asked to, as far as there are any. -/
theorem countPrefix_evict (db : TenantDb) (queue : String) (count : Nat) :
    (db.write (evictBatch (db.scanQueue .pending queue) count)).countPrefix .pending queue =
      db.countPrefix .pending queue - count := by
  have hnodup : (((db.scanQueue .pending queue).take count).map Prod.fst).Nodup :=
    scanQueue_keys_nodup.sublist ((List.take_sublist count _).map _)
  have hstored : ∀ k ∈ ((db.scanQueue .pending queue).take count).map Prod.fst,
      (db.get .pending k).isSome ∧ inQueue queue k = true := by
    intro k hk
    obtain ⟨e, he, rfl⟩ := List.mem_map.mp hk
    obtain ⟨hget, hin⟩ := mem_scanQueue.mp (List.mem_of_mem_take he)
    exact ⟨by simp [hget], hin⟩
  have hdeletes := countPrefix_deletes hnodup hstored
  rw [evictBatch_eq]
  rw [List.length_map, List.length_take] at hdeletes
  have hlen : (db.scanQueue .pending queue).length = db.countPrefix .pending queue := rfl
  omega

/-- An eviction of at least as many records as there are leaves none. -/
theorem get_evict_of_le {count : Nat} {k : Key} (hle : db.countPrefix .pending queue ≤ count) (hin : inQueue queue k = true) :
    (db.write (evictBatch (db.scanQueue .pending queue) count)).get .pending k = none := by
  refine Option.eq_none_iff_forall_ne_some.mpr fun v hget => ?_
  rw [evictBatch_eq] at hget
  obtain ⟨hold, hnot⟩ := get_deletes hget
  refine hnot ⟨rfl, List.mem_map.mpr ⟨(k, v), ?_, rfl⟩⟩
  rw [List.take_of_length_le hle]
  exact mem_scanQueue.mpr ⟨hold, hin⟩

end Batches

/-! ## The quota afterwards -/

section Quota
variable {tenant queue : String} {t t' : Tenant} {payloads : List Bytes} {policy : NamespacePolicy} {io : Inputs}
  {ids : List String} {quota : Nat} {evicted : WriteBatch}

theorem waitLoop_ok {incoming deadline current : Nat} {polls : List Nat}
    (h : waitLoop tenant queue quota incoming deadline (polls.map fun now => (current, now)) = some (.ok ())) :
    current + incoming ≤ quota := by
  induction polls with
  | nil => cases h
  | cons now polls ih =>
    simp only [List.map_cons, waitLoop] at h
    split at h
    · assumption
    · split at h
      · cases h
      · exact ih h

/-- An enqueue goes on with room for its tasks, or under `EvictOldest` with what it evicts. -/
theorem enforceQuota_ok (hquota : policy.backlogQuota = some quota)
    (h : enforceQuota tenant t.db queue policy payloads.length io = some (.ok evicted)) :
    (t.db.backlog queue + payloads.length ≤ quota ∧ evicted = []) ∨
      (policy.backlogPolicy = .evictOldest ∧ quota < t.db.backlog queue + payloads.length ∧
        evicted = evictBatch (t.db.scanQueue .pending queue) (t.db.backlog queue + payloads.length - quota)) := by
  simp only [enforceQuota, hquota] at h
  cases hpolicy : policy.backlogPolicy with
  | reject =>
    rw [hpolicy] at h
    simp only at h
    split at h
    · cases h
    · rename_i hroom
      cases h
      exact Or.inl ⟨Nat.le_of_not_lt hroom, rfl⟩
  | block timeoutMs =>
    rw [hpolicy] at h
    simp only at h
    split at h
    · cases h
    · cases h
    · rename_i hwait
      cases h
      exact Or.inl ⟨waitLoop_ok hwait, rfl⟩
  | evictOldest =>
    rw [hpolicy] at h
    simp only at h
    split at h
    · rename_i hfull
      cases h
      exact Or.inr ⟨rfl, hfull, rfl⟩
    · rename_i hroom
      cases h
      exact Or.inl ⟨Nat.le_of_not_lt hroom, rfl⟩

theorem enqueueBatchSync_ok (h : Tenant.enqueueBatchSync tenant t queue payloads policy io = some (t', .ok ids)) :
    ∃ evicted, enforceQuota tenant t.db queue policy payloads.length io = some (.ok evicted) ∧
      io.ids.length = payloads.length ∧
      t'.db = (t.db.write evicted).write (enqueueLoop queue io.madeAt t.seq (payloads.zip io.ids)) := by
  simp only [Tenant.enqueueBatchSync] at h
  split at h
  · cases h
  · rename_i hlen
    split at h
    · cases h
    · cases h
    · rename_i evicted henforce
      cases h
      exact ⟨evicted, henforce, Decidable.not_not.mp hlen, rfl⟩

/-- The tasks of an enqueue add to the backlog at most what they are. -/
theorem backlog_enqueueLoop_le (db : TenantDb) (queue : String) (now seq : Nat) (todo : List (Bytes × String)) :
    (db.write (enqueueLoop queue now seq todo)).backlog queue ≤ db.backlog queue + todo.length := by
  have hle := backlog_write_le queue (enqueueLoop queue now seq todo) db
  rwa [length_enqueueLoop] at hle

theorem inflight_enqueueLoop (db : TenantDb) (queue : String) (now seq : Nat) (todo : List (Bytes × String)) :
    (db.write (enqueueLoop queue now seq todo)).countPrefix .inflight queue = db.countPrefix .inflight queue := by
  refine countPrefix_write_of_untouched (fun k v hmem => ?_) fun k hmem => ?_
  · obtain ⟨k', v', heq⟩ := mem_enqueueLoop_pending hmem
    cases heq
  · obtain ⟨k', v', heq⟩ := mem_enqueueLoop_pending hmem
    cases heq

theorem inflight_evict (db : TenantDb) (queue : String) (count : Nat) :
    (db.write (evictBatch (db.scanQueue .pending queue) count)).countPrefix .inflight queue =
      db.countPrefix .inflight queue := by
  rw [evictBatch_eq]
  refine countPrefix_write_of_untouched (fun k v => put_not_mem_deletes) fun k hmem => ?_
  cases (mem_deletes.mp hmem).1

/-- An eviction that takes everything pending leaves the tasks in flight, and the new ones come on top. -/
theorem backlog_evict_all {db : TenantDb} {todo : List (Bytes × String)} {now seq count : Nat} (hseq : seq < u64Size)
    (hlen : todo.length ≤ u64Size) (hall : db.countPrefix .pending queue ≤ count) :
    ((db.write (evictBatch (db.scanQueue .pending queue) count)).write (enqueueLoop queue now seq todo)).backlog queue =
      db.countPrefix .inflight queue + todo.length := by
  have hempty : ∀ i < todo.length, (db.write (evictBatch (db.scanQueue .pending queue) count)).get .pending
      (encodeKey queue (advance seq i)) = none := fun i _ => get_evict_of_le hall (inQueue_encodeKey queue _)
  rw [TenantDb.backlog, countPrefix_enqueueLoop hseq hlen hempty, countPrefix_evict, inflight_enqueueLoop, inflight_evict]
  omega

/-- After an enqueue that succeeded, the queue is within its quota, unless it evicted and what is in flight leaves
    no room for the batch. -/
theorem enqueue_within_iff (hseq : t.seq < u64Size) (hlen : payloads.length ≤ u64Size) (hquota : policy.backlogQuota = some quota)
    (hok : Tenant.enqueueBatchSync tenant t queue payloads policy io = some (t', .ok ids)) :
    t'.db.countPrefix .pending queue + t'.db.countPrefix .inflight queue ≤ quota ↔
      (policy.backlogPolicy = .evictOldest → t.db.countPrefix .inflight queue + payloads.length ≤ quota) := by
  obtain ⟨evicted, henforce, hids, hdb⟩ := enqueueBatchSync_ok hok
  have hzip : (payloads.zip io.ids).length = payloads.length := by simp [hids]
  have hafter : t'.db.countPrefix .pending queue + t'.db.countPrefix .inflight queue = t'.db.backlog queue := rfl
  have hle := backlog_enqueueLoop_le (t.db.write evicted) queue io.madeAt t.seq (payloads.zip io.ids)
  rw [hafter, hdb]
  rcases enforceQuota_ok hquota henforce with ⟨hroom, rfl⟩ | ⟨hpolicy, hfull, rfl⟩
  · constructor
    · intro _ _
      unfold TenantDb.backlog at hroom
      omega
    · intro _
      rw [write_nil] at hle ⊢
      omega
  · constructor
    · intro hwithin _
      by_contra hover
      have hall : t.db.countPrefix .pending queue ≤ t.db.backlog queue + payloads.length - quota := by
        unfold TenantDb.backlog
        omega
      rw [backlog_evict_all hseq (hzip ▸ hlen) hall, hzip] at hwithin
      exact hover hwithin
    · intro hroom
      have hinflight := hroom hpolicy
      have hevicted : (t.db.write (evictBatch (t.db.scanQueue .pending queue)
          (t.db.backlog queue + payloads.length - quota))).backlog queue = quota - payloads.length := by
        rw [TenantDb.backlog, countPrefix_evict, inflight_evict]
        unfold TenantDb.backlog at hfull ⊢
        omega
      omega

end Quota

/-- A queue that may hold one task, and makes room for another by eviction. -/
def evictOne : NamespacePolicy := { NamespacePolicy.standard "t" with backlogQuota := some 1, backlogPolicy := .evictOldest }

def onePending : Tenant where
  db := TenantDb.empty.write [.put .pending (encodeKey "q" 1) (newTask "q" [1] "a" 0).serialize]
  seq := 2

def oneInflight : Tenant where
  db := TenantDb.empty.write [.put .inflight (encodeKey "q" 1) ((newTask "q" [1] "a" 0).delivered 9).serialize]
  seq := 2

theorem enqueue_within_iff_pending : ∃ t', Tenant.enqueueBatchSync "t" onePending "q" [[2]] evictOne { now := 5, ids := ["b"] } =
    some (t', .ok ["b"]) ∧ t'.db.countPrefix .pending "q" + t'.db.countPrefix .inflight "q" ≤ 1 := by
  have hseq : onePending.seq < u64Size := by decide
  have hlen : [([2] : Bytes)].length ≤ u64Size := by decide
  have hroom : onePending.db.countPrefix .inflight "q" + [([2] : Bytes)].length ≤ 1 := by decide
  have hquota : evictOne.backlogQuota = some 1 := rfl
  obtain ⟨t', hok⟩ : ∃ t', Tenant.enqueueBatchSync "t" onePending "q" [[2]] evictOne { now := 5, ids := ["b"] } =
    some (t', .ok ["b"]) := ⟨_, rfl⟩
  exact ⟨t', hok, (enqueue_within_iff hseq hlen hquota hok).mpr fun _ => hroom⟩

/-- With one task in flight there is nothing to evict, and the queue ends up with two. -/
theorem not_enqueue_within : ∃ t', Tenant.enqueueBatchSync "t" oneInflight "q" [[2]] evictOne { now := 5, ids := ["b"] } =
    some (t', .ok ["b"]) ∧ ¬t'.db.countPrefix .pending "q" + t'.db.countPrefix .inflight "q" ≤ 1 :=
  ⟨_, rfl, by decide⟩

/-! ## Failed enqueues -/

/-- The quota step of the call evicts at least one record. -/
structure Evicts (faults : Faults) (db : TenantDb) (queue : String) (policy : NamespacePolicy) (incoming : Nat) : Prop where
  evictOldest : policy.backlogPolicy = .evictOldest
  full : ∃ quota, policy.backlogQuota = some quota ∧
    quota < db.countPrefix .pending queue + db.countPrefix .inflight queue + incoming
  pending : 0 < db.countPrefix .pending queue
  noFault : faults.depth 0 = none ∧ faults.evictScan = none ∧ faults.evictWrite = none

/-- A step after the quota step fails. -/
def FailsLater (faults : Faults) (incoming : Nat) : Prop :=
  faults.pendingCf ≠ none ∨ (∃ i < incoming, faults.serialize i ≠ none) ∨ faults.write ≠ none

section Faults
variable {faults : Faults} {tenant queue : String} {t t' : Tenant} {db db' : TenantDb} {payloads : List Bytes}
  {policy : NamespacePolicy} {io : Inputs} {incoming : Nat} {r : Except EnqueueError Unit} {e : EnqueueError}

theorem mintUnder_error (faults : Faults) (queue : String) (now n seq : Nat) (todo : List (Bytes × String)) :
    (∃ e, (mintUnder faults queue now n seq todo).2 = .error e) ↔ ∃ i < todo.length, faults.serialize (n + i) ≠ none := by
  induction todo generalizing n seq with
  | nil => simp [mintUnder]
  | cons item todo ih =>
    obtain ⟨payload, id⟩ := item
    rw [List.length_cons]
    cases hhead : faults.serialize n with
    | some e =>
      simp only [mintUnder, hhead]
      exact ⟨fun _ => ⟨0, by omega, by simp [hhead]⟩, fun _ => ⟨e, rfl⟩⟩
    | none =>
      simp only [mintUnder, hhead]
      have hmap : (∃ e, (mintUnder faults queue now (n + 1) (nextSeq seq) todo).2.map
          (fun batch => enqueueOp queue now seq payload id :: batch) = .error e) ↔
          ∃ e, (mintUnder faults queue now (n + 1) (nextSeq seq) todo).2 = .error e := by
        cases (mintUnder faults queue now (n + 1) (nextSeq seq) todo).2 <;> simp [Except.map]
      rw [hmap, ih]
      constructor
      · rintro ⟨i, hi, hfails⟩
        exact ⟨i + 1, by omega, by rwa [show n + (i + 1) = n + 1 + i by omega]⟩
      · rintro ⟨i, hi, hfails⟩
        cases i with
        | zero => exact absurd hhead hfails
        | succ i => exact ⟨i, by omega, by rwa [show n + 1 + i = n + (i + 1) by omega]⟩

theorem evictBatch_ne_nil {count : Nat} (hcount : 0 < count) (hpending : 0 < db.countPrefix .pending queue) :
    evictBatch (db.scanQueue .pending queue) count ≠ [] := by
  have hlen : (evictBatch (db.scanQueue .pending queue) count).length = min count (db.countPrefix .pending queue) := by
    rw [evictBatch, List.length_map, List.length_take]
    rfl
  intro hnil
  rw [hnil, List.length_nil] at hlen
  omega

/-- A call that evicts goes on with fewer pending records. -/
theorem Evicts.enforced (h : Evicts faults db queue policy incoming) (tenant : String) (io : Inputs) : ∃ db',
    enforceQuotaUnder faults tenant db queue policy incoming io = some (db', .ok ()) ∧ db' ≠ db := by
  obtain ⟨quota, hquota, hfull⟩ := h.full
  have hcount : 0 < db.countPrefix .pending queue + db.countPrefix .inflight queue + incoming - quota := by omega
  have hne := evictBatch_ne_nil hcount h.pending
  refine ⟨db.write (evictBatch (db.scanQueue .pending queue)
    (db.countPrefix .pending queue + db.countPrefix .inflight queue + incoming - quota)), ?_, fun hsame => ?_⟩
  · simp only [enforceQuotaUnder, hquota, h.noFault.1, h.evictOldest, if_pos hfull, evictOldestPending, h.noFault.2.1,
      if_neg hne, h.noFault.2.2]
  · have hless := countPrefix_evict db queue
      (db.countPrefix .pending queue + db.countPrefix .inflight queue + incoming - quota)
    have hpending := h.pending
    rw [hsame] at hless
    omega

/-- What `evict_oldest_pending` does: nothing, or what it is asked for. -/
theorem evictOldestPending_cases (faults : Faults) (db : TenantDb) (queue : String) (count : Nat) :
    (evictOldestPending faults db queue count).1 = db ∨
      (0 < db.countPrefix .pending queue ∧ faults.evictScan = none ∧ faults.evictWrite = none ∧
        (evictOldestPending faults db queue count).2 = .ok ()) := by
  simp only [evictOldestPending]
  cases hscan : faults.evictScan with
  | some e => exact Or.inl rfl
  | none =>
    simp only
    split
    · exact Or.inl rfl
    · rename_i hne
      cases hwrite : faults.evictWrite with
      | some e => exact Or.inl rfl
      | none =>
        refine Or.inr ⟨Nat.pos_of_ne_zero fun hzero => hne ?_, trivial, rfl, rfl⟩
        have hnil : db.scanQueue .pending queue = [] := List.length_eq_zero_iff.mp hzero
        rw [hnil, evictBatch, List.take_nil, List.map_nil]

/-- The quota step leaves the records as they are, or it evicts. -/
theorem enforceQuotaUnder_cases (h : enforceQuotaUnder faults tenant db queue policy incoming io = some (db', r)) :
    db' = db ∨ (Evicts faults db queue policy incoming ∧ r = .ok ()) := by
  simp only [enforceQuotaUnder] at h
  cases hquota : policy.backlogQuota with
  | none =>
    simp only [hquota] at h
    cases h
    exact Or.inl rfl
  | some quota =>
    cases hdepth : faults.depth 0 with
    -- The depth cannot be read, so the call fails before any write.
    | some e =>
      simp only [hquota, hdepth] at h
      cases h
      exact Or.inl rfl
    | none =>
      simp only [hquota, hdepth] at h
      cases hpolicy : policy.backlogPolicy with
      | reject =>
        simp only [hpolicy] at h
        split at h
        · cases h
          exact Or.inl rfl
        · cases h
          exact Or.inl rfl
      | block timeoutMs =>
        simp only [hpolicy] at h
        obtain ⟨r', -, heq⟩ := Option.map_eq_some_iff.mp h
        cases heq
        exact Or.inl rfl
      -- Only this policy writes.
      | evictOldest =>
        simp only [hpolicy] at h
        split at h
        · rename_i hfull
          rcases evictOldestPending_cases faults db queue
            (db.countPrefix .pending queue + db.countPrefix .inflight queue + incoming - quota) with hsame | hevicts
          · exact Or.inl ((congrArg Prod.fst (Option.some.inj h)).symm.trans hsame)
          · obtain ⟨hpending, hscan, hwrite, hok⟩ := hevicts
            exact Or.inr ⟨⟨hpolicy, ⟨quota, hquota, hfull⟩, hpending, hdepth, hscan, hwrite⟩,
              (congrArg Prod.snd (Option.some.inj h)).symm.trans hok⟩
        · cases h
          exact Or.inl rfl

/-- An enqueue that got past its quota step fails if and only if a later step does, and keeps what that step left. -/
theorem enqueue_later (hids : io.ids.length = payloads.length)
    (henforce : enforceQuotaUnder faults tenant t.db queue policy payloads.length io = some (db', .ok ())) :
    (∀ t' e, Tenant.enqueueBatchSyncUnder faults tenant t queue payloads policy io = some (t', .error e) → t'.db = db') ∧
      ((∃ t' e, Tenant.enqueueBatchSyncUnder faults tenant t queue payloads policy io = some (t', .error e)) ↔
        FailsLater faults payloads.length) := by
  have hlen : (payloads.zip io.ids).length = payloads.length := by simp [hids]
  have hmint := mintUnder_error faults queue io.madeAt 0 t.seq (payloads.zip io.ids)
  simp only [hlen, Nat.zero_add] at hmint
  simp only [Tenant.enqueueBatchSyncUnder, if_neg (not_not.mpr hids), henforce]
  cases hcf : faults.pendingCf with
  | some e => exact ⟨fun t' e' h => by cases h; rfl, fun _ => Or.inl (by simp [hcf]), fun _ => ⟨_, e, rfl⟩⟩
  | none =>
    cases hminted : (mintUnder faults queue io.madeAt 0 t.seq (payloads.zip io.ids)).2 with
    | error e =>
      refine ⟨fun t' e' h => by cases h; rfl, fun _ => Or.inr (Or.inl (hmint.mp ⟨e, hminted⟩)), fun _ => ⟨_, e, rfl⟩⟩
    | ok batch =>
      have hserialized : ¬∃ i < payloads.length, faults.serialize i ≠ none := by
        rw [← hmint, hminted]
        rintro ⟨e, h⟩
        cases h
      cases hwrite : faults.write with
      | some e => exact ⟨fun t' e' h => by cases h; rfl, fun _ => Or.inr (Or.inr (by simp [hwrite])), fun _ => ⟨_, e, rfl⟩⟩
      | none =>
        refine ⟨fun t' e' h => (by cases h), ?_, ?_⟩
        · rintro ⟨t', e, h⟩
          cases h
        · rintro (h | h | h)
          · exact absurd hcf h
          · exact absurd h hserialized
          · exact absurd hwrite h

/-- An enqueue that fails leaves the records as they were, unless it evicted before the step that failed. -/
theorem failed_enqueue_iff (hids : io.ids.length = payloads.length) :
    (∀ t' e, Tenant.enqueueBatchSyncUnder faults tenant t queue payloads policy io = some (t', .error e) → t'.db = t.db) ↔
      ¬(Evicts faults t.db queue policy payloads.length ∧ FailsLater faults payloads.length) := by
  constructor
  · rintro hsame ⟨hevicts, hfails⟩
    obtain ⟨db', henforce, hne⟩ := hevicts.enforced tenant io
    obtain ⟨hkept, hiff⟩ := enqueue_later hids henforce
    obtain ⟨t', e, hcall⟩ := hiff.mpr hfails
    exact hne ((hkept t' e hcall).symm.trans (hsame t' e hcall))
  · intro hnot t' e hcall
    cases henforce : enforceQuotaUnder faults tenant t.db queue policy payloads.length io with
    | none =>
      simp only [Tenant.enqueueBatchSyncUnder, if_neg (not_not.mpr hids), henforce] at hcall
      cases hcall
    | some r =>
      obtain ⟨db', r⟩ := r
      cases r with
      | error e' =>
        simp only [Tenant.enqueueBatchSyncUnder, if_neg (not_not.mpr hids), henforce] at hcall
        rcases enforceQuotaUnder_cases henforce with rfl | ⟨-, hok⟩
        · cases hcall
          rfl
        · cases hok
      | ok u =>
        obtain ⟨hkept, hiff⟩ := enqueue_later hids henforce
        rcases enforceQuotaUnder_cases henforce with rfl | ⟨hevicts, -⟩
        · exact hkept t' e hcall
        · exact absurd ⟨hevicts, hiff.mp ⟨t', e, hcall⟩⟩ hnot

end Faults

/-- The write of the new tasks fails. -/
def insertFails : Faults := { write := some (.rocksDb "IO error") }

theorem failed_enqueue_iff_inflight :
    ∃ t', Tenant.enqueueBatchSyncUnder insertFails "t" oneInflight "q" [[2]] evictOne { now := 5, ids := ["b"] } =
      some (t', .error (.rocksDb "IO error")) ∧ t'.db = oneInflight.db := by
  obtain ⟨t', hcall⟩ : ∃ t', Tenant.enqueueBatchSyncUnder insertFails "t" oneInflight "q" [[2]] evictOne
    { now := 5, ids := ["b"] } = some (t', .error (.rocksDb "IO error")) := ⟨_, rfl⟩
  have hnone : oneInflight.db.countPrefix .pending "q" = 0 := by decide
  refine ⟨t', hcall, (failed_enqueue_iff rfl).mpr ?_ t' _ hcall⟩
  rintro ⟨hevicts, -⟩
  exact absurd hnone (Nat.ne_of_gt hevicts.pending)

/-- The oldest task is evicted for one that is not stored. -/
theorem not_failed_enqueue :
    ∃ t', Tenant.enqueueBatchSyncUnder insertFails "t" onePending "q" [[2]] evictOne { now := 5, ids := ["b"] } =
      some (t', .error (.rocksDb "IO error")) ∧ onePending.db.get .pending (encodeKey "q" 1) ≠ none ∧
        t'.db.get .pending (encodeKey "q" 1) = none := by
  refine ⟨_, rfl, ?_, ?_⟩
  · decide
  · decide

end RocksQueue
