import RocksQueue.Lib.Runs
import RocksQueue.Theorems.Moves

/-! # One call after another

Runs of undisturbed calls on a tenant, over any number of lifetimes of the process. What a completed call
has done is said once (`exec_outcome`): it wrote moves, deletes or new tasks. -/

namespace RocksQueue

/-- What happens next: a call, a call on another tenant, which draws a number from the registry's
    counter, or a restart of the process. -/
inductive Action where
  | call (io : Inputs) (call : Call)
  | other
  | reopen (now : Nat)

/-- A completed call, with the tenant as the call found it. -/
structure Entry where
  before : Tenant
  io : Inputs
  call : Call
  reply : Reply

/-- A tenant with the calls completed on it so far. -/
structure Journal where
  tenant : Tenant
  log : List Entry

def Journal.start (now : Nat) : Journal := ⟨Tenant.open ⟨.empty, 0⟩ now, []⟩

def Journal.next (tenant : String) (j : Journal) : Action → Option Journal
  | .call io call =>
    match j.tenant.exec tenant io call with
    | none => none
    | some (t, reply) => some ⟨t, j.log ++ [⟨j.tenant, io, call, reply⟩]⟩
  | .other => some { j with tenant := { j.tenant with seq := nextSeq j.tenant.seq } }
  | .reopen now => some { j with tenant := j.tenant.open now }

/-- How many numbers a call draws. -/
def Tenant.draws (tenant : String) (t : Tenant) (io : Inputs) : Call → Nat
  | .enqueueBatch queue payloads policy =>
    match enforceQuota tenant t.db queue policy payloads.length io with
    | some (.ok _) => payloads.length
    | _ => 0
  | .nack key =>
    match t.db.get .inflight key with
    | some (.task task) => if maxAttempts ≤ task.attempts then 0 else 1
    | _ => 0
  | .replayDlq => replayDraws t.db.dlq.entries
  | _ => 0

/-- The counter does not wrap. -/
def Action.noWrap (tenant : String) (t : Tenant) : Action → Prop
  | .call io k => t.seq + t.draws tenant io k < u64Size
  | .other => t.seq + 1 < u64Size
  | .reopen _ => True

instance (tenant : String) (t : Tenant) (a : Action) : Decidable (a.noWrap tenant t) :=
  match a with
  | .call io k => inferInstanceAs (Decidable (t.seq + t.draws tenant io k < u64Size))
  | .other => inferInstanceAs (Decidable (t.seq + 1 < u64Size))
  | .reopen _ => .isTrue trivial

/-- A dequeue of some kind. -/
def Call.isDequeue : Call → Bool
  | .dequeueBatch _ _ _ => true
  | .dequeueWithMaxInflight _ _ _ _ => true
  | _ => false

/-- What a completed call leaves and returns. -/
inductive Outcome (tenant : String) (t : Tenant) (io : Inputs) : Call → TenantDb → Reply → Prop where
  | refused {queue : String} {payloads : List Bytes} {policy : NamespacePolicy} {e : QueueError} :
      enforceQuota tenant t.db queue policy payloads.length io = some (.error e) →
      Outcome tenant t io (.enqueueBatch queue payloads policy) t.db (.failed e)
  | enqueue {queue : String} {payloads : List Bytes} {policy : NamespacePolicy} {evicted : List Key} :
      enforceQuota tenant t.db queue policy payloads.length io = some (.ok (deletes .pending evicted)) →
      evicted.Nodup → (∀ k ∈ evicted, (t.db.get .pending k).isSome) → io.ids.length = payloads.length →
      Outcome tenant t io (.enqueueBatch queue payloads policy)
        ((t.db.write (deletes .pending evicted)).write (enqueueLoop queue io.madeAt t.seq (payloads.zip io.ids)))
        (.enqueued io.ids)
  | deliver {call : Call} {b : WriteBatch} {ms : List Move} : call.isDequeue = true → IsMoves b ms →
      (ms.map Move.key).Nodup → (∀ m ∈ ms, Moved t.db io.now .dequeue m) →
      Outcome tenant t io call (t.db.write b)
        (.delivered ((ms.filter fun m => m.dst = .inflight).map fun m => (m.newKey, m.task)))
  | ack {keys counted : List Key} : counted.Nodup → (∀ k, k ∈ counted ↔ k ∈ keys ∧ (t.db.get .inflight k).isSome) →
      Outcome tenant t io (.ackBatch keys) (t.db.write (deletes .inflight counted)) (.acked counted)
  | cumulativeAck {queue : String} {upToSeq : Nat} {keys : List Key} : keys.Nodup →
      (∀ k ∈ keys, (t.db.get .inflight k).isSome) →
      Outcome tenant t io (.cumulativeAck queue upToSeq) (t.db.write (deletes .inflight keys)) (.count keys.length)
  | nackNone {key : Key} : t.db.get .inflight key = none → Outcome tenant t io (.nack key) t.db .done
  | nackDead {key : Key} {b : WriteBatch} {m : Move} : IsMoves b [m] → m.key = key → m.newKey = key → m.dst = .dlq →
      Moved t.db io.now .nack m → Outcome tenant t io (.nack key) (t.db.write b) .done
  | retry {key : Key} {task : Task} : t.db.get .inflight key = some (.task task) → task.attempts < maxAttempts →
      Outcome tenant t io (.nack key) (t.db.write (retryBatch key task t.seq)) .done
  | reap {queue : String} {b : WriteBatch} {ms : List Move} : IsMoves b ms → (ms.map Move.key).Nodup →
      (∀ m ∈ ms, Moved t.db io.now .reap m ∧ inQueue queue m.key = true) →
      Outcome tenant t io (.reapInflight queue) (t.db.write b) .done
  | purge {keys : List Key} : keys.Nodup → (∀ k ∈ keys, (t.db.get .dlq k).isSome) →
      Outcome tenant t io .purgeDlq (t.db.write (deletes .dlq keys)) (.count keys.length)
  | replay {b : WriteBatch} {n : Nat} : replayLoop t.seq t.db.dlq.entries = some b →
      Outcome tenant t io .replayDlq (t.db.write b) (.count n)
  | replayFailed : replayLoop t.seq t.db.dlq.entries = none →
      Outcome tenant t io .replayDlq t.db (.failed .serialization)

section Outcomes
variable {tenant : String} {t t' : Tenant} {io : Inputs} {reply : Reply}

/-! ### The reads -/

theorem scan_isSome {c : Cf} {queue : String} {db : TenantDb} {keys : List Key}
    (hsub : keys.Sublist ((db.scanQueue c queue).map Prod.fst)) {k : Key} (hk : k ∈ keys) :
    (db.get c k).isSome ∧ inQueue queue k = true := by
  obtain ⟨⟨k', v⟩, hkv, rfl⟩ := List.mem_map.mp (hsub.subset hk)
  obtain ⟨hget, hin⟩ := TenantDb.mem_scanQueue.mp hkv
  exact ⟨Option.isSome_iff_exists.mpr ⟨v, hget⟩, hin⟩

theorem enforceQuota_evicts {db : TenantDb} {queue : String} {policy : NamespacePolicy} {incoming : Nat}
    {evicted : WriteBatch} (h : enforceQuota tenant db queue policy incoming io = some (.ok evicted)) :
    ∃ keys, evicted = deletes .pending keys ∧ keys.Sublist ((db.scanQueue .pending queue).map Prod.fst) := by
  have hnil : ∀ {b : WriteBatch}, (some (.ok []) : Option (Except QueueError WriteBatch)) = some (.ok b) →
      ∃ keys, b = deletes .pending keys ∧ keys.Sublist ((db.scanQueue .pending queue).map Prod.fst) := by
    intro b hb
    cases hb
    exact ⟨[], rfl, List.nil_sublist _⟩
  unfold enforceQuota at h
  split at h
  · exact hnil h
  · dsimp only at h
    split at h
    · split at h
      · cases h
      · exact hnil h
    · split at h
      · cases h
      · cases h
      · exact hnil h
    · split at h
      · cases h
        exact ⟨_, evictBatch_eq, (List.take_sublist _ _).map _⟩
      · exact hnil h

theorem mem_ackLoop {db : TenantDb} {seen keys : List Key} {k : Key} :
    k ∈ db.ackLoop seen keys ↔ k ∈ keys ∧ k ∉ seen ∧ (db.get .inflight k).isSome := by
  induction keys generalizing seen with
  | nil => simp [TenantDb.ackLoop]
  | cons key keys ih =>
    simp only [TenantDb.ackLoop]
    split
    · rename_i hseen
      rw [ih, List.mem_cons]
      constructor
      · rintro ⟨hk, hrest⟩
        exact ⟨Or.inr hk, hrest⟩
      · rintro ⟨rfl | hk, hnot, hget⟩
        · exact absurd hseen hnot
        · exact ⟨hk, hnot, hget⟩
    · rename_i hseen
      by_cases heq : k = key
      · subst heq
        split
        · rename_i hget
          simp [hseen, hget]
        · rename_i hget
          simp [ih, hget]
      · split <;> simp [ih, heq]

theorem ackLoop_nodup {db : TenantDb} {seen keys : List Key} : (db.ackLoop seen keys).Nodup := by
  induction keys generalizing seen with
  | nil => exact .nil
  | cons key keys ih =>
    simp only [TenantDb.ackLoop]
    split
    · exact ih
    · split
      · refine List.nodup_cons.mpr ⟨fun hmem => ?_, ih⟩
        exact (mem_ackLoop.mp hmem).2.1 List.mem_cons_self
      · exact ih

/-! ### The call -/

theorem dequeueBatchUnlocked_outcome {call : Call} {queue : String} {limit timeout : Nat} (hcall : call.isDequeue = true) :
    Outcome tenant t io call (t.db.dequeueBatchUnlocked queue limit timeout io.now).1
      (.delivered (t.db.dequeueBatchUnlocked queue limit timeout io.now).2) := by
  unfold TenantDb.dequeueBatchUnlocked
  split
  · exact .deliver hcall .nil .nil (by simp)
  · have hread : ∀ k v, (k, v) ∈ t.db.scanQueue .pending queue → t.db.get .pending k = some v :=
      fun k v hmem => (TenantDb.mem_scanQueue.mp hmem).1
    obtain ⟨ms, hms, hsub, hmoved, hres⟩ := dequeueLoop_moves queue io.now timeout limit hread
    dsimp only [deliver]
    rw [hres]
    exact .deliver hcall hms (hsub.nodup TenantDb.scanQueue_keys_nodup) hmoved

theorem nack_outcome (hseq : t.seq < u64Size) (key : Key) : Outcome tenant t io (.nack key) (t.nack key io.now).db .done ∧
    (t.nack key io.now).seq = advance t.seq (t.draws tenant io (.nack key)) := by
  have hzero := (advance_zero hseq).symm
  cases hget : t.db.get .inflight key with
  | none =>
    simp only [Tenant.nack, Tenant.draws, hget]
    exact ⟨.nackNone hget, hzero⟩
  | some v =>
    cases v with
    | corrupt raw =>
      simp only [Tenant.nack, Tenant.draws, hget]
      exact ⟨.nackDead (poisonBatch_moves .inflight key raw) rfl rfl rfl (.poisonInflight (Or.inr rfl) hget), hzero⟩
    | task task =>
      by_cases hmax : maxAttempts ≤ task.attempts
      · simp only [Tenant.nack, Tenant.draws, hget, hmax, if_true]
        exact ⟨.nackDead (deadLetterBatch_moves key task) rfl rfl rfl (.deadLetter hget hmax), hzero⟩
      · simp only [Tenant.nack, Tenant.draws, hget, hmax, if_false]
        exact ⟨.retry hget (Nat.lt_of_not_le hmax), rfl⟩

/-- A completed call: what it leaves, how far it advances the counter, and what it returns. -/
theorem exec_outcome {call : Call} (hseq : t.seq < u64Size) (h : t.exec tenant io call = some (t', reply)) :
    Outcome tenant t io call t'.db reply ∧ t'.seq = advance t.seq (t.draws tenant io call) := by
  have hzero := (advance_zero hseq).symm
  cases call with
  | enqueueBatch queue payloads policy =>
    obtain ⟨r, hr, heq⟩ := Option.map_eq_some_iff.mp h
    obtain ⟨rfl, rfl⟩ := Prod.mk.inj heq
    simp only [Tenant.enqueueBatchSync] at hr
    split at hr
    · cases hr
    · rename_i hids
      have hids := Decidable.not_not.mp hids
      split at hr
      · cases hr
      -- The quota refuses the batch, and no number is drawn.
      · rename_i e henforce
        cases hr
        refine ⟨.refused henforce, ?_⟩
        simp only [Tenant.draws, henforce]
        exact hzero
      -- The quota lets it in, with what it evicted in the same call.
      · rename_i evicted henforce
        cases hr
        obtain ⟨keys, rfl, hsub⟩ := enforceQuota_evicts henforce
        refine ⟨.enqueue henforce (hsub.nodup TenantDb.scanQueue_keys_nodup)
          (fun k hk => (scan_isSome hsub hk).1) hids, ?_⟩
        simp only [Tenant.draws, henforce]
  | dequeueBatch queue limit timeout =>
    cases h
    exact ⟨dequeueBatchUnlocked_outcome rfl, hzero⟩
  | dequeueWithMaxInflight queue limit timeout maxInflight =>
    cases h
    refine ⟨?_, hzero⟩
    -- A full queue gives nothing, which is a delivery of no moves.
    unfold TenantDb.dequeueWithMaxInflight
    split
    · exact .deliver rfl .nil .nil (by simp)
    · dsimp only
      split
      · exact .deliver rfl .nil .nil (by simp)
      · exact dequeueBatchUnlocked_outcome rfl
  | ackBatch keys =>
    cases h
    refine ⟨.ack ackLoop_nodup fun k => ?_, hzero⟩
    rw [mem_ackLoop]
    simp
  | nack key =>
    cases h
    exact nack_outcome hseq key
  | cumulativeAck queue upToSeq =>
    cases h
    refine ⟨?_, hzero⟩
    obtain ⟨keys, hkeys, hsub⟩ := cumulativeLoop_eq upToSeq (t.db.scanQueue .inflight queue)
    simp only [TenantDb.cumulativeAck, hkeys]
    have hlen : (deletes .inflight keys).length = keys.length := List.length_map _
    rw [hlen]
    exact .cumulativeAck (hsub.nodup TenantDb.scanQueue_keys_nodup) fun k hk => (scan_isSome hsub hk).1
  | reapInflight queue =>
    cases h
    refine ⟨?_, hzero⟩
    have hread : ∀ k v, (k, v) ∈ t.db.scanQueue .inflight queue → t.db.get .inflight k = some v :=
      fun k v hmem => (TenantDb.mem_scanQueue.mp hmem).1
    obtain ⟨ms, hms, hsub, hmoved⟩ := reapLoop_moves queue io.now hread
    rw [TenantDb.reapInflight, reapScan_eq]
    exact .reap hms (hsub.nodup TenantDb.scanQueue_keys_nodup) fun m hm =>
      ⟨hmoved m hm, (scan_isSome hsub (List.mem_map_of_mem hm)).2⟩
  | purgeDlq =>
    cases h
    refine ⟨?_, hzero⟩
    have hlen : (deletes .dlq (t.db.dlq.entries.map Prod.fst)).length = (t.db.dlq.entries.map Prod.fst).length :=
      List.length_map _
    simp only [TenantDb.purgeDlq, purgeBatch_eq]
    rw [hlen]
    exact .purge t.db.dlq.entries_keys_nodup fun k hk => OrderedMap.get?_isSome hk
  | replayDlq =>
    simp only [Tenant.exec, Tenant.replayDlq] at h
    cases hloop : replayLoop t.seq t.db.dlq.entries with
    -- A dead letter that does not deserialize ends the replay before its write.
    | none =>
      rw [hloop] at h
      cases h
      exact ⟨.replayFailed hloop, rfl⟩
    | some b =>
      rw [hloop] at h
      cases h
      exact ⟨.replay hloop, rfl⟩

end Outcomes

/-! ## Moves one after another -/

/-- The moves of a call, carried out one by one while the counter does not wrap. Each finds its record and
    keeps the key, or makes a new key from the next number. -/
inductive Relocates (now : Nat) (kind : WriteKind) : TenantDb → Nat → List Move → TenantDb → Nat → Prop where
  | nil {db : TenantDb} {seq : Nat} : Relocates now kind db seq [] db seq
  | keep {db db' : TenantDb} {seq seq' : Nat} {m : Move} {ms : List Move} : Moved db now kind m → m.newKey = m.key →
      Relocates now kind (db.write m.ops) seq ms db' seq' → Relocates now kind db seq (m :: ms) db' seq'
  | rekey {db db' : TenantDb} {seq seq' : Nat} {m : Move} {ms : List Move} : Moved db now kind m →
      m.newKey = encodeKey m.task.queue seq → seq + 1 < u64Size →
      Relocates now kind (db.write m.ops) (seq + 1) ms db' seq' → Relocates now kind db seq (m :: ms) db' seq'

section Relocations
variable {db : TenantDb} {now seq : Nat} {kind : WriteKind} {m : Move} {ms : List Move} {b : WriteBatch}

theorem get_write_ops (m : Move) (db : TenantDb) (c : Cf) (k : Key) : (db.write m.ops).get c k =
    if c = m.dst ∧ k = m.newKey then some m.task.serialize
    else if c = m.src ∧ k = m.key then none else db.get c k := by
  simp only [Move.ops, TenantDb.write_cons, TenantDb.write_nil, TenantDb.get_apply_put, TenantDb.get_apply_delete]

/-- A move is decided by the record that it takes. -/
theorem Moved.congr {db' : TenantDb} (h : Moved db now kind m) (hget : db'.get m.src m.key = db.get m.src m.key) :
    Moved db' now kind m := by
  cases h with
  | deliver h => exact .deliver (hget.trans h)
  | reclaim h hexp => exact .reclaim (hget.trans h) hexp
  | retry h hlt => exact .retry (hget.trans h) hlt
  | deadLetter h hle => exact .deadLetter (hget.trans h) hle
  | replay h => exact .replay (hget.trans h)
  | poisonPending h => exact .poisonPending (hget.trans h)
  | poisonInflight hkind h => exact .poisonInflight hkind (hget.trans h)

/-- A move leaves the other records of the family it takes from. -/
theorem Moved.after {m' : Move} (h : Moved db now kind m) (h' : Moved db now kind m') (hne : m.key ≠ m'.key) :
    Moved (db.write m'.ops) now kind m := by
  refine h.congr ?_
  have hsrc : m.src = m'.src := h.src_eq.trans h'.src_eq.symm
  have hdst : ¬(m.src = m'.dst ∧ m.key = m'.newKey) := fun heq => h'.src_ne_dst (hsrc ▸ heq.1)
  have hkey : ¬(m.src = m'.src ∧ m.key = m'.key) := fun heq => hne heq.2
  rw [get_write_ops, if_neg hdst, if_neg hkey]

theorem relocates_keep (seq : Nat) (hnodup : (ms.map Move.key).Nodup) (hmoved : ∀ m ∈ ms, Moved db now kind m ∧ m.newKey = m.key) :
    Relocates now kind db seq ms (db.write (ms.flatMap Move.ops)) seq := by
  induction ms generalizing db with
  | nil => exact .nil
  | cons m ms ih =>
    obtain ⟨hnot, hnodup⟩ := List.nodup_cons.mp hnodup
    obtain ⟨⟨hm, hkey⟩, hrest⟩ := List.forall_mem_cons.mp hmoved
    rw [List.flatMap_cons, TenantDb.write_append]
    refine .keep hm hkey (ih hnodup fun m' hm' => ?_)
    have hne : m'.key ≠ m.key := fun heq => hnot (heq ▸ List.mem_map_of_mem hm')
    exact ⟨(hrest m' hm').1.after hm hne, (hrest m' hm').2⟩

theorem relocates_replay {items : List (Key × Value)} (hseq : seq + items.length < u64Size)
    (hread : ∀ k v, (k, v) ∈ items → db.get .dlq k = some v) (hnodup : (items.map Prod.fst).Nodup)
    (hloop : replayLoop seq items = some b) :
    Relocates now .replay db seq (replayMoves seq items) (db.write ((replayMoves seq items).flatMap Move.ops))
      (seq + items.length) := by
  induction items generalizing db seq b with
  | nil => exact .nil
  | cons item rest ih =>
    obtain ⟨key, v⟩ := item
    obtain ⟨hnot, hrest⟩ := List.nodup_cons.mp hnodup
    rw [List.length_cons] at hseq
    have hnext : nextSeq seq = seq + 1 := nextSeq_eq (by omega)
    cases v with
    | corrupt raw => cases hloop
    | task task =>
      simp only [replayLoop] at hloop
      split at hloop
      · cases hloop
      · rename_i b' hb'
        have hmoved : Moved db now .replay (.ofReplay key task seq) := .replay (hread _ _ List.mem_cons_self)
        rw [hnext] at hb'
        have hafter : ∀ k v, (k, v) ∈ rest → (db.write (Move.ofReplay key task seq).ops).get .dlq k = some v := by
          intro k v hkv
          have hne : k ≠ key := fun heq => hnot (heq ▸ List.mem_map.mpr ⟨(k, v), hkv, rfl⟩)
          rw [get_write_ops]
          simpa [Move.ofReplay, hne] using hread k v (List.mem_cons_of_mem _ hkv)
        have htail := ih (by omega) hafter hrest hb'
        rw [replayMoves, List.flatMap_cons, TenantDb.write_append, List.length_cons, hnext, Nat.add_comm rest.length 1,
          ← Nat.add_assoc]
        exact .rekey hmoved rfl (by omega) htail

end Relocations

end RocksQueue
