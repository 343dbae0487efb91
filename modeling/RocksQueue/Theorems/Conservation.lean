import RocksQueue.Theorems.Sequential
import RocksQueue.Theorems.TaskIds

/-! # Conservation

What holds of a tenant's records after any calls, one after another, in one lifetime of the process: the
representation invariant `Wf`, and that every task enqueued is stored, acknowledged, evicted or purged. -/

namespace RocksQueue
open TenantDb

/-! ## The invariant -/

/-- A pending task is not delivered, and an inflight one has a deadline. -/
def DeadlineOk : Cf → Task → Prop
  | .pending, x => x.deadline = 0
  | .inflight, x => 0 < x.deadline
  | .dlq, _ => True

/-- Every record is a task under its own key, made from a number below the counter; no key is in two
    families and no task is stored twice. -/
structure Wf (db : TenantDb) (seq : Nat) : Prop where
  record : ∀ {c k v}, db.get c k = some v →
    ∃ x s, v = .task x ∧ k = encodeKey x.queue s ∧ s < seq ∧ DeadlineOk c x
  apart : ∀ {c c' k}, (db.get c k).isSome → (db.get c' k).isSome → c = c'
  unique : IdUnique db

section Preservation
variable {db : TenantDb} {seq seq' : Nat} {c : Cf} {k : Key} {x : Task} {m : Move}

theorem Wf.empty (seq : Nat) : Wf .empty seq :=
  ⟨fun h => by simp at h, fun h => by simp at h, idUnique_empty⟩

theorem Wf.mono (h : Wf db seq) (hle : seq ≤ seq') : Wf db seq' where
  record hget := by
    obtain ⟨x, s, hv, hk, hs, hd⟩ := h.record hget
    exact ⟨x, s, hv, hk, Nat.lt_of_lt_of_le hs hle, hd⟩
  apart := h.apart
  unique := h.unique

theorem Wf.task (h : Wf db seq) (hget : db.get c k = some (.task x)) :
    ∃ s, k = encodeKey x.queue s ∧ s < seq ∧ DeadlineOk c x := by
  obtain ⟨x', s, hv, hk, hs, hd⟩ := h.record hget
  cases hv
  exact ⟨s, hk, hs, hd⟩

/-- A number that was not drawn yet makes a key that is in no family. -/
theorem Wf.fresh (h : Wf db seq) {queue : String} {s : Nat} (hle : seq ≤ s) (hs : s < u64Size) (c : Cf) :
    db.get c (encodeKey queue s) = none := by
  cases hget : db.get c (encodeKey queue s) with
  | none => rfl
  | some v =>
    obtain ⟨x, s', -, hk, hs', -⟩ := h.record hget
    have heq := (encodeKey_inj hs (by omega) hk).2
    omega

/-- Fewer records keep the invariant. -/
theorem Wf.of_subset (h : Wf db seq) {db' : TenantDb} (hsub : ∀ {c k v}, db'.get c k = some v → db.get c k = some v) :
    Wf db' seq where
  record hget := h.record (hsub hget)
  apart hget hget' := by
    obtain ⟨v, hv⟩ := Option.isSome_iff_exists.mp hget
    obtain ⟨v', hv'⟩ := Option.isSome_iff_exists.mp hget'
    exact h.apart (Option.isSome_iff_exists.mpr ⟨v, hsub hv⟩) (Option.isSome_iff_exists.mpr ⟨v', hsub hv'⟩)
  unique := ⟨fun hget hget' => h.unique.unique (hsub hget) (hsub hget')⟩

theorem get_of_deletes (keys : List Key) {c c' : Cf} {k : Key} {v : Value}
    (h : (db.write (deletes c' keys)).get c k = some v) : db.get c k = some v := by
  rcases get_write h with hput | ⟨hget, -⟩
  · exact absurd hput put_not_mem_deletes
  · exact hget

theorem Wf.deletes (h : Wf db seq) (c : Cf) (keys : List Key) : Wf (db.write (deletes c keys)) seq :=
  h.of_subset (get_of_deletes keys)

/-- A new record under a key that is in no family. -/
theorem Wf.put (h : Wf db seq) {s : Nat} (hk : ∀ c, db.get c k = none) (hkey : k = encodeKey x.queue s) (hs : s < seq)
    (hd : DeadlineOk c x) (hid : ¬Stored db x.id) : Wf (db.apply (.put c k x.serialize)) seq where
  record {c' k' v} hget := by
    rw [get_apply_put] at hget
    split at hget
    · rename_i heq
      obtain ⟨rfl, rfl⟩ := heq
      cases hget
      exact ⟨x, s, rfl, hkey, hs, hd⟩
    · exact h.record hget
  -- The key was in no family, so the new record is alone under it.
  apart {c₁ c₂ k'} h₁ h₂ := by
    rw [get_apply_put] at h₁ h₂
    split at h₁
    · rename_i heq
      obtain ⟨rfl, rfl⟩ := heq
      split at h₂
      · rename_i heq
        exact heq.1.symm
      · rw [hk] at h₂
        cases h₂
    · split at h₂
      · rename_i heq
        obtain ⟨rfl, rfl⟩ := heq
        rw [hk] at h₁
        cases h₁
      · exact h.apart h₁ h₂
  -- Nor was the task stored.
  unique := by
    refine ⟨fun {c₁ k₁ t₁ c₂ k₂ t₂} h₁ h₂ heq => ?_⟩
    rw [get_apply_put] at h₁ h₂
    split at h₁
    · rename_i hat
      cases h₁
      split at h₂
      · rename_i hat'
        exact ⟨hat.1.trans hat'.1.symm, hat.2.trans hat'.2.symm⟩
      · exact absurd ⟨c₂, k₂, t₂, h₂, heq.symm⟩ hid
    · split at h₂
      · cases h₂
        exact absurd ⟨c₁, k₁, t₁, h₁, heq⟩ hid
      · exact h.unique.unique h₁ h₂ heq

/-! ### Moves -/

theorem Wf.allTasks (h : Wf db seq) : AllTasks db := fun hget => by
  obtain ⟨x, -, hv, -⟩ := h.record hget
  exact ⟨x, hv⟩

/-- A move sets the deadline that its new place asks for. -/
theorem Moved.deadlineOk (hall : AllTasks db) {now : Nat} {kind : WriteKind} (hm : Moved db now kind m)
    (hnow : 0 < now) : DeadlineOk m.dst m.task := by
  cases hm with
  | deliver hget =>
    simp only [DeadlineOk, Task.delivered, saturatingAdd, u64Size]
    omega
  | reclaim hget => rfl
  | retry hget => rfl
  | deadLetter hget => trivial
  | replay hget => rfl
  | poisonPending hget => exact absurd (hall hget) (by simp)
  | poisonInflight hk hget => exact absurd (hall hget) (by simp)

/-- A move of a record keeps the invariant and the number of records, and stores no new task. -/
theorem Wf.move (h : Wf db seq) {now : Nat} {kind : WriteKind} (hm : Moved db now kind m) (hnow : 0 < now)
    (hkey : (m.newKey = m.key ∧ seq' = seq) ∨
      (m.newKey = encodeKey m.task.queue seq ∧ seq + 1 < u64Size ∧ seq' = seq + 1)) :
    Wf (db.write m.ops) seq' ∧ (db.write m.ops).size = db.size ∧ ∀ id, Stored (db.write m.ops) id → Stored db id := by
  obtain ⟨x, hget, hid, hqueue⟩ := hm.stored h.allTasks
  have hd := hm.deadlineOk h.allTasks hnow
  obtain ⟨s, hk, hs, -⟩ := h.task hget
  have herased : Wf (db.apply (.delete m.src m.key)) seq := h.deletes m.src [m.key]
  have hsub : ∀ {c k v}, (db.apply (.delete m.src m.key)).get c k = some v → db.get c k = some v :=
    fun hget' => get_of_deletes [m.key] hget'
  have hgone : (db.apply (.delete m.src m.key)).get m.src m.key = none := by simp [get_apply_delete]
  have hle : seq ≤ seq' := by rcases hkey with ⟨-, rfl⟩ | ⟨-, -, rfl⟩ <;> omega
  -- Once the record is taken away, nothing is under the key that it goes to.
  have habsent : ∀ c, (db.apply (.delete m.src m.key)).get c m.newKey = none := by
    intro c
    rcases hkey with ⟨heq, -⟩ | ⟨heq, hwrap, -⟩
    · by_contra hsome
      obtain ⟨v, hv⟩ := Option.ne_none_iff_exists'.mp hsome
      rw [heq] at hv
      have hc : c = m.src := h.apart (Option.isSome_iff_exists.mpr ⟨v, hsub hv⟩) (Option.isSome_iff_exists.mpr ⟨_, hget⟩)
      rw [hc, hgone] at hv
      cases hv
    · rw [heq]
      exact herased.fresh (Nat.le_refl seq) (by omega) c
  have hnew : ∃ s', m.newKey = encodeKey m.task.queue s' ∧ s' < seq' := by
    rcases hkey with ⟨heq, rfl⟩ | ⟨heq, -, rfl⟩
    · exact ⟨s, by rw [heq, hk, ← hqueue], hs⟩
    · exact ⟨seq, heq, Nat.lt_succ_self _⟩
  obtain ⟨s', hs', hlt⟩ := hnew
  -- Nor is its task stored anywhere.
  have hunstored : ¬Stored (db.apply (.delete m.src m.key)) m.task.id := by
    rintro ⟨c, k, y, hy, hyid⟩
    obtain ⟨rfl, rfl⟩ := h.unique.unique (hsub hy) hget (hyid.trans hid.symm)
    rw [hgone] at hy
    cases hy
  refine ⟨(herased.mono hle).put habsent hs' hlt hd hunstored, ?_, ?_⟩
  -- One record less, and then one more.
  · have hdel : (db.apply (.delete m.src m.key)).size + _ = db.size := size_apply_delete
    have hput : (db.write m.ops).size = (db.apply (.delete m.src m.key)).size + _ := size_apply_put
    have hsome : db.get m.src m.key ≠ none := by simp [hget]
    rw [if_pos hsome] at hdel
    rw [if_pos (habsent m.dst)] at hput
    exact hput.trans hdel
  · rintro id ⟨c, k, y, hy, rfl⟩
    rw [get_write_ops] at hy
    split at hy
    · cases hy
      exact ⟨m.src, m.key, x, hget, hid⟩
    · split at hy
      · cases hy
      · exact ⟨c, k, y, hy, rfl⟩

/-- The moves of a call keep the invariant and the number of records, and store no new task. -/
theorem Relocates.wf {now : Nat} {kind : WriteKind} {db' : TenantDb} {ms : List Move}
    (hms : Relocates now kind db seq ms db' seq') (hnow : 0 < now) (h : Wf db seq) :
    Wf db' seq' ∧ db'.size = db.size ∧ ∀ id, Stored db' id → Stored db id := by
  induction hms with
  | nil => exact ⟨h, rfl, fun _ => id⟩
  | keep hm hkey _ ih =>
    obtain ⟨hwf, hsize, hst⟩ := h.move hm hnow (Or.inl ⟨hkey, rfl⟩)
    obtain ⟨hwf', hsize', hst'⟩ := ih hwf
    exact ⟨hwf', hsize'.trans hsize, fun id hid => hst id (hst' id hid)⟩
  | rekey hm hkey hwrap _ ih =>
    obtain ⟨hwf, hsize, hst⟩ := h.move hm hnow (Or.inr ⟨hkey, hwrap, rfl⟩)
    obtain ⟨hwf', hsize', hst'⟩ := ih hwf
    exact ⟨hwf', hsize'.trans hsize, fun id hid => hst id (hst' id hid)⟩

/-! ### Deletes and new tasks -/

theorem size_deletes {keys : List Key} (hnodup : keys.Nodup) (hget : ∀ k ∈ keys, (db.get c k).isSome) :
    (db.write (deletes c keys)).size + keys.length = db.size := by
  induction keys generalizing db with
  | nil => rfl
  | cons k keys ih =>
    obtain ⟨hnot, hrest⟩ := List.nodup_cons.mp hnodup
    obtain ⟨hk, hkeys⟩ := List.forall_mem_cons.mp hget
    have hdel : (db.apply (.delete c k)).size + _ = db.size := size_apply_delete
    rw [if_pos (Option.isSome_iff_ne_none.mp hk)] at hdel
    have hleft : ∀ k' ∈ keys, ((db.apply (.delete c k)).get c k').isSome := by
      intro k' hk'
      have hne : k' ≠ k := fun heq => hnot (heq ▸ hk')
      simpa [get_apply_delete, hne] using hkeys k' hk'
    have htail := ih hrest hleft
    rw [List.length_cons]
    have hwrite : (db.write (deletes c (k :: keys))).size = ((db.apply (.delete c k)).write (deletes c keys)).size := rfl
    omega

/-- New tasks under numbers that were not drawn yet. -/
theorem Wf.enqueue {todo : List (Bytes × String)} (h : Wf db seq) (queue : String) (now : Nat)
    (hseq : seq + todo.length < u64Size) (hnodup : (todo.map Prod.snd).Nodup)
    (hnew : ∀ id ∈ todo.map Prod.snd, ¬Stored db id) :
    Wf (db.write (enqueueLoop queue now seq todo)) (seq + todo.length) ∧
      (db.write (enqueueLoop queue now seq todo)).size = db.size + todo.length ∧
      ∀ id, Stored (db.write (enqueueLoop queue now seq todo)) id → Stored db id ∨ id ∈ todo.map Prod.snd := by
  induction todo generalizing db seq with
  | nil => exact ⟨h, rfl, fun _ => Or.inl⟩
  | cons item todo ih =>
    obtain ⟨payload, id⟩ := item
    obtain ⟨hnot, hrest⟩ := List.nodup_cons.mp hnodup
    rw [List.length_cons] at hseq
    -- The number was not drawn yet, so nothing is under the key.
    have habsent : ∀ c, db.get c (encodeKey queue seq) = none := h.fresh (Nat.le_refl seq) (by omega)
    let x := newTask queue payload id now
    have hput : Wf (db.apply (.put .pending (encodeKey queue seq) x.serialize)) (seq + 1) :=
      (h.mono (Nat.le_succ seq)).put habsent rfl (Nat.lt_succ_self seq) rfl (hnew id List.mem_cons_self)
    have hsize : (db.apply (.put .pending (encodeKey queue seq) x.serialize)).size = db.size + 1 := by
      rw [size_apply_put, if_pos (habsent .pending)]
    have hstored : ∀ id', Stored (db.apply (.put .pending (encodeKey queue seq) x.serialize)) id' →
        Stored db id' ∨ id' = id := by
      rintro id' ⟨c, k, y, hy, rfl⟩
      rw [get_apply_put] at hy
      split at hy
      · cases hy
        exact Or.inr rfl
      · exact Or.inl ⟨c, k, y, hy, rfl⟩
    have hfresh : ∀ id' ∈ todo.map Prod.snd,
        ¬Stored (db.apply (.put .pending (encodeKey queue seq) x.serialize)) id' := by
      intro id' hid' hst
      rcases hstored id' hst with hst | rfl
      · exact hnew id' (List.mem_cons_of_mem _ hid') hst
      · exact hnot hid'
    -- The rest of the batch, with the next number.
    obtain ⟨hwf, hsize', hst⟩ := ih hput (by omega) hrest hfresh
    have hnext : nextSeq seq = seq + 1 := nextSeq_eq (by omega)
    rw [enqueueLoop, hnext, List.length_cons, Nat.add_comm todo.length 1, ← Nat.add_assoc, ← Nat.add_assoc]
    refine ⟨hwf, hsize'.trans (by rw [hsize]), fun id' hid' => ?_⟩
    rcases hst id' hid' with hold | hmem
    · rcases hstored id' hold with hold | rfl
      · exact Or.inl hold
      · exact Or.inr List.mem_cons_self
    · exact Or.inr (List.mem_cons_of_mem _ hmem)

end Preservation

/-! ## The ledger -/

def Reply.issued : Reply → List String
  | .enqueued ids => ids
  | _ => []

namespace Entry

/-- What `ack_batch` returned. -/
def acked (e : Entry) : Nat :=
  match e.call, e.reply with
  | .ackBatch _, .acked counted => counted.length
  | _, _ => 0

/-- What `cumulative_ack` returned. -/
def cumulativeAcked (e : Entry) : Nat :=
  match e.call, e.reply with
  | .cumulativeAck _ _, .count n => n
  | _, _ => 0

/-- What `purge_dlq` returned. -/
def purged (e : Entry) : Nat :=
  match e.call, e.reply with
  | .purgeDlq, .count n => n
  | _, _ => 0

/-- How many tasks an enqueue evicted. -/
def evicted (tenant : String) (e : Entry) : Nat :=
  match e.call with
  | .enqueueBatch queue payloads policy =>
    match enforceQuota tenant e.before.db queue policy payloads.length e.io with
    | some (.ok b) => b.length
    | _ => 0
  | _ => 0

end Entry

/-- The ids of the tasks enqueued. -/
def issued (log : List Entry) : List String := log.flatMap fun e => e.reply.issued

def total (count : Entry → Nat) (log : List Entry) : Nat := (log.map count).sum

/-- The invariant, and that every task enqueued is stored or was taken out by a call that counted it. -/
structure Conserved (tenant : String) (j : Journal) : Prop where
  wf : Wf j.tenant.db j.tenant.seq
  ledger : (issued j.log).length = j.tenant.db.size + total Entry.acked j.log + total Entry.cumulativeAcked j.log +
    total (Entry.evicted tenant) j.log + total Entry.purged j.log

/-- A call while the clock reads more than 0, or a call on another tenant; the process does not restart. -/
def Action.inLifetime : Action → Prop
  | .call io _ => 0 < io.now
  | .other => True
  | .reopen _ => False

section Runs
variable {tenant : String} {t : Tenant} {io : Inputs} {call : Call} {db' : TenantDb} {reply : Reply}

@[simp] theorem issued_append (log : List Entry) (e : Entry) : issued (log ++ [e]) = issued log ++ e.reply.issued := by
  simp [issued]

@[simp] theorem total_append (count : Entry → Nat) (log : List Entry) (e : Entry) :
    total count (log ++ [e]) = total count log + count e := by
  simp [total]

/-- A completed call: the invariant stays, and the number of records changes by what the call counts. -/
theorem Outcome.conserves (h : Outcome tenant t io call db' reply) (hwf : Wf t.db t.seq) (hnow : 0 < io.now)
    (hwrap : t.seq + t.draws tenant io call < u64Size) (hnodup : reply.issued.Nodup)
    (hnew : ∀ id ∈ reply.issued, ¬Stored t.db id) :
    let e : Entry := ⟨t, io, call, reply⟩
    Wf db' (t.seq + t.draws tenant io call) ∧
      t.db.size + reply.issued.length = db'.size + e.acked + e.cumulativeAcked + e.evicted tenant + e.purged ∧
      ∀ id, Stored db' id → Stored t.db id ∨ id ∈ reply.issued := by
  -- A call that only moves records leaves their number as it was.
  have hmoves : ∀ {kind : WriteKind} {ms : List Move} {db₁ : TenantDb} {seq₁ : Nat},
      Relocates io.now kind t.db t.seq ms db₁ seq₁ → Wf db₁ seq₁ ∧ t.db.size = db₁.size ∧
        ∀ id, Stored db₁ id → Stored t.db id := fun hms => by
    obtain ⟨hwf', hsize, hst⟩ := hms.wf hnow hwf
    exact ⟨hwf', hsize.symm, hst⟩
  have hdeletes : ∀ (c : Cf) (keys : List Key), Wf (t.db.write (deletes c keys)) t.seq ∧
      ∀ id, Stored (t.db.write (deletes c keys)) id → Stored t.db id := by
    refine fun c keys => ⟨hwf.deletes c keys, ?_⟩
    rintro id ⟨c', k, x, hget, hid⟩
    exact ⟨c', k, x, get_of_deletes keys hget, hid⟩
  intro e
  cases h with
  | refused henforce =>
    simp only [Tenant.draws, henforce, Entry.acked, Entry.cumulativeAcked, Entry.evicted, Entry.purged, e]
    exact ⟨hwf, rfl, fun _ => Or.inl⟩
  | @enqueue queue payloads policy evicted henforce hkeys hget hlen =>
    have hids : (payloads.zip io.ids).map Prod.snd = io.ids := List.map_snd_zip (Nat.le_of_eq hlen)
    have hcount : (payloads.zip io.ids).length = payloads.length := by rw [List.length_zip, hlen, Nat.min_self]
    simp only [Tenant.draws, henforce] at hwrap ⊢
    -- The eviction takes its records away, and then the batch adds one for each payload.
    obtain ⟨hwf', hsize, hst⟩ := (hdeletes .pending evicted).1.enqueue queue io.madeAt (hcount ▸ hwrap) (by rw [hids]; exact hnodup)
      fun id hid hst => hnew id (by rw [hids] at hid; exact hid) ((hdeletes _ _).2 id hst)
    have hdel := size_deletes hkeys hget
    rw [hcount] at hwf' hsize
    refine ⟨hwf', ?_, fun id hid => ?_⟩
    · simp only [Entry.acked, Entry.cumulativeAcked, Entry.evicted, Entry.purged, henforce, e, Reply.issued, deletes,
        List.length_map]
      simp only [deletes] at hdel hsize
      omega
    · rcases hst id hid with hold | hnewId
      · exact Or.inl ((hdeletes _ _).2 id hold)
      · rw [hids] at hnewId
        exact Or.inr hnewId
  | @deliver _ b ms hcall hms hkeys hmoved =>
    obtain ⟨hwf', hsize, hst⟩ := hmoves (relocates_keep t.seq hkeys fun m hm =>
      ⟨hmoved m hm, (hmoved m hm).newKey_eq (Or.inl rfl)⟩)
    rw [← hms.write] at hwf' hsize hst
    cases call with
    | dequeueBatch => exact ⟨hwf', hsize, fun id hid => Or.inl (hst id hid)⟩
    | dequeueWithMaxInflight => exact ⟨hwf', hsize, fun id hid => Or.inl (hst id hid)⟩
    | _ => cases hcall
  | @ack keys counted hkeys hmem =>
    have hsize := size_deletes hkeys fun k hk => ((hmem k).mp hk).2
    exact ⟨(hdeletes _ _).1, hsize.symm, fun id hid => Or.inl ((hdeletes _ _).2 id hid)⟩
  | @cumulativeAck queue upToSeq keys hkeys hget =>
    have hsize := size_deletes hkeys hget
    exact ⟨(hdeletes _ _).1, hsize.symm, fun id hid => Or.inl ((hdeletes _ _).2 id hid)⟩
  | nackNone hget =>
    refine ⟨hwf.mono (Nat.le_add_right _ _), rfl, fun _ => Or.inl⟩
  | @nackDead key b m hms hkey hnewKey hdst hmoved =>
    have hone : ([m].map Move.key).Nodup := List.nodup_singleton _
    obtain ⟨hwf', hsize, hst⟩ := hmoves (relocates_keep t.seq hone
      (List.forall_mem_singleton.mpr ⟨hmoved, hnewKey.trans hkey.symm⟩))
    rw [← hms.write] at hwf' hsize hst
    exact ⟨hwf'.mono (Nat.le_add_right _ _), hsize, fun id hid => Or.inl (hst id hid)⟩
  | @retry key task hget hlt =>
    -- A retry draws one number, for the new key.
    have hdraws : t.draws tenant io (.nack key) = 1 := by
      simp [Tenant.draws, hget, Nat.not_le_of_lt hlt]
    rw [hdraws] at hwrap ⊢
    obtain ⟨hwf', hsize, hst⟩ := hmoves (.rekey (.retry hget hlt) rfl hwrap .nil)
    exact ⟨hwf', hsize, fun id hid => Or.inl (hst id hid)⟩
  | @reap queue b ms hms hkeys hmoved =>
    obtain ⟨hwf', hsize, hst⟩ := hmoves (relocates_keep t.seq hkeys fun m hm =>
      ⟨(hmoved m hm).1, (hmoved m hm).1.newKey_eq (Or.inr rfl)⟩)
    rw [← hms.write] at hwf' hsize hst
    exact ⟨hwf', hsize, fun id hid => Or.inl (hst id hid)⟩
  | @purge keys hkeys hget =>
    have hsize := size_deletes hkeys hget
    exact ⟨(hdeletes _ _).1, hsize.symm, fun id hid => Or.inl ((hdeletes _ _).2 id hid)⟩
  | replay hloop =>
    obtain ⟨hms, -, hdraws⟩ := replayLoop_moves hloop
    -- A replay draws one for each dead letter.
    have hdraw : t.draws tenant io .replayDlq = t.db.dlq.entries.length := hdraws
    rw [hdraw] at hwrap ⊢
    obtain ⟨hwf', hsize, hst⟩ := hmoves (relocates_replay hwrap (fun k v => OrderedMap.mem_entries.mp)
      t.db.dlq.entries_keys_nodup hloop)
    rw [← hms.write] at hwf' hsize hst
    exact ⟨hwf', hsize, fun id hid => Or.inl (hst id hid)⟩
  | replayFailed hloop => exact ⟨hwf.mono (Nat.le_add_right _ _), rfl, fun _ => Or.inl⟩

/-- What a run keeps: the ledger, and that only issued tasks are stored. -/
def Booked (tenant : String) (j : Journal) : Prop :=
  j.tenant.seq < u64Size ∧
    ((issued j.log).Nodup → Conserved tenant j ∧ ∀ id, Stored j.tenant.db id → id ∈ issued j.log)

theorem booked_start (tenant : String) (now : Nat) : Booked tenant (.start now) := by
  refine ⟨Nat.mod_lt _ (by decide), fun _ => ⟨⟨Wf.empty _, rfl⟩, ?_⟩⟩
  rintro id ⟨c, k, x, hget, -⟩
  simp [Journal.start, Tenant.open] at hget

theorem booked_next {j j' : Journal} {a : Action} (h : Booked tenant j) (hlife : a.inLifetime)
    (hwrap : a.noWrap tenant j.tenant) (hn : Journal.next tenant j a = some j') : Booked tenant j' := by
  obtain ⟨hseq, hbooks⟩ := h
  cases a with
  | reopen now => exact hlife.elim
  | other =>
    cases hn
    -- A number drawn by another tenant only raises the bound on the keys.
    have hnext : nextSeq j.tenant.seq = j.tenant.seq + 1 := nextSeq_eq hwrap
    refine ⟨Nat.mod_lt _ (by decide), fun hnodup => ?_⟩
    obtain ⟨⟨hwf, hledger⟩, hst⟩ := hbooks hnodup
    refine ⟨⟨?_, hledger⟩, hst⟩
    rw [hnext]
    exact hwf.mono (Nat.le_succ _)
  | call io call =>
    simp only [Journal.next] at hn
    split at hn
    · cases hn
    · rename_i t reply hexec
      cases hn
      obtain ⟨hout, hadvance⟩ := exec_outcome hseq hexec
      have hseq' : t.seq = j.tenant.seq + j.tenant.draws tenant io call := hadvance.trans (Nat.mod_eq_of_lt hwrap)
      refine ⟨hseq' ▸ hwrap, fun hnodup => ?_⟩
      rw [issued_append] at hnodup
      obtain ⟨hold, hreply, hapart⟩ := List.nodup_append.mp hnodup
      obtain ⟨⟨hwf, hledger⟩, hst⟩ := hbooks hold
      obtain ⟨hwf', hsize, hst'⟩ := hout.conserves hwf hlife hwrap hreply
        fun id hid hstored => hapart id (hst id hstored) id hid rfl
      refine ⟨⟨hseq' ▸ hwf', ?_⟩, fun id hid => ?_⟩
      -- The call adds to both sides of the ledger alike.
      · rw [issued_append, List.length_append, total_append, total_append, total_append, total_append]
        dsimp only
        omega
      · rw [issued_append]
        rcases hst' id hid with hid | hid
        · exact List.mem_append_left _ (hst id hid)
        · exact List.mem_append_right _ hid

/-- After any calls in one lifetime of the process, the records are well formed and no task is lost
    count of, as long as the counter does not wrap. -/
theorem conserved_of_noWrap {now : Nat} {j : Journal}
    (hrun : Runs.Run (Journal.next tenant) (fun j a => a.inLifetime ∧ a.noWrap tenant j.tenant) (.start now) j)
    (hids : (issued j.log).Nodup) : Conserved tenant j :=
  ((hrun.invariant (fun hj hok hn => booked_next hj hok.1 hok.2 hn) (booked_start tenant now)).2 hids).1

end Runs

/-- A task is returned once and acknowledged, and another one is evicted. -/
def busyDay : List Action :=
  [.call { now := 5, ids := ["a", "b"] } (.enqueueBatch "q" [[1], [2]] (.standard "t")), .other,
    .call { now := 6 } (.dequeueBatch "q" 1 10), .call { now := 7 } (.nack (encodeKey "q" 5)),
    .call { now := 8, ids := ["c"] } (.enqueueBatch "q" [[3]]
      { NamespacePolicy.standard "t" with backlogQuota := some 2, backlogPolicy := .evictOldest }),
    .call { now := 9 } (.dequeueBatch "q" 1 10), .call { now := 20 } (.reapInflight "q"),
    .call { now := 21 } (.dequeueBatch "q" 1 10), .call { now := 22 } (.ackBatch [encodeKey "q" 8])]

theorem conserved_busyDay : ∃ j, Runs.execWhile (Journal.next "t") (fun j a => a.noWrap "t" j.tenant) (.start 5) busyDay =
    some j ∧ Conserved "t" j := by
  refine ⟨(Runs.execWhile (Journal.next "t") (fun j a => a.noWrap "t" j.tenant) (.start 5) busyDay).get (by decide),
    (Option.some_get _).symm, ?_⟩
  have hlife : ∀ a ∈ busyDay, a.inLifetime := by simp [busyDay, Action.inLifetime]
  refine conserved_of_noWrap ((Runs.run_of_execWhile_forall (Option.some_get _).symm hlife).mono fun j a hok => ?_)
    (by decide)
  exact ⟨hok.1, of_decide_eq_true hok.2⟩

/-- The last number of the counter is drawn, and the counter starts over. -/
theorem not_conserved_wrap : ∃ j, Runs.Run (Journal.next "t") (fun _ a => a.inLifetime) (.start (u64Size - 1)) j ∧
    (issued j.log).Nodup ∧ ¬Conserved "t" j := by
  let enqueue : Action := .call { now := u64Size - 1, ids := ["a"] } (.enqueueBatch "q" [[1]] (.standard "t"))
  let j := (Runs.exec (Journal.next "t") (.start (u64Size - 1)) [enqueue]).get (by decide)
  have hlife : ∀ a ∈ [enqueue], a.inLifetime := by simp [enqueue, Action.inLifetime, u64Size]
  have hget : j.tenant.db.get .pending (encodeKey "q" (u64Size - 1)) =
      some (.task ⟨"a", "q", [1], u64Size - 1, 0, 0⟩) := by decide
  have hseq : j.tenant.seq = 0 := by decide
  refine ⟨j, Runs.run_of_exec_forall (Option.some_get _).symm hlife, by decide, fun h => ?_⟩
  obtain ⟨s, -, hlt, -⟩ := h.wf.task hget
  omega

end RocksQueue
