import RocksQueue.Theorems.Conservation
import RocksQueue.Theorems.Restart

/-! # Where records come from

A task found after a call was there before and is not one that the call clears away, or the call enqueued
it, or the call moved it there. No call stores a task twice, whatever the counter and the clock do. -/

namespace RocksQueue
open TenantDb

/-- The moves that a call makes. -/
def Call.Takes (kind : WriteKind) (key : Key) : Call → Prop
  | .dequeueBatch _ _ _ => kind = .dequeue
  | .dequeueWithMaxInflight _ _ _ _ => kind = .dequeue
  | .nack key' => kind = .nack ∧ key = key'
  | .reapInflight _ => kind = .reap
  | .replayDlq => kind = .replay
  | _ => False

/-- The records that a call never leaves where they are. -/
def Call.Clears (c : Cf) (key : Key) : Call → Prop
  | .ackBatch keys => c = .inflight ∧ key ∈ keys
  | .nack key' => c = .inflight ∧ key = key'
  | .replayDlq => c = .dlq
  | _ => False

/-- The call gives a task a new key: a nack of a task with attempts left, or a replay. -/
def Action.Rekeys (id : String) (t : Tenant) : Action → Prop
  | .call _ (.nack key) => ∃ x, t.db.get .inflight key = some (.task x) ∧ x.id = id ∧ x.attempts < maxAttempts
  | .call _ .replayDlq => ∃ key x, t.db.get .dlq key = some (.task x) ∧ x.id = id
  | _ => False

/-- Where a task found after a call comes from. -/
inductive Origin (t : Tenant) (io : Inputs) (call : Call) (reply : Reply) : Cf → Key → Task → Prop where
  | kept {c : Cf} {k : Key} {x : Task} : t.db.get c k = some (.task x) → ¬call.Clears c k →
      Origin t io call reply c k x
  | enqueued {c : Cf} {k : Key} {x : Task} : x.id ∈ reply.issued → Origin t io call reply c k x
  | moved {kind : WriteKind} {m : Move} : Moved t.db io.now kind m → call.Takes kind m.key → m.newKey = m.key →
      ¬(Action.call io call).Rekeys m.task.id t → Origin t io call reply m.dst m.newKey m.task
  | rekeyed {kind : WriteKind} {m : Move} {s : Nat} : Moved t.db io.now kind m → call.Takes kind m.key →
      (Action.call io call).Rekeys m.task.id t → m.newKey = encodeKey m.task.queue s → t.seq ≤ s → s < u64Size →
      Origin t io call reply m.dst m.newKey m.task

section Calls
variable {tenant : String} {t : Tenant} {io : Inputs} {call : Call} {reply : Reply} {db db' : TenantDb}
  {b : WriteBatch} {ms : List Move} {c : Cf} {k : Key} {x : Task}

theorem get_moves (hms : IsMoves b ms) (h : (db.write b).get c k = some (.task x)) :
    (∃ m ∈ ms, m.dst = c ∧ m.newKey = k ∧ m.task = x) ∨
      db.get c k = some (.task x) ∧ ∀ m ∈ ms, ¬(m.src = c ∧ m.key = k) := by
  rcases get_write h with hput | ⟨hold, hdel⟩
  · obtain ⟨m, hm, hdst, hkey, htask⟩ := hms.mem_put.mp hput
    exact Or.inl ⟨m, hm, hdst, hkey, Value.task.inj htask⟩
  · exact Or.inr ⟨hold, fun m hm hat => hdel (hms.mem_delete.mpr ⟨m, hm, hat.1, hat.2⟩)⟩

theorem get_deletes {c' : Cf} {keys : List Key} {v : Value} (h : (db.write (deletes c' keys)).get c k = some v) :
    db.get c k = some v ∧ ¬(c = c' ∧ k ∈ keys) := by
  rcases get_write h with hput | ⟨hold, hdel⟩
  · exact absurd hput put_not_mem_deletes
  · exact ⟨hold, fun hat => hdel (mem_deletes.mpr hat)⟩

/-- A replay fails only on a record that does not deserialize. -/
theorem replayLoop_ne_none {items : List (Key × Value)} {seq : Nat} (h : ∀ k v, (k, v) ∈ items → ∃ x, v = .task x) :
    replayLoop seq items ≠ none := by
  induction items generalizing seq with
  | nil => exact Option.some_ne_none _
  | cons item items ih =>
    obtain ⟨key, v⟩ := item
    obtain ⟨x, rfl⟩ := h key v List.mem_cons_self
    have hrest : replayLoop (nextSeq seq) items ≠ none := ih fun k v hkv => h k v (List.mem_cons_of_mem _ hkv)
    simp only [replayLoop]
    split
    · rename_i hnone
      exact absurd hnone hrest
    · exact Option.some_ne_none _

/-- A batch of moves that keep their keys. -/
theorem origin_moves {kind : WriteKind} (hms : IsMoves b ms)
    (hmoved : ∀ m ∈ ms, Moved t.db io.now kind m ∧ call.Takes kind m.key ∧ m.newKey = m.key ∧
      ¬(Action.call io call).Rekeys m.task.id t)
    (hclear : call.Clears c k → ∃ m ∈ ms, m.src = c ∧ m.key = k)
    (hget : (t.db.write b).get c k = some (.task x)) : Origin t io call reply c k x := by
  rcases get_moves hms hget with ⟨m, hm, rfl, rfl, rfl⟩ | ⟨hold, hnot⟩
  · obtain ⟨hm, htakes, hkey, hrekey⟩ := hmoved m hm
    exact .moved hm htakes hkey hrekey
  · refine .kept hold fun hclears => ?_
    obtain ⟨m, hm, hat⟩ := hclear hclears
    exact hnot m hm hat

/-- Every task found after a call has an origin. -/
theorem Outcome.origin (hexec : Outcome tenant t io call db' reply) (hall : AllTasks t.db)
    (hwrap : t.seq + t.draws tenant io call < u64Size) (hget : db'.get c k = some (.task x)) :
    Origin t io call reply c k x := by
  cases hexec with
  | refused => exact .kept hget id
  | @enqueue queue payloads policy evicted henforce hkeys hsome hlen =>
    -- The record is one of the batch, or it was there and was not evicted.
    rcases get_write hget with hput | ⟨hold, -⟩
    · obtain ⟨payload, id, hmem, hv⟩ := put_mem_enqueueLoop hput
      cases hv
      have hid : id ∈ (payloads.zip io.ids).map Prod.snd := List.mem_map.mpr ⟨_, hmem, rfl⟩
      rw [List.map_snd_zip (Nat.le_of_eq hlen)] at hid
      exact .enqueued hid
    · exact .kept (get_deletes hold).1 id
  | @deliver _ b ms hcall hms hkeys hmoved =>
    have hnot : ¬call.Clears c k := by
      cases call with
      | dequeueBatch => exact id
      | dequeueWithMaxInflight => exact id
      | _ => cases hcall
    refine origin_moves hms (fun m hm => ⟨hmoved m hm, ?_, (hmoved m hm).newKey_eq (Or.inl rfl), ?_⟩)
      (fun hclears => absurd hclears hnot) hget
    · cases call with
      | dequeueBatch => rfl
      | dequeueWithMaxInflight => rfl
      | _ => cases hcall
    · cases call with
      | dequeueBatch => exact id
      | dequeueWithMaxInflight => exact id
      | _ => cases hcall
  | @ack keys counted hkeys hmem =>
    obtain ⟨hold, hnot⟩ := get_deletes hget
    -- The batch deletes what the acknowledgement clears.
    refine .kept hold fun hclears => hnot ⟨hclears.1, (hmem k).mpr ⟨hclears.2, ?_⟩⟩
    rw [← hclears.1, hold]
    rfl
  | cumulativeAck => exact .kept (get_deletes hget).1 id
  | @nackNone key hnone =>
    refine .kept hget ?_
    rintro ⟨rfl, rfl⟩
    rw [hnone] at hget
    cases hget
  | @nackDead key b m hms hkey hnewKey hdst hmoved =>
    have hsrc : m.src = .inflight := hmoved.src_eq
    refine origin_moves hms (List.forall_mem_singleton.mpr ⟨hmoved, ⟨rfl, hkey⟩, hnewKey.trans hkey.symm, ?_⟩)
      (fun hclears => ⟨m, List.mem_singleton_self m, hsrc.trans hclears.1.symm, hkey.trans hclears.2.symm⟩) hget
    -- The task had used up its attempts, so it was not one to put back.
    rintro ⟨y, hy, -, hlt⟩
    cases hmoved with
    | retry => cases hdst
    | deadLetter hread hle =>
      obtain rfl := hkey
      rw [hread] at hy
      cases hy
      omega
    | poisonInflight _ hread => exact absurd (hall hread) (by simp)
  | @retry key task hread hlt =>
    have hmoved : Moved t.db io.now .nack
        ⟨.inflight, key, .pending, encodeKey task.queue t.seq, { task with deadline := 0 }⟩ := .retry hread hlt
    rcases get_moves (retryBatch_moves key task t.seq) hget with ⟨m, hm, rfl, rfl, rfl⟩ | ⟨hold, hnot⟩
    · obtain rfl := List.mem_singleton.mp hm
      exact .rekeyed hmoved ⟨rfl, rfl⟩ ⟨task, hread, rfl, hlt⟩ rfl (Nat.le_refl _) (by omega)
    · exact .kept hold fun hclears => hnot _ (List.mem_singleton_self _) ⟨hclears.1.symm, hclears.2.symm⟩
  | @reap queue b ms hms hkeys hmoved =>
    exact origin_moves hms (fun m hm => ⟨(hmoved m hm).1, rfl, (hmoved m hm).1.newKey_eq (Or.inr rfl), id⟩)
      (fun hclears => absurd hclears id) hget
  | purge => exact .kept (get_deletes hget).1 id
  | @replay b n hloop =>
    obtain ⟨hms, hkeys, hdraws⟩ := replayLoop_moves hloop
    have hcount : t.draws tenant io .replayDlq = t.db.dlq.entries.length := hdraws
    rw [hcount] at hwrap
    -- A record of a replay has one of the numbers drawn, in their order.
    rcases get_moves hms hget with ⟨m, hm, rfl, rfl, rfl⟩ | ⟨hold, hnot⟩
    · have hmoved : Moved t.db io.now .replay m := replayMoves_moved (fun k v => OrderedMap.mem_entries.mp) hm
      obtain ⟨s, hkey, hle, hlt⟩ := mem_replayMoves hwrap hm
      obtain ⟨y, hread, hid, -⟩ := hmoved.stored hall
      rw [hmoved.src_eq] at hread
      exact .rekeyed hmoved rfl ⟨m.key, y, hread, hid⟩ hkey hle (by omega)
    · refine .kept hold fun hclears => ?_
      have hc : c = .dlq := hclears
      subst hc
      have hmem : k ∈ (replayMoves t.seq t.db.dlq.entries).map Move.key := by
        rw [hkeys]
        exact List.mem_map_of_mem (OrderedMap.mem_entries.mpr hold)
      obtain ⟨m, hm, hkey⟩ := List.mem_map.mp hmem
      have hmoved : Moved t.db io.now .replay m := replayMoves_moved (fun k v => OrderedMap.mem_entries.mp) hm
      exact hnot m hm ⟨hmoved.src_eq, hkey⟩
  | replayFailed hloop =>
    exact absurd hloop (replayLoop_ne_none fun k v hkv => hall (c := .dlq) (OrderedMap.mem_entries.mp hkv))

/-- A completed call stores no task twice, and no ids but those it issues. -/
theorem Outcome.unique (hexec : Outcome tenant t io call db' reply) (hall : AllTasks t.db) (hunique : IdUnique t.db)
    (hnodup : reply.issued.Nodup) (hnew : ∀ id ∈ reply.issued, ¬Stored t.db id) :
    AllTasks db' ∧ IdUnique db' ∧ ∀ id, Stored db' id → Stored t.db id ∨ id ∈ reply.issued := by
  -- What deletes leave was stored before.
  have hdeletes : ∀ {db : TenantDb} (c : Cf) (keys : List Key), AllTasks db → IdUnique db →
      AllTasks (db.write (deletes c keys)) ∧ IdUnique (db.write (deletes c keys)) ∧
        ∀ id, Stored (db.write (deletes c keys)) id → Stored db id := fun {db} c keys hall hunique => by
    refine ⟨allTasks_write hall taskPuts_deletes, ?_, ?_⟩
    · exact idUnique_write hunique (by simp) fun hput => absurd hput put_not_mem_deletes
    · rintro id ⟨c', k, x, hget, hid⟩
      exact ⟨c', k, x, (get_deletes hget).1, hid⟩
  have hless : ∀ (c : Cf) (keys : List Key), AllTasks (t.db.write (deletes c keys)) ∧
      IdUnique (t.db.write (deletes c keys)) ∧
      ∀ id, Stored (t.db.write (deletes c keys)) id → Stored t.db id ∨ id ∈ reply.issued := fun c keys => by
    obtain ⟨hall', hunique', hst⟩ := hdeletes c keys hall hunique
    exact ⟨hall', hunique', fun id hid => Or.inl (hst id hid)⟩
  -- A batch of moves puts each task where another place of it was deleted.
  have hmoves : ∀ {kind : WriteKind} {b : WriteBatch} {ms : List Move}, IsMoves b ms → (ms.map Move.key).Nodup →
      (∀ m ∈ ms, Moved t.db io.now kind m) → AllTasks (t.db.write b) ∧ IdUnique (t.db.write b) ∧
        ∀ id, Stored (t.db.write b) id → Stored t.db id ∨ id ∈ reply.issued := fun {kind b ms} hms hkeys hmoved => by
    refine ⟨allTasks_write hall hms.taskPuts, idUnique_write hunique ?_ fun {c k y c' k' y'} hput hget hid => Or.inr ?_,
      fun id hid => ?_⟩
    · exact hms.putIds_perm.nodup_iff.mpr (moves_ids_nodup hall hunique hkeys hmoved)
    · obtain ⟨m, hm, -, -, hy⟩ := hms.mem_put.mp hput
      cases hy
      obtain ⟨x, hx, hxid, -⟩ := (hmoved m hm).stored hall
      obtain ⟨hc, hk⟩ := hunique.unique hget hx (hid.trans hxid.symm)
      exact hms.mem_delete.mpr ⟨m, hm, hc.symm, hk.symm⟩
    · rcases stored_write hid with hold | hput
      · exact Or.inl hold
      · exact Or.inl (hms.stored_of_mem hall hmoved hput)
  have hsame : AllTasks t.db ∧ IdUnique t.db ∧ ∀ id, Stored t.db id → Stored t.db id ∨ id ∈ reply.issued :=
    ⟨hall, hunique, fun _ => Or.inl⟩
  cases hexec with
  | refused => exact hsame
  | @enqueue queue payloads policy evicted henforce hkeys hsome hlen =>
    have hzip : (payloads.zip io.ids).map Prod.snd = io.ids := List.map_snd_zip (Nat.le_of_eq hlen)
    have hputs : putIds (enqueueLoop queue io.madeAt t.seq (payloads.zip io.ids)) = io.ids := by
      rw [putIds_enqueueLoop, hzip]
    -- The eviction comes first, and then the batch of new ids.
    obtain ⟨hall', hunique', hst⟩ := hdeletes .pending evicted hall hunique
    refine ⟨allTasks_write hall' fun c k v hput => ?_, idUnique_write hunique' (hputs.symm ▸ hnodup)
      fun {c k y c' k' y'} hput hget hid => ?_, fun id hid => ?_⟩
    · obtain ⟨payload, id, -, hv⟩ := put_mem_enqueueLoop hput
      exact ⟨_, hv⟩
    · have hmem : y.id ∈ io.ids := hputs ▸ mem_putIds hput
      exact absurd (hst _ ⟨c', k', y', hget, hid⟩) (hnew _ hmem)
    · rcases stored_write hid with hold | hput
      · exact Or.inl (hst id hold)
      · exact Or.inr (hputs ▸ hput)
  | deliver _ hms hkeys hmoved => exact hmoves hms hkeys hmoved
  | ack => exact hless _ _
  | cumulativeAck => exact hless _ _
  | nackNone => exact hsame
  | nackDead hms _ _ _ hmoved => exact hmoves hms (List.nodup_singleton _) (List.forall_mem_singleton.mpr hmoved)
  | @retry key task hget hlt =>
    exact hmoves (retryBatch_moves key task t.seq) (List.nodup_singleton _)
      (List.forall_mem_singleton.mpr (.retry hget hlt))
  | reap hms hkeys hmoved => exact hmoves hms hkeys fun m hm => (hmoved m hm).1
  | purge => exact hless _ _
  | replay hloop =>
    obtain ⟨hms, hkeys, -⟩ := replayLoop_moves hloop
    exact hmoves hms (hkeys ▸ t.db.dlq.entries_keys_nodup) fun m hm =>
      replayMoves_moved (fun k v => OrderedMap.mem_entries.mp) hm
  | replayFailed => exact hsame

end Calls

/-! ## Task ids in a history -/

/-- What every history with distinct ids keeps: each record is a task of its own, which a call has
    enqueued. -/
structure Named (j : Journal) : Prop where
  tasks : AllTasks j.tenant.db
  unique : IdUnique j.tenant.db
  known : ∀ {id}, Stored j.tenant.db id → id ∈ issued j.log

theorem named_start (now : Nat) : Named (.start now) where
  tasks := allTasks_empty
  unique := idUnique_empty
  known hid := absurd hid stored_empty

theorem Named.of_db_eq {j : Journal} {t : Tenant} (h : Named j) (hdb : t.db = j.tenant.db) :
    Named { j with tenant := t } where
  tasks := hdb ▸ h.tasks
  unique := hdb ▸ h.unique
  known hid := h.known (hdb ▸ hid)

theorem Named.completed {tenant : String} {t : Tenant} {log : List Entry} {io : Inputs} {call : Call}
    {db' : TenantDb} {reply : Reply} {seq : Nat} (h : Named ⟨t, log⟩) (hexec : Outcome tenant t io call db' reply)
    (hids : (issued (log ++ [⟨t, io, call, reply⟩])).Nodup) : Named ⟨⟨db', seq⟩, log ++ [⟨t, io, call, reply⟩]⟩ := by
  rw [issued_append] at hids
  obtain ⟨-, hnodup, hapart⟩ := List.nodup_append.mp hids
  obtain ⟨htasks, hunique, hst⟩ := hexec.unique h.tasks h.unique hnodup fun id hid hstored =>
    hapart id (h.known hstored) id hid rfl
  refine ⟨htasks, hunique, fun {id} hid => ?_⟩
  rw [issued_append]
  rcases hst id hid with hold | hnew
  · exact List.mem_append_left _ (h.known hold)
  · exact List.mem_append_right _ hnew

end RocksQueue
