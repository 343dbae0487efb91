import RocksQueue.Theorems.Origin

/-! # Delivery attempts

A dequeue counts an attempt, and nack sends a task to the dead letters after the fifth one. The reaper
does not look at the count: a task is returned at most five times, and never with more than five attempts,
as long as no sweep puts an exhausted task back to pending. -/

namespace RocksQueue
open Interleaving TenantDb

/-! ## Handing out -/

namespace Entry

/-- How often the call returned the task. -/
def handsOut (e : Entry) (id : String) : Nat := e.reply.results.countP fun r => r.2.id = id

/-- The call enqueued the task, or replayed it from the dead letters. -/
def restarts (e : Entry) (id : String) : Bool :=
  match e.call, e.reply with
  | .enqueueBatch _ _ _, .enqueued ids => id ∈ ids
  | .replayDlq, .count _ => id ∈ taskIds e.before.db.dlq.entries
  | _, _ => false

end Entry

/-- How often dequeues returned the task since it was enqueued or last replayed. -/
def handouts (id : String) (log : List Entry) : Nat :=
  log.foldl (fun n e => if e.restarts id then 0 else n + e.handsOut id) 0

theorem handouts_append (id : String) (log : List Entry) (e : Entry) :
    handouts id (log ++ [e]) = if e.restarts id then 0 else handouts id log + e.handsOut id := by
  simp [handouts]

/-- No sweep finds an expired task whose attempts are used up. -/
def Action.sparesExhausted (t : Tenant) : Action → Bool
  | .call io (.reapInflight queue) => (t.db.scanQueue .inflight queue).all fun r =>
      match r.2 with
      | .task x => !x.expired io.now || x.attempts < maxAttempts
      | .corrupt _ => true
  | _ => true

/-- What a history keeps: a stored task was handed out at most as often as its attempts say, and a
    pending one may be delivered again. -/
structure Counted (j : Journal) : Prop extends Named j where
  attempts : ∀ {c k x}, j.tenant.db.get c k = some (.task x) → handouts x.id j.log ≤ x.attempts
  pending : ∀ {k x}, j.tenant.db.get .pending k = some (.task x) → x.attempts < maxAttempts
  bounded : ∀ id, handouts id j.log ≤ maxAttempts
  delivered : ∀ {e r}, e ∈ j.log → r ∈ e.reply.results → r.2.attempts ≤ maxAttempts

/-- The counter does not matter. -/
theorem Counted.of_db_eq {j : Journal} {t : Tenant} (h : Counted j) (hdb : t.db = j.tenant.db) :
    Counted { j with tenant := t } where
  toNamed := h.toNamed.of_db_eq hdb
  attempts hget := h.attempts (hdb ▸ hget)
  pending hget := h.pending (hdb ▸ hget)
  bounded := h.bounded
  delivered := h.delivered

section Step
variable {t : Tenant} {log : List Entry} {e : Entry} {b : WriteBatch} {ms : List Move} {seq : Nat} {kind : WriteKind}

theorem Counted.write (h : Counted ⟨t, log⟩) (hnamed : Named ⟨⟨t.db.write b, seq⟩, log ++ [e]⟩)
    (hputs : ∀ c k v, .put c k v ∈ b → ∃ x, v = .task x ∧ handouts x.id (log ++ [e]) ≤ x.attempts ∧
      (c = .pending → x.attempts < maxAttempts))
    (hkept : ∀ c k x, t.db.get c k = some (.task x) → .delete c k ∉ b →
      handouts x.id (log ++ [e]) ≤ x.attempts)
    (hbounded : ∀ id, handouts id (log ++ [e]) ≤ maxAttempts)
    (hdelivered : ∀ r ∈ e.reply.results, r.2.attempts ≤ maxAttempts) : Counted ⟨⟨t.db.write b, seq⟩, log ++ [e]⟩ where
  toNamed := hnamed
  attempts {c k x} hget := by
    rcases get_write hget with hput | ⟨hold, hdel⟩
    · obtain ⟨x', hv, hle, -⟩ := hputs c k _ hput
      cases hv
      exact hle
    · exact hkept c k x hold hdel
  pending {k x} hget := by
    rcases get_write hget with hput | ⟨hold, -⟩
    · obtain ⟨x', hv, -, hlt⟩ := hputs .pending k _ hput
      cases hv
      exact hlt rfl
    · exact h.pending hold
  bounded := hbounded
  delivered {e' r} he hr := by
    rcases List.mem_append.mp he with he | he
    · exact h.delivered he hr
    · obtain rfl := List.mem_singleton.mp he
      exact hdelivered r hr

/-- A call that returns no task and restarts none leaves the counts. -/
theorem handouts_quiet {id : String} (hrestart : e.restarts id = false) (hout : e.handsOut id = 0) :
    handouts id (log ++ [e]) = handouts id log := by
  simp [handouts_append, hrestart, hout]

theorem Counted.deletes (h : Counted ⟨t, log⟩) (c : Cf) (keys : List Key)
    (hnamed : Named ⟨⟨t.db.write (RocksQueue.deletes c keys), seq⟩, log ++ [e]⟩)
    (hrestart : ∀ id, e.restarts id = false) (htasks : e.reply.results = []) :
    Counted ⟨⟨t.db.write (RocksQueue.deletes c keys), seq⟩, log ++ [e]⟩ := by
  have hsame : ∀ id, handouts id (log ++ [e]) = handouts id log := fun id =>
    handouts_quiet (hrestart id) (by simp [Entry.handsOut, htasks])
  refine h.write hnamed (fun _ _ _ hput => absurd hput put_not_mem_deletes) (fun c k x hget _ => ?_)
    (fun id => ?_) fun r hr => ?_
  · exact (hsame x.id).symm ▸ h.attempts hget
  · exact (hsame id).symm ▸ h.bounded id
  · rw [htasks] at hr
    cases hr

/-- Moves of different records, when the counts of the tasks that do not move stay. -/
theorem Counted.moves (h : Counted ⟨t, log⟩) (hms : IsMoves b ms) {now : Nat}
    (hmoved : ∀ m ∈ ms, Moved t.db now kind m) (hnamed : Named ⟨⟨t.db.write b, seq⟩, log ++ [e]⟩)
    (hothers : ∀ id, (∀ m ∈ ms, m.task.id ≠ id) → handouts id (log ++ [e]) = handouts id log)
    (hthese : ∀ m ∈ ms, handouts m.task.id (log ++ [e]) ≤ maxAttempts ∧
      handouts m.task.id (log ++ [e]) ≤ m.task.attempts ∧ (m.dst = .pending → m.task.attempts < maxAttempts))
    (hdelivered : ∀ r ∈ e.reply.results, r.2.attempts ≤ maxAttempts) :
    Counted ⟨⟨t.db.write b, seq⟩, log ++ [e]⟩ := by
  refine h.write hnamed (fun c k v hput => ?_) (fun c k x hget hdel => ?_) (fun id => ?_) hdelivered
  · obtain ⟨m, hm, rfl, -, rfl⟩ := hms.mem_put.mp hput
    exact ⟨m.task, rfl, (hthese m hm).2⟩
  · rw [hothers x.id fun m hm hid => hdel ?_]
    · exact h.attempts hget
    · obtain ⟨y, hy, hyid, -⟩ := (hmoved m hm).stored h.tasks
      obtain ⟨hc, hk⟩ := h.unique.unique hget hy (hid.symm.trans hyid.symm)
      exact hms.mem_delete.mpr ⟨m, hm, hc.symm, hk.symm⟩
  · by_cases hmem : ∃ m ∈ ms, m.task.id = id
    · obtain ⟨m, hm, rfl⟩ := hmem
      exact (hthese m hm).1
    · rw [hothers id fun m hm heq => hmem ⟨m, hm, heq⟩]
      exact h.bounded id

/-! ### The calls -/

variable {tenant : String} {io : Inputs} {call : Call} {reply : Reply} {db' : TenantDb}

/-- Each task of a delivery is returned once. -/
theorem handsOut_deliver_le {id : String} (hids : (ms.map fun m => m.task.id).Nodup) :
    Entry.handsOut ⟨t, io, call, .delivered ((ms.filter fun m => m.dst = .inflight).map fun m => (m.newKey, m.task))⟩ id ≤
      1 := by
  have hcount : (ms.countP fun m => m.task.id = id) ≤ 1 := by
    have hone := List.nodup_iff_count_le_one.mp hids id
    rw [List.count, List.countP_map] at hone
    refine Nat.le_trans (Nat.le_of_eq (List.countP_congr fun m _ => ?_)) hone
    simp
  simp only [Entry.handsOut, Reply.results, List.countP_map]
  exact Nat.le_trans ((List.filter_sublist).countP_le) hcount

/-- The ids of new tasks are new, so the counts of the other tasks stay. -/
theorem Counted.enqueue (h : Counted ⟨t, log⟩) {queue : String} {payloads : List Bytes} {policy : NamespacePolicy}
    {evicted : List Key} (hlen : io.ids.length = payloads.length)
    (hnamed : Named ⟨⟨(t.db.write (RocksQueue.deletes .pending evicted)).write
      (enqueueLoop queue io.madeAt t.seq (payloads.zip io.ids)), seq⟩,
      log ++ [⟨t, io, .enqueueBatch queue payloads policy, .enqueued io.ids⟩]⟩) :
    Counted ⟨⟨(t.db.write (RocksQueue.deletes .pending evicted)).write
      (enqueueLoop queue io.madeAt t.seq (payloads.zip io.ids)), seq⟩,
      log ++ [⟨t, io, .enqueueBatch queue payloads policy, .enqueued io.ids⟩]⟩ := by
  have hzip : (payloads.zip io.ids).map Prod.snd = io.ids := List.map_snd_zip (Nat.le_of_eq hlen)
  have hcount : ∀ id, handouts id (log ++ [⟨t, io, .enqueueBatch queue payloads policy, .enqueued io.ids⟩]) =
      if id ∈ io.ids then 0 else handouts id log := fun id => by
    simp [handouts_append, Entry.restarts, Entry.handsOut, Reply.results]
  rw [← write_append] at hnamed ⊢
  refine h.write hnamed (fun c k v hput => ?_) (fun c k x hold _ => ?_) (fun id => ?_) fun r hr => by cases hr
  · rcases List.mem_append.mp hput with hput | hput
    · exact absurd hput put_not_mem_deletes
    · obtain ⟨payload, id, hmem, rfl⟩ := put_mem_enqueueLoop hput
      have hid : id ∈ io.ids := hzip ▸ List.mem_map.mpr ⟨_, hmem, rfl⟩
      refine ⟨newTask queue payload id io.madeAt, rfl, ?_, fun _ => (by decide : 0 < maxAttempts)⟩
      rw [hcount, if_pos (show (newTask queue payload id io.madeAt).id ∈ io.ids from hid)]
      exact Nat.zero_le _
  · rw [hcount]
    split
    · exact Nat.zero_le _
    · exact h.attempts hold
  · rw [hcount]
    split
    · exact Nat.zero_le _
    · exact h.bounded id

/-- A delivered task was pending below the limit, and is returned once. -/
theorem Counted.deliver (h : Counted ⟨t, log⟩) (hms : IsMoves b ms) (hkeys : (ms.map Move.key).Nodup)
    (hmoved : ∀ m ∈ ms, Moved t.db io.now .dequeue m)
    (hnamed : Named ⟨⟨t.db.write b, seq⟩,
      log ++ [⟨t, io, call, .delivered ((ms.filter fun m => m.dst = .inflight).map fun m => (m.newKey, m.task))⟩]⟩) :
    Counted ⟨⟨t.db.write b, seq⟩,
      log ++ [⟨t, io, call, .delivered ((ms.filter fun m => m.dst = .inflight).map fun m => (m.newKey, m.task))⟩]⟩ := by
  have hrestart : ∀ id, Entry.restarts ⟨t, io, call, .delivered ((ms.filter fun m => m.dst = .inflight).map
      fun m => (m.newKey, m.task))⟩ id = false := fun id => by
    cases call <;> rfl
  -- A delivered task had attempts left, and has one more now.
  have hread : ∀ m ∈ ms, ∃ x, t.db.get .pending m.key = some (.task x) ∧ x.id = m.task.id ∧ m.dst = .inflight ∧
      m.task.attempts = x.attempts + 1 ∧ x.attempts < maxAttempts := fun m hm => by
    cases hmoved m hm with
    | @deliver k x timeout hget =>
      have hlt := h.pending hget
      refine ⟨x, hget, rfl, rfl, Nat.mod_eq_of_lt ?_, hlt⟩
      simp only [maxAttempts] at hlt
      simp only [u32Size]
      omega
    | poisonPending hget => exact absurd (h.tasks hget) (by simp)
    | poisonInflight hkind => simp at hkind
  refine h.moves hms hmoved hnamed (fun id hid => ?_) (fun m hm => ?_) fun r hr => ?_
  · refine handouts_quiet (hrestart id) ?_
    simp only [Entry.handsOut, Reply.results]
    refine List.countP_eq_zero.mpr fun r hr => ?_
    obtain ⟨m, hm, rfl⟩ := List.mem_map.mp hr
    simpa using hid m (List.mem_filter.mp hm).1
  · obtain ⟨x, hget, hid, hdst, hatt, hlt⟩ := hread m hm
    -- It is in the answer once.
    have hone : Entry.handsOut ⟨t, io, call, _⟩ m.task.id ≤ 1 :=
      handsOut_deliver_le (moves_ids_nodup h.tasks h.unique hkeys hmoved)
    have hbefore : handouts m.task.id log ≤ x.attempts := hid ▸ h.attempts hget
    rw [handouts_append, hrestart, if_neg Bool.false_ne_true]
    refine ⟨by omega, by omega, fun hpending => ?_⟩
    rw [hdst] at hpending
    cases hpending
  · obtain ⟨m, hm, rfl⟩ := List.mem_map.mp hr
    obtain ⟨x, -, -, -, hatt, hlt⟩ := hread m (List.mem_filter.mp hm).1
    dsimp only
    omega

/-- A task that is given up keeps its attempts, and is no longer pending. -/
theorem Counted.nackDead (h : Counted ⟨t, log⟩) {key : Key} {m : Move} (hms : IsMoves b [m]) (hdst : m.dst = .dlq)
    (hmoved : Moved t.db io.now .nack m)
    (hnamed : Named ⟨⟨t.db.write b, seq⟩, log ++ [⟨t, io, .nack key, .done⟩]⟩) :
    Counted ⟨⟨t.db.write b, seq⟩, log ++ [⟨t, io, .nack key, .done⟩]⟩ := by
  have hsame : ∀ id, handouts id (log ++ [⟨t, io, .nack key, .done⟩]) = handouts id log := fun id =>
    handouts_quiet rfl rfl
  refine h.moves hms (List.forall_mem_singleton.mpr hmoved) hnamed (fun id _ => hsame id)
    (List.forall_mem_singleton.mpr ⟨(hsame _).symm ▸ h.bounded _, ?_, fun hpending => ?_⟩) fun r hr => by cases hr
  · rw [hsame]
    cases hmoved with
    | retry => cases hdst
    | deadLetter hget => exact h.attempts hget
    | poisonInflight _ hget => exact absurd (h.tasks hget) (by simp)
  · rw [hdst] at hpending
    cases hpending

theorem Counted.retry (h : Counted ⟨t, log⟩) {key : Key} {task : Task} (hget : t.db.get .inflight key = some (.task task))
    (hlt : task.attempts < maxAttempts)
    (hnamed : Named ⟨⟨t.db.write (retryBatch key task t.seq), seq⟩, log ++ [⟨t, io, .nack key, .done⟩]⟩) :
    Counted ⟨⟨t.db.write (retryBatch key task t.seq), seq⟩, log ++ [⟨t, io, .nack key, .done⟩]⟩ := by
  have hsame : ∀ id, handouts id (log ++ [⟨t, io, .nack key, .done⟩]) = handouts id log := fun id =>
    handouts_quiet rfl rfl
  have hmoved : Moved t.db io.now .nack
      ⟨.inflight, key, .pending, encodeKey task.queue t.seq, { task with deadline := 0 }⟩ := .retry hget hlt
  refine h.moves (retryBatch_moves key task t.seq) (List.forall_mem_singleton.mpr hmoved) hnamed
    (fun id _ => hsame id) (List.forall_mem_singleton.mpr ⟨(hsame _).symm ▸ h.bounded _, ?_, fun _ => hlt⟩)
    fun r hr => by cases hr
  have hatt : handouts task.id log ≤ task.attempts := h.attempts hget
  rw [hsame]
  exact hatt

/-- The reaper puts back what has attempts to spare. -/
theorem Counted.reap (h : Counted ⟨t, log⟩) {queue : String} (hms : IsMoves b ms)
    (hmoved : ∀ m ∈ ms, Moved t.db io.now .reap m ∧ inQueue queue m.key = true)
    (hspares : (Action.call io (.reapInflight queue)).sparesExhausted t = true)
    (hnamed : Named ⟨⟨t.db.write b, seq⟩, log ++ [⟨t, io, .reapInflight queue, .done⟩]⟩) :
    Counted ⟨⟨t.db.write b, seq⟩, log ++ [⟨t, io, .reapInflight queue, .done⟩]⟩ := by
  have hsame : ∀ id, handouts id (log ++ [⟨t, io, .reapInflight queue, .done⟩]) = handouts id log := fun id =>
    handouts_quiet rfl rfl
  refine h.moves hms (fun m hm => (hmoved m hm).1) hnamed (fun id _ => hsame id) (fun m hm => ?_)
    fun r hr => by cases hr
  rw [hsame]
  refine ⟨h.bounded _, ?_⟩
  obtain ⟨hm, hqueue⟩ := hmoved m hm
  cases hm with
  | @reclaim k x hget hexp =>
    have hspare := List.all_eq_true.mp hspares (k, .task x) (mem_scanQueue.mpr ⟨hget, hqueue⟩)
    simp only [hexp, Bool.not_true, Bool.false_or, decide_eq_true_eq] at hspare
    have hatt : handouts x.id log ≤ x.attempts := h.attempts hget
    exact ⟨hatt, fun _ => hspare⟩
  | poisonInflight _ hget => exact absurd (h.tasks hget) (by simp)

/-- The counts of the replayed tasks start over. -/
theorem Counted.replay (h : Counted ⟨t, log⟩) {n : Nat} (hloop : replayLoop t.seq t.db.dlq.entries = some b)
    (hnamed : Named ⟨⟨t.db.write b, seq⟩, log ++ [⟨t, io, .replayDlq, .count n⟩]⟩) :
    Counted ⟨⟨t.db.write b, seq⟩, log ++ [⟨t, io, .replayDlq, .count n⟩]⟩ := by
  obtain ⟨hms, hkeys, -⟩ := replayLoop_moves hloop
  have hmoved : ∀ m ∈ replayMoves t.seq t.db.dlq.entries, Moved t.db io.now .replay m := fun m hm =>
    replayMoves_moved (fun k v => OrderedMap.mem_entries.mp) hm
  have hcount : ∀ id, handouts id (log ++ [⟨t, io, .replayDlq, .count n⟩]) =
      if id ∈ taskIds t.db.dlq.entries then 0 else handouts id log := fun id => by
    simp [handouts_append, Entry.restarts, Entry.handsOut, Reply.results]
  refine h.moves hms hmoved hnamed (fun id hid => ?_) (fun m hm => ?_) fun r hr => by cases hr
  · rw [hcount, if_neg]
    rw [← replayMoves_ids hloop]
    rintro hmem
    obtain ⟨m, hm, heq⟩ := List.mem_map.mp hmem
    exact hid m hm heq
  · rw [hcount, if_pos]
    · refine ⟨Nat.zero_le _, Nat.zero_le _, fun _ => ?_⟩
      cases hmoved m hm with
      | replay => exact (by decide : 0 < maxAttempts)
      | poisonInflight hkind => simp at hkind
    · rw [← replayMoves_ids hloop]
      exact List.mem_map.mpr ⟨m, hm, rfl⟩

theorem Counted.completed (h : Counted ⟨t, log⟩) (hexec : Outcome tenant t io call db' reply)
    (hspares : (Action.call io call).sparesExhausted t = true)
    (hids : (issued (log ++ [⟨t, io, call, reply⟩])).Nodup) : Counted ⟨⟨db', seq⟩, log ++ [⟨t, io, call, reply⟩]⟩ := by
  have hnamed : Named ⟨⟨db', seq⟩, log ++ [⟨t, io, call, reply⟩]⟩ := h.toNamed.completed hexec hids
  have hnothing : Named ⟨⟨t.db, seq⟩, log ++ [⟨t, io, call, reply⟩]⟩ →
      (∀ id, Entry.restarts ⟨t, io, call, reply⟩ id = false) → reply.results = [] →
      Counted ⟨⟨t.db, seq⟩, log ++ [⟨t, io, call, reply⟩]⟩ := h.deletes .pending []
  cases hexec with
  | refused => exact hnothing hnamed (fun _ => rfl) rfl
  | enqueue henforce hkeys hget hlen => exact h.enqueue hlen hnamed
  | deliver hcall hms hkeys hmoved => exact h.deliver hms hkeys hmoved hnamed
  | ack => exact h.deletes _ _ hnamed (fun _ => rfl) rfl
  | cumulativeAck => exact h.deletes _ _ hnamed (fun _ => rfl) rfl
  | nackNone => exact hnothing hnamed (fun _ => rfl) rfl
  | nackDead hms hkey hnewKey hdst hmoved => exact h.nackDead hms hdst hmoved hnamed
  | retry hget hlt => exact h.retry hget hlt hnamed
  | reap hms hkeys hmoved => exact h.reap hms hmoved hspares hnamed
  | purge => exact h.deletes _ _ hnamed (fun _ => rfl) rfl
  | replay hloop => exact h.replay hloop hnamed
  | replayFailed => exact hnothing hnamed (fun _ => rfl) rfl

end Step

/-! ## One call after another -/

theorem counted_start (now : Nat) : Counted (.start now) where
  toNamed := named_start now
  attempts hget := by simp [Journal.start, Tenant.open] at hget
  pending hget := by simp [Journal.start, Tenant.open] at hget
  bounded _ := Nat.zero_le _
  delivered he := by cases he

theorem counted_of_spares {tenant : String} {now : Nat} {j : Journal}
    (hrun : Runs.Run (Journal.next tenant) (fun j a => a.sparesExhausted j.tenant = true) (.start now) j)
    (hids : (issued j.log).Nodup) : Counted j := by
  have hstep : ∀ {j a j'}, (j.tenant.seq < u64Size ∧ ((issued j.log).Nodup → Counted j)) →
      Action.sparesExhausted j.tenant a = true → Journal.next tenant j a = some j' →
      j'.tenant.seq < u64Size ∧ ((issued j'.log).Nodup → Counted j') := by
    rintro ⟨t, log⟩ a j' ⟨hseq, hcounted⟩ hspares hn
    have hmod : ∀ n, n % u64Size < u64Size := fun n => Nat.mod_lt n (by decide)
    cases a with
    | other =>
      cases hn
      exact ⟨hmod _, fun hnodup => (hcounted hnodup).of_db_eq rfl⟩
    | reopen now =>
      cases hn
      exact ⟨hmod _, fun hnodup => (hcounted hnodup).of_db_eq rfl⟩
    | call io call =>
      simp only [Journal.next] at hn
      split at hn
      · cases hn
      · rename_i t' reply hexec
        cases hn
        obtain ⟨hout, hadvance⟩ := exec_outcome hseq hexec
        refine ⟨hadvance ▸ hmod _, fun hnodup => ?_⟩
        have hold : (issued log).Nodup := by
          rw [issued_append] at hnodup
          exact (List.nodup_append.mp hnodup).1
        exact (hcounted hold).completed hout hspares hnodup
  exact (hrun.invariant hstep ⟨Nat.mod_lt _ (by decide), fun _ => counted_start now⟩).2 hids

/-! ## Concurrent calls -/

/-- What the batch puts into pending may be delivered again. -/
def Mild (b : WriteBatch) : Prop := ∀ k x, .put .pending k (.task x) ∈ b → x.attempts < maxAttempts

/-- Every pending task may be delivered again. -/
def Deliverable (db : TenantDb) : Prop := ∀ k x, db.get .pending k = some (.task x) → x.attempts < maxAttempts

/-- The reply returns no task with too many attempts. -/
def Reply.Within (reply : Reply) : Prop := ∀ r ∈ reply.results, r.2.attempts ≤ maxAttempts

/-- No sweep writes an exhausted task back to pending. -/
def sweepSpares (c : Config Shared Frame) : Label Call StepInput → Bool
  | .run i _ =>
    match c.threads[i]? with
    | some (.write .reap b _ _) => b.all fun
      | .put .pending _ (.task x) => x.attempts < maxAttempts
      | _ => true
    | _ => true
  | _ => true

namespace Frame

/-- What a call is going to put into pending may be delivered again, and what it returns was. -/
def Spares : Frame → Prop
  | .evictWrite _ b => Mild b
  | .mint _ _ _ b _ => Mild b
  | .nackDraw _ task => task.attempts < maxAttempts
  | .replayDraw _ _ _ b _ => Mild b
  | .write kind b _ reply => (kind ≠ .reap → Mild b) ∧ reply.Within
  | .unlock _ reply => reply.Within
  | .returned reply => reply.Within
  | _ => True

variable {db : TenantDb} {b b' : WriteBatch} {f : Frame} {reply : Reply}

theorem mild_nil : Mild [] := fun _ _ hput => by cases hput

theorem mild_deletes {c : Cf} {keys : List Key} : Mild (deletes c keys) := fun _ _ hput =>
  absurd hput put_not_mem_deletes

theorem mild_append (h : Mild b) (h' : Mild b') : Mild (b ++ b') := fun k x hput =>
  (List.mem_append.mp hput).elim (h k x) (h' k x)

theorem within_of_nil (h : reply.results = []) : reply.Within := fun r hr => by
  rw [h] at hr
  cases hr

theorem Idle.spares (h : f.Idle) : f.Spares := by
  cases f with
  | mint r now todo b ids =>
    obtain rfl : b = [] := h
    exact mild_nil
  | write kind b held reply =>
    obtain ⟨rfl, -, htasks⟩ := h
    exact ⟨fun _ => mild_nil, within_of_nil htasks⟩
  | unlock held reply => exact within_of_nil h.2
  | returned reply => exact within_of_nil h.2
  | evictWrite r b => exact h.elim
  | nackDraw key task => exact h.elim
  | replayDraw key task todo b count => exact h.elim
  | _ => trivial

/-- A pending task that may be delivered again stays within the attempts. -/
theorem Planned.spares (hall : AllTasks db) (hpending : Deliverable db) (h : Planned db f) : f.Spares := by
  cases h with
  | evict => exact mild_deletes
  | ack => exact ⟨fun _ => mild_deletes, within_of_nil rfl⟩
  | cumulativeAck => exact ⟨fun _ => mild_deletes, within_of_nil rfl⟩
  | purge => exact ⟨fun _ => mild_deletes, within_of_nil rfl⟩
  | deliver now hms hnodup hmoved hres =>
    refine ⟨fun _ k x hput => ?_, fun r hr => ?_⟩
    -- A delivery takes from pending, and puts nothing there.
    · obtain ⟨m, hm, hdst, -⟩ := hms.mem_put.mp hput
      exact absurd ((hmoved m hm).1.src_eq.trans hdst.symm) (hmoved m hm).1.src_ne_dst
    · obtain ⟨m, hm, -, htask⟩ := hres r.1 r.2 hr
      rw [← htask]
      cases (hmoved m hm).1 with
      | deliver hget =>
        have hlt := hpending _ _ hget
        exact Nat.le_trans (Nat.mod_le _ _) hlt
      | poisonPending hget => exact absurd (hall hget) (by simp)
      | poisonInflight hkind => simp at hkind
  | move now hkind hms hnodup hmoved =>
    refine ⟨fun hne k x hput => ?_, within_of_nil rfl⟩
    obtain ⟨m, hm, hdst, -, htask⟩ := hms.mem_put.mp hput
    cases htask
    cases (hmoved m hm).1 with
    | deliver => simp at hkind
    | reclaim => exact absurd rfl hne
    | retry hget hlt => exact hlt
    | deadLetter => cases hdst
    | replay => simp at hkind
    | poisonPending => simp at hkind
    | poisonInflight => cases hdst
  | retry hget hlt => exact hlt
  | replay => exact mild_nil

theorem nextMint_spares {tenant : String} {r : EnqueueRequest} {now : Nat} {todo : List Bytes} {ids : List String}
    (h : Mild b) : (nextMint tenant r now todo b ids).Spares := by
  unfold nextMint
  split
  · exact ⟨fun _ => h, within_of_nil rfl⟩
  · exact h

theorem nextReplay_spares (count : Nat) (todo : List (Key × Value)) (h : Mild b) : (nextReplay b count todo).Spares := by
  cases todo with
  | nil =>
    rcases writeOr_eq .replay b [] (.count count) with ⟨-, heq⟩ | ⟨-, heq⟩ <;> rw [nextReplay, heq]
    · exact within_of_nil rfl
    · exact ⟨fun _ => h, within_of_nil rfl⟩
  | cons item todo =>
    obtain ⟨key, v⟩ := item
    cases v with
    | corrupt raw => exact within_of_nil rfl
    | task task => exact h

end Frame

theorem spares_outline {tenant : String} : Outline (system tenant)
    (fun c l => sweepSpares c l = true ∧ Holds Known Frame.Known Frame.Apart c)
    (fun s => Deliverable s.db) (fun _ _ f => f.Spares) fun _ _ => True where
  call _ _ := (Frame.start_idle _ _).spares
  callApart _ := ⟨trivial, trivial⟩
  env h _ := ⟨h.shared, fun hf => hf⟩
  own {c i f a s f'} h hok hf hs := by
    have hspares := h.frames hf
    -- A write that puts only such tasks to pending keeps them so.
    have hwrite : ∀ {b : WriteBatch}, Mild b → Deliverable (c.shared.db.write b) := fun hmild k x hget => by
      rcases get_write hget with hput | ⟨hold, -⟩
      · exact hmild k x hput
      · exact h.shared k x hold
    cases Frame.step_effect hs with
    | quiet locks hidle => exact ⟨h.shared, hidle.spares⟩
    | plan hplan => exact ⟨h.shared, hplan.spares hok.2.shared.tasks h.shared⟩
    | unlock => exact ⟨h.shared, hspares⟩
    | @mint r now payload todo batch ids hnew =>
      refine ⟨h.shared, Frame.nextMint_spares (Frame.mild_append hspares fun k x hput => ?_)⟩
      -- A task starts with no attempt.
      cases List.mem_singleton.mp hput
      exact (by decide : 0 < maxAttempts)
    | @retry key task =>
      refine ⟨h.shared, fun _ k x hput => ?_, Frame.within_of_nil rfl⟩
      obtain ⟨m, hm, -, -, htask⟩ := (retryBatch_moves key task c.shared.seq).mem_put.mp hput
      obtain rfl := List.mem_singleton.mp hm
      cases htask
      exact hspares
    | @replay key task todo batch count =>
      refine ⟨h.shared, Frame.nextReplay_spares _ _ (Frame.mild_append hspares fun k x hput => ?_)⟩
      obtain ⟨m, hm, -, -, htask⟩ := (replayOps_moves key task c.shared.seq).mem_put.mp hput
      obtain rfl := List.mem_singleton.mp hm
      cases htask
      exact (by decide : 0 < maxAttempts)
    | evict hidle => exact ⟨hwrite hspares, hidle.spares⟩
    | @write kind b held reply =>
      refine ⟨hwrite ?_, hspares.2⟩
      by_cases hkind : kind = .reap
      -- The sweep is the one that may put back a spent task, unless the run rules it out.
      · subst hkind
        intro k x hput
        have hsweep := hok.1
        simp only [sweepSpares, hf] at hsweep
        exact of_decide_eq_true (List.all_eq_true.mp hsweep _ hput)
      · exact hspares.1 hkind
  others h _ _ _ _ hg := ⟨h.frames hg, trivial, trivial⟩

theorem returned_attempts_le {tenant : String} {now i : Nat} {c : Config Shared Frame} {reply : Reply}
    (hrun : (system tenant).Run (fun c l => sweepSpares c l = true) ⟨.start now, []⟩ c)
    (hf : c.threads[i]? = some (.returned reply)) : reply.Within := by
  have hstart : Deliverable (Shared.start now).db := fun k x hget => by simp [Shared.start] at hget
  exact (spares_outline.run (known_outline.strengthen hrun known_start) (.start hstart)).frames hf

/-- While no sweep puts an exhausted task back: however calls interleave, no dequeue returns a task with
    more than `maxAttempts` attempts; and of calls one after another, at most `maxAttempts` return any one
    task between its enqueue or last replay and the next. -/
theorem attempts_bounded (tenant : String) (now : Nat) :
    (∀ (c : Config Shared Frame) (i : Nat) (reply : Reply), (system tenant).Run (fun c l => sweepSpares c l = true) ⟨.start now, []⟩ c →
      c.threads[i]? = some (.returned reply) → ∀ r ∈ reply.results, r.2.attempts ≤ maxAttempts) ∧
    ∀ j, Runs.Run (Journal.next tenant) (fun j a => a.sparesExhausted j.tenant = true) (.start now) j →
      (issued j.log).Nodup → (∀ e ∈ j.log, ∀ r ∈ e.reply.results, r.2.attempts ≤ maxAttempts) ∧
        ∀ id, handouts id j.log ≤ maxAttempts := by
  refine ⟨fun c i reply hrun hf => returned_attempts_le hrun hf, fun j hrun hids => ?_⟩
  have hcounted := counted_of_spares hrun hids
  exact ⟨fun e he r hr => hcounted.delivered he hr, hcounted.bounded⟩

theorem attempts_bounded_deliverOne :
    (∃ c, (system "t").execWhile sweepSpares ⟨.start 1, []⟩ deliverOne = some c ∧
      ∀ (i : Nat) (reply : Reply), c.threads[i]? = some (Frame.returned reply) →
        ∀ r ∈ reply.results, r.2.attempts ≤ maxAttempts) ∧
    ∃ j, Runs.execWhile (Journal.next "t") (fun j a => a.sparesExhausted j.tenant) (.start 5) busyDay = some j ∧
      handouts "a" j.log ≤ maxAttempts := by
  refine ⟨⟨((system "t").execWhile sweepSpares ⟨.start 1, []⟩ deliverOne).get (by decide), (Option.some_get _).symm,
    fun i reply hf => ?_⟩, ((Runs.execWhile (Journal.next "t") (fun j a => a.sparesExhausted j.tenant) (.start 5)
      busyDay).get (by decide)), (Option.some_get _).symm, ?_⟩
  · exact (attempts_bounded "t" 1).1 _ i reply (Runs.run_of_execWhile (Option.some_get _).symm) hf
  · exact ((attempts_bounded "t" 5).2 _ (Runs.run_of_execWhile (Option.some_get _).symm) (by decide)).2 "a"

/-- The worker never answers, and the reaper returns the task each time. -/
def crashes : List Action :=
  .call { now := 1, ids := ["a"] } (.enqueueBatch "q" [[1]] (.standard "t")) ::
    (List.range 6).flatMap fun n => [.call { now := 100 * n + 2 } (.dequeueBatch "q" 1 10),
      .call { now := 100 * n + 50 } (.reapInflight "q")]

theorem not_attempts_bounded_crashes : ∃ j, Runs.exec (Journal.next "t") (.start 1) crashes = some j ∧
    (issued j.log).Nodup ∧ handouts "a" j.log = 6 ∧
      ¬∀ e ∈ j.log, ∀ r ∈ e.reply.results, r.2.attempts ≤ maxAttempts := by
  let j := (Runs.exec (Journal.next "t") (.start 1) crashes).get (by decide)
  have hexceeded : (j.log.any fun e => e.reply.results.any fun r => maxAttempts < r.2.attempts) = true := by decide
  refine ⟨j, (Option.some_get _).symm, by decide, by decide, fun hall => ?_⟩
  obtain ⟨e, he, hany⟩ := List.any_eq_true.mp hexceeded
  obtain ⟨r, hr, hlt⟩ := List.any_eq_true.mp hany
  exact absurd (hall e he r hr) (Nat.not_le_of_lt (of_decide_eq_true hlt))

end RocksQueue
