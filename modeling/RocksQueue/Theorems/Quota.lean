import RocksQueue.Theorems.Locks

/-! # The backlog quota

Enqueues and dequeues hold the lock of their queue, but nack and the reaper move records from inflight
to pending without it. The quota holds in every run in which such a move finds the record that it read
and does not fall between the two scans of an enqueue (`backlog_le_quota`). -/

namespace RocksQueue
open Interleaving

/-! ## The backlog -/

/-- The records that count against the quota of a queue. -/
def TenantDb.backlog (db : TenantDb) (queue : String) : Nat :=
  db.countPrefix .pending queue + db.countPrefix .inflight queue

/-- Moves of different records of a queue out of one family. -/
structure MovesFrom (queue : String) (c : Cf) (ms : List Move) : Prop where
  nodup : (ms.map Move.key).Nodup
  away : ∀ m ∈ ms, m.src = c ∧ m.dst ≠ c ∧ inQueue queue m.key = true

section Backlog
variable {q : String} {db db' : TenantDb} {c : Cf} {b : WriteBatch} {ms : List Move} {m : Move}

open TenantDb

theorem backlog_write_puts (q : String) (b : WriteBatch) (db : TenantDb) : (db.write b).backlog q ≤
    db.backlog q + puts .pending (inQueue q) b + puts .inflight (inQueue q) b := by
  have hp := count_write_le .pending (inQueue q) b db
  have hi := count_write_le .inflight (inQueue q) b db
  simp only [backlog, countPrefix_eq_count]
  omega

theorem puts_le_length (p : Key → Bool) (b : WriteBatch) : puts .pending p b + puts .inflight p b ≤ b.length := by
  induction b with
  | nil => exact Nat.le_refl _
  | cons op b ih =>
    cases op with
    | put c k v => cases c <;> cases hk : p k <;> simp [puts, hk] at ih ⊢ <;> omega
    | delete c k =>
      simp [puts] at ih ⊢
      omega

/-- A batch adds at most one record for each of its operations. -/
theorem backlog_write_le (q : String) (b : WriteBatch) (db : TenantDb) :
    (db.write b).backlog q ≤ db.backlog q + b.length := by
  have hputs := backlog_write_puts q b db
  have hlen := puts_le_length (inQueue q) b
  omega

theorem backlog_deletes_le (keys : List Key) : (db.write (deletes c keys)).backlog q ≤ db.backlog q := by
  have hputs := backlog_write_puts q (deletes c keys) db
  simpa using hputs

theorem backlog_delete (hc : c ≠ .dlq) {k : Key} (hk : inQueue q k = true) (hget : (db.get c k).isSome) :
    (db.apply (.delete c k)).backlog q + 1 = db.backlog q := by
  have hsome : db.get c k ≠ none := Option.isSome_iff_ne_none.mp hget
  have hp : (db.apply (.delete c k)).count .pending (inQueue q) + _ = db.count .pending (inQueue q) := count_apply_delete
  have hi : (db.apply (.delete c k)).count .inflight (inQueue q) + _ = db.count .inflight (inQueue q) :=
    count_apply_delete
  simp only [backlog, countPrefix_eq_count]
  cases c with
  | dlq => exact absurd rfl hc
  | pending =>
    simp [hk, hsome] at hp hi
    omega
  | inflight =>
    simp [hk, hsome] at hp hi
    omega

/-- A move of a record that is there does not add to the backlog. -/
theorem backlog_move_le (hc : m.src ≠ .dlq) (hk : inQueue q m.key = true) (hget : (db.get m.src m.key).isSome) :
    (db.write m.ops).backlog q ≤ db.backlog q := by
  have hdel := backlog_delete hc hk hget
  have hput := backlog_write_le q [.put m.dst m.newKey m.task.serialize] (db.apply (.delete m.src m.key))
  have hops : db.write m.ops = (db.apply (.delete m.src m.key)).write [.put m.dst m.newKey m.task.serialize] := rfl
  rw [List.length_singleton] at hput
  rw [hops]
  omega

/-- What a move leaves of the family that it takes a record from. -/
theorem get_write_move (hdst : m.dst ≠ c) {k : Key} (hk : k ≠ m.key) : (db.write m.ops).get c k = db.get c k := by
  have hput : ¬(c = m.dst ∧ k = m.newKey) := fun h => hdst h.1.symm
  have hdel : ¬(c = m.src ∧ k = m.key) := fun h => hk h.2
  simp only [Move.ops, write_cons, write_nil, get_apply_put, get_apply_delete, hput, hdel, if_false]

/-- Moves of different records that are all there do not add to the backlog. -/
theorem backlog_moves_le (hc : c ≠ .dlq) (h : IsMoves b ms) (hms : MovesFrom q c ms)
    (hget : ∀ m ∈ ms, (db.get c m.key).isSome) : (db.write b).backlog q ≤ db.backlog q := by
  rw [h.write]
  clear h
  induction ms generalizing db with
  | nil => exact Nat.le_refl _
  | cons m ms ih =>
    obtain ⟨hnot, hnodup⟩ := List.nodup_cons.mp hms.nodup
    obtain ⟨⟨hsrc, hdst, hkey⟩, haway⟩ := List.forall_mem_cons.mp hms.away
    obtain ⟨hm, hrest⟩ := List.forall_mem_cons.mp hget
    rw [List.flatMap_cons, write_append]
    have hmove : (db.write m.ops).backlog q ≤ db.backlog q := backlog_move_le (hsrc ▸ hc) hkey (hsrc ▸ hm)
    refine Nat.le_trans (ih ⟨hnodup, haway⟩ fun m' hm' => ?_) hmove
    have hne : m'.key ≠ m.key := fun heq => hnot (heq ▸ List.mem_map_of_mem hm')
    rw [get_write_move hdst hne]
    exact hrest m' hm'

end Backlog

/-! ## Calls on one queue -/

/-- A call on `q`, whose enqueues all use `policy`. -/
def OnQueue (q : String) (policy : NamespacePolicy) : Label Call StepInput → Prop
  | .call (.enqueueBatch queue _ p) => queue = q ∧ p = policy
  | .call (.dequeueBatch queue _ _) => queue = q
  | .call (.dequeueWithMaxInflight queue _ _ _) => queue = q
  | .call (.ackBatch _) => True
  | .call (.nack key) => inQueue q key = true
  | .call (.reapInflight queue) => queue = q
  | .call _ => False
  | _ => True

/-- The enqueue has counted the pending records and not yet the inflight ones. -/
def Frame.betweenScans : Frame → Bool
  | .quotaInflight _ _ _ _ => true
  | _ => false

def putsBack (b : WriteBatch) : Bool :=
  b.any fun
    | .put .pending _ _ => true
    | _ => false

/-- Every record that the batch takes from inflight is still there. -/
def stillInflight (db : TenantDb) (b : WriteBatch) : Bool :=
  b.all fun
    | .delete .inflight k => (db.get .inflight k).isSome
    | _ => true

/-- A nack or a sweep that puts records back to pending finds them inflight, while no enqueue is between
    its two scans. -/
def undisturbed (c : Config Shared Frame) : Label Call StepInput → Bool
  | .run i _ =>
    match c.threads[i]? with
    | some (.write kind b _ _) => (kind ≠ .nack ∧ kind ≠ .reap) || !putsBack b ||
        (stillInflight c.shared.db b && !c.threads.any Frame.betweenScans)
    | _ => true
  | _ => true

namespace Frame

/-- What each point of a call on `q` knows of the backlog. -/
def Admitted (tenant q : String) (quota : Nat) (policy : NamespacePolicy) (db : TenantDb) : Frame → Prop
  | .enqueueLock r => r.queue = q ∧ r.policy = policy
  | .quotaPending r n _ => r.queue = q ∧ r.policy = policy ∧ n = quota
  | .quotaInflight r n _ pending => (r.queue = q ∧ r.policy = policy ∧ n = quota) ∧ db.countPrefix .pending q ≤ pending
  | .quotaDlq r n _ pending inflight =>
    (r.queue = q ∧ r.policy = policy ∧ n = quota) ∧ db.backlog q ≤ pending + inflight
  | .mint r _ todo b _ => r.queue = q ∧ db.backlog q + b.length + todo.length ≤ quota
  | .dequeueLock queue _ _ _ => queue = q
  | .countInflight queue _ _ _ => queue = q
  | .dequeueScan queue _ _ => queue = q
  | .nackGet key => inQueue q key = true
  | .nackDraw key _ => inQueue q key = true
  | .reapScan queue => queue = q
  | .write .enqueue b held _ => .queue (lockName tenant q) ∈ held ∧ db.backlog q + b.length ≤ quota
  | .write .dequeue b held _ => .queue (lockName tenant q) ∈ held ∧
      ∃ ms, IsMoves b ms ∧ MovesFrom q .pending ms ∧ ∀ m ∈ ms, (db.get .pending m.key).isSome
  | .write .ack b _ _ => ∃ keys, b = deletes .inflight keys
  | .write .nack b _ _ => ∃ ms, IsMoves b ms ∧ MovesFrom q .inflight ms
  | .write .reap b _ _ => ∃ ms, IsMoves b ms ∧ MovesFrom q .inflight ms
  | .ackLocks _ _ _ => True
  | .ackGet _ _ _ _ _ => True
  | .unlock _ _ => True
  | .returned _ => True
  | _ => False

/-- What a call that does not hold the lock of `q` may do to its records. -/
structure Shrinks (q : String) (db db' : TenantDb) : Prop where
  backlog : db'.backlog q ≤ db.backlog q
  pending : ∀ {k : Key}, (db.get .pending k).isSome → (db'.get .pending k).isSome

variable {tenant q : String} {quota : Nat} {policy : NamespacePolicy} {s s' : Shared} {db db' : TenantDb} {i : Nat}
  {io : StepInput} {f f' : Frame}

/-- What a call knows under the lock stays true while others only shrink the backlog. -/
theorem Admitted.mono (h : f.Admitted tenant q quota policy db) (hs : Shrinks q db db')
    (hscan : f.betweenScans = true → db'.countPrefix .pending q ≤ db.countPrefix .pending q) :
    f.Admitted tenant q quota policy db' := by
  have hb := hs.backlog
  cases f with
  | quotaInflight r n deadline pending => exact ⟨h.1, Nat.le_trans (hscan rfl) h.2⟩
  | quotaDlq r n deadline pending inflight => exact ⟨h.1, Nat.le_trans hb h.2⟩
  | mint r now todo b ids =>
    obtain ⟨hq, hroom⟩ := h
    exact ⟨hq, by omega⟩
  | write kind b held reply =>
    cases kind with
    | enqueue =>
      obtain ⟨hheld, hroom⟩ := h
      exact ⟨hheld, by omega⟩
    | dequeue =>
      obtain ⟨hheld, ms, hms, hfrom, hget⟩ := h
      exact ⟨hheld, ms, hms, hfrom, fun m hm => hs.pending (hget m hm)⟩
    | _ => exact h
  | _ => exact h

/-- A call that does not hold the lock knows nothing of the backlog. -/
theorem Admitted.of_unlocked (h : f.Admitted tenant q quota policy db)
    (hheld : .queue (lockName tenant q) ∉ f.held tenant) : f.Admitted tenant q quota policy db' := by
  cases f with
  | quotaInflight r n deadline pending => exact absurd (h.1.1 ▸ List.mem_singleton_self _) hheld
  | quotaDlq r n deadline pending inflight => exact absurd (h.1.1 ▸ List.mem_singleton_self _) hheld
  | mint r now todo b ids => exact absurd (h.1 ▸ List.mem_singleton_self _) hheld
  | write kind b held reply =>
    cases kind with
    | enqueue => exact absurd h.1 hheld
    | dequeue => exact absurd h.1 hheld
    | _ => exact h
  | _ => exact h

/-! ### Writes -/

theorem putsBack_iff {b : WriteBatch} : putsBack b = true ↔ ∃ k v, .put .pending k v ∈ b := by
  simp only [putsBack, List.any_eq_true]
  constructor
  · rintro ⟨op, hop, h⟩
    split at h
    · exact ⟨_, _, hop⟩
    · cases h
  · rintro ⟨k, v, hop⟩
    exact ⟨_, hop, rfl⟩

theorem puts_of_not_putsBack {b : WriteBatch} {p : Key → Bool} (h : putsBack b = false) :
    TenantDb.puts .pending p b = 0 := by
  refine List.countP_eq_zero.mpr fun op hop hput => ?_
  have hnone : ¬∃ k v, WriteOp.put .pending k v ∈ b := fun hex => by
    rw [putsBack_iff.mpr hex] at h
    cases h
  cases op with
  | put c k v =>
    simp only [Bool.and_eq_true, decide_eq_true_eq] at hput
    obtain ⟨rfl, -⟩ := hput
    exact hnone ⟨k, v, hop⟩
  | delete c k => cases hput

theorem stillInflight_inv {b : WriteBatch} {k : Key} (h : stillInflight db b = true) (hdel : .delete .inflight k ∈ b) :
    (db.get .inflight k).isSome := List.all_eq_true.mp h _ hdel

/-- Moves out of inflight leave the pending records in place. -/
theorem pending_write {b : WriteBatch} (hdel : ∀ k, .delete .pending k ∉ b) {k : Key} (h : (db.get .pending k).isSome) :
    ((db.write b).get .pending k).isSome := by
  obtain ⟨v, hv⟩ := Option.isSome_iff_exists.mp h
  obtain ⟨v', hv', -⟩ := TenantDb.get_write_of_get hv (hdel k)
  exact Option.isSome_iff_exists.mpr ⟨v', hv'⟩

/-- A nack or a sweep that finds its records inflight, or puts none back, shrinks the backlog. -/
theorem shrinks_moves {b : WriteBatch} {ms : List Move} (hms : IsMoves b ms) (hfrom : MovesFrom q .inflight ms)
    (hfound : putsBack b = true → stillInflight db b = true) : Shrinks q db (db.write b) := by
  refine ⟨?_, pending_write fun k hdel => ?_⟩
  · by_cases hback : putsBack b = true
    · refine backlog_moves_le (by simp) hms hfrom fun m hm => stillInflight_inv (hfound hback) ?_
      exact hms.mem_delete.mpr ⟨m, hm, (hfrom.away m hm).1, rfl⟩
    · have hputs := backlog_write_puts q b db
      rw [puts_of_not_putsBack (Bool.not_eq_true _ ▸ hback),
        puts_moves_away hms fun m hm => (hfrom.away m hm).2.1] at hputs
      exact hputs
  · obtain ⟨m, hm, hsrc, -⟩ := hms.mem_delete.mp hdel
    rw [(hfrom.away m hm).1] at hsrc
    cases hsrc

theorem shrinks_deletes (keys : List Key) : Shrinks q db (db.write (deletes .inflight keys)) := by
  refine ⟨backlog_deletes_le keys, pending_write fun k hdel => ?_⟩
  exact absurd (mem_deletes.mp hdel).1 (by simp)

/-- What a write keeps to when it puts records back. -/
structure InPlace (kind : WriteKind) (b : WriteBatch) (db : TenantDb) (ts : List Frame) : Prop where
  found : kind = .nack ∨ kind = .reap → putsBack b = true → stillInflight db b = true
  apart : kind = .nack ∨ kind = .reap → putsBack b = true → ∀ g ∈ ts, g.betweenScans = false

theorem undisturbed_inv {c : Config Shared Frame} {kind : WriteKind} {b : WriteBatch} {held : List Lock} {reply : Reply}
    (h : undisturbed c (.run i io) = true) (hf : c.threads[i]? = some (.write kind b held reply)) :
    InPlace kind b c.shared.db c.threads := by
  simp only [undisturbed, hf] at h
  have hcases : (kind = .nack ∨ kind = .reap) → putsBack b = true →
      stillInflight c.shared.db b = true ∧ c.threads.any betweenScans = false := by
    intro hkind hback
    rcases hkind with rfl | rfl <;> simpa [hback] using h
  refine ⟨fun hkind hback => (hcases hkind hback).1, fun hkind hback g hg => ?_⟩
  have hnone := List.any_eq_false.mp (hcases hkind hback).2 g hg
  simpa using hnone

/-- A write without the lock shrinks the backlog, and no pending record appears between two scans. -/
theorem write_shrinks {kind : WriteKind} {b : WriteBatch} {held : List Lock} {reply : Reply} {ts : List Frame}
    (h : (Frame.write kind b held reply).Admitted tenant q quota policy db)
    (hheld : .queue (lockName tenant q) ∉ held) (hplace : InPlace kind b db ts) :
    Shrinks q db (db.write b) ∧
      ∀ g ∈ ts, g.betweenScans = true → (db.write b).countPrefix .pending q ≤ db.countPrefix .pending q := by
  have hscan : (putsBack b = true → ∀ g ∈ ts, g.betweenScans = false) → ∀ g ∈ ts, g.betweenScans = true →
      (db.write b).countPrefix .pending q ≤ db.countPrefix .pending q := by
    intro hnone g hg hbetween
    by_cases hback : putsBack b = true
    · rw [hnone hback g hg] at hbetween
      cases hbetween
    · have hcount := TenantDb.count_write_le .pending (inQueue q) b db
      rwa [puts_of_not_putsBack (Bool.not_eq_true _ ▸ hback)] at hcount
  cases kind with
  | enqueue => exact absurd h.1 hheld
  | dequeue => exact absurd h.1 hheld
  | ack =>
    obtain ⟨keys, rfl⟩ := h
    refine ⟨shrinks_deletes keys, hscan fun hback => ?_⟩
    obtain ⟨k, v, hput⟩ := putsBack_iff.mp hback
    exact absurd hput put_not_mem_deletes
  | nack =>
    obtain ⟨ms, hms, hfrom⟩ := h
    exact ⟨shrinks_moves hms hfrom (hplace.found (Or.inl rfl)), hscan (hplace.apart (Or.inl rfl))⟩
  | reap =>
    obtain ⟨ms, hms, hfrom⟩ := h
    exact ⟨shrinks_moves hms hfrom (hplace.found (Or.inr rfl)), hscan (hplace.apart (Or.inr rfl))⟩
  | _ => exact h.elim

/-- No write takes the backlog above the quota. -/
theorem write_backlog {kind : WriteKind} {b : WriteBatch} {held : List Lock} {reply : Reply} {ts : List Frame}
    (h : (Frame.write kind b held reply).Admitted tenant q quota policy db) (hdb : db.backlog q ≤ quota)
    (hplace : InPlace kind b db ts) : (db.write b).backlog q ≤ quota := by
  by_cases hheld : .queue (lockName tenant q) ∈ held
  · cases kind with
    | enqueue => exact Nat.le_trans (backlog_write_le q b db) h.2
    | dequeue =>
      obtain ⟨-, ms, hms, hfrom, hget⟩ := h
      exact Nat.le_trans (backlog_moves_le (by simp) hms hfrom hget) hdb
    | ack =>
      obtain ⟨keys, rfl⟩ := h
      exact Nat.le_trans (backlog_deletes_le keys) hdb
    | nack =>
      obtain ⟨ms, hms, hfrom⟩ := h
      exact Nat.le_trans (shrinks_moves hms hfrom (hplace.found (Or.inl rfl))).backlog hdb
    | reap =>
      obtain ⟨ms, hms, hfrom⟩ := h
      exact Nat.le_trans (shrinks_moves hms hfrom (hplace.found (Or.inr rfl))).backlog hdb
    | _ => exact h.elim
  · exact Nat.le_trans (write_shrinks h hheld hplace).1.backlog hdb

/-! ### The frames that a read leads to -/

theorem beginMint_admitted {r : EnqueueRequest} {now : Nat} (hq : r.queue = q)
    (hroom : db.backlog q + r.payloads.length ≤ quota) : (beginMint tenant r now).Admitted tenant q quota policy db := by
  unfold beginMint
  split
  · refine ⟨hq ▸ List.mem_singleton_self _, ?_⟩
    rw [List.length_nil]
    omega
  · refine ⟨hq, ?_⟩
    rw [List.length_nil]
    omega

theorem checkQuota_admitted {r : EnqueueRequest} {deadline : Option Nat} {current now : Nat} (hq : r.queue = q)
    (hpolicy : r.policy = policy) (hreject : policy.backlogPolicy ≠ .evictOldest) (hcurrent : db.backlog q ≤ current) :
    (checkQuota tenant r quota deadline current now).Admitted tenant q quota policy db := by
  have hmint : current + r.payloads.length ≤ quota → (beginMint tenant r now).Admitted tenant q quota policy db :=
    fun hroom => beginMint_admitted hq (by omega)
  unfold checkQuota
  dsimp only
  cases deadline with
  | some deadline =>
    dsimp only
    split
    · rename_i hroom
      exact hmint hroom
    · split
      · trivial
      · exact ⟨hq, hpolicy, rfl⟩
  | none =>
    dsimp only
    split
    · split
      · trivial
      · rename_i hroom
        exact hmint (Nat.le_of_not_lt hroom)
    · exact ⟨hq, hpolicy, rfl⟩
    · rename_i hevict
      exact absurd (hpolicy ▸ hevict) hreject

theorem beginDequeue_admitted {limit timeout : Nat} :
    (beginDequeue tenant q limit timeout).Admitted tenant q quota policy db := by
  unfold beginDequeue
  split
  · trivial
  · rfl

theorem writeOr_admitted {kind : WriteKind} {b : WriteBatch} {held : List Lock} {reply : Reply}
    (h : (Frame.write kind b held reply).Admitted tenant q quota policy db) :
    (writeOr kind b held reply).Admitted tenant q quota policy db := by
  rcases writeOr_eq kind b held reply with ⟨-, heq⟩ | ⟨-, heq⟩ <;> rw [heq]
  · trivial
  · exact h

theorem nextAck_admitted (held : List Lock) (todo seen counted : List Key) :
    (nextAck held todo seen counted).Admitted tenant q quota policy db := by
  rcases nextAck_cases held todo seen counted with ⟨key, rest, -, heq⟩ | ⟨-, heq⟩ | heq <;> rw [heq]
  · trivial
  · trivial
  · exact ⟨counted, rfl⟩

theorem nextAckLock_admitted (keys : List Key) (held todo : List Lock) :
    (nextAckLock keys held todo).Admitted tenant q quota policy db := by
  cases todo with
  | nil => exact nextAck_admitted held keys [] []
  | cons l todo => trivial

/-- A move of one record. -/
theorem movesFrom_single {m : Move} {c : Cf} (h : m.src = c ∧ m.dst ≠ c ∧ inQueue q m.key = true) : MovesFrom q c [m] :=
  ⟨List.pairwise_singleton _ _, List.forall_mem_singleton.mpr h⟩

theorem movesFrom_scan {ms : List Move} {now : Nat} (kind : WriteKind)
    (hsub : (ms.map Move.key).Sublist ((db.scanQueue kind.source q).map Prod.fst))
    (hmoved : ∀ m ∈ ms, Moved db now kind m) :
    MovesFrom q kind.source ms ∧ ∀ m ∈ ms, (db.get kind.source m.key).isSome := by
  have hscanned : ∀ m ∈ ms, ∃ v, (m.key, v) ∈ db.scanQueue kind.source q := fun m hm => by
    obtain ⟨⟨k, v⟩, hkv, heq⟩ := List.mem_map.mp (hsub.subset (List.mem_map_of_mem hm))
    exact ⟨v, heq ▸ hkv⟩
  refine ⟨⟨hsub.nodup TenantDb.scanQueue_keys_nodup, fun m hm => ?_⟩, fun m hm => ?_⟩
  · obtain ⟨v, hv⟩ := hscanned m hm
    have hsrc := (hmoved m hm).src_eq
    exact ⟨hsrc, hsrc ▸ (hmoved m hm).src_ne_dst.symm, (TenantDb.mem_scanQueue.mp hv).2⟩
  · obtain ⟨v, hv⟩ := hscanned m hm
    exact Option.isSome_iff_exists.mpr ⟨v, (TenantDb.mem_scanQueue.mp hv).1⟩

/-! ### The step -/

theorem step_admitted (hquota : policy.backlogQuota = some quota) (hreject : policy.backlogPolicy ≠ .evictOldest)
    (hdb : s.db.backlog q ≤ quota) (hf : f.Admitted tenant q quota policy s.db)
    (h : Frame.step tenant s i f io = some (s', f')) : f'.Admitted tenant q quota policy s'.db := by
  cases stepped_of_step h with
  | enqueueLock r =>
    obtain ⟨hq, rfl⟩ := hf
    rw [beginQuota, hquota]
    exact ⟨hq, rfl, rfl⟩
  -- What has been counted is at least what is there of the backlog.
  | quotaPending r n deadline => exact ⟨hf, Nat.le_of_eq (by rw [hf.1])⟩
  | quotaInflight r n deadline pending =>
    obtain ⟨hr, hpending⟩ := hf
    refine ⟨hr, ?_⟩
    rw [TenantDb.backlog, hr.1]
    omega
  | quotaDlq r n deadline pending inflight =>
    obtain ⟨⟨hq, hpolicy, rfl⟩, hcurrent⟩ := hf
    exact checkQuota_admitted hq hpolicy hreject hcurrent
  | mint r now payload todo b ids =>
    obtain ⟨hq, hroom⟩ := hf
    rw [List.length_cons] at hroom
    unfold nextMint
    split
    · refine ⟨hq ▸ List.mem_singleton_self _, ?_⟩
      rw [List.length_append, List.length_singleton]
      exact (by omega : s.db.backlog q + (b.length + 1) ≤ quota)
    · refine ⟨hq, ?_⟩
      rw [List.length_append, List.length_singleton]
      exact (by omega : s.db.backlog q + (b.length + 1) + todo.length ≤ quota)
  | dequeueLock queue =>
    obtain rfl : queue = q := hf
    exact beginDequeue_admitted
  | cappedLock => exact hf
  | countFull => trivial
  | countInflight queue =>
    obtain rfl : queue = q := hf
    exact beginDequeue_admitted
  -- The moves of a delivery, a nack and a sweep start from records that count already.
  | dequeueScan queue limit timeout =>
    obtain rfl : queue = q := hf
    have hread : ∀ k v, (k, v) ∈ s.db.scanQueue .pending queue → s.db.get .pending k = some v :=
      fun k v hmem => (TenantDb.mem_scanQueue.mp hmem).1
    obtain ⟨ms, hms, hsub, hmoved, -⟩ := dequeueLoop_moves queue io.now timeout limit hread
    obtain ⟨hfrom, hget⟩ := movesFrom_scan .dequeue hsub hmoved
    exact writeOr_admitted ⟨List.mem_singleton_self _, ms, hms, hfrom, hget⟩
  | ackLock keys => exact nextAckLock_admitted keys _ _
  | ackGet => exact nextAck_admitted _ _ _ _
  | nackNone => trivial
  | nackPoison key => exact ⟨_, poisonBatch_moves .inflight key _, movesFrom_single ⟨rfl, by simp, hf⟩⟩
  | nackLetter key => exact ⟨_, deadLetterBatch_moves key _, movesFrom_single ⟨rfl, by simp, hf⟩⟩
  | nackGet => exact hf
  | nackDraw key task => exact ⟨_, retryBatch_moves key task s.seq, movesFrom_single ⟨rfl, by simp, hf⟩⟩
  | reapScan queue =>
    obtain rfl : queue = q := hf
    have hread : ∀ k v, (k, v) ∈ s.db.scanQueue .inflight queue → s.db.get .inflight k = some v :=
      fun k v hmem => (TenantDb.mem_scanQueue.mp hmem).1
    obtain ⟨ms, hms, hsub, hmoved⟩ := reapLoop_moves queue io.now hread
    rw [reapScan_eq]
    exact writeOr_admitted ⟨ms, hms, (movesFrom_scan .reap hsub hmoved).1⟩
  | write => trivial
  | unlock => trivial
  | _ => exact hf.elim

end Frame

/-! ## The quota -/

theorem start_admitted {tenant q : String} {quota : Nat} {policy : NamespacePolicy} {db : TenantDb} {call : Call}
    (h : OnQueue q policy (.call call)) : (Frame.start tenant call).Admitted tenant q quota policy db := by
  cases call with
  | dequeueWithMaxInflight queue limit timeout cap =>
    simp only [Frame.start]
    split
    · trivial
    · exact h
  | ackBatch keys => exact Frame.nextAckLock_admitted keys [] _
  | cumulativeAck queue upToSeq => exact h.elim
  | purgeDlq => exact h.elim
  | replayDlq => exact h.elim
  | _ => exact h

theorem quota_outline {tenant q : String} {quota : Nat} {policy : NamespacePolicy}
    (hquota : policy.backlogQuota = some quota) (hreject : policy.backlogPolicy ≠ .evictOldest) :
    Outline (system tenant)
      (fun c l => (OnQueue q policy l ∧ undisturbed c l = true) ∧
        Holds (fun _ => True) (Frame.Holding tenant) (fun _ _ => True) c)
      (fun s => s.db.backlog q ≤ quota) (fun s _ f => f.Admitted tenant q quota policy s.db) fun _ _ => True where
  call _ hok := start_admitted hok.1.1
  callApart _ := ⟨trivial, trivial⟩
  env h _ := ⟨h.shared, fun hf => hf⟩
  own {c i f a s f'} h hok hf hs := by
    refine ⟨?_, Frame.step_admitted hquota hreject h.shared (h.frames hf) hs⟩
    cases Frame.step_effect hs with
    | evict => exact (h.frames hf).elim
    | write => exact Frame.write_backlog (h.frames hf) h.shared (Frame.undisturbed_inv hok.1.2 hf)
    | _ => exact h.shared
  others {c i f a s f' j g} h hok hf hs hij hg := by
    refine ⟨?_, trivial, trivial⟩
    cases Frame.step_effect hs with
    | evict => exact (h.frames hf).elim
    | @write kind b held reply =>
      by_cases hlock : .queue (lockName tenant q) ∈ g.held tenant
      · have hheld : .queue (lockName tenant q) ∉ held := fun hmem =>
          hij ((hok.2.frames hf).unique (hok.2.frames hg) hmem hlock)
        obtain ⟨hshrinks, hscan⟩ := Frame.write_shrinks (h.frames hf) hheld (Frame.undisturbed_inv hok.1.2 hf)
        exact (h.frames hg).mono hshrinks (hscan g (List.mem_of_getElem? hg))
      · exact (h.frames hg).of_unlocked hlock
    | _ => exact h.frames hg

/-- The backlog of a queue whose enqueues all use a policy with a quota stays within it, when every nack
    and sweep that puts records back does so undisturbed. -/
theorem backlog_le_quota {tenant q : String} {quota : Nat} {policy : NamespacePolicy} {s₀ : Shared}
    {c : Config Shared Frame} (hquota : policy.backlogQuota = some quota)
    (hpolicy : policy.backlogPolicy = .reject ∨ ∃ timeoutMs, policy.backlogPolicy = .block timeoutMs)
    (hstart : s₀.db.backlog q ≤ quota)
    (hrun : (system tenant).Run (fun c l => OnQueue q policy l ∧ undisturbed c l = true) ⟨s₀, []⟩ c) :
    c.shared.db.backlog q ≤ quota := by
  have hreject : policy.backlogPolicy ≠ .evictOldest := by
    rcases hpolicy with heq | ⟨timeoutMs, heq⟩ <;> simp [heq]
  exact ((quota_outline hquota hreject).run (locks_outline.strengthen hrun (.start trivial)) (.start hstart)).shared

def quotaOne : NamespacePolicy := { NamespacePolicy.standard "t" with backlogQuota := some 1 }

/-- The task that fills the quota is enqueued and delivered. -/
def fillQuota : List (Label Call StepInput) :=
  [.call (.enqueueBatch "q" [[1]] quotaOne), .run 0 {}, .run 0 {}, .run 0 {}, .run 0 {}, .run 0 { id := "a" },
    .run 0 {}, .run 0 {}, .call (.dequeueBatch "q" 1 60000), .run 1 {}, .run 1 { now := 1 }, .run 1 {}, .run 1 {}]

/-- The task is nacked before the next enqueue counts. -/
def nackBeforeScans : List (Label Call StepInput) :=
  fillQuota ++ [.call (.nack (encodeKey "q" 1)), .run 2 {}, .run 2 {}, .run 2 {},
    .call (.enqueueBatch "q" [[2]] quotaOne), .run 3 {}, .run 3 {}, .run 3 {}, .run 3 {}, .run 3 {}]

/-- The nack writes between the two scans, so that neither counts the task. -/
def nackBetweenScans : List (Label Call StepInput) :=
  fillQuota ++ [.call (.nack (encodeKey "q" 1)), .run 2 {}, .run 2 {},
    .call (.enqueueBatch "q" [[2]] quotaOne), .run 3 {}, .run 3 {}, .run 2 {}, .run 3 {}, .run 3 {},
    .run 3 { id := "b" }, .run 3 {}]

theorem backlog_le_quota_nackBeforeScans :
    ∃ c, (system "t").execWhile undisturbed ⟨.start 1, []⟩ nackBeforeScans = some c ∧
      c.threads[3]? = some (.returned (.failed (quotaExceeded "t" "q" 1 1 1))) ∧ c.shared.db.backlog "q" ≤ 1 := by
  have hall : ∀ l ∈ nackBeforeScans, OnQueue "q" quotaOne l := by
    have hkey : inQueue "q" (encodeKey "q" 1) = true := inQueue_encodeKey "q" 1
    simp [nackBeforeScans, fillQuota, OnQueue, hkey]
  refine ⟨((system "t").execWhile undisturbed ⟨.start 1, []⟩ nackBeforeScans).get (by decide +kernel),
    (Option.some_get _).symm, by rfl, ?_⟩
  exact backlog_le_quota rfl (Or.inl rfl) (by decide) (Runs.run_of_execWhile_forall (Option.some_get _).symm hall)

theorem not_backlog_le_quota_nackBetweenScans :
    ∃ c, (system "t").Run (fun _ l => OnQueue "q" quotaOne l) ⟨.start 1, []⟩ c ∧
      (Shared.start 1).db.backlog "q" ≤ 1 ∧ ¬c.shared.db.backlog "q" ≤ 1 := by
  have hall : ∀ l ∈ nackBetweenScans, OnQueue "q" quotaOne l := by
    have hkey : inQueue "q" (encodeKey "q" 1) = true := inQueue_encodeKey "q" 1
    simp [nackBetweenScans, fillQuota, OnQueue, hkey]
  refine ⟨((system "t").exec ⟨.start 1, []⟩ nackBetweenScans).get (by decide +kernel),
    Runs.run_of_exec_forall (Option.some_get _).symm hall, by decide, by decide +kernel⟩

end RocksQueue
