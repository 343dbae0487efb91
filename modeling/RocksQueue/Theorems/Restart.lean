import RocksQueue.Theorems.Sequential

/-! # Keys across restarts

Each start of the process seeds the counter from the wall clock. New keys are fresh, and above the keys
stored for their queue, in every history whose restarts find the clock above all stored numbers. -/

namespace RocksQueue
open TenantDb

/-- What `enqueue_batch_sync`, `nack` or `replay_dlq` writes under new keys. -/
def Tenant.minted (tenant : String) (t : Tenant) (io : Inputs) : Call → WriteBatch
  | .enqueueBatch queue payloads policy =>
    match enforceQuota tenant t.db queue policy payloads.length io with
    | some (.ok _) => enqueueLoop queue io.madeAt t.seq (payloads.zip io.ids)
    | _ => []
  | .nack key =>
    match t.db.get .inflight key with
    | some (.task task) => if maxAttempts ≤ task.attempts then [] else retryBatch key task t.seq
    | _ => []
  | .replayDlq => (replayLoop t.seq t.db.dlq.entries).getD []
  | _ => []

/-- Every new key of the call was in no family, and its number is above every number stored for the same
    queue. -/
def Entry.Fresh (tenant : String) (e : Entry) : Prop :=
  ∀ k v, .put .pending k v ∈ e.before.minted tenant e.io e.call →
    ∃ x s, v = .task x ∧ k = encodeKey x.queue s ∧ s < u64Size ∧ (∀ c, e.before.db.get c k = none) ∧
      ∀ c s', s' < u64Size → (e.before.db.get c (encodeKey x.queue s')).isSome → s' < s

/-- Every record is a task under its own key, made from a number below `seq`. -/
def Below (db : TenantDb) (seq : Nat) : Prop :=
  ∀ c k v, db.get c k = some v → ∃ x s, v = .task x ∧ k = encodeKey x.queue s ∧ s < seq

/-- A restart finds the clock above every stored number. -/
def Action.reseedsAbove (t : Tenant) : Action → Bool
  | .reopen now => t.db.records.all fun r => (decodeKeySeq r.2.1).all fun s => s < now % u64Size
  | _ => true

section Below
variable {db : TenantDb} {seq seq' : Nat} {tenant : String} {t : Tenant} {io : Inputs} {call : Call}
  {reply : Reply} {db' : TenantDb} {c : Cf} {k : Key} {v : Value}

theorem Below.mono (h : Below db seq) (hle : seq ≤ seq') : Below db seq' := fun c k v hget => by
  obtain ⟨x, s, hv, hk, hs⟩ := h c k v hget
  exact ⟨x, s, hv, hk, Nat.lt_of_lt_of_le hs hle⟩

/-- A batch keeps the bound when its puts do. -/
theorem Below.write {b : WriteBatch} (h : Below db seq)
    (hput : ∀ c k v, .put c k v ∈ b → ∃ x s, v = .task x ∧ k = encodeKey x.queue s ∧ s < seq) :
    Below (db.write b) seq := by
  intro c k v hget
  rcases get_write hget with hmem | ⟨hold, -⟩
  · exact hput c k v hmem
  · exact h c k v hold

/-- Puts and absent records under a number that was not drawn yet. -/
theorem Below.fresh (h : Below db seq) {queue : String} {s : Nat} (hle : seq ≤ s) (hs : s < u64Size) (c : Cf) :
    db.get c (encodeKey queue s) = none := by
  cases hget : db.get c (encodeKey queue s) with
  | none => rfl
  | some v =>
    obtain ⟨x, s', -, hk, hs'⟩ := h c _ v hget
    have heq := (encodeKey_inj hs (by omega) hk).2
    omega

theorem Below.lt (h : Below db seq) (hseq : seq ≤ u64Size) {queue : String} {s : Nat} (hs : s < u64Size)
    (hget : (db.get c (encodeKey queue s)).isSome) : s < seq := by
  obtain ⟨v, hv⟩ := Option.isSome_iff_exists.mp hget
  obtain ⟨x, s', -, hk, hs'⟩ := h c _ v hv
  have heq := (encodeKey_inj hs (by omega) hk).2
  omega

theorem Below.allTasks (h : Below db seq) : AllTasks db := fun hget => by
  obtain ⟨x, -, hv, -⟩ := h _ _ _ hget
  exact ⟨x, hv⟩

/-- The key that a move takes belongs to the task that it puts. -/
theorem Below.moved (h : Below db seq) {now : Nat} {kind : WriteKind} {m : Move} (hm : Moved db now kind m) :
    ∃ s, m.key = encodeKey m.task.queue s ∧ s < seq := by
  obtain ⟨x, hget, -, hqueue⟩ := hm.stored h.allTasks
  obtain ⟨x', s, hv, hk, hs⟩ := h _ _ _ hget
  cases hv
  exact ⟨s, hqueue ▸ hk, hs⟩

/-! ### New keys -/

theorem mem_enqueueLoop {queue : String} {now : Nat} {todo : List (Bytes × String)} (hseq : seq + todo.length < u64Size)
    (h : .put c k v ∈ enqueueLoop queue now seq todo) :
    ∃ x s, v = .task x ∧ k = encodeKey x.queue s ∧ seq ≤ s ∧ s < seq + todo.length := by
  induction todo generalizing seq with
  | nil => cases h
  | cons item todo ih =>
    obtain ⟨payload, id⟩ := item
    rw [List.length_cons] at hseq ⊢
    rcases List.mem_cons.mp h with heq | h
    · cases heq
      exact ⟨newTask queue payload id now, seq, rfl, rfl, Nat.le_refl _, by omega⟩
    · rw [nextSeq_eq (by omega)] at h
      obtain ⟨x, s, hv, hk, hle, hlt⟩ := ih (by omega) h
      exact ⟨x, s, hv, hk, by omega, by omega⟩

theorem mem_replayMoves {items : List (Key × Value)} {m : Move} (hseq : seq + items.length < u64Size)
    (h : m ∈ replayMoves seq items) : ∃ s, m.newKey = encodeKey m.task.queue s ∧ seq ≤ s ∧ s < seq + items.length := by
  induction items generalizing seq with
  | nil => cases h
  | cons item items ih =>
    obtain ⟨key, v⟩ := item
    rw [List.length_cons] at hseq ⊢
    cases v with
    | corrupt raw => cases h
    | task task =>
      rcases List.mem_cons.mp h with rfl | h
      · exact ⟨seq, rfl, Nat.le_refl _, by omega⟩
      · rw [nextSeq_eq (by omega)] at h
        obtain ⟨s, hk, hle, hlt⟩ := ih (by omega) h
        exact ⟨s, hk, by omega, by omega⟩

/-- New keys are made from the numbers that the call draws. -/
theorem minted_put (hexec : Outcome tenant t io call db' reply) (hwrap : t.seq + t.draws tenant io call < u64Size)
    (h : .put c k v ∈ t.minted tenant io call) :
    ∃ x s, v = .task x ∧ k = encodeKey x.queue s ∧ t.seq ≤ s ∧ s < t.seq + t.draws tenant io call := by
  cases hexec with
  | refused henforce =>
    simp only [Tenant.minted, henforce] at h
    cases h
  | @enqueue queue payloads policy evicted henforce _ _ hlen =>
    simp only [Tenant.minted, Tenant.draws, henforce] at h hwrap ⊢
    -- One number for each payload.
    have hcount : (payloads.zip io.ids).length = payloads.length := by rw [List.length_zip, hlen, Nat.min_self]
    rw [← hcount] at hwrap ⊢
    exact mem_enqueueLoop hwrap h
  | deliver hcall =>
    cases call with
    | dequeueBatch => cases h
    | dequeueWithMaxInflight => cases h
    | _ => cases hcall
  | nackNone hget =>
    simp only [Tenant.minted, hget] at h
    cases h
  | nackDead hms hkey hnewKey hdst hmoved =>
    subst hkey
    cases hmoved with
    | retry => cases hdst
    -- A dead letter keeps its key.
    | deadLetter hget hle =>
      simp only [Tenant.minted, hget, hle, if_true] at h
      cases h
    | poisonInflight _ hget =>
      simp only [Tenant.minted, hget] at h
      cases h
  | @retry key task hget hlt =>
    have hdraws : t.draws tenant io (.nack key) = 1 := by
      simp [Tenant.draws, hget, Nat.not_le_of_lt hlt]
    simp only [Tenant.minted, hget, Nat.not_le_of_lt hlt, if_false] at h
    obtain ⟨m, hm, -, rfl, rfl⟩ := (retryBatch_moves key task t.seq).mem_put.mp h
    obtain rfl := List.mem_singleton.mp hm
    exact ⟨_, t.seq, rfl, rfl, Nat.le_refl _, by omega⟩
  | replay hloop =>
    -- One number for each dead letter.
    obtain ⟨hms, -, hdraws⟩ := replayLoop_moves hloop
    have hcount : t.draws tenant io .replayDlq = t.db.dlq.entries.length := hdraws
    rw [hcount] at hwrap ⊢
    simp only [Tenant.minted, hloop, Option.getD_some] at h
    obtain ⟨m, hm, -, rfl, rfl⟩ := hms.mem_put.mp h
    obtain ⟨s, hk, hle, hlt⟩ := mem_replayMoves hwrap hm
    exact ⟨_, s, rfl, hk, hle, hlt⟩
  | replayFailed hloop =>
    simp only [Tenant.minted, hloop] at h
    cases h
  | _ => cases h

/-- A completed call puts a record under a new key that it minted, or under the key that the record had. -/
theorem Outcome.below (hexec : Outcome tenant t io call db' reply) (hwrap : t.seq + t.draws tenant io call < u64Size)
    (h : Below t.db t.seq) : Below db' (t.seq + t.draws tenant io call) := by
  have hmono := h.mono (Nat.le_add_right t.seq (t.draws tenant io call))
  have hnone : ∀ {c : Cf} {keys : List Key} {db : TenantDb}, Below db (t.seq + t.draws tenant io call) →
      Below (db.write (deletes c keys)) (t.seq + t.draws tenant io call) := fun hdb =>
    hdb.write fun _ _ _ hput => absurd hput put_not_mem_deletes
  -- What is moved under its own key keeps the number in it.
  have hkeep : ∀ {kind : WriteKind} {b : WriteBatch} {ms : List Move}, IsMoves b ms →
      (∀ m ∈ ms, Moved t.db io.now kind m ∧ m.newKey = m.key) →
      Below (t.db.write b) (t.seq + t.draws tenant io call) := fun hms hmoved =>
    hmono.write fun c k v hput => by
      obtain ⟨m, hm, -, rfl, rfl⟩ := hms.mem_put.mp hput
      obtain ⟨s, hk, hs⟩ := h.moved (hmoved m hm).1
      exact ⟨m.task, s, rfl, (hmoved m hm).2.trans hk, by omega⟩
  -- What is put under a new key has a number that the call drew.
  have hminted := fun {c : Cf} {k : Key} {v : Value} => minted_put (c := c) (k := k) (v := v) hexec hwrap
  cases hexec with
  | refused => exact hmono
  | enqueue henforce =>
    refine (hnone hmono).write fun c k v hput => ?_
    obtain ⟨x, s, hv, hk, -, hs⟩ := hminted (by simpa only [Tenant.minted, henforce] using hput)
    exact ⟨x, s, hv, hk, hs⟩
  | deliver _ hms _ hmoved => exact hkeep hms fun m hm => ⟨hmoved m hm, (hmoved m hm).newKey_eq (Or.inl rfl)⟩
  | ack => exact hnone hmono
  | cumulativeAck => exact hnone hmono
  | nackNone => exact hmono
  | nackDead hms hkey hnewKey _ hmoved =>
    exact hkeep hms (List.forall_mem_singleton.mpr ⟨hmoved, hnewKey.trans hkey.symm⟩)
  | retry hget hlt =>
    refine hmono.write fun c k v hput => ?_
    obtain ⟨x, s, hv, hk, -, hs⟩ :=
      hminted (by simpa only [Tenant.minted, hget, Nat.not_le_of_lt hlt, if_false] using hput)
    exact ⟨x, s, hv, hk, hs⟩
  | reap hms _ hmoved => exact hkeep hms fun m hm => ⟨(hmoved m hm).1, (hmoved m hm).1.newKey_eq (Or.inr rfl)⟩
  | purge => exact hnone hmono
  | replay hloop =>
    refine hmono.write fun c k v hput => ?_
    obtain ⟨x, s, hv, hk, -, hs⟩ := hminted (by simpa only [Tenant.minted, hloop, Option.getD_some] using hput)
    exact ⟨x, s, hv, hk, hs⟩
  | replayFailed => exact hmono

/-! ### Histories -/

/-- A call whose keys are bounded writes fresh keys. -/
theorem Outcome.fresh (hexec : Outcome tenant t io call db' reply) (hwrap : t.seq + t.draws tenant io call < u64Size)
    (h : Below t.db t.seq) : Entry.Fresh tenant ⟨t, io, call, reply⟩ := by
  intro k v hput
  obtain ⟨x, s, rfl, rfl, hle, hlt⟩ := minted_put hexec hwrap hput
  refine ⟨x, s, rfl, rfl, by omega, fun c => h.fresh hle (by omega) c, fun c s' hs' hget => ?_⟩
  exact Nat.lt_of_lt_of_le (h.lt (by omega) hs' hget) hle

theorem Below.reopen {now : Nat} (h : Below db seq) (hseq : seq ≤ u64Size)
    (hnow : Action.reseedsAbove ⟨db, seq⟩ (.reopen now) = true) : Below db (now % u64Size) := by
  intro c k v hget
  obtain ⟨x, s, hv, hk, hs⟩ := h c k v hget
  have hrecord := List.all_eq_true.mp hnow (c, k, v) (TenantDb.mem_records.mpr hget)
  rw [hk, decodeKeySeq_encodeKey x.queue (by omega)] at hrecord
  exact ⟨x, s, hv, hk, of_decide_eq_true hrecord⟩

/-- What a history keeps. -/
structure Seeded (tenant : String) (j : Journal) : Prop where
  seq : j.tenant.seq < u64Size
  below : Below j.tenant.db j.tenant.seq
  fresh : ∀ e ∈ j.log, e.Fresh tenant

theorem seeded_next {j j' : Journal} {a : Action} (h : Seeded tenant j) (hwrap : a.noWrap tenant j.tenant)
    (hseed : a.reseedsAbove j.tenant = true) (hn : Journal.next tenant j a = some j') : Seeded tenant j' := by
  cases a with
  | reopen now =>
    cases hn
    exact ⟨Nat.mod_lt _ (by decide), h.below.reopen (Nat.le_of_lt h.seq) hseed, h.fresh⟩
  | other =>
    cases hn
    have hnext : nextSeq j.tenant.seq = j.tenant.seq + 1 := nextSeq_eq hwrap
    refine ⟨Nat.mod_lt _ (by decide), ?_, h.fresh⟩
    rw [hnext]
    exact h.below.mono (Nat.le_succ _)
  | call io call =>
    simp only [Journal.next] at hn
    split at hn
    · cases hn
    · rename_i t reply hexec
      cases hn
      obtain ⟨hout, hadvance⟩ := exec_outcome h.seq hexec
      have hseq : t.seq = j.tenant.seq + j.tenant.draws tenant io call := hadvance.trans (Nat.mod_eq_of_lt hwrap)
      refine ⟨hseq ▸ hwrap, hseq ▸ hout.below hwrap h.below, fun e he => ?_⟩
      rcases List.mem_append.mp he with he | he
      · exact h.fresh e he
      · obtain rfl := List.mem_singleton.mp he
        exact hout.fresh hwrap h.below

/-- Every key that a call of the history mints is fresh, when each restart finds the clock above all
    stored numbers and the counter does not wrap. -/
theorem fresh_of_reseedsAbove {now : Nat} {j : Journal} {e : Entry}
    (hrun : Runs.Run (Journal.next tenant) (fun j a => a.noWrap tenant j.tenant ∧ a.reseedsAbove j.tenant = true)
      (.start now) j) (he : e ∈ j.log) : e.Fresh tenant := by
  have hstart : Seeded tenant (.start now) := by
    refine ⟨Nat.mod_lt _ (by decide), fun c k v hget => ?_, fun e he => by cases he⟩
    simp [Journal.start, Tenant.open] at hget
  exact (hrun.invariant (fun hj hok hn => seeded_next hj hok.1 hok.2 hn) hstart).fresh e he

end Below

/-- The wall clock when an action takes place. -/
def Action.clock : Action → Option Nat
  | .call io _ => some io.now
  | .other => none
  | .reopen now => some now

/-- Three tasks are enqueued in the millisecond in which the process started, then it restarts at `now`. -/
def restartAt (now : Nat) : List Action :=
  [.call { now := 1000, ids := ["a", "b", "c"] } (.enqueueBatch "q" [[1], [2], [3]] (.standard "t")), .reopen now,
    .call { now := now, ids := ["d"] } (.enqueueBatch "q" [[4]] (.standard "t"))]

theorem fresh_restartAt : ∃ j, Runs.execWhile (Journal.next "t")
    (fun j a => a.noWrap "t" j.tenant ∧ a.reseedsAbove j.tenant) (.start 1000) (restartAt 1003) = some j ∧
      j.log.length = 2 ∧ ∀ e ∈ j.log, e.Fresh "t" := by
  refine ⟨(Runs.execWhile (Journal.next "t") (fun j a => a.noWrap "t" j.tenant ∧ a.reseedsAbove j.tenant)
    (.start 1000) (restartAt 1003)).get (by decide), (Option.some_get _).symm, by decide, fun e he => ?_⟩
  exact fresh_of_reseedsAbove ((Runs.run_of_execWhile (Option.some_get _).symm).mono fun j a => of_decide_eq_true) he

/-- A restart one millisecond later draws the number of the second task again. -/
theorem not_fresh_restartAt : ∃ j, Runs.exec (Journal.next "t") (.start 1000) (restartAt 1001) = some j ∧
    (1000 :: (restartAt 1001).filterMap Action.clock).Pairwise (· ≤ ·) ∧ ∃ e ∈ j.log, ¬e.Fresh "t" := by
  let j := (Runs.exec (Journal.next "t") (.start 1000) (restartAt 1001)).get (by decide)
  let e : Entry := j.log.getLast?.get (by decide)
  have he : e ∈ j.log := List.mem_of_getLast? (Option.some_get _).symm
  have hput : .put .pending (encodeKey "q" 1001) (newTask "q" [4] "d" 1001).serialize ∈
      e.before.minted "t" e.io e.call := by decide
  have hold : e.before.db.get .pending (encodeKey "q" 1001) = some (newTask "q" [2] "b" 1000).serialize := by decide
  refine ⟨j, (Option.some_get _).symm, by decide, e, he, fun hfresh => ?_⟩
  obtain ⟨x, s, -, -, -, hnone, -⟩ := hfresh _ _ hput
  rw [hnone .pending] at hold
  cases hold

end RocksQueue
