import RocksQueue.Theorems.Locks

/-! # The inflight cap

A `dequeue_with_max_inflight` counts and delivers under the lock of its queue, and no other operation
puts into inflight. So what a call has counted as free stays free until its write. -/

namespace RocksQueue
open Interleaving

/-! ## What a delivery puts into inflight -/

section Puts
open TenantDb

/-- A delivery puts at most as many records of `q` into inflight as it returns, and none when it is
    made for another queue. -/
theorem puts_deliver {q queue : String} {limit : Nat} (hq : NulFree q) (hqueue : NulFree queue) (hlimit : 0 < limit)
    (timeout now : Nat) (db : TenantDb) :
    puts .inflight (inQueue q) (deliver queue limit timeout now (db.scanQueue .pending queue)).batch ≤
      if queue = q then limit else 0 := by
  have hread : ∀ k v, (k, v) ∈ db.scanQueue .pending queue → db.get .pending k = some v :=
    fun k v hmem => (mem_scanQueue.mp hmem).1
  obtain ⟨ms, hms, hsub, hmoved, hres⟩ := dequeueLoop_moves queue now timeout limit hread
  have hputs := puts_moves (c := .inflight) (p := inQueue q) hms
  rw [deliver, hputs]
  split
  · have hlen := congrArg List.length hres
    rw [List.length_map] at hlen
    have hdelivered : (dequeueLoop queue now (saturatingAdd now timeout) limit
        (db.scanQueue .pending queue)).results.length ≤ limit := dequeueLoop_length limit hlimit
    rw [hlen] at hdelivered
    refine Nat.le_trans ?_ hdelivered
    exact (List.monotone_filter_right ms fun m hin => decide_eq_true (of_decide_eq_true hin).1).length_le
  · rename_i hne
    refine Nat.le_of_eq (List.length_eq_zero_iff.mpr (List.filter_eq_nil_iff.mpr fun m hm hin => ?_))
    have hkey : m.key ∈ (db.scanQueue .pending queue).map Prod.fst := hsub.subset (List.mem_map_of_mem hm)
    obtain ⟨⟨k, v⟩, hkv, rfl⟩ := List.mem_map.mp hkey
    have hin' : inQueue q m.newKey = true := (of_decide_eq_true hin).2
    rw [(hmoved m hm).newKey_eq (Or.inl rfl)] at hin'
    exact hne (queue_unique hqueue hq (mem_scanQueue.mp hkv).2 hin')

end Puts

/-! ## What a call has counted as free -/

namespace Frame

/-- The records of `q` that a call may still put into inflight. -/
def reserved (q : String) : Frame → Nat
  | .dequeueScan queue limit _ => if queue = q then limit else 0
  | f => TenantDb.puts .inflight (inQueue q) f.batch

/-- A dequeue from `q` checks the cap `maxInflight`. -/
def Capped (q : String) (maxInflight : Nat) : Frame → Prop
  | .dequeueLock queue _ _ cap => NulFree queue ∧ (queue = q → cap = some maxInflight)
  | .countInflight queue _ _ cap => NulFree queue ∧ (queue = q → cap = maxInflight)
  | .dequeueScan queue limit _ => NulFree queue ∧ 0 < limit
  | _ => True

variable {tenant q : String} {maxInflight : Nat} {s s' : Shared} {i : Nat} {io : StepInput} {f f' : Frame}

theorem reserved_of_idle (h : f.Idle) (hjob : ∀ queue, f.job ≠ .dequeue queue) : f.reserved q = 0 := by
  cases f with
  | dequeueScan queue limit timeout => exact absurd rfl (hjob queue)
  | mint r now todo b ids =>
    obtain rfl : b = [] := h
    rfl
  | write kind b held reply =>
    obtain ⟨rfl, -, -⟩ := h
    rfl
  | evictWrite r b => exact h.elim
  | nackDraw key task => exact h.elim
  | replayDraw key task todo b count => exact h.elim
  | _ => rfl

theorem writeOr_reserved (kind : WriteKind) (b : WriteBatch) (ls : List Lock) (reply : Reply) :
    (writeOr kind b ls reply).reserved q = TenantDb.puts .inflight (inQueue q) b := by
  rcases writeOr_eq kind b ls reply with ⟨rfl, heq⟩ | ⟨-, heq⟩ <;> rw [heq] <;> rfl

theorem nextMint_reserved {r : EnqueueRequest} {now : Nat} {todo : List Bytes} {b : WriteBatch} {ids : List String} :
    (nextMint tenant r now todo b ids).reserved q = TenantDb.puts .inflight (inQueue q) b := by
  unfold nextMint
  split <;> rfl

theorem nextReplay_reserved (b : WriteBatch) (count : Nat) (todo : List (Key × Value)) :
    (nextReplay b count todo).reserved q = 0 ∨
      (nextReplay b count todo).reserved q = TenantDb.puts .inflight (inQueue q) b := by
  cases todo with
  | nil => exact Or.inr (writeOr_reserved _ _ _ _)
  | cons item todo =>
    obtain ⟨key, v⟩ := item
    cases v with
    | corrupt raw => exact Or.inl rfl
    | task task => exact Or.inr rfl

/-- A call that is no dequeue frees what it reserved, or keeps it under the same locks. -/
theorem step_reserved (h : Frame.step tenant s i f io = some (s', f')) (hjob : ∀ queue, f.job ≠ .dequeue queue) :
    f'.reserved q = 0 ∨ (f'.reserved q = f.reserved q ∧ f'.held tenant = f.held tenant ∧ s'.db = s.db) := by
  have hidle : f'.Idle → f'.reserved q = 0 := fun hidle => reserved_of_idle hidle fun queue => by
    rcases (step_shape h).1 with heq | heq <;> rw [heq]
    · exact hjob queue
    · simp
  cases stepped_of_step h with
  | dequeueLock queue => exact absurd rfl (hjob queue)
  | cappedLock queue => exact absurd rfl (hjob queue)
  | countFull queue => exact absurd rfl (hjob queue)
  | countInflight queue => exact absurd rfl (hjob queue)
  | dequeueScan queue => exact absurd rfl (hjob queue)
  | enqueueLock => exact Or.inl (hidle beginQuota_idle)
  | quotaPending => exact Or.inl rfl
  | quotaInflight => exact Or.inl rfl
  | quotaDlq => exact Or.inl (hidle checkQuota_idle)
  | evictNothing => exact Or.inl (hidle beginMint_idle)
  | evictScan =>
    rw [evictBatch_eq]
    exact Or.inl puts_deletes
  | evictWrite => exact Or.inl (hidle beginMint_idle)
  | mint r now payload todo b ids =>
    have hheld := (nextMint_shape tenant r now todo (b ++ [enqueueOp r.queue now s.seq payload io.id])
      (ids ++ [io.id])).2
    refine Or.inr ⟨?_, hheld, rfl⟩
    rw [nextMint_reserved, puts_append, enqueueOp, puts_put]
    simp [reserved, batch]
  | ackLock keys => exact Or.inl (hidle (nextAckLock_idle keys _ _))
  | ackGet key todo seen counted ls =>
    rcases nextAck_cases ls todo seen
      (if (s.db.get .inflight key).isSome then counted ++ [key] else counted) with
      ⟨key', rest, -, heq⟩ | ⟨-, heq⟩ | heq <;> rw [heq]
    · exact Or.inl rfl
    · exact Or.inl rfl
    · exact Or.inl puts_deletes
  | nackNone => exact Or.inl rfl
  | nackPoison key => exact Or.inl (puts_moves_away (poisonBatch_moves .inflight key _) (by simp))
  | nackLetter key => exact Or.inl (puts_moves_away (deadLetterBatch_moves key _) (by simp))
  | nackGet => exact Or.inl rfl
  | nackDraw key task => exact Or.inl (puts_moves_away (retryBatch_moves key task s.seq) (by simp))
  | cumulativeScan queue upToSeq =>
    obtain ⟨keys, hkeys, -⟩ := cumulativeLoop_eq upToSeq (s.db.scanQueue .inflight queue)
    rw [writeOr_reserved, hkeys]
    exact Or.inl puts_deletes
  | reapScan queue =>
    have hread : ∀ k v, (k, v) ∈ RocksQueue.reapScan s.db queue → s.db.get .inflight k = some v := fun k v hmem => by
      rw [reapScan_eq] at hmem
      exact (TenantDb.mem_scanQueue.mp hmem).1
    obtain ⟨ms, hms, -, hmoved⟩ := reapLoop_moves queue io.now hread
    rw [writeOr_reserved]
    refine Or.inl (puts_moves_away hms fun m hm => ?_)
    have hsrc : m.src = .inflight := (hmoved m hm).src_eq
    exact hsrc ▸ (hmoved m hm).src_ne_dst.symm
  | purgeScan =>
    rw [writeOr_reserved, purgeBatch_eq]
    exact Or.inl puts_deletes
  | replayScan =>
    rcases nextReplay_reserved (q := q) [] 0 s.db.dlq.entries with h0 | h0
    · exact Or.inl h0
    · exact Or.inl h0
  | replayDraw key task todo b count =>
    rcases nextReplay_reserved (q := q) (b ++ replayOps key task s.seq) (count + 1) todo with h0 | h0
    · exact Or.inl h0
    · -- What a replay has put together goes to pending, and reserves nothing more.
      have hheld := (nextReplay_shape tenant (b ++ replayOps key task s.seq) (count + 1) todo).2
      refine Or.inr ⟨?_, hheld, rfl⟩
      rw [h0, puts_append, puts_moves_away (replayOps_moves key task s.seq) (by simp [Move.ofReplay])]
      rfl
  | write => exact Or.inl rfl
  | unlock => exact Or.inl rfl

/-- What a call reserves fits under the cap, and is protected by the lock of the queue. -/
structure Room (tenant q : String) (maxInflight : Nat) (s : Shared) (f : Frame) : Prop where
  room : s.db.count .inflight (inQueue q) + f.reserved q ≤ maxInflight
  locked : 0 < f.reserved q → .queue (lockName tenant q) ∈ f.held tenant
  capped : f.Capped q maxInflight

theorem Room.of_none (hroom : s.db.count .inflight (inQueue q) ≤ maxInflight) (hres : f.reserved q = 0)
    (hcapped : f.Capped q maxInflight) : f.Room tenant q maxInflight s :=
  ⟨hres ▸ hroom, fun hpos => absurd hres hpos.ne', hcapped⟩

theorem capped_of_job (hjob : ∀ queue, f.job ≠ .dequeue queue) : f.Capped q maxInflight := by
  cases f with
  | dequeueLock queue => exact absurd rfl (hjob queue)
  | countInflight queue => exact absurd rfl (hjob queue)
  | dequeueScan queue => exact absurd rfl (hjob queue)
  | _ => trivial

/-- The head of a delivery from a queue with room for `limit` records. -/
theorem beginDequeue_room {queue : String} {limit timeout : Nat} (hqueue : NulFree queue)
    (hcount : s.db.count .inflight (inQueue q) ≤ maxInflight)
    (hlimit : queue = q → s.db.count .inflight (inQueue q) + limit ≤ maxInflight) :
    (beginDequeue tenant queue limit timeout).Room tenant q maxInflight s := by
  unfold beginDequeue
  split
  · exact .of_none hcount rfl trivial
  · rename_i hpos
    by_cases heq : queue = q
    · subst heq
      refine ⟨?_, fun _ => List.mem_singleton_self _, hqueue, Nat.pos_of_ne_zero hpos⟩
      simpa [reserved] using hlimit rfl
    · refine .of_none hcount ?_ ⟨hqueue, Nat.pos_of_ne_zero hpos⟩
      simp [reserved, heq]

/-- No step adds more to inflight than its call has reserved. -/
theorem step_count (h : Frame.step tenant s i f io = some (s', f')) :
    s'.db.count .inflight (inQueue q) ≤ s.db.count .inflight (inQueue q) + f.reserved q := by
  cases step_effect h with
  | evict => exact TenantDb.count_write_le _ _ _ _
  | write => exact TenantDb.count_write_le _ _ _ _
  | _ => exact Nat.le_add_right _ _

theorem step_room (hq : NulFree q) (h : Frame.step tenant s i f io = some (s', f'))
    (hf : f.Room tenant q maxInflight s) : f'.Room tenant q maxInflight s' := by
  have hcount : s'.db.count .inflight (inQueue q) ≤ maxInflight := Nat.le_trans (step_count h) hf.room
  by_cases hjob : ∀ queue, f.job ≠ .dequeue queue
  · have hjob' : ∀ queue, f'.job ≠ .dequeue queue := fun queue => by
      rcases (step_shape h).1 with heq | heq <;> rw [heq]
      · exact hjob queue
      · simp
    have hcapped : f'.Capped q maxInflight := capped_of_job hjob'
    rcases step_reserved (q := q) h hjob with hzero | ⟨hsame, hheld, hdb⟩
    · exact .of_none hcount hzero hcapped
    · refine ⟨?_, fun hpos => ?_, hcapped⟩
      · rw [hsame, hdb]
        exact hf.room
      · rw [hheld]
        exact hf.locked (hsame ▸ hpos)
  · have hroom := hf.room
    cases stepped_of_step h with
    | dequeueLock queue limit timeout =>
      obtain ⟨hqueue, hcap⟩ : NulFree queue ∧ (queue = q → none = some maxInflight) := hf.capped
      exact beginDequeue_room hqueue hcount fun heq => absurd (hcap heq) (by simp)
    | cappedLock queue limit timeout cap =>
      obtain ⟨hqueue, hcap⟩ : NulFree queue ∧ (queue = q → some cap = some maxInflight) := hf.capped
      exact .of_none hcount rfl ⟨hqueue, fun heq => Option.some.inj (hcap heq)⟩
    | countFull => exact .of_none hcount rfl trivial
    | countInflight queue limit timeout cap hless =>
      obtain ⟨hqueue, hcap⟩ : NulFree queue ∧ (queue = q → cap = maxInflight) := hf.capped
      refine beginDequeue_room hqueue hcount fun heq => ?_
      obtain rfl := hcap heq
      subst heq
      rw [TenantDb.countPrefix_eq_count] at hless ⊢
      omega
    | dequeueScan queue limit timeout =>
      -- The batch of the scan stays within what the count left room for.
      obtain ⟨hqueue, hlimit⟩ : NulFree queue ∧ 0 < limit := hf.capped
      have hputs := puts_deliver hq hqueue hlimit timeout io.now s.db
      have hres : (writeOr .dequeue (deliver queue limit timeout io.now (s.db.scanQueue .pending queue)).batch
          [.queue (lockName tenant queue)] (.delivered
            (deliver queue limit timeout io.now (s.db.scanQueue .pending queue)).results)).reserved q ≤
          Frame.reserved q (.dequeueScan queue limit timeout) := by
        rw [writeOr_reserved]
        exact hputs
      refine ⟨by omega, fun hpos => ?_, capped_of_job fun _ => ?_⟩
      · rw [(writeOr_shape tenant _ _ _ _).2]
        exact hf.locked (Nat.lt_of_lt_of_le hpos hres)
      · rw [(writeOr_shape tenant _ _ _ _).1]
        simp
    | _ => exact absurd (fun _ => by simp [job]) hjob

end Frame

/-! ## The cap -/

/-- A dequeue from `q` is a `dequeue_with_max_inflight` with `maxInflight`, and the queues that are
    dequeued from have no NUL in their names. -/
def CappedCall (q : String) (maxInflight : Nat) : Label Call StepInput → Prop
  | .call (.dequeueBatch queue _ _) => NulFree queue ∧ queue ≠ q
  | .call (.dequeueWithMaxInflight queue _ _ cap) => NulFree queue ∧ (queue = q → cap = maxInflight)
  | _ => True

theorem start_room {tenant q : String} {maxInflight : Nat} {s : Shared} {call : Call}
    (hcount : s.db.count .inflight (inQueue q) ≤ maxInflight) (hcall : CappedCall q maxInflight (.call call)) :
    (Frame.start tenant call).Room tenant q maxInflight s := by
  have hzero : ∀ {f : Frame}, f.Idle → (∀ queue, f.job ≠ .dequeue queue) → f.Room tenant q maxInflight s :=
    fun hidle hjob => .of_none hcount (Frame.reserved_of_idle hidle hjob) (Frame.capped_of_job hjob)
  cases call with
  | dequeueBatch queue limit timeout =>
    exact .of_none hcount rfl ⟨hcall.1, fun heq => absurd heq hcall.2⟩
  | dequeueWithMaxInflight queue limit timeout cap =>
    simp only [Frame.start]
    split
    · exact .of_none hcount rfl trivial
    · exact .of_none hcount rfl ⟨hcall.1, fun heq => congrArg some (hcall.2 heq)⟩
  | ackBatch keys =>
    refine hzero (Frame.start_idle tenant (.ackBatch keys)) fun queue => ?_
    rcases (Frame.nextAckLock_shape tenant keys [] (Frame.ackLockList tenant keys)).1 with heq | heq <;>
      simp [Frame.start, heq]
  | _ => exact hzero (Frame.start_idle tenant _) fun _ => by simp [Frame.start, Frame.job]

theorem room_outline {tenant q : String} {maxInflight : Nat} (hq : NulFree q) : Outline (system tenant)
    (fun c l => CappedCall q maxInflight l ∧ Holds (fun _ => True) (Frame.Holding tenant) (fun _ _ => True) c)
    (fun s => s.db.count .inflight (inQueue q) ≤ maxInflight) (fun s _ f => f.Room tenant q maxInflight s)
    fun _ _ => True where
  call h hok := start_room h.shared hok.1
  callApart _ := ⟨trivial, trivial⟩
  env h _ := ⟨h.shared, fun hf => ⟨hf.room, hf.locked, hf.capped⟩⟩
  own h _ hf hs := ⟨Nat.le_trans (Frame.step_count hs) (h.frames hf).room, Frame.step_room hq hs (h.frames hf)⟩
  others {c i f a s f' j g} h hok hf hs hij hg := by
    refine ⟨⟨?_, (h.frames hg).locked, (h.frames hg).capped⟩, trivial, trivial⟩
    have hroom := (h.frames hg).room
    have hroom' := (h.frames hf).room
    have hcount := Frame.step_count (q := q) hs
    -- Two calls that have records of the queue reserved would both hold its lock.
    have hone : Frame.reserved q f = 0 ∨ Frame.reserved q g = 0 := by
      by_contra hboth
      obtain ⟨hf₀, hg₀⟩ := not_or.mp hboth
      have hlf := (h.frames hf).locked (Nat.pos_of_ne_zero hf₀)
      have hlg := (h.frames hg).locked (Nat.pos_of_ne_zero hg₀)
      exact hij ((hok.2.frames hf).unique (hok.2.frames hg) hlf hlg)
    omega

/-- However the calls interleave, a queue whose dequeues all cap inflight at `maxInflight` never has
    more records inflight. -/
theorem inflight_le_cap {tenant q : String} {maxInflight : Nat} {s₀ : Shared} {c : Config Shared Frame}
    (hq : NulFree q) (hstart : s₀.db.countPrefix .inflight q ≤ maxInflight)
    (hrun : (system tenant).Run (fun _ l => CappedCall q maxInflight l) ⟨s₀, []⟩ c) :
    c.shared.db.countPrefix .inflight q ≤ maxInflight :=
  ((room_outline hq).run (locks_outline.strengthen hrun (.start trivial)) (.start hstart)).shared

/-- Two tasks are enqueued. One dequeue counts before the other gets the lock, and the second one finds
    the queue full until the first delivery is acknowledged. -/
def dequeueTogether : List (Label Call StepInput) :=
  [.call (.enqueueBatch "q" [[1], [2]] { NamespacePolicy.standard "t" with backlogQuota := none }), .run 0 {},
    .run 0 { id := "a" }, .run 0 { id := "b" }, .run 0 {}, .run 0 {},
    .call (.dequeueWithMaxInflight "q" 5 60000 1), .call (.dequeueWithMaxInflight "q" 5 60000 1),
    .run 1 {}, .run 1 {}, .run 1 { now := 1 }, .run 1 {}, .run 1 {}, .run 2 {}, .run 2 {}, .run 2 {}]

theorem inflight_le_cap_dequeueTogether :
    ∃ c, (system "t").exec ⟨.start 1, []⟩ dequeueTogether = some c ∧
      c.threads[2]? = some (.returned (.delivered [])) ∧ c.shared.db.countPrefix .inflight "q" ≤ 1 := by
  refine ⟨((system "t").exec ⟨.start 1, []⟩ dequeueTogether).get (by decide), (Option.some_get _).symm, by rfl, ?_⟩
  have hall : ∀ l ∈ dequeueTogether, CappedCall "q" 1 l := by
    have hname : NulFree "q" := by decide
    simp [dequeueTogether, CappedCall, hname]
  exact inflight_le_cap (by decide) (by decide) (Runs.run_of_exec_forall (Option.some_get _).symm hall)

end RocksQueue
