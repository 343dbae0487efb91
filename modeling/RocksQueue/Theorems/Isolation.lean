import RocksQueue.Theorems.Solo
import RocksQueue.Theorems.TaskIds

/-! # Isolation of queues

A task is stored under its own queue's prefix, whatever calls run (`keyed_outline`), and a call that is
addressed to a queue touches keys under that queue's prefix only (`Frame.Serves`). Two queues are isolated
exactly if neither prefix starts with the other (`isolated_iff`). -/

namespace RocksQueue
open Interleaving

/-! ## Keys of stored tasks -/

/-- The key belongs to the task's queue. -/
def KeyOf (k : Key) (x : Task) : Prop := ∃ s, k = encodeKey x.queue s

def KeyedDb (db : TenantDb) : Prop := ∀ c k x, db.get c k = some (.task x) → KeyOf k x

def KeyedPuts (b : WriteBatch) : Prop := ∀ c k x, .put c k (.task x) ∈ b → KeyOf k x

def Reply.Keyed (reply : Reply) : Prop := ∀ r ∈ reply.results, KeyOf r.1 r.2

/-- A moved task keeps its queue, and its key with it or gets a new one of the queue. -/
theorem Moved.keyOf {db : TenantDb} {now : Nat} {kind : WriteKind} {m : Move} (hall : AllTasks db) (hdb : KeyedDb db)
    (h : Moved db now kind m) : KeyOf m.newKey m.task := by
  cases h with
  | deliver hget =>
    obtain ⟨s, hs⟩ := hdb _ _ _ hget
    exact ⟨s, hs⟩
  | reclaim hget =>
    obtain ⟨s, hs⟩ := hdb _ _ _ hget
    exact ⟨s, hs⟩
  | retry => exact ⟨_, rfl⟩
  | deadLetter hget => exact hdb _ _ _ hget
  | replay => exact ⟨_, rfl⟩
  | poisonPending hget => exact absurd (hall hget) (by simp)
  | poisonInflight hkind hget => exact absurd (hall hget) (by simp)

theorem IsMoves.keyedPuts {db : TenantDb} {now : Nat} {kind : WriteKind} {b : WriteBatch} {ms : List Move} (hall : AllTasks db)
    (hdb : KeyedDb db) (hms : IsMoves b ms) (hmoved : ∀ m ∈ ms, Moved db now kind m) : KeyedPuts b := fun c k x hput => by
  obtain ⟨m, hm, -, rfl, htask⟩ := hms.mem_put.mp hput
  cases htask
  exact (hmoved m hm).keyOf hall hdb

namespace Frame
variable {db : TenantDb} {b b' : WriteBatch} {f : Frame} {reply : Reply}

/-- What the call is going to put, and what it returns, is under the key of its queue. -/
def Keyed : Frame → Prop
  | .evictWrite _ b => KeyedPuts b
  | .mint _ _ _ b _ => KeyedPuts b
  | .replayDraw _ _ _ b _ => KeyedPuts b
  | .write _ b _ reply => KeyedPuts b ∧ reply.Keyed
  | .unlock _ reply => reply.Keyed
  | .returned reply => reply.Keyed
  | _ => True

theorem keyedPuts_nil : KeyedPuts [] := fun _ _ _ hput => by cases hput

theorem keyedPuts_deletes {c : Cf} {keys : List Key} : KeyedPuts (deletes c keys) := fun _ _ _ hput =>
  absurd hput put_not_mem_deletes

theorem keyedPuts_append (h : KeyedPuts b) (h' : KeyedPuts b') : KeyedPuts (b ++ b') := fun c k x hput =>
  (List.mem_append.mp hput).elim (h c k x) (h' c k x)

theorem keyed_of_nil (h : reply.results = []) : reply.Keyed := fun r hr => by
  rw [h] at hr
  cases hr

theorem Idle.keyed (h : f.Idle) : f.Keyed := by
  cases f with
  | mint r now todo b ids =>
    obtain rfl : b = [] := h
    exact keyedPuts_nil
  | write kind b held reply =>
    obtain ⟨rfl, -, htasks⟩ := h
    exact ⟨keyedPuts_nil, keyed_of_nil htasks⟩
  | unlock held reply => exact keyed_of_nil h.2
  | returned reply => exact keyed_of_nil h.2
  | evictWrite r b => exact h.elim
  | nackDraw key task => exact h.elim
  | replayDraw key task todo b count => exact h.elim
  | _ => trivial

theorem Planned.keyed (hall : AllTasks db) (hdb : KeyedDb db) (h : Planned db f) : f.Keyed := by
  cases h with
  | evict => exact keyedPuts_deletes
  | ack => exact ⟨keyedPuts_deletes, keyed_of_nil rfl⟩
  | cumulativeAck => exact ⟨keyedPuts_deletes, keyed_of_nil rfl⟩
  | purge => exact ⟨keyedPuts_deletes, keyed_of_nil rfl⟩
  | deliver now hms hnodup hmoved hres =>
    refine ⟨hms.keyedPuts hall hdb fun m hm => (hmoved m hm).1, fun r hr => ?_⟩
    obtain ⟨m, hm, hkey, htask⟩ := hres r.1 r.2 hr
    exact hkey ▸ htask ▸ (hmoved m hm).1.keyOf hall hdb
  | move now hkind hms hnodup hmoved => exact ⟨hms.keyedPuts hall hdb fun m hm => (hmoved m hm).1, keyed_of_nil rfl⟩
  | retry => trivial
  | replay => exact keyedPuts_nil

theorem nextMint_keyed {tenant : String} {r : EnqueueRequest} {now : Nat} {todo : List Bytes} {ids : List String}
    (h : KeyedPuts b) : (nextMint tenant r now todo b ids).Keyed := by
  unfold nextMint
  split
  · exact ⟨h, keyed_of_nil rfl⟩
  · exact h

theorem nextReplay_keyed (count : Nat) (todo : List (Key × Value)) (h : KeyedPuts b) : (nextReplay b count todo).Keyed := by
  cases todo with
  | nil =>
    rcases writeOr_eq .replay b [] (.count count) with ⟨-, heq⟩ | ⟨-, heq⟩ <;> rw [nextReplay, heq]
    · exact keyed_of_nil rfl
    · exact ⟨h, keyed_of_nil rfl⟩
  | cons item todo =>
    obtain ⟨key, v⟩ := item
    cases v with
    | corrupt raw => exact keyed_of_nil rfl
    | task task => exact h

end Frame

theorem keyed_outline {tenant : String} : Outline (system tenant)
    (fun c _ => Holds Known Frame.Known Frame.Apart c) (fun s => KeyedDb s.db) (fun _ _ f => f.Keyed) fun _ _ => True where
  call _ _ := (Frame.start_idle _ _).keyed
  callApart _ := ⟨trivial, trivial⟩
  env h _ := ⟨h.shared, fun hf => hf⟩
  own {c i f a s f'} h hok hf hs := by
    have hkeyed := h.frames hf
    have hwrite : ∀ {b : WriteBatch}, KeyedPuts b → KeyedDb (c.shared.db.write b) := fun hputs cf k x hget => by
      rcases TenantDb.get_write hget with hput | ⟨hold, -⟩
      · exact hputs cf k x hput
      · exact h.shared cf k x hold
    cases Frame.step_effect hs with
    | quiet locks hidle => exact ⟨h.shared, hidle.keyed⟩
    | plan hplan => exact ⟨h.shared, hplan.keyed hok.shared.tasks h.shared⟩
    | unlock => exact ⟨h.shared, hkeyed⟩
    | @mint r now payload todo batch ids hnew =>
      -- The key is made from the queue of the task.
      refine ⟨h.shared, Frame.nextMint_keyed (Frame.keyedPuts_append hkeyed fun cf k x hput => ?_)⟩
      cases List.mem_singleton.mp hput
      exact ⟨_, rfl⟩
    | @retry key task =>
      refine ⟨h.shared, fun cf k x hput => ?_, Frame.keyed_of_nil rfl⟩
      obtain ⟨m, hm, -, rfl, htask⟩ := (retryBatch_moves key task c.shared.seq).mem_put.mp hput
      obtain rfl := List.mem_singleton.mp hm
      cases htask
      exact ⟨_, rfl⟩
    | @replay key task todo batch count =>
      refine ⟨h.shared, Frame.nextReplay_keyed _ _ (Frame.keyedPuts_append hkeyed fun cf k x hput => ?_)⟩
      obtain ⟨m, hm, -, rfl, htask⟩ := (replayOps_moves key task c.shared.seq).mem_put.mp hput
      obtain rfl := List.mem_singleton.mp hm
      cases htask
      exact ⟨_, rfl⟩
    | evict hidle => exact ⟨hwrite hkeyed, hidle.keyed⟩
    | write => exact ⟨hwrite hkeyed.1, hkeyed.2⟩
  others h _ _ _ _ hg := ⟨h.frames hg, trivial, trivial⟩

theorem known_of_reached {tenant : String} {c : Config Shared Frame} (h : Reached tenant c) :
    Holds Known Frame.Known Frame.Apart c := by
  have hknown : Outline (system tenant) (fun _ _ => True) Known Frame.Known Frame.Apart := known_outline
  induction h with
  | start now => exact known_start
  | step _ hn ih => exact hknown.next ih trivial hn
  | restart now _ ih => exact .start ⟨ih.shared.tasks, ih.shared.issued⟩

theorem keyed_of_reached {tenant : String} {c : Config Shared Frame} (h : Reached tenant c) :
    Holds (fun s => KeyedDb s.db) (fun _ _ f => f.Keyed) (fun _ _ => True) c := by
  induction h with
  | start now => exact .start fun cf k x hget => by simp [Shared.start] at hget
  | step hc hn ih => exact keyed_outline.next ih (known_of_reached hc) hn
  | restart now _ ih => exact .start ih.shared

/-! ## Addressed calls -/

/-- The queue that a call is addressed to. -/
def Call.addressee : Call → Option String
  | .enqueueBatch queue _ _ => some queue
  | .dequeueBatch queue _ _ => some queue
  | .dequeueWithMaxInflight queue _ _ _ => some queue
  | .cumulativeAck queue _ => some queue
  | .reapInflight queue => some queue
  | _ => none

/-- The batch touches keys of the queue only. -/
structure Confined (queue : String) (b : WriteBatch) : Prop where
  puts : ∀ c k v, .put c k v ∈ b → inQueue queue k = true
  deletes : ∀ c k, .delete c k ∈ b → inQueue queue k = true

/-- The reply returns records of the queue only. -/
def Reply.Confined (queue : String) (reply : Reply) : Prop := ∀ r ∈ reply.results, inQueue queue r.1 = true

section Batches
variable {queue : String} {b b' : WriteBatch} {db : TenantDb}

theorem Confined.nil : Confined queue [] where
  puts _ _ _ hmem := absurd hmem List.not_mem_nil
  deletes _ _ hmem := absurd hmem List.not_mem_nil

theorem Confined.append (h : Confined queue b) (h' : Confined queue b') : Confined queue (b ++ b') where
  puts c k v hmem := (List.mem_append.mp hmem).elim (h.puts c k v) (h'.puts c k v)
  deletes c k hmem := (List.mem_append.mp hmem).elim (h.deletes c k) (h'.deletes c k)

/-- Keys that a scan of the queue read. -/
theorem inQueue_of_scan {c : Cf} {keys : List Key} {k : Key} (hsub : keys.Sublist ((db.scanQueue c queue).map Prod.fst))
    (hk : k ∈ keys) : inQueue queue k = true := by
  obtain ⟨⟨k', v⟩, hmem, rfl⟩ := List.mem_map.mp (hsub.subset hk)
  exact (TenantDb.mem_scanQueue.mp hmem).2

theorem Confined.of_deletes {c c' : Cf} {keys : List Key}
    (hsub : keys.Sublist ((db.scanQueue c' queue).map Prod.fst)) : Confined queue (RocksQueue.deletes c keys) where
  puts _ _ _ hmem := absurd hmem put_not_mem_deletes
  deletes _ _ hmem := inQueue_of_scan hsub (mem_deletes.mp hmem).2

theorem Confined.of_moves {c : Cf} {ms : List Move} (hms : IsMoves b ms)
    (hsub : (ms.map Move.key).Sublist ((db.scanQueue c queue).map Prod.fst)) (hkeys : ∀ m ∈ ms, m.newKey = m.key) :
    Confined queue b where
  puts _ _ _ hmem := by
    obtain ⟨m, hm, -, rfl, -⟩ := hms.mem_put.mp hmem
    rw [hkeys m hm]
    exact inQueue_of_scan hsub (List.mem_map_of_mem hm)
  deletes _ _ hmem := by
    obtain ⟨m, hm, -, rfl⟩ := hms.mem_delete.mp hmem
    exact inQueue_of_scan hsub (List.mem_map_of_mem hm)

/-- What is not under the queue's prefix stays. -/
theorem Confined.spares (h : Confined queue b) {c : Cf} {k : Key} (hk : ¬inQueue queue k = true) :
    (db.write b).get c k = db.get c k :=
  TenantDb.get_write_of_untouched (fun v hmem => hk (h.puts c k v hmem)) fun hmem => hk (h.deletes c k hmem)

end Batches

namespace Frame
variable {tenant queue : String} {s s' : Shared} {i : Nat} {io : StepInput} {f f' : Frame}

/-- The frame is one of a call that is addressed to the queue. -/
def Serves (queue : String) : Frame → Prop
  | .enqueueLock r => r.queue = queue
  | .quotaPending r _ _ => r.queue = queue
  | .quotaInflight r _ _ _ => r.queue = queue
  | .quotaDlq r _ _ _ _ => r.queue = queue
  | .evictScan r _ => r.queue = queue
  | .evictWrite r b => r.queue = queue ∧ Confined queue b
  | .mint r _ _ b _ => r.queue = queue ∧ Confined queue b
  | .dequeueLock queue' _ _ _ => queue' = queue
  | .countInflight queue' _ _ _ => queue' = queue
  | .dequeueScan queue' _ _ => queue' = queue
  | .cumulativeScan queue' _ => queue' = queue
  | .reapScan queue' => queue' = queue
  | .write _ b _ reply => Confined queue b ∧ reply.Confined queue
  | .unlock _ reply => reply.Confined queue
  | .returned reply => reply.Confined queue
  | _ => False

theorem confined_of_nil {reply : Reply} (h : reply.results = []) : reply.Confined queue := fun r hr => by
  rw [h] at hr
  cases hr

theorem start_serves {call : Call} (h : call.addressee = some queue) : (Frame.start tenant call).Serves queue := by
  cases call with
  | dequeueWithMaxInflight queue' limit timeout maxInflight =>
    cases h
    simp only [Frame.start]
    split
    · exact confined_of_nil rfl
    · rfl
  | ackBatch keys => cases h
  | nack key => cases h
  | purgeDlq => cases h
  | replayDlq => cases h
  | _ =>
    cases h
    rfl

theorem beginMint_serves {r : EnqueueRequest} {now : Nat} (h : r.queue = queue) : (beginMint tenant r now).Serves queue := by
  unfold beginMint
  split
  · exact ⟨.nil, confined_of_nil rfl⟩
  · exact ⟨h, .nil⟩

theorem beginQuota_serves {r : EnqueueRequest} {now : Nat} (h : r.queue = queue) : (beginQuota tenant r now).Serves queue := by
  unfold beginQuota
  split
  · exact beginMint_serves h
  · exact h

theorem checkQuota_serves {r : EnqueueRequest} {quota current now : Nat} {deadline : Option Nat} (h : r.queue = queue) :
    (checkQuota tenant r quota deadline current now).Serves queue := by
  unfold checkQuota
  dsimp only
  split
  · split
    · exact beginMint_serves h
    · split
      · exact confined_of_nil rfl
      · exact h
  · split
    · split
      · exact confined_of_nil rfl
      · exact beginMint_serves h
    · exact h
    · split
      · exact h
      · exact beginMint_serves h

theorem beginDequeue_serves {limit timeout : Nat} : (beginDequeue tenant queue limit timeout).Serves queue := by
  unfold beginDequeue
  split
  · exact confined_of_nil rfl
  · rfl

theorem writeOr_serves {kind : WriteKind} {b : WriteBatch} {held : List Lock} {reply : Reply} (hb : Confined queue b)
    (hreply : reply.Confined queue) : (writeOr kind b held reply).Serves queue := by
  unfold writeOr
  split
  · exact hreply
  · exact ⟨hb, hreply⟩

/-- A dequeue writes and returns records that its scan read. -/
theorem deliver_confined {db : TenantDb} {limit timeout now : Nat} :
    Confined queue (deliver queue limit timeout now (db.scanQueue .pending queue)).batch ∧
      (Reply.delivered (deliver queue limit timeout now (db.scanQueue .pending queue)).results).Confined queue := by
  have hread : ∀ k v, (k, v) ∈ db.scanQueue .pending queue → db.get .pending k = some v :=
    fun _ _ hmem => (TenantDb.mem_scanQueue.mp hmem).1
  obtain ⟨ms, hms, hsub, hmoved, hres⟩ := dequeueLoop_moves queue now timeout limit hread
  have hkeys : ∀ m ∈ ms, m.newKey = m.key := fun m hm => (hmoved m hm).newKey_eq (Or.inl rfl)
  refine ⟨.of_moves hms hsub hkeys, fun r hr => ?_⟩
  have hr' : r ∈ (deliver queue limit timeout now (db.scanQueue .pending queue)).results := hr
  rw [deliver, hres] at hr'
  obtain ⟨m, hm, rfl⟩ := List.mem_map.mp hr'
  have hm := (List.mem_filter.mp hm).1
  rw [hkeys m hm]
  exact inQueue_of_scan hsub (List.mem_map_of_mem hm)

theorem reap_confined {db : TenantDb} {now : Nat} : Confined queue (reapLoop queue now (RocksQueue.reapScan db queue)) := by
  rw [reapScan_eq]
  have hread : ∀ k v, (k, v) ∈ db.scanQueue .inflight queue → db.get .inflight k = some v :=
    fun _ _ hmem => (TenantDb.mem_scanQueue.mp hmem).1
  obtain ⟨ms, hms, hsub, hmoved⟩ := reapLoop_moves queue now hread
  exact .of_moves hms hsub fun m hm => (hmoved m hm).newKey_eq (Or.inr rfl)

/-- A call goes on serving the queue that it is addressed to. -/
theorem step_serves (hf : f.Serves queue) (h : Frame.step tenant s i f io = some (s', f')) : f'.Serves queue := by
  cases stepped_of_step h with
  | enqueueLock => exact beginQuota_serves hf
  | quotaPending => exact hf
  | quotaInflight => exact hf
  | quotaDlq => exact checkQuota_serves hf
  | evictNothing => exact beginMint_serves hf
  | evictScan r =>
    -- What is evicted was scanned under the prefix of the queue.
    obtain rfl : r.queue = queue := hf
    rw [evictBatch_eq]
    exact ⟨rfl, .of_deletes ((List.take_sublist _ _).map _)⟩
  | evictWrite => exact beginMint_serves hf.1
  | mint r now payload todo b ids =>
    obtain ⟨rfl, hb⟩ := hf
    have hop : Confined r.queue [enqueueOp r.queue now s.seq payload io.id] :=
      { puts := fun c k v hmem => by
          cases List.mem_singleton.mp hmem
          exact inQueue_encodeKey _ _
        deletes := fun c k hmem => by cases List.mem_singleton.mp hmem }
    unfold nextMint
    split
    · exact ⟨hb.append hop, confined_of_nil rfl⟩
    · exact ⟨rfl, hb.append hop⟩
  | dequeueLock queue' =>
    obtain rfl : queue' = queue := hf
    exact beginDequeue_serves
  | cappedLock => exact hf
  | countFull => exact confined_of_nil rfl
  | countInflight queue' =>
    obtain rfl : queue' = queue := hf
    exact beginDequeue_serves
  | dequeueScan queue' =>
    obtain rfl : queue' = queue := hf
    exact writeOr_serves deliver_confined.1 deliver_confined.2
  | cumulativeScan queue' upToSeq =>
    obtain rfl : queue' = queue := hf
    obtain ⟨keys, hkeys, hsub⟩ := cumulativeLoop_eq upToSeq (s.db.scanQueue .inflight queue')
    exact writeOr_serves (hkeys ▸ .of_deletes hsub) (confined_of_nil rfl)
  | reapScan queue' =>
    obtain rfl : queue' = queue := hf
    exact writeOr_serves reap_confined (confined_of_nil rfl)
  | write => exact hf.2
  | unlock => exact hf
  | _ => exact hf.elim

/-- A step of a call that serves the queue leaves the keys of others alone. -/
theorem step_spares (hf : f.Serves queue) (h : Frame.step tenant s i f io = some (s', f')) {c : Cf} {k : Key}
    (hk : ¬inQueue queue k = true) : s'.db.get c k = s.db.get c k := by
  cases step_effect h with
  | evict => exact hf.2.spares hk
  | write => exact hf.1.spares hk
  | _ => rfl

end Frame

/-! ## Two queues -/

/-- Calls addressed to `queue` leave the records of `other` alone: in every state in which such a call takes
    a step, the records of `other` stay as they are; it returns no task of `other`; and the counts of
    `queue` do not depend on the records of `other`. -/
structure Spared (tenant queue other : String) : Prop where
  records : ∀ {call : Call} {a : StepInput} {c c' c'' : Config Shared Frame} {cf : Cf} {k : Key} {x : Task},
    Reached tenant c → call.addressee = some queue →
    (system tenant).Run (fun _ _ => True) ⟨c.shared, c.threads ++ [Frame.start tenant call]⟩ c' →
    (system tenant).next c' (.run c.threads.length a) = some c'' → x.queue = other →
    c'.shared.db.get cf k = some (.task x) → c''.shared.db.get cf k = some (.task x)
  replies : ∀ {call : Call} {reply : Reply} {c c' : Config Shared Frame} {r : Key × Task},
    Reached tenant c → call.addressee = some queue →
    (system tenant).Run (fun _ _ => True) ⟨c.shared, c.threads ++ [Frame.start tenant call]⟩ c' →
    c'.threads[c.threads.length]? = some (.returned reply) → r ∈ reply.results → r.2.queue ≠ other
  counts : ∀ {c : Config Shared Frame} {cf : Cf} {k : Key} {x : Task}, Reached tenant c → x.queue = other →
    c.shared.db.get cf k = some (.task x) → (c.shared.db.apply (.delete cf k)).depth queue = c.shared.db.depth queue

/-- No call addressed to one of the queues returns, counts, deletes or moves a record of the other. -/
def Isolated (tenant queue other : String) : Prop := Spared tenant queue other ∧ Spared tenant other queue

section Queues
variable {tenant queue other : String} {c c' : Config Shared Frame}

/-- A call in progress serves the queue that it was addressed to. -/
theorem serves_run {call : Call} (hcall : call.addressee = some queue)
    (hrun : (system tenant).Run (fun _ _ => True) ⟨c.shared, c.threads ++ [Frame.start tenant call]⟩ c') :
    ∃ f, c'.threads[c.threads.length]? = some f ∧ f.Serves queue := by
  refine hrun.invariant (I := fun c' => ∃ f, c'.threads[c.threads.length]? = some f ∧ f.Serves queue) ?_
    ⟨Frame.start tenant call, by simp, Frame.start_serves hcall⟩
  rintro d l d' ⟨f, hf, hserves⟩ - hn
  have hlen := (List.getElem?_eq_some_iff.mp hf).1
  cases l with
  | call k =>
    cases hn
    exact ⟨f, by rw [List.getElem?_append_left hlen, hf], hserves⟩
  | env =>
    cases hn
    exact ⟨f, hf, hserves⟩
  | run j a =>
    obtain ⟨g, s, g', hg, hs, rfl⟩ := System.next_run_inv hn
    by_cases hj : j = c.threads.length
    · subst hj
      obtain rfl := Option.some.inj (hf.symm.trans hg)
      exact ⟨g', by simp [hlen], Frame.step_serves hserves hs⟩
    · exact ⟨f, by rw [List.getElem?_set_ne hj, hf], hserves⟩

/-- A prefix of a key of another queue. -/
theorem prefix_or_of_keyOf {k : Key} {x : Task} (hk : KeyOf k x) (hin : inQueue queue k = true) :
    queuePrefix queue <+: queuePrefix x.queue ∨ queuePrefix x.queue <+: queuePrefix queue := by
  obtain ⟨s, rfl⟩ := hk
  exact List.prefix_or_prefix_of_prefix (inQueue_iff.mp hin) (List.prefix_append _ _)

theorem spared_of_apart (h : ¬queuePrefix queue <+: queuePrefix other) (h' : ¬queuePrefix other <+: queuePrefix queue) :
    Spared tenant queue other := by
  have hout : ∀ {k : Key} {x : Task}, KeyOf k x → x.queue = other → ¬inQueue queue k = true := by
    rintro k x hk rfl hin
    exact (prefix_or_of_keyOf hk hin).elim h h'
  have hreach : ∀ {call : Call} {c c' : Config Shared Frame}, Reached tenant c →
      (system tenant).Run (fun _ _ => True) ⟨c.shared, c.threads ++ [Frame.start tenant call]⟩ c' → Reached tenant c' :=
    fun {call c c'} hc hrun => (hc.step (l := .call call) rfl).run hrun
  refine ⟨?_, ?_, ?_⟩
  · intro call a c c' c'' cf k x hc hcall hrun hn hx hget
    obtain ⟨f, hf, hserves⟩ := serves_run hcall hrun
    obtain ⟨g, s, g', hg, hs, rfl⟩ := System.next_run_inv hn
    obtain rfl := Option.some.inj (hf.symm.trans hg)
    have hkey := (keyed_of_reached (hreach hc hrun)).shared cf k x hget
    exact (Frame.step_spares hserves hs (hout hkey hx)).trans hget
  · intro call reply c c' r hc hcall hrun hf hr hx
    obtain ⟨f, hf', hserves⟩ := serves_run hcall hrun
    obtain rfl := Option.some.inj (hf.symm.trans hf')
    have hkeyed := (keyed_of_reached (hreach hc hrun)).frames hf
    exact hout (hkeyed r hr) hx (hserves r hr)
  · intro c cf k x hc hx hget
    have hnot : ∀ c', ¬(c' = cf ∧ inQueue queue k = true ∧ c.shared.db.get cf k ≠ none) := fun c' hand =>
      hout ((keyed_of_reached hc).shared cf k x hget) hx hand.2.1
    have hcount : ∀ c', (c.shared.db.apply (.delete cf k)).countPrefix c' queue = c.shared.db.countPrefix c' queue := by
      intro c'
      have hdelete : (c.shared.db.apply (.delete cf k)).count c' (inQueue queue) + _ = c.shared.db.count c' (inQueue queue) :=
        TenantDb.count_apply_delete
      rwa [if_neg (hnot c'), Nat.add_zero] at hdelete
    simp only [TenantDb.depth, hcount]

/-- One task is enqueued to `queue`. -/
theorem reached_enqueued (tenant queue : String) : ∃ c k x, Reached tenant c ∧ x.queue = queue ∧
    c.shared.db.get .pending k = some (.task x) ∧ k = encodeKey queue 0 := by
  let r : EnqueueRequest := ⟨queue, [[]], { NamespacePolicy.standard tenant with backlogQuota := none }⟩
  have hsolo : (system tenant).Solo ([] : List Frame).length (.start 0)
      ((system tenant).start (.enqueueBatch r.queue r.payloads r.policy)) (afterEnqueue tenant 0 0 r ["a"] (.start 0))
      (.returned (.enqueued ["a"])) :=
    enqueue_solo rfl rfl (List.cons_ne_nil _ _) rfl (List.nodup_singleton _) (fun _ _ => List.not_mem_nil) (by decide)
  have hrun : (system tenant).Run (fun _ _ => True) ⟨.start 0, []⟩
      ⟨afterEnqueue tenant 0 0 r ["a"] (.start 0), [.returned (.enqueued ["a"])]⟩ :=
    System.Solo.call .refl trivial hsolo fun _ _ => trivial
  refine ⟨_, encodeKey queue 0, newTask queue [] "a" 0, .run (.start 0) hrun, rfl, ?_, rfl⟩
  simp [afterEnqueue, r, enqueueLoop, enqueueOp, Shared.start, TenantDb.get_apply_put, Task.serialize]

/-- The counts of a queue see what is enqueued to another whose prefix starts with its own. -/
theorem not_spared_of_prefix (h : queuePrefix queue <+: queuePrefix other) : ¬Spared tenant queue other := by
  intro hspared
  obtain ⟨c, k, x, hc, hx, hget, rfl⟩ := reached_enqueued tenant other
  have hin : inQueue queue (encodeKey other 0) = true := inQueue_iff.mpr (h.trans (List.prefix_append _ _))
  have hcount := congrArg Prod.fst (hspared.counts hc hx hget)
  have hdelete : (c.shared.db.apply (.delete .pending (encodeKey other 0))).count .pending (inQueue queue) + _ =
      c.shared.db.count .pending (inQueue queue) := TenantDb.count_apply_delete
  rw [if_pos ⟨rfl, hin, by rw [hget]; exact Option.some_ne_none _⟩] at hdelete
  simp only [TenantDb.depth, TenantDb.countPrefix_eq_count] at hcount
  omega

/-- Queues without a NUL in their names do not start with one another. -/
theorem not_prefix_of_nulFree (hq : NulFree queue) (ho : NulFree other) (hne : queue ≠ other) :
    ¬queuePrefix queue <+: queuePrefix other := fun h =>
  hne (Bytes.utf8_inj (Bytes.eq_of_prefix_of_prefix hq ho h List.prefix_rfl))

theorem isolated_of_nulFree (hq : NulFree queue) (ho : NulFree other) (hne : queue ≠ other) : Isolated tenant queue other :=
  ⟨spared_of_apart (not_prefix_of_nulFree hq ho hne) (not_prefix_of_nulFree ho hq hne.symm),
    spared_of_apart (not_prefix_of_nulFree ho hq hne.symm) (not_prefix_of_nulFree hq ho hne)⟩

/-- Two queues are isolated exactly if neither prefix starts with the other. -/
theorem isolated_iff : Isolated tenant queue other ↔
    ¬queuePrefix queue <+: queuePrefix other ∧ ¬queuePrefix other <+: queuePrefix queue := by
  constructor
  · rintro ⟨h, h'⟩
    exact ⟨fun hp => not_spared_of_prefix hp h, fun hp => not_spared_of_prefix hp h'⟩
  · rintro ⟨h, h'⟩
    exact ⟨spared_of_apart h h', spared_of_apart h' h⟩

/-- A queue whose name goes on after a NUL is not isolated from the one whose name ends there. -/
theorem not_isolated_nul : ¬Isolated "t" "mail" "mail\x00urgent" := fun h =>
  not_spared_of_prefix (List.isPrefixOf_iff_prefix.mp (by decide)) h.1

end Queues

end RocksQueue
