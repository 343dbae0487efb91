import RocksQueue.Lib.AckQueue
import RocksQueue.Theorems.Fifo

/-! # The queue that the calls implement

The records of a queue, seen as a queue with acknowledgements: the pending tasks wait in key order, the inflight tasks
are taken, and every write on the tenant is one action on it or none. So the enqueues, dequeues and acknowledgements on
any queues, interleaved in any way, are a run of the abstract queue (`queue_refines`). -/

namespace RocksQueue
open Interleaving

/-! ## The view -/

/-- The tasks among records. -/
def tasksOf (items : List (Key × Value)) : List (Key × Task) :=
  items.filterMap fun e => (Task.deserialize e.2).map (Prod.mk e.1)

/-- The keys that a batch deletes. -/
def deletedKeys (b : WriteBatch) : List Key :=
  b.filterMap fun
    | .delete _ k => some k
    | .put _ _ _ => none

/-- The keys under which tasks were delivered or evicted. -/
def Event.takesOut : Event → List Key
  | .wrote w =>
    match w.kind with
    | .dequeue => (w.reply.elim [] Reply.results).map Prod.fst
    | .evict => deletedKeys w.batch
    | _ => []
  | .minted _ _ _ => []

/-- The keys under which tasks were enqueued into a queue, in the order of the writes. -/
def enteredKeys (q : String) (s : Shared) : List Key := ((enqueued s).map Prod.fst).filter (inQueue q)

/-- The keys under which its tasks were delivered or evicted, in the order of the writes. -/
def leftKeys (q : String) (s : Shared) : List Key := (s.history.flatMap Event.takesOut).filter (inQueue q)

/-- The tasks of a queue that are pending, in key order. -/
def waitingTasks (q : String) (s : Shared) : List (Key × Task) := tasksOf (s.db.scanQueue .pending q)

/-- The task of a queue that is inflight under a key. -/
def inflightTask (q : String) (s : Shared) (k : Key) : Option Task :=
  if inQueue q k then (s.db.get .inflight k).bind Task.deserialize else none

def queueView (q : String) (s : Shared) : AckQueue Key Task where
  waiting := waitingTasks q s
  taken := inflightTask q s
  entered := enteredKeys q s
  left := leftKeys q s

/-- A producer, a consumer or an acknowledgement, on a queue without a NUL in its name. -/
def Call.exchanges : Call → Bool
  | .enqueueBatch queue _ _ => NulFree queue
  | .dequeueBatch queue _ _ => NulFree queue
  | .dequeueWithMaxInflight queue _ _ _ => NulFree queue
  | .ackBatch _ => true
  | .cumulativeAck _ _ => true
  | _ => false

/-- The call that begins is one of these, and the counter does not wrap. -/
def exchanging (c : Config Shared Frame) (l : Label Call StepInput) : Bool :=
  unwrapped c l && match l with
    | .call call => call.exchanges
    | _ => true

/-! ## What the calls are going to write -/

/-- The keys that were enqueued into a queue are in increasing order and below the counter, and what is pending is among
    them. -/
structure Numbered (q : String) (s : Shared) : Prop where
  keys : ∀ k ∈ enteredKeys q s, ∃ n, n < s.seq ∧ k = encodeKey q n
  sorted : (enteredKeys q s).Pairwise (· < ·)
  waits : ∀ e ∈ s.db.scanQueue .pending q, e.1 ∈ enteredKeys q s

/-- A batch that puts tasks into pending, behind all that entered. -/
def Appends (q : String) (s : Shared) (b : WriteBatch) : Prop :=
  ∃ news : List (Key × Task), b = (news.map fun e => .put .pending e.1 e.2.serialize) ∧
    (∀ e ∈ news, ∃ n, n < s.seq ∧ e.1 = encodeKey q n) ∧ news.Pairwise (fun a b => a.1 < b.1) ∧
    ∀ k ∈ enteredKeys q s, ∀ e ∈ news, k < e.1

/-- A batch that takes tasks from the front of the pending ones, and returns them. -/
def TakesFront (q : String) (s : Shared) (b : WriteBatch) (rs : List (Key × Task)) : Prop :=
  ∃ n deadline, rs = ((waitingTasks q s).take n).map (fun e => (e.1, e.2.delivered deadline)) ∧
    b = rs.flatMap fun r => deliverBatch r.1 r.2

/-- A batch that evicts the first pending records. -/
def Sheds (q : String) (s : Shared) (b : WriteBatch) : Prop :=
  ∃ n, b = deletes .pending (((s.db.scanQueue .pending q).take n).map Prod.fst)

namespace Frame

def exchangeWrites : List WriteKind := [.evict, .enqueue, .dequeue, .ack, .cumulativeAck]

/-- The queue of an enqueue or a dequeue has no NUL in its name. -/
def Named (f : Frame) : Prop :=
  match f.job with
  | .enqueue r => NulFree r.queue
  | .dequeue queue => NulFree queue
  | _ => True

/-- What the call is going to write is an action on its queue, whose lock it holds. -/
def Acts (tenant : String) (s : Shared) : Frame → Prop
  | .evictWrite r b => Sheds r.queue s b
  | .mint r _ _ b _ => Appends r.queue s b
  | .write .enqueue b held _ => b = [] ∨ ∃ q, NulFree q ∧ .queue (lockName tenant q) ∈ held ∧ Appends q s b
  | .write .dequeue b held reply =>
    (b = [] ∧ reply.results = []) ∨ ∃ q, NulFree q ∧ .queue (lockName tenant q) ∈ held ∧ TakesFront q s b reply.results
  | .write .evict b _ _ => b = []
  | .write .ack b _ _ => ∃ keys, b = deletes .inflight keys
  | .write .cumulativeAck b _ _ => ∃ keys, b = deletes .inflight keys
  | _ => True

structure InTurn (tenant : String) (s : Shared) (_ : Nat) (f : Frame) : Prop where
  named : f.Named
  writes : f.writes ⊆ exchangeWrites
  acts : f.Acts tenant s

end Frame

/-- A step that does not touch what waits in a queue. -/
structure Still (q : String) (s s' : Shared) : Prop where
  entered : enteredKeys q s' = enteredKeys q s
  pending : s'.db.scanQueue .pending q = s.db.scanQueue .pending q
  seq : s.seq ≤ s'.seq

/-! ## Records and tasks -/

section Tasks
variable {db : TenantDb} {b : WriteBatch} {items : List (Key × Value)} {c : Cf} {q : String} {n : Nat}

/-- Where all records are tasks, nothing is left out. -/
theorem tasksOf_records (h : ∀ e ∈ items, ∃ t, e.2 = .task t) :
    (tasksOf items).map (fun e => (e.1, e.2.serialize)) = items := by
  induction items with
  | nil => rfl
  | cons e items ih =>
    obtain ⟨k, v⟩ := e
    obtain ⟨t, rfl⟩ : ∃ t, v = .task t := h _ List.mem_cons_self
    have hrest := ih fun e he => h e (List.mem_cons_of_mem _ he)
    exact congrArg ((k, .task t) :: ·) hrest

theorem tasksOf_serialize (es : List (Key × Task)) : tasksOf (es.map fun e => (e.1, e.2.serialize)) = es := by
  induction es with
  | nil => rfl
  | cons e es ih => exact congrArg (e :: ·) ih

theorem tasksOf_append (items' : List (Key × Value)) : tasksOf (items ++ items') = tasksOf items ++ tasksOf items' :=
  List.filterMap_append

theorem tasksOf_drop (h : ∀ e ∈ items, ∃ t, e.2 = .task t) : tasksOf (items.drop n) = (tasksOf items).drop n := by
  conv_lhs => rw [← tasksOf_records h, ← List.map_drop]
  exact tasksOf_serialize _

theorem tasksOf_take (h : ∀ e ∈ items, ∃ t, e.2 = .task t) : tasksOf (items.take n) = (tasksOf items).take n := by
  conv_lhs => rw [← tasksOf_records h, ← List.map_take]
  exact tasksOf_serialize _

theorem tasksOf_keys (h : ∀ e ∈ items, ∃ t, e.2 = .task t) : (tasksOf items).map Prod.fst = items.map Prod.fst := by
  conv_rhs => rw [← tasksOf_records h, List.map_map]
  rfl

theorem mem_tasksOf {k : Key} {t : Task} : (k, t) ∈ tasksOf items ↔ (k, .task t) ∈ items := by
  simp only [tasksOf, List.mem_filterMap, Option.map_eq_some_iff]
  constructor
  · rintro ⟨⟨k', v⟩, hmem, t', hv, heq⟩
    cases v with
    | task t'' =>
      cases hv
      cases heq
      exact hmem
    | corrupt raw => cases hv
  · exact fun hmem => ⟨_, hmem, t, rfl, rfl⟩

/-- A delivery from records that are tasks is of the first ones. -/
theorem dequeueLoop_takes (queue : String) (now deadline limit : Nat) (h : ∀ e ∈ items, ∃ t, e.2 = .task t) :
    ∃ n, (dequeueLoop queue now deadline limit items).results =
      ((tasksOf items).take n).map fun e => (e.1, e.2.delivered deadline) := by
  induction items generalizing limit with
  | nil => exact ⟨0, rfl⟩
  | cons e items ih =>
    obtain ⟨k, v⟩ := e
    obtain ⟨t, rfl⟩ : ∃ t, v = .task t := h _ List.mem_cons_self
    by_cases hlimit : limit ≤ 1
    · refine ⟨1, ?_⟩
      simp [dequeueLoop, hlimit, Delivery.empty, tasksOf, Task.deserialize]
    · obtain ⟨n, hn⟩ := ih (limit - 1) fun e he => h e (List.mem_cons_of_mem _ he)
      refine ⟨n + 1, ?_⟩
      simp only [dequeueLoop, hlimit, if_false, hn]
      rfl

/-- A batch that deletes the first records of a scan and puts none into it leaves the others. -/
theorem scanQueue_write_drop (hput : ∀ k v, inQueue q k = true → .put c k v ∉ b)
    (hdel : ∀ k, inQueue q k = true → (.delete c k ∈ b ↔ k ∈ ((db.scanQueue c q).take n).map Prod.fst)) :
    (db.write b).scanQueue c q = (db.scanQueue c q).drop n := by
  have hsorted : (db.scanQueue c q).Pairwise fun a b => a.1 < b.1 := OrderedMap.scan_sorted
  refine OrderedMap.entries_eq OrderedMap.scan_sorted (hsorted.sublist (List.drop_sublist _ _)) fun ⟨k, v⟩ => ?_
  have happart : ∀ {k v}, (k, v) ∈ (db.scanQueue c q).drop n → k ∉ ((db.scanQueue c q).take n).map Prod.fst := by
    intro k v hmem hk
    obtain ⟨e, he, hkey⟩ := List.mem_map.mp hk
    rw [← List.take_append_drop n (db.scanQueue c q), List.pairwise_append] at hsorted
    have hlt : e.1 < k := hsorted.2.2 e he _ hmem
    exact absurd hkey hlt.ne
  constructor
  · intro hmem
    obtain ⟨hget, hin⟩ := TenantDb.mem_scanQueue.mp hmem
    obtain ⟨hold, hkept⟩ := (TenantDb.get_write hget).resolve_left (hput k v hin)
    have hscan : (k, v) ∈ db.scanQueue c q := TenantDb.mem_scanQueue.mpr ⟨hold, hin⟩
    rw [← List.take_append_drop n (db.scanQueue c q)] at hscan
    rcases List.mem_append.mp hscan with hfront | hrest
    · exact absurd ((hdel k hin).mpr (List.mem_map_of_mem hfront)) hkept
    · exact hrest
  · intro hmem
    obtain ⟨hget, hin⟩ := TenantDb.mem_scanQueue.mp (List.mem_of_mem_drop hmem)
    have hkept : .delete c k ∉ b := fun hin' => happart hmem ((hdel k hin).mp hin')
    obtain ⟨v', hget', hor⟩ := TenantDb.get_write_of_get hget hkept
    obtain rfl : v' = v := hor.resolve_right (hput k v' hin)
    exact TenantDb.mem_scanQueue.mpr ⟨hget', hin⟩

/-- A batch elsewhere leaves a scan as it is. -/
theorem scanQueue_write_same (hput : ∀ k v, inQueue q k = true → .put c k v ∉ b)
    (hdel : ∀ k, inQueue q k = true → .delete c k ∉ b) : (db.write b).scanQueue c q = db.scanQueue c q :=
  scanQueue_write_drop (n := 0) hput fun k hin => iff_of_false (hdel k hin) (by simp)

/-- A batch of puts behind all of a scan. -/
theorem scanQueue_write_append {news : List (Key × Task)} (hin : ∀ e ∈ news, inQueue q e.1 = true)
    (hsorted : news.Pairwise fun a b => a.1 < b.1) (habove : ∀ e ∈ db.scanQueue c q, ∀ e' ∈ news, e.1 < e'.1) :
    (db.write (news.map fun e => .put c e.1 e.2.serialize)).scanQueue c q =
      db.scanQueue c q ++ news.map fun e => (e.1, e.2.serialize) := by
  have hput : ∀ {k v}, .put c k v ∈ (news.map fun e => WriteOp.put c e.1 e.2.serialize) ↔
      (k, v) ∈ news.map fun e => (e.1, e.2.serialize) := by
    intro k v
    simp only [List.mem_map, WriteOp.put.injEq, true_and, Prod.mk.injEq]
  have hdel : ∀ {k}, .delete c k ∉ (news.map fun e => WriteOp.put c e.1 e.2.serialize) := by simp
  have hrecords : (news.map fun e => (e.1, e.2.serialize)).Pairwise fun a b => a.1 < b.1 := List.pairwise_map.mpr hsorted
  have hbehind : ∀ e ∈ db.scanQueue c q, ∀ e' ∈ news.map fun e => (e.1, e.2.serialize), e.1 < e'.1 := by
    intro e he e' he'
    obtain ⟨e₀, he₀, rfl⟩ := List.mem_map.mp he'
    exact habove e he e₀ he₀
  -- Both sides are sorted, so they agree once they have the same entries.
  refine OrderedMap.entries_eq OrderedMap.scan_sorted (List.pairwise_append.mpr ⟨OrderedMap.scan_sorted, hrecords, hbehind⟩)
    fun ⟨k, v⟩ => ?_
  rw [List.mem_append]
  constructor
  · intro hmem
    obtain ⟨hget, hin'⟩ := TenantDb.mem_scanQueue.mp hmem
    rcases TenantDb.get_write hget with hnew | ⟨hold, -⟩
    · exact Or.inr (hput.mp hnew)
    · exact Or.inl (TenantDb.mem_scanQueue.mpr ⟨hold, hin'⟩)
  · rintro (hold | hnew)
    · obtain ⟨hget, hin'⟩ := TenantDb.mem_scanQueue.mp hold
      obtain ⟨v', hget', rfl | hnew⟩ := TenantDb.get_write_of_get hget hdel
      · exact TenantDb.mem_scanQueue.mpr ⟨hget', hin'⟩
      -- An old key is below the new ones.
      · exact absurd (hbehind _ hold _ (hput.mp hnew)) (lt_irrefl k)
    · obtain ⟨v', hget', hnew'⟩ := TenantDb.get_write_of_put db (hput.mpr hnew) hdel
      have hnodup : ((news.map fun e => (e.1, e.2.serialize)).map Prod.fst).Nodup :=
        List.pairwise_map.mpr (hrecords.imp fun hlt => hlt.ne)
      have hv : (k, v') = (k, v) := List.inj_on_of_nodup_map hnodup (hput.mp hnew') hnew rfl
      cases hv
      obtain ⟨e, he, heq⟩ := List.mem_map.mp hnew
      cases heq
      exact TenantDb.mem_scanQueue.mpr ⟨hget', hin e he⟩

end Tasks

/-! ## What a write is to the queue -/

section Writes
variable {tenant q q' : String} {s s' : Shared} {i : Nat} {kind : WriteKind} {b : WriteBatch} {reply : Option Reply}
  {rs : List (Key × Task)} {k : Key}

/-- The key of a record of another queue. -/
theorem not_inQueue (hq : NulFree q) (hq' : NulFree q') (hne : q' ≠ q) (h : inQueue q' k = true) : ¬inQueue q k = true :=
  fun hin => hne (queue_unique hq' hq h hin)

theorem enteredKeys_write : enteredKeys q (s.write i kind b reply) =
    enteredKeys q s ++ if kind = .enqueue then ((putPairs b).map Prod.fst).filter (inQueue q) else [] := by
  rw [enteredKeys, enqueued_write, List.map_append, List.filter_append]
  split <;> rfl

theorem enteredKeys_write_of_ne (h : kind ≠ .enqueue) : enteredKeys q (s.write i kind b reply) = enteredKeys q s := by
  rw [enteredKeys_write, if_neg h, List.append_nil]

theorem leftKeys_write : leftKeys q (s.write i kind b reply) =
    leftKeys q s ++ (Event.takesOut (.wrote ⟨i, kind, b, s.db, reply⟩)).filter (inQueue q) := by
  rw [leftKeys, leftKeys, ← List.filter_append]
  simp only [Shared.write, List.flatMap_append, List.flatMap_singleton]

theorem inflightTask_congr (h : inQueue q k = true → s'.db.get .inflight k = s.db.get .inflight k) :
    inflightTask q s' k = inflightTask q s k := by
  simp only [inflightTask]
  split
  · rename_i hin
    rw [h hin]
  · rfl

theorem Appends.mem_put (h : Appends q s b) {op : WriteOp} (hop : op ∈ b) :
    ∃ n t, op = .put .pending (encodeKey q n) (.task t) := by
  obtain ⟨news, rfl, hkeys, -⟩ := h
  obtain ⟨e, he, rfl⟩ := List.mem_map.mp hop
  obtain ⟨n, -, hn⟩ := hkeys e he
  exact ⟨n, e.2, by rw [hn]; rfl⟩

theorem TakesFront.of_mem (h : TakesFront q s b rs) {r : Key × Task} (hr : r ∈ rs) : inQueue q r.1 = true := by
  obtain ⟨n, deadline, rfl, -⟩ := h
  obtain ⟨e, he, rfl⟩ := List.mem_map.mp hr
  exact (TenantDb.mem_scanQueue.mp (mem_tasksOf.mp (List.mem_of_mem_take he))).2

theorem mem_deliver_put {c : Cf} {v : Value} :
    .put c k v ∈ (rs.flatMap fun r => deliverBatch r.1 r.2) ↔ c = .inflight ∧ ∃ t, v = .task t ∧ (k, t) ∈ rs := by
  rw [List.mem_flatMap]
  constructor
  · rintro ⟨r, hr, hop⟩
    simp only [deliverBatch, List.mem_cons, reduceCtorEq, List.not_mem_nil, or_false, false_or, WriteOp.put.injEq] at hop
    obtain ⟨rfl, rfl, rfl⟩ := hop
    exact ⟨rfl, r.2, rfl, hr⟩
  · rintro ⟨rfl, t, rfl, hmem⟩
    exact ⟨_, hmem, by simp [deliverBatch, Task.serialize]⟩

theorem mem_deliver_delete {c : Cf} :
    .delete c k ∈ (rs.flatMap fun r => deliverBatch r.1 r.2) ↔ c = .pending ∧ k ∈ rs.map Prod.fst := by
  rw [List.mem_flatMap, List.mem_map]
  constructor
  · rintro ⟨r, hr, hop⟩
    simp only [deliverBatch, List.mem_cons, reduceCtorEq, List.not_mem_nil, or_false, WriteOp.delete.injEq] at hop
    obtain ⟨rfl, rfl⟩ := hop
    exact ⟨rfl, r, hr, rfl⟩
  · rintro ⟨rfl, r, hr, rfl⟩
    exact ⟨r, hr, List.mem_cons_self⟩

/-- Delivered tasks are inflight, the others are as they were. -/
theorem inflightTask_deliver {front : List (Key × Task)} {deadline : Nat} (hnodup : (front.map Prod.fst).Nodup)
    (hin : ∀ e ∈ front, inQueue q e.1 = true)
    (hrs : rs = front.map fun e => (e.1, e.2.delivered deadline))
    (hdb : s'.db = s.db.write (rs.flatMap fun r => deliverBatch r.1 r.2)) :
    inflightTask q s' k = ((AckQueue.lookup front k).map fun t => t.delivered deadline).or (inflightTask q s k) := by
  have hmem : ∀ t, (k, t) ∈ rs ↔ ∃ t₀, (k, t₀) ∈ front ∧ t₀.delivered deadline = t := by
    intro t
    rw [hrs, List.mem_map]
    constructor
    · rintro ⟨e, he, heq⟩
      cases heq
      exact ⟨e.2, he, rfl⟩
    · rintro ⟨t₀, hmem, rfl⟩
      exact ⟨_, hmem, rfl⟩
  have hdel : .delete .inflight k ∉ (rs.flatMap fun r => deliverBatch r.1 r.2) := fun hop =>
    Cf.noConfusion (mem_deliver_delete.mp hop).1
  cases hlook : AckQueue.lookup front k with
  | some t =>
    have hfront := AckQueue.mem_of_lookup hlook
    obtain ⟨v, hget, hput⟩ := TenantDb.get_write_of_put s.db
      (mem_deliver_put.mpr ⟨rfl, _, rfl, (hmem _).mpr ⟨t, hfront, rfl⟩⟩) hdel
    obtain ⟨-, t', rfl, hmem'⟩ := mem_deliver_put.mp hput
    obtain ⟨t₀, hfront', rfl⟩ := (hmem t').mp hmem'
    have hlook' := AckQueue.lookup_of_mem hnodup hfront'
    rw [hlook, Option.some.injEq] at hlook'
    simp only [inflightTask, hin _ hfront, if_true, hdb, hget, hlook']
    rfl
  | none =>
    refine inflightTask_congr fun _ => ?_
    rw [hdb]
    refine TenantDb.get_write_of_untouched (fun v hput => ?_) hdel
    obtain ⟨-, t', rfl, hmem'⟩ := mem_deliver_put.mp hput
    obtain ⟨t₀, hfront, -⟩ := (hmem t').mp hmem'
    rw [AckQueue.lookup_of_mem hnodup hfront] at hlook
    cases hlook

/-- What the write is to a queue: nothing, or one action. -/
def Acted (q : String) (s s' : Shared) : Prop :=
  queueView q s' = queueView q s ∨ ∃ a, (queueView q s).next a = some (queueView q s')

/-- A step that leaves the records and what was written alone. -/
theorem acted_of_same (hdb : s'.db = s.db) (henq : enqueued s' = enqueued s)
    (hout : s'.history.flatMap Event.takesOut = s.history.flatMap Event.takesOut) : Acted q s s' := by
  have hinflight : inflightTask q s' = inflightTask q s := funext fun k => inflightTask_congr fun _ => by rw [hdb]
  left
  simp only [queueView, waitingTasks, hinflight, enteredKeys, leftKeys, hdb, henq, hout]

/-- A batch that does not touch the records of a queue. -/
def Elsewhere (q : String) (b : WriteBatch) : Prop :=
  ∀ c k, inQueue q k = true → (∀ v, .put c k v ∉ b) ∧ .delete c k ∉ b

theorem Elsewhere.still (h : Elsewhere q b) : Still q s (s.write i kind b reply) where
  entered := by
    rw [enteredKeys_write]
    split
    · rw [List.filter_eq_nil_iff.mpr, List.append_nil]
      intro k hk hin
      obtain ⟨p, hp, rfl⟩ := List.mem_map.mp hk
      obtain ⟨c, t, hput, -⟩ := mem_putPairs.mp hp
      exact (h c p.1 hin).1 _ hput
    · exact List.append_nil _
  pending := scanQueue_write_same (fun k v hin => (h .pending k hin).1 v) fun k hin => (h .pending k hin).2
  seq := Nat.le_refl _

theorem Elsewhere.acted (h : Elsewhere q b)
    (hout : ∀ k ∈ Event.takesOut (.wrote ⟨i, kind, b, s.db, reply⟩), ¬inQueue q k = true) :
    Acted q s (s.write i kind b reply) := by
  have hstill : Still q s (s.write i kind b reply) := h.still
  have hinflight : inflightTask q (s.write i kind b reply) = inflightTask q s :=
    funext fun k => inflightTask_congr fun hin => TenantDb.get_write_of_untouched (h .inflight k hin).1 (h .inflight k hin).2
  have hleft : leftKeys q (s.write i kind b reply) = leftKeys q s := by
    rw [leftKeys_write, List.filter_eq_nil_iff.mpr hout, List.append_nil]
  left
  rw [queueView, queueView, waitingTasks, waitingTasks, hstill.pending, hinflight, hstill.entered, hleft]

theorem Appends.elsewhere (hb : Appends q' s b) (hq : NulFree q) (hq' : NulFree q') (hne : q' ≠ q) : Elsewhere q b := by
  refine fun c k hin => ⟨fun v hop => ?_, fun hop => ?_⟩
  · obtain ⟨n, t, heq⟩ := hb.mem_put hop
    cases heq
    exact not_inQueue hq hq' hne (inQueue_encodeKey q' n) hin
  · obtain ⟨n, t, heq⟩ := hb.mem_put hop
    cases heq

theorem TakesFront.elsewhere (hb : TakesFront q' s b rs) (hq : NulFree q) (hq' : NulFree q') (hne : q' ≠ q) :
    Elsewhere q b := by
  have hin' : ∀ {r}, r ∈ rs → inQueue q' r.1 = true := hb.of_mem
  obtain ⟨n, deadline, -, rfl⟩ := hb
  refine fun c k hin => ⟨fun v hop => ?_, fun hop => ?_⟩
  · obtain ⟨-, t, -, hmem⟩ := mem_deliver_put.mp hop
    exact not_inQueue hq hq' hne (hin' hmem) hin
  · obtain ⟨r, hr, rfl⟩ := List.mem_map.mp (mem_deliver_delete.mp hop).2
    exact not_inQueue hq hq' hne (hin' hr) hin

theorem Sheds.of_mem (hb : Sheds q s b) {c : Cf} (hop : .delete c k ∈ b) : inQueue q k = true := by
  obtain ⟨n, rfl⟩ := hb
  obtain ⟨e, he, rfl⟩ := List.mem_map.mp (mem_deletes.mp hop).2
  exact (TenantDb.mem_scanQueue.mp (List.mem_of_mem_take he)).2

theorem Sheds.elsewhere (hb : Sheds q' s b) (hq : NulFree q) (hq' : NulFree q') (hne : q' ≠ q) : Elsewhere q b := by
  refine fun c k hin => ⟨fun v hop => ?_, fun hop => not_inQueue hq hq' hne (hb.of_mem hop) hin⟩
  obtain ⟨n, rfl⟩ := hb
  exact put_not_mem_deletes hop

theorem Numbered.of_still (h : Numbered q s) (hs : Still q s s') : Numbered q s' where
  keys k hk := by
    obtain ⟨n, hn, heq⟩ := h.keys k (hs.entered ▸ hk)
    exact ⟨n, Nat.lt_of_lt_of_le hn hs.seq, heq⟩
  sorted := hs.entered ▸ h.sorted
  waits e he := by
    rw [hs.pending] at he
    exact hs.entered ▸ h.waits e he

/-- A write that only takes pending records away. -/
theorem Numbered.drop {n : Nat} (h : Numbered q s) (hkind : kind ≠ .enqueue)
    (hscan : (s.db.write b).scanQueue .pending q = (s.db.scanQueue .pending q).drop n) :
    Numbered q (s.write i kind b reply) := by
  have hentered : enteredKeys q (s.write i kind b reply) = enteredKeys q s := enteredKeys_write_of_ne hkind
  refine ⟨?_, ?_, fun e he => ?_⟩
  · rw [hentered]
    exact h.keys
  · rw [hentered]
    exact h.sorted
  · have he' : e ∈ (s.db.write b).scanQueue .pending q := he
    rw [hscan] at he'
    rw [hentered]
    exact h.waits e (List.mem_of_mem_drop he')

/-- An enqueue enters its tasks behind all others. -/
theorem Appends.acted (hn : Numbered q s) (hb : Appends q s b) :
    Acted q s (s.write i .enqueue b reply) ∧ Numbered q (s.write i .enqueue b reply) := by
  obtain ⟨news, rfl, hkeys, hsorted, habove⟩ := hb
  have hin : ∀ k ∈ news.map Prod.fst, inQueue q k = true := fun k hk => by
    obtain ⟨e, he, rfl⟩ := List.mem_map.mp hk
    obtain ⟨n, -, hkey⟩ := hkeys e he
    rw [hkey]
    exact inQueue_encodeKey q n
  -- The new keys are above all that wait, so the scan finds them last.
  have hscan : (s.write i .enqueue (news.map fun e => .put .pending e.1 e.2.serialize) reply).db.scanQueue .pending q =
      s.db.scanQueue .pending q ++ news.map fun e => (e.1, e.2.serialize) :=
    scanQueue_write_append (fun e he => hin e.1 (List.mem_map_of_mem he)) hsorted
      fun e he e' he' => habove e.1 (hn.waits e he) e' he'
  have hpairs : (putPairs (news.map fun e => .put .pending e.1 e.2.serialize)).map Prod.fst = news.map Prod.fst := by
    rw [putPairs, List.filterMap_map, List.map_filterMap]
    exact congrFun List.filterMap_eq_map news
  -- Nothing inflight changes, and nothing leaves.
  have hinflight : inflightTask q (s.write i .enqueue (news.map fun e => .put .pending e.1 e.2.serialize) reply) =
      inflightTask q s :=
    funext fun k => inflightTask_congr fun _ => TenantDb.get_write_of_untouched (by simp) (by simp)
  have hwaiting : waitingTasks q (s.write i .enqueue (news.map fun e => .put .pending e.1 e.2.serialize) reply) =
      waitingTasks q s ++ news := by
    rw [waitingTasks, hscan, tasksOf_append, tasksOf_serialize, waitingTasks]
  have hentered : enteredKeys q (s.write i .enqueue (news.map fun e => .put .pending e.1 e.2.serialize) reply) =
      enteredKeys q s ++ news.map Prod.fst := by
    rw [enteredKeys_write, if_pos rfl, hpairs, List.filter_eq_self.mpr hin]
  have hleft : leftKeys q (s.write i .enqueue (news.map fun e => .put .pending e.1 e.2.serialize) reply) = leftKeys q s := by
    rw [leftKeys_write]
    exact List.append_nil _
  refine ⟨Or.inr ⟨.enter news, ?_⟩, fun k hk => ?_, ?_, fun e he => ?_⟩
  · simp only [AckQueue.next, queueView, hwaiting, hinflight, hentered, hleft]
  · rw [hentered] at hk
    rcases List.mem_append.mp hk with hk | hk
    · exact hn.keys k hk
    · obtain ⟨e, he, rfl⟩ := List.mem_map.mp hk
      exact hkeys e he
  · rw [hentered]
    refine List.pairwise_append.mpr ⟨hn.sorted, List.pairwise_map.mpr hsorted, fun k hk k' hk' => ?_⟩
    obtain ⟨e, he, rfl⟩ := List.mem_map.mp hk'
    exact habove k hk e he
  · rw [hscan] at he
    rw [hentered]
    rcases List.mem_append.mp he with he | he
    · exact List.mem_append_left _ (hn.waits e he)
    · obtain ⟨e', he', rfl⟩ := List.mem_map.mp he
      exact List.mem_append_right _ (List.mem_map_of_mem he')

/-- A dequeue takes what waits in front. -/
theorem TakesFront.acted {r : Reply} (hn : Numbered q s) (hall : AllTasks s.db) (hb : TakesFront q s b r.results) :
    Acted q s (s.write i .dequeue b (some r)) ∧ Numbered q (s.write i .dequeue b (some r)) := by
  have htasks : ∀ e ∈ s.db.scanQueue .pending q, ∃ t, e.2 = .task t := fun e he => hall (TenantDb.mem_scanQueue.mp he).1
  have hin : ∀ k ∈ r.results.map Prod.fst, inQueue q k = true := fun k hk => by
    obtain ⟨r', hr', rfl⟩ := List.mem_map.mp hk
    exact hb.of_mem hr'
  obtain ⟨n, deadline, hrs, rfl⟩ := hb
  have hkeys : r.results.map Prod.fst = ((waitingTasks q s).take n).map Prod.fst := by rw [hrs, List.map_map]; rfl
  have hscan : (s.db.write (r.results.flatMap fun r => deliverBatch r.1 r.2)).scanQueue .pending q =
      (s.db.scanQueue .pending q).drop n := by
    refine scanQueue_write_drop (fun k v _ hop => Cf.noConfusion (mem_deliver_put.mp hop).1) fun k _ => ?_
    rw [mem_deliver_delete, hkeys, waitingTasks, ← tasksOf_take htasks,
      tasksOf_keys fun e he => htasks e (List.mem_of_mem_take he)]
    exact and_iff_right rfl
  have hnodup : ((waitingTasks q s).map Prod.fst).Nodup := by
    rw [waitingTasks, tasksOf_keys htasks]
    exact TenantDb.scanQueue_keys_nodup
  have hfront : (((waitingTasks q s).take n).map Prod.fst).Nodup := hnodup.sublist ((List.take_sublist _ _).map _)
  -- What is taken is inflight, as it was delivered.
  have hinflight : inflightTask q (s.write i .dequeue (r.results.flatMap fun r => deliverBatch r.1 r.2) (some r)) =
      fun k => ((AckQueue.lookup ((waitingTasks q s).take n) k).map fun t => t.delivered deadline).or (inflightTask q s k) :=
    funext fun k => inflightTask_deliver hfront (fun e he => hin _ (hkeys ▸ List.mem_map_of_mem he)) hrs rfl
  have hwaiting : waitingTasks q (s.write i .dequeue (r.results.flatMap fun r => deliverBatch r.1 r.2) (some r)) =
      (waitingTasks q s).drop n := by
    rw [waitingTasks, waitingTasks, ← tasksOf_drop htasks, ← hscan]
    rfl
  have hleft : leftKeys q (s.write i .dequeue (r.results.flatMap fun r => deliverBatch r.1 r.2) (some r)) =
      leftKeys q s ++ ((waitingTasks q s).take n).map Prod.fst := by
    rw [leftKeys_write, ← hkeys]
    exact congrArg _ (List.filter_eq_self.mpr hin)
  refine ⟨Or.inr ⟨.take n fun t => t.delivered deadline, ?_⟩, hn.drop (by simp) hscan⟩
  simp only [AckQueue.next, queueView, hwaiting, hinflight, enteredKeys_write_of_ne (show WriteKind.dequeue ≠ .enqueue by simp),
    hleft]

/-- An eviction sheds what waits in front. -/
theorem Sheds.acted (hn : Numbered q s) (hall : AllTasks s.db) (hb : Sheds q s b) :
    Acted q s (s.write i .evict b none) ∧ Numbered q (s.write i .evict b none) := by
  have htasks : ∀ e ∈ s.db.scanQueue .pending q, ∃ t, e.2 = .task t := fun e he => hall (TenantDb.mem_scanQueue.mp he).1
  obtain ⟨n, rfl⟩ := hb
  have hscan : (s.db.write (deletes .pending (((s.db.scanQueue .pending q).take n).map Prod.fst))).scanQueue .pending q =
      (s.db.scanQueue .pending q).drop n :=
    scanQueue_write_drop (fun k v _ => put_not_mem_deletes) fun k _ => mem_deletes.trans (and_iff_right rfl)
  have hkeys : ((s.db.scanQueue .pending q).take n).map Prod.fst = ((waitingTasks q s).take n).map Prod.fst := by
    rw [waitingTasks, ← tasksOf_take htasks, tasksOf_keys fun e he => htasks e (List.mem_of_mem_take he)]
  have hinflight :
      inflightTask q (s.write i .evict (deletes .pending (((s.db.scanQueue .pending q).take n).map Prod.fst)) none) =
        inflightTask q s :=
    funext fun k => inflightTask_congr fun _ =>
      TenantDb.get_write_of_untouched (fun v => put_not_mem_deletes) fun hop => Cf.noConfusion (mem_deletes.mp hop).1
  have hwaiting :
      waitingTasks q (s.write i .evict (deletes .pending (((s.db.scanQueue .pending q).take n).map Prod.fst)) none) =
        (waitingTasks q s).drop n := by
    rw [waitingTasks, waitingTasks, ← tasksOf_drop htasks, ← hscan]
    rfl
  -- What is evicted leaves the queue for good, and goes nowhere.
  have hdeleted : ∀ keys : List Key, deletedKeys (deletes .pending keys) = keys := fun keys => by
    rw [deletedKeys, deletes, List.filterMap_map]
    exact List.filterMap_some
  have hleft : leftKeys q (s.write i .evict (deletes .pending (((s.db.scanQueue .pending q).take n).map Prod.fst)) none) =
      leftKeys q s ++ ((waitingTasks q s).take n).map Prod.fst := by
    rw [leftKeys_write, ← hkeys]
    refine congrArg _ ?_
    simp only [Event.takesOut, hdeleted]
    refine List.filter_eq_self.mpr fun k hk => ?_
    obtain ⟨e, he, rfl⟩ := List.mem_map.mp hk
    exact (TenantDb.mem_scanQueue.mp (List.mem_of_mem_take he)).2
  refine ⟨Or.inr ⟨.shed n, ?_⟩, hn.drop (by simp) hscan⟩
  simp only [AckQueue.next, queueView, hwaiting, hinflight, enteredKeys_write_of_ne (show WriteKind.evict ≠ .enqueue by simp),
    hleft]

/-- An acknowledgement settles. -/
theorem acted_settle {keys : List Key} (hkind : kind = .ack ∨ kind = .cumulativeAck) :
    Acted q s (s.write i kind (deletes .inflight keys) reply) ∧
      Still q s (s.write i kind (deletes .inflight keys) reply) := by
  have hscan : (s.db.write (deletes .inflight keys)).scanQueue .pending q = s.db.scanQueue .pending q :=
    scanQueue_write_same (fun k v _ => put_not_mem_deletes) fun k _ hop => Cf.noConfusion (mem_deletes.mp hop).1
  have hinflight : inflightTask q (s.write i kind (deletes .inflight keys) reply) =
      fun k => if k ∈ keys then none else inflightTask q s k := by
    funext k
    by_cases hk : k ∈ keys
    -- An acknowledged key is no longer inflight.
    · have hnone : (s.db.write (deletes .inflight keys)).get .inflight k = none := by
        rw [Option.eq_none_iff_forall_not_mem]
        intro v hv
        rcases TenantDb.get_write hv with hput | ⟨-, hdel⟩
        · exact put_not_mem_deletes hput
        · exact hdel (mem_deletes.mpr ⟨rfl, hk⟩)
      simp only [inflightTask, Shared.write, hnone, hk, if_true]
      split <;> rfl
    · rw [if_neg hk]
      exact inflightTask_congr fun _ =>
        TenantDb.get_write_of_untouched (fun v => put_not_mem_deletes) fun hop => hk (mem_deletes.mp hop).2
  have hwaiting : waitingTasks q (s.write i kind (deletes .inflight keys) reply) = waitingTasks q s := congrArg tasksOf hscan
  have hentered : enteredKeys q (s.write i kind (deletes .inflight keys) reply) = enteredKeys q s :=
    enteredKeys_write_of_ne (by rcases hkind with rfl | rfl <;> simp)
  have hleft : leftKeys q (s.write i kind (deletes .inflight keys) reply) = leftKeys q s := by
    rw [leftKeys_write]
    rcases hkind with rfl | rfl <;> exact List.append_nil _
  refine ⟨Or.inr ⟨.settle keys, ?_⟩, hentered, hscan, Nat.le_refl _⟩
  simp only [AckQueue.next, queueView, hwaiting, hinflight, hentered, hleft]
  congr 2
  funext k
  by_cases hk : k ∈ keys
  · rw [if_pos hk, if_pos hk]
  · rw [if_neg hk, if_neg hk]

end Writes

/-! ## The step -/

section Steps
variable {tenant q q' : String} {s s' : Shared} {i : Nat} {io : StepInput} {kind : WriteKind} {b : WriteBatch}
  {held : List Lock} {reply : Reply} {rs : List (Key × Task)} {f f' g : Frame}

theorem appends_nil : Appends q s [] :=
  ⟨[], rfl, by simp, List.Pairwise.nil, by simp⟩

theorem Appends.mono (hb : Appends q s b) (h : Still q s s') : Appends q s' b := by
  obtain ⟨news, rfl, hkeys, hsorted, habove⟩ := hb
  refine ⟨news, rfl, fun e he => ?_, hsorted, h.entered ▸ habove⟩
  obtain ⟨n, hn, hkey⟩ := hkeys e he
  exact ⟨n, Nat.lt_of_lt_of_le hn h.seq, hkey⟩

theorem TakesFront.mono (hb : TakesFront q s b rs) (h : Still q s s') : TakesFront q s' b rs := by
  obtain ⟨n, deadline, hrs, hbatch⟩ := hb
  refine ⟨n, deadline, ?_, hbatch⟩
  rw [waitingTasks, h.pending]
  exact hrs

theorem Sheds.mono (hb : Sheds q s b) (h : Still q s s') : Sheds q s' b := by
  obtain ⟨n, hn⟩ := hb
  exact ⟨n, h.pending ▸ hn⟩

/-- One more task behind those of the batch. -/
theorem Appends.mint {now : Nat} {payload : Bytes} {id : String} (hb : Appends q s b) (hn : Numbered q s)
    (hseq : s.seq + 1 < u64Size) (hnext : s'.seq = nextSeq s.seq) (henq : enqueued s' = enqueued s) :
    Appends q s' (b ++ [enqueueOp q now s.seq payload id]) := by
  obtain ⟨news, rfl, hkeys, hsorted, habove⟩ := hb
  have hnext' : s'.seq = s.seq + 1 := hnext.trans (Nat.mod_eq_of_lt hseq)
  have hentered : enteredKeys q s' = enteredKeys q s := by rw [enteredKeys, henq, enteredKeys]
  have hbelow : ∀ e ∈ news, e.1 < encodeKey q s.seq := fun e he => by
    obtain ⟨n, hn, hkey⟩ := hkeys e he
    rw [hkey]
    exact encodeKey_lt (by omega) hn
  refine ⟨news ++ [(encodeKey q s.seq, ⟨id, q, payload, now, 0, 0⟩)], ?_, fun e he => ?_, ?_, fun k hk e he => ?_⟩
  · rw [List.map_append]
    rfl
  · rcases List.mem_append.mp he with he | he
    · obtain ⟨n, hn, hkey⟩ := hkeys e he
      exact ⟨n, by omega, hkey⟩
    · obtain rfl := List.mem_singleton.mp he
      exact ⟨s.seq, by omega, rfl⟩
  · refine List.pairwise_append.mpr ⟨hsorted, List.pairwise_singleton _ _, fun e he e' he' => ?_⟩
    obtain rfl := List.mem_singleton.mp he'
    exact hbelow e he
  · rw [hentered] at hk
    rcases List.mem_append.mp he with he | he
    · exact habove k hk e he
    · obtain rfl := List.mem_singleton.mp he
      obtain ⟨n, hn, rfl⟩ := hn.keys k hk
      exact encodeKey_lt (by omega) hn

theorem takesFront_deliver {limit timeout now : Nat} (hall : AllTasks s.db) :
    TakesFront q s (deliver q limit timeout now (s.db.scanQueue .pending q)).batch
      (deliver q limit timeout now (s.db.scanQueue .pending q)).results := by
  have htasks : ∀ e ∈ s.db.scanQueue .pending q, ∃ t, e.2 = .task t := fun e he => hall (TenantDb.mem_scanQueue.mp he).1
  obtain ⟨n, hresults⟩ := dequeueLoop_takes q now (saturatingAdd now timeout) limit htasks
  exact ⟨n, _, hresults, (dequeueLoop_front q now _ limit htasks).1⟩

namespace Frame

theorem Idle.acts (h : f.Idle) : f.Acts tenant s := by
  cases f with
  | evictWrite r b => exact h.elim
  | mint r now todo b ids =>
    obtain rfl : b = [] := h
    exact appends_nil
  | write kind b held reply =>
    obtain ⟨rfl, -, htasks⟩ := h
    cases kind with
    | evict => rfl
    | enqueue => exact Or.inl rfl
    | dequeue => exact Or.inl ⟨rfl, htasks⟩
    | ack => exact ⟨[], rfl⟩
    | cumulativeAck => exact ⟨[], rfl⟩
    | _ => trivial
  | _ => trivial

theorem nextAck_acts {todo seen counted : List Key} : (nextAck held todo seen counted).Acts tenant s := by
  rcases nextAck_cases held todo seen counted with ⟨key, rest, -, heq⟩ | ⟨-, heq⟩ | heq <;> rw [heq]
  · trivial
  · trivial
  · exact ⟨counted, rfl⟩

/-- Each step leads to a frame that is going to act on its queue. -/
theorem step_acts (hall : AllTasks s.db) (hn : ∀ q, NulFree q → Numbered q s) (hf : f.InTurn tenant s i)
    (hseq : f.draws = true → s.seq + 1 < u64Size) (h : Frame.step tenant s i f io = some (s', f')) : f'.Acts tenant s' := by
  cases stepped_of_step h with
  | enqueueLock => exact beginQuota_idle.acts
  | quotaPending => trivial
  | quotaInflight => trivial
  | quotaDlq => exact checkQuota_idle.acts
  | evictNothing => exact beginMint_idle.acts
  | evictScan r toEvict => exact ⟨toEvict, evictBatch_eq⟩
  | evictWrite => exact beginMint_idle.acts
  | mint r now payload todo b ids =>
    -- The new key comes after every key of the queue, so the batch appends one more task.
    have hname : NulFree r.queue := hf.named
    have hb : Appends r.queue s b := hf.acts
    have hdrawn : enqueued { s.draw i (encodeKey r.queue s.seq) io.id with issued := io.id :: s.issued } = enqueued s :=
      enqueued_draw
    have hb' : Appends r.queue { s.draw i (encodeKey r.queue s.seq) io.id with issued := io.id :: s.issued }
        (b ++ [enqueueOp r.queue now s.seq payload io.id]) := hb.mint (hn r.queue hname) (hseq rfl) rfl hdrawn
    unfold nextMint
    split
    · exact Or.inr ⟨r.queue, hname, List.mem_singleton_self _, hb'⟩
    · exact hb'
  | dequeueLock => exact beginDequeue_idle.acts
  | cappedLock => trivial
  | countFull => trivial
  | countInflight => exact beginDequeue_idle.acts
  | dequeueScan queue limit timeout =>
    -- The scan goes in key order, so what it takes is the front of the queue.
    have hname : NulFree queue := hf.named
    rcases writeOr_eq .dequeue (deliver queue limit timeout io.now (s.db.scanQueue .pending queue)).batch
      [.queue (lockName tenant queue)]
      (.delivered (deliver queue limit timeout io.now (s.db.scanQueue .pending queue)).results) with
      ⟨-, heq⟩ | ⟨-, heq⟩ <;> rw [heq]
    · trivial
    · exact Or.inr ⟨queue, hname, List.mem_singleton_self _, takesFront_deliver hall⟩
  | ackLock keys => exact (nextAckLock_idle keys _ _).acts
  | ackGet => exact nextAck_acts
  | cumulativeScan queue upToSeq =>
    obtain ⟨keys, hkeys, -⟩ := cumulativeLoop_eq upToSeq (s.db.scanQueue .inflight queue)
    rcases writeOr_eq .cumulativeAck (cumulativeLoop upToSeq (s.db.scanQueue .inflight queue)) []
      (.count (cumulativeLoop upToSeq (s.db.scanQueue .inflight queue)).length) with ⟨-, heq⟩ | ⟨-, heq⟩ <;> rw [heq]
    · trivial
    · exact ⟨keys, hkeys⟩
  | write => trivial
  | unlock => trivial
  -- The other calls are not among those that exchange tasks.
  | _ => exact absurd (hf.writes List.mem_cons_self) (by simp [exchangeWrites])

theorem step_named (hf : f.Named) (h : Frame.step tenant s i f io = some (s', f')) : f'.Named := by
  unfold Named at hf ⊢
  rcases (step_shape h).1 with heq | heq <;> rw [heq]
  · exact hf
  · trivial

end Frame

/-- What a step is to a queue: nothing or one action, and an enqueue, a dequeue or an eviction holds the queue's lock. -/
theorem step_on (hq : NulFree q) (hall : AllTasks s.db) (hn : Numbered q s) (hf : f.InTurn tenant s i)
    (hseq : f.draws = true → s.seq + 1 < u64Size) (h : Frame.step tenant s i f io = some (s', f')) :
    Acted q s s' ∧ (Still q s s' ∨ (Numbered q s' ∧ .queue (lockName tenant q) ∈ f.held tenant)) := by
  -- Without a change of the records nothing happens to the queue.
  have hsame : ∀ {s₁ : Shared}, s₁.db = s.db → enqueued s₁ = enqueued s →
      s₁.history.flatMap Event.takesOut = s.history.flatMap Event.takesOut → s.seq ≤ s₁.seq →
      Acted q s s₁ ∧ (Still q s s₁ ∨ (Numbered q s₁ ∧ .queue (lockName tenant q) ∈ f.held tenant)) :=
    fun hdb henq hout hle => ⟨acted_of_same hdb henq hout, Or.inl ⟨by rw [enteredKeys, henq, enteredKeys], by rw [hdb], hle⟩⟩
  cases Frame.step_effect h with
  | quiet locks hidle => exact hsame rfl rfl rfl (Nat.le_refl _)
  | plan hplan => exact hsame rfl rfl rfl (Nat.le_refl _)
  | unlock => exact hsame rfl rfl rfl (Nat.le_refl _)
  | @mint r now payload todo b ids hnew =>
    have hnext := nextSeq_eq (hseq rfl)
    refine hsame rfl enqueued_draw ?_ (by simp only [Shared.draw]; omega)
    rw [Shared.draw, List.flatMap_append]
    exact List.append_nil _
  | retry => exact absurd (hf.writes List.mem_cons_self) (by simp [Frame.exchangeWrites])
  | replay => exact absurd (hf.writes List.mem_cons_self) (by simp [Frame.exchangeWrites])
  | @evict r b f' hidle =>
    have hname : NulFree r.queue := hf.named
    have hb : Sheds r.queue s b := hf.acts
    -- An eviction is from the queue of the call: from this one, or elsewhere.
    by_cases heq : r.queue = q
    · subst heq
      obtain ⟨hacted, hnumbered⟩ := hb.acted (i := i) hn hall
      exact ⟨hacted, Or.inr ⟨hnumbered, List.mem_singleton_self _⟩⟩
    · have helse := hb.elsewhere hq hname heq
      refine ⟨helse.acted fun k hk => ?_, Or.inl helse.still⟩
      obtain ⟨op, hop, hk⟩ := List.mem_filterMap.mp hk
      cases op with
      | put c k' v => cases hk
      | delete c k' =>
        cases hk
        exact not_inQueue hq hname heq (hb.of_mem hop)
  | @write kind b held reply =>
    have hacts := hf.acts
    -- An empty batch, or one for another queue, is no action.
    have hnil : b = [] → (∀ k ∈ Event.takesOut (.wrote ⟨i, kind, b, s.db, some reply⟩), ¬inQueue q k = true) →
        Acted q s (s.write i kind b (some reply)) ∧ (Still q s (s.write i kind b (some reply)) ∨
          (Numbered q (s.write i kind b (some reply)) ∧ .queue (lockName tenant q) ∈ held)) := by
      rintro rfl hout
      have helse : Elsewhere q [] := fun c k _ => ⟨fun v => List.not_mem_nil, List.not_mem_nil⟩
      exact ⟨helse.acted hout, Or.inl helse.still⟩
    cases kind with
    | enqueue =>
      -- An enqueue appends its batch under the lock of its queue.
      rcases hacts with rfl | ⟨q', hq', hlock, hb⟩
      · exact hnil rfl fun k hk => absurd hk List.not_mem_nil
      · by_cases heq : q' = q
        · subst heq
          have hacts : Acted q' s (s.write i .enqueue b (some reply)) ∧ Numbered q' (s.write i .enqueue b (some reply)) :=
            hb.acted hn
          obtain ⟨hacted, hnumbered⟩ := hacts
          exact ⟨hacted, Or.inr ⟨hnumbered, hlock⟩⟩
        · have helse := hb.elsewhere hq hq' heq
          exact ⟨helse.acted fun k hk => absurd hk List.not_mem_nil, Or.inl helse.still⟩
    | dequeue =>
      -- A dequeue takes from the front under the lock of its queue.
      rcases hacts with ⟨rfl, hnone⟩ | ⟨q', hq', hlock, hb⟩
      · refine hnil rfl fun k hk => ?_
        simp only [Event.takesOut, Option.elim_some, hnone] at hk
        cases hk
      · by_cases heq : q' = q
        · subst heq
          obtain ⟨hacted, hnumbered⟩ := hb.acted (i := i) hn hall
          exact ⟨hacted, Or.inr ⟨hnumbered, hlock⟩⟩
        · have helse := hb.elsewhere hq hq' heq
          refine ⟨helse.acted fun k hk => ?_, Or.inl helse.still⟩
          obtain ⟨r, hr, rfl⟩ := List.mem_map.mp hk
          exact not_inQueue hq hq' heq (hb.of_mem hr)
    | ack =>
      -- Acknowledgements settle what is inflight, with no lock of the queue.
      obtain ⟨keys, rfl⟩ := hacts
      exact ⟨(acted_settle (Or.inl rfl)).1, Or.inl (acted_settle (Or.inl rfl)).2⟩
    | cumulativeAck =>
      obtain ⟨keys, rfl⟩ := hacts
      exact ⟨(acted_settle (Or.inr rfl)).1, Or.inl (acted_settle (Or.inr rfl)).2⟩
    | evict => exact hnil hacts (by rw [show b = [] from hacts]; exact fun k hk => absurd hk List.not_mem_nil)
    -- The remaining writes are of calls that are not made here.
    | nack => exact absurd (hf.writes List.mem_cons_self) (by simp [Frame.exchangeWrites])
    | reap => exact absurd (hf.writes List.mem_cons_self) (by simp [Frame.exchangeWrites])
    | purge => exact absurd (hf.writes List.mem_cons_self) (by simp [Frame.exchangeWrites])
    | replay => exact absurd (hf.writes List.mem_cons_self) (by simp [Frame.exchangeWrites])

theorem step_still (hq : NulFree q) (hall : AllTasks s.db) (hn : Numbered q s) (hf : f.InTurn tenant s i)
    (hseq : f.draws = true → s.seq + 1 < u64Size) (hlock : .queue (lockName tenant q) ∉ f.held tenant)
    (h : Frame.step tenant s i f io = some (s', f')) : Still q s s' :=
  (step_on hq hall hn hf hseq h).2.resolve_right fun hown => hlock hown.2

theorem step_numbered (hq : NulFree q) (hall : AllTasks s.db) (hn : Numbered q s) (hf : f.InTurn tenant s i)
    (hseq : f.draws = true → s.seq + 1 < u64Size) (h : Frame.step tenant s i f io = some (s', f')) : Numbered q s' := by
  rcases (step_on hq hall hn hf hseq h).2 with hstill | ⟨hnumbered, -⟩
  · exact hn.of_still hstill
  · exact hnumbered

/-- What a call is going to write stays an action on its queue while others go on elsewhere. -/
theorem Frame.Acts.mono (hg : g.InTurn tenant s i)
    (h : ∀ q, NulFree q → .queue (lockName tenant q) ∈ g.held tenant → Still q s s') : g.Acts tenant s' := by
  obtain ⟨hnamed, -, hacts⟩ := hg
  cases g with
  | evictWrite r b => exact Sheds.mono hacts (h r.queue hnamed (List.mem_singleton_self _))
  | mint r now todo b ids => exact Appends.mono hacts (h r.queue hnamed (List.mem_singleton_self _))
  | write kind b held reply =>
    cases kind with
    | enqueue =>
      rcases hacts with hnil | ⟨q, hq, hlock, hb⟩
      · exact Or.inl hnil
      · exact Or.inr ⟨q, hq, hlock, hb.mono (h q hq hlock)⟩
    | dequeue =>
      rcases hacts with hnil | ⟨q, hq, hlock, hb⟩
      · exact Or.inl hnil
      · exact Or.inr ⟨q, hq, hlock, hb.mono (h q hq hlock)⟩
    | _ => exact hacts
  | _ => exact hacts

end Steps

theorem start_inTurn {tenant : String} {s : Shared} {i : Nat} {call : Call} (h : call.exchanges = true) :
    (Frame.start tenant call).InTurn tenant s i := by
  have hidle := Frame.start_idle tenant call
  cases call with
  | enqueueBatch queue payloads policy =>
    have hname : NulFree queue := of_decide_eq_true h
    exact ⟨hname, by simp [Frame.start, Frame.writes, Frame.exchangeWrites], trivial⟩
  | dequeueBatch queue limit timeout =>
    have hname : NulFree queue := of_decide_eq_true h
    exact ⟨hname, by simp [Frame.start, Frame.writes, Frame.exchangeWrites], trivial⟩
  | dequeueWithMaxInflight queue limit timeout maxInflight =>
    have hname : NulFree queue := of_decide_eq_true h
    refine ⟨?_, ?_, hidle.acts⟩
    · simp only [Frame.start]
      split
      · trivial
      · exact hname
    · simp only [Frame.start]
      split <;> simp [Frame.writes, Frame.exchangeWrites]
  | ackBatch keys =>
    refine ⟨?_, fun kind hkind => ?_, hidle.acts⟩
    · unfold Frame.Named
      rcases (Frame.nextAckLock_shape tenant keys [] (Frame.ackLockList tenant keys)).1 with heq | heq <;>
        rw [Frame.start, heq] <;> trivial
    · have hack := Frame.nextAckLock_writes keys [] (Frame.ackLockList tenant keys) hkind
      obtain rfl := List.mem_singleton.mp hack
      simp [Frame.exchangeWrites]
  | cumulativeAck queue upToSeq =>
    exact ⟨trivial, by simp [Frame.start, Frame.writes, Frame.exchangeWrites], trivial⟩
  | _ => cases h

/-- In every interleaving of these calls, each is going to act on its queue as it stands. -/
theorem exchange_outline {tenant : String} :
    Outline (system tenant) (fun c l => exchanging c l = true ∧ Grounded tenant c)
      (fun s => ∀ q, NulFree q → Numbered q s) (Frame.InTurn tenant) fun _ _ => True where
  call _ hok := start_inTurn (Bool.and_eq_true_iff.mp hok.1).2
  callApart _ := ⟨trivial, trivial⟩
  env {c} h hok := by
    have hlt : c.shared.seq + 1 < u64Size := of_decide_eq_true (Bool.and_eq_true_iff.mp hok.1).1
    have hnext := nextSeq_eq hlt
    have hstill : ∀ q, Still q c.shared ((system tenant).env c.shared) := fun q =>
      ⟨rfl, rfl, by simp only [system]; omega⟩
    exact ⟨fun q hq => (h.shared q hq).of_still (hstill q),
      fun hf => ⟨hf.named, hf.writes, Frame.Acts.mono hf fun q _ _ => hstill q⟩⟩
  own {c i f a s f'} h hok hf hs := by
    have hturn := h.frames hf
    have hall : AllTasks c.shared.db := hok.2.known.shared.tasks
    have hseq : f.draws = true → c.shared.seq + 1 < u64Size := fun hdraws => by
      simpa [unwrapped, hf, hdraws] using (Bool.and_eq_true_iff.mp hok.1).1
    exact ⟨fun q hq => step_numbered hq hall (h.shared q hq) hturn hseq hs, Frame.step_named hturn.named hs,
      fun _ hkind => hturn.writes (Frame.step_writes hs hkind), Frame.step_acts hall h.shared hturn hseq hs⟩
  others {c i f a s f' j g} h hok hf hs hij hg := by
    have hturn := h.frames hf
    have hgturn := h.frames hg
    have hseq : f.draws = true → c.shared.seq + 1 < u64Size := fun hdraws => by
      simpa [unwrapped, hf, hdraws] using (Bool.and_eq_true_iff.mp hok.1).1
    refine ⟨⟨hgturn.named, hgturn.writes, Frame.Acts.mono hgturn fun q hq hlock => ?_⟩, trivial, trivial⟩
    refine step_still hq hok.2.known.shared.tasks (h.shared q hq) hturn hseq (fun hlock' => hij ?_) hs
    exact (hok.2.locks.frames hf).unique (hok.2.locks.frames hg) hlock' hlock

/-- What is known at every step of a run of these calls. -/
structure Exchange (tenant : String) (c : Config Shared Frame) : Prop where
  ground : Grounded tenant c
  turns : Holds (fun s => ∀ q, NulFree q → Numbered q s) (Frame.InTurn tenant) (fun _ _ => True) c

theorem Exchange.next {tenant : String} {c c' : Config Shared Frame} {l : Label Call StepInput} (h : Exchange tenant c)
    (hok : exchanging c l = true) (hn : (system tenant).next c l = some c') : Exchange tenant c' :=
  ⟨h.ground.next hn, exchange_outline.next h.turns ⟨hok, h.ground⟩ hn⟩

/-- Two queues: two tasks in the one, one in the other, a delivery while the second enqueue is under way, and its
    acknowledgement. -/
def twoQueues : List (Label Call StepInput) :=
  [.call (.enqueueBatch "q" [[1], [2]] unlimited), .call (.enqueueBatch "p" [[3]] unlimited), .run 0 { now := 1 }, .run 1 {},
    .run 0 { id := "a" }, .run 1 { id := "x" }, .run 0 { id := "b" }, .run 0 {}, .run 0 {},
    .call (.dequeueBatch "q" 1 1), .run 2 {}, .run 2 { now := 1 }, .run 2 {}, .run 1 {}, .run 2 {}, .run 1 {},
    .call (.cumulativeAck "q" 9), .run 3 {}, .run 3 {}, .run 3 {}]

end RocksQueue
