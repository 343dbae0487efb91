import RocksQueue.Theorems.Locks
import RocksQueue.Theorems.NoLoss

/-! # First deliveries

Calls on one queue, in one process. The numbers of enqueued tasks are drawn and written under the lock
of the queue and the scan of a dequeue is in the order of the numbers, so tasks are delivered for the
first time in the order in which they were enqueued. What a nack or a sweep puts back was delivered
before, and does not get in between (`fifo_outline`). -/

namespace RocksQueue
open Interleaving

/-- The keys and ids of the tasks that a batch puts. -/
def putPairs (b : WriteBatch) : List (Key × String) :=
  b.filterMap fun
    | .put _ k (.task t) => some (k, t.id)
    | _ => none

/-- The ids of the tasks that a batch puts into pending. -/
def pendingIds (b : WriteBatch) : List String :=
  b.filterMap fun
    | .put .pending _ (.task t) => some t.id
    | _ => none

def Event.enqueues : Event → List (Key × String)
  | .wrote w => if w.kind = .enqueue then putPairs w.batch else []
  | .minted _ _ _ => []

def Event.handsOut : Event → List (Key × Task)
  | .wrote w => if w.kind = .dequeue then w.reply.elim [] Reply.results else []
  | .minted _ _ _ => []

/-- The enqueued tasks in the order in which their batches were written, those of a batch in the order of its
    payloads. -/
def enqueued (s : Shared) : List (Key × String) := s.history.flatMap Event.enqueues

/-- What happens to a delivered task. -/
inductive Mark where
  | handedOut (id : String)
  | putBack (id : String)

def Event.marks : Event → List Mark
  | .wrote w =>
    match w.kind with
    | .dequeue => (w.reply.elim [] Reply.results).map fun r => .handedOut r.2.id
    | .nack => (pendingIds w.batch).map .putBack
    | .reap => (pendingIds w.batch).map .putBack
    | _ => []
  | .minted _ _ _ => []

/-- What the dequeues returned, in the order in which they wrote. -/
def handedOut (s : Shared) : List (Key × Task) := s.history.flatMap Event.handsOut

/-- The deliveries, and the nacks and sweeps that put a task back, in the order of the writes. -/
def marks (s : Shared) : List Mark := s.history.flatMap Event.marks

/-- The ids handed out so far. -/
def seen (s : Shared) : List String := (handedOut s).map fun r => r.2.id

/-- The first deliveries among `rs` when the tasks of `known` were delivered before. -/
def firsts (known : List String) : List (Key × Task) → List (Key × String)
  | [] => []
  | (k, t) :: rs => if t.id ∈ known then firsts known rs else (k, t.id) :: firsts (t.id :: known) rs

/-- First deliveries are in the order of the enqueues, and no task is delivered again that was not put back. -/
structure Fifo (s : Shared) : Prop where
  order : ((firsts [] (handedOut s)).map Prod.snd).Sublist ((enqueued s).map Prod.snd)
  distinct : ((enqueued s).map Prod.snd).Nodup
  once : ∀ pre id post, marks s = pre ++ .handedOut id :: post → .handedOut id ∈ pre → .putBack id ∈ pre

/-- A call of the producers and consumers of a queue. -/
def Call.onQueue (queue : String) : Call → Bool
  | .enqueueBatch queue' _ _ => queue' = queue
  | .dequeueBatch queue' _ _ => queue' = queue
  | .dequeueWithMaxInflight queue' _ _ _ => queue' = queue
  | .ackBatch _ => true
  | .nack _ => true
  | .reapInflight queue' => queue' = queue
  | _ => false

/-- The call that begins is one on the queue, and the counter does not wrap. -/
def inSequence (queue : String) (c : Config Shared Frame) (l : Label Call StepInput) : Bool :=
  unwrapped c l && match l with
    | .call call => call.onQueue queue
    | _ => true

/-! ## First occurrences -/

section Firsts
variable {known known' : List String} {rs rs' : List (Key × Task)} {p : Key × String}

theorem firsts_congr (h : ∀ id, id ∈ known ↔ id ∈ known') : firsts known rs = firsts known' rs := by
  induction rs generalizing known known' with
  | nil => rfl
  | cons r rs ih =>
    obtain ⟨k, t⟩ := r
    simp only [firsts, h]
    split
    · exact ih h
    · exact congrArg ((k, t.id) :: ·) (ih fun id => by simp [h])

theorem firsts_append : firsts known (rs ++ rs') = firsts known rs ++ firsts (known ++ rs.map fun r => r.2.id) rs' := by
  induction rs generalizing known with
  | nil => simp [firsts]
  | cons r rs ih =>
    obtain ⟨k, t⟩ := r
    simp only [List.cons_append, firsts, List.map_cons]
    split
    · rename_i hmem
      rw [ih]
      congr 1
      refine firsts_congr fun id => ?_
      simp only [List.mem_append, List.mem_cons]
      constructor
      · rintro (h | h)
        · exact Or.inl h
        · exact Or.inr (Or.inr h)
      · rintro (h | rfl | h)
        · exact Or.inl h
        · exact Or.inl hmem
        · exact Or.inr h
    · rw [ih, List.cons_append]
      congr 2
      refine firsts_congr fun id => ?_
      simp only [List.mem_append, List.mem_cons]
      tauto

theorem mem_firsts (h : p ∈ firsts known rs) : ∃ t, (p.1, t) ∈ rs ∧ t.id = p.2 ∧ p.2 ∉ known := by
  induction rs generalizing known with
  | nil => cases h
  | cons r rs ih =>
    obtain ⟨k, t⟩ := r
    simp only [firsts] at h
    split at h
    · obtain ⟨t', hmem, hid⟩ := ih h
      exact ⟨t', List.mem_cons_of_mem _ hmem, hid⟩
    · rename_i hnew
      rcases List.mem_cons.mp h with rfl | h
      · exact ⟨t, List.mem_cons_self, rfl, hnew⟩
      · obtain ⟨t', hmem, hid, hnot⟩ := ih h
        exact ⟨t', List.mem_cons_of_mem _ hmem, hid, fun hin => hnot (List.mem_cons_of_mem _ hin)⟩

theorem firsts_keys_sublist : ((firsts known rs).map Prod.fst).Sublist (rs.map Prod.fst) := by
  induction rs generalizing known with
  | nil => exact .slnil
  | cons r rs ih =>
    obtain ⟨k, t⟩ := r
    simp only [firsts]
    split
    · exact ih.cons _
    · exact ih.cons_cons _

/-- What is handed out was known, or is handed out for the first time somewhere. -/
theorem known_or_first {id : String} (h : id ∈ rs.map fun r => r.2.id) : id ∈ known ∨ ∃ p ∈ firsts known rs, p.2 = id := by
  induction rs generalizing known with
  | nil => cases h
  | cons r rs ih =>
    obtain ⟨k, t⟩ := r
    simp only [firsts]
    by_cases hmem : t.id ∈ known
    · rw [if_pos hmem]
      rcases List.mem_cons.mp h with rfl | h
      · exact Or.inl hmem
      · exact ih h
    · rw [if_neg hmem]
      rcases List.mem_cons.mp h with rfl | h
      · exact Or.inr ⟨_, List.mem_cons_self, rfl⟩
      · have hrest : id ∈ t.id :: known ∨ ∃ p ∈ firsts (t.id :: known) rs, p.2 = id := ih h
        rcases hrest with hin | ⟨p, hp, hid⟩
        · rcases List.mem_cons.mp hin with rfl | hin
          · exact Or.inr ⟨_, List.mem_cons_self, rfl⟩
          · exact Or.inl hin
        · exact Or.inr ⟨p, List.mem_cons_of_mem _ hp, hid⟩

end Firsts

/-! ## Who is ahead -/

/-- The records and what was handed out: what was not delivered yet is pending under the key of its enqueue,
    behind all that was. -/
structure Ordered (q : String) (s : Shared) : Prop where
  seq : s.seq < u64Size
  keys : ∀ p ∈ enqueued s, ∃ n, n < s.seq ∧ p.1 = encodeKey q n
  issued : ∀ p ∈ enqueued s, p.2 ∈ s.issued
  sorted : (enqueued s).Pairwise fun a b => a.1 < b.1
  distinct : ((enqueued s).map Prod.snd).Nodup
  unseen : ∀ {k t}, s.db.get .pending k = some (.task t) → t.id ∉ seen s →
    (k, t.id) ∈ enqueued s ∧ ∀ p ∈ enqueued s, p.2 ∈ seen s → p.1 < k
  delivered : ∀ {c k t}, s.db.get c k = some (.task t) → c ≠ .pending → t.id ∈ seen s
  again : ∀ {k t}, s.db.get .pending k = some (.task t) → t.id ∈ seen s → .putBack t.id ∈ marks s
  firstMem : ∀ p ∈ firsts [] (handedOut s), p ∈ enqueued s
  firstSorted : (firsts [] (handedOut s)).Pairwise fun a b => a.1 < b.1
  once : ∀ pre id post, marks s = pre ++ .handedOut id :: post → .handedOut id ∈ pre → .putBack id ∈ pre

/-- What an enqueue is going to write: new tasks behind all that are enqueued. -/
structure Batched (q : String) (s : Shared) (b : WriteBatch) : Prop where
  puts : ∀ op ∈ b, ∃ n t, op = .put .pending (encodeKey q n) (.task t) ∧ n < s.seq
  sorted : (putPairs b).Pairwise fun a b => a.1 < b.1
  above : ∀ p ∈ enqueued s, ∀ p' ∈ putPairs b, p.1 < p'.1

/-- What a nack or a sweep is going to write: tasks that were handed out. -/
def Retries (s : Shared) (b : WriteBatch) : Prop := ∀ c k t, .put c k (.task t) ∈ b → t.id ∈ seen s

/-- What a dequeue is going to write and return: a stretch of the pending tasks, with the new ones in front. -/
structure Taken (s : Shared) (b : WriteBatch) (rs : List (Key × Task)) : Prop where
  batch : b = rs.flatMap fun r => deliverBatch r.1 r.2
  sorted : rs.Pairwise fun a b => a.1 < b.1
  unseen : ∀ r ∈ rs, r.2.id ∉ seen s → (r.1, r.2.id) ∈ enqueued s ∧ ∀ p ∈ enqueued s, p.2 ∈ seen s → p.1 < r.1
  again : ∀ r ∈ rs, r.2.id ∈ seen s → .putBack r.2.id ∈ marks s
  rest : ∀ k t, s.db.get .pending k = some (.task t) → t.id ∉ seen s → (∃ r ∈ rs, r.1 = k) ∨ ∀ r ∈ rs, r.1 < k

namespace Frame

def OnQueue (q : String) (f : Frame) : Prop :=
  match f.job with
  | .enqueue r => r.queue = q
  | .dequeue queue => queue = q
  | _ => True

def Shape (tenant q : String) (s : Shared) : Frame → Prop
  | .evictWrite _ b => ∃ keys, b = deletes .pending keys
  | .mint _ _ _ b _ => Batched q s b
  | .nackDraw _ task => task.id ∈ seen s
  | .write .enqueue b held _ => Batched q s b ∧ (b = [] ∨ .queue (lockName tenant q) ∈ held)
  | .write .dequeue b held reply => Taken s b reply.results ∧ (reply.results = [] ∨ .queue (lockName tenant q) ∈ held)
  | .write .nack b _ _ => Retries s b
  | .write .reap b _ _ => Retries s b
  | .write .ack b _ _ => ∃ keys, b = deletes .inflight keys
  | .write _ b _ _ => b = []
  | _ => True

/-- The kinds of write of the calls on a queue. -/
def onQueueWrites : List WriteKind := [.evict, .enqueue, .dequeue, .ack, .nack, .reap]

/-- The call is one of those on the queue, and what it is going to write keeps the order. -/
structure InOrder (tenant q : String) (s : Shared) (_ : Nat) (f : Frame) : Prop where
  onQueue : f.OnQueue q
  writes : f.writes ⊆ onQueueWrites
  fresh : ∀ id ∈ f.fresh, ∀ p ∈ enqueued s, p.2 ≠ id
  shape : f.Shape tenant q s

end Frame

section Histories
variable {s s' : Shared} {es : List Event} {i : Nat} {kind : WriteKind} {b : WriteBatch} {reply : Option Reply}

theorem enqueued_append (h : s'.history = s.history ++ es) : enqueued s' = enqueued s ++ es.flatMap Event.enqueues := by
  rw [enqueued, h, List.flatMap_append]
  rfl

theorem handedOut_append (h : s'.history = s.history ++ es) : handedOut s' = handedOut s ++ es.flatMap Event.handsOut := by
  rw [handedOut, h, List.flatMap_append]
  rfl

theorem enqueued_write : enqueued (s.write i kind b reply) = enqueued s ++ if kind = .enqueue then putPairs b else [] := by
  rw [enqueued_append rfl, List.flatMap_singleton]
  rfl

theorem handedOut_write :
    handedOut (s.write i kind b reply) = handedOut s ++ if kind = .dequeue then reply.elim [] Reply.results else [] := by
  rw [handedOut_append rfl, List.flatMap_singleton]
  rfl

theorem marks_append (h : s'.history = s.history ++ es) : marks s' = marks s ++ es.flatMap Event.marks := by
  rw [marks, h, List.flatMap_append]
  rfl

theorem mem_seen {id : String} : id ∈ seen s ↔ .handedOut id ∈ marks s := by
  rw [seen, handedOut, marks, List.map_flatMap, List.mem_flatMap, List.mem_flatMap]
  refine exists_congr fun e => and_congr_right fun _ => ?_
  cases e with
  | minted j k id' => simp [Event.handsOut, Event.marks]
  | wrote w =>
    obtain ⟨j, kind, b, before, reply⟩ := w
    cases kind <;> simp [Event.handsOut, Event.marks]

theorem seen_subset (h : s'.history = s.history ++ es) : seen s ⊆ seen s' := fun id hid => by
  rw [seen, handedOut_append h, List.map_append]
  exact List.mem_append_left _ hid

theorem mem_putPairs {p : Key × String} : p ∈ putPairs b ↔ ∃ c t, .put c p.1 (.task t) ∈ b ∧ t.id = p.2 := by
  simp only [putPairs, List.mem_filterMap]
  constructor
  · rintro ⟨op, hop, heq⟩
    split at heq
    · rename_i c k t
      cases heq
      exact ⟨c, t, hop, rfl⟩
    · cases heq
  · rintro ⟨c, t, hput, hid⟩
    exact ⟨_, hput, by simp [hid]⟩

theorem putPairs_ids : (putPairs b).map Prod.snd = putIds b := by
  rw [putPairs, putIds, List.map_filterMap]
  congr 1
  funext op
  cases op with
  | delete c k => rfl
  | put c k v => cases v <;> rfl

end Histories

section Writes
variable {q tenant : String} {s s' : Shared} {i : Nat} {b : WriteBatch} {held : List Lock} {reply : Reply}
  {rs : List (Key × Task)}

/-- A step that enqueues and hands out nothing, and stores nothing but what was handed out. -/
theorem Ordered.quiet (h : Ordered q s) (ids : List String) (henq : enqueued s' = enqueued s)
    (hout : handedOut s' = handedOut s) (hmarks : marks s' = marks s ++ ids.map .putBack) (hseq : s.seq ≤ s'.seq)
    (hlt : s'.seq < u64Size) (hissued : s.issued ⊆ s'.issued)
    (hdb : ∀ c k t, s'.db.get c k = some (.task t) → s.db.get c k = some (.task t) ∨
      (t.id ∈ seen s ∧ (c = .pending → t.id ∈ ids))) : Ordered q s' := by
  have hseen : seen s' = seen s := by rw [seen, seen, hout]
  refine ⟨hlt, ?_, ?_, henq ▸ h.sorted, henq ▸ h.distinct, fun hget hnew => ?_, fun hget hc => ?_, fun hget hid => ?_, ?_,
    hout ▸ h.firstSorted, fun pre id post heq hmem => ?_⟩
  · rw [henq]
    intro p hp
    obtain ⟨n, hn, heq⟩ := h.keys p hp
    exact ⟨n, Nat.lt_of_lt_of_le hn hseq, heq⟩
  · rw [henq]
    exact fun p hp => hissued (h.issued p hp)
  · rw [hseen] at hnew
    rw [hseen, henq]
    exact h.unseen ((hdb _ _ _ hget).resolve_right fun hold => hnew hold.1) hnew
  · rw [hseen]
    rcases hdb _ _ _ hget with hold | hold
    · exact h.delivered hold hc
    · exact hold.1
  · rw [hseen] at hid
    rw [hmarks, List.mem_append]
    rcases hdb _ _ _ hget with hold | hold
    · exact Or.inl (h.again hold hid)
    · exact Or.inr (List.mem_map_of_mem (hold.2 rfl))
  · rw [henq, hout]
    exact h.firstMem
  -- The marks that are new are of tasks put back, so none is a hand-out.
  · rw [hmarks] at heq
    rcases List.append_eq_append_iff.mp heq with ⟨earlier, -, hids⟩ | ⟨later, hold, hpost⟩
    · have hback : Mark.handedOut id ∈ ids.map Mark.putBack := hids ▸ List.mem_append_right _ List.mem_cons_self
      simp at hback
    · cases later with
      | nil =>
        have hback : Mark.handedOut id ∈ ids.map Mark.putBack := by
          rw [← List.nil_append (ids.map Mark.putBack), ← hpost]
          exact List.mem_cons_self
        simp at hback
      | cons m later =>
        obtain ⟨rfl, -⟩ := List.cons.inj hpost
        exact h.once pre id later hold hmem

/-- What was handed out was enqueued before. -/
theorem Ordered.enqueued_of_seen (h : Ordered q s) {id : String} (hid : id ∈ seen s) : ∃ p ∈ enqueued s, p.2 = id := by
  have hfirst : id ∈ ([] : List String) ∨ ∃ p ∈ firsts [] (handedOut s), p.2 = id := known_or_first hid
  obtain ⟨p, hp, heq⟩ := hfirst.resolve_left List.not_mem_nil
  exact ⟨p, h.firstMem p hp, heq⟩

/-- A task was enqueued under one key. -/
theorem Ordered.key_unique (h : Ordered q s) {k k' : Key} {id : String} (hk : (k, id) ∈ enqueued s)
    (hk' : (k', id) ∈ enqueued s) : k = k' := by
  have heq : (k, id) = (k', id) := List.inj_on_of_nodup_map h.distinct hk hk' rfl
  exact (Prod.mk.inj heq).1

/-- An enqueue puts its tasks behind all others. -/
theorem Ordered.enqueue {reply : Option Reply} (h : Ordered q s) (hb : Batched q s b) (hnodup : (putIds b).Nodup)
    (hfresh : ∀ id ∈ putIds b, ∀ p ∈ enqueued s, p.2 ≠ id) (hissued : ∀ id ∈ putIds b, id ∈ s.issued) :
    Ordered q (s.write i .enqueue b reply) := by
  have henq : enqueued (s.write i .enqueue b reply) = enqueued s ++ putPairs b := by rw [enqueued_write, if_pos rfl]
  have hout : handedOut (s.write i .enqueue b reply) = handedOut s := by
    rw [handedOut_write, if_neg (by simp), List.append_nil]
  have hmarks : marks (s.write i .enqueue b reply) = marks s := by rw [marks_append rfl]; exact List.append_nil _
  have hseen : seen (s.write i .enqueue b reply) = seen s := by rw [seen, seen, hout]
  -- The new tasks have new ids, so none of them was handed out.
  have hunseen : ∀ p ∈ putPairs b, p.2 ∉ seen s := fun p hp hid => by
    obtain ⟨p', hp', heq⟩ := h.enqueued_of_seen hid
    exact hfresh p.2 (putPairs_ids ▸ List.mem_map_of_mem hp) p' hp' heq
  have hpair : ∀ {c k t}, .put c k (.task t) ∈ b → c = .pending ∧ (k, t.id) ∈ putPairs b := fun hput => by
    obtain ⟨n, t', heq, -⟩ := hb.puts _ hput
    exact ⟨(WriteOp.put.inj heq).1, mem_putPairs.mpr ⟨_, _, hput, rfl⟩⟩
  refine ⟨h.seq, fun p hp => ?_, fun p hp => ?_, ?_, ?_, fun {k t} hget hnew => ?_, fun {c k t} hget hc => ?_,
    fun {k t} hget hid => ?_, fun p hp => ?_, hout ▸ h.firstSorted, hmarks ▸ h.once⟩
  · rw [henq] at hp
    rcases List.mem_append.mp hp with hp | hp
    · exact h.keys p hp
    · obtain ⟨c, t, hput, -⟩ := mem_putPairs.mp hp
      obtain ⟨n, t', heq, hn⟩ := hb.puts _ hput
      exact ⟨n, hn, (WriteOp.put.inj heq).2.1⟩
  · rw [henq] at hp
    rcases List.mem_append.mp hp with hp | hp
    · exact h.issued p hp
    · exact hissued p.2 (putPairs_ids ▸ List.mem_map_of_mem hp)
  · rw [henq]
    exact List.pairwise_append.mpr ⟨h.sorted, hb.sorted, hb.above⟩
  · rw [henq, List.map_append, putPairs_ids]
    refine List.nodup_append.mpr ⟨h.distinct, hnodup, ?_⟩
    rintro id hid id' hid' rfl
    obtain ⟨p, hp, heq⟩ := List.mem_map.mp hid
    exact hfresh id hid' p hp heq
  · rw [hseen] at hnew
    rw [hseen, henq]
    rcases TenantDb.get_write hget with hput | ⟨hold, -⟩
    -- A new task: all that was handed out has a lower key.
    · refine ⟨List.mem_append_right _ (hpair hput).2, fun p hp hid => ?_⟩
      rcases List.mem_append.mp hp with hp | hp
      · exact hb.above p hp _ (hpair hput).2
      · exact absurd hid (hunseen p hp)
    · obtain ⟨hmem, hahead⟩ := h.unseen hold hnew
      refine ⟨List.mem_append_left _ hmem, fun p hp hid => ?_⟩
      rcases List.mem_append.mp hp with hp | hp
      · exact hahead p hp hid
      · exact absurd hid (hunseen p hp)
  · rw [hseen]
    rcases TenantDb.get_write hget with hput | ⟨hold, -⟩
    · exact absurd (hpair hput).1 hc
    · exact h.delivered hold hc
  · rw [hseen] at hid
    rw [hmarks]
    rcases TenantDb.get_write hget with hput | ⟨hold, -⟩
    · exact absurd hid (hunseen _ (hpair hput).2)
    · exact h.again hold hid
  · rw [hout] at hp
    rw [henq]
    exact List.mem_append_left _ (h.firstMem p hp)

theorem Taken.mem_put (h : Taken s b rs) {c : Cf} {k : Key} {t : Task} :
    .put c k (.task t) ∈ b ↔ c = .inflight ∧ (k, t) ∈ rs := by
  rw [h.batch, List.mem_flatMap]
  constructor
  · rintro ⟨r, hr, hput⟩
    simp only [deliverBatch, List.mem_cons, reduceCtorEq, List.not_mem_nil, or_false, false_or, WriteOp.put.injEq] at hput
    obtain ⟨rfl, rfl, heq⟩ := hput
    cases heq
    exact ⟨rfl, hr⟩
  · rintro ⟨rfl, hr⟩
    exact ⟨_, hr, by simp [deliverBatch, Task.serialize]⟩

theorem Taken.mem_delete (h : Taken s b rs) {r : Key × Task} (hr : r ∈ rs) : .delete .pending r.1 ∈ b := by
  rw [h.batch, List.mem_flatMap]
  exact ⟨r, hr, by simp [deliverBatch]⟩

/-- Of the tasks taken, no two have one id when it was not handed out before. -/
theorem Taken.distinct (h : Taken s b rs) (ho : Ordered q s) {r r' : Key × Task} (hr : r ∈ rs) (hr' : r' ∈ rs)
    (hnew : r.2.id ∉ seen s) (hid : r'.2.id = r.2.id) : r'.1 = r.1 := by
  have hmem := (h.unseen r hr hnew).1
  have hmem' := (h.unseen r' hr' (hid ▸ hnew)).1
  exact ho.key_unique (hid ▸ hmem') hmem

/-- A task that is taken and was handed out before was put back. -/
theorem Taken.once (h : Taken s b rs) (ho : Ordered q s) {earlier later : List Mark} {id : String}
    (hrs : rs.map (fun r => Mark.handedOut r.2.id) = earlier ++ .handedOut id :: later)
    (hmem : .handedOut id ∈ marks s ++ earlier) : .putBack id ∈ marks s := by
  obtain ⟨rs₁, rs₂, rfl, rfl, heq⟩ := List.map_eq_append_iff.mp hrs
  obtain ⟨r, rs₂, rfl, hr, -⟩ := List.map_eq_cons_iff.mp heq
  obtain rfl : r.2.id = id := Mark.handedOut.inj hr
  have hr : r ∈ rs₁ ++ r :: rs₂ := List.mem_append_right _ List.mem_cons_self
  by_cases hid : r.2.id ∈ seen s
  · exact h.again r hr hid
  · rcases List.mem_append.mp hmem with hold | hnew
    · exact absurd (mem_seen.mpr hold) hid
    · obtain ⟨r', hr', heq'⟩ := List.mem_map.mp hnew
      have hlt : r'.1 < r.1 := (List.pairwise_append.mp h.sorted).2.2 r' hr' r List.mem_cons_self
      exact absurd (h.distinct ho hr (List.mem_append_left _ hr') hid (Mark.handedOut.inj heq')) hlt.ne

/-- A dequeue takes what is in front. -/
theorem Ordered.dequeue (h : Ordered q s) (ht : Taken s b reply.results) : Ordered q (s.write i .dequeue b (some reply)) := by
  have henq : enqueued (s.write i .dequeue b (some reply)) = enqueued s := by
    rw [enqueued_write, if_neg (by simp), List.append_nil]
  have hout : handedOut (s.write i .dequeue b (some reply)) = handedOut s ++ reply.results := by
    rw [handedOut_write, if_pos rfl]
    rfl
  have hmarks : marks (s.write i .dequeue b (some reply)) = marks s ++ reply.results.map fun r => .handedOut r.2.id := by
    rw [marks_append rfl, List.flatMap_singleton]
    rfl
  have hseen : ∀ id, id ∈ seen (s.write i .dequeue b (some reply)) ↔ id ∈ seen s ∨ ∃ r ∈ reply.results, r.2.id = id := by
    intro id
    simp only [seen, hout, List.map_append, List.mem_append, List.mem_map]
  have hfirsts : firsts [] (handedOut (s.write i .dequeue b (some reply))) =
      firsts [] (handedOut s) ++ firsts (seen s) reply.results := by
    rw [hout, firsts_append]
    rfl
  -- What is handed out for the first time comes after all that was handed out before.
  have hnewFirst : ∀ p ∈ firsts (seen s) reply.results, p ∈ enqueued s ∧ ∀ p' ∈ enqueued s, p'.2 ∈ seen s → p'.1 < p.1 := by
    intro p hp
    obtain ⟨t, hmem, hid, hnew⟩ := mem_firsts hp
    obtain ⟨henq, hahead⟩ := ht.unseen _ hmem (hid ▸ hnew)
    exact ⟨by simpa only [hid] using henq, hahead⟩
  refine ⟨h.seq, henq ▸ h.keys, henq ▸ h.issued, henq ▸ h.sorted, henq ▸ h.distinct, fun {k t} hget hnew => ?_,
    fun {c k t} hget hc => ?_, fun {k t} hget hid => ?_, fun p hp => ?_, ?_, fun pre id post heq hmem => ?_⟩
  · obtain ⟨hold, hdel⟩ := (TenantDb.get_write hget).resolve_left fun hput => Cf.noConfusion (ht.mem_put.mp hput).1
    have hnew' : t.id ∉ seen s := fun hid => hnew ((hseen _).mpr (Or.inl hid))
    obtain ⟨hmem, hahead⟩ := h.unseen hold hnew'
    rw [henq]
    refine ⟨hmem, fun p hp hid => ?_⟩
    -- A task left pending comes after those that this call takes.
    rcases (hseen _).mp hid with hid | ⟨r, hr, hid⟩
    · exact hahead p hp hid
    · by_cases hold' : r.2.id ∈ seen s
      · exact hahead p hp (hid ▸ hold')
      · have hkey : r.1 = p.1 := h.key_unique (ht.unseen r hr hold').1 (by rw [hid]; exact hp)
        rcases ht.rest k t hold hnew' with ⟨r', hr', rfl⟩ | hbelow
        · exact absurd (ht.mem_delete hr') hdel
        · exact hkey ▸ hbelow r hr
  · rcases TenantDb.get_write hget with hput | ⟨hold, -⟩
    · exact (hseen _).mpr (Or.inr ⟨_, (ht.mem_put.mp hput).2, rfl⟩)
    · exact (hseen _).mpr (Or.inl (h.delivered hold hc))
  · obtain ⟨hold, hdel⟩ := (TenantDb.get_write hget).resolve_left fun hput => Cf.noConfusion (ht.mem_put.mp hput).1
    rw [hmarks, List.mem_append]
    by_cases hbefore : t.id ∈ seen s
    · exact Or.inl (h.again hold hbefore)
    · -- A pending task that was not handed out is taken by this call, with its record.
      obtain ⟨r, hr, heq⟩ := ((hseen _).mp hid).resolve_left hbefore
      have hmem := (ht.unseen r hr (heq ▸ hbefore)).1
      have hkey : r.1 = k := h.key_unique (heq ▸ hmem) (h.unseen hold hbefore).1
      exact absurd (hkey ▸ ht.mem_delete hr) hdel
  · rw [hfirsts] at hp
    rw [henq]
    rcases List.mem_append.mp hp with hp | hp
    · exact h.firstMem p hp
    · exact (hnewFirst p hp).1
  · rw [hfirsts, List.pairwise_append]
    refine ⟨h.firstSorted, ?_, fun p hp p' hp' => ?_⟩
    · have hkeys : (reply.results.map Prod.fst).Pairwise (· < ·) := List.pairwise_map.mpr ht.sorted
      exact List.pairwise_map.mp (hkeys.sublist firsts_keys_sublist)
    · obtain ⟨t, hmem, hid, -⟩ := mem_firsts hp
      exact (hnewFirst p' hp').2 p (h.firstMem p hp) (hid ▸ List.mem_map_of_mem hmem)
  -- A task is handed out again only after it was put back, and this call puts nothing back.
  · rw [hmarks] at heq
    rcases List.append_eq_append_iff.mp heq with ⟨earlier, rfl, hrs⟩ | ⟨later, hold, hpost⟩
    · exact List.mem_append_left _ (ht.once h hrs hmem)
    · cases later with
      | nil =>
        rw [List.append_nil] at hold
        have hrs : reply.results.map (fun r => Mark.handedOut r.2.id) = [] ++ .handedOut id :: post := hpost.symm
        exact hold ▸ ht.once h hrs (by rwa [List.append_nil, hold])
      | cons m later =>
        obtain ⟨rfl, -⟩ := List.cons.inj hpost
        exact h.once pre id later hold hmem

end Writes

/-! ## What the calls are going to write -/

/-- A delivery from records that are tasks takes a stretch of them from the front. -/
theorem dequeueLoop_front {items : List (Key × Value)} (queue : String) (now deadline : Nat) (limit : Nat)
    (hall : ∀ e ∈ items, ∃ t, e.2 = .task t) :
    let d := dequeueLoop queue now deadline limit items
    d.batch = (d.results.flatMap fun r => deliverBatch r.1 r.2) ∧ d.results.map Prod.fst <+: items.map Prod.fst ∧
      ∀ r ∈ d.results, ∃ t, (r.1, .task t) ∈ items ∧ r.2 = t.delivered deadline := by
  induction items generalizing limit with
  | nil => exact ⟨rfl, List.nil_prefix, fun _ hr => nomatch hr⟩
  | cons item items ih =>
    obtain ⟨key, v⟩ := item
    obtain ⟨t, rfl⟩ : ∃ t, v = .task t := hall _ List.mem_cons_self
    by_cases hlimit : limit ≤ 1
    · simp [dequeueLoop, hlimit, Delivery.empty]
    · obtain ⟨hbatch, hfront, hread⟩ := ih (limit - 1) fun e he => hall e (List.mem_cons_of_mem _ he)
      simp only [dequeueLoop, hlimit, if_false, List.flatMap_cons, List.map_cons]
      refine ⟨congrArg _ hbatch, List.cons_prefix_cons.mpr ⟨rfl, hfront⟩, ?_⟩
      refine List.forall_mem_cons.mpr ⟨⟨t, List.mem_cons_self, rfl⟩, fun r hr => ?_⟩
      obtain ⟨t', hmem, heq⟩ := hread r hr
      exact ⟨t', List.mem_cons_of_mem _ hmem, heq⟩

section Shapes
variable {tenant q : String} {s s' : Shared} {i : Nat} {io : StepInput} {f f' g : Frame} {b : WriteBatch}

theorem taken_nil : Taken s [] [] where
  batch := rfl
  sorted := .nil
  unseen _ hr := nomatch hr
  again _ hr := nomatch hr
  rest _ _ _ _ := Or.inr fun _ hr => nomatch hr

theorem batched_nil : Batched q s [] where
  puts _ hop := nomatch hop
  sorted := .nil
  above _ _ _ hp := nomatch hp

theorem taken_scan {limit timeout now : Nat} (hall : AllTasks s.db) (h : Ordered q s) :
    Taken s (deliver q limit timeout now (s.db.scanQueue .pending q)).batch
      (deliver q limit timeout now (s.db.scanQueue .pending q)).results := by
  have htasks : ∀ e ∈ s.db.scanQueue .pending q, ∃ t, e.2 = .task t := fun e he => hall (TenantDb.mem_scanQueue.mp he).1
  obtain ⟨hbatch, ⟨later, hfront⟩, hread⟩ := dequeueLoop_front q now (saturatingAdd now timeout) limit htasks
  have hsorted : ((s.db.scanQueue .pending q).map Prod.fst).Pairwise (· < ·) := List.pairwise_map.mpr OrderedMap.scan_sorted
  rw [← hfront, List.pairwise_append] at hsorted
  have hpending : ∀ r ∈ (deliver q limit timeout now (s.db.scanQueue .pending q)).results,
      ∃ t, s.db.get .pending r.1 = some (.task t) ∧ r.2.id = t.id := fun r hr => by
    obtain ⟨t, hmem, heq⟩ := hread r hr
    exact ⟨t, (TenantDb.mem_scanQueue.mp hmem).1, heq ▸ rfl⟩
  refine ⟨hbatch, List.pairwise_map.mp hsorted.1, fun r hr hnew => ?_, fun r hr hid => ?_, fun k t hget hnew => ?_⟩
  · obtain ⟨t, hget, hid⟩ := hpending r hr
    rw [hid] at hnew ⊢
    exact h.unseen hget hnew
  · obtain ⟨t, hget, hid'⟩ := hpending r hr
    rw [hid'] at hid ⊢
    exact h.again hget hid
  · obtain ⟨n, -, hkey⟩ := h.keys _ (h.unseen hget hnew).1
    have hk : k = encodeKey q n := hkey
    have hmem : (k, .task t) ∈ s.db.scanQueue .pending q :=
      TenantDb.mem_scanQueue.mpr ⟨hget, hk ▸ inQueue_encodeKey q n⟩
    have hk : k ∈ (s.db.scanQueue .pending q).map Prod.fst := List.mem_map_of_mem hmem
    rw [← hfront] at hk
    rcases List.mem_append.mp hk with hk | hk
    · obtain ⟨r, hr, heq⟩ := List.mem_map.mp hk
      exact Or.inl ⟨r, hr, heq⟩
    · exact Or.inr fun r hr => hsorted.2.2 r.1 (List.mem_map_of_mem hr) k hk

namespace Frame

theorem Idle.shape (h : f.Idle) : f.Shape tenant q s := by
  cases f with
  | evictWrite r b => exact h.elim
  | nackDraw key task => exact h.elim
  | replayDraw key task todo b count => exact h.elim
  | mint r now todo b ids =>
    obtain rfl : b = [] := h
    exact batched_nil
  | write kind b held reply =>
    obtain ⟨rfl, -, htasks⟩ := h
    cases kind with
    | enqueue => exact ⟨batched_nil, Or.inl rfl⟩
    | dequeue => exact ⟨htasks ▸ taken_nil, Or.inl htasks⟩
    | nack => exact fun _ _ _ hput => nomatch hput
    | reap => exact fun _ _ _ hput => nomatch hput
    | ack => exact ⟨[], rfl⟩
    | _ => rfl
  | _ => trivial

theorem retries_moves {ms : List Move} {kind : WriteKind} {now : Nat} (hall : AllTasks s.db) (h : Ordered q s)
    (hkind : kind = .nack ∨ kind = .reap) (hms : IsMoves b ms) (hmoved : ∀ m ∈ ms, Moved s.db now kind m) :
    Retries s b := fun c k t hput => by
  obtain ⟨m, hm, -, -, heq⟩ := hms.mem_put.mp hput
  obtain rfl : m.task = t := by simpa [Task.serialize] using heq
  obtain ⟨t', hget, hid, -⟩ := (hmoved m hm).stored hall
  rw [← hid]
  refine h.delivered hget ?_
  rw [(hmoved m hm).src_eq]
  rcases hkind with rfl | rfl <;> simp [WriteKind.source]

theorem Planned.shape (hall : AllTasks s.db) (ho : Ordered q s) (h : Planned s.db f)
    (hw : f.writes ⊆ onQueueWrites) (hdequeue : .dequeue ∉ f.writes) : f.Shape tenant q s := by
  cases h with
  | evict => exact ⟨_, rfl⟩
  | ack => exact ⟨_, rfl⟩
  | cumulativeAck => exact absurd (hw List.mem_cons_self) (by simp [onQueueWrites])
  | purge => exact absurd (hw List.mem_cons_self) (by simp [onQueueWrites])
  | deliver => exact absurd List.mem_cons_self hdequeue
  | move now hkind hms hnodup hmoved =>
    have hretries := retries_moves hall ho hkind hms fun m hm => (hmoved m hm).1
    rcases hkind with rfl | rfl <;> exact hretries
  | retry hget => exact ho.delivered hget (by simp)
  | replay hentries => exact absurd (hw List.mem_cons_self) (by simp [onQueueWrites])

end Frame

/-- A batch of an enqueue with one task more. -/
theorem batched_mint {now : Nat} {payload : Bytes} {id : String} (hb : Batched q s b) (h : Ordered q s)
    (hseq : s.seq + 1 < u64Size) (hnext : s'.seq = nextSeq s.seq) (henq : enqueued s' = enqueued s) :
    Batched q s' (b ++ [enqueueOp q now s.seq payload id]) := by
  have hnext' : s'.seq = s.seq + 1 := hnext.trans (Nat.mod_eq_of_lt hseq)
  have hpairs : putPairs (b ++ [enqueueOp q now s.seq payload id]) = putPairs b ++ [(encodeKey q s.seq, id)] := by
    rw [putPairs, List.filterMap_append]
    rfl
  have hbelow : ∀ p ∈ putPairs b, p.1 < encodeKey q s.seq := fun p hp => by
    obtain ⟨c, t, hput, -⟩ := mem_putPairs.mp hp
    obtain ⟨n, t', heq, hn⟩ := hb.puts _ hput
    rw [(WriteOp.put.inj heq).2.1]
    exact encodeKey_lt h.seq hn
  refine ⟨fun op hop => ?_, ?_, fun p hp p' hp' => ?_⟩
  · rcases List.mem_append.mp hop with hop | hop
    · obtain ⟨n, t, heq, hn⟩ := hb.puts op hop
      exact ⟨n, t, heq, by omega⟩
    · exact ⟨s.seq, _, List.mem_singleton.mp hop, by omega⟩
  · rw [hpairs, List.pairwise_append]
    refine ⟨hb.sorted, List.pairwise_singleton _ _, fun p hp p' hp' => ?_⟩
    obtain rfl := List.mem_singleton.mp hp'
    exact hbelow p hp
  · rw [henq] at hp
    rw [hpairs] at hp'
    rcases List.mem_append.mp hp' with hp' | hp'
    · exact hb.above p hp p' hp'
    · obtain rfl := List.mem_singleton.mp hp'
      obtain ⟨n, hn, hkey⟩ := h.keys p hp
      rw [hkey]
      exact encodeKey_lt h.seq hn

end Shapes

/-! ## The step -/

/-- What a call that does not hold the queue's lock can do. -/
structure Aside (s s' : Shared) : Prop where
  sameEnqueued : enqueued s' = enqueued s
  sameHandedOut : handedOut s' = handedOut s
  seq : s.seq ≤ s'.seq
  pending : ∀ k t, s'.db.get .pending k = some (.task t) → s.db.get .pending k = some (.task t) ∨ t.id ∈ seen s

section Steps
variable {tenant q : String} {s s' : Shared} {i j : Nat} {io : StepInput} {f f' g : Frame} {b : WriteBatch}
  {rs : List (Key × Task)}

theorem Aside.of_same (hdb : s'.db = s.db) (hseq : s.seq ≤ s'.seq) (henq : enqueued s' = enqueued s)
    (hout : handedOut s' = handedOut s) : Aside s s' := ⟨henq, hout, hseq, fun _ _ hget => Or.inl (hdb ▸ hget)⟩

theorem Aside.sameSeen (h : Aside s s') : seen s' = seen s := by rw [seen, seen, h.sameHandedOut]

theorem Batched.mono (hb : Batched q s b) (h : Aside s s') : Batched q s' b where
  puts op hop := by
    obtain ⟨n, t, heq, hn⟩ := hb.puts op hop
    exact ⟨n, t, heq, Nat.lt_of_lt_of_le hn h.seq⟩
  sorted := hb.sorted
  above := h.sameEnqueued ▸ hb.above

theorem Taken.mono {es : List Event} (ht : Taken s b rs) (h : Aside s s') (hhist : s'.history = s.history ++ es) :
    Taken s' b rs where
  batch := ht.batch
  sorted := ht.sorted
  unseen := by
    rw [h.sameSeen, h.sameEnqueued]
    exact ht.unseen
  again r hr hid := by
    rw [marks_append hhist]
    exact List.mem_append_left _ (ht.again r hr (h.sameSeen ▸ hid))
  rest k t hget hnew := by
    rw [h.sameSeen] at hnew
    exact ht.rest k t ((h.pending k t hget).resolve_right hnew) hnew

theorem Retries.mono {es : List Event} (hb : Retries s b) (hhist : s'.history = s.history ++ es) : Retries s' b :=
  fun c k t hput => seen_subset hhist (hb c k t hput)

/-- What a call is going to write stays in order while others go on. -/
theorem Frame.Shape.mono {es : List Event} (hg : g.Shape tenant q s) (honq : g.OnQueue q)
    (hhist : s'.history = s.history ++ es) (h : .queue (lockName tenant q) ∈ g.held tenant → Aside s s') :
    g.Shape tenant q s' := by
  cases g with
  | mint r now todo b ids =>
    have hq : r.queue = q := honq
    exact Batched.mono hg (h (hq ▸ List.mem_singleton_self _))
  | nackDraw key task => exact seen_subset hhist hg
  | write kind b held reply =>
    cases kind with
    | enqueue =>
      obtain ⟨hb, hheld⟩ := hg
      rcases hheld with rfl | hheld
      · exact ⟨batched_nil, Or.inl rfl⟩
      · exact ⟨hb.mono (h hheld), Or.inr hheld⟩
    | dequeue =>
      obtain ⟨ht, hheld⟩ := hg
      rcases hheld with hnil | hheld
      · have hb : b = [] := by rw [ht.batch, hnil, List.flatMap_nil]
        subst hb
        exact ⟨hnil ▸ taken_nil, Or.inl hnil⟩
      · exact ⟨ht.mono (h hheld) hhist, Or.inr hheld⟩
    | nack => exact Retries.mono hg hhist
    | reap => exact Retries.mono hg hhist
    | _ => exact hg
  | _ => exact hg

theorem enqueued_draw {key : Key} {id : String} : enqueued (s.draw i key id) = enqueued s := by
  rw [enqueued_append rfl]
  exact List.append_nil _

theorem handedOut_draw {key : Key} {id : String} : handedOut (s.draw i key id) = handedOut s := by
  rw [handedOut_append rfl]
  exact List.append_nil _

theorem marks_draw {key : Key} {id : String} : marks (s.draw i key id) = marks s := by
  rw [marks_append rfl]
  exact List.append_nil _

/-- The writes that neither enqueue nor hand out. -/
theorem enqueued_write_of_ne {kind : WriteKind} {reply : Option Reply} (h : kind ≠ .enqueue) :
    enqueued (s.write i kind b reply) = enqueued s := by
  rw [enqueued_write, if_neg h, List.append_nil]

theorem handedOut_write_of_ne {kind : WriteKind} {reply : Option Reply} (h : kind ≠ .dequeue) :
    handedOut (s.write i kind b reply) = handedOut s := by
  rw [handedOut_write, if_neg h, List.append_nil]

/-- A call that does not hold the lock of the queue stands aside. -/
theorem step_aside (hf : f.InOrder tenant q s i) (hseq : f.draws = true → s.seq + 1 < u64Size)
    (hlock : .queue (lockName tenant q) ∉ f.held tenant) (h : Frame.step tenant s i f io = some (s', f')) : Aside s s' := by
  have hsame : Aside s s := .of_same rfl (Nat.le_refl _) rfl rfl
  cases Frame.step_effect h with
  | quiet locks hidle => exact .of_same rfl (Nat.le_refl _) rfl rfl
  | plan hplan => exact hsame
  | unlock => exact .of_same rfl (Nat.le_refl _) rfl rfl
  | @mint r now payload todo batch ids hnew =>
    -- An enqueue makes its tasks under the lock of the queue.
    have hq : r.queue = q := hf.onQueue
    exact absurd (hq ▸ List.mem_singleton_self _) hlock
  | @retry key task =>
    have hnext := nextSeq_eq (hseq rfl)
    exact .of_same rfl (by simp only [Shared.draw]; omega) enqueued_draw handedOut_draw
  | replay => exact absurd (hf.writes List.mem_cons_self) (by simp [Frame.onQueueWrites])
  | @evict r b f' hidle =>
    have hq : r.queue = q := hf.onQueue
    exact absurd (hq ▸ List.mem_singleton_self _) hlock
  | @write kind b held reply =>
    have hshape := hf.shape
    have hseqs : s.seq ≤ (s.write i kind b (some reply)).seq := Nat.le_refl _
    cases kind with
    | enqueue =>
      obtain ⟨-, hheld⟩ := hshape
      -- Without the lock there is nothing in the batch.
      obtain rfl := hheld.resolve_right hlock
      exact .of_same rfl hseqs (by rw [enqueued_write]; exact List.append_nil _) (handedOut_write_of_ne (by simp))
    | dequeue =>
      obtain ⟨ht, hheld⟩ := hshape
      have hnil := hheld.resolve_right hlock
      have hb : b = [] := by rw [ht.batch, hnil, List.flatMap_nil]
      subst hb
      refine .of_same rfl hseqs (enqueued_write_of_ne (by simp)) ?_
      rw [handedOut_write, if_pos rfl, Option.elim_some, hnil, List.append_nil]
    -- What is written to pending without the lock has been handed out before.
    | nack =>
      refine ⟨enqueued_write_of_ne (by simp), handedOut_write_of_ne (by simp), hseqs, fun k t hget => ?_⟩
      exact (TenantDb.get_write hget).elim (fun hput => Or.inr (hshape _ k t hput)) fun hold => Or.inl hold.1
    | reap =>
      refine ⟨enqueued_write_of_ne (by simp), handedOut_write_of_ne (by simp), hseqs, fun k t hget => ?_⟩
      exact (TenantDb.get_write hget).elim (fun hput => Or.inr (hshape _ k t hput)) fun hold => Or.inl hold.1
    | ack =>
      obtain ⟨keys, rfl⟩ := hshape
      refine ⟨enqueued_write_of_ne (by simp), handedOut_write_of_ne (by simp), hseqs, fun k t hget => ?_⟩
      exact Or.inl ((TenantDb.get_write hget).resolve_left put_not_mem_deletes).1
    | _ =>
      obtain rfl : b = [] := hshape
      exact .of_same rfl hseqs (enqueued_write_of_ne (by simp)) (handedOut_write_of_ne (by simp))

/-- A step that neither enqueues nor hands out keeps the order. -/
theorem step_ordered (ho : Ordered q s) (hk : f.Known s i) (hf : f.InOrder tenant q s i)
    (hseq : f.draws = true → s.seq + 1 < u64Size) (h : Frame.step tenant s i f io = some (s', f')) : Ordered q s' := by
  have hsame : ∀ {locks : Lock → Option Nat}, Ordered q { s with locks := locks } :=
    ⟨ho.seq, ho.keys, ho.issued, ho.sorted, ho.distinct, ho.unseen, ho.delivered, ho.again, ho.firstMem, ho.firstSorted, ho.once⟩
  have hnil : ∀ m : List Mark, m = m ++ ([] : List String).map .putBack := fun m => (List.append_nil m).symm
  cases Frame.step_effect h with
  | quiet locks hidle => exact hsame
  | plan hplan => exact ho
  | unlock => exact hsame
  | @mint r now payload todo batch ids hnew =>
    have hlt := hseq rfl
    have hnext := nextSeq_eq hlt
    exact ho.quiet [] enqueued_draw handedOut_draw (marks_draw.trans (hnil _)) (by simp only [Shared.draw]; omega)
      (by simp only [Shared.draw]; omega) (List.subset_cons_self _ _) fun c k t hget => Or.inl hget
  -- A number that is drawn changes nothing yet.
  | @retry key task =>
    have hlt := hseq rfl
    have hnext := nextSeq_eq hlt
    exact ho.quiet [] enqueued_draw handedOut_draw (marks_draw.trans (hnil _)) (by simp only [Shared.draw]; omega)
      (by simp only [Shared.draw]; omega) (List.Subset.refl _) fun c k t hget => Or.inl hget
  | replay => exact absurd (hf.writes List.mem_cons_self) (by simp [Frame.onQueueWrites])
  | @evict r b f' hidle =>
    obtain ⟨keys, rfl⟩ := hf.shape
    refine ho.quiet [] (enqueued_write_of_ne (by simp)) (handedOut_write_of_ne (by simp)) ?_ (Nat.le_refl _) ho.seq
      (List.Subset.refl _) fun c k t hget => Or.inl ((TenantDb.get_write hget).resolve_left put_not_mem_deletes).1
    rw [marks_append rfl]
    rfl
  | @write kind b held reply =>
    have hshape := hf.shape
    -- A nack and a sweep put tasks back, each with a mark that it may be handed out again.
    have hretry : ∀ {kind : WriteKind}, kind = .nack ∨ kind = .reap → Retries s b →
        Ordered q (s.write i kind b (some reply)) := fun hkind hb => by
      refine ho.quiet (pendingIds b) (enqueued_write_of_ne (by rcases hkind with rfl | rfl <;> simp))
        (handedOut_write_of_ne (by rcases hkind with rfl | rfl <;> simp)) ?_ (Nat.le_refl _) ho.seq
        (List.Subset.refl _) fun c k t hget => ?_
      · rw [marks_append rfl, List.flatMap_singleton]
        rcases hkind with rfl | rfl <;> rfl
      · rcases TenantDb.get_write hget with hput | ⟨hold, -⟩
        · refine Or.inr ⟨hb c k t hput, ?_⟩
          rintro rfl
          exact List.mem_filterMap.mpr ⟨_, hput, rfl⟩
        · exact Or.inl hold
    cases kind with
    -- The two writes that the order is about.
    | enqueue =>
      refine ho.enqueue hshape.1 hk.nodup (fun id hid => hf.fresh id hid) fun id hid => hk.issued (Or.inl hid)
    | dequeue => exact ho.dequeue hshape.1
    | nack => exact hretry (Or.inl rfl) hshape
    | reap => exact hretry (Or.inr rfl) hshape
    | ack =>
      obtain ⟨keys, rfl⟩ := hshape
      refine ho.quiet [] (enqueued_write_of_ne (by simp)) (handedOut_write_of_ne (by simp)) ?_ (Nat.le_refl _) ho.seq
        (List.Subset.refl _) fun c k t hget => Or.inl ((TenantDb.get_write hget).resolve_left put_not_mem_deletes).1
      rw [marks_append rfl]
      rfl
    | _ =>
      obtain rfl : b = [] := hshape
      refine ho.quiet [] (enqueued_write_of_ne (by simp)) (handedOut_write_of_ne (by simp)) ?_ (Nat.le_refl _) ho.seq
        (List.Subset.refl _) fun c k t hget => Or.inl hget
      rw [marks_append rfl]
      rfl

/-- What a call that does not dequeue is going to write next is in order. -/
theorem shape_of_effect (hall : AllTasks s.db) (ho : Ordered q s) (hf : f.InOrder tenant q s i)
    (hdequeue : .dequeue ∉ f.writes) (hseq : f.draws = true → s.seq + 1 < u64Size)
    (h : Frame.step tenant s i f io = some (s', f')) : f'.Shape tenant q s' := by
  cases Frame.step_effect h with
  | quiet locks hidle => exact hidle.shape
  | plan hplan =>
    exact hplan.shape hall ho (fun _ hkind => hf.writes (Frame.step_writes h hkind)) fun hin => hdequeue (Frame.step_writes h hin)
  | unlock => trivial
  | @mint r now payload todo batch ids hnew =>
    have hq : r.queue = q := hf.onQueue
    have hb : Batched q s batch := hf.shape
    have hb' : Batched q { s.draw i (encodeKey r.queue s.seq) io.id with issued := io.id :: s.issued }
        (batch ++ [enqueueOp r.queue now s.seq payload io.id]) := by
      rw [hq]
      exact batched_mint hb ho (hseq rfl) rfl enqueued_draw
    unfold Frame.nextMint
    split
    · exact ⟨hb', Or.inr (hq ▸ List.mem_singleton_self _)⟩
    · exact hb'
  | @retry key task =>
    have hseen : task.id ∈ seen s := hf.shape
    intro c k t hput
    obtain ⟨m, hm, -, -, heq⟩ := (retryBatch_moves key task s.seq).mem_put.mp hput
    obtain rfl := List.mem_singleton.mp hm
    cases heq
    exact seen_subset rfl hseen
  | replay => exact absurd (hf.writes List.mem_cons_self) (by simp [Frame.onQueueWrites])
  | evict hidle => exact hidle.shape
  | write => trivial

theorem step_shapes (hall : AllTasks s.db) (ho : Ordered q s) (hf : f.InOrder tenant q s i)
    (hseq : f.draws = true → s.seq + 1 < u64Size) (h : Frame.step tenant s i f io = some (s', f')) :
    f'.Shape tenant q s' := by
  cases Frame.stepped_of_step h with
  | dequeueLock => exact Frame.beginDequeue_idle.shape
  | cappedLock => trivial
  | countFull => trivial
  | countInflight => exact Frame.beginDequeue_idle.shape
  | dequeueScan queue limit timeout =>
    obtain rfl : queue = q := hf.onQueue
    rcases Frame.writeOr_eq .dequeue (deliver queue limit timeout io.now (s.db.scanQueue .pending queue)).batch
      [.queue (lockName tenant queue)]
      (.delivered (deliver queue limit timeout io.now (s.db.scanQueue .pending queue)).results) with
      ⟨-, heq⟩ | ⟨-, heq⟩ <;> rw [heq]
    · trivial
    · exact ⟨taken_scan hall ho, Or.inr (List.mem_singleton_self _)⟩
  | write => trivial
  | _ => exact shape_of_effect hall ho hf (by simp [Frame.writes]) hseq h

/-- What is enqueued by a step was new, and its call is done. -/
theorem step_enqueued (hf : f.InOrder tenant q s i) (h : Frame.step tenant s i f io = some (s', f')) :
    ∀ p ∈ enqueued s', p ∈ enqueued s ∨ (p.2 ∈ f.fresh ∧ f'.fresh = []) := by
  cases Frame.step_effect h with
  | mint => exact fun p hp => Or.inl (enqueued_draw ▸ hp)
  | retry => exact fun p hp => Or.inl (enqueued_draw ▸ hp)
  | replay => exact absurd (hf.writes List.mem_cons_self) (by simp [Frame.onQueueWrites])
  | evict =>
    intro p hp
    rw [enqueued_write_of_ne (by simp)] at hp
    exact Or.inl hp
  | @write kind b held reply =>
    intro p hp
    by_cases hkind : kind = .enqueue
    · subst hkind
      rw [enqueued_write, if_pos rfl] at hp
      refine (List.mem_append.mp hp).imp_right fun hp => ⟨?_, rfl⟩
      have hid : p.2 ∈ (putPairs b).map Prod.snd := List.mem_map_of_mem hp
      rwa [putPairs_ids] at hid
    · rw [enqueued_write_of_ne hkind] at hp
      exact Or.inl hp
  | _ => exact fun p hp => Or.inl hp

theorem step_onQueue (hf : f.OnQueue q) (h : Frame.step tenant s i f io = some (s', f')) : f'.OnQueue q := by
  unfold Frame.OnQueue at hf ⊢
  rcases (Frame.step_shape h).1 with heq | heq <;> rw [heq]
  · exact hf
  · trivial

end Steps

theorem start_inOrder {tenant q : String} {s : Shared} {i : Nat} {call : Call} (h : call.onQueue q = true) :
    (Frame.start tenant call).InOrder tenant q s i := by
  have hidle := Frame.start_idle tenant call
  have hfresh : ∀ id ∈ (Frame.start tenant call).fresh, ∀ p ∈ enqueued s, p.2 ≠ id := fun id hid => by
    rw [hidle.bare.1] at hid
    cases hid
  cases call with
  | enqueueBatch queue payloads policy =>
    have hq : queue = q := of_decide_eq_true h
    exact ⟨hq, by simp [Frame.start, Frame.writes, Frame.onQueueWrites], hfresh, trivial⟩
  | dequeueBatch queue limit timeout =>
    have hq : queue = q := of_decide_eq_true h
    exact ⟨hq, by simp [Frame.start, Frame.writes, Frame.onQueueWrites], hfresh, trivial⟩
  | dequeueWithMaxInflight queue limit timeout maxInflight =>
    have hq : queue = q := of_decide_eq_true h
    refine ⟨?_, ?_, hfresh, hidle.shape⟩
    · simp only [Frame.start]
      split
      · trivial
      · exact hq
    · simp only [Frame.start]
      split <;> simp [Frame.writes, Frame.onQueueWrites]
  | ackBatch keys =>
    refine ⟨?_, fun kind hkind => ?_, hfresh, hidle.shape⟩
    · unfold Frame.OnQueue
      rcases (Frame.nextAckLock_shape tenant keys [] (Frame.ackLockList tenant keys)).1 with heq | heq <;>
        rw [Frame.start, heq] <;> trivial
    · have hack := Frame.nextAckLock_writes keys [] (Frame.ackLockList tenant keys) hkind
      obtain rfl := List.mem_singleton.mp hack
      simp [Frame.onQueueWrites]
  | nack key => exact ⟨trivial, by simp [Frame.start, Frame.writes, Frame.onQueueWrites], hfresh, trivial⟩
  | reapInflight queue => exact ⟨trivial, by simp [Frame.start, Frame.writes, Frame.onQueueWrites], hfresh, trivial⟩
  | _ => cases h

/-- In every interleaving of the calls on a queue in which the counter does not wrap, tasks are delivered for the
    first time in the order of their enqueues. -/
theorem fifo_outline {tenant q : String} : Outline (system tenant) (fun c l => inSequence q c l = true ∧ Grounded tenant c)
    (Ordered q) (Frame.InOrder tenant q) fun _ _ => True where
  call {c k} _ hok := start_inOrder (Bool.and_eq_true_iff.mp hok.1).2
  callApart _ := ⟨trivial, trivial⟩
  env {c} h hok := by
    -- A call on another tenant draws a number, and leaves the queue aside.
    have hlt : c.shared.seq + 1 < u64Size := of_decide_eq_true (Bool.and_eq_true_iff.mp hok.1).1
    have hnext := nextSeq_eq hlt
    have haside : Aside c.shared ((system tenant).env c.shared) :=
      .of_same rfl (by simp only [system]; omega) rfl rfl
    refine ⟨?_, fun hf => ⟨hf.onQueue, hf.writes, hf.fresh, ?_⟩⟩
    · exact h.shared.quiet [] rfl rfl (List.append_nil _).symm haside.seq (by simp only [system]; omega)
        (List.Subset.refl _) fun _ _ _ hget => Or.inl hget
    · exact hf.shape.mono hf.onQueue (List.append_nil _).symm fun _ => haside
  own {c i f a s f'} h hok hf hs := by
    have hknown := hok.2.known.frames hf
    have hinorder := h.frames hf
    have hseq : f.draws = true → c.shared.seq + 1 < u64Size := fun hdraws => by
      simpa [unwrapped, hf, hdraws] using (Bool.and_eq_true_iff.mp hok.1).1
    refine ⟨step_ordered h.shared hknown hinorder hseq hs, step_onQueue hinorder.onQueue hs,
      fun _ hkind => hinorder.writes (Frame.step_writes hs hkind), fun id hid p hp => ?_,
      step_shapes hok.2.known.shared.tasks h.shared hinorder hseq hs⟩
    rcases step_enqueued hinorder hs p hp with hold | ⟨-, hnil⟩
    · rcases (step_ids hok.2.known.shared hknown hs).fresh hid with hfresh | hnew
      · exact hinorder.fresh id hfresh p hold
      · exact fun heq => hnew (heq ▸ h.shared.issued p hold)
    · rw [hnil] at hid
      cases hid
  others {c i f a s f' j g} h hok hf hs hij hg := by
    have hinorder := h.frames hf
    have hgorder := h.frames hg
    have hseq : f.draws = true → c.shared.seq + 1 < u64Size := fun hdraws => by
      simpa [unwrapped, hf, hdraws] using (Bool.and_eq_true_iff.mp hok.1).1
    obtain ⟨es, hes⟩ := Frame.step_history hs
    refine ⟨⟨hgorder.onQueue, hgorder.writes, fun id hid p hp => ?_, ?_⟩, trivial, trivial⟩
    · rcases step_enqueued hinorder hs p hp with hold | ⟨hfresh, -⟩
      · exact hgorder.fresh id hid p hold
      · exact fun heq => (hok.2.known.apart hij hf hg hfresh).1 (heq ▸ hid)
    -- While this call holds the lock of the queue, the other one does not.
    · refine hgorder.shape.mono hgorder.onQueue hes fun hlock => step_aside hinorder hseq (fun hlock' => ?_) hs
      exact hij ((hok.2.locks.frames hf).unique (hok.2.locks.frames hg) hlock' hlock)

theorem ordered_start {q : String} {now : Nat} : Ordered q (.start now) where
  seq := Nat.mod_lt _ (by decide)
  keys _ hp := nomatch hp
  issued _ hp := nomatch hp
  sorted := .nil
  distinct := .nil
  unseen hget := by simp [Shared.start] at hget
  delivered hget := by simp [Shared.start] at hget
  again hget := by simp [Shared.start] at hget
  firstMem _ hp := nomatch hp
  firstSorted := .nil
  once _ _ _ heq := absurd heq (by simp [marks, Shared.start])

theorem Ordered.fifo {q : String} {s : Shared} (h : Ordered q s) : Fifo s where
  order := by
    have hantisymm : Std.Antisymm fun a b : Key × String => a.1 < b.1 := ⟨fun _ _ hlt hlt' => absurd hlt' hlt.asymm⟩
    have hnodup : (firsts [] (handedOut s)).Nodup := h.firstSorted.imp fun hlt heq => hlt.ne (congrArg Prod.fst heq)
    have hsub := List.subperm_of_subset hnodup h.firstMem
    exact (List.sublist_of_subperm_of_pairwise hsub h.firstSorted h.sorted).map Prod.snd
  distinct := h.distinct
  once := h.once

/-- In every interleaving of enqueues, dequeues, acknowledgements, nacks and sweeps of a queue in which the counter
    does not wrap, first deliveries are in the order of the enqueues and exclusive. -/
theorem fifo_of_inSequence {tenant q : String} {now : Nat} {c : Config Shared Frame}
    (h : (system tenant).Run (fun c l => inSequence q c l = true) ⟨.start now, []⟩ c) : Fifo c.shared := by
  have hstart : Grounded tenant ⟨.start now, []⟩ := grounded_of_known known_start.shared
  have hground := Runs.Run.strengthen (fun hg _ hn => Grounded.next hg hn) h hstart
  exact (fifo_outline.run hground (.start ordered_start)).shared.fifo

/-- Two tasks are enqueued, one is delivered and swept back, then both are delivered. -/
def sweepBetween : List (Label Call StepInput) :=
  [.call (.enqueueBatch "q" [[1], [2]] unlimited), .run 0 { now := 1 }, .run 0 { id := "a" }, .run 0 { id := "b" }, .run 0 {},
    .run 0 {}, .call (.dequeueBatch "q" 1 1), .run 1 {}, .run 1 { now := 1 }, .run 1 {}, .run 1 {},
    .call (.reapInflight "q"), .run 2 { now := 9 }, .run 2 {}, .run 2 {},
    .call (.dequeueBatch "q" 2 1), .run 3 {}, .run 3 { now := 9 }, .run 3 {}, .run 3 {}]

theorem fifo_sweepBetween : ∃ c, (system "t").execWhile (inSequence "q") ⟨.start 1, []⟩ sweepBetween = some c ∧
    seen c.shared = ["a", "a", "b"] ∧ Fifo c.shared := by
  have hsome : ((system "t").execWhile (inSequence "q") ⟨.start 1, []⟩ sweepBetween).isSome := by decide
  obtain ⟨c, hc⟩ := Option.isSome_iff_exists.mp hsome
  have hseen : ((system "t").execWhile (inSequence "q") ⟨.start 1, []⟩ sweepBetween).map (fun c => seen c.shared) =
      some ["a", "a", "b"] := by decide
  rw [hc] at hseen
  exact ⟨c, hc, Option.some.inj hseen, fifo_of_inSequence (Runs.run_of_execWhile hc)⟩

/-- Two tasks are enqueued one after the other, the first under the last number, and both are delivered. -/
def enqueueAtWrap : List (Label Call StepInput) :=
  [.call (.enqueueBatch "q" [[1]] unlimited), .run 0 {}, .run 0 { id := "a" }, .run 0 {}, .run 0 {},
    .call (.enqueueBatch "q" [[2]] unlimited), .run 1 {}, .run 1 { id := "b" }, .run 1 {}, .run 1 {},
    .call (.dequeueBatch "q" 2 1), .run 2 {}, .run 2 {}, .run 2 {}, .run 2 {}]

/-- When the counter wraps, the task that was enqueued last is delivered first. -/
theorem not_fifo_wrap : ∃ c, (system "t").Run (fun _ l => ∀ call, l = .call call → call.onQueue "q" = true)
    ⟨.start (u64Size - 1), []⟩ c ∧ ¬Fifo c.shared := by
  have hsome : ((system "t").exec ⟨.start (u64Size - 1), []⟩ enqueueAtWrap).isSome := by decide
  obtain ⟨c, hc⟩ := Option.isSome_iff_exists.mp hsome
  have hlists : ((system "t").exec ⟨.start (u64Size - 1), []⟩ enqueueAtWrap).map (fun c =>
      ((firsts [] (handedOut c.shared)).map Prod.snd, (enqueued c.shared).map Prod.snd)) = some (["b", "a"], ["a", "b"]) := by
    decide
  rw [hc, Option.map_some, Option.some.injEq, Prod.mk.injEq] at hlists
  refine ⟨c, Runs.run_of_exec_forall hc ?_, fun h => ?_⟩
  · simp [enqueueAtWrap, Call.onQueue]
  · have horder := h.order
    rw [hlists.1, hlists.2] at horder
    exact absurd horder (by decide)

end RocksQueue
