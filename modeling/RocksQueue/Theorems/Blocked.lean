import RocksQueue.Theorems.Isolation
import RocksQueue.Theorems.Quota

/-! # A blocked producer

An enqueue that waits for space holds the lock of its queue, so no dequeue of the queue gets on, and what
gets on takes nothing out of pending (`pending_le_of_run`). A cumulative acknowledgement of all inflight
records gets on. So the producer can be unblocked exactly if the pending records alone leave room
(`unblockable_iff`). -/

namespace RocksQueue
open Interleaving

/-- The batch takes nothing out of pending. -/
def SparesPending (b : WriteBatch) : Prop := ∀ k, .delete .pending k ∉ b

namespace Frame
variable {f : Frame}

/-- What the frame is going to write takes nothing out of pending, unless it is a dequeue or an eviction. -/
def LeavesPending : Frame → Prop
  | .mint _ _ _ b _ => SparesPending b
  | .replayDraw _ _ _ b _ => SparesPending b
  | .write kind b _ _ => kind ≠ .dequeue → SparesPending b
  | _ => True

/-- Only a dequeue and an eviction take records from pending. -/
theorem Fits.leavesPending (h : f.Fits) : f.LeavesPending := by
  cases f with
  | mint r now todo b ids =>
    intro k hdel
    cases h.does_of rfl _ hdel
  | replayDraw key task todo b count =>
    intro k hdel
    cases h.does_of rfl _ hdel
  | write kind b held reply =>
    intro hne k hdel
    cases kind with
    | dequeue => exact hne rfl
    | evict =>
      rw [h.evicts rfl] at hdel
      cases hdel
    | _ => cases h.does_of rfl _ hdel
  | _ => trivial

end Frame

/-! ## Steps of consumers -/

/-- The calls by which consumers of a queue release space. -/
def Call.Consumes (queue : String) : Call → Prop
  | .dequeueBatch queue' _ _ => queue' = queue
  | .dequeueWithMaxInflight queue' _ _ _ => queue' = queue
  | .ackBatch keys => ∀ key ∈ keys, inQueue queue key = true
  | .nack key => inQueue queue key = true
  | .cumulativeAck queue' _ => queue' = queue
  | .reapInflight queue' => queue' = queue
  | _ => False

/-- The frame is one of a call by which a consumer releases space. -/
def Frame.Consumes (tenant queue : String) : Frame → Prop
  | .dequeueLock queue' _ _ _ => queue' = queue
  | .countInflight queue' _ _ _ => queue' = queue
  | .dequeueScan queue' _ _ => queue' = queue
  | .cumulativeScan queue' _ => queue' = queue
  | .reapScan queue' => queue' = queue
  | .ackLocks _ _ _ => True
  | .ackGet _ _ _ _ _ => True
  | .nackGet _ => True
  | .nackDraw _ _ => True
  | .write .dequeue _ held _ => held = [.queue (lockName tenant queue)]
  | .write .ack _ _ _ => True
  | .write .cumulativeAck _ _ _ => True
  | .write .nack _ _ _ => True
  | .write .reap _ _ _ => True
  | .unlock _ _ => True
  | _ => False

/-- A step of consumers of the queue other than thread `i`. -/
def ByConsumers (tenant queue : String) (i : Nat) (c : Config Shared Frame) : Label Call StepInput → Prop
  | .call call => call.Consumes queue
  | .run j _ => j ≠ i ∧ ∃ f, c.threads[j]? = some f ∧ f.Consumes tenant queue
  | .env => False

/-- The enqueue `r` is in the wait loop of `BacklogPolicy::Block`. -/
def Frame.Waits (r : EnqueueRequest) (quota : Nat) : Frame → Prop
  | .quotaPending r' quota' deadline => r' = r ∧ quota' = quota ∧ deadline.isSome
  | .quotaInflight r' quota' deadline _ => r' = r ∧ quota' = quota ∧ deadline.isSome
  | .quotaDlq r' quota' deadline _ _ => r' = r ∧ quota' = quota ∧ deadline.isSome
  | _ => False

section Consumers
variable {tenant queue : String} {r : EnqueueRequest} {quota i : Nat} {c c' : Config Shared Frame} {f : Frame}

theorem Frame.Waits.held (h : f.Waits r quota) : f.held tenant = [.queue (lockName tenant r.queue)] := by
  cases f with
  | quotaPending r' quota' deadline => exact h.1 ▸ rfl
  | quotaInflight r' quota' deadline pending => exact h.1 ▸ rfl
  | quotaDlq r' quota' deadline pending inflight => exact h.1 ▸ rfl
  | _ => exact h.elim

theorem holds_of_reached {A : Shared → Nat → Frame → Prop}
    (O : ∀ {ok : Config Shared Frame → Label Call StepInput → Prop},
      Outline (system tenant) ok (fun _ => True) A fun _ _ => True) (h : Reached tenant c) :
    Holds (fun _ => True) A (fun _ _ => True) c := by
  have hall : Outline (system tenant) (fun _ _ => True) (fun _ => True) A fun _ _ => True := O
  induction h with
  | start now => exact .start trivial
  | step _ hn ih => exact hall.next ih trivial hn
  | restart now _ _ => exact .start trivial

/-- A batch that takes nothing out of a family does not lower a count. -/
theorem count_le_write {p : Key → Bool} {b : WriteBatch} (h : SparesPending b) (db : TenantDb) :
    db.count .pending p ≤ (db.write b).count .pending p := by
  induction b generalizing db with
  | nil => exact Nat.le_refl _
  | cons op b ih =>
    have hop : db.count .pending p ≤ (db.apply op).count .pending p := by
      cases op with
      | put c k v =>
        rw [TenantDb.count_apply_put]
        exact Nat.le_add_right _ _
      | delete c k =>
        have hc : .pending ≠ c := fun heq => h k (heq ▸ List.mem_cons_self)
        have hdelete : (db.apply (.delete c k)).count .pending p + _ = db.count .pending p := TenantDb.count_apply_delete
        rw [if_neg fun hand => hc hand.1, Nat.add_zero] at hdelete
        exact Nat.le_of_eq hdelete.symm
    exact Nat.le_trans hop (ih (fun k hdel => h k (List.mem_cons_of_mem _ hdel)) (db.apply op))

/-- While the producer waits, no consumer takes a record out of pending. -/
theorem pending_le_step {l : Label Call StepInput} (hlocks : Holds (fun _ => True) (Frame.Holding tenant) (fun _ _ => True) c)
    (hfits : Holds (fun _ => True) (fun (_ : Shared) (_ : Nat) f => f.Fits) (fun _ _ => True) c)
    (hf : c.threads[i]? = some f) (hheld : f.held tenant = [.queue (lockName tenant queue)])
    (hl : ByConsumers tenant queue i c l) (hn : (system tenant).next c l = some c') :
    c'.threads[i]? = some f ∧ c.shared.db.countPrefix .pending queue ≤ c'.shared.db.countPrefix .pending queue := by
  have hlen := (List.getElem?_eq_some_iff.mp hf).1
  cases l with
  | call call =>
    cases hn
    exact ⟨by rw [List.getElem?_append_left hlen, hf], Nat.le_refl _⟩
  | env => exact hl.elim
  | run j a =>
    obtain ⟨hij, g, hg, hconsumes⟩ := hl
    obtain ⟨g', s, g'', hg', hs, rfl⟩ := System.next_run_inv hn
    obtain rfl := Option.some.inj (hg.symm.trans hg')
    refine ⟨by rw [List.getElem?_set_ne hij, hf], ?_⟩
    cases Frame.step_effect hs with
    | evict => exact hconsumes.elim
    | @write kind b held reply =>
      refine count_le_write ((hfits.frames hg).leavesPending fun hkind => ?_) _
      subst hkind
      obtain rfl : held = [.queue (lockName tenant queue)] := hconsumes
      have hproducer : Lock.queue (lockName tenant queue) ∈ f.held tenant := hheld ▸ List.mem_singleton_self _
      exact hij ((hlocks.frames hg).unique (hlocks.frames hf) (List.mem_singleton_self _) hproducer)
    | _ => exact Nat.le_refl _

theorem pending_le_of_run (h : Reached tenant c) (hf : c.threads[i]? = some f)
    (hheld : f.held tenant = [.queue (lockName tenant queue)])
    (hrun : (system tenant).Run (ByConsumers tenant queue i) c c') :
    c.shared.db.countPrefix .pending queue ≤ c'.shared.db.countPrefix .pending queue := by
  have hall : Reached tenant c' ∧ c'.threads[i]? = some f ∧
      c.shared.db.countPrefix .pending queue ≤ c'.shared.db.countPrefix .pending queue := by
    refine hrun.invariant (I := fun d => Reached tenant d ∧ d.threads[i]? = some f ∧
      c.shared.db.countPrefix .pending queue ≤ d.shared.db.countPrefix .pending queue) ?_ ⟨h, hf, Nat.le_refl _⟩
    rintro d l d' ⟨hd, hfd, hle⟩ hl hn
    obtain ⟨hfd', hle'⟩ := pending_le_step (holds_of_reached locks_outline hd) (holds_of_reached fits_outline hd)
      hfd hheld hl hn
    exact ⟨hd.step hn, hfd', Nat.le_trans hle hle'⟩
  exact hall.2.2

/-! ### Releasing everything inflight -/

/-- The largest `u64`. -/
def maxSeq : Nat := u64Size - 1

theorem decodeKeySeq_of_keyOf {k : Key} {x : Task} (h : KeyOf k x) : ∃ seq, decodeKeySeq k = some seq ∧ seq ≤ maxSeq := by
  obtain ⟨s, rfl⟩ := h
  have hlen : ¬(encodeKey x.queue s).length < 8 := by simp
  have hdrop : (encodeKey x.queue s).drop ((encodeKey x.queue s).length - 8) = Bytes.toBe 8 s := by
    rw [length_encodeKey, encodeKey]
    exact List.drop_left' (by simp [queuePrefix])
  refine ⟨s % u64Size, ?_, Nat.le_sub_one_of_lt (Nat.mod_lt _ (by decide))⟩
  rw [decodeKeySeq, if_neg hlen, hdrop, Bytes.ofBe_toBe]
  rfl

theorem cumulativeLoop_all {upToSeq : Nat} {items : List (Key × Value)}
    (h : ∀ e ∈ items, ∃ seq, decodeKeySeq e.1 = some seq ∧ seq ≤ upToSeq) :
    cumulativeLoop upToSeq items = deletes .inflight (items.map Prod.fst) := by
  induction items with
  | nil => rfl
  | cons e items ih =>
    obtain ⟨⟨seq, hseq, hle⟩, hrest⟩ := List.forall_mem_cons.mp h
    simp only [cumulativeLoop, hseq, if_neg (Nat.not_lt.mpr hle), ih hrest]
    rfl

/-- Acknowledging everything up to the largest number leaves nothing inflight, and pending as it was. -/
theorem backlog_cumulativeAck {db : TenantDb} (hall : AllTasks db) (hkeyed : KeyedDb db) :
    (db.write (cumulativeLoop maxSeq (db.scanQueue .inflight queue))).backlog queue ≤ db.countPrefix .pending queue := by
  have hloop : cumulativeLoop maxSeq (db.scanQueue .inflight queue) =
      deletes .inflight ((db.scanQueue .inflight queue).map Prod.fst) := by
    refine cumulativeLoop_all fun e he => ?_
    obtain ⟨hget, -⟩ := TenantDb.mem_scanQueue.mp he
    obtain ⟨x, hx⟩ := hall hget
    exact decodeKeySeq_of_keyOf (hkeyed _ _ x (hx ▸ hget))
  have hinflight : (db.write (cumulativeLoop maxSeq (db.scanQueue .inflight queue))).countPrefix .inflight queue = 0 := by
    refine List.length_eq_zero_iff.mpr (List.eq_nil_iff_forall_not_mem.mpr fun e he => ?_)
    obtain ⟨hget, hin⟩ := TenantDb.mem_scanQueue.mp he
    rw [hloop] at hget
    rcases TenantDb.get_write hget with hput | ⟨hold, hdel⟩
    · exact put_not_mem_deletes hput
    · exact hdel (mem_deletes.mpr ⟨rfl, List.mem_map_of_mem (TenantDb.mem_scanQueue.mpr ⟨hold, hin⟩)⟩)
  have hpending := TenantDb.count_write_le .pending (inQueue queue) (cumulativeLoop maxSeq (db.scanQueue .inflight queue)) db
  have hputs : TenantDb.puts .pending (inQueue queue) (cumulativeLoop maxSeq (db.scanQueue .inflight queue)) = 0 := by
    rw [hloop]
    exact List.countP_eq_zero.mpr fun op hop hput => by
      obtain ⟨k, -, rfl⟩ := List.mem_map.mp hop
      cases hput
  rw [TenantDb.backlog, hinflight, TenantDb.countPrefix_eq_count, TenantDb.countPrefix_eq_count]
  omega

/-- A new consumer acknowledges everything inflight, whatever the others are at. -/
theorem release_run (h : Reached tenant c) (hlen : i < c.threads.length) :
    ∃ c', (system tenant).Run (ByConsumers tenant queue i) c c' ∧
      c'.shared.db.backlog queue ≤ c.shared.db.countPrefix .pending queue := by
  obtain ⟨s, ts⟩ := c
  have hreleased : (s.db.write (cumulativeLoop maxSeq (s.db.scanQueue .inflight queue))).backlog queue ≤
      s.db.countPrefix .pending queue := backlog_cumulativeAck (known_of_reached h).shared.tasks (keyed_of_reached h).shared
  generalize hbatch : cumulativeLoop maxSeq (s.db.scanQueue .inflight queue) = b at hreleased
  have hget : ∀ g : Frame, (ts ++ [g])[ts.length]? = some g := fun g => by simp
  have hset : ∀ g g' : Frame, (ts ++ [g]).set ts.length g' = ts ++ [g'] := fun g g' => by
    rw [List.set_append_right _ _ (Nat.le_refl _), Nat.sub_self, List.set_cons_zero]
  have hne : ts.length ≠ i := Nat.ne_of_gt hlen
  have hcall : (system tenant).Run (ByConsumers tenant queue i) ⟨s, ts⟩ ⟨s, ts ++ [.cumulativeScan queue maxSeq]⟩ :=
    .step .refl (l := .call (.cumulativeAck queue maxSeq)) rfl rfl
  have hscan : (system tenant).Run (ByConsumers tenant queue i) ⟨s, ts⟩
      ⟨s, ts ++ [Frame.writeOr .cumulativeAck b [] (.count b.length)]⟩ := by
    refine hcall.step (l := .run ts.length {}) ⟨hne, _, hget _, rfl⟩ ?_
    simp only [System.next, hget, system, Frame.step, hbatch, hset]
  by_cases hb : b = []
  · subst hb
    exact ⟨_, hscan, hreleased⟩
  · rw [Frame.writeOr, if_neg hb] at hscan
    refine ⟨⟨s.write ts.length .cumulativeAck b (some (.count b.length)), ts ++ [.unlock [] (.count b.length)]⟩,
      hscan.step (l := .run ts.length {}) ⟨hne, _, hget _, trivial⟩ ?_, hreleased⟩
    simp only [System.next, hget, system, Frame.step, hset]

/-- The waiting producer can be unblocked exactly if the pending records alone leave room for its tasks. -/
theorem unblockable_iff (h : Reached tenant c) (hf : c.threads[i]? = some f) (hwaits : f.Waits r quota) :
    (∃ c', (system tenant).Run (ByConsumers tenant r.queue i) c c' ∧
      c'.shared.db.backlog r.queue + r.payloads.length ≤ quota) ↔
      c.shared.db.countPrefix .pending r.queue + r.payloads.length ≤ quota := by
  constructor
  · rintro ⟨c', hrun, hroom⟩
    have hle := pending_le_of_run h hf hwaits.held hrun
    rw [TenantDb.backlog] at hroom
    omega
  · intro hroom
    have hrelease : ∃ c', (system tenant).Run (ByConsumers tenant r.queue i) c c' ∧
        c'.shared.db.backlog r.queue ≤ c.shared.db.countPrefix .pending r.queue :=
      release_run h (List.getElem?_eq_some_iff.mp hf).1
    obtain ⟨c', hrun, hreleased⟩ := hrelease
    exact ⟨c', hrun, by omega⟩

def oneTask (quota : Option Nat) : EnqueueRequest :=
  ⟨"q", [[1]], { NamespacePolicy.standard "t" with backlogQuota := quota, backlogPolicy := .block 100 }⟩

def enqueueUnder (quota : Option Nat) : Label Call StepInput := .call (.enqueueBatch "q" [[1]] (oneTask quota).policy)

/-- One task is enqueued. -/
def fillQueue : List (Label Call StepInput) :=
  [enqueueUnder none, .run 0 { now := 1 }, .run 0 { id := "a" }, .run 0 {}, .run 0 {}]

/-- Thread `i` enqueues one task more with a quota of one, and waits. -/
def produceMore (i : Nat) : List (Label Call StepInput) :=
  [enqueueUnder (some 1), .run i { now := 2 }, .run i {}, .run i {}, .run i { now := 2 }]

/-- The first task is delivered. -/
def takeFirst : List (Label Call StepInput) :=
  [.call (.dequeueBatch "q" 1 10), .run 1 {}, .run 1 { now := 1 }, .run 1 {}, .run 1 {}]

theorem unblockable_inflight : ∃ c, (system "t").exec ⟨.start 1, []⟩ (fillQueue ++ takeFirst ++ produceMore 2) = some c ∧
    ∃ c', (system "t").Run (ByConsumers "t" "q" 2) c c' ∧ c'.shared.db.backlog "q" + 1 ≤ 1 := by
  have hexec : (system "t").exec ⟨.start 1, []⟩ (fillQueue ++ takeFirst ++ produceMore 2) = some _ := rfl
  have hreached := Reached.run (.start 1) (Runs.run_of_exec hexec)
  have hwaits : Frame.Waits (oneTask (some 1)) 1 (.quotaPending (oneTask (some 1)) 1 (some 102)) := ⟨rfl, rfl, rfl⟩
  exact ⟨_, hexec, (unblockable_iff hreached rfl hwaits).mpr (by decide)⟩

/-- While the first task is pending, no consumer makes room for the producer. -/
theorem not_unblockable_pending : ∃ c, (system "t").exec ⟨.start 1, []⟩ (fillQueue ++ produceMore 1) = some c ∧
    Reached "t" c ∧ c.threads[1]? = some (.quotaPending (oneTask (some 1)) 1 (some 102)) ∧
    (1 ≤ 1 ∧ 1 < c.shared.db.backlog "q" + 1) ∧
    ¬∃ c', (system "t").Run (ByConsumers "t" "q" 1) c c' ∧ c'.shared.db.backlog "q" + 1 ≤ 1 := by
  have hexec : (system "t").exec ⟨.start 1, []⟩ (fillQueue ++ produceMore 1) = some _ := rfl
  have hreached := Reached.run (.start 1) (Runs.run_of_exec hexec)
  refine ⟨_, hexec, hreached, rfl, by decide, ?_⟩
  rintro ⟨c', hrun, hroom⟩
  have hpending : 1 ≤ c'.shared.db.countPrefix .pending "q" := pending_le_of_run hreached rfl rfl hrun
  rw [TenantDb.backlog] at hroom
  omega

end Consumers

end RocksQueue
