import RocksQueue.Theorems.Returns
import RocksQueue.Theorems.Solo

/-! # Calls one at a time

Taken apart at its atomic steps, a call that no other call disturbs ends as `Tenant.exec` says, and in no other way:
one after the other, the calls do what their undisturbed forms do. -/

namespace RocksQueue
open Interleaving

variable {tenant : String} {i : Nat} {s s' s₁ : Shared} {f f₁ : Frame} {t : Tenant} {reply r : Reply}

/-- The tenant as the calls see it. -/
def Shared.asTenant (s : Shared) : Tenant := ⟨s.db, s.seq⟩

/-- Thread `i` alone comes to the end of its call; this is what it leaves and what it returns. -/
def Ends (tenant : String) (i : Nat) (s : Shared) (f : Frame) (t : Tenant) (reply : Reply) : Prop :=
  ∃ s', (system tenant).Solo i s f s' (.returned reply) ∧ s'.asTenant = t

/-- Ids that are not taken yet. -/
def Untaken (s : Shared) (ids : List String) : Prop := ids.Nodup ∧ ∀ id ∈ ids, id ∉ s.issued

/-! ## One step -/

theorem ends_returned : Ends tenant i s (.returned r) t reply ↔ t = s.asTenant ∧ reply = r := by
  constructor
  · rintro ⟨s', hsolo, ht⟩
    cases hsolo with
    | refl => exact ⟨ht.symm, rfl⟩
    | step hs _ => cases hs
  · rintro ⟨rfl, rfl⟩
    exact ⟨s, .refl, rfl⟩

/-- A call that has not returned ends by its next step. -/
theorem ends_step (hlive : ∀ reply, f ≠ .returned reply) : Ends tenant i s f t reply ↔
    ∃ io s₁ f₁, Frame.step tenant s i f io = some (s₁, f₁) ∧ Ends tenant i s₁ f₁ t reply := by
  constructor
  · rintro ⟨s', hsolo, ht⟩
    cases hsolo with
    | refl => exact absurd rfl (hlive reply)
    | step hs hrest => exact ⟨_, _, _, hs, s', hrest, ht⟩
  · rintro ⟨io, s₁, f₁, hs, s', hrest, ht⟩
    exact ⟨s', .step hs hrest, ht⟩

/-- A step that takes nothing from outside. -/
theorem ends_next (h : ∀ io, Frame.step tenant s i f io = some (s₁, f₁)) :
    Ends tenant i s f t reply ↔ Ends tenant i s₁ f₁ t reply := by
  have hlive : ∀ reply, f ≠ .returned reply := by
    rintro reply rfl
    cases h {}
  rw [ends_step hlive]
  constructor
  · rintro ⟨io, s₂, f₂, hs, hrest⟩
    cases (h io).symm.trans hs
    exact hrest
  · exact fun hrest => ⟨{}, s₁, f₁, h {}, hrest⟩

/-- A step that reads the clock. -/
theorem ends_clock (next : Nat → Frame) (h : ∀ io, Frame.step tenant s i f io = some (s₁, next io.now)) :
    Ends tenant i s f t reply ↔ ∃ now, Ends tenant i s₁ (next now) t reply := by
  have hlive : ∀ reply, f ≠ .returned reply := by
    rintro reply rfl
    cases h {}
  rw [ends_step hlive]
  constructor
  · rintro ⟨io, s₂, f₂, hs, hrest⟩
    cases (h io).symm.trans hs
    exact ⟨io.now, hrest⟩
  · rintro ⟨now, hrest⟩
    exact ⟨{ now := now }, s₁, next now, h _, hrest⟩

theorem ends_unlock {held : List Lock} : Ends tenant i s (.unlock held r) t reply ↔ t = s.asTenant ∧ reply = r := by
  rw [ends_next fun _ => rfl, ends_returned]
  rfl

theorem ends_write {kind : WriteKind} {b : WriteBatch} {held : List Lock} :
    Ends tenant i s (.write kind b held r) t reply ↔ t = ⟨s.db.write b, s.seq⟩ ∧ reply = r := by
  rw [ends_next fun _ => rfl, ends_unlock]
  rfl

theorem ends_writeOr {kind : WriteKind} {b : WriteBatch} {held : List Lock} :
    Ends tenant i s (Frame.writeOr kind b held r) t reply ↔ t = ⟨s.db.write b, s.seq⟩ ∧ reply = r := by
  unfold Frame.writeOr
  split
  · rename_i hnil
    rw [ends_unlock, hnil]
    rfl
  · exact ends_write

/-! ## Acknowledgements -/

theorem ends_nextAck {held : List Lock} {todo seen counted : List Key} :
    Ends tenant i s (Frame.nextAck held todo seen counted) t reply ↔
      t = ⟨s.db.write (TenantDb.ackDeletes (counted ++ s.db.ackLoop seen todo)), s.seq⟩ ∧
        reply = .acked (counted ++ s.db.ackLoop seen todo) := by
  induction todo generalizing seen counted with
  | nil =>
    rw [TenantDb.ackLoop, List.append_nil]
    exact ends_writeOr
  | cons key todo ih =>
    simp only [Frame.nextAck, TenantDb.ackLoop]
    split
    · exact ih
    · rw [ends_next fun _ => rfl, ih]
      split <;> simp

theorem ends_nextAckLock {keys : List Key} {held todo : List Lock} (hnodup : todo.Nodup)
    (hfree : ∀ l ∈ todo, s.locks l = none) :
    Ends tenant i s (Frame.nextAckLock keys held todo) t reply ↔
      t = ⟨s.db.write (TenantDb.ackDeletes (s.db.ackLoop [] keys)), s.seq⟩ ∧ reply = .acked (s.db.ackLoop [] keys) := by
  induction todo generalizing s held with
  | nil => exact ends_nextAck
  | cons l todo ih =>
    obtain ⟨hl, hnodup'⟩ := List.nodup_cons.mp hnodup
    obtain ⟨hfree₀, hfree'⟩ := List.forall_mem_cons.mp hfree
    have hstep : ∀ io, Frame.step tenant s i (.ackLocks keys held (l :: todo)) io =
        some (lockedBy i l s, Frame.nextAckLock keys (held ++ [l]) todo) := fun io => by
      simp only [Frame.step, acquire_eq hfree₀]
    have hrest : ∀ l' ∈ todo, (lockedBy i l s).locks l' = none := fun l' hl' => by
      have hne : l' ≠ l := by
        rintro rfl
        exact hl hl'
      simp [lockedBy, hne, hfree' l' hl']
    rw [Frame.nextAckLock, ends_next hstep, ih hnodup' hrest]
    rfl

/-! ## EnqueuesAlone -/

section Enqueue
variable {q : EnqueueRequest} {now : Nat}

theorem ends_nextMint {todo : List Bytes} {b : WriteBatch} {ids : List String} (hseq : s.seq < u64Size) :
    Ends tenant i s (Frame.nextMint tenant q now todo b ids) t reply ↔
      ∃ new, new.length = todo.length ∧ Untaken s new ∧
        t = ⟨s.db.write (b ++ enqueueLoop q.queue now s.seq (todo.zip new)), advance s.seq todo.length⟩ ∧
        reply = .enqueued (ids ++ new) := by
  induction todo generalizing s b ids with
  | nil =>
    -- Nothing is left to make, so the batch is written.
    rw [Frame.nextMint, if_pos rfl, ends_write]
    constructor
    · rintro ⟨rfl, rfl⟩
      refine ⟨[], rfl, ⟨.nil, List.forall_mem_nil _⟩, ?_, by simp⟩
      simp [enqueueLoop, advance_zero hseq]
    · rintro ⟨new, hlen, -, rfl, rfl⟩
      obtain rfl := List.length_eq_zero_iff.mp hlen
      simp [enqueueLoop, advance_zero hseq]
  | cons payload todo ih =>
    have hnext : nextSeq s.seq < u64Size := Nat.mod_lt _ (by decide)
    rw [Frame.nextMint, if_neg (List.cons_ne_nil payload todo), ends_step fun reply h => by cases h]
    constructor
    -- One step makes a task, and the rest is the loop from there on.
    · rintro ⟨io, s₁, f₁, hs, hrest⟩
      simp only [Frame.step] at hs
      split at hs
      · cases hs
      · rename_i hid
        cases hs
        obtain ⟨new, hlen, ⟨hnodup, hfresh⟩, rfl, rfl⟩ := (ih hnext).mp hrest
        have hnot : io.id ∉ new := fun hmem => hfresh io.id hmem List.mem_cons_self
        refine ⟨io.id :: new, by simp [hlen], ⟨List.nodup_cons.mpr ⟨hnot, hnodup⟩, ?_⟩, ?_, by simp⟩
        · intro id hmem
          rcases List.mem_cons.mp hmem with rfl | hmem
          · exact hid
          · exact fun hissued => hfresh id hmem (List.mem_cons_of_mem _ hissued)
        · simp [Shared.draw, enqueueLoop, advance_succ]
    · rintro ⟨new, hlen, ⟨hnodup, hfresh⟩, rfl, rfl⟩
      cases new with
      | nil => cases hlen
      | cons id new =>
        obtain ⟨hid, hnodup'⟩ := List.nodup_cons.mp hnodup
        obtain ⟨hnew, hfresh'⟩ := List.forall_mem_cons.mp hfresh
        have hstep : Frame.step tenant s i (.mint q now (payload :: todo) b ids) { id := id } =
            some ({ s.draw i (encodeKey q.queue s.seq) id with issued := id :: s.issued },
              Frame.nextMint tenant q now todo (b ++ [enqueueOp q.queue now s.seq payload id]) (ids ++ [id])) := by
          simp only [Frame.step, hnew, if_false]
        -- The other way round, the step takes the id that is given.
        refine ⟨_, _, _, hstep, (ih hnext).mpr ⟨new, Nat.succ.inj hlen, ⟨hnodup', fun id' hmem hissued => ?_⟩, ?_, by simp⟩⟩
        · rcases List.mem_cons.mp hissued with rfl | hold
          · exact hid hmem
          · exact hfresh' id' hmem hold
        · simp [Shared.draw, enqueueLoop, advance_succ]

theorem ends_beginMint (hseq : s.seq < u64Size) : Ends tenant i s (Frame.beginMint tenant q now) t reply ↔
    ∃ ids, ids.length = q.payloads.length ∧ Untaken s ids ∧
      t = ⟨s.db.write (enqueueLoop q.queue now s.seq (q.payloads.zip ids)), advance s.seq q.payloads.length⟩ ∧
      reply = .enqueued ids := by
  have hframe : Frame.beginMint tenant q now = Frame.nextMint tenant q now q.payloads [] [] := by
    unfold Frame.beginMint Frame.nextMint
    split <;> rfl
  rw [hframe, ends_nextMint hseq]
  rfl

/-- What an enqueue leaves that was let through, once these records are evicted. -/
def Minted (s : Shared) (q : EnqueueRequest) (evicted : WriteBatch) (t : Tenant) (reply : Reply) : Prop :=
  ∃ madeAt ids, ids.length = q.payloads.length ∧ Untaken s ids ∧
    t = ⟨(s.db.write evicted).write (enqueueLoop q.queue madeAt s.seq (q.payloads.zip ids)), advance s.seq q.payloads.length⟩ ∧
    reply = .enqueued ids

/-- `enforce_quota` may come out so. -/
def QuotaSays (tenant : String) (db : TenantDb) (q : EnqueueRequest) (verdict : Except QueueError WriteBatch) : Prop :=
  ∃ io, enforceQuota tenant db q.queue q.policy q.payloads.length io = some verdict

/-- What an undisturbed enqueue does. -/
def EnqueuesAlone (tenant : String) (s : Shared) (q : EnqueueRequest) (t : Tenant) (reply : Reply) : Prop :=
  (∃ e, QuotaSays tenant s.db q (.error e) ∧ t = s.asTenant ∧ reply = .failed e) ∨
    ∃ evicted, QuotaSays tenant s.db q (.ok evicted) ∧ Minted s q evicted t reply

theorem exists_untaken (s : Shared) (n : Nat) : ∃ ids : List String, ids.length = n ∧ Untaken s ids := by
  induction n with
  | zero => exact ⟨[], rfl, .nil, List.forall_mem_nil _⟩
  | succ n ih =>
    obtain ⟨ids, hlen, hnodup, hfresh⟩ := ih
    obtain ⟨id, hid⟩ := Frame.exists_fresh (ids ++ s.issued)
    obtain ⟨hnot, hnew⟩ := not_or.mp (mt List.mem_append.mpr hid)
    exact ⟨id :: ids, by simp [hlen], List.nodup_cons.mpr ⟨hnot, hnodup⟩, List.forall_mem_cons.mpr ⟨hnew, hfresh⟩⟩

theorem enqueues_iff_exec : EnqueuesAlone tenant s q t reply ↔ ∃ io : Inputs, Untaken s io.ids ∧
    Tenant.exec tenant s.asTenant io (.enqueueBatch q.queue q.payloads q.policy) = some (t, reply) := by
  constructor
  · rintro (⟨e, ⟨io, hquota⟩, rfl, rfl⟩ | ⟨evicted, ⟨io, hquota⟩, madeAt, ids, hlen, huntaken, rfl, rfl⟩)
    · obtain ⟨ids, hlen, huntaken⟩ := exists_untaken s q.payloads.length
      have hquota' : enforceQuota tenant s.db q.queue q.policy q.payloads.length { io with ids := ids } = some (.error e) :=
        hquota
      refine ⟨{ io with ids := ids }, huntaken, ?_⟩
      simp [Tenant.exec, Tenant.enqueueBatchSync, Shared.asTenant, hlen, hquota', Reply.ofExcept]
    · have hquota' : enforceQuota tenant s.db q.queue q.policy q.payloads.length { io with madeAt := madeAt, ids := ids } =
          some (.ok evicted) := hquota
      refine ⟨{ io with madeAt := madeAt, ids := ids }, huntaken, ?_⟩
      simp [Tenant.exec, Tenant.enqueueBatchSync, Shared.asTenant, hlen, hquota', Reply.ofExcept]
  · rintro ⟨io, huntaken, hexec⟩
    obtain ⟨⟨t', result⟩, hcall, heq⟩ := Option.map_eq_some_iff.mp hexec
    cases heq
    unfold Tenant.enqueueBatchSync at hcall
    split at hcall
    · cases hcall
    · rename_i hlen
      split at hcall
      · cases hcall
      · rename_i e hquota
        cases hcall
        exact Or.inl ⟨e, ⟨io, hquota⟩, rfl, rfl⟩
      · rename_i evicted hquota
        cases hcall
        exact Or.inr ⟨evicted, ⟨io, hquota⟩, io.madeAt, io.ids, Decidable.not_not.mp hlen, huntaken, rfl, rfl⟩

/-- An enqueue goes on to make its tasks, whenever it does. -/
theorem exists_ends_beginMint (tenant : String) (i : Nat) {evicted : WriteBatch} (hseq : s.seq < u64Size)
    (hdb : s₁.db = s.db.write evicted) (hsame : s₁.seq = s.seq ∧ s₁.issued = s.issued) :
    (∃ now, Ends tenant i s₁ (Frame.beginMint tenant q now) t reply) ↔ Minted s q evicted t reply := by
  have hseq₁ : s₁.seq < u64Size := hsame.1 ▸ hseq
  simp only [ends_beginMint hseq₁, Minted, Untaken, hdb, hsame]

/-- The records that the quota bounds. -/
def Shared.backlog (s : Shared) (q : EnqueueRequest) : Nat :=
  s.db.countPrefix .pending q.queue + s.db.countPrefix .inflight q.queue

/-- The quota is looked at once the backlog is counted. -/
theorem ends_quotaPending {quota : Nat} {deadline : Option Nat} : Ends tenant i s (.quotaPending q quota deadline) t reply ↔
    ∃ now, Ends tenant i s (Frame.checkQuota tenant q quota deadline (s.backlog q) now) t reply := by
  rw [ends_next fun _ => rfl, ends_next fun _ => rfl]
  exact ends_clock (fun now => Frame.checkQuota tenant q quota deadline (s.backlog q) now) fun _ => rfl

/-- A look for room that is in vain: the producer gives up, or goes on to wait. -/
theorem checkQuota_waiting (tenant : String) (deadline now : Nat) {quota current : Nat}
    (hfull : quota < current + q.payloads.length) :
    (deadline ≤ now ∧ Frame.checkQuota tenant q quota (some deadline) current now =
        .unlock [.queue (lockName tenant q.queue)]
          (.failed (quotaExceeded tenant q.queue current quota q.payloads.length))) ∨
      (¬deadline ≤ now ∧
        Frame.checkQuota tenant q quota (some deadline) current now = .quotaPending q quota (some deadline)) := by
  rw [Frame.checkQuota, if_neg (Nat.not_le.mpr hfull)]
  by_cases hlate : deadline ≤ now
  · exact Or.inl ⟨hlate, if_pos hlate⟩
  · exact Or.inr ⟨hlate, if_neg hlate⟩

/-- A producer that waits for room while nobody else does anything. -/
def WaitsAlone (s : Shared) (q : EnqueueRequest) (quota deadline : Nat) (f : Frame) : Prop :=
  f = .quotaPending q quota (some deadline) ∨
    f = .quotaInflight q quota (some deadline) (s.db.countPrefix .pending q.queue) ∨
    f = .quotaDlq q quota (some deadline) (s.db.countPrefix .pending q.queue) (s.db.countPrefix .inflight q.queue)

/-- It waits in vain: nobody makes room. -/
theorem ends_of_waitsAlone {quota deadline : Nat} (hfull : quota < s.backlog q + q.payloads.length)
    (hf : WaitsAlone s q quota deadline f) (h : Ends tenant i s f t reply) :
    t = s.asTenant ∧ reply = .failed (quotaExceeded tenant q.queue (s.backlog q) quota q.payloads.length) := by
  obtain ⟨s', hsolo, ht⟩ := h
  generalize hlast : Frame.returned reply = last at hsolo
  induction hsolo with
  | refl => rcases hf with rfl | rfl | rfl <;> cases hlast
  | @step s s₁ s₂ f f₁ f₂ io hs hrest ih =>
    rcases hf with rfl | rfl | rfl
    · cases hs
      exact ih hfull (Or.inr (Or.inl rfl)) ht hlast
    · cases hs
      exact ih hfull (Or.inr (Or.inr rfl)) ht hlast
    · simp only [system, Frame.step, Option.some.injEq, Prod.mk.injEq] at hs
      obtain ⟨rfl, hnext⟩ := hs
      rcases checkQuota_waiting tenant deadline io.now hfull with ⟨-, heq⟩ | ⟨-, heq⟩
      · subst hlast
        rw [hnext.symm.trans heq] at hrest
        exact ends_unlock.mp ⟨_, hrest, ht⟩
      · exact ih hfull (Or.inl (hnext.symm.trans heq)) ht hlast

theorem ends_waiting {quota deadline : Nat} : Ends tenant i s (.quotaPending q quota (some deadline)) t reply ↔
    s.backlog q + q.payloads.length ≤ quota ∧ (∃ now, Ends tenant i s (Frame.beginMint tenant q now) t reply) ∨
      quota < s.backlog q + q.payloads.length ∧ t = s.asTenant ∧
        reply = .failed (quotaExceeded tenant q.queue (s.backlog q) quota q.payloads.length) := by
  rcases Nat.lt_or_ge quota (s.backlog q + q.payloads.length) with hfull | hroom
  · rw [or_iff_right fun h => absurd h.1 (Nat.not_le.mpr hfull), and_iff_right hfull]
    constructor
    · exact ends_of_waitsAlone hfull (Or.inl rfl)
    · rintro ⟨rfl, rfl⟩
      refine ends_quotaPending.mpr ⟨deadline, ?_⟩
      rcases checkQuota_waiting tenant deadline deadline hfull with ⟨-, heq⟩ | ⟨hearly, -⟩
      · rw [heq]
        exact ends_unlock.mpr ⟨rfl, rfl⟩
      · exact absurd (le_refl _) hearly
  · rw [or_iff_left fun h => absurd h.1 (Nat.not_lt.mpr hroom), and_iff_right hroom, ends_quotaPending]
    refine exists_congr fun now => ?_
    have hframe : Frame.checkQuota tenant q quota (some deadline) (s.backlog q) now = Frame.beginMint tenant q now :=
      if_pos hroom
    rw [hframe]

/-- What the wait loop says when the backlog stays what it is. -/
theorem waitLoop_alone {tenant queue : String} {quota incoming deadline current : Nat} {polls : List Nat}
    {result : Except QueueError Unit}
    (h : waitLoop tenant queue quota incoming deadline (polls.map fun now => (current, now)) = some result) :
    current + incoming ≤ quota ∧ result = .ok () ∨
      quota < current + incoming ∧ result = .error (quotaExceeded tenant queue current quota incoming) := by
  induction polls with
  | nil => cases h
  | cons now polls ih =>
    rw [List.map_cons, waitLoop] at h
    split at h
    · rename_i hroom
      cases h
      exact Or.inl ⟨hroom, rfl⟩
    · rename_i hfull
      split at h
      · cases h
        exact Or.inr ⟨Nat.not_le.mp hfull, rfl⟩
      · exact ih h

theorem quotaSays_block {quota timeoutMs : Nat} {verdict : Except QueueError WriteBatch}
    (hquota : q.policy.backlogQuota = some quota) (hpolicy : q.policy.backlogPolicy = .block timeoutMs) :
    QuotaSays tenant s.db q verdict ↔ s.backlog q + q.payloads.length ≤ quota ∧ verdict = .ok [] ∨
      quota < s.backlog q + q.payloads.length ∧
        verdict = .error (quotaExceeded tenant q.queue (s.backlog q) quota q.payloads.length) := by
  simp only [QuotaSays, enforceQuota, hquota, hpolicy]
  constructor
  · rintro ⟨io, h⟩
    split at h
    · cases h
    · rename_i e hloop
      cases h
      rcases waitLoop_alone hloop with ⟨-, heq⟩ | ⟨hfull, heq⟩
      · cases heq
      · cases heq
        exact Or.inr ⟨hfull, rfl⟩
    · rename_i hloop
      cases h
      rcases waitLoop_alone hloop with ⟨hroom, -⟩ | ⟨-, heq⟩
      · exact Or.inl ⟨hroom, rfl⟩
      · cases heq
  · rintro (⟨hroom, rfl⟩ | ⟨hfull, rfl⟩)
    · refine ⟨{ now := 0, polls := [0] }, ?_⟩
      have hroom' : s.db.countPrefix .pending q.queue + s.db.countPrefix .inflight q.queue + q.payloads.length ≤ quota := hroom
      simp [waitLoop, hroom']
    · -- The clock stands at the deadline when the loop looks for the first time.
      refine ⟨{ now := 0, polls := [(0 + timeoutMs) % u64Size] }, ?_⟩
      have hfull' : ¬s.db.countPrefix .pending q.queue + s.db.countPrefix .inflight q.queue + q.payloads.length ≤ quota :=
        Nat.not_le.mpr hfull
      simp [waitLoop, hfull', Shared.backlog]

theorem ends_evictScan {count : Nat} (hseq : s.seq < u64Size) : Ends tenant i s (.evictScan q count) t reply ↔
    Minted s q (evictBatch (s.db.scanQueue .pending q.queue) count) t reply := by
  by_cases hnil : evictBatch (s.db.scanQueue .pending q.queue) count = []
  · have hstep : ∀ io, Frame.step tenant s i (.evictScan q count) io = some (s, Frame.beginMint tenant q io.now) := by
      intro io
      simp only [Frame.step, hnil, if_true]
    rw [ends_clock _ hstep]
    exact exists_ends_beginMint tenant i hseq (by rw [hnil]; rfl) ⟨rfl, rfl⟩
  · have hstep : ∀ io, Frame.step tenant s i (.evictScan q count) io =
        some (s, .evictWrite q (evictBatch (s.db.scanQueue .pending q.queue) count)) := fun io => by
      simp only [Frame.step, hnil, if_false]
    rw [ends_next hstep, ends_clock (Frame.beginMint tenant q) fun _ => rfl]
    exact exists_ends_beginMint tenant i hseq rfl ⟨rfl, rfl⟩

theorem enqueues_of_error {e : QueueError} (h : ∀ verdict, QuotaSays tenant s.db q verdict ↔ verdict = .error e) :
    EnqueuesAlone tenant s q t reply ↔ t = s.asTenant ∧ reply = .failed e := by
  simp only [EnqueuesAlone, h, Except.error.injEq, exists_eq_left, reduceCtorEq, false_and, exists_false, or_false]

theorem enqueues_of_ok {evicted : WriteBatch} (h : ∀ verdict, QuotaSays tenant s.db q verdict ↔ verdict = .ok evicted) :
    EnqueuesAlone tenant s q t reply ↔ Minted s q evicted t reply := by
  simp only [EnqueuesAlone, h, Except.ok.injEq, exists_eq_left, reduceCtorEq, false_and, exists_false, false_or]

/-- Where the quota leaves no choice. -/
theorem quotaSays_of_eq {verdict : Except QueueError WriteBatch}
    (h : ∀ io, enforceQuota tenant s.db q.queue q.policy q.payloads.length io = some verdict)
    (v : Except QueueError WriteBatch) :
    QuotaSays tenant s.db q v ↔ v = verdict := by
  constructor
  · rintro ⟨io, hio⟩
    exact Option.some.inj (hio.symm.trans (h io))
  · rintro rfl
    exact ⟨{ now := 0 }, h _⟩

theorem ends_checkQuota {quota : Nat} (hseq : s.seq < u64Size) (hquota : q.policy.backlogQuota = some quota) :
    (∃ now, Ends tenant i s (Frame.checkQuota tenant q quota none (s.backlog q) now) t reply) ↔
      EnqueuesAlone tenant s q t reply := by
  have hmint : (∃ now, Ends tenant i s (Frame.beginMint tenant q now) t reply) ↔ Minted s q [] t reply :=
    exists_ends_beginMint tenant i hseq rfl ⟨rfl, rfl⟩
  have hbacklog : s.db.countPrefix .pending q.queue + s.db.countPrefix .inflight q.queue = s.backlog q := rfl
  generalize he : quotaExceeded tenant q.queue (s.backlog q) quota q.payloads.length = e
  cases hpolicy : q.policy.backlogPolicy with
  | reject =>
    by_cases hfull : quota < s.backlog q + q.payloads.length
    · have hsays : ∀ io, enforceQuota tenant s.db q.queue q.policy q.payloads.length io = some (.error e) := fun io => by
        simp only [enforceQuota, hquota, hpolicy, hbacklog, hfull, if_true, he]
      rw [enqueues_of_error (quotaSays_of_eq hsays)]
      simp only [Frame.checkQuota, hpolicy, hfull, if_true, ends_unlock, exists_const, he]
    · have hsays : ∀ io, enforceQuota tenant s.db q.queue q.policy q.payloads.length io = some (.ok []) := fun io => by
        simp only [enforceQuota, hquota, hpolicy, hbacklog, hfull, if_false]
      rw [enqueues_of_ok (quotaSays_of_eq hsays), ← hmint]
      simp only [Frame.checkQuota, hpolicy, hfull, if_false]
  -- Alone on the tenant the wait ends at its deadline, for the backlog does not change.
  | block timeoutMs =>
    simp only [Frame.checkQuota, hpolicy, ends_waiting, exists_const, hmint, he]
    by_cases hfull : quota < s.backlog q + q.payloads.length
    · have hsays : ∀ verdict, QuotaSays tenant s.db q verdict ↔ verdict = .error e := fun verdict => by
        rw [quotaSays_block hquota hpolicy, or_iff_right fun h => absurd h.1 (Nat.not_le.mpr hfull), and_iff_right hfull, he]
      rw [enqueues_of_error hsays, or_iff_right fun h => absurd h.1 (Nat.not_le.mpr hfull), and_iff_right hfull]
    · have hroom := Nat.not_lt.mp hfull
      have hsays : ∀ verdict, QuotaSays tenant s.db q verdict ↔ verdict = .ok [] := fun verdict => by
        rw [quotaSays_block hquota hpolicy, or_iff_left fun h => absurd h.1 hfull, and_iff_right hroom]
      rw [enqueues_of_ok hsays, or_iff_left fun h => absurd h.1 hfull, and_iff_right hroom]
  | evictOldest =>
    by_cases hfull : quota < s.backlog q + q.payloads.length
    · have hsays : ∀ io, enforceQuota tenant s.db q.queue q.policy q.payloads.length io = some (.ok _) := fun io => by
        simp only [enforceQuota, hquota, hpolicy, hbacklog, hfull, if_true]
        rfl
      rw [enqueues_of_ok (quotaSays_of_eq hsays)]
      simp only [Frame.checkQuota, hpolicy, hfull, if_true, exists_const]
      exact ends_evictScan hseq
    · have hsays : ∀ io, enforceQuota tenant s.db q.queue q.policy q.payloads.length io = some (.ok []) := fun io => by
        simp only [enforceQuota, hquota, hpolicy, hbacklog, hfull, if_false]
      rw [enqueues_of_ok (quotaSays_of_eq hsays), ← hmint]
      simp only [Frame.checkQuota, hpolicy, hfull, if_false]

/-- An enqueue alone, from the lock on. -/
theorem ends_enqueueLock (hfree : s.locks (.queue (lockName tenant q.queue)) = none) (hseq : s.seq < u64Size) :
    Ends tenant i s (.enqueueLock q) t reply ↔ EnqueuesAlone tenant s q t reply := by
  let s₁ := lockedBy i (.queue (lockName tenant q.queue)) s
  have hstep : ∀ io, Frame.step tenant s i (.enqueueLock q) io = some (s₁, Frame.beginQuota tenant q io.now) := fun io => by
    simp only [Frame.step, acquire_eq hfree, s₁]
  rw [ends_clock _ hstep]
  cases hquota : q.policy.backlogQuota with
  | none =>
    have hsays : ∀ io, enforceQuota tenant s.db q.queue q.policy q.payloads.length io = some (.ok []) := fun io => by
      simp only [enforceQuota, hquota]
    rw [enqueues_of_ok (quotaSays_of_eq hsays)]
    simp only [Frame.beginQuota, hquota]
    exact exists_ends_beginMint tenant i hseq rfl ⟨rfl, rfl⟩
  | some quota =>
    have hlocked : EnqueuesAlone tenant s₁ q t reply ↔ EnqueuesAlone tenant s q t reply := Iff.rfl
    simp only [Frame.beginQuota, hquota, exists_const, ends_quotaPending]
    rw [← hlocked]
    exact ends_checkQuota hseq hquota

end Enqueue

/-! ## The other calls -/

section Others
variable {queue : String} {key : Key}

theorem ends_beginDequeue {limit timeout : Nat} : Ends tenant i s (Frame.beginDequeue tenant queue limit timeout) t reply ↔
    ∃ now, t = ⟨(s.db.dequeueBatchUnlocked queue limit timeout now).1, s.seq⟩ ∧
      reply = .delivered (s.db.dequeueBatchUnlocked queue limit timeout now).2 := by
  unfold Frame.beginDequeue TenantDb.dequeueBatchUnlocked
  split
  · rw [ends_unlock, exists_const]
    rfl
  · let deliverAt (now : Nat) : Delivery := deliver queue limit timeout now (s.db.scanQueue .pending queue)
    let next (now : Nat) : Frame :=
      Frame.writeOr .dequeue (deliverAt now).batch [.queue (lockName tenant queue)] (.delivered (deliverAt now).results)
    exact (ends_clock next fun _ => rfl).trans (exists_congr fun now => ends_writeOr)

theorem ends_dequeueLock {limit timeout : Nat} (hfree : s.locks (.queue (lockName tenant queue)) = none) :
    Ends tenant i s (.dequeueLock queue limit timeout none) t reply ↔
      ∃ now, t = ⟨(s.db.dequeueBatch queue limit timeout now).1, s.seq⟩ ∧
        reply = .delivered (s.db.dequeueBatch queue limit timeout now).2 := by
  have hstep : ∀ io, Frame.step tenant s i (.dequeueLock queue limit timeout none) io =
      some (lockedBy i (.queue (lockName tenant queue)) s, Frame.beginDequeue tenant queue limit timeout) := fun io => by
    simp only [Frame.step, acquire_eq hfree]
  rw [ends_next hstep, ends_beginDequeue]
  rfl

theorem ends_dequeueCapped {limit timeout maxInflight : Nat} (hfree : s.locks (.queue (lockName tenant queue)) = none)
    (hmax : maxInflight ≠ 0) : Ends tenant i s (.dequeueLock queue limit timeout (some maxInflight)) t reply ↔
      ∃ now, t = ⟨(s.db.dequeueWithMaxInflight queue limit timeout maxInflight now).1, s.seq⟩ ∧
        reply = .delivered (s.db.dequeueWithMaxInflight queue limit timeout maxInflight now).2 := by
  have hstep : ∀ io, Frame.step tenant s i (.dequeueLock queue limit timeout (some maxInflight)) io =
      some (lockedBy i (.queue (lockName tenant queue)) s, .countInflight queue limit timeout maxInflight) := fun io => by
    simp only [Frame.step, acquire_eq hfree]
  rw [ends_next hstep, ends_next fun _ => rfl]
  simp only [TenantDb.dequeueWithMaxInflight, hmax, if_false]
  have hlocked : (lockedBy i (.queue (lockName tenant queue)) s).db = s.db := rfl
  rw [hlocked]
  split
  · rw [ends_unlock, exists_const]
    rfl
  · rw [ends_beginDequeue]
    rfl

theorem ends_nackGet : Ends tenant i s (.nackGet key) t reply ↔
    ∃ now, t = s.asTenant.nack key now ∧ reply = .done := by
  simp only [Tenant.nack, Shared.asTenant]
  cases hget : s.db.get .inflight key with
  | none =>
    have hstep : ∀ io, Frame.step tenant s i (.nackGet key) io = some (s, .unlock [] .done) := fun io => by
      simp only [Frame.step, hget]
    rw [ends_next hstep, ends_unlock]
    exact (exists_const Nat).symm
  | some v =>
    cases v with
    | corrupt raw =>
      let next (now : Nat) : Frame :=
        .write .nack (poisonBatch .inflight (fromUtf8Lossy (keyQueueBytes key)) key raw now) [] .done
      have hstep : ∀ io, Frame.step tenant s i (.nackGet key) io = some (s, next io.now) := fun io => by
        simp only [Frame.step, hget, next]
      exact (ends_clock next hstep).trans (exists_congr fun now => ends_write)
    | task task =>
      by_cases hmax : maxAttempts ≤ task.attempts
      · have hstep : ∀ io, Frame.step tenant s i (.nackGet key) io =
            some (s, .write .nack (deadLetterBatch key task.serialize) [] .done) := fun io => by
          simp only [Frame.step, hget, hmax, if_true]
        rw [ends_next hstep, ends_write]
        simp only [hmax, if_true, exists_const]
      · have hstep : ∀ io, Frame.step tenant s i (.nackGet key) io = some (s, .nackDraw key task) := fun io => by
          simp only [Frame.step, hget, hmax, if_false]
        rw [ends_next hstep, ends_next fun _ => rfl, ends_write]
        simp only [hmax, if_false, exists_const]
        rfl

theorem ends_nextReplay {b : WriteBatch} {count : Nat} {todo : List (Key × Value)} (hseq : s.seq < u64Size) :
    Ends tenant i s (Frame.nextReplay b count todo) t reply ↔
      match replayLoop s.seq todo with
      | none => t = ⟨s.db, advance s.seq (replayDraws todo)⟩ ∧ reply = .failed .serialization
      | some batch =>
        t = ⟨s.db.write (b ++ batch), advance s.seq (replayDraws todo)⟩ ∧ reply = .count (count + todo.length) := by
  induction todo generalizing s b count with
  | nil =>
    simp only [Frame.nextReplay, replayLoop, replayDraws, List.append_nil, advance_zero hseq]
    exact ends_writeOr
  | cons item todo ih =>
    obtain ⟨key, v⟩ := item
    cases v with
    | corrupt raw =>
      simp only [Frame.nextReplay, replayLoop, replayDraws, advance_zero hseq]
      exact ends_unlock
    | task task =>
      have hnext : nextSeq s.seq < u64Size := Nat.mod_lt _ (by decide)
      rw [Frame.nextReplay, ends_next fun _ => rfl, ih hnext]
      have hdraw : (s.draw i (encodeKey task.queue s.seq) task.id).seq = nextSeq s.seq := rfl
      simp only [replayLoop, replayDraws, hdraw, advance_succ]
      cases replayLoop (nextSeq s.seq) todo with
      | none => rfl
      | some batch =>
        simp only [List.append_assoc, List.length_cons, Nat.add_assoc, Nat.add_comm 1]
        rfl

theorem ends_replayScan (hseq : s.seq < u64Size) : Ends tenant i s .replayScan t reply ↔
    t = s.asTenant.replayDlq.1 ∧ reply = .ofExcept .count s.asTenant.replayDlq.2 := by
  rw [ends_next fun _ => rfl, ends_nextReplay hseq]
  simp only [Tenant.replayDlq, Shared.asTenant]
  cases replayLoop s.seq s.db.dlq.entries with
  | none => rfl
  | some batch =>
    simp only [List.nil_append, Nat.zero_add]
    rfl

end Others

/-! ## Reached configurations -/

section Runs
variable {c c' : Config Shared Frame} {call : Call}

/-- A call that reads the clock and takes nothing else from outside. -/
theorem exec_clock {t₀ : Tenant} (result : Nat → Tenant × Reply)
    (h : ∀ io, Tenant.exec tenant t₀ io call = some (result io.now)) :
    (∃ io : Inputs, Untaken s io.ids ∧ Tenant.exec tenant t₀ io call = some (t, reply)) ↔
      ∃ now, t = (result now).1 ∧ reply = (result now).2 := by
  constructor
  · rintro ⟨io, -, hexec⟩
    have heq := Option.some.inj ((h io).symm.trans hexec)
    exact ⟨io.now, by rw [heq], by rw [heq]⟩
  · rintro ⟨now, rfl, rfl⟩
    exact ⟨{ now := now }, ⟨.nil, List.forall_mem_nil _⟩, h _⟩

theorem ackLockList_nodup (tenant : String) (keys : List Key) : (Frame.ackLockList tenant keys).Nodup := by
  have hnames : ((Frame.ackLockList tenant keys).map Lock.name).Pairwise (· < ·) := by
    rw [Frame.ackLockList, List.map_map]
    exact List.pairwise_map.mpr ((ackQueues_rising keys).imp lockName_lt)
  exact List.Nodup.of_map _ (hnames.imp ne_of_lt)

theorem ends_iff_exec (hfree : ∀ l, s.locks l = none) (hseq : s.seq < u64Size) :
    Ends tenant i s (Frame.start tenant call) t reply ↔
      ∃ io : Inputs, Untaken s io.ids ∧ Tenant.exec tenant s.asTenant io call = some (t, reply) := by
  cases call with
  | enqueueBatch queue payloads policy =>
    have hlock : s.locks (.queue (lockName tenant queue)) = none := hfree _
    exact (ends_enqueueLock (q := ⟨queue, payloads, policy⟩) hlock hseq).trans enqueues_iff_exec
  -- For the other calls only the clock is free.
  | dequeueBatch queue limit timeout =>
    let result (now : Nat) : Tenant × Reply :=
      (⟨(s.db.dequeueBatch queue limit timeout now).1, s.seq⟩, .delivered (s.db.dequeueBatch queue limit timeout now).2)
    rw [exec_clock result fun _ => rfl]
    exact ends_dequeueLock (hfree _)
  | dequeueWithMaxInflight queue limit timeout maxInflight =>
    let result (now : Nat) : Tenant × Reply :=
      (⟨(s.db.dequeueWithMaxInflight queue limit timeout maxInflight now).1, s.seq⟩,
        .delivered (s.db.dequeueWithMaxInflight queue limit timeout maxInflight now).2)
    rw [exec_clock result fun _ => rfl]
    by_cases hmax : maxInflight = 0
    · simp only [Frame.start, hmax, if_true, ends_returned, result, TenantDb.dequeueWithMaxInflight]
      exact (exists_const Nat).symm
    · simp only [Frame.start, hmax, if_false]
      exact ends_dequeueCapped (hfree _) hmax
  | ackBatch keys =>
    rw [exec_clock (fun _ => (⟨(s.db.ackBatch keys).1, s.seq⟩, .acked (s.db.ackBatch keys).2)) fun _ => rfl, exists_const]
    exact ends_nextAckLock (ackLockList_nodup tenant keys) fun l _ => hfree l
  | nack key =>
    rw [exec_clock (fun now => (s.asTenant.nack key now, .done)) fun _ => rfl]
    exact ends_nackGet
  | cumulativeAck queue upToSeq =>
    let result : Tenant × Reply :=
      (⟨(s.db.cumulativeAck queue upToSeq).1, s.seq⟩, .count (s.db.cumulativeAck queue upToSeq).2)
    rw [exec_clock (fun _ => result) fun _ => rfl, exists_const]
    exact (ends_next fun _ => rfl).trans ends_writeOr
  | reapInflight queue =>
    let next (now : Nat) : Frame := Frame.writeOr .reap (reapLoop queue now (reapScan s.db queue)) [] .done
    rw [exec_clock (fun now => (⟨s.db.reapInflight queue now, s.seq⟩, .done)) fun _ => rfl]
    exact (ends_clock next fun _ => rfl).trans (exists_congr fun now => ends_writeOr)
  | purgeDlq =>
    rw [exec_clock (fun _ => (⟨s.db.purgeDlq.1, s.seq⟩, .count s.db.purgeDlq.2)) fun _ => rfl, exists_const]
    exact (ends_next fun _ => rfl).trans ends_writeOr
  | replayDlq =>
    rw [exec_clock (fun _ => (s.asTenant.replayDlq.1, .ofExcept .count s.asTenant.replayDlq.2)) fun _ => rfl, exists_const]
    exact ends_replayScan hseq

/-- The counter is a 64-bit number. -/
theorem seq_of_step {io : StepInput} {f' : Frame} (hseq : s.seq < u64Size) (h : Frame.step tenant s i f io = some (s', f')) :
    s'.seq < u64Size := by
  have hnext : nextSeq s.seq < u64Size := Nat.mod_lt _ (by decide)
  cases Frame.step_effect h with
  | quiet locks _ => exact hseq
  | plan _ => exact hseq
  | unlock => exact hseq
  | mint _ => exact hnext
  | retry => exact hnext
  | replay => exact hnext
  | evict _ => exact hseq
  | write => exact hseq

theorem seq_of_reached (h : Reached tenant c) : c.shared.seq < u64Size := by
  induction h with
  | start now => exact Nat.mod_lt _ (by decide)
  | @step c c' l _ hn ih =>
    cases l with
    | call call =>
      cases hn
      exact ih
    | env =>
      cases hn
      exact Nat.mod_lt _ (by decide)
    | run i io =>
      obtain ⟨f, s', f', -, hs, rfl⟩ := System.next_run_inv hn
      exact seq_of_step ih hs
  | restart now _ _ => exact Nat.mod_lt _ (by decide)

/-- No call is going on. -/
def Quiet (c : Config Shared Frame) : Prop := ∀ f ∈ c.threads, ∃ reply, f = .returned reply

/-- Then no lock is held. -/
theorem Quiet.free (hquiet : Quiet c) (h : Reached tenant c) (l : Lock) : c.shared.locks l = none := by
  cases hholder : c.shared.locks l with
  | none => rfl
  | some i =>
    obtain ⟨f, hf, hmem⟩ := (orderly_of_reached h).held hholder
    obtain ⟨reply, rfl⟩ := hquiet f (List.mem_iff_getElem?.mpr ⟨i, hf⟩)
    cases hmem

/-- A call that begins when no other is going on, and is left alone, does what its undisturbed form does with some
    readings of the clock and some ids that are not taken: it leaves the same records and the same counter, and
    returns the same. And all that the undisturbed form may do, it may do. -/
theorem undisturbed_iff_exec (h : Reached tenant c) (hquiet : Quiet c) (call : Call) (t : Tenant) (reply : Reply) :
    (∃ s', (system tenant).Solo c.threads.length c.shared (Frame.start tenant call) s' (.returned reply) ∧ s'.asTenant = t) ↔
      ∃ io : Inputs, Untaken c.shared io.ids ∧ Tenant.exec tenant c.shared.asTenant io call = some (t, reply) :=
  ends_iff_exec (hquiet.free h) (seq_of_reached h)

/-- An enqueue that has returned. -/
def enqueuedAlone : List (Label Call StepInput) :=
  [.call (.enqueueBatch "q" [[7]] { NamespacePolicy.standard "t" with backlogQuota := none }), .run 0 {}, .run 0 { id := "a" },
    .run 0 {}, .run 0 {}]

theorem undisturbed_iff_exec_dequeue : ∃ c, Reached "t" c ∧ Quiet c ∧ ∃ s',
    (system "t").Solo c.threads.length c.shared (Frame.start "t" (.dequeueBatch "q" 1 60000)) s'
      (.returned (.delivered [(encodeKey "q" 3, ⟨"a", "q", [7], 0, 1, 60005⟩)])) := by
  have hruns : ((system "t").exec ⟨.start 3, []⟩ enqueuedAlone).map Config.threads = some [.returned (.enqueued ["a"])] := by
    rfl
  have hdelivers : ((system "t").exec ⟨.start 3, []⟩ enqueuedAlone).map (fun c =>
      (Tenant.exec "t" c.shared.asTenant { now := 5 } (.dequeueBatch "q" 1 60000)).map Prod.snd) =
      some (some (.delivered [(encodeKey "q" 3, ⟨"a", "q", [7], 0, 1, 60005⟩)])) := by
    decide +kernel
  obtain ⟨c, hc, hthreads⟩ := Option.map_eq_some_iff.mp hruns
  rw [hc] at hdelivers
  obtain ⟨⟨t, reply⟩, hexec, rfl⟩ := Option.map_eq_some_iff.mp (Option.some.inj hdelivers)
  have hreached : Reached "t" c := (Reached.start 3).run (Runs.run_of_exec hc)
  have hquiet : Quiet c := fun f hf => by
    rw [hthreads] at hf
    exact ⟨_, List.mem_singleton.mp hf⟩
  obtain ⟨s', hsolo, -⟩ := (undisturbed_iff_exec hreached hquiet _ t _).mpr ⟨{ now := 5 }, ⟨.nil, List.forall_mem_nil _⟩, hexec⟩
  exact ⟨c, hreached, hquiet, s', hsolo⟩

end Runs

end RocksQueue
