import RocksQueue.Lib.Completion
import RocksQueue.Theorems.Deadlock
import RocksQueue.Theorems.Locks

/-! # Every call returns

No call on a tenant can go on for ever, whatever the others do: with each step it is further on, and what is left of a
loop gets shorter. And the calls do not get stuck: a call that holds a queue's lock waits for nothing, and `ack_batch`
locks in ascending order, so one of the calls that are not done can take its next step. Only a producer that
waits for room may go round as long as the clock has not passed its deadline. -/

namespace RocksQueue
open Interleaving LockOrder

def Lock.name : Lock → String
  | .queue name => name
  | .ack name => name

namespace Frame

/-- How far a call is; the last stage is 0. -/
@[simp] def stage : Frame → Nat
  | .enqueueLock _ => 12
  | .quotaPending _ _ none => 11
  | .quotaInflight _ _ none _ => 10
  | .quotaDlq _ _ none _ _ => 9
  | .quotaPending _ _ (some _) => 8
  | .quotaInflight _ _ (some _) _ => 7
  | .quotaDlq _ _ (some _) _ _ => 6
  | .evictScan _ _ => 5
  | .evictWrite _ _ => 4
  | .mint _ _ _ _ _ => 3
  | .dequeueLock _ _ _ _ => 6
  | .countInflight _ _ _ _ => 5
  | .dequeueScan _ _ _ => 4
  | .ackLocks _ _ _ => 4
  | .ackGet _ _ _ _ _ => 3
  | .nackGet _ => 4
  | .nackDraw _ _ => 3
  | .cumulativeScan _ _ => 4
  | .reapScan _ => 4
  | .purgeScan => 4
  | .replayScan => 4
  | .replayDraw _ _ _ _ _ => 3
  | .write _ _ _ _ => 2
  | .unlock _ _ => 1
  | .returned _ => 0

/-- What is left of the loop that a call is in. -/
def left : Frame → Nat
  | .mint _ _ todo _ _ => todo.length
  | .ackLocks _ _ todo => todo.length
  | .ackGet _ todo _ _ _ => todo.length
  | .replayDraw _ _ todo _ _ => todo.length
  | _ => 0

def rank (f : Frame) : ℕ ×ₗ ℕ := toLex (f.stage, f.left)

/-- A producer that waits for room does not look in vain: there is room, or its time is over. -/
def Timely : Frame → StepInput → Prop
  | .quotaDlq r quota (some deadline) pending inflight, io =>
    pending + inflight + r.payloads.length ≤ quota ∨ deadline ≤ io.now
  | _, _ => True

/-- The lock that a call takes next. -/
def awaited (tenant : String) : Frame → Option Lock
  | .enqueueLock r => some (.queue (lockName tenant r.queue))
  | .dequeueLock queue _ _ _ => some (.queue (lockName tenant queue))
  | .ackLocks _ _ (l :: _) => some l
  | _ => none

/-- The names of the locks that `ack_batch` takes, in this order. -/
def lockNames : Frame → List String
  | .ackLocks _ held todo => (held ++ todo).map Lock.name
  | _ => []

/-- A loop with nothing left to do is not a place where a call stands. -/
def Proper : Frame → Prop
  | .mint _ _ todo _ _ => todo ≠ []
  | .ackLocks _ _ todo => todo ≠ []
  | _ => True

variable {tenant : String} {s s' : Shared} {i : Nat} {io : StepInput} {f f' : Frame}

/-! ## Each step is one further on -/

section Rank
variable {r : EnqueueRequest} {now n k : Nat} {b : WriteBatch}

theorem rank_lt_of_stage (h : f'.stage < f.stage) : f'.rank < f.rank :=
  Prod.Lex.toLex_lt_toLex.mpr (Or.inl h)

theorem rank_lt_of_left (hstage : f'.stage = f.stage) (hleft : f'.left < f.left) : f'.rank < f.rank :=
  Prod.Lex.toLex_lt_toLex.mpr (Or.inr ⟨hstage, hleft⟩)

theorem stage_beginMint : (beginMint tenant r now).stage ≤ 3 := by
  unfold beginMint
  split <;> simp

theorem stage_beginQuota : (beginQuota tenant r now).stage ≤ 11 := by
  unfold beginQuota
  split
  · exact stage_beginMint.trans (by omega)
  · exact le_refl _

theorem stage_checkQuota {quota current : Nat} : (checkQuota tenant r quota none current now).stage ≤ 8 := by
  have hmint : (beginMint tenant r now).stage ≤ 8 := stage_beginMint.trans (by omega)
  simp only [checkQuota]
  split
  · split
    · simp
    · exact hmint
  · simp
  · split
    · simp
    · exact hmint

/-- The wait ends when it is time, one way or the other. -/
theorem stage_checkQuota_timely {quota current deadline : Nat} (h : current + r.payloads.length ≤ quota ∨ deadline ≤ now) :
    (checkQuota tenant r quota (some deadline) current now).stage ≤ 3 := by
  simp only [checkQuota]
  split
  · exact stage_beginMint
  · rename_i hfull
    rw [if_pos (h.resolve_left hfull)]
    simp

theorem stage_writeOr {kind : WriteKind} {held : List Lock} {reply : Reply} : (writeOr kind b held reply).stage ≤ 2 := by
  unfold writeOr
  split <;> simp

theorem stage_beginDequeue {queue : String} {limit timeout : Nat} : (beginDequeue tenant queue limit timeout).stage ≤ 4 := by
  unfold beginDequeue
  split <;> simp

theorem rank_nextAck (held : List Lock) (todo seen counted : List Key) :
    (nextAck held todo seen counted).stage ≤ 2 ∨
      (nextAck held todo seen counted).stage = 3 ∧ (nextAck held todo seen counted).left < todo.length := by
  induction todo generalizing seen with
  | nil => exact Or.inl stage_writeOr
  | cons key todo ih =>
    simp only [nextAck]
    split
    · rcases ih seen with hend | ⟨hstage, hleft⟩
      · exact Or.inl hend
      · exact Or.inr ⟨hstage, hleft.trans (Nat.lt_succ_self _)⟩
    · exact Or.inr ⟨rfl, Nat.lt_succ_self _⟩

theorem rank_nextReplay (b : WriteBatch) (count : Nat) (todo : List (Key × Value)) : (nextReplay b count todo).stage ≤ 2 ∨
    (nextReplay b count todo).stage = 3 ∧ (nextReplay b count todo).left < todo.length := by
  cases todo with
  | nil => exact Or.inl stage_writeOr
  | cons item todo =>
    obtain ⟨key, v⟩ := item
    cases v with
    | corrupt raw => exact Or.inl (by simp [nextReplay, stage])
    | task task => exact Or.inr ⟨rfl, Nat.lt_succ_self _⟩

/-- With each step a call is further on. -/
theorem rank_step (ht : f.Timely io) (h : Frame.step tenant s i f io = some (s', f')) : f'.rank < f.rank := by
  cases stepped_of_step h with
  | enqueueLock => exact rank_lt_of_stage (Nat.lt_succ_of_le stage_beginQuota)
  -- The stages of the quota frames go down from the deadline on, and a wait ends with it.
  | quotaPending r quota deadline => cases deadline <;> exact rank_lt_of_stage (by simp)
  | quotaInflight r quota deadline => cases deadline <;> exact rank_lt_of_stage (by simp)
  | quotaDlq r quota deadline pending inflight =>
    cases deadline with
    | none => exact rank_lt_of_stage (Nat.lt_succ_of_le stage_checkQuota)
    | some deadline =>
      have hend : (checkQuota tenant r quota (some deadline) (pending + inflight) io.now).stage ≤ 3 :=
        stage_checkQuota_timely ht
      exact rank_lt_of_stage (hend.trans_lt (by simp))
  | evictNothing => exact rank_lt_of_stage (stage_beginMint.trans_lt (by simp))
  | evictScan => exact rank_lt_of_stage (by simp)
  | evictWrite => exact rank_lt_of_stage (Nat.lt_succ_of_le stage_beginMint)
  | mint =>
    unfold nextMint
    split
    · exact rank_lt_of_stage (by simp)
    · exact rank_lt_of_left rfl (Nat.lt_succ_self _)
  | dequeueLock => exact rank_lt_of_stage (stage_beginDequeue.trans_lt (by simp))
  | cappedLock => exact rank_lt_of_stage (by simp)
  | countFull => exact rank_lt_of_stage (by simp)
  | countInflight => exact rank_lt_of_stage (Nat.lt_succ_of_le stage_beginDequeue)
  | dequeueScan => exact rank_lt_of_stage (stage_writeOr.trans_lt (by simp))
  | ackLock keys held l todo =>
    -- Another lock of the list, or the first key.
    cases todo with
    | nil =>
      refine rank_lt_of_stage ?_
      rcases rank_nextAck (held ++ [l]) keys [] [] with hend | ⟨hstage, -⟩
      · exact hend.trans_lt (by simp)
      · exact hstage.trans_lt (by simp)
    | cons l' todo => exact rank_lt_of_left rfl (Nat.lt_succ_self _)
  | ackGet key todo seen counted held =>
    generalize (if (s.db.get .inflight key).isSome then counted ++ [key] else counted) = counted'
    rcases rank_nextAck held todo seen counted' with hend | ⟨hstage, hleft⟩
    · exact rank_lt_of_stage (hend.trans_lt (by simp))
    · exact rank_lt_of_left hstage hleft
  | nackNone => exact rank_lt_of_stage (by simp)
  | nackPoison => exact rank_lt_of_stage (by simp)
  | nackLetter => exact rank_lt_of_stage (by simp)
  | nackGet => exact rank_lt_of_stage (by simp)
  | nackDraw => exact rank_lt_of_stage (by simp)
  | cumulativeScan => exact rank_lt_of_stage (stage_writeOr.trans_lt (by simp))
  | reapScan => exact rank_lt_of_stage (stage_writeOr.trans_lt (by simp))
  | purgeScan => exact rank_lt_of_stage (stage_writeOr.trans_lt (by simp))
  | replayScan =>
    refine rank_lt_of_stage ?_
    rcases rank_nextReplay [] 0 s.db.dlq.entries with hend | ⟨hstage, -⟩
    · exact hend.trans_lt (by simp)
    · exact hstage.trans_lt (by simp)
  | replayDraw key task todo b count =>
    rcases rank_nextReplay (b ++ replayOps key task s.seq) (count + 1) todo with hend | ⟨hstage, hleft⟩
    · exact rank_lt_of_stage (hend.trans_lt (by simp))
    · exact rank_lt_of_left hstage hleft
  | write => exact rank_lt_of_stage (by simp)
  | unlock => exact rank_lt_of_stage (by simp)

end Rank

/-! ## The locks -/

section Locks

/-- What a step does to the locks, and to what its thread holds. -/
inductive LockMove (tenant : String) (s : Shared) (i : Nat) (f : Frame) (s' : Shared) (f' : Frame) : Prop where
  | kept (hlocks : s'.locks = s.locks) (hheld : f'.held tenant = f.held tenant)
  | locked (l : Lock) (hlocks : s'.locks = fun l' => if l' = l then some i else s.locks l')
      (hheld : f'.held tenant = f.held tenant ++ [l])
  | unlocked (hlocks : s'.locks = fun l => if l ∈ f.held tenant then none else s.locks l)

theorem lockMove_of_step (h : Frame.step tenant s i f io = some (s', f')) : LockMove tenant s i f s' f' := by
  cases stepped_of_step h with
  | enqueueLock r => exact .locked _ rfl (beginQuota_shape tenant r io.now).2
  | dequeueLock queue limit timeout => exact .locked _ rfl (beginDequeue_shape tenant queue limit timeout).2
  | cappedLock => exact .locked _ rfl rfl
  | ackLock keys held l todo => exact .locked l rfl (nextAckLock_shape tenant keys (held ++ [l]) todo).2
  | unlock => exact .unlocked rfl
  | quotaPending => exact .kept rfl rfl
  | quotaInflight => exact .kept rfl rfl
  | quotaDlq r quota deadline pending inflight =>
    exact .kept rfl (checkQuota_shape tenant r quota deadline (pending + inflight) io.now).2
  | evictNothing r => exact .kept rfl (beginMint_shape tenant r io.now).2
  | evictScan => exact .kept rfl rfl
  | evictWrite r => exact .kept rfl (beginMint_shape tenant r io.now).2
  | mint r now payload todo => exact .kept rfl (nextMint_shape tenant r now todo _ _).2
  | countFull => exact .kept rfl rfl
  | countInflight queue limit timeout => exact .kept rfl (beginDequeue_shape tenant queue _ timeout).2
  | dequeueScan => exact .kept rfl (writeOr_shape tenant _ _ _ _).2
  | ackGet key todo seen counted held => exact .kept rfl (nextAck_shape tenant held todo seen _).2
  | nackNone => exact .kept rfl rfl
  | nackPoison => exact .kept rfl rfl
  | nackLetter => exact .kept rfl rfl
  | nackGet => exact .kept rfl rfl
  | nackDraw => exact .kept rfl rfl
  | cumulativeScan => exact .kept rfl (writeOr_shape tenant _ _ _ _).2
  | reapScan => exact .kept rfl (writeOr_shape tenant _ _ _ _).2
  | purgeScan => exact .kept rfl (writeOr_shape tenant _ _ _ _).2
  | replayScan => exact .kept rfl (nextReplay_shape tenant [] 0 _).2
  | replayDraw key task todo => exact .kept rfl (nextReplay_shape tenant _ _ todo).2
  | write => exact .kept rfl rfl

/-- A lock that is held after the step was held before it, or was taken by the step. -/
theorem LockMove.held {l : Lock} {j : Nat} (h : LockMove tenant s i f s' f') (hholder : s'.locks l = some j) :
    s.locks l = some j ∧ (l ∈ f.held tenant → l ∈ f'.held tenant) ∨ j = i ∧ l ∈ f'.held tenant := by
  cases h with
  | kept hlocks hheld => exact Or.inl ⟨hlocks ▸ hholder, fun hl => hheld ▸ hl⟩
  | locked l₀ hlocks hheld =>
    rw [hlocks] at hholder
    dsimp only at hholder
    split at hholder
    · rename_i heq
      exact Or.inr ⟨(Option.some.inj hholder).symm, by simp [hheld, heq]⟩
    · exact Or.inl ⟨hholder, fun hl => by simp [hheld, hl]⟩
  | unlocked hlocks =>
    rw [hlocks] at hholder
    dsimp only at hholder
    split at hholder
    · cases hholder
    · rename_i hnot
      exact Or.inl ⟨hholder, fun hl => absurd hl hnot⟩

theorem lockNames_nextAck (held : List Lock) (todo seen counted : List Key) :
    (nextAck held todo seen counted).lockNames = [] := by
  rcases nextAck_cases held todo seen counted with ⟨key, rest, -, heq⟩ | ⟨-, heq⟩ | heq <;> rw [heq] <;> rfl

theorem lockNames_nextAckLock (keys : List Key) (held todo : List Lock) :
    List.Sublist (nextAckLock keys held todo).lockNames ((held ++ todo).map Lock.name) := by
  cases todo with
  | nil =>
    rw [nextAckLock, lockNames_nextAck]
    exact List.nil_sublist _
  | cons l todo => exact .refl _

theorem proper_nextAck (held : List Lock) (todo seen counted : List Key) : (nextAck held todo seen counted).Proper := by
  rcases nextAck_cases held todo seen counted with ⟨key, rest, -, heq⟩ | ⟨-, heq⟩ | heq <;> rw [heq] <;> trivial

theorem proper_nextAckLock (keys : List Key) (held todo : List Lock) : (nextAckLock keys held todo).Proper := by
  cases todo with
  | nil => exact proper_nextAck held keys [] []
  | cons l todo => exact List.cons_ne_nil l todo

/-- A call takes its locks in ascending order, and stands where it can go on. -/
structure Ordered (f : Frame) : Prop where
  rising : f.lockNames.Pairwise (· < ·)
  proper : f.Proper

theorem ordered_beginMint {r : EnqueueRequest} {now : Nat} : (beginMint tenant r now).Ordered := by
  unfold beginMint
  split
  · exact ⟨.nil, trivial⟩
  · rename_i hne
    exact ⟨.nil, hne⟩

theorem ordered_beginQuota {r : EnqueueRequest} {now : Nat} : (beginQuota tenant r now).Ordered := by
  unfold beginQuota
  split
  · exact ordered_beginMint
  · exact ⟨.nil, trivial⟩

theorem ordered_checkQuota {r : EnqueueRequest} {quota current now : Nat} {deadline : Option Nat} :
    (checkQuota tenant r quota deadline current now).Ordered := by
  unfold checkQuota
  dsimp only
  repeat' split
  all_goals first | exact ordered_beginMint | exact ⟨.nil, trivial⟩

theorem ordered_nextMint {r : EnqueueRequest} {now : Nat} {todo : List Bytes} {b : WriteBatch} {ids : List String} :
    (nextMint tenant r now todo b ids).Ordered := by
  unfold nextMint
  split
  · exact ⟨.nil, trivial⟩
  · rename_i hne
    exact ⟨.nil, hne⟩

theorem ordered_beginDequeue {queue : String} {limit timeout : Nat} : (beginDequeue tenant queue limit timeout).Ordered := by
  unfold beginDequeue
  split <;> exact ⟨.nil, trivial⟩

theorem ordered_writeOr {kind : WriteKind} {b : WriteBatch} {held : List Lock} {reply : Reply} :
    (writeOr kind b held reply).Ordered := by
  unfold writeOr
  split <;> exact ⟨.nil, trivial⟩

theorem ordered_nextReplay {b : WriteBatch} {count : Nat} {todo : List (Key × Value)} :
    (nextReplay b count todo).Ordered := by
  cases todo with
  | nil => exact ordered_writeOr
  | cons item todo =>
    obtain ⟨key, v⟩ := item
    cases v <;> exact ⟨.nil, trivial⟩

theorem ordered_nextAckLock {keys : List Key} {held todo : List Lock}
    (h : ((held ++ todo).map Lock.name).Pairwise (· < ·)) : (nextAckLock keys held todo).Ordered :=
  ⟨h.sublist (lockNames_nextAckLock keys held todo), proper_nextAckLock keys held todo⟩

theorem ordered_start (call : Call) : (start tenant call).Ordered := by
  cases call with
  | ackBatch keys =>
    refine ordered_nextAckLock ?_
    rw [List.nil_append, ackLockList, List.map_map]
    exact List.pairwise_map.mpr ((ackQueues_rising keys).imp lockName_lt)
  | dequeueWithMaxInflight queue limit timeout maxInflight =>
    simp only [start]
    split <;> exact ⟨.nil, trivial⟩
  | _ => exact ⟨.nil, trivial⟩

theorem ordered_step (hf : f.Ordered) (h : Frame.step tenant s i f io = some (s', f')) : f'.Ordered := by
  cases stepped_of_step h with
  | enqueueLock => exact ordered_beginQuota
  | quotaPending => exact ⟨.nil, trivial⟩
  | quotaInflight => exact ⟨.nil, trivial⟩
  | quotaDlq => exact ordered_checkQuota
  | evictNothing => exact ordered_beginMint
  | evictScan => exact ⟨.nil, trivial⟩
  | evictWrite => exact ordered_beginMint
  | mint => exact ordered_nextMint
  | dequeueLock => exact ordered_beginDequeue
  | cappedLock => exact ⟨.nil, trivial⟩
  | countFull => exact ⟨.nil, trivial⟩
  | countInflight => exact ordered_beginDequeue
  | dequeueScan => exact ordered_writeOr
  -- What is held rises to the lock that was awaited.
  | ackLock => exact ordered_nextAckLock (by simpa [lockNames] using hf.rising)
  | ackGet key todo seen counted held =>
    refine ⟨?_, proper_nextAck held todo seen _⟩
    rw [lockNames_nextAck]
    exact .nil
  | nackNone => exact ⟨.nil, trivial⟩
  | nackPoison => exact ⟨.nil, trivial⟩
  | nackLetter => exact ⟨.nil, trivial⟩
  | nackGet => exact ⟨.nil, trivial⟩
  | nackDraw => exact ⟨.nil, trivial⟩
  | cumulativeScan => exact ordered_writeOr
  | reapScan => exact ordered_writeOr
  | purgeScan => exact ordered_writeOr
  | replayScan => exact ordered_nextReplay
  | replayDraw => exact ordered_nextReplay
  | write => exact ⟨.nil, trivial⟩
  | unlock => exact ⟨.nil, trivial⟩

/-- An id that is not taken yet. -/
theorem exists_fresh (issued : List String) : ∃ id, id ∉ issued := by
  obtain ⟨id, hid⟩ := Infinite.exists_notMem_finset issued.toFinset
  exact ⟨id, fun hmem => hid (List.mem_toFinset.mpr hmem)⟩

/-- A call that has not returned takes its next step, unless it waits for a lock that is held. -/
theorem step_or_awaits (tenant : String) (s : Shared) (i : Nat) (hproper : f.Proper) (hlive : ∀ reply, f ≠ .returned reply) :
    (∃ io, f.Timely io ∧ (Frame.step tenant s i f io).isSome = true) ∨
      ∃ l j, f.awaited tenant = some l ∧ s.locks l = some j := by
  have hlock : ∀ l, s.locks l = none ∨ ∃ j, s.locks l = some j := fun l => by
    cases s.locks l with
    | none => exact Or.inl rfl
    | some j => exact Or.inr ⟨j, rfl⟩
  cases f with
  | enqueueLock r =>
    rcases hlock (.queue (lockName tenant r.queue)) with hfree | ⟨j, hj⟩
    · exact Or.inl ⟨{}, trivial, by simp [Frame.step, Shared.acquire, hfree]⟩
    · exact Or.inr ⟨_, j, rfl, hj⟩
  | dequeueLock queue limit timeout maxInflight =>
    rcases hlock (.queue (lockName tenant queue)) with hfree | ⟨j, hj⟩
    · exact Or.inl ⟨{}, trivial, by simp [Frame.step, Shared.acquire, hfree]⟩
    · exact Or.inr ⟨_, j, rfl, hj⟩
  | ackLocks keys held todo =>
    cases todo with
    | nil => exact absurd rfl hproper
    | cons l todo =>
      rcases hlock l with hfree | ⟨j, hj⟩
      · exact Or.inl ⟨{}, trivial, by simp [Frame.step, Shared.acquire, hfree]⟩
      · exact Or.inr ⟨l, j, rfl, hj⟩
  | quotaDlq r quota deadline pending inflight =>
    -- The clock may have reached the deadline.
    cases deadline with
    | none => exact Or.inl ⟨{}, trivial, rfl⟩
    | some deadline => exact Or.inl ⟨{ now := deadline }, Or.inr (le_refl _), rfl⟩
  | mint r now todo b ids =>
    cases todo with
    | nil => exact absurd rfl hproper
    | cons payload todo =>
      obtain ⟨id, hid⟩ := exists_fresh s.issued
      exact Or.inl ⟨{ id := id }, trivial, by simp [Frame.step, hid]⟩
  | returned reply => exact absurd rfl (hlive reply)
  | _ => exact Or.inl ⟨{}, trivial, rfl⟩

end Locks

end Frame

/-! ## Reached configurations -/

section Runs
variable {tenant : String} {c c' : Config Shared Frame}

/-- Thread `i` is about to take the lock. -/
def TakesNext (tenant : String) (c : Config Shared Frame) (i : Nat) (l : Lock) : Prop :=
  ∃ f, c.threads[i]? = some f ∧ f.awaited tenant = some l

def HasLock (c : Config Shared Frame) (i : Nat) (l : Lock) : Prop := c.shared.locks l = some i

/-- What the locks of a reached configuration keep. -/
structure Orderly (tenant : String) (c : Config Shared Frame) : Prop where
  ordered : ∀ {i : Nat} {f : Frame}, c.threads[i]? = some f → f.Ordered
  held : ∀ {i : Nat} {l : Lock}, HasLock c i l → ∃ f, c.threads[i]? = some f ∧ l ∈ f.held tenant

theorem Orderly.next {l : Label Call StepInput} (h : Orderly tenant c) (hn : (system tenant).next c l = some c') :
    Orderly tenant c' := by
  cases l with
  | call call =>
    cases hn
    refine ⟨fun hf => ?_, fun hholds => ?_⟩
    · rcases getElem?_append_cases hf with ⟨rfl, rfl⟩ | hf
      · exact Frame.ordered_start call
      · exact h.ordered hf
    · obtain ⟨f, hf, hmem⟩ := h.held hholds
      refine ⟨f, ?_, hmem⟩
      rw [List.getElem?_append_left (List.getElem?_eq_some_iff.mp hf).1, hf]
  | env =>
    cases hn
    exact ⟨h.ordered, h.held⟩
  | run i io =>
    obtain ⟨f, s', f', hf, hs, rfl⟩ := System.next_run_inv hn
    have hlt : i < c.threads.length := (List.getElem?_eq_some_iff.mp hf).1
    refine ⟨fun hg => ?_, fun {j l} hholds => ?_⟩
    · rcases getElem?_set_cases hg with ⟨rfl, rfl⟩ | ⟨-, hg⟩
      · exact Frame.ordered_step (h.ordered hf) hs
      · exact h.ordered hg
    · rcases (Frame.lockMove_of_step hs).held hholds with ⟨hbefore, hkept⟩ | ⟨rfl, hmem⟩
      · obtain ⟨g, hg, hmem⟩ := h.held hbefore
        by_cases hij : i = j
        · subst hij
          obtain rfl : f = g := Option.some.inj (hf.symm.trans hg)
          exact ⟨f', by simp [hlt], hkept hmem⟩
        · exact ⟨g, by simp [List.getElem?_set_ne hij, hg], hmem⟩
      · exact ⟨f', by simp [hlt], hmem⟩

theorem orderly_of_reached (h : Reached tenant c) : Orderly tenant c := by
  induction h with
  | start now => exact ⟨fun hf => (nomatch hf), fun hholds => (nomatch hholds)⟩
  | step _ hn ih => exact ih.next hn
  | restart now _ _ => exact ⟨fun hf => (nomatch hf), fun hholds => (nomatch hholds)⟩

/-- The lock that a call takes next comes after those that it holds. -/
theorem Orderly.ascending (h : Orderly tenant c) : Ascending Lock.name (TakesNext tenant c) (HasLock c) := by
  rintro i l l' ⟨f, hf, hawaits⟩ hholds
  obtain ⟨g, hg, hmem⟩ := h.held hholds
  obtain rfl : f = g := Option.some.inj (hf.symm.trans hg)
  have hrising := (h.ordered hf).rising
  cases f with
  | ackLocks keys held todo =>
    cases todo with
    | nil => cases hawaits
    | cons l₁ todo =>
      cases hawaits
      have hrising' : (held.map Lock.name ++ (l :: todo).map Lock.name).Pairwise (· < ·) := by
        simpa [Frame.lockNames] using hrising
      exact (List.pairwise_append.mp hrising').2.2 _ (List.mem_map_of_mem hmem) _ List.mem_cons_self
  | enqueueLock r => cases hmem
  | dequeueLock queue limit timeout maxInflight => cases hmem
  | _ => cases hawaits

/-- The clock goes on: no producer looks in vain for room. -/
def Timely (c : Config Shared Frame) : Label Call StepInput → Prop
  | .run i io => ∀ f, c.threads[i]? = some f → f.Timely io
  | _ => True

/-- As long as a call has not returned, one of the calls takes a step. -/
theorem Orderly.advances (h : Orderly tenant c) {f : Frame} (hf : f ∈ c.threads) (hlive : ∀ reply, f ≠ .returned reply) :
    ∃ c', (system tenant).Advances Timely c c' := by
  let live : Set Nat := {j | ∃ g, c.threads[j]? = some g ∧ ∀ reply, g ≠ .returned reply}
  have hfinite : live.Finite := (Set.finite_Iio c.threads.length).subset fun j ⟨g, hg, _⟩ =>
    (List.getElem?_eq_some_iff.mp hg).1
  have hascending : Ascending Lock.name (TakesNext tenant c) (HasLock c) := h.ascending
  obtain ⟨i, hi⟩ := List.mem_iff_getElem?.mp hf
  obtain ⟨j, ⟨g, hg, hgl⟩, hfree⟩ := hascending.exists_free hfinite ⟨i, f, hi, hlive⟩
  rcases Frame.step_or_awaits tenant c.shared j (h.ordered hg).proper hgl with ⟨io, htimely, hstep⟩ | ⟨l, k, hawaits, hholds⟩
  · obtain ⟨⟨s', g'⟩, hstep⟩ := Option.isSome_iff_exists.mp hstep
    refine ⟨⟨s', c.threads.set j g'⟩, j, io, fun f' hf' => ?_, ?_⟩
    · obtain rfl : g = f' := Option.some.inj (hg.symm.trans hf')
      exact htimely
    · simp only [System.next, hg, system, hstep]
  · obtain ⟨g', hg', hmem⟩ := h.held hholds
    have hlive' : ∀ reply, g' ≠ .returned reply := by
      rintro reply rfl
      cases hmem
    exact absurd ⟨l, ⟨g, hg, hawaits⟩, hholds⟩ (hfree k ⟨g', hg', hlive'⟩)

theorem system_descends : (system tenant).Descends Timely Frame.rank := fun hok hf hs => Frame.rank_step (hok _ hf) hs

theorem reached_of_advances (h : Reached tenant c) (hstep : (system tenant).Advances Timely c c') : Reached tenant c' := by
  obtain ⟨i, io, -, hn⟩ := hstep
  exact h.step hn

/-- When no call takes a step any more, each has returned. -/
theorem returned_of_rest (h : Reached tenant c) (hrest : ∀ c', ¬(system tenant).Advances Timely c c') :
    ∀ f ∈ c.threads, ∃ reply, f = .returned reply := by
  intro f hf
  by_contra hlive
  obtain ⟨c', hstep⟩ := (orderly_of_reached h).advances hf (not_exists.mp hlive)
  exact hrest c' hstep

/-- Calls on a tenant all return. From any configuration that they get to, the calls that have begun take finitely many
    steps, apart from a producer's looks for room that are in vain; they can always get to where no one steps any more,
    and then each of them has returned. -/
theorem calls_return (h : Reached tenant c) :
    Acc (fun c'' c' => (system tenant).Advances Timely c' c'') c ∧
      (∀ c', Relation.ReflTransGen ((system tenant).Advances Timely) c c' →
        (∀ c'', ¬(system tenant).Advances Timely c' c'') → ∀ f ∈ c'.threads, ∃ reply, f = .returned reply) ∧
      ∃ c', Relation.ReflTransGen ((system tenant).Advances Timely) c c' ∧ ∀ f ∈ c'.threads, ∃ reply, f = .returned reply := by
  have hdescends : (system tenant).Descends Timely Frame.rank := system_descends
  have hacc := hdescends.acc c
  refine ⟨hacc, fun c' hsteps hrest => ?_, ?_⟩
  · have hreached : Reached tenant c' := by
      clear hrest
      induction hsteps with
      | refl => exact h
      | tail _ hstep ih => exact reached_of_advances ih hstep
    exact returned_of_rest hreached hrest
  · obtain ⟨c', hsteps, hreached, hrest⟩ := System.exists_rest hacc h reached_of_advances
    exact ⟨c', hsteps, returned_of_rest hreached hrest⟩

/-- A producer waits for room in a queue that may hold nothing, and a consumer of the queue for its lock. -/
def waitingProducer : List (Label Call StepInput) :=
  [.call (.enqueueBatch "q" [[]] { NamespacePolicy.standard "t" with backlogQuota := some 0, backlogPolicy := .block 10 }),
    .run 0 {}, .run 0 {}, .run 0 {}, .run 0 {}, .call (.dequeueBatch "q" 1 60000), .call (.ackBatch [encodeKey "q" 0])]

theorem calls_return_waitingProducer : ∃ c, Reached "t" c ∧ TakesNext "t" c 1 (.queue (lockName "t" "q")) ∧
    HasLock c 0 (.queue (lockName "t" "q")) ∧ Acc (fun c'' c' => (system "t").Advances Timely c' c'') c := by
  have hsome : (((system "t").exec ⟨.start 0, []⟩ waitingProducer).map fun c =>
      ((c.threads[1]?).bind (Frame.awaited "t"), c.shared.locks (.queue (lockName "t" "q")))) =
      some (some (.queue (lockName "t" "q")), some 0) := by
    decide +kernel
  obtain ⟨c, hc, hlocks⟩ := Option.map_eq_some_iff.mp hsome
  obtain ⟨hawaits, hholds⟩ := Prod.mk.inj hlocks
  obtain ⟨f, hf, hlock⟩ := Option.bind_eq_some_iff.mp hawaits
  have hreached : Reached "t" c := (Reached.start 0).run (Runs.run_of_exec hc)
  exact ⟨c, hreached, ⟨f, hf, hlock⟩, hholds, (calls_return hreached).1⟩

end Runs

end RocksQueue
