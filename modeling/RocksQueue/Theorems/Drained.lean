import RocksQueue.Drain
import RocksQueue.Theorems.AckCounts
import RocksQueue.Theorems.Blocked

/-! # A successful drain

The loop of `drain_tenant` scans one queue, pending first and inflight after it. Records of other queues it does not
see, and a nack or a sweep may take a record past it, from inflight back to pending between the two scans. Where
neither happens, nothing is left when it reports success (`drained_emptied`). -/

namespace RocksQueue
open Interleaving

/-- No record is pending or inflight, in any queue. -/
structure Emptied (db : TenantDb) : Prop where
  pending : ∀ key, db.get .pending key = none
  inflight : ∀ key, db.get .inflight key = none

/-! ## Runs without enqueues -/

/-- A call of a consumer or of the reaper. -/
def Call.consumes : Call → Bool
  | .dequeueBatch _ _ _ => true
  | .dequeueWithMaxInflight _ _ _ _ => true
  | .ackBatch _ => true
  | .nack _ => true
  | .cumulativeAck _ _ => true
  | .reapInflight _ => true
  | _ => false

/-- What these calls write. -/
def consumerWrites : List WriteKind := [.dequeue, .ack, .nack, .cumulativeAck, .reap]

/-- A step of consumers, of the reaper or of the drain. -/
def DrainRun.consuming (c : DrainRun) : DrainLabel → Bool
  | .pool (.call call) => call.consumes
  | .pool (.run i _) => c.pool.threads[i]?.all fun f => f.writes.all (· ∈ consumerWrites)
  | _ => true

/-- The scan of the queue finds a record, if there is one in any queue. -/
def TenantDb.scanSees (db : TenantDb) (c : Cf) (queue : String) : Bool :=
  !(db.scanQueue c queue).isEmpty || (db.cf c).entries.isEmpty

/-- The scans of the depth read under way have found nothing so far. -/
def DrainFrame.foundNothing : DrainFrame → Bool
  | .scanInflight pending => pending = 0
  | .scanDlq pending inflight => pending = 0 ∧ inflight = 0
  | _ => false

/-- The step does not write a record back to pending. -/
def leavesInflight (c : Config Shared Frame) : Label Call StepInput → Bool
  | .run i _ =>
    match c.threads[i]? with
    | some (.write _ b _ _) => !putsBack b
    | _ => true
  | _ => true

/-- The step makes a depth read that has found nothing miss a record: one that is in another queue, or one that is
    written back to pending after the first scan. -/
def DrainRun.misses (queue : String) (c : DrainRun) : DrainLabel → Bool
  | .drain _ =>
    match c.drain with
    | .scanPending => !c.pool.shared.db.scanSees .pending queue
    | .scanInflight pending => decide (pending = 0) && !c.pool.shared.db.scanSees .inflight queue
    | _ => false
  | .pool l => c.drain.foundNothing && !(leavesInflight c.pool l && dequeueInTime c.pool l)

/-! ## The scans and what comes between them -/

section Scans
variable {tenant queue : String} {queues : List String} {db : TenantDb} {cf : Cf} {d d' : DrainRun}
  {c' : Config Shared Frame}

theorem none_of_scanSees (hsees : db.scanSees cf queue = true) (hcount : db.countPrefix cf queue = 0) (key : Key) :
    db.get cf key = none := by
  have hscan : db.scanQueue cf queue = [] := List.eq_nil_of_length_eq_zero hcount
  have hentries : (db.cf cf).entries = [] := by simpa [TenantDb.scanSees, hscan] using hsees
  cases hget : db.get cf key with
  | none => rfl
  | some v =>
    have hmem := OrderedMap.mem_entries.mpr hget
    rw [hentries] at hmem
    cases hmem

/-- A step that changes the records writes the batch of its frame. -/
theorem step_db {s s' : Shared} {i : Nat} {io : StepInput} {f f' : Frame} (h : Frame.step tenant s i f io = some (s', f')) :
    s'.db = s.db ∨ (∃ r b, f = .evictWrite r b) ∨
      ∃ kind b held reply, f = .write kind b held reply ∧ s'.db = s.db.write b := by
  cases Frame.step_effect h with
  | evict => exact Or.inr (Or.inl ⟨_, _, rfl⟩)
  | write => exact Or.inr (Or.inr ⟨_, _, _, _, rfl, rfl⟩)
  | _ => exact Or.inl rfl

/-- With nothing pending, a step that writes nothing back to pending leaves it so, and puts nothing inflight: what
    a dequeue puts there it takes from pending. -/
theorem step_nothing {l : Label Call StepInput} (h : Reached tenant d.pool) (hconsuming : d.consuming (.pool l) = true)
    (hleaves : leavesInflight d.pool l = true) (htime : dequeueInTime d.pool l = true)
    (hn : (system tenant).next d.pool l = some c') (hpending : ∀ key, d.pool.shared.db.get .pending key = none) :
    (∀ key, c'.shared.db.get .pending key = none) ∧
      ∀ key, d.pool.shared.db.get .inflight key = none → c'.shared.db.get .inflight key = none := by
  cases l with
  | call call =>
    cases hn
    exact ⟨hpending, fun _ => id⟩
  | env =>
    cases hn
    exact ⟨hpending, fun _ => id⟩
  | run i a =>
    obtain ⟨f, s, f', hf, hs, rfl⟩ := System.next_run_inv hn
    rcases step_db hs with hsame | ⟨r, b, rfl⟩ | ⟨kind, b, held, reply, rfl, hwrite⟩
    · rw [hsame]
      exact ⟨hpending, fun _ => id⟩
    · simp [DrainRun.consuming, hf, Frame.writes, consumerWrites] at hconsuming
    · simp only [leavesInflight, hf, Bool.not_eq_true'] at hleaves
      -- What the write puts to pending would be a put-back, which the step does not do.
      rw [hwrite]
      refine ⟨fun key => ?_, fun key hnone => ?_⟩
      · rw [Option.eq_none_iff_forall_ne_some]
        intro v hget
        rcases TenantDb.get_write hget with hput | ⟨hold, -⟩
        · rw [Frame.putsBack_iff.mpr ⟨key, v, hput⟩] at hleaves
          cases hleaves
        · rw [hpending] at hold
          cases hold
      · rw [Option.eq_none_iff_forall_ne_some]
        intro v hget
        rcases TenantDb.get_write hget with hput | ⟨hold, -⟩
        -- Only a dequeue puts records inflight, and in time it takes them from pending.
        · have hdoes : Cf.inflight ∈ kind.putsInto := ((holds_of_reached fits_outline h).frames hf).does_of rfl _ hput
          obtain rfl : kind = .dequeue := WriteKind.eq_dequeue hdoes
          obtain ⟨task, rfl⟩ := ((known_of_reached h).frames hf).puts _ _ _ hput
          simp only [dequeueInTime, hf] at htime
          obtain ⟨task', htask, -⟩ := stillPending_inv htime hput
          rw [hpending] at htask
          cases htask
        · rw [hnone] at hold
          cases hold

/-- What the scans of a depth read have found empty is empty. -/
structure Clear (tenant : String) (d : DrainRun) : Prop where
  reached : Reached tenant d.pool
  pending : d.drain.foundNothing = true → ∀ key, d.pool.shared.db.get .pending key = none
  inflight : d.drain = .scanDlq 0 0 → ∀ key, d.pool.shared.db.get .inflight key = none

/-- Nothing is known before the first scan, nor after a read that found something. -/
theorem clear_of_found (h : Reached tenant d.pool) (hfound : d.drain.foundNothing = false) : Clear tenant d where
  reached := h
  pending hnothing := by
    rw [hfound] at hnothing
    cases hnothing
  inflight hdrain := by
    rw [hdrain] at hfound
    cases hfound

/-- A step of the calls, which does not slip past the scans. -/
theorem clear_pool {l : Label Call StepInput} (h : Clear tenant d) (hconsuming : d.consuming (.pool l) = true)
    (hmisses : d.misses queue (.pool l) = false) (hn : (system tenant).next d.pool l = some c') :
    Clear tenant { d with pool := c' } := by
  have hnothing : d.drain.foundNothing = true → (∀ key, c'.shared.db.get .pending key = none) ∧
      ∀ key, d.pool.shared.db.get .inflight key = none → c'.shared.db.get .inflight key = none := fun hfound => by
    have hboth : (leavesInflight d.pool l && dequeueInTime d.pool l) = true := by
      simpa [DrainRun.misses, hfound] using hmisses
    obtain ⟨hleaves, htime⟩ := Bool.and_eq_true_iff.mp hboth
    exact step_nothing h.reached hconsuming hleaves htime hn (h.pending hfound)
  refine ⟨h.reached.step hn, fun hfound => (hnothing hfound).1, fun hdrain key => ?_⟩
  have hdrain' : d.drain = .scanDlq 0 0 := hdrain
  exact (hnothing (hdrain' ▸ rfl)).2 key (h.inflight hdrain' key)

/-- A step of the loop. -/
theorem clear_drain {now : Nat} (h : Clear tenant d) (hmisses : d.misses (drainedQueue queues) (.drain now) = false)
    (hn : d.next tenant queues (.drain now) = some d') : Clear tenant d' := by
  obtain ⟨drain, hstep, rfl⟩ := Option.map_eq_some_iff.mp hn
  obtain ⟨pool, deadline, frame⟩ := d
  cases frame with
  -- The scan of the queue that is drained sees every pending record, or the step misses one.
  | scanPending =>
    cases hstep
    refine ⟨h.reached, fun hfound => ?_, fun hdrain => by cases hdrain⟩
    have hsees : pool.shared.db.scanSees .pending (drainedQueue queues) = true := by simpa [DrainRun.misses] using hmisses
    exact none_of_scanSees hsees (of_decide_eq_true hfound)
  | scanInflight pending =>
    cases hstep
    refine ⟨h.reached, fun hfound => ?_, fun hdrain => ?_⟩
    · obtain ⟨hpending, -⟩ := of_decide_eq_true hfound
      exact h.pending (decide_eq_true hpending)
    · obtain ⟨rfl, hinflight⟩ := DrainFrame.scanDlq.inj hdrain
      have hsees : pool.shared.db.scanSees .inflight (drainedQueue queues) = true := by
        simpa [DrainRun.misses] using hmisses
      exact none_of_scanSees hsees hinflight
  | scanDlq pending inflight =>
    simp only [DrainFrame.step] at hstep
    split at hstep
    · cases hstep
      exact clear_of_found h.reached rfl
    · split at hstep
      · cases hstep
        exact clear_of_found h.reached rfl
      · cases hstep
        exact clear_of_found h.reached rfl
  | sleeping wake =>
    simp only [DrainFrame.step] at hstep
    split at hstep
    · cases hstep
      exact clear_of_found h.reached rfl
    · cases hstep
  | returned drained remaining => cases hstep

theorem clear_next {l : DrainLabel} (h : Clear tenant d)
    (hok : d.consuming l = true ∧ d.misses (drainedQueue queues) l = false) (hn : d.next tenant queues l = some d') :
    Clear tenant d' := by
  cases l with
  | drain now => exact clear_drain h hok.2 hn
  | pool l =>
    obtain ⟨c', hc', rfl⟩ := Option.map_eq_some_iff.mp hn
    exact clear_pool h hok.1 hok.2 hc'

/-- The loop returns success from the last scan of a read that found nothing. -/
theorem drained_inv {now remaining : Nat} (hn : d.next tenant queues (.drain now) = some d')
    (hdrained : d'.drain = .returned true remaining) : d.drain = .scanDlq 0 0 ∧ d'.pool = d.pool := by
  obtain ⟨drain, hstep, rfl⟩ := Option.map_eq_some_iff.mp hn
  refine ⟨?_, rfl⟩
  obtain rfl : drain = .returned true remaining := hdrained
  obtain ⟨pool, deadline, frame⟩ := d
  cases frame with
  | scanDlq pending inflight =>
    simp only [DrainFrame.step] at hstep
    split at hstep
    · rename_i hzero
      obtain ⟨rfl, rfl⟩ := hzero
      rfl
    · split at hstep <;> cases hstep
  | sleeping wake =>
    simp only [DrainFrame.step] at hstep
    split at hstep <;> cases hstep
  | _ => cases hstep

theorem reached_next {l : DrainLabel} (h : Reached tenant d.pool) (hn : d.next tenant queues l = some d') :
    Reached tenant d'.pool := by
  cases l with
  | pool l =>
    obtain ⟨c', hc', rfl⟩ := Option.map_eq_some_iff.mp hn
    exact h.step hc'
  | drain now =>
    obtain ⟨drain, -, rfl⟩ := Option.map_eq_some_iff.mp hn
    exact h

/-- In every run without enqueues, a drain leaves nothing when it reports success after a depth read, begun in `d₁`,
    in which the scans missed nothing. -/
theorem drained_emptied {c₀ : Config Shared Frame} {start timeoutSecs now remaining : Nat} {d₁ : DrainRun}
    (h₀ : Reached tenant c₀)
    (hbefore : Runs.Run (DrainRun.next tenant queues) (fun d l => d.consuming l = true) (.start c₀ start timeoutSecs) d₁)
    (hbegun : d₁.drain = .scanPending)
    (hread : Runs.Run (DrainRun.next tenant queues)
      (fun d l => d.consuming l = true ∧ d.misses (drainedQueue queues) l = false) d₁ d)
    (hlast : d.next tenant queues (.drain now) = some d') (hdrained : d'.drain = .returned true remaining) :
    Emptied d'.pool.shared.db := by
  have hreached : Reached tenant d₁.pool :=
    hbefore.invariant (I := fun d => Reached tenant d.pool) (fun h _ hn => reached_next h hn) h₀
  have hclear : Clear tenant d := hread.invariant clear_next (clear_of_found hreached (hbegun ▸ rfl))
  obtain ⟨hdrain, hpool⟩ := drained_inv hlast hdrained
  rw [hpool]
  exact ⟨hclear.pending (hdrain ▸ rfl), hclear.inflight hdrain⟩

end Scans

/-! ## Drains of one task -/

section Drains

/-- One task is enqueued. -/
def enqueueTo (queue : String) : List (Label Call StepInput) :=
  [.call (.enqueueBatch queue [[1]] { NamespacePolicy.standard "t" with backlogQuota := none }), .run 0 {},
    .run 0 { id := "a" }, .run 0 {}, .run 0 {}]

/-- One task is enqueued and delivered. -/
def deliveredTo (queue : String) : List (Label Call StepInput) :=
  enqueueTo queue ++ [.call (.dequeueBatch queue 1 10), .run 1 {}, .run 1 { now := 1 }, .run 1 {}, .run 1 {}]

/-- The task is acknowledged between the scans of pending and inflight. -/
def ackWhileDraining : List DrainLabel :=
  [.drain 0, .pool (.call (.ackBatch [encodeKey "q" 1])), .pool (.run 2 {}), .pool (.run 2 {}), .pool (.run 2 {}), .drain 0]

/-- A nack that read the task earlier writes it back between the two scans. -/
def nackWhileDraining : List DrainLabel :=
  [.pool (.call (.nack (encodeKey "q" 1))), .pool (.run 2 {}), .pool (.run 2 {}), .drain 0, .pool (.run 2 {}), .drain 0]

/-- What a drain of `t` finds and leaves: its next state after these steps before and during it, and the record that
    is then pending under a key. -/
def drainOf (queues : List String) (ok : DrainRun → DrainLabel → Bool) (before : List (Label Call StepInput))
    (during : List DrainLabel) (key : Key) : Option (DrainFrame × Option Value) :=
  ((system "t").exec ⟨.start 1, []⟩ before).bind fun c =>
    (Runs.execWhile (DrainRun.next "t" queues) ok (.start c 0 1) during).bind fun d =>
      (d.next "t" queues (.drain 0)).map fun d' => (d'.drain, d'.pool.shared.db.get .pending key)

theorem drainOf_inv {queues : List String} {ok : DrainRun → DrainLabel → Bool} {before : List (Label Call StepInput)}
    {during : List DrainLabel} {key : Key} {drain : DrainFrame} {v : Option Value}
    (h : drainOf queues ok before during key = some (drain, v)) :
    ∃ c₀ d d', Reached "t" c₀ ∧ Runs.Run (DrainRun.next "t" queues) (fun d l => ok d l = true) (.start c₀ 0 1) d ∧
      d.next "t" queues (.drain 0) = some d' ∧ d'.drain = drain ∧ d'.pool.shared.db.get .pending key = v := by
  obtain ⟨c₀, hpool, hrest⟩ := Option.bind_eq_some_iff.mp h
  obtain ⟨d, hexec, hrest⟩ := Option.bind_eq_some_iff.mp hrest
  obtain ⟨d', hlast, heq⟩ := Option.map_eq_some_iff.mp hrest
  obtain ⟨hdrain, hget⟩ := Prod.mk.inj heq
  exact ⟨c₀, d, d', Reached.run (.start 1) (Runs.run_of_exec hpool), Runs.run_of_execWhile hexec, hlast, hdrain, hget⟩

theorem drained_emptied_ack : ∃ d d' : DrainRun, d.next "t" ["q"] (.drain 0) = some d' ∧
    d'.drain = .returned true 0 ∧ Emptied d'.pool.shared.db := by
  have hdrain : drainOf ["q"] (fun d l => d.consuming l && !d.misses "q" l) (deliveredTo "q") ackWhileDraining
      (encodeKey "q" 1) = some (.returned true 0, none) := by decide +kernel
  obtain ⟨c₀, d, d', hreached, hrun, hlast, hreturned, -⟩ := drainOf_inv hdrain
  have hrun' := hrun.mono fun d l hok => by simpa using hok
  exact ⟨d, d', hlast, hreturned, drained_emptied hreached .refl rfl hrun' hlast hreturned⟩

/-- A task in a queue that the loop does not scan. -/
theorem not_drained_emptied : ¬∀ (tenant : String) (queues : List String) (c₀ : Config Shared Frame)
    (start timeoutSecs now remaining : Nat) (d d' : DrainRun), Reached tenant c₀ →
      Runs.Run (DrainRun.next tenant queues) (fun d l => d.consuming l = true) (.start c₀ start timeoutSecs) d →
      d.next tenant queues (.drain now) = some d' → d'.drain = .returned true remaining → Emptied d'.pool.shared.db := by
  intro h
  have hdrain : drainOf ["default"] DrainRun.consuming (enqueueTo "mail") [.drain 0, .drain 0] (encodeKey "mail" 1) =
      some (.returned true 0, some (.task ⟨"a", "mail", [1], 0, 0, 0⟩)) := by
    decide +kernel
  obtain ⟨c₀, d, d', hreached, hrun, hlast, hreturned, hget⟩ := drainOf_inv hdrain
  have hnone := (h _ _ _ _ _ _ _ _ _ hreached hrun hlast hreturned).pending (encodeKey "mail" 1)
  rw [hget] at hnone
  cases hnone

-- In the queue that is scanned, too: the task is written back behind the scan of pending.
example : drainOf ["q"] DrainRun.consuming (deliveredTo "q") nackWhileDraining (encodeKey "q" 2) =
    some (.returned true 0, some (.task ⟨"a", "q", [1], 0, 1, 0⟩)) := by
  decide +kernel

end Drains

end RocksQueue
