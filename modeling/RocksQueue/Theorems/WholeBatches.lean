import RocksQueue.Theorems.Steps

/-! # Batches are written whole

Each call writes one batch, and an enqueue that evicts one more before it. So whenever the process stops, the records are
what whole batches made of them: of each call everything is there or nothing, and a call that has got as far as its
reply has written what the reply says (`whole_batches`). -/

namespace RocksQueue
open Interleaving

def WriteOp.isDelete : WriteOp → Bool
  | .delete _ _ => true
  | .put _ _ _ => false

/-- The reply says what the batch does. -/
def Reply.Tells : Reply → WriteBatch → Prop
  | .enqueued ids, b => putIds b = ids ∧ ∀ op ∈ b, ∃ k t, op = .put .pending k (.task t)
  | .delivered results, b => ∀ k t, (k, t) ∈ results ↔ .put .inflight k (.task t) ∈ b
  | .acked counted, b => b = TenantDb.ackDeletes counted
  | .count n, b => b.countP WriteOp.isDelete = n
  | .done, _ => True
  | .failed _, b => b = []

namespace Event

def write? : Event → Option Write
  | .wrote w => some w
  | .minted _ _ _ => none

/-- The batches, in the order in which they were written. -/
def writes (es : List Event) : List Write := es.filterMap write?

/-- Those of one thread. -/
def writesBy (i : Nat) (es : List Event) : List Write := (writes es).filter fun w => w.thread = i

/-- What the batches make of the records. -/
def replay (db : TenantDb) (es : List Event) : TenantDb := (writes es).foldl (fun db w => db.write w.batch) db

end Event

namespace Frame

/-- The reply of a call that is done with the records. -/
def ending : Frame → Option Reply
  | .unlock _ reply => some reply
  | .returned reply => some reply
  | _ => none

/-- The quota is behind the enqueue. -/
def Minting : Frame → Prop
  | .mint _ _ _ _ _ => True
  | .write .enqueue _ _ _ => True
  | _ => False

/-- What the frame has put together goes with the reply to come. -/
def Faithful : Frame → Prop
  | .mint _ _ _ b ids => (Reply.enqueued ids).Tells b
  | .replayDraw _ _ _ b count => (Reply.count count).Tells b
  | .write kind b _ reply => kind ≠ .evict ∧ reply.Tells b
  | _ => True

/-- Nothing, or one eviction. -/
def Evictions (ws : List Write) : Prop := ws = [] ∨ ∃ w, ws = [w] ∧ w.kind = .evict

/-- What a call has written by the time it is at the frame: no batch but an eviction before it is done with the records,
    and then the one that the reply tells of, or none if there is nothing to tell. -/
structure OnDisk (ws : List Write) (f : Frame) : Prop where
  faithful : f.Faithful
  before : f.ending = none → Evictions ws ∧ (ws ≠ [] → f.Minting)
  after : ∀ {reply}, f.ending = some reply → (Evictions ws ∧ reply.Tells []) ∨
    ∃ ev w, ws = ev ++ [w] ∧ Evictions ev ∧ w.kind ≠ .evict ∧ w.reply = some reply ∧ reply.Tells w.batch

/-- The call has written nothing, and has nothing to tell. -/
def Clear (f : Frame) : Prop := f.Faithful ∧ ∀ reply, f.ending = some reply → reply.Tells []

variable {f : Frame}

theorem Clear.onDisk (h : f.Clear) : OnDisk [] f where
  faithful := h.1
  before _ := ⟨Or.inl rfl, fun hne => absurd rfl hne⟩
  after hend := Or.inl ⟨Or.inl rfl, h.2 _ hend⟩

/-! ### The frames that nothing was written on the way to -/

section Heads
variable {tenant : String} {r : EnqueueRequest} {now : Nat} {kind : WriteKind} {b : WriteBatch} {held : List Lock}
  {reply : Reply}

theorem beginMint_minting (tenant : String) (r : EnqueueRequest) (now : Nat) :
    (beginMint tenant r now).Minting ∧ (beginMint tenant r now).Faithful ∧ (beginMint tenant r now).ending = none := by
  unfold beginMint
  split
  · exact ⟨trivial, ⟨by simp, rfl, fun _ h => by cases h⟩, rfl⟩
  · exact ⟨trivial, ⟨rfl, fun _ h => by cases h⟩, rfl⟩

theorem beginMint_clear : (beginMint tenant r now).Clear := by
  obtain ⟨-, hfaithful, hend⟩ := beginMint_minting tenant r now
  exact ⟨hfaithful, fun reply h => by rw [hend] at h; cases h⟩

theorem beginQuota_clear : (beginQuota tenant r now).Clear := by
  unfold beginQuota
  split
  · exact beginMint_clear
  · exact ⟨trivial, fun _ h => by cases h⟩

theorem checkQuota_clear {quota current : Nat} {deadline : Option Nat} :
    (checkQuota tenant r quota deadline current now).Clear := by
  unfold checkQuota
  dsimp only
  split
  · split
    · exact beginMint_clear
    · split
      · exact ⟨trivial, fun _ h => by cases h; rfl⟩
      · exact ⟨trivial, fun _ h => by cases h⟩
  · split
    · split
      · exact ⟨trivial, fun _ h => by cases h; rfl⟩
      · exact beginMint_clear
    · exact ⟨trivial, fun _ h => by cases h⟩
    · split
      · exact ⟨trivial, fun _ h => by cases h⟩
      · exact beginMint_clear

theorem beginDequeue_clear {queue : String} {limit timeout : Nat} : (beginDequeue tenant queue limit timeout).Clear := by
  unfold beginDequeue
  split
  · exact ⟨trivial, fun _ h => by cases h; simp [Reply.Tells]⟩
  · exact ⟨trivial, fun _ h => by cases h⟩

theorem writeOr_clear (hkind : kind ≠ .evict) (htells : reply.Tells b) : (writeOr kind b held reply).Clear := by
  rcases writeOr_eq kind b held reply with ⟨rfl, heq⟩ | ⟨-, heq⟩ <;> rw [heq]
  · exact ⟨trivial, fun _ h => by cases h; exact htells⟩
  · exact ⟨⟨hkind, htells⟩, fun _ h => by cases h⟩

theorem nextAck_clear {todo seen counted : List Key} : (nextAck held todo seen counted).Clear := by
  induction todo generalizing seen with
  | nil => exact writeOr_clear (by simp) rfl
  | cons key todo ih =>
    simp only [nextAck]
    split
    · exact ih
    · exact ⟨trivial, fun _ h => by cases h⟩

theorem nextAckLock_clear {keys : List Key} {todo : List Lock} : (nextAckLock keys held todo).Clear := by
  cases todo with
  | nil => exact nextAck_clear
  | cons l todo => exact ⟨trivial, fun _ h => by cases h⟩

theorem nextReplay_clear {count : Nat} {todo : List (Key × Value)} (htells : (Reply.count count).Tells b) :
    (nextReplay b count todo).Clear := by
  cases todo with
  | nil => exact writeOr_clear (by simp) htells
  | cons item todo =>
    obtain ⟨key, v⟩ := item
    cases v with
    | corrupt raw => exact ⟨trivial, fun _ h => by cases h; rfl⟩
    | task t => exact ⟨htells, fun _ h => by cases h⟩

theorem start_clear (tenant : String) (call : Call) : (Frame.start tenant call).Clear := by
  cases call with
  | ackBatch keys => exact nextAckLock_clear
  | dequeueWithMaxInflight queue limit timeout maxInflight =>
    simp only [Frame.start]
    split
    · exact ⟨trivial, fun _ h => by cases h; simp [Reply.Tells]⟩
    · exact ⟨trivial, fun _ h => by cases h⟩
  | _ => exact ⟨trivial, fun _ h => by cases h⟩

end Heads

/-! ### What is read is told -/

section Reads

theorem countP_deletes (c : Cf) (keys : List Key) : (deletes c keys).countP WriteOp.isDelete = keys.length := by
  simp [deletes, WriteOp.isDelete, List.countP_map, Function.comp_def]

theorem dequeueLoop_tells (queue : String) (now deadline limit : Nat) (items : List (Key × Value)) :
    (Reply.delivered (dequeueLoop queue now deadline limit items).results).Tells
      (dequeueLoop queue now deadline limit items).batch := by
  induction items generalizing limit with
  | nil => simp [dequeueLoop, Delivery.empty, Reply.Tells]
  | cons item items ih =>
    obtain ⟨key, v⟩ := item
    cases v with
    | corrupt raw =>
      intro k t
      have hrest := ih limit k t
      simpa [dequeueLoop, poisonBatch] using hrest
    | task task =>
      intro k t
      have hrest : (Reply.delivered (if limit ≤ 1 then Delivery.empty
          else dequeueLoop queue now deadline (limit - 1) items).results).Tells (if limit ≤ 1 then Delivery.empty
          else dequeueLoop queue now deadline (limit - 1) items).batch := by
        split
        · simp [Delivery.empty, Reply.Tells]
        · exact ih (limit - 1)
      simp only [dequeueLoop, deliverBatch, Task.serialize, List.mem_cons, List.cons_append, List.nil_append,
        Prod.mk.injEq, WriteOp.put.injEq, Value.task.injEq, reduceCtorEq, true_and, false_or]
      rw [hrest k t]

theorem cumulativeLoop_tells (upToSeq : Nat) (items : List (Key × Value)) :
    (Reply.count (cumulativeLoop upToSeq items).length).Tells (cumulativeLoop upToSeq items) := by
  obtain ⟨keys, heq, -⟩ := cumulativeLoop_eq upToSeq items
  rw [heq, Reply.Tells, countP_deletes, deletes, List.length_map]

theorem purgeBatch_tells (items : List (Key × Value)) : (Reply.count (purgeBatch items).length).Tells (purgeBatch items) := by
  rw [purgeBatch_eq, Reply.Tells, countP_deletes, deletes, List.length_map, List.length_map, List.length_map]

end Reads

/-! ### The step -/

section Steps
variable {tenant : String} {s s' : Shared} {i : Nat} {io : StepInput} {f' : Frame} {ws : List Write}

/-- What a step adds to the history and to what its call has on disk. -/
structure Adds (i : Nat) (s s' : Shared) (ws : List Write) (f' : Frame) (es : List Event) : Prop where
  history : s'.history = s.history ++ es
  db : s'.db = Event.replay s.db es
  own : ∀ {w}, w ∈ Event.writes es → w.thread = i
  onDisk : f'.OnDisk (ws ++ Event.writes es)

/-- A step that writes nothing. -/
theorem adds_nothing {es : List Event} (hhist : s'.history = s.history ++ es) (hes : Event.writes es = [])
    (hdb : s'.db = s.db) (h : f'.OnDisk ws) : Adds i s s' ws f' es where
  history := hhist
  db := by rw [hdb, Event.replay, hes]; rfl
  own hmem := by rw [hes] at hmem; cases hmem
  onDisk := by rw [hes, List.append_nil]; exact h

/-- Before it begins with its tasks, a call has written nothing. -/
theorem OnDisk.nil (h : f.OnDisk ws) (hend : f.ending = none) (hnot : ¬f.Minting) : ws = [] := by
  by_contra hne
  exact hnot ((h.before hend).2 hne)

theorem adds_clear {es : List Event} (h : f.OnDisk ws) (hend : f.ending = none) (hnot : ¬f.Minting)
    (hhist : s'.history = s.history ++ es) (hes : Event.writes es = []) (hdb : s'.db = s.db) (hf' : f'.Clear) :
    Adds i s s' ws f' es := by
  obtain rfl := h.nil hend hnot
  exact adds_nothing hhist hes hdb hf'.onDisk

/-- A read or a lock. -/
theorem adds_read (h : f.OnDisk ws) (hend : f.ending = none) (hnot : ¬f.Minting) (hhist : s'.history = s.history)
    (hdb : s'.db = s.db) (hf' : f'.Clear) : Adds i s s' ws f' [] :=
  adds_clear h hend hnot (hhist.trans (List.append_nil _).symm) rfl hdb hf'

theorem step_adds (h : f.OnDisk ws) (hs : Frame.step tenant s i f io = some (s', f')) :
    ∃ es, Adds i s s' ws f' es := by
  have hopen : ∀ {g : Frame}, g.Faithful → g.ending = none → g.Clear := fun hg hend =>
    ⟨hg, fun _ h => by rw [hend] at h; cases h⟩
  cases stepped_of_step hs with
  -- The locks and the reads before the call's first batch.
  | enqueueLock => exact ⟨_, adds_read h rfl id rfl rfl beginQuota_clear⟩
  | quotaPending => exact ⟨_, adds_read h rfl id rfl rfl (hopen trivial rfl)⟩
  | quotaInflight => exact ⟨_, adds_read h rfl id rfl rfl (hopen trivial rfl)⟩
  | quotaDlq => exact ⟨_, adds_read h rfl id rfl rfl checkQuota_clear⟩
  | evictNothing => exact ⟨_, adds_read h rfl id rfl rfl beginMint_clear⟩
  | evictScan => exact ⟨_, adds_read h rfl id rfl rfl (hopen trivial rfl)⟩
  | evictWrite r batch =>
    -- The eviction is the first batch of the call.
    obtain rfl := h.nil rfl id
    obtain ⟨hminting, hfaithful, hend⟩ := beginMint_minting tenant r io.now
    refine ⟨[.wrote ⟨i, .evict, batch, s.db, none⟩], rfl, rfl, fun hmem => ?_, hfaithful,
      fun _ => ⟨?_, fun _ => hminting⟩, fun hend' => ?_⟩
    · cases List.mem_singleton.mp hmem
      rfl
    · exact Or.inr ⟨_, rfl, rfl⟩
    · rw [hend] at hend'
      cases hend'
  | mint r now payload todo batch ids =>
    -- One more task is in the batch, and its id in the reply.
    have hnext : (Reply.enqueued (ids ++ [io.id])).Tells (batch ++ [enqueueOp r.queue now s.seq payload io.id]) := by
      obtain ⟨hids, hputs⟩ := h.faithful
      refine ⟨by rw [putIds_append, hids]; rfl, fun op hop => ?_⟩
      rcases List.mem_append.mp hop with hop | hop
      · exact hputs op hop
      · cases List.mem_singleton.mp hop
        exact ⟨_, _, rfl⟩
    refine ⟨_, adds_nothing rfl rfl rfl ?_⟩
    unfold nextMint
    split
    · exact ⟨⟨by simp, hnext⟩, fun _ => ⟨(h.before rfl).1, fun _ => trivial⟩, fun hend => by cases hend⟩
    · exact ⟨hnext, fun _ => ⟨(h.before rfl).1, fun _ => trivial⟩, fun hend => by cases hend⟩
  | dequeueLock => exact ⟨_, adds_read h rfl id rfl rfl beginDequeue_clear⟩
  | cappedLock => exact ⟨_, adds_read h rfl id rfl rfl (hopen trivial rfl)⟩
  | countFull =>
    -- A full queue: the reply tells of no write, and there is none.
    exact ⟨_, adds_read h rfl id rfl rfl ⟨trivial, fun _ h => by cases h; simp [Reply.Tells]⟩⟩
  | countInflight => exact ⟨_, adds_read h rfl id rfl rfl beginDequeue_clear⟩
  | dequeueScan => exact ⟨_, adds_read h rfl id rfl rfl (writeOr_clear (by simp) (dequeueLoop_tells _ _ _ _ _))⟩
  | ackLock => exact ⟨_, adds_read h rfl id rfl rfl nextAckLock_clear⟩
  | ackGet => exact ⟨_, adds_read h rfl id rfl rfl nextAck_clear⟩
  | nackNone => exact ⟨_, adds_read h rfl id rfl rfl ⟨trivial, fun _ h => by cases h; trivial⟩⟩
  | nackPoison => exact ⟨_, adds_read h rfl id rfl rfl (hopen ⟨by simp, trivial⟩ rfl)⟩
  | nackLetter => exact ⟨_, adds_read h rfl id rfl rfl (hopen ⟨by simp, trivial⟩ rfl)⟩
  | nackGet => exact ⟨_, adds_read h rfl id rfl rfl (hopen trivial rfl)⟩
  | nackDraw => exact ⟨_, adds_clear h rfl id rfl rfl rfl (hopen ⟨by simp, trivial⟩ rfl)⟩
  | cumulativeScan => exact ⟨_, adds_read h rfl id rfl rfl (writeOr_clear (by simp) (cumulativeLoop_tells _ _))⟩
  | reapScan => exact ⟨_, adds_read h rfl id rfl rfl (writeOr_clear (by simp) trivial)⟩
  | purgeScan => exact ⟨_, adds_read h rfl id rfl rfl (writeOr_clear (by simp) (purgeBatch_tells _))⟩
  | replayScan => exact ⟨_, adds_read h rfl id rfl rfl (nextReplay_clear rfl)⟩
  | replayDraw key task todo batch count =>
    -- A replayed task is two operations of the batch, and one of the count.
    have htells : (Reply.count count).Tells batch := h.faithful
    have hnext : (Reply.count (count + 1)).Tells (batch ++ replayOps key task s.seq) := by
      rw [Reply.Tells, List.countP_append, htells]
      rfl
    exact ⟨_, adds_clear h rfl id rfl rfl rfl (nextReplay_clear hnext)⟩
  | write kind batch held reply =>
    -- The batch that the reply tells of.
    obtain ⟨hkind, htells⟩ := h.faithful
    refine ⟨[.wrote ⟨i, kind, batch, s.db, some reply⟩], rfl, rfl, fun hmem => ?_, trivial, fun hend => (by cases hend),
      fun hend => ?_⟩
    · cases List.mem_singleton.mp hmem
      rfl
    · cases hend
      exact Or.inr ⟨ws, _, rfl, (h.before rfl).1, hkind, rfl, htells⟩
  | unlock held reply =>
    -- What the call wrote stands, and it returns its reply.
    refine ⟨[], adds_nothing (List.append_nil _).symm rfl rfl ⟨trivial, fun hend => (by cases hend), fun hend => ?_⟩⟩
    cases hend
    exact h.after rfl

end Steps

end Frame

/-! ## The run -/

namespace Event
variable {es es' : List Event} {db : TenantDb} {i : Nat}

theorem writes_append : writes (es ++ es') = writes es ++ writes es' := List.filterMap_append

theorem replay_append : replay db (es ++ es') = replay (replay db es) es' := by
  rw [replay, writes_append, List.foldl_append]
  rfl

theorem writesBy_append : writesBy i (es ++ es') = writesBy i es ++ writesBy i es' := by
  rw [writesBy, writes_append, List.filter_append]
  rfl

theorem writesBy_self (h : ∀ {w}, w ∈ writes es → w.thread = i) : writesBy i es = writes es :=
  List.filter_eq_self.mpr fun _ hw => decide_eq_true (h hw)

theorem writesBy_other {j : Nat} (h : ∀ {w}, w ∈ writes es → w.thread = i) (hne : j ≠ i) : writesBy j es = [] :=
  List.filter_eq_nil_iff.mpr fun _ hw heq => hne ((of_decide_eq_true heq).symm.trans (h hw))

end Event

/-- The history and the records, by what was added to them. -/
structure WrittenWhole (c₀ c : Config Shared Frame) (es : List Event) : Prop where
  history : c.shared.history = c₀.shared.history ++ es
  db : c.shared.db = Event.replay c₀.shared.db es
  own : ∀ {w}, w ∈ Event.writes es → w.thread < c.threads.length
  calls : ∀ {i : Nat} {f : Frame}, c.threads[i]? = some f → f.OnDisk (Event.writesBy i es)

theorem writtenWhole_next {tenant : String} {c₀ c c' : Config Shared Frame} {es : List Event} {l : Label Call StepInput}
    (h : WrittenWhole c₀ c es) (hn : (system tenant).next c l = some c') : ∃ es', WrittenWhole c₀ c' es' := by
  cases l with
  | call k =>
    cases hn
    refine ⟨es, h.history, h.db, fun hw => ?_, fun {i f} hf => ?_⟩
    · have hlt := h.own hw
      simp only [List.length_append]
      omega
    · rcases getElem?_append_cases hf with ⟨rfl, rfl⟩ | hf
      · -- No batch of the history is of a thread that is only now there.
        have hnone : Event.writesBy c.threads.length es = [] :=
          List.filter_eq_nil_iff.mpr fun w hw heq => absurd (h.own hw) (by rw [of_decide_eq_true heq]; omega)
        rw [hnone]
        exact (Frame.start_clear tenant k).onDisk
      · exact h.calls hf
  | env =>
    cases hn
    exact ⟨es, h.history, h.db, h.own, h.calls⟩
  | run i io =>
    obtain ⟨f, s, f', hf, hs, rfl⟩ := System.next_run_inv hn
    obtain ⟨es', hadds⟩ := Frame.step_adds (h.calls hf) hs
    -- The batches of the other calls are as they were.
    refine ⟨es ++ es', ?_, ?_, fun {w} hw => ?_, fun {j g} hg => ?_⟩
    · rw [hadds.history, h.history, List.append_assoc]
    · rw [hadds.db, h.db, Event.replay_append]
    · rw [List.length_set]
      rw [Event.writes_append] at hw
      rcases List.mem_append.mp hw with hw | hw
      · exact h.own hw
      · rw [hadds.own hw]
        exact (List.getElem?_eq_some_iff.mp hf).1
    · rw [Event.writesBy_append]
      rcases getElem?_set_cases hg with ⟨rfl, rfl⟩ | ⟨hne, hg⟩
      · rw [Event.writesBy_self hadds.own]
        exact hadds.onDisk
      · rw [Event.writesBy_other hadds.own hne, List.append_nil]
        exact h.calls hg

/-- Wherever calls that began together with the process have got to, the records are what whole batches made of them: of
    each call nothing is there but an eviction, or the one batch that its reply tells of. A restart finds them so. -/
theorem whole_batches {tenant : String} {c₀ c : Config Shared Frame} (hidle : c₀.threads = [])
    (h : (system tenant).Run (fun _ _ => True) c₀ c) : ∃ es, WrittenWhole c₀ c es := by
  refine h.invariant (I := fun c => ∃ es, WrittenWhole c₀ c es) (fun ⟨es, hes⟩ _ hn => writtenWhole_next hes hn)
    ⟨[], (List.append_nil _).symm, rfl, fun hw => (by cases hw), fun hf => ?_⟩
  rw [hidle] at hf
  cases hf

/-- A queue of one task, from which the second enqueue has evicted the first task when the process stops. -/
def evictedOnly : List (Label Call StepInput) :=
  let policy : NamespacePolicy := { NamespacePolicy.standard "t" with backlogQuota := some 1, backlogPolicy := .evictOldest }
  [.call (.enqueueBatch "q" [[1]] policy), .run 0 {}, .run 0 {}, .run 0 {}, .run 0 {}, .run 0 { id := "a" }, .run 0 {},
    .run 0 {}, .call (.enqueueBatch "q" [[2]] policy), .run 1 {}, .run 1 {}, .run 1 {}, .run 1 {}, .run 1 {}, .run 1 {}]

theorem whole_batches_evictedOnly :
    ∃ c es, (system "t").exec ⟨.start 1, []⟩ evictedOnly = some c ∧ WrittenWhole ⟨.start 1, []⟩ c es := by
  let c := ((system "t").exec ⟨.start 1, []⟩ evictedOnly).get (by decide)
  have hexec : (system "t").exec ⟨.start 1, []⟩ evictedOnly = some c := (Option.some_get _).symm
  obtain ⟨es, hes⟩ := whole_batches rfl (Runs.run_of_exec hexec)
  exact ⟨c, es, hexec, hes⟩

end RocksQueue
