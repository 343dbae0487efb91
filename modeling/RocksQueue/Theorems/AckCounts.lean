import Mathlib.Data.List.Destutter
import RocksQueue.Theorems.Locks

/-! # Counting acknowledgements

Producers, consumers and acknowledgements of any number of threads, with no call that puts records
back. Two acknowledgements of one key share the lock that belongs to it, so what one has counted is
still inflight when it deletes it (`counting_outline`). A record that was inflight once and no longer is
comes back only by a dequeue that writes a record which is no longer pending (`dequeueInTime`). -/

namespace RocksQueue
open Interleaving

/-- A record that an acknowledgement took out of inflight. -/
structure Removal where
  thread : Nat
  key : Key
  id : String
  deriving DecidableEq, Repr

/-- What a batch of thread `i` takes out of inflight. -/
def takenOut (i : Nat) (db : TenantDb) (b : WriteBatch) : List Removal :=
  b.filterMap fun
    | .delete .inflight key =>
      match db.get .inflight key with
      | some (.task t) => some ⟨i, key, t.id⟩
      | _ => none
    | _ => none

def Event.removals : Event → List Removal
  | .wrote w => if w.kind = .ack then takenOut w.thread w.before w.batch else []
  | .minted _ _ _ => []

/-- The records removed by acknowledgements, in the order of their writes. -/
def removals (s : Shared) : List Removal := s.history.flatMap Event.removals

/-- The call is an enqueue, a dequeue or an acknowledgement. -/
def Call.tallied : Call → Bool
  | .enqueueBatch _ _ _ => true
  | .dequeueBatch _ _ _ => true
  | .dequeueWithMaxInflight _ _ _ _ => true
  | .ackBatch _ => true
  | _ => false

/-- Every task that the batch puts inflight is still pending under its key. -/
def stillPending (db : TenantDb) (b : WriteBatch) : Bool :=
  b.all fun
    | .put .inflight k (.task t) =>
      match db.get .pending k with
      | some (.task t') => t'.id = t.id
      | _ => false
    | _ => true

/-- The step is not the write of a dequeue of records that are no longer pending. -/
def dequeueInTime (c : Config Shared Frame) : Label Call StepInput → Bool
  | .run i _ =>
    match c.threads[i]? with
    | some (.write .dequeue b _ _) => stillPending c.shared.db b
    | _ => true
  | _ => true

def talliedCall : Label Call StepInput → Bool
  | .call call => call.tallied
  | _ => true

/-- A step of the calls that the counts are about, which does not bring a record back. -/
def tallying (c : Config Shared Frame) (l : Label Call StepInput) : Bool := talliedCall l && dequeueInTime c l

/-- No record is both pending and inflight. -/
def OnePlace (db : TenantDb) : Prop :=
  ∀ k t t', db.get .pending k = some (.task t) → db.get .inflight k = some (.task t') → t.id ≠ t'.id

/-- The task is not under the key any more, neither pending nor inflight. -/
structure Spent (db : TenantDb) (k : Key) (id : String) : Prop where
  pending : ∀ t, db.get .pending k = some (.task t) → t.id ≠ id
  inflight : ∀ t, db.get .inflight k = some (.task t) → t.id ≠ id

/-- The lock under which a key is acknowledged. -/
def ackLockOf (tenant : String) (key : Key) : Lock := .ack (lockName tenant (fromUtf8Lossy (keyQueueBytes key)))

section Locks
variable {α : Type} [DecidableEq α]

theorem mem_destutter'_of_mem {a b : α} {l : List α} (h : b ∈ a :: l) : b ∈ l.destutter' (· ≠ ·) a := by
  induction l generalizing a with
  | nil => simpa using h
  | cons c l ih =>
    rw [List.destutter'_cons]
    split
    · rcases List.mem_cons.mp h with rfl | hmem
      · exact List.mem_cons_self
      · exact List.mem_cons_of_mem _ (ih hmem)
    · rename_i heq
      obtain rfl := not_not.mp heq
      exact ih (by simpa using h)

/-- Dropping repetitions drops no element. -/
theorem mem_destutter_of_mem {a : α} {l : List α} (h : a ∈ l) : a ∈ l.destutter (· ≠ ·) := by
  cases l with
  | nil => cases h
  | cons b l => exact mem_destutter'_of_mem h

theorem ackLockOf_mem {tenant : String} {key : Key} {keys : List Key} (h : key ∈ keys) :
    ackLockOf tenant key ∈ Frame.ackLockList tenant keys := by
  refine List.mem_map.mpr ⟨fromUtf8Lossy (keyQueueBytes key), mem_destutter_of_mem ?_, rfl⟩
  rw [List.mem_insertionSort]
  exact List.mem_map_of_mem h

end Locks

/-! ## What the calls in progress have found -/

/-- What an acknowledgement that holds `held` has counted is inflight, and its locks are held. -/
structure Checked (tenant : String) (db : TenantDb) (held : List Lock) (counted : List Key) : Prop where
  nodup : counted.Nodup
  locked : ∀ k ∈ counted, ackLockOf tenant k ∈ held
  inflight : ∀ k ∈ counted, (db.get .inflight k).isSome

/-- A batch of deliveries. -/
structure Delivers (b : WriteBatch) (ms : List Move) : Prop where
  moves : IsMoves b ms
  deliver : ∀ m ∈ ms, m.src = .pending ∧ m.dst = .inflight ∧ m.newKey = m.key

/-- A batch that only puts into pending. -/
def Enqueues (b : WriteBatch) : Prop := ∀ op ∈ b, ∃ k t, op = .put .pending k (.task t)

namespace Frame

def Counting (tenant : String) (db : TenantDb) : Frame → Prop
  | .evictWrite _ b => ∃ keys, b = deletes .pending keys
  | .mint _ _ _ b _ => Enqueues b
  | .ackLocks keys held todo => ∀ k ∈ keys, ackLockOf tenant k ∈ held ++ todo
  | .ackGet key todo seen counted held =>
    (∀ k ∈ key :: todo, ackLockOf tenant k ∈ held) ∧ counted ⊆ seen ∧ key ∈ seen ∧ key ∉ counted ∧
      Checked tenant db held counted
  | .write .enqueue b _ reply => Enqueues b ∧ reply.ackedKeys = []
  | .write .dequeue b _ reply => (∃ ms, Delivers b ms) ∧ reply.ackedKeys = []
  | .write .ack b held reply =>
    ∃ counted, b = deletes .inflight counted ∧ reply.ackedKeys = counted ∧ Checked tenant db held counted
  | .write _ b _ reply => b = [] ∧ reply.ackedKeys = []
  | .nackGet _ => False
  | .nackDraw _ _ => False
  | .cumulativeScan _ _ => False
  | .reapScan _ => False
  | .purgeScan => False
  | .replayScan => False
  | .replayDraw _ _ _ _ _ => False
  | _ => True

variable {tenant : String} {db : TenantDb} {s s' : Shared} {i : Nat} {io : StepInput} {f f' : Frame}
  {b b' : WriteBatch} {held : List Lock}

theorem enqueues_nil : Enqueues [] := fun _ hop => nomatch hop

theorem enqueues_append (h : Enqueues b) (h' : Enqueues b') : Enqueues (b ++ b') := fun op hop =>
  (List.mem_append.mp hop).elim (h op) (h' op)

theorem delivers_nil : ∃ ms, Delivers [] ms := ⟨[], .nil, fun _ hm => nomatch hm⟩

theorem checked_nil : Checked tenant db held [] := ⟨.nil, fun _ hk => (nomatch hk), fun _ hk => nomatch hk⟩

/-- The kinds of write of enqueues and dequeues. -/
def producing : List WriteKind := [.evict, .enqueue, .dequeue]

theorem Idle.counting (h : f.Idle) (hw : f.writes ⊆ producing) : f.Counting tenant db := by
  cases f with
  | evictWrite r b => exact h.elim
  | nackDraw key task => exact h.elim
  | replayDraw key task todo b count => exact h.elim
  | mint r now todo b ids =>
    obtain rfl : b = [] := h
    exact enqueues_nil
  | write kind b held reply =>
    obtain ⟨rfl, hkeys, -⟩ := h
    cases kind with
    | enqueue => exact ⟨enqueues_nil, hkeys⟩
    | dequeue => exact ⟨delivers_nil, hkeys⟩
    | ack => exact absurd (hw List.mem_cons_self) (by simp [producing])
    | _ => exact ⟨rfl, hkeys⟩
  | _ => first | trivial | exact absurd (hw List.mem_cons_self) (by simp [producing])

theorem Planned.counting (hall : AllTasks db) (h : Planned db f) (hw : f.writes ⊆ producing) : f.Counting tenant db := by
  have hne : ∀ {kind : WriteKind} {b : WriteBatch} {held : List Lock} {reply : Reply}, kind ∉ producing →
      ¬(Frame.write kind b held reply).writes ⊆ producing := fun hkind hsub => hkind (hsub List.mem_cons_self)
  cases h with
  | evict => exact ⟨_, rfl⟩
  | ack => exact absurd hw (hne (by simp [producing]))
  | cumulativeAck => exact absurd hw (hne (by simp [producing]))
  | purge => exact absurd hw (hne (by simp [producing]))
  | deliver now hms hnodup hmoved hres =>
    refine ⟨⟨_, hms, fun m hm => ?_⟩, rfl⟩
    obtain ⟨hmove, hkey⟩ := hmoved m hm
    cases hmove with
    | deliver hget => exact ⟨rfl, rfl, rfl⟩
    | poisonPending hget => exact absurd (hall hget) (by simp)
    | poisonInflight hkind hget => exact absurd (hall hget) (by simp)
  | move now hkind hms hnodup hmoved =>
    exact absurd hw (hne (by rcases hkind with rfl | rfl <;> simp [producing]))
  | retry hget => exact absurd (hw List.mem_cons_self) (by simp [producing])
  | replay hentries => exact absurd (hw List.mem_cons_self) (by simp [producing])

/-! ### The loop of an acknowledgement -/

theorem nextAck_counting {todo seen counted : List Key} (htodo : ∀ k ∈ todo, ackLockOf tenant k ∈ held)
    (hseen : counted ⊆ seen) (hchecked : Checked tenant db held counted) :
    (nextAck held todo seen counted).Counting tenant db := by
  induction todo with
  | nil =>
    rcases writeOr_eq .ack (TenantDb.ackDeletes counted) held (.acked counted) with ⟨-, heq⟩ | ⟨-, heq⟩ <;>
      rw [nextAck, heq]
    · trivial
    · exact ⟨counted, rfl, rfl, hchecked⟩
  | cons key todo ih =>
    simp only [nextAck]
    split
    · exact ih fun k hk => htodo k (List.mem_cons_of_mem _ hk)
    · rename_i hnew
      exact ⟨htodo, fun k hk => List.mem_cons_of_mem _ (hseen hk), List.mem_cons_self, fun hk => hnew (hseen hk), hchecked⟩

theorem nextAckLock_counting {keys : List Key} {todo : List Lock} (h : ∀ k ∈ keys, ackLockOf tenant k ∈ held ++ todo) :
    (nextAckLock keys held todo).Counting tenant db := by
  cases todo with
  | nil =>
    rw [List.append_nil] at h
    exact nextAck_counting h (fun _ hk => nomatch hk) checked_nil
  | cons l todo => exact h

theorem checked_read {key : Key} {counted : List Key} (h : Checked tenant db held counted) (hnew : key ∉ counted)
    (hlock : ackLockOf tenant key ∈ held) :
    Checked tenant db held (if (db.get .inflight key).isSome then counted ++ [key] else counted) := by
  split
  · rename_i hget
    refine ⟨?_, fun k hk => ?_, fun k hk => ?_⟩
    · rw [List.nodup_append]
      exact ⟨h.nodup, List.pairwise_singleton _ _, fun a ha a' ha' heq => hnew (List.mem_singleton.mp ha' ▸ heq ▸ ha)⟩
    · rcases List.mem_append.mp hk with hk | hk
      · exact h.locked k hk
      · exact List.mem_singleton.mp hk ▸ hlock
    · rcases List.mem_append.mp hk with hk | hk
      · exact h.inflight k hk
      · exact List.mem_singleton.mp hk ▸ hget
  · exact h

theorem start_counting {call : Call} (h : call.tallied = true) : (Frame.start tenant call).Counting tenant db := by
  cases call with
  | enqueueBatch queue payloads policy => trivial
  | dequeueBatch queue limit timeout => trivial
  | dequeueWithMaxInflight queue limit timeout maxInflight =>
    simp only [Frame.start]
    split <;> trivial
  | ackBatch keys => exact nextAckLock_counting fun k hk => ackLockOf_mem hk
  | _ => cases h

/-! ### The step -/

theorem counting_of_writes (hall : AllTasks s.db) (hf : f.Counting tenant s.db) (hw : f.writes ⊆ producing)
    (h : Frame.step tenant s i f io = some (s', f')) : f'.Counting tenant s'.db := by
  have hw' : f'.writes ⊆ producing := fun _ hkind => hw (step_writes h hkind)
  cases step_effect h with
  | quiet locks hidle => exact hidle.counting hw'
  | plan hplan => exact hplan.counting hall hw'
  | unlock => trivial
  | @mint r now payload todo batch ids hnew =>
    have hbatch : Enqueues (batch ++ [enqueueOp r.queue now s.seq payload io.id]) :=
      enqueues_append hf fun op hop => ⟨_, _, List.mem_singleton.mp hop⟩
    unfold nextMint
    split
    · exact ⟨hbatch, rfl⟩
    · exact hbatch
  | retry => exact hf.elim
  | replay => exact hf.elim
  | evict hidle => exact hidle.counting hw'
  | write => trivial

theorem step_counting (hall : AllTasks s.db) (hf : f.Counting tenant s.db)
    (h : Frame.step tenant s i f io = some (s', f')) : f'.Counting tenant s'.db := by
  cases stepped_of_step h with
  | ackLock keys held l todo =>
    refine nextAckLock_counting fun k hk => ?_
    rw [List.append_assoc]
    exact hf k hk
  | ackGet key todo seen counted held =>
    obtain ⟨htodo, hseen, hkey, hnew, hchecked⟩ := hf
    refine nextAck_counting (fun k hk => htodo k (List.mem_cons_of_mem _ hk)) ?_
      (checked_read hchecked hnew (htodo key List.mem_cons_self))
    split
    · exact List.append_subset.mpr ⟨hseen, List.cons_subset.mpr ⟨hkey, List.nil_subset _⟩⟩
    · exact hseen
  | write => trivial
  | unlock => trivial
  | nackNone => exact hf.elim
  | nackPoison => exact hf.elim
  | nackLetter => exact hf.elim
  | nackGet => exact hf.elim
  | nackDraw => exact hf.elim
  | cumulativeScan => exact hf.elim
  | reapScan => exact hf.elim
  | purgeScan => exact hf.elim
  | replayScan => exact hf.elim
  | replayDraw => exact hf.elim
  -- The frames of the calls that produce and deliver.
  | _ => exact counting_of_writes hall hf (by simp [writes, producing]) h

end Frame

section Writes
variable {tenant : String} {db : TenantDb} {b : WriteBatch} {ms : List Move} {k : Key} {v : Value} {id : String}
  {s s' : Shared} {i j : Nat} {io : StepInput} {f f' g : Frame} {c c' : Config Shared Frame}

theorem Delivers.pending (h : Delivers b ms) (hget : (db.write b).get .pending k = some v) :
    db.get .pending k = some v ∧ ∀ m ∈ ms, m.key ≠ k := by
  rcases TenantDb.get_write hget with hput | ⟨hold, hdel⟩
  · obtain ⟨m, hm, hdst, -⟩ := h.moves.mem_put.mp hput
    rw [(h.deliver m hm).2.1] at hdst
    cases hdst
  · exact ⟨hold, fun m hm hkey => hdel (h.moves.mem_delete.mpr ⟨m, hm, (h.deliver m hm).1, hkey⟩)⟩

theorem Delivers.inflight (h : Delivers b ms) (hget : (db.write b).get .inflight k = some v) :
    db.get .inflight k = some v ∨ ∃ m ∈ ms, m.key = k := by
  rcases TenantDb.get_write hget with hput | ⟨hold, -⟩
  · obtain ⟨m, hm, -, hkey, -⟩ := h.moves.mem_put.mp hput
    exact Or.inr ⟨m, hm, (h.deliver m hm).2.2 ▸ hkey⟩
  · exact Or.inl hold

theorem Enqueues.not_mem (h : Enqueues b) : (∀ c k, .delete c k ∉ b) ∧ ∀ k v, .put .inflight k v ∉ b := by
  refine ⟨fun c k hdel => ?_, fun k v hput => ?_⟩
  · obtain ⟨k', t, heq⟩ := h _ hdel
    cases heq
  · obtain ⟨k', t, heq⟩ := h _ hput
    cases heq

theorem onePlace_deletes {c : Cf} {keys : List Key} (h : OnePlace db) : OnePlace (db.write (deletes c keys)) := by
  have hold : ∀ {c' k v}, (db.write (deletes c keys)).get c' k = some v → db.get c' k = some v := fun hget =>
    (TenantDb.get_write hget).elim (fun hput => absurd hput put_not_mem_deletes) And.left
  exact fun k t t' hget hget' => h k t t' (hold hget) (hold hget')

theorem onePlace_delivers (h : OnePlace db) (hb : Delivers b ms) : OnePlace (db.write b) := fun k t t' hget hget' => by
  obtain ⟨hold, hnot⟩ := hb.pending hget
  rcases hb.inflight hget' with hold' | ⟨m, hm, hkey⟩
  · exact h k t t' hold hold'
  · exact absurd hkey (hnot m hm)

theorem onePlace_enqueues (h : OnePlace db) (hb : Enqueues b) (hfresh : ∀ id ∈ putIds b, ¬Stored db id) :
    OnePlace (db.write b) := fun k t t' hget hget' => by
  have hold' := (TenantDb.get_write hget').resolve_left (hb.not_mem.2 k _)
  rcases TenantDb.get_write hget with hput | ⟨hold, -⟩
  · exact fun heq => hfresh t.id (mem_putIds hput) ⟨.inflight, k, t', hold'.1, heq.symm⟩
  · exact h k t t' hold hold'.1

theorem Spent.write (h : Spent db k id)
    (hput : ∀ c t, c = .pending ∨ c = .inflight → .put c k (.task t) ∈ b → t.id ≠ id) : Spent (db.write b) k id where
  pending t hget := (TenantDb.get_write hget).elim (hput _ t (Or.inl rfl)) fun hold => h.pending t hold.1
  inflight t hget := (TenantDb.get_write hget).elim (hput _ t (Or.inr rfl)) fun hold => h.inflight t hold.1

theorem stillPending_inv {t : Task} (h : stillPending db b = true) (hput : .put .inflight k (.task t) ∈ b) :
    ∃ t', db.get .pending k = some (.task t') ∧ t'.id = t.id := by
  have hop := List.all_eq_true.mp h _ hput
  dsimp only at hop
  split at hop
  · rename_i t' hget
    exact ⟨t', hget, of_decide_eq_true hop⟩
  · cases hop

/-- A record that no write removes stays inflight, and only an acknowledgement that holds the lock of its key
    removes one. -/
theorem step_inflight (hf : f.Counting tenant s.db) (h : Frame.step tenant s i f io = some (s', f'))
    (hget : (s.db.get .inflight k).isSome) :
    (s'.db.get .inflight k).isSome ∨ ackLockOf tenant k ∈ f.held tenant := by
  obtain ⟨v, hv⟩ := Option.isSome_iff_exists.mp hget
  have hkept : ∀ {b : WriteBatch}, .delete .inflight k ∉ b → ((s.db.write b).get .inflight k).isSome := fun hdel => by
    obtain ⟨v', hv', -⟩ := TenantDb.get_write_of_get hv hdel
    exact Option.isSome_iff_exists.mpr ⟨v', hv'⟩
  cases Frame.step_effect h with
  | evict =>
    obtain ⟨keys, rfl⟩ := hf
    exact Or.inl (hkept fun hdel => Cf.noConfusion (mem_deletes.mp hdel).1)
  | @write kind b held reply =>
    cases kind with
    | enqueue => exact Or.inl (hkept (hf.1.not_mem.1 _ _))
    | dequeue =>
      obtain ⟨⟨ms, hms⟩, -⟩ := hf
      refine Or.inl (hkept fun hdel => ?_)
      obtain ⟨m, hm, hsrc, -⟩ := hms.moves.mem_delete.mp hdel
      rw [(hms.deliver m hm).1] at hsrc
      cases hsrc
    | ack =>
      obtain ⟨counted, rfl, -, hchecked⟩ := hf
      by_cases hmem : k ∈ counted
      · exact Or.inr (hchecked.locked k hmem)
      · exact Or.inl (hkept fun hdel => hmem (mem_deletes.mp hdel).2)
    | _ =>
      obtain ⟨rfl, -⟩ := hf
      exact Or.inl (hkept List.not_mem_nil)
  | _ => exact Or.inl hget

theorem step_onePlace (hone : OnePlace s.db) (hknown : f.Known s i) (hf : f.Counting tenant s.db)
    (h : Frame.step tenant s i f io = some (s', f')) : OnePlace s'.db := by
  cases Frame.step_effect h with
  | evict =>
    obtain ⟨keys, rfl⟩ := hf
    exact onePlace_deletes hone
  | @write kind b held reply =>
    cases kind with
    | enqueue => exact onePlace_enqueues hone hf.1 fun id hid => hknown.unstored hid
    | dequeue =>
      obtain ⟨⟨ms, hms⟩, -⟩ := hf
      exact onePlace_delivers hone hms
    | ack =>
      obtain ⟨counted, rfl, -⟩ := hf
      exact onePlace_deletes hone
    | _ =>
      obtain ⟨rfl, -⟩ := hf
      exact hone
  | _ => exact hone

theorem Frame.Counting.mono {db' : TenantDb} (h : g.Counting tenant db)
    (hkept : ∀ k, ackLockOf tenant k ∈ g.held tenant → (db.get .inflight k).isSome → (db'.get .inflight k).isSome) :
    g.Counting tenant db' := by
  cases g with
  | ackGet key todo seen counted held =>
    obtain ⟨htodo, hseen, hkey, hnew, hchecked⟩ := h
    exact ⟨htodo, hseen, hkey, hnew, hchecked.nodup, hchecked.locked, fun k hk =>
      hkept k (hchecked.locked k hk) (hchecked.inflight k hk)⟩
  | write kind b held reply =>
    cases kind with
    | ack =>
      obtain ⟨counted, hb, hkeys, hchecked⟩ := h
      exact ⟨counted, hb, hkeys, hchecked.nodup, hchecked.locked, fun k hk =>
        hkept k (hchecked.locked k hk) (hchecked.inflight k hk)⟩
    | _ => exact h
  | _ => exact h

end Writes

/-- In every interleaving of enqueues, dequeues and acknowledgements, what an acknowledgement has counted is
    inflight, and no record is both pending and inflight. -/
theorem counting_outline {tenant : String} : Outline (system tenant)
    (fun c l => talliedCall l = true ∧ Grounded tenant c) (fun s => OnePlace s.db)
    (fun s _ f => f.Counting tenant s.db) fun _ _ => True where
  call _ hok := Frame.start_counting hok.1
  callApart _ := ⟨trivial, trivial⟩
  env h _ := ⟨h.shared, fun hf => hf⟩
  own h hok hf hs := ⟨step_onePlace h.shared (hok.2.known.frames hf) (h.frames hf) hs,
    Frame.step_counting hok.2.known.shared.tasks (h.frames hf) hs⟩
  others {c i f a s f' j g} h hok hf hs hij hg := by
    refine ⟨(h.frames hg).mono fun k hlock hget => ?_, trivial, trivial⟩
    refine (step_inflight (h.frames hf) hs hget).resolve_right fun hlock' => ?_
    exact hij ((hok.2.locks.frames hf).unique (hok.2.locks.frames hg) hlock' hlock)

/-! ## Records that are gone -/

/-- The task is gone from under the key, and no call is about to store it there anew. -/
structure Gone (c : Config Shared Frame) (k : Key) (id : String) : Prop where
  spent : Spent c.shared.db k id
  issued : id ∈ c.shared.issued
  fresh : ∀ f ∈ c.threads, id ∉ f.fresh

/-- The keys that a call returns, once it has written. -/
def Frame.settled : Frame → List Key
  | .unlock _ reply => reply.ackedKeys
  | .returned reply => reply.ackedKeys
  | _ => []

section Removals
variable {tenant : String} {s s' : Shared} {i : Nat} {io : StepInput} {f f' : Frame} {c c' : Config Shared Frame}
  {l : Label Call StepInput} {k : Key} {id : String}

theorem spent_step (hspent : Spent s.db k id) (hid : id ∉ f.fresh) (hf : f.Counting tenant s.db)
    (hwrite : ∀ b held reply, f = .write .dequeue b held reply → stillPending s.db b = true)
    (h : Frame.step tenant s i f io = some (s', f')) : Spent s'.db k id := by
  cases Frame.step_effect h with
  | evict =>
    obtain ⟨keys, rfl⟩ := hf
    exact hspent.write fun _ _ _ hput => absurd hput put_not_mem_deletes
  | @write kind b held reply =>
    cases kind with
    | enqueue => exact hspent.write fun c t _ hput heq => hid (heq ▸ mem_putIds hput)
    | dequeue =>
      obtain ⟨⟨ms, hms⟩, -⟩ := hf
      refine hspent.write fun c t hc hput => ?_
      obtain ⟨m, hm, hdst, -⟩ := hms.moves.mem_put.mp hput
      obtain rfl : .inflight = c := (hms.deliver m hm).2.1.symm.trans hdst
      obtain ⟨t', hget, heq⟩ := stillPending_inv (hwrite b held reply rfl) hput
      exact heq ▸ hspent.pending t' hget
    | ack =>
      obtain ⟨counted, rfl, -⟩ := hf
      exact hspent.write fun _ _ _ hput => absurd hput put_not_mem_deletes
    | _ =>
      obtain ⟨rfl, -⟩ := hf
      exact hspent
  | _ => exact hspent

theorem mem_set_cases {ts : List Frame} {g : Frame} (h : g ∈ ts.set i f') : g = f' ∨ g ∈ ts := by
  obtain ⟨j, hj⟩ := List.mem_iff_getElem?.mp h
  rcases getElem?_set_cases hj with ⟨-, rfl⟩ | ⟨-, hg⟩
  · exact Or.inl rfl
  · exact Or.inr (List.mem_of_getElem? hg)

/-- What is gone stays gone. -/
theorem Gone.next (h : Gone c k id) (hg : Grounded tenant c)
    (hcount : Holds (fun s => OnePlace s.db) (fun s _ f => f.Counting tenant s.db) (fun _ _ => True) c)
    (hok : dequeueInTime c l = true) (hn : (system tenant).next c l = some c') : Gone c' k id := by
  cases l with
  | call call =>
    cases hn
    refine ⟨h.spent, h.issued, fun f hf => ?_⟩
    rcases List.mem_append.mp hf with hf | hf
    · exact h.fresh f hf
    · obtain rfl := List.mem_singleton.mp hf
      rw [show ((system tenant).start call).fresh = [] from (Frame.start_idle tenant call).bare.1]
      exact List.not_mem_nil
  | env =>
    cases hn
    exact ⟨h.spent, h.issued, h.fresh⟩
  | run i a =>
    obtain ⟨f, s, f', hf, hs, rfl⟩ := System.next_run_inv hn
    have hids := step_ids hg.known.shared (hg.known.frames hf) hs
    have hfresh : id ∉ f.fresh := h.fresh f (List.mem_of_getElem? hf)
    refine ⟨spent_step h.spent hfresh (hcount.frames hf) ?_ hs, hids.issued h.issued, fun g hg' hid => ?_⟩
    · rintro b held reply rfl
      simpa only [dequeueInTime, hf] using hok
    · rcases mem_set_cases hg' with rfl | hg'
      · exact (hids.fresh hid).elim hfresh fun hnew => hnew h.issued
      · exact h.fresh g hg' hid

/-- A task gets pending only by the enqueue that makes it. -/
theorem step_pending {t : Task} (hf : f.Counting tenant s.db) (h : Frame.step tenant s i f io = some (s', f'))
    (hget : s'.db.get .pending k = some (.task t)) : s.db.get .pending k = some (.task t) ∨ t.id ∈ f.fresh := by
  have hold : ∀ {b : WriteBatch}, .put .pending k (.task t) ∉ b → (s.db.write b).get .pending k = some (.task t) →
      s.db.get .pending k = some (.task t) := fun hput hget => ((TenantDb.get_write hget).resolve_left hput).1
  cases Frame.step_effect h with
  | evict =>
    obtain ⟨keys, rfl⟩ := hf
    exact Or.inl (hold put_not_mem_deletes hget)
  | @write kind b held reply =>
    cases kind with
    | enqueue =>
      rcases TenantDb.get_write hget with hput | ⟨hold, -⟩
      · exact Or.inr (mem_putIds hput)
      · exact Or.inl hold
    | dequeue =>
      obtain ⟨⟨ms, hms⟩, -⟩ := hf
      exact Or.inl (hms.pending hget).1
    | ack =>
      obtain ⟨counted, rfl, -⟩ := hf
      exact Or.inl (hold put_not_mem_deletes hget)
    | _ =>
      obtain ⟨rfl, -⟩ := hf
      exact Or.inl hget
  | _ => exact Or.inl hget

/-- A task that left inflight is gone. -/
theorem gone_of_left {t : Task} (hg : Grounded tenant c)
    (hcount : Holds (fun s => OnePlace s.db) (fun s _ f => f.Counting tenant s.db) (fun _ _ => True) c)
    (hn : (system tenant).next c l = some c') (hget : c.shared.db.get .inflight k = some (.task t))
    (hleft : ∀ t', c'.shared.db.get .inflight k = some (.task t') → t'.id ≠ t.id) : Gone c' k t.id := by
  have hstored : Stored c.shared.db t.id := ⟨_, _, t, hget, rfl⟩
  have hissued := hg.known.shared.issued hstored
  cases l with
  | call call =>
    cases hn
    exact absurd rfl (hleft t hget)
  | env =>
    cases hn
    exact absurd rfl (hleft t hget)
  | run i a =>
    obtain ⟨f, s, f', hf, hs, rfl⟩ := System.next_run_inv hn
    have hids := step_ids hg.known.shared (hg.known.frames hf) hs
    have hunstored : t.id ∉ f.fresh := fun hid => (hg.known.frames hf).unstored hid hstored
    refine ⟨⟨fun t' hget' heq => ?_, hleft⟩, hids.issued hissued, fun g hg' hid => ?_⟩
    · rcases step_pending (hcount.frames hf) hs hget' with hold | hid
      · exact hcount.shared k t' t hold hget heq
      · exact hunstored (heq ▸ hid)
    · rcases mem_set_cases hg' with rfl | hg'
      · exact (hids.fresh hid).elim hunstored fun hnew => hnew hissued
      · obtain ⟨j, hj⟩ := List.mem_iff_getElem?.mp hg'
        exact (hg.known.frames hj).unstored hid hstored

theorem takenOut_deletes {counted : List Key} {db : TenantDb} (i : Nat) (hall : AllTasks db)
    (hget : ∀ k ∈ counted, (db.get .inflight k).isSome) :
    (takenOut i db (deletes .inflight counted)).map Removal.key = counted ∧
      ∀ r ∈ takenOut i db (deletes .inflight counted),
        r.thread = i ∧ ∃ t, db.get .inflight r.key = some (.task t) ∧ t.id = r.id := by
  induction counted with
  | nil => exact ⟨rfl, fun _ hr => nomatch hr⟩
  | cons k counted ih =>
    obtain ⟨hkeys, hrest⟩ := ih fun k' hk' => hget k' (List.mem_cons_of_mem _ hk')
    obtain ⟨v, hv⟩ := Option.isSome_iff_exists.mp (hget k List.mem_cons_self)
    obtain ⟨t, rfl⟩ := hall hv
    have hcons : takenOut i db (deletes .inflight (k :: counted)) =
        ⟨i, k, t.id⟩ :: takenOut i db (deletes .inflight counted) := by
      simp [takenOut, deletes, hv]
    rw [hcons]
    exact ⟨congrArg (k :: ·) hkeys, List.forall_mem_cons.mpr ⟨⟨rfl, t, hv, rfl⟩, hrest⟩⟩

theorem get_write_deletes {counted : List Key} {db : TenantDb} (h : k ∈ counted) :
    (db.write (deletes .inflight counted)).get .inflight k = none := by
  cases hget : (db.write (deletes .inflight counted)).get .inflight k with
  | none => rfl
  | some v =>
    rcases TenantDb.get_write hget with hput | ⟨-, hdel⟩
    · exact absurd hput put_not_mem_deletes
    · exact absurd (mem_deletes.mpr ⟨rfl, h⟩) hdel

/-- What a step of thread `i` removes is what its call then counts. -/
structure RemovalStep (s s' : Shared) (i : Nat) (f f' : Frame) (rs : List Removal) : Prop where
  removals : removals s' = removals s ++ rs
  settled : f'.settled = f.settled ++ rs.map Removal.key
  nodup : (rs.map Removal.key).Nodup
  thread : ∀ r ∈ rs, r.thread = i
  found : ∀ r ∈ rs, ∃ t, s.db.get .inflight r.key = some (.task t) ∧ t.id = r.id
  absent : ∀ r ∈ rs, s'.db.get .inflight r.key = none

theorem RemovalStep.none (hremovals : RocksQueue.removals s' = RocksQueue.removals s) (hsettled : f'.settled = f.settled) :
    RemovalStep s s' i f f' [] where
  removals := by rw [hremovals, List.append_nil]
  settled := by rw [hsettled, List.map_nil, List.append_nil]
  nodup := .nil
  thread _ hr := nomatch hr
  found _ hr := nomatch hr
  absent _ hr := nomatch hr

theorem removals_append {es : List Event} (hhist : s'.history = s.history ++ es)
    (hes : ∀ w, .wrote w ∈ es → w.kind ≠ .ack) : removals s' = removals s := by
  have hnil : es.flatMap Event.removals = [] := List.flatMap_eq_nil_iff.mpr fun e he => by
    cases e with
    | minted j key id => rfl
    | wrote w => simp [Event.removals, hes w he]
  rw [removals, removals, hhist, List.flatMap_append, hnil, List.append_nil]

theorem Frame.Idle.settled (h : f.Idle) : f.settled = [] := by
  cases f with
  | unlock held reply => exact h.1
  | returned reply => exact h.1
  | _ => rfl

theorem step_removals (hall : AllTasks s.db) (hf : f.Counting tenant s.db)
    (h : Frame.step tenant s i f io = some (s', f')) : ∃ rs, RemovalStep s s' i f f' rs := by
  by_cases hunlock : ∃ held reply, f = .unlock held reply
  · obtain ⟨held, reply, rfl⟩ := hunlock
    cases h
    exact ⟨[], .none rfl rfl⟩
  -- A reply is settled once its write is done, and not before.
  have hbefore : f.settled = [] := by
    cases f with
    | unlock held reply => exact absurd ⟨_, _, rfl⟩ hunlock
    | returned reply => cases h
    | _ => rfl
  have hquiet : ∀ {es : List Event}, s'.history = s.history ++ es → (∀ w, .wrote w ∈ es → w.kind ≠ .ack) →
      f'.settled = [] → ∃ rs, RemovalStep s s' i f f' rs := fun hhist hes hafter =>
    ⟨[], .none (removals_append hhist hes) (hafter.trans hbefore.symm)⟩
  cases Frame.step_effect h with
  | quiet locks hidle => exact hquiet (List.append_nil _).symm (fun _ hw => nomatch hw) hidle.settled
  | plan hplan =>
    refine hquiet (List.append_nil _).symm (fun _ hw => nomatch hw) ?_
    cases hplan <;> rfl
  | @unlock held reply => exact absurd ⟨_, _, rfl⟩ hunlock
  | @mint r now payload todo batch ids hnew =>
    refine hquiet rfl (fun w hw => by simp at hw) ?_
    unfold Frame.nextMint
    split <;> rfl
  | retry => exact hf.elim
  | replay => exact hf.elim
  | evict hidle => exact hquiet rfl (fun w hw => by simp at hw; simp [hw]) hidle.settled
  | @write kind b held reply =>
    by_cases hkind : kind = .ack
    · subst hkind
      obtain ⟨counted, rfl, hkeys, hchecked⟩ := hf
      -- What is counted is still inflight, so the batch removes just that.
      obtain ⟨hmap, hfound⟩ := takenOut_deletes i hall hchecked.inflight
      refine ⟨takenOut i s.db (deletes .inflight counted), ?_, ?_, ?_, fun r hr => (hfound r hr).1,
        fun r hr => (hfound r hr).2, fun r hr => get_write_deletes (hmap ▸ List.mem_map_of_mem hr)⟩
      · rw [removals, removals, Shared.write, List.flatMap_append]
        simp [Event.removals]
      · rw [hmap, hbefore]
        exact hkeys
      · rw [hmap]
        exact hchecked.nodup
    · refine hquiet rfl (fun w hw => by simp at hw; simp [hw, hkind]) ?_
      cases kind with
      | ack => exact absurd rfl hkind
      | enqueue => exact hf.2
      | dequeue => exact hf.2
      | _ => exact hf.2

end Removals

/-! ## The counts -/

/-- Every record that was removed is counted by one call, and each call counts what it removed. -/
structure Tallied (c : Config Shared Frame) : Prop where
  once : ((removals c.shared).map fun r => (r.key, r.id)).Nodup
  counted : ∀ {i f}, c.threads[i]? = some f →
    ((removals c.shared).filter (·.thread = i)).map Removal.key = f.settled
  total : (c.threads.map fun f => f.settled.length).sum = (removals c.shared).length

/-- The counts so far, and that what was removed is gone. -/
structure TalliedSoFar (c : Config Shared Frame) : Prop extends Tallied c where
  gone : ∀ r ∈ removals c.shared, Gone c r.key r.id
  thread : ∀ r ∈ removals c.shared, r.thread < c.threads.length

/-- A process in which no call is in progress, whose records are tasks that it knows. -/
structure AtRest (s : Shared) : Prop where
  known : Known s
  onePlace : OnePlace s.db
  history : s.history = []

section Tallies
variable {tenant : String} {c c' : Config Shared Frame} {l : Label Call StepInput}

theorem sum_map_set {α : Type} {ts : List α} {i : Nat} {a : α} (a' : α) (g : α → Nat) (h : ts[i]? = some a) :
    ((ts.set i a').map g).sum + g a = (ts.map g).sum + g a' := by
  induction ts generalizing i with
  | nil => simp at h
  | cons b ts ih =>
    cases i with
    | zero =>
      obtain rfl : b = a := by simpa using h
      simp only [List.set_cons_zero, List.map_cons, List.sum_cons]
      omega
    | succ i =>
      have hrest := ih (by simpa using h)
      simp only [List.set_cons_succ, List.map_cons, List.sum_cons]
      omega

theorem tallied_next (h : TalliedSoFar c) (hg : Grounded tenant c)
    (hcount : Holds (fun s => OnePlace s.db) (fun s _ f => f.Counting tenant s.db) (fun _ _ => True) c)
    (hok : dequeueInTime c l = true) (hn : (system tenant).next c l = some c') : TalliedSoFar c' := by
  have hgone : ∀ r ∈ removals c.shared, Gone c' r.key r.id := fun r hr => (h.gone r hr).next hg hcount hok hn
  cases l with
  | call call =>
    cases hn
    have hsettled : ((system tenant).start call).settled = [] := (Frame.start_idle tenant call).settled
    refine ⟨⟨h.once, fun {i f} hf => ?_, ?_⟩, hgone, fun r hr => ?_⟩
    · rcases getElem?_append_cases hf with ⟨rfl, rfl⟩ | hf
      · rw [hsettled, List.map_eq_nil_iff, List.filter_eq_nil_iff]
        intro r hr hthread
        exact absurd (of_decide_eq_true hthread) (Nat.ne_of_lt (h.thread r hr))
      · exact h.counted hf
    · simpa [hsettled] using h.total
    · have hlt := h.thread r hr
      rw [List.length_append]
      omega
  | env =>
    cases hn
    exact ⟨⟨h.once, h.counted, h.total⟩, hgone, h.thread⟩
  | run i a =>
    obtain ⟨f, s, f', hf, hs, rfl⟩ := System.next_run_inv hn
    obtain ⟨rs, hrs⟩ := step_removals hg.known.shared.tasks (hcount.frames hf) hs
    have hlen : i < c.threads.length := (List.getElem?_eq_some_iff.mp hf).1
    -- A record that was removed in this step is gone from now on.
    have hfound : ∀ r ∈ rs, Gone ⟨s, c.threads.set i f'⟩ r.key r.id := fun r hr => by
      obtain ⟨t, hget, hid⟩ := hrs.found r hr
      rw [← hid]
      refine gone_of_left hg hcount hn hget fun t' hget' => ?_
      rw [hrs.absent r hr] at hget'
      cases hget'
    refine ⟨⟨?_, fun {j g} hg' => ?_, ?_⟩, fun r hr => ?_, fun r hr => ?_⟩
    · rw [hrs.removals, List.map_append, List.nodup_append]
      refine ⟨h.once, ?_, ?_⟩
      · have hkeys := hrs.nodup
        rw [List.Nodup, List.pairwise_map] at hkeys ⊢
        exact hkeys.imp fun hne heq => hne (congrArg Prod.fst heq)
      -- What was removed before is gone, so it is not removed again.
      · rintro p hp q hq rfl
        obtain ⟨r, hr, rfl⟩ := List.mem_map.mp hp
        obtain ⟨r', hr', heq⟩ := List.mem_map.mp hq
        obtain ⟨hkey, hid⟩ := Prod.mk.inj heq
        obtain ⟨t, hget, ht⟩ := hrs.found r' hr'
        exact (h.gone r hr).spent.inflight t (hkey ▸ hget) (ht.trans hid)
    · rw [hrs.removals, List.filter_append, List.map_append]
      rcases getElem?_set_cases hg' with ⟨rfl, rfl⟩ | ⟨hne, hg'⟩
      · rw [h.counted hf, hrs.settled, List.filter_eq_self.mpr fun r hr => decide_eq_true (hrs.thread r hr)]
      · rw [h.counted hg', List.filter_eq_nil_iff.mpr fun r hr heq => ?_, List.map_nil, List.append_nil]
        exact hne ((of_decide_eq_true heq).symm.trans (hrs.thread r hr))
    -- The replies count what their own threads have removed.
    · have hsum := sum_map_set f' (fun f : Frame => f.settled.length) hf
      rw [hrs.settled, List.length_append, List.length_map] at hsum
      rw [hrs.removals, List.length_append, ← h.total]
      dsimp only
      omega
    · rw [hrs.removals] at hr
      exact (List.mem_append.mp hr).elim (hgone r) (hfound r)
    · rw [hrs.removals] at hr
      rw [List.length_set]
      exact (List.mem_append.mp hr).elim (h.thread r) fun hr => hrs.thread r hr ▸ hlen

end Tallies

/-! ## The key of a call -/

/-- The acknowledgement is still going to delete the key, if it is inflight all along. -/
def Frame.Pursues (k : Key) : Frame → Prop
  | .ackLocks keys _ _ => k ∈ keys
  | .ackGet key todo seen counted _ => k = key ∨ k ∈ counted ∨ (k ∈ todo ∧ k ∉ seen)
  | .write .ack b _ _ => .delete .inflight k ∈ b
  | _ => False

section Pursuit
variable {tenant : String} {k : Key} {s s' : Shared} {i : Nat} {io : StepInput} {f f' : Frame}
  {c c' : Config Shared Frame} {l : Label Call StepInput}

theorem nextAck_pursues {held : List Lock} {todo seen counted : List Key} (h : k ∈ counted ∨ (k ∈ todo ∧ k ∉ seen)) :
    (Frame.nextAck held todo seen counted).Pursues k := by
  induction todo with
  | nil =>
    have hmem : k ∈ counted := h.resolve_right fun hk => List.not_mem_nil hk.1
    have hdel : .delete .inflight k ∈ TenantDb.ackDeletes counted := mem_deletes.mpr ⟨rfl, hmem⟩
    rcases Frame.writeOr_eq .ack (TenantDb.ackDeletes counted) held (.acked counted) with ⟨hnil, -⟩ | ⟨-, heq⟩
    · rw [hnil] at hdel
      cases hdel
    · rw [Frame.nextAck, heq]
      exact hdel
  | cons key todo ih =>
    simp only [Frame.nextAck]
    split
    · rename_i hseen
      exact ih (h.imp_right fun hk => ⟨(List.mem_cons.mp hk.1).resolve_left fun heq => hk.2 (heq ▸ hseen), hk.2⟩)
    · by_cases heq : k = key
      · exact Or.inl heq
      · refine Or.inr (h.imp_right fun hk => ⟨(List.mem_cons.mp hk.1).resolve_left heq, ?_⟩)
        exact fun hk' => (List.mem_cons.mp hk').elim heq hk.2

theorem nextAckLock_pursues {keys : List Key} {held todo : List Lock} (h : k ∈ keys) :
    (Frame.nextAckLock keys held todo).Pursues k := by
  cases todo with
  | nil => exact nextAck_pursues (Or.inr ⟨h, List.not_mem_nil⟩)
  | cons l todo => exact h

/-- An acknowledgement of an inflight key goes on to delete it. -/
theorem step_pursues (hf : f.Counting tenant s.db) (hk : f.Pursues k) (hget : (s.db.get .inflight k).isSome)
    (h : Frame.step tenant s i f io = some (s', f')) : f'.Pursues k ∨ s'.db.get .inflight k = none := by
  cases Frame.stepped_of_step h with
  | ackLock => exact Or.inl (nextAckLock_pursues hk)
  | ackGet key todo seen counted held =>
    refine Or.inl (nextAck_pursues ?_)
    rcases hk with rfl | hk | hk
    · simp [hget]
    · left
      split
      · exact List.mem_append_left _ hk
      · exact hk
    · exact Or.inr hk
  | write kind =>
    cases kind with
    | ack =>
      obtain ⟨counted, rfl, -⟩ := hf
      exact Or.inr (get_write_deletes (mem_deletes.mp hk).2)
    | _ => exact hk.elim
  | _ => exact hk.elim

/-- Thread `i` is going to delete the task under `k`, or the task is gone. -/
def Pursued (i : Nat) (k : Key) (id : String) (c : Config Shared Frame) : Prop :=
  Gone c k id ∨ ∃ t f, c.shared.db.get .inflight k = some (.task t) ∧ t.id = id ∧ c.threads[i]? = some f ∧ f.Pursues k

theorem pursued_next {id : String} (h : Pursued i k id c) (hg : Grounded tenant c)
    (hcount : Holds (fun s => OnePlace s.db) (fun s _ f => f.Counting tenant s.db) (fun _ _ => True) c)
    (hok : dequeueInTime c l = true) (hn : (system tenant).next c l = some c') : Pursued i k id c' := by
  rcases h with hgone | ⟨t, f, hget, rfl, hf, hk⟩
  · exact Or.inl (hgone.next hg hcount hok hn)
  by_cases hstays : ∃ t', c'.shared.db.get .inflight k = some (.task t') ∧ t'.id = t.id
  · obtain ⟨t', hget', hid⟩ := hstays
    refine Or.inr ⟨t', ?_⟩
    cases l with
    | call call =>
      cases hn
      exact ⟨f, hget', hid, by rw [List.getElem?_append_left (List.getElem?_eq_some_iff.mp hf).1, hf], hk⟩
    | env =>
      cases hn
      exact ⟨f, hget', hid, hf, hk⟩
    | run j a =>
      obtain ⟨g, s, g', hg', hs, rfl⟩ := System.next_run_inv hn
      by_cases hij : j = i
      · subst hij
        obtain rfl := Option.some.inj (hf.symm.trans hg')
        refine ⟨g', hget', hid, by simp [(List.getElem?_eq_some_iff.mp hf).1], ?_⟩
        refine (step_pursues (hcount.frames hf) hk (by rw [hget]; rfl) hs).resolve_right fun hnone => ?_
        rw [hnone] at hget'
        cases hget'
      · exact ⟨f, hget', hid, by rw [List.getElem?_set_ne hij, hf], hk⟩
  · exact Or.inl (gone_of_left hg hcount hn hget fun t' hget' hid => hstays ⟨t', hget', hid⟩)

end Pursuit

section Main
variable {tenant : String} {s₀ : Shared} {c c' : Config Shared Frame} {l : Label Call StepInput}

/-- What holds throughout a run of the calls that the counts are about. -/
structure Sound (tenant : String) (c : Config Shared Frame) : Prop where
  grounded : Grounded tenant c
  counting : Holds (fun s => OnePlace s.db) (fun s _ f => f.Counting tenant s.db) (fun _ _ => True) c

theorem Sound.next (h : Sound tenant c) (hok : tallying c l = true) (hn : (system tenant).next c l = some c') :
    Sound tenant c' := by
  exact ⟨h.grounded.next hn, counting_outline.next h.counting ⟨(Bool.and_eq_true_iff.mp hok).1, h.grounded⟩ hn⟩

theorem sound_atRest (h : AtRest s₀) : Sound tenant ⟨s₀, []⟩ :=
  ⟨grounded_of_known h.known, .start h.onePlace⟩

theorem talliedSoFar_atRest (h : AtRest s₀) : TalliedSoFar ⟨s₀, []⟩ := by
  have hnil : removals s₀ = [] := by rw [removals, h.history, List.flatMap_nil]
  refine ⟨⟨?_, fun hf => by simp at hf, ?_⟩, fun r hr => ?_, fun r hr => ?_⟩
  · rw [hnil]
    exact .nil
  · rw [hnil]
    rfl
  · rw [hnil] at hr
    cases hr
  · rw [hnil] at hr
    cases hr

/-- In every run of enqueues, dequeues and acknowledgements whose dequeues write what is still pending, the
    acknowledgements count each record once, and the keys that one names are gone when it returns. -/
theorem acks_counted (h₀ : AtRest s₀) (hrun : (system tenant).Run (fun c l => tallying c l = true) ⟨s₀, []⟩ c) :
    Tallied c ∧ ∀ keys k t reply c', k ∈ keys → c.shared.db.get .inflight k = some (.task t) →
      (system tenant).Run (fun c l => tallying c l = true)
        ⟨c.shared, c.threads ++ [Frame.start tenant (.ackBatch keys)]⟩ c' →
      c'.threads[c.threads.length]? = some (.returned reply) →
      ∀ t', c'.shared.db.get .inflight k = some (.task t') → t'.id ≠ t.id := by
  have hall : Sound tenant c ∧ TalliedSoFar c := by
    refine hrun.invariant (I := fun c => Sound tenant c ∧ TalliedSoFar c) ?_ ⟨sound_atRest h₀, talliedSoFar_atRest h₀⟩
    rintro d l d' ⟨hs, ht⟩ hok hn
    exact ⟨hs.next hok hn, tallied_next ht hs.grounded hs.counting (Bool.and_eq_true_iff.mp hok).2 hn⟩
  refine ⟨hall.2.toTallied, fun keys k t reply c' hk hget hrun' hreturned => ?_⟩
  let c₁ : Config Shared Frame := ⟨c.shared, c.threads ++ [Frame.start tenant (.ackBatch keys)]⟩
  have hcall : (system tenant).next c (.call (.ackBatch keys)) = some c₁ := rfl
  have hstart : Pursued c.threads.length k t.id c₁ :=
    Or.inr ⟨t, _, hget, rfl, List.getElem?_concat_length, nextAckLock_pursues hk⟩
  have hend : Sound tenant c' ∧ Pursued c.threads.length k t.id c' := by
    refine hrun'.invariant (I := fun c => Sound tenant c ∧ Pursued _ k t.id c) ?_ ⟨hall.1.next rfl hcall, hstart⟩
    rintro d l d' ⟨hs, hp⟩ hok hn
    exact ⟨hs.next hok hn, pursued_next hp hs.grounded hs.counting (Bool.and_eq_true_iff.mp hok).2 hn⟩
  rcases hend.2 with hgone | ⟨t', f, -, -, hf, hpursues⟩
  · exact hgone.spent.inflight
  · obtain rfl := Option.some.inj (hf.symm.trans hreturned)
    exact hpursues.elim

end Main

theorem atRest_start (now : Nat) : AtRest (.start now) where
  known := ⟨allTasks_empty, fun hst => absurd hst stored_empty⟩
  onePlace k t t' hget _ := by simp [Shared.start] at hget
  history := rfl

/-- The acknowledgement of thread 2, and another one of its key that begins after it. -/
def ackTogether : List (Label Call StepInput) :=
  [.call (.ackBatch [deliveredKey]), .run 2 {}, .run 2 {}, .run 2 {}, .run 2 {}, .run 3 {}, .run 3 {}, .run 3 {}]

theorem acks_counted_ackTogether : ∃ (c c' : Config Shared Frame) (t : Task),
    (system "t").Run (fun c l => tallying c l = true) ⟨.start 1, []⟩ c ∧
    c.shared.db.get .inflight deliveredKey = some (.task t) ∧
    (system "t").Run (fun c l => tallying c l = true)
      ⟨c.shared, c.threads ++ [Frame.start "t" (.ackBatch [deliveredKey])]⟩ c' ∧
    c'.threads[2]? = some (.returned (.acked [deliveredKey])) ∧ c'.threads[3]? = some (.returned (.acked [])) ∧
    Tallied c' ∧ ∀ t', c'.shared.db.get .inflight deliveredKey = some (.task t') → t'.id ≠ t.id := by
  have hsome : (((system "t").execWhile tallying ⟨.start 1, []⟩ deliverOne).bind fun c =>
      (system "t").execWhile tallying c (.call (.ackBatch [deliveredKey]) :: ackTogether)).isSome := by decide
  obtain ⟨c', hc'⟩ := Option.isSome_iff_exists.mp hsome
  obtain ⟨c, hc, hexec⟩ := Option.bind_eq_some_iff.mp hc'
  have hget : ((system "t").execWhile tallying ⟨.start 1, []⟩ deliverOne).map (fun c =>
      (c.shared.db.get .inflight deliveredKey, c.threads.length)) =
        some (some (.task ⟨"a", "q", [1], 0, 1, 60001⟩), 2) := by decide
  have hreturned : (((system "t").execWhile tallying ⟨.start 1, []⟩ deliverOne).bind fun c =>
      (system "t").execWhile tallying c (.call (.ackBatch [deliveredKey]) :: ackTogether)).map (fun c =>
      (c.threads[2]?, c.threads[3]?)) =
        some (some (.returned (.acked [deliveredKey])), some (.returned (.acked []))) := by rfl
  rw [hc, Option.map_some, Option.some.injEq, Prod.mk.injEq] at hget
  rw [hc', Option.map_some, Option.some.injEq, Prod.mk.injEq] at hreturned
  have hrun := Runs.run_of_execWhile hc
  let c₁ : Config Shared Frame := ⟨c.shared, c.threads ++ [Frame.start "t" (.ackBatch [deliveredKey])]⟩
  have hexec' : (system "t").execWhile tallying c₁ ackTogether = some c' := hexec
  have hcall : (system "t").next c (.call (.ackBatch [deliveredKey])) = some c₁ := rfl
  have hrun' := Runs.run_of_execWhile hexec'
  refine ⟨c, c', _, hrun, hget.1, hrun', hreturned.1, hreturned.2, ?_, ?_⟩
  · exact (acks_counted (atRest_start 1) (Runs.Run.trans (hrun.step rfl hcall) hrun')).1
  · exact (acks_counted (atRest_start 1) hrun).2 [deliveredKey] _ _ _ _ (List.mem_singleton_self _) hget.1 hrun'
      (hget.2 ▸ hreturned.1)

/-- Two dequeues of queues whose records overlap have read one record, and one of them has written. -/
def deliverTwice : List (Label Call StepInput) :=
  [.call (.enqueueBatch "a\x00b" [[1]] (.standard "t")), .run 0 {}, .run 0 {}, .run 0 {}, .run 0 {}, .run 0 { id := "x" },
    .run 0 {}, .run 0 {}, .call (.dequeueBatch "a\x00b" 1 60000), .call (.dequeueBatch "a" 1 60000), .run 1 {}, .run 2 {},
    .run 1 { now := 1 }, .run 2 { now := 1 }, .run 1 {}, .run 1 {}]

/-- The record is acknowledged, and the other dequeue writes before the acknowledgement returns. -/
def ackBetween : List (Label Call StepInput) := [.run 3 {}, .run 3 {}, .run 3 {}, .run 2 {}, .run 3 {}]

/-- The task is inflight again when the acknowledgement that removed it returns. -/
theorem not_acks_counted : ∃ (c c' : Config Shared Frame) (keys : List Key) (k : Key) (t : Task) (reply : Reply),
    (system "t").Run (fun _ l => talliedCall l = true) ⟨.start 1, []⟩ c ∧
    k ∈ keys ∧ c.shared.db.get .inflight k = some (.task t) ∧
    (system "t").Run (fun _ l => talliedCall l = true) ⟨c.shared, c.threads ++ [Frame.start "t" (.ackBatch keys)]⟩ c' ∧
    c'.threads[c.threads.length]? = some (.returned reply) ∧ c'.shared.db.get .inflight k = some (.task t) := by
  let key := encodeKey "a\x00b" 1
  let t : Task := ⟨"x", "a\x00b", [1], 0, 1, 60001⟩
  have hsome : (((system "t").exec ⟨.start 1, []⟩ deliverTwice).bind fun c =>
      (system "t").exec c (.call (.ackBatch [key]) :: ackBetween)).isSome := by decide
  obtain ⟨c', hc'⟩ := Option.isSome_iff_exists.mp hsome
  obtain ⟨c, hc, hexec⟩ := Option.bind_eq_some_iff.mp hc'
  have hget : ((system "t").exec ⟨.start 1, []⟩ deliverTwice).map (fun c =>
      (c.shared.db.get .inflight key, c.threads.length)) = some (some (.task t), 3) := by decide
  have hreturned : (((system "t").exec ⟨.start 1, []⟩ deliverTwice).bind fun c =>
      (system "t").exec c (.call (.ackBatch [key]) :: ackBetween)).map (fun c =>
      (c.threads[3]?, c.shared.db.get .inflight key)) = some (some (.returned (.acked [key])), some (.task t)) := by rfl
  rw [hc, Option.map_some, Option.some.injEq, Prod.mk.injEq] at hget
  rw [hc', Option.map_some, Option.some.injEq, Prod.mk.injEq] at hreturned
  let c₁ : Config Shared Frame := ⟨c.shared, c.threads ++ [Frame.start "t" (.ackBatch [key])]⟩
  have hexec' : (system "t").exec c₁ ackBetween = some c' := hexec
  have hrun : (system "t").Run (fun _ l => talliedCall l = true) ⟨.start 1, []⟩ c :=
    Runs.run_of_exec_forall hc (by decide)
  have hrun' : (system "t").Run (fun _ l => talliedCall l = true) c₁ c' := Runs.run_of_exec_forall hexec' (by decide)
  exact ⟨c, c', [key], key, t, _, hrun, List.mem_singleton_self _, hget.1, hrun', hget.2 ▸ hreturned.1, hreturned.2⟩

end RocksQueue
