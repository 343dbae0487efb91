import RocksQueue.Theorems.Solo
import RocksQueue.Theorems.TaskIds

/-! # No task is lost

While the sequence counter does not wrap, a key is made for one task only, so a delete that acts on an
old read still deletes a record of the task it read, and the same batch puts that task somewhere else
(`stored_or_removed`). Only an acknowledgement or a purge deletes without a put. -/

namespace RocksQueue
open Interleaving

/-- The key was made for the task. -/
def Bound (h : List Event) (k : Key) (id : String) : Prop := ∃ i, .minted i k id ∈ h

/-- The family that a removing write deletes from. -/
def WriteKind.removes : WriteKind → Option Cf
  | .ack => some .inflight
  | .cumulativeAck => some .inflight
  | .purge => some .dlq
  | _ => none

/-- An acknowledgement deleted an inflight record of the task, or a purge a dead-letter record. -/
def Removed (h : List Event) (id : String) : Prop :=
  ∃ w c k t, .wrote w ∈ h ∧ w.kind.removes = some c ∧ .delete c k ∈ w.batch ∧ w.before.get c k = some (.task t) ∧
    t.id = id

/-- The batch deletes only from `src`, and puts the task of each key that it deletes somewhere else. -/
def PairedFrom (h : List Event) (src : Cf) (b : WriteBatch) : Prop :=
  ∀ c k, .delete c k ∈ b → c = src ∧ ∃ c' k' t, .put c' k' (.task t) ∈ b ∧ c' ≠ src ∧ Bound h k t.id

section Batches
variable {h h' : List Event} {e : Event} {db : TenantDb} {b b' : WriteBatch} {ms : List Move} {src c : Cf} {k : Key}
  {t : Task} {id : String} {kind : WriteKind} {now : Nat}

theorem Bound.mono (hk : Bound h k id) : Bound (h ++ h') k id := by
  obtain ⟨i, hi⟩ := hk
  exact ⟨i, List.mem_append_left _ hi⟩

theorem Removed.mono (hid : Removed h id) : Removed (h ++ h') id := by
  obtain ⟨w, c, k, t, hmem, hw⟩ := hid
  exact ⟨w, c, k, t, List.mem_append_left _ hmem, hw⟩

theorem PairedFrom.mono (hb : PairedFrom h src b) : PairedFrom (h ++ h') src b := by
  intro c k hdel
  obtain ⟨hc, c', k', t, hput, hne, hbound⟩ := hb c k hdel
  exact ⟨hc, c', k', t, hput, hne, hbound.mono⟩

theorem PairedFrom.append (hb : PairedFrom h src b) (hb' : PairedFrom h src b') : PairedFrom h src (b ++ b') := by
  intro c k hdel
  rcases List.mem_append.mp hdel with hdel | hdel
  · obtain ⟨hc, c', k', t, hput, hput'⟩ := hb c k hdel
    exact ⟨hc, c', k', t, List.mem_append_left _ hput, hput'⟩
  · obtain ⟨hc, c', k', t, hput, hput'⟩ := hb' c k hdel
    exact ⟨hc, c', k', t, List.mem_append_right _ hput, hput'⟩

/-- A batch without deletes. -/
theorem pairedFrom_of_puts (src : Cf) (hb : ∀ c k, .delete c k ∉ b) : PairedFrom h src b := fun c k hdel => absurd hdel (hb c k)

theorem IsMoves.pairedFrom (hms : IsMoves b ms)
    (hm : ∀ m ∈ ms, m.src = src ∧ m.dst ≠ src ∧ Bound h m.key m.task.id) : PairedFrom h src b := by
  intro c k hdel
  obtain ⟨m, hmem, rfl, rfl⟩ := hms.mem_delete.mp hdel
  obtain ⟨hsrc, hdst, hbound⟩ := hm m hmem
  exact ⟨hsrc, m.dst, m.newKey, m.task, hms.mem_put.mpr ⟨m, hmem, rfl, rfl, rfl⟩, hdst, hbound⟩

/-- Each key stands for one task. -/
def Functional (h : List Event) : Prop := ∀ k id id', Bound h k id → Bound h k id' → id = id'

/-- Records and puts are under keys of their own tasks. -/
def BoundPuts (h : List Event) (b : WriteBatch) : Prop := ∀ c k t, .put c k (.task t) ∈ b → Bound h k t.id

def BoundDb (h : List Event) (db : TenantDb) : Prop := ∀ c k t, db.get c k = some (.task t) → Bound h k t.id

theorem BoundPuts.mono (hb : BoundPuts h b) : BoundPuts (h ++ h') b := fun c k t hput => (hb c k t hput).mono

theorem BoundPuts.append (hb : BoundPuts h b) (hb' : BoundPuts h b') : BoundPuts h (b ++ b') := fun c k t hput =>
  (List.mem_append.mp hput).elim (hb c k t) (hb' c k t)

theorem BoundDb.mono (hdb : BoundDb h db) : BoundDb (h ++ h') db := fun c k t hget => (hdb c k t hget).mono

theorem BoundDb.write (hdb : BoundDb h db) (hb : BoundPuts h b) : BoundDb h (db.write b) := fun c k t hget => by
  rcases TenantDb.get_write hget with hput | ⟨hold, -⟩
  · exact hb c k t hput
  · exact hdb c k t hold

/-- What a batch puts in a family that it deletes nothing from is stored afterwards. -/
theorem stored_of_put (hf : Functional h) (hputs : TaskPuts b) (hb : BoundPuts h b) (hput : .put c k (.task t) ∈ b)
    (hdel : .delete c k ∉ b) : Stored (db.write b) t.id := by
  obtain ⟨v, hget, hv⟩ := TenantDb.get_write_of_put db hput hdel
  obtain ⟨t', rfl⟩ := hputs c k v hv
  exact ⟨c, k, t', hget, hf k t'.id t.id (hb c k t' hv) (hb c k t hput)⟩

/-- A record that a batch does not delete is stored afterwards, or another record of its task is. -/
theorem stored_of_kept (hf : Functional h) (hputs : TaskPuts b) (hb : BoundPuts h b) (hdb : BoundDb h db)
    (hget : db.get c k = some (.task t)) (hdel : .delete c k ∉ b) : Stored (db.write b) t.id := by
  obtain ⟨v, hget', rfl | hput⟩ := TenantDb.get_write_of_get hget hdel
  · exact ⟨c, k, t, hget', rfl⟩
  · obtain ⟨t', rfl⟩ := hputs c k v hput
    exact ⟨c, k, t', hget', hf k t'.id t.id (hb c k t' hput) (hdb c k t hget)⟩

/-- A paired batch loses no task. -/
theorem stored_write_paired (hf : Functional h) (hputs : TaskPuts b) (hb : BoundPuts h b) (hdb : BoundDb h db)
    (hpaired : PairedFrom h src b) (hid : Stored db id) : Stored (db.write b) id := by
  obtain ⟨c, k, t, hget, rfl⟩ := hid
  by_cases hdel : .delete c k ∈ b
  · obtain ⟨rfl, c', k', t', hput, hne, hbound⟩ := hpaired c k hdel
    have hkept : .delete c' k' ∉ b := fun hdel' => hne (hpaired c' k' hdel').1
    have hsame : t'.id = t.id := hf k t'.id t.id hbound (hdb c k t hget)
    exact hsame ▸ stored_of_put hf hputs hb hput hkept
  · exact stored_of_kept hf hputs hb hdb hget hdel

end Batches

/-! ## Callers that never evict -/

namespace Frame

/-- The call is not, and will not be, an eviction. -/
def KeepsAll : Frame → Prop
  | .enqueueLock r => r.policy.backlogPolicy ≠ .evictOldest
  | .quotaPending r _ _ => r.policy.backlogPolicy ≠ .evictOldest
  | .quotaInflight r _ _ _ => r.policy.backlogPolicy ≠ .evictOldest
  | .quotaDlq r _ _ _ _ => r.policy.backlogPolicy ≠ .evictOldest
  | .evictScan _ _ => False
  | .evictWrite _ _ => False
  | _ => True

variable {tenant : String} {s s' : Shared} {i : Nat} {io : StepInput} {f f' : Frame}

theorem beginMint_keepsAll {r : EnqueueRequest} {now : Nat} : (beginMint tenant r now).KeepsAll := by
  unfold beginMint
  split <;> trivial

theorem beginQuota_keepsAll {r : EnqueueRequest} {now : Nat} (h : r.policy.backlogPolicy ≠ .evictOldest) :
    (beginQuota tenant r now).KeepsAll := by
  unfold beginQuota
  split
  · exact beginMint_keepsAll
  · exact h

theorem checkQuota_keepsAll {r : EnqueueRequest} {quota current now : Nat} {deadline : Option Nat}
    (h : r.policy.backlogPolicy ≠ .evictOldest) : (checkQuota tenant r quota deadline current now).KeepsAll := by
  unfold checkQuota
  dsimp only
  split
  · split
    · exact beginMint_keepsAll
    · split
      · trivial
      · exact h
  · split
    · split
      · trivial
      · exact beginMint_keepsAll
    · exact h
    · rename_i hevict
      exact absurd hevict h

theorem writeOr_keepsAll {kind : WriteKind} {b : WriteBatch} {held : List Lock} {reply : Reply} :
    (writeOr kind b held reply).KeepsAll := by
  unfold writeOr
  split <;> trivial

theorem beginDequeue_keepsAll {queue : String} {limit timeout : Nat} :
    (beginDequeue tenant queue limit timeout).KeepsAll := by
  unfold beginDequeue
  split <;> trivial

theorem nextAck_keepsAll {held : List Lock} {todo seen counted : List Key} :
    (nextAck held todo seen counted).KeepsAll := by
  rcases nextAck_cases held todo seen counted with ⟨key, rest, -, heq⟩ | ⟨-, heq⟩ | heq <;> rw [heq] <;> trivial

theorem nextAckLock_keepsAll {keys : List Key} {held todo : List Lock} : (nextAckLock keys held todo).KeepsAll := by
  cases todo with
  | nil => exact nextAck_keepsAll
  | cons l todo => trivial

theorem nextReplay_keepsAll {b : WriteBatch} {count : Nat} {todo : List (Key × Value)} :
    (nextReplay b count todo).KeepsAll := by
  cases todo with
  | nil => exact writeOr_keepsAll
  | cons item todo =>
    obtain ⟨key, v⟩ := item
    cases v <;> trivial

theorem step_keepsAll (hf : f.KeepsAll) (h : Frame.step tenant s i f io = some (s', f')) : f'.KeepsAll := by
  cases stepped_of_step h with
  | enqueueLock => exact beginQuota_keepsAll hf
  | quotaPending => exact hf
  | quotaInflight => exact hf
  | quotaDlq => exact checkQuota_keepsAll hf
  | evictNothing => exact hf.elim
  | evictScan => exact hf.elim
  | evictWrite => exact hf.elim
  | mint =>
    unfold nextMint
    split <;> trivial
  | dequeueLock => exact beginDequeue_keepsAll
  | countInflight => exact beginDequeue_keepsAll
  | dequeueScan => exact writeOr_keepsAll
  | ackLock => exact nextAckLock_keepsAll
  | ackGet => exact nextAck_keepsAll
  | cumulativeScan => exact writeOr_keepsAll
  | reapScan => exact writeOr_keepsAll
  | purgeScan => exact writeOr_keepsAll
  | replayScan => exact nextReplay_keepsAll
  | replayDraw => exact nextReplay_keepsAll
  | _ => trivial

/-- The step draws a number from the counter. -/
def draws : Frame → Bool
  | .mint _ _ (_ :: _) _ _ => true
  | .nackDraw _ _ => true
  | .replayDraw _ _ _ _ _ => true
  | _ => false

end Frame

/-- The counter does not wrap at this step. -/
def unwrapped (c : Config Shared Frame) : Label Call StepInput → Bool
  | .run i _ => !(c.threads[i]?.any Frame.draws) || c.shared.seq + 1 < u64Size
  | .env => c.shared.seq + 1 < u64Size
  | .call _ => true

/-- The call that begins does not evict. -/
def keepsAll : Label Call StepInput → Bool
  | .call (.enqueueBatch _ _ policy) => policy.backlogPolicy ≠ .evictOldest
  | _ => true

/-- No caller evicts, and the counter does not wrap. -/
def lossless (c : Config Shared Frame) (l : Label Call StepInput) : Bool := unwrapped c l && keepsAll l

theorem keeps_outline {tenant : String} {ok : Config Shared Frame → Label Call StepInput → Prop}
    (hok : ∀ c l, ok c l → keepsAll l = true) :
    Outline (system tenant) ok (fun _ => True) (fun _ _ f => f.KeepsAll) fun _ _ => True where
  call {c k} _ hc := by
    have hkeeps := hok _ _ hc
    cases k with
    | enqueueBatch queue payloads policy =>
      have hpolicy : policy.backlogPolicy ≠ .evictOldest := of_decide_eq_true hkeeps
      exact hpolicy
    | ackBatch keys => exact Frame.nextAckLock_keepsAll
    | dequeueWithMaxInflight queue limit timeout maxInflight =>
      simp only [system, Frame.start]
      split <;> trivial
    | _ => trivial
  callApart _ := ⟨trivial, trivial⟩
  env _ _ := ⟨trivial, fun hf => hf⟩
  own h _ hf hs := ⟨trivial, Frame.step_keepsAll (h.frames hf) hs⟩
  others h _ _ _ _ hg := ⟨h.frames hg, trivial, trivial⟩

/-! ## Keys -/

/-- Which task each key was made for, and what became of the enqueued tasks. -/
structure Linked (s : Shared) : Prop where
  below : ∀ {i k id}, .minted i k id ∈ s.history → ∃ queue n, k = encodeKey queue n ∧ n < s.seq
  seq : s.seq < u64Size
  functional : Functional s.history
  db : BoundDb s.history s.db
  kept : ∀ {w c k t}, .wrote w ∈ s.history → w.kind = .enqueue → .put c k (.task t) ∈ w.batch →
    Stored s.db t.id ∨ Removed s.history t.id

namespace Frame

/-- The records read that have no new place yet. -/
def unplaced : Frame → List (Key × Value)
  | .nackDraw key task => [(key, .task task)]
  | .replayDraw key task todo _ _ => (key, .task task) :: todo
  | _ => []

/-- The batch of a frame deletes what the call may remove, or what it puts somewhere else. -/
def Conserves (h : List Event) : Frame → Prop
  | .write .enqueue b _ _ => ∀ c k, .delete c k ∉ b
  | .write kind b _ _ => (∃ c keys, kind.removes = some c ∧ b = deletes c keys) ∨ ∃ src, PairedFrom h src b
  | .replayDraw _ _ _ b _ => PairedFrom h .dlq b
  | .mint _ _ _ b _ => ∀ c k, .delete c k ∉ b
  | _ => True

structure Linked (s : Shared) (_ : Nat) (f : Frame) : Prop where
  puts : BoundPuts s.history f.batch
  unplaced : ∀ k t, (k, .task t) ∈ f.unplaced → Bound s.history k t.id
  conserves : f.Conserves s.history

variable {s s' : Shared} {i j : Nat} {f : Frame}

theorem conserves_write {h : List Event} {kind : WriteKind} {b : WriteBatch} {held : List Lock} {reply : Reply}
    (hkind : kind ≠ .enqueue) : (Frame.write kind b held reply).Conserves h ↔
      (∃ c keys, kind.removes = some c ∧ b = RocksQueue.deletes c keys) ∨ ∃ src, PairedFrom h src b := by
  cases kind <;> first | exact absurd rfl hkind | exact Iff.rfl

theorem Conserves.mono {h h' : List Event} (hf : f.Conserves h) : f.Conserves (h ++ h') := by
  cases f with
  | write kind b held reply =>
    by_cases hkind : kind = .enqueue
    · subst hkind
      exact hf
    · rw [conserves_write hkind] at hf ⊢
      exact hf.imp_right fun ⟨src, hf⟩ => ⟨src, hf.mono⟩
  | replayDraw key task todo b count => exact PairedFrom.mono hf
  | mint r now todo b ids => exact hf
  | _ => trivial

/-- A frame stays linked while the history grows. -/
theorem Linked.mono {es : List Event} (h : f.Linked s i) (hhist : s'.history = s.history ++ es) : f.Linked s' j where
  puts := hhist ▸ h.puts.mono
  unplaced k t hmem := hhist ▸ (h.unplaced k t hmem).mono
  conserves := hhist ▸ h.conserves.mono

theorem pairedFrom_nil {h : List Event} {src : Cf} : PairedFrom h src [] := fun _ _ hdel => by cases hdel

theorem boundPuts_nil {h : List Event} : BoundPuts h [] := fun _ _ _ hput => by cases hput

theorem Idle.linked (h : f.Idle) : f.Linked s i := by
  have hbatch : f.batch = [] := h.bare.2.2
  refine ⟨hbatch ▸ boundPuts_nil, fun k t hmem => ?_, ?_⟩
  · cases f with
    | nackDraw key task => exact h.elim
    | replayDraw key task todo b count => exact h.elim
    | _ => cases hmem
  · cases f with
    | write kind b held reply =>
      obtain rfl : b = [] := hbatch
      by_cases hkind : kind = .enqueue
      · subst hkind
        exact fun c k => List.not_mem_nil
      · exact (conserves_write hkind).mpr (Or.inr ⟨.pending, pairedFrom_nil⟩)
    | mint r now todo b ids =>
      obtain rfl : b = [] := hbatch
      exact fun c k => List.not_mem_nil
    | replayDraw key task todo b count => exact h.elim
    | _ => trivial

/-- The moves that keep their key are linked when the records are. -/
theorem linked_moves {kind : WriteKind} {b : WriteBatch} {ms : List Move} {held : List Lock} {reply : Reply} {now : Nat}
    (hall : AllTasks s.db) (hdb : BoundDb s.history s.db) (hkind : kind ≠ .enqueue) (hms : IsMoves b ms)
    (hmoved : ∀ m ∈ ms, Moved s.db now kind m ∧ m.newKey = m.key) : Linked s i (.write kind b held reply) := by
  have hbound : ∀ m ∈ ms, Bound s.history m.key m.task.id := fun m hm => by
    obtain ⟨t, hget, hid, -⟩ := (hmoved m hm).1.stored hall
    exact hid ▸ hdb _ _ _ hget
  refine ⟨fun c k t hput => ?_, fun k t hmem => (by cases hmem),
    (conserves_write hkind).mpr (Or.inr ⟨kind.source, hms.pairedFrom ?_⟩)⟩
  · obtain ⟨m, hm, -, rfl, heq⟩ := hms.mem_put.mp hput
    cases heq
    exact (hmoved m hm).2 ▸ hbound m hm
  · intro m hm
    have hsrc := (hmoved m hm).1.src_eq
    exact ⟨hsrc, fun hdst => (hmoved m hm).1.src_ne_dst (hsrc.trans hdst.symm), hbound m hm⟩

theorem linked_deletes {kind : WriteKind} {c : Cf} {keys : List Key} {held : List Lock} {reply : Reply}
    (hkind : kind.removes = some c) : Linked s i (.write kind (deletes c keys) held reply) :=
  ⟨fun _ _ _ hput => absurd hput put_not_mem_deletes, fun k t hmem => (by cases hmem),
    (conserves_write (by rintro rfl; cases hkind)).mpr (Or.inl ⟨c, keys, hkind, rfl⟩)⟩

theorem Planned.linked (hall : AllTasks s.db) (hdb : BoundDb s.history s.db) (h : Planned s.db f) : f.Linked s i := by
  cases h with
  | evict => exact ⟨fun _ _ _ hput => absurd hput put_not_mem_deletes, fun k t hmem => (by cases hmem), trivial⟩
  | ack => exact linked_deletes rfl
  | cumulativeAck => exact linked_deletes rfl
  | purge => exact linked_deletes rfl
  | deliver now hms hnodup hmoved hres => exact linked_moves hall hdb (by simp) hms hmoved
  | move now hkind hms hnodup hmoved =>
    exact linked_moves hall hdb (by rcases hkind with rfl | rfl <;> simp) hms hmoved
  | retry hget =>
    refine ⟨boundPuts_nil, fun k t hmem => ?_, trivial⟩
    cases List.mem_singleton.mp hmem
    exact hdb _ _ _ hget
  | replay hentries =>
    refine ⟨boundPuts_nil, fun k t hmem => ?_, pairedFrom_nil⟩
    exact hdb .dlq k t (OrderedMap.mem_entries.mp (hentries ▸ hmem))

end Frame

section Steps
variable {tenant : String} {s s' : Shared} {i : Nat} {k : Key} {id queue : String} {c : Config Shared Frame}

theorem bound_append_minted (hb : Bound (s.history ++ [.minted i k id]) k' id') :
    Bound s.history k' id' ∨ (k' = k ∧ id' = id) := by
  obtain ⟨j, hmem⟩ := hb
  rcases List.mem_append.mp hmem with hold | hnew
  · exact Or.inl ⟨j, hold⟩
  · cases List.mem_singleton.mp hnew
    exact Or.inr ⟨rfl, rfl⟩

/-- A number drawn before the counter wraps makes a new key. -/
theorem Linked.draw (h : Linked s) (hseq : s.seq + 1 < u64Size) (hdb : s'.db = s.db) (hnext : s'.seq = nextSeq s.seq)
    (hhist : s'.history = s.history ++ [.minted i (encodeKey queue s.seq) id]) : Linked s' := by
  have hnext' : s'.seq = s.seq + 1 := hnext.trans (Nat.mod_eq_of_lt hseq)
  -- Keys so far have lower numbers, so this one is bound to no task yet.
  have hnew : ∀ id', ¬Bound s.history (encodeKey queue s.seq) id' := by
    rintro id' ⟨j, hmem⟩
    obtain ⟨queue', n, heq, hlt⟩ := h.below hmem
    have hsame := (encodeKey_inj (by omega) (hlt.trans h.seq) heq).2
    omega
  refine ⟨fun {j k' id'} hmem => ?_, by omega, fun k' id₁ id₂ h₁ h₂ => ?_, ?_, fun {w c k' t} hmem hkind hput => ?_⟩
  · rw [hhist] at hmem
    rcases List.mem_append.mp hmem with hold | hnew'
    · obtain ⟨queue', n, heq, hlt⟩ := h.below hold
      exact ⟨queue', n, heq, by omega⟩
    · cases List.mem_singleton.mp hnew'
      exact ⟨queue, s.seq, rfl, by omega⟩
  · rw [hhist] at h₁ h₂
    rcases bound_append_minted h₁ with hold₁ | ⟨rfl, rfl⟩
    · rcases bound_append_minted h₂ with hold₂ | ⟨rfl, rfl⟩
      · exact h.functional k' id₁ id₂ hold₁ hold₂
      · exact absurd hold₁ (hnew _)
    · rcases bound_append_minted h₂ with hold₂ | ⟨-, rfl⟩
      · exact absurd hold₂ (hnew _)
      · rfl
  · rw [hhist, hdb]
    exact h.db.mono
  · rw [hhist] at hmem
    have hold : .wrote w ∈ s.history := by
      rcases List.mem_append.mp hmem with hold | hnew'
      · exact hold
      · cases List.mem_singleton.mp hnew'
    rw [hdb, hhist]
    exact (h.kept hold hkind hput).imp_right fun hr => hr.mono

/-- A step that only touches the locks. -/
theorem Linked.of_same (h : Linked s) (hdb : s'.db = s.db) (hseq : s'.seq = s.seq) (hhist : s'.history = s.history) :
    Linked s' where
  below hmem := hseq ▸ h.below (hhist ▸ hmem)
  seq := hseq ▸ h.seq
  functional := hhist ▸ h.functional
  db := hhist ▸ hdb ▸ h.db
  kept hmem hkind hput := by
    rw [hdb, hhist]
    exact h.kept (hhist ▸ hmem) hkind hput

/-- After a linked write, a task that was stored is stored, or the write removed it. -/
theorem stored_or_removed_write {kind : WriteKind} {b : WriteBatch} {held : List Lock} {reply : Reply}
    (h : Linked s) (hf : Frame.Linked s i (.write kind b held reply)) (hputs : TaskPuts b) (hid : Stored s.db id) :
    Stored (s.db.write b) id ∨ Removed [.wrote ⟨i, kind, b, s.db, some reply⟩] id := by
  by_cases hkind : kind = .enqueue
  · subst hkind
    exact Or.inl (stored_write_paired h.functional hputs hf.puts h.db (pairedFrom_of_puts .dlq hf.conserves) hid)
  · rcases (Frame.conserves_write hkind).mp hf.conserves with ⟨c, keys, hremoves, rfl⟩ | ⟨src, hpaired⟩
    · obtain ⟨c', k, t, hget, rfl⟩ := hid
      by_cases hdel : .delete c' k ∈ deletes c keys
      · obtain ⟨rfl, -⟩ := mem_deletes.mp hdel
        exact Or.inr ⟨_, _, _, t, List.mem_singleton_self _, hremoves, hdel, hget, rfl⟩
      · exact Or.inl (stored_of_kept h.functional hputs hf.puts h.db hget hdel)
    · exact Or.inl (stored_write_paired h.functional hputs hf.puts h.db hpaired hid)

theorem Linked.write {kind : WriteKind} {b : WriteBatch} {held : List Lock} {reply : Reply} (h : Linked s)
    (hf : Frame.Linked s i (.write kind b held reply)) (hputs : TaskPuts b) :
    Linked (s.write i kind b (some reply)) := by
  have hminted : ∀ {j k id}, .minted j k id ∈ (s.write i kind b (some reply)).history → .minted j k id ∈ s.history :=
    fun hmem => by
      rcases List.mem_append.mp hmem with hold | hnew
      · exact hold
      · cases List.mem_singleton.mp hnew
  have hbound : ∀ {k id}, Bound (s.write i kind b (some reply)).history k id → Bound s.history k id :=
    fun ⟨j, hmem⟩ => ⟨j, hminted hmem⟩
  refine ⟨fun hmem => h.below (hminted hmem), h.seq, fun k id id' h₁ h₂ => h.functional k id id' (hbound h₁) (hbound h₂),
    (h.db.write hf.puts).mono, fun {w c k t} hmem hkind hput => ?_⟩
  rcases List.mem_append.mp hmem with hold | hnew
  · rcases h.kept hold hkind hput with hst | hr
    · exact (stored_or_removed_write h hf hputs hst).imp_right fun ⟨w', c', k', t', hmem', hw'⟩ =>
        ⟨w', c', k', t', List.mem_append_right _ hmem', hw'⟩
    · exact Or.inr hr.mono
  · -- The batch of an enqueue deletes nothing, so what it puts is stored.
    cases List.mem_singleton.mp hnew
    obtain rfl : kind = .enqueue := hkind
    exact Or.inl (stored_of_put h.functional hputs hf.puts hput (hf.conserves c k))

/-! ### The frames that a draw leads to -/

theorem bound_minted {es : List Event} : Bound (es ++ [.minted i k id]) k id :=
  ⟨i, List.mem_append_right _ (List.mem_singleton_self _)⟩

theorem mint_linked {r : EnqueueRequest} {now : Nat} {payload : Bytes} {todo : List Bytes} {b : WriteBatch}
    {ids : List String} (hf : Frame.Linked s i (.mint r now (payload :: todo) b ids))
    (hhist : s'.history = s.history ++ [.minted i (encodeKey r.queue s.seq) id]) :
    (Frame.nextMint tenant r now todo (b ++ [enqueueOp r.queue now s.seq payload id]) (ids ++ [id])).Linked s' i := by
  have hputs : BoundPuts s'.history (b ++ [enqueueOp r.queue now s.seq payload id]) := by
    rw [hhist]
    refine hf.puts.mono.append fun c k t hput => ?_
    cases List.mem_singleton.mp hput
    exact bound_minted
  have hdel : ∀ c k, .delete c k ∉ b ++ [enqueueOp r.queue now s.seq payload id] := fun c k hmem => by
    rcases List.mem_append.mp hmem with hold | hnew
    · exact hf.conserves c k hold
    · cases List.mem_singleton.mp hnew
  refine ⟨?_, fun k t hmem => ?_, ?_⟩
  · rw [(Frame.nextMint_views _ _ _ _ _ _).2.2]
    exact hputs
  · unfold Frame.nextMint at hmem
    split at hmem <;> cases hmem
  · unfold Frame.nextMint
    split <;> exact hdel

theorem retry_linked {task : Task} (hf : Frame.Linked s i (.nackDraw k task))
    (hhist : s'.history = s.history ++ [.minted i (encodeKey task.queue s.seq) task.id]) :
    Frame.Linked s' i (.write .nack (retryBatch k task s.seq) [] .done) := by
  have hms := retryBatch_moves k task s.seq
  refine ⟨fun c k' t hput => ?_, fun k' t hmem => (by cases hmem), ?_⟩
  · obtain ⟨m, hm, -, rfl, heq⟩ := hms.mem_put.mp hput
    cases List.mem_singleton.mp hm
    cases heq
    exact hhist ▸ bound_minted
  · refine (Frame.conserves_write (by simp)).mpr (Or.inr ⟨.inflight, hms.pairedFrom fun m hm => ?_⟩)
    cases List.mem_singleton.mp hm
    exact ⟨rfl, by simp, hhist ▸ (hf.unplaced k task (List.mem_singleton_self _)).mono⟩

theorem replay_linked {task : Task} {todo : List (Key × Value)} {b : WriteBatch} {count : Nat}
    (hf : Frame.Linked s i (.replayDraw k task todo b count))
    (hhist : s'.history = s.history ++ [.minted i (encodeKey task.queue s.seq) task.id]) :
    (Frame.nextReplay (b ++ replayOps k task s.seq) (count + 1) todo).Linked s' i := by
  have hms := replayOps_moves k task s.seq
  have hputs : BoundPuts s'.history (b ++ replayOps k task s.seq) := by
    rw [hhist]
    refine hf.puts.mono.append fun c k' t hput => ?_
    obtain ⟨m, hm, -, rfl, heq⟩ := hms.mem_put.mp hput
    cases List.mem_singleton.mp hm
    cases heq
    exact bound_minted
  -- The replayed task stays paired with the dead letter that it was.
  have hpaired : PairedFrom s'.history .dlq (b ++ replayOps k task s.seq) := by
    rw [hhist]
    refine PairedFrom.append (PairedFrom.mono hf.conserves) (hms.pairedFrom fun m hm => ?_)
    cases List.mem_singleton.mp hm
    exact ⟨rfl, by simp [Move.ofReplay], (hf.unplaced k task List.mem_cons_self).mono⟩
  cases todo with
  | nil =>
    simp only [Frame.nextReplay]
    rcases Frame.writeOr_eq .replay (b ++ replayOps k task s.seq) [] (.count (count + 1)) with ⟨-, heq⟩ | ⟨-, heq⟩ <;>
      rw [heq]
    · exact ⟨Frame.boundPuts_nil, fun k' t hmem => (by cases hmem), trivial⟩
    · exact ⟨hputs, fun k' t hmem => (by cases hmem), (Frame.conserves_write (by simp)).mpr (Or.inr ⟨.dlq, hpaired⟩)⟩
  | cons item todo =>
    obtain ⟨key, v⟩ := item
    cases v with
    | corrupt raw => exact ⟨Frame.boundPuts_nil, fun k' t hmem => (by cases hmem), trivial⟩
    | task t =>
      refine ⟨hputs, fun k' t' hmem => ?_, hpaired⟩
      exact hhist ▸ (hf.unplaced k' t' (List.mem_cons_of_mem _ hmem)).mono

end Steps

/-- Throughout every run in which the counter does not wrap and nobody evicts, keys and tasks stay linked. -/
theorem linked_outline {tenant : String} : Outline (system tenant)
    (fun c l => (unwrapped c l = true ∧ Holds Known Frame.Known Frame.Apart c) ∧
      Holds (fun _ => True) (fun _ _ f => f.KeepsAll) (fun _ _ => True) c) Linked Frame.Linked fun _ _ => True where
  call _ _ := (Frame.start_idle _ _).linked
  callApart _ := ⟨trivial, trivial⟩
  env {c} h hok := by
    have hseq : c.shared.seq + 1 < u64Size := of_decide_eq_true hok.1.1
    have hnext : nextSeq c.shared.seq = c.shared.seq + 1 := Nat.mod_eq_of_lt hseq
    refine ⟨⟨fun hmem => ?_, ?_, h.shared.functional, h.shared.db, h.shared.kept⟩,
      fun hf => ⟨hf.puts, hf.unplaced, hf.conserves⟩⟩
    · obtain ⟨queue, n, heq, hlt⟩ := h.shared.below hmem
      exact ⟨queue, n, heq, by simp only [system, hnext]; omega⟩
    · simp only [system, hnext]
      exact hseq
  own {c i f a s f'} h hok hf hs := by
    have hlinked := h.frames hf
    have hknown := hok.1.2.frames hf
    have hseq : f.draws = true → c.shared.seq + 1 < u64Size := fun hdraws => by
      simpa [unwrapped, hf, hdraws] using hok.1.1
    cases Frame.step_effect hs with
    | quiet locks hidle => exact ⟨h.shared.of_same rfl rfl rfl, hidle.linked⟩
    | plan hplan => exact ⟨h.shared, hplan.linked hok.1.2.shared.tasks h.shared.db⟩
    | unlock =>
      exact ⟨h.shared.of_same rfl rfl rfl, Frame.boundPuts_nil, fun k t hmem => (by cases hmem), trivial⟩
    | mint hnew => exact ⟨h.shared.draw (hseq rfl) rfl rfl rfl, mint_linked hlinked rfl⟩
    | retry => exact ⟨h.shared.draw (hseq rfl) rfl rfl rfl, retry_linked hlinked rfl⟩
    | replay => exact ⟨h.shared.draw (hseq rfl) rfl rfl rfl, replay_linked hlinked rfl⟩
    | evict hidle => exact (hok.2.frames hf).elim
    | write =>
      exact ⟨h.shared.write hlinked hknown.puts, Frame.boundPuts_nil, fun k t hmem => (by cases hmem), trivial⟩
  others {c i f a s f' j g} h _ _ hs _ hg := by
    obtain ⟨es, hes⟩ := Frame.step_history hs
    exact ⟨(h.frames hg).mono hes, trivial, trivial⟩

theorem linked_start {now : Nat} : Linked (.start now) where
  below hmem := by cases hmem
  seq := Nat.mod_lt _ (by decide)
  functional := by
    rintro k id id' ⟨i, hmem⟩
    cases hmem
  db := fun c k t hget => by simp [Shared.start] at hget
  kept hmem := by cases hmem

/-- A task that an enqueue wrote is stored, or an acknowledgement or a purge deleted it. -/
theorem stored_or_removed {tenant : String} {now : Nat} {c : Config Shared Frame}
    (h : (system tenant).Run (fun c l => lossless c l = true) ⟨.start now, []⟩ c) {w : Write}
    {cf : Cf} {k : Key} {t : Task} (hw : .wrote w ∈ c.shared.history) (hkind : w.kind = .enqueue)
    (hput : .put cf k (.task t) ∈ w.batch) : Stored c.shared.db t.id ∨ Removed c.shared.history t.id := by
  have hboth := h.mono fun _ _ hok => Bool.and_eq_true_iff.mp hok
  have hknown := known_outline.strengthen hboth known_start
  have hkeeps := (keeps_outline fun _ _ hok => hok.1.2).strengthen hknown (.start trivial)
  have hall := linked_outline.run (hkeeps.mono fun _ _ hok => ⟨⟨hok.1.1.1, hok.1.2⟩, hok.2⟩) (.start linked_start)
  exact hall.shared.kept hw hkind hput

/-- Two nacks of one delivery, both of which read before either writes: the task is stored twice, not lost. -/
theorem stored_or_removed_nackTogether :
    ∃ c, (system "t").execWhile lossless ⟨.start 1, []⟩ nackTogether = some c ∧
      (Stored c.shared.db "a" ∨ Removed c.shared.history "a") := by
  refine ⟨((system "t").execWhile lossless ⟨.start 1, []⟩ nackTogether).get (by decide), (Option.some_get _).symm, ?_⟩
  let op : WriteOp := .put .pending (encodeKey "q" 1) (.task ⟨"a", "q", [1], 0, 0, 0⟩)
  exact stored_or_removed (w := ⟨0, .enqueue, [op], .empty, some (.enqueued ["a"])⟩)
    (Runs.run_of_execWhile (Option.some_get (by decide)).symm) (List.mem_cons_of_mem _ List.mem_cons_self) rfl
    (List.mem_singleton_self op)

/-! ## A wrapped counter -/

theorem not_wrote_mintedEvents {i : Nat} {queue : String} {seq : Nat} {ids : List String} {w : Write} :
    .wrote w ∉ mintedEvents i queue seq ids := by
  induction ids generalizing seq with
  | nil => exact List.not_mem_nil
  | cons id ids ih =>
    intro hmem
    rcases List.mem_cons.mp hmem with heq | hmem
    · cases heq
    · exact ih hmem

theorem wrote_afterEnqueue {tenant : String} {i now : Nat} {r : EnqueueRequest} {ids : List String} {s : Shared}
    {w : Write} (h : .wrote w ∈ (afterEnqueue tenant i now r ids s).history) :
    .wrote w ∈ s.history ∨ w.kind = .enqueue := by
  rcases List.mem_append.mp h with h | h
  · rcases List.mem_append.mp h with h | h
    · exact Or.inl h
    · exact absurd h not_wrote_mintedEvents
  · cases List.mem_singleton.mp h
    exact Or.inr rfl

/-- Distinct ids of two characters and more. -/
def fillerIds (n : Nat) : List String := (List.range n).map fun j => String.ofList (List.replicate (j + 2) 'x')

theorem length_fillerIds (n : Nat) : (fillerIds n).length = n := by
  simp [fillerIds]

theorem fillerIds_nodup (n : Nat) : (fillerIds n).Nodup := by
  refine List.nodup_range.map fun j j' heq => ?_
  have hlen := congrArg String.length heq
  simpa using hlen

theorem length_of_mem_fillerIds {n : Nat} {id : String} (h : id ∈ fillerIds n) : 2 ≤ id.length := by
  obtain ⟨j, -, rfl⟩ := List.mem_map.mp h
  simp

def unlimited : NamespacePolicy := { NamespacePolicy.standard "t" with backlogQuota := none }

/-- The enqueue of one task. -/
def enqueueOne (payload : Bytes) : EnqueueRequest := ⟨"q", [payload], unlimited⟩

/-- An enqueue of `n` tasks on another queue has made its tasks and not written them yet. -/
def fillerMade (n : Nat) (s : Shared) : Shared :=
  { lockedBy 1 (.queue (lockName "t" "r")) s with
    seq := advance s.seq (fillerIds n).length
    issued := (fillerIds n).reverse ++ s.issued
    history := s.history ++ mintedEvents 1 "r" s.seq (fillerIds n) }

/-- The value is a task with this id. -/
def Value.hasId (id : String) : Value → Bool
  | .task t => t.id = id
  | .corrupt _ => false

theorem lost_after_wrap {n : Nat} (hpos : n ≠ 0) (hwrap : advance 2 n = 1) :
    ∃ c w k t, (system "t").Run (fun _ l => keepsAll l = true) ⟨.start 1, []⟩ c ∧ .wrote w ∈ c.shared.history ∧
      w.kind = .enqueue ∧ .put .pending k (.task t) ∈ w.batch ∧ ¬Stored c.shared.db t.id ∧
      ¬Removed c.shared.history t.id := by
  -- "a" is stored under the first number, the filler uses up the rest, and "b" gets the first number again.
  let s₁ := afterEnqueue "t" 0 0 (enqueueOne [1]) ["a"] (.start 1)
  let s₂ := fillerMade n s₁
  let s₃ := afterEnqueue "t" 2 0 (enqueueOne [2]) ["b"] s₂
  let filler : EnqueueRequest := ⟨"r", List.replicate n [], unlimited⟩
  have hfiller : filler.payloads ≠ [] := by simpa [filler] using hpos
  have h₁ : (system "t").Solo 0 (.start 1) (.enqueueLock (enqueueOne [1])) s₁ (.returned (.enqueued ["a"])) :=
    enqueue_solo rfl rfl (by simp [enqueueOne]) rfl (by simp) (by simp [Shared.start]) (by decide)
  have h₂ : (system "t").Solo 1 s₁ (.enqueueLock filler) s₂ (.write .enqueue
      (enqueueLoop "r" 0 2 ((List.replicate n []).zip (fillerIds n))) [.queue (lockName "t" "r")]
      (.enqueued (fillerIds n))) := by
    have hfree : s₁.locks (.queue (lockName "t" "r")) = none := by decide
    have hlock : Frame.step "t" s₁ 1 (.enqueueLock filler) { now := 0 } =
        some (lockedBy 1 (.queue (lockName "t" "r")) s₁, .mint filler 0 (List.replicate n []) [] []) :=
      enqueueLock_step hfree rfl hfiller
    refine .step hlock (mint_solo ?_ hfiller (fillerIds_nodup n) ?_ ?_)
    · simp [length_fillerIds]
    · intro id hid hissued
      obtain rfl : id = "a" := List.mem_singleton.mp hissued
      exact absurd (length_of_mem_fillerIds hid) (by decide)
    · decide
  have h₃ : (system "t").Solo 2 s₂ (.enqueueLock (enqueueOne [2])) s₃ (.returned (.enqueued ["b"])) := by
    have hother : Lock.queue (lockName "t" "q") ≠ .queue (lockName "t" "r") := by decide
    have hfree : s₂.locks (.queue (lockName "t" "q")) = s₁.locks (.queue (lockName "t" "q")) := by
      simp only [s₂, fillerMade, lockedBy, hother, if_false]
    refine enqueue_solo (hfree.trans (by decide)) rfl (by simp [enqueueOne]) rfl (by simp) ?_ (Nat.mod_lt _ (by decide))
    intro id hid hissued
    obtain rfl := List.mem_singleton.mp hid
    rcases List.mem_append.mp hissued with hissued | hissued
    · exact absurd (length_of_mem_fillerIds (List.mem_reverse.mp hissued)) (by decide)
    · exact absurd (List.mem_singleton.mp hissued) (by decide)
  have hseq : s₂.seq = 1 := by
    have hadvance : s₂.seq = advance 2 (fillerIds n).length := rfl
    rw [hadvance, length_fillerIds, hwrap]
  have hdb : s₃.db = (s₁.db.write [enqueueOp "q" 0 1 [2] "b"]) := by
    have hwrite : s₃.db = s₁.db.write [enqueueOp "q" 0 s₂.seq [2] "b"] := rfl
    rw [hwrite, hseq]
  have hrun₁ : (system "t").Run (fun _ l => keepsAll l = true) ⟨.start 1, []⟩ ⟨s₁, [.returned (.enqueued ["a"])]⟩ :=
    System.Solo.call (k := Call.enqueueBatch "q" [[1]] unlimited) .refl rfl h₁ fun _ _ => rfl
  have hrun₂ := System.Solo.call (k := Call.enqueueBatch "r" (List.replicate n []) unlimited) hrun₁ rfl h₂ fun _ _ => rfl
  have hrun₃ := System.Solo.call (k := Call.enqueueBatch "q" [[2]] unlimited) hrun₂ rfl h₃ fun _ _ => rfl
  let w : Write := ⟨0, .enqueue, [enqueueOp "q" 0 1 [1] "a"], .empty, some (.enqueued ["a"])⟩
  have hw : .wrote w ∈ s₁.history := List.mem_cons_of_mem _ List.mem_cons_self
  refine ⟨_, w, encodeKey "q" 1, newTask "q" [1] "a" 0, hrun₃, ?_, rfl, List.mem_singleton_self _, ?_, ?_⟩
  · exact List.mem_append_left _ (List.mem_append_left _ (List.mem_append_left _ hw))
  · rintro ⟨c, k, t, hget, hid⟩
    have hall : (s₁.db.write [enqueueOp "q" 0 1 [2] "b"]).records.all (fun r => !r.2.2.hasId "a") = true := by decide
    have hrecord := List.all_eq_true.mp hall _ (TenantDb.mem_records.mpr (hdb ▸ hget))
    simp [Value.hasId, hid, newTask] at hrecord
  · rintro ⟨w', c, k, t, hmem, hremoves, -⟩
    have hkind : w'.kind = .enqueue := by
      rcases wrote_afterEnqueue hmem with hmem₂ | hkind
      · rcases List.mem_append.mp hmem₂ with hmem₁ | hminted
        · rcases wrote_afterEnqueue hmem₁ with hstart | hkind
          · cases hstart
          · exact hkind
        · exact absurd hminted not_wrote_mintedEvents
      · exact hkind
    rw [hkind] at hremoves
    cases hremoves

/-- With the counter about to wrap, an enqueue overwrites a stored task. -/
theorem not_stored_or_removed_wrap :
    ∃ c w k t, (system "t").Run (fun _ l => keepsAll l = true) ⟨.start 1, []⟩ c ∧ .wrote w ∈ c.shared.history ∧
      w.kind = .enqueue ∧ .put .pending k (.task t) ∈ w.batch ∧ ¬Stored c.shared.db t.id ∧
      ¬Removed c.shared.history t.id :=
  lost_after_wrap (n := u64Size - 1) (by decide) (by decide)

end RocksQueue
