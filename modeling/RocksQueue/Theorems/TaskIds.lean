import RocksQueue.Theorems.Steps

/-! # Task ids

Which task ids the records and the calls in progress hold. The ids of an enqueue that has not written
yet are held by no one else; what the other calls are about to write was stored when they read it.
A task id is stored at two places only after a call has moved a task that was no longer in the record
that it had read (`idUnique_of_inTime`). -/

namespace RocksQueue
open Interleaving

/-- Some record carries the id. -/
def Stored (db : TenantDb) (id : String) : Prop := ∃ c k t, db.get c k = some (.task t) ∧ t.id = id

/-- At most one record carries any one id. -/
structure IdUnique (db : TenantDb) : Prop where
  unique : ∀ {c k t c' k' t'}, db.get c k = some (.task t) → db.get c' k' = some (.task t') → t.id = t'.id →
    c = c' ∧ k = k'

/-- A batch puts only tasks. -/
def TaskPuts (b : WriteBatch) : Prop := ∀ (c : Cf) (k : Key) (v : Value), .put c k v ∈ b → ∃ t, v = .task t

section Views
variable {db : TenantDb} {b : WriteBatch} {ms : List Move} {m : Move} {c c' : Cf} {k k' : Key} {v : Value}
  {now : Nat} {kind : WriteKind} {id : String}

theorem allTasks_empty : AllTasks .empty := fun h => by simp at h

theorem stored_empty : ¬Stored .empty id := by
  rintro ⟨c, k, t, h, -⟩
  simp at h

/-- A batch stores no ids but those that it puts. -/
theorem stored_write (h : Stored (db.write b) id) : Stored db id ∨ id ∈ putIds b := by
  obtain ⟨c, k, t, hget, rfl⟩ := h
  rcases TenantDb.get_write hget with hput | ⟨hget, -⟩
  · exact Or.inr (mem_putIds hput)
  · exact Or.inl ⟨c, k, t, hget, rfl⟩

theorem allTasks_write (h : AllTasks db) (hput : TaskPuts b) : AllTasks (db.write b) := fun hget => by
  rcases TenantDb.get_write hget with hmem | ⟨hget, -⟩
  · exact hput _ _ _ hmem
  · exact h hget

theorem TaskPuts.append {b' : WriteBatch} (h : TaskPuts b) (h' : TaskPuts b') : TaskPuts (b ++ b') := fun c k v hput =>
  (List.mem_append.mp hput).elim (h c k v) (h' c k v)

theorem taskPuts_deletes {keys : List Key} : TaskPuts (deletes c keys) := fun _ _ _ hput =>
  absurd hput put_not_mem_deletes

theorem IsMoves.taskPuts (h : IsMoves b ms) : TaskPuts b := fun _ _ _ hput => by
  obtain ⟨m, -, -, -, rfl⟩ := h.mem_put.mp hput
  exact ⟨m.task, rfl⟩

/-- Among tasks, what moves is a record with the id of the task that is put. -/
theorem IsMoves.stored_of_mem (h : IsMoves b ms) (hall : AllTasks db) (hmoved : ∀ m ∈ ms, Moved db now kind m)
    (hid : id ∈ putIds b) : Stored db id := by
  obtain ⟨m, hm, rfl⟩ := List.mem_map.mp (h.putIds_perm.mem_iff.mp hid)
  obtain ⟨t, hget, hid, -⟩ := (hmoved m hm).stored hall
  exact ⟨_, _, t, hget, hid⟩

theorem mem_taskIds {items : List (Key × Value)} (h : id ∈ taskIds items) : ∃ k t, (k, .task t) ∈ items ∧ t.id = id := by
  obtain ⟨⟨k, v⟩, hmem, hv⟩ := List.mem_filterMap.mp h
  cases v with
  | task t => exact ⟨k, t, hmem, Option.some.inj hv⟩
  | corrupt raw => cases hv

namespace Frame
variable {f : Frame}

theorem write_views {held : List Lock} {reply : Reply} (h : kind ≠ .enqueue) :
    (Frame.write kind b held reply).fresh = [] ∧ (Frame.write kind b held reply).carried = putIds b := by
  cases kind <;> first | exact absurd rfl h | exact ⟨rfl, rfl⟩

/-- A frame that writes a batch holds the ids that it puts. -/
theorem mem_write_views {held : List Lock} {reply : Reply} (h : id ∈ putIds b) :
    id ∈ (Frame.write kind b held reply).fresh ∨ id ∈ (Frame.write kind b held reply).carried := by
  by_cases hkind : kind = .enqueue
  · subst hkind
    exact Or.inl h
  · exact Or.inr ((write_views hkind).2 ▸ h)

/-- The frame holds no task. -/
def Bare (f : Frame) : Prop := f.fresh = [] ∧ f.carried = [] ∧ f.batch = []

theorem Idle.bare (h : f.Idle) : f.Bare := by
  cases f with
  | mint r now todo batch ids =>
    obtain rfl : batch = [] := h
    exact ⟨rfl, rfl, rfl⟩
  | write kind batch held reply =>
    obtain ⟨rfl, -⟩ : batch = [] ∧ _ := h
    by_cases hkind : kind = .enqueue
    · subst hkind
      exact ⟨rfl, rfl, rfl⟩
    · exact ⟨(write_views hkind).1, (write_views hkind).2, rfl⟩
  | evictWrite r batch => exact h.elim
  | nackDraw key task => exact h.elim
  | replayDraw key task todo batch count => exact h.elim
  | _ => exact ⟨rfl, rfl, rfl⟩

theorem nextMint_views (tenant : String) (r : EnqueueRequest) (now : Nat) (todo : List Bytes) (b : WriteBatch)
    (ids : List String) :
    (nextMint tenant r now todo b ids).fresh = putIds b ∧ (nextMint tenant r now todo b ids).carried = [] ∧
      (nextMint tenant r now todo b ids).batch = b := by
  unfold nextMint
  split <;> exact ⟨rfl, rfl, rfl⟩

theorem nextReplay_views (b : WriteBatch) (count : Nat) (todo : List (Key × Value)) :
    (nextReplay b count todo).Bare ∨ ((nextReplay b count todo).fresh = [] ∧
      (nextReplay b count todo).carried = putIds b ++ taskIds todo ∧ (nextReplay b count todo).batch = b) := by
  cases todo with
  | nil =>
    simp only [nextReplay]
    rcases writeOr_eq .replay b [] (.count count) with ⟨-, heq⟩ | ⟨-, heq⟩ <;> rw [heq]
    · exact Or.inl ⟨rfl, rfl, rfl⟩
    · exact Or.inr ⟨rfl, (List.append_nil _).symm, rfl⟩
  | cons item todo =>
    obtain ⟨key, v⟩ := item
    cases v with
    | corrupt raw => exact Or.inl ⟨rfl, rfl, rfl⟩
    | task task => exact Or.inr ⟨rfl, rfl, rfl⟩

/-- What a frame is about to write was stored in `db`. -/
structure Reads (db : TenantDb) (f : Frame) : Prop where
  fresh : f.fresh = []
  carried : ∀ {id : String}, id ∈ f.carried → Stored db id
  puts : TaskPuts f.batch
  held : ∀ {id}, id ∈ putIds f.batch → id ∈ f.carried

theorem reads_deletes {keys : List Key} {held : List Lock} {reply : Reply} (h : kind ≠ .enqueue) :
    Reads db (.write kind (deletes c keys) held reply) where
  fresh := (write_views h).1
  carried hid := by
    rw [(write_views h).2, putIds_deletes] at hid
    cases hid
  puts := taskPuts_deletes
  held hid := (write_views h).2 ▸ hid

theorem reads_moves {held : List Lock} {reply : Reply} (h : kind ≠ .enqueue) (hall : AllTasks db)
    (hms : IsMoves b ms) (hmoved : ∀ m ∈ ms, Moved db now kind m) : Reads db (.write kind b held reply) where
  fresh := (write_views h).1
  carried hid := by
    rw [(write_views h).2] at hid
    exact hms.stored_of_mem hall hmoved hid
  puts := hms.taskPuts
  held hid := (write_views h).2 ▸ hid

theorem Planned.reads (hall : AllTasks db) (h : Planned db f) : Reads db f := by
  cases h with
  | evict =>
    refine ⟨rfl, fun hid => ?_, taskPuts_deletes, fun hid => ?_⟩
    · cases hid
    · rw [Frame.batch, putIds_deletes] at hid
      exact hid
  | ack => exact reads_deletes (by simp)
  | cumulativeAck => exact reads_deletes (by simp)
  | purge => exact reads_deletes (by simp)
  | deliver now hms hnodup hmoved hres => exact reads_moves (by simp) hall hms fun m hm => (hmoved m hm).1
  | move now hkind hms hnodup hmoved =>
    exact reads_moves (by rcases hkind with rfl | rfl <;> simp) hall hms fun m hm => (hmoved m hm).1
  | retry hget =>
    refine ⟨rfl, fun hid => ?_, fun _ _ _ hput => ?_, fun hid => ?_⟩
    · exact ⟨_, _, _, hget, (List.mem_singleton.mp hid).symm⟩
    · cases hput
    · cases hid
  | replay hentries =>
    refine ⟨rfl, fun {id} hid => ?_, fun _ _ _ hput => ?_, fun hid => ?_⟩
    · have hid' : id ∈ taskIds db.dlq.entries := by
        rw [hentries]
        exact hid
      obtain ⟨k, t, hmem, rfl⟩ := mem_taskIds hid'
      exact ⟨.dlq, k, t, OrderedMap.mem_entries.mp hmem, rfl⟩
    · cases hput
    · cases hid

end Frame
end Views

/-! ## Whose ids are whose -/

structure Known (s : Shared) : Prop where
  tasks : AllTasks s.db
  issued : ∀ {id}, Stored s.db id → id ∈ s.issued

/-- The ids of a call in progress: they are issued, and those of an enqueue are not stored yet. -/
structure Frame.Known (s : Shared) (_ : Nat) (f : Frame) : Prop where
  puts : TaskPuts f.batch
  held : ∀ {id}, id ∈ putIds f.batch → id ∈ f.fresh ∨ id ∈ f.carried
  issued : ∀ {id}, id ∈ f.fresh ∨ id ∈ f.carried → id ∈ s.issued
  unstored : ∀ {id}, id ∈ f.fresh → ¬Stored s.db id
  nodup : f.fresh.Nodup

/-- No other call holds the ids of an enqueue. -/
def Frame.Apart (f g : Frame) : Prop := ∀ {id}, id ∈ f.fresh → id ∉ g.fresh ∧ id ∉ g.carried

/-- What a step does to the ids, for the thread that takes it and for the others. -/
structure IdStep (s : Shared) (f : Frame) (s' : Shared) (f' : Frame) : Prop where
  known : Known s'
  frame : ∀ i, f'.Known s' i
  issued : ∀ {id}, id ∈ s.issued → id ∈ s'.issued
  stored : ∀ {id}, Stored s'.db id → Stored s.db id ∨ id ∈ f.fresh ∨ id ∈ f.carried
  fresh : ∀ {id}, id ∈ f'.fresh → id ∈ f.fresh ∨ id ∉ s.issued
  carried : ∀ {id}, id ∈ f'.carried → id ∈ f.carried ∨ Stored s.db id

section Steps
variable {tenant : String} {s s' : Shared} {i j : Nat} {io : StepInput} {f f' : Frame}

theorem Frame.Bare.known (h : f.Bare) : f.Known s i := by
  obtain ⟨hfresh, hcarried, hbatch⟩ := h
  refine ⟨fun _ _ _ hput => ?_, fun hid => ?_, fun hid => ?_, fun hid => ?_, ?_⟩
  · rw [hbatch] at hput
    cases hput
  · rw [hbatch] at hid
    cases hid
  · rw [hfresh, hcarried] at hid
    rcases hid with hid | hid <;> cases hid
  · rw [hfresh] at hid
    cases hid
  · rw [hfresh]
    exact .nil

/-- A frame that holds no new ids. -/
theorem Frame.known_of_carried (hputs : TaskPuts f.batch) (hheld : ∀ {id}, id ∈ putIds f.batch → id ∈ f.carried)
    (hfresh : f.fresh = []) (hissued : ∀ {id}, id ∈ f.carried → id ∈ s.issued) : f.Known s i := by
  refine ⟨hputs, fun hid => Or.inr (hheld hid), fun hid => ?_, fun hid => ?_, ?_⟩
  · rw [hfresh] at hid
    rcases hid with hid | hid
    · cases hid
    · exact hissued hid
  · rw [hfresh] at hid
    cases hid
  · rw [hfresh]
    exact .nil

/-- A step that leaves the records alone. -/
theorem IdStep.of_same (hk : Known s) (hdb : s'.db = s.db) (hissued : ∀ {id}, id ∈ s.issued → id ∈ s'.issued)
    (hframe : ∀ i, f'.Known s' i) (hfresh : ∀ {id}, id ∈ f'.fresh → id ∈ f.fresh ∨ id ∉ s.issued)
    (hcarried : ∀ {id}, id ∈ f'.carried → id ∈ f.carried ∨ Stored s.db id) : IdStep s f s' f' where
  known := ⟨hdb ▸ hk.tasks, fun hst => hissued (hk.issued (hdb ▸ hst))⟩
  frame := hframe
  issued := hissued
  stored hst := Or.inl (hdb ▸ hst)
  fresh := hfresh
  carried := hcarried

theorem IdStep.of_bare (hk : Known s) (hdb : s'.db = s.db) (hissued : s'.issued = s.issued) (h : f'.Bare) :
    IdStep s f s' f' := by
  refine .of_same hk hdb (fun hid => hissued ▸ hid) (fun _ => h.known) (fun hid => ?_) fun hid => ?_
  · rw [h.1] at hid
    cases hid
  · rw [h.2.1] at hid
    cases hid

/-- A write of a batch whose ids the frame held. -/
theorem IdStep.of_write (hk : Known s) (hf : f.Known s i) (hdb : s'.db = s.db.write f.batch)
    (hissued : s'.issued = s.issued) (h : f'.Bare) : IdStep s f s' f' := by
  have hstored : ∀ {id}, Stored s'.db id → Stored s.db id ∨ id ∈ f.fresh ∨ id ∈ f.carried := fun hst => by
    rw [hdb] at hst
    exact (stored_write hst).imp_right hf.held
  have htasks : AllTasks s'.db := by
    rw [hdb]
    exact allTasks_write hk.tasks hf.puts
  refine ⟨⟨htasks, fun hst => ?_⟩, fun _ => h.known, fun hid => hissued ▸ hid, hstored, fun hid => ?_, fun hid => ?_⟩
  · rw [hissued]
    rcases hstored hst with hst | hid
    · exact hk.issued hst
    · exact hf.issued hid
  · rw [h.1] at hid
    cases hid
  · rw [h.2.1] at hid
    cases hid

/-- One more task is made and put into the batch. -/
theorem mint_known {r : EnqueueRequest} {now : Nat} {payload : Bytes} {todo : List Bytes} {batch : WriteBatch}
    {ids : List String} (hk : Known s) (hf : (Frame.mint r now (payload :: todo) batch ids).Known s i)
    (hnew : io.id ∉ s.issued) (hdb : s'.db = s.db) (hissued : s'.issued = io.id :: s.issued) :
    (Frame.nextMint tenant r now todo (batch ++ [enqueueOp r.queue now s.seq payload io.id]) (ids ++ [io.id])).Known
      s' j := by
  obtain ⟨hfresh, hcarried, hbatch⟩ := Frame.nextMint_views tenant r now todo
      (batch ++ [enqueueOp r.queue now s.seq payload io.id]) (ids ++ [io.id])
  have hids : putIds (batch ++ [enqueueOp r.queue now s.seq payload io.id]) = putIds batch ++ [io.id] :=
    putIds_append
  have hnewPut : TaskPuts [enqueueOp r.queue now s.seq payload io.id] := fun _ _ _ hput => by
    cases List.mem_singleton.mp hput
    exact ⟨_, rfl⟩
  refine ⟨?_, fun hid => ?_, fun hid => ?_, fun hid => ?_, ?_⟩
  · rw [hbatch]
    exact hf.puts.append hnewPut
  · rw [hbatch] at hid
    exact Or.inl (hfresh ▸ hid)
  · rw [hfresh, hcarried, hids, List.mem_append, List.mem_singleton] at hid
    rw [hissued]
    rcases hid with (hid | rfl) | hid
    · exact List.mem_cons_of_mem _ (hf.issued (Or.inl hid))
    · exact List.mem_cons_self
    · cases hid
  · rw [hfresh, hids, List.mem_append, List.mem_singleton] at hid
    rw [hdb]
    rcases hid with hid | rfl
    · exact hf.unstored hid
    · exact fun hst => hnew (hk.issued hst)
  · rw [hfresh, hids]
    refine List.nodup_append.mpr ⟨hf.nodup, List.pairwise_singleton _ _, fun a ha a' ha' heq => ?_⟩
    obtain rfl := List.mem_singleton.mp ha'
    exact hnew (hf.issued (Or.inl (heq ▸ ha)))

theorem step_ids (hk : Known s) (hf : f.Known s i) (h : Frame.step tenant s i f io = some (s', f')) :
    IdStep s f s' f' := by
  cases Frame.step_effect h with
  | quiet locks hidle => exact .of_bare hk rfl rfl hidle.bare
  | plan hplan =>
    have hreads := hplan.reads hk.tasks
    refine .of_same hk rfl (fun hid => hid) (fun _ => ?_) (fun hid => ?_) fun hid => Or.inr (hreads.carried hid)
    · exact Frame.known_of_carried hreads.puts hreads.held hreads.fresh fun hid => hk.issued (hreads.carried hid)
    · rw [hreads.fresh] at hid
      cases hid
  | unlock => exact .of_bare hk rfl rfl ⟨rfl, rfl, rfl⟩
  | @mint r now payload todo batch ids hnew =>
    obtain ⟨hfresh, hcarried, -⟩ := Frame.nextMint_views tenant r now todo
      (batch ++ [enqueueOp r.queue now s.seq payload io.id]) (ids ++ [io.id])
    -- The id that is made is new, and is taken from now on.
    refine .of_same hk rfl (fun hid => List.mem_cons_of_mem _ hid) (fun _ => mint_known hk hf hnew rfl rfl)
      (fun hid => ?_) fun hid => ?_
    · rw [hfresh, putIds_append, List.mem_append] at hid
      rcases hid with hid | hid
      · exact Or.inl hid
      · obtain rfl := List.mem_singleton.mp hid
        exact Or.inr hnew
    · rw [hcarried] at hid
      cases hid
  | @retry key task =>
    refine .of_same hk rfl (fun hid => hid) (fun _ => ?_) (fun hid => ?_) fun hid => Or.inl hid
    · exact Frame.known_of_carried (retryBatch_moves key task s.seq).taskPuts (fun hid => hid) rfl fun hid =>
        hf.issued (Or.inr hid)
    · cases hid
  | @replay key task todo batch count =>
    rcases Frame.nextReplay_views (batch ++ replayOps key task s.seq) (count + 1) todo with
      hbare | ⟨hfresh, hcarried, hbatch⟩
    · exact .of_bare hk rfl rfl hbare
    -- The dead letter goes from what is still to be read into the batch.
    · have hsame : putIds (batch ++ replayOps key task s.seq) ++ taskIds todo =
          (Frame.replayDraw key task todo batch count).carried := by
        rw [putIds_append, List.append_assoc]
        rfl
      refine .of_same hk rfl (fun hid => hid) (fun _ => ?_) (fun hid => ?_) fun hid => Or.inl (hsame ▸ hcarried ▸ hid)
      · refine Frame.known_of_carried ?_ (fun hid => ?_) hfresh fun hid => hf.issued (Or.inr (hsame ▸ hcarried ▸ hid))
        · rw [hbatch]
          exact hf.puts.append (replayOps_moves key task s.seq).taskPuts
        · rw [hcarried]
          exact List.mem_append_left _ (hbatch ▸ hid)
      · rw [hfresh] at hid
        cases hid
  | evict hidle => exact .of_write hk hf rfl rfl hidle.bare
  | write => exact .of_write hk hf rfl rfl ⟨rfl, rfl, rfl⟩

/-- Another thread's ids are undisturbed by a step. -/
theorem IdStep.others {g : Frame} (h : IdStep s f s' f') (hg : g.Known s j) (hfg : f.Apart g) (hgf : g.Apart f) :
    g.Known s' j ∧ f'.Apart g ∧ g.Apart f' := by
  refine ⟨⟨hg.puts, hg.held, fun hid => h.issued (hg.issued hid), fun hid hst => ?_, hg.nodup⟩, fun hid => ?_,
    fun hid => ⟨fun hid' => ?_, fun hid' => ?_⟩⟩
  · rcases h.stored hst with hst | hid' | hid'
    · exact hg.unstored hid hst
    · exact (hgf hid).1 hid'
    · exact (hgf hid).2 hid'
  · rcases h.fresh hid with hid | hnew
    · exact hfg hid
    · exact ⟨fun hid' => hnew (hg.issued (Or.inl hid')), fun hid' => hnew (hg.issued (Or.inr hid'))⟩
  · rcases h.fresh hid' with hid' | hnew
    · exact (hgf hid).1 hid'
    · exact hnew (hg.issued (Or.inl hid))
  · rcases h.carried hid' with hid' | hst
    · exact (hgf hid).2 hid'
    · exact hg.unstored hid hst

end Steps

/-- In every interleaving, the ids are as `Known`, `Frame.Known` and `Frame.Apart` say. -/
theorem known_outline {tenant : String} {ok : Config Shared Frame → Label Call StepInput → Prop} :
    Outline (system tenant) ok Known Frame.Known Frame.Apart where
  call _ _ := (Frame.start_idle _ _).bare.known
  callApart {c k f} _ := by
    obtain ⟨hfresh, hcarried, -⟩ := (Frame.start_idle tenant k).bare
    refine ⟨fun _ => ?_, fun hid => ?_⟩
    · simp only [system, hfresh, hcarried]
      exact ⟨List.not_mem_nil, List.not_mem_nil⟩
    · simp only [system, hfresh] at hid
      cases hid
  env h _ := ⟨⟨h.shared.tasks, h.shared.issued⟩, fun hf => ⟨hf.puts, hf.held, hf.issued, hf.unstored, hf.nodup⟩⟩
  own h _ hf hs := by
    have hstep := step_ids h.shared (h.frames hf) hs
    exact ⟨hstep.known, hstep.frame _⟩
  others h _ hf hs hij hg :=
    (step_ids h.shared (h.frames hf) hs).others (h.frames hg) (h.apart hij hf hg) (h.apart hij.symm hg hf)

theorem known_start {now : Nat} : Holds Known Frame.Known Frame.Apart ⟨Shared.start now, []⟩ :=
  .start ⟨allTasks_empty, fun hst => absurd hst stored_empty⟩

/-! ## One record per task -/

/-- Each task that the batch puts is still in a record that the batch deletes: since the call read the record, no other
    call has moved the task away, taken it off or put another in its place. -/
def stillAsRead (db : TenantDb) (b : WriteBatch) : Bool :=
  b.all fun
    | .put _ _ (.task t) => b.any fun
      | .delete c k =>
        match db.get c k with
        | some (.task read) => read.id = t.id
        | _ => false
      | .put _ _ _ => false
    | _ => true

/-- If the step is the write of a call that moves records, these are still as the call read them. -/
def inTime (c : Config Shared Frame) : Label Call StepInput → Bool
  | .run i _ =>
    match c.threads[i]? with
    | some (.write kind b _ _) => kind = .enqueue || stillAsRead c.shared.db b
    | _ => true
  | _ => true

section OneRecord
variable {db : TenantDb} {b : WriteBatch} {ms : List Move} {c c' : Cf} {k k' : Key} {t t' : Task} {now : Nat}
  {kind : WriteKind}

theorem read_of_stillAsRead (h : stillAsRead db b = true) (hput : .put c k (.task t) ∈ b) :
    ∃ c' k' read, .delete c' k' ∈ b ∧ db.get c' k' = some (.task read) ∧ read.id = t.id := by
  obtain ⟨op, hop, hfound⟩ := List.any_eq_true.mp (List.all_eq_true.mp h _ hput)
  cases op with
  | put _ _ _ => cases hfound
  | delete c' k' =>
    dsimp only at hfound
    split at hfound
    · rename_i read hread
      exact ⟨c', k', read, hop, hread, of_decide_eq_true hfound⟩
    · cases hfound

/-- A task that is still where it was read is nowhere else, so the batch that moves it leaves none behind. -/
theorem deleted_of_stillAsRead (hunique : IdUnique db) (h : stillAsRead db b = true) (hput : .put c k (.task t) ∈ b)
    (hget : db.get c' k' = some (.task t')) (hid : t'.id = t.id) : .delete c' k' ∈ b := by
  obtain ⟨c₀, k₀, read, hdel, hread, hsame⟩ := read_of_stillAsRead h hput
  obtain ⟨rfl, rfl⟩ := hunique.unique hget hread (hid.trans hsame.symm)
  exact hdel

theorem put_unique (h : (putIds b).Nodup) (hput : .put c k (.task t) ∈ b) (hput' : .put c' k' (.task t') ∈ b)
    (hid : t.id = t'.id) : c = c' ∧ k = k' := by
  induction b with
  | nil => cases hput
  | cons op b ih =>
    rcases List.mem_cons.mp hput with rfl | hmem
    · rcases List.mem_cons.mp hput' with heq | hmem'
      · cases heq
        exact ⟨rfl, rfl⟩
      · rw [putIds_put_task, List.nodup_cons] at h
        exact absurd (hid ▸ mem_putIds hmem') h.1
    · rcases List.mem_cons.mp hput' with rfl | hmem'
      · rw [putIds_put_task, List.nodup_cons] at h
        exact absurd (hid ▸ mem_putIds hmem) h.1
      · refine ih (h.sublist ?_) hmem hmem'
        exact (List.sublist_cons_self op b).filterMap _

/-- A batch keeps the ids unique when each task it puts is stored nowhere else afterwards. -/
theorem idUnique_write (h : IdUnique db) (hnodup : (putIds b).Nodup)
    (hmoved : ∀ {c k t c' k' t'}, .put c k (.task t) ∈ b → db.get c' k' = some (.task t') → t'.id = t.id →
      (c' = c ∧ k' = k) ∨ .delete c' k' ∈ b) : IdUnique (db.write b) := by
  refine ⟨fun {c k t c' k' t'} hget hget' hid => ?_⟩
  rcases TenantDb.get_write hget with hput | ⟨hold, hkept⟩
  · rcases TenantDb.get_write hget' with hput' | ⟨hold', hkept'⟩
    · exact put_unique hnodup hput hput' hid
    · rcases hmoved hput hold' hid.symm with ⟨rfl, rfl⟩ | hdel
      · exact ⟨rfl, rfl⟩
      · exact absurd hdel hkept'
  · rcases TenantDb.get_write hget' with hput' | ⟨hold', hkept'⟩
    · rcases hmoved hput' hold hid with hplace | hdel
      · exact hplace
      · exact absurd hdel hkept
    · exact h.unique hold hold' hid

/-- Records with different keys hold different tasks. -/
theorem moves_ids_nodup (hall : AllTasks db) (h : IdUnique db) (hnodup : (ms.map Move.key).Nodup)
    (hmoved : ∀ m ∈ ms, Moved db now kind m) : (ms.map fun m => m.task.id).Nodup := by
  rw [List.Nodup, List.pairwise_map] at hnodup ⊢
  refine hnodup.imp_of_mem fun {m m'} hm hm' hne heq => hne ?_
  obtain ⟨t, hget, hid, -⟩ := (hmoved m hm).stored hall
  obtain ⟨t', hget', hid', -⟩ := (hmoved m' hm').stored hall
  exact (h.unique hget hget' (by rw [hid, hid', heq])).2

theorem taskIds_nodup (h : IdUnique db) : (taskIds (db.cf c).entries).Nodup := by
  rw [taskIds, List.Nodup, List.pairwise_filterMap]
  refine (db.cf c).sorted.imp_of_mem fun {e e'} he he' hlt id hid id' hid' heq => ?_
  obtain ⟨k, v⟩ := e
  obtain ⟨k', v'⟩ := e'
  cases v with
  | corrupt raw => cases hid
  | task t =>
    cases v' with
    | corrupt raw => cases hid'
    | task t' =>
      have hsame : t.id = t'.id := by rw [Option.some.inj hid, Option.some.inj hid', heq]
      exact hlt.ne (h.unique (OrderedMap.mem_entries.mp he) (OrderedMap.mem_entries.mp he') hsame).2

theorem Frame.Planned.nodup {f : Frame} (hall : AllTasks db) (h : IdUnique db) (hplan : Planned db f) :
    f.carried.Nodup := by
  have hdeletes : ∀ {kind : WriteKind} {c : Cf} {keys : List Key} {held : List Lock} {reply : Reply}, kind ≠ .enqueue →
      (Frame.write kind (deletes c keys) held reply).carried.Nodup := fun hkind => by
    rw [(write_views hkind).2, putIds_deletes]
    exact .nil
  cases hplan with
  | evict => exact .nil
  | ack => exact hdeletes (by simp)
  | cumulativeAck => exact hdeletes (by simp)
  | purge => exact hdeletes (by simp)
  | deliver now hms hnodup hmoved hres =>
    exact hms.putIds_perm.nodup_iff.mpr (moves_ids_nodup hall h hnodup fun m hm => (hmoved m hm).1)
  | move now hkind hms hnodup hmoved =>
    rw [(write_views (by rcases hkind with rfl | rfl <;> simp)).2]
    exact hms.putIds_perm.nodup_iff.mpr (moves_ids_nodup hall h hnodup fun m hm => (hmoved m hm).1)
  | retry hget => exact List.pairwise_singleton _ _
  | replay hentries =>
    have hids := taskIds_nodup (c := .dlq) h
    rwa [TenantDb.cf, hentries] at hids

/-- Throughout every run in which the moving calls write in time, the ids that a call carries are distinct and no
    two records share one. -/
theorem unique_outline {tenant : String} : Outline (system tenant)
    (fun c l => inTime c l = true ∧ Holds Known Frame.Known Frame.Apart c) (fun s => IdUnique s.db)
    (fun _ _ f => f.carried.Nodup) fun _ _ => True where
  call _ _ := (Frame.start_idle _ _).bare.2.1 ▸ .nil
  callApart _ := ⟨trivial, trivial⟩
  env h _ := ⟨h.shared, fun hf => hf⟩
  own {c i f a s f'} h hok hf hs := by
    have hknown := hok.2.frames hf
    cases Frame.step_effect hs with
    | quiet locks hidle => exact ⟨h.shared, hidle.bare.2.1 ▸ .nil⟩
    | plan hplan => exact ⟨h.shared, hplan.nodup hok.2.shared.tasks h.shared⟩
    | unlock => exact ⟨h.shared, .nil⟩
    | mint hnew =>
      refine ⟨h.shared, ?_⟩
      rw [(Frame.nextMint_views _ _ _ _ _ _).2.1]
      exact .nil
    | retry => exact ⟨h.shared, List.pairwise_singleton _ _⟩
    | @replay key task todo batch count =>
      refine ⟨h.shared, ?_⟩
      rcases Frame.nextReplay_views (batch ++ replayOps key task c.shared.seq) (count + 1) todo
        with hbare | ⟨-, hcarried, -⟩
      · rw [hbare.2.1]
        exact .nil
      · rw [hcarried, putIds_append, List.append_assoc]
        exact h.frames hf
    | @evict r b _ hidle =>
      refine ⟨?_, hidle.bare.2.1 ▸ .nil⟩
      -- An eviction only deletes.
      have hnone : ∀ id, id ∉ putIds b := fun id hid => (hknown.held hid).elim (by rintro ⟨⟩) (by rintro ⟨⟩)
      refine idUnique_write h.shared ?_ fun hput => absurd (mem_putIds hput) (hnone _)
      rw [List.eq_nil_iff_forall_not_mem.mpr hnone]
      exact .nil
    | @write kind b held reply =>
      refine ⟨?_, .nil⟩
      have hok' := hok.1
      simp only [inTime, hf, Bool.or_eq_true, decide_eq_true_eq] at hok'
      by_cases hkind : kind = .enqueue
      · subst hkind
        -- The ids of an enqueue are stored nowhere yet.
        refine idUnique_write h.shared hknown.nodup fun hput hget hid => ?_
        exact absurd ⟨_, _, _, hget, hid⟩ (hknown.unstored (mem_putIds hput))
      -- A move in time: the record of the id that is stored is the one that the batch deletes.
      · have hnodup := h.frames hf
        rw [(Frame.write_views hkind).2] at hnodup
        exact idUnique_write h.shared hnodup fun hput hget hid =>
          Or.inr (deleted_of_stillAsRead h.shared (hok'.resolve_left hkind) hput hget hid)
  others h _ _ _ _ hg := ⟨h.frames hg, trivial, trivial⟩

end OneRecord

theorem idUnique_empty : IdUnique .empty := ⟨fun h => by simp at h⟩

/-- No run in which every call writes in time stores a task twice. -/
theorem idUnique_of_inTime {tenant : String} {now : Nat} {c : Config Shared Frame}
    (h : (system tenant).Run (fun c l => inTime c l = true) ⟨.start now, []⟩ c) : IdUnique c.shared.db :=
  (unique_outline.run (known_outline.strengthen h known_start) (.start idUnique_empty)).shared

/-- One task is enqueued and delivered. -/
def deliverOne : List (Label Call StepInput) :=
  [.call (.enqueueBatch "q" [[1]] (.standard "t")), .run 0 {}, .run 0 {}, .run 0 {}, .run 0 {}, .run 0 { id := "a" },
    .run 0 {}, .run 0 {}, .call (.dequeueBatch "q" 1 60000), .run 1 {}, .run 1 { now := 1 }, .run 1 {}, .run 1 {}]

def deliveredKey : Key := encodeKey "q" 1

/-- One call returns the task before the other begins. -/
def nackTwice : List (Label Call StepInput) :=
  deliverOne ++ [.call (.nack deliveredKey), .run 2 {}, .run 2 {}, .run 2 {}, .call (.nack deliveredKey), .run 3 {}]

/-- Both calls read the task before either writes. -/
def nackTogether : List (Label Call StepInput) :=
  deliverOne ++ [.call (.nack deliveredKey), .call (.nack deliveredKey), .run 2 {}, .run 3 {}, .run 2 {}, .run 3 {},
    .run 2 {}, .run 3 {}]

theorem idUnique_nackTwice :
    ∃ c, (system "t").execWhile inTime ⟨.start 1, []⟩ nackTwice = some c ∧ IdUnique c.shared.db :=
  ⟨_, (Option.some_get (by decide +kernel)).symm,
    idUnique_of_inTime (Runs.run_of_execWhile (Option.some_get (by decide +kernel)).symm)⟩

theorem not_idUnique_nackTogether :
    ∃ c, (system "t").Run (fun _ _ => True) ⟨.start 1, []⟩ c ∧ ¬IdUnique c.shared.db := by
  let c := ((system "t").exec ⟨.start 1, []⟩ nackTogether).get (by decide +kernel)
  have hfirst : c.shared.db.get .pending (encodeKey "q" 2) = some (.task ⟨"a", "q", [1], 0, 1, 0⟩) := by decide +kernel
  have hsecond : c.shared.db.get .pending (encodeKey "q" 3) = some (.task ⟨"a", "q", [1], 0, 1, 0⟩) := by decide +kernel
  refine ⟨c, Runs.run_of_exec (Option.some_get _).symm, fun h => ?_⟩
  exact absurd (h.unique hfirst hsecond rfl).2 (by decide)

end RocksQueue
