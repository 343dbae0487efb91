import RocksQueue.Theorems.TaskIds

/-! # Acknowledgement

After an acknowledgement has deleted a task's record, the task is stored nowhere and no dequeue hands it
out again, provided that at the delete the record was still there, was the task's only one, and no other
call was about to write the task (`ack_final`). -/

namespace RocksQueue
open Interleaving

/-- An acknowledgement deleted an inflight record of the task. -/
def Acked (h : List Event) (id : String) : Prop :=
  ∃ w k t, .wrote w ∈ h ∧ w.kind = .ack ∧ .delete .inflight k ∈ w.batch ∧
    w.before.get .inflight k = some (.task t) ∧ t.id = id

/-- No dequeue hands out a task after an acknowledgement deleted it. -/
def NoRedelivery (h : List Event) : Prop :=
  ∀ pre w post results k t, h = pre ++ .wrote w :: post → w.reply = some (.delivered results) →
    (k, t) ∈ results → ¬Acked pre t.id

/-- Every key that an acknowledgement is about to delete still holds its record, no other record carries
    that task, and no other call has read the task and is still to write it. -/
def ackClear (c : Config Shared Frame) : Label Call StepInput → Bool
  | .run i _ =>
    match c.threads[i]? with
    | some (.write .ack b _ _) =>
      b.all fun
        | .delete .inflight k =>
          match c.shared.db.get .inflight k with
          | some (.task t) =>
            (c.shared.db.records.all fun
              | (c', k', .task t') => !(t'.id = t.id) || (c', k') = (.inflight, k)
              | _ => true) &&
            (c.threads.eraseIdx i).all fun g => !(t.id ∈ g.carried)
          | _ => false
        | _ => true
    | _ => true
  | _ => true

section Histories
variable {h : List Event} {e : Event} {w : Write} {id : String}

theorem acked_append : Acked (h ++ [e]) id ↔ Acked h id ∨ Acked [e] id := by
  constructor
  · rintro ⟨w, k, t, hmem, hw⟩
    rcases List.mem_append.mp hmem with hmem' | hmem'
    · exact Or.inl ⟨w, k, t, hmem', hw⟩
    · exact Or.inr ⟨w, k, t, hmem', hw⟩
  · rintro (⟨w, k, t, hmem, hw⟩ | ⟨w, k, t, hmem, hw⟩)
    · exact ⟨w, k, t, List.mem_append_left _ hmem, hw⟩
    · exact ⟨w, k, t, List.mem_append_right _ hmem, hw⟩

theorem acked_wrote : Acked [.wrote w] id ↔
    w.kind = .ack ∧ ∃ k t, .delete .inflight k ∈ w.batch ∧ w.before.get .inflight k = some (.task t) ∧ t.id = id := by
  constructor
  · rintro ⟨w', k, t, hmem, hkind, hw⟩
    cases List.mem_singleton.mp hmem
    exact ⟨hkind, k, t, hw⟩
  · rintro ⟨hkind, k, t, hw⟩
    exact ⟨w, k, t, List.mem_singleton_self _, hkind, hw⟩

theorem not_acked_minted {i : Nat} {k : Key} {id' : String} : ¬Acked [.minted i k id'] id := by
  rintro ⟨w, -, -, hmem, -⟩
  cases List.mem_singleton.mp hmem

theorem noRedelivery_append (hh : NoRedelivery h)
    (he : ∀ w results k t, e = .wrote w → w.reply = some (.delivered results) → (k, t) ∈ results → ¬Acked h t.id) :
    NoRedelivery (h ++ [e]) := by
  intro pre w post results k t heq hreply hmem
  rcases List.append_eq_append_iff.mp heq with ⟨mid, rfl, hmid⟩ | ⟨mid, rfl, hmid⟩
  · cases mid with
    | nil =>
      obtain ⟨rfl, -⟩ := List.cons.inj hmid
      rw [List.append_nil]
      exact he w results k t rfl hreply hmem
    | cons x mid =>
      have hlen := congrArg List.length hmid
      simp at hlen
  · cases mid with
    | nil =>
      obtain ⟨rfl, -⟩ := List.cons.inj hmid
      rw [List.append_nil] at he
      exact he w results k t rfl hreply hmem
    | cons x mid =>
      obtain ⟨rfl, -⟩ := List.cons.inj hmid
      exact hh pre w mid results k t rfl hreply hmem

end Histories

/-! ## The calls in progress -/

/-- Thread `i` deleted the record under `k` as acknowledged. -/
def AckedKey (h : List Event) (i : Nat) (k : Key) : Prop :=
  ∃ w t, .wrote w ∈ h ∧ w.thread = i ∧ w.kind = .ack ∧ .delete .inflight k ∈ w.batch ∧
    w.before.get .inflight k = some (.task t)

namespace Frame

/-- A call holds no acknowledged task, and it reports a key as acknowledged only for its own delete. -/
structure Acks (s : Shared) (i : Nat) (f : Frame) : Prop where
  unacked : ∀ {id}, Acked s.history id → id ∉ f.fresh ∧ id ∉ f.carried
  deletes : ∀ {b held reply}, f = .write .ack b held reply → ∃ keys, b = deletes .inflight keys
  keys : ∀ {kind b held reply k}, f = .write kind b held reply → k ∈ reply.ackedKeys →
    kind = .ack ∧ .delete .inflight k ∈ b
  handed : ∀ {kind b held reply k t}, f = .write kind b held reply → (k, t) ∈ reply.results → t.id ∈ f.carried
  acked : ∀ {reply k}, (∃ held, f = .unlock held reply) ∨ f = .returned reply → k ∈ reply.ackedKeys →
    AckedKey s.history i k

/-- The frame says nothing about acknowledgements or deliveries. -/
def Mute : Frame → Prop
  | .write kind _ _ reply => kind ≠ .ack ∧ reply.ackedKeys = [] ∧ reply.results = []
  | .unlock _ reply => reply.ackedKeys = []
  | .returned reply => reply.ackedKeys = []
  | _ => True

variable {s : Shared} {i : Nat} {f : Frame}

theorem Mute.acks (h : f.Mute) (hids : ∀ {id}, Acked s.history id → id ∉ f.fresh ∧ id ∉ f.carried) : f.Acks s i where
  unacked := hids
  deletes heq := by
    subst heq
    exact absurd rfl h.1
  keys heq hk := by
    subst heq
    rw [h.2.1] at hk
    cases hk
  handed heq hkt := by
    subst heq
    rw [h.2.2] at hkt
    cases hkt
  acked {reply k} heq hk := by
    have hnil : reply.ackedKeys = [] := by
      rcases heq with ⟨held, rfl⟩ | rfl
      · exact h
      · exact h
    rw [hnil] at hk
    cases hk

theorem Idle.acks (h : f.Idle) : f.Acks s i := by
  obtain ⟨hfresh, hcarried, -⟩ := h.bare
  refine ⟨fun _ => ?_, fun heq => ?_, fun heq hk => ?_, fun heq hkt => ?_, fun {reply k} heq hk => ?_⟩
  · rw [hfresh, hcarried]
    exact ⟨List.not_mem_nil, List.not_mem_nil⟩
  · subst heq
    exact ⟨[], h.1⟩
  · subst heq
    rw [h.2.1] at hk
    cases hk
  · subst heq
    rw [h.2.2] at hkt
    cases hkt
  · have hnil : reply.ackedKeys = [] := by
      rcases heq with ⟨held, rfl⟩ | rfl
      · exact h.1
      · exact h.1
    rw [hnil] at hk
    cases hk

theorem nextMint_mute {tenant : String} {r : EnqueueRequest} {now : Nat} {todo : List Bytes} {b : WriteBatch}
    {ids : List String} : (nextMint tenant r now todo b ids).Mute := by
  unfold nextMint
  split
  · exact ⟨by simp, rfl, rfl⟩
  · trivial

theorem nextReplay_mute {b : WriteBatch} {count : Nat} {todo : List (Key × Value)} :
    (nextReplay b count todo).Mute := by
  cases todo with
  | nil =>
    simp only [nextReplay]
    rcases writeOr_eq .replay b [] (.count count) with ⟨-, heq⟩ | ⟨-, heq⟩ <;> rw [heq]
    · rfl
    · exact ⟨by simp, rfl, rfl⟩
  | cons item todo =>
    obtain ⟨key, v⟩ := item
    cases v <;> trivial

theorem Planned.acks {db : TenantDb} (h : Planned db f)
    (hids : ∀ {id}, Acked s.history id → id ∉ f.fresh ∧ id ∉ f.carried) : f.Acks s i := by
  cases h with
  | evict => exact Mute.acks (f := .evictWrite _ _) trivial hids
  | ack =>
    refine ⟨hids, fun heq => ?_, fun heq hk => ?_, fun heq hkt => ?_, fun heq => ?_⟩
    · cases heq
      exact ⟨_, rfl⟩
    · cases heq
      exact ⟨rfl, mem_deletes.mpr ⟨rfl, hk⟩⟩
    · cases heq
      cases hkt
    · rcases heq with ⟨held, heq⟩ | heq <;> cases heq
  | cumulativeAck => exact Mute.acks (f := .write _ _ _ _) ⟨by simp, rfl, rfl⟩ hids
  | purge => exact Mute.acks (f := .write _ _ _ _) ⟨by simp, rfl, rfl⟩ hids
  | deliver now hms hnodup hmoved hres =>
    refine ⟨hids, fun heq => ?_, fun heq hk => ?_, fun heq hkt => ?_, fun heq => ?_⟩
    · cases heq
    · cases heq
      cases hk
    · cases heq
      obtain ⟨m, hm, -, rfl⟩ := hres _ _ hkt
      exact hms.putIds_perm.mem_iff.mpr (List.mem_map.mpr ⟨m, hm, rfl⟩)
    · rcases heq with ⟨held, heq⟩ | heq <;> cases heq
  | move now hkind hms hnodup hmoved =>
    exact Mute.acks (f := .write _ _ _ _) ⟨by rcases hkind with rfl | rfl <;> simp, rfl, rfl⟩ hids
  | retry => exact Mute.acks (f := .nackDraw _ _) trivial hids
  | replay => exact Mute.acks (f := .replayDraw _ _ _ _ _) trivial hids

end Frame

/-! ## Runs -/

/-- The acknowledged tasks are gone for good. -/
structure AckedGone (s : Shared) : Prop where
  gone : ∀ {id}, Acked s.history id → id ∈ s.issued ∧ ¬Stored s.db id
  handed : NoRedelivery s.history

section Steps
variable {tenant : String} {s s' : Shared} {i : Nat} {io : StepInput} {f f' : Frame} {id : String} {k : Key}
  {c : Config Shared Frame}

theorem AckedKey.mono {h h' : List Event} (hk : AckedKey h i k) : AckedKey (h ++ h') i k := by
  obtain ⟨w, t, hmem, hw⟩ := hk
  exact ⟨w, t, List.mem_append_left _ hmem, hw⟩

/-- A task becomes acknowledged only by the write of an acknowledgement. -/
theorem step_acked (h : Frame.step tenant s i f io = some (s', f')) (hid : Acked s'.history id) :
    Acked s.history id ∨ ∃ b held reply k t, f = .write .ack b held reply ∧ .delete .inflight k ∈ b ∧
      s.db.get .inflight k = some (.task t) ∧ t.id = id := by
  cases Frame.step_effect h with
  | quiet => exact Or.inl hid
  | plan => exact Or.inl hid
  | unlock => exact Or.inl hid
  | mint => exact Or.inl ((acked_append.mp hid).resolve_right not_acked_minted)
  | retry => exact Or.inl ((acked_append.mp hid).resolve_right not_acked_minted)
  | replay => exact Or.inl ((acked_append.mp hid).resolve_right not_acked_minted)
  | evict =>
    rcases acked_append.mp hid with hold | hnew
    · exact Or.inl hold
    · exact absurd (acked_wrote.mp hnew).1 (by simp)
  | @write kind b held reply =>
    rcases acked_append.mp hid with hold | hnew
    · exact Or.inl hold
    · obtain ⟨rfl, k, t, hdel, hget, hid⟩ := acked_wrote.mp hnew
      exact Or.inr ⟨b, held, reply, k, t, rfl, hdel, hget, hid⟩

/-- What `ackClear` says about the write of an acknowledgement. -/
theorem ackClear_inv {a : StepInput} {b : WriteBatch} {held : List Lock} {reply : Reply}
    (h : ackClear c (.run i a) = true) (hf : c.threads[i]? = some (.write .ack b held reply))
    (hdel : .delete .inflight k ∈ b) :
    ∃ t, c.shared.db.get .inflight k = some (.task t) ∧
      (∀ {c' k' t'}, c.shared.db.get c' k' = some (.task t') → t'.id = t.id → c' = .inflight ∧ k' = k) ∧
      ∀ {j g}, j ≠ i → c.threads[j]? = some g → t.id ∉ g.carried := by
  simp only [ackClear, hf] at h
  have hkey := List.all_eq_true.mp h _ hdel
  dsimp only at hkey
  split at hkey
  · rename_i t hget
    obtain ⟨hrecords, hothers⟩ := Bool.and_eq_true_iff.mp hkey
    refine ⟨t, hget, fun hget' hid => ?_, fun hne hg => ?_⟩
    · have hrec := List.all_eq_true.mp hrecords _ (TenantDb.mem_records.mpr hget')
      simpa [hid] using hrec
    · have hmem := List.all_eq_true.mp hothers _ (List.mem_eraseIdx_iff_getElem?.mpr ⟨_, hne, hg⟩)
      simpa using hmem
  · cases hkey

/-- The write of an acknowledgement leaves none of the tasks that it deletes. -/
theorem ack_write_gone {keys : List Key} {t : Task} (hk : k ∈ keys)
    (honly : ∀ {c' k' t'}, s.db.get c' k' = some (.task t') → t'.id = t.id → c' = .inflight ∧ k' = k) :
    ¬Stored (s.db.write (deletes .inflight keys)) t.id := by
  rintro ⟨c', k', t', hget, hid⟩
  rcases TenantDb.get_write hget with hput | ⟨hold, hkept⟩
  · exact put_not_mem_deletes hput
  · obtain ⟨rfl, rfl⟩ := honly hold hid
    exact hkept (mem_deletes.mpr ⟨rfl, hk⟩)

theorem unlock_acks {held : List Lock} {reply : Reply} (h : ∀ {k}, k ∈ reply.ackedKeys → AckedKey s.history i k) :
    Frame.Acks s i (.unlock held reply) where
  unacked _ := ⟨List.not_mem_nil, List.not_mem_nil⟩
  deletes heq := by cases heq
  keys heq := by cases heq
  handed heq := by cases heq
  acked heq hk := by
    rcases heq with ⟨held, heq⟩ | heq
    · cases heq
      exact h hk
    · cases heq

theorem returned_acks {reply : Reply} (h : ∀ {k}, k ∈ reply.ackedKeys → AckedKey s.history i k) :
    Frame.Acks s i (.returned reply) where
  unacked _ := ⟨List.not_mem_nil, List.not_mem_nil⟩
  deletes heq := by cases heq
  keys heq := by cases heq
  handed heq := by cases heq
  acked heq hk := by
    rcases heq with ⟨held, heq⟩ | heq
    · cases heq
    · cases heq
      exact h hk

/-- A step that writes nothing keeps the acknowledged tasks away. -/
theorem AckedGone.of_same (h : AckedGone s) (hdb : s'.db = s.db) (hissued : ∀ {id}, id ∈ s.issued → id ∈ s'.issued)
    (hhist : s'.history = s.history ∨ ∃ j k id, s'.history = s.history ++ [.minted j k id]) : AckedGone s' := by
  rcases hhist with heq | ⟨j, k, id₀, heq⟩
  · refine ⟨fun hid => ?_, heq ▸ h.handed⟩
    rw [hdb]
    exact (h.gone (heq ▸ hid)).imp_left hissued
  · refine ⟨fun hid => ?_, ?_⟩
    · rw [hdb]
      rw [heq] at hid
      exact (h.gone ((acked_append.mp hid).resolve_right not_acked_minted)).imp_left hissued
    · rw [heq]
      exact noRedelivery_append h.handed fun w results k t he => by cases he

/-- A call that is not an acknowledgement writes, and none of its tasks is acknowledged. -/
theorem AckedGone.of_write {w : Write} (h : AckedGone s) (hids : ∀ {id}, Acked s.history id → id ∉ putIds w.batch)
    (hdb : s'.db = s.db.write w.batch) (hissued : s'.issued = s.issued) (hhist : s'.history = s.history ++ [.wrote w])
    (hkind : w.kind ≠ .ack)
    (hreply : ∀ results k t, w.reply = some (.delivered results) → (k, t) ∈ results → ¬Acked s.history t.id) :
    AckedGone s' := by
  refine ⟨fun {id} hid => ?_, ?_⟩
  · rw [hhist] at hid
    have hold : Acked s.history id := (acked_append.mp hid).resolve_right fun hnew => hkind (acked_wrote.mp hnew).1
    rw [hdb, hissued]
    exact ⟨(h.gone hold).1, fun hst => (stored_write hst).elim (h.gone hold).2 (hids hold)⟩
  · rw [hhist]
    refine noRedelivery_append h.handed fun w' results k t he hr hkt => ?_
    cases he
    exact hreply results k t hr hkt

/-- An acknowledgement writes, and the tasks that it deletes are its own. -/
theorem AckedGone.of_ack {keys : List Key} {reply : Reply} (h : AckedGone s) (hk : Known s)
    (honly : ∀ {k t}, k ∈ keys → s.db.get .inflight k = some (.task t) →
      ∀ {c' k' t'}, s.db.get c' k' = some (.task t') → t'.id = t.id → c' = .inflight ∧ k' = k)
    (hreply : reply.results = []) :
    AckedGone (s.write i .ack (deletes .inflight keys) (some reply)) := by
  refine ⟨fun hid => ?_, ?_⟩
  · rcases acked_append.mp hid with hold | hnew
    · refine ⟨(h.gone hold).1, fun hst => (stored_write hst).elim (h.gone hold).2 fun hput => ?_⟩
      rw [putIds_deletes] at hput
      cases hput
    · obtain ⟨-, k, t, hdel, hget, rfl⟩ := acked_wrote.mp hnew
      have hmem : k ∈ keys := (mem_deletes.mp hdel).2
      exact ⟨hk.issued ⟨_, _, _, hget, rfl⟩, ack_write_gone hmem (honly hmem hget)⟩
  · refine noRedelivery_append h.handed fun w results k t he hr hkt => ?_
    cases he
    obtain rfl := Option.some.inj hr
    rw [Reply.results] at hreply
    rw [hreply] at hkt
    cases hkt

end Steps

/-- Throughout every run in which the acknowledgements are clear, the acknowledged tasks are gone. -/
theorem acks_outline {tenant : String} : Outline (system tenant)
    (fun c l => ackClear c l = true ∧ Holds Known Frame.Known Frame.Apart c) AckedGone Frame.Acks
    fun _ _ => True where
  call _ _ := (Frame.start_idle _ _).acks
  callApart _ := ⟨trivial, trivial⟩
  env h _ := ⟨h.shared.of_same rfl (fun hid => hid) (Or.inl rfl),
    fun hf => ⟨hf.unacked, hf.deletes, hf.keys, hf.handed, hf.acked⟩⟩
  own {c i f a s f'} h hok hf hs := by
    have hknown := hok.2.frames hf
    have hacks := h.frames hf
    cases Frame.step_effect hs with
    | quiet locks hidle => exact ⟨h.shared.of_same rfl (fun hid => hid) (Or.inl rfl), hidle.acks⟩
    | plan hplan =>
      have hreads := hplan.reads hok.2.shared.tasks
      refine ⟨h.shared, hplan.acks fun hid => ⟨?_, fun hc => (h.shared.gone hid).2 (hreads.carried hc)⟩⟩
      rw [hreads.fresh]
      exact List.not_mem_nil
    | unlock =>
      exact ⟨h.shared.of_same rfl (fun hid => hid) (Or.inl rfl), returned_acks fun hk => hacks.acked (Or.inl ⟨_, rfl⟩) hk⟩
    | @mint r now payload todo batch ids hnew =>
      have hgone : AckedGone { c.shared.draw i (encodeKey r.queue c.shared.seq) a.id with
          issued := a.id :: c.shared.issued } :=
        h.shared.of_same rfl (fun hid => List.mem_cons_of_mem _ hid) (Or.inr ⟨_, _, _, rfl⟩)
      refine ⟨hgone, Frame.nextMint_mute.acks fun hid => ?_⟩
      have hold := (acked_append.mp hid).resolve_right not_acked_minted
      obtain ⟨hfresh, hcarried, -⟩ := Frame.nextMint_views tenant r now todo
        (batch ++ [enqueueOp r.queue now c.shared.seq payload a.id]) (ids ++ [a.id])
      -- The id that was drawn is new, and the acknowledged ones are not.
      rw [hfresh, hcarried, putIds_append, List.mem_append]
      refine ⟨?_, List.not_mem_nil⟩
      rintro (hmem | hmem)
      · exact (hacks.unacked hold).1 hmem
      · obtain rfl := List.mem_singleton.mp hmem
        exact hnew (h.shared.gone hold).1
    | retry =>
      refine ⟨h.shared.of_same rfl (fun hid => hid) (Or.inr ⟨_, _, _, rfl⟩), Frame.Mute.acks (f := .write _ _ _ _)
        ⟨by simp, rfl, rfl⟩ fun hid => ?_⟩
      exact hacks.unacked ((acked_append.mp hid).resolve_right not_acked_minted)
    | @replay key task todo batch count =>
      refine ⟨h.shared.of_same rfl (fun hid => hid) (Or.inr ⟨_, _, _, rfl⟩), Frame.nextReplay_mute.acks fun hid => ?_⟩
      have hold := (hacks.unacked ((acked_append.mp hid).resolve_right not_acked_minted)).2
      rcases Frame.nextReplay_views (batch ++ replayOps key task c.shared.seq) (count + 1) todo
        with hbare | ⟨hfresh, hcarried, -⟩
      · rw [hbare.1, hbare.2.1]
        exact ⟨List.not_mem_nil, List.not_mem_nil⟩
      · rw [hfresh, hcarried, putIds_append, List.append_assoc]
        exact ⟨List.not_mem_nil, hold⟩
    | @evict r b _ hidle =>
      refine ⟨h.shared.of_write (w := ⟨i, .evict, b, c.shared.db, none⟩) (fun hid hput => ?_) rfl rfl rfl (by simp)
        (fun results k t hr => by cases hr), hidle.acks⟩
      exact (hknown.held hput).elim (hacks.unacked hid).1 (hacks.unacked hid).2
    | @write kind b held reply =>
      by_cases hkind : kind = .ack
      · subst hkind
        -- An acknowledgement: no other call has one of its tasks in hand, by the hypothesis on the run.
        obtain ⟨keys, rfl⟩ := hacks.deletes rfl
        have hclear := fun {k} (hdel : .delete .inflight k ∈ deletes .inflight keys) => ackClear_inv hok.1 hf hdel
        refine ⟨h.shared.of_ack hok.2.shared (fun {k t} hk hget => ?_) ?_, unlock_acks fun {k} hk => ?_⟩
        · obtain ⟨t', hget', honly, -⟩ := hclear (mem_deletes.mpr ⟨rfl, hk⟩)
          rw [hget] at hget'
          cases hget'
          exact honly
        · refine List.eq_nil_iff_forall_not_mem.mpr fun e he => ?_
          have hcarried := hacks.handed (k := e.1) (t := e.2) rfl he
          rw [(Frame.write_views (by simp)).2, putIds_deletes] at hcarried
          cases hcarried
        · obtain ⟨-, hdel⟩ := hacks.keys rfl hk
          obtain ⟨t, hget, -, -⟩ := hclear hdel
          exact ⟨⟨i, .ack, _, c.shared.db, some reply⟩, t, List.mem_append_right _ (List.mem_singleton_self _), rfl, rfl,
            hdel, hget⟩
      -- Another write puts back what its call read, and none of that was acknowledged.
      · refine ⟨h.shared.of_write (w := ⟨i, kind, b, c.shared.db, some reply⟩) (fun hid hput => ?_) rfl rfl rfl hkind
          (fun results k t hr hkt hid => ?_), unlock_acks fun hk => absurd (hacks.keys rfl hk).1 hkind⟩
        · exact (Frame.mem_write_views hput).elim (hacks.unacked hid).1 (hacks.unacked hid).2
        · obtain rfl := Option.some.inj hr
          exact (hacks.unacked hid).2 (hacks.handed rfl hkt)
  others {c i f a s f' j g} h hok hf hs hij hg := by
    obtain ⟨es, hes⟩ := Frame.step_history hs
    have hacks := h.frames hg
    refine ⟨⟨fun hid => ?_, hacks.deletes, hacks.keys, hacks.handed, fun heq hk => ?_⟩, trivial, trivial⟩
    -- What the other call acknowledges just now is not in hand here.
    · rcases step_acked hs hid with hold | ⟨b, held, reply, k, t, rfl, hdel, hget, rfl⟩
      · exact hacks.unacked hold
      · obtain ⟨t', hget', -, hothers⟩ := ackClear_inv hok.1 hf hdel
        rw [hget] at hget'
        cases hget'
        exact ⟨fun hfresh => (hok.2.frames hg).unstored hfresh ⟨_, _, _, hget, rfl⟩, hothers hij.symm hg⟩
    · rw [hes]
      exact (hacks.acked heq hk).mono

theorem ackedGone_start {now : Nat} : AckedGone (.start now) := by
  refine ⟨?_, fun pre w post results k t heq => ?_⟩
  · rintro id ⟨w, k, t, hmem, -⟩
    cases hmem
  · cases pre <;> cases heq

/-- For every key that a returned call reports as acknowledged: the call deleted a task's record under
    that key, the task is stored nowhere, and no dequeue has handed it out since. -/
def AckFinal (c : Config Shared Frame) : Prop :=
  ∀ i reply k, c.threads[i]? = some (.returned reply) → k ∈ reply.ackedKeys →
    ∃ pre w post t, c.shared.history = pre ++ .wrote w :: post ∧ w.thread = i ∧ w.kind = .ack ∧
      .delete .inflight k ∈ w.batch ∧ w.before.get .inflight k = some (.task t) ∧ ¬Stored c.shared.db t.id ∧
      ∀ w' results k' t', .wrote w' ∈ post → w'.reply = some (.delivered results) → (k', t') ∈ results → t'.id ≠ t.id

theorem ackFinal_of_ackClear {tenant : String} {now : Nat} {c : Config Shared Frame}
    (h : (system tenant).Run (fun c l => ackClear c l = true) ⟨.start now, []⟩ c) : AckFinal c := by
  intro i reply k hf hk
  have hall := acks_outline.run (known_outline.strengthen h known_start) (.start ackedGone_start)
  obtain ⟨w, t, hmem, hthread, hkind, hdel, hget⟩ := (hall.frames hf).acked (Or.inr rfl) hk
  obtain ⟨pre, post, heq⟩ := List.append_of_mem hmem
  refine ⟨pre, w, post, t, heq, hthread, hkind, hdel, hget, ?_, fun w' results k' t' hw' hreply hkt hid => ?_⟩
  · exact (hall.shared.gone ⟨w, k, t, hmem, hkind, hdel, hget, rfl⟩).2
  · -- What was acknowledged before the delivery includes what this call deleted.
    obtain ⟨mid, post', rfl⟩ := List.append_of_mem hw'
    refine hall.shared.handed (pre ++ .wrote w :: mid) w' post' results k' t' ?_ hreply hkt ?_
    · rw [heq, List.append_assoc]
      rfl
    · exact ⟨w, k, t, List.mem_append_right _ List.mem_cons_self, hkind, hdel, hget, hid.symm⟩

/-- The delivered task is acknowledged, then a second acknowledgement finds nothing. -/
def ackTwice : List (Label Call StepInput) :=
  deliverOne ++ [.call (.ackBatch [deliveredKey]), .call (.ackBatch [deliveredKey]), .run 2 {}, .run 2 {}, .run 2 {},
    .run 2 {}, .run 3 {}, .run 3 {}, .run 3 {}]

/-- A nack reads the task, the acknowledgement deletes it and returns, and the nack writes it back. -/
def ackWithinNack : List (Label Call StepInput) :=
  deliverOne ++ [.call (.nack deliveredKey), .run 2 {}, .call (.ackBatch [deliveredKey]), .run 3 {}, .run 3 {},
    .run 3 {}, .run 3 {}, .run 2 {}, .run 2 {}]

theorem ackFinal_ackTwice : ∃ c, (system "t").execWhile ackClear ⟨.start 1, []⟩ ackTwice = some c ∧
    c.threads[2]? = some (.returned (.acked [deliveredKey])) ∧ c.threads[3]? = some (.returned (.acked [])) ∧
    AckFinal c := by
  refine ⟨((system "t").execWhile ackClear ⟨.start 1, []⟩ ackTwice).get (by decide +kernel),
    (Option.some_get _).symm, by rfl, by rfl, ?_⟩
  exact ackFinal_of_ackClear (Runs.run_of_execWhile (Option.some_get (by decide +kernel)).symm)

theorem not_ackFinal_ackWithinNack :
    ∃ c, (system "t").Run (fun _ _ => True) ⟨.start 1, []⟩ c ∧ ¬AckFinal c := by
  refine ⟨((system "t").exec ⟨.start 1, []⟩ ackWithinNack).get (by decide +kernel),
    Runs.run_of_exec (Option.some_get _).symm, fun h => ?_⟩
  obtain ⟨pre, w, post, t, heq, -, hkind, -, hget, hgone, -⟩ :=
    h 3 (.acked [deliveredKey]) deliveredKey (by rfl) List.mem_cons_self
  -- The only acknowledgement in the history deleted the task "a".
  have hall : (((system "t").exec ⟨.start 1, []⟩ ackWithinNack).get (by decide +kernel)).shared.history.all (fun
      | .wrote w => w.kind ≠ .ack || w.before.get .inflight deliveredKey = some (.task ⟨"a", "q", [1], 0, 1, 60001⟩)
      | _ => true) = true := by decide +kernel
  have hw := List.all_eq_true.mp hall (.wrote w) (by rw [heq]; exact List.mem_append_right _ List.mem_cons_self)
  simp only [hkind, hget, ne_eq, not_true_eq_false, decide_false, Bool.false_or, decide_eq_true_eq] at hw
  cases hw
  exact hgone ⟨.pending, encodeKey "q" 2, ⟨"a", "q", [1], 0, 1, 0⟩, by decide +kernel, rfl⟩

end RocksQueue
