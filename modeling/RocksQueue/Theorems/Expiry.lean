import RocksQueue.Compaction
import RocksQueue.Theorems.NoLoss

/-! # What compaction takes

A filter drops tasks whose age passes its test, which wraps for retentions past 2 ^ 64 ms, and never a delivery; the
counters say how many. So a task that was enqueued is still stored, was removed by an acknowledgement or a purge, or was
dropped when the test held (`stored_removed_or_lapsed`). For the argument of `stored_or_removed` a filter that drops a task is one more purge,
in a history that the calls do not read. -/

namespace RocksQueue
open Interleaving

/-- The task's age passed the test of its family's filter. -/
def Expiry.Due (e : Expiry) (t : Task) : Prop :=
  match e.cf with
  | .pending => e.retention.pendingRetentionSecs ≠ 0 ∧ t.ageExceeds e.retention.pendingRetentionSecs e.now = true
  | .inflight => False
  | .dlq => t.ageExceeds e.retention.dlqRetentionSecs e.now = true

/-- A filter dropped the task when its test held. -/
def Lapsed (es : List Expiry) (id : String) : Prop := ∃ e ∈ es, ∃ t, e.value = .task t ∧ e.Due t ∧ t.id = id

/-- Of tasks, a filter drops those whose age passes its test. -/
theorem due_of_remove {r : RetentionPolicy} {cf : Cf} {key : Key} {t : Task} {now : Nat}
    (h : (r.filter cf).decision now (.task t) = .remove) : Expiry.Due ⟨cf, key, .task t, r, now⟩ t := by
  cases cf with
  | pending =>
    simp only [RetentionPolicy.filter, CompactionFilter.decision] at h
    split at h
    · cases h
    · rename_i hne
      split at h
      · rename_i hold
        exact ⟨hne, hold⟩
      · cases h
  | inflight => cases h
  | dlq =>
    simp only [RetentionPolicy.filter, CompactionFilter.decision] at h
    split at h
    · rename_i hold
      exact hold
    · cases h

/-! ## A record that is dropped -/

section Drops
variable {db : TenantDb} {s : Shared} {cf c : Cf} {key k : Key} {v : Value} {id : String}

/-- What is left was there before. -/
theorem get_of_dropped (h : (db.apply (.delete cf key)).get c k = some v) : db.get c k = some v := by
  rw [TenantDb.get_apply_delete] at h
  split at h
  · cases h
  · exact h

theorem stored_of_dropped (h : Stored (db.apply (.delete cf key)) id) : Stored db id := by
  obtain ⟨c, k, t, hget, hid⟩ := h
  exact ⟨c, k, t, get_of_dropped hget, hid⟩

/-- A task that is not the one that goes stays. -/
theorem stored_dropped {t : Task} (hget : db.get cf key = some (.task t)) (h : Stored db id) :
    Stored (db.apply (.delete cf key)) id ∨ id = t.id := by
  obtain ⟨c, k, t', hget', rfl⟩ := h
  by_cases hsame : c = cf ∧ k = key
  · obtain ⟨rfl, rfl⟩ := hsame
    obtain rfl : t = t' := by
      rw [hget] at hget'
      cases hget'
      rfl
    exact Or.inr rfl
  · refine Or.inl ⟨c, k, t', ?_, rfl⟩
    rw [TenantDb.get_apply_delete, if_neg hsame]
    exact hget'

end Drops

/-! ## Another history -/

/-- The state with another history, which no step reads. -/
def Shared.withHistory (s : Shared) (h : List Event) : Shared := { s with history := h }

namespace Frame
variable {tenant : String} {s s' : Shared} {i : Nat} {io : StepInput} {f f' : Frame}

theorem acquire_withHistory {l : Lock} (h : List Event) :
    (s.withHistory h).acquire i l = (s.acquire i l).map fun s' => s'.withHistory h := by
  by_cases hfree : s.locks l = none <;> simp [Shared.acquire, Shared.withHistory, hfree]

/-- A step takes the same course whatever the history is, and adds the same to it. -/
theorem step_withHistory (h : Frame.step tenant s i f io = some (s', f')) :
    ∃ es, s'.history = s.history ++ es ∧
      ∀ hist, Frame.step tenant (s.withHistory hist) i f io = some (s'.withHistory (hist ++ es), f') := by
  have hlock : ∀ {l : Lock} {s₁ : Shared}, s.acquire i l = some s₁ → s₁.history = s.history ∧
      ∀ hist, (s.withHistory hist).acquire i l = some (s₁.withHistory hist) := fun hs => by
    refine ⟨?_, fun hist => by rw [acquire_withHistory, hs]; rfl⟩
    obtain ⟨-, rfl⟩ := acquire_inv hs
    rfl
  -- No turn of the code depends on the history, so each is taken again.
  cases f with
  | enqueueLock r =>
    simp only [Frame.step] at h ⊢
    split at h
    · cases h
    · rename_i s₁ hs
      cases h
      obtain ⟨hhist, hsame⟩ := hlock hs
      exact ⟨[], by rw [hhist, List.append_nil], fun hist => by rw [hsame hist, List.append_nil]⟩
  | dequeueLock queue limit timeout maxInflight =>
    simp only [Frame.step] at h ⊢
    split at h
    · cases h
    · rename_i s₁ hs
      cases h
      obtain ⟨hhist, hsame⟩ := hlock hs
      exact ⟨[], by rw [hhist, List.append_nil], fun hist => by rw [hsame hist, List.append_nil]⟩
  | ackLocks keys held todo =>
    cases todo with
    | nil => cases h
    | cons l todo =>
      simp only [Frame.step] at h ⊢
      split at h
      · cases h
      · rename_i s₁ hs
        cases h
        obtain ⟨hhist, hsame⟩ := hlock hs
        exact ⟨[], by rw [hhist, List.append_nil], fun hist => by rw [hsame hist, List.append_nil]⟩
  | mint r now todo batch ids =>
    cases todo with
    | nil => cases h
    | cons payload todo =>
      simp only [Frame.step] at h ⊢
      split at h
      · cases h
      · rename_i hnew
        cases h
        exact ⟨_, rfl, fun hist => if_neg hnew⟩
  | evictWrite r batch =>
    cases h
    exact ⟨_, rfl, fun hist => rfl⟩
  | nackDraw key task =>
    cases h
    exact ⟨_, rfl, fun hist => rfl⟩
  | replayDraw key task todo batch count =>
    cases h
    exact ⟨_, rfl, fun hist => rfl⟩
  | write kind batch held reply =>
    cases h
    exact ⟨_, rfl, fun hist => rfl⟩
  | returned reply => cases h
  | _ =>
    cases h
    exact ⟨[], (List.append_nil _).symm, fun hist => by rw [List.append_nil]; rfl⟩

end Frame

theorem next_withHistory {tenant : String} {c c' : Config Shared Frame} {l : Label Call StepInput}
    (h : (system tenant).next c l = some c') :
    ∃ es, c'.shared.history = c.shared.history ++ es ∧ ∀ hist,
      (system tenant).next ⟨c.shared.withHistory hist, c.threads⟩ l =
        some ⟨c'.shared.withHistory (hist ++ es), c'.threads⟩ := by
  cases l with
  | call k =>
    cases h
    exact ⟨[], (List.append_nil _).symm, fun hist => by rw [List.append_nil]; rfl⟩
  | env =>
    cases h
    exact ⟨[], (List.append_nil _).symm, fun hist => by rw [List.append_nil]; rfl⟩
  | run i io =>
    obtain ⟨f, s, f', hf, hs, rfl⟩ := System.next_run_inv h
    obtain ⟨es, hhist, hsame⟩ := Frame.step_withHistory hs
    refine ⟨es, hhist, fun hist => ?_⟩
    have hstep : (system tenant).step (c.shared.withHistory hist) i f io = some (s.withHistory (hist ++ es), f') :=
      hsame hist
    simp only [System.next, hf, hstep]

/-! ## The run with its drops as purges -/

/-- A drop, told as a purge. -/
def Expiry.told (e : Expiry) : Event :=
  .wrote ⟨0, .purge, [.delete .dlq e.key], TenantDb.empty.apply (.put .dlq e.key e.value), none⟩

theorem removed_append {h h' : List Event} {id : String} (hid : Removed (h ++ h') id) : Removed h id ∨ Removed h' id := by
  obtain ⟨w, c, k, t, hmem, hw⟩ := hid
  rcases List.mem_append.mp hmem with hmem | hmem
  · exact Or.inl ⟨w, c, k, t, hmem, hw⟩
  · exact Or.inr ⟨w, c, k, t, hmem, hw⟩

theorem removed_told {e : Expiry} {id : String} : Removed [e.told] id ↔ ∃ t, e.value = .task t ∧ t.id = id := by
  constructor
  · rintro ⟨w, c, k, t, hmem, hremoves, hdel, hget, hid⟩
    cases List.mem_singleton.mp hmem
    cases hremoves
    cases List.mem_singleton.mp hdel
    rw [TenantDb.get_apply_put, if_pos ⟨rfl, rfl⟩] at hget
    exact ⟨t, Option.some.inj hget, hid⟩
  · rintro ⟨t, hvalue, hid⟩
    refine ⟨_, .dlq, e.key, t, List.mem_singleton_self _, rfl, List.mem_singleton_self _, ?_, hid⟩
    rw [TenantDb.get_apply_put, if_pos ⟨rfl, rfl⟩, hvalue]

namespace CompactedPool
variable {tenant : String} {c c' : CompactedPool} {e : CompactionEvent}

/-- A history that has the writes of the calls, and every removal of which is one of theirs or a drop. -/
structure Tells (c : CompactedPool) (h : List Event) : Prop where
  wrote : ∀ {w}, .wrote w ∈ c.pool.shared.history → .wrote w ∈ h
  removed : ∀ {id}, Removed h id → Removed c.pool.shared.history id ∨ Lapsed c.expired id

/-- What holds in every state: of the ids, of the calls that never evict, and of keys and tasks in the history that has
    the drops as well. -/
structure Kept (c : CompactedPool) : Prop where
  known : Holds Known Frame.Known Frame.Apart c.pool
  keeps : Holds (fun _ => True) (fun _ _ f => f.KeepsAll) (fun _ _ => True) c.pool
  linked : ∃ h, c.Tells h ∧
    Holds Linked Frame.Linked (fun _ _ => True) ⟨c.pool.shared.withHistory h, c.pool.threads⟩

/-- No caller evicts, the counter does not wrap, and no clock is behind it when the process opens the tenant again. -/
def orderly (c : CompactedPool) : CompactionEvent → Bool
  | .step l => lossless c.pool l
  | .filter _ _ _ => true
  | .reopen _ now => c.pool.shared.seq ≤ now ∧ now < u64Size

/-- A filter that was asked has dropped the record, or kept everything. -/
theorem ask_cases (c : CompactedPool) (cf : Cf) (key : Key) (value : Value) (now : Nat) :
    (c.retention.filter cf).decision now value = .keep ∧ c.ask cf key value now = c ∨
      (c.retention.filter cf).decision now value = .remove ∧
        c.ask cf key value now = c.drop ⟨cf, key, value, c.retention, now⟩ := by
  cases hdecision : (c.retention.filter cf).decision now value with
  | keep => exact Or.inl ⟨rfl, by simp only [ask, hdecision]⟩
  | remove => exact Or.inr ⟨rfl, by simp only [ask, hdecision]⟩

/-! ### The ids -/

theorem known_step {pool : Config Shared Frame} {l : Label Call StepInput}
    (h : Holds Known Frame.Known Frame.Apart c.pool) (hn : (system tenant).next c.pool l = some pool) :
    Holds Known Frame.Known Frame.Apart pool :=
  have houtline : Outline (system tenant) (fun _ _ => True) Known Frame.Known Frame.Apart := known_outline
  houtline.next h trivial hn

/-- A drop takes away records only. -/
theorem known_drop {e : Expiry} (h : Holds Known Frame.Known Frame.Apart c.pool) :
    Holds Known Frame.Known Frame.Apart (c.drop e).pool where
  shared := ⟨fun hget => h.shared.tasks (get_of_dropped hget), fun hid => h.shared.issued (stored_of_dropped hid)⟩
  frames hf :=
    have hknown := h.frames hf
    ⟨hknown.puts, hknown.held, hknown.issued, fun hid hstored => hknown.unstored hid (stored_of_dropped hstored),
      hknown.nodup⟩
  apart := h.apart

theorem known_next (h : Holds Known Frame.Known Frame.Apart c.pool) (hn : c.next tenant e = some c') :
    Holds Known Frame.Known Frame.Apart c'.pool := by
  cases e with
  | step l =>
    obtain ⟨pool, hpool, rfl⟩ := Option.map_eq_some_iff.mp hn
    exact known_step h hpool
  | filter cf key now =>
    obtain ⟨value, hget, rfl⟩ := Option.map_eq_some_iff.mp hn
    rcases c.ask_cases cf key value now with ⟨-, heq⟩ | ⟨-, heq⟩ <;> rw [heq]
    · exact h
    · exact known_drop h
  | reopen retention now =>
    cases hn
    exact .start ⟨h.shared.tasks, h.shared.issued⟩

/-! ### Keys and tasks -/

theorem known_withHistory {pool : Config Shared Frame} (hist : List Event) (h : Holds Known Frame.Known Frame.Apart pool) :
    Holds Known Frame.Known Frame.Apart ⟨pool.shared.withHistory hist, pool.threads⟩ where
  shared := ⟨h.shared.tasks, h.shared.issued⟩
  frames hf :=
    have hknown := h.frames hf
    ⟨hknown.puts, hknown.held, hknown.issued, hknown.unstored, hknown.nodup⟩
  apart := h.apart

theorem minted_of_told {h : List Event} {e : Expiry} {i : Nat} {k : Key} {id : String}
    (hmem : .minted i k id ∈ h ++ [e.told]) : .minted i k id ∈ h := by
  rcases List.mem_append.mp hmem with hold | hnew
  · exact hold
  · cases List.mem_singleton.mp hnew

/-- A drop keeps keys and tasks linked once it is told. -/
theorem linked_drop {s : Shared} {e : Expiry} {t : Task} (h : Linked s) (hget : s.db.get e.cf e.key = some (.task t))
    (hvalue : e.value = .task t) :
    Linked { s with db := s.db.apply (.delete e.cf e.key), history := s.history ++ [e.told] } where
  below hmem := h.below (minted_of_told hmem)
  seq := h.seq
  functional k id id' := fun ⟨i, hid⟩ ⟨j, hid'⟩ =>
    h.functional k id id' ⟨i, minted_of_told hid⟩ ⟨j, minted_of_told hid'⟩
  db := BoundDb.mono fun c k t' hget' => h.db c k t' (get_of_dropped hget')
  kept {w c k t'} hmem hkind hput := by
    rcases List.mem_append.mp hmem with hold | hnew
    · rcases h.kept hold hkind hput with hstored | hremoved
      · rcases stored_dropped hget hstored with hstored | heq
        · exact Or.inl hstored
        · -- The task that goes: its drop is the purge at the end.
          have htold : Removed [e.told] t'.id := removed_told.mpr ⟨t, hvalue, heq.symm⟩
          obtain ⟨w', c', k', t'', hw', hrest⟩ := htold
          exact Or.inr ⟨w', c', k', t'', List.mem_append_right _ hw', hrest⟩
      · exact Or.inr hremoved.mono
    · -- A purge is no enqueue.
      cases List.mem_singleton.mp hnew
      cases hkind

theorem kept_step {pool : Config Shared Frame} {l : Label Call StepInput} (h : c.Kept) (hok : lossless c.pool l = true)
    (hn : (system tenant).next c.pool l = some pool) : Kept { c with pool := pool } := by
  obtain ⟨hist, htells, hlinked⟩ := h.linked
  obtain ⟨es, hhist, hsame⟩ := next_withHistory hn
  obtain ⟨hunwrapped, hkeepsAll⟩ := Bool.and_eq_true_iff.mp hok
  have houtline : Outline (system tenant) (fun _ l => keepsAll l = true) (fun _ => True) (fun _ _ f => f.KeepsAll)
      fun _ _ => True := keeps_outline fun _ _ hl => hl
  refine ⟨known_step h.known hn, houtline.next h.keeps hkeepsAll hn, hist ++ es,
    ⟨fun {w} hw => ?_, fun {id} hid => ?_⟩, ?_⟩
  · have hw' : .wrote w ∈ c.pool.shared.history ++ es := hhist ▸ hw
    rcases List.mem_append.mp hw' with hold | hnew
    · exact List.mem_append_left _ (htells.wrote hold)
    · exact List.mem_append_right _ hnew
  · have hgoal : Removed (c.pool.shared.history ++ es) id ∨ Lapsed c.expired id := by
      rcases removed_append hid with hold | hnew
      · rcases htells.removed hold with hremoved | hlapsed
        · exact Or.inl hremoved.mono
        · exact Or.inr hlapsed
      · obtain ⟨w, cf, k, t, hmem, hrest⟩ := hnew
        exact Or.inl ⟨w, cf, k, t, List.mem_append_right _ hmem, hrest⟩
    exact hhist ▸ hgoal
  · refine linked_outline.next hlinked ⟨⟨hunwrapped, known_withHistory hist h.known⟩, ?_⟩ (hsame hist)
    exact ⟨trivial, h.keeps.frames, fun _ _ _ => trivial⟩

theorem kept_drop {cf : Cf} {key : Key} {value : Value} {now : Nat} (h : c.Kept)
    (hget : c.pool.shared.db.get cf key = some value)
    (hremove : (c.retention.filter cf).decision now value = .remove) : Kept (c.drop ⟨cf, key, value, c.retention, now⟩) := by
  obtain ⟨hist, htells, hlinked⟩ := h.linked
  obtain ⟨t, rfl⟩ := h.known.shared.tasks hget
  let e : Expiry := ⟨cf, key, .task t, c.retention, now⟩
  have hdue : e.Due t := due_of_remove hremove
  have hexpired : (c.drop e).expired = c.expired ++ [e] := rfl
  refine ⟨known_drop h.known, ⟨trivial, h.keeps.frames, fun _ _ _ => trivial⟩, hist ++ [e.told],
    ⟨fun hw => List.mem_append_left _ (htells.wrote hw), fun {id} hid => ?_⟩, ?_⟩
  · rw [hexpired]
    rcases removed_append hid with hold | hnew
    · rcases htells.removed hold with hremoved | ⟨e', hmem, hlapsed⟩
      · exact Or.inl hremoved
      · exact Or.inr ⟨e', List.mem_append_left _ hmem, hlapsed⟩
    · obtain ⟨t', hvalue, hid⟩ := removed_told.mp hnew
      cases hvalue
      exact Or.inr ⟨e, List.mem_append_right _ (List.mem_singleton_self _), t, rfl, hdue, hid⟩
  · refine ⟨linked_drop hlinked.shared hget rfl, fun hf => ?_, fun _ _ _ => trivial⟩
    exact (hlinked.frames hf).mono rfl

theorem kept_reopen {retention : RetentionPolicy} {now : Nat} (h : c.Kept) (hseq : c.pool.shared.seq ≤ now)
    (hnow : now < u64Size) (hn : c.next tenant (.reopen retention now) = some c') : c'.Kept := by
  cases hn
  obtain ⟨hist, htells, hlinked⟩ := h.linked
  have hlink := hlinked.shared
  have hmod : now % u64Size = now := Nat.mod_eq_of_lt hnow
  refine ⟨.start ⟨h.known.shared.tasks, h.known.shared.issued⟩, .start trivial, hist, ⟨htells.wrote, fun hid => ?_⟩,
    .start ⟨fun hmem => ?_, ?_, hlink.functional, hlink.db, hlink.kept⟩⟩
  · exact htells.removed hid
  · -- The counter goes on from a number that was not drawn yet.
    obtain ⟨queue, n, hkey, hlt⟩ := hlink.below hmem
    refine ⟨queue, n, hkey, ?_⟩
    calc n < c.pool.shared.seq := hlt
      _ ≤ now := hseq
      _ = now % u64Size := hmod.symm
  · exact Nat.mod_lt _ (by decide)

theorem kept_next (h : c.Kept) (hok : c.orderly e = true) (hn : c.next tenant e = some c') : c'.Kept := by
  cases e with
  | step l =>
    obtain ⟨pool, hpool, rfl⟩ := Option.map_eq_some_iff.mp hn
    exact kept_step h hok hpool
  | filter cf key now =>
    obtain ⟨value, hget, rfl⟩ := Option.map_eq_some_iff.mp hn
    rcases c.ask_cases cf key value now with ⟨-, heq⟩ | ⟨hremove, heq⟩ <;> rw [heq]
    · exact h
    · exact kept_drop h hget hremove
  | reopen retention now =>
    obtain ⟨hseq, hnow⟩ := of_decide_eq_true hok
    exact kept_reopen h hseq hnow hn

theorem kept_start {retention : RetentionPolicy} {now : Nat} : (start retention now).Kept where
  known := known_start
  keeps := .start trivial
  linked := ⟨[], ⟨fun hw => hw, fun hid => Or.inl hid⟩, .start linked_start⟩

end CompactedPool

/-- A task that an enqueue wrote is stored, or an acknowledgement or a purge deleted it, or a compaction dropped it when
    the test of its family's filter held. -/
theorem stored_removed_or_lapsed {tenant : String} {retention : RetentionPolicy} {now : Nat} {c : CompactedPool}
    (h : Runs.Run (CompactedPool.next tenant) (fun c e => c.orderly e = true) (.start retention now) c) {w : Write}
    {cf : Cf} {k : Key} {t : Task} (hw : .wrote w ∈ c.pool.shared.history) (hkind : w.kind = .enqueue)
    (hput : .put cf k (.task t) ∈ w.batch) :
    Stored c.pool.shared.db t.id ∨ Removed c.pool.shared.history t.id ∨ Lapsed c.expired t.id := by
  have hkept : c.Kept := h.invariant CompactedPool.kept_next CompactedPool.kept_start
  obtain ⟨hist, htells, hlinked⟩ := hkept.linked
  rcases hlinked.shared.kept (htells.wrote hw) hkind hput with hstored | hremoved
  · exact Or.inl hstored
  · exact Or.inr (htells.removed hremoved)

/-- Tasks are kept for a second, and a record is looked at before and after that. -/
def droppedWhilePending : List CompactionEvent :=
  [.step (.call (.enqueueBatch "q" [[1]] unlimited)), .step (.run 0 { now := 1000 }), .step (.run 0 { id := "a" }),
    .step (.run 0 {}), .filter .pending (encodeKey "q" 1) 2000, .step (.run 0 {}), .filter .pending (encodeKey "q" 1) 2001]

def aSecond : RetentionPolicy := ⟨1, 1, 1⟩

theorem stored_removed_or_lapsed_dropped :
    ∃ c, Runs.execWhile (CompactedPool.next "t") CompactedPool.orderly (.start aSecond 1) droppedWhilePending = some c ∧
      (Stored c.pool.shared.db "a" ∨ Removed c.pool.shared.history "a" ∨ Lapsed c.expired "a") := by
  refine ⟨(Runs.execWhile (CompactedPool.next "t") CompactedPool.orderly (.start aSecond 1) droppedWhilePending).get
    (by decide), (Option.some_get _).symm, ?_⟩
  let op : WriteOp := .put .pending (encodeKey "q" 1) (.task ⟨"a", "q", [1], 1000, 0, 0⟩)
  exact stored_removed_or_lapsed (w := ⟨0, .enqueue, [op], .empty, some (.enqueued ["a"])⟩)
    (Runs.run_of_execWhile (Option.some_get (by decide)).symm) (List.mem_cons_of_mem _ List.mem_cons_self) rfl
    (List.mem_singleton_self op)

/-! ## The counters -/

namespace CompactedTenants
variable {s s' : CompactedTenants} {e : TenantsEvent} {tenant : String}

/-- What happens to one tenant is what happens to it alone. -/
theorem tenant_of_next (h : s.next e = some s') (tenant : String) :
    s'.tenants tenant = s.tenants tenant ∨ (∃ retention now, s'.tenants tenant = .start retention now) ∨
      ∃ e', (s.tenants tenant).next tenant e' = some (s'.tenants tenant) := by
  -- An event is about one tenant, and leaves the others as they are.
  have hset : ∀ (t : String) (c : CompactedPool), Function.update s.tenants t c tenant = s.tenants tenant ∨
      t = tenant ∧ Function.update s.tenants t c tenant = c := fun t c => by
    by_cases ht : tenant = t
    · subst ht
      exact Or.inr ⟨rfl, Function.update_self _ _ _⟩
    · exact Or.inl (Function.update_of_ne ht _ _)
  cases e with
  | provision t retention now =>
    cases h
    rcases hset t (.start retention now) with hsame | ⟨-, hstart⟩
    · exact Or.inl hsame
    · exact Or.inr (Or.inl ⟨retention, now, hstart⟩)
  | step t l =>
    obtain ⟨c, hc, rfl⟩ := Option.map_eq_some_iff.mp h
    rcases hset t c with hsame | ⟨rfl, hnew⟩
    · exact Or.inl hsame
    · refine Or.inr (Or.inr ⟨.step l, hc.trans ?_⟩)
      exact congrArg some hnew.symm
  | filter t cf key now =>
    obtain ⟨value, hget, rfl⟩ := Option.map_eq_some_iff.mp h
    have htenants : (s.ask t cf key value now).tenants =
        Function.update s.tenants t ((s.tenants t).ask cf key value now) := by
      simp only [ask]
      split <;> rfl
    rw [htenants]
    rcases hset t ((s.tenants t).ask cf key value now) with hsame | ⟨rfl, hnew⟩
    · exact Or.inl hsame
    · refine Or.inr (Or.inr ⟨.filter cf key now, ?_⟩)
      rw [hnew]
      exact Option.map_eq_some_iff.mpr ⟨value, hget, rfl⟩
  | restart retention now =>
    cases h
    exact Or.inr (Or.inr ⟨.reopen (retention tenant) now, rfl⟩)

/-- How many tasks the filters dropped from one kind of families since the process started. -/
def drops (s : CompactedTenants) (cf : Cf) : Nat := s.dropped.countP fun e => e.2.cf = cf

/-- The drops were due, and the counters count what was decided. -/
structure Tallied (s : CompactedTenants) : Prop where
  due : ∀ {tenant e}, e ∈ (s.tenants tenant).expired → ∃ t, e.value = .task t ∧ e.Due t
  pendingExpired : s.counters.pendingExpired = s.drops .pending % u64Size
  dlqExpired : s.counters.dlqExpired = s.drops .dlq % u64Size
  inflightStale : s.counters.inflightStale = 0
  kept : s.counters.kept = s.keeps % u64Size

/-- Tasks only are stored, for every tenant. -/
def AllKnown (s : CompactedTenants) : Prop := ∀ tenant, Holds Known Frame.Known Frame.Apart (s.tenants tenant).pool

theorem allKnown_next (h : s.AllKnown) (hn : s.next e = some s') : s'.AllKnown := by
  intro tenant
  rcases tenant_of_next hn tenant with hsame | ⟨retention, now, hstart⟩ | ⟨e', hnext⟩
  · rw [hsame]
    exact h tenant
  · rw [hstart]
    exact known_start
  · exact CompactedPool.known_next (h tenant) hnext

/-- A tenant's step drops what is due. -/
theorem due_of_next {c c' : CompactedPool} {e : CompactionEvent} (hknown : Holds Known Frame.Known Frame.Apart c.pool)
    (h : ∀ e ∈ c.expired, ∃ t, e.value = .task t ∧ e.Due t) (hn : c.next tenant e = some c') :
    ∀ e ∈ c'.expired, ∃ t, e.value = .task t ∧ e.Due t := by
  cases e with
  | step l =>
    obtain ⟨pool, hpool, rfl⟩ := Option.map_eq_some_iff.mp hn
    exact h
  | filter cf key now =>
    obtain ⟨value, hget, rfl⟩ := Option.map_eq_some_iff.mp hn
    rcases c.ask_cases cf key value now with ⟨-, heq⟩ | ⟨hremove, heq⟩ <;> rw [heq]
    · exact h
    · obtain ⟨t, rfl⟩ := hknown.shared.tasks hget
      intro e he
      rcases List.mem_append.mp he with hold | hnew
      · exact h e hold
      · cases List.mem_singleton.mp hnew
        exact ⟨t, rfl, due_of_remove hremove⟩
  | reopen retention now =>
    cases hn
    exact h

theorem add_one_mod {n m : Nat} (h : n = m % u64Size) : (n + 1) % u64Size = (m + 1) % u64Size := by
  rw [h, Nat.mod_add_mod]

theorem drops_concat (l : List (String × Expiry)) (tenant : String) (e : Expiry) (cf : Cf) :
    (l ++ [(tenant, e)]).countP (fun e => e.2.cf = cf) = l.countP (fun e => e.2.cf = cf) + if e.cf = cf then 1 else 0 := by
  simp [List.countP_append, List.countP_singleton]

theorem tallied_ask {cf : Cf} {key : Key} {t : Task} {now : Nat} (h : s.Tallied)
    (hdue : ∀ {other e}, e ∈ ((s.ask tenant cf key (.task t) now).tenants other).expired →
      ∃ t, e.value = .task t ∧ e.Due t) : (s.ask tenant cf key (.task t) now).Tallied := by
  cases hdecision : ((s.tenants tenant).retention.filter cf).decision now (.task t) with
  | keep =>
    simp only [ask, hdecision] at hdue ⊢
    cases cf <;> exact ⟨hdue, h.pendingExpired, h.dlqExpired, h.inflightStale, add_one_mod h.kept⟩
  | remove =>
    have hnew : Expiry.Due ⟨cf, key, .task t, (s.tenants tenant).retention, now⟩ t := due_of_remove hdecision
    simp only [ask, hdecision] at hdue ⊢
    refine ⟨hdue, ?_, ?_, ?_, ?_⟩
    · rw [drops, drops_concat]
      cases cf with
      | pending => exact add_one_mod h.pendingExpired
      | inflight => exact hnew.elim
      | dlq => exact h.pendingExpired
    · rw [drops, drops_concat]
      cases cf with
      | pending => exact h.dlqExpired
      | inflight => exact hnew.elim
      | dlq => exact add_one_mod h.dlqExpired
    · cases cf with
      | pending => exact h.inflightStale
      | inflight => exact hnew.elim
      | dlq => exact h.inflightStale
    · cases cf with
      | pending => exact h.kept
      | inflight => exact hnew.elim
      | dlq => exact h.kept

theorem tallied_next (hknown : s.AllKnown) (h : s.Tallied) (hn : s.next e = some s') : s'.Tallied := by
  have hdue : ∀ {tenant e}, e ∈ (s'.tenants tenant).expired → ∃ t, e.value = .task t ∧ e.Due t := by
    intro tenant e he
    rcases tenant_of_next hn tenant with hsame | ⟨retention, now, hstart⟩ | ⟨e', hnext⟩
    · rw [hsame] at he
      exact h.due he
    · rw [hstart] at he
      cases he
    · exact due_of_next (hknown tenant) (fun e => h.due) hnext e he
  cases e with
  | provision t retention now =>
    cases hn
    exact ⟨hdue, h.pendingExpired, h.dlqExpired, h.inflightStale, h.kept⟩
  | step t l =>
    obtain ⟨c, hc, rfl⟩ := Option.map_eq_some_iff.mp hn
    exact ⟨hdue, h.pendingExpired, h.dlqExpired, h.inflightStale, h.kept⟩
  | filter t cf key now =>
    obtain ⟨value, hget, rfl⟩ := Option.map_eq_some_iff.mp hn
    obtain ⟨task, rfl⟩ := (hknown t).shared.tasks hget
    exact tallied_ask h hdue
  | restart retention now =>
    cases hn
    exact ⟨hdue, rfl, rfl, rfl, rfl⟩

end CompactedTenants

/-- Whatever the calls do, for all tenants together: compaction only ever drops tasks that wait or are dead letters, and
    only when the filter's test of their age holds, and the counters that a client gets say how many it dropped and kept
    since the process started. -/
theorem compaction_tallied {retention : String → RetentionPolicy} {now : Nat} {s : CompactedTenants}
    (h : Runs.Run CompactedTenants.next (fun _ _ => True) (.start retention now) s) : s.Tallied := by
  have hboth : s.AllKnown ∧ s.Tallied :=
    h.invariant (I := fun s => s.AllKnown ∧ s.Tallied)
      (fun hs _ hn => ⟨CompactedTenants.allKnown_next hs.1 hn, CompactedTenants.tallied_next hs.1 hs.2 hn⟩)
      ⟨fun _ => known_start, fun hmem => (by cases hmem), rfl, rfl, rfl, rfl⟩
  exact hboth.2

/-- The same of two tenants, one of which keeps its tasks. -/
def droppedForOne : List TenantsEvent :=
  ["t", "u"].flatMap fun tenant =>
    [.step tenant (.call (.enqueueBatch "q" [[1]] unlimited)), .step tenant (.run 0 { now := 1000 }),
      .step tenant (.run 0 { id := "a" }), .step tenant (.run 0 {}), .filter tenant .pending (encodeKey "q" 1) 2001]

theorem compaction_tallied_dropped :
    ∃ s, Runs.exec CompactedTenants.next (.start (fun tenant => if tenant = "t" then aSecond else ⟨0, 1, 1⟩) 1)
        droppedForOne = some s ∧ s.getCompactionStats "u" = ("u", ⟨1, 0, 0, 1⟩) ∧ s.Tallied := by
  have hruns : (Runs.exec CompactedTenants.next (.start (fun tenant => if tenant = "t" then aSecond else ⟨0, 1, 1⟩) 1)
      droppedForOne).map (fun s => s.getCompactionStats "u") = some ("u", ⟨1, 0, 0, 1⟩) := by
    decide
  obtain ⟨s, hs, hstats⟩ := Option.map_eq_some_iff.mp hruns
  exact ⟨s, hs, hstats, compaction_tallied (Runs.run_of_exec hs)⟩

end RocksQueue
