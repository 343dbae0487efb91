import RocksQueue.Theorems.Origin

/-! # Ack keys of earlier deliveries

A task that is delivered twice has two holders of an ack key. A nack or a replay in between gives the task
a new key, and the earlier holder can do no more to it. The reaper leaves the key as it is, and then both
hold the same one. -/

namespace RocksQueue
open TenantDb

/-- The counter does not wrap, and a restart finds the clock above every stored number. -/
def Action.InOrder (tenant : String) (t : Tenant) (a : Action) : Prop :=
  a.noWrap tenant t ∧ a.reseedsAbove t = true

/-- `j'` is reached from `j` by calls and restarts in order. -/
abbrev Leads (tenant : String) : Journal → Journal → Prop :=
  Runs.Run (Journal.next tenant) fun j a => a.InOrder tenant j.tenant

/-- The next action is a dequeue that returns the task under the key. -/
structure Handed (tenant : String) (j : Journal) (a : Action) (k : Key) (x : Task) (j' : Journal) : Prop where
  next : Journal.next tenant j a = some j'
  returned : ∃ e, j'.log = j.log ++ [e] ∧ (k, x) ∈ e.reply.results

/-- Somewhere on the way the task gets a new key. -/
def Rekeyed (tenant : String) (id : String) : Journal → Journal → Prop :=
  Runs.Passes (Journal.next tenant) (fun j a => a.InOrder tenant j.tenant) fun j a => a.Rekeys id j.tenant

/-- No nack under `later`, unless it comes from the holder of `earlier`, and no sweep after the deadline. -/
def Action.Spares (earlier later : Key) (deadline : Nat) : Action → Prop
  | .call _ (.nack key) => key = earlier ∨ key ≠ later
  | .call io (.reapInflight _) => io.now ≤ deadline
  | _ => True

/-- The key `earlier` is of no use against the delivery of `y` under `later`: an ack or a nack under it
    leaves the delivered record as it is, and the task is not delivered again before its deadline unless
    it is nacked under `later`. -/
structure Fenced (tenant : String) (earlier later : Key) (y : Task) (j : Journal) : Prop where
  kept : ∀ {j₁ j₂ io call}, Leads tenant j j₁ → call = .ackBatch [earlier] ∨ call = .nack earlier →
    Journal.next tenant j₁ (.call io call) = some j₂ →
    j₂.tenant.db.get .inflight later = j₁.tenant.db.get .inflight later
  notRedelivered : ∀ {j₁ a k z j₂}, Runs.Run (Journal.next tenant)
      (fun j a => a.InOrder tenant j.tenant ∧ a.Spares earlier later y.deadline) j j₁ →
    (issued j₂.log).Nodup → Handed tenant j₁ a k z j₂ → z.id ≠ y.id

/-- What a history keeps. -/
structure Tracked (tenant : String) (j : Journal) : Prop extends Seeded tenant j where
  named : (issued j.log).Nodup → Named j

section Tracking
variable {tenant : String} {j j' : Journal} {a : Action} {c : Cf} {k : Key} {x : Task}

theorem tracked_start (now : Nat) : Tracked tenant (.start now) := by
  refine ⟨⟨Nat.mod_lt _ (by decide), fun c k v hget => ?_, fun e he => by cases he⟩, fun _ => named_start now⟩
  simp [Journal.start, Tenant.open] at hget

theorem issued_next (hn : Journal.next tenant j a = some j') : issued j.log <+: issued j'.log := by
  cases a with
  | other =>
    cases hn
    exact List.prefix_refl _
  | reopen now =>
    cases hn
    exact List.prefix_refl _
  | call io call =>
    simp only [Journal.next] at hn
    split at hn
    · cases hn
    · cases hn
      rw [issued_append]
      exact List.prefix_append _ _

theorem nodup_next (hn : Journal.next tenant j a = some j') (h : (issued j'.log).Nodup) : (issued j.log).Nodup :=
  h.sublist (issued_next hn).sublist

theorem nodup_run {ok : Journal → Action → Prop} (hrun : Runs.Run (Journal.next tenant) ok j j')
    (h : (issued j'.log).Nodup) : (issued j.log).Nodup := by
  induction hrun with
  | refl => exact h
  | step _ _ hn ih => exact ih (nodup_next hn h)

theorem tracked_next (h : Tracked tenant j) (hok : a.InOrder tenant j.tenant) (hn : Journal.next tenant j a = some j') :
    Tracked tenant j' := by
  refine ⟨seeded_next h.toSeeded hok.1 hok.2 hn, fun hnodup => ?_⟩
  have hnamed := h.named (nodup_next hn hnodup)
  cases a with
  | other =>
    cases hn
    exact hnamed.of_db_eq rfl
  | reopen now =>
    cases hn
    exact hnamed.of_db_eq rfl
  | call io call =>
    simp only [Journal.next] at hn
    split at hn
    · cases hn
    · rename_i t reply hexec
      cases hn
      exact hnamed.completed (exec_outcome h.seq hexec).1 hnodup

/-- After an action, a task is under the key that it had, or under a new one if the action makes one. -/
theorem key_next (h : Tracked tenant j) (hok : a.InOrder tenant j.tenant) (hn : Journal.next tenant j a = some j')
    (hnodup : (issued j'.log).Nodup) (hid : x.id ∈ issued j.log) (hget : j'.tenant.db.get c k = some (.task x)) :
    (¬a.Rekeys x.id j.tenant ∧ ∃ c₀ x₀, j.tenant.db.get c₀ k = some (.task x₀) ∧ x₀.id = x.id) ∨
      (a.Rekeys x.id j.tenant ∧ ∃ s, k = encodeKey x.queue s ∧ j.tenant.seq ≤ s ∧ s < u64Size) := by
  have hnamed := h.named (nodup_next hn hnodup)
  cases a with
  | other =>
    cases hn
    exact Or.inl ⟨id, c, x, hget, rfl⟩
  | reopen now =>
    cases hn
    exact Or.inl ⟨id, c, x, hget, rfl⟩
  | call io call =>
    simp only [Journal.next] at hn
    split at hn
    · cases hn
    · rename_i t reply hexec
      cases hn
      cases (exec_outcome h.seq hexec).1.origin hnamed.tasks hok.1 hget with
      | kept hold hclear =>
        refine Or.inl ⟨fun hrekeys => hclear ?_, c, x, hold, rfl⟩
        cases call with
        | nack key =>
          obtain ⟨y, hy, hyid, -⟩ := hrekeys
          exact hnamed.unique.unique hold hy hyid.symm
        | replayDlq =>
          obtain ⟨key, y, hy, hyid⟩ := hrekeys
          exact (hnamed.unique.unique hold hy hyid.symm).1
        | _ => exact hrekeys.elim
      | enqueued hnew =>
        rw [issued_append] at hnodup
        exact absurd rfl ((List.nodup_append.mp hnodup).2.2 _ hid _ hnew)
      | @moved kind m hm htakes hkey hnot =>
        obtain ⟨x₀, hx₀, hx₀id, -⟩ := hm.stored hnamed.tasks
        exact Or.inl ⟨hnot, m.src, x₀, hkey ▸ hx₀, hx₀id⟩
      | @rekeyed kind m s hm htakes hrekeys hkey hle hlt => exact Or.inr ⟨hrekeys, s, hkey, hle, hlt⟩

theorem tracked_run (h : Tracked tenant j) (hrun : Leads tenant j j') : Tracked tenant j' :=
  hrun.invariant (fun hj hok hn => tracked_next hj hok hn) h

/-! ## One delivery -/

/-- Every record of the task is under the key. -/
def UnderKey (id : String) (key : Key) (j : Journal) : Prop :=
  ∀ c k x, j.tenant.db.get c k = some (.task x) → x.id = id → k = key

/-- Every record of the task is under a number from `n` on. -/
def FromNumber (id : String) (n : Nat) (j : Journal) : Prop :=
  ∀ c k x, j.tenant.db.get c k = some (.task x) → x.id = id → ∃ q s, k = encodeKey q s ∧ n ≤ s ∧ s < u64Size

theorem isDequeue_inOrder {io : Inputs} {call : Call} (h : Tracked tenant j) (hcall : call.isDequeue = true) :
    (Action.call io call).InOrder tenant j.tenant := by
  have hseq : j.tenant.seq + 0 < u64Size := h.seq
  cases call with
  | dequeueBatch => exact ⟨hseq, rfl⟩
  | dequeueWithMaxInflight => exact ⟨hseq, rfl⟩
  | _ => cases hcall

/-- A delivery takes the task from pending, leaves it inflight under the key it returns, and is in order. -/
theorem Handed.spec (h : Handed tenant j a k x j') (hj : Tracked tenant j) :
    a.InOrder tenant j.tenant ∧ j'.tenant.db.get .inflight k = some (.task x) ∧ issued j'.log = issued j.log ∧
      ∃ x₀, j.tenant.db.get .pending k = some (.task x₀) ∧ x₀.id = x.id := by
  obtain ⟨hn, e, hlog, hmem⟩ := h
  have hlonger : j'.log ≠ j.log := by simp [hlog]
  cases a with
  | other =>
    cases hn
    -- A delivery is in the log, so it is a call.
    exact absurd rfl hlonger
  | reopen now =>
    cases hn
    exact absurd rfl hlonger
  | call io call =>
    simp only [Journal.next] at hn
    split at hn
    · cases hn
    · rename_i t reply hexec
      cases hn
      obtain rfl := List.singleton_inj.mp (List.append_cancel_left hlog)
      obtain ⟨db', seq'⟩ := t
      cases (exec_outcome hj.seq hexec).1 with
      | @deliver _ b ms hcall hms hkeys hmoved =>
        obtain ⟨m, hm, heq⟩ := List.mem_map.mp hmem
        obtain ⟨hm, hdst⟩ := List.mem_filter.mp hm
        cases heq
        have hdst := of_decide_eq_true hdst
        refine ⟨isDequeue_inOrder hj hcall, ?_, by simp [Reply.issued], ?_⟩
        -- The dequeue deletes from pending only, so what it puts inflight stays.
        · have hdel : .delete .inflight m.newKey ∉ b := fun hdel => by
            obtain ⟨m', hm', hsrc, -⟩ := hms.mem_delete.mp hdel
            rw [(hmoved m' hm').src_eq] at hsrc
            cases hsrc
          obtain ⟨v, hget, hput⟩ := get_write_of_put j.tenant.db (hms.mem_put.mpr ⟨m, hm, hdst, rfl, rfl⟩) hdel
          obtain ⟨m', hm', -, hkey, rfl⟩ := hms.mem_put.mp hput
          rw [(hmoved m' hm').newKey_eq (Or.inl rfl), (hmoved m hm).newKey_eq (Or.inl rfl)] at hkey
          obtain rfl := List.inj_on_of_nodup_map hkeys hm' hm hkey
          exact hget
        · have hmoved := hmoved m hm
          generalize m = m₀ at hmoved hdst
          cases hmoved with
          | deliver hget => exact ⟨_, hget, rfl⟩
          | poisonPending => cases hdst
          | poisonInflight => cases hdst
      | _ => cases hmem

theorem Handed.tracked (h : Handed tenant j a k x j') (hj : Tracked tenant j) : Tracked tenant j' :=
  tracked_next hj (h.spec hj).1 h.next

/-! ## Between two deliveries -/

variable {id : String} {key : Key} {n : Nat}

/-- What a run keeps of a task that was enqueued before. -/
theorem run_task {I : Journal → Prop} {ok : Journal → Action → Prop} (hsub : ∀ j a, ok j a → a.InOrder tenant j.tenant)
    (hstep : ∀ {j a j'}, Tracked tenant j → id ∈ issued j.log → ok j a → Journal.next tenant j a = some j' →
      (issued j'.log).Nodup → I j → I j')
    (hrun : Runs.Run (Journal.next tenant) ok j j') (hj : Tracked tenant j) (hid : id ∈ issued j.log)
    (hnodup : (issued j'.log).Nodup) (h : I j) : Tracked tenant j' ∧ id ∈ issued j'.log ∧ I j' := by
  induction hrun with
  | refl => exact ⟨hj, hid, h⟩
  | step _ hok hn ih =>
    obtain ⟨hd, hidd, hI⟩ := ih (nodup_next hn hnodup)
    exact ⟨tracked_next hd (hsub _ _ hok) hn, (issued_next hn).subset hidd, hstep hd hidd hok hn hnodup hI⟩

theorem underKey_next (hj : Tracked tenant j) (hid : id ∈ issued j.log) (hok : a.InOrder tenant j.tenant)
    (hnot : ¬a.Rekeys id j.tenant) (hn : Journal.next tenant j a = some j') (hnodup : (issued j'.log).Nodup)
    (h : UnderKey id key j) : UnderKey id key j' := by
  intro c k x hget hxid
  subst hxid
  rcases key_next hj hok hn hnodup hid hget with ⟨-, c₀, x₀, hx₀, hx₀id⟩ | ⟨hrekeys, -⟩
  · exact h c₀ k x₀ hx₀ hx₀id
  · exact absurd hrekeys hnot

/-- What an action moves to a new key was stored before. -/
theorem Action.Rekeys.stored (h : a.Rekeys id j.tenant) : ∃ c k x, j.tenant.db.get c k = some (.task x) ∧ x.id = id := by
  cases a with
  | call io call =>
    cases call with
    | nack key =>
      obtain ⟨x, hx, hid, -⟩ := h
      exact ⟨.inflight, key, x, hx, hid⟩
    | replayDlq =>
      obtain ⟨key, x, hx, hid⟩ := h
      exact ⟨.dlq, key, x, hx, hid⟩
    | _ => exact h.elim
  | _ => exact h.elim

/-- New numbers are above the numbers stored. -/
theorem FromNumber.lt_seq (h : FromNumber id n j) (hj : Tracked tenant j) {c : Cf} {k : Key} {x : Task}
    (hget : j.tenant.db.get c k = some (.task x)) (hid : x.id = id) : n < j.tenant.seq := by
  obtain ⟨q, s, hk, hle, hlt⟩ := h c k x hget hid
  obtain ⟨x', s', -, hk', hs'⟩ := hj.below c k _ hget
  have hseq := hj.seq
  obtain ⟨-, rfl⟩ := encodeKey_inj hlt (by omega) (hk.symm.trans hk')
  omega

theorem fromNumber_next (hj : Tracked tenant j) (hid : id ∈ issued j.log) (hok : a.InOrder tenant j.tenant)
    (hn : Journal.next tenant j a = some j') (hnodup : (issued j'.log).Nodup) (h : FromNumber id n j) :
    FromNumber id n j' ∧ (a.Rekeys id j.tenant → FromNumber id (n + 1) j') := by
  have hnew : ∀ {c k x}, j'.tenant.db.get c k = some (.task x) → x.id = id → a.Rekeys id j.tenant →
      ∃ q s, k = encodeKey q s ∧ n + 1 ≤ s ∧ s < u64Size := by
    intro c k x hget hxid hrekeys
    subst hxid
    obtain ⟨c₀, k₀, x₀, hx₀, hx₀id⟩ := hrekeys.stored
    have hseq := h.lt_seq hj hx₀ hx₀id
    rcases key_next hj hok hn hnodup hid hget with ⟨hnot, -⟩ | ⟨-, s, hk, hle, hlt⟩
    · exact absurd hrekeys hnot
    · exact ⟨x.queue, s, hk, by omega, hlt⟩
  refine ⟨fun c k x hget hxid => ?_, fun hrekeys c k x hget hxid => hnew hget hxid hrekeys⟩
  by_cases hrekeys : a.Rekeys id j.tenant
  · obtain ⟨q, s, hk, hle, hlt⟩ := hnew hget hxid hrekeys
    exact ⟨q, s, hk, by omega, hlt⟩
  · subst hxid
    rcases key_next hj hok hn hnodup hid hget with ⟨-, c₀, x₀, hx₀, hx₀id⟩ | ⟨hyes, -⟩
    · exact h c₀ k x₀ hx₀ hx₀id
    · exact absurd hyes hrekeys

variable {k k' : Key} {x y : Task} {jA jB : Journal}

/-- A task delivered once more has the key of the first delivery, unless it got a new key. -/
theorem same_key (hA : Tracked tenant jA) (hget : jA.tenant.db.get .inflight k = some (.task x))
    (hid : x.id ∈ issued jA.log)
    (hrun : Runs.Run (Journal.next tenant) (fun j a => a.InOrder tenant j.tenant ∧ ¬a.Rekeys x.id j.tenant) jA jB)
    (hnodup : (issued jB.log).Nodup) : UnderKey x.id k jB := by
  have hstart : UnderKey x.id k jA := fun c' k' x' hget' hid' =>
    ((hA.named (nodup_run hrun hnodup)).unique.unique hget' hget hid').2
  exact (run_task (fun _ _ hok => hok.1) (fun hj hid hok hn hnodup h => underKey_next hj hid hok.1 hok.2 hn hnodup h)
    hrun hA hid hnodup hstart).2.2

theorem new_key (hA : Tracked tenant jA) (hget : jA.tenant.db.get .inflight k = some (.task x))
    (hid : x.id ∈ issued jA.log) (hrekeyed : Rekeyed tenant x.id jA jB) (hnodup : (issued jB.log).Nodup)
    {c : Cf} (hgetB : jB.tenant.db.get c k' = some (.task y)) (hyid : y.id = x.id) : k' ≠ k := by
  obtain ⟨j₁, a, j₂, hrun₁, hok, hrekeys, hn, hrun₂⟩ := hrekeyed
  have hnodup₂ := nodup_run hrun₂ hnodup
  have hnodup₁ := nodup_next hn hnodup₂
  obtain ⟨x', s, hv, hk, hs⟩ := hA.below _ _ _ hget
  have hseq := hA.seq
  have hstart : FromNumber x.id s jA := fun c' k' x' hget' hid' => by
    obtain ⟨-, rfl⟩ := (hA.named (nodup_run hrun₁ hnodup₁)).unique.unique hget' hget hid'
    exact ⟨_, s, hk, Nat.le_refl _, by omega⟩
  have hstep : ∀ {n j a j'}, Tracked tenant j → x.id ∈ issued j.log → Action.InOrder tenant j.tenant a →
      Journal.next tenant j a = some j' → (issued j'.log).Nodup → FromNumber x.id n j → FromNumber x.id n j' :=
    fun hj hid hok hn hnodup h => (fromNumber_next hj hid hok hn hnodup h).1
  obtain ⟨h₁, hid₁, hfrom₁⟩ := run_task (fun _ _ hok => hok) hstep hrun₁ hA hid hnodup₁ hstart
  have hfrom₂ := (fromNumber_next h₁ hid₁ hok hn hnodup₂ hfrom₁).2 hrekeys
  obtain ⟨-, -, hfrom⟩ := run_task (fun _ _ hok => hok) hstep hrun₂ (tracked_next h₁ hok hn)
    ((issued_next hn).subset hid₁) hnodup hfrom₂
  obtain ⟨q, s', hk', hle, hlt⟩ := hfrom c k' y hgetB hyid
  rintro rfl
  obtain ⟨-, rfl⟩ := encodeKey_inj hlt (by omega) (hk'.symm.trans hk)
  omega

/-! ## After the later delivery -/

/-- The task is stored nowhere but inflight, as it was delivered. -/
def OnlyDelivered (key : Key) (y : Task) (j : Journal) : Prop :=
  ∀ c k z, j.tenant.db.get c k = some (.task z) → z.id = y.id → c = .inflight ∧ k = key ∧ z = y

theorem onlyDelivered_next (hne : k' ≠ k) (hj : Tracked tenant j) (hid : y.id ∈ issued j.log)
    (hok : a.InOrder tenant j.tenant) (hspares : a.Spares k k' y.deadline) (hn : Journal.next tenant j a = some j')
    (hnodup : (issued j'.log).Nodup) (h : OnlyDelivered k' y j) : OnlyDelivered k' y j' := by
  intro c key z hget hzid
  have hnamed := hj.named (nodup_next hn hnodup)
  cases a with
  | other =>
    cases hn
    exact h c key z hget hzid
  | reopen now =>
    cases hn
    exact h c key z hget hzid
  | call io call =>
    simp only [Journal.next] at hn
    split at hn
    · cases hn
    · rename_i t reply hexec
      cases hn
      -- No call of the run moves the task: it is inflight under a key of its own, and has not expired.
      have hmoves : ∀ {kind m}, Moved j.tenant.db io.now kind m → call.Takes kind m.key → m.task.id ≠ y.id := by
        intro kind m hm htakes hmid
        obtain ⟨x₀, hx₀, hx₀id, -⟩ := hm.stored hnamed.tasks
        obtain ⟨hsrc, hkey, rfl⟩ := h _ _ _ hx₀ (hx₀id.trans hmid)
        rw [hm.src_eq] at hsrc
        cases call with
        | dequeueBatch =>
          obtain rfl : kind = .dequeue := htakes
          cases hsrc
        | dequeueWithMaxInflight =>
          obtain rfl : kind = .dequeue := htakes
          cases hsrc
        | nack key' =>
          obtain ⟨-, rfl⟩ := htakes
          rcases hspares with rfl | hother
          · exact hne hkey.symm
          · exact hother hkey
        | reapInflight queue =>
          obtain rfl : kind = .reap := htakes
          have hspares : io.now ≤ x₀.deadline := hspares
          cases hm with
          | reclaim hread hexp =>
            rw [hread] at hx₀
            cases hx₀
            simp only [Task.expired, Bool.and_eq_true, decide_eq_true_eq] at hexp
            omega
          | poisonInflight _ hread => exact absurd (hnamed.tasks hread) (by simp)
        | replayDlq =>
          obtain rfl : kind = .replay := htakes
          cases hsrc
        | _ => exact htakes.elim
      cases (exec_outcome hj.seq hexec).1.origin hnamed.tasks hok.1 hget with
      | kept hold _ => exact h c key z hold hzid
      -- A task with this id is not enqueued again.
      | enqueued hnew =>
        rw [issued_append] at hnodup
        exact absurd hzid.symm ((List.nodup_append.mp hnodup).2.2 _ hid _ hnew)
      | moved hm htakes => exact absurd hzid (hmoves hm htakes)
      | rekeyed hm htakes => exact absurd hzid (hmoves hm htakes)

/-- An ack or a nack touches no inflight record but the one under its key. -/
theorem inflight_next {io : Inputs} {call : Call} (hcall : call = .ackBatch [k] ∨ call = .nack k) (hne : k' ≠ k)
    (hn : Journal.next tenant j (.call io call) = some j') :
    j'.tenant.db.get .inflight k' = j.tenant.db.get .inflight k' := by
  rcases hcall with rfl | rfl
  · cases hn
    refine get_write_of_untouched (fun v hput => put_not_mem_deletes hput) fun hdel => ?_
    have hmem := (mem_ackLoop.mp (mem_deletes.mp hdel).2).1
    exact hne (List.mem_singleton.mp hmem)
  · cases hn
    simp only [Tenant.nack]
    split
    · rfl
    · refine get_write_of_untouched (fun v hput => ?_) fun hdel => ?_ <;> simp [poisonBatch, hne] at *
    · split
      · refine get_write_of_untouched (fun v hput => ?_) fun hdel => ?_ <;> simp [deadLetterBatch, hne] at *
      · refine get_write_of_untouched (fun v hput => ?_) fun hdel => ?_ <;> simp [retryBatch, hne] at *

/-- An ack under the key of the record removes it. -/
theorem inflight_acked {io : Inputs} (hn : Journal.next tenant j (.call io (.ackBatch [k])) = some j') :
    j'.tenant.db.get .inflight k = none := by
  cases hn
  cases hget : (j.tenant.db.ackBatch [k]).1.get .inflight k with
  | none => rfl
  | some v =>
    obtain ⟨hold, hnot⟩ := get_deletes hget
    exact absurd ⟨rfl, mem_ackLoop.mpr ⟨List.mem_singleton_self k, List.not_mem_nil, by simp [hold]⟩⟩ hnot

theorem fenced_of_ne (hne : k' ≠ k) (hj : Tracked tenant j) (hget : j.tenant.db.get .inflight k' = some (.task y))
    (hid : y.id ∈ issued j.log) : Fenced tenant k k' y j := by
  refine ⟨fun _ hcall hn => inflight_next hcall hne hn, fun {j₁ a key z j₂} hrun hnodup hhanded hzid => ?_⟩
  have hnodup₁ := nodup_next hhanded.next hnodup
  have hstart : OnlyDelivered k' y j := fun c key z hz hzid => by
    obtain ⟨rfl, rfl⟩ := (hj.named (nodup_run hrun hnodup₁)).unique.unique hz hget hzid
    rw [hget] at hz
    exact ⟨rfl, rfl, (Value.task.inj (Option.some.inj hz)).symm⟩
  obtain ⟨h₁, -, honly⟩ := run_task (fun _ _ hok => hok.1)
    (fun hj hid hok hn hnodup h => onlyDelivered_next hne hj hid hok.1 hok.2 hn hnodup h) hrun hj hid hnodup₁ hstart
  obtain ⟨-, -, -, z₀, hz₀, hz₀id⟩ := hhanded.spec h₁
  cases (honly _ _ _ hz₀ (hz₀id.trans hzid)).1

/-- A key is of use against the delivery that returned it. -/
theorem not_fenced_self (hget : j.tenant.db.get .inflight k = some (.task y)) : ¬Fenced tenant k k y j := by
  intro hfenced
  have hn : Journal.next tenant j (.call { now := 0 } (.ackBatch [k])) = some _ := rfl
  have hkept := hfenced.kept .refl (Or.inl rfl) hn
  rw [hget, inflight_acked hn] at hkept
  cases hkept

/-- The key of an earlier delivery of a task is of no use against a later one exactly when the task got a
    new key in between; otherwise both deliveries have the same key. -/
theorem fenced_iff_rekeyed {now : Nat} {jA' jB' : Journal} {a b : Action} (hrun : Leads tenant (.start now) jA)
    (hA : Handed tenant jA a k x jA') (hbetween : Leads tenant jA' jB) (hB : Handed tenant jB b k' y jB')
    (hsame : y.id = x.id) (hids : (issued jB'.log).Nodup) :
    (Fenced tenant k k' y jB' ↔ Rekeyed tenant x.id jA' jB) ∧ (Rekeyed tenant x.id jA' jB ∨ k' = k) := by
  have hjA := tracked_run (tracked_start now) hrun
  have hjA' := hA.tracked hjA
  have hjB := tracked_run hjA' hbetween
  have hjB' := hB.tracked hjB
  obtain ⟨-, hgetA, -, -⟩ := hA.spec hjA
  obtain ⟨-, hgetB, hissued, y₀, hy₀, hy₀id⟩ := hB.spec hjB
  have hidsB : (issued jB.log).Nodup := hissued ▸ hids
  have hidA : x.id ∈ issued jA'.log := (hjA'.named (nodup_run hbetween hidsB)).known ⟨_, _, x, hgetA, rfl⟩
  have hidB : y.id ∈ issued jB'.log := (hjB'.named hids).known ⟨_, _, y, hgetB, rfl⟩
  have hor : Rekeyed tenant x.id jA' jB ∨ k' = k := by
    refine (hbetween.passes_or _).imp_right fun hnot => ?_
    exact same_key hjA' hgetA hidA hnot hidsB _ k' y₀ hy₀ (hy₀id.trans hsame)
  refine ⟨⟨fun hfenced => hor.resolve_right ?_, fun hrekeyed => ?_⟩, hor⟩
  · rintro rfl
    exact not_fenced_self hgetB hfenced
  · have hne := new_key hjA' hgetA hidA hrekeyed hidsB hy₀ (hy₀id.trans hsame)
    exact fenced_of_ne hne hjB' hgetB hidB

end Tracking

/-! ## Runs -/

/-- A task is enqueued while the process starts at `now`, and consumer A dequeues it. -/
def enqueueAt (now : Nat) : Action := .call { now := now, ids := ["a"] } (.enqueueBatch "q" [[1]] (.standard "t"))

def dequeueAt (now : Nat) : Action := .call { now := now } (.dequeueBatch "q" 1 10)

def nackAt (now : Nat) (key : Key) : Action := .call { now := now } (.nack key)

def reapAt (now : Nat) : Action := .call { now := now } (.reapInflight "q")

theorem handed_dequeueAt {j : Journal} {now : Nat} {k : Key} {x : Task}
    (h : (k, x) ∈ (j.tenant.db.dequeueBatch "q" 1 10 now).2) :
    Handed "t" j (dequeueAt now) k x ((Journal.next "t" j (dequeueAt now)).get rfl) :=
  ⟨rfl, _, rfl, h⟩

instance (tenant : String) (t : Tenant) (a : Action) : Decidable (a.InOrder tenant t) :=
  inferInstanceAs (Decidable (_ ∧ _))

theorem leads_of_execWhile {j j' : Journal} {as : List Action}
    (h : Runs.execWhile (Journal.next "t") (fun j a => a.InOrder "t" j.tenant) j as = some j') : Leads "t" j j' :=
  (Runs.run_of_execWhile h).mono fun _ _ => of_decide_eq_true

/-- The reaper returns the task, and its next holder nacks it. -/
theorem fenced_nacked : ∃ jB jB' y, Runs.exec (Journal.next "t") (.start 5)
    [enqueueAt 5, dequeueAt 6, reapAt 20, dequeueAt 21, nackAt 22 (encodeKey "q" 5)] = some jB ∧
    Handed "t" jB (dequeueAt 23) (encodeKey "q" 6) y jB' ∧
    Fenced "t" (encodeKey "q" 5) (encodeKey "q" 6) y jB' := by
  let test : Journal → Action → Bool := fun j a => a.InOrder "t" j.tenant
  let jA := (Runs.execWhile (Journal.next "t") test (.start 5) [enqueueAt 5]).get (by decide)
  let jA' := (Journal.next "t" jA (dequeueAt 6)).get rfl
  let j₁ := (Runs.execWhile (Journal.next "t") test jA' [reapAt 20, dequeueAt 21]).get (by decide)
  let jB := (Journal.next "t" j₁ (nackAt 22 (encodeKey "q" 5))).get rfl
  let jB' := (Journal.next "t" jB (dequeueAt 23)).get rfl
  have hA : Handed "t" jA (dequeueAt 6) (encodeKey "q" 5) ⟨"a", "q", [1], 5, 1, 16⟩ jA' := handed_dequeueAt (by decide)
  have hB : Handed "t" jB (dequeueAt 23) (encodeKey "q" 6) ⟨"a", "q", [1], 5, 3, 33⟩ jB' := handed_dequeueAt (by decide)
  have h₁ : Leads "t" jA' j₁ := leads_of_execWhile (Option.some_get _).symm
  have hok : (nackAt 22 (encodeKey "q" 5)).InOrder "t" j₁.tenant := by decide
  have hrekeys : (nackAt 22 (encodeKey "q" 5)).Rekeys "a" j₁.tenant :=
    ⟨⟨"a", "q", [1], 5, 2, 31⟩, by decide, rfl, by decide⟩
  have hfenced := (fenced_iff_rekeyed (leads_of_execWhile (Option.some_get _).symm) hA (h₁.step hok rfl) hB rfl
    (by decide)).1.mpr ⟨j₁, _, jB, h₁, hok, hrekeys, rfl, .refl⟩
  exact ⟨jB, jB', _, rfl, hB, hfenced⟩

/-- Started at `now`, the calls `before` and a dequeue that returns a task, then the calls `between` and a
    dequeue that returns the same task under the same key. -/
def SameKey (now : Nat) (before : List Action) (a : Action) (between : List Action) (b : Action) (k : Key) : Prop :=
  ∃ jA jA' jB jB' x y, Runs.exec (Journal.next "t") (.start now) before = some jA ∧ Handed "t" jA a k x jA' ∧
    Runs.exec (Journal.next "t") jA' between = some jB ∧ Handed "t" jB b k y jB' ∧ y.id = x.id ∧
    (issued jB'.log).Nodup ∧ ¬Fenced "t" k k y jB'

theorem exec_others {n : Nat} {rest : List Action} {j j' : Journal} (hseq : j.tenant.seq < u64Size)
    (h : Runs.exec (Journal.next "t") { j with tenant := { j.tenant with seq := advance j.tenant.seq n } } rest = some j') :
    Runs.exec (Journal.next "t") j (List.replicate n .other ++ rest) = some j' := by
  induction n generalizing j with
  | zero =>
    rw [advance_zero hseq] at h
    exact h
  | succ n ih =>
    rw [← advance_succ] at h
    exact ih (Nat.mod_lt _ (by decide)) h

/-- The reaper leaves the key as it is; a restart before the clock has passed the stored numbers, and a
    counter that starts over, make an old key again. -/
theorem not_fenced_reaped : SameKey 5 [enqueueAt 5] (dequeueAt 6) [reapAt 20] (dequeueAt 21) (encodeKey "q" 5) ∧
    SameKey 5 (List.replicate 15 .other ++ [enqueueAt 6]) (dequeueAt 7)
      [nackAt 8 (encodeKey "q" 20), dequeueAt 9, .reopen 20, nackAt 21 (encodeKey "q" 21)] (dequeueAt 22)
      (encodeKey "q" 20) ∧
    SameKey 5 [enqueueAt 5] (dequeueAt 6)
      (List.replicate (u64Size - 1) .other ++ [reapAt 20, dequeueAt 21, nackAt 22 (encodeKey "q" 5)]) (dequeueAt 23)
      (encodeKey "q" 5) := by
  have hjoin : ∀ {now : Nat} {before between : List Action} {t₁ t₂ : Nat} {jA jB : Journal} {k : Key} {x y : Task},
      Runs.exec (Journal.next "t") (.start now) before = some jA →
      (k, x) ∈ (jA.tenant.db.dequeueBatch "q" 1 10 t₁).2 →
      Runs.exec (Journal.next "t") ((Journal.next "t" jA (dequeueAt t₁)).get rfl) between = some jB →
      (k, y) ∈ (jB.tenant.db.dequeueBatch "q" 1 10 t₂).2 → y.id = x.id →
      (issued ((Journal.next "t" jB (dequeueAt t₂)).get rfl).log).Nodup →
      ((Journal.next "t" jB (dequeueAt t₂)).get rfl).tenant.db.get .inflight k = some (.task y) →
      SameKey now before (dequeueAt t₁) between (dequeueAt t₂) k := by
    intro now before between t₁ t₂ jA jB k x y hbefore hA hbetween hB hid hnodup hget
    exact ⟨jA, _, jB, _, x, y, hbefore, handed_dequeueAt hA, hbetween, handed_dequeueAt hB, hid, hnodup,
      not_fenced_self hget⟩
  refine ⟨?_, ?_, ?_⟩
  · let jA := (Runs.exec (Journal.next "t") (.start 5) [enqueueAt 5]).get (by decide)
    let jA' := (Journal.next "t" jA (dequeueAt 6)).get rfl
    let jB := (Runs.exec (Journal.next "t") jA' [reapAt 20]).get (by decide)
    have hA : (encodeKey "q" 5, ⟨"a", "q", [1], 5, 1, 16⟩) ∈ (jA.tenant.db.dequeueBatch "q" 1 10 6).2 := by decide
    have hB : (encodeKey "q" 5, ⟨"a", "q", [1], 5, 2, 31⟩) ∈ (jB.tenant.db.dequeueBatch "q" 1 10 21).2 := by decide
    exact hjoin (Option.some_get _).symm hA (Option.some_get _).symm hB rfl (by decide) (by decide)
  · let jA := (Runs.exec (Journal.next "t") (.start 5) (List.replicate 15 .other ++ [enqueueAt 6])).get (by decide)
    let jA' := (Journal.next "t" jA (dequeueAt 7)).get rfl
    let jB := (Runs.exec (Journal.next "t") jA'
      [nackAt 8 (encodeKey "q" 20), dequeueAt 9, .reopen 20, nackAt 21 (encodeKey "q" 21)]).get (by decide)
    have hA : (encodeKey "q" 20, ⟨"a", "q", [1], 6, 1, 17⟩) ∈ (jA.tenant.db.dequeueBatch "q" 1 10 7).2 := by decide
    have hB : (encodeKey "q" 20, ⟨"a", "q", [1], 6, 3, 32⟩) ∈ (jB.tenant.db.dequeueBatch "q" 1 10 22).2 := by decide
    exact hjoin (Option.some_get _).symm hA (Option.some_get _).symm hB rfl (by decide) (by decide)
  · let jA := (Runs.exec (Journal.next "t") (.start 5) [enqueueAt 5]).get (by decide)
    let jA' := (Journal.next "t" jA (dequeueAt 6)).get rfl
    let j₁ : Journal := { jA' with tenant := { jA'.tenant with seq := advance jA'.tenant.seq (u64Size - 1) } }
    let jB := (Runs.exec (Journal.next "t") j₁ [reapAt 20, dequeueAt 21, nackAt 22 (encodeKey "q" 5)]).get (by decide)
    have hA : (encodeKey "q" 5, ⟨"a", "q", [1], 5, 1, 16⟩) ∈ (jA.tenant.db.dequeueBatch "q" 1 10 6).2 := by decide
    have hB : (encodeKey "q" 5, ⟨"a", "q", [1], 5, 3, 33⟩) ∈ (jB.tenant.db.dequeueBatch "q" 1 10 23).2 := by decide
    have hbetween : Runs.exec (Journal.next "t") jA' (List.replicate (u64Size - 1) .other ++
        [reapAt 20, dequeueAt 21, nackAt 22 (encodeKey "q" 5)]) = some jB :=
      exec_others (by decide) (Option.some_get _).symm
    exact hjoin (Option.some_get _).symm hA hbetween hB rfl (by decide) (by decide)

end RocksQueue
