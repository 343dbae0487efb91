import RocksQueue.Theorems.Origin

/-! # Poison envelopes

An unparseable record goes to the dead letters in an envelope, with its attempts used up. Where an envelope is
kept is followed through the calls: a replay of the dead letters makes a task of it again, with all its attempts,
and nothing else takes one to a live queue. -/

namespace RocksQueue
open TenantDb

/-- A call took a record at one place, and put what became of it at another. -/
structure Carried (t : Tenant) (io : Inputs) (call : Call) (db' : TenantDb) (kind : WriteKind) (m : Move) : Prop where
  moved : Moved t.db io.now kind m
  takes : call.Takes kind m.key
  gone : db'.get m.src m.key = none
  arrived : db'.get m.dst m.newKey = some (.task m.task)

/-- A tenant, and the places at which there is a record that `Task::poison` has made. -/
structure Traced where
  tenant : Tenant
  envelope : Cf → Key → Prop

namespace Traced

/-- A process that opens any database, in which no envelope is known of. -/
def start (db : TenantDb) (now : Nat) : Traced := ⟨Tenant.open ⟨db, 0⟩ now, fun _ _ => False⟩

/-- The places of the envelopes after a call: an envelope that was there stays, one is carried there, or one is
    made of a record that does not deserialize. -/
def after (s : Traced) (io : Inputs) (call : Call) (db' : TenantDb) (c : Cf) (k : Key) : Prop :=
  s.envelope c k ∧ (db'.get c k).isSome ∧ db'.get c k = s.tenant.db.get c k ∨
    ∃ kind m, Carried s.tenant io call db' kind m ∧ m.dst = c ∧ m.newKey = k ∧
      (s.envelope m.src m.key ∨ ∃ raw, s.tenant.db.get m.src m.key = some (.corrupt raw))

def next (tenant : String) (s : Traced) : Action → Option Traced
  | .call io call => (s.tenant.exec tenant io call).map fun r => ⟨r.1, s.after io call r.1.db⟩
  | .other => some { s with tenant := { s.tenant with seq := nextSeq s.tenant.seq } }
  | .reopen now => some { s with tenant := s.tenant.open now }

/-- No envelope is in a live queue, and no dequeue would return one. -/
def OnlyDead (tenant : String) (s : Traced) : Prop :=
  (∀ k, ¬s.envelope .pending k ∧ ¬s.envelope .inflight k) ∧
    ∀ io call t' reply, s.tenant.exec tenant io call = some (t', reply) → ∀ r ∈ reply.results,
      ¬s.after io call t'.db .inflight r.1

/-- The dead letters are replayed only without an envelope among them, or in vain: with a record among them that
    does not deserialize. -/
def LeavesEnvelopes (s : Traced) : Action → Prop
  | .call _ .replayDlq => (∀ k v, s.tenant.db.get .dlq k = some v → ∃ x, v = .task x) → ∀ k, ¬s.envelope .dlq k
  | _ => True

end Traced

section Calls
variable {tenant : String} {t : Tenant} {io : Inputs} {call : Call} {reply : Reply} {db' : TenantDb} {b : WriteBatch}
  {ms : List Move} {c : Cf} {k : Key} {v : Value} {kind : WriteKind}

/-- What moves take away is gone: they all take from one family and put into the others. -/
theorem get_moves_src (hms : IsMoves b ms) (hmoved : ∀ m ∈ ms, Moved t.db io.now kind m) {m : Move} (hm : m ∈ ms) :
    (t.db.write b).get m.src m.key = none := by
  cases hget : (t.db.write b).get m.src m.key with
  | none => rfl
  | some v =>
    rcases get_write hget with hput | ⟨-, hdel⟩
    · obtain ⟨m', hm', hdst, -⟩ := hms.mem_put.mp hput
      have hsrc : m'.src = m.src := (hmoved m' hm').src_eq.trans (hmoved m hm).src_eq.symm
      exact absurd (hsrc.trans hdst.symm) (hmoved m' hm').src_ne_dst
    · exact absurd (hms.mem_delete.mpr ⟨m, hm, rfl, rfl⟩) hdel

/-- A record found after moves was there before, or was carried there. -/
theorem carried_of_moves (hms : IsMoves b ms) (hmoved : ∀ m ∈ ms, Moved t.db io.now kind m ∧ call.Takes kind m.key)
    (hget : (t.db.write b).get c k = some v) :
    t.db.get c k = some v ∨ ∃ kind m, Carried t io call (t.db.write b) kind m ∧ m.dst = c ∧ m.newKey = k := by
  rcases get_write hget with hput | ⟨hold, -⟩
  · obtain ⟨m, hm, rfl, rfl, rfl⟩ := hms.mem_put.mp hput
    have hgone : (t.db.write b).get m.src m.key = none := get_moves_src hms (fun m hm => (hmoved m hm).1) hm
    exact Or.inr ⟨kind, m, ⟨(hmoved m hm).1, (hmoved m hm).2, hgone, hget⟩, rfl, rfl⟩
  · exact Or.inl hold

/-- What is found after a call was there before, was carried there, or is a task of an enqueue. -/
theorem Outcome.carried (hexec : Outcome tenant t io call db' reply) (hget : db'.get c k = some v) :
    t.db.get c k = some v ∨ (∃ kind m, Carried t io call db' kind m ∧ m.dst = c ∧ m.newKey = k) ∨
      ∃ queue payload id, v = .task (newTask queue payload id io.madeAt) ∧ id ∈ reply.issued := by
  have hmoves : ∀ {kind b ms}, IsMoves b ms → (∀ m ∈ ms, Moved t.db io.now kind m ∧ call.Takes kind m.key) →
      (t.db.write b).get c k = some v → t.db.get c k = some v ∨
        (∃ kind m, Carried t io call (t.db.write b) kind m ∧ m.dst = c ∧ m.newKey = k) ∨
          ∃ queue payload id, v = .task (newTask queue payload id io.madeAt) ∧ id ∈ reply.issued :=
    fun hms hmoved hget => (carried_of_moves hms hmoved hget).imp_right Or.inl
  cases hexec with
  | refused => exact Or.inl hget
  | @enqueue queue payloads policy evicted henforce hkeys hsome hlen =>
    rcases get_write hget with hput | ⟨hold, -⟩
    -- A new task of the batch.
    · obtain ⟨payload, id, hmem, hv⟩ := put_mem_enqueueLoop hput
      have hid : id ∈ (payloads.zip io.ids).map Prod.snd := List.mem_map.mpr ⟨_, hmem, rfl⟩
      rw [List.map_snd_zip (Nat.le_of_eq hlen)] at hid
      exact Or.inr (Or.inr ⟨queue, payload, id, hv, hid⟩)
    · exact Or.inl (get_deletes hold).1
  | deliver hcall hms hkeys hmoved =>
    refine hmoves hms (fun m hm => ⟨hmoved m hm, ?_⟩) hget
    cases call with
    | dequeueBatch => rfl
    | dequeueWithMaxInflight => rfl
    | _ => cases hcall
  | ack => exact Or.inl (get_deletes hget).1
  | cumulativeAck => exact Or.inl (get_deletes hget).1
  | nackNone => exact Or.inl hget
  | nackDead hms hkey hnewKey hdst hmoved =>
    exact hmoves hms (List.forall_mem_singleton.mpr ⟨hmoved, rfl, hkey⟩) hget
  | @retry key task hread hlt =>
    exact hmoves (retryBatch_moves key task t.seq) (List.forall_mem_singleton.mpr ⟨.retry hread hlt, rfl, rfl⟩) hget
  | reap hms hkeys hmoved => exact hmoves hms (fun m hm => ⟨(hmoved m hm).1, rfl⟩) hget
  | purge => exact Or.inl (get_deletes hget).1
  | replay hloop =>
    obtain ⟨hms, -, -⟩ := replayLoop_moves hloop
    exact hmoves hms (fun m hm => ⟨replayMoves_moved (fun k v => OrderedMap.mem_entries.mp) hm, rfl⟩) hget
  | replayFailed => exact Or.inl hget

theorem replayLoop_tasks {items : List (Key × Value)} {seq : Nat} (h : replayLoop seq items = some b) {k : Key} {v : Value}
    (hkv : (k, v) ∈ items) : ∃ x, v = .task x := by
  induction items generalizing seq b with
  | nil => cases hkv
  | cons item rest ih =>
    obtain ⟨key, w⟩ := item
    cases w with
    | corrupt raw => cases h
    | task task =>
      simp only [replayLoop] at h
      split at h
      · cases h
      · rename_i b' hb'
        rcases List.mem_cons.mp hkv with heq | hkv
        · exact ⟨task, (Prod.mk.inj heq).2⟩
        · exact ih hb' hkv

/-- A replay that takes a record finds only tasks. -/
theorem allTasks_of_replayed (hexec : Outcome tenant t io call db' reply) {m : Move} (hcarried : Carried t io call db' .replay m) :
    call = .replayDlq ∧ ∀ k v, t.db.get .dlq k = some v → ∃ x, v = .task x := by
  obtain ⟨hmoved, htakes, hgone, -⟩ := hcarried
  have hcall : call = .replayDlq := by
    cases call with
    | replayDlq => rfl
    | nack key => cases htakes.1
    | _ => cases htakes
  subst hcall
  refine ⟨rfl, fun k v hget => ?_⟩
  cases hexec with
  | deliver hcall => cases hcall
  | replay hloop => exact replayLoop_tasks hloop (OrderedMap.mem_entries.mpr hget)
  | replayFailed hloop =>
    cases hmoved with
    | replay hread =>
      rw [hread] at hgone
      cases hgone
    | poisonInflight hkind => exact absurd hkind (by simp)

end Calls

section Steps
variable {tenant : String} {s s' : Traced} {io : Inputs} {call : Call} {reply : Reply} {db' : TenantDb} {k : Key} {a : Action}

/-- The envelopes are all among the dead letters. -/
structure Traced.Contained (s : Traced) : Prop where
  seq : s.tenant.seq < u64Size
  dead : ∀ k, ¬s.envelope .pending k ∧ ¬s.envelope .inflight k

/-- Nothing is missed: a record found after a call where no envelope is known of was no envelope before, or was carried
    there from a place where a task was that is none, or is a new task. -/
theorem innocent_of_not_after (hexec : Outcome tenant s.tenant io call db' reply) {c : Cf} {v : Value}
    (hget : db'.get c k = some v) (hnot : ¬s.after io call db' c k) :
    s.tenant.db.get c k = some v ∧ ¬s.envelope c k ∨
      (∃ kind m x, Carried s.tenant io call db' kind m ∧ m.dst = c ∧ m.newKey = k ∧ ¬s.envelope m.src m.key ∧
        s.tenant.db.get m.src m.key = some (.task x)) ∨
      ∃ queue payload id, v = .task (newTask queue payload id io.madeAt) ∧ id ∈ reply.issued := by
  rcases hexec.carried hget with hold | ⟨kind, m, hcarried, hdst, hkey⟩ | hnew
  · refine Or.inl ⟨hold, fun henvelope => hnot (Or.inl ⟨henvelope, Option.isSome_of_eq_some hget, hget.trans hold.symm⟩)⟩
  · have hsource : ∃ v, s.tenant.db.get m.src m.key = some v := by
      cases hcarried.moved <;> exact ⟨_, ‹_›⟩
    obtain ⟨v, hv⟩ := hsource
    cases v with
    | task x =>
      refine Or.inr (Or.inl ⟨kind, m, x, hcarried, hdst, hkey, fun henvelope => hnot (Or.inr ?_), hv⟩)
      exact ⟨kind, m, hcarried, hdst, hkey, Or.inl henvelope⟩
    | corrupt raw => exact absurd (Or.inr ⟨kind, m, hcarried, hdst, hkey, Or.inr ⟨raw, hv⟩⟩) hnot
  · exact Or.inr (Or.inr hnew)

/-- What becomes inflight was pending. -/
theorem Traced.Contained.inflight (h : s.Contained) : ¬s.after io call db' .inflight k := by
  rintro (⟨hstayed, -⟩ | ⟨kind, m, ⟨hmoved, -⟩, hdst, rfl, hfrom⟩)
  · exact (h.dead k).2 hstayed
  · cases hmoved with
    | @deliver k x timeout hread =>
      rcases hfrom with hpending | ⟨raw, hcorrupt⟩
      · exact (h.dead k).1 hpending
      · rw [hread] at hcorrupt
        cases hcorrupt
    | _ => cases hdst

/-- What becomes pending was inflight, or is replayed. -/
theorem Traced.Contained.pending (h : s.Contained) (hleaves : s.LeavesEnvelopes (.call io call))
    (hexec : Outcome tenant s.tenant io call db' reply) : ¬s.after io call db' .pending k := by
  rintro (⟨hstayed, -⟩ | ⟨kind, m, hcarried, hdst, rfl, hfrom⟩)
  · exact (h.dead k).1 hstayed
  · have hmoved := hcarried.moved
    cases hmoved with
    | @reclaim k x hread =>
      rcases hfrom with hinflight | ⟨raw, hcorrupt⟩
      · exact (h.dead k).2 hinflight
      · rw [hread] at hcorrupt
        cases hcorrupt
    | @retry k x seq hread =>
      rcases hfrom with hinflight | ⟨raw, hcorrupt⟩
      · exact (h.dead k).2 hinflight
      · rw [hread] at hcorrupt
        cases hcorrupt
    | @replay k x seq hread =>
      obtain ⟨rfl, htasks⟩ := allTasks_of_replayed hexec hcarried
      rcases hfrom with hdead | ⟨raw, hcorrupt⟩
      · exact hleaves htasks k hdead
      · rw [hread] at hcorrupt
        cases hcorrupt
    | _ => cases hdst

theorem Traced.Contained.next (h : s.Contained) (hleaves : s.LeavesEnvelopes a) (hn : s.next tenant a = some s') :
    s'.Contained := by
  cases a with
  | call io call =>
    obtain ⟨⟨t', reply⟩, hexec, rfl⟩ := Option.map_eq_some_iff.mp hn
    obtain ⟨houtcome, hseq⟩ := exec_outcome h.seq hexec
    exact ⟨hseq ▸ Nat.mod_lt _ (by decide), fun k => ⟨h.pending hleaves houtcome, h.inflight⟩⟩
  | other =>
    cases hn
    exact ⟨Nat.mod_lt _ (by decide), h.dead⟩
  | reopen now =>
    cases hn
    exact ⟨Nat.mod_lt _ (by decide), h.dead⟩

/-- As long as no envelope is replayed, none returns to a live queue. -/
theorem onlyDead_of_leavesEnvelopes {db : TenantDb} {now : Nat}
    (hrun : Runs.Run (Traced.next tenant) Traced.LeavesEnvelopes (.start db now) s) : s.OnlyDead tenant := by
  have hstart : (Traced.start db now).Contained := ⟨Nat.mod_lt _ (by decide), fun _ => ⟨id, id⟩⟩
  have hend : s.Contained := hrun.invariant (fun h hok hn => Traced.Contained.next h hok hn) hstart
  exact ⟨hend.dead, fun _ _ _ _ _ _ _ => hend.inflight⟩

/-! ## An unparseable record -/

def corruptKey : Key := encodeKey "default" 0

/-- One pending record, which does not deserialize. -/
def corruptDb : TenantDb := TenantDb.empty.apply (.put .pending corruptKey (.corrupt [7]))

def dequeueAll : Action := .call { now := 5 } (.dequeueBatch "default" 10 1000)

def replayAll : Action := .call { now := 6 } .replayDlq

/-- The envelope is replayed, and the next dequeue would return it. -/
theorem not_onlyDead : ¬∀ (tenant : String) (db : TenantDb) (now : Nat) (s : Traced),
    Runs.Run (Traced.next tenant) (fun _ _ => True) (.start db now) s → s.OnlyDead tenant := by
  intro h
  obtain ⟨s₁, hs₁⟩ : ∃ s₁, (Traced.start corruptDb 0).next "t" dequeueAll = some s₁ := ⟨_, rfl⟩
  obtain ⟨s₂, hs₂⟩ : ∃ s₂, s₁.next "t" replayAll = some s₂ := ⟨_, rfl⟩
  have hdead : s₁.envelope .dlq corruptKey := by
    obtain rfl := Option.some.inj hs₁
    refine Or.inr ⟨.dequeue, ⟨.pending, corruptKey, .dlq, corruptKey, .poison "default" [7] 5⟩, ⟨?_, rfl, rfl, rfl⟩, rfl, rfl, ?_⟩
    · exact .poisonPending rfl
    · exact Or.inr ⟨[7], rfl⟩
  have hlive : s₂.envelope .pending corruptKey := by
    obtain rfl := Option.some.inj hs₁
    obtain rfl := Option.some.inj hs₂
    refine Or.inr ⟨.replay, .ofReplay corruptKey (.poison "default" [7] 5) 0, ⟨?_, rfl, rfl, rfl⟩, rfl, rfl, Or.inl hdead⟩
    exact .replay rfl
  exact ((h "t" corruptDb 0 s₂ (.step (.step .refl trivial hs₁) trivial hs₂)).1 corruptKey).1 hlive

/-- A replay before the record is found. -/
theorem onlyDead_dequeued : ∃ s, Runs.exec (Traced.next "t") (.start corruptDb 0) [replayAll, dequeueAll] = some s ∧
    s.OnlyDead "t" := by
  obtain ⟨s₁, hs₁⟩ : ∃ s₁, (Traced.start corruptDb 0).next "t" replayAll = some s₁ := ⟨_, rfl⟩
  obtain ⟨s₂, hs₂⟩ : ∃ s₂, s₁.next "t" dequeueAll = some s₂ := ⟨_, rfl⟩
  have hreplay : (Traced.start corruptDb 0).LeavesEnvelopes replayAll := fun _ _ => id
  have hrun : Runs.Run (Traced.next "t") Traced.LeavesEnvelopes (.start corruptDb 0) s₂ :=
    .step (l := dequeueAll) (.step .refl hreplay hs₁) trivial hs₂
  refine ⟨s₂, ?_, onlyDead_of_leavesEnvelopes hrun⟩
  simp only [Runs.exec, hs₁, hs₂]

end Steps

end RocksQueue
