import RocksQueue.Theorems.Draws
import RocksQueue.Theorems.Origin

/-! # Where tasks come from

Whatever a client is handed was enqueued before, by a request for the same tenant: the record of a task keeps the id,
the queue and the payload that it was enqueued with, through deliveries, retries, sweeps, replays and restarts. -/

namespace RocksQueue

/-- What a client has given for a task, and the id that it got. -/
structure Submission where
  id : String
  queue : String
  payload : String

def Task.Matches (t : Task) (s : Submission) : Prop := t.id = s.id ∧ t.queue = s.queue ∧ t.payload = Bytes.utf8 s.payload

/-- Every record is a task that was submitted. -/
def StoredFrom (P : Submission → Prop) (db : TenantDb) : Prop :=
  ∀ (c : Cf) (k : Key) (v : Value), db.get c k = some v → ∃ t s, v = .task t ∧ t.Matches s ∧ P s

/-! ## Calls -/

section Calls
variable {P Q : Submission → Prop} {db : TenantDb} {tenant : String} {t t' : Tenant} {io : Inputs} {call : Call}
  {reply : Reply} {b : WriteBatch} {ms : List Move} {now : Nat} {kind : WriteKind}

theorem storedFrom_empty : StoredFrom P .empty := fun c k v h => by simp at h

theorem StoredFrom.mono (h : StoredFrom P db) (hle : ∀ s, P s → Q s) : StoredFrom Q db := fun c k v hget => by
  obtain ⟨x, s, hx, hmatch, hP⟩ := h c k v hget
  exact ⟨x, s, hx, hmatch, hle s hP⟩

theorem StoredFrom.allTasks (h : StoredFrom P db) : AllTasks db := fun hget => by
  obtain ⟨x, s, hx, -⟩ := h _ _ _ hget
  exact ⟨x, hx⟩

theorem StoredFrom.task (h : StoredFrom P db) {c : Cf} {k : Key} {x : Task} (hget : db.get c k = some (.task x)) :
    ∃ s, x.Matches s ∧ P s := by
  obtain ⟨y, s, hy, hmatch⟩ := h c k _ hget
  cases hy
  exact ⟨s, hmatch⟩

/-- A task that moves stays what it was submitted as. -/
theorem StoredFrom.moved (h : StoredFrom P db) {m : Move} (hm : Moved db now kind m) : ∃ s, m.task.Matches s ∧ P s := by
  cases hm with
  | deliver hget =>
    obtain ⟨s, hmatch, hP⟩ := h.task hget
    exact ⟨s, hmatch, hP⟩
  | reclaim hget _ =>
    obtain ⟨s, hmatch, hP⟩ := h.task hget
    exact ⟨s, hmatch, hP⟩
  | retry hget _ =>
    obtain ⟨s, hmatch, hP⟩ := h.task hget
    exact ⟨s, hmatch, hP⟩
  | deadLetter hget _ => exact h.task hget
  | replay hget =>
    obtain ⟨s, hmatch, hP⟩ := h.task hget
    exact ⟨s, hmatch, hP⟩
  | poisonPending hget => exact absurd (h.allTasks hget) (by simp)
  | poisonInflight _ hget => exact absurd (h.allTasks hget) (by simp)

theorem StoredFrom.moves (h : StoredFrom P db) (hms : IsMoves b ms) (hmoved : ∀ m ∈ ms, Moved db now kind m) :
    StoredFrom P (db.write b) := fun c k v hget => by
  rcases TenantDb.get_write hget with hput | ⟨hold, -⟩
  · obtain ⟨m, hm, -, -, rfl⟩ := hms.mem_put.mp hput
    obtain ⟨s, hs⟩ := h.moved (hmoved m hm)
    exact ⟨m.task, s, rfl, hs⟩
  · exact h c k v hold

theorem StoredFrom.deletes (h : StoredFrom P db) (c : Cf) (keys : List Key) : StoredFrom P (db.write (deletes c keys)) :=
  fun c' k v hget => h c' k v (get_deletes hget).1

theorem StoredFrom.compact (h : StoredFrom P db) (c : Compaction) : StoredFrom P (db.compact c) :=
  fun _ _ _ hget => h _ _ _ (TenantDb.get_of_get_compact hget)

/-- A call stores only what was there or is enqueued by it, and delivers only what was there. -/
theorem Outcome.storedFrom (h : StoredFrom P t.db) {db' : TenantDb} (hexec : Outcome tenant t io call db' reply)
    (hnew : ∀ {queue payloads policy}, call = .enqueueBatch queue payloads policy → reply = .enqueued io.ids →
      ∀ payload id, (payload, id) ∈ payloads.zip io.ids → ∃ s, (newTask queue payload id io.madeAt).Matches s ∧ P s) :
    StoredFrom P db' ∧ ∀ r ∈ reply.results, ∃ s, r.2.Matches s ∧ P s := by
  cases hexec with
  | refused => exact ⟨h, fun r hr => by cases hr⟩
  | @enqueue queue payloads policy evicted henforce hkeys hsome hlen =>
    refine ⟨fun c k v hget => ?_, fun r hr => by cases hr⟩
    rcases TenantDb.get_write hget with hput | ⟨hold, -⟩
    · obtain ⟨payload, id, hmem, rfl⟩ := put_mem_enqueueLoop hput
      obtain ⟨s, hs⟩ := hnew rfl rfl payload id hmem
      exact ⟨_, s, rfl, hs⟩
    · exact h c k v (get_deletes hold).1
  | deliver _ hms _ hmoved =>
    refine ⟨h.moves hms hmoved, fun r hr => ?_⟩
    obtain ⟨m, hm, rfl⟩ := List.mem_map.mp hr
    exact h.moved (hmoved m (List.mem_filter.mp hm).1)
  | ack => exact ⟨h.deletes _ _, fun r hr => by cases hr⟩
  | cumulativeAck => exact ⟨h.deletes _ _, fun r hr => by cases hr⟩
  | nackNone => exact ⟨h, fun r hr => by cases hr⟩
  | nackDead hms _ _ _ hmoved =>
    exact ⟨h.moves hms (List.forall_mem_singleton.mpr hmoved), fun r hr => by cases hr⟩
  | @retry key task hget hlt =>
    have hmoved : ∀ m ∈ [(⟨.inflight, key, .pending, encodeKey task.queue t.seq, { task with deadline := 0 }⟩ : Move)],
        Moved t.db io.now .nack m := List.forall_mem_singleton.mpr (.retry hget hlt)
    exact ⟨h.moves (retryBatch_moves key task t.seq) hmoved, fun r hr => by cases hr⟩
  | reap hms _ hmoved => exact ⟨h.moves hms fun m hm => (hmoved m hm).1, fun r hr => by cases hr⟩
  | purge => exact ⟨h.deletes _ _, fun r hr => by cases hr⟩
  | replay hloop =>
    have hmoved : ∀ m ∈ replayMoves t.seq t.db.dlq.entries, Moved t.db io.now .replay m := fun m hm =>
      replayMoves_moved (fun k v => OrderedMap.mem_entries.mp) hm
    exact ⟨h.moves (replayLoop_moves hloop).1 hmoved, fun r hr => by cases hr⟩
  | replayFailed => exact ⟨h, fun r hr => by cases hr⟩

end Calls

/-! ## Requests -/

section Requests
variable {R : Type} {P : Submission → Prop} {x : Externals} {tenant queue : String} {seq : Nat} {io : Inputs} {a : Account}
  {a' : Option Account} {answer : Answer R} {call : Call} {respond : Reply → Response R} {rpc : Rpc}

/-- The request enqueued the task, and was answered with its id. -/
def Enqueued (tenant : String) (e : Rpc × Answer R) (s : Submission) : Prop :=
  e.1.account? = some tenant ∧ ∃ ids, e.2 = .ok (.enqueued tenant s.queue ids) ∧ (s.payload, s.id) ∈ e.1.payloads.zip ids

/-- The task that is handed out is the one submitted. -/
def DequeuedTask.Matches (t : DequeuedTask) (s : Submission) : Prop :=
  t.taskId = s.id ∧ t.queue = s.queue ∧ t.payload = s.payload

theorem matches_dequeuedTask {r : Key × Task} {s : Submission} (h : r.2.Matches s) : (dequeuedTask x r).Matches s := by
  obtain ⟨hid, hqueue, hpayload⟩ := h
  refine ⟨hid, hqueue, ?_⟩
  rw [dequeuedTask, hpayload, fromUtf8Lossy_utf8]

theorem call_storedFrom (hseq : seq < u64Size) (h : StoredFrom P a.db)
    (hcall : a.call x tenant seq io call respond = some (a', answer))
    (hnew : ∀ {queue payloads policy}, call = .enqueueBatch queue payloads policy →
      answer = Account.answer x respond (.enqueued io.ids) →
      ∀ payload id, (payload, id) ∈ payloads.zip io.ids → ∃ s, (newTask queue payload id io.madeAt).Matches s ∧ P s) :
    (∀ b, a' = some b → StoredFrom P b.db) ∧
      ∃ reply, answer = Account.answer x respond reply ∧ ∀ r ∈ reply.results, ∃ s, r.2.Matches s ∧ P s := by
  obtain ⟨⟨t, reply⟩, hexec, hr⟩ := Option.map_eq_some_iff.mp hcall
  cases hr
  obtain ⟨hstored, hresults⟩ := Outcome.storedFrom h (exec_outcome hseq hexec).1
    fun hc hreply => hnew hc (by rw [← hreply])
  refine ⟨fun b hb => ?_, reply, rfl, hresults⟩
  cases hb
  exact hstored

theorem StoredFrom.enqueue {payloads : List String} {ao : Option Account} (hseq : seq < u64Size)
    (h : ∀ b, ao = some b → StoredFrom P b.db)
    (hserve : Account.enqueue x tenant seq io queue (payloads.map Bytes.utf8) ao = some (a', answer))
    (hnew : ∀ ids, answer = .ok (.enqueued tenant (queueOrDefault queue) ids) →
      ∀ payload id, (payload, id) ∈ payloads.zip ids → P ⟨id, queueOrDefault queue, payload⟩) :
    ∀ b, a' = some b → StoredFrom P b.db := by
  cases ao with
  | none =>
    cases hserve
    exact h
  | some a =>
    refine (call_storedFrom hseq (h a rfl) hserve fun {queue' payloads' policy} hcall hanswer payload id hmem => ?_).1
    cases hcall
    rw [← List.map_id io.ids, List.zip_map, List.mem_map] at hmem
    obtain ⟨⟨text, id'⟩, hmem, heq⟩ := hmem
    cases heq
    exact ⟨⟨id', _, text⟩, ⟨rfl, rfl, rfl⟩, hnew io.ids hanswer text id' hmem⟩

theorem StoredFrom.dequeue {limit : Nat} {ao : Option Account} (hseq : seq < u64Size)
    (h : ∀ b, ao = some b → StoredFrom P b.db)
    (hserve : Account.dequeue x tenant seq io queue limit ao = some (a', answer)) :
    (∀ b, a' = some b → StoredFrom P b.db) ∧ ∀ t q tasks, answer = .ok (.dequeued t q tasks) →
      ∀ task ∈ tasks, ∃ s, task.Matches s ∧ P s := by
  cases ao with
  | none =>
    cases hserve
    exact ⟨h, fun t q tasks hanswer => by cases hanswer⟩
  | some a =>
    obtain ⟨hstored, reply, hreply, hresults⟩ := call_storedFrom hseq (h a rfl) hserve fun hcall => by cases hcall
    refine ⟨hstored, fun t q tasks hanswer task htask => ?_⟩
    rw [hreply] at hanswer
    have htasks : tasks = reply.results.map (dequeuedTask x) := by
      cases reply <;> cases hanswer <;> rfl
    rw [htasks] at htask
    obtain ⟨r, hr, rfl⟩ := List.mem_map.mp htask
    obtain ⟨s, hmatch, hP⟩ := hresults r hr
    exact ⟨s, matches_dequeuedTask hmatch, hP⟩

theorem StoredFrom.callOr {family : String} {ao : Option Account} (hseq : seq < u64Size)
    (h : ∀ b, ao = some b → StoredFrom P b.db) (hkind : ∀ {queue payloads policy}, call ≠ .enqueueBatch queue payloads policy)
    (hserve : Account.callOr x tenant seq io family call respond ao = some (a', answer)) :
    ∀ b, a' = some b → StoredFrom P b.db := by
  cases ao with
  | none =>
    cases hserve
    exact h
  | some a => exact (call_storedFrom hseq (h a rfl) hserve fun hcall => absurd hcall hkind).1

/-- A request leaves records that were there, and those that it has enqueued. -/
theorem serve_storedFrom {ao : Option Account} (hseq : seq < u64Size) (h : ∀ b, ao = some b → StoredFrom P b.db)
    (hrpc : rpc.account? = some tenant) (hserve : Account.serve x seq io ao rpc = some (a', answer))
    (hnew : ∀ s, Enqueued tenant (rpc, answer) s → P s) : ∀ b, a' = some b → StoredFrom P b.db := by
  -- Only an enqueue adds records. The other calls keep those that were there, or move them.
  have hcall : ∀ {family : String} {call : Call} {respond : Reply → Response R},
      (∀ {queue payloads policy}, call ≠ .enqueueBatch queue payloads policy) →
      Account.callOr x tenant seq io family call respond ao = some (a', answer) → ∀ b, a' = some b → StoredFrom P b.db :=
    fun hkind hserve => StoredFrom.callOr hseq h hkind hserve
  have henqueue : ∀ {queue : String} {payloads : List String}, rpc.payloads = payloads →
      Account.enqueue x tenant seq io queue (payloads.map Bytes.utf8) ao = some (a', answer) →
      ∀ b, a' = some b → StoredFrom P b.db := by
    intro queue payloads hpayloads hserve
    refine StoredFrom.enqueue hseq h hserve fun ids hanswer payload id hmem => hnew _ ⟨hrpc, ids, hanswer, ?_⟩
    rw [hpayloads]
    exact hmem
  cases rpc <;> cases hrpc <;> simp only [Account.serve] at hserve
  -- Provisioning makes empty families, or finds the account and leaves it.
  case provisionTenant tier =>
    cases ao with
    | none =>
      cases hserve
      intro b hb
      cases hb
      exact storedFrom_empty
    | some a =>
      cases hserve
      exact h
  case dropTenant =>
    cases ao <;> cases hserve <;> intro b hb <;> cases hb
  case setNamespacePolicy r =>
    cases ao with
    | none =>
      cases hserve
      exact h
    | some a =>
      cases hserve
      intro b hb
      cases hb
      exact h a rfl
  case getNamespacePolicy =>
    cases ao <;> cases hserve <;> exact h
  case enqueueTask queue payload => exact henqueue rfl hserve
  case enqueueBatch queue payloads =>
    split at hserve
    · cases hserve
      exact h
    · exact henqueue rfl hserve
  case dequeueTasks queue limit => exact (StoredFrom.dequeue hseq h hserve).1
  case ackTask ackKey =>
    split at hserve
    · cases hserve
      exact h
    · exact hcall (fun heq => by cases heq) hserve
  case ackBatch ackKeys =>
    split at hserve
    · cases hserve
      exact h
    · split at hserve
      · cases hserve
        exact h
      · exact hcall (fun heq => by cases heq) hserve
  case nackTask ackKey =>
    split at hserve
    · cases hserve
      exact h
    · exact hcall (fun heq => by cases heq) hserve
  case purgeDlq => exact hcall (fun heq => by cases heq) hserve
  case replayDlq => exact hcall (fun heq => by cases heq) hserve
  -- A compaction only removes records.
  case compactTenant =>
    cases ao with
    | none =>
      cases hserve
      exact h
    | some a =>
      cases hserve
      intro b hb
      cases hb
      exact (h a rfl).compact io.compaction

/-- A sweep of the reaper leaves records that were there. -/
theorem StoredFrom.reap {now : Nat} {a : Account} (h : StoredFrom P a.db) : StoredFrom P (a.reap now).db := by
  have hsweep : ∀ (db : TenantDb) (queue : String), StoredFrom P db → StoredFrom P (db.reapInflight queue now) := by
    intro db queue hdb
    have hexec : Tenant.exec "" ⟨db, 0⟩ { now := now } (.reapInflight queue) =
        some (⟨db.reapInflight queue now, 0⟩, .done) := rfl
    exact (Outcome.storedFrom (t := ⟨db, 0⟩) hdb (exec_outcome (Nat.two_pow_pos 64) hexec).1 fun hc => by cases hc).1
  have hloop : ∀ (queues : List String) (db : TenantDb), StoredFrom P db →
      StoredFrom P (queues.foldl (fun db queue => db.reapInflight queue now) db) := by
    intro queues
    induction queues with
    | nil => exact fun db hdb => hdb
    | cons queue queues ih => exact fun db hdb => ih _ (hsweep db queue hdb)
  exact hloop watchedQueues a.db h

end Requests

/-! ## Sessions -/

section Sessions
variable {R : Type} [F64 R] {x : Externals} {s s' : Server R} {c c' : Session R} {e : Traffic} {clock : Clock} {io : Inputs}
  {rpc : Rpc} {answer : Answer R} {tenant queue : String}

omit [F64 R] in
theorem conclude_ok {r : Option (Server R × Option Reply)} {missing : String}
    {record : Reply → StatsCollector R → StatsCollector R} {respond : Reply → Response R} {response : Response R}
    (h : r.map (Server.conclude x missing record respond) = some (s', .ok response)) :
    ∃ reply, response = respond reply := by
  obtain ⟨⟨s₁, reply⟩, -, hr⟩ := Option.map_eq_some_iff.mp h
  cases reply with
  | none => cases hr
  | some reply => cases reply <;> cases hr <;> exact ⟨_, rfl⟩

/-- Tasks are handed out by one request only. -/
theorem serve_dequeued {tasks : List DequeuedTask}
    (h : s.serve x clock io rpc = some (s', .ok (.dequeued tenant queue tasks))) :
    ∃ queue' limit, rpc = .dequeueTasks tenant queue' limit := by
  -- The answer of a call has the shape that its handler gives it.
  have hcall : ∀ {t missing : String} {call : Call} {record : Reply → StatsCollector R → StatsCollector R}
      {respond : Reply → Response R}, (∀ reply, respond reply ≠ .dequeued tenant queue tasks) →
      (s.callTenant t io call).map (Server.conclude x missing record respond) ≠
        some (s', .ok (.dequeued tenant queue tasks)) := by
    intro t missing call record respond hne hmap
    obtain ⟨reply, hreply⟩ := conclude_ok hmap
    exact hne reply hreply.symm
  have henqueue : ∀ {t queue' : String} {payloads : List Bytes},
      s.serveEnqueue x t queue' payloads io ≠ some (s', .ok (.dequeued tenant queue tasks)) := by
    intro t queue' payloads hserve
    unfold Server.serveEnqueue at hserve
    split at hserve
    · cases hserve
    · exact hcall (fun _ heq => by cases heq) hserve
  cases rpc <;> simp only [Server.serve] at h
  -- The one handler that answers so: empty for a full queue, or with what was delivered.
  case dequeueTasks t queue' limit =>
    unfold Server.serveDequeue at h
    dsimp only at h
    split at h
    · cases h
    · split at h
      · cases h
      · split at h
        · cases h
          exact ⟨queue', limit, rfl⟩
        · cases h
      · cases h
        exact ⟨queue', limit, rfl⟩
  case enqueueTask t queue' payload => exact absurd h henqueue
  case enqueueBatch t queue' payloads =>
    split at h
    · cases h
    · exact absurd h henqueue
  case ackTask t ackKey =>
    unfold Server.serveAck at h
    split at h
    · cases h
    · exact absurd h (hcall fun _ heq => by cases heq)
  case ackBatch t ackKeys =>
    unfold Server.serveAckBatch at h
    split at h
    · cases h
    · split at h
      · cases h
      · exact absurd h (hcall fun _ heq => by cases heq)
  case nackTask t ackKey =>
    unfold Server.serveNack at h
    split at h
    · cases h
    · exact absurd h (hcall fun _ heq => by cases heq)
  case purgeDlq t => exact absurd h (hcall fun _ heq => by cases heq)
  case replayDlq t => exact absurd h (hcall fun _ heq => by cases heq)
  case drainTenant t timeoutSecs =>
    unfold Server.serveDrain at h
    dsimp only at h
    split at h
    · cases h
    · obtain ⟨r, -, hr⟩ := Option.map_eq_some_iff.mp h
      cases hr
  case setNamespacePolicy r =>
    unfold Server.serveSetNamespacePolicy at h
    split at h
    · split at h <;> cases h
    · cases h
  case pauseTenant t =>
    unfold Server.servePaused at h
    split at h <;> cases h
  case resumeTenant t =>
    unfold Server.servePaused at h
    split at h <;> cases h
  case getTenantStatus t =>
    unfold Server.serveStatus at h
    split at h <;> cases h
  case listTenants | listAllStats | listThrottled | listAllBaselines | forceReleaseThrottle t => cases h
  all_goals split at h <;> cases h

/-- A start seeds the counter from the clock. -/
theorem seq_of_main {db : Database R} (h : Filed db) (hmain : Server.main db clock = some s) :
    s.registry.seq = clock.millis % u64Size := by
  obtain ⟨r, hopen, -, -, hseq⟩ := (started_of_main h hmain).opened
  rw [hseq, (opened_of_open (metaOk_of_filed h) hopen).seq]

theorem seq_main {db : Database R} (h : Filed db) (hmain : Server.main db clock = some s) : s.registry.seq < u64Size := by
  rw [seq_of_main h hmain]
  exact Nat.mod_lt _ (Nat.two_pow_pos 64)

/-- What holds of every session: the server agrees with its database, and the counter is a `u64`. -/
structure Session.Sound (c : Session R) : Prop where
  intact : c.server.Intact
  seq : c.server.registry.seq < u64Size

theorem Session.Sound.next (h : c.Sound) (hn : c.next x e = some c') : c'.Sound where
  intact := Session.intact_next h.intact hn
  seq := by
    cases e with
    | rpc rpc clock io =>
      obtain ⟨⟨s', answer⟩, hserve, rfl⟩ := Option.map_eq_some_iff.mp hn
      exact seq_served h.intact h.seq hserve
    | compaction t compaction =>
      cases hn
      exact h.seq
    | daemonCycle clock =>
      cases hn
      have hsame : c.server.SameAccounts (c.server.daemonCycle clock) := sameAccounts_daemonCycle
      exact hsame.seq.symm ▸ h.seq
    | reaperTick now =>
      cases hn
      exact h.seq
    | restart clock =>
      obtain ⟨s', hmain, rfl⟩ := Option.map_eq_some_iff.mp hn
      exact seq_main h.intact.filed hmain

theorem Session.Sound.start (hmain : Server.main (.fresh : Database R) clock = some s) : (Session.start s).Sound where
  intact := intact_of_main intact_fresh hmain
  seq := seq_main intact_fresh.filed hmain

theorem sound_of_reached (h : c.Reached x) : c.Sound := by
  obtain ⟨s, clock, hmain, hrun⟩ := h
  exact hrun.invariant (fun hs _ hn => hs.next hn) (.start hmain)

/-- A request before has enqueued it. -/
def EnqueuedIn (answers : List (Rpc × Answer R)) (tenant : String) (s : Submission) : Prop :=
  ∃ e ∈ answers, Enqueued tenant e s

omit [F64 R] in
theorem EnqueuedIn.append {answers : List (Rpc × Answer R)} {s : Submission} (h : EnqueuedIn answers tenant s)
    (more : List (Rpc × Answer R)) : EnqueuedIn (answers ++ more) tenant s := by
  obtain ⟨e, he, hs⟩ := h
  exact ⟨e, List.mem_append_left _ he, hs⟩

/-- What is stored, and what was handed out, was enqueued before. -/
structure Session.Traced (c : Session R) : Prop where
  stored : ∀ tenant a, c.server.account tenant = some a → StoredFrom (EnqueuedIn c.answers tenant) a.db
  handed : ∀ before rpc tenant queue tasks after,
    c.answers = before ++ (rpc, .ok (.dequeued tenant queue tasks)) :: after →
    ∀ task ∈ tasks, ∃ s, task.Matches s ∧ EnqueuedIn before tenant s

theorem Session.Traced.served (hc : c.Sound) (h : c.Traced)
    (hserve : c.server.serve x clock io rpc = some (s', answer)) :
    Session.Traced ⟨s', c.answers ++ [(rpc, answer)]⟩ where
  stored := by
    intro t a ha
    have hbefore : ∀ b, c.server.account t = some b → StoredFrom (EnqueuedIn (c.answers ++ [(rpc, answer)]) t) b.db :=
      fun b hb => (h.stored t b hb).mono fun _ hs => hs.append _
    by_cases hrpc : rpc.account? = some t
    · refine serve_storedFrom hc.seq hbefore hrpc (rpc_served (hc.intact.tenants t) hrpc hserve) (fun s hs => ?_) a ha
      exact ⟨_, List.mem_append_right _ (List.mem_singleton_self _), hs⟩
    · refine hbefore a ?_
      rw [← ha]
      cases hother : rpc.account? with
      | none => exact ((sameAccounts_served hother hserve).account t).symm
      | some other =>
        have haway : t ≠ other := fun heq => hrpc (heq ▸ hother)
        exact (account_served_of_ne hother haway hserve).symm
  handed := by
    intro before rpc' t q tasks after heq
    rcases List.eq_nil_or_concat after with rfl | ⟨after', last, rfl⟩
    · -- The tasks are handed out by this request.
      obtain ⟨rfl, hlast⟩ := List.append_inj' heq rfl
      cases hlast
      obtain ⟨queue', limit, rfl⟩ := serve_dequeued hserve
      have hserved := rpc_served (hc.intact.tenants t) rfl hserve
      exact (StoredFrom.dequeue hc.seq (h.stored t) hserved).2 t q tasks rfl
    · have hbefore : c.answers = before ++ (rpc', .ok (.dequeued t q tasks)) :: after' := by
        rw [List.concat_eq_append, ← List.cons_append, ← List.append_assoc] at heq
        exact (List.append_inj' heq rfl).1
      exact h.handed before rpc' t q tasks after' hbefore

theorem Session.Traced.next (hc : c.Sound) (h : c.Traced) (hn : c.next x e = some c') : c'.Traced := by
  cases e with
  | rpc rpc clock io =>
    obtain ⟨⟨s', answer⟩, hserve, rfl⟩ := Option.map_eq_some_iff.mp hn
    exact Session.Traced.served hc h hserve
  | compaction t compaction =>
    cases hn
    refine ⟨fun t' a ha => ?_, h.handed⟩
    by_cases heq : t = t'
    · subst heq
      have haccount : (c.server.compact t compaction).account t = some a := ha
      rw [account_compact] at haccount
      obtain ⟨b, hb, rfl⟩ := Option.map_eq_some_iff.mp haccount
      exact (h.stored t b hb).compact compaction
    · exact h.stored t' a ((account_compact_of_ne heq).symm.trans ha)
  | daemonCycle clock =>
    cases hn
    exact ⟨fun t a ha => h.stored t a ((sameAccounts_daemonCycle.account t).symm.trans ha), h.handed⟩
  | reaperTick now =>
    cases hn
    refine ⟨fun t a ha => ?_, h.handed⟩
    have haccount : (c.server.reaperTick now).account t = some a := ha
    rw [account_reaperTick (hc.intact.tenants t)] at haccount
    obtain ⟨b, hb, rfl⟩ := Option.map_eq_some_iff.mp haccount
    exact (h.stored t b hb).reap
  | restart clock =>
    obtain ⟨s', hmain, rfl⟩ := Option.map_eq_some_iff.mp hn
    exact ⟨fun t a ha => h.stored t a ((account_restart hc.intact hmain).symm.trans ha), h.handed⟩

theorem traced_of_reached (h : c.Reached x) : c.Traced := by
  obtain ⟨s, clock, hmain, hrun⟩ := h
  have hstart : (Session.start s).Sound ∧ (Session.start s).Traced := by
    refine ⟨.start hmain, fun t a ha => ?_, fun before rpc t q tasks after heq => ?_⟩
    · have haccount : (Session.start s).server.account t = none := congrArg View.account (view_start hmain t)
      rw [haccount] at ha
      cases ha
    · cases before <;> cases heq
  exact (hrun.invariant (I := fun c => c.Sound ∧ c.Traced) (fun ⟨hs, ht⟩ _ hn => ⟨hs.next hn, ht.next hs hn⟩) hstart).2

/-- Every task that a client is handed was enqueued by an earlier request for the same tenant, which was answered with
    the id of the task: with this queue and this payload. -/
theorem dequeued_was_enqueued (h : c.Reached x) {before after : List (Rpc × Answer R)} {tasks : List DequeuedTask}
    (hanswer : c.answers = before ++ (rpc, .ok (.dequeued tenant queue tasks)) :: after) :
    ∀ task ∈ tasks, ∃ e ∈ before, e.1.account? = some tenant ∧ ∃ ids, e.2 = .ok (.enqueued tenant task.queue ids) ∧
      (task.payload, task.taskId) ∈ e.1.payloads.zip ids := by
  intro task htask
  obtain ⟨s, ⟨hid, hqueue, hpayload⟩, e, he, hrpc, hids⟩ := (traced_of_reached h).handed _ _ _ _ _ _ hanswer task htask
  rw [hid, hqueue, hpayload]
  exact ⟨e, he, hrpc, hids⟩

end Sessions

/-- A task that a tenant is handed is the one that it has enqueued. -/
theorem dequeued_was_enqueued_own : ∃ (c : Session Rat) (before : List (Rpc × Answer Rat)) (task : DequeuedTask),
    c.Reached plainTexts ∧ c.answers = before ++ [(.dequeueTasks "t" "" 0, .ok (.dequeued "t" "default" [task]))] ∧
      ∃ e ∈ before, e.1.account? = some "t" ∧ ∃ ids, e.2 = .ok (.enqueued "t" task.queue ids) ∧
        (task.payload, task.taskId) ∈ e.1.payloads.zip ids := by
  have hanswers : (Runs.exec (Session.next plainTexts) (.start (.empty : Server Rat)) ownTraffic).map Session.answers =
      some ([(.provisionTenant "t" "standard", .ok (.tenant "t" true "provisioned")),
        (.enqueueTask "t" "" "hello", .ok (.enqueued "t" "default" ["a"]))] ++
        [(.dequeueTasks "t" "" 0, .ok (.dequeued "t" "default"
          [⟨HexCodec.hex.encode (encodeKey "default" 0), "a", "default", "hello", 1, 1, 60002⟩]))]) := by
    decide +kernel
  obtain ⟨c, hc, hlog⟩ := Option.map_eq_some_iff.mp hanswers
  have hreached : c.Reached plainTexts := ⟨.empty, ⟨0, 0⟩, rfl, Runs.run_of_exec hc⟩
  exact ⟨c, _, _, hreached, hlog, dequeued_was_enqueued hreached hlog _ (List.mem_singleton_self _)⟩

end RocksQueue
