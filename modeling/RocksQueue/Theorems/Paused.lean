import RocksQueue.Theorems.ExactMoves
import RocksQueue.Theorems.Families
import RocksQueue.Workers

/-! # Paused tenants

The pause is kept by the scheduler, and neither `DequeueTasks` nor the worker pool asks the scheduler. A paused
tenant gets no deliveries exactly in the runs in which these find nothing that they could deliver. -/

namespace RocksQueue
open TenantDb

/-! ## What a dequeue moves -/

section Moved
variable {db db' : TenantDb} {queue : String} {n timeout now : Nat}

/-- The queue has a pending task. -/
def TenantDb.hasTask (db : TenantDb) (queue : String) : Bool :=
  (db.scanQueue .pending queue).any fun e => (Task.deserialize e.2).isSome

theorem hasTask_iff : db.hasTask queue = true ↔
    ∃ key task, db.get .pending key = some (.task task) ∧ inQueue queue key = true := by
  rw [TenantDb.hasTask, List.any_eq_true]
  constructor
  · rintro ⟨⟨key, v⟩, hscan, hsome⟩
    cases v with
    | corrupt raw => cases hsome
    | task task => exact ⟨key, task, mem_scanQueue.mp hscan⟩
  · rintro ⟨key, task, hstored⟩
    exact ⟨(key, .task task), mem_scanQueue.mpr hstored, rfl⟩

theorem movedTasks_eq_nil : movedTasks db db' = [] ↔ ∀ key task, db.get .pending key = some (.task task) →
    ¬(db'.get .pending key = none ∧ (db'.get .inflight key).isSome) := by
  rw [movedTasks, List.map_eq_nil_iff, List.filter_eq_nil_iff]
  constructor
  · intro h key task hget ⟨hgone, hinflight⟩
    exact h (key, .task task) (OrderedMap.mem_entries.mpr hget) (by simp [Task.deserialize, hgone, hinflight])
  · rintro h ⟨key, v⟩ hmem hmoved
    cases v with
    | corrupt raw => simp [Task.deserialize] at hmoved
    | task task =>
      simp only [Task.deserialize, Option.isSome_some, Bool.true_and, Bool.and_eq_true, Option.isNone_iff_eq_none] at hmoved
      exact h key task (OrderedMap.mem_entries.mp hmem) hmoved

/-- Nothing is moved by what leaves the pending tasks where they are. -/
theorem movedTasks_of_kept (h : ∀ key task, db.get .pending key = some (.task task) → db'.get .pending key ≠ none) :
    movedTasks db db' = [] :=
  movedTasks_eq_nil.mpr fun key task hget hmoved => h key task hget hmoved.1

theorem movedTasks_self : movedTasks db db = [] := movedTasks_of_kept fun key task hget => by simp [hget]

/-- A dequeue with a limit moves a task if the queue has one. -/
theorem movedTasks_dequeue (hn : 1 ≤ n) :
    movedTasks db (db.dequeueBatchUnlocked queue n timeout now).1 = [] ↔ db.hasTask queue = false := by
  have hdb : (db.dequeueBatchUnlocked queue n timeout now).1 = _ := congrArg Prod.fst (dequeueBatch_eq hn)
  have hshortest := isShortest_segment decodable n (db.scanQueue .pending queue)
  have hplace : KeepsKeys .pending ((segment decodable n (db.scanQueue .pending queue)).map
      (deliveryMove queue now (saturatingAdd now timeout))) := keepsKeys_deliveryMove segment_keys_nodup
  have hmoves : IsMoves (((segment decodable n (db.scanQueue .pending queue)).map
        (deliveryMove queue now (saturatingAdd now timeout))).flatMap Move.ops)
      ((segment decodable n (db.scanQueue .pending queue)).map (deliveryMove queue now (saturatingAdd now timeout))) :=
    .ops _
  rw [hdb]
  constructor
  · intro hnone
    by_contra hnot
    have htask : db.hasTask queue = true := Bool.not_eq_false _ ▸ hnot
    -- With a limit above zero the segment has a task if the queue has one.
    have hany : ∃ item ∈ segment decodable n (db.scanQueue .pending queue), decodable item = true := by
      rcases hshortest.enough with henough | hall
      · exact List.countP_pos_iff.mp (Nat.lt_of_lt_of_le hn henough)
      · rw [hall]
        exact List.any_eq_true.mp htask
    obtain ⟨⟨key, v⟩, hmem, hdecodes⟩ := hany
    cases v with
    | corrupt raw => cases hdecodes
    | task task =>
      have hmove := List.mem_map_of_mem (f := deliveryMove queue now (saturatingAdd now timeout)) hmem
      have hread := (mem_scanQueue.mp (hshortest.initial.subset hmem)).1
      refine movedTasks_eq_nil.mp hnone key task hread ⟨hplace.get_src hmoves hmove, ?_⟩
      exact Option.isSome_iff_exists.mpr ⟨_, hplace.get_dst hmoves hmove⟩
  · intro hnone
    refine movedTasks_of_kept fun key task hget => ?_
    -- No task is in the queue, so a pending task is in another, and stays.
    have hkey : key ∉ ((segment decodable n (db.scanQueue .pending queue)).map
        (deliveryMove queue now (saturatingAdd now timeout))).map Move.key := by
      rw [deliveryMove_keys]
      intro hmem
      obtain ⟨⟨key, v⟩, hitem, rfl⟩ := List.mem_map.mp hmem
      have hscan := mem_scanQueue.mp (hshortest.initial.subset hitem)
      exact absurd (hasTask_iff.mpr ⟨key, task, hget, hscan.2⟩) (by simp [hnone])
    rw [hplace.get_unmoved hmoves hkey, hget]
    exact Option.some_ne_none _

theorem movedTasks_dequeueWithMaxInflight {maxInflight : Nat} (hn : 1 ≤ n) :
    movedTasks db (db.dequeueWithMaxInflight queue n timeout maxInflight now).1 = [] ↔
      (db.hasTask queue && decide (db.countPrefix .inflight queue < maxInflight)) = false := by
  simp only [dequeueWithMaxInflight]
  split
  · rename_i hzero
    simp [movedTasks_self, hzero]
  · split
    · rename_i hcap
      simp [movedTasks_self, Nat.not_lt.mpr hcap]
    · rename_i hcap
      have hmin : 1 ≤ min n (maxInflight - db.countPrefix .inflight queue) := by omega
      rw [movedTasks_dequeue hmin]
      simp [Nat.lt_of_not_le hcap]

end Moved

/-! ## What a step takes -/

section Steps
variable {R : Type} {s s' : Server R} {c : PoolRun R} {tenant queue : String} {io : Inputs} {call : Call}
  {db db' : TenantDb} {b : WriteBatch}

/-- A batch that deletes no pending record moves no pending task. -/
theorem movedTasks_write (hdel : ∀ key, .delete .pending key ∉ b) : movedTasks db (db.write b) = [] := by
  refine movedTasks_of_kept fun key task hget => ?_
  obtain ⟨v, hv, -⟩ := get_write_of_get hget (hdel key)
  rw [hv]
  exact Option.some_ne_none _

theorem movedTasks_ackBatch {keys : List Key} : movedTasks db (db.ackBatch keys).1 = [] := by
  refine movedTasks_write fun key hmem => ?_
  obtain ⟨key', -, heq⟩ := List.mem_map.mp hmem
  cases heq

theorem movedTasks_nack {t : Tenant} {key : Key} {now : Nat} : movedTasks t.db (t.nack key now).db = [] := by
  unfold Tenant.nack
  split
  · exact movedTasks_self
  · exact movedTasks_write fun key hmem => by simp [poisonBatch] at hmem
  · split
    · exact movedTasks_write fun key hmem => by simp [deadLetterBatch] at hmem
    · exact movedTasks_write fun key hmem => by simp [retryBatch] at hmem

/-- What a call leaves of the database. -/
inductive Called (s : Server R) (tenant : String) (io : Inputs) (call : Call) (db' : Database R) : Option Reply → Prop where
  | missing : s.registry.db.tenantDb? tenant = none → db' = s.registry.db → Called s tenant io call db' none
  | done {db : TenantDb} {t : Tenant} {reply : Reply} : s.registry.db.tenantDb? tenant = some db →
      Tenant.exec tenant ⟨db, s.registry.seq⟩ io call = some (t, reply) →
      db' = s.registry.db.setTenantDb tenant t.db → Called s tenant io call db' (some reply)

theorem called_callTenant {reply : Option Reply} (h : s.callTenant tenant io call = some (s', reply)) :
    Called s tenant io call s'.registry.db reply := by
  rcases Server.callTenant_cases h with ⟨hnone, rfl, rfl⟩ | ⟨db, t, returned, hdb, hexec, rfl, rfl⟩
  · exact .missing hnone rfl
  · exact .done hdb hexec rfl

theorem called_withoutPolicy {record : Reply → StatsCollector R → StatsCollector R}
    (h : s.withoutPolicy tenant io call record = some s') : ∃ reply, Called s tenant io call s'.registry.db reply := by
  obtain ⟨⟨s₁, reply⟩, hcall, rfl⟩ := Option.map_eq_some_iff.mp h
  have hcalled := called_callTenant hcall
  refine ⟨reply, ?_⟩
  cases reply with
  | none => exact hcalled
  | some reply => exact hcalled

/-- A step that leaves the database as it is takes nothing. -/
theorem taken_of_same (h : s'.registry.db = c.server.registry.db) : c.taken s' = [] := by
  refine List.flatMap_eq_nil_iff.mpr fun tenant _ => ?_
  rw [h]
  cases hdb : c.server.registry.db.tenantDb? tenant with
  | none => rfl
  | some db => simp [movedTasks_self]

/-- A step on one tenant takes what it moves of that tenant's tasks, if the tenant is paused. -/
theorem taken_eq_nil (hdb : c.server.registry.db.tenantDb? tenant = some db)
    (hs' : s'.registry.db = c.server.registry.db.setTenantDb tenant db') :
    c.taken s' = [] ↔ (tenant ∈ c.paused → movedTasks db db' = []) := by
  rw [PoolRun.taken, List.flatMap_eq_nil_iff]
  constructor
  · intro h hpaused
    have hnil := h tenant hpaused
    rw [hs', tenantDb?_setTenantDb_self, hdb] at hnil
    exact List.map_eq_nil_iff.mp hnil
  · intro h other hpaused
    by_cases heq : other = tenant
    · rw [heq] at hpaused ⊢
      rw [hs', tenantDb?_setTenantDb_self, hdb]
      exact List.map_eq_nil_iff.mpr (h hpaused)
    · rw [hs', tenantDb?_setTenantDb, if_neg heq]
      cases hother : c.server.registry.db.tenantDb? other with
      | none => rfl
      | some db => simp [movedTasks_self]

end Steps

/-! ## Runs -/

/-- The tenant has a pending task in the queue. -/
def Server.hasTask {R : Type} (s : Server R) (tenant queue : String) : Bool :=
  match s.registry.db.tenantDb? tenant with
  | some db => db.hasTask queue
  | none => false

/-- The tenant has a policy, and fewer records of the queue in flight than it allows. -/
def Server.belowCap {R : Type} (s : Server R) (tenant queue : String) : Bool :=
  match s.registry.getPolicy tenant, s.registry.db.tenantDb? tenant with
  | some policy, some db => decide (db.countPrefix .inflight queue < policy.maxInflight)
  | _, _ => false

/-- The step finds no task of a paused tenant that it could deliver. -/
def PoolRun.findsNothing {R : Type} (c : PoolRun R) : PoolEvent → Bool
  | .server (.request (.dequeueTasks tenantId queue _) _ _) =>
    !(decide (tenantId ∈ c.paused) && c.server.hasTask tenantId (queueOrDefault queue) &&
      c.server.belowCap tenantId (queueOrDefault queue))
  | .work worker _ _ =>
    match c.workers[worker]? with
    | some (.dequeue tenantId queue _ :: _) => !(decide (tenantId ∈ c.paused) && c.server.hasTask tenantId queue)
    | _ => true
  | _ => true

/-- A worker asks for at least one task. -/
def Work.asks : Work → Prop
  | .dequeue _ _ slots => 1 ≤ slots
  | .process _ _ _ => True

section Runs
variable {R : Type} [F64 R] {s s' : Server R} {c c' : PoolRun R} {tenant queue : String} {io : Inputs} {limit : Nat}

omit [F64 R] in
/-- A request for tasks takes nothing of paused tenants if and only if it finds nothing to deliver. -/
theorem taken_dequeueTasks {clock : Clock} (h : c.server.dequeueTasks tenant queue limit io = some s') :
    c.taken s' = [] ↔ c.findsNothing (.server (.request (.dequeueTasks tenant queue limit) clock io)) = true := by
  have hlimit : 1 ≤ if limit = 0 then defaultDequeueLimit else limit := by
    split
    · decide
    · omega
  simp only [Server.dequeueTasks, Server.withPolicy] at h
  cases hpolicy : c.server.registry.getPolicy tenant with
  | none =>
    rw [hpolicy] at h
    cases h
    have hcap : c.server.belowCap tenant (queueOrDefault queue) = false := by simp only [Server.belowCap, hpolicy]
    simp [taken_of_same, PoolRun.findsNothing, hcap]
  | some policy =>
    rw [hpolicy] at h
    have hcall : c.server.withoutPolicy tenant io _ (fun _ c => c) = some s' := h
    obtain ⟨reply, hcalled⟩ := called_withoutPolicy hcall
    cases hcalled with
    | missing hnone hsame =>
      have htask : c.server.hasTask tenant (queueOrDefault queue) = false := by simp only [Server.hasTask, hnone]
      simp [taken_of_same hsame, PoolRun.findsNothing, htask]
    | @done db t reply hdb hexec hs' =>
      cases hexec
      rw [taken_eq_nil hdb hs', movedTasks_dequeueWithMaxInflight hlimit]
      simp only [PoolRun.findsNothing, Server.hasTask, Server.belowCap, hdb, hpolicy]
      by_cases hpaused : tenant ∈ c.paused
      · cases htask : db.hasTask (queueOrDefault queue) <;> simp [hpaused]
      · simp [hpaused]

omit [F64 R] in
/-- A step of a worker takes nothing of paused tenants if and only if it finds nothing to deliver. -/
theorem taken_work {worker : Nat} {handled : Option Nat} {item : Work} {rest more : List Work}
    (hitem : c.workers[worker]? = some (item :: rest)) (hasks : item.asks)
    (h : c.server.perform io handled item = some (s', more)) :
    c.taken s' = [] ↔ c.findsNothing (.work worker io handled) = true := by
  cases item with
  | dequeue tenantId q slots =>
    obtain ⟨⟨s₁, reply⟩, hcall, heq⟩ := Option.map_eq_some_iff.mp h
    cases heq
    have hcalled := called_callTenant hcall
    cases hcalled with
    | missing hnone hsame =>
      have htask : c.server.hasTask tenantId q = false := by simp only [Server.hasTask, hnone]
      simp [taken_of_same hsame, PoolRun.findsNothing, hitem, htask]
    | @done db t reply hdb hexec hs' =>
      cases hexec
      have hslots : 1 ≤ slots := hasks
      -- With a slot to fill, the dequeue moves nothing only where nothing deserializes.
      have hmoved : movedTasks db (db.dequeueBatchUnlocked q slots defaultVisibilityTimeoutMs io.now).1 = [] ↔
          db.hasTask q = false := movedTasks_dequeue hslots
      rw [taken_eq_nil hdb hs']
      simp only [dequeueBatch, hmoved, PoolRun.findsNothing, hitem, Server.hasTask, hdb]
      by_cases hpaused : tenantId ∈ c.paused
      · simp [hpaused]
      · simp [hpaused]
  -- To process a task is to acknowledge it or to put it back, which takes nothing from pending.
  | process tenantId key task =>
    have hnothing : c.findsNothing (.work worker io handled) = true := by simp only [PoolRun.findsNothing, hitem]
    simp only [hnothing, iff_true]
    obtain ⟨s₁, hprocess, heq⟩ := Option.map_eq_some_iff.mp h
    cases heq
    cases handled with
    | some latencyMs =>
      obtain ⟨reply, hcalled⟩ := called_withoutPolicy hprocess
      cases hcalled with
      | missing hnone hsame => exact taken_of_same hsame
      | done hdb hexec hs' =>
        cases hexec
        exact (taken_eq_nil hdb hs').mpr fun _ => movedTasks_ackBatch
    | none =>
      have hnack : ({ c.server with collector := c.server.collector.recordNack tenantId } : Server R).withoutPolicy
          tenantId io (.nack key) (fun _ c => c) = some s' := hprocess
      obtain ⟨reply, hcalled⟩ := called_withoutPolicy hnack
      cases hcalled with
      | missing hnone hsame => exact taken_of_same hsame
      | done hdb hexec hs' =>
        cases hexec
        exact (taken_eq_nil hdb hs').mpr fun _ => movedTasks_nack

/-- All that the workers have to do asks for tasks. -/
def PoolRun.Asking (c : PoolRun R) : Prop :=
  ∀ items ∈ c.workers, ∀ item ∈ items, item.asks

omit [F64 R] in
theorem asking_start {n : Nat} : (PoolRun.start s n).Asking := by
  intro items hmem
  obtain rfl := (List.mem_replicate.mp hmem).2
  intro item hitem
  cases hitem

omit [F64 R] in
theorem asking_set {workers : List (List Work)} {worker : Nat} {items : List Work}
    (h : ∀ items ∈ workers, ∀ item ∈ items, item.asks) (hitems : ∀ item ∈ items, item.asks) :
    ∀ items' ∈ workers.set worker items, ∀ item ∈ items', item.asks := by
  intro items' hmem
  rcases List.mem_or_eq_of_mem_set hmem with hmem | rfl
  · exact h items' hmem
  · exact hitems

theorem asks_tick [F64Sqrt R] {p : FairWorkerPool} {collector : StatsCollector R} {instant : Nat} {item : Work}
    (h : item ∈ p.tick collector instant) : item.asks := by
  obtain ⟨⟨tenant, slots⟩, hmem, hitem⟩ := List.mem_flatMap.mp h
  obtain ⟨queue, -, rfl⟩ := List.mem_map.mp hitem
  have hne : slots ≠ 0 := of_decide_eq_true (List.mem_filter.mp hmem).2
  exact Nat.one_le_iff_ne_zero.mpr hne

omit [F64 R] in
theorem asks_perform {handled : Option Nat} {item : Work} {more : List Work}
    (h : s.perform io handled item = some (s', more)) : ∀ item ∈ more, item.asks := by
  cases item with
  | dequeue tenantId q slots =>
    obtain ⟨⟨s₁, reply⟩, -, heq⟩ := Option.map_eq_some_iff.mp h
    cases heq
    intro item hitem
    rcases reply with - | reply
    · cases hitem
    · cases reply with
      | delivered results =>
        obtain ⟨r, -, rfl⟩ := List.mem_map.mp hitem
        trivial
      | _ => cases hitem
  | process tenantId key task =>
    obtain ⟨s₁, -, heq⟩ := Option.map_eq_some_iff.mp h
    cases heq
    intro item hitem
    cases hitem

/-- What a step adds to the tasks taken from paused tenants: nothing if and only if it finds nothing. -/
theorem taken_next [F64Sqrt R] {p : FairWorkerPool} {e : PoolEvent} (hasking : c.Asking) (h : p.next c e = some c') :
    c'.Asking ∧ ∃ more, c'.moved = c.moved ++ more ∧ (more = [] ↔ c.findsNothing e = true) := by
  cases e with
  | server e =>
    obtain ⟨s', hs', rfl⟩ := Option.map_eq_some_iff.mp h
    refine ⟨?_, c.takenBy s' e, rfl, ?_⟩
    · cases e with
      | restart clock =>
        intro items hmem
        obtain ⟨items', -, rfl⟩ := List.mem_map.mp hmem
        intro item hitem
        cases hitem
      | _ => exact hasking
    · cases e with
      | request r clock io =>
        cases r with
        -- Of the requests only this one takes tasks.
        | dequeueTasks tenantId queue limit => exact taken_dequeueTasks hs'
        | _ => exact iff_of_true rfl rfl
      | _ => exact iff_of_true rfl rfl
  | tick worker instant =>
    simp only [FairWorkerPool.next] at h
    split at h
    · cases h
      refine ⟨asking_set hasking fun item hitem => asks_tick hitem, [], by simp, iff_of_true rfl rfl⟩
    · cases h
  | work worker io handled =>
    simp only [FairWorkerPool.next] at h
    split at h
    · rename_i item rest hitem
      obtain ⟨⟨s', more⟩, hperform, rfl⟩ := Option.map_eq_some_iff.mp h
      have hitems := hasking _ (List.mem_of_getElem? hitem)
      refine ⟨asking_set hasking fun item' hitem' => ?_, c.taken s', rfl, ?_⟩
      · rcases List.mem_append.mp hitem' with hnew | hrest
        · exact asks_perform hperform item' hnew
        · exact hitems item' (List.mem_cons_of_mem _ hrest)
      · exact taken_work hitem (hitems item List.mem_cons_self) hperform
    · cases h

/-- Nothing is taken from paused tenants exactly in the runs in which no `DequeueTasks` and no worker finds a task of
    theirs that it could deliver. -/
theorem paused_iff [F64Sqrt R] (p : FairWorkerPool) (s : Server R) (events : List PoolEvent)
    (h : Runs.exec p.next (PoolRun.start s p.concurrency) events = some c) :
    c.moved = [] ↔
      Runs.execWhile p.next PoolRun.findsNothing (PoolRun.start s p.concurrency) events = some c := by
  obtain ⟨more, hmore, hiff⟩ := Runs.log_grows taken_next h asking_start
  rw [hmore]
  exact hiff

end Runs

/-! ## A paused tenant with pending tasks -/

section Delivered

/-- Two tasks are enqueued and their tenant is paused. -/
def pausedEvents : List PoolEvent :=
  [.server (.request (.provisionTenant "t" "standard") ⟨0, 0⟩ { now := 0 }),
    .server (.request (.enqueueTask "t" "default" []) ⟨0, 0⟩ { now := 0, ids := ["a"] }),
    .server (.request (.enqueueTask "t" "default" []) ⟨0, 0⟩ { now := 0, ids := ["b"] }),
    .server (.request (.pauseTenant "t") ⟨0, 0⟩ { now := 0 })]

/-- A client asks for a task of a queue, and a worker starts a tick. -/
def askingEvents (queue : String) : List PoolEvent :=
  [.server (.request (.dequeueTasks "t" queue 1) ⟨0, 0⟩ { now := 0 }),
    .tick 0 0,
    .work 0 { now := 0 } none]

/-- One worker, for one queue. -/
def onePool (queue : String) : FairWorkerPool := ⟨[queue], 1, 8⟩

/-- What the paused tenant loses when a queue is asked for, on a fresh server. -/
def askedFor (queue : String) : Option (List (String × Key)) :=
  (Server.main (.fresh : Database Rat) ⟨0, 0⟩).bind fun s =>
    (Runs.exec (onePool queue).next (PoolRun.start s 1) (pausedEvents ++ askingEvents queue)).map PoolRun.moved

/-- A paused tenant whose other queue is asked for keeps its tasks. -/
theorem paused_iff_unasked : ∃ (s : Server Rat) (c : PoolRun Rat),
    Runs.exec (onePool "mail").next (PoolRun.start s 1) (pausedEvents ++ askingEvents "mail") = some c ∧ c.moved = [] ∧
      Runs.execWhile (onePool "mail").next PoolRun.findsNothing (PoolRun.start s 1)
        (pausedEvents ++ askingEvents "mail") = some c := by
  have hsome : askedFor "mail" = some [] := by decide +kernel
  obtain ⟨s, -, hmap⟩ := Option.bind_eq_some_iff.mp hsome
  obtain ⟨c, hc, hmoved⟩ := Option.map_eq_some_iff.mp hmap
  exact ⟨s, c, hc, hmoved, (paused_iff (onePool "mail") s _ hc).mp hmoved⟩

/-- The client takes the first task and the worker the second. -/
theorem not_paused : ¬∀ (p : FairWorkerPool) (s : Server Rat), s.Reached → ∀ (events : List PoolEvent) (c : PoolRun Rat),
    Runs.exec p.next (PoolRun.start s p.concurrency) events = some c → c.moved = [] := by
  intro h
  have hsome : askedFor "default" = some [("t", encodeKey "default" 0), ("t", encodeKey "default" 1)] := by
    decide +kernel
  obtain ⟨s, hs, hmap⟩ := Option.bind_eq_some_iff.mp hsome
  obtain ⟨c, hc, hmoved⟩ := Option.map_eq_some_iff.mp hmap
  have hnil := h (onePool "default") s ⟨s, _, hs, .refl⟩ _ c hc
  rw [hmoved] at hnil
  cases hnil

end Delivered

end RocksQueue
