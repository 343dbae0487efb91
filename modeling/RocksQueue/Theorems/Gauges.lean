import RocksQueue.Theorems.Intact

/-! # What is kept of a tenant

The statistics, the baseline and the throttle of a tenant, and the records of them, are made from each other only: the
daemon reads the counters, the baseline follows the rate, the throttle and the records are copies of what is in memory,
and a restart copies them back. A condition that each of these operations keeps holds in every state that the server
reaches (`within_of_reached`). -/

namespace RocksQueue

/-- A condition on the statistics of a tenant, one on its baseline, one on its throttle, and one on the records. -/
structure Gauge (R : Type) where
  stats : TenantStatsState R → Prop
  baseline : TenantBaseline R → Prop
  throttle : ThrottleState → Prop
  record : SystemRecord R → Prop

/-- The texts that `evaluate` gives as a reason. -/
def throttleReasons : List String := ["burst_score_exceeded", "backlog_threshold_exceeded", "rate_spike_detected"]

/-- The operations of the code keep the conditions. -/
structure Gauge.Sound {R : Type} [F64 R] (g : Gauge R) : Prop where
  newStats : ∀ tenant instant, g.stats ⟨.new tenant instant, .zero⟩
  recordEnqueue : ∀ {state} count, g.stats state → g.stats (state.count fun c => c.recordEnqueue count)
  recordAckCount : ∀ {state} count, g.stats state → g.stats (state.count fun c => c.recordAckCount count 0)
  recordNack : ∀ {state}, g.stats state → g.stats (state.count TenantCounters.recordNack)
  refresh : ∀ {state}, g.stats state → g.stats state.refresh
  recordBacklog : ∀ {state} pending inflight, g.stats state → g.stats (state.recordBacklog pending inflight)
  warm : ∀ {state p} now, g.stats state → g.record (.stats p) → g.stats (state.warm (p.decayed now))
  newBaseline : ∀ tenant now, g.baseline (.new tenant 0.0 now)
  restoredBaseline : ∀ {b} tenant now, g.record (.baseline b) → g.baseline (.restored tenant b now)
  updateBaseline : ∀ {state b} now, g.stats state → g.baseline b →
    g.baseline (b.update state.stats.arrivalRate 0.2 0.01 3.0 now).1
  newThrottle : ∀ tenant rate now, ∀ reason ∈ throttleReasons,
    g.throttle ((ThrottleConfig.default : ThrottleConfig R).throttleState tenant reason rate now)
  restoredThrottle : ∀ {p}, g.record (.throttle p) → g.throttle p.state
  statsRecord : ∀ {state} now, g.stats state → g.record (.stats (state.stats.persisted now))
  baselineRecord : ∀ {b} now, g.baseline b → g.record (.baseline (b.persisted now))
  throttleRecord : ∀ {t}, g.throttle t → g.record (.throttle t.persisted)
  policyRecord : ∀ p, g.record (.policy p)

variable {R : Type} {g : Gauge R}

/-- The conditions hold of everything that the server keeps. -/
structure Server.Within (g : Gauge R) (s : Server R) : Prop where
  stats : s.collector.All g.stats
  baselines : s.baselines.All g.baseline
  throttles : s.throttles.All g.throttle
  records : ∀ {key v}, s.registry.db.record? key = some v → g.record v

/-! ## The records -/

section Records
variable {db db' : Database R} {key : Bytes} {v : SystemRecord R}

/-- What a step puts, meets the condition. -/
def DbStep.Puts (P : SystemRecord R → Prop) : DbStep R → Prop
  | .putSystem _ v => P v
  | _ => True

theorem record?_of_putSystem {w : SystemRecord R} {key' : Bytes} (h : (db.putSystem key' w).record? key = some v) :
    v = w ∨ db.record? key = some v := by
  by_cases hkey : key = key'
  · cases hsystem : db.system with
    | none =>
      simp [Database.record?, Database.putSystem, hsystem] at h
    | some cf =>
      rw [record?_putSystem (by simp [hsystem]), if_pos hkey] at h
      exact Or.inl (Option.some.inj h).symm
  · rw [record?_putSystem_of_ne hkey] at h
    exact Or.inr h

theorem record?_of_deleteSystem {key' : Bytes} (h : (db.deleteSystem key').record? key = some v) :
    db.record? key = some v := by
  rw [record?_deleteSystem] at h
  split at h
  · cases h
  · exact h

/-- A write of the statistics store leaves old records, and its own. -/
theorem record?_of_store {w : StoreWrite R} (h : (db.store w).record? key = some v) :
    w.record? = some v ∨ db.record? key = some v := by
  cases w with
  | flushStats s => exact (record?_of_putSystem h).imp (fun heq => congrArg some heq.symm) id
  | persistThrottle t => exact (record?_of_putSystem h).imp (fun heq => congrArg some heq.symm) id
  | clearThrottle t => exact Or.inr (record?_of_deleteSystem h)
  | flushBaseline b => exact (record?_of_putSystem h).imp (fun heq => congrArg some heq.symm) id
  | clearBaseline t => exact Or.inr (record?_of_deleteSystem h)

variable {P : SystemRecord R → Prop}

theorem records_store {w : StoreWrite R} (h : ∀ {key v}, db.record? key = some v → P v)
    (hw : ∀ v, w.record? = some v → P v) (hget : (db.store w).record? key = some v) : P v := by
  rcases record?_of_store hget with hnew | hold
  · exact hw v hnew
  · exact h hold

theorem records_carryOut {steps : List (DbStep R)} (h : ∀ {key v}, db.record? key = some v → P v)
    (hsteps : ∀ step ∈ steps, step.Puts P) (hget : (db.carryOut steps).1.record? key = some v) : P v := by
  induction steps generalizing db with
  | nil => exact h hget
  | cons step steps ih =>
    obtain ⟨hstep, hrest⟩ := List.forall_mem_cons.mp hsteps
    rw [Database.carryOut] at hget
    split at hget
    · exact h hget
    · rename_i db₁ happly
      refine ih (fun {k w} hw => ?_) hrest hget
      cases step with
      | createCf name =>
        simp only [Database.apply] at happly
        split at happly <;> cases happly
        exact h hw
      | dropCf name =>
        simp only [Database.apply] at happly
        split at happly <;> cases happly
        exact h hw
      | putSystem key' w' =>
        simp only [Database.apply] at happly
        split at happly <;> cases happly
        rcases record?_of_putSystem hw with rfl | hold
        · exact hstep
        · exact h hold
      | deleteSystem key' =>
        simp only [Database.apply] at happly
        split at happly <;> cases happly
        exact h (record?_of_deleteSystem hw)

theorem records_flushStats {stats : List (TenantStats R)} {now : Nat} (h : ∀ {key v}, db.record? key = some v → P v)
    (hstats : ∀ s ∈ stats, P (.stats (s.persisted now))) (hget : (db.flushStats stats now).record? key = some v) :
    P v := by
  unfold Database.flushStats at hget
  induction stats generalizing db with
  | nil => exact h hget
  | cons s stats ih =>
    obtain ⟨hs, hrest⟩ := List.forall_mem_cons.mp hstats
    exact ih (records_store h fun v hv => by cases hv; exact hs) hrest hget

theorem records_flushBaselines {baselines : List (TenantBaseline R)} {now : Nat}
    (h : ∀ {key v}, db.record? key = some v → P v) (hbaselines : ∀ b ∈ baselines, P (.baseline (b.persisted now)))
    (hget : (db.flushBaselines baselines now).record? key = some v) : P v := by
  unfold Database.flushBaselines at hget
  induction baselines generalizing db with
  | nil => exact h hget
  | cons b baselines ih =>
    obtain ⟨hb, hrest⟩ := List.forall_mem_cons.mp hbaselines
    exact ih (records_store h fun v hv => by cases hv; exact hb) hrest hget

end Records

/-! ## Requests -/

section Requests
variable [F64 R] {s s' : Server R} {clock : Clock} {io : Inputs} {tenant : String}

/-- What a request records keeps the conditions on the statistics. -/
def RecordsWithin (g : Gauge R) (record : Reply → StatsCollector R → StatsCollector R) : Prop :=
  ∀ reply {c : StatsCollector R}, c.All g.stats → (record reply c).All g.stats

theorem recordsWithin_enqueued (hg : g.Sound) (count : Nat) : RecordsWithin g (Server.recordEnqueued tenant count) := by
  intro reply c hc
  cases reply with
  | enqueued ids => exact hc.modify (hg.recordEnqueue count) fun _ h => h
  | _ => exact hc

theorem recordsWithin_acked (hg : g.Sound) : RecordsWithin g (Server.recordAcked tenant) := by
  intro reply c hc
  cases reply with
  | acked counted =>
    simp only [Server.recordAcked]
    split
    · exact hc.modify (hg.recordAckCount 1) fun _ h => h
    · exact hc
  | _ => exact hc

theorem recordsWithin_ackedBatch (hg : g.Sound) : RecordsWithin g (Server.recordAckedBatch tenant) := by
  intro reply c hc
  cases reply with
  | acked counted => exact hc.modify (hg.recordAckCount counted.length) fun _ h => h
  | _ => exact hc

theorem recordsWithin_nacked (hg : g.Sound) : RecordsWithin g (Server.recordNacked tenant) := by
  intro reply c hc
  cases reply with
  | done => exact hc.modify hg.recordNack fun _ h => h
  | _ => exact hc

omit [F64 R] in
theorem recordsWithin_none : RecordsWithin g fun _ c => c := fun _ {_} hc => hc

omit [F64 R] in
theorem within_withoutPolicy {call : Call} {record : Reply → StatsCollector R → StatsCollector R} (h : s.Within g)
    (hrecord : RecordsWithin g record) (hcall : s.withoutPolicy tenant io call record = some s') : s'.Within g := by
  obtain ⟨⟨s₁, reply⟩, hcall, hs'⟩ := Option.map_eq_some_iff.mp hcall
  have h₁ : s₁.Within g := by
    rcases Server.callTenant_cases hcall with ⟨-, rfl, -⟩ | ⟨db, t, returned, -, -, rfl, -⟩
    · exact h
    · exact ⟨h.stats, h.baselines, h.throttles, h.records⟩
  cases reply with
  | none =>
    cases hs'
    exact h₁
  | some reply =>
    cases hs'
    exact ⟨hrecord reply h₁.stats, h₁.baselines, h₁.throttles, h₁.records⟩

omit [F64 R] in
theorem within_withPolicy {call : NamespacePolicy → Call} {record : Reply → StatsCollector R → StatsCollector R}
    (h : s.Within g) (hrecord : RecordsWithin g record) (hcall : s.withPolicy tenant io call record = some s') :
    s'.Within g := by
  unfold Server.withPolicy at hcall
  split at hcall
  · cases hcall
    exact h
  · exact within_withoutPolicy h hrecord hcall

theorem within_registerTenant (hg : g.Sound) (h : s.Within g) {policy : NamespacePolicy} :
    (s.registerTenant tenant policy clock).Within g where
  stats := h.stats.insert (hg.newStats tenant clock.instant)
  baselines := by
    simp only [Server.registerTenant, BaselineRegistry.register, Database.loadBaseline]
    split
    · rename_i b hload
      refine h.baselines.insert (hg.restoredBaseline tenant clock.millis ?_)
      split at hload
      · rename_i b' hget
        cases hload
        exact h.records hget
      · cases hload
    · exact h.baselines.insert (hg.newBaseline tenant clock.millis)
  throttles := h.throttles
  records := h.records

theorem within_provisionTenant (hg : g.Sound) (h : s.Within g) {tier : String} :
    (s.provisionTenant tenant tier clock).1.Within g := by
  have hsteps : ∀ step ∈ provisionSteps (R := R) tenant (tierPolicy tier tenant), step.Puts g.record := by
    intro step hstep
    simp only [provisionSteps, List.mem_cons, List.not_mem_nil, or_false] at hstep
    rcases hstep with rfl | rfl | rfl | rfl
    · trivial
    · trivial
    · trivial
    · exact hg.policyRecord _
  obtain ⟨db', ok, hrun, hcall⟩ := provisionTenant_cases s.registry tenant (tierPolicy tier tenant)
  have hdb : (s.registry.db.carryOut _).1 = db' := congrArg Prod.fst hrun
  have hrecords : ∀ {key v}, db'.record? key = some v → g.record v := fun hget =>
    records_carryOut h.records hsteps (hdb ▸ hget)
  have hstored : ∀ policies, Server.Within g { s with registry := ⟨db', s.registry.seq, policies⟩ } :=
    fun policies => ⟨h.stats, h.baselines, h.throttles, hrecords⟩
  simp only [Server.provisionTenant, hcall]
  cases ok with
  | false => exact hstored _
  | true => exact within_registerTenant hg (hstored _)

omit [F64 R] in
theorem within_dropTenant (h : s.Within g) : (s.dropTenant tenant).1.Within g := by
  have hsteps : ∀ step ∈ dropSteps (R := R) tenant, step.Puts g.record := by
    intro step hstep
    simp only [dropSteps, List.mem_cons, List.not_mem_nil, or_false] at hstep
    rcases hstep with rfl | rfl | rfl | rfl <;> trivial
  obtain ⟨db', ok, hrun, hcall⟩ := dropTenant_cases s.registry tenant
  have hdb : (s.registry.db.carryOut _).1 = db' := congrArg Prod.fst hrun
  have hrecords : ∀ {key v}, db'.record? key = some v → g.record v := fun hget =>
    records_carryOut h.records hsteps (hdb ▸ hget)
  simp only [Server.dropTenant, hcall]
  cases ok with
  | false => exact ⟨h.stats, h.baselines, h.throttles, hrecords⟩
  | true => exact ⟨h.stats.erase, h.baselines.erase, h.throttles, hrecords⟩

theorem within_setNamespacePolicy (hg : g.Sound) (h : s.Within g) {r : NamespacePolicyRequest} :
    (s.setNamespacePolicy r).Within g := by
  refine ⟨h.stats, h.baselines, h.throttles, fun {key v} hget => ?_⟩
  simp only [Server.setNamespacePolicy, TenantRegistry.updateNamespacePolicy] at hget
  split at hget
  · split at hget
    · exact h.records hget
    · rename_i db' happly
      simp only [Database.apply] at happly
      split at happly <;> cases happly
      rcases record?_of_putSystem hget with rfl | hold
      · exact hg.policyRecord _
      · exact h.records hold
  · exact h.records hget

/-! ## The throttle -/

variable {a : AutoThrottle R} {reason : String} {rate now instant : Nat}

/-- The conditions hold of what the throttle keeps. -/
structure AutoThrottle.Within (g : Gauge R) (a : AutoThrottle R) : Prop where
  config : a.config = .default
  baselines : a.baselines.All g.baseline
  throttles : a.states.All g.throttle
  records : ∀ {key v}, a.store.record? key = some v → g.record v

omit [F64 R] in
theorem records_clearThrottle {db : Database R} (h : ∀ {key v}, db.record? key = some v → g.record v) {key : Bytes}
    {v : SystemRecord R} (hget : (db.clearThrottle tenant).record? key = some v) : g.record v :=
  records_store h (fun _ hv => by cases hv) hget

theorem within_applyThrottle (hg : g.Sound) (h : a.Within g) (hreason : reason ∈ throttleReasons) :
    (a.applyThrottle tenant reason now instant).Within g := by
  unfold AutoThrottle.applyThrottle
  split
  · exact h
  · rename_i policy hpolicy
    have hnew : g.throttle (a.config.throttleState tenant reason policy.ratePerSec now) := by
      rw [h.config]
      exact hg.newThrottle tenant policy.ratePerSec now reason hreason
    exact ⟨h.config, h.baselines, h.throttles.insert hnew,
      records_store h.records fun v hv => by cases hv; exact hg.throttleRecord hnew⟩

theorem within_releaseThrottle (h : a.Within g) : (a.releaseThrottle tenant rate instant).Within g :=
  ⟨h.config, h.baselines, h.throttles.erase, records_clearThrottle h.records⟩

theorem within_forceRelease (h : a.Within g) : (a.forceRelease tenant instant).Within g := by
  unfold AutoThrottle.forceRelease
  split
  · exact within_releaseThrottle h
  · exact ⟨h.config, h.baselines, h.throttles, records_clearThrottle h.records⟩

theorem reason_mem (a : AutoThrottle R) (stats : TenantStats R) : a.reason stats ∈ throttleReasons := by
  unfold AutoThrottle.reason
  split
  · exact List.mem_cons_self
  · split
    · exact List.mem_cons_of_mem _ List.mem_cons_self
    · exact List.mem_cons_of_mem _ (List.mem_cons_of_mem _ List.mem_cons_self)

theorem within_evaluateOne (hg : g.Sound) (h : a.Within g) (stats : TenantStats R) :
    (a.evaluateOne stats now instant).Within g := by
  unfold AutoThrottle.evaluateOne
  split
  · split
    · exact within_releaseThrottle h
    · exact h
  · split
    · exact within_applyThrottle hg h (reason_mem a stats)
    · exact h

theorem within_evaluate (hg : g.Sound) (h : a.Within g) (allStats : List (TenantStats R)) :
    (a.evaluate allStats now instant).Within g := by
  unfold AutoThrottle.evaluate
  induction allStats generalizing a with
  | nil => exact h
  | cons stats allStats ih => exact ih (within_evaluateOne hg h stats)

theorem within_throttle (h : s.Within g) : s.throttle.Within g := ⟨rfl, h.baselines, h.throttles, h.records⟩

theorem within_withThrottle (h : s.Within g) (ha : a.Within g) : (s.withThrottle a).Within g :=
  ⟨h.stats, ha.baselines, ha.throttles, ha.records⟩

omit [F64 R] in
theorem within_compact {c : Compaction} (h : s.Within g) : (s.compact tenant c).Within g :=
  ⟨h.stats, h.baselines, h.throttles, h.records⟩

theorem within_handle (hg : g.Sound) {r : Request} (h : s.Within g) (hhandle : s.handle clock io r = some s') :
    s'.Within g := by
  cases r <;> simp only [Server.handle] at hhandle
  case provisionTenant t tier =>
    cases hhandle
    exact within_provisionTenant hg h
  case dropTenant t =>
    cases hhandle
    exact within_dropTenant h
  case updatePolicy t policy =>
    cases hhandle
    cases policy <;> exact ⟨h.stats, h.baselines, h.throttles, h.records⟩
  case setNamespacePolicy r =>
    cases hhandle
    exact within_setNamespacePolicy hg h
  -- What a request counts is bounded by what it carries.
  case enqueueTask t queue payload => exact within_withPolicy h (recordsWithin_enqueued hg 1) hhandle
  case enqueueBatch t queue payloads =>
    unfold Server.enqueueBatch at hhandle
    split at hhandle
    · cases hhandle
      exact h
    · exact within_withPolicy h (recordsWithin_enqueued hg payloads.length) hhandle
  case dequeueTasks t queue limit => exact within_withPolicy h recordsWithin_none hhandle
  case ackTask t key => exact within_withoutPolicy h (recordsWithin_acked hg) hhandle
  case ackBatch t keys =>
    unfold Server.ackBatch at hhandle
    split at hhandle
    · cases hhandle
      exact h
    · exact within_withoutPolicy h (recordsWithin_ackedBatch hg) hhandle
  case nackTask t key => exact within_withoutPolicy h (recordsWithin_nacked hg) hhandle
  case forceReleaseThrottle t =>
    cases hhandle
    exact within_withThrottle h (within_forceRelease (within_throttle h))
  case purgeDlq t => exact within_withoutPolicy h recordsWithin_none hhandle
  case replayDlq t => exact within_withoutPolicy h recordsWithin_none hhandle
  case compactTenant t =>
    cases hhandle
    exact Server.compactTenant_keeps h (within_compact h)
  all_goals
    cases hhandle
    exact ⟨h.stats, h.baselines, h.throttles, h.records⟩

/-! ## A cycle of the daemon -/

theorem all_recordBacklogs (hg : g.Sound) {db : Database R} {queues : List String} {c : StatsCollector R}
    (h : c.All g.stats) : (Server.recordBacklogs db queues c tenant).All g.stats := by
  unfold Server.recordBacklogs
  split
  · exact h
  · rename_i t ht
    induction queues generalizing c with
    | nil => exact h
    | cons queue queues ih =>
      have hhead : (c.recordBacklog tenant (t.countPrefix .pending queue) (t.countPrefix .inflight queue)).All g.stats :=
        h.modify (hg.recordBacklog _ _) fun _ h => h
      exact ih hhead

theorem within_counted (hg : g.Sound) (h : s.Within g) : s.counted.Within g := by
  refine ⟨?_, h.baselines, h.throttles, h.records⟩
  have hrefreshed : s.collector.refresh.All g.stats := h.stats.mapValues hg.refresh fun _ => rfl
  unfold Server.counted
  dsimp only
  generalize s.collector.refresh = c at hrefreshed
  induction s.registry.listTenants generalizing c with
  | nil => exact hrefreshed
  | cons t tenants ih => exact ih _ (all_recordBacklogs hg hrefreshed)

omit [F64 R] in
theorem stats_of_allSnapshots {c : StatsCollector R} (h : c.All g.stats) {stats : TenantStats R}
    (hstats : stats ∈ c.allSnapshots) : ∃ state, g.stats state ∧ state.stats = stats := by
  obtain ⟨state, hstate, rfl⟩ := List.mem_map.mp hstats
  exact ⟨state, h.of_mem hstate, rfl⟩

theorem within_updateBaseline (hg : g.Sound) (h : s.Within g) {state : TenantStatsState R} (hstate : g.stats state) :
    (s.updateBaseline clock state.stats).Within g := by
  have hbaselines : (s.baselines.update state.stats.tenantId state.stats.arrivalRate clock.millis).1.All g.baseline :=
    h.baselines.modify (hg.updateBaseline clock.millis hstate) fun b hb => (TenantBaseline.update_tenantId b).trans hb
  unfold Server.updateBaseline
  split
  · rename_i m hupdate
    rw [hupdate] at hbaselines
    exact ⟨h.stats, hbaselines, h.throttles, h.records⟩
  · rename_i m promotion hupdate
    rw [hupdate] at hbaselines
    refine ⟨h.stats, hbaselines, h.throttles, records_flushBaselines h.records fun b hb => ?_⟩
    exact hg.baselineRecord clock.millis (hbaselines _ b (Option.mem_toList.mp hb))

theorem within_rebased (hg : g.Sound) (h : s.Within g) {snapshots : List (TenantStats R)}
    (hsnapshots : ∀ stats ∈ snapshots, ∃ state, g.stats state ∧ state.stats = stats) :
    (s.rebased clock snapshots).Within g := by
  have hcounted := within_counted hg h
  unfold Server.rebased
  generalize s.counted = s₁ at hcounted
  induction snapshots generalizing s₁ with
  | nil => exact hcounted
  | cons stats snapshots ih =>
    obtain ⟨⟨state, hstate, rfl⟩, hrest⟩ := List.forall_mem_cons.mp hsnapshots
    exact ih hrest _ (within_updateBaseline hg hcounted hstate)

theorem within_flush (hg : g.Sound) (h : s.Within g) {snapshots : List (TenantStats R)}
    (hsnapshots : ∀ stats ∈ snapshots, ∃ state, g.stats state ∧ state.stats = stats) :
    (s.flush snapshots clock).Within g := by
  refine ⟨h.stats, h.baselines, h.throttles, records_flushBaselines (records_flushStats h.records fun stats hstats => ?_)
    fun b hb => hg.baselineRecord clock.millis (h.baselines.of_mem hb)⟩
  obtain ⟨state, hstate, rfl⟩ := hsnapshots stats hstats
  exact hg.statsRecord clock.millis hstate

theorem within_daemonCycle (hg : g.Sound) (h : s.Within g) : (s.daemonCycle clock).Within g := by
  have hsnapshots : ∀ stats ∈ s.counted.collector.allSnapshots, ∃ state, g.stats state ∧ state.stats = stats :=
    fun _ => stats_of_allSnapshots (within_counted hg h).stats
  rw [Server.daemonCycle_eq]
  dsimp only
  generalize s.counted.collector.allSnapshots = snapshots at hsnapshots
  have hrebased : (s.rebased clock snapshots).Within g := within_rebased hg h hsnapshots
  generalize s.rebased clock snapshots = s₁ at hrebased
  have hevaluated : (s₁.withThrottle (s₁.throttle.evaluate snapshots clock.millis clock.instant)).Within g :=
    within_withThrottle hrebased (within_evaluate hg (within_throttle hrebased) snapshots)
  split
  · exact within_flush hg hevaluated hsnapshots
  · exact hevaluated

omit [F64 R] in
/-- The reaper works on the families only. -/
theorem within_reaperTick (h : s.Within g) : (s.reaperTick now).Within g := by
  have hqueue : ∀ (db : Database R) (t queue : String), (Server.reapQueue db t queue now).system = db.system := by
    intro db t queue
    unfold Server.reapQueue
    split
    · rfl
    · exact system_setTenantDb
  have htenant : ∀ (db : Database R) (t : String), (Server.reapTenant now db t).system = db.system := fun db t =>
    List.foldlRecOn (motive := fun db' => db'.system = db.system) watchedQueues _ rfl fun db' hdb' queue _ =>
      (hqueue db' t queue).trans hdb'
  have htick : (s.registry.listTenants.foldl (Server.reapTenant now) s.registry.db).system = s.registry.db.system :=
    List.foldlRecOn (motive := fun db' => db'.system = s.registry.db.system) s.registry.listTenants _ rfl
      fun db' hdb' t _ => (htenant db' t).trans hdb'
  refine ⟨h.stats, h.baselines, h.throttles, fun {key v} hget => ?_⟩
  have hsame : (s.reaperTick now).registry.db.record? key = s.registry.db.record? key := by
    simp only [Database.record?, Server.reaperTick, Server.setDb, htick]
  rw [hsame] at hget
  exact h.records hget

/-! ## Start-up -/

theorem within_main (hg : g.Sound) {db : Database R} (hfiled : Filed db)
    (hrecords : ∀ {key v}, db.record? key = some v → g.record v) (hmain : Server.main db clock = some s) :
    s.Within g := by
  have hstarted := started_of_main hfiled hmain
  have hregistered : ∀ t, s.registered t = ⟨none, none, none⟩ ∨
      ∃ policy, s.registered t = .started db t policy clock := fun t => by
    have ht := hstarted.registered t
    split at ht
    · exact Or.inr ⟨_, ht⟩
    · exact Or.inl ht
  refine ⟨fun t state hget => ?_, fun t b hget => ?_, fun t st hget => ?_, fun {key v} hget => ?_⟩
  · have hstats : (s.registered t).stats = some state := hget
    rcases hregistered t with hnone | ⟨policy, hsome⟩
    · rw [hnone] at hstats
      cases hstats
    · rw [hsome] at hstats
      cases hstats
      -- The statistics are new, or new and warmed from what was stored.
      have hnew := hg.newStats t clock.instant
      cases hload : db.loadStats t with
      | none => exact hnew
      | some p => exact hg.warm clock.millis hnew (hrecords (loadStats_eq_some.mp hload))
  · have hbaseline : (s.registered t).baseline = some b := hget
    rcases hregistered t with hnone | ⟨policy, hsome⟩
    · rw [hnone] at hbaseline
      cases hbaseline
    · rw [hsome] at hbaseline
      cases hbaseline
      unfold Database.freshBaseline Database.loadBaseline
      split
      · rename_i b hload
        refine hg.restoredBaseline t clock.millis ?_
        split at hload
        · rename_i b' hrecord
          cases hload
          exact hrecords hrecord
        · cases hload
      · exact hg.newBaseline t clock.millis
  -- A throttle in memory was restored from a stored record.
  · rw [hstarted.throttles t] at hget
    obtain ⟨p, hp, rfl⟩ := Option.map_eq_some_iff.mp hget
    obtain ⟨v, hv, hthrottle⟩ := Option.bind_eq_some_iff.mp (Option.eq_some_of_filter_eq_some hp)
    cases asThrottle_eq_some.mp hthrottle
    exact hg.restoredThrottle (hrecords hv)
  -- A record on disk was there before the start.
  · by_cases hkey : ∃ t, key = throttleKey t
    · obtain ⟨t, rfl⟩ := hkey
      rw [hstarted.throttleRecord] at hget
      split at hget
      · cases hget
      · exact hrecords hget
    · rw [hstarted.records key (not_exists.mp hkey)] at hget
      exact hrecords hget

/-- What the operations keep holds in every state that the server reaches. -/
theorem within_of_reached (hg : g.Sound) (h : s.Reached) : s.Within g := by
  obtain ⟨s₀, clock, hmain, hrun⟩ := h
  have hstart : s₀.Intact ∧ s₀.Within g :=
    ⟨intact_of_main intact_fresh hmain, within_main hg intact_fresh.filed (fun hget => by cases hget) hmain⟩
  refine (hrun.invariant (I := fun s => s.Intact ∧ s.Within g) ?_ hstart).2
  rintro s e s' ⟨hi, hw⟩ - hn
  refine ⟨hi.next hn, ?_⟩
  cases e with
  | request r clock io => exact within_handle hg hw hn
  | compaction t c =>
    cases hn
    exact within_compact hw
  | daemonCycle clock =>
    cases hn
    exact within_daemonCycle hg hw
  | reaperTick now =>
    cases hn
    exact within_reaperTick hw
  | restart clock => exact within_main hg hi.filed hw.records hn

end Requests

end RocksQueue
