import RocksQueue.Theorems.Intact

/-! # The tables agree

The registry, the statistics and the baselines know the same tenants, and the scheduler knows them all: each tenant
that is provisioned is registered everywhere, and what counts or measures a tenant is gone when it is dropped. -/

namespace IdMap
variable {κ ν : Type} [DecidableEq κ] {idOf : ν → κ} {m m' m'' : IdMap idOf} {k : κ}

/-- The two have values under the same keys. -/
def SameKeys (m m' : IdMap idOf) : Prop := ∀ k, (m'.lookup k).isSome = (m.lookup k).isSome

theorem SameKeys.refl : SameKeys m m := fun _ => rfl

theorem SameKeys.trans (h : SameKeys m m') (h' : SameKeys m' m'') : SameKeys m m'' := fun k => (h' k).trans (h k)

theorem SameKeys.modify {g : ν → ν} (h : ∀ k', m'.lookup k' = if k' = k then (m.lookup k').map g else m.lookup k') :
    SameKeys m m' := fun k' => by
  rw [h]
  split
  · exact Option.isSome_map
  · rfl

theorem SameKeys.mapValues {f : ν → ν} {hf : ∀ v, idOf (f v) = idOf v} : SameKeys m (m.mapValues f hf) := fun k => by
  rw [lookup_mapValues, Option.isSome_map]

theorem SameKeys.foldl {α : Type} {step : IdMap idOf → α → IdMap idOf} (hstep : ∀ m a, SameKeys m (step m a)) (l : List α) :
    SameKeys m (l.foldl step m) := by
  induction l generalizing m with
  | nil => exact .refl
  | cons a l ih => exact (hstep m a).trans ih

end IdMap

namespace RocksQueue
open IdMap

variable {R : Type} [F64 R] {s s' s'' : Server R} {clock : Clock} {io : Inputs} {tenant : String}

/-- No tenant appears in a table, or disappears from one; the scheduler may know more. -/
structure Server.SameTables (s s' : Server R) : Prop where
  policies : ∀ t, t ∈ s'.registry.policies ↔ t ∈ s.registry.policies
  stats : SameKeys s.collector s'.collector
  baselines : SameKeys s.baselines s'.baselines
  states : ∀ t, (s.scheduler.tenants.lookup t).isSome = true → (s'.scheduler.tenants.lookup t).isSome = true

/-- The tables agree about the tenant. -/
structure Server.Listed (s : Server R) (tenant : String) : Prop where
  stats : (s.registered tenant).stats.isSome = true ↔ tenant ∈ s.registry.policies
  baseline : (s.registered tenant).baseline.isSome = true ↔ tenant ∈ s.registry.policies
  state : tenant ∈ s.registry.policies → (s.registered tenant).state.isSome = true

namespace Server.SameTables

omit [F64 R] in
theorem refl : SameTables s s := ⟨fun _ => Iff.rfl, .refl, .refl, fun _ => id⟩

omit [F64 R] in
theorem trans (h : SameTables s s') (h' : SameTables s' s'') : SameTables s s'' where
  policies t := (h'.policies t).trans (h.policies t)
  stats := h.stats.trans h'.stats
  baselines := h.baselines.trans h'.baselines
  states t ht := h'.states t (h.states t ht)

omit [F64 R] in
theorem listed (h : SameTables s s') (hs : s.Listed tenant) : s'.Listed tenant where
  stats := by
    rw [h.policies, ← hs.stats, Server.registered, Server.registered, h.stats]
  baseline := by
    rw [h.policies, ← hs.baseline, Server.registered, Server.registered, h.baselines]
  state hmem := h.states tenant (hs.state ((h.policies tenant).mp hmem))

end Server.SameTables

/-! ## The scheduler -/

section Scheduler
variable {w : WFQScheduler R} {p : TenantPolicy} {instant : Nat} {paused : Bool} {t : String}

theorem isSome_updatePolicy (h : (w.tenants.lookup t).isSome = true) :
    ((w.updatePolicy p instant).tenants.lookup t).isSome = true := by
  unfold WFQScheduler.updatePolicy
  split
  · simp only [lookup_modify]
    split
    · rw [Option.isSome_map]
      exact h
    · exact h
  · simp only [WFQScheduler.register, lookup_insert]
    split
    · rfl
    · exact h

omit [F64 R] in
theorem isSome_setPaused (h : (w.tenants.lookup t).isSome = true) :
    (((w.setPaused tenant paused).getD w).tenants.lookup t).isSome = true := by
  unfold WFQScheduler.setPaused
  split
  · simp only [Option.getD_some, lookup_modify]
    split
    · rw [Option.isSome_map]
      exact h
    · exact h
  · exact h

end Scheduler

section Throttle
variable {a : AutoThrottle R} {reason t : String} {rate now instant : Nat}

theorem isSome_applyThrottle (h : (a.scheduler.tenants.lookup t).isSome = true) :
    ((a.applyThrottle tenant reason now instant).scheduler.tenants.lookup t).isSome = true := by
  unfold AutoThrottle.applyThrottle
  split
  · exact h
  · exact isSome_updatePolicy h

theorem isSome_releaseThrottle (h : (a.scheduler.tenants.lookup t).isSome = true) :
    ((a.releaseThrottle tenant rate instant).scheduler.tenants.lookup t).isSome = true := by
  unfold AutoThrottle.releaseThrottle
  dsimp only
  split
  · exact isSome_updatePolicy h
  · exact h

theorem isSome_forceRelease (h : (a.scheduler.tenants.lookup t).isSome = true) :
    ((a.forceRelease tenant instant).scheduler.tenants.lookup t).isSome = true := by
  unfold AutoThrottle.forceRelease
  split
  · exact isSome_releaseThrottle h
  · exact h

theorem isSome_evaluateOne {stats : TenantStats R} (h : (a.scheduler.tenants.lookup t).isSome = true) :
    ((a.evaluateOne stats now instant).scheduler.tenants.lookup t).isSome = true := by
  unfold AutoThrottle.evaluateOne
  split
  · split
    · exact isSome_releaseThrottle h
    · exact h
  · split
    · exact isSome_applyThrottle h
    · exact h

theorem baselines_evaluateOne {stats : TenantStats R} : (a.evaluateOne stats now instant).baselines = a.baselines := by
  unfold AutoThrottle.evaluateOne
  split
  · split <;> rfl
  · split
    · exact AutoThrottle.baselines_applyThrottle
    · rfl

theorem evaluate_tables (a : AutoThrottle R) (allStats : List (TenantStats R)) (now instant : Nat) :
    (a.evaluate allStats now instant).baselines = a.baselines ∧ ∀ t, (a.scheduler.tenants.lookup t).isSome = true →
      ((a.evaluate allStats now instant).scheduler.tenants.lookup t).isSome = true := by
  unfold AutoThrottle.evaluate
  induction allStats generalizing a with
  | nil => exact ⟨rfl, fun _ => id⟩
  | cons stats allStats ih =>
    obtain ⟨hbaselines, hstates⟩ := ih (a.evaluateOne stats now instant)
    exact ⟨hbaselines.trans baselines_evaluateOne, fun t ht => hstates t (isSome_evaluateOne ht)⟩

end Throttle

/-! ## The events -/

section Events

omit [F64 R] in
theorem sameTables_withThrottle {a : AutoThrottle R} (hbaselines : a.baselines = s.baselines)
    (hstates : ∀ t, (s.scheduler.tenants.lookup t).isSome = true → (a.scheduler.tenants.lookup t).isSome = true) :
    s.SameTables (s.withThrottle a) := by
  refine ⟨fun _ => Iff.rfl, .refl, fun k => ?_, hstates⟩
  show (a.baselines.lookup k).isSome = _
  rw [hbaselines]

theorem sameKeys_recordBacklog {c : StatsCollector R} {pending inflight : Nat} :
    SameKeys c (c.recordBacklog tenant pending inflight) := .modify fun _ => AList.lookup_modify

theorem sameKeys_recordBacklogs {db : Database R} {queues : List String} {c : StatsCollector R} {t : String} :
    SameKeys c (Server.recordBacklogs db queues c t) := by
  unfold Server.recordBacklogs
  split
  · exact .refl
  · exact .foldl (fun _ _ => sameKeys_recordBacklog) queues

theorem sameTables_updateBaseline {stats : TenantStats R} : s.SameTables (s.updateBaseline clock stats) := by
  have hupdate : SameKeys s.baselines (s.baselines.update stats.tenantId stats.arrivalRate clock.millis).1 :=
    .modify fun _ => AList.lookup_modify
  unfold Server.updateBaseline
  split
  · rename_i m h
    rw [h] at hupdate
    exact ⟨fun _ => Iff.rfl, .refl, hupdate, fun _ => id⟩
  · rename_i m promotion h
    rw [h] at hupdate
    exact ⟨fun _ => Iff.rfl, .refl, hupdate, fun _ => id⟩

theorem sameTables_daemonCycle : s.SameTables (s.daemonCycle clock) := by
  rw [Server.daemonCycle_eq]
  dsimp only
  have hcounted : s.SameTables s.counted := by
    have hstats : SameKeys s.collector s.counted.collector := by
      have hrefresh : SameKeys s.collector s.collector.refresh := .mapValues
      exact hrefresh.trans (.foldl (fun _ _ => sameKeys_recordBacklogs) _)
    exact ⟨fun _ => Iff.rfl, hstats, .refl, fun _ => id⟩
  generalize s.counted.collector.allSnapshots = snapshots
  have hrebased : s.SameTables (s.rebased clock snapshots) := by
    unfold Server.rebased
    generalize s.counted = s₁ at hcounted
    induction snapshots generalizing s₁ with
    | nil => exact hcounted
    | cons stats snapshots ih => exact ih _ (hcounted.trans sameTables_updateBaseline)
  generalize s.rebased clock snapshots = s₁ at hrebased
  have hevaluated : s₁.SameTables (s₁.withThrottle (s₁.throttle.evaluate snapshots clock.millis clock.instant)) := by
    obtain ⟨hbaselines, hstates⟩ := evaluate_tables s₁.throttle snapshots clock.millis clock.instant
    exact sameTables_withThrottle hbaselines hstates
  split
  · exact (hrebased.trans hevaluated).trans ⟨fun _ => Iff.rfl, .refl, .refl, fun _ => id⟩
  · exact hrebased.trans hevaluated

/-- A record of the collector that files no tenant. -/
def RecordsInPlace (record : Reply → StatsCollector R → StatsCollector R) : Prop := ∀ reply c, SameKeys c (record reply c)

omit [F64 R] in
theorem sameTables_withoutPolicy {call : Call} {record : Reply → StatsCollector R → StatsCollector R}
    (hrecord : RecordsInPlace record) (h : s.withoutPolicy tenant io call record = some s') : s.SameTables s' := by
  obtain ⟨⟨s₁, reply⟩, hcall, hr⟩ := Option.map_eq_some_iff.mp h
  have hcalled : s.SameTables s₁ := by
    rcases Server.callTenant_cases hcall with ⟨-, rfl, -⟩ | ⟨db, t, returned, -, -, rfl, -⟩
    · exact .refl
    · exact ⟨fun _ => Iff.rfl, .refl, .refl, fun _ => id⟩
  cases reply with
  | none =>
    cases hr
    exact hcalled
  | some reply =>
    cases hr
    exact hcalled.trans ⟨fun _ => Iff.rfl, hrecord reply _, .refl, fun _ => id⟩

omit [F64 R] in
theorem sameTables_withPolicy {call : NamespacePolicy → Call} {record : Reply → StatsCollector R → StatsCollector R}
    (hrecord : RecordsInPlace record) (h : s.withPolicy tenant io call record = some s') : s.SameTables s' := by
  unfold Server.withPolicy at h
  split at h
  · cases h
    exact .refl
  · exact sameTables_withoutPolicy hrecord h

omit [F64 R] in
theorem recordsInPlace_enqueued (count : Nat) :
    RecordsInPlace (Server.recordEnqueued tenant count : Reply → StatsCollector R → _) := by
  intro reply c
  cases reply <;> first | exact SameKeys.modify fun _ => AList.lookup_modify | exact SameKeys.refl

omit [F64 R] in
theorem recordsInPlace_acked : RecordsInPlace (Server.recordAcked tenant : Reply → StatsCollector R → _) := by
  intro reply c
  cases reply with
  | acked counted =>
    simp only [Server.recordAcked]
    split
    · exact .modify fun _ => AList.lookup_modify
    · exact .refl
  | _ => exact .refl

omit [F64 R] in
theorem recordsInPlace_ackedBatch : RecordsInPlace (Server.recordAckedBatch tenant : Reply → StatsCollector R → _) := by
  intro reply c
  cases reply <;> first | exact SameKeys.modify fun _ => AList.lookup_modify | exact SameKeys.refl

omit [F64 R] in
theorem recordsInPlace_nacked : RecordsInPlace (Server.recordNacked tenant : Reply → StatsCollector R → _) := by
  intro reply c
  cases reply <;> first | exact SameKeys.modify fun _ => AList.lookup_modify | exact SameKeys.refl

omit [F64 R] in
theorem sameTables_setPaused {paused : Bool} : s.SameTables (s.setPaused tenant paused) :=
  ⟨fun _ => Iff.rfl, .refl, .refl, fun _ ht => isSome_setPaused ht⟩

omit [F64 R] in
theorem sameTables_setNamespacePolicy {r : NamespacePolicyRequest} : s.SameTables (s.setNamespacePolicy r) := by
  unfold Server.setNamespacePolicy TenantRegistry.updateNamespacePolicy
  split
  · rename_i hlisted
    split
    · exact .refl
    · refine ⟨fun t => ?_, .refl, .refl, fun _ => id⟩
      rw [AList.mem_insert]
      exact or_iff_right_of_imp fun heq => heq ▸ hlisted
  · exact .refl

theorem sameTables_updatePolicy {policy : Option Policy} : s.SameTables (s.updatePolicy tenant policy clock) := by
  cases policy with
  | none => exact .refl
  | some p => exact ⟨fun _ => Iff.rfl, .refl, .refl, fun _ ht => isSome_updatePolicy ht⟩

/-- A tenant that is provisioned is registered everywhere. -/
theorem listed_provisionTenant {other tier : String} (h : s.Listed tenant) :
    (s.provisionTenant other tier clock).1.Listed tenant := by
  obtain ⟨db', ok, -, hcall⟩ := provisionTenant_cases s.registry other (tierPolicy tier other)
  simp only [Server.provisionTenant, hcall]
  cases ok with
  | false => exact ⟨h.stats, h.baseline, h.state⟩
  | true =>
    simp only [if_true]
    let policies := s.registry.policies.insert other (tierPolicy tier other)
    generalize hs₁ : ({ s with registry := { s.registry with db := db', policies := policies } } : Server R) = s₁
    have hold : s₁.registered tenant = s.registered tenant := by
      rw [← hs₁]
      rfl
    have hmem : tenant ∈ s₁.registry.policies ↔ tenant = other ∨ tenant ∈ s.registry.policies := by
      rw [← hs₁]
      exact AList.mem_insert _
    have hregistered : (s₁.registerTenant other (tierPolicy tier other) clock).registered tenant =
        if tenant = other then .new s₁.registry.db other (tierPolicy tier other) clock else s₁.registered tenant :=
      registered_registerTenant tenant
    by_cases heq : tenant = other
    · rw [if_pos heq] at hregistered
      have hin : tenant ∈ (s₁.registerTenant other (tierPolicy tier other) clock).registry.policies := hmem.mpr (Or.inl heq)
      refine ⟨iff_of_true ?_ hin, iff_of_true ?_ hin, fun _ => ?_⟩ <;> rw [hregistered] <;> rfl
    · rw [if_neg heq, hold] at hregistered
      have hiff : tenant ∈ s₁.registry.policies ↔ tenant ∈ s.registry.policies := hmem.trans (or_iff_right heq)
      refine ⟨?_, ?_, fun hin => ?_⟩ <;> rw [hregistered]
      · exact h.stats.trans hiff.symm
      · exact h.baseline.trans hiff.symm
      · exact h.state (hiff.mp hin)

omit [F64 R] in
/-- A tenant that is dropped is registered nowhere. -/
theorem listed_dropTenant {other : String} (h : s.Listed tenant) : (s.dropTenant other).1.Listed tenant := by
  obtain ⟨db', ok, -, hcall⟩ := dropTenant_cases s.registry other
  simp only [Server.dropTenant, hcall]
  cases ok with
  | false => exact ⟨h.stats, h.baseline, h.state⟩
  | true =>
    have hmem : tenant ∈ s.registry.policies.erase other ↔ tenant ≠ other ∧ tenant ∈ s.registry.policies := AList.mem_erase
    by_cases heq : tenant = other
    · subst heq
      have hout : tenant ∉ s.registry.policies.erase tenant := fun hin => (hmem.mp hin).1 rfl
      have hstats : (s.collector.deregister tenant).lookup tenant = none := lookup_erase.trans (if_pos rfl)
      have hbaseline : (s.baselines.deregister tenant).lookup tenant = none := lookup_erase.trans (if_pos rfl)
      refine ⟨iff_of_false ?_ hout, iff_of_false ?_ hout, fun hin => absurd hin hout⟩
      · simp [Server.registered, hstats]
      · simp [Server.registered, hbaseline]
    · have hregistered := registered_deregister (s := s) heq
      have hiff : tenant ∈ s.registry.policies.erase other ↔ tenant ∈ s.registry.policies := hmem.trans (and_iff_right heq)
      exact ⟨hregistered ▸ h.stats.trans hiff.symm, hregistered ▸ h.baseline.trans hiff.symm,
        fun hin => hregistered ▸ h.state (hiff.mp hin)⟩

theorem listed_handle {r : Request} (h : s.Listed tenant) (hhandle : s.handle clock io r = some s') : s'.Listed tenant := by
  cases r <;> simp only [Server.handle] at hhandle
  case provisionTenant t tier =>
    cases hhandle
    exact listed_provisionTenant h
  case dropTenant t =>
    cases hhandle
    exact listed_dropTenant h
  case updatePolicy t policy =>
    cases hhandle
    exact sameTables_updatePolicy.listed h
  case setNamespacePolicy r =>
    cases hhandle
    exact sameTables_setNamespacePolicy.listed h
  -- The calls keep the tables: statistics change in place, and policies not at all.
  case enqueueTask t queue payload => exact (sameTables_withPolicy (recordsInPlace_enqueued 1) hhandle).listed h
  case enqueueBatch t queue payloads =>
    unfold Server.enqueueBatch at hhandle
    split at hhandle
    · cases hhandle
      exact h
    · exact (sameTables_withPolicy (recordsInPlace_enqueued _) hhandle).listed h
  case dequeueTasks t queue limit =>
    unfold Server.dequeueTasks at hhandle
    exact (sameTables_withPolicy (fun _ _ => .refl) hhandle).listed h
  case ackTask t key => exact (sameTables_withoutPolicy recordsInPlace_acked hhandle).listed h
  case ackBatch t keys =>
    unfold Server.ackBatch at hhandle
    split at hhandle
    · cases hhandle
      exact h
    · exact (sameTables_withoutPolicy recordsInPlace_ackedBatch hhandle).listed h
  case nackTask t key => exact (sameTables_withoutPolicy recordsInPlace_nacked hhandle).listed h
  case forceReleaseThrottle t =>
    cases hhandle
    -- A release removes a throttle, and leaves the baselines.
    have hbaselines : (s.throttle.forceRelease t clock.instant).baselines = s.baselines := by
      unfold AutoThrottle.forceRelease
      split <;> rfl
    exact (sameTables_withThrottle hbaselines fun _ ht => isSome_forceRelease (a := s.throttle) ht).listed h
  case pauseTenant t =>
    cases hhandle
    exact sameTables_setPaused.listed h
  case resumeTenant t =>
    cases hhandle
    exact sameTables_setPaused.listed h
  case drainTenant t =>
    cases hhandle
    exact sameTables_setPaused.listed h
  case purgeDlq t => exact (sameTables_withoutPolicy (fun _ _ => .refl) hhandle).listed h
  case replayDlq t => exact (sameTables_withoutPolicy (fun _ _ => .refl) hhandle).listed h
  case compactTenant t =>
    cases hhandle
    exact Server.compactTenant_keeps (P := fun s => s.Listed tenant) h ⟨h.stats, h.baseline, h.state⟩

theorem listed_main {db : Database R} (hdb : Filed db) (hmain : Server.main db clock = some s) : s.Listed tenant := by
  have hs := started_of_main hdb hmain
  have hpolicy : tenant ∈ s.registry.policies ↔ (db.loadPolicy tenant).isSome = true := by
    rw [← AList.lookup_isSome, hs.policies]
  have hregistered := hs.registered tenant
  cases hload : db.loadPolicy tenant with
  | none =>
    rw [hload] at hregistered hpolicy
    have hout : tenant ∉ s.registry.policies := fun hin => Bool.false_ne_true (hpolicy.mp hin)
    refine ⟨iff_of_false ?_ hout, iff_of_false ?_ hout, fun hin => absurd hin hout⟩ <;> simp [hregistered]
  | some policy =>
    rw [hload] at hregistered hpolicy
    have hin : tenant ∈ s.registry.policies := hpolicy.mpr rfl
    refine ⟨iff_of_true ?_ hin, iff_of_true ?_ hin, fun _ => ?_⟩ <;> rw [hregistered] <;> rfl

theorem Server.Listed.next {e : Server.Event} (hi : s.Intact) (h : s.Listed tenant) (hn : s.next e = some s') :
    s'.Listed tenant := by
  cases e with
  | request r clock io => exact listed_handle h hn
  | compaction t c =>
    cases hn
    exact ⟨h.stats, h.baseline, h.state⟩
  | daemonCycle clock =>
    cases hn
    exact sameTables_daemonCycle.listed h
  | reaperTick now =>
    cases hn
    exact ⟨h.stats, h.baseline, h.state⟩
  | restart clock => exact listed_main hi.filed hn

theorem listed_of_reached (h : s.Reached) (tenant : String) : s.Listed tenant := by
  obtain ⟨s₀, clock, hmain, hrun⟩ := h
  have hstart : s₀.Intact ∧ s₀.Listed tenant := ⟨intact_of_main intact_fresh hmain, listed_main intact_fresh.filed hmain⟩
  exact (hrun.invariant (I := fun s => s.Intact ∧ s.Listed tenant) (fun ⟨hi, hl⟩ _ hn => ⟨hi.next hn, hl.next hi hn⟩) hstart).2

/-- In every state that the server reaches, a tenant is provisioned, has a metadata record, has all three families, has
    statistics and has a baseline, or none of these; and the scheduler knows all tenants that are provisioned. -/
theorem tables_agree (h : s.Reached) (tenant : String) :
    ((s.registry.db.loadPolicy tenant).isSome = true ↔ tenant ∈ s.registry.policies) ∧
      (∀ name ∈ cfNames tenant, name ∈ s.registry.db.cfs ↔ tenant ∈ s.registry.policies) ∧
      ((s.collector.snapshot tenant).isSome = true ↔ tenant ∈ s.registry.policies) ∧
      ((s.baselines.snapshot tenant).isSome = true ↔ tenant ∈ s.registry.policies) ∧
      (tenant ∈ s.registry.policies → (s.scheduler.policy tenant).isSome = true) := by
  have hi := (intact_of_reached h).tenants tenant
  have hl := listed_of_reached h tenant
  refine ⟨?_, hi.families, ?_, hl.baseline, fun hin => ?_⟩
  · rw [← hi.policy, AList.lookup_isSome]
  · rw [StatsCollector.snapshot, Option.isSome_map]
    exact hl.stats
  · rw [WFQScheduler.policy, Option.isSome_map]
    exact hl.state hin

end Events

/-- One tenant stays, and another comes and goes. -/
theorem tables_agree_dropped : ∃ s : Server Rat, s.Reached ∧ "t" ∈ s.registry.policies ∧ "u" ∉ s.registry.policies ∧
    ((s.collector.snapshot "t").isSome = true ↔ "t" ∈ s.registry.policies) ∧
      ((s.collector.snapshot "u").isSome = true ↔ "u" ∈ s.registry.policies) := by
  have hruns : (Runs.exec Server.next (.empty : Server Rat)
      [.request (.provisionTenant "t" "standard") ⟨0, 0⟩ { now := 0 },
        .request (.provisionTenant "u" "premium") ⟨0, 0⟩ { now := 0 },
        .request (.dropTenant "u") ⟨1, 1⟩ { now := 1 }]).map
      (fun s => ((s.registry.getPolicy "t").isSome, (s.registry.getPolicy "u").isSome)) = some (true, false) := by
    decide +kernel
  obtain ⟨s, hs, hpolicies⟩ := Option.map_eq_some_iff.mp hruns
  have hreached : s.Reached := ⟨.empty, ⟨0, 0⟩, rfl, Runs.run_of_exec hs⟩
  obtain ⟨ht, hu⟩ := Prod.mk.inj hpolicies
  refine ⟨s, hreached, AList.lookup_isSome.mp ht, fun hin => ?_, (tables_agree hreached "t").2.2.1,
    (tables_agree hreached "u").2.2.1⟩
  rw [TenantRegistry.getPolicy, AList.lookup_isSome.mpr hin] at hu
  cases hu

end RocksQueue
