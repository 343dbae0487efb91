import RocksQueue.Theorems.CleanSlate

/-! # The throttles on disk

The table of throttles is written through: in every state that the server reaches it holds what the records say, so
a restart keeps the throttles whose cooldown is not over, and no others. -/

namespace RocksQueue

variable {R : Type}

/-- What is in memory of a tenant's throttle is what is on disk. -/
def MirroredAt (states : IdMap ThrottleState.tenantId) (db : Database R) (tenant : String) : Prop :=
  states.lookup tenant = (db.loadThrottle tenant).map PersistedThrottle.state

section Records
variable {db db' : Database R} {tenant : String} {states states' : IdMap ThrottleState.tenantId} {w : StoreWrite R}

theorem loadThrottle_congr (h : db'.record? (throttleKey tenant) = db.record? (throttleKey tenant)) :
    db'.loadThrottle tenant = db.loadThrottle tenant := by
  rw [Database.loadThrottle, h, Database.loadThrottle]

theorem loadThrottle_store (hsystem : db.system.isSome = true) :
    (db.store w).loadThrottle tenant =
      if throttleKey tenant = w.key then w.record?.bind asThrottle else db.loadThrottle tenant := by
  rw [Database.loadThrottle, record?_store hsystem]
  split <;> rfl

/-- A step that writes under this key. -/
def DbStep.Writes (key : Bytes) : DbStep R → Prop
  | .putSystem key' _ => key' = key
  | .deleteSystem key' => key' = key
  | _ => False

theorem record?_carryOut {key : Bytes} {steps : List (DbStep R)} (h : ∀ step ∈ steps, ¬step.Writes key) :
    (db.carryOut steps).1.record? key = db.record? key := by
  induction steps generalizing db with
  | nil => rfl
  | cons step steps ih =>
    obtain ⟨hstep, hsteps⟩ := List.forall_mem_cons.mp h
    rw [Database.carryOut]
    split
    · rfl
    · rename_i db₁ happly
      refine (ih hsteps).trans ?_
      cases step with
      | createCf name =>
        simp only [Database.apply] at happly
        split at happly <;> cases happly
        rfl
      | dropCf name =>
        simp only [Database.apply] at happly
        split at happly <;> cases happly
        rfl
      | putSystem key' v =>
        simp only [Database.apply] at happly
        split at happly <;> cases happly
        exact record?_putSystem_of_ne (Ne.symm hstep)
      | deleteSystem key' =>
        simp only [Database.apply] at happly
        split at happly <;> cases happly
        exact record?_deleteSystem.trans (if_neg (Ne.symm hstep))

end Records

/-! ## The throttle -/

section Throttle
variable [F64 R] {a : AutoThrottle R} {tenant other reason : String} {rate now instant : Nat}

/-- The throttle and its records agree. -/
structure AutoThrottle.Mirrored (a : AutoThrottle R) : Prop where
  system : a.store.system.isSome = true
  states : ∀ tenant, MirroredAt a.states a.store tenant

theorem throttleKey_eq : throttleKey tenant = throttleKey other ↔ tenant = other := by
  have hinj : RecordKind.throttle.key tenant = RecordKind.throttle.key other ↔ _ := key_inj
  exact hinj.trans (and_iff_right rfl)

omit [F64 R] in
theorem AutoThrottle.Mirrored.clear (h : a.Mirrored) :
    ∀ t, MirroredAt (a.states.erase tenant) (a.store.clearThrottle tenant) t := by
  intro t
  have hkey : throttleKey t = (StoreWrite.clearThrottle tenant : StoreWrite R).key ↔ t = tenant := throttleKey_eq
  rw [MirroredAt, Database.clearThrottle, loadThrottle_store h.system, IdMap.lookup_erase]
  by_cases ht : t = tenant
  · rw [if_pos ht, if_pos (hkey.mpr ht)]
    rfl
  · rw [if_neg ht, if_neg (mt hkey.mp ht)]
    exact h.states t

theorem mirrored_applyThrottle (h : a.Mirrored) : (a.applyThrottle tenant reason now instant).Mirrored := by
  unfold AutoThrottle.applyThrottle
  split
  · exact h
  · rename_i policy hpolicy
    generalize hstate : a.config.throttleState tenant reason policy.ratePerSec now = state
    have hid : state.tenantId = tenant := by
      rw [← hstate]
      rfl
    have hback : state.persisted.state = state := by
      rw [← hstate]
      rfl
    refine ⟨by simpa [Database.persistThrottle] using h.system, fun t => ?_⟩
    have hkey : throttleKey t = (StoreWrite.persistThrottle state.persisted : StoreWrite R).key ↔ t = state.tenantId :=
      throttleKey_eq
    dsimp only
    rw [MirroredAt, Database.persistThrottle, loadThrottle_store h.system, IdMap.lookup_insert]
    by_cases ht : t = state.tenantId
    · rw [if_pos ht, if_pos (hkey.mpr ht)]
      exact congrArg some hback.symm
    · rw [if_neg ht, if_neg (mt hkey.mp ht)]
      exact h.states t

theorem mirrored_releaseThrottle (h : a.Mirrored) : (a.releaseThrottle tenant rate instant).Mirrored where
  system := by simpa [AutoThrottle.releaseThrottle, Database.clearThrottle] using h.system
  states := h.clear

theorem mirrored_forceRelease (h : a.Mirrored) : (a.forceRelease tenant instant).Mirrored := by
  unfold AutoThrottle.forceRelease
  split
  · exact mirrored_releaseThrottle h
  · rename_i hnone
    refine ⟨by simpa [Database.clearThrottle] using h.system, fun t => ?_⟩
    have hclear : MirroredAt (a.states.erase tenant) (a.store.clearThrottle tenant) t := h.clear t
    have hsame : (a.states.erase tenant).lookup t = a.states.lookup t := by
      rw [IdMap.lookup_erase]
      split
      · rename_i heq
        rw [heq, hnone]
      · rfl
    rw [MirroredAt, hsame] at hclear
    exact hclear

theorem mirrored_evaluateOne (h : a.Mirrored) {stats : TenantStats R} : (a.evaluateOne stats now instant).Mirrored := by
  unfold AutoThrottle.evaluateOne
  split
  · split
    · exact mirrored_releaseThrottle h
    · exact h
  · split
    · exact mirrored_applyThrottle h
    · exact h

theorem mirrored_evaluate (h : a.Mirrored) (allStats : List (TenantStats R)) :
    (a.evaluate allStats now instant).Mirrored := by
  unfold AutoThrottle.evaluate
  induction allStats generalizing a with
  | nil => exact h
  | cons stats allStats ih => exact ih (mirrored_evaluateOne h)

end Throttle

/-! ## The events -/

section Events
variable {s s' s'' : Server R} {clock : Clock} {io : Inputs} {tenant : String}

/-- Neither a throttle nor the record of one differs. -/
structure Server.SameThrottles (s s' : Server R) : Prop where
  throttles : s'.throttles = s.throttles
  system : s.registry.db.system.isSome = true → s'.registry.db.system.isSome = true
  records : ∀ t, s'.registry.db.record? (throttleKey t) = s.registry.db.record? (throttleKey t)

/-- The table and the records agree. -/
structure Server.WrittenThrough (s : Server R) : Prop where
  system : s.registry.db.system.isSome = true
  states : ∀ tenant, MirroredAt s.throttles s.registry.db tenant

namespace Server.SameThrottles

theorem refl : SameThrottles s s := ⟨rfl, id, fun _ => rfl⟩

theorem trans (h : SameThrottles s s') (h' : SameThrottles s' s'') : SameThrottles s s'' where
  throttles := h'.throttles.trans h.throttles
  system hs := h'.system (h.system hs)
  records t := (h'.records t).trans (h.records t)

theorem of_refreshes {P : String → Prop} (h : s.registry.db.Refreshes P s'.registry.db) (ht : s'.throttles = s.throttles) :
    SameThrottles s s' :=
  ⟨ht, h.system, h.kept .throttle (Or.inr rfl)⟩

theorem writtenThrough (h : SameThrottles s s') (hs : s.WrittenThrough) : s'.WrittenThrough where
  system := h.system hs.system
  states t := by
    rw [MirroredAt, h.throttles, loadThrottle_congr (h.records t)]
    exact hs.states t

end Server.SameThrottles

theorem sameThrottles_withoutPolicy {call : Call} {record : Reply → StatsCollector R → StatsCollector R}
    (h : s.withoutPolicy tenant io call record = some s') : s.SameThrottles s' := by
  obtain ⟨⟨s₁, reply⟩, hcall, hs'⟩ := Option.map_eq_some_iff.mp h
  have hcalled : s.SameThrottles s₁ := by
    rcases Server.callTenant_cases hcall with ⟨-, rfl, -⟩ | ⟨db, t, returned, hdb, -, rfl, -⟩
    · exact .refl
    · exact .of_refreshes (.setTenantDb (by simp [hdb])) rfl
  cases reply with
  | none =>
    cases hs'
    exact hcalled
  | some reply =>
    cases hs'
    exact hcalled.trans ⟨rfl, id, fun _ => rfl⟩

theorem sameThrottles_withPolicy {call : NamespacePolicy → Call} {record : Reply → StatsCollector R → StatsCollector R}
    (h : s.withPolicy tenant io call record = some s') : s.SameThrottles s' := by
  unfold Server.withPolicy at h
  split at h
  · cases h
    exact .refl
  · exact sameThrottles_withoutPolicy h

theorem sameThrottles_compact {c : Compaction} : s.SameThrottles (s.compact tenant c) := .of_refreshes .compact rfl

/-- Provisioning and dropping write no record of a throttle. -/
theorem sameThrottles_carryOut {steps : List (DbStep R)} (hsteps : ∀ step ∈ steps, ∀ t, ¬step.Writes (throttleKey t))
    (hdb : s'.registry.db = (s.registry.db.carryOut steps).1) (hthrottles : s'.throttles = s.throttles)
    (hsystem : s.registry.db.system.isSome = true → s'.registry.db.system.isSome = true) : s.SameThrottles s' where
  throttles := hthrottles
  system := hsystem
  records t := by
    rw [hdb]
    exact record?_carryOut fun step hstep => hsteps step hstep t

theorem sameThrottles_provisionTenant [F64 R] {tier : String} : s.SameThrottles (s.provisionTenant tenant tier clock).1 := by
  have htouches : s.Touches (· = tenant) (s.provisionTenant tenant tier clock).1 := touches_provisionTenant
  have hsteps : ∀ step ∈ provisionSteps (R := R) tenant (tierPolicy tier tenant), ∀ t, ¬step.Writes (throttleKey t) := by
    intro step hstep t
    simp only [provisionSteps, List.mem_cons, List.not_mem_nil, or_false] at hstep
    rcases hstep with rfl | rfl | rfl | rfl
    · exact id
    · exact id
    · exact id
    · exact fun heq => key_ne .throttle .tenantMeta (by decide) heq.symm
  obtain ⟨db', ok, hrun, hcall⟩ := provisionTenant_cases s.registry tenant (tierPolicy tier tenant)
  refine sameThrottles_carryOut hsteps ?_ ?_ htouches.db.system
  · rw [hrun]
    simp only [Server.provisionTenant, hcall]
    cases ok <;> rfl
  · simp only [Server.provisionTenant, hcall]
    cases ok <;> rfl

theorem sameThrottles_dropTenant : s.SameThrottles (s.dropTenant tenant).1 := by
  have htouches : s.Touches (· = tenant) (s.dropTenant tenant).1 := touches_dropTenant
  have hsteps : ∀ step ∈ dropSteps (R := R) tenant, ∀ t, ¬step.Writes (throttleKey t) := by
    intro step hstep t
    simp only [dropSteps, List.mem_cons, List.not_mem_nil, or_false] at hstep
    rcases hstep with rfl | rfl | rfl | rfl
    · exact id
    · exact id
    · exact id
    · exact fun heq => key_ne .throttle .tenantMeta (by decide) heq.symm
  obtain ⟨db', ok, hrun, hcall⟩ := dropTenant_cases s.registry tenant
  refine sameThrottles_carryOut hsteps ?_ ?_ htouches.db.system
  · rw [hrun]
    simp only [Server.dropTenant, hcall]
    cases ok <;> rfl
  · simp only [Server.dropTenant, hcall]
    cases ok <;> rfl

theorem sameThrottles_setNamespacePolicy {r : NamespacePolicyRequest} : s.SameThrottles (s.setNamespacePolicy r) := by
  have htouches : s.Touches (· = r.tenantId) (s.setNamespacePolicy r) := touches_setNamespacePolicy
  refine ⟨rfl, htouches.db.system, fun t => ?_⟩
  unfold Server.setNamespacePolicy TenantRegistry.updateNamespacePolicy
  split
  · split
    · rfl
    · rename_i db' happly
      simp only [Database.apply] at happly
      split at happly <;> cases happly
      exact record?_putSystem_of_ne (key_ne .throttle .tenantMeta (by decide))
  · rfl

theorem writtenThrough_handle [F64 R] {r : Request} (h : s.WrittenThrough) (hhandle : s.handle clock io r = some s') :
    s'.WrittenThrough := by
  cases r <;> simp only [Server.handle] at hhandle
  case provisionTenant t tier =>
    cases hhandle
    exact sameThrottles_provisionTenant.writtenThrough h
  case dropTenant t =>
    cases hhandle
    exact sameThrottles_dropTenant.writtenThrough h
  case updatePolicy t policy =>
    cases hhandle
    cases policy <;> exact ⟨h.system, h.states⟩
  case setNamespacePolicy r =>
    cases hhandle
    exact sameThrottles_setNamespacePolicy.writtenThrough h
  case enqueueTask t queue payload => exact (sameThrottles_withPolicy hhandle).writtenThrough h
  case enqueueBatch t queue payloads =>
    unfold Server.enqueueBatch at hhandle
    split at hhandle
    · cases hhandle
      exact h
    · exact (sameThrottles_withPolicy hhandle).writtenThrough h
  case dequeueTasks t queue limit =>
    unfold Server.dequeueTasks at hhandle
    exact (sameThrottles_withPolicy hhandle).writtenThrough h
  case ackTask t key => exact (sameThrottles_withoutPolicy hhandle).writtenThrough h
  case ackBatch t keys =>
    unfold Server.ackBatch at hhandle
    split at hhandle
    · cases hhandle
      exact h
    · exact (sameThrottles_withoutPolicy hhandle).writtenThrough h
  case nackTask t key => exact (sameThrottles_withoutPolicy hhandle).writtenThrough h
  -- The one request that writes and removes throttles itself.
  case forceReleaseThrottle t =>
    cases hhandle
    have hreleased : (s.throttle.forceRelease t clock.instant).Mirrored := mirrored_forceRelease ⟨h.system, h.states⟩
    exact ⟨hreleased.system, hreleased.states⟩
  case pauseTenant t =>
    cases hhandle
    exact ⟨h.system, h.states⟩
  case resumeTenant t =>
    cases hhandle
    exact ⟨h.system, h.states⟩
  case drainTenant t =>
    cases hhandle
    exact ⟨h.system, h.states⟩
  case purgeDlq t => exact (sameThrottles_withoutPolicy hhandle).writtenThrough h
  case replayDlq t => exact (sameThrottles_withoutPolicy hhandle).writtenThrough h
  case compactTenant t =>
    cases hhandle
    exact Server.compactTenant_keeps h (sameThrottles_compact.writtenThrough h)

theorem sameThrottles_updateBaseline [F64 R] {stats : TenantStats R} : s.SameThrottles (s.updateBaseline clock stats) := by
  unfold Server.updateBaseline
  split
  · exact ⟨rfl, id, fun _ => rfl⟩
  · rename_i m promotion h
    have hflush : s.registry.db.Refreshes (fun _ => True)
        (s.registry.db.flushBaselines (m.snapshot stats.tenantId).toList clock.millis) := .flushBaselines fun _ _ => trivial
    exact .of_refreshes hflush rfl

theorem sameThrottles_flush {snapshots : List (TenantStats R)} : s.SameThrottles (s.flush snapshots clock) := by
  have hstats : s.registry.db.Refreshes (fun _ => True) (s.registry.db.flushStats snapshots clock.millis) :=
    .flushStats fun _ _ => trivial
  exact .of_refreshes (hstats.trans (.flushBaselines fun _ _ => trivial)) rfl

theorem writtenThrough_daemonCycle [F64 R] (h : s.WrittenThrough) : (s.daemonCycle clock).WrittenThrough := by
  rw [Server.daemonCycle_eq]
  dsimp only
  generalize s.counted.collector.allSnapshots = snapshots
  have hrebased : s.SameThrottles (s.rebased clock snapshots) := by
    have hcounted : s.SameThrottles s.counted := ⟨rfl, id, fun _ => rfl⟩
    unfold Server.rebased
    generalize s.counted = s₁ at hcounted
    induction snapshots generalizing s₁ with
    | nil => exact hcounted
    | cons stats snapshots ih => exact ih _ (hcounted.trans sameThrottles_updateBaseline)
  generalize s.rebased clock snapshots = s₁ at hrebased
  have h₁ := hrebased.writtenThrough h
  have hevaluated : (s₁.throttle.evaluate snapshots clock.millis clock.instant).Mirrored :=
    mirrored_evaluate ⟨h₁.system, h₁.states⟩ snapshots
  have h₂ : (s₁.withThrottle (s₁.throttle.evaluate snapshots clock.millis clock.instant)).WrittenThrough :=
    ⟨hevaluated.system, hevaluated.states⟩
  split
  · exact sameThrottles_flush.writtenThrough h₂
  · exact h₂

theorem sameThrottles_reaperTick {now : Nat} : s.SameThrottles (s.reaperTick now) := by
  have hqueue : ∀ (db : Database R) (t queue : String), db.Refreshes (fun _ => True) (Server.reapQueue db t queue now) := by
    intro db t queue
    unfold Server.reapQueue
    split
    · exact .refl
    · rename_i tdb htdb
      exact (Database.Refreshes.setTenantDb (by simp [htdb])).mono fun _ _ => trivial
  have htick : s.registry.db.Refreshes (fun _ => True)
      (s.registry.listTenants.foldl (Server.reapTenant now) s.registry.db) :=
    .foldl fun db t _ => .foldl fun db queue _ => hqueue db t queue
  exact .of_refreshes htick rfl

/-! ## Start-up -/

variable [F64 R] {db : Database R}

/-- What start-up restores is what the records say, less the throttles whose cooldown is over. -/
theorem restored_of_main (h : db.Intact) (hmain : Server.main db clock = some s) (tenant : String) :
    s.throttles.lookup tenant =
      ((db.loadThrottle tenant).map PersistedThrottle.state).filter fun t => clock.millis < t.cooldownUntilMs := by
  rw [(started_of_main h.filed hmain).throttles tenant, Option.filter_map]
  refine congrArg _ ?_
  cases hload : db.loadThrottle tenant with
  | none => rfl
  | some p =>
    obtain ⟨v, hv, hp⟩ := Option.bind_eq_some_iff.mp hload
    obtain rfl := asThrottle_eq_some.mp hp
    have hthrottled := h.throttled tenant p hv
    by_cases hnow : clock.millis < p.cooldownUntilMs <;>
      simp [Option.filter, PersistedThrottle.inForce, hthrottled, PersistedThrottle.state, hnow]

theorem writtenThrough_main (h : db.Intact) (hmain : Server.main db clock = some s) : s.WrittenThrough := by
  have hs := started_of_main h.filed hmain
  refine ⟨hs.system, fun tenant => ?_⟩
  have hrecord := hs.throttleRecord tenant
  rw [MirroredAt, restored_of_main h hmain]
  cases hload : db.loadThrottle tenant with
  | none =>
    rw [hload] at hrecord
    rw [loadThrottle_congr hrecord, hload]
    rfl
  | some p =>
    obtain ⟨v, hv, hp⟩ := Option.bind_eq_some_iff.mp hload
    obtain rfl := asThrottle_eq_some.mp hp
    have hthrottled := h.throttled tenant p hv
    rw [hload] at hrecord
    by_cases hnow : clock.millis < p.cooldownUntilMs
    · have hkept : s.registry.db.record? (throttleKey tenant) = db.record? (throttleKey tenant) := by
        simpa [PersistedThrottle.lapsed, hthrottled, hnow] using hrecord
      rw [loadThrottle_congr hkept, hload]
      simp [Option.filter, PersistedThrottle.state, hnow]
    · have hgone : s.registry.db.record? (throttleKey tenant) = none := by
        simpa [PersistedThrottle.lapsed, hthrottled, hnow] using hrecord
      rw [Database.loadThrottle, hgone]
      simp [Option.filter, PersistedThrottle.state, hnow]

theorem writtenThrough_of_reached (h : s.Reached) : s.WrittenThrough := by
  obtain ⟨s₀, clock, hmain, hrun⟩ := h
  have hstart : s₀.Intact ∧ s₀.WrittenThrough := ⟨intact_of_main intact_fresh hmain, writtenThrough_main intact_fresh hmain⟩
  refine (hrun.invariant (I := fun s => s.Intact ∧ s.WrittenThrough) ?_ hstart).2
  rintro s e s' ⟨hi, hw⟩ - hn
  refine ⟨hi.next hn, ?_⟩
  cases e with
  | request r clock io => exact writtenThrough_handle hw hn
  | compaction t c =>
    cases hn
    exact sameThrottles_compact.writtenThrough hw
  | daemonCycle clock =>
    cases hn
    exact writtenThrough_daemonCycle hw
  | reaperTick now =>
    cases hn
    exact sameThrottles_reaperTick.writtenThrough hw
  | restart clock => exact writtenThrough_main hi.database hn

/-- In every state that the server reaches by steps that complete, the throttles that are listed are those on disk; and
    a restart keeps each of them, as it is, whose cooldown is not over by then, and no other. -/
theorem throttles_written_through (h : s.Reached) :
    (∀ t, t ∈ s.throttle.allSnapshots ↔ t ∈ s.registry.db.loadAllThrottles.map PersistedThrottle.state) ∧
      ∀ clock, ∃ s', Server.main s.registry.db clock = some s' ∧
        ∀ tenant, s'.throttle.snapshot tenant =
          (s.throttle.snapshot tenant).filter fun t => clock.millis < t.cooldownUntilMs := by
  have hi := intact_of_reached h
  have hw := writtenThrough_of_reached h
  refine ⟨fun t => ?_, fun clock => ?_⟩
  · have hmem : t ∈ s.throttle.allSnapshots ↔ s.throttles.lookup t.tenantId = some t := IdMap.mem_values
    rw [hmem, hw.states t.tenantId, Option.map_eq_some_iff, List.mem_map]
    refine exists_congr fun p => ?_
    rw [(Filed.filedAs hi.filed .throttle).mem_loadAllThrottles]
    constructor
    · rintro ⟨hload, rfl⟩
      obtain ⟨v, hv, hp⟩ := Option.bind_eq_some_iff.mp hload
      obtain rfl := asThrottle_eq_some.mp hp
      exact ⟨hv, rfl⟩
    · rintro ⟨hget, rfl⟩
      refine ⟨?_, rfl⟩
      have hget' : s.registry.db.record? (throttleKey p.state.tenantId) = some (.throttle p) := hget
      rw [Database.loadThrottle, hget']
      rfl
  · obtain ⟨s', hmain⟩ := main_of_intact hi.database clock
    refine ⟨s', hmain, fun tenant => ?_⟩
    have hrestored := restored_of_main hi.database hmain tenant
    rw [← hw.states tenant] at hrestored
    exact hrestored

end Events

/-- A tenant is throttled at 1000, until 31000: a restart before then keeps the throttle, one after does not. -/
theorem throttles_written_through_backlog : ∃ s : Server Rat, s.Reached ∧ ∃ t ∈ s.throttle.allSnapshots,
    t ∈ s.registry.db.loadAllThrottles.map PersistedThrottle.state ∧
      (∃ s', Server.main s.registry.db ⟨30999, 0⟩ = some s' ∧ s'.throttle.snapshot "t" = some t) ∧
      ∃ s', Server.main s.registry.db ⟨31000, 0⟩ = some s' ∧ s'.throttle.snapshot "t" = none := by
  have hruns : (Runs.exec Server.next (.empty : Server Rat) throttledEvents).map
      (fun s => (s.throttle.snapshot "t").map ThrottleState.cooldownUntilMs) = some (some 31000) := by
    decide +kernel
  obtain ⟨s, hs, hthrottled⟩ := Option.map_eq_some_iff.mp hruns
  obtain ⟨t, ht, huntil⟩ := Option.map_eq_some_iff.mp hthrottled
  have hreached : s.Reached := ⟨.empty, ⟨0, 0⟩, rfl, Runs.run_of_exec hs⟩
  obtain ⟨hlisted, hrestarts⟩ := throttles_written_through hreached
  obtain ⟨s₁, hmain₁, hsnapshots₁⟩ := hrestarts ⟨30999, 0⟩
  obtain ⟨s₂, hmain₂, hsnapshots₂⟩ := hrestarts ⟨31000, 0⟩
  have hmem : t ∈ s.throttle.allSnapshots :=
    IdMap.mem_values.mpr (by rw [(IdMap.keyed _ ht : t.tenantId = "t")]; exact ht)
  refine ⟨s, hreached, t, hmem, (hlisted t).mp hmem, ⟨s₁, hmain₁, ?_⟩, s₂, hmain₂, ?_⟩
  · rw [hsnapshots₁, ht]
    simp [Option.filter, huntil]
  · rw [hsnapshots₂, ht]
    simp [Option.filter, huntil]

end RocksQueue
