import RocksQueue.Theorems.Startup

/-! # Throttles after a restart

`restore_from_store` runs before any tenant is registered, so it finds no policy to reduce: the throttle says
that the tenant is throttled, and the scheduler has the rates of its namespace policy. The two agree when these
are the reduced rates already. -/

namespace RocksQueue

variable {R : Type} [F64 R] {db : Database R} {clock : Clock} {r : TenantRegistry R} {s : Server R}
  {rec : PersistedThrottle} {policy : NamespacePolicy}

/-- The throttle reports the tenant as throttled. -/
def ReportsThrottled (a : AutoThrottle R) (tenant : String) : Prop :=
  ∃ state, a.snapshot tenant = some state ∧ state.throttled = true

/-- The scheduler applies the rates of this throttle, and the throttle reports the tenant as throttled. -/
def ThrottleApplied (s : Server R) (rec : PersistedThrottle) : Prop :=
  (∃ policy, s.scheduler.policy rec.tenantId = some policy ∧ policy.ratePerSec = rec.appliedRate ∧
    policy.burstTokens = max rec.appliedRate 1) ∧ ReportsThrottled s.throttle rec.tenantId

/-! ## The snapshot -/

section Snapshot
variable {a : AutoThrottle R} {tenant : String} {p : PersistedThrottle} {ps : List PersistedThrottle} {now instant : Nat}

theorem reportsThrottled_restoreOne (hnone : ∀ t, a.scheduler.policy t = none) :
    ReportsThrottled (a.restoreOne p now instant) tenant ↔
      (p.inForce now = true ∧ p.tenantId = tenant) ∨ ReportsThrottled a tenant := by
  have hstates : (a.restoreOne p now instant).states.lookup tenant =
      if tenant = p.tenantId then (restoredThrottle p now (throttleOf a tenant)).1 else a.states.lookup tenant := by
    have htenant : throttleOf (a.restoreOne p now instant) tenant = _ := throttleOf_restoreOne hnone tenant
    refine (congrArg Prod.fst htenant).trans ?_
    split <;> rfl
  simp only [ReportsThrottled, AutoThrottle.snapshot, hstates, restoredThrottle, throttleOf]
  by_cases ht : tenant = p.tenantId
  · by_cases hforce : p.inForce now = true
    · simp [ht, hforce, PersistedThrottle.state]
    · simp [ht, hforce]
  · simp [ht, Ne.symm ht]

theorem reportsThrottled_restore (hnone : ∀ t, a.scheduler.policy t = none) :
    ReportsThrottled (ps.foldl (fun a p => a.restoreOne p now instant) a) tenant ↔
      (∃ p ∈ ps, p.inForce now = true ∧ p.tenantId = tenant) ∨ ReportsThrottled a tenant := by
  induction ps generalizing a with
  | nil => simp
  | cons p ps ih =>
    have hsame : (a.restoreOne p now instant).scheduler = a.scheduler := scheduler_restoreOne hnone
    have hnone' : ∀ t, (a.restoreOne p now instant).scheduler.policy t = none := by
      rw [hsame]
      exact hnone
    rw [List.foldl_cons, ih hnone', reportsThrottled_restoreOne hnone, List.exists_mem_cons_iff, or_assoc, or_left_comm]

end Snapshot

/-! ## The start-up -/

section Main

omit [F64 R] in
/-- Opening the database changes no record. -/
theorem loadAllThrottles_of_open {now : Nat} (hopen : TenantRegistry.open db now = some r) :
    r.db.loadAllThrottles = db.loadAllThrottles := by
  unfold TenantRegistry.open at hopen
  split at hopen
  · cases hopen
  · split at hopen
    · cases hopen
    · rename_i db' hdb'
      cases hopen
      unfold Database.openCfDescriptors at hdb'
      split at hdb'
      · cases hdb'
        cases hsystem : db.system with
        | none =>
          have hempty : seekPrefix (.empty : SystemCf R) throttlePrefix = [] := List.eq_nil_iff_forall_not_mem.mpr
            fun e he => by cases (mem_seekPrefix.mp he).1
          simp [Database.loadAllThrottles, Database.records, Database.createMissing, hsystem, hempty]
        | some cf => simp [Database.loadAllThrottles, Database.records, Database.createMissing, hsystem]
      · cases hdb'

/-- What the scheduler and the throttle have of a tenant once `main` has started the server: the first what the
    registry says, the second what the record says. -/
theorem throttled_of_main (hopen : TenantRegistry.open db clock.millis = some r) (hmain : Server.main db clock = some s)
    (hpolicy : r.getPolicy rec.tenantId = some policy) (hrec : rec ∈ db.loadAllThrottles)
    (hforce : rec.inForce clock.millis = true) :
    s.scheduler.policy rec.tenantId = some (policy.toTenantPolicy rec.tenantId) ∧ ReportsThrottled s.throttle rec.tenantId := by
  obtain ⟨r', a, s₁, hopen', ha, hs₁, rfl⟩ := stages_of_main hmain
  obtain rfl : r = r' := Option.some.inj (hopen.symm.trans hopen')
  obtain ⟨-, hthrottles, hregistered⟩ :=
    registered_registerTenants ((Server.opened r).withThrottle a) clock (listTenants_nodup r)
  rw [← hs₁] at hthrottles hregistered
  have hlisted : rec.tenantId ∈ r.listTenants := AList.lookup_isSome.mp (Option.isSome_of_eq_some hpolicy)
  constructor
  · have hstate := congrArg Registered.state (hregistered rec.tenantId)
    have hpolicy' : ((Server.opened r).withThrottle a).registry.getPolicy rec.tenantId = some policy := hpolicy
    rw [if_pos hlisted, hpolicy'] at hstate
    exact congrArg (Option.map TenantState.policy) hstate
  · rw [← loadAllThrottles_of_open hopen] at hrec
    have hreports : ReportsThrottled a rec.tenantId := by
      rw [ha]
      exact (reportsThrottled_restore fun _ => rfl).mpr (Or.inl ⟨rec, hrec, hforce, rfl⟩)
    obtain ⟨state, hstate, hthrottled⟩ := hreports
    refine ⟨state, ?_, hthrottled⟩
    show s₁.throttles.lookup rec.tenantId = some state
    rw [hthrottles]
    exact hstate

/-- Once the database is open, nothing keeps the server from starting. -/
theorem main_of_open (clock : Clock) (hopen : TenantRegistry.open db clock.millis = some r) : ∃ s, Server.main db clock = some s := by
  unfold Server.main
  rw [hopen]
  exact ⟨_, rfl⟩

theorem throttleApplied_iff (hopen : TenantRegistry.open db clock.millis = some r) (hmain : Server.main db clock = some s)
    (hpolicy : r.getPolicy rec.tenantId = some policy) (hrec : rec ∈ db.loadAllThrottles)
    (hthrottled : rec.throttled = true) (hcooldown : clock.millis < rec.cooldownUntilMs) :
    ThrottleApplied s rec ↔ policy.ratePerSec = rec.appliedRate ∧ policy.burstTokens = max rec.appliedRate 1 := by
  have hforce : rec.inForce clock.millis = true := by simp [PersistedThrottle.inForce, hthrottled, hcooldown]
  obtain ⟨hscheduler, hreports⟩ := throttled_of_main hopen hmain hpolicy hrec hforce
  constructor
  · rintro ⟨⟨p, hp, hrates⟩, -⟩
    rw [hscheduler] at hp
    obtain rfl := Option.some.inj hp
    exact hrates
  · intro hrates
    exact ⟨⟨_, hscheduler, hrates⟩, hreports⟩

end Main

/-! ## In exact arithmetic -/

section Exact

/-- What a throttle records that reduces the rate of `t` to this one. -/
def reducedTo (appliedRate : Nat) : PersistedThrottle where
  tenantId := "t"
  throttled := true
  reason := "burst_score_exceeded"
  originalRate := 4 * appliedRate
  appliedRate := appliedRate
  triggeredAtMs := 0
  cooldownUntilMs := 30000

/-- A database with the standard tenant `t`, throttled to this rate. -/
def throttledDb (appliedRate : Nat) : Database Rat :=
  ((⟨some .empty, ∅⟩ : Database Rat).carryOut (provisionSteps "t" (.standard "t"))).1.persistThrottle (reducedTo appliedRate)

/-- The server starts on such a database, with `t` among its tenants. -/
theorem starts_throttledDb (rate : Nat) (hrate : rate ∈ [25, 100]) (instant : Nat) :
    ∃ r s, TenantRegistry.open (throttledDb rate) 1000 = some r ∧ Server.main (throttledDb rate) ⟨1000, instant⟩ = some s ∧
      r.getPolicy "t" = some (.standard "t") := by
  have hpolicy : ∀ rate ∈ [25, 100], ((TenantRegistry.open (throttledDb rate) 1000).bind fun r => r.getPolicy "t") =
      some (NamespacePolicy.standard "t") := by
    decide +kernel
  obtain ⟨r, hopen, hr⟩ := Option.bind_eq_some_iff.mp (hpolicy rate hrate)
  obtain ⟨s, hmain⟩ := main_of_open ⟨1000, instant⟩ hopen
  exact ⟨r, s, hopen, hmain, hr⟩

theorem mem_loadAllThrottles_throttledDb : ∀ rate ∈ [25, 100], reducedTo rate ∈ (throttledDb rate).loadAllThrottles := by
  decide +kernel

theorem not_throttleApplied : ¬∀ (db : Database Rat) (clock : Clock) (r : TenantRegistry Rat) (s : Server Rat)
    (rec : PersistedThrottle) (policy : NamespacePolicy), TenantRegistry.open db clock.millis = some r →
      Server.main db clock = some s → r.getPolicy rec.tenantId = some policy → rec ∈ db.loadAllThrottles →
      rec.throttled = true → clock.millis < rec.cooldownUntilMs → ThrottleApplied s rec := by
  intro h
  obtain ⟨r, s, hopen, hmain, hpolicy⟩ := starts_throttledDb 25 (by decide) 0
  have hrec := mem_loadAllThrottles_throttledDb 25 (by decide)
  obtain ⟨⟨p, hp, hrate, -⟩, -⟩ := h (throttledDb 25) ⟨1000, 0⟩ r s (reducedTo 25) _ hopen hmain hpolicy hrec rfl (by decide)
  have hscheduler := (throttled_of_main hopen hmain hpolicy hrec (by decide)).1
  obtain rfl := Option.some.inj (hp.symm.trans hscheduler)
  exact absurd hrate (by decide)

/-- A tenant whose rate had been raised to four times the standard one. -/
theorem throttleApplied_standard : ∃ s, Server.main (throttledDb 100) ⟨1000, 0⟩ = some s ∧ ThrottleApplied s (reducedTo 100) := by
  obtain ⟨r, s, hopen, hmain, hpolicy⟩ := starts_throttledDb 100 (by decide) 0
  have hrec := mem_loadAllThrottles_throttledDb 100 (by decide)
  exact ⟨s, hmain, (throttleApplied_iff hopen hmain hpolicy hrec rfl (by decide)).mpr ⟨rfl, rfl⟩⟩

end Exact

end RocksQueue
