import RocksQueue.Theorems.Intact

/-! # Dropping a tenant

A tenant that is dropped and provisioned again is compared with one that has never been there. Dropping removes
the families, the policy, and what the scheduler, the collector and the baselines have registered. It leaves the
throttle, its record, and the records of the statistics and the baseline, and each of these comes back. -/

namespace RocksQueue

variable {R : Type}

/-! ## What can be seen of a tenant -/

/-- The scheduler's policy, the snapshots and the queues of a tenant. -/
structure TenantView (R : Type) where
  policy : Option TenantPolicy
  throttle : Option ThrottleState
  baseline : Option (TenantBaseline R)
  stats : Option (TenantStats R)
  queues : Option TenantDb

def Server.view [F64 R] (s : Server R) (tenant : String) : TenantView R where
  policy := s.scheduler.policy tenant
  throttle := s.throttle.snapshot tenant
  baseline := s.baselines.snapshot tenant
  stats := s.collector.snapshot tenant
  queues := s.registry.db.tenantDb? tenant

/-- A later call on the throttle. -/
inductive ThrottleCall (R : Type) where
  | evaluate (allStats : List (TenantStats R)) (now instant : Nat)
  | forceRelease (tenant : String) (instant : Nat)

variable [F64 R]

def AutoThrottle.call (a : AutoThrottle R) : ThrottleCall R → AutoThrottle R
  | .evaluate allStats now instant => a.evaluate allStats now instant
  | .forceRelease tenant instant => a.forceRelease tenant instant

/-- The two servers show the same of the tenant, and any calls on their throttles leave it with the same
    policy. -/
structure SameTenant (tenant : String) (s s' : Server R) : Prop where
  view : s.view tenant = s'.view tenant
  policies : ∀ calls : List (ThrottleCall R), (calls.foldl AutoThrottle.call s.throttle).scheduler.policy tenant =
    (calls.foldl AutoThrottle.call s'.throttle).scheduler.policy tenant

/-- The same, now and when both are restarted. -/
structure CleanSlate (tenant : String) (s s' : Server R) : Prop where
  now : SameTenant tenant s s'
  restarted : ∀ clock, ∃ t t', Server.main s.registry.db clock = some t ∧ Server.main s'.registry.db clock = some t' ∧
    SameTenant tenant t t'

/-! ## The throttle in two runs -/

section Throttles
variable {a a' b : AutoThrottle R} {tenant reason : String} {rate now instant : Nat}

/-- The two have the same of the tenant. -/
structure SameThrottle (tenant : String) (a a' : AutoThrottle R) : Prop where
  config : a.config = a'.config
  policy : a.scheduler.policy tenant = a'.scheduler.policy tenant
  state : a.states.lookup tenant = a'.states.lookup tenant
  baseline : a.baselines.lookup tenant = a'.baselines.lookup tenant

namespace SameThrottle

omit [F64 R] in
theorem refl : SameThrottle tenant a a := ⟨rfl, rfl, rfl, rfl⟩

omit [F64 R] in
theorem symm (h : SameThrottle tenant a a') : SameThrottle tenant a' a :=
  ⟨h.config.symm, h.policy.symm, h.state.symm, h.baseline.symm⟩

omit [F64 R] in
theorem trans (h : SameThrottle tenant a a') (h' : SameThrottle tenant a' b) : SameThrottle tenant a b :=
  ⟨h.config.trans h'.config, h.policy.trans h'.policy, h.state.trans h'.state, h.baseline.trans h'.baseline⟩

theorem applyThrottle (h : SameThrottle tenant a a') :
    SameThrottle tenant (a.applyThrottle tenant reason now instant) (a'.applyThrottle tenant reason now instant) := by
  refine ⟨by simp [h.config], ?_, ?_, by simp [h.baseline]⟩
  · rw [AutoThrottle.policy_applyThrottle, AutoThrottle.policy_applyThrottle, h.policy, h.config]
  · cases hpolicy : a'.scheduler.policy tenant with
    | none => rw [AutoThrottle.applyThrottle_unknown hpolicy, AutoThrottle.applyThrottle_unknown (h.policy.trans hpolicy), h.state]
    | some policy =>
      rw [AutoThrottle.states_applyThrottle hpolicy, AutoThrottle.states_applyThrottle (h.policy.trans hpolicy), h.config,
        if_pos rfl, if_pos rfl]

theorem releaseThrottle (h : SameThrottle tenant a a') :
    SameThrottle tenant (a.releaseThrottle tenant rate instant) (a'.releaseThrottle tenant rate instant) := by
  refine ⟨h.config, ?_, ?_, h.baseline⟩
  · rw [AutoThrottle.policy_releaseThrottle, AutoThrottle.policy_releaseThrottle, h.policy]
  · rw [AutoThrottle.states_releaseThrottle, AutoThrottle.states_releaseThrottle, h.state]

/-- A call for another tenant. -/
theorem applyThrottle_of_ne {t : String} (ht : tenant ≠ t) : SameThrottle tenant (a.applyThrottle t reason now instant) a :=
  ⟨by simp, by rw [AutoThrottle.policy_applyThrottle, if_neg ht], AutoThrottle.states_applyThrottle_of_ne ht, by simp⟩

theorem releaseThrottle_of_ne {t : String} (ht : tenant ≠ t) : SameThrottle tenant (a.releaseThrottle t rate instant) a :=
  ⟨rfl, by rw [AutoThrottle.policy_releaseThrottle, if_neg ht], by rw [AutoThrottle.states_releaseThrottle, if_neg ht], rfl⟩

theorem forceRelease (h : SameThrottle tenant a a') {t : String} :
    SameThrottle tenant (a.forceRelease t instant) (a'.forceRelease t instant) := by
  by_cases ht : tenant = t
  · subst ht
    unfold AutoThrottle.forceRelease
    rw [h.state]
    split
    · exact h.releaseThrottle
    · exact ⟨h.config, h.policy, h.state, h.baseline⟩
  · have hother : ∀ a : AutoThrottle R, SameThrottle tenant (a.forceRelease t instant) a := fun a => by
      unfold AutoThrottle.forceRelease
      split
      · exact releaseThrottle_of_ne ht
      · exact ⟨rfl, rfl, rfl, rfl⟩
    exact ((hother a).trans h).trans (hother a').symm

theorem evaluateOne (h : SameThrottle tenant a a') {stats : TenantStats R} :
    SameThrottle tenant (a.evaluateOne stats now instant) (a'.evaluateOne stats now instant) := by
  by_cases ht : tenant = stats.tenantId
  · subst ht
    -- What is decided about the tenant depends on what the two agree on.
    have hspike : a.baselines.isSpike stats.tenantId stats.arrivalRate = a'.baselines.isSpike stats.tenantId stats.arrivalRate := by
      simp only [BaselineRegistry.isSpike, h.baseline]
    have hthreshold : a.baselines.spikeThreshold stats.tenantId = a'.baselines.spikeThreshold stats.tenantId := by
      simp only [BaselineRegistry.spikeThreshold, h.baseline]
    have hshould : a.shouldThrottle stats = a'.shouldThrottle stats := by
      simp only [AutoThrottle.shouldThrottle, h.config, hspike]
    have hreason : a.reason stats = a'.reason stats := by
      simp only [AutoThrottle.reason, h.config]
    have hdue : ∀ existing, a.releaseDue existing stats now = a'.releaseDue existing stats now := fun existing => by
      simp only [AutoThrottle.releaseDue, AutoThrottle.calm, h.config, hthreshold]
    unfold AutoThrottle.evaluateOne
    rw [h.state, hshould, hreason]
    split
    · rw [hdue]
      split
      · exact h.releaseThrottle
      · exact h
    · split
      · exact h.applyThrottle
      · exact h
  -- A round about another tenant leaves this one as it is, on both sides.
  · have hother : ∀ a : AutoThrottle R, SameThrottle tenant (a.evaluateOne stats now instant) a := fun a => by
      unfold AutoThrottle.evaluateOne
      split
      · split
        · exact releaseThrottle_of_ne ht
        · exact refl
      · split
        · exact applyThrottle_of_ne ht
        · exact refl
    exact ((hother a).trans h).trans (hother a').symm

theorem evaluate (h : SameThrottle tenant a a') (allStats : List (TenantStats R)) :
    SameThrottle tenant (a.evaluate allStats now instant) (a'.evaluate allStats now instant) := by
  unfold AutoThrottle.evaluate
  induction allStats generalizing a a' with
  | nil => exact h
  | cons stats allStats ih => exact ih h.evaluateOne

/-- Where the two have the same of a tenant, the same calls leave it with the same policy. -/
theorem calls (h : SameThrottle tenant a a') (calls : List (ThrottleCall R)) :
    SameThrottle tenant (calls.foldl AutoThrottle.call a) (calls.foldl AutoThrottle.call a') := by
  induction calls generalizing a a' with
  | nil => exact h
  | cons call calls ih =>
    cases call with
    | evaluate allStats now instant => exact ih (h.evaluate allStats)
    | forceRelease t instant => exact ih h.forceRelease

end SameThrottle

/-- Servers that show the same of a tenant go on to treat it in the same way. -/
theorem sameTenant_of_view {s s' : Server R} (h : s.view tenant = s'.view tenant) : SameTenant tenant s s' := by
  have hthrottle : SameThrottle tenant s.throttle s'.throttle :=
    ⟨rfl, congrArg TenantView.policy h, congrArg TenantView.throttle h, congrArg TenantView.baseline h⟩
  exact ⟨h, fun calls => (hthrottle.calls calls).policy⟩

end Throttles

/-! ## A tenant that has just been provisioned -/

section Provisioned
variable {s s' t : Server R} {tenant tier : String} {policy : NamespacePolicy} {clock clock' : Clock}

/-- The tenant was provisioned with this policy in `s`, which gave `s'`. -/
structure Provisioned (s s' : Server R) (tenant : String) (policy : NamespacePolicy) (clock : Clock) : Prop where
  registered : s'.registered tenant = .new s.registry.db tenant policy clock
  throttles : s'.throttles = s.throttles
  queues : ∀ name ∈ cfNames tenant, s'.registry.db.cfs.lookup name = some .empty
  records : ∀ key, s'.registry.db.record? key = if key = metaKey tenant then some (.policy policy) else s.registry.db.record? key

theorem provisioned_of_provisionTenant (hi : s.IntactAt tenant) (h : s.provisionTenant tenant tier clock = (s', true)) :
    Provisioned s s' tenant (tierPolicy tier tenant) clock := by
  obtain ⟨db', ok, hrun, hcall⟩ := provisionTenant_cases s.registry tenant (tierPolicy tier tenant)
  simp only [Server.provisionTenant, hcall] at h
  cases ok with
  | false => cases h
  | true =>
    obtain ⟨hfamilies, hrecords⟩ := provisioned hi.system hrun
    cases h
    have hbaseline : db'.loadBaseline tenant = s.registry.db.loadBaseline tenant := by
      have hkey : baselineKey tenant ≠ metaKey tenant := key_ne .baseline .tenantMeta (by decide)
      simp only [Database.loadBaseline, hrecords, if_neg hkey]
    refine ⟨?_, rfl, hfamilies, hrecords⟩
    refine (registered_registerTenant tenant).trans ((if_pos rfl).trans ?_)
    simp only [Registered.new, Database.freshBaseline, hbaseline]

theorem view_of_provisioned (h : Provisioned s s' tenant policy clock) : s'.view tenant =
    { policy := some (policy.toTenantPolicy tenant)
      throttle := s.throttles.lookup tenant
      baseline := some (s.registry.db.freshBaseline tenant clock.millis)
      stats := some (.new tenant clock.instant)
      queues := some ⟨.empty, .empty, .empty⟩ } := by
  have hstate : s'.scheduler.policy tenant = some (policy.toTenantPolicy tenant) :=
    congrArg (fun x => x.state.map TenantState.policy) h.registered
  have hstats : s'.collector.snapshot tenant = some (.new tenant clock.instant) :=
    congrArg (fun x => x.stats.map TenantStatsState.stats) h.registered
  have hbaseline : s'.baselines.snapshot tenant = some (s.registry.db.freshBaseline tenant clock.millis) :=
    congrArg Registered.baseline h.registered
  have hqueues : s'.registry.db.tenantDb? tenant = some ⟨.empty, .empty, .empty⟩ := tenantDb?_eq_some.mpr
    ⟨h.queues _ (by simp [cfNames]), h.queues _ (by simp [cfNames]), h.queues _ (by simp [cfNames])⟩
  have hthrottle : s'.throttle.snapshot tenant = s.throttles.lookup tenant := by
    rw [← h.throttles]
    rfl
  simp only [Server.view, hstate, hstats, hbaseline, hqueues, hthrottle]

/-- What a restart makes of the tenant: its throttle, statistics and baseline come from the records. -/
theorem view_of_restart (hi : s'.Intact) (h : Provisioned s s' tenant policy clock)
    (hmain : Server.main s'.registry.db clock' = some t) : t.view tenant =
    { policy := some (policy.toTenantPolicy tenant)
      throttle := ((s.registry.db.loadThrottle tenant).filter fun p => p.inForce clock'.millis).map PersistedThrottle.state
      baseline := some (s.registry.db.freshBaseline tenant clock'.millis)
      stats := some (TenantStatsState.warmedBy ⟨.new tenant clock'.instant, .zero⟩ (s.registry.db.loadStats tenant)
        clock'.millis).stats
      queues := some ⟨.empty, .empty, .empty⟩ } := by
  have hs := started_of_main hi.filed hmain
  -- Provisioning wrote the policy, and left the other records of the tenant.
  have hrecord : ∀ kind : RecordKind, kind ≠ .tenantMeta →
      s'.registry.db.record? (kind.key tenant) = s.registry.db.record? (kind.key tenant) := fun kind hkind =>
    (h.records _).trans (if_neg (key_ne kind .tenantMeta hkind))
  have hload : s'.registry.db.loadThrottle tenant = s.registry.db.loadThrottle tenant := by
    have hget : s'.registry.db.record? (throttleKey tenant) = s.registry.db.record? (throttleKey tenant) :=
      hrecord .throttle (by decide)
    rw [Database.loadThrottle, hget, Database.loadThrottle]
  have hstatsRecord : s'.registry.db.loadStats tenant = s.registry.db.loadStats tenant := by
    have hget : s'.registry.db.record? (statsKey tenant) = s.registry.db.record? (statsKey tenant) :=
      hrecord .stats (by decide)
    rw [Database.loadStats, hget, Database.loadStats]
  have hfresh : s'.registry.db.freshBaseline tenant clock'.millis = s.registry.db.freshBaseline tenant clock'.millis := by
    have hget : s'.registry.db.record? (baselineKey tenant) = s.registry.db.record? (baselineKey tenant) :=
      hrecord .baseline (by decide)
    rw [Database.freshBaseline, Database.loadBaseline, hget, Database.freshBaseline, Database.loadBaseline]
  have hpolicy : s'.registry.db.loadPolicy tenant = some policy :=
    loadPolicy_eq_some.mpr ((h.records _).trans (if_pos rfl))
  -- The start finds the policy, and so it registers the tenant from those records.
  have hregistered := hs.registered tenant
  rw [hpolicy] at hregistered
  have hstate : t.scheduler.policy tenant = some (policy.toTenantPolicy tenant) :=
    congrArg (fun x => x.state.map TenantState.policy) hregistered
  have hstats : t.collector.snapshot tenant = some (TenantStatsState.warmedBy ⟨.new tenant clock'.instant, .zero⟩
      (s.registry.db.loadStats tenant) clock'.millis).stats := by
    rw [← hstatsRecord]
    exact congrArg (fun x => x.stats.map TenantStatsState.stats) hregistered
  have hbaseline : t.baselines.snapshot tenant = some (s.registry.db.freshBaseline tenant clock'.millis) := by
    rw [← hfresh]
    exact congrArg Registered.baseline hregistered
  have hqueues : t.registry.db.tenantDb? tenant = some ⟨.empty, .empty, .empty⟩ := by
    have hcfs : ∀ name ∈ cfNames tenant, t.registry.db.cfs.lookup name = some .empty := fun name hname =>
      (families_of_main hi.database hmain name).trans (h.queues name hname)
    exact tenantDb?_eq_some.mpr
      ⟨hcfs _ (by simp [cfNames]), hcfs _ (by simp [cfNames]), hcfs _ (by simp [cfNames])⟩
  have hthrottle : t.throttle.snapshot tenant =
      ((s.registry.db.loadThrottle tenant).filter fun p => p.inForce clock'.millis).map PersistedThrottle.state := by
    rw [← hload]
    exact hs.throttles tenant
  simp only [Server.view, hstate, hstats, hbaseline, hqueues, hthrottle]

end Provisioned

/-! ## What is left behind -/

section Left
variable {s s₁ s₂ s' t : Server R} {tenant tier : String} {policy : NamespacePolicy} {clock clock' : Clock}

/-- The baseline's record says what a new baseline starts from. -/
def BaselineRecord.Fresh (b : BaselineRecord R) : Prop :=
  b.shortEma = 0.0 ∧ b.longEma = 0.0 ∧ b.spikeThreshold = F64.max (0.0 * 3.0) 10.0

/-- No throttle of the tenant is left, no record of its statistics, and no baseline that differs from a new one. -/
structure NothingLeft (s : Server R) (tenant : String) : Prop where
  throttle : s.throttles.lookup tenant = none
  stats : s.registry.db.loadStats tenant = none
  baseline : ∀ b, s.registry.db.loadBaseline tenant = some b → b.Fresh

/-- What is seen of a tenant that has never been there before. -/
def TenantView.clean (tenant : String) (policy : NamespacePolicy) (clock : Clock) : TenantView R where
  policy := some (policy.toTenantPolicy tenant)
  throttle := none
  baseline := some (.new tenant 0.0 clock.millis)
  stats := some (.new tenant clock.instant)
  queues := some ⟨.empty, .empty, .empty⟩

theorem restored_eq_new_iff {b : BaselineRecord R} {now : Nat} :
    TenantBaseline.restored tenant b now = .new tenant 0.0 now ↔ b.Fresh := by
  constructor
  · intro h
    exact ⟨congrArg TenantBaseline.shortEma h, congrArg TenantBaseline.longEma h, congrArg TenantBaseline.spikeThreshold h⟩
  · rintro ⟨hshort, hlong, hthreshold⟩
    simp only [TenantBaseline.restored, hshort, hlong, hthreshold]
    rfl

theorem freshBaseline_eq_new_iff {db : Database R} {now : Nat} :
    db.freshBaseline tenant now = .new tenant 0.0 now ↔ ∀ b, db.loadBaseline tenant = some b → b.Fresh := by
  unfold Database.freshBaseline
  cases db.loadBaseline tenant with
  | none => simp
  | some b => simp [restored_eq_new_iff]

theorem Server.Untouched.nothingLeft (h : s.Untouched tenant) : NothingLeft s tenant := by
  have hstats : s.registry.db.record? (statsKey tenant) = none := h.records .stats
  have hbaseline : s.registry.db.record? (baselineKey tenant) = none := h.records .baseline
  refine ⟨h.throttle, ?_, fun b hb => ?_⟩
  · simp only [Database.loadStats, hstats]
  · simp only [Database.loadBaseline, hbaseline] at hb
    cases hb

/-- Where nothing is left, a tenant starts as one that has never been there. -/
theorem NothingLeft.view (hleft : NothingLeft s tenant) (h : Provisioned s s' tenant policy clock) :
    s'.view tenant = .clean tenant policy clock := by
  rw [view_of_provisioned h, hleft.throttle, freshBaseline_eq_new_iff.mpr hleft.baseline]
  rfl

theorem NothingLeft.view_restart (hleft : NothingLeft s tenant) (hi : s.IntactAt tenant) (hi' : s'.Intact)
    (h : Provisioned s s' tenant policy clock) (hmain : Server.main s'.registry.db clock' = some t) :
    t.view tenant = .clean tenant policy clock' := by
  have hload : s.registry.db.loadThrottle tenant = none := by
    rw [Database.loadThrottle, hi.throttle hleft.throttle]
    rfl
  rw [view_of_restart hi' h hmain, hload, hleft.stats, freshBaseline_eq_new_iff.mpr hleft.baseline]
  rfl

/-- The tenant can be provisioned on a server that has nothing of it. -/
theorem provisions_untouched (tier : String) (clock : Clock) (hi : s.IntactAt tenant) (h : s.Untouched tenant) :
    ∃ s', s.provisionTenant tenant tier clock = (s', true) := by
  have habsent : tenant ∉ s.registry.policies := AList.lookup_eq_none.mp h.policy
  have hok : (s.registry.db.carryOut (provisionSteps tenant (tierPolicy tier tenant))).2 = true :=
    (provision_succeeds hi.system).mpr fun name hname hin => habsent ((hi.families name hname).mp hin)
  obtain ⟨db', ok, hrun, hcall⟩ := provisionTenant_cases s.registry tenant (tierPolicy tier tenant)
  rw [hrun] at hok
  cases hok
  simp only [Server.provisionTenant, hcall]
  exact ⟨_, rfl⟩

theorem intact_of_provisionTenant (hi : s.Intact) (h : s.provisionTenant tenant tier clock = (s', true)) : s'.Intact := by
  have htouches : s.Touches (· = tenant) (s.provisionTenant tenant tier clock).1 := touches_provisionTenant
  rw [h] at htouches
  exact htouches.intact hi

/-- A history that ends with the tenant being dropped in `s`, and provisioned again in `s₁`, with requests for
    other tenants only in between. -/
structure Reprovisioned (s s₁ s₂ : Server R) (tenant tier : String) (clock : Clock) : Prop where
  reached : s.Reached
  dropped : (s.dropTenant tenant).2 = true
  away : Runs.Run Server.next (Server.Away tenant) (s.dropTenant tenant).1 s₁
  provisioned : s₁.provisionTenant tenant tier clock = (s₂, true)

theorem Reprovisioned.intact (h : Reprovisioned s s₁ s₂ tenant tier clock) : s₁.Intact :=
  h.away.invariant (fun hi _ hn => Server.Intact.next hi hn) (touches_dropTenant.intact (intact_of_reached h.reached))

/-- The tenant is provisioned on a server that has never heard of it. -/
theorem clean_of_reachedWithout (tier : String) (clock : Clock) (h : s.ReachedWithout tenant) :
    ∃ s', s.provisionTenant tenant tier clock = (s', true) ∧
      s'.Intact ∧ s'.view tenant = .clean tenant (tierPolicy tier tenant) clock ∧
      ∀ clock' t, Server.main s'.registry.db clock' = some t → t.view tenant = .clean tenant (tierPolicy tier tenant) clock' := by
  have hi := intact_of_reached h.reached
  have hu := untouched_of_reachedWithout h
  obtain ⟨s', hs'⟩ := provisions_untouched tier clock (hi.tenants tenant) hu
  have hp := provisioned_of_provisionTenant (hi.tenants tenant) hs'
  have hi' := intact_of_provisionTenant hi hs'
  exact ⟨s', hs', hi', hu.nothingLeft.view hp, fun _ _ => hu.nothingLeft.view_restart (hi.tenants tenant) hi' hp⟩

/-- The tenant gets a clean slate if nothing of it is left when it is provisioned again, and only then. -/
theorem cleanSlate_iff (h : Reprovisioned s s₁ s₂ tenant tier clock) :
    (∀ s₀ : Server R, s₀.ReachedWithout tenant → CleanSlate tenant s₂ (s₀.provisionTenant tenant tier clock).1) ↔
      NothingLeft s₁ tenant := by
  have hi₁ := h.intact
  have hi₂ := intact_of_provisionTenant hi₁ h.provisioned
  have hp := provisioned_of_provisionTenant (hi₁.tenants tenant) h.provisioned
  constructor
  · intro hclean
    obtain ⟨s₀, hs₀⟩ := main_of_intact (intact_fresh (R := R)) clock
    have hwithout : s₀.ReachedWithout tenant := ⟨s₀, clock, hs₀, .refl⟩
    obtain ⟨s₀', hs₀', -, hview₀, hrestart₀⟩ := clean_of_reachedWithout tier clock hwithout
    obtain ⟨hnow, hrestarted⟩ := hclean s₀ hwithout
    rw [hs₀'] at hnow hrestarted
    have hview := hnow.view
    rw [view_of_provisioned hp, hview₀] at hview
    obtain ⟨t, t₀, ht, ht₀, hsame⟩ := hrestarted clock
    have hview' := hsame.view
    rw [view_of_restart hi₂ hp ht, hrestart₀ clock t₀ ht₀] at hview'
    refine ⟨congrArg TenantView.throttle hview, ?_, ?_⟩
    · cases hstats : s₁.registry.db.loadStats tenant with
      | none => rfl
      | some p =>
        -- The collector takes a tenant for known once its statistics are loaded.
        rw [hstats] at hview'
        have hnew := congrArg (fun v => v.stats.map TenantStats.isNew) hview'
        exact absurd (Option.some.inj hnew) Bool.false_ne_true
    · exact freshBaseline_eq_new_iff.mp (Option.some.inj (congrArg TenantView.baseline hview))
  · intro hleft s₀ hwithout
    obtain ⟨s₀', hs₀', hi₀', hview₀, hrestart₀⟩ := clean_of_reachedWithout tier clock hwithout
    rw [hs₀']
    refine ⟨sameTenant_of_view ?_, fun clock' => ?_⟩
    · rw [hleft.view hp, hview₀]
    · obtain ⟨t, ht⟩ := main_of_intact hi₂.database clock'
      obtain ⟨t₀, ht₀⟩ := main_of_intact hi₀'.database clock'
      refine ⟨t, t₀, ht, ht₀, sameTenant_of_view ?_⟩
      rw [hleft.view_restart (hi₁.tenants tenant) hi₂ hp ht, hrestart₀ clock' t₀ ht₀]

/-- Dropping the tenant itself neither leaves anything nor takes it away. -/
theorem nothingLeft_dropTenant (hdrop : (s.dropTenant tenant).2 = true) :
    NothingLeft (s.dropTenant tenant).1 tenant ↔ NothingLeft s tenant := by
  obtain ⟨db', ok, hrun, hcall⟩ := dropTenant_cases s.registry tenant
  simp only [Server.dropTenant, hcall] at hdrop ⊢
  cases ok with
  | false => cases hdrop
  | true =>
    obtain ⟨-, hrecords⟩ := dropped hrun
    have hstats : statsKey tenant ≠ metaKey tenant := key_ne .stats .tenantMeta (by decide)
    have hbaseline : baselineKey tenant ≠ metaKey tenant := key_ne .baseline .tenantMeta (by decide)
    have hload : db'.loadStats tenant = s.registry.db.loadStats tenant := by
      simp only [Database.loadStats, hrecords, if_neg hstats]
    have hload' : db'.loadBaseline tenant = s.registry.db.loadBaseline tenant := by
      simp only [Database.loadBaseline, hrecords, if_neg hbaseline]
    constructor
    · rintro ⟨hthrottle, hnone, hfresh⟩
      exact ⟨hthrottle, hload.symm.trans hnone, fun b hb => hfresh b (hload'.trans hb)⟩
    · rintro ⟨hthrottle, hnone, hfresh⟩
      exact ⟨hthrottle, hload.trans hnone, fun b hb => hfresh b (hload'.symm.trans hb)⟩

end Left

/-! ## In exact arithmetic -/

section Exact

/-- The tenant `t` is provisioned, and then these events happen before it is dropped and provisioned again. -/
theorem reprovisioned_of_exec (events : List Server.Event) {α : Type} (look : Server Rat → α) {x : α}
    (h : ((Server.main (.fresh : Database Rat) ⟨0, 0⟩).bind fun s₀ => (Runs.exec Server.next s₀ events).map fun s =>
      ((s.dropTenant "t").2, ((s.dropTenant "t").1.provisionTenant "t" "standard" ⟨2000, 0⟩).2,
        look (s.dropTenant "t").1)) = some (true, true, x)) :
    ∃ s s₁ s₂, Reprovisioned s s₁ s₂ "t" "standard" ⟨2000, 0⟩ ∧ look s₁ = x := by
  obtain ⟨s₀, hs₀, hmap⟩ := Option.bind_eq_some_iff.mp h
  obtain ⟨s, hs, heq⟩ := Option.map_eq_some_iff.mp hmap
  simp only [Prod.mk.injEq] at heq
  obtain ⟨hdrop, hprovision, hlook⟩ := heq
  exact ⟨s, _, _, ⟨⟨s₀, _, hs₀, Runs.run_of_exec hs⟩, hdrop, .refl, Prod.ext rfl hprovision⟩, hlook⟩

/-- A task that waits makes for a backlog that is reason enough to throttle the tenant. -/
def throttledEvents : List Server.Event :=
  [.request (.provisionTenant "t" "standard") ⟨0, 0⟩ { now := 0 },
    .request (.enqueueTask "t" "default" []) ⟨0, 0⟩ { now := 0, ids := ["a"] },
    .daemonCycle ⟨1000, 0⟩]

/-- The tenant comes back throttled. -/
theorem not_cleanSlate : ¬∀ (s s₁ s₂ : Server Rat) (tenant tier : String) (clock : Clock),
    Reprovisioned s s₁ s₂ tenant tier clock → ∀ s₀ : Server Rat, s₀.ReachedWithout tenant →
      CleanSlate tenant s₂ (s₀.provisionTenant tenant tier clock).1 := by
  intro h
  obtain ⟨s, s₁, s₂, hs, hthrottled⟩ := reprovisioned_of_exec throttledEvents
    (fun s => (s.throttles.lookup "t").isSome) (x := true) (by decide +kernel)
  obtain ⟨s₀, hs₀⟩ := main_of_intact (intact_fresh (R := Rat)) ⟨0, 0⟩
  have hwithout : s₀.ReachedWithout "t" := ⟨s₀, _, hs₀, .refl⟩
  obtain ⟨s₀', hs₀', -, hview₀, -⟩ := clean_of_reachedWithout "standard" ⟨2000, 0⟩ hwithout
  have hview := (h s s₁ s₂ "t" "standard" _ hs s₀ hwithout).now.view
  have hp := provisioned_of_provisionTenant (hs.intact.tenants "t") hs.provisioned
  rw [hs₀', view_of_provisioned hp, hview₀] at hview
  have hnone : s₁.throttles.lookup "t" = none := congrArg TenantView.throttle hview
  rw [hnone] at hthrottled
  cases hthrottled

/-- A tenant that was never throttled, and whose statistics were never flushed, starts afresh. -/
theorem cleanSlate_unused : ∃ s s₁ s₂ : Server Rat, Reprovisioned s s₁ s₂ "t" "standard" ⟨2000, 0⟩ ∧
    ∀ s₀ : Server Rat, s₀.ReachedWithout "t" → CleanSlate "t" s₂ (s₀.provisionTenant "t" "standard" ⟨2000, 0⟩).1 := by
  obtain ⟨s, s₁, s₂, hs, hlook⟩ := reprovisioned_of_exec
    [.request (.provisionTenant "t" "standard") ⟨0, 0⟩ { now := 0 }]
    (fun s => ((s.throttles.lookup "t").isSome, (s.registry.db.loadStats "t").isSome,
      (s.registry.db.loadBaseline "t").isSome)) (x := (false, false, false)) (by decide +kernel)
  simp only [Prod.mk.injEq, Option.isSome_eq_false_iff, Option.isNone_iff_eq_none] at hlook
  obtain ⟨hthrottle, hstats, hbaseline⟩ := hlook
  have hleft : NothingLeft s₁ "t" := ⟨hthrottle, hstats, fun b hb => by rw [hbaseline] at hb; cases hb⟩
  exact ⟨s, s₁, s₂, hs, (cleanSlate_iff hs).mpr hleft⟩

end Exact

end RocksQueue
