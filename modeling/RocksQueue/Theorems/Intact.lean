import RocksQueue.Theorems.Footprints

/-! # Reached states

In every state that the server reaches, what is on disk agrees with what is in memory: the database would open
again, and a tenant that no request has named has left nothing. -/

namespace RocksQueue

variable {R : Type} {db : Database R} {tenant : String} {clock : Clock}

/-- The database is one that a server has left. -/
structure Database.Intact (db : Database R) : Prop where
  filed : Filed db
  named : ∀ name ∈ db.cfs, ∃ tenant, name ∈ cfNames tenant
  families : ∀ tenant, ∀ name ∈ cfNames tenant, name ∈ db.cfs ↔ (db.loadPolicy tenant).isSome = true
  throttled : ∀ tenant p, db.record? (throttleKey tenant) = some (.throttle p) → p.throttled = true

/-- What is persisted agrees with what the server has in memory, for every tenant. -/
structure Server.Intact (s : Server R) : Prop where
  filed : Filed s.registry.db
  named : ∀ name ∈ s.registry.db.cfs, ∃ tenant, name ∈ cfNames tenant
  tenants : ∀ tenant, s.IntactAt tenant

/-- The server has nothing of the tenant. -/
structure Server.Untouched (s : Server R) (tenant : String) : Prop where
  policy : s.registry.policies.lookup tenant = none
  registered : s.registered tenant = ⟨none, none, none⟩
  throttle : s.throttles.lookup tenant = none
  records : ∀ kind : RecordKind, s.registry.db.record? (kind.key tenant) = none

section Steps
variable {P : String → Prop} {s s' : Server R}

theorem Server.Intact.database (h : s.Intact) : s.registry.db.Intact where
  filed := h.filed
  named := h.named
  families t name hname := by
    rw [← (h.tenants t).policy, AList.lookup_isSome]
    exact (h.tenants t).families name hname
  throttled t := (h.tenants t).throttled

theorem Server.Touches.intact (ht : s.Touches P s') (h : s.Intact) : s'.Intact where
  filed := ht.db.filed h.filed
  named name hname := by
    rcases ht.db.named name hname with hname | hname
    · exact h.named name hname
    · exact hname
  tenants t := ht.intactAt (h.tenants t)

theorem Server.Touches.untouched (ht : s.Touches P s') (hp : ¬P tenant) (h : s.Untouched tenant) : s'.Untouched tenant where
  policy := (ht.policies tenant hp).trans h.policy
  registered := (ht.registered tenant hp).trans h.registered
  throttle := (ht.throttles tenant hp).trans h.throttle
  records kind := (ht.db.records tenant hp kind).trans (h.records kind)

theorem Server.Untouched.not_tracks (h : s.Untouched tenant) : ¬s.Tracks tenant := by
  simp [Server.Tracks, h.registered]

end Steps

/-! ## Start-up -/

section Main
variable [F64 R] {s : Server R}

omit [F64 R] in
theorem hasMeta_iff : HasMeta db tenant ↔ (db.record? (metaKey tenant)).isSome = true := by
  unfold HasMeta Database.record?
  cases db.system <;> simp

theorem main_of_intact (h : db.Intact) (clock : Clock) : ∃ s, Server.main db clock = some s := by
  have horphans : NoOrphans db := fun name hname => by
    obtain ⟨t, ht⟩ := h.named name hname
    obtain ⟨p, hp⟩ := Option.isSome_iff_exists.mp ((h.families t name ht).mp hname)
    exact ⟨t, hasMeta_iff.mpr (Option.isSome_of_eq_some (loadPolicy_eq_some.mp hp)), ht⟩
  have hopens : ∃ r, TenantRegistry.open db clock.millis = some r := (open_iff (metaOk_of_filed h.filed)).mpr horphans
  obtain ⟨r, hopen⟩ := hopens
  unfold Server.main
  rw [hopen]
  exact ⟨_, rfl⟩

/-- The families are those on disk: none is missing. -/
theorem families_of_main (h : db.Intact) (hmain : Server.main db clock = some s) (name : String) :
    s.registry.db.cfs.lookup name = db.cfs.lookup name := by
  obtain ⟨r, hopen, -, hcfs, -⟩ := (started_of_main h.filed hmain).opened
  have ho := opened_of_open (metaOk_of_filed h.filed) hopen
  rw [hcfs, ho.families]
  split
  · rename_i hlisted
    obtain ⟨t, ht, hname⟩ := hlisted
    rw [← AList.lookup_isSome, ho.policies] at ht
    obtain ⟨cf, hcf⟩ := Option.isSome_iff_exists.mp (AList.lookup_isSome.mpr ((h.families t name hname).mpr ht))
    rw [hcf]
    rfl
  · exact Option.or_none

theorem intact_of_main (h : db.Intact) (hmain : Server.main db clock = some s) : s.Intact := by
  have hs := started_of_main h.filed hmain
  have hmem : ∀ name, name ∈ s.registry.db.cfs ↔ name ∈ db.cfs := fun name => by
    rw [← AList.lookup_isSome, families_of_main h hmain, AList.lookup_isSome]
  have hthrottle : ∀ t v, s.registry.db.record? (throttleKey t) = some v → db.record? (throttleKey t) = some v :=
    fun t v hv => by
      rw [hs.throttleRecord] at hv
      split at hv
      · cases hv
      · exact hv
  refine ⟨fun {key v} hget => ?_, fun name hname => h.named name ((hmem name).mp hname), fun t => ⟨hs.system, ?_, ?_, ?_, ?_⟩⟩
  · by_cases hkey : ∃ t, key = throttleKey t
    · obtain ⟨t, rfl⟩ := hkey
      exact h.filed (hthrottle t v hget)
    · exact h.filed ((hs.records key (not_exists.mp hkey)).symm.trans hget)
  · have hmeta : s.registry.db.record? (metaKey t) = db.record? (metaKey t) :=
      hs.records _ fun _ => key_ne .tenantMeta .throttle (by decide)
    rw [hs.policies, Database.loadPolicy, Database.loadPolicy, hmeta]
  · intro name hname
    rw [hmem, h.families t name hname, ← AList.lookup_isSome, hs.policies]
  · exact fun p hp => h.throttled t p (hthrottle t _ hp)
  · intro hnone
    cases hget : s.registry.db.record? (throttleKey t) with
    | none => rfl
    | some v =>
      -- A record that is still there is in force, so its throttle was restored.
      have hget' := hthrottle t v hget
      have hlabel := Filed.label h.filed .throttle hget'
      cases v <;> cases hlabel
      rename_i p
      have hload : db.loadThrottle p.tenantId = some p := by simp [Database.loadThrottle, hget', asThrottle]
      have hthrottled := h.throttled _ p hget'
      rw [hs.throttleRecord, hload] at hget
      rw [hs.throttles, hload] at hnone
      by_cases hnow : clock.millis < p.cooldownUntilMs
      · have hrestored : (some p).filter (fun p => p.inForce clock.millis) = some p := by
          simp [PersistedThrottle.inForce, hthrottled, hnow]
        rw [hrestored] at hnone
        cases hnone
      · simp [PersistedThrottle.lapsed, hthrottled, hnow] at hget

theorem untouched_of_main (h : db.Intact) (hmain : Server.main db clock = some s)
    (hrecords : ∀ kind : RecordKind, db.record? (kind.key tenant) = none) : s.Untouched tenant := by
  have hs := started_of_main h.filed hmain
  have hpolicy : db.loadPolicy tenant = none := by
    have hmeta : db.record? (metaKey tenant) = none := hrecords .tenantMeta
    simp only [Database.loadPolicy, hmeta]
  have hload : db.loadThrottle tenant = none := by
    have hthrottle : db.record? (throttleKey tenant) = none := hrecords .throttle
    simp only [Database.loadThrottle, hthrottle, Option.bind_none]
  refine ⟨(hs.policies tenant).trans hpolicy, ?_, ?_, fun kind => ?_⟩
  · rw [hs.registered, hpolicy]
  · rw [hs.throttles, hload]
    rfl
  · by_cases hkind : kind = .throttle
    · subst hkind
      refine (hs.throttleRecord tenant).trans ?_
      rw [hload]
      exact hrecords .throttle
    · exact (hs.records _ fun _ => key_ne kind .throttle hkind).trans (hrecords kind)

end Main

/-! ## Runs -/

section Runs
variable [F64 R] {s s' : Server R} {e : Server.Event}

/-- The event is not a request for this tenant. -/
def Server.Away (tenant : String) (_ : Server R) : Server.Event → Prop
  | .request r _ _ => r.tenantId ≠ tenant
  | .compaction _ _ => True
  | .daemonCycle _ => True
  | .reaperTick _ => True
  | .restart _ => True

theorem Server.Intact.next (h : s.Intact) (hn : s.next e = some s') : s'.Intact := by
  cases e with
  | request r clock io => exact (touches_handle hn).intact h
  | compaction t c =>
    cases hn
    exact touches_compact.intact h
  | daemonCycle clock =>
    cases hn
    exact touches_daemonCycle.intact h
  | reaperTick now =>
    cases hn
    exact touches_reaperTick.intact h
  | restart clock => exact intact_of_main h.database hn

theorem Server.Untouched.next (hi : s.Intact) (h : s.Untouched tenant) (haway : s.Away tenant e)
    (hn : s.next e = some s') : s'.Untouched tenant := by
  cases e with
  | request r clock io => exact (touches_handle hn).untouched (Ne.symm haway) h
  | compaction t c =>
    cases hn
    exact ⟨h.policy, h.registered, h.throttle, h.records⟩
  | daemonCycle clock =>
    cases hn
    exact touches_daemonCycle.untouched h.not_tracks h
  | reaperTick now =>
    cases hn
    refine touches_reaperTick.untouched (fun hmem => ?_) h
    rw [← AList.lookup_isSome, h.policy] at hmem
    cases hmem
  | restart clock => exact untouched_of_main hi.database hn h.records

omit [F64 R] in
theorem intact_fresh : (.fresh : Database R).Intact where
  filed h := by cases h
  named name h := absurd h (AList.notMem_empty name)
  families t name _ := iff_of_false (AList.notMem_empty name) Bool.false_ne_true
  throttled t p h := by cases h

theorem intact_of_reached (h : s.Reached) : s.Intact := by
  obtain ⟨s₀, clock, hmain, hrun⟩ := h
  exact hrun.invariant (fun hi _ hn => Server.Intact.next hi hn) (intact_of_main intact_fresh hmain)

/-- The server comes to this state without a request for the tenant. -/
def Server.ReachedWithout (tenant : String) (s : Server R) : Prop :=
  ∃ s₀ clock, Server.main (.fresh : Database R) clock = some s₀ ∧ Runs.Run Server.next (Server.Away tenant) s₀ s

theorem Server.ReachedWithout.reached (h : s.ReachedWithout tenant) : s.Reached := by
  obtain ⟨s₀, clock, hmain, hrun⟩ := h
  exact ⟨s₀, clock, hmain, hrun.mono fun _ _ _ => trivial⟩

theorem untouched_of_reachedWithout (h : s.ReachedWithout tenant) : s.Untouched tenant := by
  obtain ⟨s₀, clock, hmain, hrun⟩ := h
  have hstart : s₀.Intact ∧ s₀.Untouched tenant :=
    ⟨intact_of_main intact_fresh hmain, untouched_of_main intact_fresh hmain fun _ => rfl⟩
  exact (hrun.invariant (I := fun s => s.Intact ∧ s.Untouched tenant)
    (fun ⟨hi, hu⟩ haway hn => ⟨hi.next hn, hu.next hi haway hn⟩) hstart).2

end Runs

end RocksQueue
