import RocksQueue.Theorems.TenantData

/-! # Footprints

Everything that the server keeps is kept per tenant: its families and records in the database, its policies, its
statistics, its baseline and its throttle. Each event touches the tenants it is about, leaves the others as they
are, and keeps what is stored of a tenant consistent with what is in memory. -/

namespace RocksQueue

variable {R : Type}

/-! ## In the database -/

/-- Between the two, only the families and the records of these tenants differ. -/
structure Database.Touches (P : String → Prop) (db db' : Database R) : Prop where
  system : db.system.isSome = true → db'.system.isSome = true
  filed : Filed db → Filed db'
  named : ∀ name ∈ db'.cfs, name ∈ db.cfs ∨ ∃ tenant, name ∈ cfNames tenant
  records : ∀ tenant, ¬P tenant → ∀ kind : RecordKind, db'.record? (kind.key tenant) = db.record? (kind.key tenant)
  families : ∀ tenant, ¬P tenant → ∀ name ∈ cfNames tenant, db'.cfs.lookup name = db.cfs.lookup name

def StoreWrite.kind : StoreWrite R → RecordKind
  | .flushStats _ => .stats
  | .persistThrottle _ => .throttle
  | .clearThrottle _ => .throttle
  | .flushBaseline _ => .baseline
  | .clearBaseline _ => .baseline

theorem StoreWrite.key_eq (w : StoreWrite R) : w.key = w.kind.key w.tenantId := by
  cases w <;> rfl

theorem StoreWrite.kind_ne_tenantMeta (w : StoreWrite R) : w.kind ≠ .tenantMeta := by
  cases w <;> exact RecordKind.noConfusion

/-- The step is about one of the tenant's families, or one of its records. -/
def DbStep.About (tenant : String) : DbStep R → Prop
  | .createCf name => name ∈ cfNames tenant
  | .dropCf name => name ∈ cfNames tenant
  | .putSystem key v => ∃ kind : RecordKind, key = kind.key tenant ∧ v.label = some (kind, tenant)
  | .deleteSystem key => ∃ kind : RecordKind, key = kind.key tenant

theorem DbStep.About.names {step : DbStep R} {tenant : String} (h : step.About tenant) : step.Names tenant := by
  cases step with
  | createCf name => exact h
  | dropCf name => exact h
  | putSystem key v =>
    obtain ⟨kind, hkey, -⟩ := h
    exact ⟨kind, hkey⟩
  | deleteSystem key => exact h

namespace Database.Touches
variable {P Q : String → Prop} {db db' db'' : Database R} {tenant : String} {key : Bytes} {v : SystemRecord R}

theorem refl : Touches P db db := ⟨id, id, fun _ => Or.inl, fun _ _ _ => rfl, fun _ _ _ _ => rfl⟩

theorem trans (h : Touches P db db') (h' : Touches P db' db'') : Touches P db db'' where
  system hs := h'.system (h.system hs)
  filed hf := h'.filed (h.filed hf)
  named name hname := by
    rcases h'.named name hname with hname | hname
    · exact h.named name hname
    · exact Or.inr hname
  records t ht kind := (h'.records t ht kind).trans (h.records t ht kind)
  families t ht name hname := (h'.families t ht name hname).trans (h.families t ht name hname)

theorem mono (h : Touches P db db') (hle : ∀ t, P t → Q t) : Touches Q db db' where
  system := h.system
  filed := h.filed
  named := h.named
  records t ht := h.records t fun hp => ht (hle t hp)
  families t ht := h.families t fun hp => ht (hle t hp)

/-- A record is written under its own key. -/
theorem putSystem (kind : RecordKind) (hv : v.label = some (kind, tenant)) :
    Touches (· = tenant) db (db.putSystem (kind.key tenant) v) where
  system hs := by simpa using hs
  filed hf key w hw := by
    cases hsystem : db.system with
    | none =>
      have hnone : (db.putSystem (kind.key tenant) v).record? key = none := by
        simp [Database.record?, Database.putSystem, hsystem]
      rw [hnone] at hw
      cases hw
    | some cf =>
      rw [record?_putSystem (by simp [hsystem])] at hw
      split at hw
      · rename_i hkey
        cases hw
        rw [SystemRecord.place, hv, hkey]
        rfl
      · exact hf hw
  named _ := Or.inl
  records t ht := (Unchanged.putSystem (Ne.symm ht) kind).records
  families t ht := (Unchanged.putSystem (v := v) (Ne.symm ht) kind).families

theorem deleteSystem (kind : RecordKind) : Touches (· = tenant) db (db.deleteSystem (kind.key tenant)) where
  system hs := by simpa using hs
  filed hf key w hw := by
    rw [record?_deleteSystem] at hw
    split at hw
    · cases hw
    · exact hf hw
  named _ := Or.inl
  records t ht := (Unchanged.deleteSystem (Ne.symm ht) kind).records
  families t ht := (Unchanged.deleteSystem (Ne.symm ht) kind).families

theorem setTenantDb {t : TenantDb} : Touches (· = tenant) db (db.setTenantDb tenant t) where
  system := id
  filed := id
  named name hname := by
    simp only [Database.setTenantDb, AList.mem_insert] at hname
    rcases hname with rfl | rfl | rfl | hname
    · exact Or.inr ⟨tenant, by simp [cfNames]⟩
    · exact Or.inr ⟨tenant, by simp [cfNames]⟩
    · exact Or.inr ⟨tenant, by simp [cfNames]⟩
    · exact Or.inl hname
  records t' ht := (Unchanged.setTenantDb (t := t) (Ne.symm ht)).records
  families t' ht := (Unchanged.setTenantDb (Ne.symm ht)).families

theorem compact {c : Compaction} : Touches (· = tenant) db (db.compact tenant c) where
  system := id
  filed := id
  named _ hname := Or.inl (mem_putSomeTenantDb.mp hname)
  records _ ht := (Unchanged.compact (c := c) (Ne.symm ht)).records
  families _ ht := (Unchanged.compact (Ne.symm ht)).families

theorem store {w : StoreWrite R} : Touches (· = w.tenantId) db (db.store w) := by
  cases w with
  | flushStats s => exact putSystem .stats rfl
  | persistThrottle t => exact putSystem .throttle rfl
  | clearThrottle t => exact deleteSystem .throttle
  | flushBaseline b => exact putSystem .baseline rfl
  | clearBaseline t => exact deleteSystem .baseline

theorem apply {step : DbStep R} (hstep : step.About tenant) (happly : db.apply step = some db') :
    Touches (· = tenant) db db' := by
  have hothers : ∀ t, ¬t = tenant → db.Unchanged t db' := fun t ht => .apply (Ne.symm ht) hstep.names happly
  cases step with
  | createCf name =>
    simp only [Database.apply] at happly
    split at happly
    · cases happly
    · cases happly
      refine ⟨id, id, fun n hn => ?_, fun t ht => (hothers t ht).records, fun t ht => (hothers t ht).families⟩
      rcases (AList.mem_insert _).mp hn with rfl | hn
      · exact Or.inr ⟨tenant, hstep⟩
      · exact Or.inl hn
  | dropCf name =>
    simp only [Database.apply] at happly
    split at happly
    · cases happly
      exact ⟨id, id, fun n hn => Or.inl (AList.mem_erase.mp hn).2, fun t ht => (hothers t ht).records,
        fun t ht => (hothers t ht).families⟩
    · cases happly
  | putSystem key v =>
    obtain ⟨kind, rfl, hv⟩ := hstep
    simp only [Database.apply] at happly
    split at happly
    · cases happly
      exact putSystem kind hv
    · cases happly
  | deleteSystem key =>
    obtain ⟨kind, rfl⟩ := hstep
    simp only [Database.apply] at happly
    split at happly
    · cases happly
      exact deleteSystem kind
    · cases happly

theorem carryOut {steps : List (DbStep R)} (hsteps : ∀ step ∈ steps, step.About tenant) :
    Touches (· = tenant) db (db.carryOut steps).1 :=
  carryOut_invariant (fun step hstep _ _ h happly => h.trans (apply (hsteps step hstep) happly)) refl

theorem provision {policy : NamespacePolicy} (hid : policy.tenantId = tenant) :
    Touches (· = tenant) db (db.carryOut (provisionSteps tenant policy)).1 := by
  refine carryOut fun step hstep => ?_
  simp only [provisionSteps, List.mem_cons, List.not_mem_nil, or_false] at hstep
  rcases hstep with rfl | rfl | rfl | rfl
  · simp [DbStep.About, cfNames]
  · simp [DbStep.About, cfNames]
  · simp [DbStep.About, cfNames]
  · exact ⟨.tenantMeta, rfl, congrArg (fun t => some (RecordKind.tenantMeta, t)) hid⟩

theorem drop : Touches (· = tenant) db (db.carryOut (dropSteps tenant)).1 := by
  refine carryOut fun step hstep => ?_
  simp only [dropSteps, List.mem_cons, List.not_mem_nil, or_false] at hstep
  rcases hstep with rfl | rfl | rfl | rfl
  · simp [DbStep.About, cfNames]
  · simp [DbStep.About, cfNames]
  · simp [DbStep.About, cfNames]
  · exact ⟨.tenantMeta, rfl⟩

end Database.Touches

/-- Between the two, moreover, the families are the same by name, and so are the policies and the throttles. -/
structure Database.Refreshes (P : String → Prop) (db db' : Database R) : Prop extends Database.Touches P db db' where
  names : ∀ name, name ∈ db'.cfs ↔ name ∈ db.cfs
  kept : ∀ kind : RecordKind, kind = .tenantMeta ∨ kind = .throttle → ∀ tenant,
    db'.record? (kind.key tenant) = db.record? (kind.key tenant)

namespace Database.Refreshes
variable {P Q : String → Prop} {db db' db'' : Database R} {tenant : String}

theorem refl : Refreshes P db db := ⟨.refl, fun _ => Iff.rfl, fun _ _ _ => rfl⟩

theorem trans (h : Refreshes P db db') (h' : Refreshes P db' db'') : Refreshes P db db'' where
  toTouches := h.toTouches.trans h'.toTouches
  names name := (h'.names name).trans (h.names name)
  kept kind hkind t := (h'.kept kind hkind t).trans (h.kept kind hkind t)

theorem mono (h : Refreshes P db db') (hle : ∀ t, P t → Q t) : Refreshes Q db db' :=
  ⟨h.toTouches.mono hle, h.names, h.kept⟩

/-- A loop, each round of which touches some of the tenants. -/
theorem foldl {α : Type} {step : Database R → α → Database R} {l : List α}
    (hstep : ∀ db, ∀ a ∈ l, Refreshes P db (step db a)) : Refreshes P db (l.foldl step db) := by
  induction l generalizing db with
  | nil => exact refl
  | cons a l ih =>
    have hhead : Refreshes P db (step db a) := hstep db a List.mem_cons_self
    exact hhead.trans (ih fun db b hb => hstep db b (List.mem_cons_of_mem _ hb))

/-- A write of statistics or of a baseline. -/
theorem store {w : StoreWrite R} (hkind : w.kind ≠ .throttle) : Refreshes (· = w.tenantId) db (db.store w) where
  toTouches := .store
  names name := by rw [cfs_store]
  kept kind hkept t := by
    have hne : kind.key t ≠ w.key := by
      intro heq
      rw [w.key_eq] at heq
      obtain ⟨rfl, -⟩ := key_inj.mp heq
      exact hkept.elim w.kind_ne_tenantMeta hkind
    exact record?_store_of_ne hne

theorem setTenantDb {t : TenantDb} (h : (db.tenantDb? tenant).isSome = true) :
    Refreshes (· = tenant) db (db.setTenantDb tenant t) where
  toTouches := .setTenantDb
  names name := by
    obtain ⟨t', ht'⟩ := Option.isSome_iff_exists.mp h
    obtain ⟨hpending, hinflight, hdlq⟩ := tenantDb?_eq_some.mp ht'
    have hmem : ∀ {n : String} {cf : ColumnFamily}, db.cfs.lookup n = some cf → n ∈ db.cfs := fun hn =>
      AList.lookup_isSome.mp (Option.isSome_of_eq_some hn)
    simp only [Database.setTenantDb, AList.mem_insert]
    constructor
    · rintro (rfl | rfl | rfl | hname)
      · exact hmem hdlq
      · exact hmem hinflight
      · exact hmem hpending
      · exact hname
    · exact fun hname => Or.inr (Or.inr (Or.inr hname))
  kept _ _ _ := rfl

theorem compact {c : Compaction} : Refreshes (· = tenant) db (db.compact tenant c) where
  toTouches := .compact
  names _ := mem_putSomeTenantDb
  kept _ _ _ := rfl

theorem flushStats {stats : List (TenantStats R)} {now : Nat} (hstats : ∀ s ∈ stats, P s.tenantId) :
    Refreshes P db (db.flushStats stats now) :=
  foldl fun _ s hs => (store (by simp [StoreWrite.kind])).mono fun _ ht => ht ▸ hstats s hs

theorem flushBaselines {baselines : List (TenantBaseline R)} {now : Nat} (hbaselines : ∀ b ∈ baselines, P b.tenantId) :
    Refreshes P db (db.flushBaselines baselines now) :=
  foldl fun _ b hb => (store (by simp [StoreWrite.kind])).mono fun _ ht => ht ▸ hbaselines b hb

end Database.Refreshes

/-! ## In the server -/

/-- What is persisted of a tenant agrees with what the server has in memory. -/
structure Server.IntactAt (s : Server R) (tenant : String) : Prop where
  system : s.registry.db.system.isSome = true
  policy : s.registry.policies.lookup tenant = s.registry.db.loadPolicy tenant
  families : ∀ name ∈ cfNames tenant, name ∈ s.registry.db.cfs ↔ tenant ∈ s.registry.policies
  throttled : ∀ p, s.registry.db.record? (throttleKey tenant) = some (.throttle p) → p.throttled = true
  throttle : s.throttles.lookup tenant = none → s.registry.db.record? (throttleKey tenant) = none

/-- Between the two, only these tenants differ, and their data stay in agreement. -/
structure Server.Touches (P : String → Prop) (s s' : Server R) : Prop where
  db : s.registry.db.Touches P s'.registry.db
  policies : ∀ tenant, ¬P tenant → s'.registry.policies.lookup tenant = s.registry.policies.lookup tenant
  registered : ∀ tenant, ¬P tenant → s'.registered tenant = s.registered tenant
  throttles : ∀ tenant, ¬P tenant → s'.throttles.lookup tenant = s.throttles.lookup tenant
  touched : ∀ tenant, P tenant → s.IntactAt tenant → s'.IntactAt tenant

namespace Server.Touches
variable {P Q : String → Prop} {s s' s'' : Server R} {tenant : String}

theorem intactAt (h : Touches P s s') (hi : s.IntactAt tenant) : s'.IntactAt tenant := by
  by_cases hp : P tenant
  · exact h.touched tenant hp hi
  · have hmeta : s'.registry.db.record? (metaKey tenant) = s.registry.db.record? (metaKey tenant) :=
      h.db.records tenant hp .tenantMeta
    have hthrottle : s'.registry.db.record? (throttleKey tenant) = s.registry.db.record? (throttleKey tenant) :=
      h.db.records tenant hp .throttle
    have hpolicies := h.policies tenant hp
    refine ⟨h.db.system hi.system, ?_, fun name hname => ?_, ?_, ?_⟩
    · rw [hpolicies, hi.policy, Database.loadPolicy, Database.loadPolicy, hmeta]
    · rw [← AList.lookup_isSome, h.db.families tenant hp name hname, AList.lookup_isSome, hi.families name hname,
        ← AList.lookup_isSome, ← hpolicies, AList.lookup_isSome]
    · rw [hthrottle]
      exact hi.throttled
    · rw [h.throttles tenant hp, hthrottle]
      exact hi.throttle

theorem refl : Touches P s s := ⟨.refl, fun _ _ => rfl, fun _ _ => rfl, fun _ _ => rfl, fun _ _ => id⟩

theorem trans (h : Touches P s s') (h' : Touches P s' s'') : Touches P s s'' where
  db := h.db.trans h'.db
  policies t ht := (h'.policies t ht).trans (h.policies t ht)
  registered t ht := (h'.registered t ht).trans (h.registered t ht)
  throttles t ht := (h'.throttles t ht).trans (h.throttles t ht)
  touched _ _ hi := h'.intactAt (h.intactAt hi)

theorem mono (h : Touches P s s') (hle : ∀ t, P t → Q t) : Touches Q s s' where
  db := h.db.mono hle
  policies t ht := h.policies t fun hp => ht (hle t hp)
  registered t ht := h.registered t fun hp => ht (hle t hp)
  throttles t ht := h.throttles t fun hp => ht (hle t hp)
  touched _ _ hi := h.intactAt hi

/-- The policies and the throttles stay as they are. -/
theorem of_refreshes (hdb : s.registry.db.Refreshes P s'.registry.db)
    (hpolicies : s'.registry.policies = s.registry.policies) (hthrottles : s'.throttles = s.throttles)
    (hregistered : ∀ t, ¬P t → s'.registered t = s.registered t) : Touches P s s' where
  db := hdb.toTouches
  policies t _ := by rw [hpolicies]
  registered := hregistered
  throttles t _ := by rw [hthrottles]
  touched t _ hi := by
    have hmeta : s'.registry.db.record? (metaKey t) = s.registry.db.record? (metaKey t) :=
      hdb.kept .tenantMeta (Or.inl rfl) t
    have hthrottle : s'.registry.db.record? (throttleKey t) = s.registry.db.record? (throttleKey t) :=
      hdb.kept .throttle (Or.inr rfl) t
    refine ⟨hdb.system hi.system, ?_, fun name hname => ?_, ?_, ?_⟩
    · rw [hpolicies, hi.policy, Database.loadPolicy, Database.loadPolicy, hmeta]
    · rw [hdb.names, hpolicies]
      exact hi.families name hname
    · rw [hthrottle]
      exact hi.throttled
    · rw [hthrottles, hthrottle]
      exact hi.throttle

end Server.Touches

/-! ## The throttle -/

section Throttle
variable [F64 R] {s : Server R} {a : AutoThrottle R} {tenant reason : String} {rate now instant : Nat}

theorem lookup_updatePolicy_of_ne {w : WFQScheduler R} {p : TenantPolicy} {t : String} (h : t ≠ p.tenantId) :
    (w.updatePolicy p instant).tenants.lookup t = w.tenants.lookup t := by
  unfold WFQScheduler.updatePolicy
  split
  · simp only [IdMap.lookup_modify, if_neg h]
  · exact IdMap.lookup_insert.trans (if_neg h)

omit [F64 R] in
/-- Two steps of the throttle that concern one tenant and write its throttle record. -/
theorem touches_withThrottle {a' : AutoThrottle R} {w : StoreWrite R} (hstore : a'.store = a.store.store w)
    (hid : w.tenantId = tenant) (hbaselines : a'.baselines = a.baselines)
    (hscheduler : ∀ t, t ≠ tenant → a'.scheduler.tenants.lookup t = a.scheduler.tenants.lookup t)
    (hstates : ∀ t, t ≠ tenant → a'.states.lookup t = a.states.lookup t)
    (hthrottled : ∀ p, a'.store.record? (throttleKey tenant) = some (.throttle p) → p.throttled = true)
    (hthrottle : a'.states.lookup tenant = none → a'.store.record? (throttleKey tenant) = none) :
    (s.withThrottle a).Touches (· = tenant) (s.withThrottle a') := by
  have hdb : a.store.Touches (· = tenant) a'.store := by
    rw [hstore, ← hid]
    exact .store
  refine ⟨hdb, fun _ _ => rfl, fun t ht => ?_, hstates, fun t ht hi => ?_⟩
  · simp only [Server.registered, Server.withThrottle, hscheduler t ht, hbaselines]
  · subst ht
    have hmeta : a'.store.record? (metaKey t) = a.store.record? (metaKey t) := by
      have hne : metaKey t ≠ w.key := by
        rw [w.key_eq]
        exact key_ne .tenantMeta w.kind w.kind_ne_tenantMeta.symm
      rw [hstore, record?_store_of_ne hne]
    refine ⟨hdb.system hi.system, ?_, fun name hname => ?_, hthrottled, hthrottle⟩
    · refine hi.policy.trans ?_
      simp only [Server.withThrottle, Database.loadPolicy, hmeta]
    · refine Iff.trans ?_ (hi.families name hname)
      simp only [Server.withThrottle, hstore, cfs_store]

theorem touches_applyThrottle :
    (s.withThrottle a).Touches (· = tenant) (s.withThrottle (a.applyThrottle tenant reason now instant)) := by
  cases hpolicy : a.scheduler.policy tenant with
  | none =>
    rw [AutoThrottle.applyThrottle_unknown hpolicy]
    exact .refl
  | some policy =>
    have hid : policy.tenantId = tenant := WFQScheduler.tenantId_of_policy hpolicy
    -- One record is written, one entry set, and the scheduler given the reduced policy: all for the tenant.
    generalize hstate : a.config.throttleState tenant reason policy.ratePerSec now = state
    have hstore : (a.applyThrottle tenant reason now instant).store = a.store.store (.persistThrottle state.persisted) := by
      rw [← hstate]
      simp [AutoThrottle.applyThrottle, hpolicy, Database.persistThrottle]
    have hscheduler : (a.applyThrottle tenant reason now instant).scheduler =
        a.scheduler.updatePolicy (a.config.throttledPolicy policy) instant := by
      simp [AutoThrottle.applyThrottle, hpolicy]
    refine touches_withThrottle hstore ?_ AutoThrottle.baselines_applyThrottle (fun t ht => ?_) (fun t ht => ?_)
      (fun p hp => ?_) fun hnone => ?_
    · rw [← hstate]
      rfl
    · rw [hscheduler]
      exact lookup_updatePolicy_of_ne (by simpa [ThrottleConfig.throttledPolicy, hid] using ht)
    · exact AutoThrottle.states_applyThrottle_of_ne ht
    · have hthrottled : state.persisted.throttled = true := by
        rw [← hstate]
        rfl
      have hkey : throttleKey tenant = (StoreWrite.persistThrottle state.persisted : StoreWrite R).key := by
        rw [← hstate]
        rfl
      rw [hstore] at hp
      cases hsystem : a.store.system with
      | none => simp [Database.record?, Database.store, Database.putSystem, hsystem] at hp
      | some cf =>
        rw [record?_store (by simp [hsystem]), if_pos hkey] at hp
        cases hp
        exact hthrottled
    · rw [AutoThrottle.states_applyThrottle hpolicy, if_pos rfl] at hnone
      cases hnone

omit [F64 R] in
/-- Clearing a throttle record, whether or not the throttle is there. -/
theorem record?_clearThrottle (db : Database R) : (db.clearThrottle tenant).record? (throttleKey tenant) = none :=
  record?_deleteSystem.trans (if_pos rfl)

theorem touches_releaseThrottle :
    (s.withThrottle a).Touches (· = tenant) (s.withThrottle (a.releaseThrottle tenant rate instant)) := by
  have hcleared : (a.releaseThrottle tenant rate instant).store.record? (throttleKey tenant) = none :=
    record?_clearThrottle a.store
  refine touches_withThrottle (w := .clearThrottle tenant) rfl rfl rfl (fun t ht => ?_) (fun t ht => ?_) (fun p hp => ?_)
    fun _ => hcleared
  · simp only [AutoThrottle.releaseThrottle]
    split
    · rename_i policy hpolicy
      exact lookup_updatePolicy_of_ne
        (by simpa [TenantPolicy.released, WFQScheduler.tenantId_of_policy hpolicy] using ht)
    · rfl
  · rw [AutoThrottle.states_releaseThrottle, if_neg ht]
  · rw [hcleared] at hp
    cases hp

theorem touches_forceRelease :
    (s.withThrottle a).Touches (· = tenant) (s.withThrottle (a.forceRelease tenant instant)) := by
  unfold AutoThrottle.forceRelease
  split
  · exact touches_releaseThrottle
  · have hcleared : (a.store.clearThrottle tenant).record? (throttleKey tenant) = none := record?_clearThrottle a.store
    refine touches_withThrottle (w := .clearThrottle tenant) rfl rfl rfl (fun _ _ => rfl) (fun _ _ => rfl) (fun p hp => ?_)
      fun _ => hcleared
    exact absurd (hcleared.symm.trans hp) (by simp)

theorem touches_evaluateOne {stats : TenantStats R} :
    (s.withThrottle a).Touches (· = stats.tenantId) (s.withThrottle (a.evaluateOne stats now instant)) := by
  unfold AutoThrottle.evaluateOne
  split
  · split
    · exact touches_releaseThrottle
    · exact .refl
  · split
    · exact touches_applyThrottle
    · exact .refl

theorem touches_evaluate {P : String → Prop} {stats : List (TenantStats R)} (hstats : ∀ st ∈ stats, P st.tenantId) :
    (s.withThrottle a).Touches P (s.withThrottle (a.evaluate stats now instant)) := by
  unfold AutoThrottle.evaluate
  induction stats generalizing a with
  | nil => exact .refl
  | cons st stats ih =>
    obtain ⟨hst, hstats⟩ := List.forall_mem_cons.mp hstats
    have hround : (s.withThrottle a).Touches P (s.withThrottle (a.evaluateOne st now instant)) :=
      touches_evaluateOne.mono fun _ ht => ht ▸ hst
    exact hround.trans (ih hstats)

end Throttle

/-! ## The registry -/

/-- A step that leaves the tenant's throttle alone. -/
theorem Server.IntactAt.of_throttle {s s' : Server R} {tenant : String} (hi : s.IntactAt tenant)
    (hsystem : s'.registry.db.system.isSome = true)
    (hpolicy : s'.registry.policies.lookup tenant = s'.registry.db.loadPolicy tenant)
    (hfamilies : ∀ name ∈ cfNames tenant, name ∈ s'.registry.db.cfs ↔ tenant ∈ s'.registry.policies)
    (hrecord : s'.registry.db.record? (throttleKey tenant) = s.registry.db.record? (throttleKey tenant))
    (hthrottles : s'.throttles = s.throttles) : s'.IntactAt tenant := by
  refine ⟨hsystem, hpolicy, hfamilies, ?_, ?_⟩
  · rw [hrecord]
    exact hi.throttled
  · rw [hrecord, hthrottles]
    exact hi.throttle

theorem throttleKey_ne_metaKey {tenant : String} : throttleKey tenant ≠ metaKey tenant :=
  key_ne .throttle .tenantMeta (by decide)

section Registry
variable {db db' : Database R} {r r' : TenantRegistry R} {s : Server R} {tenant : String} {policy : NamespacePolicy}

/-- What a call that provisions a tenant leaves on disk. -/
theorem provisioned (hsystem : db.system.isSome = true) (h : db.carryOut (provisionSteps tenant policy) = (db', true)) :
    (∀ name ∈ cfNames tenant, db'.cfs.lookup name = some .empty) ∧
      ∀ key, db'.record? key = if key = metaKey tenant then some (.policy policy) else db.record? key := by
  obtain ⟨h₁, h₂, h₃⟩ := cfNames_distinct tenant
  have habsent := (provision_succeeds hsystem).mp (congrArg Prod.snd h)
  simp only [cfNames, List.forall_mem_cons] at habsent
  obtain ⟨hpending, hinflight, hdlq, -⟩ := habsent
  simp only [provisionSteps, Database.carryOut, Database.apply, hpending, hinflight, hdlq, AList.mem_insert, hsystem,
    h₁.symm, h₂.symm, h₃.symm, or_self, if_false, if_true, Prod.mk.injEq, and_true] at h
  subst h
  refine ⟨?_, fun key => record?_putSystem hsystem⟩
  simp [cfNames, Database.putSystem, h₁, h₂, h₃]

theorem dropped (h : db.carryOut (dropSteps tenant) = (db', true)) :
    (∀ name ∈ cfNames tenant, name ∉ db'.cfs) ∧
      ∀ key, db'.record? key = if key = metaKey tenant then none else db.record? key := by
  obtain ⟨h₁, h₂, h₃⟩ := cfNames_distinct tenant
  have hpresent : ∀ name ∈ cfNames tenant, name ∈ db.cfs := present_of_drop (congrArg Prod.snd h)
  simp only [cfNames, List.forall_mem_cons] at hpresent
  obtain ⟨hpending, hinflight, hdlq, -⟩ := hpresent
  simp only [dropSteps, Database.carryOut, Database.apply, hpending, hinflight, hdlq, AList.mem_erase, h₁.symm, h₂.symm,
    h₃.symm, ne_eq, not_false_eq_true, and_self, if_true] at h
  split at h
  · cases h
  · rename_i db₁ hdb₁
    split at hdb₁
    · cases hdb₁
      cases h
      refine ⟨?_, fun key => record?_deleteSystem⟩
      simp [cfNames, Database.deleteSystem, AList.mem_erase]
    · cases hdb₁

/-- A call that fails found the tenant provisioned, and changed nothing. -/
theorem provision_refused {p : Prop} (hsystem : db.system.isSome = true) (hall : ∀ name ∈ cfNames tenant, name ∈ db.cfs ↔ p)
    (h : (db.carryOut (provisionSteps tenant policy)).2 = false) : (db.carryOut (provisionSteps tenant policy)).1 = db := by
  have hpending : cfPending tenant ∈ cfNames tenant := by simp [cfNames]
  by_cases hp : p
  · rw [provisionSteps, carryOut_create_fails ((hall _ hpending).mpr hp)]
  · have hok : (db.carryOut (provisionSteps tenant policy)).2 = true :=
      (provision_succeeds hsystem).mpr fun name hname hin => hp ((hall name hname).mp hin)
    rw [hok] at h
    cases h

theorem drop_refused {p : Prop} (hsystem : db.system.isSome = true) (hall : ∀ name ∈ cfNames tenant, name ∈ db.cfs ↔ p)
    (h : (db.carryOut (dropSteps tenant)).2 = false) : (db.carryOut (dropSteps tenant)).1 = db := by
  have hpending : cfPending tenant ∈ cfNames tenant := by simp [cfNames]
  by_cases hp : p
  · have hok := (drop_succeeds hsystem).mpr fun name hname => (hall name hname).mpr hp
    rw [hok] at h
    cases h
  · rw [dropSteps, carryOut_drop_fails fun hin => hp ((hall _ hpending).mp hin)]

theorem provisionTenant_cases (r : TenantRegistry R) (tenant : String) (policy : NamespacePolicy) :
    ∃ db' ok, r.db.carryOut (provisionSteps tenant policy) = (db', ok) ∧
      r.provisionTenant tenant policy =
        ({ r with db := db', policies := if ok then r.policies.insert tenant policy else r.policies }, ok) := by
  unfold TenantRegistry.provisionTenant
  split
  · rename_i db' h
    exact ⟨db', false, h, rfl⟩
  · rename_i db' h
    exact ⟨db', true, h, rfl⟩

theorem dropTenant_cases (r : TenantRegistry R) (tenant : String) : ∃ db' ok, r.db.carryOut (dropSteps tenant) = (db', ok) ∧
    r.dropTenant tenant = ({ r with db := db', policies := if ok then r.policies.erase tenant else r.policies }, ok) := by
  unfold TenantRegistry.dropTenant
  split
  · rename_i db' h
    exact ⟨db', false, h, rfl⟩
  · rename_i db' h
    exact ⟨db', true, h, rfl⟩

variable [F64 R] {tier : String} {clock : Clock}

@[simp] theorem tierPolicy_tenantId : (tierPolicy tier tenant).tenantId = tenant := by
  unfold tierPolicy
  split <;> rfl

omit [F64 R] in
/-- What is registered for the tenants other than the one that is dropped. -/
theorem registered_deregister {t : String} (ht : t ≠ tenant) :
    ({ s with
      scheduler := s.scheduler.deregister tenant
      collector := s.collector.deregister tenant
      baselines := s.baselines.deregister tenant } : Server R).registered t = s.registered t := by
  have hstate : (s.scheduler.deregister tenant).tenants.lookup t = s.scheduler.tenants.lookup t :=
    IdMap.lookup_erase.trans (if_neg ht)
  have hstats : (s.collector.deregister tenant).lookup t = s.collector.lookup t := IdMap.lookup_erase.trans (if_neg ht)
  have hbaseline : (s.baselines.deregister tenant).lookup t = s.baselines.lookup t := IdMap.lookup_erase.trans (if_neg ht)
  simp only [Server.registered, hstate, hstats, hbaseline]

theorem touches_provisionTenant : s.Touches (· = tenant) (s.provisionTenant tenant tier clock).1 := by
  obtain ⟨db', ok, hrun, hcall⟩ := provisionTenant_cases s.registry tenant (tierPolicy tier tenant)
  have hdb : s.registry.db.Touches (· = tenant) db' := by
    have hprovision : s.registry.db.Touches (· = tenant)
        (s.registry.db.carryOut (provisionSteps tenant (tierPolicy tier tenant))).1 := .provision tierPolicy_tenantId
    rw [hrun] at hprovision
    exact hprovision
  cases ok with
  | false =>
    simp only [Server.provisionTenant, hcall]
    refine ⟨hdb, fun _ _ => rfl, fun _ _ => rfl, fun _ _ => rfl, fun t ht hi => ?_⟩
    subst ht
    have hsame := provision_refused hi.system hi.families (congrArg Prod.snd hrun)
    rw [hrun] at hsame
    cases hsame
    exact hi
  | true =>
    simp only [Server.provisionTenant, hcall]
    refine ⟨hdb, fun t ht => AList.lookup_insert_ne ht, fun t ht => (registered_registerTenant t).trans (if_neg ht),
      fun _ _ => rfl, fun t ht hi => ?_⟩
    subst ht
    obtain ⟨hfamilies, hrecords⟩ := provisioned hi.system hrun
    have hmeta : db'.record? (metaKey t) = some (.policy (tierPolicy tier t)) := (hrecords _).trans (if_pos rfl)
    refine hi.of_throttle (hdb.system hi.system) ?_ (fun name hname => ?_)
      ((hrecords _).trans (if_neg throttleKey_ne_metaKey)) rfl
    · exact (AList.lookup_insert _).trans (loadPolicy_eq_some.mpr hmeta).symm
    · have hmem : name ∈ db'.cfs := AList.lookup_isSome.mp (Option.isSome_of_eq_some (hfamilies name hname))
      exact iff_of_true hmem ((AList.mem_insert _).mpr (Or.inl rfl))

omit [F64 R] in
theorem touches_dropTenant : s.Touches (· = tenant) (s.dropTenant tenant).1 := by
  obtain ⟨db', ok, hrun, hcall⟩ := dropTenant_cases s.registry tenant
  have hdb : s.registry.db.Touches (· = tenant) db' := by
    have hdrop : s.registry.db.Touches (· = tenant) (s.registry.db.carryOut (dropSteps tenant)).1 := .drop
    rw [hrun] at hdrop
    exact hdrop
  cases ok with
  | false =>
    simp only [Server.dropTenant, hcall]
    refine ⟨hdb, fun _ _ => rfl, fun _ _ => rfl, fun _ _ => rfl, fun t ht hi => ?_⟩
    subst ht
    have hsame := drop_refused hi.system hi.families (congrArg Prod.snd hrun)
    rw [hrun] at hsame
    cases hsame
    exact hi
  | true =>
    simp only [Server.dropTenant, hcall]
    refine ⟨hdb, fun t ht => AList.lookup_erase_ne ht, fun t ht => registered_deregister ht, fun _ _ => rfl,
      fun t ht hi => ?_⟩
    subst ht
    obtain ⟨hfamilies, hrecords⟩ := dropped hrun
    have hmeta : db'.record? (metaKey t) = none := (hrecords _).trans (if_pos rfl)
    refine hi.of_throttle (hdb.system hi.system) ?_ (fun name hname => ?_)
      ((hrecords _).trans (if_neg throttleKey_ne_metaKey)) rfl
    · have hnone : db'.loadPolicy t = none := by simp only [Database.loadPolicy, hmeta]
      exact (AList.lookup_erase t _).trans hnone.symm
    · exact iff_of_false (hfamilies name hname) fun hmem => (AList.mem_erase.mp hmem).1 rfl

omit [F64 R] in
theorem touches_setNamespacePolicy {req : NamespacePolicyRequest} : s.Touches (· = req.tenantId) (s.setNamespacePolicy req) := by
  unfold Server.setNamespacePolicy TenantRegistry.updateNamespacePolicy
  split
  · rename_i hlisted
    split
    · exact .refl
    · rename_i db' happly
      have habout : (DbStep.putSystem (metaKey req.tenantId) (.policy req.policy) : DbStep R).About req.tenantId :=
        ⟨.tenantMeta, rfl, rfl⟩
      have hdb : s.registry.db.Touches (· = req.tenantId) db' := .apply habout happly
      refine ⟨hdb, fun t ht => AList.lookup_insert_ne ht, fun _ _ => rfl, fun _ _ => rfl, fun t ht hi => ?_⟩
      subst ht
      simp only [Database.apply, hi.system, if_true, Option.some.injEq] at happly
      subst happly
      have hmeta : (s.registry.db.putSystem (metaKey req.tenantId) (.policy req.policy)).record? (metaKey req.tenantId) =
          some (.policy req.policy) := (record?_putSystem hi.system).trans (if_pos rfl)
      refine hi.of_throttle (hdb.system hi.system) ?_ (fun name hname => ?_)
        (record?_putSystem_of_ne throttleKey_ne_metaKey) rfl
      · exact (AList.lookup_insert _).trans (loadPolicy_eq_some.mpr hmeta).symm
      · exact iff_of_true ((hi.families name hname).mpr hlisted) ((AList.mem_insert _).mpr (Or.inl rfl))
  · exact .refl

end Registry

/-! ## The requests -/

section Requests
variable {P : String → Prop} {s s' : Server R} {tenant : String} {io : Inputs} {clock : Clock}

theorem touches_collector {c : StatsCollector R} (h : ∀ t, ¬P t → c.lookup t = s.collector.lookup t) :
    s.Touches P { s with collector := c } :=
  .of_refreshes .refl rfl rfl fun t ht => by simp only [Server.registered, h t ht]

theorem touches_scheduler {w : WFQScheduler R} (h : ∀ t, ¬P t → w.tenants.lookup t = s.scheduler.tenants.lookup t) :
    s.Touches P { s with scheduler := w } :=
  .of_refreshes .refl rfl rfl fun t ht => by simp only [Server.registered, h t ht]

theorem touches_callTenant {call : Call} {reply : Option Reply} (h : s.callTenant tenant io call = some (s', reply)) :
    s.Touches (· = tenant) s' := by
  rcases Server.callTenant_cases h with ⟨-, rfl, -⟩ | ⟨db, t, returned, hdb, -, rfl, -⟩
  · exact .refl
  · exact .of_refreshes (.setTenantDb (by simp [hdb])) rfl rfl fun _ _ => rfl

/-- What is recorded of a call is recorded for its tenant. -/
def RecordsFor (tenant : String) (record : Reply → StatsCollector R → StatsCollector R) : Prop :=
  ∀ reply c t, t ≠ tenant → (record reply c).lookup t = c.lookup t

theorem touches_withoutPolicy {call : Call} {record : Reply → StatsCollector R → StatsCollector R}
    (hrecord : RecordsFor tenant record) (h : s.withoutPolicy tenant io call record = some s') :
    s.Touches (· = tenant) s' := by
  obtain ⟨⟨s₁, reply⟩, hcall, hs'⟩ := Option.map_eq_some_iff.mp h
  have htouches := touches_callTenant hcall
  cases reply with
  | none =>
    cases hs'
    exact htouches
  | some reply =>
    cases hs'
    exact htouches.trans (touches_collector fun t ht => hrecord reply s₁.collector t ht)

theorem touches_withPolicy {call : NamespacePolicy → Call} {record : Reply → StatsCollector R → StatsCollector R}
    (hrecord : RecordsFor tenant record) (h : s.withPolicy tenant io call record = some s') :
    s.Touches (· = tenant) s' := by
  unfold Server.withPolicy at h
  split at h
  · cases h
    exact .refl
  · exact touches_withoutPolicy hrecord h

theorem recordsFor_recordEnqueued (count : Nat) :
    RecordsFor tenant (Server.recordEnqueued tenant count : Reply → StatsCollector R → StatsCollector R) := by
  intro reply c t ht
  cases reply with
  | enqueued _ => exact AList.lookup_modify.trans (if_neg ht)
  | _ => rfl

theorem recordsFor_recordAcked : RecordsFor tenant (Server.recordAcked tenant : Reply → StatsCollector R → StatsCollector R) := by
  intro reply c t ht
  cases reply with
  | acked counted =>
    simp only [Server.recordAcked]
    split
    · exact AList.lookup_modify.trans (if_neg ht)
    · rfl
  | _ => rfl

theorem recordsFor_recordAckedBatch :
    RecordsFor tenant (Server.recordAckedBatch tenant : Reply → StatsCollector R → StatsCollector R) := by
  intro reply c t ht
  cases reply with
  | acked _ => exact AList.lookup_modify.trans (if_neg ht)
  | _ => rfl

theorem recordsFor_recordNacked :
    RecordsFor tenant (Server.recordNacked tenant : Reply → StatsCollector R → StatsCollector R) := by
  intro reply c t ht
  cases reply with
  | done => exact AList.lookup_modify.trans (if_neg ht)
  | _ => rfl

theorem touches_setPaused {paused : Bool} : s.Touches (· = tenant) (s.setPaused tenant paused) := by
  refine touches_scheduler fun t ht => ?_
  unfold WFQScheduler.setPaused
  split
  · exact AList.lookup_modify.trans (if_neg ht)
  · rfl

theorem touches_compact {c : Compaction} : s.Touches (· = tenant) (s.compact tenant c) :=
  .of_refreshes .compact rfl rfl fun _ _ => rfl

/-- The request finds the families or does nothing; with them it is a compaction like any other. -/
theorem Server.compactTenant_cases (s : Server R) (tenant : String) (c : Compaction) :
    (s.registry.db.tenantDb? tenant = none ∧ s.compactTenant tenant c = (s, false)) ∨
      ((s.registry.db.tenantDb? tenant).isSome = true ∧ s.compactTenant tenant c = (s.compact tenant c, true)) := by
  unfold Server.compactTenant TenantRegistry.compactTenant
  cases hdb : s.registry.db.tenantDb? tenant with
  | none => exact Or.inl ⟨rfl, rfl⟩
  | some db => exact Or.inr ⟨rfl, rfl⟩

/-- What a compaction keeps, the request keeps. -/
theorem Server.compactTenant_keeps {P : Server R → Prop} {c : Compaction} (h : P s) (hcompact : P (s.compact tenant c)) :
    P (s.compactTenant tenant c).1 := by
  rcases s.compactTenant_cases tenant c with ⟨-, heq⟩ | ⟨-, heq⟩
  · rw [heq]
    exact h
  · rw [heq]
    exact hcompact

theorem touches_compactTenant {c : Compaction} : s.Touches (· = tenant) (s.compactTenant tenant c).1 :=
  Server.compactTenant_keeps .refl touches_compact

/-- A request touches the tenant to which it is addressed. -/
theorem touches_handle [F64 R] {r : Request} (h : s.handle clock io r = some s') : s.Touches (· = r.tenantId) s' := by
  cases r with
  | provisionTenant t tier =>
    cases h
    exact touches_provisionTenant
  | dropTenant t =>
    cases h
    exact touches_dropTenant
  | updatePolicy t policy =>
    cases h
    cases policy with
    | none => exact .refl
    | some p => exact touches_scheduler fun _ ht => lookup_updatePolicy_of_ne ht
  | setNamespacePolicy r =>
    cases h
    exact touches_setNamespacePolicy
  -- The calls on the tenant write its families and its statistics.
  | enqueueTask t queue payload => exact touches_withPolicy (recordsFor_recordEnqueued 1) h
  | enqueueBatch t queue payloads =>
    simp only [Server.handle, Server.enqueueBatch] at h
    split at h
    · cases h
      exact .refl
    · exact touches_withPolicy (recordsFor_recordEnqueued _) h
  | dequeueTasks t queue limit => exact touches_withPolicy (fun _ _ _ _ => rfl) h
  | ackTask t key => exact touches_withoutPolicy recordsFor_recordAcked h
  | ackBatch t keys =>
    simp only [Server.handle, Server.ackBatch] at h
    split at h
    · cases h
      exact .refl
    · exact touches_withoutPolicy recordsFor_recordAckedBatch h
  | nackTask t key => exact touches_withoutPolicy recordsFor_recordNacked h
  | forceReleaseThrottle t =>
    cases h
    exact touches_forceRelease (a := s.throttle)
  | pauseTenant t =>
    cases h
    exact touches_setPaused
  | resumeTenant t =>
    cases h
    exact touches_setPaused
  | drainTenant t =>
    cases h
    exact touches_setPaused
  | purgeDlq t => exact touches_withoutPolicy (fun _ _ _ _ => rfl) h
  | replayDlq t => exact touches_withoutPolicy (fun _ _ _ _ => rfl) h
  | compactTenant t =>
    cases h
    exact touches_compactTenant

end Requests

/-! ## The daemon and the reaper -/

section Daemon
variable {s s' : Server R} {tenant : String} {clock : Clock} {now : Nat}

/-- The daemon goes over this tenant. -/
def Server.Tracks (s : Server R) (tenant : String) : Prop :=
  (s.registered tenant).stats.isSome = true ∨ (s.registered tenant).baseline.isSome = true

theorem tracks_of_touches (h : s.Touches s.Tracks s') (ht : s'.Tracks tenant) : s.Tracks tenant := by
  by_contra hnot
  rw [Server.Tracks, h.registered tenant hnot] at ht
  exact hnot ht

variable [F64 R]

theorem lookup_recordBacklogs_none {db : Database R} {queues : List String} {c : StatsCollector R} {t : String}
    (h : c.lookup tenant = none) : (Server.recordBacklogs db queues c t).lookup tenant = none := by
  unfold Server.recordBacklogs
  split
  · exact h
  · rename_i tdb _
    induction queues generalizing c with
    | nil => exact h
    | cons queue queues ih =>
      refine ih ?_
      refine AList.lookup_modify.trans ?_
      split
      · exact congrArg _ h
      · exact h

theorem touches_refresh :
    s.Touches s.Tracks { s with
      collector := s.registry.listTenants.foldl (Server.recordBacklogs s.registry.db watchedQueues) s.collector.refresh } := by
  refine touches_collector fun t ht => ?_
  have hnone : s.collector.lookup t = none := Option.not_isSome_iff_eq_none.mp fun hsome => ht (Or.inl hsome)
  have hrefresh : s.collector.refresh.lookup t = none := by
    refine IdMap.lookup_mapValues.trans ?_
    rw [hnone]
    rfl
  rw [hnone]
  generalize s.collector.refresh = c at hrefresh
  generalize s.registry.listTenants = tenants
  induction tenants generalizing c with
  | nil => exact hrefresh
  | cons u tenants ih => exact ih _ (lookup_recordBacklogs_none hrefresh)

theorem touches_updateBaseline {stats : TenantStats R} :
    s.Touches (· = stats.tenantId) (s.updateBaseline clock stats) := by
  have hbaselines : ∀ {m : BaselineRegistry R} {promotion : Option (BaselinePromotion R)},
      s.baselines.update stats.tenantId stats.arrivalRate clock.millis = (m, promotion) →
      s.Touches (· = stats.tenantId) { s with baselines := m } := by
    intro m promotion h
    refine .of_refreshes .refl rfl rfl fun t ht => ?_
    have hlookup : m.lookup t = s.baselines.lookup t := by
      cases h
      exact AList.lookup_modify.trans (if_neg ht)
    simp only [Server.registered, hlookup]
  unfold Server.updateBaseline
  split
  · rename_i m h
    exact hbaselines h
  · rename_i m promotion h
    refine (hbaselines h).trans (.of_refreshes (.flushBaselines fun b hb => ?_) rfl rfl fun _ _ => rfl)
    exact m.keyed (Option.mem_toList.mp hb)

theorem touches_updateBaselines (clock : Clock) {P : String → Prop} {snapshots : List (TenantStats R)}
    (hsnapshots : ∀ stats ∈ snapshots, P stats.tenantId) :
    s.Touches P (snapshots.foldl (fun s stats => s.updateBaseline clock stats) s) := by
  induction snapshots generalizing s with
  | nil => exact .refl
  | cons stats snapshots ih =>
    obtain ⟨hstats, hrest⟩ := List.forall_mem_cons.mp hsnapshots
    have hround : s.Touches P (s.updateBaseline clock stats) := touches_updateBaseline.mono fun _ ht => ht ▸ hstats
    exact hround.trans (ih hrest)

omit [F64 R] in
theorem touches_flush {P : String → Prop} {snapshots : List (TenantStats R)}
    (hsnapshots : ∀ stats ∈ snapshots, P stats.tenantId) (hbaselines : ∀ b ∈ s.baselines.allSnapshots, P b.tenantId) :
    s.Touches P (s.flush snapshots clock) := by
  have hflush : s.registry.db.Refreshes P
      ((s.registry.db.flushStats snapshots clock.millis).flushBaselines s.baselines.allSnapshots clock.millis) :=
    (Database.Refreshes.flushStats hsnapshots).trans (.flushBaselines hbaselines)
  exact .of_refreshes hflush rfl rfl fun _ _ => rfl

theorem touches_daemonCycle : s.Touches s.Tracks (s.daemonCycle clock) := by
  have hrefresh := touches_refresh (s := s)
  simp only [Server.daemonCycle]
  generalize s.registry.listTenants.foldl (Server.recordBacklogs s.registry.db watchedQueues) s.collector.refresh =
    collector at hrefresh ⊢
  have hsnapshots : ∀ stats ∈ collector.allSnapshots, s.Tracks stats.tenantId := fun stats hstats => by
    obtain ⟨state, hstate, rfl⟩ := List.mem_map.mp hstats
    exact tracks_of_touches hrefresh (Or.inl (Option.isSome_of_eq_some (IdMap.mem_values.mp hstate)))
  generalize collector.allSnapshots = snapshots at hsnapshots ⊢
  have hcounted : s.Touches s.Tracks { s with collector := collector, cycles := (s.cycles + 1) % u64Size } :=
    hrefresh.trans (.of_refreshes .refl rfl rfl fun _ _ => rfl)
  have hupdated := hcounted.trans (touches_updateBaselines clock hsnapshots)
  generalize snapshots.foldl (fun s stats => s.updateBaseline clock stats)
    { s with collector := collector, cycles := (s.cycles + 1) % u64Size } = s₂ at hupdated ⊢
  have hevaluated : s.Touches s.Tracks (s₂.withThrottle (s₂.throttle.evaluate snapshots clock.millis clock.instant)) :=
    hupdated.trans (touches_evaluate (a := s₂.throttle) hsnapshots)
  split
  · exact hevaluated.trans (touches_flush hsnapshots fun b hb =>
      tracks_of_touches hevaluated (Or.inr (Option.isSome_of_eq_some (IdMap.mem_values.mp hb))))
  · exact hevaluated

omit [F64 R] in
theorem touches_reaperTick : s.Touches (· ∈ s.registry.policies) (s.reaperTick now) := by
  have hqueue : ∀ (db : Database R) (t queue : String), db.Refreshes (· = t) (Server.reapQueue db t queue now) := by
    intro db t queue
    unfold Server.reapQueue
    split
    · exact .refl
    · rename_i tdb htdb
      exact .setTenantDb (by simp [htdb])
  have htick : s.registry.db.Refreshes (· ∈ s.registry.policies)
      (s.registry.listTenants.foldl (Server.reapTenant now) s.registry.db) := by
    refine .foldl fun db t ht => ?_
    have htenant : db.Refreshes (· = t) (Server.reapTenant now db t) := .foldl fun db queue _ => hqueue db t queue
    exact htenant.mono fun _ heq => heq ▸ AList.mem_keys.mpr ht
  exact .of_refreshes htick rfl rfl fun _ _ => rfl

end Daemon

end RocksQueue
