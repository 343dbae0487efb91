import RocksQueue.Server
import RocksQueue.Theorems.Families
import RocksQueue.Theorems.Records

/-! # Start-up

What `main` makes of the database, tenant by tenant. The throttles are restored first, when the scheduler knows
no tenant yet, so none of them reaches it; then every tenant is registered with its persisted policy. -/

namespace RocksQueue

variable {R : Type} {db db' : Database R} {tenant name : String} {now : Nat}

/-! ## Opening -/

/-- The policy that is persisted for a tenant. -/
def Database.loadPolicy (db : Database R) (tenant : String) : Option NamespacePolicy :=
  match db.record? (metaKey tenant) with
  | some (.policy p) => some p
  | _ => none

theorem loadPolicy_eq_some {p : NamespacePolicy} :
    db.loadPolicy tenant = some p ↔ db.record? (metaKey tenant) = some (.policy p) := by
  unfold Database.loadPolicy
  split
  · rename_i p' h
    simp [h]
  · rename_i hnot
    exact ⟨fun h => (nomatch h), fun h => absurd h (hnot p)⟩

theorem metaOk_of_filed (h : Filed db) : MetaOk db := by
  intro cf key v hsystem hget hprefix
  have hrecord : db.record? key = some v := by simp [Database.record?, hsystem, hget]
  obtain ⟨⟨kind, tenant⟩, hlabel, rfl⟩ := Option.map_eq_some_iff.mp (h hrecord)
  obtain rfl : RecordKind.tenantMeta = kind := kind_eq_of_startsWith hprefix
  cases v <;> cases hlabel
  exact ⟨_, _, rfl, rfl⟩

/-- What `load_persisted_tenants` reads off the records. -/
theorem loadTenants_items {items : List (Bytes × SystemRecord R)} {tenants : List (String × NamespacePolicy)}
    (h : loadTenants items = some tenants) : tenants.map Prod.fst = items.map (fun e => tenantOfMetaKey e.1) ∧
      ∀ t p, (t, p) ∈ tenants ↔ ∃ key, (key, .policy p) ∈ items ∧ tenantOfMetaKey key = t := by
  induction items generalizing tenants with
  | nil =>
    cases h
    simp
  | cons e items ih =>
    obtain ⟨key, v⟩ := e
    cases v with
    | policy p =>
      obtain ⟨rest, hrest, rfl⟩ := Option.map_eq_some_iff.mp h
      obtain ⟨hnames, hmem⟩ := ih hrest
      refine ⟨by simp [hnames], fun t q => ?_⟩
      simp only [List.mem_cons, Prod.mk.injEq, hmem, SystemRecord.policy.injEq]
      constructor
      · rintro (⟨rfl, rfl⟩ | ⟨key', hkey', heq⟩)
        · exact ⟨key, Or.inl ⟨rfl, rfl⟩, rfl⟩
        · exact ⟨key', Or.inr hkey', heq⟩
      · rintro ⟨key', ⟨rfl, rfl⟩ | hkey', heq⟩
        · exact Or.inl ⟨heq.symm, rfl⟩
        · exact Or.inr ⟨key', hkey', heq⟩
    | _ => cases h

theorem mem_loadPersistedTenants (h : MetaOk db) {tenants : List (String × NamespacePolicy)}
    (hload : loadPersistedTenants db = some tenants) :
    (tenants.map Prod.fst).Nodup ∧ ∀ t p, (t, p) ∈ tenants ↔ db.loadPolicy t = some p := by
  unfold loadPersistedTenants at hload
  simp only [loadPolicy_eq_some, Database.record?]
  cases hsystem : db.system with
  | none =>
    rw [hsystem] at hload
    cases hload
    simp
  | some cf =>
    rw [hsystem] at hload
    obtain ⟨hnames, hmem⟩ := loadTenants_items hload
    -- The keys under the prefix are those of tenants, for the records are filed.
    have hmeta : ∀ key v, (key, v) ∈ seekPrefix cf tenantMetaPrefix → ∃ t, key = metaKey t := fun key v hkey => by
      obtain ⟨hget, hprefix⟩ := mem_seekPrefix.mp hkey
      obtain ⟨t, -, hkey, -⟩ := h cf key v hsystem hget hprefix
      exact ⟨t, hkey⟩
    refine ⟨?_, fun t p => ?_⟩
    · rw [hnames, List.nodup_map_iff_inj_on]
      -- A name has one key.
      · intro e he e' he' heq
        obtain ⟨t, ht⟩ := hmeta e.1 e.2 he
        obtain ⟨t', ht'⟩ := hmeta e'.1 e'.2 he'
        rw [ht, ht', tenantOfMetaKey_metaKey, tenantOfMetaKey_metaKey] at heq
        have hkeys : ((seekPrefix cf tenantMetaPrefix).map Prod.fst).Nodup := by
          rw [seekPrefix_eq]
          exact OrderedMap.scan_keys_nodup
        exact List.inj_on_of_nodup_map hkeys he he' (by rw [ht, ht', heq])
      · rw [seekPrefix_eq]
        exact List.Nodup.of_map _ OrderedMap.scan_keys_nodup
    · rw [hmem]
      constructor
      · rintro ⟨key, hkey, rfl⟩
        obtain ⟨t, rfl⟩ := hmeta key _ hkey
        rw [tenantOfMetaKey_metaKey]
        exact (mem_seekPrefix.mp hkey).1
      · intro hget
        exact ⟨metaKey t, mem_seekPrefix.mpr ⟨hget, tenantMetaPrefix_metaKey t⟩, tenantOfMetaKey_metaKey t⟩

theorem lookup_foldl_insert {l : List (String × NamespacePolicy)} (hl : (l.map Prod.fst).Nodup) {p : NamespacePolicy} :
    (l.foldl (fun m t => m.insert t.1 t.2) (∅ : DashMap NamespacePolicy)).lookup tenant = some p ↔ (tenant, p) ∈ l := by
  have hown : ∀ (m : DashMap NamespacePolicy) (t : String × NamespacePolicy), (m.insert t.1 t.2).lookup t.1 = some t.2 :=
    fun m t => AList.lookup_insert m
  have hother : ∀ (m : DashMap NamespacePolicy) (t : String × NamespacePolicy) (k : String), k ≠ t.1 →
      (m.insert t.1 t.2).lookup k = m.lookup k := fun _ _ _ h => AList.lookup_insert_ne h
  obtain ⟨hin, hout⟩ := List.foldl_lookup (fun (m : DashMap NamespacePolicy) k => m.lookup k)
    (fun t _ => some t.2) hown hother hl ∅
  constructor
  · intro h
    by_cases hmem : tenant ∈ l.map Prod.fst
    · obtain ⟨t, ht, rfl⟩ := List.mem_map.mp hmem
      rw [hin t ht] at h
      obtain rfl := Option.some.inj h
      exact ht
    · rw [hout tenant hmem] at h
      cases h
  · exact fun hmem => hin (tenant, p) hmem

theorem lookup_createMissing {names : List String} : (db.createMissing names).cfs.lookup name =
    (db.cfs.lookup name).or (if name ∈ names then some .empty else none) := by
  simp only [Database.createMissing]
  generalize db.cfs = cfs
  induction names generalizing cfs with
  | nil => simp
  | cons n names ih =>
    rw [List.foldl_cons, ih]
    by_cases hn : name = n
    · subst hn
      split
      · rename_i hmem
        obtain ⟨cf, hcf⟩ := Option.isSome_iff_exists.mp (AList.lookup_isSome.mpr hmem)
        simp [hcf]
      · rename_i hmem
        simp [AList.lookup_eq_none.mpr hmem]
    · split
      · simp [hn]
      · rw [AList.lookup_insert_ne hn]
        simp [hn]

/-- What opening the database yields. -/
structure Opened (db : Database R) (r : TenantRegistry R) (now : Nat) : Prop where
  seq : r.seq = now % u64Size
  system : r.db.system.isSome = true
  records : ∀ key, r.db.record? key = db.record? key
  policies : ∀ tenant, r.policies.lookup tenant = db.loadPolicy tenant
  families : ∀ name, r.db.cfs.lookup name = (db.cfs.lookup name).or
    (if ∃ tenant ∈ r.policies, name ∈ cfNames tenant then some .empty else none)

theorem opened_of_open (h : MetaOk db) {r : TenantRegistry R} (hopen : TenantRegistry.open db now = some r) :
    Opened db r now := by
  unfold TenantRegistry.open at hopen
  split at hopen
  · cases hopen
  · rename_i tenants hload
    split at hopen
    · cases hopen
    · rename_i db' hdb'
      unfold Database.openCfDescriptors at hdb'
      split at hdb'
      · cases hdb'
        cases hopen
        obtain ⟨hnodup, hmem⟩ := mem_loadPersistedTenants h hload
        -- The policies in memory are those of the records.
        have hpolicies : ∀ t, (tenants.foldl (fun m t => m.insert t.1 t.2) (∅ : DashMap NamespacePolicy)).lookup t =
            db.loadPolicy t := fun t => Option.ext fun p => by
          rw [lookup_foldl_insert hnodup, hmem]
        refine ⟨rfl, rfl, fun key => ?_, hpolicies, fun name => ?_⟩
        · cases hsystem : db.system <;> simp [Database.record?, Database.createMissing, hsystem]
        · rw [lookup_createMissing]
          congr 1
          refine if_congr ?_ rfl rfl
          -- A family is opened for each of the three names of each tenant.
          rw [List.mem_flatMap]
          constructor
          · rintro ⟨⟨t, p⟩, ht, hname⟩
            refine ⟨t, ?_, hname⟩
            rw [← AList.lookup_isSome, hpolicies, (hmem t p).mp ht]
            rfl
          · rintro ⟨t, ht, hname⟩
            obtain ⟨p, hp⟩ := Option.isSome_iff_exists.mp (AList.lookup_isSome.mpr ht)
            rw [hpolicies] at hp
            exact ⟨(t, p), (hmem t p).mpr hp, hname⟩
      · cases hdb'

variable [F64 R]

/-! ## The restored throttles -/

section Restore
variable {a : AutoThrottle R} {instant : Nat} {p : PersistedThrottle} {ps : List PersistedThrottle} {key : Bytes}

/-- The throttle is still in its cooldown when the server starts. -/
def PersistedThrottle.inForce (p : PersistedThrottle) (now : Nat) : Bool := p.throttled && now < p.cooldownUntilMs

/-- Its cooldown is over, and the record is removed. -/
def PersistedThrottle.lapsed (p : PersistedThrottle) (now : Nat) : Bool := p.throttled && !(now < p.cooldownUntilMs : Bool)

/-- What a round of the restore does to its own tenant. -/
def restoredThrottle (p : PersistedThrottle) (now : Nat) (x : Option ThrottleState × Option (SystemRecord R)) :
    Option ThrottleState × Option (SystemRecord R) :=
  (if p.inForce now then some p.state else x.1, if p.lapsed now then none else x.2)

theorem restoreOne_eq (hnone : ∀ t, a.scheduler.policy t = none) : a.restoreOne p now instant =
    if p.inForce now then { a with states := a.states.insert p.state }
    else if p.lapsed now then { a with store := a.store.clearThrottle p.tenantId }
    else a := by
  simp only [AutoThrottle.restoreOne, hnone, PersistedThrottle.inForce, PersistedThrottle.lapsed]
  by_cases hthrottled : p.throttled = true <;> by_cases hnow : now < p.cooldownUntilMs <;> simp [hthrottled, hnow]

theorem scheduler_restoreOne (hnone : ∀ t, a.scheduler.policy t = none) :
    (a.restoreOne p now instant).scheduler = a.scheduler := by
  rw [restoreOne_eq hnone]
  split
  · rfl
  · split <;> rfl

/-- Rounds that begin without tenants in the scheduler end without. -/
theorem restore_scheduler (hnone : ∀ t, a.scheduler.policy t = none) :
    (ps.foldl (fun a p => a.restoreOne p now instant) a).scheduler = a.scheduler := by
  induction ps generalizing a with
  | nil => rfl
  | cons p ps ih =>
    have hsame : (a.restoreOne p now instant).scheduler = a.scheduler := scheduler_restoreOne hnone
    rw [List.foldl_cons, ih (by rw [hsame]; exact hnone), hsame]

/-- The rounds touch the throttles and the records of throttles only. -/
theorem restore_frame (ps : List PersistedThrottle) (now instant : Nat) (hnone : ∀ t, a.scheduler.policy t = none)
    (hkey : ∀ t, key ≠ throttleKey t) :
    (ps.foldl (fun a p => a.restoreOne p now instant) a).store.record? key = a.store.record? key ∧
      (ps.foldl (fun a p => a.restoreOne p now instant) a).store.cfs = a.store.cfs ∧
      (ps.foldl (fun a p => a.restoreOne p now instant) a).store.system.isSome = a.store.system.isSome ∧
      (ps.foldl (fun a p => a.restoreOne p now instant) a).baselines = a.baselines := by
  induction ps generalizing a with
  | nil => exact ⟨rfl, rfl, rfl, rfl⟩
  | cons p ps ih =>
    have hround : (a.restoreOne p now instant).store.record? key = a.store.record? key ∧
        (a.restoreOne p now instant).store.cfs = a.store.cfs ∧
        (a.restoreOne p now instant).store.system.isSome = a.store.system.isSome ∧
        (a.restoreOne p now instant).baselines = a.baselines ∧ (a.restoreOne p now instant).scheduler = a.scheduler := by
      rw [restoreOne_eq hnone]
      split
      · exact ⟨rfl, rfl, rfl, rfl, rfl⟩
      · split
        · refine ⟨?_, rfl, isSome_system_deleteSystem, rfl, rfl⟩
          exact record?_deleteSystem.trans (if_neg (hkey p.tenantId))
        · exact ⟨rfl, rfl, rfl, rfl, rfl⟩
    obtain ⟨h₁, h₂, h₃, h₄, h₅⟩ := hround
    obtain ⟨g₁, g₂, g₃, g₄⟩ := ih (by rw [h₅]; exact hnone)
    exact ⟨g₁.trans h₁, g₂.trans h₂, g₃.trans h₃, g₄.trans h₄⟩

/-- What the rounds read and write of one tenant. -/
def throttleOf (a : AutoThrottle R) (tenant : String) : Option ThrottleState × Option (SystemRecord R) :=
  (a.states.lookup tenant, a.store.record? (throttleKey tenant))

theorem throttleOf_restoreOne (hnone : ∀ t, a.scheduler.policy t = none) (t : String) :
    throttleOf (a.restoreOne p now instant) t =
      if t = p.tenantId then restoredThrottle p now (throttleOf a t) else throttleOf a t := by
  have hkey : throttleKey t = throttleKey p.tenantId ↔ t = p.tenantId := by
    have hinj : RecordKind.throttle.key t = RecordKind.throttle.key p.tenantId ↔ _ := key_inj
    exact hinj.trans (and_iff_right rfl)
  rw [restoreOne_eq hnone]
  by_cases hforce : p.inForce now = true
  · have hnot : p.lapsed now = false := by
      simp only [PersistedThrottle.inForce, PersistedThrottle.lapsed] at hforce ⊢
      revert hforce
      cases p.throttled <;> simp
    by_cases ht : t = p.tenantId <;>
      simp [throttleOf, restoredThrottle, hforce, hnot, IdMap.lookup_insert, PersistedThrottle.state, ht]
  · by_cases hlapsed : p.lapsed now = true
    · by_cases ht : t = p.tenantId <;>
        simp [throttleOf, restoredThrottle, hforce, hlapsed, Database.clearThrottle, Database.store, StoreWrite.key,
          record?_deleteSystem, hkey, ht]
    · simp [throttleOf, restoredThrottle, hforce, hlapsed]

theorem throttleOf_restore (hnone : ∀ t, a.scheduler.policy t = none) (hnodup : (ps.map PersistedThrottle.tenantId).Nodup)
    (t : String) : throttleOf (ps.foldl (fun a p => a.restoreOne p now instant) a) t =
      match ps.find? fun p => p.tenantId = t with
      | some p => restoredThrottle p now (throttleOf a t)
      | none => throttleOf a t := by
  induction ps generalizing a with
  | nil => rfl
  | cons p ps ih =>
    obtain ⟨hnot, hnodup'⟩ := List.nodup_cons.mp hnodup
    have hsame : (a.restoreOne p now instant).scheduler = a.scheduler := scheduler_restoreOne hnone
    rw [List.foldl_cons, ih (by rw [hsame]; exact hnone) hnodup', throttleOf_restoreOne hnone, List.find?_cons]
    by_cases ht : p.tenantId = t
    · have hrest : ps.find? (fun q => q.tenantId = t) = none := List.find?_eq_none.mpr fun q hq heq => by
        refine hnot (List.mem_map.mpr ⟨q, hq, ?_⟩)
        rw [ht]
        exact of_decide_eq_true heq
      simp [ht, hrest]
    · simp [ht, Ne.symm ht]

/-- A throttle that is restored: its record says that it is still in force. -/
def Database.loadThrottle (db : Database R) (tenant : String) : Option PersistedThrottle :=
  (db.record? (throttleKey tenant)).bind asThrottle

omit [F64 R] in
theorem Filed.find_loadAllThrottles (h : Filed db) (tenant : String) :
    (db.loadAllThrottles.find? fun p => p.tenantId = tenant) = db.loadThrottle tenant := by
  refine Option.ext fun p => ?_
  have hload : db.loadThrottle tenant = some p ↔ db.record? (throttleKey tenant) = some (.throttle p) := by
    simp [Database.loadThrottle, Option.bind_eq_some_iff, asThrottle_eq_some]
  rw [hload]
  constructor
  · intro hfind
    obtain rfl : p.tenantId = tenant := by simpa using List.find?_some hfind
    exact (h.filedAs .throttle).mem_loadAllThrottles.mp (List.mem_of_find?_eq_some hfind)
  · intro hget
    have hlabel := h.label .throttle hget
    obtain rfl : p.tenantId = tenant := by
      cases hlabel
      rfl
    have hmem : p ∈ db.loadAllThrottles := (h.filedAs .throttle).mem_loadAllThrottles.mpr hget
    cases hfind : db.loadAllThrottles.find? fun q => q.tenantId = p.tenantId with
    | none => exact absurd (decide_eq_true rfl) (List.find?_eq_none.mp hfind p hmem)
    | some q =>
      have hid : q.tenantId = p.tenantId := by simpa using List.find?_some hfind
      have hnodup := (h.filedAs .throttle).loadAllThrottles_nodup
      exact congrArg some (List.inj_on_of_nodup_map hnodup (List.mem_of_find?_eq_some hfind) hmem hid)

/-- What `restore_from_store` leaves of a database whose scheduler has no tenants yet. -/
structure Restored (a a' : AutoThrottle R) (now : Nat) : Prop where
  scheduler : a'.scheduler = a.scheduler
  baselines : a'.baselines = a.baselines
  cfs : a'.store.cfs = a.store.cfs
  system : a'.store.system.isSome = a.store.system.isSome
  records : ∀ key, (∀ t, key ≠ throttleKey t) → a'.store.record? key = a.store.record? key
  throttleRecord : ∀ t, a'.store.record? (throttleKey t) =
    if (a.store.loadThrottle t).any fun p => p.lapsed now then none else a.store.record? (throttleKey t)
  states : ∀ t, a'.states.lookup t =
    (((a.store.loadThrottle t).filter fun p => p.inForce now).map PersistedThrottle.state).or (a.states.lookup t)

theorem restored_of_restoreFromStore (hnone : ∀ t, a.scheduler.policy t = none) (h : Filed a.store) :
    Restored a (a.restoreFromStore now instant) now := by
  have hnodup := (h.filedAs .throttle).loadAllThrottles_nodup
  have htenant : ∀ t, throttleOf (a.restoreFromStore now instant) t = match a.store.loadThrottle t with
      | some p => restoredThrottle p now (throttleOf a t)
      | none => throttleOf a t := fun t => by
    rw [← h.find_loadAllThrottles t]
    exact throttleOf_restore hnone hnodup t
  have hframe := fun (key : Bytes) (hkey : ∀ t, key ≠ throttleKey t) =>
    restore_frame a.store.loadAllThrottles now instant hnone hkey
  obtain ⟨-, hcfs, hsystem, hbaselines⟩ := hframe (RecordKind.tenantMeta.key "") fun _ => key_ne .tenantMeta .throttle (by decide)
  refine ⟨restore_scheduler hnone, hbaselines, hcfs, hsystem, fun key hkey => (hframe key hkey).1, fun t => ?_, fun t => ?_⟩
  · refine (congrArg Prod.snd (htenant t)).trans ?_
    cases a.store.loadThrottle t <;> rfl
  · refine (congrArg Prod.fst (htenant t)).trans ?_
    cases hload : a.store.loadThrottle t with
    | none => rfl
    | some p => by_cases hforce : p.inForce now = true <;> simp [restoredThrottle, throttleOf, Option.filter, hforce]

omit [F64 R] in
/-- The records stay filed. -/
theorem Restored.filed {a' : AutoThrottle R} (hr : Restored a a' now) (h : Filed a.store) : Filed a'.store := by
  intro key v hget
  by_cases hkey : ∃ t, key = throttleKey t
  · obtain ⟨t, rfl⟩ := hkey
    rw [hr.throttleRecord] at hget
    split at hget
    · cases hget
    · exact h hget
  · rw [hr.records key (not_exists.mp hkey)] at hget
    exact h hget

end Restore

/-! ## The registered tenants -/

section Register
variable {s : Server R} {clock : Clock}

/-- What a tenant's baseline starts from. -/
def Database.freshBaseline (db : Database R) (tenant : String) (now : Nat) : TenantBaseline R :=
  match db.loadBaseline tenant with
  | some record => .restored tenant record now
  | none => .new tenant 0.0 now

theorem lookup_registerBaseline {m : BaselineRegistry R} {t : String} :
    (m.register tenant 0.0 (db.loadBaseline tenant) now).lookup t =
      if t = tenant then some (db.freshBaseline tenant now) else m.lookup t := by
  simp only [BaselineRegistry.register, Database.freshBaseline]
  cases db.loadBaseline tenant <;> exact IdMap.lookup_insert (m := m)

/-- What the server has registered for one tenant. -/
structure Registered (R : Type) where
  state : Option (TenantState R)
  stats : Option (TenantStatsState R)
  baseline : Option (TenantBaseline R)

def Server.registered (s : Server R) (tenant : String) : Registered R where
  state := s.scheduler.tenants.lookup tenant
  stats := s.collector.lookup tenant
  baseline := s.baselines.lookup tenant

/-- What is registered for a tenant with this policy. -/
def Registered.new (db : Database R) (tenant : String) (policy : NamespacePolicy) (clock : Clock) : Registered R where
  state := some (.new (policy.toTenantPolicy tenant) clock.instant)
  stats := some ⟨.new tenant clock.instant, .zero⟩
  baseline := some (db.freshBaseline tenant clock.millis)

theorem registered_registerTenant {policy : NamespacePolicy} (t : String) :
    (s.registerTenant tenant policy clock).registered t =
      if t = tenant then .new s.registry.db tenant policy clock else s.registered t := by
  have hstate : (s.scheduler.register (policy.toTenantPolicy tenant) clock.instant).tenants.lookup t =
      if t = tenant then some (.new (policy.toTenantPolicy tenant) clock.instant) else s.scheduler.tenants.lookup t :=
    IdMap.lookup_insert
  have hstats : (s.collector.register tenant clock.instant).lookup t =
      if t = tenant then some ⟨.new tenant clock.instant, .zero⟩ else s.collector.lookup t := IdMap.lookup_insert
  simp only [Server.registerTenant, Server.registered, hstate, hstats, lookup_registerBaseline, Registered.new]
  split <;> rfl

omit [F64 R] in
theorem listTenants_nodup (r : TenantRegistry R) : r.listTenants.Nodup := r.policies.keys_nodup

theorem registered_registerTenants (s : Server R) (clock : Clock) {tenants : List String} (hnodup : tenants.Nodup) :
    (s.registerTenants tenants clock).registry = s.registry ∧
      (s.registerTenants tenants clock).throttles = s.throttles ∧
      ∀ t, (s.registerTenants tenants clock).registered t =
        match if t ∈ tenants then s.registry.getPolicy t else none with
        | some policy => .new s.registry.db t policy clock
        | none => s.registered t := by
  unfold Server.registerTenants
  induction tenants generalizing s with
  | nil => exact ⟨rfl, rfl, fun _ => rfl⟩
  | cons tenant tenants ih =>
    obtain ⟨hnot, hnodup'⟩ := List.nodup_cons.mp hnodup
    rw [List.foldl_cons]
    cases hpolicy : s.registry.getPolicy tenant with
    | none =>
      obtain ⟨hregistry, hthrottles, hregistered⟩ := ih s hnodup'
      refine ⟨hregistry, hthrottles, fun t => ?_⟩
      rw [hregistered]
      by_cases ht : t = tenant
      · subst ht
        simp [hnot, hpolicy]
      · simp [ht]
    | some policy =>
      obtain ⟨hregistry, hthrottles, hregistered⟩ := ih (s.registerTenant tenant policy clock) hnodup'
      refine ⟨hregistry, hthrottles, fun t => ?_⟩
      rw [hregistered]
      by_cases ht : t = tenant
      · subst ht
        simp [hnot, hpolicy, registered_registerTenant]
      · have hregistry : (s.registerTenant tenant policy clock).registry = s.registry := rfl
        rw [hregistry, registered_registerTenant, if_neg ht]
        simp [ht]

end Register

/-! ## The statistics -/

section Warm
variable {c : StatsCollector R}

/-- The statistics that are persisted for a tenant. -/
def Database.loadStats (db : Database R) (tenant : String) : Option (PersistedStats R) :=
  match db.record? (statsKey tenant) with
  | some (.stats s) => some s
  | _ => none

omit [F64 R] in
theorem loadStats_eq_some {p : PersistedStats R} :
    db.loadStats tenant = some p ↔ db.record? (statsKey tenant) = some (.stats p) := by
  unfold Database.loadStats
  split
  · rename_i p' h
    simp [h]
  · rename_i hnot
    exact ⟨fun h => (nomatch h), fun h => absurd h (hnot p)⟩

/-- Statistics overwritten by what is persisted for the tenant. -/
def TenantStatsState.warmedBy (state : TenantStatsState R) (persisted : Option (PersistedStats R)) (now : Nat) :
    TenantStatsState R :=
  match persisted with
  | some p => state.warm (p.decayed now)
  | none => state

theorem lookup_warmFromStore (h : Filed db) (t : String) : (c.warmFromStore (db.loadAllStats now)).lookup t =
    (c.lookup t).map fun state => state.warmedBy (db.loadStats t) now := by
  have hown : ∀ (c : StatsCollector R) (p : PersistedStats R),
      (c.modify p.tenantId (fun state => state.warm p) fun _ h => h).lookup p.tenantId =
        (c.lookup p.tenantId).map fun state => state.warm p := fun c p => IdMap.lookup_modify.trans (if_pos rfl)
  have hother : ∀ (c : StatsCollector R) (p : PersistedStats R) (k : String), k ≠ p.tenantId →
      (c.modify p.tenantId (fun state => state.warm p) fun _ h => h).lookup k = c.lookup k := fun c p k hk =>
    IdMap.lookup_modify.trans (if_neg hk)
  obtain ⟨hin, hout⟩ := List.foldl_lookup (fun (c : StatsCollector R) k => c.lookup k)
    (fun p x => x.map fun state => state.warm p) hown hother ((h.filedAs .stats).loadAllStats_nodup now) c
  by_cases hmem : t ∈ (db.loadAllStats now).map PersistedStats.tenantId
  · obtain ⟨p, hp, rfl⟩ := List.mem_map.mp hmem
    obtain ⟨s, hs, hdecayed⟩ := (h.filedAs .stats).mem_loadAllStats.mp hp
    rw [loadStats_eq_some.mpr hs]
    simp only [TenantStatsState.warmedBy, hdecayed]
    exact hin p hp
  · have hnone : db.loadStats t = none := by
      cases hload : db.loadStats t with
      | none => rfl
      | some s =>
        have hget := loadStats_eq_some.mp hload
        have hlabel := h.label .stats hget
        cases hlabel
        exact absurd (List.mem_map.mpr ⟨s.decayed now, (h.filedAs .stats).mem_loadAllStats.mpr ⟨s, hget, rfl⟩, rfl⟩) hmem
    rw [hnone]
    exact (hout t hmem).trans Option.map_id'.symm

end Warm

/-! ## The whole start-up -/

section Main
variable {s : Server R} {clock : Clock}

/-- What is registered for a tenant with this policy when the server starts. -/
def Registered.started (db : Database R) (tenant : String) (policy : NamespacePolicy) (clock : Clock) : Registered R :=
  { Registered.new db tenant policy clock with
    stats := some (TenantStatsState.warmedBy ⟨.new tenant clock.instant, .zero⟩ (db.loadStats tenant) clock.millis) }

/-- The server as `main` starts it. -/
structure Started (db : Database R) (s : Server R) (clock : Clock) : Prop where
  opened : ∃ r, TenantRegistry.open db clock.millis = some r ∧ s.registry.policies = r.policies ∧
    s.registry.db.cfs = r.db.cfs ∧ s.registry.seq = r.seq
  system : s.registry.db.system.isSome = true
  records : ∀ key, (∀ t, key ≠ throttleKey t) → s.registry.db.record? key = db.record? key
  throttleRecord : ∀ t, s.registry.db.record? (throttleKey t) =
    if (db.loadThrottle t).any fun p => p.lapsed clock.millis then none else db.record? (throttleKey t)
  policies : ∀ t, s.registry.policies.lookup t = db.loadPolicy t
  throttles : ∀ t, s.throttles.lookup t =
    ((db.loadThrottle t).filter fun p => p.inForce clock.millis).map PersistedThrottle.state
  registered : ∀ t, s.registered t =
    match db.loadPolicy t with
    | some policy => .started db t policy clock
    | none => ⟨none, none, none⟩

/-- A server before its start-up has restored anything. -/
def Server.opened (r : TenantRegistry R) : Server R := ⟨r, .new, .empty, .empty, .empty, 0⟩

/-- The steps of `main`: the throttles are restored, the tenants registered, and the statistics warmed up. -/
theorem stages_of_main (hmain : Server.main db clock = some s) : ∃ r a s₁, TenantRegistry.open db clock.millis = some r ∧
    a = (Server.opened r).throttle.restoreFromStore clock.millis clock.instant ∧
    s₁ = ((Server.opened r).withThrottle a).registerTenants r.listTenants clock ∧
    s = { s₁ with collector := s₁.collector.warmFromStore (s₁.registry.db.loadAllStats clock.millis) } := by
  unfold Server.main at hmain
  split at hmain
  · cases hmain
  · rename_i r hopen
    exact ⟨r, _, _, hopen, rfl, rfl, (Option.some.inj hmain).symm⟩

theorem started_of_main (h : Filed db) (hmain : Server.main db clock = some s) : Started db s clock := by
  obtain ⟨r, a, s₁, hopen, ha, hs₁, rfl⟩ := stages_of_main hmain
  have ho := opened_of_open (metaOk_of_filed h) hopen
  have hfiled : Filed r.db := fun hget => h ((ho.records _).symm.trans hget)
  have hload : ∀ t, r.db.loadThrottle t = db.loadThrottle t := fun t => by
    rw [Database.loadThrottle, ho.records, Database.loadThrottle]
  -- The throttles are restored first, before any tenant is registered.
  have hr : Restored (Server.opened r).throttle a clock.millis :=
    ha ▸ restored_of_restoreFromStore (fun _ => rfl) hfiled
  -- Then each listed tenant is registered, which leaves the registry and the throttles alone.
  obtain ⟨hregistry, hthrottles, hregistered⟩ :=
    registered_registerTenants ((Server.opened r).withThrottle a) clock (listTenants_nodup r)
  rw [← hs₁] at hregistry hthrottles hregistered
  have hdb : s₁.registry.db = a.store := congrArg TenantRegistry.db hregistry
  have hpolicies : s₁.registry.policies = r.policies := by rw [hregistry]; rfl
  have hseq : s₁.registry.seq = r.seq := by rw [hregistry]; rfl
  -- So only the records of throttles may have changed, where the cooldown was over.
  have hrecords : ∀ kind : RecordKind, kind ≠ .throttle → ∀ t, a.store.record? (kind.key t) = db.record? (kind.key t) :=
    fun kind hkind t => (hr.records _ fun _ => key_ne kind .throttle hkind).trans (ho.records _)
  have hfresh : ∀ t, a.store.freshBaseline t clock.millis = db.freshBaseline t clock.millis := fun t => by
    have hrecord : a.store.record? (baselineKey t) = db.record? (baselineKey t) :=
      hrecords .baseline (by decide) t
    rw [Database.freshBaseline, Database.loadBaseline, hrecord, Database.freshBaseline, Database.loadBaseline]
  have hstats : ∀ t, a.store.loadStats t = db.loadStats t := fun t => by
    have hrecord : a.store.record? (statsKey t) = db.record? (statsKey t) := hrecords .stats (by decide) t
    rw [Database.loadStats, hrecord, Database.loadStats]
  refine
    { opened := ⟨r, hopen, hpolicies, ?_, hseq⟩
      system := ?_
      records := fun key hkey => ?_
      throttleRecord := fun t => ?_
      policies := fun t => ?_
      throttles := fun t => ?_
      registered := fun t => ?_ }
  · show s₁.registry.db.cfs = r.db.cfs
    rw [hdb, hr.cfs]
    rfl
  · show s₁.registry.db.system.isSome = true
    rw [hdb, hr.system]
    exact ho.system
  · show s₁.registry.db.record? key = db.record? key
    rw [hdb, hr.records key hkey]
    exact ho.records key
  · show s₁.registry.db.record? (throttleKey t) = _
    rw [hdb, hr.throttleRecord, ← hload, ← ho.records]
    rfl
  · show s₁.registry.policies.lookup t = db.loadPolicy t
    rw [hpolicies, ho.policies]
  · show s₁.throttles.lookup t = _
    rw [hthrottles]
    refine (hr.states t).trans ?_
    have hnone : (Server.opened r).throttle.states.lookup t = none := IdMap.lookup_empty
    rw [← hload, hnone, Option.or_none]
    rfl
  · have hlisted : (if t ∈ r.listTenants then r.policies.lookup t else none) = db.loadPolicy t := by
      rw [← ho.policies t]
      by_cases ht : t ∈ r.policies
      · exact if_pos ht
      · exact (if_neg ht).trans (AList.lookup_eq_none.mpr ht).symm
    have hfiled' : Filed s₁.registry.db := hdb ▸ hr.filed hfiled
    -- The statistics are warmed last, from the records as they are then.
    have hwarm : (s₁.collector.warmFromStore (s₁.registry.db.loadAllStats clock.millis)).lookup t =
        (s₁.collector.lookup t).map fun state => state.warmedBy (db.loadStats t) clock.millis := by
      rw [lookup_warmFromStore hfiled', hdb, hstats]
    have hbefore : ((Server.opened r).withThrottle a).registered t = ⟨none, none, none⟩ := by
      simp only [Server.registered, Server.withThrottle, hr.scheduler, hr.baselines]
      rfl
    have hregistered' : s₁.registered t = match db.loadPolicy t with
        | some policy => .new a.store t policy clock
        | none => ⟨none, none, none⟩ := by
      rw [← hlisted, ← hbefore]
      exact hregistered t
    show ({ s₁.registered t with stats := _ } : Registered R) = _
    rw [hwarm]
    show ({ s₁.registered t with
      stats := (s₁.registered t).stats.map fun state => state.warmedBy (db.loadStats t) clock.millis } : Registered R) = _
    rw [hregistered']
    cases db.loadPolicy t with
    | none => rfl
    | some policy => simp [Registered.new, Registered.started, hfresh]

end Main

end RocksQueue
