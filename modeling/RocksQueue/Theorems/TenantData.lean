import RocksQueue.Operations
import RocksQueue.Theorems.Startup

/-! # The data of each tenant

An operation that is addressed to one tenant leaves all that is stored of the others as it is: the names of
families and the keys of records are apart for any two ids. What is loaded of a kind and a tenant is what was
stored under that kind and tenant. -/

namespace RocksQueue

variable {R : Type} {db db' db'' : Database R} {tenant other queue : String} {key : Bytes} {v : SystemRecord R} {now : Nat}

/-- What is stored of the tenant is the same in both: its three families, and its record of each kind. -/
structure Database.Unchanged (tenant : String) (db db' : Database R) : Prop where
  families : ∀ name ∈ cfNames tenant, db'.cfs.lookup name = db.cfs.lookup name
  records : ∀ kind : RecordKind, db'.record? (kind.key tenant) = db.record? (kind.key tenant)

/-- The step is about one of the tenant's families, or one of its records. -/
def DbStep.Names (tenant : String) : DbStep R → Prop
  | .createCf name => name ∈ cfNames tenant
  | .dropCf name => name ∈ cfNames tenant
  | .putSystem key _ => ∃ kind : RecordKind, key = kind.key tenant
  | .deleteSystem key => ∃ kind : RecordKind, key = kind.key tenant

/-! ## What an operation leaves alone -/

namespace Database.Unchanged

theorem refl : Unchanged tenant db db := ⟨fun _ _ => rfl, fun _ => rfl⟩

theorem trans (h : Unchanged tenant db db') (h' : Unchanged tenant db' db'') : Unchanged tenant db db'' where
  families name hname := (h'.families name hname).trans (h.families name hname)
  records kind := (h'.records kind).trans (h.records kind)

theorem putSystem (h : tenant ≠ other) (kind : RecordKind) : Unchanged other db (db.putSystem (kind.key tenant) v) where
  families _ _ := rfl
  records _ := record?_putSystem_of_ne fun heq => h (key_inj.mp heq).2.symm

theorem deleteSystem (h : tenant ≠ other) (kind : RecordKind) : Unchanged other db (db.deleteSystem (kind.key tenant)) where
  families _ _ := rfl
  records _ := record?_deleteSystem.trans (if_neg fun heq => h (key_inj.mp heq).2.symm)

theorem setTenantDb {t : TenantDb} (h : tenant ≠ other) : Unchanged other db (db.setTenantDb tenant t) where
  families _ hname := lookup_setTenantDb_of_ne h hname
  records _ := rfl

theorem putSomeTenantDb {t : TenantDb} (h : tenant ≠ other) : Unchanged other db (db.putSomeTenantDb tenant t) where
  families _ hname := lookup_putSomeTenantDb_of_ne h hname
  records _ := rfl

theorem compact {c : Compaction} (h : tenant ≠ other) : Unchanged other db (db.compact tenant c) := putSomeTenantDb h

theorem store {w : StoreWrite R} (h : w.tenantId ≠ other) : Unchanged other db (db.store w) := by
  cases w with
  | flushStats s => exact putSystem h .stats
  | persistThrottle t => exact putSystem h .throttle
  | clearThrottle t => exact deleteSystem h .throttle
  | flushBaseline b => exact putSystem h .baseline
  | clearBaseline t => exact deleteSystem h .baseline

theorem apply {step : DbStep R} (h : tenant ≠ other) (hstep : step.Names tenant) (happly : db.apply step = some db') :
    Unchanged other db db' := by
  cases step with
  | createCf name =>
    simp only [Database.apply] at happly
    split at happly
    · cases happly
    · cases happly
      refine ⟨fun n hn => AList.lookup_insert_ne ?_, fun _ => rfl⟩
      rintro rfl
      exact h (cfNames_unique hstep hn)
  | dropCf name =>
    simp only [Database.apply] at happly
    split at happly
    · cases happly
      refine ⟨fun n hn => AList.lookup_erase_ne ?_, fun _ => rfl⟩
      rintro rfl
      exact h (cfNames_unique hstep hn)
    · cases happly
  | putSystem key v =>
    obtain ⟨kind, rfl⟩ := hstep
    simp only [Database.apply] at happly
    split at happly
    · cases happly
      exact putSystem h kind
    · cases happly
  | deleteSystem key =>
    obtain ⟨kind, rfl⟩ := hstep
    simp only [Database.apply] at happly
    split at happly
    · cases happly
      exact deleteSystem h kind
    · cases happly

theorem carryOut {steps : List (DbStep R)} (h : tenant ≠ other) (hsteps : ∀ step ∈ steps, step.Names tenant) :
    Unchanged other db (db.carryOut steps).1 :=
  carryOut_invariant (fun step hstep _ _ hu happly => hu.trans (apply h (hsteps step hstep) happly)) refl

end Database.Unchanged

theorem names_provisionSteps (tenant : String) (policy : NamespacePolicy) :
    ∀ step ∈ (provisionSteps tenant policy : List (DbStep R)), step.Names tenant := by
  simp only [provisionSteps, List.forall_mem_cons]
  exact ⟨by simp [DbStep.Names, cfNames], by simp [DbStep.Names, cfNames], by simp [DbStep.Names, cfNames],
    ⟨.tenantMeta, rfl⟩, List.forall_mem_nil _⟩

theorem names_dropSteps (tenant : String) : ∀ step ∈ (dropSteps tenant : List (DbStep R)), step.Names tenant := by
  simp only [dropSteps, List.forall_mem_cons]
  exact ⟨by simp [DbStep.Names, cfNames], by simp [DbStep.Names, cfNames], by simp [DbStep.Names, cfNames],
    ⟨.tenantMeta, rfl⟩, List.forall_mem_nil _⟩

theorem Operation.names_steps (op : Operation R) : ∀ step ∈ op.steps, step.Names op.tenant := by
  cases op with
  | provisionTenant tenant policy => exact names_provisionSteps tenant policy
  | dropTenant tenant => exact names_dropSteps tenant
  | _ => exact List.forall_mem_nil _

/-- The reaper and the registry look up the same families. -/
theorem reapInflight_eq : db.reapInflight tenant queue now =
    match db.tenantDb? tenant with
    | none => db
    | some t => db.setTenantDb tenant (t.reapInflight queue now) := by
  dsimp only [Database.reapInflight, Database.tenantDb?, Database.setTenantDb, reaperInflight, reaperPending, reaperDlq,
    cfInflight, cfPending, cfDlq]
  cases db.cfs.lookup (tenant ++ "__inflight") <;> cases db.cfs.lookup (tenant ++ "__pending") <;>
    cases db.cfs.lookup (tenant ++ "__dlq") <;> rfl

section Operations
variable {r r' : TenantRegistry R} {op : Operation R} {policy : NamespacePolicy} {n : Nat}

theorem unchanged_updateNamespacePolicy (h : tenant ≠ other) :
    r.db.Unchanged other (r.updateNamespacePolicy tenant policy).1.db := by
  unfold TenantRegistry.updateNamespacePolicy
  split
  · split
    · exact .refl
    · rename_i db' happly
      exact .apply h (show DbStep.Names tenant (.putSystem (metaKey tenant) _) from ⟨.tenantMeta, rfl⟩) happly
  · exact .refl

theorem unchanged_operate (h : op.tenant ≠ other) (hop : r.operate op = some r') : r.db.Unchanged other r'.db := by
  cases op with
  | provisionTenant tenant policy =>
    cases hop
    rw [TenantRegistry.provisionTenant_db]
    exact .carryOut h (names_provisionSteps tenant policy)
  | updateNamespacePolicy tenant policy =>
    cases hop
    exact unchanged_updateNamespacePolicy h
  | dropTenant tenant =>
    cases hop
    rw [TenantRegistry.dropTenant_db]
    exact .carryOut h (names_dropSteps tenant)
  | call tenant io call =>
    simp only [TenantRegistry.operate, TenantRegistry.callTenant] at hop
    split at hop
    · obtain ⟨⟨t, reply⟩, -, rfl⟩ := Option.map_eq_some_iff.mp hop
      exact .putSomeTenantDb h
    · cases hop
      exact .refl
  | compactTenant tenant c =>
    cases hop
    unfold TenantRegistry.compactTenant
    split
    · exact .refl
    · exact .compact h
  | reapInflight tenant queue now =>
    cases hop
    dsimp only
    rw [reapInflight_eq]
    split
    · exact .refl
    · exact .setTenantDb h
  | store w =>
    cases hop
    exact .store h

theorem unchanged_stopped (h : op.tenant ≠ other) (n : Nat) : r.db.Unchanged other (r.stopped op n) :=
  .carryOut h fun step hstep => op.names_steps step (List.mem_of_mem_take hstep)

end Operations

/-! ## What is loaded -/

/-- The record belongs under this key. A policy is filed under the tenant that it was given for, whichever id it
    has in itself. -/
def SystemRecord.FiledUnder (key : Bytes) : SystemRecord R → Prop
  | .policy _ => ∃ tenant, key = metaKey tenant
  | v => v.place = some key

/-- Every record is under a key where it belongs. -/
def Placed (db : Database R) : Prop := ∀ key v, db.record? key = some v → v.FiledUnder key

/-- What is loaded of a kind and a tenant is what is stored under its key. -/
structure Database.LoadsOwn [F64 R] (db : Database R) : Prop where
  tenants : ∃ tenants, loadPersistedTenants db = some tenants ∧
    ∀ t p, (t, p) ∈ tenants ↔ db.record? (metaKey t) = some (.policy p)
  stats : ∀ now p, p ∈ db.loadAllStats now ↔
    ∃ s, db.record? (statsKey p.tenantId) = some (.stats s) ∧ s.decayed now = p
  throttles : ∀ p, p ∈ db.loadAllThrottles ↔ db.record? (throttleKey p.tenantId) = some (.throttle p)

namespace Placed

theorem label (h : Placed db) (hv : db.record? key = some v) : ∃ kind tenant, key = RecordKind.key kind tenant ∧
    ((∃ p, v = .policy p ∧ kind = .tenantMeta) ∨ v.label = some (kind, tenant) ∧ kind ≠ .tenantMeta) := by
  have hfiled := h key v hv
  cases v with
  | policy p =>
    obtain ⟨tenant, rfl⟩ := hfiled
    exact ⟨.tenantMeta, tenant, rfl, Or.inl ⟨p, rfl, rfl⟩⟩
  | stats s => exact ⟨.stats, s.tenantId, (Option.some.inj hfiled).symm, Or.inr ⟨rfl, by decide⟩⟩
  | throttle t => exact ⟨.throttle, t.tenantId, (Option.some.inj hfiled).symm, Or.inr ⟨rfl, by decide⟩⟩
  | baseline b => exact ⟨.baseline, b.tenantId, (Option.some.inj hfiled).symm, Or.inr ⟨rfl, by decide⟩⟩
  | corrupt raw => cases hfiled

theorem metaOk (h : Placed db) : MetaOk db := by
  intro cf key v hsystem hget hprefix
  have hv : db.record? key = some v := by simp [Database.record?, hsystem, hget]
  obtain ⟨kind, tenant, rfl, ⟨p, rfl, rfl⟩ | ⟨hlabel, hkind⟩⟩ := h.label hv
  · exact ⟨tenant, p, rfl, rfl⟩
  · have hmeta : RecordKind.tenantMeta = kind := kind_eq_of_startsWith hprefix
    exact absurd hmeta.symm hkind

theorem filedAs (h : Placed db) {kind : RecordKind} (hkind : kind ≠ .tenantMeta) : FiledAs kind db := by
  intro key v hv hprefix
  obtain ⟨kind', tenant, rfl, ⟨p, rfl, rfl⟩ | ⟨hlabel, -⟩⟩ := h.label hv
  · exact absurd (kind_eq_of_startsWith hprefix) hkind
  · rw [SystemRecord.place, hlabel]
    rfl

theorem loadsOwn [F64 R] (h : Placed db) : db.LoadsOwn where
  tenants := by
    obtain ⟨tenants, hload, -⟩ := loadPersistedTenants_of_metaOk h.metaOk
    refine ⟨tenants, hload, fun t p => ?_⟩
    rw [(mem_loadPersistedTenants h.metaOk hload).2, loadPolicy_eq_some]
  stats now p := FiledAs.mem_loadAllStats (h.filedAs (by decide))
  throttles p := FiledAs.mem_loadAllThrottles (h.filedAs (by decide))

/-! ### What keeps the records in their places -/

theorem put (h : Placed db) (hv : v.FiledUnder key) : Placed (db.putSystem key v) := by
  intro k w hw
  by_cases hk : k = key
  · cases hsystem : db.system with
    | none =>
      simp [Database.record?, Database.putSystem, hsystem] at hw
    | some cf =>
      rw [record?_putSystem (by simp [hsystem]), if_pos hk] at hw
      cases hw
      exact hk ▸ hv
  · rw [record?_putSystem_of_ne hk] at hw
    exact h k w hw

theorem delete (h : Placed db) (key : Bytes) : Placed (db.deleteSystem key) := by
  intro k w hw
  rw [record?_deleteSystem] at hw
  split at hw
  · cases hw
  · exact h k w hw

theorem store (h : Placed db) (w : StoreWrite R) : Placed (db.store w) := by
  cases w with
  | flushStats s => exact h.put rfl
  | persistThrottle t => exact h.put rfl
  | clearThrottle t => exact h.delete _
  | flushBaseline b => exact h.put rfl
  | clearBaseline t => exact h.delete _

theorem apply {step : DbStep R} (h : Placed db) (hstep : WellFormed step) (happly : db.apply step = some db') :
    Placed db' := by
  cases step with
  | createCf name =>
    simp only [Database.apply] at happly
    split at happly
    · cases happly
    · cases happly
      exact h
  | dropCf name =>
    simp only [Database.apply] at happly
    split at happly
    · cases happly
      exact h
    · cases happly
  | putSystem key v =>
    simp only [Database.apply] at happly
    split at happly
    · cases happly
      obtain ⟨tenant, p, rfl, rfl⟩ := hstep
      exact h.put ⟨tenant, rfl⟩
    · cases happly
  | deleteSystem key =>
    simp only [Database.apply] at happly
    split at happly
    · cases happly
      exact h.delete key
    · cases happly

theorem carryOut {steps : List (DbStep R)} (h : Placed db) (hsteps : ∀ step ∈ steps, WellFormed step) :
    Placed (db.carryOut steps).1 :=
  carryOut_invariant (fun step hstep _ _ hd happly => hd.apply (hsteps step hstep) happly) h

end Placed

section Runs
variable {r r' : TenantRegistry R} {op : Operation R} {e : DataEvent R}

theorem Operation.wellFormed_steps (op : Operation R) : ∀ step ∈ op.steps, WellFormed step := by
  cases op with
  | provisionTenant tenant policy => exact wellFormed_provision
  | dropTenant tenant => exact wellFormed_drop
  | _ => exact List.forall_mem_nil _

theorem Placed.operate (h : Placed r.db) (hop : r.operate op = some r') : Placed r'.db := by
  cases op with
  | provisionTenant tenant policy =>
    cases hop
    rw [TenantRegistry.provisionTenant_db]
    exact h.carryOut wellFormed_provision
  | updateNamespacePolicy tenant policy =>
    cases hop
    unfold TenantRegistry.updateNamespacePolicy
    split
    · split
      · exact h
      · rename_i db' happly
        exact h.apply (show WellFormed (.putSystem (metaKey tenant) (.policy policy)) from ⟨tenant, policy, rfl, rfl⟩) happly
    · exact h
  | dropTenant tenant =>
    cases hop
    rw [TenantRegistry.dropTenant_db]
    exact h.carryOut wellFormed_drop
  -- The records of the tenant's families are not among those of the system.
  | call tenant io call =>
    simp only [TenantRegistry.operate, TenantRegistry.callTenant] at hop
    split at hop
    · obtain ⟨⟨t, reply⟩, -, rfl⟩ := Option.map_eq_some_iff.mp hop
      exact h
    · cases hop
      exact h
  | compactTenant tenant c =>
    cases hop
    unfold TenantRegistry.compactTenant
    split <;> exact h
  | reapInflight tenant queue now =>
    cases hop
    dsimp only
    rw [reapInflight_eq]
    split <;> exact h
  | store w =>
    cases hop
    exact h.store w

theorem Placed.stopped (h : Placed r.db) (op : Operation R) (n : Nat) : Placed (r.stopped op n) :=
  h.carryOut fun step hstep => op.wellFormed_steps step (List.mem_of_mem_take hstep)

theorem Placed.open (h : Placed db) (hopen : TenantRegistry.open db now = some r) : Placed r.db := by
  intro key v hv
  rw [(opened_of_open h.metaOk hopen).records] at hv
  exact h key v hv

theorem Placed.next (h : Placed r.db) (hn : r.next e = some r') : Placed r'.db := by
  cases e with
  | operation op => exact h.operate hn
  | fails op n =>
    simp only [TenantRegistry.next] at hn
    split at hn
    · cases hn
      exact h.stopped op n
    · cases hn
  | compaction tenant c =>
    cases hn
    exact h
  | restart now => exact h.open hn
  | crash op n now => exact (h.stopped op n).open hn

theorem placed_of_reached (h : r.Reached) : Placed r.db := by
  obtain ⟨r₀, now, hopen, hrun⟩ := h
  have hfresh : Placed (.fresh : Database R) := fun _ _ hv => by cases hv
  exact hrun.invariant (I := fun r => Placed r.db) (fun hp _ hn => hp.next hn) (hfresh.open hopen)

/-- An operation addressed to one tenant changes nothing that is stored of another, whether it succeeds, fails or
    stops halfway; and no record is ever loaded as one of another kind or tenant. -/
theorem tenants_isolated [F64 R] (h : r.Reached) :
    (∀ (op : Operation R) (other : String) (r' : TenantRegistry R), op.tenant ≠ other →
      (r.next (.operation op) = some r' ∨ ∃ n, r.next (.fails op n) = some r') → r.db.Unchanged other r'.db) ∧
    r.db.LoadsOwn := by
  refine ⟨fun op other r' hne hn => ?_, (placed_of_reached h).loadsOwn⟩
  rcases hn with hop | ⟨n, hn⟩
  · exact unchanged_operate hne hop
  · simp only [TenantRegistry.next] at hn
    split at hn
    · cases hn
      exact unchanged_stopped hne n
    · cases hn

/-- Two tenants, one id of which is the other followed by the name of a family. -/
def twoTenants : List (DataEvent Rat) :=
  [.operation (.provisionTenant "a" (.standard "a")), .operation (.provisionTenant "a__pending" (.standard "a__pending")),
    .operation (.call "a__pending" { now := 0, ids := ["x"] } (.enqueueBatch "q" [[1]] (.standard "a__pending")))]

theorem tenants_isolated_drop : ∃ r r' : TenantRegistry Rat,
    Runs.exec TenantRegistry.next (emptyRegistry Rat) twoTenants = some r ∧
    r.next (.operation (.dropTenant "a")) = some r' ∧ r.db.Unchanged "a__pending" r'.db ∧ r.db.LoadsOwn := by
  have hsome : (Runs.exec TenantRegistry.next (emptyRegistry Rat) twoTenants).isSome = true := by rfl
  obtain ⟨r, hr⟩ := Option.isSome_iff_exists.mp hsome
  have hreached : r.Reached := ⟨emptyRegistry Rat, 0, rfl, Runs.run_of_exec hr⟩
  obtain ⟨hunchanged, hloads⟩ := tenants_isolated hreached
  exact ⟨r, _, hr, rfl, hunchanged (.dropTenant "a") "a__pending" _ (by decide) (Or.inl rfl), hloads⟩

end Runs

end RocksQueue
