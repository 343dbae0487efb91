import RocksQueue.Theorems.Footprints
import RocksQueue.Theorems.TenantData

/-! # A clean restart

Without failures of RocksDB, each operation keeps the policies in memory, the persisted policies and the
families in agreement, also when it is refused. So the data model is the same after the database was closed and
opened again. -/

namespace RocksQueue

variable {R : Type} {db db' : Database R} {r r' : TenantRegistry R} {op : Operation R} {e : DataEvent R} {tenant : String}
  {now : Nat}

/-- The tenants, their policies and the contents of all families are the same in both. `DashMap` has no order of
    its own. -/
structure TenantRegistry.SameData (r r' : TenantRegistry R) : Prop where
  tenants : r'.listTenants.Perm r.listTenants
  policies : ∀ tenant, r'.getPolicy tenant = r.getPolicy tenant
  families : ∀ name, r'.db.cfs.lookup name = r.db.cfs.lookup name

/-- RocksDB does not fail, and the process does not crash. -/
def DataEvent.Clean : DataEvent R → Prop
  | .operation _ => True
  | .compaction _ _ => True
  | .restart _ => True
  | .fails _ _ => False
  | .crash _ _ _ => False

/-- What is in memory agrees with what is persisted. -/
structure TenantRegistry.Agrees (r : TenantRegistry R) : Prop where
  placed : Placed r.db
  system : r.db.system.isSome = true
  named : ∀ name ∈ r.db.cfs, ∃ tenant, name ∈ cfNames tenant
  policies : ∀ tenant, r.policies.lookup tenant = r.db.loadPolicy tenant
  families : ∀ tenant, ∀ name ∈ cfNames tenant, name ∈ r.db.cfs ↔ tenant ∈ r.policies

/-! ## Reopening -/

section Reopening

theorem opens_of_agrees (h : r.Agrees) (now : Nat) : ∃ r', TenantRegistry.open r.db now = some r' := by
  refine (open_iff h.placed.metaOk).mpr fun name hname => ?_
  obtain ⟨t, ht⟩ := h.named name hname
  obtain ⟨p, hp⟩ := Option.isSome_iff_exists.mp (AList.lookup_isSome.mpr ((h.families t name ht).mp hname))
  have hrecord : r.db.record? (metaKey t) = some (.policy p) := loadPolicy_eq_some.mp ((h.policies t).symm.trans hp)
  obtain ⟨cf, hcf⟩ := Option.isSome_iff_exists.mp h.system
  have hget : cf.get? (metaKey t) = some (.policy p) := by simpa [Database.record?, hcf] using hrecord
  exact ⟨t, ⟨cf, hcf, Option.isSome_of_eq_some hget⟩, ht⟩

theorem sameData_of_open (h : r.Agrees) (hopen : TenantRegistry.open r.db now = some r') : r.SameData r' := by
  have ho := opened_of_open h.placed.metaOk hopen
  have hpolicies : ∀ t, r'.policies.lookup t = r.policies.lookup t := fun t => (ho.policies t).trans (h.policies t).symm
  have hmem : ∀ t, t ∈ r'.policies ↔ t ∈ r.policies := fun t => by
    rw [← AList.lookup_isSome, hpolicies, AList.lookup_isSome]
  refine ⟨?_, hpolicies, fun name => ?_⟩
  · refine (List.perm_ext_iff_of_nodup r'.policies.keys_nodup r.policies.keys_nodup).mpr fun t => ?_
    exact (AList.mem_keys.symm.trans (hmem t)).trans AList.mem_keys
  · rw [ho.families]
    split
    · rename_i hlisted
      obtain ⟨t, ht, hname⟩ := hlisted
      obtain ⟨cf, hcf⟩ := Option.isSome_iff_exists.mp
        (AList.lookup_isSome.mpr ((h.families t name hname).mpr ((hmem t).mp ht)))
      rw [hcf]
      rfl
    · exact Option.or_none

theorem agrees_of_sameData (h : r.Agrees) (hs : r.SameData r') (hplaced : Placed r'.db)
    (hsystem : r'.db.system.isSome = true) (hrecords : ∀ key, r'.db.record? key = r.db.record? key) : r'.Agrees := by
  have hname : ∀ name, name ∈ r'.db.cfs ↔ name ∈ r.db.cfs := fun name => by
    rw [← AList.lookup_isSome, hs.families, AList.lookup_isSome]
  have hpolicies : ∀ t, r'.policies.lookup t = r.policies.lookup t := hs.policies
  refine ⟨hplaced, hsystem, fun name hmem => h.named name ((hname name).mp hmem), fun t => ?_, fun t name hmem => ?_⟩
  · rw [hpolicies, h.policies, Database.loadPolicy, Database.loadPolicy, hrecords]
  · rw [hname, h.families t name hmem, ← AList.lookup_isSome, ← AList.lookup_isSome, hpolicies]

end Reopening

/-! ## The operations -/

section Operations

/-- A step about the families of one tenant leaves no family without a tenant. -/
theorem named_apply {step : DbStep R} (h : ∀ name ∈ db.cfs, ∃ t, name ∈ cfNames t) (hstep : step.Names tenant)
    (happly : db.apply step = some db') : ∀ name ∈ db'.cfs, ∃ t, name ∈ cfNames t := by
  cases step with
  | createCf name =>
    simp only [Database.apply] at happly
    split at happly
    · cases happly
    · cases happly
      intro n hn
      rcases (AList.mem_insert _).mp hn with rfl | hn
      · exact ⟨tenant, hstep⟩
      · exact h n hn
  | dropCf name =>
    simp only [Database.apply] at happly
    split at happly
    · cases happly
      exact fun n hn => h n (AList.mem_erase.mp hn).2
    · cases happly
  | putSystem key v =>
    simp only [Database.apply] at happly
    split at happly <;> cases happly
    exact h
  | deleteSystem key =>
    simp only [Database.apply] at happly
    split at happly <;> cases happly
    exact h

theorem named_carryOut {steps : List (DbStep R)} (h : ∀ name ∈ db.cfs, ∃ t, name ∈ cfNames t)
    (hsteps : ∀ step ∈ steps, step.Names tenant) : ∀ name ∈ (db.carryOut steps).1.cfs, ∃ t, name ∈ cfNames t :=
  carryOut_invariant (I := fun db => ∀ name ∈ db.cfs, ∃ t, name ∈ cfNames t)
    (fun step hstep _ _ hd happly => named_apply hd (hsteps step hstep) happly) h

/-- After an operation on one tenant, that tenant is all there is to look at. -/
theorem TenantRegistry.Agrees.of_tenant (h : r.Agrees) (tenant : String) (hplaced : Placed r'.db) (hsystem : r'.db.system.isSome = true)
    (hnamed : ∀ name ∈ r'.db.cfs, ∃ tenant, name ∈ cfNames tenant)
    (hothers : ∀ other, tenant ≠ other → r.db.Unchanged other r'.db ∧ r'.policies.lookup other = r.policies.lookup other)
    (hpolicy : r'.policies.lookup tenant = r'.db.loadPolicy tenant)
    (hfamilies : ∀ name ∈ cfNames tenant, name ∈ r'.db.cfs ↔ tenant ∈ r'.policies) : r'.Agrees := by
  refine ⟨hplaced, hsystem, hnamed, fun t => ?_, fun t name hname => ?_⟩
  · by_cases ht : tenant = t
    · exact ht ▸ hpolicy
    · obtain ⟨hsame, hlookup⟩ := hothers t ht
      have hmeta : r'.db.record? (metaKey t) = r.db.record? (metaKey t) := hsame.records .tenantMeta
      rw [hlookup, h.policies, Database.loadPolicy, Database.loadPolicy, hmeta]
  · by_cases ht : tenant = t
    · exact hfamilies name (ht ▸ hname) |>.trans (by rw [ht])
    · obtain ⟨hsame, hlookup⟩ := hothers t ht
      rw [← AList.lookup_isSome, hsame.families name hname, AList.lookup_isSome, h.families t name hname,
        ← AList.lookup_isSome, ← AList.lookup_isSome, hlookup]

theorem TenantRegistry.Agrees.provisionTenant (h : r.Agrees) (tenant : String) (policy : NamespacePolicy) :
    (r.provisionTenant tenant policy).1.Agrees := by
  obtain ⟨db', ok, hrun, hcall⟩ := provisionTenant_cases r tenant policy
  have hsteps : ∀ step ∈ (provisionSteps tenant policy : List (DbStep R)), step.Names tenant := names_provisionSteps tenant policy
  have hdb : db' = (r.db.carryOut (provisionSteps tenant policy)).1 := by rw [hrun]
  rw [hcall]
  cases ok with
  | false =>
    have hsame := provision_refused h.system (h.families tenant) (congrArg Prod.snd hrun)
    rw [hdb, hsame]
    exact h
  | true =>
    obtain ⟨hfamilies, hrecords⟩ := provisioned h.system hrun
    have hmeta : db'.record? (metaKey tenant) = some (.policy policy) := (hrecords _).trans (if_pos rfl)
    refine h.of_tenant tenant ?_ ?_ ?_ (fun other hne => ⟨?_, ?_⟩) ?_ fun name hname => ?_
    · exact hdb ▸ h.placed.carryOut wellFormed_provision
    · exact hdb ▸ (ok_carryOut wellFormed_provision ⟨h.placed.metaOk, h.system⟩).2
    · exact hdb ▸ named_carryOut h.named hsteps
    · exact hdb ▸ .carryOut hne hsteps
    · exact AList.lookup_insert_ne hne.symm
    · exact (AList.lookup_insert _).trans (loadPolicy_eq_some.mpr hmeta).symm
    · have hmem : name ∈ db'.cfs := AList.lookup_isSome.mp (Option.isSome_of_eq_some (hfamilies name hname))
      exact iff_of_true hmem ((AList.mem_insert _).mpr (Or.inl rfl))

theorem TenantRegistry.Agrees.dropTenant (h : r.Agrees) (tenant : String) : (r.dropTenant tenant).1.Agrees := by
  obtain ⟨db', ok, hrun, hcall⟩ := dropTenant_cases r tenant
  have hsteps : ∀ step ∈ (dropSteps tenant : List (DbStep R)), step.Names tenant := names_dropSteps tenant
  have hdb : db' = (r.db.carryOut (dropSteps tenant)).1 := by rw [hrun]
  rw [hcall]
  cases ok with
  | false =>
    have hsame := drop_refused h.system (h.families tenant) (congrArg Prod.snd hrun)
    rw [hdb, hsame]
    exact h
  | true =>
    obtain ⟨hfamilies, hrecords⟩ := dropped hrun
    have hmeta : db'.record? (metaKey tenant) = none := (hrecords _).trans (if_pos rfl)
    refine h.of_tenant tenant ?_ ?_ ?_ (fun other hne => ⟨?_, ?_⟩) ?_ fun name hname => ?_
    · exact hdb ▸ h.placed.carryOut wellFormed_drop
    · exact hdb ▸ (ok_carryOut wellFormed_drop ⟨h.placed.metaOk, h.system⟩).2
    · exact hdb ▸ named_carryOut h.named hsteps
    · exact hdb ▸ .carryOut hne hsteps
    · exact AList.lookup_erase_ne hne.symm
    · have hnone : db'.loadPolicy tenant = none := by simp only [Database.loadPolicy, hmeta]
      exact (AList.lookup_erase tenant _).trans hnone.symm
    · exact iff_of_false (hfamilies name hname) fun hmem => (AList.mem_erase.mp hmem).1 rfl

theorem TenantRegistry.Agrees.updateNamespacePolicy (h : r.Agrees) (tenant : String) (policy : NamespacePolicy) :
    (r.updateNamespacePolicy tenant policy).1.Agrees := by
  unfold TenantRegistry.updateNamespacePolicy
  split
  · rename_i hlisted
    simp only [Database.apply, h.system, if_true]
    have hmeta : (r.db.putSystem (metaKey tenant) (.policy policy)).record? (metaKey tenant) = some (.policy policy) :=
      (record?_putSystem h.system).trans (if_pos rfl)
    refine h.of_tenant tenant (h.placed.put ⟨tenant, rfl⟩) (by simpa using h.system) h.named
      (fun other hne => ⟨.putSystem hne .tenantMeta, AList.lookup_insert_ne hne.symm⟩) ?_ fun name hname => ?_
    · exact (AList.lookup_insert _).trans (loadPolicy_eq_some.mpr hmeta).symm
    · exact iff_of_true ((h.families tenant name hname).mpr hlisted) ((AList.mem_insert _).mpr (Or.inl rfl))
  · exact h

/-- What a call on a tenant writes back are the families that were there. -/
theorem TenantRegistry.Agrees.setTenantDb (h : r.Agrees) {t : TenantDb} (ht : (r.db.tenantDb? tenant).isSome = true)
    (seq : Nat) : ({ r with db := r.db.setTenantDb tenant t, seq := seq } : TenantRegistry R).Agrees := by
  have hnames := (Database.Refreshes.setTenantDb (t := t) ht).names
  refine ⟨h.placed, h.system, fun name hname => h.named name ((hnames name).mp hname), h.policies, fun t name hname => ?_⟩
  exact (hnames name).trans (h.families t name hname)

/-- The same when some of them are missing. -/
theorem TenantRegistry.Agrees.putSomeTenantDb (h : r.Agrees) (t : TenantDb) (seq : Nat) :
    ({ r with db := r.db.putSomeTenantDb tenant t, seq := seq } : TenantRegistry R).Agrees :=
  ⟨h.placed, h.system, fun name hname => h.named name (mem_putSomeTenantDb.mp hname), h.policies,
    fun t name hname => mem_putSomeTenantDb.trans (h.families t name hname)⟩

theorem TenantRegistry.Agrees.operate (h : r.Agrees) (hop : r.operate op = some r') : r'.Agrees := by
  cases op with
  | provisionTenant tenant policy =>
    cases hop
    exact h.provisionTenant tenant policy
  | updateNamespacePolicy tenant policy =>
    cases hop
    exact h.updateNamespacePolicy tenant policy
  | dropTenant tenant =>
    cases hop
    exact h.dropTenant tenant
  | call tenant io call =>
    simp only [TenantRegistry.operate, TenantRegistry.callTenant] at hop
    split at hop
    · obtain ⟨⟨t, reply⟩, -, rfl⟩ := Option.map_eq_some_iff.mp hop
      exact h.putSomeTenantDb t.db t.seq
    · cases hop
      exact h
  | compactTenant tenant c =>
    cases hop
    unfold TenantRegistry.compactTenant
    split
    · exact h
    · exact h.putSomeTenantDb _ r.seq
  | reapInflight tenant queue now =>
    cases hop
    rw [reapInflight_eq]
    split
    · exact h
    · rename_i db hdb
      exact h.setTenantDb (Option.isSome_of_eq_some hdb) r.seq
  | store w =>
    cases hop
    -- The other records of the system are under keys of their own.
    have hmeta : ∀ t, (r.db.store w).record? (metaKey t) = r.db.record? (metaKey t) := fun t => by
      have hne : RecordKind.key .tenantMeta t ≠ w.kind.key w.tenantId := key_ne _ _ w.kind_ne_tenantMeta.symm
      exact record?_store_of_ne (w.key_eq ▸ hne)
    refine ⟨h.placed.store w, by simpa using h.system, by simpa using h.named, fun t => ?_, by simpa using h.families⟩
    rw [h.policies, Database.loadPolicy, Database.loadPolicy, hmeta]

theorem TenantRegistry.Agrees.next (h : r.Agrees) (he : e.Clean) (hn : r.next e = some r') : r'.Agrees := by
  cases e with
  | operation op => exact h.operate hn
  | compaction tenant c =>
    cases hn
    exact h.putSomeTenantDb _ r.seq
  | restart now =>
    have ho := opened_of_open h.placed.metaOk hn
    exact agrees_of_sameData h (sameData_of_open h hn) (h.placed.open hn) ho.system ho.records
  | fails op n => cases he
  | crash op n now => cases he

theorem agrees_of_fresh (hopen : TenantRegistry.open (.fresh : Database R) now = some r) : r.Agrees := by
  obtain rfl : (⟨⟨some .empty, ∅⟩, now % u64Size, ∅⟩ : TenantRegistry R) = r := Option.some.inj hopen
  exact ⟨(fun _ _ hv => by cases hv), rfl, fun name hname => absurd hname (AList.notMem_empty name), fun _ => rfl,
    fun t name _ => iff_of_false (AList.notMem_empty name) (AList.notMem_empty t)⟩

end Operations

/-- Closing the database and opening it again, at whatever time, succeeds and changes nothing of the data. -/
theorem reopen_invisible {r₀ : TenantRegistry R} {now₀ : Nat} (hopen : TenantRegistry.open .fresh now₀ = some r₀)
    (hrun : Runs.Run TenantRegistry.next (fun _ e => e.Clean) r₀ r) (now : Nat) :
    ∃ r', TenantRegistry.open r.db now = some r' ∧ r.SameData r' := by
  have hagrees : r.Agrees := hrun.invariant (fun ha he hn => ha.next he hn) (agrees_of_fresh hopen)
  obtain ⟨r', hr'⟩ := opens_of_agrees hagrees now
  exact ⟨r', hr', sameData_of_open hagrees hr'⟩

/-- A tenant is provisioned twice, gets a task and a new policy, and another one is dropped that does not exist. -/
def eventfulDay : List (DataEvent Rat) :=
  [.operation (.provisionTenant "t" (.standard "t")), .operation (.provisionTenant "t" (.standard "t")),
    .operation (.call "t" { now := 0, ids := ["x"] } (.enqueueBatch "q" [[1]] (.standard "t"))),
    .operation (.updateNamespacePolicy "t" { NamespacePolicy.standard "t" with weight := 9 }),
    .operation (.dropTenant "u")]

theorem reopen_invisible_eventfulDay : ∃ r r' : TenantRegistry Rat,
    Runs.exec TenantRegistry.next (emptyRegistry Rat) eventfulDay = some r ∧ r.listTenants = ["t"] ∧
    TenantRegistry.open r.db 7 = some r' ∧ r.SameData r' := by
  have hsome : (Runs.exec TenantRegistry.next (emptyRegistry Rat) eventfulDay).map TenantRegistry.listTenants =
      some ["t"] := by rfl
  obtain ⟨r, hr, htenants⟩ := Option.map_eq_some_iff.mp hsome
  have hclean : ∀ e ∈ eventfulDay, e.Clean := by
    simp only [eventfulDay, List.forall_mem_cons]
    exact ⟨trivial, trivial, trivial, trivial, trivial, List.forall_mem_nil _⟩
  have hrun := Runs.run_of_exec_forall (P := DataEvent.Clean) hr hclean
  have hopen : TenantRegistry.open .fresh 0 = some (emptyRegistry Rat) := rfl
  obtain ⟨r', hr', hsame⟩ := reopen_invisible hopen hrun 7
  exact ⟨r, r', hr, htenants, hr', hsame⟩

end RocksQueue
