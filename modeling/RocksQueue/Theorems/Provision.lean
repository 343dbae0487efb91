import RocksQueue.Lib.Runs
import RocksQueue.Registry
import RocksQueue.StatsStore

/-! # Calls that stop halfway

`provision_tenant` and `drop_tenant` take four durable steps, and a restart rebuilds the list of families
from the persisted policies alone. A call that stops after some of its steps can be repeated, after a
restart or right away, in few cases only. -/

namespace RocksQueue
open TenantRegistry

variable {R : Type}

/-! ## Families and policies -/

/-- The tenant's policy is persisted. -/
def HasMeta (db : Database R) (tenant : String) : Prop :=
  ∃ cf, db.system = some cf ∧ (cf.get? (metaKey tenant)).isSome

/-- Every family on disk belongs to a tenant with a persisted policy. -/
def NoOrphans (db : Database R) : Prop := ∀ name ∈ db.cfs, ∃ tenant, HasMeta db tenant ∧ name ∈ cfNames tenant

/-- Each policy record is a policy under the key of a tenant. -/
def MetaOk (db : Database R) : Prop :=
  ∀ cf key v, db.system = some cf → cf.get? key = some v → tenantMetaPrefix <+: key →
    ∃ tenant p, key = metaKey tenant ∧ v = .policy p

section Names
variable {tenant tenant' name : String}

theorem append_suffix_inj {s t u v : String} (hlast : u.toList.getLast? ≠ v.toList.getLast?) (hu : u ≠ "") (hv : v ≠ "") :
    s ++ u ≠ t ++ v := by
  intro h
  have hlists : s.toList ++ u.toList = t.toList ++ v.toList := by
    rw [← String.toList_append, h, String.toList_append]
  have hne : ∀ {w : String}, w ≠ "" → w.toList ≠ [] := fun hw hnil => hw (String.toList_eq_nil_iff.mp hnil)
  have hends := congrArg List.getLast? hlists
  rw [List.getLast?_append_of_ne_nil _ (hne hu), List.getLast?_append_of_ne_nil _ (hne hv)] at hends
  exact hlast hends

theorem append_right_inj {s t u : String} (h : s ++ u = t ++ u) : s = t := by
  have hlists : s.toList ++ u.toList = t.toList ++ u.toList := by
    rw [← String.toList_append, h, String.toList_append]
  exact String.toList_inj.mp (List.append_cancel_right hlists)

/-- A family belongs to one tenant. -/
theorem cfNames_unique (h : name ∈ cfNames tenant) (h' : name ∈ cfNames tenant') : tenant = tenant' := by
  simp only [cfNames, List.mem_cons, List.not_mem_nil, or_false] at h h'
  rcases h with rfl | rfl | rfl <;> rcases h' with h' | h' | h' <;>
    first
    | exact append_right_inj h'
    | exact absurd h' (append_suffix_inj (by decide) (by decide) (by decide))

theorem cfNames_nodup (tenant : String) : (cfNames tenant).Nodup := by
  have h₁ : cfPending tenant ≠ cfInflight tenant := append_suffix_inj (by decide) (by decide) (by decide)
  have h₂ : cfPending tenant ≠ cfDlq tenant := append_suffix_inj (by decide) (by decide) (by decide)
  have h₃ : cfInflight tenant ≠ cfDlq tenant := append_suffix_inj (by decide) (by decide) (by decide)
  simp [cfNames, h₁, h₂, h₃]

end Names

/-! ## The steps -/

section Steps
variable {db db' : Database R} {names : List String} {a b : List (DbStep R)} {name : String}

theorem carryOut_append (h : db.carryOut a = (db', true)) : db.carryOut (a ++ b) = db'.carryOut b := by
  induction a generalizing db with
  | nil =>
    cases h
    rfl
  | cons s a ih =>
    simp only [Database.carryOut, List.cons_append] at h ⊢
    split at h
    · cases h
    · exact ih h

/-- Families are created when none of them exists. -/
theorem carryOut_create (hnodup : names.Nodup) (habsent : ∀ n ∈ names, n ∉ db.cfs) :
    ∃ db', db.carryOut (names.map .createCf) = (db', true) ∧ db'.system = db.system ∧
      ∀ n, n ∈ db'.cfs ↔ n ∈ names ∨ n ∈ db.cfs := by
  induction names generalizing db with
  | nil => exact ⟨db, rfl, rfl, by simp⟩
  | cons name names ih =>
    obtain ⟨hnot, hnodup⟩ := List.nodup_cons.mp hnodup
    obtain ⟨hname, hrest⟩ := List.forall_mem_cons.mp habsent
    have hrest' : ∀ n ∈ names, n ∉ ({ db with cfs := db.cfs.insert name .empty } : Database R).cfs := fun n hn hmem => by
      rcases (AList.mem_insert _).mp hmem with rfl | hmem
      · exact hnot hn
      · exact hrest n hn hmem
    obtain ⟨db', hrun, hsystem, hcfs⟩ := ih hnodup hrest'
    refine ⟨db', ?_, hsystem, fun n => ?_⟩
    · simp only [List.map_cons, Database.carryOut, Database.apply, hname, if_false]
      exact hrun
    · rw [hcfs, AList.mem_insert, List.mem_cons, ← or_assoc]
      simp only [or_comm]

/-- Families are dropped when all of them exist. -/
theorem carryOut_drop (hnodup : names.Nodup) (hpresent : ∀ n ∈ names, n ∈ db.cfs) :
    ∃ db', db.carryOut (names.map .dropCf) = (db', true) ∧ db'.system = db.system ∧
      ∀ n, n ∈ db'.cfs ↔ n ∉ names ∧ n ∈ db.cfs := by
  induction names generalizing db with
  | nil => exact ⟨db, rfl, rfl, by simp⟩
  | cons name names ih =>
    obtain ⟨hnot, hnodup⟩ := List.nodup_cons.mp hnodup
    obtain ⟨hname, hrest⟩ := List.forall_mem_cons.mp hpresent
    have hrest' : ∀ n ∈ names, n ∈ ({ db with cfs := db.cfs.erase name } : Database R).cfs := fun n hn =>
      AList.mem_erase.mpr ⟨fun heq => hnot (heq ▸ hn), hrest n hn⟩
    obtain ⟨db', hrun, hsystem, hcfs⟩ := ih hnodup hrest'
    refine ⟨db', ?_, hsystem, fun n => ?_⟩
    · simp only [List.map_cons, Database.carryOut, Database.apply, hname, if_true]
      exact hrun
    · rw [hcfs, AList.mem_erase, List.mem_cons, not_or]
      exact and_left_comm.trans and_assoc.symm

/-- A call whose first family exists does not get past creating it. -/
theorem carryOut_create_fails (hmem : name ∈ db.cfs) : db.carryOut (.createCf name :: b) = (db, false) := by
  simp [Database.carryOut, Database.apply, hmem]

theorem carryOut_drop_fails (hmem : name ∉ db.cfs) : db.carryOut (.dropCf name :: b) = (db, false) := by
  simp [Database.carryOut, Database.apply, hmem]

/-- A call that gets past creating the families found none of them. -/
theorem absent_of_create (h : (db.carryOut (names.map .createCf ++ b)).2 = true) : ∀ n ∈ names, n ∉ db.cfs := by
  induction names generalizing db with
  | nil => simp
  | cons name names ih =>
    simp only [List.map_cons, List.cons_append, Database.carryOut, Database.apply] at h
    split at h
    · cases h
    · rename_i d hd
      split at hd
      · cases hd
      · rename_i hname
        cases hd
        refine List.forall_mem_cons.mpr ⟨hname, fun n hn hmem => ih h n hn ?_⟩
        exact (AList.mem_insert _).mpr (Or.inr hmem)

theorem present_of_drop (h : (db.carryOut (names.map .dropCf ++ b)).2 = true) : ∀ n ∈ names, n ∈ db.cfs := by
  induction names generalizing db with
  | nil => simp
  | cons name names ih =>
    simp only [List.map_cons, List.cons_append, Database.carryOut, Database.apply] at h
    split at h
    · cases h
    · rename_i d hd
      split at hd
      · rename_i hname
        cases hd
        exact List.forall_mem_cons.mpr ⟨hname, fun n hn => (AList.mem_erase.mp (ih h n hn)).2⟩
      · cases hd

/-- What one step does to the families other than those it names, and to the policies. -/
theorem carryOut_invariant {I : Database R → Prop} {l : List (DbStep R)}
    (hstep : ∀ s ∈ l, ∀ db db', I db → db.apply s = some db' → I db') (h : I db) : I (db.carryOut l).1 := by
  induction l generalizing db with
  | nil => exact h
  | cons s l ih =>
    obtain ⟨hs, hl⟩ := List.forall_mem_cons.mp hstep
    simp only [Database.carryOut]
    split
    · exact h
    · rename_i d hd
      exact ih hl (hs db d h hd)

end Steps

/-! ## Opening -/

section Opening
variable {db : Database R} {tenant : String} {now : Nat}

theorem loadTenants_of_policies {items : List (Bytes × SystemRecord R)}
    (h : ∀ e ∈ items, ∃ tenant p, e.1 = metaKey tenant ∧ e.2 = .policy p) :
    ∃ tenants, loadTenants items = some tenants ∧
      ∀ tenant, tenant ∈ tenants.map Prod.fst ↔ metaKey tenant ∈ items.map Prod.fst := by
  induction items with
  | nil => exact ⟨[], rfl, by simp⟩
  | cons e items ih =>
    obtain ⟨⟨tenant, p, hkey, hvalue⟩, hrest⟩ := List.forall_mem_cons.mp h
    obtain ⟨tenants, hload, hmem⟩ := ih hrest
    obtain ⟨key, v⟩ := e
    obtain rfl : key = metaKey tenant := hkey
    obtain rfl : v = .policy p := hvalue
    refine ⟨(tenant, p) :: tenants, ?_, fun tenant' => ?_⟩
    · simp [loadTenants, hload]
    · simp only [List.map_cons, List.mem_cons, metaKey_inj, hmem]

/-- Reading the policies back finds the tenants that have one. -/
theorem loadPersistedTenants_of_metaOk (h : MetaOk db) : ∃ tenants, loadPersistedTenants db = some tenants ∧
    ∀ tenant, tenant ∈ tenants.map Prod.fst ↔ HasMeta db tenant := by
  unfold loadPersistedTenants
  cases hsystem : db.system with
  | none => exact ⟨[], rfl, by simp [HasMeta, hsystem]⟩
  | some cf =>
    have hitems : ∀ e ∈ seekPrefix cf tenantMetaPrefix, ∃ tenant p, e.1 = metaKey tenant ∧ e.2 = .policy p :=
      fun e he => by
        obtain ⟨hget, hprefix⟩ := mem_seekPrefix.mp he
        exact h cf e.1 e.2 hsystem hget hprefix
    obtain ⟨tenants, hload, hmem⟩ := loadTenants_of_policies hitems
    refine ⟨tenants, hload, fun tenant => (hmem tenant).trans ?_⟩
    rw [List.mem_map]
    constructor
    · rintro ⟨e, he, heq⟩
      exact ⟨cf, hsystem, Option.isSome_iff_exists.mpr ⟨e.2, heq ▸ (mem_seekPrefix.mp he).1⟩⟩
    · rintro ⟨cf', hcf', hsome⟩
      obtain rfl : cf = cf' := Option.some.inj (hsystem.symm.trans hcf')
      obtain ⟨v, hv⟩ := Option.isSome_iff_exists.mp hsome
      exact ⟨(metaKey tenant, v), mem_seekPrefix.mpr ⟨hv, tenantMetaPrefix_metaKey tenant⟩, rfl⟩

theorem mem_createMissing {names : List String} {name : String} :
    name ∈ (db.createMissing names).cfs ↔ name ∈ names ∨ name ∈ db.cfs := by
  simp only [Database.createMissing]
  generalize db.cfs = cfs
  induction names generalizing cfs with
  | nil => simp
  | cons n names ih =>
    rw [List.foldl_cons, ih, List.mem_cons]
    split
    · rename_i hmem
      constructor
      · rintro (h | h)
        · exact Or.inl (Or.inr h)
        · exact Or.inr h
      · rintro ((rfl | h) | h)
        · exact Or.inr hmem
        · exact Or.inl h
        · exact Or.inr h
    · rw [AList.mem_insert]
      constructor
      · rintro (h | rfl | h)
        · exact Or.inl (Or.inr h)
        · exact Or.inl (Or.inl rfl)
        · exact Or.inr h
      · rintro ((rfl | h) | h)
        · exact Or.inr (Or.inl rfl)
        · exact Or.inl h
        · exact Or.inr (Or.inr h)

theorem mem_tenantNames {tenants : List (String × NamespacePolicy)} {name : String}
    (hmem : ∀ tenant, tenant ∈ tenants.map Prod.fst ↔ HasMeta db tenant) :
    name ∈ tenants.flatMap (fun t => cfNames t.1) ↔ ∃ tenant, HasMeta db tenant ∧ name ∈ cfNames tenant := by
  rw [List.mem_flatMap]
  constructor
  · rintro ⟨t, ht, hname⟩
    exact ⟨t.1, (hmem t.1).mp (List.mem_map_of_mem ht), hname⟩
  · rintro ⟨tenant, hmeta, hname⟩
    obtain ⟨t, ht, rfl⟩ := List.mem_map.mp ((hmem tenant).mpr hmeta)
    exact ⟨t, ht, hname⟩

/-- The database opens when no family is an orphan. -/
theorem open_iff (h : MetaOk db) : (∃ r, TenantRegistry.open db now = some r) ↔ NoOrphans db := by
  obtain ⟨tenants, hload, hmem⟩ := loadPersistedTenants_of_metaOk h
  have hall : (∀ name ∈ db.cfs.keys, name ∈ tenants.flatMap fun t => cfNames t.1) ↔ NoOrphans db :=
    forall₂_congr fun _ _ => mem_tenantNames hmem
  simp only [TenantRegistry.open, hload, Database.openCfDescriptors]
  split
  · rename_i hnone
    split at hnone
    · cases hnone
    · rename_i hnot
      simpa using fun h => hnot (hall.mpr h)
  · rename_i hsome
    split at hsome
    · rename_i hyes
      simpa using hall.mp hyes
    · cases hsome

/-- An open database has `__system__`, and each tenant has its families. -/
theorem open_spec (h : MetaOk db) {r : TenantRegistry R} (hopen : TenantRegistry.open db now = some r) :
    r.db.system = some (db.system.getD .empty) ∧
      ∀ name, name ∈ r.db.cfs ↔ (∃ tenant, HasMeta db tenant ∧ name ∈ cfNames tenant) ∨ name ∈ db.cfs := by
  obtain ⟨tenants, hload, hmem⟩ := loadPersistedTenants_of_metaOk h
  simp only [TenantRegistry.open, hload, Database.openCfDescriptors] at hopen
  split at hopen
  · cases hopen
  · rename_i db' hdb'
    cases hopen
    split at hdb'
    · cases hdb'
      refine ⟨rfl, fun name => ?_⟩
      rw [mem_createMissing, mem_tenantNames hmem]
    · cases hdb'

end Opening

/-! ## Databases in use -/

/-- What happens to a database: the process opens it and stops, and in between tenants are provisioned and
    dropped, with all their steps or with the first few, and records are written. -/
inductive DbEvent (R : Type) where
  | open (now : Nat)
  | close
  | provision (tenant : String) (policy : NamespacePolicy) (steps : Option Nat)
  | drop (tenant : String) (steps : Option Nat)
  | setPolicy (tenant : String) (policy : NamespacePolicy)
  | write (tenant : String) (batch : WriteBatch)
  | store (w : StoreWrite R)

inductive Node (R : Type) where
  | down (db : Database R)
  | up (r : TenantRegistry R)

/-- A call that stops after some of its steps leaves what they wrote, and the process goes on. -/
def Node.next : Node R → DbEvent R → Option (Node R)
  | .down db, .open now => (TenantRegistry.open db now).map .up
  | .up r, .close => some (.down r.db)
  | .up r, .provision tenant policy none => some (.up (r.provisionTenant tenant policy).1)
  | .up r, .provision tenant policy (some n) =>
    some (.up { r with db := (r.db.carryOut ((provisionSteps tenant policy).take n)).1 })
  | .up r, .drop tenant none => some (.up (r.dropTenant tenant).1)
  | .up r, .drop tenant (some n) => some (.up { r with db := (r.db.carryOut ((dropSteps tenant).take n)).1 })
  | .up r, .setPolicy tenant policy => some (.up (r.updateNamespacePolicy tenant policy).1)
  | .up r, .write tenant batch =>
    match r.db.tenantDb? tenant with
    | none => none
    | some t => some (.up { r with db := r.db.setTenantDb tenant (t.write batch) })
  | .up r, .store w => some (.up { r with db := r.db.store w })
  | _, _ => none

/-- The policy records are as the registry writes them, and an open database has its `__system__`. -/
def Node.Ok : Node R → Prop
  | .down db => MetaOk db
  | .up r => MetaOk r.db ∧ r.db.system.isSome

section Nodes
variable {db db' : Database R} {r : TenantRegistry R} {tenant : String} {policy : NamespacePolicy}

theorem MetaOk.put (h : MetaOk db) {key : Bytes} {v : SystemRecord R}
    (hkey : tenantMetaPrefix <+: key → ∃ tenant p, key = metaKey tenant ∧ v = .policy p) : MetaOk (db.putSystem key v) := by
  intro cf k w hcf hget hprefix
  obtain ⟨cf₀, hcf₀, rfl⟩ := Option.map_eq_some_iff.mp hcf
  rw [OrderedMap.get?_insert] at hget
  split at hget
  · rename_i heq
    cases hget
    exact heq ▸ hkey (heq ▸ hprefix)
  · exact h cf₀ k w hcf₀ hget hprefix

theorem MetaOk.delete (h : MetaOk db) (key : Bytes) : MetaOk (db.deleteSystem key) := by
  intro cf k w hcf hget hprefix
  obtain ⟨cf₀, hcf₀, rfl⟩ := Option.map_eq_some_iff.mp hcf
  rw [OrderedMap.get?_erase] at hget
  split at hget
  · cases hget
  · exact h cf₀ k w hcf₀ hget hprefix

theorem MetaOk.store (h : MetaOk db) (w : StoreWrite R) : MetaOk (db.store w) := by
  cases w with
  | flushStats s => exact h.put fun hp => absurd hp not_tenantMetaPrefix.1
  | persistThrottle t => exact h.put fun hp => absurd hp not_tenantMetaPrefix.2.1
  | clearThrottle tenant => exact h.delete _
  | flushBaseline b => exact h.put fun hp => absurd hp not_tenantMetaPrefix.2.2
  | clearBaseline tenant => exact h.delete _

/-- A step writes a policy record only as the registry does. -/
def WellFormed : DbStep R → Prop
  | .putSystem key record => ∃ tenant p, key = metaKey tenant ∧ record = .policy p
  | _ => True

theorem wellFormed_provision : ∀ s ∈ (provisionSteps tenant policy : List (DbStep R)), WellFormed s := by
  simp only [provisionSteps, List.forall_mem_cons]
  exact ⟨trivial, trivial, trivial, ⟨tenant, policy, rfl, rfl⟩, List.forall_mem_nil _⟩

theorem wellFormed_drop : ∀ s ∈ (dropSteps tenant : List (DbStep R)), WellFormed s := by
  simp only [dropSteps, List.forall_mem_cons]
  exact ⟨trivial, trivial, trivial, trivial, List.forall_mem_nil _⟩

theorem ok_apply {s : DbStep R} (hs : WellFormed s) (h : MetaOk db ∧ db.system.isSome) (hstep : db.apply s = some db') :
    MetaOk db' ∧ db'.system.isSome := by
  cases s with
  | createCf name =>
    simp only [Database.apply] at hstep
    split at hstep
    · cases hstep
    · cases hstep
      exact h
  | dropCf name =>
    simp only [Database.apply] at hstep
    split at hstep
    · cases hstep
      exact h
    · cases hstep
  | putSystem key record =>
    simp only [Database.apply, h.2, if_true] at hstep
    cases hstep
    exact ⟨h.1.put fun _ => hs, by simpa [Database.putSystem] using h.2⟩
  | deleteSystem key =>
    simp only [Database.apply, h.2, if_true] at hstep
    cases hstep
    exact ⟨h.1.delete _, by simpa [Database.deleteSystem] using h.2⟩

/-- Well-formed steps keep the policy records as they should be. -/
theorem ok_carryOut {l : List (DbStep R)} (hl : ∀ s ∈ l, WellFormed s) (h : MetaOk db ∧ db.system.isSome) :
    MetaOk (db.carryOut l).1 ∧ (db.carryOut l).1.system.isSome :=
  carryOut_invariant (I := fun d => MetaOk d ∧ d.system.isSome) (fun s hs _ _ hd hstep => ok_apply (hl s hs) hd hstep) h

theorem ok_stopped {l : List (DbStep R)} {n : Nat} (hl : ∀ s ∈ l, WellFormed s) (h : MetaOk db ∧ db.system.isSome)
    (hrun : db.carryOut (l.take n) = (db', true)) : MetaOk db' ∧ db'.system.isSome := by
  have hok := ok_carryOut (fun s hs => hl s (List.mem_of_mem_take hs)) h (l := l.take n)
  rwa [hrun] at hok

theorem ok_setPolicy (h : MetaOk r.db ∧ r.db.system.isSome) :
    MetaOk (r.updateNamespacePolicy tenant policy).1.db ∧ (r.updateNamespacePolicy tenant policy).1.db.system.isSome := by
  simp only [updateNamespacePolicy, Database.apply, h.2, if_true]
  split
  · exact ⟨h.1.put fun _ => ⟨tenant, policy, rfl, rfl⟩, by simpa [Database.putSystem] using h.2⟩
  · exact h

theorem ok_open {now : Nat} (h : MetaOk db) (hopen : TenantRegistry.open db now = some r) : MetaOk r.db ∧ r.db.system.isSome := by
  have hsystem := (open_spec h hopen).1
  refine ⟨fun cf key v hcf hget hprefix => ?_, by simp [hsystem]⟩
  rw [hsystem] at hcf
  cases hcf
  cases hdb : db.system with
  | none =>
    rw [hdb] at hget
    cases hget
  | some cf =>
    rw [hdb] at hget
    exact h cf key v hdb hget hprefix

theorem ok_next {n n' : Node R} {e : DbEvent R} (h : n.Ok) (hn : n.next e = some n') : n'.Ok := by
  cases n with
  | down db =>
    cases e with
    | «open» now =>
      obtain ⟨r, hr, rfl⟩ := Option.map_eq_some_iff.mp hn
      exact ok_open h hr
    | _ => cases hn
  | up r =>
    cases e with
    | «open» now => cases hn
    | close =>
      cases hn
      exact h.1
    | provision tenant policy steps =>
      cases steps with
      | none =>
        cases hn
        rw [Node.Ok, provisionTenant_db]
        exact ok_carryOut wellFormed_provision h
      -- A provision that is stopped after `k` steps has done a part of them.
      | some k =>
        cases hn
        exact ok_carryOut (fun s hs => wellFormed_provision s (List.mem_of_mem_take hs)) h
    | drop tenant steps =>
      cases steps with
      | none =>
        cases hn
        rw [Node.Ok, dropTenant_db]
        exact ok_carryOut wellFormed_drop h
      | some k =>
        cases hn
        exact ok_carryOut (fun s hs => wellFormed_drop s (List.mem_of_mem_take hs)) h
    | setPolicy tenant policy =>
      cases hn
      exact ok_setPolicy h
    -- The records of the queues are not what the state is about.
    | write tenant batch =>
      simp only [Node.next] at hn
      split at hn
      · cases hn
      · cases hn
        exact h
    | store w =>
      cases hn
      exact ⟨h.1.store w, by cases w <;> simpa [Database.store, Database.putSystem, Database.deleteSystem] using h.2⟩

end Nodes

/-! ## Stopping and repeating -/

inductive TenantCall where
  | provision (tenant : String) (policy : NamespacePolicy)
  | drop (tenant : String)

def TenantCall.steps : TenantCall → List (DbStep R)
  | .provision tenant policy => provisionSteps tenant policy
  | .drop tenant => dropSteps tenant

def TenantCall.run (call : TenantCall) (r : TenantRegistry R) : TenantRegistry R × Bool :=
  match call with
  | .provision tenant policy => r.provisionTenant tenant policy
  | .drop tenant => r.dropTenant tenant

/-- The process crashes, or the next step returns an error and the process goes on. -/
inductive Stop where
  | crash
  | error
  deriving DecidableEq

/-- After the call stopped and left `db'`, the database opens, and the call succeeds when it is repeated:
    after the restart, or in the process that goes on. -/
def Recovers (stop : Stop) (call : TenantCall) (r : TenantRegistry R) (db' : Database R) : Prop :=
  match stop with
  | .crash => ∀ now, ∃ r', TenantRegistry.open db' now = some r' ∧ (call.run r').2 = true
  | .error => (∀ now, ∃ r', TenantRegistry.open db' now = some r') ∧ (call.run { r with db := db' }).2 = true

/-- Stopping after `n` steps does no harm: a provisioning has not begun, and a drop has not begun or is
    resumed by the restart. -/
def Resumable (stop : Stop) (call : TenantCall) (db : Database R) (n : Nat) : Prop :=
  match stop, call with
  | .crash, .provision tenant _ => n = 0 ∧ NoOrphans db ∧ ¬HasMeta db tenant
  | .error, .provision tenant _ => n = 0 ∧ NoOrphans db ∧ ∀ name ∈ cfNames tenant, name ∉ db.cfs
  | .crash, .drop tenant => n ≤ 3 ∧ NoOrphans db ∧ HasMeta db tenant
  | .error, .drop tenant => n = 0 ∧ NoOrphans db ∧ ∀ name ∈ cfNames tenant, name ∈ db.cfs

section Recovery
variable {db db' : Database R} {r : TenantRegistry R} {tenant : String} {policy : NamespacePolicy} {n : Nat}

theorem provision_succeeds (hsystem : db.system.isSome) :
    (db.carryOut (provisionSteps tenant policy)).2 = true ↔ ∀ name ∈ cfNames tenant, name ∉ db.cfs := by
  have hsteps : (provisionSteps tenant policy : List (DbStep R)) =
      (cfNames tenant).map .createCf ++ [.putSystem (metaKey tenant) (.policy policy)] := rfl
  rw [hsteps]
  constructor
  · exact absent_of_create
  · intro h
    obtain ⟨db', hrun, hsystem', -⟩ := carryOut_create (cfNames_nodup tenant) h
    rw [carryOut_append hrun]
    simp [Database.carryOut, Database.apply, hsystem', hsystem]

theorem drop_succeeds (hsystem : db.system.isSome) :
    (db.carryOut (dropSteps tenant)).2 = true ↔ ∀ name ∈ cfNames tenant, name ∈ db.cfs := by
  have hsteps : (dropSteps tenant : List (DbStep R)) =
      (cfNames tenant).map .dropCf ++ [.deleteSystem (metaKey tenant)] := rfl
  rw [hsteps]
  constructor
  · exact present_of_drop
  · intro h
    obtain ⟨db', hrun, hsystem', -⟩ := carryOut_drop (cfNames_nodup tenant) h
    rw [carryOut_append hrun]
    simp [Database.carryOut, Database.apply, hsystem', hsystem]

/-- After a restart, a tenant can be provisioned if nothing of it is on disk. -/
theorem provision_after_open {now : Nat} (h : MetaOk db) (hopen : TenantRegistry.open db now = some r) :
    (r.provisionTenant tenant policy).2 = true ↔ ¬HasMeta db tenant ∧ ∀ name ∈ cfNames tenant, name ∉ db.cfs := by
  obtain ⟨hsystem, hcfs⟩ := open_spec h hopen
  rw [provisionTenant_ok, provision_succeeds (by simp [hsystem])]
  constructor
  · intro hall
    refine ⟨fun hmeta => ?_, fun name hname hmem => hall name hname ((hcfs name).mpr (Or.inr hmem))⟩
    have hpending : cfPending tenant ∈ cfNames tenant := by simp [cfNames]
    exact hall _ hpending ((hcfs _).mpr (Or.inl ⟨tenant, hmeta, hpending⟩))
  · rintro ⟨hmeta, habsent⟩ name hname hmem
    rcases (hcfs name).mp hmem with ⟨tenant', hmeta', hname'⟩ | hmem
    · exact hmeta (cfNames_unique hname' hname ▸ hmeta')
    · exact habsent name hname hmem

/-- After a restart, a tenant can be dropped if its policy or all its families are on disk. -/
theorem drop_after_open {now : Nat} (h : MetaOk db) (hopen : TenantRegistry.open db now = some r) :
    (r.dropTenant tenant).2 = true ↔ HasMeta db tenant ∨ ∀ name ∈ cfNames tenant, name ∈ db.cfs := by
  obtain ⟨hsystem, hcfs⟩ := open_spec h hopen
  rw [dropTenant_ok, drop_succeeds (by simp [hsystem])]
  constructor
  · intro hall
    by_cases hmeta : HasMeta db tenant
    · exact Or.inl hmeta
    · refine Or.inr fun name hname => ?_
      rcases (hcfs name).mp (hall name hname) with ⟨tenant', hmeta', hname'⟩ | hmem
      · exact absurd (cfNames_unique hname' hname ▸ hmeta') hmeta
      · exact hmem
  · rintro (hmeta | hpresent) name hname
    · exact (hcfs name).mpr (Or.inl ⟨tenant, hmeta, hname⟩)
    · exact (hcfs name).mpr (Or.inr (hpresent name hname))

/-- A provisioning that has begun leaves a family behind. -/
theorem pending_of_provision (h : db.carryOut ((provisionSteps tenant policy).take (n + 1)) = (db', true)) :
    cfPending tenant ∈ db'.cfs := by
  simp only [provisionSteps, List.take_succ_cons, Database.carryOut] at h
  split at h
  · cases h
  · rename_i d hd
    have hpending : cfPending tenant ∈ d.cfs := by
      simp only [Database.apply] at hd
      split at hd
      · cases hd
      · cases hd
        exact (AList.mem_insert _).mpr (Or.inl rfl)
    have hkeep := carryOut_invariant (I := fun d => cfPending tenant ∈ d.cfs)
      (l := [.createCf (cfInflight tenant), .createCf (cfDlq tenant), .putSystem (metaKey tenant) (.policy policy)].take n)
      (fun s hs d d' hmem hstep => ?_) hpending
    · rwa [h] at hkeep
    · have hs := List.mem_of_mem_take hs
      simp only [List.mem_cons, List.not_mem_nil, or_false] at hs
      rcases hs with rfl | rfl | rfl <;> simp only [Database.apply] at hstep <;> split at hstep <;> cases hstep
      · exact (AList.mem_insert _).mpr (Or.inr hmem)
      · exact (AList.mem_insert _).mpr (Or.inr hmem)
      · exact hmem

/-- A drop that has begun has removed a family. -/
theorem pending_of_drop (h : db.carryOut ((dropSteps tenant).take (n + 1)) = (db', true)) : cfPending tenant ∉ db'.cfs := by
  simp only [dropSteps, List.take_succ_cons, Database.carryOut] at h
  split at h
  · cases h
  · rename_i d hd
    have hpending : cfPending tenant ∉ d.cfs := by
      simp only [Database.apply] at hd
      split at hd
      · cases hd
        exact fun hmem => (AList.mem_erase.mp hmem).1 rfl
      · cases hd
    have hkeep := carryOut_invariant (I := fun d => cfPending tenant ∉ d.cfs)
      (l := [.dropCf (cfInflight tenant), .dropCf (cfDlq tenant), .deleteSystem (metaKey tenant)].take n)
      (fun s hs d d' hmem hstep => ?_) hpending
    · rwa [h] at hkeep
    · have hs := List.mem_of_mem_take hs
      simp only [List.mem_cons, List.not_mem_nil, or_false] at hs
      rcases hs with rfl | rfl | rfl <;> simp only [Database.apply] at hstep <;> split at hstep <;> cases hstep
      · exact fun hm => hmem (AList.mem_erase.mp hm).2
      · exact fun hm => hmem (AList.mem_erase.mp hm).2
      · exact hmem

/-- A drop that stopped before its last step removed families only. -/
theorem stopped_drop (hn : n ≤ 3) (h : db.carryOut ((dropSteps tenant).take n) = (db', true)) :
    db'.system = db.system ∧ ∀ name, name ∉ cfNames tenant → (name ∈ db'.cfs ↔ name ∈ db.cfs) := by
  have hsteps : (dropSteps tenant : List (DbStep R)).take n = ((cfNames tenant).take n).map .dropCf := by
    obtain rfl | rfl | rfl | rfl : n = 0 ∨ n = 1 ∨ n = 2 ∨ n = 3 := by omega
    all_goals rfl
  rw [hsteps] at h
  have hpresent : ∀ name ∈ (cfNames tenant).take n, name ∈ db.cfs :=
    present_of_drop (b := []) (by rw [List.append_nil, h])
  obtain ⟨d, hrun, hsystem, hcfs⟩ := carryOut_drop ((cfNames_nodup tenant).sublist (List.take_sublist _ _)) hpresent
  rw [hrun] at h
  cases h
  refine ⟨hsystem, fun name hname => (hcfs name).trans ⟨And.right, fun hmem => ⟨fun hin => ?_, hmem⟩⟩⟩
  exact hname (List.mem_of_mem_take hin)

/-- The last step of a drop deletes the policy. -/
theorem finished_drop (hn : 3 < n) (h : db.carryOut ((dropSteps tenant).take n) = (db', true)) : ¬HasMeta db' tenant := by
  have hsteps : (dropSteps tenant : List (DbStep R)).take n =
      (cfNames tenant).map .dropCf ++ [.deleteSystem (metaKey tenant)] := by
    rw [List.take_of_length_le (show (dropSteps tenant : List (DbStep R)).length ≤ n from hn)]
    rfl
  rw [hsteps] at h
  obtain ⟨d, hrun, -, -⟩ := carryOut_drop (cfNames_nodup tenant) (present_of_drop (by rw [h]))
  rw [carryOut_append hrun] at h
  simp only [Database.carryOut, Database.apply] at h
  split at h
  · cases h
  · rename_i d' hd'
    split at hd'
    · cases h
      cases hd'
      rintro ⟨cf, hcf, hsome⟩
      obtain ⟨cf₀, -, rfl⟩ := Option.map_eq_some_iff.mp hcf
      simp [OrderedMap.get?_erase] at hsome
    · cases hd'

theorem hasMeta_congr (h : db'.system = db.system) : HasMeta db' tenant ↔ HasMeta db tenant := by
  simp only [HasMeta, h]

/-- Families of a tenant with a policy are no orphans, whether they are there or not. -/
theorem noOrphans_stopped_drop (hsystem : db'.system = db.system) (hmeta : HasMeta db tenant)
    (hcfs : ∀ name, name ∉ cfNames tenant → (name ∈ db'.cfs ↔ name ∈ db.cfs)) : NoOrphans db' ↔ NoOrphans db := by
  have haux : ∀ {d d' : Database R}, d'.system = d.system → HasMeta d tenant →
      (∀ name, name ∉ cfNames tenant → (name ∈ d.cfs → name ∈ d'.cfs)) → NoOrphans d' → NoOrphans d := by
    intro d d' hsys hm hsub hno name hname
    by_cases hin : name ∈ cfNames tenant
    · exact ⟨tenant, hm, hin⟩
    · obtain ⟨tenant', hmeta', hname'⟩ := hno name (hsub name hin hname)
      exact ⟨tenant', (hasMeta_congr hsys).mp hmeta', hname'⟩
  exact ⟨haux hsystem hmeta fun name hin => (hcfs name hin).mpr,
    haux hsystem.symm ((hasMeta_congr hsystem).mpr hmeta) fun name hin => (hcfs name hin).mp⟩

theorem opens_iff (h : MetaOk db) : (∀ now, ∃ r, TenantRegistry.open db now = some r) ↔ NoOrphans db :=
  ⟨fun hall => (open_iff h).mp (hall 0), fun hno _ => (open_iff h).mpr hno⟩

theorem provision_recovers_crash (hok : MetaOk r.db ∧ r.db.system.isSome)
    (hrun : r.db.carryOut ((provisionSteps tenant policy).take n) = (db', true)) :
    Recovers .crash (.provision tenant policy) r db' ↔ Resumable .crash (.provision tenant policy) r.db n := by
  cases n with
  | zero =>
    cases hrun
    constructor
    · intro hrec
      obtain ⟨r', hopen, hagain⟩ := hrec 0
      exact ⟨rfl, (open_iff hok.1).mp ⟨r', hopen⟩, ((provision_after_open hok.1 hopen).mp hagain).1⟩
    · rintro ⟨-, hno, hmeta⟩ now
      obtain ⟨r', hopen⟩ : ∃ r', TenantRegistry.open r.db now = some r' := (open_iff hok.1).mpr hno
      refine ⟨r', hopen, (provision_after_open hok.1 hopen).mpr ⟨hmeta, fun name hname hmem => ?_⟩⟩
      obtain ⟨tenant', hmeta', hname'⟩ := hno name hmem
      exact hmeta (cfNames_unique hname' hname ▸ hmeta')
  | succ n =>
    have hok' := ok_stopped wellFormed_provision hok hrun
    refine ⟨fun hrec => ?_, fun h => absurd h.1 n.succ_ne_zero⟩
    obtain ⟨r', hopen, hagain⟩ := hrec 0
    have habsent := ((provision_after_open hok'.1 hopen).mp hagain).2
    exact absurd (pending_of_provision hrun) (habsent _ (by simp [cfNames]))

theorem provision_recovers_error (hok : MetaOk r.db ∧ r.db.system.isSome)
    (hrun : r.db.carryOut ((provisionSteps tenant policy).take n) = (db', true)) :
    Recovers .error (.provision tenant policy) r db' ↔ Resumable .error (.provision tenant policy) r.db n := by
  have hok' := ok_stopped wellFormed_provision hok hrun
  have hagain : (TenantCall.run (.provision tenant policy) { r with db := db' }).2 = true ↔
      ∀ name ∈ cfNames tenant, name ∉ db'.cfs := by
    rw [TenantCall.run, provisionTenant_ok, provision_succeeds hok'.2]
  rw [Recovers, opens_iff hok'.1, hagain]
  cases n with
  | zero =>
    cases hrun
    exact ⟨fun h => ⟨rfl, h⟩, fun h => h.2⟩
  | succ n =>
    exact ⟨fun h => absurd (pending_of_provision hrun) (h.2 _ (by simp [cfNames])), fun h => absurd h.1 n.succ_ne_zero⟩

theorem drop_recovers_crash (hok : MetaOk r.db ∧ r.db.system.isSome)
    (hrun : r.db.carryOut ((dropSteps tenant).take n) = (db', true)) :
    Recovers .crash (.drop tenant) r db' ↔ Resumable .crash (.drop tenant) r.db n := by
  have hok' := ok_stopped wellFormed_drop hok hrun
  constructor
  · intro hrec
    obtain ⟨r', hopen, hagain⟩ := hrec 0
    have hno : NoOrphans db' := (open_iff hok'.1).mp ⟨r', hopen⟩
    -- without the policy the families would have to be there, and as orphans they keep the database closed
    have hmeta : HasMeta db' tenant := by
      rcases (drop_after_open hok'.1 hopen).mp hagain with hmeta | hpresent
      · exact hmeta
      · have hpending : cfPending tenant ∈ cfNames tenant := by simp [cfNames]
        obtain ⟨tenant', hmeta', hname'⟩ := hno _ (hpresent _ hpending)
        exact cfNames_unique hname' hpending ▸ hmeta'
    have hn : n ≤ 3 := Nat.le_of_not_lt fun hlt => finished_drop hlt hrun hmeta
    obtain ⟨hsystem, hcfs⟩ := stopped_drop hn hrun
    have hmeta' := (hasMeta_congr hsystem).mp hmeta
    exact ⟨hn, (noOrphans_stopped_drop hsystem hmeta' hcfs).mp hno, hmeta'⟩
  · rintro ⟨hn, hno, hmeta⟩ now
    obtain ⟨hsystem, hcfs⟩ := stopped_drop hn hrun
    obtain ⟨r', hopen⟩ : ∃ r', TenantRegistry.open db' now = some r' :=
      (open_iff hok'.1).mpr ((noOrphans_stopped_drop hsystem hmeta hcfs).mpr hno)
    exact ⟨r', hopen, (drop_after_open hok'.1 hopen).mpr (Or.inl ((hasMeta_congr hsystem).mpr hmeta))⟩

theorem drop_recovers_error (hok : MetaOk r.db ∧ r.db.system.isSome)
    (hrun : r.db.carryOut ((dropSteps tenant).take n) = (db', true)) :
    Recovers .error (.drop tenant) r db' ↔ Resumable .error (.drop tenant) r.db n := by
  have hok' := ok_stopped wellFormed_drop hok hrun
  have hagain : (TenantCall.run (.drop tenant) { r with db := db' }).2 = true ↔
      ∀ name ∈ cfNames tenant, name ∈ db'.cfs := by
    rw [TenantCall.run, dropTenant_ok, drop_succeeds hok'.2]
  rw [Recovers, opens_iff hok'.1, hagain]
  cases n with
  | zero =>
    cases hrun
    exact ⟨fun h => ⟨rfl, h⟩, fun h => h.2⟩
  | succ n =>
    exact ⟨fun h => absurd (h.2 _ (by simp [cfNames])) (pending_of_drop hrun), fun h => absurd h.1 n.succ_ne_zero⟩

/-- A call on a reachable database that stopped after `n` steps recovers exactly if those did no harm. -/
theorem recovers_iff {stop : Stop} {call : TenantCall}
    (hreach : Runs.Run Node.next (fun _ _ => True) (.down .fresh) (.up r))
    (hrun : r.db.carryOut (call.steps.take n) = (db', true)) :
    Recovers stop call r db' ↔ Resumable stop call r.db n := by
  have hfresh : Node.Ok (.down .fresh : Node R) := fun cf _ _ hcf => by cases hcf
  have hok : Node.Ok (.up r) := hreach.invariant (fun h _ hn => ok_next h hn) hfresh
  cases call with
  | provision tenant policy =>
    cases stop with
    | crash => exact provision_recovers_crash hok hrun
    | error => exact provision_recovers_error hok hrun
  | drop tenant =>
    cases stop with
    | crash => exact drop_recovers_crash hok hrun
    | error => exact drop_recovers_error hok hrun

/-- A first open, with no tenants. -/
def emptyRegistry (R : Type) : TenantRegistry R := ⟨⟨some .empty, ∅⟩, 0, ∅⟩

theorem run_emptyRegistry : Runs.Run Node.next (fun _ _ => True) (.down .fresh) (.up (emptyRegistry R)) :=
  .step .refl trivial (l := .open 0) rfl

theorem recovers_unstarted : Recovers (R := Nat) .crash (.provision "t" (.standard "t")) (emptyRegistry Nat)
    (emptyRegistry Nat).db :=
  (recovers_iff (n := 0) run_emptyRegistry rfl).mpr
    ⟨rfl, fun _ hname => absurd hname (AList.notMem_empty _), fun ⟨_, hcf, hsome⟩ => by cases hcf; cases hsome⟩

/-- The process crashes after it created the first family: the database does not open any more. -/
theorem not_recovers_provision : ∃ (r : TenantRegistry Nat) (db' : Database Nat),
    Runs.Run Node.next (fun _ _ => True) (.down .fresh) (.up r) ∧
    r.db.carryOut ((provisionSteps "t" (.standard "t")).take 1) = (db', true) ∧ TenantRegistry.open db' 0 = none ∧
    ¬Recovers .crash (.provision "t" (.standard "t")) r db' := by
  refine ⟨emptyRegistry Nat, ⟨some .empty, AList.singleton (cfPending "t") .empty⟩, run_emptyRegistry, rfl, rfl, ?_⟩
  intro hrec
  obtain ⟨r', hopen, -⟩ := hrec 0
  cases hopen

end Recovery

end RocksQueue
