import RocksQueue.Database
import RocksQueue.Tenant

/-! # The tenants of the registry

`tenant.rs`: opening the database, and provisioning, dropping and changing a tenant. The two calls that
change which families there are can stop between their durable steps. -/

namespace RocksQueue

/-- `TenantRegistry`, without its locks and the handles of RocksDB. -/
structure TenantRegistry (R : Type) where
  db : Database R
  seq : Nat
  policies : DashMap NamespacePolicy

variable {R : Type}

/-- The names of a tenant's families, in the order in which they are created and dropped. -/
def cfNames (tenant : String) : List String := [cfPending tenant, cfInflight tenant, cfDlq tenant]

def loadTenants : List (Bytes × SystemRecord R) → Option (List (String × NamespacePolicy))
  | [] => some []
  | (key, .policy p) :: rest => (loadTenants rest).map fun tenants => (tenantOfMetaKey key, p) :: tenants
  | _ :: _ => none

/-- `none` when a record does not deserialize. -/
def loadPersistedTenants (db : Database R) : Option (List (String × NamespacePolicy)) :=
  match db.system with
  | none => some []
  | some cf => loadTenants (seekPrefix cf tenantMetaPrefix)

def provisionSteps (tenant : String) (policy : NamespacePolicy) : List (DbStep R) :=
  [.createCf (cfPending tenant), .createCf (cfInflight tenant), .createCf (cfDlq tenant),
    .putSystem (metaKey tenant) (.policy policy)]

def dropSteps (tenant : String) : List (DbStep R) :=
  [.dropCf (cfPending tenant), .dropCf (cfInflight tenant), .dropCf (cfDlq tenant), .deleteSystem (metaKey tenant)]

namespace TenantRegistry

/-- `none` when it fails. -/
def «open» (db : Database R) (now : Nat) : Option (TenantRegistry R) :=
  match loadPersistedTenants db with
  | none => none
  | some tenants =>
    match db.openCfDescriptors (tenants.flatMap fun t => cfNames t.1) with
    | none => none
    | some db' => some ⟨db', now % u64Size, tenants.foldl (fun m t => m.insert t.1 t.2) ∅⟩

/-- The registry afterwards, and whether the call succeeded. -/
def provisionTenant (r : TenantRegistry R) (tenant : String) (policy : NamespacePolicy) : TenantRegistry R × Bool :=
  match r.db.carryOut (provisionSteps tenant policy) with
  | (db, false) => ({ r with db := db }, false)
  | (db, true) => ({ r with db := db, policies := r.policies.insert tenant policy }, true)

def dropTenant (r : TenantRegistry R) (tenant : String) : TenantRegistry R × Bool :=
  match r.db.carryOut (dropSteps tenant) with
  | (db, false) => ({ r with db := db }, false)
  | (db, true) => ({ r with db := db, policies := r.policies.erase tenant }, true)

def listTenants (r : TenantRegistry R) : List String := r.policies.keys

def getPolicy (r : TenantRegistry R) (tenant : String) : Option NamespacePolicy := r.policies.lookup tenant

def updateNamespacePolicy (r : TenantRegistry R) (tenant : String) (policy : NamespacePolicy) :
    TenantRegistry R × Bool :=
  if tenant ∈ r.policies then
    match r.db.apply (.putSystem (metaKey tenant) (.policy policy)) with
    | none => (r, false)
    | some db => ({ r with db := db, policies := r.policies.insert tenant policy }, true)
  else (r, false)

/-- `compact_tenant`: it looks the three families up first. Whether it found them comes second. -/
def compactTenant (r : TenantRegistry R) (tenant : String) (c : Compaction) : TenantRegistry R × Bool :=
  match r.db.tenantDb? tenant with
  | none => (r, false)
  | some _ => ({ r with db := r.db.compact tenant c }, true)

section Calls
variable {r : TenantRegistry R} {tenant : String} {policy : NamespacePolicy}

theorem provisionTenant_db :
    (r.provisionTenant tenant policy).1.db = (r.db.carryOut (provisionSteps tenant policy)).1 := by
  unfold provisionTenant
  split <;> simp [*]

theorem provisionTenant_ok :
    (r.provisionTenant tenant policy).2 = (r.db.carryOut (provisionSteps tenant policy)).2 := by
  unfold provisionTenant
  split <;> simp [*]

theorem dropTenant_db : (r.dropTenant tenant).1.db = (r.db.carryOut (dropSteps tenant)).1 := by
  unfold dropTenant
  split <;> simp [*]

theorem dropTenant_ok : (r.dropTenant tenant).2 = (r.db.carryOut (dropSteps tenant)).2 := by
  unfold dropTenant
  split <;> simp [*]

end Calls

end TenantRegistry

end RocksQueue
