import RocksQueue.Filters
import RocksQueue.Lib.AssocLists
import RocksQueue.System

/-! # The database

All column families of RocksDB, and the steps that change which of them there are. A step is durable as a
whole, or fails and changes nothing. -/

namespace RocksQueue

def cfPending (tenant : String) : String := tenant ++ "__pending"

def cfInflight (tenant : String) : String := tenant ++ "__inflight"

def cfDlq (tenant : String) : String := tenant ++ "__dlq"

def cfSystem : String := "__system__"

/-- The name of each family of a tenant. -/
def Cf.name (tenant : String) : Cf → String
  | .pending => cfPending tenant
  | .inflight => cfInflight tenant
  | .dlq => cfDlq tenant

/-- The families on disk besides `default`; `system` is `none` before the first open. -/
structure Database (R : Type) where
  system : Option (SystemCf R)
  cfs : DashMap ColumnFamily

/-- What `provision_tenant` and `drop_tenant` ask of RocksDB. -/
inductive DbStep (R : Type) where
  | createCf (name : String)
  | dropCf (name : String)
  | putSystem (key : Bytes) (record : SystemRecord R)
  | deleteSystem (key : Bytes)

namespace Database
variable {R : Type}

/-- A path on which there is no database yet. -/
def fresh : Database R := ⟨none, ∅⟩

def putSystem (db : Database R) (key : Bytes) (record : SystemRecord R) : Database R :=
  { db with system := db.system.map fun cf => cf.insert key record }

def deleteSystem (db : Database R) (key : Bytes) : Database R :=
  { db with system := db.system.map fun cf => cf.erase key }

/-- `none` when RocksDB fails: a family that is created exists already, or one that is dropped or
    written to does not exist. -/
def apply (db : Database R) : DbStep R → Option (Database R)
  | .createCf name => if name ∈ db.cfs then none else some { db with cfs := db.cfs.insert name .empty }
  | .dropCf name => if name ∈ db.cfs then some { db with cfs := db.cfs.erase name } else none
  | .putSystem key record => if db.system.isSome then some (db.putSystem key record) else none
  | .deleteSystem key => if db.system.isSome then some (db.deleteSystem key) else none

/-- Carry out the steps up to the first that fails, and say whether none did. -/
def carryOut (db : Database R) : List (DbStep R) → Database R × Bool
  | [] => (db, true)
  | s :: rest =>
    match db.apply s with
    | none => (db, false)
    | some db' => db'.carryOut rest

/-- Create the families that are missing. -/
def createMissing (db : Database R) (names : List String) : Database R where
  system := some (db.system.getD .empty)
  cfs := names.foldl (fun cfs name => if name ∈ cfs then cfs else cfs.insert name .empty) db.cfs

/-- `open_cf_descriptors` with `create_missing_column_families`, for `__system__` and the given names: it
    fails when a family on disk is not among them. -/
def openCfDescriptors (db : Database R) (names : List String) : Option (Database R) :=
  if ∀ name ∈ db.cfs.keys, name ∈ names then some (db.createMissing names) else none

/-- The three families of a tenant, when all of them exist. -/
def tenantDb? (db : Database R) (tenant : String) : Option TenantDb :=
  match db.cfs.lookup (cfPending tenant), db.cfs.lookup (cfInflight tenant), db.cfs.lookup (cfDlq tenant) with
  | some pending, some inflight, some dlq => some ⟨pending, inflight, dlq⟩
  | _, _, _ => none

/-- Put the three families of a tenant back. -/
def setTenantDb (db : Database R) (tenant : String) (t : TenantDb) : Database R :=
  let cfs := (db.cfs.insert (cfPending tenant) t.pending).insert (cfInflight tenant) t.inflight
  { db with cfs := cfs.insert (cfDlq tenant) t.dlq }

/-- The families of a tenant as far as there are any; one that is missing reads as empty. -/
def someTenantDb (db : Database R) (tenant : String) : TenantDb where
  pending := (db.cfs.lookup (cfPending tenant)).getD .empty
  inflight := (db.cfs.lookup (cfInflight tenant)).getD .empty
  dlq := (db.cfs.lookup (cfDlq tenant)).getD .empty

/-- Put back the families of a tenant that there are. -/
def putSomeTenantDb (db : Database R) (tenant : String) (t : TenantDb) : Database R :=
  let cfs := (db.cfs.modify (cfPending tenant) fun _ => t.pending).modify (cfInflight tenant) fun _ => t.inflight
  { db with cfs := cfs.modify (cfDlq tenant) fun _ => t.dlq }

/-- RocksDB compacts the families of a tenant. -/
def compact (db : Database R) (tenant : String) (c : Compaction) : Database R :=
  db.putSomeTenantDb tenant ((db.someTenantDb tenant).compact c)

end Database

end RocksQueue
