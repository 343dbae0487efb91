import RocksQueue.Filters
import RocksQueue.Registry

/-! # The filters in use

The families of `tenant.rs` with the filters that they are created or opened with, and what the arithmetic of a filter
does in a release and in a debug build. -/

namespace RocksQueue

/-! ## Overflow

A result that does not fit into its type wraps in a release build and panics in a debug build. -/

inductive Build where
  | release
  | debug
  deriving DecidableEq, Repr

/-- `a * b` of `u64`s; `none` is a panic. -/
def Build.mul (build : Build) (a b : Nat) : Option Nat :=
  match build with
  | .release => some (a * b % u64Size)
  | .debug => if a * b < u64Size then some (a * b) else none

/-- `a + b` in an unsigned type of `size` values. -/
def Build.add (build : Build) (size a b : Nat) : Option Nat :=
  match build with
  | .release => some ((a + b) % size)
  | .debug => if a + b < size then some (a + b) else none

/-- The `sum` of an iterator over an unsigned type of `size` values. -/
def Build.sum (build : Build) (size : Nat) (l : List Nat) : Option Nat := l.foldlM (build.add size) 0

/-- What the filter decides about a record in a build; `none` is a panic. -/
def CompactionFilter.run (build : Build) (now : Nat) : CompactionFilter → Value → Option Decision
  | .pending retentionSecs, value =>
    if retentionSecs = 0 then some .keep
    else
      match value with
      | .task task =>
        (build.mul retentionSecs 1000).map fun limit => if limit < now - task.enqueuedAt then .remove else .keep
      | .corrupt _ => some .remove
  | .inflight _, .task _ => some .keep
  | .inflight _, .corrupt _ => some .remove
  | .dlq dlqRetentionSecs, .task task =>
    (build.mul dlqRetentionSecs 1000).map fun limit => if limit < now - task.enqueuedAt then .remove else .keep
  | .dlq _, .corrupt _ => some .remove

theorem CompactionFilter.run_release (filter : CompactionFilter) (now : Nat) (value : Value) :
    filter.run .release now value = some (filter.decision now value) := by
  cases filter with
  | pending retentionSecs =>
    simp only [run, decision]
    split
    · rfl
    · cases value with
      | task task => simp [Build.mul, Task.ageExceeds]
      | corrupt raw => rfl
  | inflight staleAfterSecs => cases value <;> rfl
  | dlq dlqRetentionSecs =>
    cases value with
    | task task => simp [run, decision, Build.mul, Task.ageExceeds]
    | corrupt raw => rfl

/-- The families of a tenant, each with the filter that its options get. -/
def tenantFilters (tenant : String) (retention : RetentionPolicy) : List (String × CompactionFilter) :=
  [(cfPending tenant, .pending retention.pendingRetentionSecs), (cfInflight tenant, .inflight retention.inflightStaleSecs),
    (cfDlq tenant, .dlq retention.dlqRetentionSecs)]

/-- The filter of a family among those of a list. -/
def filterOf (filters : List (String × CompactionFilter)) (name : String) : Option CompactionFilter :=
  (filters.find? fun f => f.1 = name).map Prod.snd

/-- The registry, and the filter that RocksDB runs for each family. -/
structure FilteredRegistry (R : Type) where
  registry : TenantRegistry R
  filters : String → Option CompactionFilter

/-- The operations that create, open or drop families, or change a policy. -/
inductive RetentionEvent where
  | provisionTenant (tenant : String) (policy : NamespacePolicy)
  | updateNamespacePolicy (tenant : String) (policy : NamespacePolicy)
  | dropTenant (tenant : String)
  | reopen (now : Nat)

namespace FilteredRegistry
variable {R : Type}

def «open» (db : Database R) (now : Nat) : Option (FilteredRegistry R) :=
  match loadPersistedTenants db with
  | none => none
  | some tenants => (TenantRegistry.open db now).map fun r =>
      ⟨r, filterOf (tenants.flatMap fun t => tenantFilters t.1 t.2.retention)⟩

/-- A family that the call creates gets its filter then. -/
def provisionTenant (s : FilteredRegistry R) (tenant : String) (policy : NamespacePolicy) : FilteredRegistry R :=
  let registry := (s.registry.provisionTenant tenant policy).1
  { registry := registry
    filters := fun name =>
      if name ∉ s.registry.db.cfs ∧ name ∈ registry.db.cfs then filterOf (tenantFilters tenant policy.retention) name
      else s.filters name }

/-- The policy changes, and the filters stay. -/
def updateNamespacePolicy (s : FilteredRegistry R) (tenant : String) (policy : NamespacePolicy) : FilteredRegistry R :=
  { s with registry := (s.registry.updateNamespacePolicy tenant policy).1 }

/-- A family that the call drops takes its filter with it. -/
def dropTenant (s : FilteredRegistry R) (tenant : String) : FilteredRegistry R :=
  let registry := (s.registry.dropTenant tenant).1
  { registry := registry
    filters := fun name => if name ∈ registry.db.cfs then s.filters name else none }

def next (s : FilteredRegistry R) : RetentionEvent → Option (FilteredRegistry R)
  | .provisionTenant tenant policy => some (s.provisionTenant tenant policy)
  | .updateNamespacePolicy tenant policy => some (s.updateNamespacePolicy tenant policy)
  | .dropTenant tenant => some (s.dropTenant tenant)
  | .reopen now => FilteredRegistry.open s.registry.db now

end FilteredRegistry

end RocksQueue
