import Mathlib.Data.List.AList
import RocksQueue.Lib.OrderedMap
import RocksQueue.Policy
import RocksQueue.Task

/-! # The `__system__` family

The records that survive a restart besides the queues: the policies of the tenants (`tenant.rs`), and the
statistics, throttles and baselines of `stats_store.rs`. The numbers of the floating-point type are of
type `R`. -/

namespace RocksQueue

/-- `DashMap<String, _>`. The order of its entries is the one in which an iteration happens to go. -/
abbrev DashMap (α : Type) : Type := AList fun _ : String => α

structure PersistedStats (R : Type) where
  tenantId : String
  arrivalRate : R
  processingRate : R
  avgTaskLatency : R
  burstScore : R
  backlogRatio : R
  totalEnqueued : Nat
  totalAcked : Nat
  totalNacked : Nat
  statsVersion : Nat
  flushedAtMs : Nat

structure PersistedThrottle where
  tenantId : String
  throttled : Bool
  reason : String
  originalRate : Nat
  appliedRate : Nat
  triggeredAtMs : Nat
  cooldownUntilMs : Nat
  deriving DecidableEq, Repr

structure BaselineRecord (R : Type) where
  tenantId : String
  shortEma : R
  longEma : R
  spikeThreshold : R
  savedAtMs : Nat

/-- The bytes of a record: what deserializing them gives. -/
inductive SystemRecord (R : Type) where
  | policy (p : NamespacePolicy)
  | stats (s : PersistedStats R)
  | throttle (t : PersistedThrottle)
  | baseline (b : BaselineRecord R)
  | corrupt (raw : Bytes)

abbrev SystemCf (R : Type) := OrderedMap Bytes (SystemRecord R)

/-! ## Keys -/

def tenantMetaPrefix : Bytes := Bytes.utf8 "tenant:"

def statsPrefix : Bytes := Bytes.utf8 "stats:"

def throttlePrefix : Bytes := Bytes.utf8 "throttle:"

def baselinePrefix : Bytes := Bytes.utf8 "baseline:"

def metaKey (tenant : String) : Bytes := tenantMetaPrefix ++ Bytes.utf8 tenant

def statsKey (tenant : String) : Bytes := statsPrefix ++ Bytes.utf8 tenant

def throttleKey (tenant : String) : Bytes := throttlePrefix ++ Bytes.utf8 tenant

def baselineKey (tenant : String) : Bytes := baselinePrefix ++ Bytes.utf8 tenant

/-- The tenant id that `load_persisted_tenants` reads off a key. -/
def tenantOfMetaKey (key : Bytes) : String := fromUtf8Lossy (key.drop tenantMetaPrefix.length)

/-- From the first key that is not below the prefix, up to the first that does not start with it. -/
def seekPrefix {V : Type} (m : OrderedMap Bytes V) (p : Bytes) : List (Bytes × V) :=
  (m.seek p).takeWhile fun e => p.isPrefixOf e.1

section Keys
variable {V : Type} {m : OrderedMap Bytes V} {p k : Bytes} {v : V} {tenant tenant' : String}

theorem seekPrefix_eq : seekPrefix m p = m.scan fun k => p.isPrefixOf k := by
  have hlo : ∀ k : Bytes, p.isPrefixOf k = true → p ≤ k := fun k hk => Bytes.le_of_prefix (List.isPrefixOf_iff_prefix.mp hk)
  have hbetween : ∀ k k' : Bytes, p.isPrefixOf k' = true → p ≤ k → k ≤ k' → p.isPrefixOf k = true :=
    fun k k' hk' hle hle' =>
      List.isPrefixOf_iff_prefix.mpr (Bytes.prefix_of_between (List.isPrefixOf_iff_prefix.mp hk') hle hle')
  exact OrderedMap.takeWhile_seek hlo hbetween

theorem mem_seekPrefix : (k, v) ∈ seekPrefix m p ↔ m.get? k = some v ∧ p <+: k := by
  rw [seekPrefix_eq, OrderedMap.mem_scan, List.isPrefixOf_iff_prefix]

@[simp] theorem tenantOfMetaKey_metaKey (tenant : String) : tenantOfMetaKey (metaKey tenant) = tenant := by
  rw [tenantOfMetaKey, metaKey, List.drop_left, fromUtf8Lossy_utf8]

theorem metaKey_inj : metaKey tenant = metaKey tenant' ↔ tenant = tenant' := by
  constructor
  · intro h
    rw [← tenantOfMetaKey_metaKey tenant, h, tenantOfMetaKey_metaKey]
  · rintro rfl
    rfl

theorem tenantMetaPrefix_metaKey (tenant : String) : tenantMetaPrefix <+: metaKey tenant := List.prefix_append _ _

/-- The four kinds of records do not share keys: already the first three bytes of the prefixes differ. -/
theorem not_tenantMetaPrefix : ¬tenantMetaPrefix <+: statsKey tenant ∧ ¬tenantMetaPrefix <+: throttleKey tenant ∧
    ¬tenantMetaPrefix <+: baselineKey tenant := by
  have htake : ∀ {q : Bytes}, tenantMetaPrefix.take 2 ≠ q.take 2 → 2 ≤ q.length →
      ¬tenantMetaPrefix <+: q ++ Bytes.utf8 tenant := by
    rintro q hne hlen ⟨r, hr⟩
    have heq := congrArg (List.take 2) hr
    rw [List.take_append_of_le_length (by decide), List.take_append_of_le_length hlen] at heq
    exact hne heq
  exact ⟨htake (by decide) (by decide), htake (by decide) (by decide), htake (by decide) (by decide)⟩

end Keys

end RocksQueue
