import RocksQueue.Tenant

/-! # The reaper

`reaper.rs`: one sweep over the inflight records of a queue. -/

namespace RocksQueue

/-- From the first key that is not below the prefix, up to the first that does not start with it. -/
def reapScan (db : TenantDb) (queue : String) : List (Key × Value) :=
  (db.inflight.seek (queuePrefix queue)).takeWhile fun e => (queuePrefix queue).isPrefixOf e.1

/-- `task.deadline > 0 && task.deadline < now`. -/
def Task.expired (t : Task) (now : Nat) : Bool := 0 < t.deadline && t.deadline < now

def reclaimBatch (key : Key) (task : Task) : WriteBatch :=
  [.delete .inflight key, .put .pending key { task with deadline := 0 }.serialize]

def reapLoop (queue : String) (now : Nat) : List (Key × Value) → WriteBatch
  | [] => []
  | (key, .corrupt raw) :: rest => poisonBatch .inflight queue key raw now ++ reapLoop queue now rest
  | (key, .task task) :: rest =>
    if task.expired now then reclaimBatch key task ++ reapLoop queue now rest else reapLoop queue now rest

def TenantDb.reapInflight (db : TenantDb) (queue : String) (now : Nat) : TenantDb :=
  db.write (reapLoop queue now (reapScan db queue))

theorem reapScan_eq (db : TenantDb) (queue : String) : reapScan db queue = db.scanQueue .inflight queue := by
  have hlo : ∀ k, inQueue queue k → queuePrefix queue ≤ k := fun k hk => Bytes.le_of_prefix (inQueue_iff.mp hk)
  have hbetween : ∀ k k', inQueue queue k' → queuePrefix queue ≤ k → k ≤ k' → inQueue queue k :=
    fun k k' hk' hle hle' => inQueue_iff.mpr (Bytes.prefix_of_between (inQueue_iff.mp hk') hle hle')
  exact OrderedMap.takeWhile_seek hlo hbetween

end RocksQueue
