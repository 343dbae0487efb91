import RocksQueue.Policy
import RocksQueue.Store

/-! # Compaction filters

`compaction.rs`. A filter is a closure that has captured its retention by value; RocksDB asks it about the records of
its family when it compacts the family, and drops those that it says to remove. -/

namespace RocksQueue

/-- The closures of `make_pending_filter`, `make_inflight_filter` and `make_dlq_filter`. -/
inductive CompactionFilter where
  | pending (retentionSecs : Nat)
  | inflight (staleAfterSecs : Nat)
  | dlq (dlqRetentionSecs : Nat)
  deriving DecidableEq, Repr

/-- `rocksdb::compaction_filter::Decision`. -/
inductive Decision where
  | keep
  | remove
  deriving DecidableEq, Repr

/-- The test `age_ms > retention_secs * 1000`, where the product wraps in a release build. -/
def Task.ageExceeds (t : Task) (retentionSecs now : Nat) : Bool := retentionSecs * 1000 % u64Size < now - t.enqueuedAt

/-- What the filter decides about a record at a compaction. -/
def CompactionFilter.decision (now : Nat) : CompactionFilter → Value → Decision
  | .pending retentionSecs, value =>
    if retentionSecs = 0 then .keep
    else
      match value with
      | .task task => if task.ageExceeds retentionSecs now then .remove else .keep
      | .corrupt _ => .remove
  | .inflight _, .task _ => .keep
  | .inflight _, .corrupt _ => .remove
  | .dlq dlqRetentionSecs, .task task => if task.ageExceeds dlqRetentionSecs now then .remove else .keep
  | .dlq _, .corrupt _ => .remove

/-- The filter of each family. -/
def RetentionPolicy.filter (r : RetentionPolicy) : Cf → CompactionFilter
  | .pending => .pending r.pendingRetentionSecs
  | .inflight => .inflight r.inflightStaleSecs
  | .dlq => .dlq r.dlqRetentionSecs

/-! ## A compaction of a tenant's families -/

/-- A record that RocksDB asks the filter of its family about, and the clock then. -/
structure Question where
  cf : Cf
  key : Key
  now : Nat
  deriving DecidableEq, Repr

/-- The filters keep the retention that the families were opened with. Which records RocksDB asks about, and when, is
    up to it. -/
structure Compaction where
  retention : RetentionPolicy
  asked : List Question
  deriving DecidableEq, Repr

/-- Nothing to compact. -/
def Compaction.none : Compaction := ⟨{}, []⟩

namespace TenantDb

/-- The filter is asked about a record; there may be none by then. -/
def ask (db : TenantDb) (retention : RetentionPolicy) (q : Question) : TenantDb :=
  match (db.get q.cf q.key).map ((retention.filter q.cf).decision q.now) with
  | some .remove => db.apply (.delete q.cf q.key)
  | _ => db

def compact (db : TenantDb) (c : Compaction) : TenantDb := c.asked.foldl (fun db q => db.ask c.retention q) db

section Compact
variable {db : TenantDb} {retention : RetentionPolicy} {c : Compaction} {cf : Cf} {k : Key} {v : Value} {t : Task}
  {q : Question}

theorem get_ask : (db.ask retention q).get cf k =
    if cf = q.cf ∧ k = q.key then (db.get cf k).filter fun v => (retention.filter cf).decision q.now v = .keep
    else db.get cf k := by
  unfold ask
  by_cases hq : cf = q.cf ∧ k = q.key
  · obtain ⟨rfl, rfl⟩ := hq
    rw [if_pos ⟨rfl, rfl⟩]
    cases hget : db.get q.cf q.key with
    | none => exact hget
    | some v =>
      cases hdecision : (retention.filter q.cf).decision q.now v with
      | keep => simp [hdecision, hget, Option.filter_some]
      | remove => simp [hdecision, get_apply_delete, Option.filter_some]
  · rw [if_neg hq]
    split
    · rw [get_apply_delete, if_neg hq]
    · rfl

/-- A compaction writes nothing. -/
theorem get_of_get_compact (h : (db.compact c).get cf k = some v) : db.get cf k = some v := by
  obtain ⟨retention, asked⟩ := c
  induction asked generalizing db with
  | nil => exact h
  | cons q asked ih =>
    have hask : (db.ask retention q).get cf k = some v := ih h
    rw [get_ask] at hask
    split at hask
    · exact (Option.filter_eq_some_iff.mp hask).1
    · exact hask

/-- What the filter of a family keeps at any time stays. -/
theorem get_compact_of_kept (hget : db.get cf k = some v)
    (hkeep : ∀ now, (c.retention.filter cf).decision now v = .keep) : (db.compact c).get cf k = some v := by
  obtain ⟨retention, asked⟩ := c
  induction asked generalizing db with
  | nil => exact hget
  | cons q asked ih =>
    have hask : (db.ask retention q).get cf k = some v := by
      rw [get_ask, hget]
      split
      · exact Option.filter_eq_some_iff.mpr ⟨rfl, decide_eq_true (hkeep q.now)⟩
      · rfl
    exact ih hask hkeep

/-- A compaction never takes a delivery. -/
theorem get_compact_inflight (h : db.get .inflight k = some (.task t)) :
    (db.compact c).get .inflight k = some (.task t) :=
  get_compact_of_kept h fun _ => rfl

@[simp] theorem compact_none : db.compact .none = db := rfl

end Compact

end TenantDb

end RocksQueue
