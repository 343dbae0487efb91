import RocksQueue.Server
import RocksQueue.Theorems.RetentionInForce

/-! # Ages at a compaction

The filters compare a task's age with the retention in milliseconds, a product of 64 bits. They keep to the
retention for the values whose product fits, and for no others: a value above them has the wrapped product expire
tasks in a release build, and panics in a debug build. -/

namespace RocksQueue

/-- In this build, at every clock and for every task, the filters of the policy come to a decision, and remove only
    what is older than the retention. -/
structure RetentionPolicy.RespectedBy (build : Build) (p : RetentionPolicy) : Prop where
  pending : ∀ now < 2 ^ 64, ∀ t : Task, ∃ decision,
    CompactionFilter.run build now (.pending p.pendingRetentionSecs) (.task t) = some decision ∧
      (decision = .remove → p.pendingRetentionSecs ≠ 0 ∧ p.pendingRetentionSecs * 1000 < now - t.enqueuedAt)
  dlq : ∀ now < 2 ^ 64, ∀ t : Task, ∃ decision,
    CompactionFilter.run build now (.dlq p.dlqRetentionSecs) (.task t) = some decision ∧
      (decision = .remove → p.dlqRetentionSecs * 1000 < now - t.enqueuedAt)

section Ages
variable {build : Build} {secs now limit : Nat} {t : Task}

theorem mul_of_lt (h : secs * 1000 < u64Size) : build.mul secs 1000 = some (secs * 1000) := by
  cases build with
  | release => rw [Build.mul, Nat.mod_eq_of_lt h]
  | debug => rw [Build.mul, if_pos h]

/-- A limit that is below every larger age is the exact product: a wrapped one is at most `2 ^ 64 - 8`. -/
theorem lt_of_mul (h : build.mul secs 1000 = some limit) (hage : limit < 2 ^ 64 - 1 → secs * 1000 < 2 ^ 64 - 1) :
    secs * 1000 < u64Size := by
  cases build with
  | release =>
    simp only [Build.mul, u64Size] at h ⊢
    obtain rfl := Option.some.inj h
    by_contra hge
    have hwrapped : secs * 1000 % 2 ^ 64 < 2 ^ 64 - 1 := by omega
    exact absurd (hage hwrapped) (by omega)
  | debug =>
    simp only [Build.mul] at h
    split at h
    · assumption
    · cases h

/-- A task as old as the clock allows. -/
def oldestTask : Task := newTask "q" [1] "a" 0

/-- What a filter decides about a limit, when it decides at all. -/
theorem exact_of_decision {decision : Decision}
    (h : (build.mul secs 1000).map (fun limit => if limit < 2 ^ 64 - 1 - oldestTask.enqueuedAt then Decision.remove else .keep) =
      some decision)
    (hremove : decision = .remove → secs * 1000 < 2 ^ 64 - 1 - oldestTask.enqueuedAt) : secs * 1000 < u64Size := by
  obtain ⟨limit, hmul, rfl⟩ := Option.map_eq_some_iff.mp h
  exact lt_of_mul hmul fun hlt => hremove (if_pos hlt)

end Ages

theorem RetentionPolicy.RespectedBy.inRange {build : Build} {p : RetentionPolicy} (h : p.RespectedBy build) : p.InRange := by
  constructor
  · obtain ⟨decision, hrun, hremove⟩ := h.pending (2 ^ 64 - 1) (by decide) oldestTask
    by_cases hzero : p.pendingRetentionSecs = 0
    · rw [hzero]
      decide
    · simp only [CompactionFilter.run, if_neg hzero] at hrun
      exact exact_of_decision hrun fun heq => (hremove heq).2
  · obtain ⟨decision, hrun, hremove⟩ := h.dlq (2 ^ 64 - 1) (by decide) oldestTask
    exact exact_of_decision hrun hremove

theorem RetentionPolicy.InRange.respectedBy {p : RetentionPolicy} (h : p.InRange) (build : Build) : p.RespectedBy build := by
  constructor
  · intro now _ t
    by_cases hzero : p.pendingRetentionSecs = 0
    · exact ⟨.keep, by simp only [CompactionFilter.run, if_pos hzero], fun heq => by cases heq⟩
    · refine ⟨_, by simp only [CompactionFilter.run, if_neg hzero, mul_of_lt h.1, Option.map_some]; rfl, fun heq => ?_⟩
      split at heq
      · rename_i hold
        exact ⟨hzero, hold⟩
      · cases heq
  · intro now _ t
    refine ⟨_, by simp only [CompactionFilter.run, mul_of_lt h.2, Option.map_some]; rfl, fun heq => ?_⟩
    split at heq
    · assumption
    · cases heq

/-- Compaction keeps to the retentions of a `SetNamespacePolicy` exactly when both fit into 64 bits in milliseconds. -/
theorem respectedBy_iff (build : Build) (r : NamespacePolicyRequest) :
    r.policy.retention.RespectedBy build ↔ r.pendingRetentionSecs * 1000 < 2 ^ 64 ∧ r.dlqRetentionSecs * 1000 < 2 ^ 64 := by
  have hrange : r.policy.retention.InRange ↔ r.pendingRetentionSecs * 1000 < 2 ^ 64 ∧ r.dlqRetentionSecs * 1000 < 2 ^ 64 := by
    by_cases hzero : r.dlqRetentionSecs = 0
    · simp [RetentionPolicy.InRange, NamespacePolicyRequest.policy, hzero, u64Size]
    · simp [RetentionPolicy.InRange, NamespacePolicyRequest.policy, hzero, u64Size]
  rw [← hrange]
  exact ⟨fun h => h.inRange, fun h => h.respectedBy build⟩

/-- A retention meant to keep tasks practically for ever: in milliseconds it is `2 ^ 64 + 384`. -/
def keepForever : NamespacePolicyRequest where
  tenantId := "t"
  backlogQuota := 0
  backlogPolicy := "reject"
  blockTimeoutMs := 0
  pendingRetentionSecs := 18446744073709552
  dlqRetentionSecs := 0
  inflightStaleSecs := 0

/-- A release build removes a task that is one second old, and a debug build panics. -/
theorem not_respectedBy :
    CompactionFilter.run .release 1001 (.pending keepForever.policy.retention.pendingRetentionSecs) (.task oldestTask) =
        some .remove ∧
      ¬keepForever.policy.retention.pendingRetentionSecs * 1000 < 1001 - oldestTask.enqueuedAt ∧
      CompactionFilter.run .debug 1001 (.pending keepForever.policy.retention.pendingRetentionSecs) (.task oldestTask) =
        none := by
  decide

end RocksQueue
