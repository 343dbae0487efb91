import Mathlib.Init

/-! # Policies and errors

`policy.rs` and the errors of `error.rs` that the queue operations return. -/

namespace RocksQueue

inductive BacklogPolicy where
  | reject
  | block (timeoutMs : Nat)
  | evictOldest
  deriving DecidableEq, Repr

structure RetentionPolicy where
  pendingRetentionSecs : Nat := 0
  dlqRetentionSecs : Nat := 7 * 24 * 3600
  inflightStaleSecs : Nat := 300
  deriving DecidableEq, Repr

structure NamespacePolicy where
  tenantId : String
  «namespace» : String
  weight : Nat
  maxInflight : Nat
  burstTokens : Nat
  ratePerSec : Nat
  backlogQuota : Option Nat
  backlogPolicy : BacklogPolicy
  retention : RetentionPolicy
  deriving DecidableEq, Repr

def NamespacePolicy.standard (tenantId : String) : NamespacePolicy where
  tenantId := tenantId
  «namespace» := tenantId
  weight := 10
  maxInflight := 500
  burstTokens := 100
  ratePerSec := 100
  backlogQuota := some 100000
  backlogPolicy := .reject
  retention := {}

def NamespacePolicy.premium (tenantId : String) : NamespacePolicy where
  tenantId := tenantId
  «namespace» := tenantId
  weight := 50
  maxInflight := 5000
  burstTokens := 1000
  ratePerSec := 1000
  backlogQuota := some 1000000
  backlogPolicy := .block 5000
  retention := {}

inductive QueueError where
  | serialization
  | backlogQuotaExceeded (tenant queue : String) (current quota incoming : Nat)
  deriving DecidableEq, Repr

end RocksQueue
