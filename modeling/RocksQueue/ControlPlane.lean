import RocksQueue.Server

/-! # The control plane

`grpc/control_plane.rs`: what a client sends, and what it gets back. A handler turns the request into a call of
`RocksQueue.Server`, or into a read, and its outcome into a response or a status. The texts of errors that RocksDB,
bincode and the hex decoder make are taken from outside, and so is the hex coding of the keys. -/

namespace RocksQueue

/-! ## Statuses -/

/-- The codes of `tonic::Status` that the handlers use. -/
inductive Code where
  | invalidArgument
  | notFound
  | resourceExhausted
  | internal
  deriving DecidableEq, Repr

structure Status where
  code : Code
  message : String
  deriving DecidableEq, Repr

/-- The crate that writes keys as text; what `decode` refuses comes with a text that says why. -/
structure HexCodec where
  encode : Bytes → String
  decode : String → Except String Bytes
  decode_encode : ∀ bytes, decode (encode bytes) = .ok bytes

def hexDigit (n : Nat) : Char := Nat.digitChar n

/-- Either case is read. -/
def hexValue (c : Char) : Option Nat :=
  if '0' ≤ c ∧ c ≤ '9' then some (c.toNat - '0'.toNat)
  else if 'a' ≤ c ∧ c ≤ 'f' then some (c.toNat - 'a'.toNat + 10)
  else if 'A' ≤ c ∧ c ≤ 'F' then some (c.toNat - 'A'.toNat + 10)
  else none

def hexPairs : List Char → Except String Bytes
  | a :: b :: rest =>
    match hexValue a, hexValue b with
    | some high, some low => (hexPairs rest).map fun bytes => UInt8.ofNat (high * 16 + low) :: bytes
    | _, _ => .error "Invalid character"
  | [] => .ok []
  | [_] => .error "Odd number of digits"

def hexText (bytes : Bytes) : List Char := bytes.flatMap fun b => [hexDigit (b.toNat / 16), hexDigit (b.toNat % 16)]

theorem hexValue_hexDigit {n : Nat} (h : n < 16) : hexValue (hexDigit n) = some n := by
  have hall : ∀ m < 16, hexValue (hexDigit m) = some m := by decide
  exact hall n h

theorem hexPairs_hexText (bytes : Bytes) : hexPairs (hexText bytes) = .ok bytes := by
  induction bytes with
  | nil => rfl
  | cons b bytes ih =>
    have hlt : b.toNat < 256 := b.toNat_lt
    have hhigh : hexValue (hexDigit (b.toNat / 16)) = some (b.toNat / 16) := hexValue_hexDigit (by omega)
    have hlow : hexValue (hexDigit (b.toNat % 16)) = some (b.toNat % 16) := hexValue_hexDigit (by omega)
    have hbyte : b.toNat / 16 * 16 + b.toNat % 16 = b.toNat := by omega
    have htext : hexText (b :: bytes) = hexDigit (b.toNat / 16) :: hexDigit (b.toNat % 16) :: hexText bytes := rfl
    rw [htext, hexPairs, hhigh, hlow, ih]
    simp [Except.map, hbyte]

/-- The coding of the crate; its refusals say more. -/
def HexCodec.hex : HexCodec where
  encode bytes := String.ofList (hexText bytes)
  decode text := hexPairs text.toList
  decode_encode bytes := by rw [String.toList_ofList, hexPairs_hexText]

example : HexCodec.hex.encode [171, 0, 5] = "ab0005" := by decide

structure Externals where
  hex : HexCodec
  rocksdb : String
  bincode : String

/-- The errors that reach the control plane. -/
inductive CallError where
  | failed (e : QueueError)
  | columnFamilyMissing (name : String)
  | queueNotFound (what : String)
  | rocksdb

/-- `to_string`. -/
def CallError.text (x : Externals) : CallError → String
  | .failed .serialization => "Serialization error: " ++ x.bincode
  | .failed (.backlogQuotaExceeded tenant queue current quota incoming) =>
    "Backlog quota exceeded for tenant=" ++ tenant ++ " queue=" ++ queue ++ ": current=" ++ toString current ++
      " quota=" ++ toString quota ++ " incoming=" ++ toString incoming
  | .columnFamilyMissing name => "Column family missing: " ++ name
  | .queueNotFound what => "Queue not found: " ++ what
  | .rocksdb => "RocksDB error: " ++ x.rocksdb

def notFound (message : String) : Status := ⟨.notFound, message⟩

def queueError (x : Externals) (e : CallError) : Status where
  code :=
    match e with
    | .columnFamilyMissing _ => .notFound
    | .queueNotFound _ => .notFound
    | .failed (.backlogQuotaExceeded _ _ _ _ _) => .resourceExhausted
    | _ => .internal
  message := e.text x

def decodeAckKey (x : Externals) (ackKey : String) : Except Status Key :=
  match x.hex.decode ackKey with
  | .ok key => .ok key
  | .error e => .error ⟨.invalidArgument, "invalid ack_key: " ++ e⟩

def decodeAckKeys (x : Externals) : List String → Except Status (List Key)
  | [] => .ok []
  | ackKey :: rest =>
    match decodeAckKey x ackKey with
    | .error status => .error status
    | .ok key =>
      match decodeAckKeys x rest with
      | .error status => .error status
      | .ok keys => .ok (key :: keys)

/-! ## Requests and responses -/

deriving instance DecidableEq for Policy, NamespacePolicyRequest

/-- What a client asks for. `WatchQueueDepth` and `WatchStats` answer with streams, and `GetCompactionStats` with the
    counters of the filters; none of them changes anything. -/
inductive Rpc where
  | provisionTenant (tenantId tier : String)
  | dropTenant (tenantId : String)
  | updatePolicy (tenantId : String) (policy : Option Policy)
  | getPolicy (tenantId : String)
  | setNamespacePolicy (r : NamespacePolicyRequest)
  | getNamespacePolicy (tenantId : String)
  | getTenantStatus (tenantId : String)
  | listTenants
  | enqueueTask (tenantId queue payload : String)
  | enqueueBatch (tenantId queue : String) (payloads : List String)
  | dequeueTasks (tenantId queue : String) (limit : Nat)
  | ackTask (tenantId ackKey : String)
  | ackBatch (tenantId : String) (ackKeys : List String)
  | nackTask (tenantId ackKey : String)
  | getTenantStats (tenantId : String)
  | listAllStats
  | getThrottleStatus (tenantId : String)
  | listThrottled
  | forceReleaseThrottle (tenantId : String)
  | getBaselineStatus (tenantId : String)
  | listAllBaselines
  | pauseTenant (tenantId : String)
  | resumeTenant (tenantId : String)
  | drainTenant (tenantId : String) (timeoutSecs : Nat)
  | purgeDlq (tenantId : String)
  | replayDlq (tenantId : String)
  | compactTenant (tenantId : String)
  deriving DecidableEq

structure NamespacePolicyResponse where
  tenantId : String
  backlogQuota : Nat
  backlogPolicy : String
  pendingRetentionSecs : Nat
  dlqRetentionSecs : Nat
  inflightStaleSecs : Nat
  deriving DecidableEq, Repr

structure DequeuedTask where
  ackKey : String
  taskId : String
  queue : String
  payload : String
  enqueuedAt : Nat
  attempts : Nat
  deadline : Nat
  deriving DecidableEq, Repr

structure TenantStatsResponse (R : Type) where
  tenantId : String
  arrivalRate : R
  processingRate : R
  avgTaskLatency : R
  burstScore : R
  backlogRatio : R
  totalEnqueued : Nat
  totalAcked : Nat
  totalNacked : Nat
  statsVersion : Nat
  isNew : Bool
  deriving DecidableEq

structure BaselineStatus (R : Type) where
  tenantId : String
  shortEma : R
  longEma : R
  rollingPeak : R
  spikeThreshold : R
  lastUpdatedMs : Nat
  deriving DecidableEq

inductive Response (R : Type) where
  | tenant (tenantId : String) (success : Bool) (message : String)
  | policy (tenantId : String) (policy : Policy)
  | namespacePolicy (r : NamespacePolicyResponse)
  | tenantStatus (tenantId : String) (paused : Bool) (pending inflight dlq : Nat)
  | tenants (tenantIds : List String)
  | enqueued (tenantId queue : String) (taskIds : List String)
  | dequeued (tenantId queue : String) (tasks : List DequeuedTask)
  | taskOp (tenantId : String) (success : Bool) (message : String)
  | stats (stats : TenantStatsResponse R)
  | allStats (stats : List (TenantStatsResponse R))
  | throttle (state : ThrottleState)
  | throttled (states : List ThrottleState)
  | baseline (status : BaselineStatus R)
  | baselines (statuses : List (BaselineStatus R))
  | drained (tenantId : String) (drained : Bool) (remaining : Nat)
  | purged (tenantId : String) (purged : Nat)
  | replayed (tenantId : String) (replayed : Nat)
  | compacted (tenantId : String) (success : Bool)
  deriving DecidableEq

/-- What the client gets back. -/
abbrev Answer (R : Type) := Except Status (Response R)

namespace Rpc

/-- The tenant that the request names. -/
def tenantId? : Rpc → Option String
  | provisionTenant t _ => some t
  | dropTenant t => some t
  | updatePolicy t _ => some t
  | getPolicy t => some t
  | setNamespacePolicy r => some r.tenantId
  | getNamespacePolicy t => some t
  | getTenantStatus t => some t
  | listTenants => none
  | enqueueTask t _ _ => some t
  | enqueueBatch t _ _ => some t
  | dequeueTasks t _ _ => some t
  | ackTask t _ => some t
  | ackBatch t _ => some t
  | nackTask t _ => some t
  | getTenantStats t => some t
  | listAllStats => none
  | getThrottleStatus t => some t
  | listThrottled => none
  | forceReleaseThrottle t => some t
  | getBaselineStatus t => some t
  | listAllBaselines => none
  | pauseTenant t => some t
  | resumeTenant t => some t
  | drainTenant t _ => some t
  | purgeDlq t => some t
  | replayDlq t => some t
  | compactTenant t => some t

/-- The request to change something that the handler passes on: reads and malformed requests pass on nothing. -/
def request (x : Externals) : Rpc → Option Request
  | provisionTenant t tier => some (.provisionTenant t tier)
  | dropTenant t => some (.dropTenant t)
  | updatePolicy t policy => some (.updatePolicy t policy)
  | setNamespacePolicy r => some (.setNamespacePolicy r)
  | enqueueTask t queue payload => some (.enqueueTask t queue (Bytes.utf8 payload))
  | enqueueBatch t queue payloads => some (.enqueueBatch t queue (payloads.map Bytes.utf8))
  | dequeueTasks t queue limit => some (.dequeueTasks t queue limit)
  | ackTask t ackKey => (decodeAckKey x ackKey).toOption.map (.ackTask t)
  | ackBatch t ackKeys => (decodeAckKeys x ackKeys).toOption.map (.ackBatch t)
  | nackTask t ackKey => (decodeAckKey x ackKey).toOption.map (.nackTask t)
  | forceReleaseThrottle t => some (.forceReleaseThrottle t)
  | pauseTenant t => some (.pauseTenant t)
  | resumeTenant t => some (.resumeTenant t)
  | drainTenant t _ => some (.drainTenant t)
  | purgeDlq t => some (.purgeDlq t)
  | replayDlq t => some (.replayDlq t)
  | compactTenant t => some (.compactTenant t)
  | _ => none

/-- The payloads that are to be enqueued. -/
def payloads : Rpc → List String
  | enqueueTask _ _ payload => [payload]
  | enqueueBatch _ _ payloads => payloads
  | _ => []

/-- The queue that they go to. -/
def queue : Rpc → String
  | enqueueTask _ queue _ => queueOrDefault queue
  | enqueueBatch _ queue _ => queueOrDefault queue
  | _ => ""

/-- The request is refused for what it says, whatever the server has. -/
def Malformed (x : Externals) : Rpc → Prop
  | updatePolicy _ policy => policy = none
  | enqueueBatch _ _ payloads => payloads = []
  | ackTask _ ackKey => (decodeAckKey x ackKey).toOption = none
  | ackBatch _ ackKeys => ackKeys = [] ∨ (decodeAckKeys x ackKeys).toOption = none
  | nackTask _ ackKey => (decodeAckKey x ackKey).toOption = none
  | _ => False

end Rpc

/-! ## What a response says -/

def Reply.ids : Reply → List String
  | .enqueued ids => ids
  | _ => []

def Reply.removed : Reply → Nat
  | .acked counted => counted.length
  | .count n => n
  | _ => 0

def dequeuedTask (x : Externals) (r : Key × Task) : DequeuedTask where
  ackKey := x.hex.encode r.1
  taskId := r.2.id
  queue := r.2.queue
  payload := fromUtf8Lossy r.2.payload
  enqueuedAt := r.2.enqueuedAt
  attempts := r.2.attempts
  deadline := r.2.deadline

/-- `max_inflight as u32`. -/
def TenantPolicy.toPolicy (p : TenantPolicy) : Policy where
  weight := p.weight
  maxInflight := p.maxInflight % u32Size
  burstTokens := p.burstTokens
  ratePerSec := p.ratePerSec

def BacklogPolicy.text : BacklogPolicy → String
  | .reject => "reject"
  | .block _ => "block"
  | .evictOldest => "evict_oldest"

def NamespacePolicy.response (p : NamespacePolicy) (tenantId : String) : NamespacePolicyResponse where
  tenantId := tenantId
  backlogQuota := p.backlogQuota.getD 0
  backlogPolicy := p.backlogPolicy.text
  pendingRetentionSecs := p.retention.pendingRetentionSecs
  dlqRetentionSecs := p.retention.dlqRetentionSecs
  inflightStaleSecs := p.retention.inflightStaleSecs

def TenantStats.response {R : Type} (s : TenantStats R) : TenantStatsResponse R where
  tenantId := s.tenantId
  arrivalRate := s.arrivalRate
  processingRate := s.processingRate
  avgTaskLatency := s.avgTaskLatency
  burstScore := s.burstScore
  backlogRatio := s.backlogRatio
  totalEnqueued := s.totalEnqueued
  totalAcked := s.totalAcked
  totalNacked := s.totalNacked
  statsVersion := s.statsVersion
  isNew := s.isNew

def TenantBaseline.status {R : Type} (b : TenantBaseline R) : BaselineStatus R where
  tenantId := b.tenantId
  shortEma := b.shortEma
  longEma := b.longEma
  rollingPeak := b.rollingPeak
  spikeThreshold := b.spikeThreshold
  lastUpdatedMs := b.lastUpdatedMs

/-- The loop of `drain_tenant` when nothing else happens, over the readings of the monotonic clock. -/
def drainLoop (pending inflight deadline : Nat) : List Nat → Option (Bool × Nat)
  | [] => if pending = 0 ∧ inflight = 0 then some (true, 0) else none
  | now :: rest =>
    if pending = 0 ∧ inflight = 0 then some (true, 0)
    else if deadline ≤ now then some (false, pending + inflight)
    else drainLoop pending inflight deadline rest

namespace Server
variable {R : Type} [F64 R]

/-! ## The handlers -/

/-- The outcome of a call: an error of the call, or what the collector records and the response. A family that is
    missing is reported under the name that the call looks up first. -/
def conclude (x : Externals) (missing : String) (record : Reply → StatsCollector R → StatsCollector R)
    (respond : Reply → Response R) : Server R × Option Reply → Server R × Answer R
  | (s, none) => (s, .error (queueError x (.columnFamilyMissing missing)))
  | (s, some (.failed e)) => ({ s with collector := record (.failed e) s.collector }, .error (queueError x (.failed e)))
  | (s, some reply) => ({ s with collector := record reply s.collector }, .ok (respond reply))

def serveEnqueue (x : Externals) (s : Server R) (tenantId queue : String) (payloads : List Bytes) (io : Inputs) :
    Option (Server R × Answer R) :=
  match s.registry.getPolicy tenantId with
  | none => some (s, .error (notFound "tenant not found"))
  | some policy =>
    (s.callTenant tenantId io (.enqueueBatch (queueOrDefault queue) payloads policy)).map
      (conclude x (cfPending tenantId) (recordEnqueued tenantId payloads.length)
        fun reply => .enqueued tenantId (queueOrDefault queue) reply.ids)

/-- `dequeue_with_max_inflight` returns before it looks a family up when nothing may be inflight. -/
def serveDequeue (x : Externals) (s : Server R) (tenantId queue : String) (limit : Nat) (io : Inputs) :
    Option (Server R × Answer R) :=
  let limit := if limit = 0 then defaultDequeueLimit else limit
  match s.registry.getPolicy tenantId with
  | none => some (s, .error (notFound "tenant not found"))
  | some policy =>
    match s.callTenant tenantId io (.dequeueWithMaxInflight (queueOrDefault queue) limit 60000 policy.maxInflight) with
    | none => none
    | some (s', none) =>
      if policy.maxInflight = 0 then some (s', .ok (.dequeued tenantId (queueOrDefault queue) []))
      else some (s', .error (queueError x (.columnFamilyMissing (cfInflight tenantId))))
    | some (s', some reply) =>
      some (s', .ok (.dequeued tenantId (queueOrDefault queue) (reply.results.map (dequeuedTask x))))

def serveAck (x : Externals) (s : Server R) (tenantId ackKey : String) (io : Inputs) : Option (Server R × Answer R) :=
  match decodeAckKey x ackKey with
  | .error status => some (s, .error status)
  | .ok key =>
    (s.callTenant tenantId io (.ackBatch [key])).map
      (conclude x (cfInflight tenantId) (recordAcked tenantId) fun _ => .taskOp tenantId true "acked")

def serveAckBatch (x : Externals) (s : Server R) (tenantId : String) (ackKeys : List String) (io : Inputs) :
    Option (Server R × Answer R) :=
  if ackKeys = [] then some (s, .error ⟨.invalidArgument, "ack_keys must not be empty"⟩)
  else
    match decodeAckKeys x ackKeys with
    | .error status => some (s, .error status)
    | .ok keys =>
      (s.callTenant tenantId io (.ackBatch keys)).map
        (conclude x (cfInflight tenantId) (recordAckedBatch tenantId)
          fun reply => .taskOp tenantId true ("acked " ++ toString reply.removed))

def serveNack (x : Externals) (s : Server R) (tenantId ackKey : String) (io : Inputs) : Option (Server R × Answer R) :=
  match decodeAckKey x ackKey with
  | .error status => some (s, .error status)
  | .ok key =>
    (s.callTenant tenantId io (.nack key)).map
      (conclude x (cfPending tenantId) (recordNacked tenantId) fun _ => .taskOp tenantId true "nacked")

def serveSetNamespacePolicy (x : Externals) (s : Server R) (r : NamespacePolicyRequest) : Server R × Answer R :=
  (s.setNamespacePolicy r,
    if r.tenantId ∈ s.registry.policies then
      if (s.registry.updateNamespacePolicy r.tenantId r.policy).2 then
        .ok (.tenant r.tenantId true "namespace policy set")
      else .error (queueError x (.columnFamilyMissing cfSystem))
    else .error (queueError x (.queueNotFound ("tenant not found: " ++ r.tenantId))))

def servePaused (s : Server R) (tenantId : String) (paused : Bool) (message : String) : Server R × Answer R :=
  (s.setPaused tenantId paused,
    match s.scheduler.setPaused tenantId paused with
    | some _ => .ok (.tenant tenantId true message)
    | none => .error (notFound "tenant not found"))

/-- The first of the configured queues. -/
def firstQueue : String := watchedQueues.head?.getD ""

/-- `tenant_snapshot`, as far as the handler uses it. -/
def isPaused (s : Server R) (tenantId : String) : Bool := (s.scheduler.tenants.lookup tenantId).any TenantState.paused

def serveStatus (x : Externals) (s : Server R) (tenantId : String) : Answer R :=
  match s.registry.db.tenantDb? tenantId with
  | none => .error (queueError x (.columnFamilyMissing (cfPending tenantId)))
  | some db =>
    let (pending, inflight, dlq) := db.depth firstQueue
    .ok (.tenantStatus tenantId (s.isPaused tenantId) pending inflight dlq)

/-- `io.polls` are the readings of the monotonic clock. -/
def serveDrain (x : Externals) (s : Server R) (tenantId : String) (timeoutSecs : Nat) (clock : Clock) (io : Inputs) :
    Option (Server R × Answer R) :=
  let s' := s.setPaused tenantId true
  let deadline := clock.instant + max timeoutSecs 1 * 1000000000
  match s'.registry.db.tenantDb? tenantId with
  | none => some (s', .error (queueError x (.columnFamilyMissing (cfPending tenantId))))
  | some db =>
    let (pending, inflight, _) := db.depth firstQueue
    (drainLoop pending inflight deadline io.polls).map fun r => (s', .ok (.drained tenantId r.1 r.2))

/-- Answer a request; `none` when it has not returned. -/
def serve (x : Externals) (s : Server R) (clock : Clock) (io : Inputs) : Rpc → Option (Server R × Answer R)
  | .provisionTenant tenantId tier =>
    let (s', ok) := s.provisionTenant tenantId tier clock
    some (s', if ok then .ok (.tenant tenantId true "provisioned") else .error (queueError x .rocksdb))
  | .dropTenant tenantId =>
    let (s', ok) := s.dropTenant tenantId
    some (s', if ok then .ok (.tenant tenantId true "dropped") else .error (queueError x .rocksdb))
  | .updatePolicy tenantId policy =>
    some (s.updatePolicy tenantId policy clock,
      if policy.isSome then .ok (.tenant tenantId true "policy updated")
      else .error ⟨.invalidArgument, "policy required"⟩)
  | .getPolicy tenantId =>
    some (s, match s.scheduler.policy tenantId with
      | some policy => .ok (.policy tenantId policy.toPolicy)
      | none => .error (notFound "tenant not found"))
  | .setNamespacePolicy r => some (s.serveSetNamespacePolicy x r)
  | .getNamespacePolicy tenantId =>
    some (s, match s.registry.getPolicy tenantId with
      | some policy => .ok (.namespacePolicy (policy.response tenantId))
      | none => .error (notFound "tenant not found"))
  | .getTenantStatus tenantId => some (s, s.serveStatus x tenantId)
  | .listTenants => some (s, .ok (.tenants s.registry.listTenants))
  | .enqueueTask tenantId queue payload => s.serveEnqueue x tenantId queue [Bytes.utf8 payload] io
  | .enqueueBatch tenantId queue payloads =>
    if payloads = [] then some (s, .error ⟨.invalidArgument, "payloads must not be empty"⟩)
    else s.serveEnqueue x tenantId queue (payloads.map Bytes.utf8) io
  | .dequeueTasks tenantId queue limit => s.serveDequeue x tenantId queue limit io
  | .ackTask tenantId ackKey => s.serveAck x tenantId ackKey io
  | .ackBatch tenantId ackKeys => s.serveAckBatch x tenantId ackKeys io
  | .nackTask tenantId ackKey => s.serveNack x tenantId ackKey io
  | .getTenantStats tenantId =>
    some (s, match s.collector.snapshot tenantId with
      | some stats => .ok (.stats stats.response)
      | none => .error (notFound "tenant stats not found"))
  | .listAllStats => some (s, .ok (.allStats (s.collector.allSnapshots.map TenantStats.response)))
  | .getThrottleStatus tenantId =>
    some (s, match s.throttles.lookup tenantId with
      | some state => .ok (.throttle state)
      | none => .error (notFound "no throttle state"))
  | .listThrottled => some (s, .ok (.throttled s.throttles.values))
  | .forceReleaseThrottle tenantId =>
    some (s.forceReleaseThrottle tenantId clock, .ok (.tenant tenantId true "throttle released"))
  | .getBaselineStatus tenantId =>
    some (s, match s.baselines.snapshot tenantId with
      | some b => .ok (.baseline b.status)
      | none => .error (notFound "no baseline"))
  | .listAllBaselines => some (s, .ok (.baselines (s.baselines.allSnapshots.map TenantBaseline.status)))
  | .pauseTenant tenantId => some (s.servePaused tenantId true "paused")
  | .resumeTenant tenantId => some (s.servePaused tenantId false "resumed")
  | .drainTenant tenantId timeoutSecs => s.serveDrain x tenantId timeoutSecs clock io
  | .purgeDlq tenantId =>
    (s.callTenant tenantId io .purgeDlq).map
      (conclude x (cfDlq tenantId) (fun _ c => c) fun reply => .purged tenantId reply.removed)
  | .replayDlq tenantId =>
    (s.callTenant tenantId io .replayDlq).map
      (conclude x (cfPending tenantId) (fun _ c => c) fun reply => .replayed tenantId reply.removed)
  | .compactTenant tenantId =>
    let (s', ok) := s.compactTenant tenantId io.compaction
    some (s', if ok then .ok (.compacted tenantId true)
      else .error (queueError x (.columnFamilyMissing (cfPending tenantId))))

end Server

/-! ## Sessions -/

/-- The server, and the answers that it has given. -/
structure Session (R : Type) where
  server : Server R
  answers : List (Rpc × Answer R)

/-- What happens to the server, with the requests as its clients send them. -/
inductive Traffic where
  | rpc (rpc : Rpc) (clock : Clock) (io : Inputs)
  | compaction (tenantId : String) (c : Compaction)
  | daemonCycle (clock : Clock)
  | reaperTick (now : Nat)
  | restart (clock : Clock)

namespace Session
variable {R : Type} [F64 R]

def next (x : Externals) (c : Session R) : Traffic → Option (Session R)
  | .rpc rpc clock io => (c.server.serve x clock io rpc).map fun r => ⟨r.1, c.answers ++ [(rpc, r.2)]⟩
  | .compaction tenantId compaction => some { c with server := c.server.compact tenantId compaction }
  | .daemonCycle clock => some { c with server := c.server.daemonCycle clock }
  | .reaperTick now => some { c with server := c.server.reaperTick now }
  | .restart clock => (Server.main c.server.registry.db clock).map fun s => { c with server := s }

/-- Before the first request. -/
def start (s : Server R) : Session R := ⟨s, []⟩

/-- The session is one with a server that was first started on an empty path. -/
def Reached (x : Externals) (c : Session R) : Prop :=
  ∃ s clock, Server.main (.fresh : Database R) clock = some s ∧ Runs.Run (next x) (fun _ _ => True) (start s) c

end Session

end RocksQueue
