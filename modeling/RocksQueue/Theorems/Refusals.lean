import RocksQueue.Theorems.Provenance
import RocksQueue.Theorems.Quota
import RocksQueue.Theorems.Tables
import RocksQueue.Theorems.Waits

/-! # Refusals

As long as RocksDB's calls succeed, a request that is answered with an error has changed nothing, and the code of the
error tells why. No state that the server reaches has a record that does not deserialize, so the only calls that fail
are enqueues over the quota. -/

namespace RocksQueue

/-! ## Calls that fail -/

section Calls
variable {tenant queue : String} {db : TenantDb} {policy : NamespacePolicy} {incoming : Nat} {io : Inputs} {e : QueueError}
  {t t' : Tenant} {call : Call}

/-- The error says how far the queue is over its quota. -/
theorem enforceQuota_error (h : enforceQuota tenant db queue policy incoming io = some (.error e)) :
    ∃ quota, policy.backlogQuota = some quota ∧ quota < db.backlog queue + incoming ∧
      e = quotaExceeded tenant queue (db.backlog queue) quota incoming := by
  unfold enforceQuota at h
  split at h
  · cases h
  · rename_i quota hquota
    refine ⟨quota, hquota, ?_⟩
    dsimp only at h
    split at h
    · split at h
      · rename_i hover
        cases h
        exact ⟨hover, rfl⟩
      · cases h
    · split at h
      · cases h
      · rename_i e' hwait
        cases h
        obtain ⟨before, current, now, after, hreadings, -, hover, -, rfl⟩ := waitLoop_error_iff.mp hwait
        have hmem : (current, now) ∈
            io.polls.map fun now => (db.countPrefix .pending queue + db.countPrefix .inflight queue, now) :=
          hreadings ▸ List.mem_append_right _ List.mem_cons_self
        obtain ⟨poll, -, hpoll⟩ := List.mem_map.mp hmem
        cases hpoll
        exact ⟨hover, rfl⟩
      · cases h
    · split at h <;> cases h

/-- Where all records are tasks, a call that fails is an enqueue over the quota, and leaves the tenant as it was. -/
theorem exec_failed (hall : AllTasks t.db) (h : t.exec tenant io call = some (t', .failed e)) :
    t' = t ∧ ∃ queue payloads policy quota, call = .enqueueBatch queue payloads policy ∧ policy.backlogQuota = some quota ∧
      quota < t.db.backlog queue + payloads.length ∧
      e = quotaExceeded tenant queue (t.db.backlog queue) quota payloads.length := by
  cases call with
  | enqueueBatch queue payloads policy =>
    obtain ⟨⟨t₁, r⟩, hr, heq⟩ := Option.map_eq_some_iff.mp h
    unfold Tenant.enqueueBatchSync at hr
    split at hr
    · cases hr
    · split at hr
      · cases hr
      · rename_i e' henforce
        cases hr
        cases heq
        obtain ⟨quota, hquota, hover, he⟩ := enforceQuota_error henforce
        exact ⟨rfl, queue, payloads, policy, quota, rfl, hquota, hover, he⟩
      · cases hr
        cases heq
  | replayDlq =>
    simp only [Tenant.exec, Tenant.replayDlq] at h
    split at h
    · rename_i hloop
      exact absurd hloop (replayLoop_ne_none fun k v hkv => hall (c := .dlq) (OrderedMap.mem_entries.mp hkv))
    · cases h
  | dequeueBatch | dequeueWithMaxInflight | ackBatch | nack | cumulativeAck | reapInflight | purgeDlq => cases h

end Calls

/-! ## Nothing changes -/

section Requests
variable {R : Type} {x : Externals} {s s' : Server R} {clock : Clock} {io : Inputs} {rpc : Rpc}
  {status : Status} {tenant : String}

/-- Nothing that the server keeps differs, but for the scheduler. -/
structure Server.Same (s s' : Server R) : Prop where
  accounts : ∀ tenant, s'.account tenant = s.account tenant
  system : s'.registry.db.system = s.registry.db.system
  seq : s'.registry.seq = s.registry.seq
  collector : s'.collector = s.collector
  baselines : s'.baselines = s.baselines
  throttles : s'.throttles = s.throttles
  cycles : s'.cycles = s.cycles

theorem Server.Same.refl : s.Same s := ⟨fun _ => rfl, rfl, rfl, rfl, rfl, rfl, rfl⟩

/-- Records that are put back as they were. -/
theorem same_setTenantDb {a : Account} (ha : s.account tenant = some a) :
    s.Same { s with registry := { s.registry with db := s.registry.db.setTenantDb tenant a.db } } where
  accounts t := by
    refine account_congr rfl ?_
    show (s.registry.db.setTenantDb tenant a.db).tenantDb? t = _
    rw [tenantDb?_setTenantDb]
    split
    · rename_i heq
      rw [heq, (account_eq_some.mp ha).2]
    · rfl
  system := rfl
  seq := rfl
  collector := rfl
  baselines := rfl
  throttles := rfl
  cycles := rfl

/-- Why a call on a tenant is refused. -/
inductive CallRefused (s : Server R) (tenant : String) : Call → Code → Prop where
  | unprovisioned {call : Call} : s.account tenant = none → CallRefused s tenant call .notFound
  | overQuota {a : Account} {queue : String} {payloads : List Bytes} {policy : NamespacePolicy} {quota : Nat} :
      s.account tenant = some a → policy.backlogQuota = some quota → quota < a.db.backlog queue + payloads.length →
      CallRefused s tenant (.enqueueBatch queue payloads policy) .resourceExhausted

theorem call_refused {call : Call} {family : String} {record : Reply → StatsCollector R → StatsCollector R}
    {respond : Reply → Response R} (hi : s.IntactAt tenant) (hall : ∀ a, s.account tenant = some a → AllTasks a.db)
    (hrecord : ∀ e c, record (.failed e) c = c)
    (h : (s.callTenant tenant io call).map (Server.conclude x family record respond) = some (s', .error status)) :
    s.Same s' ∧ s'.scheduler = s.scheduler ∧ CallRefused s tenant call status.code := by
  obtain ⟨⟨s₁, reply⟩, hcall, hconclude⟩ := Option.map_eq_some_iff.mp h
  cases haccount : s.account tenant with
  | none =>
    rw [callTenant_unprovisioned (account_none hi haccount).2] at hcall
    cases hcall
    cases hconclude
    exact ⟨.refl, rfl, .unprovisioned haccount⟩
  | some a =>
    rw [callTenant_of_account haccount] at hcall
    obtain ⟨⟨t, returned⟩, hexec, hr⟩ := Option.map_eq_some_iff.mp hcall
    cases hr
    cases returned with
    | failed e =>
      obtain ⟨rfl, queue, payloads, policy, quota, rfl, hquota, hover, rfl⟩ := exec_failed (hall a haccount) hexec
      cases hconclude
      rw [hrecord]
      exact ⟨same_setTenantDb haccount, rfl, .overQuota haccount hquota hover⟩
    | enqueued | delivered | acked | count | done => cases hconclude

/-- Why a request is refused. -/
inductive Refused (x : Externals) (s : Server R) : Rpc → Code → Prop where
  | malformed {rpc : Rpc} : rpc.Malformed x → Refused x s rpc .invalidArgument
  | unprovisioned {rpc : Rpc} {tenant : String} : rpc.tenantId? = some tenant → s.account tenant = none →
      Refused x s rpc .notFound
  | unthrottled {tenant : String} : s.throttles.lookup tenant = none → Refused x s (.getThrottleStatus tenant) .notFound
  | provisioned {tenant tier : String} {a : Account} : s.account tenant = some a →
      Refused x s (.provisionTenant tenant tier) .internal
  | dropped {tenant : String} : s.account tenant = none → Refused x s (.dropTenant tenant) .internal
  | overQuota {rpc : Rpc} {tenant : String} {a : Account} {quota : Nat} : rpc.account? = some tenant →
      s.account tenant = some a → a.policy.backlogQuota = some quota →
      quota < a.db.backlog rpc.queue + rpc.payloads.length → Refused x s rpc .resourceExhausted

/-- A refused request changes nothing, except that a drain pauses a tenant that only the scheduler knows. -/
structure Refusal (x : Externals) (s : Server R) (rpc : Rpc) (status : Status) (s' : Server R) : Prop where
  same : s.Same s'
  scheduler : s'.scheduler = s.scheduler ∨
    ∃ tenant secs, rpc = .drainTenant tenant secs ∧ s.account tenant = none ∧ s' = s.setPaused tenant true
  cause : Refused x s rpc status.code

/-- What is known of a server that is reached. -/
structure Server.Ready (s : Server R) : Prop where
  intact : s.Intact
  listed : ∀ tenant, s.Listed tenant
  tasks : ∀ tenant a, s.account tenant = some a → AllTasks a.db

theorem ready_of_reached [F64 R] {c : Session R} (h : c.Reached x) : c.server.Ready where
  intact := (sound_of_reached h).intact
  listed := listed_of_reached h.server
  tasks tenant a ha := ((traced_of_reached h).stored tenant a ha).allTasks

theorem account_of_unlisted (hmissing : tenant ∉ s.registry.policies) : s.account tenant = none := by
  have hpolicy : s.registry.getPolicy tenant = none := AList.lookup_eq_none.mpr hmissing
  rw [Server.account, hpolicy]

theorem refusal_same (hcause : Refused x s rpc status.code) : Refusal x s rpc status s := ⟨.refl, Or.inl rfl, hcause⟩

/-- A request that makes a call. -/
theorem refusal_call (hs : s.Ready) {call : Call} {family : String} {record : Reply → StatsCollector R → StatsCollector R}
    {respond : Reply → Response R} (hrpc : rpc.account? = some tenant)
    (hkind : ∀ {queue payloads policy}, call = .enqueueBatch queue payloads policy →
      queue = rpc.queue ∧ payloads.length = rpc.payloads.length ∧ s.registry.getPolicy tenant = some policy)
    (hrecord : ∀ e c, record (.failed e) c = c)
    (h : (s.callTenant tenant io call).map (Server.conclude x family record respond) = some (s', .error status)) :
    Refusal x s rpc status s' := by
  obtain ⟨hsame, hscheduler, hrefused⟩ := call_refused (hs.intact.tenants tenant) (hs.tasks tenant) hrecord h
  refine ⟨hsame, Or.inl hscheduler, ?_⟩
  have htenant : rpc.tenantId? = some tenant := by
    cases rpc <;> cases hrpc <;> rfl
  generalize status.code = code at hrefused ⊢
  cases hrefused with
  | unprovisioned hnone => exact .unprovisioned htenant hnone
  | @overQuota a queue payloads policy quota ha hquota hover =>
    obtain ⟨rfl, hlength, hpolicy⟩ := hkind rfl
    rw [(account_eq_some.mp ha).1] at hpolicy
    cases hpolicy
    rw [hlength] at hover
    exact .overQuota hrpc ha hquota hover

theorem refusal_enqueue (hs : s.Ready) {queue : String} {payloads : List Bytes} (hrpc : rpc.account? = some tenant)
    (hqueue : queueOrDefault queue = rpc.queue) (hlength : payloads.length = rpc.payloads.length)
    (h : s.serveEnqueue x tenant queue payloads io = some (s', .error status)) : Refusal x s rpc status s' := by
  unfold Server.serveEnqueue at h
  split at h
  · rename_i hpolicy
    cases h
    have htenant : rpc.tenantId? = some tenant := by
      cases rpc <;> cases hrpc <;> rfl
    exact refusal_same (.unprovisioned htenant (account_of_unlisted (AList.lookup_eq_none.mp hpolicy)))
  · rename_i policy hpolicy
    refine refusal_call hs hrpc (fun {queue' payloads' policy'} hcall => ?_) (fun _ _ => rfl) h
    cases hcall
    exact ⟨hqueue, hlength, hpolicy⟩

theorem decodeAckKey_error {ackKey : String} (h : decodeAckKey x ackKey = .error status) :
    (decodeAckKey x ackKey).toOption = none ∧ status.code = .invalidArgument := by
  refine ⟨by rw [h]; rfl, ?_⟩
  unfold decodeAckKey at h
  split at h <;> cases h
  rfl

theorem decodeAckKeys_error {ackKeys : List String} (h : decodeAckKeys x ackKeys = .error status) :
    (decodeAckKeys x ackKeys).toOption = none ∧ status.code = .invalidArgument := by
  refine ⟨by rw [h]; rfl, ?_⟩
  induction ackKeys with
  | nil => cases h
  | cons ackKey rest ih =>
    rw [decodeAckKeys] at h
    split at h
    · rename_i status' hstatus
      cases h
      exact (decodeAckKey_error hstatus).2
    · split at h
      · rename_i status' hstatus
        cases h
        exact ih hstatus
      · cases h

theorem account_of_unstored (hnone : s.registry.db.tenantDb? tenant = none) : s.account tenant = none := by
  unfold Server.account
  split
  · rename_i policy db hpolicy hdb
    rw [hnone] at hdb
    cases hdb
  · rfl

theorem refusal_dequeue (hs : s.Ready) {queue : String} {limit : Nat}
    (h : s.serveDequeue x tenant queue limit io = some (s', .error status)) :
    Refusal x s (.dequeueTasks tenant queue limit) status s' := by
  unfold Server.serveDequeue at h
  dsimp only at h
  split at h
  · rename_i hpolicy
    cases h
    exact refusal_same (.unprovisioned rfl (account_of_unlisted (AList.lookup_eq_none.mp hpolicy)))
  · split at h
    · cases h
    · rename_i s₁ hcall
      split at h
      · cases h
      · cases h
        rcases Server.callTenant_cases hcall with ⟨hdb, rfl, -⟩ | ⟨_, _, _, _, _, _, hreply⟩
        · exact refusal_same (.unprovisioned rfl (account_of_unstored hdb))
        · cases hreply
    · cases h

theorem refusal_setNamespacePolicy (hs : s.Ready) {r : NamespacePolicyRequest}
    (h : some (s.serveSetNamespacePolicy x r) = some (s', (.error status : Answer R))) :
    Refusal x s (.setNamespacePolicy r) status s' := by
  have hsystem := (hs.intact.tenants r.tenantId).system
  simp only [Server.serveSetNamespacePolicy, Server.setNamespacePolicy, TenantRegistry.updateNamespacePolicy,
    Database.apply, hsystem, if_true] at h
  by_cases hin : r.tenantId ∈ s.registry.policies
  · simp only [if_pos hin, if_true] at h
    cases h
  · simp only [if_neg hin] at h
    cases h
    exact refusal_same (.unprovisioned rfl (account_of_unlisted hin))

theorem refusal_paused (hs : s.Ready) {paused : Bool} {message : String} (hrpc : rpc.tenantId? = some tenant)
    (h : some (s.servePaused tenant paused message) = some (s', (.error status : Answer R))) : Refusal x s rpc status s' := by
  unfold Server.servePaused Server.setPaused at h
  cases hset : s.scheduler.setPaused tenant paused with
  | some w =>
    rw [hset] at h
    cases h
  | none =>
    rw [hset] at h
    cases h
    refine refusal_same (.unprovisioned hrpc (account_of_unlisted fun hin => ?_))
    have hstate : (s.scheduler.tenants.lookup tenant).isSome = true := (hs.listed tenant).state hin
    unfold WFQScheduler.setPaused at hset
    split at hset
    · cases hset
    · rename_i hnone
      rw [hnone] at hstate
      cases hstate

theorem refusal_drain {timeoutSecs : Nat} (h : s.serveDrain x tenant timeoutSecs clock io = some (s', .error status)) :
    Refusal x s (.drainTenant tenant timeoutSecs) status s' := by
  unfold Server.serveDrain at h
  dsimp only at h
  split at h
  · rename_i hnone
    cases h
    have haccount : s.account tenant = none := account_of_unstored hnone
    exact ⟨⟨fun _ => rfl, rfl, rfl, rfl, rfl, rfl, rfl⟩, Or.inr ⟨tenant, timeoutSecs, rfl, haccount, rfl⟩,
      .unprovisioned rfl haccount⟩
  · obtain ⟨r, -, hr⟩ := Option.map_eq_some_iff.mp h
    cases hr

variable [F64 R]

theorem refusal_provision (hs : s.Ready) {tier : String}
    (h : s.serve x clock io (.provisionTenant tenant tier) = some (s', .error status)) :
    Refusal x s (.provisionTenant tenant tier) status s' := by
  have hi := hs.intact.tenants tenant
  have hserved := rpc_served hi rfl h
  obtain ⟨db', ok, hrun, hcall⟩ := provisionTenant_cases s.registry tenant (tierPolicy tier tenant)
  simp only [Server.serve, Server.provisionTenant, hcall] at h
  cases ok with
  | true => cases h
  | false =>
    have hsame := provision_refused hi.system (fun name hname => account_iff_families hi hname) (congrArg Prod.snd hrun)
    rw [hrun] at hsame
    cases hsame
    cases h
    cases haccount : s.account tenant with
    | none =>
      rw [haccount] at hserved
      have hanswer := congrArg Prod.snd (Option.some.inj hserved)
      cases hanswer
    | some a => exact refusal_same (.provisioned haccount)

theorem refusal_drop (hs : s.Ready) (h : s.serve x clock io (.dropTenant tenant) = some (s', .error status)) :
    Refusal x s (.dropTenant tenant) status s' := by
  have hi := hs.intact.tenants tenant
  have hserved := rpc_served hi rfl h
  obtain ⟨db', ok, hrun, hcall⟩ := dropTenant_cases s.registry tenant
  simp only [Server.serve, Server.dropTenant, hcall] at h
  cases ok with
  | true => cases h
  | false =>
    have hsame := drop_refused hi.system (fun name hname => account_iff_families hi hname) (congrArg Prod.snd hrun)
    rw [hrun] at hsame
    cases hsame
    cases h
    cases haccount : s.account tenant with
    | some a =>
      rw [haccount] at hserved
      have hanswer := congrArg Prod.snd (Option.some.inj hserved)
      cases hanswer
    | none => exact refusal_same (.dropped haccount)

/-- A request that is answered with an error is refused. -/
theorem refusal_of_serve (hs : s.Ready) (h : s.serve x clock io rpc = some (s', .error status)) :
    Refusal x s rpc status s' := by
  cases rpc with
  | provisionTenant t tier => exact refusal_provision hs h
  | dropTenant t => exact refusal_drop hs h
  | updatePolicy t policy =>
    cases policy <;> cases h
    exact refusal_same (.malformed rfl)
  -- A tenant that is provisioned is known to the scheduler.
  | getPolicy t =>
    simp only [Server.serve] at h
    split at h
    · cases h
    · rename_i hnone
      cases h
      refine refusal_same (.unprovisioned rfl (account_of_unlisted fun hin => ?_))
      have hstate := (hs.listed t).state hin
      rw [WFQScheduler.policy, Option.map_eq_none_iff] at hnone
      simp [Server.registered, hnone] at hstate
  | setNamespacePolicy r => exact refusal_setNamespacePolicy hs h
  | getNamespacePolicy t =>
    simp only [Server.serve] at h
    split at h
    · cases h
    · rename_i hnone
      cases h
      exact refusal_same (.unprovisioned rfl (account_of_unlisted (AList.lookup_eq_none.mp hnone)))
  | getTenantStatus t =>
    simp only [Server.serve, Server.serveStatus] at h
    split at h
    · rename_i hnone
      cases h
      exact refusal_same (.unprovisioned rfl (account_of_unstored hnone))
    · cases h
  | enqueueTask t queue payload => exact refusal_enqueue hs rfl rfl rfl h
  | enqueueBatch t queue payloads =>
    simp only [Server.serve] at h
    split at h
    · rename_i hnil
      cases h
      exact refusal_same (.malformed hnil)
    · exact refusal_enqueue hs rfl rfl (List.length_map _) h
  | dequeueTasks t queue limit => exact refusal_dequeue hs h
  | ackTask t ackKey =>
    simp only [Server.serve, Server.serveAck] at h
    split at h
    · rename_i status' hstatus
      cases h
      obtain ⟨hnone, hcode⟩ := decodeAckKey_error hstatus
      exact refusal_same (hcode ▸ .malformed hnone)
    · refine refusal_call hs rfl (fun hcall => by cases hcall) (fun _ _ => rfl) h
  | ackBatch t ackKeys =>
    simp only [Server.serve, Server.serveAckBatch] at h
    split at h
    · rename_i hnil
      cases h
      exact refusal_same (.malformed (Or.inl hnil))
    · split at h
      · rename_i status' hstatus
        cases h
        obtain ⟨hnone, hcode⟩ := decodeAckKeys_error hstatus
        exact refusal_same (hcode ▸ .malformed (Or.inr hnone))
      · refine refusal_call hs rfl (fun hcall => by cases hcall) (fun _ _ => rfl) h
  | nackTask t ackKey =>
    simp only [Server.serve, Server.serveNack] at h
    split at h
    · rename_i status' hstatus
      cases h
      obtain ⟨hnone, hcode⟩ := decodeAckKey_error hstatus
      exact refusal_same (hcode ▸ .malformed hnone)
    · refine refusal_call hs rfl (fun hcall => by cases hcall) (fun _ _ => rfl) h
  -- The collector and the baselines know the tenants that are provisioned.
  | getTenantStats t =>
    simp only [Server.serve] at h
    split at h
    · cases h
    · rename_i hnone
      cases h
      refine refusal_same (.unprovisioned rfl (account_of_unlisted fun hin => ?_))
      have hstats := (hs.listed t).stats.mpr hin
      rw [StatsCollector.snapshot, Option.map_eq_none_iff] at hnone
      simp [Server.registered, hnone] at hstats
  | getThrottleStatus t =>
    simp only [Server.serve] at h
    split at h
    · cases h
    · rename_i hnone
      cases h
      exact refusal_same (.unthrottled hnone)
  | getBaselineStatus t =>
    simp only [Server.serve] at h
    split at h
    · cases h
    · rename_i hnone
      cases h
      refine refusal_same (.unprovisioned rfl (account_of_unlisted fun hin => ?_))
      have hbaseline := (hs.listed t).baseline.mpr hin
      have hlookup : s.baselines.lookup t = none := hnone
      simp [Server.registered, hlookup] at hbaseline
  | pauseTenant t => exact refusal_paused hs rfl h
  | resumeTenant t => exact refusal_paused hs rfl h
  | drainTenant t timeoutSecs => exact refusal_drain h
  | purgeDlq t => exact refusal_call hs rfl (fun hcall => by cases hcall) (fun _ _ => rfl) h
  | replayDlq t => exact refusal_call hs rfl (fun hcall => by cases hcall) (fun _ _ => rfl) h
  -- A compaction fails for a tenant that lacks a family, and then nothing is compacted.
  | compactTenant t =>
    simp only [Server.serve] at h
    rcases s.compactTenant_cases t io.compaction with ⟨hnone, heq⟩ | ⟨-, heq⟩
    · rw [heq] at h
      cases h
      exact refusal_same (.unprovisioned rfl (account_of_unstored hnone))
    · rw [heq] at h
      cases h
  | listTenants => cases h
  | listAllStats => cases h
  | listThrottled => cases h
  | forceReleaseThrottle t => cases h
  | listAllBaselines => cases h

/-- A request that is answered with an error leaves everything as it was: policies, records, counter, statistics,
    baselines and throttles, for every tenant. Only a drain of a tenant that is not provisioned may leave a mark, when an
    update of its policy has made it known to the scheduler. -/
theorem refused_changes_nothing {c : Session R} (h : c.Reached x)
    (hserve : c.server.serve x clock io rpc = some (s', .error status)) :
    c.server.Same s' ∧ (s'.scheduler = c.server.scheduler ∨ ∃ tenant secs,
      rpc = .drainTenant tenant secs ∧ c.server.account tenant = none ∧ s' = c.server.setPaused tenant true) := by
  have hrefusal := refusal_of_serve (ready_of_reached h) hserve
  exact ⟨hrefusal.same, hrefusal.scheduler⟩

end Requests

/-! ## In exact arithmetic -/

section Exact

/-- A second enqueue is over the quota of one task. -/
def overQuota : List Traffic :=
  [.rpc (.provisionTenant "t" "standard") ⟨0, 0⟩ { now := 0 },
    .rpc (.setNamespacePolicy ⟨"t", 1, "reject", 0, 0, 0, 0⟩) ⟨0, 0⟩ { now := 0 },
    .rpc (.enqueueTask "t" "" "one") ⟨1, 1⟩ { now := 1, ids := ["a"] }]

theorem overQuota_refused : ∃ (c : Session Rat) (s' : Server Rat), c.Reached plainTexts ∧
    c.server.serve plainTexts ⟨2, 2⟩ { now := 2, ids := ["b"] } (.enqueueTask "t" "" "two") = some (s', .error ⟨.resourceExhausted,
      "Backlog quota exceeded for tenant=t queue=default: current=1 quota=1 incoming=1"⟩) := by
  have hruns : ((Runs.exec (Session.next plainTexts) (.start (.empty : Server Rat)) overQuota).bind fun c =>
      (c.server.serve plainTexts ⟨2, 2⟩ { now := 2, ids := ["b"] } (.enqueueTask "t" "" "two")).map Prod.snd) =
      some (.error ⟨.resourceExhausted,
        "Backlog quota exceeded for tenant=t queue=default: current=1 quota=1 incoming=1"⟩) := by
    decide +kernel
  obtain ⟨c, hc, hanswer⟩ := Option.bind_eq_some_iff.mp hruns
  obtain ⟨⟨s', answer⟩, hserve, rfl⟩ := Option.map_eq_some_iff.mp hanswer
  exact ⟨c, s', ⟨.empty, ⟨0, 0⟩, rfl, Runs.run_of_exec hc⟩, hserve⟩

theorem refused_changes_nothing_overQuota : ∃ (c : Session Rat) (s' : Server Rat), c.Reached plainTexts ∧
    c.server.Same s' ∧ (s'.scheduler = c.server.scheduler ∨
      ∃ tenant secs, (.enqueueTask "t" "" "two" : Rpc) = .drainTenant tenant secs ∧ c.server.account tenant = none ∧
        s' = c.server.setPaused tenant true) := by
  obtain ⟨c, s', hreached, hserve⟩ := overQuota_refused
  exact ⟨c, s', hreached, refused_changes_nothing hreached hserve⟩

end Exact

end RocksQueue
