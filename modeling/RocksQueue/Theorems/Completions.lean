import RocksQueue.Theorems.Conservation
import RocksQueue.Theorems.Footprints
import RocksQueue.Theorems.LifetimeTotals
import RocksQueue.Workers

/-! # Completions

Four callers of the registry record completions: `AckTask`, `AckBatch`, `NackTask` and the worker that has run a task. An
acknowledgement returns what it has removed, and that is what is recorded. A negative acknowledgement returns nothing, and
one is recorded whether or not the key was inflight. -/

namespace RocksQueue

open Runs

/-! ## Families -/

namespace TenantDb
variable {db : TenantDb} {keys : List Key}

theorem cf_deletes_of_ne {c : Cf} (c' : Cf) (h : c' ≠ c) : (db.write (deletes c keys)).cf c' = db.cf c' := by
  induction keys generalizing db with
  | nil => rfl
  | cons key keys ih =>
    have hdelete : (db.apply (.delete c key)).cf c' = db.cf c' := by
      cases c <;> cases c' <;> first | rfl | exact absurd rfl h
    exact ih.trans hdelete

/-- As many records leave as keys are counted. -/
theorem inflightSize_ackBatch (db : TenantDb) (keys : List Key) :
    (db.ackBatch keys).1.inflight.size + (db.ackBatch keys).2.length = db.inflight.size := by
  have hcounted : ∀ key ∈ db.ackLoop [] keys, (db.get .inflight key).isSome := fun _ hkey => (mem_ackLoop.mp hkey).2.2
  have hsize : (db.ackBatch keys).1.size + (db.ackBatch keys).2.length = db.size := size_deletes ackLoop_nodup hcounted
  have hpending : (db.ackBatch keys).1.pending = db.pending := cf_deletes_of_ne .pending Cf.noConfusion
  have hdlq : (db.ackBatch keys).1.dlq = db.dlq := cf_deletes_of_ne .dlq Cf.noConfusion
  simp only [size, hpending, hdlq] at hsize
  omega

theorem length_ackLoop_le : (db.ackLoop [] keys).length ≤ keys.length :=
  (List.subperm_of_subset ackLoop_nodup fun _ hkey => (mem_ackLoop.mp hkey).1).length_le

/-- A negative acknowledgement moves the record of its key, if there is one. -/
theorem inflightSize_nack (t : Tenant) (key : Key) (now : Nat) :
    (t.nack key now).db.inflight.size + (if (t.db.get .inflight key).isSome then 1 else 0) = t.db.inflight.size := by
  have herase := OrderedMap.size_erase (m := t.db.inflight) (k := key)
  have hget : t.db.inflight.get? key = t.db.get .inflight key := rfl
  rw [hget] at herase
  unfold Tenant.nack
  split
  · rename_i hnone
    simp [hnone]
  · rename_i raw hsome
    simp [hsome] at herase ⊢
    exact herase
  · rename_i task hsome
    simp [hsome] at herase ⊢
    split
    · exact herase
    · exact herase

end TenantDb

/-! ## Counters -/

/-- The counters of the tenant have this many completions. -/
def StatsCollector.Completed {R : Type} (c : StatsCollector R) (tenant : String) (acked nacked : Nat) : Prop :=
  (countersOf c tenant).map (fun k => (k.totalAcked, k.totalNacked)) = some (acked % u64Size, nacked % u64Size)

namespace StatsCollector.Completed
variable {R : Type} {c c' : StatsCollector R} {tenant : String} {acked nacked : Nat}

theorem of_lookup (h : c.Completed tenant acked nacked) (hlookup : c'.lookup tenant = c.lookup tenant) :
    c'.Completed tenant acked nacked := by
  rw [Completed, countersOf, hlookup]
  exact h

theorem inv (h : c.Completed tenant acked nacked) :
    ∃ k, countersOf c tenant = some k ∧ k.totalAcked = acked % u64Size ∧ k.totalNacked = nacked % u64Size := by
  obtain ⟨k, hk, heq⟩ := Option.map_eq_some_iff.mp h
  exact ⟨k, hk, Prod.mk.inj heq⟩

theorem iff_mod (h : c.Completed tenant acked nacked) (n : Nat) :
    c.Completed tenant acked n ↔ nacked % u64Size = n % u64Size := by
  rw [Completed] at h
  rw [Completed, h, Option.some.injEq, Prod.mk.injEq, eq_self, true_and]

theorem recordAckCount (h : c.Completed tenant acked nacked) (count latencyMs : Nat) :
    (c.recordAckCount tenant count latencyMs).Completed tenant (acked + count) nacked := by
  obtain ⟨k, hk, hacked, hnacked⟩ := h.inv
  refine (congrArg (Option.map _) (countersOf_count.trans (if_pos rfl))).trans ?_
  rw [hk]
  exact congrArg some (Prod.ext (add_mod_wrap hacked) hnacked)

theorem recordNack (h : c.Completed tenant acked nacked) : (c.recordNack tenant).Completed tenant acked (nacked + 1) := by
  obtain ⟨k, hk, hacked, hnacked⟩ := h.inv
  refine (congrArg (Option.map _) (countersOf_count.trans (if_pos rfl))).trans ?_
  rw [hk]
  exact congrArg some (Prod.ext hacked (add_mod_wrap hnacked))

theorem recordEnqueue (h : c.Completed tenant acked nacked) (t : String) (count : Nat) :
    (c.recordEnqueue t count).Completed tenant acked nacked := by
  refine (congrArg (Option.map _) countersOf_count).trans ?_
  split
  · rw [Option.map_map]
    exact h
  · exact h

variable [F64 R]

theorem recordBacklog (h : c.Completed tenant acked nacked) (t : String) (pending inflight : Nat) :
    (c.recordBacklog t pending inflight).Completed tenant acked nacked := by
  have hcounters : countersOf (c.recordBacklog t pending inflight) tenant = countersOf c tenant := by
    refine (congrArg (Option.map _) IdMap.lookup_modify).trans ?_
    split
    · rw [Option.map_map]
      rfl
    · rfl
  rw [Completed, hcounters]
  exact h

theorem refresh (h : c.Completed tenant acked nacked) : c.refresh.Completed tenant acked nacked := by
  rw [Completed, countersOf_refresh, Option.map_map]
  exact h

/-- What a refresh makes visible. -/
theorem snapshot_refresh : (c.refresh.snapshot tenant).map (fun stats => (stats.totalAcked, stats.totalNacked)) =
    (countersOf c tenant).map fun k => (k.totalAcked, k.totalNacked) := by
  rw [snapshot, countersOf, lookup_refresh, Option.map_map, Option.map_map, Option.map_map]
  rfl

end StatsCollector.Completed

/-! ## One step -/

/-- How many records of the tenant are inflight. -/
def Server.inflightSize {R : Type} (s : Server R) (tenant : String) : Nat :=
  match s.registry.db.tenantDb? tenant with
  | some db => db.inflight.size
  | none => 0

/-- What the server does by itself or on request, and what a worker does. -/
inductive CompletionEvent where
  | server (e : Server.Event)
  | work (item : Work) (io : Inputs) (handled : Option Nat)

namespace CompletionEvent
variable {R : Type}

def acks : CompletionEvent → Bool
  | .server (.request (.ackTask _ _) _ _) => true
  | .server (.request (.ackBatch _ _) _ _) => true
  | .work (.process _ _ _) _ (some _) => true
  | _ => false

def nacks : CompletionEvent → Bool
  | .server (.request (.nackTask _ _) _ _) => true
  | .work (.process _ _ _) _ none => true
  | _ => false

/-- The server is not restarted, and the counters of the tenant are not replaced. -/
def Continues (tenant : String) : CompletionEvent → Prop
  | .server (.restart _) => False
  | .server (.request (.provisionTenant t _) _ _) => t ≠ tenant
  | .server (.request (.dropTenant t) _ _) => t ≠ tenant
  | _ => True

def apply [F64 R] (s : Server R) : CompletionEvent → Option (Server R)
  | .server e => s.next e
  | .work item io handled => (s.perform io handled item).map Prod.fst

/-- A negative acknowledgement of the tenant that is recorded names a key that is inflight. -/
def findsKey (tenant : String) (s : Server R) : CompletionEvent → Bool
  | .server (.request (.nackTask t key) _ _) =>
    t ≠ tenant || (s.registry.db.tenantDb? t).all fun db => (db.get .inflight key).isSome
  | .work (.process t key _) _ none =>
    t ≠ tenant || (s.registry.db.tenantDb? t).any fun db => (db.get .inflight key).isSome
  | _ => true

end CompletionEvent

section Calls
variable {R : Type} {s s' : Server R} {tenant t : String} {io : Inputs} {keys : List Key} {key : Key} {acked nacked : Nat}
  {record : Reply → StatsCollector R → StatsCollector R}

/-- A step that is about other tenants. -/
theorem same_of_touches {P : String → Prop} (h : s.Touches P s') (hnot : ¬P tenant) :
    s'.inflightSize tenant = s.inflightSize tenant ∧ s'.collector.lookup tenant = s.collector.lookup tenant := by
  have hfamilies : s'.registry.db.tenantDb? tenant = s.registry.db.tenantDb? tenant :=
    tenantDb?_congr (h.db.families tenant hnot)
  rw [Server.inflightSize, Server.inflightSize, hfamilies]
  exact ⟨rfl, congrArg Registered.stats (h.registered tenant hnot)⟩

theorem collector_callTenant {call : Call} {reply : Option Reply} (h : s.callTenant tenant io call = some (s', reply)) :
    s'.collector = s.collector := by
  rcases Server.callTenant_cases h with ⟨-, rfl, -⟩ | ⟨_, _, _, -, -, rfl, -⟩
  · rfl
  · rfl

/-- What a call does to the records inflight, and what is recorded then. -/
theorem withoutPolicy_cases {call : Call} (h : s.withoutPolicy tenant io call record = some s') :
    (s.registry.db.tenantDb? tenant = none ∧ s' = s) ∨
      ∃ db after reply, s.registry.db.tenantDb? tenant = some db ∧
        Tenant.exec tenant ⟨db, s.registry.seq⟩ io call = some (after, reply) ∧
        s'.inflightSize tenant = after.db.inflight.size ∧ s'.collector = record reply s.collector := by
  obtain ⟨⟨s₁, reply⟩, hcall, hs'⟩ := Option.map_eq_some_iff.mp h
  rcases Server.callTenant_cases hcall with ⟨hnone, rfl, rfl⟩ | ⟨db, after, returned, hdb, hexec, rfl, rfl⟩
  · cases hs'
    exact Or.inl ⟨hnone, rfl⟩
  · cases hs'
    refine Or.inr ⟨db, after, returned, hdb, hexec, ?_, rfl⟩
    simp only [Server.inflightSize, tenantDb?_setTenantDb_self]

/-- An acknowledgement that records what it has removed. -/
theorem completed_ack (hrecord : ∀ (c : StatsCollector R) (counted : List Key), counted.length ≤ keys.length →
      c.Completed tenant acked nacked → (record (.acked counted) c).Completed tenant (acked + counted.length) nacked)
    (h : s.withoutPolicy tenant io (.ackBatch keys) record = some s') (hc : s.collector.Completed tenant acked nacked) :
    s'.collector.Completed tenant (acked + (s.inflightSize tenant - s'.inflightSize tenant)) nacked := by
  rcases withoutPolicy_cases h with ⟨-, rfl⟩ | ⟨db, after, reply, hdb, hexec, hsize, hcollector⟩
  · rw [Nat.sub_self]
    exact hc
  · cases hexec
    have hbefore : s.inflightSize tenant = db.inflight.size := by simp only [Server.inflightSize, hdb]
    have hremoved : s.inflightSize tenant - s'.inflightSize tenant = (db.ackBatch keys).2.length := by
      rw [hsize, hbefore, ← TenantDb.inflightSize_ackBatch db keys]
      exact Nat.add_sub_cancel_left _ _
    rw [hremoved, hcollector]
    exact hrecord s.collector _ TenantDb.length_ackLoop_le hc

/-- A negative acknowledgement moves one record or none. -/
theorem removed_nack (h : s.withoutPolicy tenant io (.nack key) record = some s') :
    (s.registry.db.tenantDb? tenant = none ∧ s' = s) ∨
      ∃ db, s.registry.db.tenantDb? tenant = some db ∧ s'.collector = record .done s.collector ∧
        s.inflightSize tenant - s'.inflightSize tenant = if (db.get .inflight key).isSome then 1 else 0 := by
  rcases withoutPolicy_cases h with hmissing | ⟨db, after, reply, hdb, hexec, hsize, hcollector⟩
  · exact Or.inl hmissing
  · cases hexec
    have hbefore : s.inflightSize tenant = db.inflight.size := by simp only [Server.inflightSize, hdb]
    refine Or.inr ⟨db, hdb, hcollector, ?_⟩
    rw [hsize, hbefore, ← TenantDb.inflightSize_nack ⟨db, s.registry.seq⟩ key io.now]
    exact Nat.add_sub_cancel_left _ _

end Calls

section Steps
variable {R : Type} [F64 R] {s s' : Server R} {tenant : String} {clock : Clock} {io : Inputs} {r : Request}
  {e : CompletionEvent} {acked nacked : Nat}

omit [F64 R] in
theorem completed_recordHandled {c : StatsCollector R} {counted : List Key} (latencyMs : Nat) (hle : counted.length ≤ 1)
    (hc : c.Completed tenant acked nacked) :
    (Server.recordHandled tenant latencyMs (.acked counted) c).Completed tenant (acked + counted.length) nacked := by
  simp only [Server.recordHandled]
  split
  · rename_i hone
    rw [hone]
    exact hc.recordAckCount 1 latencyMs
  · rename_i hnone
    have hzero : counted.length = 0 := by omega
    rw [hzero]
    exact hc

section Unrecorded
variable {record : Reply → StatsCollector R → StatsCollector R}

omit [F64 R]

theorem completed_withoutPolicy (hrecord : ∀ (reply : Reply) (c : StatsCollector R), c.Completed tenant acked nacked →
      (record reply c).Completed tenant acked nacked) {t : String} {call : Call}
    (h : s.withoutPolicy t io call record = some s') (hc : s.collector.Completed tenant acked nacked) :
    s'.collector.Completed tenant acked nacked := by
  rcases withoutPolicy_cases h with ⟨-, rfl⟩ | ⟨db, after, reply, -, -, -, hcollector⟩
  · exact hc
  · rw [hcollector]
    exact hrecord reply s.collector hc

theorem completed_withPolicy (hrecord : ∀ (reply : Reply) (c : StatsCollector R), c.Completed tenant acked nacked →
      (record reply c).Completed tenant acked nacked) {t : String} {call : NamespacePolicy → Call}
    (h : s.withPolicy t io call record = some s') (hc : s.collector.Completed tenant acked nacked) :
    s'.collector.Completed tenant acked nacked := by
  unfold Server.withPolicy at h
  split at h
  · cases h
    exact hc
  · exact completed_withoutPolicy hrecord h hc

end Unrecorded

omit [F64 R] in
theorem completed_recordEnqueued {t : String} {count : Nat} (reply : Reply) (c : StatsCollector R)
    (hc : c.Completed tenant acked nacked) : (Server.recordEnqueued t count reply c).Completed tenant acked nacked := by
  cases reply with
  | enqueued ids => exact hc.recordEnqueue t count
  | _ => exact hc

/-- The other requests to the tenant record no completion. -/
theorem completed_request (hcontinues : (CompletionEvent.server (.request r clock io)).Continues tenant)
    (hacks : (CompletionEvent.server (.request r clock io)).acks = false)
    (hnacks : (CompletionEvent.server (.request r clock io)).nacks = false) (h : s.handle clock io r = some s')
    (hc : s.collector.Completed tenant acked nacked) : s'.collector.Completed tenant acked nacked := by
  cases r with
  -- These two of another tenant: for this one they would begin the counts anew.
  | provisionTenant t tier =>
    cases h
    exact hc.of_lookup (same_of_touches touches_provisionTenant (Ne.symm hcontinues)).2
  | dropTenant t =>
    cases h
    exact hc.of_lookup (same_of_touches touches_dropTenant (Ne.symm hcontinues)).2
  | updatePolicy t policy =>
    cases h
    cases policy with
    | none => exact hc
    | some p => exact hc
  | setNamespacePolicy r =>
    cases h
    exact hc
  -- An enqueue counts its tasks, and no completion.
  | enqueueTask t queue payload => exact completed_withPolicy completed_recordEnqueued h hc
  | enqueueBatch t queue payloads =>
    simp only [Server.handle, Server.enqueueBatch] at h
    split at h
    · cases h
      exact hc
    · exact completed_withPolicy completed_recordEnqueued h hc
  | dequeueTasks t queue limit => exact completed_withPolicy (fun _ _ hc => hc) h hc
  | ackTask t key => cases hacks
  | ackBatch t keys => cases hacks
  | nackTask t key => cases hnacks
  | forceReleaseThrottle t =>
    cases h
    exact hc
  | pauseTenant t =>
    cases h
    exact hc
  | resumeTenant t =>
    cases h
    exact hc
  | drainTenant t =>
    cases h
    exact hc
  | purgeDlq t => exact completed_withoutPolicy (fun _ _ hc => hc) h hc
  | replayDlq t => exact completed_withoutPolicy (fun _ _ hc => hc) h hc
  | compactTenant t =>
    cases h
    exact hc

theorem completed_recordBacklogs {db : Database R} {queues : List String} {c : StatsCollector R} (t : String)
    (hc : c.Completed tenant acked nacked) : (Server.recordBacklogs db queues c t).Completed tenant acked nacked := by
  unfold Server.recordBacklogs
  split
  · exact hc
  · rename_i tdb _
    induction queues generalizing c with
    | nil => exact hc
    | cons queue queues ih => exact ih (hc.recordBacklog t _ _)

theorem collector_updateBaseline {stats : TenantStats R} : (s.updateBaseline clock stats).collector = s.collector := by
  unfold Server.updateBaseline
  split
  · rfl
  · rfl

theorem collector_rebased (snapshots : List (TenantStats R)) : (s.rebased clock snapshots).collector = s.counted.collector := by
  unfold Server.rebased
  generalize s.counted = s
  induction snapshots generalizing s with
  | nil => rfl
  | cons stats snapshots ih => exact (ih (s := s.updateBaseline clock stats)).trans collector_updateBaseline

/-- A cycle of the daemon refreshes the snapshots and keeps the totals. -/
theorem completed_daemonCycle (hc : s.collector.Completed tenant acked nacked) :
    (s.daemonCycle clock).collector.Completed tenant acked nacked := by
  have hbacklogs : ∀ (tenants : List String) (c : StatsCollector R), c.Completed tenant acked nacked →
      (tenants.foldl (Server.recordBacklogs s.registry.db watchedQueues) c).Completed tenant acked nacked := by
    intro tenants
    induction tenants with
    | nil => exact fun c hc => hc
    | cons t tenants ih => exact fun c hc => ih _ (completed_recordBacklogs t hc)
  have hcycle : (s.daemonCycle clock).collector = s.counted.collector := by
    rw [Server.daemonCycle_eq]
    simp only
    split
    · exact collector_rebased _
    · exact collector_rebased _
  rw [hcycle]
  exact hbacklogs _ _ hc.refresh

omit [F64 R] in
/-- An acknowledgement, of this tenant or of another. -/
theorem completed_ackCall {t : String} {keys : List Key} {record : Reply → StatsCollector R → StatsCollector R}
    (hfor : RecordsFor t record)
    (hrecord : ∀ (c : StatsCollector R) (counted : List Key), counted.length ≤ keys.length →
      c.Completed t acked nacked → (record (.acked counted) c).Completed t (acked + counted.length) nacked)
    (h : s.withoutPolicy t io (.ackBatch keys) record = some s') (hc : s.collector.Completed tenant acked nacked) :
    s'.collector.Completed tenant (acked + (s.inflightSize tenant - s'.inflightSize tenant)) nacked := by
  by_cases hown : tenant = t
  · subst hown
    exact completed_ack hrecord h hc
  · obtain ⟨hsize, hlookup⟩ := same_of_touches (touches_withoutPolicy hfor h) hown
    rw [hsize, Nat.sub_self]
    exact hc.of_lookup hlookup

omit [F64 R] in
theorem recordsFor_recordHandled (t : String) (latencyMs : Nat) :
    RecordsFor t (Server.recordHandled t latencyMs : Reply → StatsCollector R → StatsCollector R) := by
  intro reply c u hu
  cases reply with
  | acked counted =>
    simp only [Server.recordHandled]
    split
    · exact AList.lookup_modify.trans (if_neg hu)
    · rfl
  | _ => rfl

omit [F64 R] in
/-- A client's negative acknowledgement is recorded when it has been carried out. -/
theorem completed_nackTask {t : String} {key : Key} (h : s.nackTask t key io = some s')
    (hc : s.collector.Completed tenant acked nacked) :
    s'.collector.Completed tenant acked (nacked + (s.inflightSize tenant - s'.inflightSize tenant) +
      if (CompletionEvent.server (.request (.nackTask t key) clock io)).findsKey tenant s then 0 else 1) := by
  by_cases hown : t = tenant
  · subst hown
    rcases removed_nack h with ⟨hnone, rfl⟩ | ⟨db, hdb, hcollector, hremoved⟩
    · simpa [CompletionEvent.findsKey, hnone] using hc
    · have hrecorded : s'.collector.Completed t acked (nacked + 1) := by
        rw [hcollector]
        exact hc.recordNack
      rw [hremoved]
      cases hkey : (db.get .inflight key).isSome <;> simpa [CompletionEvent.findsKey, hdb, hkey] using hrecorded
  · obtain ⟨hsize, hlookup⟩ := same_of_touches (touches_withoutPolicy recordsFor_recordNacked h) (Ne.symm hown)
    rw [hsize, Nat.sub_self]
    simpa [CompletionEvent.findsKey, hown] using hc.of_lookup hlookup

omit [F64 R] in
/-- A worker records its negative acknowledgement first. -/
theorem completed_processFailed {t : String} {key : Key} {task : Task} (h : s.processTask t key io none = some s')
    (hc : s.collector.Completed tenant acked nacked) :
    s'.collector.Completed tenant acked (nacked + (s.inflightSize tenant - s'.inflightSize tenant) +
      if (CompletionEvent.work (.process t key task) io none).findsKey tenant s then 0 else 1) := by
  by_cases hown : t = tenant
  · subst hown
    have hrecorded : (s.collector.recordNack t).Completed t acked (nacked + 1) := hc.recordNack
    have hcall : Server.withoutPolicy { s with collector := s.collector.recordNack t } t io (.nack key) (fun _ c => c) =
        some s' := h
    rcases removed_nack hcall with ⟨hnone, rfl⟩ | ⟨db, hdb, hcollector, hremoved⟩
    · have hmissing : s.registry.db.tenantDb? t = none := hnone
      simpa [CompletionEvent.findsKey, hmissing, Server.inflightSize] using hrecorded
    · have hfamilies : s.registry.db.tenantDb? t = some db := hdb
      have hmoved : s.inflightSize t - s'.inflightSize t = if (db.get .inflight key).isSome then 1 else 0 := hremoved
      rw [hmoved, hcollector]
      cases hkey : (db.get .inflight key).isSome <;> simpa [CompletionEvent.findsKey, hfamilies, hkey] using hrecorded
  · have hrecord : s.Touches (· = t) { s with collector := s.collector.recordNack t } :=
      touches_collector fun u hu => AList.lookup_modify.trans (if_neg hu)
    have htouches := hrecord.trans (touches_withoutPolicy (fun _ _ _ _ => rfl) h)
    obtain ⟨hsize, hlookup⟩ := same_of_touches htouches (Ne.symm hown)
    rw [hsize, Nat.sub_self]
    simpa [CompletionEvent.findsKey, hown] using hc.of_lookup hlookup

/-- What a step records: the records that an acknowledgement has removed, those that a negative one has moved, and one more
    if there was none to move. -/
theorem completed_apply (hcontinues : e.Continues tenant) (h : e.apply s = some s')
    (hc : s.collector.Completed tenant acked nacked) :
    s'.collector.Completed tenant
      (acked + if e.acks then s.inflightSize tenant - s'.inflightSize tenant else 0)
      (nacked + (if e.nacks then s.inflightSize tenant - s'.inflightSize tenant else 0) +
        if e.findsKey tenant s then 0 else 1) := by
  cases e with
  | server e =>
    cases e with
    | request r clock io =>
      cases r with
      -- Of the requests these three count what they have done.
      | ackTask t key =>
        exact completed_ackCall recordsFor_recordAcked (fun _ counted (hle : counted.length ≤ [key].length) hc =>
          completed_recordHandled 0 hle hc) h hc
      | ackBatch t keys =>
        simp only [CompletionEvent.apply, Server.next, Server.handle, Server.ackBatch] at h
        split at h
        · cases h
          simpa [CompletionEvent.findsKey] using hc
        · exact completed_ackCall recordsFor_recordAckedBatch (fun _ counted _ hc => hc.recordAckCount counted.length 0) h hc
      | nackTask t key => exact completed_nackTask h hc
      | _ => exact completed_request hcontinues rfl rfl h hc
    | compaction t c =>
      cases h
      exact hc
    | daemonCycle clock =>
      cases h
      exact completed_daemonCycle hc
    | reaperTick now =>
      cases h
      exact hc
    | restart clock => exact absurd hcontinues id
  | work item io handled =>
    obtain ⟨⟨s₁, more⟩, hperform, rfl⟩ := Option.map_eq_some_iff.mp h
    cases item with
    | dequeue t queue slots =>
      obtain ⟨⟨s₂, reply⟩, hcall, heq⟩ := Option.map_eq_some_iff.mp hperform
      cases heq
      rw [collector_callTenant hcall]
      exact hc
    | process t key task =>
      obtain ⟨s₂, hprocess, heq⟩ := Option.map_eq_some_iff.mp hperform
      cases heq
      -- A worker acknowledges a task that it has handled, and puts the others back.
      cases handled with
      | some latencyMs =>
        exact completed_ackCall (recordsFor_recordHandled t latencyMs)
          (fun _ counted (hle : counted.length ≤ [key].length) hc => completed_recordHandled latencyMs hle hc) hprocess hc
      | none => exact completed_processFailed hprocess hc

end Steps

/-! ## Runs -/

/-- The server, and how many inflight records of one tenant were removed by acknowledgements and moved by negative ones. -/
structure CompletionRun (R : Type) where
  server : Server R
  acked : Nat
  nacked : Nat

namespace CompletionRun
variable {R : Type} [F64 R] {c c' : CompletionRun R} {e : CompletionEvent} {tenant : String}

def start (s : Server R) : CompletionRun R := ⟨s, 0, 0⟩

def next (tenant : String) (c : CompletionRun R) (e : CompletionEvent) : Option (CompletionRun R) :=
  (e.apply c.server).map fun s' =>
    let removed := c.server.inflightSize tenant - s'.inflightSize tenant
    { server := s'
      acked := c.acked + if e.acks then removed else 0
      nacked := c.nacked + if e.nacks then removed else 0 }

/-- After a refresh, the totals of the tenant are what was counted here. -/
def Right (tenant : String) (c : CompletionRun R) : Prop :=
  (c.server.collector.refresh.snapshot tenant).map (fun stats => (stats.totalAcked, stats.totalNacked)) =
    some (c.acked, c.nacked)

/-- Negative acknowledgements of the tenant find their key. -/
def findsKey (tenant : String) (c : CompletionRun R) (e : CompletionEvent) : Bool := e.findsKey tenant c.server

def InRange (c : CompletionRun R) : Prop := c.acked < 2 ^ 64 ∧ c.nacked < 2 ^ 64

theorem wraps_same_iff {n : Nat} {same : Bool} : (n + if same then 0 else 1) % u64Size = n % u64Size ↔ same = true := by
  cases same with
  | true => simp
  | false =>
    simp only [Bool.false_eq_true, if_false, iff_false, u64Size]
    omega

theorem right_iff (h : ∃ nacked, c.server.collector.Completed tenant c.acked nacked) :
    c.Right tenant ↔ c.server.collector.Completed tenant c.acked c.nacked ∧ c.InRange := by
  obtain ⟨nacked, h⟩ := h
  have htotals : c.Right tenant ↔ c.acked % u64Size = c.acked ∧ nacked % u64Size = c.nacked := by
    rw [StatsCollector.Completed] at h
    rw [Right, StatsCollector.Completed.snapshot_refresh, h, Option.some.injEq, Prod.mk.injEq]
  rw [htotals, h.iff_mod, InRange]
  simp only [u64Size]
  omega

theorem counted_next (hcontinues : e.Continues tenant) (hnext : c.next tenant e = some c')
    (h : ∃ nacked, c.server.collector.Completed tenant c.acked nacked) :
    (∃ nacked, c'.server.collector.Completed tenant c'.acked nacked) ∧
      (c.server.collector.Completed tenant c.acked c.nacked →
        (c'.server.collector.Completed tenant c'.acked c'.nacked ↔ c.findsKey tenant e = true)) ∧
      (c'.InRange → c.InRange) := by
  obtain ⟨s', hs', rfl⟩ := Option.map_eq_some_iff.mp hnext
  refine ⟨?_, ?_, ?_⟩
  · obtain ⟨nacked, h⟩ := h
    exact ⟨_, completed_apply hcontinues hs' h⟩
  · intro hc
    rw [(completed_apply hcontinues hs' hc).iff_mod]
    exact wraps_same_iff
  · rintro ⟨hacked, hnacked⟩
    exact ⟨lt_of_le_of_lt (Nat.le_add_right _ _) hacked, lt_of_le_of_lt (Nat.le_add_right _ _) hnacked⟩

/-- In every run without restarts, the totals of a tenant are right after a refresh, whenever it comes, exactly if every
    negative acknowledgement that is recorded has found its key inflight, and fewer than `2 ^ 64` records were moved either
    way. -/
theorem right_iff_findsKey {s : Server R} (hstart : s.collector.Completed tenant 0 0) {events : List CompletionEvent}
    (hcontinue : ∀ e ∈ events, e.Continues tenant) (h : exec (next tenant) (start s) events = some c) :
    Always (next tenant) (Right tenant) (start s) events ↔
      execWhile (next tenant) (findsKey tenant) (start s) events = some c ∧ c.InRange :=
  always_iff (I := fun c => ∃ nacked, c.server.collector.Completed tenant c.acked nacked) right_iff
    (fun h he hnext => counted_next he hnext h) hcontinue h ⟨0, hstart⟩ hstart

/-- A tenant on a first start. -/
def firstTenant : Server Rat := (Server.empty.provisionTenant "t" "standard" ⟨0, 0⟩).1

theorem completed_firstTenant : firstTenant.collector.Completed "t" 0 0 := rfl

def requested (r : Request) : CompletionEvent := .server (.request r ⟨0, 0⟩ { now := 0, ids := ["a"] })

/-- A task is delivered, given back, delivered again and then acknowledged, twice. -/
def retriedTask : List CompletionEvent :=
  [requested (.enqueueTask "t" "default" []),
    requested (.dequeueTasks "t" "default" 1),
    requested (.nackTask "t" (encodeKey "default" 0)),
    requested (.dequeueTasks "t" "default" 1),
    requested (.ackTask "t" (encodeKey "default" 1)),
    .work (.process "t" (encodeKey "default" 1) ⟨"a", "default", [], 1, 5, 0⟩) { now := 0 } (some 5)]

theorem right_retriedTask : Always (next "t") (Right "t") (start firstTenant) retriedTask ∧
    (exec (next "t") (start firstTenant) retriedTask).map (fun c => (c.acked, c.nacked)) = some (1, 1) := by
  have hcounts : (execWhile (next "t") (findsKey "t") (start firstTenant) retriedTask).map
      (fun c => (c.acked, c.nacked)) = some (1, 1) := by
    decide +kernel
  obtain ⟨c, hpasses, heq⟩ := Option.map_eq_some_iff.mp hcounts
  have hexec := exec_of_execWhile hpasses
  obtain ⟨hacked, hnacked⟩ := Prod.mk.inj heq
  have hcontinue : ∀ e ∈ retriedTask, e.Continues "t" := by
    simp [retriedTask, requested, CompletionEvent.Continues]
  refine ⟨(right_iff_findsKey completed_firstTenant hcontinue hexec).mpr ⟨hpasses, ?_, ?_⟩, ?_⟩
  · rw [hacked]
    decide
  · rw [hnacked]
    decide
  · rw [hexec]
    exact congrArg some heq

/-- One negative acknowledgement of a key that was never delivered. -/
theorem not_right : ¬∀ (s : Server Rat) (tenant : String) (events : List CompletionEvent) (c : CompletionRun Rat),
    s.collector.Completed tenant 0 0 → (∀ e ∈ events, e.Continues tenant) →
      exec (next tenant) (start s) events = some c → Always (next tenant) (Right tenant) (start s) events := by
  intro h
  have hsummary : ((start firstTenant).next "t" (requested (.nackTask "t" []))).map (fun c =>
      ((c.server.collector.refresh.snapshot "t").map (fun stats => (stats.totalAcked, stats.totalNacked)), c.acked,
        c.nacked)) = some (some (0, 1), 0, 0) := by
    decide +kernel
  obtain ⟨c, hnext, heq⟩ := Option.map_eq_some_iff.mp hsummary
  obtain ⟨htotals, hcounts⟩ := Prod.mk.inj heq
  obtain ⟨hacked, hnacked⟩ := Prod.mk.inj hcounts
  have hexec : exec (next "t") (start firstTenant) [requested (.nackTask "t" [])] = some c := by
    simp only [exec, hnext]
  have hcontinue : ∀ e ∈ [requested (.nackTask "t" [])], e.Continues "t" := by
    simp [requested, CompletionEvent.Continues]
  obtain ⟨-, hafter⟩ := h firstTenant "t" _ c completed_firstTenant hcontinue hexec
  have hright : c.Right "t" := hafter c hnext
  rw [Right, htotals, hacked, hnacked] at hright
  cases hright

end CompletionRun

end RocksQueue
