import RocksQueue.Account
import RocksQueue.Lib.Views
import RocksQueue.Theorems.Answers
import RocksQueue.Theorems.ReaperTick

/-! # Tenants on their own

To each of its tenants the server is an account: what a tenant is answered, and what becomes of its policy and its
records, is computed from its account and the counter alone, whatever the other tenants, the daemon and restarts do
in between. -/

namespace RocksQueue

variable {R : Type} {s s' : Server R} {tenant : String} {a : Account}

/-! ## Accounts -/

theorem account_eq_some : s.account tenant = some a ↔
    s.registry.getPolicy tenant = some a.policy ∧ s.registry.db.tenantDb? tenant = some a.db := by
  unfold Server.account
  split
  · rename_i policy db hpolicy hdb
    rw [hpolicy, hdb]
    constructor
    · intro h
      cases h
      exact ⟨rfl, rfl⟩
    · rintro ⟨h₁, h₂⟩
      cases h₁
      cases h₂
      rfl
  · rename_i hnot
    constructor
    · intro h
      cases h
    · rintro ⟨hpolicy, hdb⟩
      exact absurd hdb (hnot _ _ hpolicy)

theorem account_congr (hpolicy : s'.registry.getPolicy tenant = s.registry.getPolicy tenant)
    (hdb : s'.registry.db.tenantDb? tenant = s.registry.db.tenantDb? tenant) : s'.account tenant = s.account tenant := by
  rw [Server.account, hpolicy, hdb, Server.account]

/-- A tenant without an account has neither a policy nor records. -/
theorem account_none (hi : s.IntactAt tenant) (h : s.account tenant = none) :
    s.registry.getPolicy tenant = none ∧ s.registry.db.tenantDb? tenant = none := by
  have hfamilies : s.registry.getPolicy tenant = none ↔ s.registry.db.tenantDb? tenant = none := by
    have hpending := hi.families (cfPending tenant) (by simp [cfNames])
    have hinflight := hi.families (cfInflight tenant) (by simp [cfNames])
    have hdlq := hi.families (cfDlq tenant) (by simp [cfNames])
    rw [TenantRegistry.getPolicy, AList.lookup_eq_none]
    by_cases hmem : tenant ∈ s.registry.policies
    · refine iff_of_false (not_not.mpr hmem) fun hnone => ?_
      obtain ⟨pending, h₁⟩ := Option.isSome_iff_exists.mp (AList.lookup_isSome.mpr (hpending.mpr hmem))
      obtain ⟨inflight, h₂⟩ := Option.isSome_iff_exists.mp (AList.lookup_isSome.mpr (hinflight.mpr hmem))
      obtain ⟨dlq, h₃⟩ := Option.isSome_iff_exists.mp (AList.lookup_isSome.mpr (hdlq.mpr hmem))
      rw [Database.tenantDb?, h₁, h₂, h₃] at hnone
      cases hnone
    · refine iff_of_true hmem ?_
      have hlookup : s.registry.db.cfs.lookup (cfPending tenant) = none :=
        AList.lookup_eq_none.mpr fun hin => hmem (hpending.mp hin)
      rw [Database.tenantDb?, hlookup]
  cases hpolicy : s.registry.getPolicy tenant with
  | none => exact ⟨rfl, hfamilies.mp hpolicy⟩
  | some policy =>
    cases hdb : s.registry.db.tenantDb? tenant with
    | none =>
      rw [hfamilies.mpr hdb] at hpolicy
      cases hpolicy
    | some db =>
      rw [(account_eq_some (a := ⟨policy, db⟩)).mpr ⟨hpolicy, hdb⟩] at h
      cases h

/-- What is done to other tenants leaves the account alone. -/
theorem account_of_touches {P : String → Prop} (ht : s.Touches P s') (hp : ¬P tenant) :
    s'.account tenant = s.account tenant :=
  account_congr (ht.policies tenant hp) (tenantDb?_congr (ht.db.families tenant hp))

/-! ## What leaves all accounts alone -/

/-- The policies and the families are the same, and no number was drawn. -/
structure Server.SameAccounts (s s' : Server R) : Prop where
  policies : s'.registry.policies = s.registry.policies
  cfs : s'.registry.db.cfs = s.registry.db.cfs
  seq : s'.registry.seq = s.registry.seq

namespace Server.SameAccounts

theorem account (h : s.SameAccounts s') (tenant : String) : s'.account tenant = s.account tenant := by
  refine account_congr ?_ ?_
  · rw [TenantRegistry.getPolicy, h.policies, TenantRegistry.getPolicy]
  · rw [Database.tenantDb?, h.cfs, Database.tenantDb?]

theorem refl : Server.SameAccounts s s := ⟨rfl, rfl, rfl⟩

theorem trans {s'' : Server R} (h : SameAccounts s s') (h' : SameAccounts s' s'') : SameAccounts s s'' :=
  ⟨h'.policies.trans h.policies, h'.cfs.trans h.cfs, h'.seq.trans h.seq⟩

end Server.SameAccounts

section Throttle
variable [F64 R] {t : AutoThrottle R} {reason : String} {rate now instant : Nat}

theorem cfs_applyThrottle : (t.applyThrottle tenant reason now instant).store.cfs = t.store.cfs := by
  unfold AutoThrottle.applyThrottle
  split
  · rfl
  · exact cfs_store (w := .persistThrottle _)

theorem cfs_releaseThrottle : (t.releaseThrottle tenant rate instant).store.cfs = t.store.cfs :=
  cfs_store (w := .clearThrottle tenant)

theorem cfs_forceRelease : (t.forceRelease tenant instant).store.cfs = t.store.cfs := by
  unfold AutoThrottle.forceRelease
  split
  · exact cfs_releaseThrottle
  · exact cfs_store (w := .clearThrottle tenant)

theorem cfs_evaluateOne {stats : TenantStats R} : (t.evaluateOne stats now instant).store.cfs = t.store.cfs := by
  unfold AutoThrottle.evaluateOne
  split
  · split
    · exact cfs_releaseThrottle
    · rfl
  · split
    · exact cfs_applyThrottle
    · rfl

theorem cfs_evaluate {allStats : List (TenantStats R)} : (t.evaluate allStats now instant).store.cfs = t.store.cfs := by
  unfold AutoThrottle.evaluate
  induction allStats generalizing t with
  | nil => rfl
  | cons stats allStats ih => exact ih.trans cfs_evaluateOne

end Throttle

section Daemon
variable [F64 R] {clock : Clock}

omit [F64 R] in
/-- A loop that leaves the families alone each time round. -/
theorem cfs_foldl {α : Type} {step : Database R → α → Database R} (hstep : ∀ db a, (step db a).cfs = db.cfs)
    (l : List α) (db : Database R) : (l.foldl step db).cfs = db.cfs := by
  induction l generalizing db with
  | nil => rfl
  | cons a l ih => exact (ih _).trans (hstep db a)

omit [F64 R] in
theorem sameAccounts_flush {snapshots : List (TenantStats R)} : s.SameAccounts (s.flush snapshots clock) where
  policies := rfl
  cfs := (cfs_foldl (fun _ _ => cfs_store) _ _).trans (cfs_foldl (fun _ _ => cfs_store) _ _)
  seq := rfl

theorem sameAccounts_updateBaseline {stats : TenantStats R} : s.SameAccounts (s.updateBaseline clock stats) := by
  unfold Server.updateBaseline
  split
  · exact ⟨rfl, rfl, rfl⟩
  · exact ⟨rfl, cfs_foldl (fun _ _ => cfs_store) _ _, rfl⟩

theorem sameAccounts_rebased {snapshots : List (TenantStats R)} : s.SameAccounts (s.rebased clock snapshots) := by
  unfold Server.rebased
  have hcounted : s.SameAccounts s.counted := ⟨rfl, rfl, rfl⟩
  generalize s.counted = s₁ at hcounted
  induction snapshots generalizing s₁ with
  | nil => exact hcounted
  | cons stats snapshots ih => exact ih _ (hcounted.trans sameAccounts_updateBaseline)

theorem sameAccounts_daemonCycle : s.SameAccounts (s.daemonCycle clock) := by
  rw [Server.daemonCycle_eq]
  dsimp only
  generalize s.counted.collector.allSnapshots = snapshots
  have hrebased : s.SameAccounts (s.rebased clock snapshots) := sameAccounts_rebased
  generalize s.rebased clock snapshots = s₁ at hrebased
  have hevaluated : s₁.SameAccounts (s₁.withThrottle (s₁.throttle.evaluate snapshots clock.millis clock.instant)) :=
    ⟨rfl, cfs_evaluate, rfl⟩
  split
  · exact (hrebased.trans hevaluated).trans sameAccounts_flush
  · exact hrebased.trans hevaluated

end Daemon

/-- A tick of the reaper sweeps every account. -/
theorem account_reaperTick (hi : s.IntactAt tenant) (now : Nat) :
    (s.reaperTick now).account tenant = (s.account tenant).map (Account.reap now) := by
  have hdb : (s.reaperTick now).registry.db.tenantDb? tenant = _ := congrArg Prod.fst (inflightOf_tick tenant)
  cases haccount : s.account tenant with
  | none =>
    obtain ⟨hpolicy, hnone⟩ := account_none hi haccount
    have hlisted : tenant ∉ s.registry.policies := AList.lookup_eq_none.mp hpolicy
    rw [if_neg hlisted] at hdb
    rw [Server.account, hdb, inflightOf, hnone]
    split
    · rename_i hsome
      cases hsome
    · rfl
  | some a =>
    obtain ⟨hpolicy, hsome⟩ := account_eq_some.mp haccount
    have hlisted : tenant ∈ s.registry.policies := AList.lookup_isSome.mp (Option.isSome_of_eq_some hpolicy)
    rw [if_pos hlisted] at hdb
    refine account_eq_some.mpr ⟨hpolicy, hdb.trans ?_⟩
    simp only [sweptInflight, inflightOf, hsome]
    rfl

/-! ## Requests -/

section Requests
variable {x : Externals} {clock : Clock} {io : Inputs} {rpc : Rpc} {answer : Answer R} {call : Call} {family queue : String}
  {record : Reply → StatsCollector R → StatsCollector R} {respond : Reply → Response R}

theorem callTenant_of_account (h : s.account tenant = some a) : s.callTenant tenant io call =
    (Tenant.exec tenant ⟨a.db, s.registry.seq⟩ io call).map fun r =>
      ({ s with
        registry := { s.registry with db := s.registry.db.setTenantDb tenant r.1.db, seq := r.1.seq } }, some r.2) := by
  unfold Server.callTenant
  rw [(account_eq_some.mp h).2]
  dsimp only
  split
  · rename_i hexec
    rw [hexec]
    rfl
  · rename_i hexec
    rw [hexec]
    rfl

theorem account_compact {c : Compaction} : (s.compact tenant c).account tenant = (s.account tenant).map (.compact c) := by
  cases haccount : s.account tenant with
  | none =>
    unfold Server.account at haccount ⊢
    have hdb : (s.compact tenant c).registry.db.tenantDb? tenant = (s.registry.db.tenantDb? tenant).map _ :=
      tenantDb?_putSomeTenantDb_self
    have hpolicy : (s.compact tenant c).registry.getPolicy tenant = s.registry.getPolicy tenant := rfl
    rw [hdb, hpolicy]
    cases hp : s.registry.getPolicy tenant <;> cases hd : s.registry.db.tenantDb? tenant <;> simp [hp, hd] at haccount ⊢
  | some a =>
    obtain ⟨hpolicy, hdb⟩ := account_eq_some.mp haccount
    refine account_eq_some.mpr ⟨hpolicy, ?_⟩
    have hafter : (s.compact tenant c).registry.db.tenantDb? tenant = (s.registry.db.tenantDb? tenant).map _ :=
      tenantDb?_putSomeTenantDb_self
    rw [hafter, hdb, someTenantDb_eq hdb]
    rfl

/-- A compaction of another tenant's families. -/
theorem account_compact_of_ne {other : String} {c : Compaction} (h : other ≠ tenant) :
    (s.compact other c).account tenant = s.account tenant :=
  account_of_touches touches_compact (Ne.symm h)

theorem callTenant_unprovisioned (h : s.registry.db.tenantDb? tenant = none) :
    s.callTenant tenant io call = some (s, none) := by
  unfold Server.callTenant
  rw [h]

/-- Records that are put back are those of the account. -/
theorem account_set (h : s.account tenant = some a) {db : TenantDb}
    (hpolicies : s'.registry.policies = s.registry.policies) (hdb : s'.registry.db = s.registry.db.setTenantDb tenant db) :
    s'.account tenant = some { a with db := db } := by
  refine account_eq_some.mpr ⟨?_, ?_⟩
  · rw [TenantRegistry.getPolicy, hpolicies]
    exact (account_eq_some.mp h).1
  · rw [hdb, tenantDb?_setTenantDb_self]

/-- The outcome of a call that is concluded is that of the account. -/
theorem call_served (h : s.account tenant = some a)
    (hserve : (s.callTenant tenant io call).map (Server.conclude x family record respond) = some (s', answer)) :
    a.call x tenant s.registry.seq io call respond = some (s'.account tenant, answer) := by
  obtain ⟨⟨s₁, reply⟩, hcall, hconclude⟩ := Option.map_eq_some_iff.mp hserve
  rw [callTenant_of_account h] at hcall
  obtain ⟨⟨t, returned⟩, hexec, hr⟩ := Option.map_eq_some_iff.mp hcall
  cases hr
  have hset : ∀ c : StatsCollector R, ({ s with
      registry := { s.registry with db := s.registry.db.setTenantDb tenant t.db, seq := t.seq },
      collector := c } : Server R).account tenant = some { a with db := t.db } := fun c => account_set h rfl rfl
  rw [Account.call, hexec, Option.map_some]
  cases returned <;> cases hconclude <;> rw [hset] <;> rfl

theorem callOr_served (hi : s.IntactAt tenant)
    (hserve : (s.callTenant tenant io call).map (Server.conclude x family record respond) = some (s', answer)) :
    Account.callOr x tenant s.registry.seq io family call respond (s.account tenant) = some (s'.account tenant, answer) := by
  cases haccount : s.account tenant with
  | none =>
    rw [callTenant_unprovisioned (account_none hi haccount).2] at hserve
    cases hserve
    rw [haccount]
    rfl
  | some a => exact call_served haccount hserve

theorem enqueue_served {payloads : List Bytes} (hi : s.IntactAt tenant)
    (hserve : s.serveEnqueue x tenant queue payloads io = some (s', answer)) :
    Account.enqueue x tenant s.registry.seq io queue payloads (s.account tenant) = some (s'.account tenant, answer) := by
  unfold Server.serveEnqueue at hserve
  cases haccount : s.account tenant with
  | none =>
    rw [(account_none hi haccount).1] at hserve
    cases hserve
    rw [haccount]
    rfl
  | some a =>
    rw [(account_eq_some.mp haccount).1] at hserve
    exact call_served haccount hserve

theorem dequeue_served {limit : Nat} (hi : s.IntactAt tenant)
    (hserve : s.serveDequeue x tenant queue limit io = some (s', answer)) :
    Account.dequeue x tenant s.registry.seq io queue limit (s.account tenant) = some (s'.account tenant, answer) := by
  unfold Server.serveDequeue at hserve
  cases haccount : s.account tenant with
  | none =>
    rw [(account_none hi haccount).1] at hserve
    cases hserve
    rw [haccount]
    rfl
  | some a =>
    rw [(account_eq_some.mp haccount).1] at hserve
    dsimp only at hserve
    rw [callTenant_of_account haccount] at hserve
    simp only [Tenant.exec, Option.map_some] at hserve
    obtain ⟨rfl, rfl⟩ := Prod.mk.inj (Option.some.inj hserve)
    refine congrArg (fun b => some (b, _)) (Eq.symm ?_)
    exact account_set haccount rfl rfl

theorem account_iff_families (hi : s.IntactAt tenant) {name : String} (hname : name ∈ cfNames tenant) :
    name ∈ s.registry.db.cfs ↔ (s.account tenant).isSome = true := by
  rw [hi.families name hname, ← AList.lookup_isSome]
  cases haccount : s.account tenant with
  | none =>
    have hpolicy : s.registry.policies.lookup tenant = none := (account_none hi haccount).1
    rw [hpolicy]
    exact Iff.rfl
  | some a => exact iff_of_true (Option.isSome_of_eq_some (account_eq_some.mp haccount).1) rfl

variable [F64 R] {tier : String}

theorem provision_served (hi : s.IntactAt tenant) :
    Account.serve x s.registry.seq io (s.account tenant) (.provisionTenant tenant tier) =
      some ((s.provisionTenant tenant tier clock).1.account tenant,
        if (s.provisionTenant tenant tier clock).2 then .ok (.tenant tenant true "provisioned" : Response R)
        else .error (queueError x .rocksdb)) := by
  obtain ⟨db', ok, hrun, hcall⟩ := provisionTenant_cases s.registry tenant (tierPolicy tier tenant)
  have hfamilies : ∀ name ∈ cfNames tenant, name ∈ s.registry.db.cfs ↔ (s.account tenant).isSome = true :=
    fun name hname => account_iff_families hi hname
  simp only [Server.provisionTenant, hcall]
  cases haccount : s.account tenant with
  | none =>
    -- No account, so no family is there, and all steps succeed.
    have hok : (s.registry.db.carryOut (provisionSteps tenant (tierPolicy tier tenant))).2 = true :=
      (provision_succeeds hi.system).mpr fun name hname hin => by simp [haccount, hfamilies name hname] at hin
    rw [hrun] at hok
    cases hok
    have hempty := (provisioned hi.system hrun).1
    have hdb : db'.tenantDb? tenant = some .empty := tenantDb?_eq_some.mpr
      ⟨hempty _ (by simp [cfNames]), hempty _ (by simp [cfNames]), hempty _ (by simp [cfNames])⟩
    refine congrArg (fun b => some (b, _)) (Eq.symm (account_eq_some.mpr ⟨?_, hdb⟩))
    exact AList.lookup_insert _
  | some a =>
    -- With an account the first family is there already, and the provision is refused.
    have hok : (s.registry.db.carryOut (provisionSteps tenant (tierPolicy tier tenant))).2 ≠ true := fun hok => by
      have hin := (hfamilies (cfPending tenant) (by simp [cfNames])).mpr (by simp [haccount])
      exact (provision_succeeds hi.system).mp hok _ (by simp [cfNames]) hin
    rw [hrun] at hok
    have hsame := provision_refused hi.system hfamilies (congrArg Prod.snd hrun |>.trans (Bool.not_eq_true _ ▸ hok))
    rw [hrun] at hsame
    cases hsame
    cases ok with
    | true => exact absurd rfl hok
    | false => exact congrArg (fun b => some (b, _)) haccount.symm

omit [F64 R] in
theorem drop_served (hi : s.IntactAt tenant) :
    Account.serve x s.registry.seq io (s.account tenant) (.dropTenant tenant) =
      some ((s.dropTenant tenant).1.account tenant,
        if (s.dropTenant tenant).2 then .ok (.tenant tenant true "dropped" : Response R)
        else .error (queueError x .rocksdb)) := by
  obtain ⟨db', ok, hrun, hcall⟩ := dropTenant_cases s.registry tenant
  have hfamilies : ∀ name ∈ cfNames tenant, name ∈ s.registry.db.cfs ↔ (s.account tenant).isSome = true :=
    fun name hname => account_iff_families hi hname
  simp only [Server.dropTenant, hcall]
  cases haccount : s.account tenant with
  | none =>
    -- Without an account there is no family to drop.
    have hok : (s.registry.db.carryOut (dropSteps tenant)).2 ≠ true := fun hok => by
      have hin := (drop_succeeds hi.system).mp hok (cfPending tenant) (by simp [cfNames])
      simp [haccount, hfamilies (cfPending tenant) (by simp [cfNames])] at hin
    rw [hrun] at hok
    cases ok with
    | true => exact absurd rfl hok
    | false =>
      have hsame := drop_refused hi.system hfamilies (congrArg Prod.snd hrun)
      rw [hrun] at hsame
      cases hsame
      exact congrArg (fun b => some (b, _)) haccount.symm
  | some a =>
    have hok : (s.registry.db.carryOut (dropSteps tenant)).2 = true :=
      (drop_succeeds hi.system).mpr fun name hname => (hfamilies name hname).mpr (by simp [haccount])
    rw [hrun] at hok
    cases hok
    have hgone : (s.registry.policies.erase tenant).lookup tenant = none := AList.lookup_erase _ _
    refine congrArg (fun b => some (b, _)) (Eq.symm ?_)
    simp [Server.account, TenantRegistry.getPolicy, hgone]

omit [F64 R] in
theorem setNamespacePolicy_served {r : NamespacePolicyRequest} (hi : s.IntactAt r.tenantId) :
    Account.serve x s.registry.seq io (s.account r.tenantId) (.setNamespacePolicy r) =
      some ((s.serveSetNamespacePolicy x r).1.account r.tenantId, (s.serveSetNamespacePolicy x r).2) := by
  simp only [Server.serveSetNamespacePolicy, Server.setNamespacePolicy, TenantRegistry.updateNamespacePolicy,
    Database.apply, hi.system, if_true]
  cases haccount : s.account r.tenantId with
  | none =>
    have hlisted : r.tenantId ∉ s.registry.policies := AList.lookup_eq_none.mp (account_none hi haccount).1
    simp only [if_neg hlisted]
    exact congrArg (fun b => some (b, _)) haccount.symm
  | some a =>
    obtain ⟨hpolicy, hdb⟩ := account_eq_some.mp haccount
    have hlisted : r.tenantId ∈ s.registry.policies := AList.lookup_isSome.mp (Option.isSome_of_eq_some hpolicy)
    simp only [if_pos hlisted, if_true]
    refine congrArg (fun b => some (b, _)) (Eq.symm (account_eq_some.mpr ⟨AList.lookup_insert _, ?_⟩))
    exact hdb

theorem compactTenant_served (hi : s.IntactAt tenant)
    (h : s.serve x clock io (.compactTenant tenant) = some (s', answer)) :
    Account.serve x s.registry.seq io (s.account tenant) (.compactTenant tenant) = some (s'.account tenant, answer) := by
  simp only [Server.serve] at h
  rcases s.compactTenant_cases tenant io.compaction with ⟨hnone, heq⟩ | ⟨hsome, heq⟩
  · rw [heq] at h
    cases h
    cases haccount : s.account tenant with
    | none => rfl
    | some a =>
      rw [(account_eq_some.mp haccount).2] at hnone
      cases hnone
  · rw [heq] at h
    cases h
    rw [account_compact]
    cases haccount : s.account tenant with
    | none =>
      rw [(account_none hi haccount).2] at hsome
      cases hsome
    | some a => rfl

/-- A request that is about the account of a tenant is answered from it. -/
theorem rpc_served (hi : s.IntactAt tenant) (hrpc : rpc.account? = some tenant)
    (h : s.serve x clock io rpc = some (s', answer)) :
    Account.serve x s.registry.seq io (s.account tenant) rpc = some (s'.account tenant, answer) := by
  cases rpc <;> cases hrpc
  case provisionTenant tier =>
    cases h
    exact provision_served hi
  case dropTenant =>
    cases h
    exact drop_served hi
  case setNamespacePolicy r =>
    cases h
    exact setNamespacePolicy_served hi
  case getNamespacePolicy =>
    cases h
    cases haccount : s.account tenant with
    | none =>
      rw [(account_none hi haccount).1]
      rfl
    | some a =>
      rw [(account_eq_some.mp haccount).1]
      rfl
  -- Here the account answers as the registry does, call by call.
  case enqueueTask queue payload => exact enqueue_served hi h
  case enqueueBatch queue payloads =>
    simp only [Server.serve] at h
    simp only [Account.serve]
    split at h
    · rename_i hnil
      cases h
      rw [if_pos hnil]
    · rename_i hne
      rw [if_neg hne]
      exact enqueue_served hi h
  case dequeueTasks queue limit => exact dequeue_served hi h
  -- The keys are decoded by the same function on both sides.
  case ackTask ackKey =>
    simp only [Server.serve, Server.serveAck] at h
    simp only [Account.serve]
    cases hkey : decodeAckKey x ackKey with
    | error status =>
      rw [hkey] at h
      cases h
      rfl
    | ok key =>
      rw [hkey] at h
      exact callOr_served hi h
  case ackBatch ackKeys =>
    simp only [Server.serve, Server.serveAckBatch] at h
    simp only [Account.serve]
    split at h
    · rename_i hnil
      cases h
      rw [if_pos hnil]
    · rename_i hne
      rw [if_neg hne]
      cases hkeys : decodeAckKeys x ackKeys with
      | error status =>
        rw [hkeys] at h
        cases h
        rfl
      | ok keys =>
        rw [hkeys] at h
        exact callOr_served hi h
  case nackTask ackKey =>
    simp only [Server.serve, Server.serveNack] at h
    simp only [Account.serve]
    cases hkey : decodeAckKey x ackKey with
    | error status =>
      rw [hkey] at h
      cases h
      rfl
    | ok key =>
      rw [hkey] at h
      exact callOr_served hi h
  case purgeDlq => exact callOr_served hi h
  case replayDlq => exact callOr_served hi h
  case compactTenant => exact compactTenant_served hi h

/-- The other requests leave all accounts alone. -/
theorem sameAccounts_served (hrpc : rpc.account? = none) (h : s.serve x clock io rpc = some (s', answer)) :
    s.SameAccounts s' := by
  cases rpc <;> cases hrpc
  case forceReleaseThrottle t =>
    cases h
    exact ⟨rfl, cfs_forceRelease, rfl⟩
  case updatePolicy t policy =>
    cases h
    cases policy <;> exact ⟨rfl, rfl, rfl⟩
  case drainTenant t timeoutSecs =>
    simp only [Server.serve, Server.serveDrain] at h
    split at h
    · cases h
      exact ⟨rfl, rfl, rfl⟩
    · obtain ⟨r, -, hr⟩ := Option.map_eq_some_iff.mp h
      cases hr
      exact ⟨rfl, rfl, rfl⟩
  all_goals
    cases h
    exact ⟨rfl, rfl, rfl⟩

theorem Server.Intact.served (hi : s.Intact) (h : s.serve x clock io rpc = some (s', answer)) : s'.Intact := by
  have hhandle := serve_handle h
  split at hhandle
  · exact (touches_handle hhandle).intact hi
  · rw [hhandle]
    exact hi

omit [F64 R] in
theorem tenantId_of_request {r : Request} (hrpc : rpc.account? = some tenant) (hr : rpc.request x = some r) :
    r.tenantId = tenant := by
  cases rpc <;> cases hrpc <;> simp only [Rpc.request, Option.map_eq_some_iff] at hr
  case getNamespacePolicy => cases hr
  case ackTask | ackBatch | nackTask =>
    obtain ⟨_, -, rfl⟩ := hr
    rfl
  all_goals
    cases hr
    rfl

/-- A request about the account of one tenant leaves those of the others alone. -/
theorem account_served_of_ne {other : String} (hrpc : rpc.account? = some other) (hne : tenant ≠ other)
    (h : s.serve x clock io rpc = some (s', answer)) : s'.account tenant = s.account tenant := by
  have hhandle := serve_handle h
  split at hhandle
  · rename_i r hr
    refine account_of_touches (touches_handle hhandle) fun heq => hne ?_
    exact heq.trans (tenantId_of_request hrpc hr)
  · rw [hhandle]

end Requests

/-! ## Sessions -/

section Sessions
variable [F64 R] {x : Externals} {c c' : Session R} {e : Traffic}

theorem Session.intact_next (hi : c.server.Intact) (hn : c.next x e = some c') : c'.server.Intact := by
  cases e with
  | rpc rpc clock io =>
    obtain ⟨⟨s', answer⟩, hserve, rfl⟩ := Option.map_eq_some_iff.mp hn
    exact hi.served hserve
  | compaction t compaction =>
    cases hn
    exact touches_compact.intact hi
  | daemonCycle clock =>
    cases hn
    exact touches_daemonCycle.intact hi
  | reaperTick now =>
    cases hn
    exact touches_reaperTick.intact hi
  | restart clock =>
    obtain ⟨s', hmain, rfl⟩ := Option.map_eq_some_iff.mp hn
    exact intact_of_main hi.database hmain

theorem account_restart {clock : Clock} (hi : s.Intact) (hmain : Server.main s.registry.db clock = some s') :
    s'.account tenant = s.account tenant := by
  have hs := started_of_main hi.filed hmain
  refine account_congr ?_ (tenantDb?_congr fun name _ => families_of_main hi.database hmain name)
  exact (hs.policies tenant).trans (hi.tenants tenant).policy.symm

omit [F64 R] in
theorem view_answered {rpc : Rpc} {answer : Answer R} (hrpc : rpc.account? ≠ some tenant) :
    (Session.view tenant ⟨s', c.answers ++ [(rpc, answer)]⟩) = ⟨s'.account tenant, (c.view tenant).answers⟩ := by
  simp [Session.view, hrpc]

/-- What a tenant has of the server follows what it sees. -/
theorem session_follows (x : Externals) (tenant : String) : Runs.Follows (Session.next (R := R) x)
    (fun c => c.server.Intact) (Session.see tenant) (Session.view tenant) (View.next x) where
  keeps := Session.intact_next
  unseen {c e c'} hi hsee hn := by
    cases e with
    | rpc rpc clock io =>
      obtain ⟨⟨s', answer⟩, hserve, rfl⟩ := Option.map_eq_some_iff.mp hn
      -- The request is about another account, or about none.
      have hrpc : rpc.account? ≠ some tenant := fun heq => by simp [Session.see, heq] at hsee
      rw [view_answered hrpc]
      have haccount : s'.account tenant = c.server.account tenant := by
        cases hother : rpc.account? with
        | none => exact (sameAccounts_served hother hserve).account tenant
        | some other => exact account_served_of_ne hother (fun heq => hrpc (heq ▸ hother)) hserve
      rw [haccount]
      rfl
    | compaction t compaction =>
      have hne : t ≠ tenant := fun heq => by simp [Session.see, heq] at hsee
      cases hn
      exact congrArg (fun a => (⟨a, _⟩ : View R)) (account_compact_of_ne hne)
    | daemonCycle clock =>
      cases hn
      exact congrArg (fun a => (⟨a, _⟩ : View R)) (sameAccounts_daemonCycle.account tenant)
    | reaperTick now => cases hsee
    | restart clock =>
      obtain ⟨s', hmain, rfl⟩ := Option.map_eq_some_iff.mp hn
      exact congrArg (fun a => (⟨a, _⟩ : View R)) (account_restart hi hmain)
  sees {c e c' b} hi hsee hn := by
    cases e with
    | rpc rpc clock io =>
      obtain ⟨⟨s', answer⟩, hserve, rfl⟩ := Option.map_eq_some_iff.mp hn
      simp only [Session.see] at hsee
      split at hsee
      · rename_i hrpc
        cases hsee
        -- A request about this account is answered from it alone.
        rw [View.next, Session.view, rpc_served (hi.tenants tenant) hrpc hserve]
        simp [Session.view, hrpc]
      · cases hsee
    | compaction t compaction =>
      simp only [Session.see] at hsee
      split at hsee
      · rename_i heq
        cases hsee
        cases hn
        subst heq
        exact congrArg (fun a => some (⟨a, _⟩ : View R)) account_compact.symm
      · cases hsee
    | daemonCycle clock => cases hsee
    | reaperTick now =>
      cases hsee
      cases hn
      exact congrArg (fun a => some (⟨a, _⟩ : View R)) (account_reaperTick (hi.tenants tenant) now).symm
    | restart clock => cases hsee

/-- On a server that was just started on an empty path, no tenant has anything. -/
theorem view_start {clock : Clock} (hmain : Server.main (.fresh : Database R) clock = some s) (tenant : String) :
    (Session.start s).view tenant = .start := by
  have hpolicy : s.registry.getPolicy tenant = none := (started_of_main intact_fresh.filed hmain).policies tenant
  have haccount : s.account tenant = none := by
    rw [Server.account, hpolicy]
  simp [Session.view, Session.start, View.start, haccount]

end Sessions

/-! ## In exact arithmetic -/

section Exact

/-- The hex crate, and errors without a text. -/
def plainTexts : Externals := ⟨.hex, "", ""⟩

/-- A tenant enqueues a task, and is handed it. -/
def ownTraffic : List Traffic :=
  [.rpc (.provisionTenant "t" "standard") ⟨0, 0⟩ { now := 0 },
    .rpc (.enqueueTask "t" "" "hello") ⟨1, 1⟩ { now := 1, ids := ["a"] },
    .rpc (.dequeueTasks "t" "" 0) ⟨2, 2⟩ { now := 2 }]

end Exact

end RocksQueue
