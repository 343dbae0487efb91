import RocksQueue.Retention
import RocksQueue.Theorems.Reopen

/-! # The retention in force

A filter keeps the retention that the policy had when the family was created or opened, and a new policy does not
reach it before the next restart. As long as the retention of a tenant is not changed, the filters are those of its
policy. -/

namespace RocksQueue

variable {R : Type} {s s' : FilteredRegistry R} {e : RetentionEvent} {tenant : String} {now : Nat}

/-- The policy says to keep this pending task: it is not older than the retention, or there is no end to that. -/
def RetentionPolicy.keepsPending (p : RetentionPolicy) (now : Nat) (t : Task) : Prop :=
  p.pendingRetentionSecs = 0 ∨ now - t.enqueuedAt ≤ p.pendingRetentionSecs * 1000

/-- The policy says to keep this dead letter. -/
def RetentionPolicy.keepsDlq (p : RetentionPolicy) (now : Nat) (t : Task) : Prop :=
  now - t.enqueuedAt ≤ p.dlqRetentionSecs * 1000

/-- Compaction keeps what the policy says to keep. -/
structure CompactionFilter.Honours (p : RetentionPolicy) (pending dlq : CompactionFilter) : Prop where
  pending : ∀ now t, p.keepsPending now t → pending.decision now (.task t) = .keep
  dlq : ∀ now t, p.keepsDlq now t → dlq.decision now (.task t) = .keep

/-- For every tenant, the filters of its families are those of the policy that is reported, and honour it. -/
def FilteredRegistry.InForce (s : FilteredRegistry R) : Prop :=
  ∀ tenant p, s.registry.getPolicy tenant = some p →
    s.filters (cfPending tenant) = some (.pending p.retention.pendingRetentionSecs) ∧
    s.filters (cfDlq tenant) = some (.dlq p.retention.dlqRetentionSecs) ∧
    CompactionFilter.Honours p.retention (.pending p.retention.pendingRetentionSecs) (.dlq p.retention.dlqRetentionSecs)

/-- The milliseconds of its retentions are below `2 ^ 64`. -/
def RetentionPolicy.InRange (p : RetentionPolicy) : Prop :=
  p.pendingRetentionSecs * 1000 < u64Size ∧ p.dlqRetentionSecs * 1000 < u64Size

/-- A tenant that is provisioned gets a retention in range, and no other one later. -/
def FilteredRegistry.KeepsRetention (s : FilteredRegistry R) : RetentionEvent → Prop
  | .provisionTenant tenant policy => s.registry.getPolicy tenant = none → policy.retention.InRange
  | .updateNamespacePolicy tenant policy => ∀ p, s.registry.getPolicy tenant = some p →
      policy.retention.pendingRetentionSecs = p.retention.pendingRetentionSecs ∧
        policy.retention.dlqRetentionSecs = p.retention.dlqRetentionSecs
  | .dropTenant _ => True
  | .reopen _ => True

/-! ## The filters of a policy -/

section Filters
variable {p : RetentionPolicy} {t : Task}

theorem ageExceeds_iff {secs : Nat} (h : secs * 1000 < u64Size) : t.ageExceeds secs now = true ↔ secs * 1000 < now - t.enqueuedAt := by
  rw [Task.ageExceeds, Nat.mod_eq_of_lt h, decide_eq_true_iff]

theorem honours_of_inRange (h : p.InRange) :
    CompactionFilter.Honours p (.pending p.pendingRetentionSecs) (.dlq p.dlqRetentionSecs) where
  pending now t hkeep := by
    simp only [CompactionFilter.decision]
    split
    · rfl
    · rename_i hsecs
      refine if_neg fun hout => ?_
      exact absurd ((ageExceeds_iff h.1).mp hout) (Nat.not_lt.mpr (hkeep.resolve_left hsecs))
  dlq now t hkeep := by
    simp only [CompactionFilter.decision]
    exact if_neg fun hout => absurd ((ageExceeds_iff h.2).mp hout) (Nat.not_lt.mpr hkeep)

/-- Beyond that range the product wraps, and there is a task that the filter removes though it has not expired. -/
theorem ageExceeds_of_overflow {secs : Nat} (h : u64Size ≤ secs * 1000) :
    ∃ (now : Nat) (t : Task), now - t.enqueuedAt ≤ secs * 1000 ∧ t.ageExceeds secs now = true := by
  have hlt : secs * 1000 % u64Size < u64Size := Nat.mod_lt _ (by decide)
  refine ⟨secs * 1000 % u64Size + 1, ⟨"", "", [], 0, 0, 0⟩, ?_, ?_⟩
  · dsimp only
    omega
  · simp [Task.ageExceeds]

/-- The filters of a policy remove nothing that it says to keep if and only if its retentions are in range. -/
theorem honours_iff : CompactionFilter.Honours p (.pending p.pendingRetentionSecs) (.dlq p.dlqRetentionSecs) ↔ p.InRange := by
  refine ⟨fun h => ⟨?_, ?_⟩, honours_of_inRange⟩
  · by_contra hover
    obtain ⟨now, t, hage, hout⟩ := ageExceeds_of_overflow (Nat.not_lt.mp hover)
    have hsecs : p.pendingRetentionSecs ≠ 0 := fun hzero => hover (by rw [hzero]; decide)
    have hkeep := h.pending now t (Or.inr hage)
    simp [CompactionFilter.decision, hsecs, hout] at hkeep
  · by_contra hover
    obtain ⟨now, t, hage, hout⟩ := ageExceeds_of_overflow (Nat.not_lt.mp hover)
    have hkeep := h.dlq now t hage
    simp [CompactionFilter.decision, hout] at hkeep

theorem filterOf_tenantFilters (tenant : String) (p : RetentionPolicy) :
    filterOf (tenantFilters tenant p) (cfPending tenant) = some (.pending p.pendingRetentionSecs) ∧
      filterOf (tenantFilters tenant p) (cfDlq tenant) = some (.dlq p.dlqRetentionSecs) := by
  obtain ⟨-, h₂, h₃⟩ := cfNames_distinct tenant
  simp [filterOf, tenantFilters, h₂, h₃]

/-- Among the filters of all tenants, those of a tenant are found by the names of its families. -/
theorem filterOf_flatMap {tenants : List (String × NamespacePolicy)} {policy : NamespacePolicy}
    (hnodup : (tenants.map Prod.fst).Nodup) (hmem : (tenant, policy) ∈ tenants) {name : String}
    (hname : name ∈ cfNames tenant) :
    filterOf (tenants.flatMap fun t => tenantFilters t.1 t.2.retention) name =
      filterOf (tenantFilters tenant policy.retention) name := by
  have hnames : ∀ (u : String) (q : RetentionPolicy), (tenantFilters u q).map Prod.fst = cfNames u := fun _ _ => rfl
  induction tenants with
  | nil => cases hmem
  | cons head tenants ih =>
    obtain ⟨u, q⟩ := head
    simp only [filterOf, List.flatMap_cons, List.find?_append] at ih ⊢
    rcases List.mem_cons.mp hmem with heq | hrest
    · obtain ⟨rfl, rfl⟩ := Prod.mk.inj heq
      have hfound : ((tenantFilters tenant policy.retention).find? fun f => f.1 = name).isSome = true := by
        rw [List.find?_isSome]
        obtain ⟨f, hf, rfl⟩ := List.mem_map.mp ((hnames tenant policy.retention).symm ▸ hname)
        exact ⟨f, hf, by simp⟩
      obtain ⟨f, hf⟩ := Option.isSome_iff_exists.mp hfound
      rw [hf]
      rfl
    · have hne : u ≠ tenant := by
        rintro rfl
        exact (List.nodup_cons.mp hnodup).1 (List.mem_map.mpr ⟨_, hrest, rfl⟩)
      have hnone : (tenantFilters u q.retention).find? (fun f => f.1 = name) = none := by
        refine List.find?_eq_none.mpr fun f hf heq => ?_
        have hfu : f.1 ∈ cfNames u := (hnames u q.retention) ▸ List.mem_map_of_mem hf
        exact hne (cfNames_unique hfu (of_decide_eq_true heq ▸ hname))
      rw [hnone, Option.none_or]
      exact ih (List.nodup_cons.mp hnodup).2 hrest

end Filters

/-! ## Runs -/

/-- What a run keeps, as long as no step changes a retention. -/
structure FilteredRegistry.Matches (s : FilteredRegistry R) : Prop where
  agrees : s.registry.Agrees
  filters : ∀ tenant p, s.registry.policies.lookup tenant = some p →
    s.filters (cfPending tenant) = some (.pending p.retention.pendingRetentionSecs) ∧
      s.filters (cfDlq tenant) = some (.dlq p.retention.dlqRetentionSecs)
  inRange : ∀ tenant p, s.registry.policies.lookup tenant = some p → p.retention.InRange

section Runs
variable {db : Database R} {policy : NamespacePolicy}

/-- Filters that stay, for policies that keep their retention. -/
theorem FilteredRegistry.Matches.of_same (h : s.Matches) (hagrees : s'.registry.Agrees)
    (hpolicies : ∀ t p, s'.registry.policies.lookup t = some p → ∃ q, s.registry.policies.lookup t = some q ∧
      p.retention.pendingRetentionSecs = q.retention.pendingRetentionSecs ∧
      p.retention.dlqRetentionSecs = q.retention.dlqRetentionSecs)
    (hfilters : ∀ t, t ∈ s'.registry.policies → ∀ name ∈ cfNames t, s'.filters name = s.filters name) : s'.Matches := by
  refine ⟨hagrees, fun t p hp => ?_, fun t p hp => ?_⟩
  · obtain ⟨q, hq, hpending, hdlq⟩ := hpolicies t p hp
    have hmem : t ∈ s'.registry.policies := AList.lookup_isSome.mp (Option.isSome_of_eq_some hp)
    rw [hfilters t hmem (cfPending t) (by simp [cfNames]), hfilters t hmem (cfDlq t) (by simp [cfNames]), hpending, hdlq]
    exact h.filters t q hq
  · obtain ⟨q, hq, hpending, hdlq⟩ := hpolicies t p hp
    rw [RetentionPolicy.InRange, hpending, hdlq]
    exact h.inRange t q hq

theorem FilteredRegistry.Matches.provisionTenant (h : s.Matches)
    (hkeeps : s.KeepsRetention (.provisionTenant tenant policy)) : (s.provisionTenant tenant policy).Matches := by
  have hagrees : (s.provisionTenant tenant policy).registry.Agrees := h.agrees.provisionTenant tenant policy
  obtain ⟨db', ok, hrun, hcall⟩ := provisionTenant_cases s.registry tenant policy
  have hregistry : (s.provisionTenant tenant policy).registry =
      { s.registry with
        db := db'
        policies := if ok then s.registry.policies.insert tenant policy else s.registry.policies } :=
    congrArg Prod.fst hcall
  have hfilters : ∀ name, (s.provisionTenant tenant policy).filters name =
      if name ∉ s.registry.db.cfs ∧ name ∈ db'.cfs then filterOf (tenantFilters tenant policy.retention) name
      else s.filters name := fun name => by
    simp only [FilteredRegistry.provisionTenant, hcall]
  cases ok with
  | false =>
    -- A refused provision leaves the database as it was, and so the filters.
    have hsame := provision_refused h.agrees.system (h.agrees.families tenant) (congrArg Prod.snd hrun)
    rw [hrun] at hsame
    obtain rfl : db' = s.registry.db := hsame
    refine h.of_same hagrees (fun t p hp => ⟨p, by rwa [hregistry] at hp, rfl, rfl⟩) fun t _ name _ => ?_
    rw [hfilters, if_neg fun hnew => hnew.1 hnew.2]
  | true =>
    have hok : (s.registry.db.carryOut (provisionSteps tenant policy)).2 = true := congrArg Prod.snd hrun
    have habsent : ∀ name ∈ cfNames tenant, name ∉ s.registry.db.cfs := (provision_succeeds h.agrees.system).mp hok
    obtain ⟨hfamilies, -⟩ := provisioned h.agrees.system hrun
    -- The families are new, so they get the filters of the policy that is stored.
    have hown : ∀ name ∈ cfNames tenant, (s.provisionTenant tenant policy).filters name =
        filterOf (tenantFilters tenant policy.retention) name := fun name hname => by
      have hmem : name ∈ db'.cfs := AList.lookup_isSome.mp (Option.isSome_of_eq_some (hfamilies name hname))
      rw [hfilters, if_pos ⟨habsent name hname, hmem⟩]
    have hothers : ∀ t, t ≠ tenant → ∀ name ∈ cfNames t,
        (s.provisionTenant tenant policy).filters name = s.filters name := fun t ht name hname => by
      have hunchanged : s.registry.db.Unchanged t db' := by
        have hcarried : s.registry.db.Unchanged t (s.registry.db.carryOut (provisionSteps tenant policy)).1 :=
          .carryOut ht.symm (names_provisionSteps tenant policy)
        rwa [hrun] at hcarried
      have hiff : name ∈ db'.cfs ↔ name ∈ s.registry.db.cfs := by
        rw [← AList.lookup_isSome, hunchanged.families name hname, AList.lookup_isSome]
      rw [hfilters, if_neg fun hnew => hnew.1 (hiff.mp hnew.2)]
    refine ⟨hagrees, fun t p hp => ?_, fun t p hp => ?_⟩
    · rw [hregistry] at hp
      by_cases ht : t = tenant
      · subst ht
        obtain rfl := Option.some.inj ((AList.lookup_insert _).symm.trans hp)
        rw [hown _ (by simp [cfNames]), hown _ (by simp [cfNames])]
        exact filterOf_tenantFilters t policy.retention
      · rw [hothers t ht _ (by simp [cfNames]), hothers t ht _ (by simp [cfNames])]
        exact h.filters t p ((AList.lookup_insert_ne ht).symm.trans hp)
    · rw [hregistry] at hp
      by_cases ht : t = tenant
      · subst ht
        obtain rfl := Option.some.inj ((AList.lookup_insert _).symm.trans hp)
        refine hkeeps (AList.lookup_eq_none.mpr fun hmem => ?_)
        have hpending : cfPending t ∈ cfNames t := by simp [cfNames]
        exact habsent _ hpending ((h.agrees.families t _ hpending).mpr hmem)
      · exact h.inRange t p ((AList.lookup_insert_ne ht).symm.trans hp)

theorem FilteredRegistry.Matches.updateNamespacePolicy (h : s.Matches)
    (hkeeps : s.KeepsRetention (.updateNamespacePolicy tenant policy)) : (s.updateNamespacePolicy tenant policy).Matches := by
  refine h.of_same (h.agrees.updateNamespacePolicy tenant policy) (fun t p hp => ?_) fun _ _ _ _ => rfl
  simp only [FilteredRegistry.updateNamespacePolicy, TenantRegistry.updateNamespacePolicy] at hp
  split at hp
  · rename_i hlisted
    simp only [Database.apply, h.agrees.system, if_true] at hp
    by_cases ht : t = tenant
    · subst ht
      obtain rfl := Option.some.inj ((AList.lookup_insert _).symm.trans hp)
      obtain ⟨q, hq⟩ := Option.isSome_iff_exists.mp (AList.lookup_isSome.mpr hlisted)
      exact ⟨q, hq, hkeeps q hq⟩
    · exact ⟨p, (AList.lookup_insert_ne ht).symm.trans hp, rfl, rfl⟩
  · exact ⟨p, hp, rfl, rfl⟩

theorem FilteredRegistry.Matches.dropTenant (h : s.Matches) : (s.dropTenant tenant).Matches := by
  have hagrees : (s.dropTenant tenant).registry.Agrees := h.agrees.dropTenant tenant
  refine h.of_same hagrees (fun t p hp => ⟨p, ?_, rfl, rfl⟩) fun t ht name hname => ?_
  · obtain ⟨db', ok, -, hcall⟩ := dropTenant_cases s.registry tenant
    simp only [FilteredRegistry.dropTenant, hcall] at hp
    cases ok with
    | false => exact hp
    | true =>
      by_cases ht : t = tenant
      · subst ht
        rw [if_pos rfl, AList.lookup_erase] at hp
        cases hp
      · exact (AList.lookup_erase_ne ht).symm.trans hp
  · exact if_pos ((hagrees.families t name hname).mpr ht)

theorem matches_of_open (hplaced : Placed db)
    (hrange : ∀ t p, db.loadPolicy t = some p → p.retention.InRange)
    (hagrees : ∀ r, TenantRegistry.open db now = some r → r.Agrees)
    (hopen : FilteredRegistry.open db now = some s) : s.Matches := by
  unfold FilteredRegistry.open at hopen
  split at hopen
  · cases hopen
  · rename_i tenants hload
    obtain ⟨r, hr, rfl⟩ := Option.map_eq_some_iff.mp hopen
    obtain ⟨hnodup, hmem⟩ := mem_loadPersistedTenants hplaced.metaOk hload
    have hpolicies := (opened_of_open hplaced.metaOk hr).policies
    refine ⟨hagrees r hr, fun t p hp => ?_, fun t p hp => hrange t p ((hpolicies t).symm.trans hp)⟩
    have hlisted : (t, p) ∈ tenants := (hmem t p).mpr ((hpolicies t).symm.trans hp)
    dsimp only
    rw [filterOf_flatMap hnodup hlisted (by simp [cfNames]), filterOf_flatMap hnodup hlisted (by simp [cfNames])]
    exact filterOf_tenantFilters t p.retention

theorem FilteredRegistry.Matches.next (h : s.Matches) (hkeeps : s.KeepsRetention e) (hn : s.next e = some s') :
    s'.Matches := by
  cases e with
  | provisionTenant tenant policy =>
    cases hn
    exact h.provisionTenant hkeeps
  | updateNamespacePolicy tenant policy =>
    cases hn
    exact h.updateNamespacePolicy hkeeps
  | dropTenant tenant =>
    cases hn
    exact h.dropTenant
  | reopen now =>
    refine matches_of_open h.agrees.placed (fun t p hp => ?_) (fun r hr => ?_) hn
    · exact h.inRange t p ((h.agrees.policies t).trans hp)
    · exact h.agrees.next (e := .restart now) trivial hr

theorem FilteredRegistry.Matches.inForce (h : s.Matches) : s.InForce := fun t p hp => by
  obtain ⟨hpending, hdlq⟩ := h.filters t p hp
  exact ⟨hpending, hdlq, honours_of_inRange (h.inRange t p hp)⟩

/-- As long as no retention is changed, the retention in force is that of the current policy. -/
theorem retention_inForce {s₀ : FilteredRegistry R} (hopen : FilteredRegistry.open .fresh now = some s₀)
    (hrun : Runs.Run FilteredRegistry.next FilteredRegistry.KeepsRetention s₀ s) : s.InForce := by
  have hstart : s₀.Matches := by
    refine matches_of_open (fun _ _ hv => by cases hv) (fun t p hp => by cases hp) (fun r hr => ?_) hopen
    exact agrees_of_fresh hr
  exact (hrun.invariant (fun hm hk hn => FilteredRegistry.Matches.next hm hk hn) hstart).inForce

/-- A first open. -/
def emptyFiltered : FilteredRegistry Rat := ⟨emptyRegistry Rat, fun _ => none⟩

def standardWithDlq (days : Nat) : NamespacePolicy :=
  { NamespacePolicy.standard "t" with retention := { dlqRetentionSecs := days * 24 * 3600 } }

/-- The retention of dead letters is raised from 7 days to 30. -/
def longerRetention : List RetentionEvent :=
  [.provisionTenant "t" (standardWithDlq 7), .updateNamespacePolicy "t" (standardWithDlq 30)]

/-- The filter still removes a dead letter that is 8 days old. -/
theorem not_retention_inForce : ∃ s : FilteredRegistry Rat, Runs.exec FilteredRegistry.next emptyFiltered longerRetention = some s ∧
    (standardWithDlq 30).retention.keepsDlq (8 * 24 * 3600 * 1000) ⟨"x", "q", [], 0, 5, 0⟩ ∧
    (∃ f, s.filters (cfDlq "t") = some f ∧
      f.decision (8 * 24 * 3600 * 1000) (.task ⟨"x", "q", [], 0, 5, 0⟩) = .remove) ∧ ¬s.InForce := by
  have hsome : (Runs.exec FilteredRegistry.next emptyFiltered longerRetention).map
      (fun s => (s.registry.getPolicy "t", s.filters (cfDlq "t"))) =
      some (some (standardWithDlq 30), some (.dlq (7 * 24 * 3600))) := by rfl
  obtain ⟨s, hs, hfacts⟩ := Option.map_eq_some_iff.mp hsome
  obtain ⟨hpolicy, hfilter⟩ := Prod.mk.inj hfacts
  have hkeeps : (standardWithDlq 30).retention.keepsDlq (8 * 24 * 3600 * 1000) ⟨"x", "q", [], 0, 5, 0⟩ := by
    simp only [RetentionPolicy.keepsDlq]
    decide
  refine ⟨s, hs, hkeeps, ⟨_, hfilter, by decide⟩, fun h => ?_⟩
  have hdlq := (h "t" _ hpolicy).2.1
  rw [hfilter] at hdlq
  exact absurd hdlq (by decide)

/-- A new policy with the same retention, and a restart. -/
theorem retention_inForce_sameRetention : ∃ s : FilteredRegistry Rat, Runs.exec FilteredRegistry.next emptyFiltered
    [.provisionTenant "t" (standardWithDlq 7), .updateNamespacePolicy "t" { standardWithDlq 7 with weight := 3 },
      .reopen 5] = some s ∧ s.InForce := by
  let s₁ := emptyFiltered.provisionTenant "t" (standardWithDlq 7)
  let s₂ := s₁.updateNamespacePolicy "t" { standardWithDlq 7 with weight := 3 }
  have hprovision : emptyFiltered.KeepsRetention (.provisionTenant "t" (standardWithDlq 7)) := fun _ => by
    simp only [RetentionPolicy.InRange]
    decide
  have hupdate : s₁.KeepsRetention (.updateNamespacePolicy "t" { standardWithDlq 7 with weight := 3 }) := fun p hp => by
    have hpolicy : s₁.registry.getPolicy "t" = some (standardWithDlq 7) := rfl
    obtain rfl := Option.some.inj (hpolicy.symm.trans hp)
    exact ⟨rfl, rfl⟩
  have hsome : (s₂.next (.reopen 5)).isSome = true := by rfl
  obtain ⟨s, hs⟩ := Option.isSome_iff_exists.mp hsome
  have hopen : FilteredRegistry.open .fresh 0 = some emptyFiltered := rfl
  have hrun₂ : Runs.Run FilteredRegistry.next FilteredRegistry.KeepsRetention emptyFiltered s₂ :=
    .step (.step .refl hprovision rfl) hupdate rfl
  refine ⟨s, ?_, retention_inForce hopen (hrun₂.step (l := .reopen 5) trivial hs)⟩
  have hexec : Runs.exec FilteredRegistry.next emptyFiltered
      [.provisionTenant "t" (standardWithDlq 7), .updateNamespacePolicy "t" { standardWithDlq 7 with weight := 3 },
        .reopen 5] = (s₂.next (.reopen 5)).bind some := rfl
  rw [hexec, hs]
  rfl

end Runs

end RocksQueue
