import RocksQueue.StatsHistory
import RocksQueue.Theorems.Records

/-! # Totals over several lifetimes

The totals are in the snapshots and in the counters, and a refresh copies them from the counters. A start sets the
counters to zero and warms up the snapshots only, so the first refresh forgets the earlier lifetimes. -/

namespace RocksQueue

variable {R : Type} [F64 R] {tenants : List String} {s s' : StatsHistory R} {e : StatsEvent} {tenant : String}

/-- The snapshot of the tenant has everything that was ever recorded for it. -/
def StatsHistory.TotalsRight (s : StatsHistory R) (tenant : String) : Prop :=
  (s.collector.snapshot tenant).map StatsHistory.totals = some (s.lifetime tenant)

/-- What was recorded in this lifetime, as the counters have it. -/
def Totals.wrapped (t : Totals) : Totals := ⟨t.enqueued % u64Size, t.acked % u64Size, t.nacked % u64Size⟩

def TenantCounters.totals (c : TenantCounters) : Totals := ⟨c.totalEnqueued, c.totalAcked, c.totalNacked⟩

/-- Each count is below `2 ^ 64`. -/
def Totals.InRange (t : Totals) : Prop := t.enqueued < u64Size ∧ t.acked < u64Size ∧ t.nacked < u64Size

/-- The last snapshot was flushed, and nothing was recorded after it. -/
def StatsHistory.Flushed (tenants : List String) (s : StatsHistory R) : Prop :=
  ∀ t ∈ tenants, ∃ state p, s.collector.lookup t = some state ∧ s.store.record? (statsKey t) = some (.stats p) ∧
    StatsHistory.totals state.stats = state.counters.totals ∧
    (⟨p.totalEnqueued, p.totalAcked, p.totalNacked⟩ : Totals) = state.counters.totals

/-- At a restart, the last snapshot was flushed. -/
def StatsHistory.RestartsFlushed (tenants : List String) (s : StatsHistory R) : StatsEvent → Prop
  | .restart _ _ => s.Flushed tenants
  | _ => True

/-! ## The counters -/

section Counters
variable {c : StatsCollector R}

/-- The counters of a tenant. -/
def countersOf (c : StatsCollector R) (tenant : String) : Option TenantCounters :=
  (c.lookup tenant).map TenantStatsState.counters

theorem countersOf_register {instant : Nat} {t : String} :
    countersOf (c.register t instant) tenant = if tenant = t then some .zero else countersOf c tenant := by
  simp only [countersOf, StatsCollector.register, IdMap.lookup_insert, TenantStats.new]
  split <;> rfl

theorem countersOf_registerAll (instant : Nat) (h : tenant ∈ tenants) :
    countersOf (StatsHistory.registerAll tenants instant : StatsCollector R) tenant = some .zero := by
  unfold StatsHistory.registerAll
  suffices hfold : ∀ c : StatsCollector R, tenant ∈ tenants ∨ countersOf c tenant = some .zero →
      countersOf (tenants.foldl (fun c t => c.register t instant) c) tenant = some .zero from hfold _ (Or.inl h)
  clear h
  induction tenants with
  | nil => exact fun c hc => hc.resolve_left List.not_mem_nil
  | cons t tenants ih =>
    intro c hc
    refine ih _ ?_
    rw [countersOf_register]
    by_cases ht : tenant = t
    · exact Or.inr (if_pos ht)
    · rw [if_neg ht]
      exact hc.imp_left fun hmem => (List.mem_cons.mp hmem).resolve_left ht

omit [F64 R] in
/-- Warming up leaves the counters as they are. -/
theorem countersOf_warmFromStore (persisted : List (PersistedStats R)) :
    countersOf (c.warmFromStore persisted) tenant = countersOf c tenant := by
  unfold StatsCollector.warmFromStore
  induction persisted generalizing c with
  | nil => rfl
  | cons p persisted ih =>
    rw [List.foldl_cons, ih]
    refine (congrArg (Option.map _) IdMap.lookup_modify).trans ?_
    split
    · rw [Option.map_map]
      rfl
    · rfl

theorem countersOf_refresh : countersOf c.refresh tenant = (countersOf c tenant).map TenantCounters.swapped := by
  refine (congrArg (Option.map _) IdMap.lookup_mapValues).trans ?_
  rw [Option.map_map, countersOf, Option.map_map]
  rfl

omit [F64 R] in
/-- A recording changes the counters of its tenant. -/
theorem countersOf_count {t : String} {f : TenantCounters → TenantCounters} :
    countersOf (c.modify t (fun state => state.count f) fun _ h => h) tenant =
      if tenant = t then (countersOf c tenant).map f else countersOf c tenant := by
  refine (congrArg (Option.map _) IdMap.lookup_modify).trans ?_
  split
  · rw [Option.map_map, countersOf, Option.map_map]
    rfl
  · rfl

end Counters

/-! ## Runs -/

/-- The counters of every tenant have what was recorded in this lifetime. -/
def StatsHistory.Counts (tenants : List String) (s : StatsHistory R) : Prop :=
  ∀ t ∈ tenants, (countersOf s.collector t).map TenantCounters.totals = some (s.current t).wrapped

section Runs

theorem counts_start (instant : Nat) : (StatsHistory.start tenants instant : StatsHistory R).Counts tenants := by
  intro t ht
  simp only [StatsHistory.start, countersOf_registerAll instant ht]
  rfl

omit [F64 R] in
/-- What a recording adds to the counters. -/
theorem StatsHistory.Counts.count (h : s.Counts tenants) {t : String} (ht : t ∈ tenants) {u : String}
    {f : TenantCounters → TenantCounters} {added : Totals}
    (hadded : ∀ c : TenantCounters, ∀ total : Totals, c.totals = total.wrapped → (f c).totals = (total + added).wrapped) :
    (countersOf (s.collector.modify u (fun state => state.count f) fun _ h => h) t).map TenantCounters.totals =
      some (s.current t + if u = t then added else {}).wrapped := by
  have hbefore := h t ht
  rw [countersOf_count]
  by_cases hu : t = u
  · subst hu
    obtain ⟨c, hc, htotals⟩ := Option.map_eq_some_iff.mp hbefore
    rw [if_pos rfl, if_pos rfl, hc]
    exact congrArg some (hadded c _ htotals)
  · rw [if_neg hu, if_neg (Ne.symm hu), hbefore]
    rfl

theorem add_mod_wrap {a b n : Nat} (h : a = b % u64Size) : (a + n) % u64Size = (b + n) % u64Size := by
  rw [h, Nat.mod_add_mod]

theorem recordEnqueue_totals (count : Nat) (c : TenantCounters) (total : Totals) (h : c.totals = total.wrapped) :
    (c.recordEnqueue count).totals = (total + ⟨count, 0, 0⟩).wrapped := by
  obtain ⟨h₁, h₂, h₃⟩ := Totals.mk.inj h
  exact congr (congr (congrArg Totals.mk (add_mod_wrap h₁)) h₂) h₃

theorem recordAckCount_totals (count latencyMs : Nat) (c : TenantCounters) (total : Totals) (h : c.totals = total.wrapped) :
    (c.recordAckCount count latencyMs).totals = (total + ⟨0, count, 0⟩).wrapped := by
  obtain ⟨h₁, h₂, h₃⟩ := Totals.mk.inj h
  exact congr (congr (congrArg Totals.mk h₁) (add_mod_wrap h₂)) h₃

theorem recordNack_totals (c : TenantCounters) (total : Totals) (h : c.totals = total.wrapped) :
    c.recordNack.totals = (total + ⟨0, 0, 1⟩).wrapped := by
  obtain ⟨h₁, h₂, h₃⟩ := Totals.mk.inj h
  exact congr (congr (congrArg Totals.mk h₁) h₂) (add_mod_wrap h₃)

theorem StatsHistory.Counts.next (h : s.Counts tenants) (hn : s.next tenants e = some s') : s'.Counts tenants := by
  intro t ht
  cases e with
  | recordEnqueue u count =>
    cases hn
    simp only [if_pos ht]
    exact h.count ht (recordEnqueue_totals count)
  | recordAckCount u count latencyMs =>
    cases hn
    simp only [if_pos ht]
    exact h.count ht (recordAckCount_totals count latencyMs)
  | recordNack u =>
    cases hn
    simp only [if_pos ht]
    exact h.count ht recordNack_totals
  | refresh =>
    cases hn
    obtain ⟨c, hc, htotals⟩ := Option.map_eq_some_iff.mp (h t ht)
    simp only [StatsHistory.call, countersOf_refresh, hc, if_pos ht]
    exact congrArg some htotals
  | flushStats now =>
    cases hn
    simp only [if_pos ht]
    exact h t ht
  | restart now instant =>
    cases hn
    simp only [StatsHistory.call, countersOf_warmFromStore, countersOf_registerAll instant ht]
    rfl

theorem counts_of_reached (h : s.Reached tenants) : s.Counts tenants := by
  obtain ⟨instant, hrun⟩ := h
  exact hrun.invariant (fun hc _ hn => StatsHistory.Counts.next hc hn) (counts_start instant)

/-- After a refresh, the snapshot shows what the counters have. -/
theorem totals_of_refresh (h : s.Counts tenants) (hn : s.next tenants .refresh = some s') (ht : tenant ∈ tenants) :
    (s'.collector.snapshot tenant).map StatsHistory.totals = some (s.current tenant).wrapped ∧
      s'.lifetime tenant = s.lifetime tenant := by
  cases hn
  obtain ⟨c, hc, htotals⟩ := Option.map_eq_some_iff.mp (h tenant ht)
  obtain ⟨state, hstate, rfl⟩ := Option.map_eq_some_iff.mp hc
  constructor
  · have hsnapshot : s.collector.refresh.lookup tenant = some state.refresh :=
      IdMap.lookup_mapValues.trans (congrArg (Option.map _) hstate)
    simp only [StatsHistory.call, StatsCollector.snapshot, hsnapshot]
    exact congrArg some htotals
  · simp only [StatsHistory.lifetime, if_pos ht]
    rfl

theorem wrapped_eq_add_iff {earlier current : Totals} :
    current.wrapped = earlier + current ↔ earlier = {} ∧ current.InRange := by
  have hcount : ∀ {a b : Nat}, b % u64Size = a + b ↔ a = 0 ∧ b < u64Size := fun {a b} => by
    have hle := Nat.mod_le b u64Size
    constructor
    · intro h
      have hlt : b % u64Size < u64Size := Nat.mod_lt _ (by decide)
      omega
    · rintro ⟨rfl, hlt⟩
      rw [Nat.mod_eq_of_lt hlt, Nat.zero_add]
  obtain ⟨e₁, e₂, e₃⟩ := earlier
  obtain ⟨c₁, c₂, c₃⟩ := current
  have hadd : (⟨e₁, e₂, e₃⟩ + ⟨c₁, c₂, c₃⟩ : Totals) = ⟨e₁ + c₁, e₂ + c₂, e₃ + c₃⟩ := rfl
  simp only [hadd, Totals.wrapped, Totals.mk.injEq, Totals.InRange, hcount]
  tauto

/-- After a refresh the totals are right if and only if nothing was recorded in an earlier lifetime, and no counter
    has wrapped. -/
theorem totals_right_iff (h : s.Reached tenants) (hn : s.next tenants .refresh = some s') (ht : tenant ∈ tenants) :
    s'.TotalsRight tenant ↔ s.earlier tenant = {} ∧ (s.current tenant).InRange := by
  obtain ⟨htotals, hlifetime⟩ := totals_of_refresh (counts_of_reached h) hn ht
  rw [StatsHistory.TotalsRight, htotals, hlifetime, Option.some.injEq, StatsHistory.lifetime]
  exact wrapped_eq_add_iff

/-- Two recordings and a refresh in the first lifetime. -/
theorem totals_right_firstLifetime : ∃ s : StatsHistory Rat,
    Runs.exec (StatsHistory.next ["t"]) (StatsHistory.start ["t"] 0)
      [.recordEnqueue "t" 5, .recordAckCount "t" 2 10, .refresh] = some s ∧ s.TotalsRight "t" := by
  obtain ⟨s, hs⟩ : ∃ s, Runs.exec (StatsHistory.next ["t"]) (StatsHistory.start ["t"] 0 : StatsHistory Rat)
      [.recordEnqueue "t" 5, .recordAckCount "t" 2 10] = some s := ⟨_, rfl⟩
  have hreached : s.Reached ["t"] := ⟨0, Runs.run_of_exec hs⟩
  have hnothing : s.earlier "t" = {} ∧ (s.current "t").InRange := by
    obtain rfl := Option.some.inj hs
    exact ⟨rfl, by decide, by decide, by decide⟩
  obtain ⟨s', hs'⟩ : ∃ s', s.next ["t"] .refresh = some s' := ⟨_, rfl⟩
  refine ⟨s', ?_, (totals_right_iff hreached hs' List.mem_cons_self).mpr hnothing⟩
  obtain rfl := Option.some.inj hs
  exact congrArg (fun o => o.bind some) hs'

/-- Five tasks are recorded and flushed; after a restart, the next refresh has forgotten them. -/
theorem not_totalsRight : ¬∀ (tenants : List String) (instant : Nat) (s s' : StatsHistory Rat) (tenant : String),
    Runs.Run (StatsHistory.next tenants) (StatsHistory.RestartsFlushed tenants) (.start tenants instant) s →
      s.next tenants .refresh = some s' → tenant ∈ tenants → s'.TotalsRight tenant := by
  intro h
  obtain ⟨s₁, hs₁⟩ : ∃ s₁, Runs.exec (StatsHistory.next ["t"]) (StatsHistory.start ["t"] 0 : StatsHistory Rat)
      [.recordEnqueue "t" 5, .refresh, .flushStats 0] = some s₁ := ⟨_, rfl⟩
  have hflushed : s₁.Flushed ["t"] := by
    obtain rfl := Option.some.inj hs₁
    intro t ht
    obtain rfl := List.mem_singleton.mp ht
    exact ⟨_, _, rfl, rfl, rfl, rfl⟩
  have hlifetime : s₁.lifetime "t" = ⟨5, 0, 0⟩ := by
    obtain rfl := Option.some.inj hs₁
    rfl
  have hrun : Runs.Run (StatsHistory.next ["t"]) (StatsHistory.RestartsFlushed ["t"]) (.start ["t"] 0) s₁ := by
    refine (Runs.run_of_exec_forall (P := fun e => e ∈ _) hs₁ fun _ he => he).mono fun s e he => ?_
    rcases List.mem_cons.mp he with rfl | he
    · trivial
    rcases List.mem_cons.mp he with rfl | he
    · trivial
    obtain rfl := List.mem_singleton.mp he
    trivial
  obtain ⟨s₂, hs₂⟩ : ∃ s₂, s₁.next ["t"] (.restart 0 0) = some s₂ := ⟨_, rfl⟩
  obtain ⟨s', hs'⟩ : ∃ s', s₂.next ["t"] .refresh = some s' := ⟨_, rfl⟩
  have hright := h ["t"] 0 s₂ s' "t" (hrun.step (l := .restart 0 0) hflushed hs₂) hs' List.mem_cons_self
  have hcounts : s₂.Counts ["t"] := (counts_of_reached ⟨0, hrun.mono fun _ _ _ => trivial⟩).next hs₂
  obtain ⟨htotals, hsame⟩ := totals_of_refresh hcounts hs' List.mem_cons_self
  rw [StatsHistory.TotalsRight, htotals, hsame] at hright
  obtain rfl := Option.some.inj hs₂
  have hforgotten : Totals.wrapped {} = s₁.lifetime "t" := Option.some.inj hright
  rw [hlifetime] at hforgotten
  exact absurd hforgotten (by decide)

end Runs

end RocksQueue
