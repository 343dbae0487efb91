import RocksQueue.Lib.Runs
import RocksQueue.Theorems.SlotBudget

/-! # Dormant tenants

`allocate_slots` takes a tenant to be dormant by the time of its last enqueue. The field is set when the tenant is
registered, and by no other call of the collector: thirty seconds later every tenant is dormant, however much it
enqueues. -/

namespace RocksQueue

open Runs

/-- A collector in use, the monotonic clock, and what no call reads: when each tenant was registered, and when it was
    last active, with an enqueue or its registration. -/
structure ActivityRun (R : Type) where
  collector : StatsCollector R
  clock : Nat
  registeredAt : String → Nat
  activeAt : String → Nat

inductive ActivityCall (R : Type) where
  | register (tenantId : String)
  | recordEnqueue (tenantId : String) (count : Nat)
  | refresh
  | warmFromStore (persisted : List (PersistedStats R))
  | wait (nanos : Nat)

variable {R : Type} [F64 R]

namespace ActivityRun

omit [F64 R] in
def start (clock : Nat) : ActivityRun R := ⟨.empty, clock, fun _ => clock, fun _ => clock⟩

/-- The clock, noted down for one tenant. -/
def noted (s : ActivityRun R) (tenantId : String) (times : String → Nat) (t : String) : Nat :=
  if t = tenantId then s.clock else times t

def next (s : ActivityRun R) : ActivityCall R → Option (ActivityRun R)
  | .register tenantId =>
    some { s with
      collector := s.collector.register tenantId s.clock
      registeredAt := s.noted tenantId s.registeredAt
      activeAt := s.noted tenantId s.activeAt }
  | .recordEnqueue tenantId count =>
    some { s with collector := s.collector.recordEnqueue tenantId count, activeAt := s.noted tenantId s.activeAt }
  | .refresh => some { s with collector := s.collector.refresh }
  | .warmFromStore persisted => some { s with collector := s.collector.warmFromStore persisted }
  | .wait nanos => some { s with clock := s.clock + nanos }

end ActivityRun

/-! ## The time of the last enqueue -/

section LastEnqueue
variable {c : StatsCollector R} {tenant t : String}

/-- The time that the dormancy of a tenant is judged by. -/
def lastEnqueueOf (c : StatsCollector R) (tenant : String) : Option Nat :=
  (c.lookup tenant).map fun state => state.stats.lastEnqueueAt

theorem lastEnqueueOf_register {instant : Nat} :
    lastEnqueueOf (c.register t instant) tenant = if tenant = t then some instant else lastEnqueueOf c tenant := by
  simp only [lastEnqueueOf, StatsCollector.register, IdMap.lookup_insert, TenantStats.new]
  split
  · rfl
  · rfl

omit [F64 R] in
/-- A change in place that keeps the time. -/
theorem lastEnqueueOf_modify {f : TenantStatsState R → TenantStatsState R}
    {hf : ∀ state, state.stats.tenantId = t → (f state).stats.tenantId = t}
    (hkeeps : ∀ state, (f state).stats.lastEnqueueAt = state.stats.lastEnqueueAt) :
    lastEnqueueOf (IdMap.modify c t f hf) tenant = lastEnqueueOf c tenant := by
  rw [lastEnqueueOf, IdMap.lookup_modify]
  split
  · rw [Option.map_map]
    exact congrArg (Option.map · _) (funext hkeeps)
  · rfl

theorem lastEnqueueOf_refresh : lastEnqueueOf c.refresh tenant = lastEnqueueOf c tenant := by
  refine (congrArg (Option.map _) IdMap.lookup_mapValues).trans ?_
  rw [Option.map_map]
  rfl

omit [F64 R] in
theorem lastEnqueueOf_warmFromStore (persisted : List (PersistedStats R)) :
    lastEnqueueOf (c.warmFromStore persisted) tenant = lastEnqueueOf c tenant := by
  induction persisted generalizing c with
  | nil => rfl
  | cons p persisted ih =>
    refine ih.trans ?_
    exact lastEnqueueOf_modify fun _ => rfl

end LastEnqueue

namespace ActivityRun
variable {s s' : ActivityRun R} {call : ActivityCall R} {tenant t : String}

/-- The time is that of the registration, and no activity is later than now. -/
def JudgedByRegistration (s : ActivityRun R) : Prop :=
  ∀ tenant time, lastEnqueueOf s.collector tenant = some time →
    time = s.registeredAt tenant ∧ s.registeredAt tenant ≤ s.activeAt tenant ∧ s.activeAt tenant ≤ s.clock

theorem judgedByRegistration_next (h : s.JudgedByRegistration) (hnext : s.next call = some s') :
    s'.JudgedByRegistration := by
  intro tenant time htime
  cases call with
  | register t =>
    cases hnext
    simp only [lastEnqueueOf_register] at htime
    by_cases heq : tenant = t
    · rw [if_pos heq, Option.some.injEq] at htime
      simp only [noted, if_pos heq]
      exact ⟨htime.symm, Nat.le_refl _, Nat.le_refl _⟩
    · rw [if_neg heq] at htime
      simp only [noted, if_neg heq]
      exact h tenant time htime
  | recordEnqueue t count =>
    cases hnext
    -- An enqueue is counted, but its time is not kept.
    have hkept : lastEnqueueOf (s.collector.recordEnqueue t count) tenant = lastEnqueueOf s.collector tenant :=
      lastEnqueueOf_modify fun _ => rfl
    obtain ⟨hregistered, hle, hclock⟩ := h tenant time (hkept.symm.trans htime)
    refine ⟨hregistered, ?_⟩
    simp only [noted]
    split
    · exact ⟨hle.trans hclock, Nat.le_refl _⟩
    · exact ⟨hle, hclock⟩
  | refresh =>
    cases hnext
    exact h tenant time (lastEnqueueOf_refresh.symm.trans htime)
  | warmFromStore persisted =>
    cases hnext
    exact h tenant time ((lastEnqueueOf_warmFromStore persisted).symm.trans htime)
  | wait nanos =>
    cases hnext
    obtain ⟨hregistered, hle, hclock⟩ := h tenant time htime
    exact ⟨hregistered, hle, Nat.le_add_right_of_le hclock⟩

theorem judgedByRegistration_of_run {clock : Nat} (h : Run next (fun _ _ => True) (start clock) s) :
    s.JudgedByRegistration := by
  refine h.invariant (fun hI _ hnext => judgedByRegistration_next hI hnext) ?_
  intro tenant time htime
  rw [start, lastEnqueueOf, IdMap.lookup_empty] at htime
  cases htime

end ActivityRun

/-! ## Who is dormant -/

/-- `dormancy_threshold_secs`, in nanoseconds. -/
def dormancyThreshold : Nat := 30 * 10 ^ 9

omit [F64 R] in
theorem mem_allSnapshots {c : StatsCollector R} {tenant : String} {state : TenantStatsState R}
    (h : c.lookup tenant = some state) : state.stats ∈ c.allSnapshots := by
  refine List.mem_map_of_mem (IdMap.mem_values.mpr ?_)
  rw [c.keyed h]
  exact h

theorem dormant_iff {stats : TenantStats Rat} {instant : Nat} :
    stats.dormant instant = true ↔ dormancyThreshold < instant - stats.lastEnqueueAt := by
  have hthirty : (30.0 : Rat) = 30 := by norm_num
  rw [TenantStats.dormant, decide_eq_true_eq, asSecsF64_eq, hthirty, lt_div_iff₀ (by norm_num), dormancyThreshold]
  exact_mod_cast Iff.rfl

namespace ActivityRun
variable {s : ActivityRun Rat} {tenant : String} {state : TenantStatsState Rat} {clock : Nat}

/-- `allocate_slots` takes the tenant to be dormant when it has not been active for longer than the threshold, and
    only then. -/
def ReflectsActivity (s : ActivityRun Rat) (tenant : String) (state : TenantStatsState Rat) : Prop :=
  state.stats ∈ s.collector.guaranteedTenants s.clock ↔ dormancyThreshold < s.clock - s.activeAt tenant

/-- In every run, the dormancy of a tenant that is not new reflects its activity exactly when the tenant was registered
    within the threshold, or has not been active within it. -/
theorem reflectsActivity_iff (hrun : Run next (fun _ _ => True) (start clock) s)
    (hstate : s.collector.lookup tenant = some state) (hnew : state.stats.isNew = false) :
    s.ReflectsActivity tenant state ↔ s.clock - s.registeredAt tenant ≤ dormancyThreshold ∨
      dormancyThreshold < s.clock - s.activeAt tenant := by
  have hlast : lastEnqueueOf s.collector tenant = some state.stats.lastEnqueueAt := by
    rw [lastEnqueueOf, hstate]
    rfl
  obtain ⟨htime, hle, -⟩ := judgedByRegistration_of_run hrun tenant state.stats.lastEnqueueAt hlast
  have hguaranteed : state.stats ∈ s.collector.guaranteedTenants s.clock ↔
      dormancyThreshold < s.clock - s.registeredAt tenant := by
    rw [StatsCollector.guaranteedTenants, List.mem_filter, and_iff_right (mem_allSnapshots hstate),
      TenantStats.guaranteed, hnew, Bool.false_or, dormant_iff, htime]
  rw [ReflectsActivity, hguaranteed]
  omega

/-! ## A tenant that enqueues now -/

/-- A tenant that enqueues at once, and again some nanoseconds later. -/
def twoEnqueues (nanos : Nat) : List (ActivityCall Rat) :=
  [.register "t", .recordEnqueue "t" 1, .refresh, .wait nanos, .recordEnqueue "t" 1, .refresh]

/-- What the run comes to: the clock, the times noted down, whether the tenant is new, and whether it is dormant. -/
def enqueued (nanos : Nat) : Option (Nat × Nat × Nat × Bool × Bool) :=
  (exec next (start 0) (twoEnqueues nanos)).bind fun s =>
    (s.collector.lookup "t").map fun state =>
      (s.clock, s.registeredAt "t", s.activeAt "t", state.stats.isNew, state.stats.dormant s.clock)

theorem enqueued_inv {nanos : Nat} {time registered active : Nat} {isNew dormant : Bool}
    (h : enqueued nanos = some (time, registered, active, isNew, dormant)) :
    ∃ (s : ActivityRun Rat) (state : TenantStatsState Rat), Run next (fun _ _ => True) (start 0) s ∧
      s.collector.lookup "t" = some state ∧ s.clock = time ∧
      s.registeredAt "t" = registered ∧ s.activeAt "t" = active ∧ state.stats.isNew = isNew ∧
      state.stats.dormant s.clock = dormant := by
  obtain ⟨s, hs, hsummary⟩ := Option.bind_eq_some_iff.mp h
  obtain ⟨state, hstate, heq⟩ := Option.map_eq_some_iff.mp hsummary
  cases heq
  exact ⟨s, state, run_of_exec hs, hstate, rfl, rfl, rfl, rfl, rfl⟩

/-- Thirty-one seconds after its registration the tenant is dormant, at the moment of an enqueue. -/
theorem not_reflectsActivity : ¬∀ (clock : Nat) (s : ActivityRun Rat) (tenant : String) (state : TenantStatsState Rat),
    Run next (fun _ _ => True) (start clock) s → s.collector.lookup tenant = some state → state.stats.isNew = false →
      s.ReflectsActivity tenant state := by
  intro h
  have hsummary : enqueued (31 * 10 ^ 9) = some (31 * 10 ^ 9, 0, 31 * 10 ^ 9, false, true) := by decide +kernel
  obtain ⟨s, state, hrun, hstate, hclock, -, hactive, hnew, hdormant⟩ := enqueued_inv hsummary
  have hguaranteed : state.stats ∈ s.collector.guaranteedTenants s.clock := by
    refine List.mem_filter.mpr ⟨mem_allSnapshots hstate, ?_⟩
    rw [TenantStats.guaranteed, hdormant, Bool.or_true]
  have hlate := (h 0 s "t" state hrun hstate hnew).mp hguaranteed
  rw [hclock, hactive] at hlate
  exact absurd hlate (by decide)

theorem reflectsActivity_tenSeconds : ∃ (s : ActivityRun Rat) (state : TenantStatsState Rat),
    Run next (fun _ _ => True) (start 0) s ∧ s.collector.lookup "t" = some state ∧ state.stats.isNew = false ∧
      s.ReflectsActivity "t" state := by
  have hsummary : enqueued (10 * 10 ^ 9) = some (10 * 10 ^ 9, 0, 10 * 10 ^ 9, false, false) := by decide +kernel
  obtain ⟨s, state, hrun, hstate, hclock, hregistered, -, hnew, -⟩ := enqueued_inv hsummary
  refine ⟨s, state, hrun, hstate, hnew, (reflectsActivity_iff hrun hstate hnew).mpr (Or.inl ?_)⟩
  rw [hclock, hregistered]
  decide

end ActivityRun

end RocksQueue
