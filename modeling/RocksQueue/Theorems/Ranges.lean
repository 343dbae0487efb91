import Mathlib.Algebra.Order.Floor.Semifield
import RocksQueue.Theorems.BaselineBounds
import RocksQueue.Theorems.CleanSlate
import RocksQueue.Theorems.Gauges

/-! # The ranges of the figures

In exact arithmetic every figure of a tenant that the server reaches has a range: a rate is no larger than what a counter
can count in one cycle, a ratio is one, a threshold is at least ten and at most three times the largest rate. The records
on disk are within the same ranges, so a restart does not lead out of them. -/

namespace RocksQueue

/-- The largest value of a counter. -/
def maxCount : Rat := (u64Size - 1 : Nat)

/-- What the daemon computes of a tenant, in memory or on disk. -/
structure FiguresInRange (arrivalRate processingRate avgTaskLatency burstScore backlogRatio : Rat) : Prop where
  arrivalRate : arrivalRate ∈ Set.Icc 0 maxCount
  processingRate : processingRate ∈ Set.Icc 0 maxCount
  avgTaskLatency : avgTaskLatency ∈ Set.Icc 0 maxCount
  burstScore : burstScore ∈ Set.Icc 0 (maxCount * maxCount)
  backlogRatio : backlogRatio ∈ Set.Icc 0 1

def TenantStats.InRange (s : TenantStats Rat) : Prop :=
  FiguresInRange s.arrivalRate s.processingRate s.avgTaskLatency s.burstScore s.backlogRatio

def PersistedStats.InRange (s : PersistedStats Rat) : Prop :=
  FiguresInRange s.arrivalRate s.processingRate s.avgTaskLatency s.burstScore s.backlogRatio

structure TenantStatsState.InRange (state : TenantStatsState Rat) : Prop where
  stats : state.stats.InRange
  enqueueCount : state.counters.enqueueCount < u64Size
  latencySumMs : state.counters.latencySumMs < u64Size

structure BaselineRecord.InRange (b : BaselineRecord Rat) : Prop where
  shortEma : b.shortEma ∈ Set.Icc 0 maxCount
  longEma : b.longEma ∈ Set.Icc 0 maxCount
  spikeThreshold : b.spikeThreshold ∈ Set.Icc 10 (3 * maxCount)

structure TenantBaseline.InRange (b : TenantBaseline Rat) : Prop where
  shortEma : b.shortEma ∈ Set.Icc 0 maxCount
  longEma : b.longEma ∈ Set.Icc 0 maxCount
  rollingPeak : b.rollingPeak ∈ Set.Icc 0 maxCount
  spikeThreshold : b.spikeThreshold ∈ Set.Icc 10 (3 * maxCount)
  peakWindow : ∀ e ∈ b.peakWindow, e.2 ∈ Set.Icc 0 maxCount
  hThreshold : b.cusum.hThreshold = 50
  cusum : b.cusum.cusum ∈ Set.Icc 0 45
  promotions : b.promotions.length ≤ maxPromotions

/-- A throttle as the daemon imposes it. -/
structure ThrottleState.Imposed (t : ThrottleState) : Prop where
  throttled : t.throttled = true
  reason : t.reason ∈ throttleReasons
  appliedRate : t.appliedRate = max (min (t.originalRate / 4) (u32Size - 1)) 5
  cooldown : t.cooldownUntilMs = (t.triggeredAtMs + 30000) % u64Size

def SystemRecord.InRange : SystemRecord Rat → Prop
  | .policy _ => True
  | .stats s => s.InRange
  | .throttle p => p.state.Imposed ∧ p.throttled = true
  | .baseline b => b.InRange
  | .corrupt _ => False

/-! ## Statistics -/

section Stats
variable {state : TenantStatsState Rat} {a x upper : Rat} {n : Nat}

theorem maxCount_nonneg : 0 ≤ maxCount := Nat.cast_nonneg _

theorem ten_le_maxCount : 10 ≤ maxCount := by
  norm_num [maxCount, u64Size]

theorem count_mem_Icc (h : n < u64Size) : (F64.ofNat n : Rat) ∈ Set.Icc 0 maxCount := by
  have hle : n ≤ u64Size - 1 := Nat.le_sub_one_of_lt h
  exact ⟨Nat.cast_nonneg n, Nat.cast_le.mpr hle⟩

theorem u64Size_pos : 0 < u64Size := by decide

theorem fetchAdd_lt (a b : Nat) : fetchAdd a b < u64Size := Nat.mod_lt _ u64Size_pos

theorem movingAverage_mem_Icc {new old : Rat} (hnew : new ∈ Set.Icc 0 upper) (hold : old ∈ Set.Icc 0 upper) :
    movingAverage statsAlpha new old ∈ Set.Icc 0 upper := by
  have hone : (1.0 : Rat) = 1 := by norm_num
  simp only [movingAverage, statsAlpha, hone]
  exact Streams.mix_mem_Icc (by norm_num) hnew hold

/-- Two rates differ by no more than the largest. -/
theorem deviation_mem_Icc {new rate : Rat} (hnew : new ∈ Set.Icc 0 maxCount) (hrate : rate ∈ Set.Icc 0 maxCount) :
    (new - rate) * (new - rate) ∈ Set.Icc 0 (maxCount * maxCount) := by
  have habs : |new - rate| ≤ maxCount := by
    rw [abs_le]
    exact ⟨by linarith [hnew.1, hrate.2], by linarith [hnew.2, hrate.1]⟩
  refine ⟨mul_self_nonneg _, ?_⟩
  rw [← abs_mul_abs_self]
  exact mul_self_le_mul_self (abs_nonneg _) habs

/-- An average of numbers of milliseconds, in seconds. -/
theorem latency_mem_Icc {sum acked : Nat} (hsum : sum < u64Size) (hacked : 0 < acked) :
    (F64.ofNat sum / F64.ofNat acked / 1000.0 : Rat) ∈ Set.Icc 0 maxCount := by
  obtain ⟨hnonneg, hle⟩ := count_mem_Icc hsum
  have hone : (1 : Rat) ≤ F64.ofNat acked := Nat.one_le_cast.mpr hacked
  have hmean : (F64.ofNat sum / F64.ofNat acked : Rat) ≤ F64.ofNat sum := div_le_self hnonneg hone
  have hmeanNonneg : (0 : Rat) ≤ F64.ofNat sum / F64.ofNat acked := div_nonneg hnonneg (zero_le_one.trans hone)
  refine ⟨div_nonneg hmeanNonneg (by norm_num), ?_⟩
  calc (F64.ofNat sum / F64.ofNat acked / 1000.0 : Rat)
      ≤ F64.ofNat sum / F64.ofNat acked := div_le_self hmeanNonneg (by norm_num)
    _ ≤ F64.ofNat sum := hmean
    _ ≤ maxCount := hle

theorem newStats_inRange (tenant : String) (instant : Nat) :
    TenantStatsState.InRange ⟨.new tenant instant, .zero⟩ := by
  have hzero : (0.0 : Rat) ∈ Set.Icc 0 maxCount := ⟨by norm_num, by norm_num [maxCount]⟩
  refine ⟨⟨hzero, hzero, hzero, ⟨by norm_num [TenantStats.new], ?_⟩, by norm_num [TenantStats.new]⟩, u64Size_pos,
    u64Size_pos⟩
  have hsquare : 0 ≤ maxCount * maxCount := mul_nonneg maxCount_nonneg maxCount_nonneg
  norm_num [TenantStats.new, hsquare]

theorem TenantStatsState.InRange.refresh (h : state.InRange) : state.refresh.InRange := by
  obtain ⟨hstats, hcount, hlatency⟩ := h
  have hnew := count_mem_Icc hcount
  have harrival := movingAverage_mem_Icc hnew hstats.arrivalRate
  refine ⟨⟨harrival, ?_, ?_, ?_, hstats.backlogRatio⟩, u64Size_pos, u64Size_pos⟩
  · exact movingAverage_mem_Icc (count_mem_Icc (fetchAdd_lt _ _)) hstats.processingRate
  · simp only [TenantStatsState.refresh]
    split
    · rename_i hacked
      exact movingAverage_mem_Icc (latency_mem_Icc hlatency hacked) hstats.avgTaskLatency
    · exact hstats.avgTaskLatency
  · exact movingAverage_mem_Icc (deviation_mem_Icc hnew harrival) hstats.burstScore

theorem TenantStatsState.InRange.recordBacklog (h : state.InRange) (pending inflight : Nat) :
    (state.recordBacklog pending inflight).InRange := by
  refine ⟨{ h.stats with backlogRatio := ?_ }, h.enqueueCount, h.latencySumMs⟩
  simp only [TenantStatsState.recordBacklog]
  split
  · have hle : (F64.ofNat pending : Rat) ≤ F64.ofNat (pending + inflight) := Nat.cast_le.mpr (Nat.le_add_right _ _)
    exact ⟨div_nonneg (Nat.cast_nonneg _) (Nat.cast_nonneg _), div_le_one_of_le₀ hle (Nat.cast_nonneg _)⟩
  · norm_num

/-- A figure does not grow when it decays. -/
theorem decayed_mem_Icc (ha : a ∈ Set.Icc 0 1) (hx : x ∈ Set.Icc 0 upper) : x * a ∈ Set.Icc 0 upper :=
  ⟨mul_nonneg hx.1 ha.1, (mul_le_of_le_one_right hx.1 ha.2).trans hx.2⟩

theorem PersistedStats.InRange.decayed {exp2 : Rat → Rat} (hexp2 : ∀ x ≤ 0, exp2 x ∈ Set.Icc 0 1) {p : PersistedStats Rat}
    (h : p.InRange) (now : Nat) : (@PersistedStats.decayed Rat (.exact exp2) p now).InRange := by
  have hoffline : -((F64.ofNat (now - p.flushedAtMs) : Rat) / 1000.0 / 60.0) ≤ 0 := by
    have hnonneg : (0 : Rat) ≤ F64.ofNat (now - p.flushedAtMs) := Nat.cast_nonneg _
    have hquotient : (0 : Rat) ≤ F64.ofNat (now - p.flushedAtMs) / 1000.0 / 60.0 :=
      div_nonneg (div_nonneg hnonneg (by norm_num)) (by norm_num)
    exact neg_nonpos.mpr hquotient
  have hdecay := hexp2 _ hoffline
  have hhalf : ((exp2 (-((F64.ofNat (now - p.flushedAtMs) : Rat) / 1000.0 / 60.0)) + 1.0) / 2.0 : Rat) ∈
      Set.Icc 0 1 := by
    generalize exp2 (-((F64.ofNat (now - p.flushedAtMs) : Rat) / 1000.0 / 60.0)) = d at hdecay
    constructor
    · linarith [hdecay.1]
    · linarith [hdecay.2]
  exact ⟨decayed_mem_Icc hdecay h.arrivalRate, decayed_mem_Icc hhalf h.processingRate,
    decayed_mem_Icc hhalf h.avgTaskLatency, decayed_mem_Icc hdecay h.burstScore, decayed_mem_Icc hdecay h.backlogRatio⟩

end Stats

/-! ## Baselines -/

section Baselines
variable {b : TenantBaseline Rat} {rate : Rat} {now : Nat}

theorem rollingPeakOf_mem_Icc {rates : List Rat} (h : ∀ rate ∈ rates, rate ∈ Set.Icc 0 maxCount) :
    rollingPeakOf rates ∈ Set.Icc 0 maxCount := by
  by_cases hne : rates = []
  · subst hne
    exact ⟨by norm_num [rollingPeakOf], by norm_num [rollingPeakOf, maxCount]⟩
  · exact h _ (isGreatest_rollingPeakOf hne fun rate hrate => (h rate hrate).1).1

theorem TenantBaseline.InRange.new (tenantId : String) (now : Nat) :
    (TenantBaseline.new tenantId (0.0 : Rat) now).InRange := by
  have hzero : (0.0 : Rat) ∈ Set.Icc 0 maxCount := ⟨by norm_num, by norm_num [maxCount]⟩
  refine ⟨hzero, hzero, hzero, ?_, fun e he => (by cases he), by norm_num [TenantBaseline.new, CusumState.new],
    by norm_num [TenantBaseline.new, CusumState.new], Nat.zero_le _⟩
  have hten : (TenantBaseline.new tenantId (0.0 : Rat) now).spikeThreshold = 10 := by
    norm_num [TenantBaseline.new, F64.max]
  rw [hten]
  exact ⟨le_rfl, by linarith [ten_le_maxCount]⟩

theorem TenantBaseline.InRange.restored {r : BaselineRecord Rat} (h : r.InRange) (tenantId : String) (now : Nat) :
    (TenantBaseline.restored tenantId r now).InRange where
  shortEma := h.shortEma
  longEma := h.longEma
  rollingPeak := h.longEma
  spikeThreshold := h.spikeThreshold
  peakWindow e he := by cases he
  hThreshold := by norm_num [TenantBaseline.restored, TenantBaseline.new, CusumState.new]
  cusum := by norm_num [TenantBaseline.restored, TenantBaseline.new, CusumState.new]
  promotions := Nat.zero_le _

theorem TenantBaseline.InRange.observe (h : b.InRange) (hrate : rate ∈ Set.Icc 0 maxCount) :
    (b.observe rate 0.2 0.01 now).InRange := by
  obtain ⟨hshort, hlong⟩ := TenantBaseline.observe_mem_Icc hrate h.shortEma h.longEma now
  have hwindow : ∀ e ∈ (b.observe rate 0.2 0.01 now).peakWindow, e.2 ∈ Set.Icc 0 maxCount := by
    intro e he
    rcases List.mem_append.mp (List.mem_filter.mp he).1 with hold | hnew
    · exact h.peakWindow e hold
    · cases List.mem_singleton.mp hnew
      exact hrate
  refine ⟨hshort, hlong, rollingPeakOf_mem_Icc fun r hr => ?_, h.spikeThreshold, hwindow, h.hThreshold, h.cusum,
    h.promotions⟩
  obtain ⟨e, he, rfl⟩ := List.mem_map.mp hr
  exact hwindow e he

theorem TenantBaseline.InRange.update (h : b.InRange) (hrate : rate ∈ Set.Icc 0 maxCount) :
    (b.update rate 0.2 0.01 3.0 now).1.InRange := by
  have hobserved : (b.observe rate 0.2 0.01 now).InRange := h.observe hrate
  have houtcome := TenantBaseline.outcome h.hThreshold rate now
  generalize b.observe rate 0.2 0.01 now = b' at hobserved houtcome
  generalize b.update rate 0.2 0.01 3.0 now = result at houtcome
  cases houtcome with
  | settled cusum hThreshold bounded =>
    exact ⟨hobserved.shortEma, hobserved.longEma, hobserved.rollingPeak, hobserved.spikeThreshold, hobserved.peakWindow,
      hThreshold, bounded, hobserved.promotions⟩
  | promoted cusum hThreshold bounded promotion old baseline new grown =>
    obtain ⟨hpeak, hpeakLe⟩ := hobserved.rollingPeak
    obtain ⟨hthreshold, -⟩ := hobserved.spikeThreshold
    refine ⟨hobserved.shortEma, ?_, hobserved.rollingPeak, ?_, hobserved.peakWindow, hThreshold, bounded, ?_⟩
    · show promotion.newBaseline ∈ _
      rw [baseline]
      exact ⟨by linarith, by linarith⟩
    · show promotion.newThreshold ∈ _
      refine ⟨by linarith, ?_⟩
      rw [new, baseline]
      linarith
    · show (if maxPromotions < (b'.promotions ++ [promotion]).length then _ else _ : List _).length ≤ maxPromotions
      have hlength : (b'.promotions ++ [promotion]).length = b'.promotions.length + 1 := by simp
      have hbound := hobserved.promotions
      split
      · rw [List.length_drop]
        omega
      · omega

end Baselines

/-! ## Throttles -/

theorem imposed_throttleState (tenant : String) (rate now : Nat) {reason : String} (h : reason ∈ throttleReasons) :
    ((ThrottleConfig.default : ThrottleConfig Rat).throttleState tenant reason rate now).Imposed where
  throttled := rfl
  reason := h
  appliedRate := by
    have hquarter : (rate : Rat) * 0.25 = rate / (4 : Nat) := by norm_num [div_eq_mul_inv]
    show max (min ⌊(rate : Rat) * 0.25⌋₊ (u32Size - 1)) 5 = _
    rw [hquarter, Nat.floor_div_eq_div]
    rfl
  cooldown := rfl

/-! ## The server -/

/-- The ranges as a condition on what the server keeps. -/
def ranges : Gauge Rat where
  stats := TenantStatsState.InRange
  baseline := TenantBaseline.InRange
  throttle := ThrottleState.Imposed
  record := SystemRecord.InRange

theorem ranges_sound {exp2 : Rat → Rat} (hexp2 : ∀ x ≤ 0, exp2 x ∈ Set.Icc 0 1) :
    @Gauge.Sound Rat (.exact exp2) ranges := by
  let arithmetic : F64 Rat := .exact exp2
  exact {
    newStats := fun tenant instant => newStats_inRange tenant instant
    recordEnqueue := fun _ h => ⟨h.stats, fetchAdd_lt _ _, h.latencySumMs⟩
    recordAckCount := fun _ h => ⟨h.stats, h.enqueueCount, fetchAdd_lt _ _⟩
    recordNack := fun h => ⟨h.stats, h.enqueueCount, h.latencySumMs⟩
    refresh := fun h => h.refresh
    recordBacklog := fun pending inflight h => h.recordBacklog pending inflight
    warm := fun now h hp => by
      have hdecayed := PersistedStats.InRange.decayed hexp2 hp now
      exact ⟨⟨hdecayed.arrivalRate, hdecayed.processingRate, hdecayed.avgTaskLatency, hdecayed.burstScore,
        hdecayed.backlogRatio⟩, h.enqueueCount, h.latencySumMs⟩
    newBaseline := fun tenant now => .new tenant now
    restoredBaseline := fun tenant now h => .restored h tenant now
    updateBaseline := fun now hstats h => h.update hstats.stats.arrivalRate
    newThrottle := fun tenant rate now _ hreason => imposed_throttleState tenant rate now hreason
    restoredThrottle := fun h => h.1
    statsRecord := fun now h => h.stats
    baselineRecord := fun now h => ⟨h.shortEma, h.longEma, h.spikeThreshold⟩
    throttleRecord := fun h => ⟨⟨rfl, h.reason, h.appliedRate, h.cooldown⟩, h.throttled⟩
    policyRecord := fun _ => trivial }

/-- In every state that the server reaches, whatever was asked of it and however often it was restarted, the statistics,
    the baselines and the records are in their ranges, and the throttles are as the daemon imposes them. Of the powers of
    two it is enough that they are no larger than one where the exponent is not positive. -/
theorem figures_in_range {exp2 : Rat → Rat} (hexp2 : ∀ x ≤ 0, exp2 x ∈ Set.Icc 0 1) {s : Server Rat}
    (h : @Server.Reached Rat (.exact exp2) s) :
    (∀ stats ∈ s.collector.allSnapshots, stats.InRange) ∧ (∀ b ∈ s.baselines.allSnapshots, b.InRange) ∧
      (∀ t ∈ s.throttle.allSnapshots, t.Imposed) ∧
      ∀ key v, s.registry.db.record? key = some v → v.InRange := by
  have hwithin : s.Within ranges := @within_of_reached Rat _ (.exact exp2) _ (ranges_sound hexp2) h
  refine ⟨fun stats hstats => ?_, fun b hb => hwithin.baselines.of_mem hb, fun t ht => hwithin.throttles.of_mem ht,
    fun key v hget => hwithin.records hget⟩
  obtain ⟨state, hstate, rfl⟩ := List.mem_map.mp hstats
  exact (hwithin.stats.of_mem hstate).stats

theorem exp2_mem_Icc (x : Rat) (hx : x ≤ 0) : (2 ^ ⌊x⌋ : Rat) ∈ Set.Icc 0 1 := by
  have hfloor : ⌊x⌋ ≤ 0 := Int.floor_nonpos hx
  exact ⟨zpow_nonneg (by norm_num) _, zpow_le_one_of_nonpos₀ (by norm_num) hfloor⟩

/-- A server that has throttled a tenant. -/
theorem figures_in_range_backlog : ∃ s : Server Rat, s.Reached ∧ (∃ stats ∈ s.collector.allSnapshots, stats.InRange) ∧
    (∃ b ∈ s.baselines.allSnapshots, b.InRange) ∧ ∃ t ∈ s.throttle.allSnapshots, t.Imposed := by
  have hruns : (Runs.exec Server.next (.empty : Server Rat) throttledEvents).map
      (fun s => (s.collector.allSnapshots.length, s.baselines.allSnapshots.length, s.throttle.allSnapshots.length)) =
        some (1, 1, 1) := by
    decide +kernel
  obtain ⟨s, hs, hlengths⟩ := Option.map_eq_some_iff.mp hruns
  simp only [Prod.mk.injEq] at hlengths
  obtain ⟨hstats, hbaselines, hthrottles⟩ := hlengths
  have hreached : s.Reached := ⟨.empty, ⟨0, 0⟩, rfl, Runs.run_of_exec hs⟩
  obtain ⟨hstatsIn, hbaselinesIn, hthrottlesIn, -⟩ := figures_in_range exp2_mem_Icc hreached
  obtain ⟨stats, hmem⟩ := List.exists_mem_of_length_eq_add_one hstats
  obtain ⟨b, hb⟩ := List.exists_mem_of_length_eq_add_one hbaselines
  obtain ⟨t, ht⟩ := List.exists_mem_of_length_eq_add_one hthrottles
  exact ⟨s, hreached, ⟨stats, hmem, hstatsIn stats hmem⟩, ⟨b, hb, hbaselinesIn b hb⟩, t, ht, hthrottlesIn t ht⟩

end RocksQueue
