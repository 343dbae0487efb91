import RocksQueue.Server
import RocksQueue.Theorems.BaselineBounds
import RocksQueue.Theorems.Hysteresis

/-! # Spikes and promotions

A cycle of the daemon updates the baselines first and asks the throttle then. A spike that the drift detector takes for a
drift at once moves the threshold above itself, and the throttle does not see it. -/

namespace RocksQueue

/-! ## One update -/

section Peak
variable {rates : List Rat} {rate : Rat}

theorem rollingPeakOf_nonneg : 0 ≤ rollingPeakOf rates := by
  cases rates with
  | nil => norm_num [rollingPeakOf]
  | cons first rest =>
    refine le_trans ?_ (le_max_right _ _)
    norm_num

theorem le_rollingPeakOf (h : rate ∈ rates) : rate ≤ rollingPeakOf rates := by
  cases rates with
  | nil => cases h
  | cons first rest =>
    have hmax : (first :: rest).max? = some (rest.foldl max first) := rfl
    exact ((List.max?_eq_some_iff.mp hmax).2 rate h).trans (le_max_left _ _)

end Peak

namespace TenantBaseline

/-- Nothing has drifted so far. -/
structure Calm (b : TenantBaseline Rat) : Prop where
  cusum : b.cusum.cusum = 0
  averages : b.shortEma = b.longEma

variable {b : TenantBaseline Rat} {rate : Rat}

theorem le_rollingPeak_observe (now : Nat) : rate ≤ (b.observe rate 0.2 0.01 now).rollingPeak := by
  refine le_rollingPeakOf (List.mem_map.mpr ⟨(now, rate), List.mem_filter.mpr ⟨?_, ?_⟩, rfl⟩)
  · exact List.mem_append_right _ (List.mem_singleton_self _)
  · exact decide_eq_true (Nat.sub_le now peakWindowMs)

/-- A first sample pulls the two averages apart. -/
theorem detects_iff (now : Nat) (hcalm : b.Calm) :
    ((b.observe rate 0.2 0.01 now).cusum.update (b.observe rate 0.2 0.01 now).shortEma
        (b.observe rate 0.2 0.01 now).longEma).2 = true ↔
      b.cusum.hThreshold < max (0.19 * (rate - b.longEma) - b.cusum.kSlack) 0 := by
  have hsum : b.cusum.cusum + ((b.observe rate 0.2 0.01 now).shortEma - (b.observe rate 0.2 0.01 now).longEma -
      b.cusum.kSlack) = 0.19 * (rate - b.longEma) - b.cusum.kSlack := by
    have hgap : ∀ r e k : Rat, 0 + (0.2 * r + (1.0 - 0.2) * e - (0.01 * r + (1.0 - 0.01) * e) - k) =
        0.19 * (r - e) - k := by
      intro r e k
      linarith
    have hshort : (b.observe rate 0.2 0.01 now).shortEma = 0.2 * rate + (1.0 - 0.2) * b.longEma := by
      rw [← hcalm.averages]
      rfl
    have hlong : (b.observe rate 0.2 0.01 now).longEma = 0.01 * rate + (1.0 - 0.01) * b.longEma := rfl
    rw [hcalm.cusum, hshort, hlong]
    exact hgap _ _ _
  have hzero : (0.0 : Rat) = 0 := by norm_num
  have hmax : F64.max (b.cusum.cusum + ((b.observe rate 0.2 0.01 now).shortEma -
      (b.observe rate 0.2 0.01 now).longEma - b.cusum.kSlack)) 0.0 =
      max (0.19 * (rate - b.longEma) - b.cusum.kSlack) 0 := by
    rw [hsum, hzero]
    rfl
  rw [← hmax]
  simp only [CusumState.update]
  split
  · rename_i hdrift
    exact iff_of_true rfl hdrift
  · rename_i hdrift
    exact iff_of_false Bool.false_ne_true hdrift

/-- Without a drift the threshold stays. -/
theorem update_quiet (now : Nat) (hcalm : b.Calm)
    (hquiet : max (0.19 * (rate - b.longEma) - b.cusum.kSlack) 0 ≤ b.cusum.hThreshold) :
    (b.update rate 0.2 0.01 3.0 now).2 = none ∧
      (b.update rate 0.2 0.01 3.0 now).1.spikeThreshold = b.spikeThreshold := by
  have hnot := mt (detects_iff now hcalm).mp (not_lt.mpr hquiet)
  simp only [update, if_neg hnot]
  exact ⟨trivial, rfl⟩

/-- A drift that is seen in a spike is never a false alarm, and the new threshold is above the spike. -/
theorem update_drifted (now : Nat) (hcalm : b.Calm) (hspike : b.spikeThreshold < rate)
    (hdrift : b.cusum.hThreshold < max (0.19 * (rate - b.longEma) - b.cusum.kSlack) 0) :
    (b.update rate 0.2 0.01 3.0 now).2.isSome = true ∧ rate ≤ (b.update rate 0.2 0.01 3.0 now).1.spikeThreshold := by
  have hdetected := (detects_iff now hcalm).mpr hdrift
  have hpeak : rate ≤ (b.observe rate 0.2 0.01 now).rollingPeak := le_rollingPeak_observe now
  have hnonneg : 0 ≤ (b.observe rate 0.2 0.01 now).rollingPeak := rollingPeakOf_nonneg
  have hgrown : (b.observe rate 0.2 0.01 now).spikeThreshold * 1.05 <
      (b.observe rate 0.2 0.01 now).rollingPeak * 0.8 * 3.0 := by
    show b.spikeThreshold * 1.05 < _
    rcases le_total 0 b.spikeThreshold with h | h
    · linarith
    · linarith
  simp only [update, if_pos hdetected, promote, if_pos hgrown]
  refine ⟨rfl, ?_⟩
  show rate ≤ (b.observe rate 0.2 0.01 now).rollingPeak * 0.8 * 3.0
  linarith

/-- The spike is still one after the update exactly if the first drift stays below the detector's threshold. -/
theorem unpromoted_iff (now : Nat) (hcalm : b.Calm) (hspike : b.spikeThreshold < rate) :
    ((b.update rate 0.2 0.01 3.0 now).2 = none ∧ (b.update rate 0.2 0.01 3.0 now).1.spikeThreshold < rate) ↔
      max (0.19 * (rate - b.longEma) - b.cusum.kSlack) 0 ≤ b.cusum.hThreshold := by
  constructor
  · rintro ⟨hnone, -⟩
    by_contra hdrift
    obtain ⟨hsome, -⟩ := update_drifted now hcalm hspike (not_le.mp hdrift)
    rw [hnone] at hsome
    cases hsome
  · intro hquiet
    obtain ⟨hnone, hthreshold⟩ := update_quiet now hcalm hquiet
    rw [hthreshold]
    exact ⟨hnone, hspike⟩

end TenantBaseline

/-! ## The cycle of the daemon -/

namespace Server
variable {R : Type} [F64 R] {s : Server R} {clock : Clock} {tenant : String} {stats : TenantStats R}
  {snapshots before after : List (TenantStats R)}

theorem baselines_updateBaseline :
    (s.updateBaseline clock stats).baselines = (s.baselines.update stats.tenantId stats.arrivalRate clock.millis).1 := by
  unfold updateBaseline
  split
  · rename_i heq
    rw [heq]
  · rename_i heq
    rw [heq]
    rfl

/-- A tenant's baseline stays as it is while others are updated. -/
theorem lookup_updateBaselines (h : ∀ stats ∈ snapshots, tenant ≠ stats.tenantId) :
    (snapshots.foldl (fun s stats => s.updateBaseline clock stats) s).baselines.lookup tenant =
      s.baselines.lookup tenant := by
  induction snapshots generalizing s with
  | nil => rfl
  | cons stats rest ih =>
    obtain ⟨hne, hrest⟩ := List.forall_mem_cons.mp h
    rw [List.foldl_cons, ih hrest, baselines_updateBaseline, BaselineRegistry.lookup_update, if_neg hne]

/-- Each tenant's baseline is updated once in a cycle, with the rate that the throttle is then asked about. -/
theorem lookup_rebased (s : Server R) (clock : Clock)
    (hsplit : s.counted.collector.allSnapshots = before ++ stats :: after) :
    (s.rebased clock before).baselines.lookup stats.tenantId = s.baselines.lookup stats.tenantId ∧
      (s.rebased clock (before ++ stats :: after)).baselines.lookup stats.tenantId =
        (s.baselines.lookup stats.tenantId).map fun b =>
          (b.update stats.arrivalRate 0.2 0.01 3.0 clock.millis).1 := by
  have hids := s.counted.collector.allSnapshots_ids_nodup
  rw [hsplit, List.map_append, List.map_cons, List.nodup_middle, List.nodup_cons, List.mem_append, not_or] at hids
  obtain ⟨⟨hbefore, hafter⟩, -⟩ := hids
  have hfirst : (s.rebased clock before).baselines.lookup stats.tenantId = s.baselines.lookup stats.tenantId :=
    lookup_updateBaselines (s := s.counted) fun other hother heq => hbefore (heq ▸ List.mem_map_of_mem hother)
  refine ⟨hfirst, ?_⟩
  have hothers : ∀ other ∈ after, stats.tenantId ≠ other.tenantId :=
    fun other hother heq => hafter (heq ▸ List.mem_map_of_mem hother)
  rw [rebased, List.foldl_append, List.foldl_cons, lookup_updateBaselines hothers, baselines_updateBaseline,
    BaselineRegistry.lookup_update, if_pos rfl]
  exact congrArg _ hfirst

end Server

section Spike
variable {s : Server Rat} {clock : Clock} {stats : TenantStats Rat} {before after : List (TenantStats Rat)}
  {b : TenantBaseline Rat}

/-- In every cycle of the daemon, a spike over a calm baseline is not promoted and reaches the throttle as a spike exactly
    if the gap it opens between the two averages, less the slack, is not above the threshold of the detector. -/
theorem spikeThrottled_iff (hsplit : s.counted.collector.allSnapshots = before ++ stats :: after)
    (hb : s.baselines.lookup stats.tenantId = some b) (hcalm : b.Calm) (hspike : b.spikeThreshold < stats.arrivalRate) :
    (((s.rebased clock before).baselines.update stats.tenantId stats.arrivalRate clock.millis).2 = none ∧
        ((s.rebased clock s.counted.collector.allSnapshots).throttle.evaluate before clock.millis
          clock.instant).baselines.isSpike stats.tenantId stats.arrivalRate = true) ↔
      max (0.19 * (stats.arrivalRate - b.longEma) - b.cusum.kSlack) 0 ≤ b.cusum.hThreshold := by
  obtain ⟨hbefore, hupdated⟩ := s.lookup_rebased clock hsplit
  rw [hb] at hbefore hupdated
  rw [AutoThrottle.baselines_evaluate, hsplit, BaselineRegistry.update, hbefore, ← b.unpromoted_iff clock.millis hcalm hspike]
  refine and_congr_right fun _ => ?_
  show (s.rebased clock (before ++ stats :: after)).baselines.isSpike _ _ = true ↔ _
  rw [BaselineRegistry.isSpike, hupdated]
  exact decide_eq_true_iff

end Spike

section FirstBurst

/-- A tenant is provisioned on a first start, and enqueues this much. -/
def firstBurst (count : Nat) : Server Rat :=
  let s := (Server.empty.provisionTenant "t" "standard" ⟨0, 0⟩).1
  { s with collector := s.collector.recordEnqueue "t" count }

theorem calm_new (tenantId : String) (initialRate : Rat) (now : Nat) : (TenantBaseline.new tenantId initialRate now).Calm :=
  ⟨by norm_num [TenantBaseline.new, CusumState.new], rfl⟩

/-- The daemon sees one rate in its first cycle, above the lowest threshold there is. -/
theorem snapshots_firstBurst (count : Nat) (rate : Rat) (hspike : 10 < rate)
    (h : (firstBurst count).counted.collector.allSnapshots.map (fun stats => (stats.tenantId, stats.arrivalRate)) =
      [("t", rate)]) :
    ∃ stats, (firstBurst count).counted.collector.allSnapshots = [] ++ stats :: [] ∧ stats.tenantId = "t" ∧
      stats.arrivalRate = rate ∧ (firstBurst count).baselines.lookup stats.tenantId = some (.new "t" 0.0 0) ∧
      (TenantBaseline.new "t" 0.0 0 : TenantBaseline Rat).spikeThreshold < stats.arrivalRate := by
  obtain ⟨stats, hstats, heq⟩ := List.map_eq_singleton_iff.mp h
  obtain ⟨htenant, hrate⟩ := Prod.mk.inj heq
  have hthreshold : (TenantBaseline.new "t" 0.0 0 : TenantBaseline Rat).spikeThreshold = 10 := by decide +kernel
  refine ⟨stats, hstats, htenant, hrate, ?_, ?_⟩
  · rw [htenant]
    rfl
  · rw [hthreshold, hrate]
    exact hspike

/-- A burst of a hundred tasks in the first cycle is a spike, and the throttle sees it. -/
theorem spikeThrottled_hundred : ∃ stats, (firstBurst 100).counted.collector.allSnapshots = [stats] ∧
    stats.arrivalRate = 20 ∧
    (((firstBurst 100).rebased ⟨0, 0⟩ [stats]).throttle.evaluate [] 0 0).baselines.isSpike "t" 20 = true := by
  obtain ⟨stats, hsplit, htenant, hrate, hb, hspike⟩ :=
    snapshots_firstBurst 100 20 (by norm_num) (by decide +kernel)
  have hquiet : max (0.19 * (stats.arrivalRate - (TenantBaseline.new "t" 0.0 0).longEma) -
      (TenantBaseline.new "t" 0.0 0).cusum.kSlack) 0 ≤ (TenantBaseline.new "t" 0.0 0).cusum.hThreshold := by
    rw [hrate]
    decide +kernel
  obtain ⟨-, hseen⟩ := (spikeThrottled_iff hsplit hb (calm_new "t" 0.0 0) hspike).mpr hquiet
  rw [htenant, hrate, hsplit] at hseen
  exact ⟨stats, hsplit, hrate, hseen⟩

/-- A burst of five thousand tasks promotes the baseline at once. -/
theorem not_spikeThrottled : ¬∀ (s : Server Rat) (clock : Clock) (stats : TenantStats Rat)
    (before after : List (TenantStats Rat)) (b : TenantBaseline Rat),
    s.counted.collector.allSnapshots = before ++ stats :: after → s.baselines.lookup stats.tenantId = some b → b.Calm →
    b.spikeThreshold < stats.arrivalRate →
    ((s.rebased clock before).baselines.update stats.tenantId stats.arrivalRate clock.millis).2 = none ∧
      ((s.rebased clock s.counted.collector.allSnapshots).throttle.evaluate before clock.millis
        clock.instant).baselines.isSpike stats.tenantId stats.arrivalRate = true := by
  intro h
  obtain ⟨stats, hsplit, htenant, hrate, hb, hspike⟩ :=
    snapshots_firstBurst 5000 1000 (by norm_num) (by decide +kernel)
  obtain ⟨hnone, -⟩ := h (firstBurst 5000) ⟨0, 0⟩ stats [] [] _ hsplit hb (calm_new "t" 0.0 0) hspike
  have hpromoted : ((firstBurst 5000).baselines.update "t" 1000 0).2.isSome = true := by decide +kernel
  rw [htenant, hrate] at hnone
  have hsame : ((firstBurst 5000).baselines.update "t" 1000 0).2 = none := hnone
  rw [hsame] at hpromoted
  cases hpromoted

end FirstBurst

end RocksQueue
