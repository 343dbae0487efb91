import RocksQueue.Baseline
import RocksQueue.Lib.Runs
import RocksQueue.Lib.Streams

/-! # The bounds of a baseline

In exact arithmetic everything that a baseline keeps is bounded by the rates that it has seen. The averages mix what lies
between 0 and the largest of them, the peak is one of them, and the threshold is only ever replaced by a multiple of the
peak. The drift detector is cut off at its own threshold. A run of updates keeps all of this together (`kept_next`). -/

namespace RocksQueue

open Runs

/-! ## One update -/

namespace CusumState
variable {c : CusumState Rat}

/-- A detector that is not alarmed has decayed. -/
theorem update_spec (hthreshold : c.hThreshold = 50) (x mu : Rat) :
    (c.update x mu).1.hThreshold = 50 ∧
      ((c.update x mu).2 = false → (c.update x mu).1.cusum ∈ Set.Icc 0 45) := by
  have hnonneg : (0 : Rat) ≤ F64.max (c.cusum + (x - mu - c.kSlack)) 0.0 := by
    refine le_trans ?_ (le_max_right _ _)
    norm_num
  simp only [update]
  split
  · exact ⟨hthreshold, fun h => by cases h⟩
  · rename_i hcalm
    refine ⟨hthreshold, fun _ => ?_⟩
    rw [hthreshold] at hcalm
    constructor
    · show (0 : Rat) ≤ _ * 0.9
      exact mul_nonneg hnonneg (by norm_num)
    · show _ * 0.9 ≤ (45 : Rat)
      linarith

theorem cusum_reset (newBaseline : Rat) : (c.reset newBaseline).cusum ∈ Set.Icc 0 45 := by
  show (0.0 : Rat) ∈ Set.Icc 0 45
  norm_num

end CusumState

/-- The rolling peak is the largest of the rates in its window. -/
theorem isGreatest_rollingPeakOf {rates : List Rat} (hne : rates ≠ []) (hnonneg : ∀ rate ∈ rates, 0 ≤ rate) :
    IsGreatest {rate | rate ∈ rates} (rollingPeakOf rates) := by
  cases rates with
  | nil => exact absurd rfl hne
  | cons rate rest =>
    have hmax : (rate :: rest).max? = some (rest.foldl max rate) := rfl
    obtain ⟨hmem, hle⟩ := List.max?_eq_some_iff.mp hmax
    have hpeak : rollingPeakOf (rate :: rest) = rest.foldl max rate := by
      refine max_eq_left ?_
      norm_num
      exact hnonneg _ hmem
    rw [hpeak]
    exact ⟨hmem, hle⟩

namespace TenantBaseline

/-- How an update ends, once the averages and the peak are up to date: it promotes the baseline, or it leaves everything
    but the detector as it is. -/
inductive Outcome (b : TenantBaseline Rat) (now : Nat) : TenantBaseline Rat × Option (BaselinePromotion Rat) → Prop where
  | settled (cusum : CusumState Rat) (hThreshold : cusum.hThreshold = 50) (bounded : cusum.cusum ∈ Set.Icc 0 45) :
      Outcome b now ({ b with cusum := cusum, lastUpdatedMs := now }, none)
  | promoted (cusum : CusumState Rat) (hThreshold : cusum.hThreshold = 50) (bounded : cusum.cusum ∈ Set.Icc 0 45)
      (promotion : BaselinePromotion Rat) (old : promotion.oldThreshold = b.spikeThreshold)
      (baseline : promotion.newBaseline = b.rollingPeak * 0.8) (new : promotion.newThreshold = promotion.newBaseline * 3)
      (grown : b.spikeThreshold * 1.05 < promotion.newThreshold) :
      Outcome b now
        ({ b with
            spikeThreshold := promotion.newThreshold
            longEma := promotion.newBaseline
            cusum := cusum
            promotions := if maxPromotions < (b.promotions ++ [promotion]).length
              then (b.promotions ++ [promotion]).drop 1 else b.promotions ++ [promotion] },
          some promotion)

theorem outcome {b : TenantBaseline Rat} (hthreshold : b.cusum.hThreshold = 50) (rate : Rat) (now : Nat) :
    Outcome (b.observe rate 0.2 0.01 now) now (b.update rate 0.2 0.01 3.0 now) := by
  have hobserved : (b.observe rate 0.2 0.01 now).cusum.hThreshold = 50 := hthreshold
  simp only [update]
  generalize b.observe rate 0.2 0.01 now = b' at hobserved
  obtain ⟨hkept, hcalm⟩ := CusumState.update_spec hobserved b'.shortEma b'.longEma
  generalize b'.cusum.update b'.shortEma b'.longEma = alarm at hkept hcalm
  split
  · simp only [promote]
    split
    · rename_i hgrown
      refine .promoted (alarm.1.reset (b'.rollingPeak * 0.8)) hkept (CusumState.cusum_reset _) ⟨_, _, _, _, _⟩ rfl rfl ?_
        hgrown
      norm_num
    · exact .settled (alarm.1.reset b'.longEma) hkept (CusumState.cusum_reset _)
  · rename_i hdrift
    exact .settled _ hkept (hcalm (Bool.eq_false_of_not_eq_true hdrift))

/-- The averages stay within what bounds them and the new rate. -/
theorem observe_mem_Icc {b : TenantBaseline Rat} {rate upper : Rat} (hrate : rate ∈ Set.Icc 0 upper)
    (hshort : b.shortEma ∈ Set.Icc 0 upper) (hlong : b.longEma ∈ Set.Icc 0 upper) (now : Nat) :
    (b.observe rate 0.2 0.01 now).shortEma ∈ Set.Icc 0 upper ∧
      (b.observe rate 0.2 0.01 now).longEma ∈ Set.Icc 0 upper := by
  have hone : (1.0 : Rat) = 1 := by norm_num
  simp only [observe, hone]
  exact ⟨Streams.mix_mem_Icc (by norm_num) hrate hshort, Streams.mix_mem_Icc (by norm_num) hrate hlong⟩

end TenantBaseline

/-- An update of the registry is the update of the tenant's baseline with its three constants, and touches no other. -/
theorem BaselineRegistry.lookup_update {R : Type} [F64 R] (m : BaselineRegistry R) (tenantId tenant : String)
    (arrivalRate : R) (now : Nat) :
    (m.update tenantId arrivalRate now).1.lookup tenant =
      if tenant = tenantId then (m.lookup tenant).map fun b => (b.update arrivalRate 0.2 0.01 3.0 now).1
      else m.lookup tenant := by
  simp only [update, IdMap.lookup_modify]

/-! ## Runs of updates -/

/-- A baseline in use and the clock of its last update. No call reads what was noted down: the rates that were seen, each
    with its time, and the promotions that were returned. -/
structure BaselineRun where
  baseline : TenantBaseline Rat
  clock : Nat
  seen : List (Nat × Rat)
  promoted : List (BaselinePromotion Rat)

namespace BaselineRun

def start (tenantId : String) (initialRate : Rat) (now : Nat) : BaselineRun :=
  ⟨.new tenantId initialRate now, now, [], []⟩

/-- An update with the constants of the registry. -/
def next (r : BaselineRun) (call : Nat × Rat) : Option BaselineRun :=
  let (baseline, promotion) := r.baseline.update call.2 0.2 0.01 3.0 call.1
  some ⟨baseline, call.1, r.seen ++ [call], r.promoted ++ promotion.toList⟩

/-- The clock does not go back, and no rate is negative. -/
def Regular (r : BaselineRun) (call : Nat × Rat) : Prop := r.clock ≤ call.1 ∧ 0 ≤ call.2

def largestSeen (r : BaselineRun) : Rat := (r.seen.map Prod.snd).foldr max 0

/-- What a baseline keeps is bounded by the initial rate and the rates that were seen. -/
structure Bounded (r : BaselineRun) (initialRate : Rat) : Prop where
  cusum : r.baseline.cusum.cusum ∈ Set.Icc 0 45
  threshold : r.baseline.spikeThreshold ∈ Set.Icc 10 (max 10 (max (3 * initialRate) (2.4 * r.largestSeen)))
  shortEma : r.baseline.shortEma ∈ Set.Icc 0 (max initialRate r.largestSeen)
  longEma : r.baseline.longEma ∈ Set.Icc 0 (max initialRate r.largestSeen)
  /-- The peak is the largest rate of the last five minutes. -/
  peak : r.seen ≠ [] →
    IsGreatest {rate | ∃ time, (time, rate) ∈ r.seen ∧ r.clock ≤ time + 5 * 60 * 1000} r.baseline.rollingPeak
  /-- The last promotions are kept. -/
  promotions : r.baseline.promotions = r.promoted.rtake 20

/-- A promotion is returned, and the threshold grows by more than a twentieth. -/
def Promotes (r r' : BaselineRun) : Prop :=
  ∃ promotion, r'.promoted = r.promoted ++ [promotion] ∧ promotion.oldThreshold = r.baseline.spikeThreshold ∧
    promotion.newThreshold = r'.baseline.spikeThreshold ∧ r.baseline.spikeThreshold * 1.05 < r'.baseline.spikeThreshold

/-- What the next update needs besides the bounds. -/
structure Kept (r : BaselineRun) (initialRate : Rat) : Prop extends Bounded r initialRate where
  hThreshold : r.baseline.cusum.hThreshold = 50
  window : r.baseline.peakWindow = r.seen.filter fun e => r.clock - peakWindowMs ≤ e.1
  nonneg : ∀ e ∈ r.seen, 0 ≤ e.2

variable {r r' : BaselineRun} {call : Nat × Rat} {initialRate : Rat}

theorem kept_start (hinitial : 0 ≤ initialRate) (tenantId : String) (now : Nat) :
    (start tenantId initialRate now).Kept initialRate := by
  have hema : initialRate ∈ Set.Icc 0 (max initialRate (start tenantId initialRate now).largestSeen) :=
    ⟨hinitial, le_max_left _ _⟩
  have hcusum := CusumState.cusum_reset (c := .new initialRate) initialRate
  refine ⟨⟨hcusum, ⟨?_, ?_⟩, hema, hema, fun h => absurd rfl h, rfl⟩, ?_, rfl, ?_⟩
  · refine le_trans ?_ (le_max_right _ _)
    norm_num
  · refine max_le ?_ ?_
    · refine le_trans ?_ (le_max_of_le_right (le_max_left _ _))
      norm_num [mul_comm]
    · refine le_trans ?_ (le_max_left _ _)
      norm_num
  · show (50.0 : Rat) = 50
    norm_num
  · intro e he
    cases he

theorem mem_Icc_largestSeen (h : ∀ e ∈ r.seen, 0 ≤ e.2) {e : Nat × Rat} (he : e ∈ r.seen) :
    e.2 ∈ Set.Icc 0 r.largestSeen :=
  Streams.mem_Icc_largest (List.mem_map_of_mem he) (h e he)

/-- The window of the rolling peak holds the rates of the last five minutes, the new one among them. -/
theorem isGreatest_window {seen : List (Nat × Rat)} {now : Nat} {rate : Rat} (hmem : (now, rate) ∈ seen)
    (hnonneg : ∀ e ∈ seen, 0 ≤ e.2) :
    IsGreatest {rate | ∃ time, (time, rate) ∈ seen ∧ now ≤ time + 5 * 60 * 1000}
      (rollingPeakOf ((seen.filter fun e => now - peakWindowMs ≤ e.1).map Prod.snd)) := by
  have hset : {rate | ∃ time, (time, rate) ∈ seen ∧ now ≤ time + 5 * 60 * 1000} =
      {rate | rate ∈ (seen.filter fun e => now - peakWindowMs ≤ e.1).map Prod.snd} := by
    ext rate
    simp only [Set.mem_ofPred_eq, List.mem_map, List.mem_filter, decide_eq_true_eq, Prod.exists, exists_eq_right,
      peakWindowMs, Nat.sub_le_iff_le_add]
  rw [hset]
  refine isGreatest_rollingPeakOf ?_ ?_
  · refine List.ne_nil_of_mem (List.mem_map_of_mem (List.mem_filter.mpr ⟨hmem, ?_⟩))
    exact decide_eq_true (Nat.sub_le now peakWindowMs)
  · intro rate hrate
    obtain ⟨e, he, rfl⟩ := List.mem_map.mp hrate
    exact hnonneg e (List.mem_filter.mp he).1

/-- The run in which the averages and the peak are up to date, and the detector has not been asked. -/
def observed (r : BaselineRun) (call : Nat × Rat) : BaselineRun :=
  ⟨r.baseline.observe call.2 0.2 0.01 call.1, call.1, r.seen ++ [call], r.promoted⟩

theorem kept_observed (hkept : r.Kept initialRate) (hok : Regular r call) : (r.observed call).Kept initialRate := by
  obtain ⟨hclock, hrate⟩ := hok
  have hnonneg : ∀ e ∈ (r.observed call).seen, 0 ≤ e.2 := by
    intro e he
    rcases List.mem_append.mp he with he | he
    · exact hkept.nonneg e he
    · rw [List.mem_singleton.mp he]
      exact hrate
  have hlargest : r.largestSeen ≤ (r.observed call).largestSeen := by
    simp only [largestSeen, observed, List.map_append]
    exact Streams.largest_concat 0 _ _
  have hupper : Set.Icc 0 (max initialRate r.largestSeen) ⊆ Set.Icc 0 (max initialRate (r.observed call).largestSeen) :=
    Set.Icc_subset_Icc_right (max_le_max_left _ hlargest)
  have hmem : call ∈ (r.observed call).seen := List.mem_append_right _ (List.mem_singleton_self call)
  have hrateMem : call.2 ∈ Set.Icc 0 (max initialRate (r.observed call).largestSeen) :=
    Set.Icc_subset_Icc_right (le_max_right _ _) (mem_Icc_largestSeen hnonneg hmem)
  obtain ⟨hshort, hlong⟩ :=
    TenantBaseline.observe_mem_Icc hrateMem (hupper hkept.shortEma) (hupper hkept.longEma) call.1
  -- The window keeps what was seen in it, for the clock does not go back.
  have hwindow : (r.observed call).baseline.peakWindow =
      (r.observed call).seen.filter fun e => (r.observed call).clock - peakWindowMs ≤ e.1 := by
    show (r.baseline.peakWindow ++ [call]).filter _ = _
    rw [hkept.window]
    refine Streams.filter_window fun e _ he => ?_
    rw [decide_eq_true_eq] at he ⊢
    exact (Nat.sub_le_sub_right hclock _).trans he
  refine ⟨⟨hkept.cusum, ⟨hkept.threshold.1, ?_⟩, hshort, hlong, fun _ => ?_, hkept.promotions⟩, hkept.hThreshold, hwindow,
    hnonneg⟩
  · refine hkept.threshold.2.trans (max_le_max_left _ (max_le_max_left _ ?_))
    exact mul_le_mul_of_nonneg_left hlargest (by norm_num)
  · have hpeak : (r.observed call).baseline.rollingPeak =
        rollingPeakOf ((r.observed call).baseline.peakWindow.map Prod.snd) := rfl
    rw [hpeak, hwindow]
    exact isGreatest_window hmem hnonneg

/-- The peak is one of the rates that were seen. -/
theorem rollingPeak_mem (hkept : r.Kept initialRate) (hseen : r.seen ≠ []) :
    r.baseline.rollingPeak ∈ Set.Icc 0 r.largestSeen := by
  obtain ⟨⟨time, hmem, -⟩, -⟩ := hkept.peak hseen
  exact mem_Icc_largestSeen hkept.nonneg hmem

theorem outcome_of_next (hthreshold : r.baseline.cusum.hThreshold = 50) (hnext : r.next call = some r') :
    ∃ result, TenantBaseline.Outcome (r.observed call).baseline call.1 result ∧
      r' = ⟨result.1, call.1, r.seen ++ [call], r.promoted ++ result.2.toList⟩ := by
  cases hnext
  exact ⟨_, TenantBaseline.outcome hthreshold call.2 call.1, rfl⟩

theorem kept_next (hkept : r.Kept initialRate) (hok : Regular r call) (hnext : r.next call = some r') :
    r'.Kept initialRate := by
  have hobserved := kept_observed hkept hok
  have hseen : (r.observed call).seen ≠ [] := List.append_ne_nil_of_right_ne_nil _ (List.cons_ne_nil _ _)
  have hpeak := rollingPeak_mem hobserved hseen
  obtain ⟨result, hout, rfl⟩ := outcome_of_next hkept.hThreshold hnext
  cases hout with
  | settled cusum hThreshold hcusum =>
    have hpromotions : r.baseline.promotions = (r.promoted ++ []).rtake 20 := by
      rw [List.append_nil]
      exact hkept.promotions
    exact ⟨⟨hcusum, hobserved.threshold, hobserved.shortEma, hobserved.longEma, hobserved.peak, hpromotions⟩, hThreshold,
      hobserved.window, hobserved.nonneg⟩
  | promoted cusum hThreshold hcusum promotion hold hbaseline hnew hgrown =>
    -- A promotion takes the threshold up, from what the window has seen.
    have hgrownNow : (r.observed call).baseline.spikeThreshold * 1.05 < promotion.newThreshold := hgrown
    have hbaselineNow : promotion.newBaseline = (r.observed call).baseline.rollingPeak * 0.8 := hbaseline
    have hthreshold : promotion.newThreshold ∈
        Set.Icc 10 (max 10 (max (3 * initialRate) (2.4 * (r.observed call).largestSeen))) := by
      constructor
      · linarith [hobserved.threshold.1]
      · refine le_max_of_le_right (le_max_of_le_right ?_)
        linarith [hpeak.2]
    have hlongEma : promotion.newBaseline ∈ Set.Icc 0 (max initialRate (r.observed call).largestSeen) := by
      constructor
      · linarith [hpeak.1]
      · refine le_max_of_le_right ?_
        linarith [hpeak.1, hpeak.2]
    have hpromotions : (if maxPromotions < (r.baseline.promotions ++ [promotion]).length
        then (r.baseline.promotions ++ [promotion]).drop 1 else r.baseline.promotions ++ [promotion]) =
        (r.promoted ++ [promotion]).rtake 20 := by
      rw [hkept.promotions]
      exact Streams.rtake_concat 20 r.promoted promotion
    exact ⟨⟨hcusum, hthreshold, hobserved.shortEma, hlongEma, hobserved.peak, hpromotions⟩, hThreshold, hobserved.window,
      hobserved.nonneg⟩

/-- What an update returns is a promotion, and that is when the threshold moves. -/
theorem threshold_next (hkept : r.Kept initialRate) (hnext : r.next call = some r') :
    (r'.promoted = r.promoted ∧ r'.baseline.spikeThreshold = r.baseline.spikeThreshold) ∨ r.Promotes r' := by
  obtain ⟨result, hout, rfl⟩ := outcome_of_next hkept.hThreshold hnext
  cases hout with
  | settled cusum hThreshold hcusum => exact Or.inl ⟨List.append_nil _, rfl⟩
  | promoted cusum hThreshold hcusum promotion hold hbaseline hnew hgrown =>
    exact Or.inr ⟨promotion, rfl, hold, rfl, hgrown⟩

theorem threshold_mono (hkept : r.Kept initialRate) (hrun : Run next Regular r r') :
    r.baseline.spikeThreshold ≤ r'.baseline.spikeThreshold := by
  induction hrun with
  | refl => exact le_rfl
  | @step r₁ r₂ call hrun hok hnext ih =>
    have hkept₁ : r₁.Kept initialRate := hrun.invariant (I := fun r => r.Kept initialRate) kept_next hkept
    refine ih.trans ?_
    rcases threshold_next hkept₁ hnext with ⟨-, hsame⟩ | ⟨promotion, -, -, -, hgrown⟩
    · exact hsame.ge
    · linarith [hkept₁.threshold.1]

/-- In every run of updates from a baseline with an initial rate that is not negative, what is kept stays within its
    bounds; whatever comes after, the threshold never moves down, and it moves up by more than a twentieth exactly when a
    promotion is returned. -/
theorem bounded_of_run {tenantId : String} {created : Nat} (hinitial : 0 ≤ initialRate)
    (hrun : Run next Regular (start tenantId initialRate created) r) :
    r.Bounded initialRate ∧ r.baseline.promotions.length ≤ 20 ∧
      (∀ r', Run next Regular r r' → r.baseline.spikeThreshold ≤ r'.baseline.spikeThreshold) ∧
        ∀ call r', Regular r call → r.next call = some r' →
          (r'.promoted = r.promoted ∧ r'.baseline.spikeThreshold = r.baseline.spikeThreshold) ∨ r.Promotes r' := by
  have hkept : r.Kept initialRate :=
    hrun.invariant (I := fun r => r.Kept initialRate) kept_next (kept_start hinitial tenantId created)
  refine ⟨hkept.toBounded, ?_, fun r' => threshold_mono hkept, fun call r' _ => threshold_next hkept⟩
  rw [hkept.promotions, Streams.length_rtake]
  exact Nat.min_le_left _ _

/-- The first burst of a tenant that was idle promotes its baseline at once. -/
theorem bounded_firstBurst : ∃ r, (start "t" 0 0).next (1, 1000) = some r ∧ r.promoted.length = 1 ∧
    r.baseline.spikeThreshold = 2400 ∧ r.Bounded 0 := by
  have hsummary : ((start "t" 0 0).next (1, 1000)).map (fun r => (r.promoted.length, r.baseline.spikeThreshold)) =
      some (1, 2400) := by decide +kernel
  obtain ⟨r, hnext, heq⟩ := Option.map_eq_some_iff.mp hsummary
  obtain ⟨hlength, hthreshold⟩ := Prod.mk.inj heq
  have hregular : Regular (start "t" 0 0) (1, 1000) := ⟨Nat.zero_le 1, by norm_num⟩
  obtain ⟨hbounded, -⟩ := bounded_of_run le_rfl (.step .refl hregular hnext)
  exact ⟨r, hnext, hlength, hthreshold, hbounded⟩

end BaselineRun

end RocksQueue
