import Mathlib.Algebra.Order.BigOperators.Group.List
import RocksQueue.Lib.Runs
import RocksQueue.Lib.Streams
import RocksQueue.Stats

/-! # Arrival statistics

The calls add to two counters of a tenant, and a refresh takes the one and reads the other. What each refresh has taken
makes up the arrival rate, which is a moving average, and the burst score, which is one of the distances from it. The
counters wrap at `2 ^ 64`, the averages are taken in exact arithmetic. -/

namespace RocksQueue

/-- The calls on the collector, for one tenant. It is noted down what was recorded for it in each finished cycle and
    since then, and what each refresh has taken from its counter. -/
structure ArrivalRun where
  collector : StatsCollector Rat
  finished : List Nat
  current : Nat
  counted : List Nat

inductive ArrivalCall where
  | recordEnqueue (tenantId : String) (count : Nat)
  | refresh
  deriving DecidableEq, Repr

namespace ArrivalRun

def start (c : StatsCollector Rat) (tenant : String) (instant : Nat) : ArrivalRun := ⟨c.register tenant instant, [], 0, []⟩

def next (tenant : String) (r : ArrivalRun) : ArrivalCall → Option ArrivalRun
  | .recordEnqueue t count =>
    some { r with
      collector := r.collector.recordEnqueue t count
      current := if tenant = t then r.current + count else r.current }
  | .refresh =>
    let taken := (r.collector.lookup tenant).toList.map fun state => state.counters.enqueueCount
    some ⟨r.collector.refresh, r.finished ++ [r.current], 0, r.counted ++ taken⟩

/-- The counts of the cycles, as numbers. -/
def counts (r : ArrivalRun) : List Rat := r.counted.map Nat.cast

/-- Every unit is counted in the cycle in which it was recorded, up to multiples of `2 ^ 64`. -/
structure Counted (r : ArrivalRun) (state : TenantStatsState Rat) : Prop where
  cycles : r.counted = r.finished.map fun units => units % 2 ^ 64
  waiting : state.counters.enqueueCount = r.current % 2 ^ 64
  total : state.stats.totalEnqueued = r.finished.sum % 2 ^ 64

/-- Every unit is counted in exactly one cycle. -/
structure Lossless (r : ArrivalRun) (state : TenantStatsState Rat) : Prop where
  cycles : r.counted = r.finished
  waiting : state.counters.enqueueCount = r.current
  total : state.stats.totalEnqueued = r.counted.sum

/-- The arrival rate is a moving average of the counts of the cycles. -/
structure Averaged (r : ArrivalRun) (stats : TenantStats Rat) : Prop where
  arrivalRate : stats.arrivalRate =
    ∑ i ∈ Finset.range r.counts.length, 0.2 * 0.8 ^ (r.counts.length - (i + 1)) * r.counts.getD i 0
  between : stats.arrivalRate ∈ Set.Icc 0 (r.counts.foldr max 0)
  burstScore : 0 ≤ stats.burstScore
  constant : ∀ (x : Rat) (n : Nat), r.counts = List.replicate n x →
    x - stats.arrivalRate = x * 0.8 ^ n ∧ stats.burstScore ≤ 0.8 * x ^ 2 * 0.8 ^ n

/-- What the next call needs besides. -/
structure Kept (r : ArrivalRun) (state : TenantStatsState Rat) : Prop extends Counted r state where
  recorded : state.counters.totalEnqueued = (r.finished.sum + r.current) % 2 ^ 64
  average : state.stats.arrivalRate = Streams.average 0.2 r.counts
  spread : state.stats.burstScore = Streams.spread 0.2 r.counts

section Steps
variable {c : StatsCollector Rat} {r r' : ArrivalRun} {state : TenantStatsState Rat} {tenant : String} {call : ArrivalCall}

theorem movingAverage_statsAlpha (new old : Rat) : movingAverage statsAlpha new old = 0.2 * new + (1 - 0.2) * old := by
  have hone : (1.0 : Rat) = 1 := by norm_num
  rw [← hone]
  rfl

theorem Kept.recordEnqueue {count : Nat} (hkept : r.Kept state) (collector : StatsCollector Rat) :
    Kept ⟨collector, r.finished, r.current + count, r.counted⟩
      (state.count fun counters => counters.recordEnqueue count) where
  cycles := hkept.cycles
  waiting := by
    show (state.counters.enqueueCount + count) % 2 ^ 64 = _
    rw [hkept.waiting, Nat.mod_add_mod]
  total := hkept.total
  recorded := by
    show (state.counters.totalEnqueued + count) % 2 ^ 64 = _
    rw [hkept.recorded, Nat.mod_add_mod, Nat.add_assoc]
  average := hkept.average
  spread := hkept.spread

theorem Kept.refresh (hkept : r.Kept state) (collector : StatsCollector Rat) :
    Kept ⟨collector, r.finished ++ [r.current], 0, r.counted ++ [state.counters.enqueueCount]⟩ state.refresh := by
  have hcounts : counts ⟨collector, r.finished ++ [r.current], 0, r.counted ++ [state.counters.enqueueCount]⟩ =
      r.counts ++ [(state.counters.enqueueCount : Rat)] :=
    List.map_append
  have haverage : state.refresh.stats.arrivalRate =
      Streams.average 0.2 (r.counts ++ [(state.counters.enqueueCount : Rat)]) := by
    rw [Streams.average_concat, ← hkept.average]
    exact movingAverage_statsAlpha _ _
  refine ⟨⟨?_, rfl, ?_⟩, ?_, ?_, ?_⟩
  · show r.counted ++ [state.counters.enqueueCount] = _
    rw [hkept.cycles, hkept.waiting, List.map_append]
    rfl
  · show state.counters.totalEnqueued = _
    rw [hkept.recorded, List.sum_append, List.sum_singleton]
  · show state.counters.totalEnqueued = _
    rw [hkept.recorded, List.sum_append, List.sum_singleton, Nat.add_zero]
  · rw [haverage, hcounts]
  · rw [hcounts, Streams.spread_concat, ← haverage, ← hkept.spread]
    exact movingAverage_statsAlpha _ _

theorem kept_start (c : StatsCollector Rat) (tenant : String) (instant : Nat) :
    ∃ state, (start c tenant instant).collector.lookup tenant = some state ∧ (start c tenant instant).Kept state := by
  refine ⟨⟨.new tenant instant, .zero⟩, IdMap.lookup_insert.trans (if_pos rfl), ⟨rfl, rfl, rfl⟩, rfl, ?_, ?_⟩
  · show (0.0 : Rat) = 0
    norm_num
  · show (0.0 : Rat) = 0
    norm_num

theorem kept_next (hkept : ∃ state, r.collector.lookup tenant = some state ∧ r.Kept state)
    (hnext : r.next tenant call = some r') : ∃ state, r'.collector.lookup tenant = some state ∧ r'.Kept state := by
  obtain ⟨state, hstate, hkept⟩ := hkept
  cases call with
  | recordEnqueue t count =>
    cases hnext
    simp only [StatsCollector.lookup_recordEnqueue, hstate]
    by_cases ht : tenant = t
    · simp only [if_pos ht]
      exact ⟨_, rfl, hkept.recordEnqueue _⟩
    · simp only [if_neg ht]
      exact ⟨state, rfl, ⟨hkept.cycles, hkept.waiting, hkept.total⟩, hkept.recorded, hkept.average, hkept.spread⟩
  | refresh =>
    cases hnext
    simp only [StatsCollector.lookup_refresh, hstate]
    exact ⟨_, rfl, hkept.refresh _⟩

/-- Nothing has wrapped as long as fewer than `2 ^ 64` units were recorded. -/
theorem Kept.lossless (hkept : r.Kept state) (hfits : r.finished.sum + r.current < 2 ^ 64) : r.Lossless state := by
  have hcycles : r.counted = r.finished := by
    rw [hkept.cycles]
    refine (List.map_congr_left fun units hunits => ?_).trans (List.map_id _)
    have hle := List.le_sum_of_mem hunits
    exact Nat.mod_eq_of_lt (by omega)
  refine ⟨hcycles, ?_, ?_⟩
  · rw [hkept.waiting, Nat.mod_eq_of_lt (by omega)]
  · rw [hkept.total, hcycles, Nat.mod_eq_of_lt (by omega)]

theorem Kept.averaged (hkept : r.Kept state) : r.Averaged state.stats := by
  have halpha : (0.2 : Rat) ∈ Set.Icc 0 1 := by norm_num
  have hrest : (1 - 0.2 : Rat) = 0.8 := by norm_num
  have hnonneg : ∀ x ∈ r.counts, 0 ≤ x := by
    intro x hx
    obtain ⟨n, -, rfl⟩ := List.mem_map.mp hx
    exact Nat.cast_nonneg n
  refine ⟨?_, ?_, ?_, ?_⟩
  · rw [hkept.average, Streams.average_eq_sum, hrest]
  · rw [hkept.average]
    exact Streams.average_mem_Icc halpha hnonneg
  · rw [hkept.spread]
    exact Streams.spread_nonneg halpha r.counts
  · intro x n hconstant
    rw [hkept.average, hkept.spread, hconstant]
    refine ⟨?_, ?_⟩
    · rw [Streams.sub_average_replicate, hrest]
    · have hle := Streams.spread_replicate_le halpha x n
      rw [hrest, ← sq] at hle
      exact hle

/-- In every run of recordings and refreshes after a registration, each cycle counts what was recorded in it and the total
    is the sum over the cycles, modulo `2 ^ 64`, so that nothing is lost while fewer units than that are recorded; and the
    arrival rate and the burst score are moving averages of what the cycles have counted. -/
theorem arrivals_of_run {instant : Nat} (hrun : Runs.Run (next tenant) (fun _ _ => True) (start c tenant instant) r) :
    ∃ state, r.collector.lookup tenant = some state ∧ r.Counted state ∧
      (r.finished.sum + r.current < 2 ^ 64 → r.Lossless state) ∧ r.Averaged state.stats := by
  obtain ⟨state, hstate, hkept⟩ := hrun.invariant
    (I := fun r => ∃ state, r.collector.lookup tenant = some state ∧ r.Kept state) (fun hkept _ => kept_next hkept)
    (kept_start c tenant instant)
  exact ⟨state, hstate, hkept.toCounted, hkept.lossless, hkept.averaged⟩

/-- A hundred units in the first cycle, and seven of another tenant. -/
theorem arrivals_hundred : ∃ r, Runs.exec (next "t") (start .empty "t" 0)
      [.recordEnqueue "t" 100, .recordEnqueue "u" 7, .refresh] = some r ∧
    ∃ state, r.collector.lookup "t" = some state ∧ r.Lossless state ∧ state.stats.totalEnqueued = 100 ∧
      state.stats.arrivalRate = 20 := by
  obtain ⟨r, hr⟩ : ∃ r, Runs.exec (next "t") (start .empty "t" 0)
      [.recordEnqueue "t" 100, .recordEnqueue "u" 7, .refresh] = some r := ⟨_, rfl⟩
  have hsummary : r.finished = [100] ∧ r.current = 0 ∧ r.counted = [100] := by
    obtain rfl := Option.some.inj hr
    exact ⟨rfl, rfl, rfl⟩
  obtain ⟨hfinished, hcurrent, hcounted⟩ := hsummary
  obtain ⟨state, hstate, -, hlossless, haveraged⟩ := arrivals_of_run (Runs.run_of_exec hr)
  have htotal := hlossless (by rw [hfinished, hcurrent]; decide)
  obtain ⟨hrate, -⟩ := haveraged.constant 100 1 (by rw [counts, hcounted]; rfl)
  refine ⟨r, hr, state, hstate, htotal, ?_, ?_⟩
  · rw [htotal.total, hcounted]
    rfl
  · norm_num at hrate
    linarith

/-- The counters of a cycle in which `2 ^ 64` units were recorded are back at zero. -/
theorem not_lossless : ¬∀ (c : StatsCollector Rat) (tenant : String) (instant : Nat) (r : ArrivalRun),
    Runs.Run (next tenant) (fun _ _ => True) (start c tenant instant) r →
    ∃ state, r.collector.lookup tenant = some state ∧ r.Lossless state ∧ r.Averaged state.stats := by
  intro h
  obtain ⟨r, hr⟩ : ∃ r, Runs.exec (next "t") (start .empty "t" 0)
      [.recordEnqueue "t" (2 ^ 64 - 1), .recordEnqueue "t" 1, .refresh] = some r := ⟨_, rfl⟩
  obtain ⟨state, -, hlossless, -⟩ := h .empty "t" 0 r (Runs.run_of_exec hr)
  have hcycles := hlossless.cycles
  obtain rfl := Option.some.inj hr
  have hwrapped : [0] = [2 ^ 64] := hcycles
  cases hwrapped

end Steps

end ArrivalRun

end RocksQueue
