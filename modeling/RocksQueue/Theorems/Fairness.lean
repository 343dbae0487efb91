import Mathlib.Data.Nat.Cast.Field
import RocksQueue.Lib.Shares
import RocksQueue.Theorems.Allocations

/-! # Slots by weight

With every tenant ready, a call of `schedule` gives each its rounded share, and what the rounding leaves over
goes to the first tenant in the order of the virtual finish times that has a share. The order never learns of
the leftover slots, so the same tenant is first each time. -/

namespace RocksQueue

open Runs Shares

variable {tenants : Finset String} {weight : String → Nat} {totalSlots : Nat}

/-- The tenants of a scheduler and their weights. -/
def WFQScheduler.HasWeights {R : Type} (s : WFQScheduler R) (tenants : Finset String) (weight : String → Nat) : Prop :=
  ∀ t, (s.policy t).map TenantPolicy.weight = if t ∈ tenants then some (weight t) else none

/-- The tenant is unpaused and below its inflight limit, and its tokens are enough for all the slots. -/
structure TenantState.Ready (state : TenantState Rat) (totalSlots now : Nat) : Prop where
  unpaused : state.paused = false
  below : state.inflight < state.policy.maxInflight
  tokens : (totalSlots : Rat) ≤ (state.refill now).tokens

theorem TenantState.Ready.eligible {state : TenantState Rat} {now : Nat} (h : state.Ready totalSlots now) :
    state.eligible = true := by
  rw [TenantState.eligible, h.unpaused, decide_eq_true h.below]
  rfl

namespace Candidate
variable {c : Candidate Rat} {totalWeight n : Nat}

theorem rawSlots_eq : c.rawSlots totalSlots totalWeight = min (totalSlots * c.weight / totalWeight) (u64Size - 1) := by
  have hshare : (totalSlots : Rat) * ((c.weight : Rat) / (totalWeight : Rat)) = (totalSlots * c.weight : Nat) / totalWeight := by
    rw [Nat.cast_mul, mul_div_assoc]
  show min ⌊(totalSlots : Rat) * ((c.weight : Rat) / (totalWeight : Rat))⌋₊ (u64Size - 1) = _
  rw [hshare, Nat.floor_div_eq_div]

theorem le_tokenCap (h : (n : Rat) ≤ c.tokens) (hn : n < u64Size) : n ≤ c.tokenCap :=
  le_min (Nat.le_floor h) (Nat.le_sub_one_of_lt hn)

end Candidate

namespace WFQScheduler
variable {s : WFQScheduler Rat} {now : Nat} {r : String → Nat} {state : TenantState Rat} {tenant : String}

theorem HasWeights.mem_iff (h : s.HasWeights tenants weight) : tenant ∈ tenants ↔ tenant ∈ s.ids := by
  have htenant := h tenant
  rw [← not_iff_not, ← lookup_eq_none]
  split at htenant
  · rename_i hmem
    refine ⟨fun hnot => absurd hmem hnot, fun hnone => ?_⟩
    rw [policy, hnone] at htenant
    cases htenant
  · rename_i hnot
    refine ⟨fun _ => ?_, fun _ => hnot⟩
    exact Option.map_eq_none_iff.mp (Option.map_eq_none_iff.mp htenant)

theorem HasWeights.weight_eq (h : s.HasWeights tenants weight) (hstate : s.tenants.lookup tenant = some state) :
    tenant ∈ tenants ∧ state.policy.weight = weight tenant := by
  have htenant := h tenant
  rw [policy, hstate] at htenant
  split at htenant
  · rename_i hmem
    exact ⟨hmem, Option.some.inj htenant⟩
  · cases htenant

/-- A sum over the tenants, taken over the list that an iteration meets. -/
theorem HasWeights.sum_ids (h : s.HasWeights tenants weight) : (s.ids.map r).sum = ∑ i ∈ tenants, r i := by
  have htenants : s.ids.toFinset = tenants := by
    ext t
    rw [List.mem_toFinset, h.mem_iff]
  rw [← htenants]
  exact (List.sum_toFinset r s.tenants.values_ids_nodup).symm

/-- Every tenant is ready. -/
def AllReady (s : WFQScheduler Rat) (totalSlots now : Nat) : Prop :=
  ∀ tenant state, s.tenants.lookup tenant = some state → state.Ready totalSlots now

theorem AllReady.filter_eligible (h : s.AllReady totalSlots now) :
    s.tenants.values.filter TenantState.eligible = s.tenants.values :=
  List.filter_eq_self.mpr fun _ hmem => (h _ _ (IdMap.mem_values.mp hmem)).eligible

theorem AllReady.totalWeight_eq (h : s.AllReady totalSlots now) (hweights : s.HasWeights tenants weight) :
    s.totalWeight = (∑ i ∈ tenants, weight i) % u32Size := by
  have hmap : s.tenants.values.map (fun state => state.policy.weight) = s.ids.map weight := by
    rw [ids, List.map_map]
    exact List.map_congr_left fun state hmem => (hweights.weight_eq (IdMap.mem_values.mp hmem)).2
  rw [totalWeight, h.filter_eligible, hmap, hweights.sum_ids]

theorem AllReady.candidates_ids_perm (h : s.AllReady totalSlots now) :
    ((s.candidates now).map Candidate.tenantId).Perm s.ids := by
  have hperm : (s.candidates now).Perm (s.tenants.values.map fun state => (state.refill now).candidate) := by
    rw [← h.filter_eligible]
    exact candidates_perm
  refine (hperm.map Candidate.tenantId).trans ?_
  rw [List.map_map]
  rfl

/-- The first loop gives each tenant `r` slots and lists those with any. -/
structure AllocatesBy (s : WFQScheduler Rat) (tenants : Finset String) (totalSlots now : Nat) (r : String → Nat) : Prop where
  remaining : (s.allocate totalSlots now).remaining = totalSlots - ∑ i ∈ tenants, r i
  listed : (s.allocate totalSlots now).allocations.map Prod.fst =
    ((s.candidates now).map Candidate.tenantId).filter fun t => decide (r t ≠ 0)
  granted : ∀ {tenant state}, s.tenants.lookup tenant = some state →
    grantedTo tenant (s.allocate totalSlots now).allocations = r tenant
  tenant : ∀ {tenant state}, s.tenants.lookup tenant = some state →
    (s.allocate totalSlots now).tenants.lookup tenant = some (if r tenant = 0 then state.refill now
      else (state.refill now).charge (F64.ofNat s.virtualTime) state.policy.weight (r tenant))

section AllocatesBy
variable (hready : s.AllReady totalSlots now) (hweights : s.HasWeights tenants weight)
  (hr : ∀ i ∈ tenants, min (totalSlots * weight i / s.totalWeight) (u64Size - 1) = r i)

include hweights hr in
theorem rawSlots_candidates {c : Candidate Rat} (hc : c ∈ s.candidates now) :
    c.rawSlots totalSlots s.totalWeight = r c.tenantId := by
  obtain ⟨state, hvalue, -, rfl⟩ := mem_candidates.mp hc
  obtain ⟨hmem, hweight⟩ := hweights.weight_eq (IdMap.mem_values.mp hvalue)
  have hcweight : (state.refill now).candidate.weight = weight (state.refill now).candidate.tenantId := hweight
  rw [Candidate.rawSlots_eq, hcweight]
  exact hr _ hmem

include hready hweights hr in
theorem sum_rawSlots_candidates :
    ((s.candidates now).map fun c => c.rawSlots totalSlots s.totalWeight).sum = ∑ i ∈ tenants, r i := by
  have hids : ((s.candidates now).map fun c => r c.tenantId).sum = (s.ids.map r).sum := by
    rw [← (hready.candidates_ids_perm.map r).sum_eq, List.map_map]
    rfl
  rw [List.map_congr_left fun c hc => rawSlots_candidates hweights hr hc, hids, hweights.sum_ids]

include hready hweights hr in
theorem ample_candidates (htotal : totalSlots < u64Size) (hsum : ∑ i ∈ tenants, r i ≤ totalSlots) :
    Allocation.Ample totalSlots s.totalWeight (s.candidates now) totalSlots := by
  constructor
  · intro c hc
    rw [rawSlots_candidates hweights hr hc]
    obtain ⟨state, hvalue, -, rfl⟩ := mem_candidates.mp hc
    have hlookup := IdMap.mem_values.mp hvalue
    have hle : r (state.refill now).candidate.tenantId ≤ totalSlots :=
      (Finset.single_le_sum (fun _ _ => Nat.zero_le _) (hweights.weight_eq hlookup).1).trans hsum
    refine Candidate.le_tokenCap (le_trans ?_ (hready _ _ hlookup).tokens) (hle.trans_lt htotal)
    exact_mod_cast hle
  · rw [sum_rawSlots_candidates hready hweights hr]
    exact hsum

include hready hweights hr in
theorem allocatesBy (htotal : totalSlots < u64Size) (hsum : ∑ i ∈ tenants, r i ≤ totalSlots) :
    s.AllocatesBy tenants totalSlots now r := by
  have hample := ample_candidates hready hweights hr htotal hsum
  have hgrants : ∀ {tenant state}, s.tenants.lookup tenant = some state →
      Allocation.Grants ⟨s.refillEligible now, [], totalSlots⟩ (s.allocate totalSlots now) (F64.ofNat s.virtualTime)
        (state.refill now).candidate (r tenant) := by
    intro tenant state hstate
    have hc : (state.refill now).candidate ∈ s.candidates now :=
      mem_candidates_of_lookup hstate (hready _ _ hstate).eligible
    obtain ⟨rest, remaining, hrest, hgrants⟩ := allocate_grants (s := s) Allocation.Ample.tail hample hc
    rw [hrest.slots_eq, rawSlots_candidates hweights hr hc, candidate_id hstate] at hgrants
    exact hgrants
  constructor
  · rw [allocate, Allocation.remaining_foldl hample, sum_rawSlots_candidates hready hweights hr]
  · rw [allocate, Allocation.allocations_foldl hample, List.filter_map]
    refine congrArg (List.map _) (List.filter_congr fun c hc => ?_)
    rw [rawSlots_candidates hweights hr hc]
    rfl
  · intro tenant state hstate
    have hgranted := (hgrants hstate).granted
    rw [candidate_id hstate, grantedTo_nil, Nat.zero_add] at hgranted
    exact hgranted
  · intro tenant state hstate
    have htenant := (hgrants hstate).tenant
    rw [candidate_id hstate, lookup_refillEligible hstate, if_pos (hready _ _ hstate).eligible] at htenant
    exact htenant

end AllocatesBy

/-- What is granted when the leftover step finds nothing to give out, or nobody to give it to. -/
theorem AllocatesBy.granted_of_even (h : s.AllocatesBy tenants totalSlots now r) (hslots : totalSlots ≠ 0)
    (hweight : s.totalWeight ≠ 0) (heven : ∑ i ∈ tenants, r i = totalSlots ∨ ∀ t, r t = 0)
    (hstate : s.tenants.lookup tenant = some state) : grantedTo tenant (s.schedule totalSlots now).2 = r tenant := by
  rw [schedule, if_neg hslots, if_neg hweight]
  refine Allocation.granted_giveLeftover.trans ?_
  rw [h.granted hstate, Nat.add_eq_left]
  rcases heven with hsum | hzero
  · rw [h.remaining, hsum, Nat.sub_self]
    exact ite_self 0
  · have hnone : (s.allocate totalSlots now).allocations = [] := by
      have hlisted := h.listed
      rw [List.filter_eq_nil_iff.mpr fun t _ => by simp [hzero t]] at hlisted
      exact List.map_eq_nil_iff.mp hlisted
    rw [Allocation.leftoverTo, hnone]
    refine if_neg ?_
    split
    · exact Option.some_ne_none _ ∘ Eq.symm
    · exact Option.some_ne_none _ ∘ Eq.symm

end WFQScheduler

/-- The scheduler shares out nothing, or what it shares out needs no rounding. The weights are summed up modulo `2 ^ 32`. -/
def EvenShares (tenants : Finset String) (weight : String → Nat) (totalSlots : Nat) : Prop :=
  (∑ i ∈ tenants, weight i) % u32Size = 0 ∨
    (∀ i ∈ tenants, totalSlots * weight i < (∑ j ∈ tenants, weight j) % u32Size) ∨
    (∑ i ∈ tenants, weight i < u32Size ∧ ∀ i ∈ tenants, (∑ j ∈ tenants, weight j) ∣ totalSlots * weight i)

instance EvenShares.instDecidable : Decidable (EvenShares tenants weight totalSlots) := inferInstanceAs (Decidable (_ ∨ _))

namespace WFQScheduler
variable {s : WFQScheduler Rat} {now : Nat} {tenant : String}

theorem share_min_eq (hpos : 0 < ∑ i ∈ tenants, weight i) (htotal : totalSlots < u64Size) (hmem : tenant ∈ tenants) :
    min (totalSlots * weight tenant / ∑ i ∈ tenants, weight i) (u64Size - 1) = share tenants weight totalSlots tenant := by
  have hle : share tenants weight totalSlots tenant ≤ totalSlots :=
    (Finset.single_le_sum (fun _ _ => Nat.zero_le _) hmem).trans (sum_share_le hpos)
  exact Nat.min_eq_left (hle.trans (Nat.le_sub_one_of_lt htotal))

/-- Even shares are in proportion to the weights. -/
theorem granted_of_evenShares (hready : s.AllReady totalSlots now) (hweights : s.HasWeights tenants weight)
    (htotal : totalSlots < u64Size) (heven : EvenShares tenants weight totalSlots) :
    ∃ level : Rat, ∀ i ∈ tenants, (grantedTo i (s.schedule totalSlots now).2 : Rat) = level * weight i := by
  by_cases hslots : totalSlots = 0
  · refine ⟨0, fun i _ => ?_⟩
    rw [schedule, if_pos hslots, zero_mul]
    rfl
  by_cases hweight : s.totalWeight = 0
  · refine ⟨0, fun i _ => ?_⟩
    rw [schedule, if_neg hslots, if_pos hweight, zero_mul]
    rfl
  have hW := hready.totalWeight_eq hweights
  rcases heven with hzero | hsmall | ⟨hlt, hdvd⟩
  · exact absurd (hW.trans hzero) hweight
  · have hr : ∀ i ∈ tenants, min (totalSlots * weight i / s.totalWeight) (u64Size - 1) = 0 := by
      intro i hi
      rw [hW, Nat.div_eq_of_lt (hsmall i hi), Nat.zero_min]
    -- Every share is below one slot, so nobody asks for any.
    have hby := allocatesBy hready hweights (r := fun _ => 0) hr htotal (by simp)
    refine ⟨0, fun i hi => ?_⟩
    obtain ⟨state, hstate⟩ := exists_lookup (hweights.mem_iff.mp hi)
    rw [hby.granted_of_even hslots hweight (Or.inr fun _ => rfl) hstate, zero_mul, Nat.cast_zero]
  · rw [Nat.mod_eq_of_lt hlt] at hW
    have hpos : 0 < ∑ i ∈ tenants, weight i := Nat.pos_of_ne_zero (hW ▸ hweight)
    have hr : ∀ i ∈ tenants, min (totalSlots * weight i / s.totalWeight) (u64Size - 1) = share tenants weight totalSlots i := by
      intro i hi
      rw [hW]
      exact share_min_eq hpos htotal hi
    have hby := allocatesBy hready hweights hr htotal (sum_share_le hpos)
    refine ⟨totalSlots / (∑ i ∈ tenants, weight i : Nat), fun i hi => ?_⟩
    obtain ⟨state, hstate⟩ := exists_lookup (hweights.mem_iff.mp hi)
    -- The shares come out even, so nothing is left over.
    have hsum := (sum_share_eq_iff hpos).mpr hdvd
    have hne : ((∑ i ∈ tenants, weight i : Nat) : Rat) ≠ 0 := by exact_mod_cast hpos.ne'
    rw [hby.granted_of_even hslots hweight (Or.inl hsum) hstate, share, Nat.cast_div (hdvd i hi) hne, Nat.cast_mul]
    ring

end WFQScheduler

namespace SchedulerRun
variable {s s' : SchedulerRun Rat} {call : SchedulerCall} {scheduler : WFQScheduler Rat} {clock : Nat}

/-- `schedule` is called with this number of slots, and while every tenant is ready. -/
def Serves (totalSlots : Nat) (s : SchedulerRun Rat) : SchedulerCall → Prop
  | .schedule n => n = totalSlots ∧ s.scheduler.AllReady totalSlots s.clock
  | _ => True

/-- How far apart two tenants are in slots for each unit of weight. -/
def lag (s : SchedulerRun Rat) (weight : String → Nat) (i j : String) : Rat :=
  |(s.granted i : Rat) / weight i - (s.granted j : Rat) / weight j|

/-- One bound for the lag of any two tenants in all runs from these schedulers. -/
def BoundedLag (starts : WFQScheduler Rat → Prop) (tenants : Finset String) (weight : String → Nat) (totalSlots : Nat) : Prop :=
  ∃ bound : Rat, ∀ scheduler clock s, starts scheduler → scheduler.HasWeights tenants weight →
    Run next (Serves totalSlots) (start scheduler clock) s → ∀ i ∈ tenants, ∀ j ∈ tenants, s.lag weight i j ≤ bound

/-- All tenants have been granted the same for each unit of weight. -/
structure Level (s : SchedulerRun Rat) (tenants : Finset String) (weight : String → Nat) : Prop where
  weights : s.scheduler.HasWeights tenants weight
  granted : ∃ level : Rat, ∀ i ∈ tenants, (s.granted i : Rat) = level * weight i

theorem hasWeights_of_next (h : s.scheduler.HasWeights tenants weight) (hnext : s.next call = some s') :
    s'.scheduler.HasWeights tenants weight := by
  intro t
  rw [policy_next hnext]
  exact h t

theorem level_of_next (htotal : totalSlots < u64Size) (heven : EvenShares tenants weight totalSlots)
    (hI : s.Level tenants weight) (hok : Serves totalSlots s call) (hnext : s.next call = some s') :
    s'.Level tenants weight := by
  obtain ⟨level, hlevel⟩ := hI.granted
  refine ⟨hasWeights_of_next hI.weights hnext, ?_⟩
  cases call with
  | schedule n =>
    obtain ⟨rfl, hready⟩ := hok
    cases hnext
    obtain ⟨more, hmore⟩ := WFQScheduler.granted_of_evenShares hready hI.weights htotal heven
    refine ⟨level + more, fun i hi => ?_⟩
    show ((s.granted i + grantedTo i _ : Nat) : Rat) = _
    rw [Nat.cast_add, hlevel i hi, hmore i hi, add_mul]
  | release t n =>
    cases hnext
    exact ⟨level, hlevel⟩
  | setPaused t paused =>
    cases hnext
    exact ⟨level, hlevel⟩
  | wait nanos =>
    cases hnext
    exact ⟨level, hlevel⟩

/-- With even shares the slots are always in proportion to the weights. -/
theorem lag_eq_zero (htotal : totalSlots < u64Size) (hpos : ∀ i ∈ tenants, 0 < weight i)
    (heven : EvenShares tenants weight totalSlots) (hweights : scheduler.HasWeights tenants weight)
    (hrun : Run next (Serves totalSlots) (start scheduler clock) s) {i j : String} (hi : i ∈ tenants) (hj : j ∈ tenants) :
    s.lag weight i j = 0 := by
  have hstart : (start scheduler clock).Level tenants weight := by
    refine ⟨hweights, 0, fun i _ => ?_⟩
    show ((0 : Nat) : Rat) = 0 * weight i
    rw [Nat.cast_zero, zero_mul]
  obtain ⟨-, level, hlevel⟩ := hrun.invariant (level_of_next htotal heven) hstart
  have hwi : (weight i : Rat) ≠ 0 := by exact_mod_cast (hpos i hi).ne'
  have hwj : (weight j : Rat) ≠ 0 := by exact_mod_cast (hpos j hj).ne'
  rw [lag, hlevel i hi, hlevel j hj, mul_div_cancel_right₀ _ hwi, mul_div_cancel_right₀ _ hwj, sub_self, abs_zero]

end SchedulerRun

end RocksQueue
