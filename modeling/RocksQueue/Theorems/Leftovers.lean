import RocksQueue.Theorems.Fairness

/-! # The leftover slots

When the shares are rounded, slots are left over in every call. Tenants that are served over and over, released
in between, are sorted the same way each time: the virtual finish times grow with what was charged for each
unit of weight, and that is the same in each call. So one tenant gets the leftover slots of every call, and
moves away from the others without bound. -/

namespace RocksQueue

open Runs Shares

/-- The fields of a policy fit their types. -/
structure TenantPolicy.Fits (p : TenantPolicy) : Prop where
  weight : p.weight < u32Size
  maxInflight : p.maxInflight < u64Size
  burstTokens : p.burstTokens < u32Size
  ratePerSec : p.ratePerSec < u32Size

/-- A new scheduler with some tenants registered. -/
def WFQScheduler.Fresh (s : WFQScheduler Rat) : Prop :=
  ∃ (policies : List TenantPolicy) (instant : Nat), (∀ p ∈ policies, p.Fits) ∧
    s = policies.foldl (fun s p => s.register p instant) .new

section Order
variable {ids : List String} {r weight : String → Nat} {v v' : String → Rat} {virtualTime : Rat} {i j : String}

/-- The virtual finish times after a call that charges each tenant for `r` slots. -/
def charged (virtualTime : Rat) (r weight : String → Nat) (v : String → Rat) (i : String) : Rat :=
  if r i = 0 then v i else max virtualTime (v i) + r i / weight i

/-- The slots for each unit of weight. -/
def pace (r weight : String → Nat) (i : String) : Rat := r i / weight i

/-- The virtual finish times are in the order of the paces, where they differ. -/
def Follows (ids : List String) (v ρ : String → Rat) : Prop := ∀ i ∈ ids, ∀ j ∈ ids, ρ i ≤ ρ j → v i ≤ v j

/-- The virtual finish times are in the order of the paces. -/
def SameOrder (ids : List String) (v ρ : String → Rat) : Prop := ∀ i ∈ ids, ∀ j ∈ ids, (v i < v j ↔ ρ i < ρ j)

theorem SameOrder.follows {ρ : String → Rat} (h : SameOrder ids v ρ) : Follows ids v ρ := by
  intro i hi j hj hle
  exact not_lt.mp fun hlt => not_lt.mpr hle ((h j hj i hi).mp hlt)

theorem pace_eq_zero (hpos : 0 < weight i) : pace r weight i = 0 ↔ r i = 0 := by
  have hne : (weight i : Rat) ≠ 0 := by exact_mod_cast hpos.ne'
  rw [pace, div_eq_zero_iff, or_iff_left hne, Nat.cast_eq_zero]

theorem pace_nonneg : 0 ≤ pace r weight i := div_nonneg (Nat.cast_nonneg _) (Nat.cast_nonneg _)

theorem charged_lt (hle : v i ≤ v j) (hlt : pace r weight i < pace r weight j) (hpos : ∀ t, t = i ∨ t = j → 0 < weight t) :
    charged virtualTime r weight v i < charged virtualTime r weight v j := by
  have hj0 : 0 < pace r weight j := lt_of_le_of_lt pace_nonneg hlt
  have hj : charged virtualTime r weight v j = max virtualTime (v j) + pace r weight j :=
    if_neg fun hzero => hj0.ne' ((pace_eq_zero (hpos j (Or.inr rfl))).mpr hzero)
  rw [hj]
  by_cases hi : r i = 0
  · rw [charged, if_pos hi]
    exact lt_of_le_of_lt (hle.trans (le_max_right virtualTime _)) (lt_add_of_pos_right _ hj0)
  · rw [charged, if_neg hi]
    exact add_lt_add_of_le_of_lt (max_le_max_left _ hle) hlt

theorem charged_congr (heq : v i = v j) (hpace : pace r weight i = pace r weight j)
    (hpos : ∀ t, t = i ∨ t = j → 0 < weight t) : charged virtualTime r weight v i = charged virtualTime r weight v j := by
  have hzero : r i = 0 ↔ r j = 0 := by
    rw [← pace_eq_zero (hpos i (Or.inl rfl)), ← pace_eq_zero (hpos j (Or.inr rfl)), hpace]
  by_cases hi : r i = 0
  · rw [charged, charged, if_pos hi, if_pos (hzero.mp hi), heq]
  · rw [charged, charged, if_neg hi, if_neg (mt hzero.mpr hi), heq]
    exact congrArg (max virtualTime (v j) + ·) hpace

/-- A call puts the virtual finish times in the order of the paces. -/
theorem Follows.charged (h : Follows ids v (pace r weight)) (hpos : ∀ i ∈ ids, 0 < weight i) :
    SameOrder ids (charged virtualTime r weight v) (pace r weight) := by
  have hmono : ∀ i ∈ ids, ∀ j ∈ ids, pace r weight i < pace r weight j →
      RocksQueue.charged virtualTime r weight v i < RocksQueue.charged virtualTime r weight v j := by
    intro i hi j hj hlt
    refine charged_lt (h i hi j hj hlt.le) hlt ?_
    rintro t (rfl | rfl)
    · exact hpos _ hi
    · exact hpos _ hj
  intro i hi j hj
  refine ⟨fun hlt => ?_, hmono i hi j hj⟩
  rcases lt_trichotomy (pace r weight i) (pace r weight j) with hpace | hpace | hpace
  · exact hpace
  · have hv : v i = v j := le_antisymm (h i hi j hj hpace.le) (h j hj i hi hpace.ge)
    have heq : RocksQueue.charged virtualTime r weight v i = RocksQueue.charged virtualTime r weight v j := by
      refine charged_congr hv hpace ?_
      rintro t (rfl | rfl)
      · exact hpos _ hi
      · exact hpos _ hj
    exact absurd hlt (not_lt.mpr heq.ge)
  · exact absurd hlt (not_lt.mpr (hmono j hj i hi hpace).le)

/-- The first tenant with a share, in the order of the virtual finish times. -/
def firstServed (ids : List String) (r : String → Nat) (v : String → Rat) : Option String :=
  ((ids.insertionSort fun a b => ¬v b < v a).filter fun t => decide (r t ≠ 0)).head?

/-- It depends on the order of the times only. -/
theorem SameOrder.firstServed_eq {ρ : String → Rat} (h : SameOrder ids v ρ) : firstServed ids r v = firstServed ids r ρ := by
  have hsort : (ids.insertionSort fun a b => ¬v b < v a) = ids.insertionSort fun a b => ¬ρ b < ρ a :=
    List.insertionSort_congr fun a ha b hb => not_congr (h b hb a ha)
  rw [firstServed, firstServed, hsort]

theorem exists_firstServed (hi : i ∈ ids) (hr : r i ≠ 0) : ∃ k ∈ ids, firstServed ids r v = some k := by
  have hmem : i ∈ (ids.insertionSort fun a b => ¬v b < v a).filter fun t => decide (r t ≠ 0) :=
    List.mem_filter.mpr ⟨(List.mem_insertionSort _).mpr hi, decide_eq_true hr⟩
  obtain ⟨k, hk⟩ := Option.isSome_iff_exists.mp (List.isSome_head?.mpr (List.ne_nil_of_mem hmem))
  refine ⟨k, ?_, hk⟩
  have hfirst := List.mem_of_mem_head? hk
  exact (List.mem_insertionSort _).mp (List.mem_filter.mp hfirst).1

end Order

/-- A tenant between two calls: nothing inflight, and tokens for all the slots. -/
structure TenantState.Idle (state : TenantState Rat) (policy : TenantPolicy) (totalSlots now : Nat) (v : Rat) : Prop where
  policy : state.policy = policy
  unpaused : state.paused = false
  inflight : state.inflight = 0
  tokens : (state.refill now).tokens = totalSlots
  virtualFinishTime : state.virtualFinishTime = v

/-- A tenant after a call, with `inflight` slots still to be released. -/
structure TenantState.Served (state : TenantState Rat) (policy : TenantPolicy) (inflight now : Nat) (v : Rat) : Prop where
  policy : state.policy = policy
  unpaused : state.paused = false
  inflight : state.inflight ≤ inflight
  tokens : 0 ≤ state.tokens
  lastRefill : state.lastRefill = now
  virtualFinishTime : state.virtualFinishTime = v

/-- A tenant that fills its bucket in a second, and may have one slot inflight. -/
def quickTenant (weight : String → Nat) (totalSlots : Nat) (tenant : String) : TenantPolicy :=
  ⟨tenant, weight tenant, 1, totalSlots, totalSlots⟩

namespace TenantState
variable {state : TenantState Rat} {tenant : String} {weight : String → Nat} {totalSlots now n : Nat} {v : Rat}

theorem Idle.ready (h : state.Idle (quickTenant weight totalSlots tenant) totalSlots now v) : state.Ready totalSlots now := by
  refine ⟨h.unpaused, ?_, h.tokens.ge⟩
  rw [h.inflight, h.policy]
  exact Nat.one_pos

/-- After a second the bucket is full again. -/
theorem Served.idle (h : state.Served (quickTenant weight totalSlots tenant) 0 now v) :
    state.Idle (quickTenant weight totalSlots tenant) totalSlots (now + 10 ^ 9) v := by
  refine ⟨h.policy, h.unpaused, Nat.le_zero.mp h.inflight, ?_, h.virtualFinishTime⟩
  have hsecs : (asSecsF64 (now + 10 ^ 9 - now) : Rat) = 1 := by
    rw [asSecsF64_eq, Nat.add_sub_cancel_left]
    norm_num
  rw [tokens_refill, h.policy, h.lastRefill, hsecs, mul_one]
  exact min_eq_left (le_add_of_nonneg_left h.tokens)

theorem Served.mono {inflight inflight' : Nat} {policy : TenantPolicy} (h : state.Served policy inflight now v)
    (hle : inflight ≤ inflight') : state.Served policy inflight' now v :=
  ⟨h.policy, h.unpaused, h.inflight.trans hle, h.tokens, h.lastRefill, h.virtualFinishTime⟩

theorem Served.addInflight {inflight : Nat} {policy : TenantPolicy} (h : state.Served policy inflight now v) :
    (state.addInflight n).Served policy (inflight + n) now v :=
  ⟨h.policy, h.unpaused, (Nat.mod_le _ _).trans (Nat.add_le_add_right h.inflight n), h.tokens, h.lastRefill,
    h.virtualFinishTime⟩

theorem Served.release {inflight : Nat} {policy : TenantPolicy} (h : state.Served policy inflight now v) :
    ({ state with inflight := state.inflight - n } : TenantState Rat).Served policy (inflight - n) now v :=
  ⟨h.policy, h.unpaused, Nat.sub_le_sub_right h.inflight n, h.tokens, h.lastRefill, h.virtualFinishTime⟩

/-- What the first loop does to a tenant that is between two calls. -/
theorem Idle.served {r : String → Nat} (h : state.Idle (quickTenant weight totalSlots tenant) totalSlots now v)
    (virtualTime : Rat) (hpos : 0 < weight tenant) (hr : r tenant ≤ totalSlots) :
    (if r tenant = 0 then state.refill now
      else (state.refill now).charge virtualTime state.policy.weight (r tenant)).Served
        (quickTenant weight totalSlots tenant) (r tenant) now (charged virtualTime r weight (fun _ => v) tenant) := by
  have hinflight : (state.refill now).inflight = 0 := h.inflight
  have htokens : (0 : Rat) ≤ (state.refill now).tokens - r tenant := by
    rw [h.tokens, sub_nonneg]
    exact_mod_cast hr
  unfold charged
  split
  · rename_i hzero
    refine ⟨h.policy, h.unpaused, hinflight.le.trans (Nat.zero_le _), ?_, rfl, h.virtualFinishTime⟩
    rw [h.tokens]
    exact Nat.cast_nonneg _
  · refine ⟨h.policy, h.unpaused, ?_, htokens, rfl, ?_⟩
    · show ((state.refill now).inflight + r tenant) % u64Size ≤ r tenant
      rw [hinflight, Nat.zero_add]
      exact Nat.mod_le _ _
    · show max virtualTime state.virtualFinishTime + (r tenant : Rat) / (max state.policy.weight 1 : Nat) = _
      rw [h.virtualFinishTime, h.policy]
      show max virtualTime v + (r tenant : Rat) / (max (weight tenant) 1 : Nat) = _
      rw [Nat.max_eq_left hpos]

end TenantState

namespace WFQScheduler
variable {s : WFQScheduler Rat} {tenants : Finset String} {weight r : String → Nat} {totalSlots now : Nat}
  {v : String → Rat} {tenant : String} {state : TenantState Rat}

/-- All tenants are between two calls. -/
def AllIdle (s : WFQScheduler Rat) (weight : String → Nat) (totalSlots now : Nat) (v : String → Rat) : Prop :=
  ∀ tenant state, s.tenants.lookup tenant = some state →
    state.Idle (quickTenant weight totalSlots tenant) totalSlots now (v tenant)

theorem AllIdle.ready (h : s.AllIdle weight totalSlots now v) : s.AllReady totalSlots now :=
  fun tenant state hstate => (h tenant state hstate).ready

theorem AllIdle.candidates_ids (h : s.AllIdle weight totalSlots now v) :
    (s.candidates now).map Candidate.tenantId = s.ids.insertionSort fun a b => ¬v b < v a := by
  have htime : ∀ c ∈ s.tenants.values.map fun state => (state.refill now).candidate,
      c.virtualFinishTime = v c.tenantId := by
    intro c hc
    obtain ⟨state, hvalue, rfl⟩ := List.mem_map.mp hc
    exact (h _ _ (IdMap.mem_values.mp hvalue)).virtualFinishTime
  rw [candidates, h.ready.filter_eligible, List.map_insertionSort _ (fun a b => ¬v b < v a), List.map_map]
  · rfl
  · intro a ha b hb
    rw [htime a ha, htime b hb]

theorem AllIdle.leftoverTo_eq (h : s.AllIdle weight totalSlots now v) (hby : s.AllocatesBy tenants totalSlots now r)
    (hleft : ∑ i ∈ tenants, r i < totalSlots) : (s.allocate totalSlots now).leftoverTo = firstServed s.ids r v := by
  have hremaining : 0 < (s.allocate totalSlots now).remaining := by
    rw [hby.remaining]
    exact Nat.sub_pos_of_lt hleft
  rw [Allocation.leftoverTo, if_pos hremaining, ← List.head?_map, hby.listed, h.candidates_ids]
  rfl

section Schedule
variable (hidle : s.AllIdle weight totalSlots now v) (hby : s.AllocatesBy tenants totalSlots now r)
  (hslots : totalSlots ≠ 0) (hweight : s.totalWeight ≠ 0) (hmem : tenant ∈ tenants)
  (hstate : s.tenants.lookup tenant = some state)

include hidle hby hslots hweight hstate in
theorem granted_schedule (hleft : ∑ i ∈ tenants, r i < totalSlots) :
    grantedTo tenant (s.schedule totalSlots now).2 =
      r tenant + if firstServed s.ids r v = some tenant then totalSlots - ∑ i ∈ tenants, r i else 0 := by
  rw [schedule, if_neg hslots, if_neg hweight]
  refine Allocation.granted_giveLeftover.trans ?_
  rw [hby.granted hstate, hidle.leftoverTo_eq hby hleft, hby.remaining]

include hidle hby hslots hweight hmem hstate in
theorem served_schedule (hpos : 0 < weight tenant) (hsum : ∑ i ∈ tenants, r i ≤ totalSlots) :
    ∃ state', (s.schedule totalSlots now).1.tenants.lookup tenant = some state' ∧
      state'.Served (quickTenant weight totalSlots tenant) totalSlots now
        (charged (F64.ofNat s.virtualTime) r weight v tenant) := by
  have hle : r tenant ≤ ∑ i ∈ tenants, r i := Finset.single_le_sum (fun _ _ => Nat.zero_le _) hmem
  have hserved := (hidle tenant state hstate).served (F64.ofNat s.virtualTime) hpos (hle.trans hsum)
  rw [schedule, if_neg hslots, if_neg hweight]
  have hlookup : (s.allocate totalSlots now).giveLeftover.tenants.lookup tenant = _ := Allocation.lookup_giveLeftover
  rw [hby.tenant hstate] at hlookup
  split at hlookup
  · refine ⟨_, hlookup, hserved.addInflight.mono ?_⟩
    rw [hby.remaining]
    omega
  · exact ⟨_, hlookup, hserved.mono (hle.trans hsum)⟩

end Schedule

end WFQScheduler

namespace SchedulerRun
variable {s s' : SchedulerRun Rat} {tenants : Finset String} {weight : String → Nat} {totalSlots now : Nat}

/-- Every tenant of a list gives back what it has inflight. -/
theorem run_release (totalSlots now : Nat) (l : List String) (s : SchedulerRun Rat) :
    ∃ s', Run next (Serves totalSlots) s s' ∧ s'.clock = s.clock ∧ s'.granted = s.granted ∧
      s'.scheduler.ids = s.scheduler.ids ∧ ∀ i policy m v state, s.scheduler.tenants.lookup i = some state →
        state.Served policy m now v → ∃ state', s'.scheduler.tenants.lookup i = some state' ∧
          state'.Served policy (if i ∈ l then m - totalSlots else m) now v := by
  induction l generalizing s with
  | nil => exact ⟨s, .refl, rfl, rfl, rfl, fun i policy m v state hstate hserved => ⟨state, hstate, hserved⟩⟩
  | cons t l ih =>
    let s₁ : SchedulerRun Rat := { s with scheduler := s.scheduler.release t totalSlots }
    obtain ⟨s', hrun, hclock, hgranted, hids, htenant⟩ := ih s₁
    refine ⟨s', Run.head (l := .release t totalSlots) trivial rfl hrun, hclock, hgranted,
      hids.trans WFQScheduler.ids_release, ?_⟩
    intro i policy m v state hstate hserved
    have hlookup : s₁.scheduler.tenants.lookup i = _ := WFQScheduler.lookup_release
    by_cases hi : i = t
    · rw [if_pos hi, hstate] at hlookup
      obtain ⟨state', hstate', hserved'⟩ := htenant i policy _ v _ hlookup (hserved.release (n := totalSlots))
      refine ⟨state', hstate', hserved'.mono ?_⟩
      have hmem : i ∈ t :: l := by
        rw [hi]
        exact List.mem_cons_self
      rw [if_pos hmem]
      split
      · exact Nat.sub_le _ _
      · exact Nat.le_refl _
    · rw [if_neg hi, hstate] at hlookup
      obtain ⟨state', hstate', hserved'⟩ := htenant i policy _ v _ hlookup hserved
      refine ⟨state', hstate', hserved'.mono ?_⟩
      simp only [List.mem_cons, hi, false_or]
      exact Nat.le_refl _

section Cycles
variable {v : String → Rat} (hpos : ∀ i ∈ tenants, 0 < weight i) (hlt : ∑ i ∈ tenants, weight i < u32Size)
  (htotal : totalSlots < u64Size) (hleft : ∑ i ∈ tenants, share tenants weight totalSlots i < totalSlots)
  (hsum : 0 < ∑ i ∈ tenants, weight i)

/-- What a tenant is granted in a call in which `first` gets the leftover slots. -/
def gain (tenants : Finset String) (weight : String → Nat) (totalSlots : Nat) (first : Option String) (i : String) : Nat :=
  share tenants weight totalSlots i +
    if first = some i then totalSlots - ∑ j ∈ tenants, share tenants weight totalSlots j else 0

include hpos hlt htotal hleft hsum in
/-- All tenants are served, give their slots back and wait for a second. -/
theorem run_cycle (hidle : s.scheduler.AllIdle weight totalSlots s.clock v)
    (hweights : s.scheduler.HasWeights tenants weight) :
    ∃ s', Run next (Serves totalSlots) s s' ∧ s'.scheduler.ids = s.scheduler.ids ∧
      s'.scheduler.AllIdle weight totalSlots s'.clock
        (charged (F64.ofNat s.scheduler.virtualTime) (share tenants weight totalSlots) weight v) ∧
      ∀ i ∈ tenants, s'.granted i = s.granted i +
        gain tenants weight totalSlots (firstServed s.scheduler.ids (share tenants weight totalSlots) v) i := by
  have hslots : totalSlots ≠ 0 := Nat.ne_zero_of_lt hleft
  have hW : s.scheduler.totalWeight = ∑ i ∈ tenants, weight i := by
    rw [hidle.ready.totalWeight_eq hweights, Nat.mod_eq_of_lt hlt]
  have hweight : s.scheduler.totalWeight ≠ 0 := hW ▸ hsum.ne'
  have hby : s.scheduler.AllocatesBy tenants totalSlots s.clock (share tenants weight totalSlots) := by
    refine WFQScheduler.allocatesBy hidle.ready hweights (fun i hi => ?_) htotal hleft.le
    rw [hW]
    exact WFQScheduler.share_min_eq hsum htotal hi
  -- the scheduler after the call, after the releases and after the wait
  let s₁ : SchedulerRun Rat :=
    { s with
      scheduler := (s.scheduler.schedule totalSlots s.clock).1
      granted := fun t => s.granted t + grantedTo t (s.scheduler.schedule totalSlots s.clock).2 }
  obtain ⟨s₂, hrun, hclock, hgranted, hids, htenant⟩ := run_release totalSlots s.clock s.scheduler.ids s₁
  let s₃ : SchedulerRun Rat := { s₂ with clock := s₂.clock + 10 ^ 9 }
  have hids₂ : s₂.scheduler.ids = s.scheduler.ids := hids.trans WFQScheduler.ids_schedule
  refine ⟨s₃, ?_, hids₂, ?_, ?_⟩
  · have hserve : Run next (Serves totalSlots) s s₂ := Run.head (l := .schedule totalSlots) ⟨rfl, hidle.ready⟩ rfl hrun
    exact hserve.step (l := .wait (10 ^ 9)) trivial rfl
  · intro tenant state₂ hstate₂
    have hmem : tenant ∈ s.scheduler.ids := by
      by_contra hnot
      rw [← hids₂, ← WFQScheduler.lookup_eq_none, hstate₂] at hnot
      cases hnot
    obtain ⟨state, hstate⟩ := WFQScheduler.exists_lookup hmem
    have htenants := hweights.mem_iff.mpr hmem
    obtain ⟨state₁, hstate₁, hserved₁⟩ :=
      WFQScheduler.served_schedule hidle hby hslots hweight htenants hstate (hpos tenant htenants) hleft.le
    obtain ⟨state', hstate', hserved₂⟩ := htenant tenant _ _ _ state₁ hstate₁ hserved₁
    rw [hstate₂] at hstate'
    cases hstate'
    rw [if_pos hmem, Nat.sub_self] at hserved₂
    have hclock₃ : s₃.clock = s.clock + 10 ^ 9 := congrArg (· + 10 ^ 9) hclock
    rw [hclock₃]
    exact hserved₂.idle
  · intro i hi
    obtain ⟨state, hstate⟩ := WFQScheduler.exists_lookup (hweights.mem_iff.mp hi)
    show s₂.granted i = _
    rw [hgranted]
    exact congrArg (s.granted i + ·) (WFQScheduler.granted_schedule hidle hby hslots hweight hstate hleft)

/-- The tenants are between two calls, and in the order in which every call will sort them. -/
structure Cycling (s : SchedulerRun Rat) (ids : List String) (tenants : Finset String) (weight : String → Nat)
    (totalSlots : Nat) : Prop where
  listed : s.scheduler.ids = ids
  weights : s.scheduler.HasWeights tenants weight
  idle : ∃ v, s.scheduler.AllIdle weight totalSlots s.clock v ∧
    SameOrder ids v (pace (share tenants weight totalSlots) weight)

include hpos hlt htotal hleft hsum in
theorem run_cycles {ids : List String} (h : s.Cycling ids tenants weight totalSlots) (n : Nat) :
    ∃ s', Run next (Serves totalSlots) s s' ∧ s'.Cycling ids tenants weight totalSlots ∧
      ∀ i ∈ tenants, s'.granted i = s.granted i + n * gain tenants weight totalSlots
        (firstServed ids (share tenants weight totalSlots) (pace (share tenants weight totalSlots) weight)) i := by
  induction n with
  | zero =>
    refine ⟨s, .refl, h, fun i _ => ?_⟩
    rw [Nat.zero_mul, Nat.add_zero]
  | succ n ih =>
    obtain ⟨s₁, hrun₁, ⟨hids, hweights, v, hidle, horder⟩, hgranted₁⟩ := ih
    obtain ⟨s₂, hrun₂, hids₂, hidle₂, hgranted₂⟩ := run_cycle hpos hlt htotal hleft hsum hidle hweights
    have hids_pos : ∀ i ∈ ids, 0 < weight i := by
      intro i hi
      rw [← hids] at hi
      exact hpos i (hweights.mem_iff.mpr hi)
    have hweights₂ : s₂.scheduler.HasWeights tenants weight :=
      hrun₂.invariant (I := fun s => s.scheduler.HasWeights tenants weight)
        (fun hI _ hnext => hasWeights_of_next hI hnext) hweights
    refine ⟨s₂, hrun₁.trans hrun₂, ⟨hids₂.trans hids, hweights₂, _, hidle₂, horder.follows.charged hids_pos⟩, ?_⟩
    intro i hi
    rw [hgranted₂ i hi, hgranted₁ i hi, hids, horder.firstServed_eq, Nat.succ_mul, Nat.add_assoc]

end Cycles

section Start
variable {ids : List String} {tenant : String} {scheduler : WFQScheduler Rat}

/-- A new scheduler of quick tenants. -/
def quickScheduler (ids : List String) (weight : String → Nat) (totalSlots : Nat) : WFQScheduler Rat :=
  (ids.map (quickTenant weight totalSlots)).foldl (fun s p => s.register p 0) .new

theorem lookup_register_all :
    ((ids.map (quickTenant weight totalSlots)).foldl (fun s p => s.register p 0) scheduler).tenants.lookup tenant =
      if tenant ∈ ids then some (.new (quickTenant weight totalSlots tenant) 0) else scheduler.tenants.lookup tenant := by
  induction ids generalizing scheduler with
  | nil => rfl
  | cons t ids ih =>
    have hregister : (scheduler.register (quickTenant weight totalSlots t) 0).tenants.lookup tenant =
        if tenant = t then some (.new (quickTenant weight totalSlots t) 0) else scheduler.tenants.lookup tenant :=
      IdMap.lookup_insert
    rw [List.map_cons, List.foldl_cons, ih, hregister]
    by_cases hmem : tenant ∈ ids
    · rw [if_pos hmem, if_pos (List.mem_cons_of_mem _ hmem)]
    · by_cases ht : tenant = t
      · subst ht
        rw [if_neg hmem, if_pos rfl, if_pos List.mem_cons_self]
      · rw [if_neg hmem, if_neg ht, if_neg (List.not_mem_cons_of_ne_of_not_mem ht hmem)]

theorem lookup_quickScheduler :
    (quickScheduler ids weight totalSlots).tenants.lookup tenant =
      if tenant ∈ ids then some (.new (quickTenant weight totalSlots tenant) 0) else none :=
  lookup_register_all

theorem hasWeights_quickScheduler : (quickScheduler tenants.toList weight totalSlots).HasWeights tenants weight := by
  intro t
  rw [WFQScheduler.policy, lookup_quickScheduler]
  by_cases ht : t ∈ tenants
  · rw [if_pos (Finset.mem_toList.mpr ht), if_pos ht]
    rfl
  · rw [if_neg (mt Finset.mem_toList.mp ht), if_neg ht]
    rfl

theorem allIdle_quickScheduler : (quickScheduler ids weight totalSlots).AllIdle weight totalSlots 0 fun _ => 0 := by
  intro tenant state hstate
  rw [lookup_quickScheduler] at hstate
  split at hstate
  · obtain rfl := Option.some.inj hstate
    refine ⟨rfl, rfl, rfl, ?_, ?_⟩
    · rw [TenantState.tokens_refill]
      refine min_eq_left ?_
      exact le_add_of_nonneg_right (mul_nonneg (Nat.cast_nonneg _) (by rw [asSecsF64_eq]; positivity))
    · show (0.0 : Rat) = 0
      norm_num
  · cases hstate

theorem fresh_quickScheduler (hweight : ∀ i ∈ ids, weight i < u32Size) (htotal : totalSlots < u32Size) :
    (quickScheduler ids weight totalSlots).Fresh := by
  refine ⟨ids.map (quickTenant weight totalSlots), 0, ?_, rfl⟩
  intro p hp
  obtain ⟨i, hi, rfl⟩ := List.mem_map.mp hp
  have hone : 1 < u64Size := by decide
  exact ⟨hweight i hi, hone, htotal, htotal⟩

end Start

section Unbounded

/-- There is a tenant besides any given one when some share is rounded. -/
theorem exists_other {k rounded : String} (hk : k ∈ tenants) (hmem : rounded ∈ tenants)
    (hdvd : ¬(∑ i ∈ tenants, weight i) ∣ totalSlots * weight rounded) : ∃ j ∈ tenants, j ≠ k := by
  by_contra hnone
  push Not at hnone
  have hsingle : tenants = {k} := Finset.eq_singleton_iff_unique_mem.mpr ⟨hk, hnone⟩
  rw [hnone rounded hmem, hsingle, Finset.sum_singleton] at hdvd
  exact hdvd (Nat.dvd_mul_left _ _)

/-- The tenant that gets the leftover slots is ahead of every other one by more and more. -/
theorem drift_pos {k j : String} (hsum : 0 < ∑ i ∈ tenants, weight i) (hpos : ∀ i ∈ tenants, 0 < weight i)
    (hleft : ∑ i ∈ tenants, share tenants weight totalSlots i < totalSlots) (hk : k ∈ tenants) (hj : j ∈ tenants)
    (hne : j ≠ k) :
    0 < (gain tenants weight totalSlots (some k) k : Rat) / weight k -
      (gain tenants weight totalSlots (some k) j : Rat) / weight j := by
  have hother : gain tenants weight totalSlots (some k) j = share tenants weight totalSlots j := by
    rw [gain, if_neg fun heq => hne (Option.some.inj heq).symm, Nat.add_zero]
  rw [hother, gain, if_pos rfl, sub_pos]
  exact (share_div_le hsum (hpos j hj)).trans_lt (due_lt_share_add hsum (hpos k hk) (Nat.sub_pos_of_lt hleft))

theorem evenShares_of_boundedLag (hpos : ∀ i ∈ tenants, 0 < weight i) (hlt : ∑ i ∈ tenants, weight i < u32Size)
    (htotal : totalSlots < u32Size) (h : BoundedLag WFQScheduler.Fresh tenants weight totalSlots) :
    EvenShares tenants weight totalSlots := by
  by_contra hnot
  rw [EvenShares, not_or, not_or, Nat.mod_eq_of_lt hlt] at hnot
  obtain ⟨hsum, hserved, hrounded⟩ := hnot
  replace hsum := Nat.pos_of_ne_zero hsum
  push Not at hserved hrounded
  obtain ⟨served, hserved_mem, hserved⟩ := hserved
  obtain ⟨rounded, hrounded_mem, hrounded⟩ := hrounded hlt
  have hleft : ∑ i ∈ tenants, share tenants weight totalSlots i < totalSlots := by
    refine lt_of_le_of_ne (sum_share_le hsum) fun heq => ?_
    exact hrounded ((sum_share_eq_iff hsum).mp heq rounded hrounded_mem)
  have htotal₆₄ : totalSlots < u64Size := htotal.trans (by decide)
  -- the first call puts the tenants in order
  obtain ⟨bound, hbound⟩ := h
  have hweights : (quickScheduler tenants.toList weight totalSlots).HasWeights tenants weight := hasWeights_quickScheduler
  obtain ⟨s₁, hrun₁, hids₁, hidle₁, -⟩ := run_cycle hpos hlt htotal₆₄ hleft hsum
    (s := start (quickScheduler tenants.toList weight totalSlots) 0) allIdle_quickScheduler hweights
  have hids_pos : ∀ i ∈ (quickScheduler tenants.toList weight totalSlots).ids, 0 < weight i :=
    fun i hi => hpos i (hweights.mem_iff.mpr hi)
  have hcycling : s₁.Cycling (quickScheduler tenants.toList weight totalSlots).ids tenants weight totalSlots := by
    refine ⟨hids₁, ?_, _, hidle₁, Follows.charged (fun _ _ _ _ _ => le_refl _) hids_pos⟩
    exact hrun₁.invariant (I := fun s => s.scheduler.HasWeights tenants weight)
      (fun hI _ hnext => hasWeights_of_next hI hnext) hweights
  have hshare : share tenants weight totalSlots served ≠ 0 := (Nat.div_pos hserved hsum).ne'
  obtain ⟨k, hk, hfirst⟩ := exists_firstServed (v := pace (share tenants weight totalSlots) weight)
    (hweights.mem_iff.mp hserved_mem) hshare
  replace hk := hweights.mem_iff.mpr hk
  obtain ⟨j, hj, hne⟩ := exists_other hk hrounded_mem hrounded
  -- from then on `k` gains on `j` in each call
  obtain ⟨n, hn⟩ : ∃ n : Nat, bound < ((s₁.granted k : Rat) / weight k - (s₁.granted j : Rat) / weight j) + n * _ :=
    exists_lt_of_drift (drift_pos hsum hpos hleft hk hj hne)
  obtain ⟨s₂, hrun₂, -, hgranted₂⟩ := run_cycles hpos hlt htotal₆₄ hleft hsum hcycling n
  rw [hfirst] at hgranted₂
  have hfresh : (quickScheduler tenants.toList weight totalSlots).Fresh := by
    refine fresh_quickScheduler (fun i hi => ?_) htotal
    exact (Finset.single_le_sum (fun _ _ => Nat.zero_le _) (Finset.mem_toList.mp hi)).trans_lt hlt
  have hle := hbound _ 0 s₂ hfresh hweights (hrun₁.trans hrun₂) k hk j hj
  have hlag := (le_abs_self _).trans hle
  rw [hgranted₂ k hk, hgranted₂ j hj] at hlag
  push_cast at hlag
  rw [add_div, add_div, mul_div_assoc, mul_div_assoc] at hlag
  linarith

/-- The lag is bounded, and then by zero, when no share is rounded or none reaches a slot, and otherwise a fresh
    scheduler leaves any bound behind. -/
theorem boundedLag_iff (hpos : ∀ i ∈ tenants, 0 < weight i) (htotal : totalSlots < u64Size) :
    (EvenShares tenants weight totalSlots → BoundedLag (fun _ => True) tenants weight totalSlots) ∧
      (∑ i ∈ tenants, weight i < u32Size → totalSlots < u32Size →
        BoundedLag WFQScheduler.Fresh tenants weight totalSlots → EvenShares tenants weight totalSlots) := by
  refine ⟨fun heven => ⟨0, fun scheduler clock s _ hweights hrun i hi j hj => ?_⟩, fun hlt hfits h => ?_⟩
  · exact (lag_eq_zero htotal hpos heven hweights hrun hi hj).le
  · exact evenShares_of_boundedLag hpos hlt hfits h

/-- A standard and a premium tenant. -/
def twoWeights (tenant : String) : Nat := if tenant = "premium" then 50 else 10

theorem not_boundedLag : ¬∀ (tenants : Finset String) (weight : String → Nat) (totalSlots : Nat),
    (∀ i ∈ tenants, 0 < weight i) → (∀ i ∈ tenants, weight i < u32Size) → totalSlots < u64Size →
      BoundedLag WFQScheduler.Fresh tenants weight totalSlots := by
  intro h
  have hpos : ∀ i ∈ ({"standard", "premium"} : Finset String), 0 < twoWeights i := by decide
  have hlag := h {"standard", "premium"} twoWeights 7 hpos (by decide) (by decide)
  exact absurd (evenShares_of_boundedLag hpos (by decide) (by decide) hlag) (by decide)

theorem boundedLag_sixSlots : EvenShares {"standard", "premium"} twoWeights 6 ∧
    BoundedLag (fun _ => True) {"standard", "premium"} twoWeights 6 := by
  have heven : EvenShares {"standard", "premium"} twoWeights 6 := by decide
  exact ⟨heven, (boundedLag_iff (by decide) (by decide)).1 heven⟩

end Unbounded

end SchedulerRun

end RocksQueue
