import RocksQueue.Theorems.RateCap

/-! # The books of the scheduler

`schedule` hands out all its slots or none, and adds to the inflight count of each tenant what it has given it. How
much that is follows from what the candidates ask for and from their order; neither the limit of a tenant nor the
range of its counter is looked at again once the tenant has been let in. -/

namespace RocksQueue

open Runs

variable {R : Type} [F64 R]

namespace Allocation
variable {a : Allocation R} {cs : List (Candidate R)} {virtualTime : R} {totalSlots totalWeight : Nat}

omit [F64 R] in
theorem listed_giveLeftover : a.giveLeftover.allocations.map Prod.fst = a.allocations.map Prod.fst := by
  unfold giveLeftover
  split
  · split
    · rfl
    · rename_i hallocations
      rw [hallocations]
      rfl
  · rfl

omit [F64 R] in
/-- Once anything has been given out, the leftover step gives out the rest. -/
theorem slots_giveLeftover (h : a.allocations ≠ []) :
    (a.giveLeftover.allocations.map Prod.snd).sum = (a.allocations.map Prod.snd).sum + a.remaining := by
  unfold giveLeftover
  split
  · split
    · rename_i hnil
      exact absurd hnil h
    · rename_i t slots rest hallocations
      rw [hallocations, List.map_cons, List.map_cons, List.sum_cons, List.sum_cons]
      omega
  · rename_i hnot
    rw [Nat.eq_zero_of_not_pos hnot, Nat.add_zero]

end Allocation

namespace WFQScheduler
variable {s : WFQScheduler R} {state : TenantState R} {tenant : String} {totalSlots now : Nat}

theorem due_zero : s.due 0 now state = 0 := by
  simp only [due, Nat.zero_sub, Nat.min_zero, ite_self]

/-- A call gives an eligible tenant what is due to it, and the others nothing. -/
theorem grantedTo_schedule (h : s.tenants.lookup tenant = some state) :
    grantedTo tenant (s.schedule totalSlots now).2 = if state.eligible then s.due totalSlots now state else 0 := by
  unfold schedule
  by_cases hslots : totalSlots = 0
  · rw [if_pos hslots, hslots, due_zero, ite_self]
    rfl
  by_cases hweight : s.totalWeight = 0
  · rw [if_neg hslots, if_pos hweight, due, if_pos hweight, ite_self]
    rfl
  rw [if_neg hslots, if_neg hweight]
  refine Allocation.granted_giveLeftover.trans ?_
  cases heligible : state.eligible with
  | false =>
    rw [if_neg (not_leftoverTo h heligible hslots), if_neg Bool.false_ne_true]
    exact (allocate_spares h heligible).granted
  | true =>
    rw [grantedTo_allocate h heligible, if_pos rfl, due, if_neg hweight, remaining_allocate, s.tenants.keyed h]
    congr 1
    by_cases hleft : 0 < totalSlots - s.askedInAll totalSlots now
    · refine if_congr ?_ rfl rfl
      rw [leftoverTo_allocate h heligible hslots, and_iff_right hleft]
    · have hzero : totalSlots - s.askedInAll totalSlots now = 0 := by omega
      rw [hzero, ite_self, ite_self]

/-- What the first loop does to a tenant. -/
theorem lookup_allocate (h : s.tenants.lookup tenant = some state) (totalSlots now : Nat) :
    ∃ state', (s.allocate totalSlots now).tenants.lookup tenant = some state' ∧ state'.policy = state.policy ∧
      state'.paused = state.paused ∧
      state'.inflight =
        if grantedTo tenant (s.allocate totalSlots now).allocations = 0 then state.inflight
        else (state.inflight + grantedTo tenant (s.allocate totalSlots now).allocations) % u64Size := by
  cases heligible : state.eligible with
  | false =>
    obtain ⟨hgranted, htenant⟩ := allocate_passes h heligible totalSlots now
    exact ⟨state, htenant, rfl, rfl, (if_pos hgranted).symm⟩
  | true =>
    obtain ⟨remaining, n, -, hgranted, htenant⟩ := allocate_serves h heligible totalSlots now
    refine ⟨_, htenant, ?_⟩
    rw [hgranted]
    split
    · exact ⟨rfl, rfl, rfl⟩
    · exact ⟨rfl, rfl, rfl⟩

/-- What a call does to a tenant. -/
theorem lookup_schedule (h : s.tenants.lookup tenant = some state) (totalSlots now : Nat) :
    ∃ state', (s.schedule totalSlots now).1.tenants.lookup tenant = some state' ∧ state'.policy = state.policy ∧
      state'.paused = state.paused ∧
      state'.inflight =
        if grantedTo tenant (s.schedule totalSlots now).2 = 0 then state.inflight
        else (state.inflight + grantedTo tenant (s.schedule totalSlots now).2) % u64Size := by
  unfold schedule
  by_cases hslots : totalSlots = 0
  · rw [if_pos hslots]
    exact ⟨state, h, rfl, rfl, rfl⟩
  by_cases hweight : s.totalWeight = 0
  · rw [if_neg hslots, if_pos hweight]
    exact ⟨state, h, rfl, rfl, rfl⟩
  rw [if_neg hslots, if_neg hweight]
  obtain ⟨state', hstate', hpolicy, hpaused, hinflight⟩ := lookup_allocate h totalSlots now
  have hlookup : (s.allocate totalSlots now).giveLeftover.tenants.lookup tenant = _ := Allocation.lookup_giveLeftover
  have hgranted : grantedTo tenant (s.allocate totalSlots now).giveLeftover.allocations = _ := Allocation.granted_giveLeftover
  show ∃ state', (s.allocate totalSlots now).giveLeftover.tenants.lookup tenant = some state' ∧ _ ∧ _ ∧
    state'.inflight = if grantedTo tenant (s.allocate totalSlots now).giveLeftover.allocations = 0 then _ else
      (_ + grantedTo tenant (s.allocate totalSlots now).giveLeftover.allocations) % u64Size
  rw [hlookup, hgranted, hstate']
  by_cases hleft : (s.allocate totalSlots now).leftoverTo = some tenant
  · rw [if_pos hleft, if_pos hleft]
    obtain ⟨hpos, slots, rest, hlisted⟩ := Allocation.leftoverTo_eq_some.mp hleft
    -- Who gets the leftover was granted a slot before, so its count was taken down already.
    have hlistedPos : ∀ e ∈ (s.allocate totalSlots now).allocations, e.2 ≠ 0 := Allocation.listed_pos (List.forall_mem_nil _)
    have hslots : slots ≠ 0 := hlistedPos (tenant, slots) (by rw [hlisted]; exact List.mem_cons_self)
    have hgrant : grantedTo tenant (s.allocate totalSlots now).allocations ≠ 0 := by
      rw [hlisted, grantedTo_cons, if_pos rfl]
      omega
    rw [if_neg hgrant] at hinflight
    refine ⟨_, rfl, hpolicy, hpaused, ?_⟩
    rw [if_neg (by omega), TenantState.addInflight, hinflight, Nat.mod_add_mod, Nat.add_assoc]
  · rw [if_neg hleft, if_neg hleft, Nat.add_zero]
    exact ⟨state', rfl, hpolicy, hpaused, hinflight⟩

/-! ## All slots or none -/

/-- The tenants that a call lists are among the candidates, in their order. -/
theorem listed_schedule :
    ((s.schedule totalSlots now).2.map Prod.fst).Sublist ((s.candidates now).map Candidate.tenantId) := by
  unfold schedule
  split
  · exact List.nil_sublist _
  · split
    · exact List.nil_sublist _
    · show ((s.allocate totalSlots now).giveLeftover.allocations.map Prod.fst).Sublist _
      rw [Allocation.listed_giveLeftover]
      exact Allocation.listed_foldl

theorem all_or_none :
    (s.schedule totalSlots now).2 = [] ∨ ((s.schedule totalSlots now).2.map Prod.snd).sum = totalSlots := by
  unfold schedule
  split
  · exact Or.inl rfl
  · split
    · exact Or.inl rfl
    · by_cases hnone : (s.allocate totalSlots now).allocations = []
      · have hlisted := (s.allocate totalSlots now).listed_giveLeftover
        rw [hnone] at hlisted
        exact Or.inl (List.map_eq_nil_iff.mp hlisted)
      · refine Or.inr ((Allocation.slots_giveLeftover hnone).trans ?_)
        have hslots : ((s.allocate totalSlots now).allocations.map Prod.snd).sum + (s.allocate totalSlots now).remaining =
            0 + totalSlots := Allocation.slots_foldl
        omega

/-- A call lists tenants once, that were let in at the call, with all its slots or none; the inflight counts grow by
    what is listed, and nothing else changes for the tenants. -/
structure Books (s : WFQScheduler R) (totalSlots now : Nat) : Prop where
  allOrNone : (s.schedule totalSlots now).2 = [] ∨ ((s.schedule totalSlots now).2.map Prod.snd).sum = totalSlots
  once : ((s.schedule totalSlots now).2.map Prod.fst).Nodup
  admitted : ∀ e ∈ (s.schedule totalSlots now).2, ∃ state, s.tenants.lookup e.1 = some state ∧ state.paused = false ∧
    state.inflight < state.policy.maxInflight
  booked : ∀ {tenant state}, s.tenants.lookup tenant = some state →
    ∃ state', (s.schedule totalSlots now).1.tenants.lookup tenant = some state' ∧
      state'.inflight = state.inflight + grantedTo tenant (s.schedule totalSlots now).2 ∧
      state'.paused = state.paused ∧ state'.policy = state.policy
  others : ∀ {tenant}, s.tenants.lookup tenant = none → (s.schedule totalSlots now).1.tenants.lookup tenant = none

omit [F64 R] in
theorem eligible_iff : state.eligible = true ↔ state.paused = false ∧ state.inflight < state.policy.maxInflight := by
  rw [TenantState.eligible, Bool.and_eq_true, Bool.not_eq_true', decide_eq_true_eq]

theorem admitted_schedule {e : String × Nat} (he : e ∈ (s.schedule totalSlots now).2) :
    ∃ state, s.tenants.lookup e.1 = some state ∧ state.paused = false ∧ state.inflight < state.policy.maxInflight := by
  obtain ⟨c, hc, hid⟩ := List.mem_map.mp (listed_schedule.subset (List.mem_map_of_mem he))
  obtain ⟨state, hvalue, heligible, rfl⟩ := mem_candidates.mp hc
  refine ⟨state, ?_, eligible_iff.mp heligible⟩
  rw [← hid]
  exact IdMap.mem_values.mp hvalue

/-- The books are right exactly when the count of no tenant outgrows its type. -/
theorem books_iff (s : WFQScheduler R) (totalSlots now : Nat) :
    s.Books totalSlots now ↔ ∀ tenant state, s.tenants.lookup tenant = some state → state.eligible = true →
      0 < s.due totalSlots now state → state.inflight + s.due totalSlots now state < 2 ^ 64 := by
  constructor
  · intro h tenant state hstate heligible hdue
    obtain ⟨state', hstate', hbooked, -, -⟩ := h.booked hstate
    obtain ⟨state'', hstate'', -, -, hinflight⟩ := lookup_schedule hstate totalSlots now
    rw [hstate', Option.some.injEq] at hstate''
    rw [← hstate'', hbooked, grantedTo_schedule hstate, if_pos heligible, if_neg hdue.ne'] at hinflight
    rw [hinflight]
    exact Nat.mod_lt _ (by decide)
  · intro h
    refine ⟨all_or_none, listed_schedule.nodup candidates_ids_nodup, fun e he => admitted_schedule he, ?_, ?_⟩
    · intro tenant state hstate
      obtain ⟨state', hstate', hpolicy, hpaused, hinflight⟩ := lookup_schedule hstate totalSlots now
      refine ⟨state', hstate', ?_, hpaused, hpolicy⟩
      rw [hinflight]
      split
      · rename_i hzero
        rw [hzero, Nat.add_zero]
      · rename_i hgranted
        rw [grantedTo_schedule hstate] at hgranted ⊢
        split at hgranted
        · rename_i heligible
          rw [if_pos heligible]
          exact Nat.mod_eq_of_lt (h tenant state hstate heligible (Nat.pos_of_ne_zero hgranted))
        · exact absurd rfl hgranted
    · intro tenant hnone
      rw [lookup_eq_none] at hnone ⊢
      rwa [ids_schedule]

/-! ## The inflight limits -/

/-- Every tenant is within its limit. -/
def Within (s : WFQScheduler R) : Prop :=
  ∀ tenant state, s.tenants.lookup tenant = some state → state.inflight ≤ state.policy.maxInflight

/-- What is due to a tenant leaves it within its limit, as the count is kept. -/
def HasHeadroom (s : WFQScheduler R) (totalSlots now : Nat) : Prop :=
  ∀ tenant state, s.tenants.lookup tenant = some state → state.eligible = true → 0 < s.due totalSlots now state →
    (state.inflight + s.due totalSlots now state) % 2 ^ 64 ≤ state.policy.maxInflight

theorem within_schedule_iff (h : s.Within) : (s.schedule totalSlots now).1.Within ↔ s.HasHeadroom totalSlots now := by
  constructor
  · intro hafter tenant state hstate heligible hdue
    obtain ⟨state', hstate', hpolicy, -, hinflight⟩ := lookup_schedule hstate totalSlots now
    rw [grantedTo_schedule hstate, if_pos heligible, if_neg hdue.ne'] at hinflight
    have hwithin := hafter tenant state' hstate'
    rw [hpolicy, hinflight] at hwithin
    exact hwithin
  · intro hroom tenant state' hstate'
    have hsome : (s.tenants.lookup tenant).isSome := by
      by_contra hnone
      rw [Option.not_isSome_iff_eq_none, lookup_eq_none, ← ids_schedule, ← lookup_eq_none, hstate'] at hnone
      cases hnone
    obtain ⟨state, hstate⟩ := Option.isSome_iff_exists.mp hsome
    obtain ⟨state'', hstate'', hpolicy, -, hinflight⟩ := lookup_schedule hstate totalSlots now
    rw [hstate', Option.some.injEq] at hstate''
    rw [hstate'', hpolicy, hinflight, grantedTo_schedule hstate]
    by_cases hdue : (if state.eligible then s.due totalSlots now state else 0) = 0
    · rw [if_pos hdue]
      exact h tenant state hstate
    · rw [if_neg hdue]
      split at hdue
      · rename_i heligible
        rw [if_pos heligible]
        exact hroom tenant state hstate heligible (Nat.pos_of_ne_zero hdue)
      · exact absurd rfl hdue

omit [F64 R] in
theorem within_release {t : String} {n : Nat} (h : s.Within) : (s.release t n).Within := by
  intro tenant state' hstate'
  rw [lookup_release] at hstate'
  split at hstate'
  · obtain ⟨state, hstate, rfl⟩ := Option.map_eq_some_iff.mp hstate'
    exact (Nat.sub_le _ _).trans (h tenant state hstate)
  · exact h tenant state' hstate'

omit [F64 R] in
theorem within_setPaused {t : String} {paused : Bool} (h : s.Within) : ((s.setPaused t paused).getD s).Within := by
  intro tenant state' hstate'
  rw [lookup_setPaused] at hstate'
  split at hstate'
  · obtain ⟨state, hstate, rfl⟩ := Option.map_eq_some_iff.mp hstate'
    exact h tenant state hstate
  · exact h tenant state' hstate'

omit [F64 R] in
theorem mem_values_of_lookup (h : s.tenants.lookup tenant = some state) : state ∈ s.tenants.values := by
  rw [IdMap.mem_values, s.tenants.keyed h]
  exact h

omit [F64 R] in
theorem within_of_test
    (h : s.tenants.values.all (fun state => decide (state.inflight ≤ state.policy.maxInflight)) = true) :
    s.Within := by
  intro tenant state hstate
  exact of_decide_eq_true (List.all_eq_true.mp h state (mem_values_of_lookup hstate))

/-- The test that every tenant has the headroom for what is due to it. -/
def hasHeadroom (s : WFQScheduler R) (totalSlots now : Nat) : Bool :=
  s.tenants.values.all fun state => !state.eligible || s.due totalSlots now state == 0 ||
    decide ((state.inflight + s.due totalSlots now state) % 2 ^ 64 ≤ state.policy.maxInflight)

theorem hasHeadroom_of_test (h : s.hasHeadroom totalSlots now = true) : s.HasHeadroom totalSlots now := by
  intro tenant state hstate heligible hdue
  have htest := List.all_eq_true.mp h state (mem_values_of_lookup hstate)
  rw [heligible, Bool.not_true, Bool.false_or, Bool.or_eq_true, beq_iff_eq, decide_eq_true_eq] at htest
  exact htest.resolve_left hdue.ne'

end WFQScheduler

namespace SchedulerRun

/-- A call of `schedule` finds the headroom for what is due. -/
def FindsHeadroom (s : SchedulerRun R) : SchedulerCall → Prop
  | .schedule totalSlots => s.scheduler.HasHeadroom totalSlots s.clock
  | _ => True

/-- A call keeps the tenants within their limits exactly when they have headroom for what is due to them; so do the
    runs of such calls. -/
theorem within_iff_hasHeadroom :
    (∀ (s : WFQScheduler R) (totalSlots now : Nat), s.Within →
      ((s.schedule totalSlots now).1.Within ↔ s.HasHeadroom totalSlots now)) ∧
    ∀ s s' : SchedulerRun R, s.scheduler.Within → Run next FindsHeadroom s s' → s'.scheduler.Within := by
  constructor
  · intro s totalSlots now h
    exact WFQScheduler.within_schedule_iff h
  · intro s s' hstart hrun
    refine hrun.invariant (I := fun s => s.scheduler.Within) ?_ hstart
    intro c call c' hI hroom hnext
    cases call with
    | schedule totalSlots =>
      cases hnext
      exact (WFQScheduler.within_schedule_iff hI).mpr hroom
    | release t n =>
      cases hnext
      exact WFQScheduler.within_release hI
    | setPaused t paused =>
      cases hnext
      exact WFQScheduler.within_setPaused hI
    | wait nanos =>
      cases hnext
      exact hI

def findsHeadroom (s : SchedulerRun R) : SchedulerCall → Bool
  | .schedule totalSlots => s.scheduler.hasHeadroom totalSlots s.clock
  | _ => true

theorem findsHeadroom_of_test {s : SchedulerRun R} {call : SchedulerCall} (h : findsHeadroom s call = true) :
    FindsHeadroom s call := by
  cases call with
  | schedule totalSlots => exact WFQScheduler.hasHeadroom_of_test h
  | release t n => trivial
  | setPaused t paused => trivial
  | wait nanos => trivial

/-! ## A standard and a premium tenant -/

/-- Sixty slots at a time, ten of which go to the standard tenant, stay within the limits for a while. -/
theorem within_sixtySlots : ∃ s, execWhile next findsHeadroom (start standardAndPremium 0)
      [.schedule 60, .release "standard" 5, .wait (10 ^ 9), .schedule 60] = some s ∧
    s.granted "standard" = 20 ∧ s.scheduler.Within ∧ (standardAndPremium.schedule 60 0).1.Within := by
  have hsome : ((execWhile next findsHeadroom (start standardAndPremium 0)
      [.schedule 60, .release "standard" 5, .wait (10 ^ 9), .schedule 60]).map fun s => s.granted "standard") = some 20 := by
    decide +kernel
  obtain ⟨s, hs, hgranted⟩ := Option.map_eq_some_iff.mp hsome
  have hstart : standardAndPremium.Within := WFQScheduler.within_of_test (by decide +kernel)
  refine ⟨s, hs, hgranted, ?_, ?_⟩
  · exact within_iff_hasHeadroom.2 _ _ hstart ((run_of_execWhile hs).mono fun _ _ => findsHeadroom_of_test)
  · exact (within_iff_hasHeadroom.1 _ 60 0 hstart).mpr (WFQScheduler.hasHeadroom_of_test (by decide +kernel))

def oneInflight : WFQScheduler Rat := (oneStandard.schedule 1 0).1

/-- All the slots there are: the count of a tenant with one slot inflight is then 0. -/
theorem not_books : ¬oneInflight.Books (2 ^ 64 - 1) 0 ∧
    (oneInflight.tenants.lookup "standard").map TenantState.inflight = some 1 ∧
    (oneInflight.schedule (2 ^ 64 - 1) 0).2 = [("standard", 2 ^ 64 - 1)] ∧
    ((oneInflight.schedule (2 ^ 64 - 1) 0).1.tenants.lookup "standard").map TenantState.inflight = some 0 := by
  have hbefore : (oneInflight.tenants.lookup "standard").map TenantState.inflight = some 1 := by decide +kernel
  have hafter : ((oneInflight.schedule (2 ^ 64 - 1) 0).1.tenants.lookup "standard").map TenantState.inflight = some 0 := by
    decide +kernel
  refine ⟨?_, hbefore, by decide +kernel, hafter⟩
  intro h
  obtain ⟨state, hstate, hone⟩ := Option.map_eq_some_iff.mp hbefore
  obtain ⟨state', hstate', hbooked, -, -⟩ := h.booked hstate
  rw [hstate', Option.map_some, Option.some.injEq, hbooked, hone] at hafter
  omega

/-- A tenant that may have 500 tasks inflight is given 600 slots. -/
theorem not_within :
    ¬∀ (s : WFQScheduler Rat) (totalSlots now : Nat), s.Within → (s.schedule totalSlots now).1.Within := by
  intro h
  have hstart : oneStandard.Within := WFQScheduler.within_of_test (by decide +kernel)
  have hgiven : ((oneStandard.schedule 600 0).1.tenants.lookup "standard").map
      (fun state => (state.inflight, state.policy.maxInflight)) = some (600, 500) := by decide +kernel
  obtain ⟨state, hstate, hover⟩ := Option.map_eq_some_iff.mp hgiven
  obtain ⟨hinflight, hcap⟩ := Prod.mk.inj hover
  have hwithin := h oneStandard 600 0 hstart "standard" state hstate
  omega

end SchedulerRun

end RocksQueue
