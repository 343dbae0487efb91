import Mathlib.Tactic.Ring
import RocksQueue.Slots

/-! # What a call of the scheduler does to one tenant

The first loop of `schedule` gives each candidate some slots within its tokens, for which the candidate pays,
and touches no other tenant. The leftover step gives slots to one tenant and charges nothing for them. -/

namespace RocksQueue

variable {R : Type} [F64 R]

theorem asSecsF64_eq (nanos : Nat) : (asSecsF64 nanos : Rat) = nanos / 10 ^ 9 := by
  have hdiv : (10 ^ 9 * (nanos / 10 ^ 9 : Nat) + (nanos % 10 ^ 9 : Nat) : Rat) = nanos := by
    exact_mod_cast Nat.div_add_mod nanos (10 ^ 9)
  show ((nanos / 10 ^ 9 : Nat) : Rat) + ((nanos % 10 ^ 9 : Nat) : Rat) / ((10 ^ 9 : Nat) : Rat) = nanos / 10 ^ 9
  rw [← hdiv]
  push_cast
  ring

theorem TenantState.tokens_refill {state : TenantState Rat} {now : Nat} :
    (state.refill now).tokens =
      min (state.policy.burstTokens : Rat)
        (state.tokens + state.policy.ratePerSec * asSecsF64 (now - state.lastRefill)) := by
  rw [mul_comm, min_comm, min_def_lt]
  rfl

section Granted
variable {tenant t : String} {n : Nat} {l l' : List (String × Nat)}

@[simp] theorem grantedTo_nil : grantedTo tenant [] = 0 := rfl

theorem grantedTo_append : grantedTo tenant (l ++ l') = grantedTo tenant l + grantedTo tenant l' := by
  rw [grantedTo, List.filter_append, List.map_append, List.sum_append]
  rfl

theorem grantedTo_cons : grantedTo tenant ((t, n) :: l) = (if t = tenant then n else 0) + grantedTo tenant l := by
  unfold grantedTo
  by_cases h : t = tenant
  · rw [List.filter_cons_of_pos (by simpa using h), List.map_cons, List.sum_cons, if_pos h]
  · rw [List.filter_cons_of_neg (by simpa using h), if_neg h, Nat.zero_add]

theorem grantedTo_singleton : grantedTo tenant [(t, n)] = if t = tenant then n else 0 := grantedTo_cons

end Granted

/-- What a candidate takes while the slots last: its share by weight, within its tokens. -/
def Candidate.demand (c : Candidate R) (totalSlots totalWeight : Nat) : Nat :=
  min (c.rawSlots totalSlots totalWeight) c.tokenCap

namespace Allocation
variable {a b : Allocation R} {c : Candidate R} {cs : List (Candidate R)} {virtualTime : R} {totalSlots totalWeight n : Nat}
  {tenant : String}

/-- The tenant of a candidate has been granted `n` more slots, and has paid for them. -/
structure Grants (a b : Allocation R) (virtualTime : R) (c : Candidate R) (n : Nat) : Prop where
  granted : grantedTo c.tenantId b.allocations = grantedTo c.tenantId a.allocations + n
  tenant : b.tenants.lookup c.tenantId =
    (a.tenants.lookup c.tenantId).map fun state => if n = 0 then state else state.charge virtualTime c.weight n

/-- Nothing has happened to this tenant. -/
structure Spares (a b : Allocation R) (tenant : String) : Prop where
  granted : grantedTo tenant b.allocations = grantedTo tenant a.allocations
  tenant : b.tenants.lookup tenant = a.tenants.lookup tenant

omit [F64 R] in
theorem Spares.refl : Spares a a tenant := ⟨rfl, rfl⟩

theorem grants_zero : Grants a a virtualTime c 0 := by
  refine ⟨rfl, ?_⟩
  cases a.tenants.lookup c.tenantId with
  | none => rfl
  | some state => rfl

section Round

theorem slots_none : c.slots totalSlots totalWeight 0 = 0 := Nat.min_zero _

theorem grant_of_slots_eq_zero (h : c.slots totalSlots totalWeight a.remaining = 0) :
    a.grant virtualTime totalSlots totalWeight c = a := by
  unfold grant
  split
  · rfl
  · exact if_pos h

theorem grant_of_slots_ne_zero (h : c.slots totalSlots totalWeight a.remaining ≠ 0) :
    a.grant virtualTime totalSlots totalWeight c =
      { tenants := a.tenants.modify c.tenantId
          (TenantState.charge virtualTime c.weight (c.slots totalSlots totalWeight a.remaining))
          fun _ => TenantState.keyed_charge
        allocations := a.allocations ++ [(c.tenantId, c.slots totalSlots totalWeight a.remaining)]
        remaining := a.remaining - c.slots totalSlots totalWeight a.remaining } := by
  have hremaining : a.remaining ≠ 0 := by
    intro hzero
    rw [hzero] at h
    exact h slots_none
  rw [grant, if_neg hremaining]
  exact if_neg h

theorem lookup_grant (h : c.slots totalSlots totalWeight a.remaining ≠ 0) :
    (a.grant virtualTime totalSlots totalWeight c).tenants.lookup tenant =
      if tenant = c.tenantId then
        (a.tenants.lookup tenant).map
          (TenantState.charge virtualTime c.weight (c.slots totalSlots totalWeight a.remaining))
      else a.tenants.lookup tenant := by
  rw [grant_of_slots_ne_zero h, IdMap.lookup_modify]

theorem ids_grant :
    (a.grant virtualTime totalSlots totalWeight c).tenants.values.map (fun state => state.policy.tenantId) =
      a.tenants.values.map fun state => state.policy.tenantId := by
  by_cases h : c.slots totalSlots totalWeight a.remaining = 0
  · rw [grant_of_slots_eq_zero h]
  · rw [grant_of_slots_ne_zero h]
    exact IdMap.ids_congr AList.keys_mapValues

theorem remaining_grant :
    (a.grant virtualTime totalSlots totalWeight c).remaining = a.remaining - c.slots totalSlots totalWeight a.remaining := by
  by_cases h : c.slots totalSlots totalWeight a.remaining = 0
  · rw [grant_of_slots_eq_zero h, h, Nat.sub_zero]
  · rw [grant_of_slots_ne_zero h]

theorem allocations_grant :
    (a.grant virtualTime totalSlots totalWeight c).allocations = a.allocations ++
      if c.slots totalSlots totalWeight a.remaining = 0 then []
      else [(c.tenantId, c.slots totalSlots totalWeight a.remaining)] := by
  by_cases h : c.slots totalSlots totalWeight a.remaining = 0
  · rw [grant_of_slots_eq_zero h, if_pos h, List.append_nil]
  · rw [grant_of_slots_ne_zero h, if_neg h]

theorem grants_grant :
    Grants a (a.grant virtualTime totalSlots totalWeight c) virtualTime c (c.slots totalSlots totalWeight a.remaining) := by
  by_cases h : c.slots totalSlots totalWeight a.remaining = 0
  · rw [grant_of_slots_eq_zero h, h]
    exact grants_zero
  · constructor
    · rw [allocations_grant, if_neg h, grantedTo_append, grantedTo_singleton, if_pos rfl]
    · rw [lookup_grant h, if_pos rfl]
      exact congrArg (Option.map · _) (funext fun state => (if_neg h).symm)

theorem spares_grant (h : tenant ≠ c.tenantId) : Spares a (a.grant virtualTime totalSlots totalWeight c) tenant := by
  by_cases hslots : c.slots totalSlots totalWeight a.remaining = 0
  · rw [grant_of_slots_eq_zero hslots]
    exact .refl
  · constructor
    · rw [allocations_grant, if_neg hslots, grantedTo_append, grantedTo_singleton, if_neg (Ne.symm h), Nat.add_zero]
    · rw [lookup_grant hslots, if_neg h]

end Round

omit [F64 R] in
theorem Spares.trans {d : Allocation R} (h₁ : Spares a b tenant) (h₂ : Spares b d tenant) : Spares a d tenant :=
  ⟨h₂.granted.trans h₁.granted, h₂.tenant.trans h₁.tenant⟩

theorem Grants.before {d : Allocation R} (h₁ : Spares a b c.tenantId) (h₂ : Grants b d virtualTime c n) :
    Grants a d virtualTime c n :=
  ⟨by rw [h₂.granted, h₁.granted], by rw [h₂.tenant, h₁.tenant]⟩

theorem Grants.after {d : Allocation R} (h₁ : Grants a b virtualTime c n) (h₂ : Spares b d c.tenantId) :
    Grants a d virtualTime c n :=
  ⟨by rw [h₂.granted, h₁.granted], by rw [h₂.tenant, h₁.tenant]⟩

theorem spares_foldl (h : tenant ∉ cs.map Candidate.tenantId) :
    Spares a (cs.foldl (grant virtualTime totalSlots totalWeight) a) tenant := by
  induction cs generalizing a with
  | nil => exact .refl
  | cons c cs ih =>
    rw [List.map_cons, List.mem_cons, not_or] at h
    exact (spares_grant h.1).trans (ih h.2)

theorem ids_foldl :
    (cs.foldl (grant virtualTime totalSlots totalWeight) a).tenants.values.map (fun state => state.policy.tenantId) =
      a.tenants.values.map fun state => state.policy.tenantId := by
  induction cs generalizing a with
  | nil => rfl
  | cons c cs ih => exact ih.trans ids_grant

/-- Each candidate is granted slots once. `I` may say what is known of the candidates still to come and of the
    slots that remain for them. -/
theorem grants_foldl {I : List (Candidate R) → Nat → Prop}
    (hI : ∀ {c cs remaining}, I (c :: cs) remaining → I cs (remaining - c.slots totalSlots totalWeight remaining))
    (hids : (cs.map Candidate.tenantId).Nodup) (h : I cs a.remaining) (hc : c ∈ cs) :
    ∃ rest remaining, I (c :: rest) remaining ∧
      Grants a (cs.foldl (grant virtualTime totalSlots totalWeight) a) virtualTime c
        (c.slots totalSlots totalWeight remaining) := by
  induction cs generalizing a with
  | nil => cases hc
  | cons d cs ih =>
    obtain ⟨hnot, hids⟩ := List.nodup_cons.mp hids
    rcases List.mem_cons.mp hc with rfl | hc
    · exact ⟨cs, a.remaining, h, grants_grant.after (spares_foldl hnot)⟩
    · have hne : c.tenantId ≠ d.tenantId := fun heq => hnot (heq ▸ List.mem_map_of_mem hc)
      have hnext : I cs (a.grant virtualTime totalSlots totalWeight d).remaining := by
        rw [remaining_grant]
        exact hI h
      obtain ⟨rest, remaining, hrest, hgrants⟩ := ih hids hnext hc
      exact ⟨rest, remaining, hrest, hgrants.before (spares_grant hne)⟩

section Ample

/-- The tokens of every candidate and the remaining slots suffice for the shares by weight. -/
structure Ample (totalSlots totalWeight : Nat) (cs : List (Candidate R)) (remaining : Nat) : Prop where
  tokens : ∀ c ∈ cs, c.rawSlots totalSlots totalWeight ≤ c.tokenCap
  slots : (cs.map fun c => c.rawSlots totalSlots totalWeight).sum ≤ remaining

theorem Ample.slots_eq {remaining : Nat} (h : Ample totalSlots totalWeight (c :: cs) remaining) :
    c.slots totalSlots totalWeight remaining = c.rawSlots totalSlots totalWeight := by
  have hsum := h.slots
  rw [List.map_cons, List.sum_cons] at hsum
  rw [Candidate.slots, Nat.min_eq_left (h.tokens c List.mem_cons_self)]
  exact Nat.min_eq_left (Nat.le_of_add_right_le hsum)

theorem Ample.tail {remaining : Nat} (h : Ample totalSlots totalWeight (c :: cs) remaining) :
    Ample totalSlots totalWeight cs (remaining - c.slots totalSlots totalWeight remaining) := by
  refine ⟨fun d hd => h.tokens d (List.mem_cons_of_mem _ hd), ?_⟩
  have hsum := h.slots
  rw [List.map_cons, List.sum_cons] at hsum
  rw [h.slots_eq]
  omega

theorem remaining_foldl (h : Ample totalSlots totalWeight cs a.remaining) :
    (cs.foldl (grant virtualTime totalSlots totalWeight) a).remaining =
      a.remaining - (cs.map fun c => c.rawSlots totalSlots totalWeight).sum := by
  induction cs generalizing a with
  | nil => rfl
  | cons c cs ih =>
    have htail : Ample totalSlots totalWeight cs (a.grant virtualTime totalSlots totalWeight c).remaining := by
      rw [remaining_grant]
      exact h.tail
    rw [List.foldl_cons, ih htail, remaining_grant, h.slots_eq, List.map_cons, List.sum_cons, Nat.sub_sub]

/-- The tenants that are listed are those with a share. -/
theorem allocations_foldl (h : Ample totalSlots totalWeight cs a.remaining) :
    (cs.foldl (grant virtualTime totalSlots totalWeight) a).allocations.map Prod.fst =
      a.allocations.map Prod.fst ++
        (cs.filter fun c => decide (c.rawSlots totalSlots totalWeight ≠ 0)).map Candidate.tenantId := by
  induction cs generalizing a with
  | nil => exact (List.append_nil _).symm
  | cons c cs ih =>
    have htail : Ample totalSlots totalWeight cs (a.grant virtualTime totalSlots totalWeight c).remaining := by
      rw [remaining_grant]
      exact h.tail
    rw [List.foldl_cons, ih htail, allocations_grant, h.slots_eq, List.map_append, List.append_assoc]
    by_cases hraw : c.rawSlots totalSlots totalWeight = 0
    · rw [if_pos hraw, List.filter_cons_of_neg (by simpa using hraw)]
      rfl
    · rw [if_neg hraw, List.filter_cons_of_pos (by simpa using hraw)]
      rfl

end Ample

section Demands

theorem remaining_foldl_eq :
    (cs.foldl (grant virtualTime totalSlots totalWeight) a).remaining =
      a.remaining - (cs.map fun c => c.demand totalSlots totalWeight).sum := by
  induction cs generalizing a with
  | nil => rfl
  | cons c cs ih =>
    have hslots : c.slots totalSlots totalWeight a.remaining = min (c.demand totalSlots totalWeight) a.remaining := rfl
    rw [List.foldl_cons, ih, remaining_grant, List.map_cons, List.sum_cons, hslots]
    omega

/-- No slot is lost in the first loop. -/
theorem slots_foldl :
    ((cs.foldl (grant virtualTime totalSlots totalWeight) a).allocations.map Prod.snd).sum +
        (cs.foldl (grant virtualTime totalSlots totalWeight) a).remaining =
      (a.allocations.map Prod.snd).sum + a.remaining := by
  induction cs generalizing a with
  | nil => rfl
  | cons c cs ih =>
    have hle : c.slots totalSlots totalWeight a.remaining ≤ a.remaining := Nat.min_le_right _ _
    rw [List.foldl_cons, ih, remaining_grant, allocations_grant, List.map_append, List.sum_append]
    split
    · rename_i hzero
      rw [hzero]
      rfl
    · rw [List.map_singleton, List.sum_singleton]
      omega

/-- The tenants are listed in the order of the candidates. -/
theorem listed_foldl :
    ((cs.foldl (grant virtualTime totalSlots totalWeight) a).allocations.map Prod.fst).Sublist
      (a.allocations.map Prod.fst ++ cs.map Candidate.tenantId) := by
  induction cs generalizing a with
  | nil => exact List.sublist_append_left _ _
  | cons c cs ih =>
    refine ih.trans ?_
    rw [allocations_grant, List.map_append, List.map_cons, List.append_assoc]
    refine List.Sublist.append_left ?_ _
    split
    · exact List.sublist_cons_self _ _
    · exact List.Sublist.refl _

/-- Only tenants with slots are listed. -/
theorem listed_pos (h : ∀ e ∈ a.allocations, e.2 ≠ 0) :
    ∀ e ∈ (cs.foldl (grant virtualTime totalSlots totalWeight) a).allocations, e.2 ≠ 0 := by
  induction cs generalizing a with
  | nil => exact h
  | cons c cs ih =>
    refine ih ?_
    rw [allocations_grant]
    intro e he
    rcases List.mem_append.mp he with he | he
    · exact h e he
    · split at he
      · cases he
      · rename_i hslots
        rw [List.mem_singleton.mp he]
        exact hslots

end Demands

/-- The tenant that the leftover step gives slots to. -/
def leftoverTo (a : Allocation R) : Option String :=
  if 0 < a.remaining then a.allocations.head?.map Prod.fst else none

omit [F64 R] in
theorem leftoverTo_eq_some :
    a.leftoverTo = some tenant ↔ 0 < a.remaining ∧ ∃ slots rest, a.allocations = (tenant, slots) :: rest := by
  unfold leftoverTo
  split
  · rename_i hpos
    constructor
    · intro h
      obtain ⟨⟨t, slots⟩, hhead, rfl⟩ := Option.map_eq_some_iff.mp h
      obtain ⟨rest, hrest⟩ := List.head?_eq_some_iff.mp hhead
      exact ⟨hpos, slots, rest, hrest⟩
    · rintro ⟨-, slots, rest, heq⟩
      rw [heq]
      rfl
  · rename_i hnot
    constructor
    · intro h
      cases h
    · rintro ⟨hpos, -⟩
      exact absurd hpos hnot

omit [F64 R] in
/-- The leftover step changes the inflight count of one tenant. -/
theorem lookup_giveLeftover :
    a.giveLeftover.tenants.lookup tenant =
      if a.leftoverTo = some tenant then (a.tenants.lookup tenant).map (TenantState.addInflight a.remaining)
      else a.tenants.lookup tenant := by
  unfold giveLeftover leftoverTo
  split
  · split
    · rename_i hallocations
      rw [hallocations]
      exact (if_neg (by simp)).symm
    · rename_i t slots rest hallocations
      rw [IdMap.lookup_modify, hallocations, List.head?_cons, Option.map_some]
      by_cases h : tenant = t
      · rw [if_pos h, if_pos (congrArg some h.symm)]
      · rw [if_neg h, if_neg fun heq => h (Option.some.inj heq).symm]
  · exact (if_neg (by simp)).symm

omit [F64 R] in
theorem ids_giveLeftover :
    a.giveLeftover.tenants.values.map (fun state => state.policy.tenantId) =
      a.tenants.values.map fun state => state.policy.tenantId := by
  unfold giveLeftover
  split
  · split
    · rfl
    · exact IdMap.ids_congr AList.keys_mapValues
  · rfl

omit [F64 R] in
theorem granted_giveLeftover :
    grantedTo tenant a.giveLeftover.allocations =
      grantedTo tenant a.allocations + if a.leftoverTo = some tenant then a.remaining else 0 := by
  unfold giveLeftover leftoverTo
  split
  · split
    · rename_i hallocations
      rw [hallocations]
      rfl
    · rename_i t slots rest hallocations
      rw [hallocations, List.head?_cons, Option.map_some, grantedTo_cons, grantedTo_cons]
      by_cases h : t = tenant
      · rw [if_pos h, if_pos h, if_pos (congrArg some h)]
        omega
      · rw [if_neg h, if_neg h, if_neg fun heq => h (Option.some.inj heq)]
        rfl
  · rfl

end Allocation

namespace WFQScheduler
variable {s : WFQScheduler R} {state : TenantState R} {tenant : String} {totalSlots now : Nat} {c : Candidate R}

theorem candidates_perm :
    (s.candidates now).Perm ((s.tenants.values.filter TenantState.eligible).map fun state => (state.refill now).candidate) :=
  List.perm_insertionSort _ _

theorem mem_candidates :
    c ∈ s.candidates now ↔ ∃ state ∈ s.tenants.values, state.eligible = true ∧ (state.refill now).candidate = c := by
  rw [candidates_perm.mem_iff, List.mem_map]
  constructor
  · rintro ⟨state, hmem, hc⟩
    obtain ⟨hvalue, heligible⟩ := List.mem_filter.mp hmem
    exact ⟨state, hvalue, heligible, hc⟩
  · rintro ⟨state, hvalue, heligible, hc⟩
    exact ⟨state, List.mem_filter.mpr ⟨hvalue, heligible⟩, hc⟩

theorem candidates_ids_nodup : ((s.candidates now).map Candidate.tenantId).Nodup := by
  rw [(candidates_perm.map Candidate.tenantId).nodup_iff, List.map_map]
  exact (List.filter_sublist.map _).nodup s.tenants.values_ids_nodup

theorem candidate_id (h : s.tenants.lookup tenant = some state) : (state.refill now).candidate.tenantId = tenant :=
  (s.tenants.keyed h : state.policy.tenantId = tenant)

/-- The candidate of an eligible tenant. -/
theorem mem_candidates_of_lookup (h : s.tenants.lookup tenant = some state) (heligible : state.eligible = true) :
    (state.refill now).candidate ∈ s.candidates now := by
  refine mem_candidates.mpr ⟨state, ?_, heligible, rfl⟩
  rw [IdMap.mem_values, s.tenants.keyed h]
  exact h

/-- Only an eligible tenant has a candidate. -/
theorem not_mem_candidates (h : s.tenants.lookup tenant = some state) (heligible : state.eligible = false) :
    tenant ∉ (s.candidates now).map Candidate.tenantId := by
  intro hmem
  obtain ⟨c, hc, hid⟩ := List.mem_map.mp hmem
  obtain ⟨other, hother, helig, rfl⟩ := mem_candidates.mp hc
  have hlookup := IdMap.mem_values.mp hother
  have htenant : other.policy.tenantId = tenant := hid
  rw [htenant, h] at hlookup
  cases hlookup
  rw [heligible] at helig
  cases helig

theorem lookup_refillEligible (h : s.tenants.lookup tenant = some state) :
    (s.refillEligible now).lookup tenant = some (if state.eligible then state.refill now else state) := by
  rw [refillEligible, IdMap.lookup_mapValues, h]
  rfl

/-- The tenant that `schedule` gives its leftover slots to. -/
def leftoverTo (s : WFQScheduler R) (totalSlots now : Nat) : Option String :=
  if totalSlots = 0 ∨ s.totalWeight = 0 then none else (s.allocate totalSlots now).leftoverTo

end WFQScheduler

/-- A call of `schedule` passes the tenant over, or refills it and has it pay for the `n` slots that it is granted
    within its tokens. -/
inductive TenantState.Pays (state state' : TenantState R) (now n : Nat) : Prop where
  | passed (policy : state'.policy = state.policy) (tokens : state'.tokens = state.tokens)
      (lastRefill : state'.lastRefill = state.lastRefill) (slots : n = 0)
  | served (policy : state'.policy = state.policy) (lastRefill : state'.lastRefill = now)
      (tokens : state'.tokens = if n = 0 then (state.refill now).tokens else (state.refill now).tokens - F64.ofNat n)
      (slots : n ≤ F64.toUnsigned u64Size (state.refill now).tokens)

theorem TenantState.Pays.addInflight {state state' : TenantState R} {now n slots : Nat} (h : Pays state state' now n) :
    Pays state (state'.addInflight slots) now n := by
  rcases h with ⟨hpolicy, htokens, hrefill, hn⟩ | ⟨hpolicy, hrefill, htokens, hn⟩
  · exact .passed hpolicy htokens hrefill hn
  · exact .served hpolicy hrefill htokens hn

namespace WFQScheduler
variable {s : WFQScheduler R} {state : TenantState R} {tenant : String} {totalSlots now : Nat}

theorem allocate_spares (h : s.tenants.lookup tenant = some state) (heligible : state.eligible = false) :
    Allocation.Spares ⟨s.refillEligible now, [], totalSlots⟩ (s.allocate totalSlots now) tenant :=
  Allocation.spares_foldl (not_mem_candidates h heligible)

theorem allocate_grants {c : Candidate R} {I : List (Candidate R) → Nat → Prop}
    (hI : ∀ {c cs remaining}, I (c :: cs) remaining → I cs (remaining - c.slots totalSlots s.totalWeight remaining))
    (h : I (s.candidates now) totalSlots) (hc : c ∈ s.candidates now) :
    ∃ rest remaining, I (c :: rest) remaining ∧
      Allocation.Grants ⟨s.refillEligible now, [], totalSlots⟩ (s.allocate totalSlots now) (F64.ofNat s.virtualTime) c
        (c.slots totalSlots s.totalWeight remaining) :=
  Allocation.grants_foldl hI candidates_ids_nodup h hc

/-- The first loop passes over a tenant that is not eligible. -/
theorem allocate_passes (h : s.tenants.lookup tenant = some state) (heligible : state.eligible = false)
    (totalSlots now : Nat) :
    grantedTo tenant (s.allocate totalSlots now).allocations = 0 ∧
      (s.allocate totalSlots now).tenants.lookup tenant = some state := by
  obtain ⟨hgranted, htenant⟩ :
      Allocation.Spares ⟨s.refillEligible now, [], totalSlots⟩ (s.allocate totalSlots now) tenant :=
    allocate_spares h heligible
  refine ⟨hgranted, ?_⟩
  rw [htenant, lookup_refillEligible h, if_neg (by rw [heligible]; exact Bool.false_ne_true)]

/-- An eligible tenant is refilled, and charged for what it is granted in its round. -/
theorem allocate_serves (h : s.tenants.lookup tenant = some state) (heligible : state.eligible = true)
    (totalSlots now : Nat) :
    ∃ remaining n, n = (state.refill now).candidate.slots totalSlots s.totalWeight remaining ∧
      grantedTo tenant (s.allocate totalSlots now).allocations = n ∧
        (s.allocate totalSlots now).tenants.lookup tenant =
          some (if n = 0 then state.refill now
            else (state.refill now).charge (F64.ofNat s.virtualTime) (state.refill now).candidate.weight n) := by
  have hc : (state.refill now).candidate ∈ s.candidates now := mem_candidates_of_lookup h heligible
  obtain ⟨-, remaining, -, hgranted, htenant⟩ :=
    allocate_grants (s := s) (I := fun _ _ => True) (fun _ => trivial) (trivial : (fun _ _ => True) _ totalSlots) hc
  rw [candidate_id h, grantedTo_nil, Nat.zero_add] at hgranted
  rw [candidate_id h, lookup_refillEligible h, if_pos heligible] at htenant
  exact ⟨remaining, _, rfl, hgranted, htenant⟩

theorem allocate_pays (h : s.tenants.lookup tenant = some state) (totalSlots now : Nat) :
    ∃ state', (s.allocate totalSlots now).tenants.lookup tenant = some state' ∧
      state.Pays state' now (grantedTo tenant (s.allocate totalSlots now).allocations) := by
  cases heligible : state.eligible with
  | false =>
    obtain ⟨hgranted, htenant⟩ := allocate_passes h heligible totalSlots now
    exact ⟨state, htenant, .passed rfl rfl rfl hgranted⟩
  | true =>
    obtain ⟨remaining, n, hn, hgranted, htenant⟩ := allocate_serves h heligible totalSlots now
    refine ⟨_, htenant, ?_⟩
    rw [hgranted]
    refine .served ?_ ?_ ?_ ?_
    · split
      · rfl
      · rfl
    · split
      · rfl
      · rfl
    · split
      · rfl
      · rfl
    · rw [hn]
      exact (Nat.min_le_left _ _).trans (Nat.min_le_right _ _)

/-- A call of `schedule` on one tenant. -/
theorem schedule_pays (h : s.tenants.lookup tenant = some state) (totalSlots now : Nat) :
    ∃ state' n, (s.schedule totalSlots now).1.tenants.lookup tenant = some state' ∧ state.Pays state' now n ∧
      grantedTo tenant (s.schedule totalSlots now).2 =
        n + if s.leftoverTo totalSlots now = some tenant then (s.allocate totalSlots now).remaining else 0 := by
  unfold schedule leftoverTo
  by_cases hslots : totalSlots = 0
  · rw [if_pos hslots, if_pos (Or.inl hslots)]
    exact ⟨state, 0, h, .passed rfl rfl rfl rfl, rfl⟩
  rw [if_neg hslots]
  by_cases hweight : s.totalWeight = 0
  · rw [if_pos hweight, if_pos (Or.inr hweight)]
    exact ⟨state, 0, h, .passed rfl rfl rfl rfl, rfl⟩
  rw [if_neg hweight, if_neg (not_or.mpr ⟨hslots, hweight⟩)]
  obtain ⟨state', hstate', hpays⟩ := allocate_pays h totalSlots now
  have hlookup : (s.allocate totalSlots now).giveLeftover.tenants.lookup tenant = _ := Allocation.lookup_giveLeftover
  rw [hstate'] at hlookup
  split at hlookup
  · exact ⟨_, _, hlookup, hpays.addInflight, Allocation.granted_giveLeftover⟩
  · exact ⟨state', _, hlookup, hpays, Allocation.granted_giveLeftover⟩

omit [F64 R] in
theorem lookup_release {t : String} {n : Nat} :
    (s.release t n).tenants.lookup tenant =
      if tenant = t then (s.tenants.lookup tenant).map fun state => { state with inflight := state.inflight - n }
      else s.tenants.lookup tenant := by
  rw [release, IdMap.lookup_modify]

omit [F64 R] in
theorem lookup_setPaused {t : String} {paused : Bool} :
    ((s.setPaused t paused).getD s).tenants.lookup tenant =
      if tenant = t then (s.tenants.lookup tenant).map fun state => { state with paused := paused }
      else s.tenants.lookup tenant := by
  unfold setPaused
  split
  · rw [Option.getD_some, IdMap.lookup_modify]
  · rename_i hnone
    split
    · rename_i ht
      rw [ht, hnone]
      exact hnone
    · rfl

/-- The ids of the tenants, in the order in which an iteration goes over them. -/
def ids (s : WFQScheduler R) : List String := s.tenants.values.map fun state => state.policy.tenantId

theorem ids_schedule : (s.schedule totalSlots now).1.ids = s.ids := by
  unfold schedule
  split
  · rfl
  · split
    · rfl
    · exact Allocation.ids_giveLeftover.trans (Allocation.ids_foldl.trans (IdMap.ids_congr AList.keys_mapValues))

omit [F64 R] in
theorem ids_release {t : String} {n : Nat} : (s.release t n).ids = s.ids := IdMap.ids_congr AList.keys_mapValues

omit [F64 R] in
theorem lookup_eq_none : s.tenants.lookup tenant = none ↔ tenant ∉ s.ids := IdMap.lookup_eq_none

omit [F64 R] in
theorem exists_lookup (h : tenant ∈ s.ids) : ∃ state, s.tenants.lookup tenant = some state :=
  Option.ne_none_iff_exists'.mp fun hnone => lookup_eq_none.mp hnone h

theorem policy_schedule : (s.schedule totalSlots now).1.policy tenant = s.policy tenant := by
  unfold policy
  cases h : s.tenants.lookup tenant with
  | none =>
    have hnone : (s.schedule totalSlots now).1.tenants.lookup tenant = none := by
      rw [lookup_eq_none, ids_schedule, ← lookup_eq_none]
      exact h
    rw [hnone]
  | some state =>
    obtain ⟨state', n, hstate', hpays, -⟩ := schedule_pays h totalSlots now
    rw [hstate']
    rcases hpays with ⟨hpolicy, -, -, -⟩ | ⟨hpolicy, -, -, -⟩
    · exact congrArg some hpolicy
    · exact congrArg some hpolicy

omit [F64 R] in
theorem policy_release {t : String} {n : Nat} : (s.release t n).policy tenant = s.policy tenant := by
  rw [policy, policy, lookup_release]
  split
  · rw [Option.map_map]
    rfl
  · rfl

end WFQScheduler

/-! ## What a tenant is due -/

namespace Allocation
variable {a : Allocation R} {cs : List (Candidate R)} {virtualTime : R} {totalSlots totalWeight : Nat}

theorem allocations_extend :
    ∃ more, (cs.foldl (grant virtualTime totalSlots totalWeight) a).allocations = a.allocations ++ more := by
  induction cs generalizing a with
  | nil => exact ⟨[], (List.append_nil _).symm⟩
  | cons c cs ih =>
    obtain ⟨more, hmore⟩ := ih (a := a.grant virtualTime totalSlots totalWeight c)
    rw [allocations_grant, List.append_assoc] at hmore
    exact ⟨_, hmore⟩

/-- The first tenant in the list is the first that asks for anything. -/
theorem head_foldl (hempty : a.allocations = []) (hremaining : a.remaining ≠ 0) :
    (cs.foldl (grant virtualTime totalSlots totalWeight) a).allocations.head?.map Prod.fst =
      (cs.find? fun c => decide (c.demand totalSlots totalWeight ≠ 0)).map Candidate.tenantId := by
  induction cs generalizing a with
  | nil => rw [List.foldl_nil, hempty]; rfl
  | cons c cs ih =>
    have hslots : c.slots totalSlots totalWeight a.remaining = min (c.demand totalSlots totalWeight) a.remaining := rfl
    by_cases hdemand : c.demand totalSlots totalWeight = 0
    · have hnone : c.slots totalSlots totalWeight a.remaining = 0 := by rw [hslots, hdemand, Nat.zero_min]
      rw [List.foldl_cons, grant_of_slots_eq_zero hnone, ih hempty hremaining,
        List.find?_cons_of_neg (by simpa using hdemand)]
    · have hsome : c.slots totalSlots totalWeight a.remaining ≠ 0 := by omega
      obtain ⟨more, hmore⟩ : ∃ more, (cs.foldl (grant virtualTime totalSlots totalWeight)
          (a.grant virtualTime totalSlots totalWeight c)).allocations = _ ++ more := allocations_extend
      rw [List.foldl_cons, hmore, allocations_grant, if_neg hsome, hempty, List.find?_cons_of_pos (by simpa using hdemand)]
      rfl

end Allocation

namespace WFQScheduler
variable {s : WFQScheduler R} {state : TenantState R} {tenant : String} {totalSlots now : Nat}

/-- What the candidates before the tenant's own ask for. -/
def askedAhead (s : WFQScheduler R) (totalSlots now : Nat) (tenant : String) : Nat :=
  (((s.candidates now).takeWhile fun c => decide (c.tenantId ≠ tenant)).map fun c =>
    c.demand totalSlots s.totalWeight).sum

/-- What all candidates ask for. -/
def askedInAll (s : WFQScheduler R) (totalSlots now : Nat) : Nat :=
  ((s.candidates now).map fun c => c.demand totalSlots s.totalWeight).sum

/-- What is due to an eligible tenant: what it asks for, as far as the slots last, and what nobody asks for if it
    is the first that asks for anything. -/
def due (s : WFQScheduler R) (totalSlots now : Nat) (state : TenantState R) : Nat :=
  let own := (state.refill now).candidate.demand totalSlots s.totalWeight
  let ahead := s.askedAhead totalSlots now state.policy.tenantId
  if s.totalWeight = 0 then 0
  else min own (totalSlots - ahead) + if own ≠ 0 ∧ ahead = 0 then totalSlots - s.askedInAll totalSlots now else 0

theorem remaining_allocate : (s.allocate totalSlots now).remaining = totalSlots - s.askedInAll totalSlots now :=
  Allocation.remaining_foldl_eq

/-- Wherever the candidates are split at the one of a tenant, the same is asked for ahead of it. -/
theorem askedAhead_eq {before after : List (Candidate R)} (h : s.tenants.lookup tenant = some state)
    (hsplit : s.candidates now = before ++ (state.refill now).candidate :: after) :
    s.askedAhead totalSlots now tenant = (before.map fun c => c.demand totalSlots s.totalWeight).sum := by
  have hnodup : ((s.candidates now).map Candidate.tenantId).Nodup := candidates_ids_nodup
  rw [hsplit, List.map_append, List.map_cons, candidate_id h] at hnodup
  have hbefore : ∀ c ∈ before, decide (c.tenantId ≠ tenant) = true := by
    intro c hc
    exact decide_eq_true ((List.nodup_append.mp hnodup).2.2 _ (List.mem_map_of_mem hc) tenant List.mem_cons_self)
  rw [askedAhead, hsplit, List.takeWhile_append_of_pos hbefore, List.takeWhile_cons_of_neg (by simp [candidate_id h]),
    List.append_nil]

/-- The first loop gives a tenant what it asks for, as far as the slots last. -/
theorem grantedTo_allocate (h : s.tenants.lookup tenant = some state) (heligible : state.eligible = true) :
    grantedTo tenant (s.allocate totalSlots now).allocations =
      min ((state.refill now).candidate.demand totalSlots s.totalWeight) (totalSlots - s.askedAhead totalSlots now tenant) := by
  -- What remains for a candidate is what those before it have not asked for.
  let I (cs : List (Candidate R)) (remaining : Nat) : Prop := ∃ before, s.candidates now = before ++ cs ∧
    remaining = totalSlots - (before.map fun c => c.demand totalSlots s.totalWeight).sum
  have hI : ∀ {c cs remaining}, I (c :: cs) remaining → I cs (remaining - c.slots totalSlots s.totalWeight remaining) := by
    rintro c cs remaining ⟨before, heq, rfl⟩
    refine ⟨before ++ [c], by rw [heq, List.append_assoc]; rfl, ?_⟩
    have hslots : ∀ n, c.slots totalSlots s.totalWeight n = min (c.demand totalSlots s.totalWeight) n := fun _ => rfl
    rw [hslots, List.map_append, List.sum_append, List.map_singleton, List.sum_singleton]
    omega
  have hc : (state.refill now).candidate ∈ s.candidates now := mem_candidates_of_lookup h heligible
  obtain ⟨after, remaining, ⟨before, hsplit, rfl⟩, hgranted, -⟩ := allocate_grants hI ⟨[], rfl, rfl⟩ hc
  rw [candidate_id h, grantedTo_nil, Nat.zero_add] at hgranted
  rw [hgranted, askedAhead_eq h hsplit]
  rfl

/-- The leftover step gives to the first tenant that asks for anything. -/
theorem leftoverTo_allocate (h : s.tenants.lookup tenant = some state) (heligible : state.eligible = true)
    (hslots : totalSlots ≠ 0) :
    (s.allocate totalSlots now).leftoverTo = some tenant ↔ 0 < totalSlots - s.askedInAll totalSlots now ∧
      (state.refill now).candidate.demand totalSlots s.totalWeight ≠ 0 ∧ s.askedAhead totalSlots now tenant = 0 := by
  have hhead : (s.allocate totalSlots now).allocations.head?.map Prod.fst = _ := Allocation.head_foldl rfl hslots
  rw [Allocation.leftoverTo, remaining_allocate, hhead]
  by_cases hpos : 0 < totalSlots - s.askedInAll totalSlots now
  · rw [if_pos hpos, Option.map_eq_some_iff, and_iff_right hpos]
    constructor
    · rintro ⟨d, hfind, hid⟩
      obtain ⟨hdemand, before, after, hsplit, hbefore⟩ := List.find?_eq_some_iff_append.mp hfind
      -- The first that asks for anything is this tenant, so those ahead of it ask for nothing.
      have hd : d = (state.refill now).candidate := by
        refine List.inj_on_of_nodup_map candidates_ids_nodup (List.mem_of_find?_eq_some hfind)
          (mem_candidates_of_lookup h heligible) ?_
        rw [hid, candidate_id h]
      rw [hd] at hdemand hsplit
      refine ⟨of_decide_eq_true hdemand, ?_⟩
      rw [askedAhead_eq h hsplit, List.sum_eq_zero_iff_forall_eq_nat]
      intro n hn
      obtain ⟨c, hc, rfl⟩ := List.mem_map.mp hn
      simpa using hbefore c hc
    · rintro ⟨hdemand, hahead⟩
      have hc : (state.refill now).candidate ∈ s.candidates now := mem_candidates_of_lookup h heligible
      obtain ⟨before, after, hsplit⟩ := List.append_of_mem hc
      rw [askedAhead_eq h hsplit, List.sum_eq_zero_iff_forall_eq_nat] at hahead
      refine ⟨_, List.find?_eq_some_iff_append.mpr ⟨decide_eq_true hdemand, before, after, hsplit, ?_⟩, candidate_id h⟩
      intro c hc
      simpa using hahead _ (List.mem_map_of_mem hc)
  · rw [if_neg hpos]
    constructor
    · intro hnone
      cases hnone
    · rintro ⟨hlt, -⟩
      exact absurd hlt hpos

theorem not_leftoverTo (h : s.tenants.lookup tenant = some state) (heligible : state.eligible = false)
    (hslots : totalSlots ≠ 0) : (s.allocate totalSlots now).leftoverTo ≠ some tenant := by
  intro heq
  have hhead : (s.allocate totalSlots now).allocations.head?.map Prod.fst = _ := Allocation.head_foldl rfl hslots
  rw [Allocation.leftoverTo, hhead] at heq
  split at heq
  · obtain ⟨c, hfind, hid⟩ := Option.map_eq_some_iff.mp heq
    exact not_mem_candidates h heligible (List.mem_map.mpr ⟨c, List.mem_of_find?_eq_some hfind, hid⟩)
  · cases heq

end WFQScheduler

/-! ## Along a run -/

namespace SchedulerRun
variable {s s' : SchedulerRun R} {call : SchedulerCall} {tenant : String}

/-- No call changes a policy. -/
theorem policy_next (h : s.next call = some s') : s'.scheduler.policy tenant = s.scheduler.policy tenant := by
  cases call with
  | schedule totalSlots =>
    cases h
    exact WFQScheduler.policy_schedule
  | release t n =>
    cases h
    exact WFQScheduler.policy_release
  | setPaused t paused =>
    cases h
    cases hset : s.scheduler.setPaused t paused with
    | none => rfl
    | some scheduler => exact WFQScheduler.policy_setPaused hset tenant
  | wait nanos =>
    cases h
    rfl

end SchedulerRun

end RocksQueue
