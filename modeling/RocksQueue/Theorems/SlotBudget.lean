import Mathlib.Algebra.BigOperators.Ring.List
import Mathlib.Algebra.Order.BigOperators.Group.List
import RocksQueue.Lib.Shares
import RocksQueue.Theorems.Allocations
import RocksQueue.Workers

/-! # The budget of the workers

`allocate_slots` sets aside the guarantees of the new and the dormant tenants and shares the rest out by score. The
guarantees are given in full even where they exceed the total, and what the rounding leaves over finds no tenant
when no share was made. -/

namespace RocksQueue

variable {R : Type} [F64 R] [F64Sqrt R]

section Lists
variable {tenant id : String} {n budget : Nat} {l : List (String × Nat)}

omit [F64 R] [F64Sqrt R]

theorem addSlots_ids : (addSlots id n l).map Prod.fst = l.map Prod.fst := by
  induction l with
  | nil => rfl
  | cons a l ih =>
    obtain ⟨t, slots⟩ := a
    rw [addSlots]
    split
    · rfl
    · rw [List.map_cons, List.map_cons, ih]

theorem sum_addSlots (h : id ∈ l.map Prod.fst) : ((addSlots id n l).map Prod.snd).sum = (l.map Prod.snd).sum + n := by
  induction l with
  | nil => cases h
  | cons a l ih =>
    obtain ⟨t, slots⟩ := a
    rw [addSlots]
    split
    · rw [List.map_cons, List.map_cons, List.sum_cons, List.sum_cons]
      omega
    · rename_i hne
      have hrest : id ∈ l.map Prod.fst := (List.mem_cons.mp h).resolve_left (Ne.symm hne)
      rw [List.map_cons, List.map_cons, List.sum_cons, List.sum_cons, ih hrest, Nat.add_assoc]

theorem grantedTo_addSlots (h : id ∈ l.map Prod.fst) :
    grantedTo tenant (addSlots id n l) = grantedTo tenant l + if tenant = id then n else 0 := by
  induction l with
  | nil => cases h
  | cons a l ih =>
    obtain ⟨t, slots⟩ := a
    rw [addSlots]
    split
    · rename_i heq
      rw [grantedTo_cons, grantedTo_cons, heq]
      by_cases htenant : tenant = id
      · rw [if_pos htenant.symm, if_pos htenant.symm, if_pos htenant]
        omega
      · rw [if_neg (Ne.symm htenant), if_neg (Ne.symm htenant), if_neg htenant]
        rfl
    · rename_i hne
      have hrest : id ∈ l.map Prod.fst := (List.mem_cons.mp h).resolve_left (Ne.symm hne)
      rw [grantedTo_cons, grantedTo_cons, ih hrest, Nat.add_assoc]

theorem foldl_sub : l.foldl (fun left a => left - a.2) budget = budget - (l.map Prod.snd).sum := by
  induction l generalizing budget with
  | nil => rfl
  | cons a l ih =>
    rw [List.foldl_cons, ih, List.map_cons, List.sum_cons]
    omega

theorem sum_filter_pos : ((l.filter fun a => decide (0 < a.2)).map Prod.snd).sum = (l.map Prod.snd).sum := by
  induction l with
  | nil => rfl
  | cons a l ih =>
    by_cases hpos : 0 < a.2
    · rw [List.filter_cons_of_pos (by simpa using hpos), List.map_cons, List.map_cons, List.sum_cons, List.sum_cons, ih]
    · rw [List.filter_cons_of_neg (by simpa using hpos), ih, List.map_cons, List.sum_cons]
      omega

theorem grantedTo_filter_pos : grantedTo tenant (l.filter fun a => decide (0 < a.2)) = grantedTo tenant l := by
  induction l with
  | nil => rfl
  | cons a l ih =>
    obtain ⟨t, slots⟩ := a
    by_cases hpos : 0 < slots
    · rw [List.filter_cons_of_pos (by simpa using hpos), grantedTo_cons, grantedTo_cons, ih]
    · rw [List.filter_cons_of_neg (by simpa using hpos), ih, grantedTo_cons, Nat.eq_zero_of_not_pos hpos, ite_self,
        Nat.zero_add]

theorem grantedTo_of_not_mem (h : tenant ∉ l.map Prod.fst) : grantedTo tenant l = 0 := by
  induction l with
  | nil => rfl
  | cons a l ih =>
    obtain ⟨t, slots⟩ := a
    rw [List.map_cons, List.mem_cons, not_or] at h
    rw [grantedTo_cons, if_neg (Ne.symm h.1), ih h.2]

/-- A list made of one entry for each tenant gives the tenant its own entry. -/
theorem grantedTo_map {α : Type} {idOf : α → String} {slots : α → Nat} {l : List α} {x : α} (hnodup : (l.map idOf).Nodup)
    (hx : x ∈ l) : grantedTo (idOf x) (l.map fun y => (idOf y, slots y)) = slots x := by
  induction l with
  | nil => cases hx
  | cons y l ih =>
    rw [List.map_cons, List.nodup_cons] at hnodup
    rw [List.map_cons, grantedTo_cons]
    rcases List.mem_cons.mp hx with rfl | hx
    · rw [if_pos rfl, grantedTo_of_not_mem (by rw [List.map_map]; exact hnodup.1), Nat.add_zero]
    · have hne : idOf y ≠ idOf x := fun heq => hnodup.1 (heq ▸ List.mem_map_of_mem hx)
      rw [if_neg hne, Nat.zero_add, ih hnodup.2 hx]

end Lists

/-! ## The shares by score -/

/-- What the scores of the normal tenants add up to. -/
def totalScore (normal : List (TenantStats R)) : R := (normal.map TenantStats.score).foldl (fun a b => a + b) (0.0 : R)

/-- The shares by score, rounded down; none when the scores do not add up to anything. -/
def scoreShares (normal : List (TenantStats R)) (budget : Nat) : List (String × Nat) :=
  if (0.0 : R) < totalScore normal then
    normal.map fun s => (s.tenantId, F64.toUnsigned u64Size (F64.ofNat budget * (s.score / totalScore normal) : R))
  else []

/-- The tenants with their scores, the largest backlog first. -/
def byBacklog (normal : List (TenantStats R)) : List (TenantStats R × R) :=
  (normal.map fun s => (s, s.score)).insertionSort fun a b => ¬a.1.backlogRatio < b.1.backlogRatio

section Shares
variable {normal : List (TenantStats R)} {budget : Nat} {top : TenantStats R × R} {rest : List (TenantStats R × R)}

theorem scoreShares_eq :
    (if (0.0 : R) < totalScore normal then
        (normal.map fun s => (s, s.score)).map fun s =>
          (s.1.tenantId, F64.toUnsigned u64Size (F64.ofNat budget * (s.2 / totalScore normal) : R))
      else []) = scoreShares normal budget := by
  rw [List.map_map]
  rfl

theorem normalShares_eq :
    normalShares normal budget =
      if 0 < budget - ((scoreShares normal budget).map Prod.snd).sum then
        ((byBacklog normal).head?.elim (scoreShares normal budget) fun first =>
          addSlots first.1.tenantId (budget - ((scoreShares normal budget).map Prod.snd).sum) (scoreShares normal budget))
      else scoreShares normal budget := by
  have htotal : ((normal.map fun s => (s, s.score)).map Prod.snd).foldl (fun a b => a + b) (0.0 : R) =
      totalScore normal := by
    rw [List.map_map]
    rfl
  rw [normalShares, htotal, scoreShares_eq, foldl_sub]
  refine if_congr Iff.rfl ?_ rfl
  unfold byBacklog
  cases (normal.map fun s => (s, s.score)).insertionSort fun a b => ¬a.1.backlogRatio < b.1.backlogRatio with
  | nil => rfl
  | cons first rest => rfl

theorem mem_of_head_byBacklog {first : TenantStats R × R} (h : (byBacklog normal).head? = some first) :
    first.1 ∈ normal ∧ first.2 = first.1.score := by
  have hmem := (List.mem_insertionSort _).mp (List.mem_of_mem_head? h)
  obtain ⟨s, hs, rfl⟩ := List.mem_map.mp hmem
  exact ⟨hs, rfl⟩

theorem exists_head_byBacklog (h : normal ≠ []) : ∃ first, (byBacklog normal).head? = some first := by
  refine Option.isSome_iff_exists.mp (List.isSome_head?.mpr ?_)
  intro hnil
  have hlength := (List.perm_insertionSort (fun a b : TenantStats R × R => ¬a.1.backlogRatio < b.1.backlogRatio)
    (normal.map fun s => (s, s.score))).length_eq
  rw [← byBacklog, hnil, List.length_map] at hlength
  exact h (List.eq_nil_of_length_eq_zero hlength.symm)

theorem scoreShares_ids (h : scoreShares normal budget ≠ []) :
    (scoreShares normal budget).map Prod.fst = normal.map TenantStats.tenantId := by
  rw [scoreShares] at h ⊢
  split at h
  · rename_i hpos
    rw [if_pos hpos, List.map_map]
    rfl
  · exact absurd rfl h

/-- Once shares are made, the leftover step gives out the rest of the budget. -/
theorem sum_normalShares :
    ((normalShares normal budget).map Prod.snd).sum =
      if scoreShares normal budget = [] then 0 else max budget ((scoreShares normal budget).map Prod.snd).sum := by
  rw [normalShares_eq]
  by_cases hnil : scoreShares normal budget = []
  · rw [if_pos hnil, hnil]
    split
    · cases (byBacklog normal).head? with
      | none => rfl
      | some first => rfl
    · rfl
  · rw [if_neg hnil]
    split
    · have hnormal : normal ≠ [] := by
        rintro rfl
        have hids := scoreShares_ids hnil
        exact hnil (List.map_eq_nil_iff.mp hids)
      obtain ⟨first, hfirst⟩ := exists_head_byBacklog hnormal
      have hlisted : first.1.tenantId ∈ (scoreShares normal budget).map Prod.fst := by
        rw [scoreShares_ids hnil]
        exact List.mem_map_of_mem (mem_of_head_byBacklog hfirst).1
      rw [hfirst, Option.elim_some, sum_addSlots hlisted]
      omega
    · omega

end Shares

/-! ## Exact shares -/

section Exact
variable [F64Sqrt Rat] {normal : List (TenantStats Rat)} {budget : Nat}

omit [F64Sqrt Rat] in
theorem zero_literal : (0.0 : Rat) = 0 := by norm_num

theorem totalScore_eq : totalScore normal = (normal.map TenantStats.score).sum := by
  rw [List.sum_eq_foldl, totalScore, zero_literal]

/-- The share of a score in the budget. -/
def scoreShare (normal : List (TenantStats Rat)) (budget : Nat) (s : TenantStats Rat) : Rat :=
  budget * (s.score / (normal.map TenantStats.score).sum)

theorem scoreShare_nonneg (hnonneg : ∀ s ∈ normal, 0 ≤ s.score) {s : TenantStats Rat} (hs : s ∈ normal) :
    0 ≤ scoreShare normal budget s := by
  have htotal : 0 ≤ (normal.map TenantStats.score).sum := by
    refine List.sum_nonneg fun q hq => ?_
    obtain ⟨s, hs, rfl⟩ := List.mem_map.mp hq
    exact hnonneg s hs
  exact mul_nonneg (Nat.cast_nonneg _) (div_nonneg (hnonneg s hs) htotal)

theorem sum_scoreShare (hpos : 0 < (normal.map TenantStats.score).sum) :
    (normal.map (scoreShare normal budget)).sum = budget := by
  have hfactor : ∀ s, scoreShare normal budget s = budget / (normal.map TenantStats.score).sum * s.score := by
    intro s
    rw [scoreShare, mul_div_assoc', div_mul_eq_mul_div]
  rw [List.map_congr_left fun s _ => hfactor s, List.sum_map_mul_left, div_mul_cancel₀ _ hpos.ne']

/-- The rounded shares stay within the budget. -/
theorem sum_floor_scoreShare_le (hnonneg : ∀ s ∈ normal, 0 ≤ s.score) (hpos : 0 < (normal.map TenantStats.score).sum) :
    (normal.map fun s => ⌊scoreShare normal budget s⌋₊).sum ≤ budget := by
  have hfloor := Shares.sum_floor_le (l := normal.map (scoreShare normal budget)) ?_
  · rw [sum_scoreShare hpos, List.map_map] at hfloor
    exact_mod_cast hfloor
  · intro q hq
    obtain ⟨s, hs, rfl⟩ := List.mem_map.mp hq
    exact scoreShare_nonneg hnonneg hs

theorem scoreShares_of_pos (hnonneg : ∀ s ∈ normal, 0 ≤ s.score) (hpos : 0 < (normal.map TenantStats.score).sum)
    (hbudget : budget < u64Size) :
    scoreShares normal budget = normal.map fun s => (s.tenantId, ⌊scoreShare normal budget s⌋₊) := by
  rw [scoreShares, totalScore_eq, zero_literal]
  refine (if_pos hpos).trans (List.map_congr_left fun s hs => ?_)
  have hle : ⌊scoreShare normal budget s⌋₊ ≤ budget :=
    (List.le_sum_of_mem (List.mem_map_of_mem hs)).trans (sum_floor_scoreShare_le hnonneg hpos)
  have hsmall : ⌊scoreShare normal budget s⌋₊ ≤ u64Size - 1 := by omega
  exact Prod.ext rfl (Nat.min_eq_left hsmall)

/-- The shares stay within the budget, also where the casts saturate. -/
theorem sum_scoreShares_le (hnonneg : ∀ s ∈ normal, 0 ≤ s.score) :
    ((scoreShares normal budget).map Prod.snd).sum ≤ budget := by
  rw [scoreShares, totalScore_eq, zero_literal]
  by_cases hpos : 0 < (normal.map TenantStats.score).sum
  · rw [if_pos hpos, List.map_map]
    refine (List.sum_le_sum fun s hs => ?_).trans (sum_floor_scoreShare_le hnonneg hpos)
    exact Nat.min_le_left _ _
  · rw [if_neg hpos]
    exact Nat.zero_le _

theorem scoreShares_of_not_pos (hpos : ¬0 < (normal.map TenantStats.score).sum) : scoreShares normal budget = [] := by
  rw [scoreShares, totalScore_eq, zero_literal]
  exact if_neg hpos

end Exact

/-! ## All slots together -/

namespace StatsCollector
variable {c : StatsCollector R} {totalSlots instant : Nat}

def guaranteedTenants (c : StatsCollector R) (instant : Nat) : List (TenantStats R) :=
  c.allSnapshots.filter fun s => s.guaranteed instant

def normalTenants (c : StatsCollector R) (instant : Nat) : List (TenantStats R) :=
  c.allSnapshots.filter fun s => !s.guaranteed instant

/-- What the guarantees take. -/
def guarantees (c : StatsCollector R) (instant : Nat) : Nat := minGuaranteeSlots * (c.guaranteedTenants instant).length

theorem allocateSlots_eq (h : totalSlots ≠ 0) :
    c.allocateSlots totalSlots instant =
      (normalShares (c.normalTenants instant) (totalSlots - min (c.guarantees instant) totalSlots) ++
        (c.guaranteedTenants instant).map fun s => (s.tenantId, minGuaranteeSlots)).filter fun a => decide (0 < a.2) := by
  rw [allocateSlots, if_neg h]
  rfl

theorem sum_allocateSlots (h : totalSlots ≠ 0) :
    ((c.allocateSlots totalSlots instant).map Prod.snd).sum =
      ((normalShares (c.normalTenants instant) (totalSlots - min (c.guarantees instant) totalSlots)).map Prod.snd).sum +
        c.guarantees instant := by
  have hguaranteed : (((c.guaranteedTenants instant).map fun s => (s.tenantId, minGuaranteeSlots)).map Prod.snd).sum =
      c.guarantees instant := by
    rw [List.map_map, guarantees, Nat.mul_comm, ← List.sum_replicate_nat, ← List.map_const']
    rfl
  rw [allocateSlots_eq h, sum_filter_pos, List.map_append, List.sum_append, hguaranteed]

/-- The slots given out are no more than there are. -/
def WithinBudget (c : StatsCollector R) (totalSlots instant : Nat) : Prop :=
  ((c.allocateSlots totalSlots instant).map Prod.snd).sum ≤ totalSlots

theorem withinBudget_iff_shares (c : StatsCollector R) (totalSlots instant : Nat) :
    c.WithinBudget totalSlots instant ↔ totalSlots = 0 ∨
      c.guarantees instant + ((scoreShares (c.normalTenants instant) (totalSlots - c.guarantees instant)).map Prod.snd).sum ≤
        totalSlots := by
  by_cases hslots : totalSlots = 0
  · rw [WithinBudget, allocateSlots, if_pos hslots]
    exact ⟨fun _ => Or.inl hslots, fun _ => Nat.zero_le _⟩
  · rw [WithinBudget, sum_allocateSlots hslots, or_iff_right hslots, sum_normalShares]
    by_cases hfits : c.guarantees instant ≤ totalSlots
    · rw [Nat.min_eq_left hfits]
      split
      · rename_i hnil
        rw [hnil, List.map_nil, List.sum_nil]
        omega
      · omega
    · constructor
      · intro h
        omega
      · intro h
        omega

/-- The slots stay within the total exactly when the guarantees and the shares by score fit into it; in exact arithmetic
    with no negative score the shares always fit into what the guarantees leave. -/
theorem withinBudget_iff :
    (∀ (c : StatsCollector R) (totalSlots instant : Nat), c.WithinBudget totalSlots instant ↔ totalSlots = 0 ∨
      c.guarantees instant + ((scoreShares (c.normalTenants instant) (totalSlots - c.guarantees instant)).map Prod.snd).sum ≤
        totalSlots) ∧
    ∀ [F64Sqrt Rat] (c : StatsCollector Rat) (totalSlots instant : Nat), (∀ s ∈ c.normalTenants instant, 0 ≤ s.score) →
      (c.WithinBudget totalSlots instant ↔ totalSlots = 0 ∨ c.guarantees instant ≤ totalSlots) := by
  refine ⟨withinBudget_iff_shares, ?_⟩
  intro _ c totalSlots instant hnonneg
  rw [withinBudget_iff_shares]
  have hshares : ((scoreShares (c.normalTenants instant) (totalSlots - c.guarantees instant)).map Prod.snd).sum ≤
      totalSlots - c.guarantees instant := sum_scoreShares_le hnonneg
  refine or_congr_right ⟨fun h => ?_, fun h => ?_⟩
  · omega
  · omega

/-! ## Nothing is left idle -/

section Ids
variable {s : TenantStats R}

omit [F64Sqrt R] in
/-- The two groups share no tenant. -/
theorem groups_ids_nodup (c : StatsCollector R) (instant : Nat) :
    ((c.normalTenants instant).map TenantStats.tenantId ++ (c.guaranteedTenants instant).map TenantStats.tenantId).Nodup := by
  rw [← List.map_append]
  refine (List.Perm.nodup_iff ?_).mpr c.allSnapshots_ids_nodup
  exact (List.perm_append_comm.trans (List.filter_append_perm _ _)).map _

theorem normalShares_ids {normal : List (TenantStats R)} {budget : Nat} :
    ((normalShares normal budget).map Prod.fst).Sublist (normal.map TenantStats.tenantId) := by
  have hids : (normalShares normal budget).map Prod.fst = (scoreShares normal budget).map Prod.fst := by
    rw [normalShares_eq]
    split
    · cases (byBacklog normal).head? with
      | none => rfl
      | some first => exact addSlots_ids
    · rfl
  rw [hids]
  by_cases hnil : scoreShares normal budget = []
  · rw [hnil]
    exact List.nil_sublist _
  · rw [scoreShares_ids hnil]

theorem allocateSlots_ids_nodup : ((c.allocateSlots totalSlots instant).map Prod.fst).Nodup := by
  by_cases hslots : totalSlots = 0
  · rw [allocateSlots, if_pos hslots]
    exact List.nodup_nil
  · rw [allocateSlots_eq hslots]
    refine (List.filter_sublist.map _).nodup ?_
    rw [List.map_append, List.map_map]
    exact (normalShares_ids.append_right _).nodup (c.groups_ids_nodup instant)

theorem grantedTo_guaranteed (hslots : totalSlots ≠ 0) (hs : s ∈ c.guaranteedTenants instant) :
    grantedTo s.tenantId (c.allocateSlots totalSlots instant) = minGuaranteeSlots := by
  obtain ⟨-, hguaranteed, hdisjoint⟩ := List.nodup_append.mp (c.groups_ids_nodup instant)
  rw [allocateSlots_eq hslots, grantedTo_filter_pos, grantedTo_append, grantedTo_map hguaranteed hs,
    grantedTo_of_not_mem, Nat.zero_add]
  intro hmem
  exact hdisjoint _ (normalShares_ids.subset hmem) _ (List.mem_map_of_mem hs) rfl

theorem grantedTo_normal (hslots : totalSlots ≠ 0) (hs : s ∈ c.normalTenants instant) :
    grantedTo s.tenantId (c.allocateSlots totalSlots instant) =
      grantedTo s.tenantId (normalShares (c.normalTenants instant) (totalSlots - min (c.guarantees instant) totalSlots)) := by
  obtain ⟨-, -, hdisjoint⟩ := List.nodup_append.mp (c.groups_ids_nodup instant)
  rw [allocateSlots_eq hslots, grantedTo_filter_pos, grantedTo_append]
  refine Nat.add_eq_left.mpr (grantedTo_of_not_mem ?_)
  rw [List.map_map]
  intro hmem
  exact hdisjoint _ (List.mem_map_of_mem hs) _ hmem rfl

end Ids

section Exact
variable [F64Sqrt Rat] {c : StatsCollector Rat} {totalSlots instant : Nat}

/-- What the rounding of the shares leaves over. -/
def roundedOff (normal : List (TenantStats Rat)) (budget : Nat) : Nat :=
  budget - (normal.map fun s => ⌊scoreShare normal budget s⌋₊).sum

/-- All the slots are given out, to each tenant once: the guarantees in full, and to each normal tenant its rounded share
    of the rest, with what the rounding leaves over for one with the largest backlog. -/
structure ConservesWork (c : StatsCollector Rat) (totalSlots instant : Nat) : Prop where
  total : ((c.allocateSlots totalSlots instant).map Prod.snd).sum = totalSlots
  once : ((c.allocateSlots totalSlots instant).map Prod.fst).Nodup
  guaranteed : ∀ s ∈ c.guaranteedTenants instant,
    grantedTo s.tenantId (c.allocateSlots totalSlots instant) = minGuaranteeSlots
  shares : ∃ top ∈ c.normalTenants instant, (∀ s ∈ c.normalTenants instant, s.backlogRatio ≤ top.backlogRatio) ∧
    ∀ s ∈ c.normalTenants instant, grantedTo s.tenantId (c.allocateSlots totalSlots instant) =
      ⌊scoreShare (c.normalTenants instant) (totalSlots - c.guarantees instant) s⌋₊ +
        if s.tenantId = top.tenantId then roundedOff (c.normalTenants instant) (totalSlots - c.guarantees instant) else 0

theorem sum_score_pos_iff {normal : List (TenantStats Rat)} (hnonneg : ∀ s ∈ normal, 0 ≤ s.score) :
    0 < (normal.map TenantStats.score).sum ↔ ∃ s ∈ normal, 0 < s.score := by
  constructor
  · intro hpos
    by_contra hnone
    refine hpos.ne' (List.sum_eq_zero fun q hq => ?_)
    obtain ⟨s, hs, rfl⟩ := List.mem_map.mp hq
    exact le_antisymm (not_lt.mp fun hlt => hnone ⟨s, hs, hlt⟩) (hnonneg s hs)
  · rintro ⟨s, hs, hpos⟩
    refine hpos.trans_le (List.single_le_sum ?_ _ (List.mem_map_of_mem hs))
    intro q hq
    obtain ⟨t, ht, rfl⟩ := List.mem_map.mp hq
    exact hnonneg t ht

/-- With a score to share by, the shares are the rounded ones, and the first by backlog gets what is left over. -/
theorem grantedTo_normalShares {normal : List (TenantStats Rat)} {budget : Nat} {first : TenantStats Rat × Rat}
    {s : TenantStats Rat} (hnonneg : ∀ s ∈ normal, 0 ≤ s.score) (hpos : 0 < (normal.map TenantStats.score).sum)
    (hbudget : budget < u64Size) (hnodup : (normal.map TenantStats.tenantId).Nodup)
    (hfirst : (byBacklog normal).head? = some first) (hs : s ∈ normal) :
    grantedTo s.tenantId (normalShares normal budget) =
      ⌊scoreShare normal budget s⌋₊ + if s.tenantId = first.1.tenantId then roundedOff normal budget else 0 := by
  have hshares := scoreShares_of_pos hnonneg hpos hbudget
  have hsum : ((scoreShares normal budget).map Prod.snd).sum =
      (normal.map fun s => ⌊scoreShare normal budget s⌋₊).sum := by
    rw [hshares, List.map_map]
    rfl
  have hown : grantedTo s.tenantId (scoreShares normal budget) = ⌊scoreShare normal budget s⌋₊ := by
    rw [hshares]
    exact grantedTo_map hnodup hs
  rw [normalShares_eq, hfirst, Option.elim_some, hsum, ← roundedOff]
  split
  · have hlisted : first.1.tenantId ∈ (scoreShares normal budget).map Prod.fst := by
      rw [hshares, List.map_map]
      exact List.mem_map_of_mem (mem_of_head_byBacklog hfirst).1
    rw [grantedTo_addSlots hlisted, hown]
  · rename_i hnone
    rw [hown, Nat.eq_zero_of_not_pos hnone, ite_self, Nat.add_zero]

theorem scoreShare_zero {normal : List (TenantStats Rat)} {s : TenantStats Rat} : ⌊scoreShare normal 0 s⌋₊ = 0 := by
  rw [scoreShare, Nat.cast_zero, zero_mul, Nat.floor_zero]

theorem roundedOff_zero {normal : List (TenantStats Rat)} : roundedOff normal 0 = 0 := Nat.zero_sub _

/-- Nothing to share out, and no score to share it by: nobody gets anything. -/
theorem grantedTo_normalShares_zero {normal : List (TenantStats Rat)} {s : TenantStats Rat} {top : String}
    (hpos : ¬0 < (normal.map TenantStats.score).sum) :
    grantedTo s.tenantId (normalShares normal 0) =
      ⌊scoreShare normal 0 s⌋₊ + if s.tenantId = top then roundedOff normal 0 else 0 := by
  rw [normalShares_eq, scoreShares_of_not_pos hpos, scoreShare_zero, roundedOff_zero, Nat.zero_sub, ite_self]
  rfl

section Work
variable {normal : List (TenantStats Rat)} {budget : Nat}

/-- All of a budget is shared out when there is a score to share it by. -/
theorem sum_normalShares_of_work (hnonneg : ∀ s ∈ normal, 0 ≤ s.score) (hnormal : normal ≠ []) (hbudget : budget < u64Size)
    (hwork : budget = 0 ∨ 0 < (normal.map TenantStats.score).sum) :
    ((normalShares normal budget).map Prod.snd).sum = budget := by
  rw [sum_normalShares]
  by_cases hpos : 0 < (normal.map TenantStats.score).sum
  · have hlisted : scoreShares normal budget ≠ [] := by
      rw [scoreShares_of_pos hnonneg hpos hbudget]
      exact fun hnil => hnormal (List.map_eq_nil_iff.mp hnil)
    rw [if_neg hlisted, Nat.max_eq_left (sum_scoreShares_le hnonneg)]
  · rw [if_pos (scoreShares_of_not_pos hpos)]
    exact (hwork.resolve_right hpos).symm

theorem grantedTo_normalShares_of_work {first : TenantStats Rat × Rat} {s : TenantStats Rat}
    (hnonneg : ∀ s ∈ normal, 0 ≤ s.score) (hnodup : (normal.map TenantStats.tenantId).Nodup) (hbudget : budget < u64Size)
    (hwork : budget = 0 ∨ 0 < (normal.map TenantStats.score).sum) (hfirst : (byBacklog normal).head? = some first)
    (hs : s ∈ normal) :
    grantedTo s.tenantId (normalShares normal budget) =
      ⌊scoreShare normal budget s⌋₊ + if s.tenantId = first.1.tenantId then roundedOff normal budget else 0 := by
  by_cases hpos : 0 < (normal.map TenantStats.score).sum
  · exact grantedTo_normalShares hnonneg hpos hbudget hnodup hfirst hs
  · rw [hwork.resolve_right hpos]
    exact grantedTo_normalShares_zero hpos

theorem le_head_byBacklog {first : TenantStats Rat × Rat} (hfirst : (byBacklog normal).head? = some first) :
    ∀ s ∈ normal, s.backlogRatio ≤ first.1.backlogRatio := by
  intro s hs
  exact List.le_head_insertionSort (fun a : TenantStats Rat × Rat => a.1.backlogRatio) hfirst (s, s.score)
    (List.mem_map_of_mem hs)

end Work

/-- Without slots there is nothing to be given out, and nobody may have a guarantee. -/
theorem conservesWork_zero (hfits : c.guarantees instant ≤ 0) {top : TenantStats Rat} (htop : top ∈ c.normalTenants instant)
    (hmost : ∀ s ∈ c.normalTenants instant, s.backlogRatio ≤ top.backlogRatio) : c.ConservesWork 0 instant := by
  have hnone : c.allocateSlots 0 instant = [] := if_pos rfl
  have hguaranteed : c.guaranteedTenants instant = [] := by
    have hzero : minGuaranteeSlots * (c.guaranteedTenants instant).length = 0 := Nat.le_zero.mp hfits
    exact List.eq_nil_of_length_eq_zero ((Nat.mul_eq_zero.mp hzero).resolve_left (by decide))
  refine ⟨by rw [hnone]; rfl, allocateSlots_ids_nodup, ?_, top, htop, hmost, ?_⟩
  · rw [hguaranteed]
    exact List.forall_mem_nil _
  · intro s hs
    rw [hnone, Nat.zero_sub, scoreShare_zero, roundedOff_zero, ite_self]
    rfl

/-- With the guarantees within the total, no slot stays idle exactly when nothing is left to share out, or some normal
    tenant has a score to share it by. -/
theorem conservesWork_iff (htotal : totalSlots < 2 ^ 64) (hfits : c.guarantees instant ≤ totalSlots)
    (hnormal : c.normalTenants instant ≠ []) (hnonneg : ∀ s ∈ c.normalTenants instant, 0 ≤ s.score) :
    c.ConservesWork totalSlots instant ↔
      c.guarantees instant = totalSlots ∨ ∃ s ∈ c.normalTenants instant, 0 < s.score := by
  rw [← sum_score_pos_iff hnonneg]
  have hmin : min (c.guarantees instant) totalSlots = c.guarantees instant := Nat.min_eq_left hfits
  constructor
  · intro h
    by_contra hneither
    obtain ⟨hne, hpos⟩ := not_or.mp hneither
    have hslots : totalSlots ≠ 0 := by omega
    -- With no score to share by, the normal tenants get nothing.
    have hsum := h.total
    rw [sum_allocateSlots hslots, sum_normalShares, if_pos (scoreShares_of_not_pos hpos), Nat.zero_add] at hsum
    exact hne hsum
  · intro h
    obtain ⟨first, hfirst⟩ := exists_head_byBacklog hnormal
    have htop := (mem_of_head_byBacklog hfirst).1
    have hmost := le_head_byBacklog hfirst
    by_cases hslots : totalSlots = 0
    · subst hslots
      exact conservesWork_zero hfits htop hmost
    have hbudget : totalSlots - c.guarantees instant < u64Size := (Nat.sub_le _ _).trans_lt htotal
    have hnodup : ((c.normalTenants instant).map TenantStats.tenantId).Nodup :=
      (List.nodup_append.mp (c.groups_ids_nodup instant)).1
    -- The rest goes by the scores, and what rounding leaves to the largest backlog.
    have hwork : totalSlots - c.guarantees instant = 0 ∨ 0 < ((c.normalTenants instant).map TenantStats.score).sum :=
      h.imp_left fun heq => by rw [heq, Nat.sub_self]
    refine ⟨?_, allocateSlots_ids_nodup, fun s hs => grantedTo_guaranteed hslots hs, first.1, htop, hmost, ?_⟩
    · rw [sum_allocateSlots hslots, hmin, sum_normalShares_of_work hnonneg hnormal hbudget hwork]
      exact Nat.sub_add_cancel hfits
    · intro s hs
      rw [grantedTo_normal hslots hs, hmin]
      exact grantedTo_normalShares_of_work hnonneg hnodup hbudget hwork hfirst hs

end Exact

/-! ## New tenants and restored ones -/

/-- A tenant that has just been registered. -/
def newcomer : StatsCollector Rat := register .empty "t" 0

/-- A worker with one slot gets five. -/
theorem not_withinBudget : ¬newcomer.WithinBudget 1 0 ∧ newcomer.allocateSlots 1 0 = [("t", 5)] := by
  have hslots : newcomer.allocateSlots 1 0 = [("t", 5)] := by decide +kernel
  refine ⟨?_, hslots⟩
  rw [WithinBudget, hslots]
  decide

def restoredStats (tenantId : String) (arrivalRate backlogRatio : Rat) : PersistedStats Rat :=
  ⟨tenantId, arrivalRate, 0, 0, 0, backlogRatio, 0, 0, 0, 1, 0⟩

/-- Two tenants with restored statistics, and a new one. -/
def twoRestored (rate : Rat) : StatsCollector Rat :=
  (((StatsCollector.register .empty "a" 0).register "b" 0).register "c" 0).warmFromStore
    [restoredStats "a" rate (1 / 2), restoredStats "b" (2 * rate) 0]

/-- The test for what the exact results ask of a collector. -/
def scoresNonneg (c : StatsCollector Rat) (instant : Nat) : Bool :=
  (c.normalTenants instant).all fun s => decide (0 ≤ s.score)

theorem scores_nonneg {c : StatsCollector Rat} {instant : Nat} (h : c.scoresNonneg instant = true) :
    ∀ s ∈ c.normalTenants instant, 0 ≤ s.score := fun s hs => of_decide_eq_true (List.all_eq_true.mp h s hs)

theorem withinBudget_restored : (twoRestored 1).WithinBudget 10 0 :=
  ((withinBudget_iff (R := Rat)).2 (twoRestored 1) 10 0 (scores_nonneg (by decide +kernel))).mpr (Or.inr (by decide +kernel))

/-- Restored arrival rates of 0: nine slots are not given to anybody. -/
theorem not_conservesWork : ¬∀ (c : StatsCollector Rat) (totalSlots instant : Nat), totalSlots < 2 ^ 64 →
    c.guarantees instant ≤ totalSlots → c.normalTenants instant ≠ [] → (∀ s ∈ c.normalTenants instant, 0 ≤ s.score) →
      c.ConservesWork totalSlots instant := by
  intro h
  have hnormal : (twoRestored 0).normalTenants 0 ≠ [] := List.ne_nil_of_length_pos (by decide +kernel)
  have hwork := h (twoRestored 0) 14 0 (by decide) (by decide +kernel) hnormal (scores_nonneg (by decide +kernel))
  have hslots : (twoRestored 0).allocateSlots 14 0 = [("c", 5)] := by decide +kernel
  have htotal := hwork.total
  rw [hslots] at htotal
  exact absurd htotal (by decide)

theorem conservesWork_restored : (twoRestored 1).ConservesWork 10 0 ∧
    (twoRestored 1).allocateSlots 10 0 = [("b", 2), ("a", 3), ("c", 5)] := by
  have hnormal : (twoRestored 1).normalTenants 0 ≠ [] := List.ne_nil_of_length_pos (by decide +kernel)
  have hscore : ((twoRestored 1).normalTenants 0).any fun s => decide (0 < s.score) := by decide +kernel
  obtain ⟨s, hs, hpos⟩ := List.any_eq_true.mp hscore
  refine ⟨?_, by decide +kernel⟩
  exact (conservesWork_iff (by decide) (by decide +kernel) hnormal (scores_nonneg (by decide +kernel))).mpr
    (Or.inr ⟨s, hs, of_decide_eq_true hpos⟩)

end StatsCollector

end RocksQueue
