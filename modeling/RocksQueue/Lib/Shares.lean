import Mathlib.Algebra.BigOperators.Group.Finset.Basic
import Mathlib.Algebra.Order.Archimedean.Basic
import Mathlib.Algebra.Order.BigOperators.Group.Finset
import Mathlib.Algebra.BigOperators.Ring.Finset
import Mathlib.Algebra.Order.Floor.Semifield
import Mathlib.Data.List.Sort
import Mathlib.Data.Rat.Floor
import Mathlib.Tactic.Linarith

/-! # Rounded shares

A total shared out by weight, each share rounded down. The shares never exceed the total, and they use it up
only when none of them was rounded (`sum_share_eq_iff`); the one that gets what is left over then has more
than its due (`due_lt_share_add`). -/

namespace Shares

variable {ι : Type} {s : Finset ι} {w : ι → Nat} {total : Nat} {i : ι}

/-- The share of `i`, rounded down. -/
def share (s : Finset ι) (w : ι → Nat) (total : Nat) (i : ι) : Nat := total * w i / ∑ j ∈ s, w j

theorem sum_share_add_rem (s : Finset ι) (w : ι → Nat) (total : Nat) :
    (∑ j ∈ s, w j) * ∑ i ∈ s, share s w total i + ∑ i ∈ s, total * w i % ∑ j ∈ s, w j = total * ∑ j ∈ s, w j := by
  rw [Finset.mul_sum, ← Finset.sum_add_distrib, Finset.mul_sum]
  exact Finset.sum_congr rfl fun i _ => Nat.div_add_mod (total * w i) _

theorem sum_share_le (hpos : 0 < ∑ j ∈ s, w j) : ∑ i ∈ s, share s w total i ≤ total := by
  refine Nat.le_of_mul_le_mul_left ?_ hpos
  calc (∑ j ∈ s, w j) * ∑ i ∈ s, share s w total i
      ≤ (∑ j ∈ s, w j) * ∑ i ∈ s, share s w total i + ∑ i ∈ s, total * w i % ∑ j ∈ s, w j := Nat.le_add_right _ _
    _ = (∑ j ∈ s, w j) * total := by rw [sum_share_add_rem s w total, Nat.mul_comm]

/-- Nothing is left over exactly when no share is rounded. -/
theorem sum_share_eq_iff (hpos : 0 < ∑ j ∈ s, w j) :
    ∑ i ∈ s, share s w total i = total ↔ ∀ i ∈ s, (∑ j ∈ s, w j) ∣ total * w i := by
  have hsum := sum_share_add_rem s w total
  constructor
  · intro heq i hi
    rw [heq, Nat.mul_comm, Nat.add_eq_left] at hsum
    exact Nat.dvd_of_mod_eq_zero (Finset.sum_eq_zero_iff.mp hsum i hi)
  · intro hall
    have hrem : ∑ i ∈ s, total * w i % ∑ j ∈ s, w j = 0 :=
      Finset.sum_eq_zero fun i hi => Nat.mod_eq_zero_of_dvd (hall i hi)
    rw [hrem, Nat.add_zero, Nat.mul_comm total] at hsum
    exact Nat.eq_of_mul_eq_mul_left hpos hsum

/-- A rounded share for each unit of weight is at most the total for each unit of weight. -/
theorem share_div_le (hpos : 0 < ∑ j ∈ s, w j) (hi : 0 < w i) :
    (share s w total i : Rat) / w i ≤ total / (∑ j ∈ s, w j : Nat) := by
  rw [div_le_div_iff₀ (by exact_mod_cast hi) (by exact_mod_cast hpos)]
  exact_mod_cast Nat.div_mul_le_self _ _

theorem due_lt_share_add {extra : Nat} (hpos : 0 < ∑ j ∈ s, w j) (hi : 0 < w i) (hextra : 0 < extra) :
    (total : Rat) / (∑ j ∈ s, w j : Nat) < (share s w total i + extra : Nat) / w i := by
  rw [div_lt_div_iff₀ (by exact_mod_cast hpos) (by exact_mod_cast hi)]
  have hlt : total * w i < (share s w total i + 1) * ∑ j ∈ s, w j := by
    rw [Nat.mul_comm _ (∑ j ∈ s, w j)]
    exact Nat.lt_mul_div_succ _ hpos
  have hle : (share s w total i + 1) * ∑ j ∈ s, w j ≤ (share s w total i + extra) * ∑ j ∈ s, w j :=
    Nat.mul_le_mul_right _ (Nat.add_le_add_left hextra _)
  exact_mod_cast hlt.trans_le hle

/-- Rounding each of some parts down gives no more than the whole. -/
theorem sum_floor_le {l : List Rat} (h : ∀ q ∈ l, 0 ≤ q) : ((l.map Nat.floor).sum : Rat) ≤ l.sum := by
  induction l with
  | nil => exact le_of_eq Nat.cast_zero
  | cons q l ih =>
    obtain ⟨hq, hl⟩ := List.forall_mem_cons.mp h
    rw [List.map_cons, List.sum_cons, List.sum_cons, Nat.cast_add]
    exact add_le_add (Nat.floor_le hq) (ih hl)

/-! ## Capped parts -/

section Capped
variable {n : Nat} {l : List Nat}

theorem sum_map_min_le (n : Nat) (l : List Nat) : (l.map (min n)).sum ≤ l.sum := by
  induction l with
  | nil => exact le_rfl
  | cons x l ih => exact Nat.add_le_add (Nat.min_le_right n x) ih

theorem countP_pos_le_sum_map_min (hn : 0 < n) (l : List Nat) : l.countP (0 < ·) ≤ (l.map (min n)).sum := by
  induction l with
  | nil => exact le_rfl
  | cons x l ih =>
    rw [List.map_cons, List.sum_cons, List.countP_cons]
    split
    · rename_i hx
      have hpos : 0 < min n x := lt_min hn (of_decide_eq_true hx)
      omega
    · omega

theorem sum_map_min_le_of_countP (h : l.countP (0 < ·) ≤ 1) : (l.map (min n)).sum ≤ n := by
  induction l with
  | nil => exact Nat.zero_le n
  | cons x l ih =>
    rw [List.map_cons, List.sum_cons]
    rw [List.countP_cons] at h
    split at h
    · have hnone : l.countP (0 < ·) = 0 := by omega
      have hzero : l.sum = 0 := List.sum_eq_zero fun y hy => by
        have hnot := List.countP_eq_zero.mp hnone y hy
        simpa using hnot
      have hrest := sum_map_min_le n l
      have hfirst := Nat.min_le_left n x
      omega
    · rename_i hx
      have hzero : x = 0 := by simpa using hx
      have hrest := ih h
      rw [hzero, Nat.min_zero, Nat.zero_add]
      exact hrest

/-- Parts that are capped one by one stay below the cap together exactly if the cap was not needed, or there is only one
    of them. -/
theorem sum_map_min_le_iff (hn : 0 < n) (l : List Nat) :
    (l.map (min n)).sum ≤ n ↔ l.sum ≤ n ∨ l.countP (0 < ·) ≤ 1 := by
  constructor
  · intro h
    by_cases hcapped : ∃ x ∈ l, n < x
    · obtain ⟨x, hx, hlt⟩ := hcapped
      obtain ⟨l₁, l₂, rfl⟩ := List.append_of_mem hx
      have hfirst := countP_pos_le_sum_map_min hn l₁
      have hlast := countP_pos_le_sum_map_min hn l₂
      rw [List.map_append, List.sum_append, List.map_cons, List.sum_cons, Nat.min_eq_left hlt.le] at h
      refine Or.inr ?_
      rw [List.countP_append, List.countP_cons]
      split <;> omega
    · have hsame : l.map (min n) = l := by
        refine (List.map_congr_left fun x hx => ?_).trans (List.map_id l)
        exact Nat.min_eq_right (Nat.le_of_not_lt fun hlt => hcapped ⟨x, hx, hlt⟩)
      rw [hsame] at h
      exact Or.inl h
  · rintro (hsum | hone)
    · exact (sum_map_min_le n l).trans hsum
    · exact sum_map_min_le_of_countP hone

end Capped

end Shares

section Drift

/-- What moves away at a constant rate is not bounded. -/
theorem exists_lt_of_drift {start drift bound : Rat} (hdrift : 0 < drift) : ∃ n : Nat, bound < start + n * drift := by
  obtain ⟨n, hn⟩ := exists_nat_gt ((bound - start) / drift)
  refine ⟨n, ?_⟩
  rw [div_lt_iff₀ hdrift] at hn
  linarith

end Drift

/-- Relations that agree on a list sort it the same way. -/
theorem List.insertionSort_congr {α : Type} {r r' : α → α → Prop} [DecidableRel r] [DecidableRel r'] {l : List α}
    (h : ∀ a ∈ l, ∀ b ∈ l, (r a b ↔ r' a b)) : l.insertionSort r = l.insertionSort r' := by
  have hmap := List.map_insertionSort r r' id l h
  rwa [List.map_id, List.map_id] at hmap

/-- The first of a list that is sorted by a key, the largest first, has the largest key. -/
theorem List.le_head_insertionSort {α β : Type} [LinearOrder β] (key : α → β) {l : List α} {x : α}
    (h : (l.insertionSort fun a b => ¬key a < key b).head? = some x) : ∀ y ∈ l, key y ≤ key x := by
  intro y hy
  have htotal : Std.Total fun a b => ¬key a < key b :=
    ⟨fun a b => (le_total (key b) (key a)).imp not_lt.mpr not_lt.mpr⟩
  have htrans : IsTrans α fun a b => ¬key a < key b :=
    ⟨fun a b c hab hbc => not_lt.mpr ((not_lt.mp hbc).trans (not_lt.mp hab))⟩
  have hsorted := List.pairwise_insertionSort (fun a b => ¬key a < key b) l
  obtain ⟨rest, hrest⟩ := List.head?_eq_some_iff.mp h
  have hmem : y ∈ l.insertionSort fun a b => ¬key a < key b := (List.mem_insertionSort _).mpr hy
  rw [hrest] at hsorted hmem
  rcases List.mem_cons.mp hmem with rfl | hmem
  · exact le_refl _
  · exact not_lt.mp ((List.pairwise_cons.mp hsorted).1 y hmem)
