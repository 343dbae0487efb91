import Mathlib.Algebra.Order.Field.Basic
import Mathlib.Tactic.Linarith
import Mathlib.Tactic.Ring

/-! # Token buckets

A bucket fills at a constant rate up to its burst, and only what it holds is taken from it. It may be filled
lazily, from the tokens that it held at the last filling and the time since then. However the takings are
spread, they come to no more than one burst and what has flowed in since the start (`Covered.spent_le`). -/

namespace TokenBucket

variable {K : Type} [Field K] [LinearOrder K] [IsStrictOrderedRing K] {burst rate tokens elapsed more left left' spent n : K}

/-- What a bucket holds when it held `tokens` before it filled for the time `elapsed`. -/
def level (burst rate tokens elapsed : K) : K := max 0 (min burst (tokens + rate * elapsed))

omit [IsStrictOrderedRing K] in
theorem level_nonneg : 0 ≤ level burst rate tokens elapsed := le_max_left _ _

omit [IsStrictOrderedRing K] in
theorem level_le_burst (hburst : 0 ≤ burst) : level burst rate tokens elapsed ≤ burst :=
  max_le hburst (min_le_left _ _)

theorem level_wait (hrate : 0 ≤ rate) (hmore : 0 ≤ more) :
    level burst rate tokens (elapsed + more) ≤ level burst rate tokens elapsed + rate * more := by
  have hflow : 0 ≤ rate * more := mul_nonneg hrate hmore
  have hfill : min burst (tokens + rate * (elapsed + more)) ≤ min burst (tokens + rate * elapsed) + rate * more := by
    rw [← min_add_add_right, mul_add, ← add_assoc]
    exact min_le_min_right _ (by linarith)
  refine max_le (add_nonneg level_nonneg hflow) (hfill.trans ?_)
  exact add_le_add_left (le_max_right _ _) _

omit [IsStrictOrderedRing K] in
/-- A lazy filling does not change what the bucket holds. -/
theorem level_refill :
    level burst rate (min burst (tokens + rate * elapsed)) 0 = level burst rate tokens elapsed := by
  rw [level, level, mul_zero, add_zero, ← min_assoc, min_self]

theorem level_take (htokens : tokens ≤ burst) (hn : 0 ≤ n) (hle : n ≤ max 0 tokens) :
    level burst rate (tokens - n) 0 + n ≤ level burst rate tokens 0 := by
  rw [level, level, mul_zero, add_zero, add_zero, min_eq_right htokens,
    min_eq_right ((sub_le_self _ hn).trans htokens), ← max_add_add_right, zero_add, sub_add_cancel]
  exact max_le hle (le_max_right _ _)

/-- What has been spent and what is left are covered by one burst and the flow of the elapsed time. -/
def Covered (burst rate left spent elapsed : K) : Prop := spent + left ≤ burst + rate * elapsed

namespace Covered

omit [IsStrictOrderedRing K] in
theorem start (hleft : left ≤ burst) : Covered burst rate left 0 0 := by
  rw [Covered, zero_add, mul_zero, add_zero]
  exact hleft

theorem wait (h : Covered burst rate left spent elapsed) (hleft : left' ≤ left + rate * more) :
    Covered burst rate left' spent (elapsed + more) := by
  unfold Covered at h ⊢
  rw [mul_add]
  linarith

theorem take (h : Covered burst rate left spent elapsed) (hleft : left' + n ≤ left) :
    Covered burst rate left' (spent + n) elapsed := by
  unfold Covered at h ⊢
  linarith

theorem spent_le (h : Covered burst rate left spent elapsed) (hleft : 0 ≤ left) : spent ≤ burst + rate * elapsed := by
  unfold Covered at h
  linarith

end Covered

end TokenBucket
