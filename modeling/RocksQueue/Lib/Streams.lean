import Mathlib.Algebra.BigOperators.Ring.Finset
import Mathlib.Algebra.Order.Ring.Defs
import Mathlib.Algebra.Order.Field.Rat
import Mathlib.Data.List.DropRight
import Mathlib.Data.List.GetD
import Mathlib.Data.List.MinMax
import Mathlib.Order.Interval.Set.Defs
import Mathlib.Tactic.Linarith
import Mathlib.Tactic.Ring

/-! # What is kept of a stream

Values come in one after the other, and only a summary of them is kept: a weighted average, the largest,
those of a window that moves with the clock, or the last few. Each summary is updated from itself and the new value,
and says about the whole stream what it would say if all of it had been kept. -/

namespace Streams

section Average
variable {K : Type} [CommRing K] [LinearOrder K] [IsStrictOrderedRing K] {a x y lower upper : K}

/-- A weighted average lies where both of its values lie. -/
theorem mix_mem_Icc (ha : a ∈ Set.Icc 0 1) (hx : x ∈ Set.Icc lower upper) (hy : y ∈ Set.Icc lower upper) :
    a * x + (1 - a) * y ∈ Set.Icc lower upper := by
  have hrest : 0 ≤ 1 - a := sub_nonneg.mpr ha.2
  have hsplit : ∀ z : K, a * z + (1 - a) * z = z := by
    intro z
    ring
  constructor
  · calc lower = a * lower + (1 - a) * lower := (hsplit lower).symm
      _ ≤ a * x + (1 - a) * y :=
        add_le_add (mul_le_mul_of_nonneg_left hx.1 ha.1) (mul_le_mul_of_nonneg_left hy.1 hrest)
  · calc a * x + (1 - a) * y ≤ a * upper + (1 - a) * upper :=
        add_le_add (mul_le_mul_of_nonneg_left hx.2 ha.1) (mul_le_mul_of_nonneg_left hy.2 hrest)
      _ = upper := hsplit upper

end Average

section Largest
variable {K : Type} [LinearOrder K] {bottom e : K} {stream : List K}

theorem le_largest (bottom : K) (stream : List K) : bottom ≤ stream.foldr max bottom := by
  induction stream with
  | nil => exact le_rfl
  | cons e rest ih => exact ih.trans (le_max_right _ _)

/-- The largest value does not become smaller when one more comes in. -/
theorem largest_concat (bottom : K) (stream : List K) (e : K) :
    stream.foldr max bottom ≤ (stream ++ [e]).foldr max bottom := by
  induction stream with
  | nil => exact le_largest bottom [e]
  | cons first rest ih => exact max_le_max_left first ih

theorem mem_Icc_largest (h : e ∈ stream) (hbottom : bottom ≤ e) : e ∈ Set.Icc bottom (stream.foldr max bottom) :=
  ⟨hbottom, List.le_max_of_le' bottom h le_rfl⟩

end Largest

section MovingAverage
variable {K : Type} [CommRing K] {a x : K} {stream : List K}

/-- The moving average of a stream, from zero. -/
def average (a : K) (stream : List K) : K := stream.foldl (fun mean x => a * x + (1 - a) * mean) 0

/-- The moving average of the squared distances from the moving average, which is brought up to date first. -/
def spread (a : K) (stream : List K) : K :=
  (stream.foldl
    (fun (acc : K × K) x =>
      let mean := a * x + (1 - a) * acc.1
      (mean, a * ((x - mean) * (x - mean)) + (1 - a) * acc.2))
    (0, 0)).2

theorem average_concat (a : K) (stream : List K) (x : K) :
    average a (stream ++ [x]) = a * x + (1 - a) * average a stream := by
  rw [average, List.foldl_append]
  rfl

theorem spread_concat (a : K) (stream : List K) (x : K) : spread a (stream ++ [x]) =
    a * ((x - average a (stream ++ [x])) * (x - average a (stream ++ [x]))) + (1 - a) * spread a stream := by
  have hmean : ∀ stream : List K, (stream.foldl
      (fun (acc : K × K) x =>
        let mean := a * x + (1 - a) * acc.1
        (mean, a * ((x - mean) * (x - mean)) + (1 - a) * acc.2))
      (0, 0)).1 = average a stream := by
    intro stream
    induction stream using List.reverseRecOn with
    | nil => rfl
    | append_singleton stream x ih =>
      rw [average_concat, ← ih, List.foldl_append]
      rfl
  rw [average_concat, ← hmean, spread, List.foldl_append]
  rfl

/-- A value counts for less with every value after it. -/
theorem average_eq_sum (a : K) (stream : List K) :
    average a stream =
      ∑ i ∈ Finset.range stream.length, a * (1 - a) ^ (stream.length - (i + 1)) * stream.getD i 0 := by
  induction stream using List.reverseRecOn with
  | nil => rfl
  | append_singleton stream x ih =>
    have hlast : (stream ++ [x]).getD stream.length 0 = x := by
      rw [List.getD_append_right _ _ _ _ le_rfl, Nat.sub_self]
      rfl
    have hterm : ∀ i ∈ Finset.range stream.length,
        (1 - a) * (a * (1 - a) ^ (stream.length - (i + 1)) * stream.getD i 0) =
          a * (1 - a) ^ (stream.length + 1 - (i + 1)) * (stream ++ [x]).getD i 0 := by
      intro i hi
      have hlt := Finset.mem_range.mp hi
      have hexponent : stream.length + 1 - (i + 1) = stream.length - (i + 1) + 1 := by omega
      rw [List.getD_append _ _ _ _ hlt, hexponent, pow_succ]
      ring
    rw [average_concat, ih, Finset.mul_sum, Finset.sum_congr rfl hterm, List.length_append, List.length_singleton,
      Finset.sum_range_succ, hlast, Nat.sub_self, pow_zero, mul_one, add_comm]

/-- A constant stream is approached at the rate at which its beginning is forgotten. -/
theorem sub_average_replicate (a x : K) (n : Nat) : x - average a (List.replicate n x) = x * (1 - a) ^ n := by
  induction n with
  | zero => simp [average]
  | succ n ih =>
    rw [List.replicate_succ', average_concat, pow_succ]
    calc x - (a * x + (1 - a) * average a (List.replicate n x)) =
        (1 - a) * (x - average a (List.replicate n x)) := by ring
      _ = x * ((1 - a) ^ n * (1 - a)) := by rw [ih]; ring

theorem spread_replicate (a x : K) (n : Nat) :
    spread a (List.replicate n x) = (1 - a) * (x * x) * (1 - a) ^ n * (1 - (1 - a) ^ n) := by
  induction n with
  | zero => simp [spread]
  | succ n ih =>
    rw [List.replicate_succ', spread_concat, ih, ← List.replicate_succ', sub_average_replicate]
    ring

end MovingAverage

section Bounds
variable {K : Type} [CommRing K] [LinearOrder K] [IsStrictOrderedRing K] {a : K} {stream : List K}

theorem average_mem_Icc (ha : a ∈ Set.Icc 0 1) (h : ∀ x ∈ stream, 0 ≤ x) :
    average a stream ∈ Set.Icc 0 (stream.foldr max 0) := by
  induction stream using List.reverseRecOn with
  | nil => exact ⟨le_rfl, le_rfl⟩
  | append_singleton stream x ih =>
    have hx : x ∈ stream ++ [x] := List.mem_append_right _ (List.mem_singleton_self x)
    have hmean := ih fun y hy => h y (List.mem_append_left _ hy)
    rw [average_concat]
    exact mix_mem_Icc ha (mem_Icc_largest hx (h x hx)) ⟨hmean.1, hmean.2.trans (largest_concat 0 stream x)⟩

theorem spread_nonneg (ha : a ∈ Set.Icc 0 1) (stream : List K) : 0 ≤ spread a stream := by
  induction stream using List.reverseRecOn with
  | nil => exact le_rfl
  | append_singleton stream x ih =>
    rw [spread_concat]
    exact add_nonneg (mul_nonneg ha.1 (mul_self_nonneg _)) (mul_nonneg (sub_nonneg.mpr ha.2) ih)

/-- What a constant stream is off by at most. -/
theorem spread_replicate_le (ha : a ∈ Set.Icc 0 1) (x : K) (n : Nat) :
    spread a (List.replicate n x) ≤ (1 - a) * (x * x) * (1 - a) ^ n := by
  have hrest : 0 ≤ 1 - a := sub_nonneg.mpr ha.2
  have hpow : 0 ≤ (1 - a) ^ n := pow_nonneg hrest n
  have hbound : 0 ≤ (1 - a) * (x * x) * (1 - a) ^ n := mul_nonneg (mul_nonneg hrest (mul_self_nonneg x)) hpow
  rw [spread_replicate]
  exact mul_le_of_le_one_right hbound (sub_le_self 1 hpow)

end Bounds

section Window
variable {α : Type} {p q : α → Bool} {stream : List α} {e : α}

/-- What a window has dropped would not be in a later window either. -/
theorem filter_window (h : ∀ e ∈ stream, q e = true → p e = true) :
    (stream.filter p ++ [e]).filter q = (stream ++ [e]).filter q := by
  rw [List.filter_append, List.filter_append, List.filter_filter]
  congr 1
  refine List.filter_congr fun e he => ?_
  cases hq : q e with
  | false => rfl
  | true => exact h e he hq

end Window

section Last
variable {α : Type} {n : Nat} {stream : List α} {e : α}

theorem length_rtake (n : Nat) (stream : List α) : (stream.rtake n).length = min n stream.length := by
  rw [List.rtake, List.length_drop]
  omega

/-- The last `n` are kept by dropping the first of them when there is one too many. -/
theorem rtake_concat (n : Nat) (stream : List α) (e : α) :
    (if n < (stream.rtake n ++ [e]).length then (stream.rtake n ++ [e]).drop 1 else stream.rtake n ++ [e]) =
      (stream ++ [e]).rtake n := by
  rw [List.length_append, length_rtake, List.length_singleton, ← List.rtake_concat_succ, List.rtake, List.rtake,
    List.length_append, List.length_singleton, List.drop_drop]
  split
  · congr 1
    omega
  · congr 1
    omega

end Last

end Streams
