import Mathlib.Algebra.Order.Floor.Semiring
import Mathlib.Data.Rat.Floor
import Mathlib.Data.NNRat.Floor
import RocksQueue.Task

/-! # Floating-point numbers

The rates and scores are of type `f64` in the source. The model leaves the type open and asks only for the
operations that the code uses: no law relates them, so what is proved holds of rounded numbers, infinities
and NaN as well. Exact arithmetic is the instance on the rationals. -/

namespace RocksQueue

/-- The operations of `f64` that the code uses. -/
class F64 (R : Type) extends Add R, Sub R, Neg R, Mul R, Div R, LT R, OfScientific R where
  decidableLT : DecidableRel fun a b : R => a < b
  /-- `n as f64`. -/
  ofNat : Nat → R
  /-- The cast to an unsigned type of `size` values: it truncates and saturates. -/
  toUnsigned (size : Nat) : R → Nat
  max : R → R → R
  /-- `f64::MAX`. -/
  largest : R
  /-- `2f64.powf`. -/
  exp2 : R → R

instance F64.instDecidableRelLT {R : Type} [F64 R] : DecidableRel fun a b : R => a < b := F64.decidableLT

/-- Exact arithmetic, whatever the powers of two. -/
@[reducible] def F64.exact (exp2 : Rat → Rat) : F64 Rat where
  decidableLT := inferInstance
  ofNat n := n
  toUnsigned size q := min ⌊q⌋₊ (size - 1)
  max := Max.max
  largest := (2 ^ 53 - 1) * 2 ^ 971
  exp2 := exp2

/-- Here the exponents are rounded down to an integer, and the powers are exact where they are one. -/
instance : F64 Rat := .exact fun q => 2 ^ ⌊q⌋

example : F64.toUnsigned u32Size (F64.ofNat 10 * 0.25 : Rat) = 2 := by decide +kernel

end RocksQueue
