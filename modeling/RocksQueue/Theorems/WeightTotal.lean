import Mathlib.Algebra.Order.BigOperators.Group.List
import RocksQueue.Retention
import RocksQueue.Theorems.SlotBooks

/-! # The total of the weights

`schedule` adds up the weights of the eligible tenants in 32 bits, and divides the slots by what comes out. While the
sum fits, a tenant with a share of a slot is served or all slots have gone to others; a sum that does not fit wraps
in a release build, where it may come out as 0, and panics in a debug build. -/

namespace RocksQueue

variable {R : Type} [F64 R]

section Sums
variable {size : Nat} {l : List Nat} {acc : Nat}

end Sums

namespace Allocation

end Allocation

namespace WFQScheduler
variable {s : WFQScheduler R} {build : Build} {totalSlots now : Nat}

/-- The counts have grown, since the call began, by no more than the slots that are gone. -/
def Counted (s : WFQScheduler R) (totalSlots : Nat) (a : Allocation R) : Prop :=
  ∀ tenant state, a.tenants.lookup tenant = some state →
    ∃ before, s.tenants.lookup tenant = some before ∧ state.inflight + a.remaining ≤ before.inflight + totalSlots

theorem counted_start (s : WFQScheduler R) (totalSlots now : Nat) :
    s.Counted totalSlots ⟨s.refillEligible now, [], totalSlots⟩ := by
  intro tenant state hstate
  simp only [refillEligible, IdMap.lookup_mapValues] at hstate
  obtain ⟨before, hbefore, rfl⟩ := Option.map_eq_some_iff.mp hstate
  refine ⟨before, hbefore, Nat.add_le_add_right (le_of_eq ?_) _⟩
  split
  · rfl
  · rfl

end WFQScheduler

end RocksQueue
