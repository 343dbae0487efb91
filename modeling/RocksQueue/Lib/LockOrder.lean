import Mathlib.Data.Fintype.Order
import Mathlib.Data.Set.Finite.Basic
import Mathlib.Logic.Relation

/-! # Lock order

Threads hold locks and wait for locks. Where the locks have ranks, and a thread waits only for a lock above
all those that it holds, no threads wait for one another in a circle, and among finitely many there is one
that waits for none of the others. -/

namespace LockOrder

variable {τ ℓ α : Type} [Preorder α] {rank : ℓ → α} {awaits holds : τ → ℓ → Prop} {i j : τ}

/-- Thread `i` waits for a lock that thread `j` holds. -/
def WaitsFor (awaits holds : τ → ℓ → Prop) (i j : τ) : Prop := ∃ l, awaits i l ∧ holds j l

/-- The lock that a thread waits for is above those that it holds. -/
def Ascending (rank : ℓ → α) (awaits holds : τ → ℓ → Prop) : Prop :=
  ∀ {i : τ} {l l' : ℓ}, awaits i l → holds i l' → rank l' < rank l

/-- Along a chain of waiting threads the ranks do not fall. -/
theorem Ascending.rank_le (h : Ascending rank awaits holds) (hchain : Relation.TransGen (WaitsFor awaits holds) i j) :
    ∃ l l', awaits i l ∧ holds j l' ∧ rank l ≤ rank l' := by
  induction hchain with
  | single hwait =>
    obtain ⟨l, hawaits, hholds⟩ := hwait
    exact ⟨l, l, hawaits, hholds, le_refl _⟩
  | tail _ hwait ih =>
    obtain ⟨l, l', hawaits, hholds, hle⟩ := ih
    obtain ⟨l'', hawaits', hholds'⟩ := hwait
    exact ⟨l, l'', hawaits, hholds', hle.trans (h hawaits' hholds).le⟩

theorem Ascending.acyclic (h : Ascending rank awaits holds) (i : τ) : ¬Relation.TransGen (WaitsFor awaits holds) i i := by
  intro hcycle
  obtain ⟨l, l', hawaits, hholds, hle⟩ := h.rank_le hcycle
  exact absurd (h hawaits hholds) hle.not_gt

/-- Of finitely many threads one waits for none of the others. -/
theorem Ascending.exists_free (h : Ascending rank awaits holds) {s : Set τ} (hfinite : s.Finite) (hne : s.Nonempty) :
    ∃ i ∈ s, ∀ j ∈ s, ¬WaitsFor awaits holds i j := by
  let above (i j : s) : Prop := Relation.TransGen (WaitsFor awaits holds) j i
  have hirrefl : Std.Irrefl above := ⟨fun i => h.acyclic i⟩
  have htrans : IsTrans s above := ⟨fun _ _ _ hij hjk => hjk.trans hij⟩
  have : Finite s := hfinite
  have hwf : WellFounded above := Finite.wellFounded_of_trans_of_irrefl above
  obtain ⟨i, hi⟩ := hne
  obtain ⟨m, -, hm⟩ := hwf.has_min Set.univ ⟨⟨i, hi⟩, trivial⟩
  exact ⟨m, m.2, fun j hj hwait => hm ⟨j, hj⟩ trivial (.single hwait)⟩

end LockOrder
