import Mathlib.Data.List.Basic

/-! # Shortest initial segments

The elements that a loop takes from a list when it stops once it has seen enough of one kind. The segment is
said by what it is, the shortest initial one with enough of them, and computed by `segment`. -/

namespace RocksQueue

variable {α : Type} {p : α → Bool} {n : Nat} {l s s' : List α}

/-- `s` is the shortest initial segment of `l` with `n` elements that satisfy `p`, or `l` if it has fewer. -/
structure IsShortest (p : α → Bool) (n : Nat) (l s : List α) : Prop where
  initial : s <+: l
  enough : n ≤ s.countP p ∨ s = l
  shortest : ∀ s', s' <+: l → n ≤ s'.countP p → s.length ≤ s'.length

def segment (p : α → Bool) : Nat → List α → List α
  | _, [] => []
  | n, x :: l => if n = 0 then [] else x :: segment p (if p x then n - 1 else n) l

@[simp] theorem segment_zero : segment p 0 l = [] := by
  cases l <;> rfl

theorem segment_cons {x : α} (h : 0 < n) :
    segment p n (x :: l) = x :: segment p (if p x then n - 1 else n) l := if_neg (by omega)

/-- The segment has `n` of them, or all there are. -/
theorem countP_segment (p : α → Bool) (n : Nat) (l : List α) : (segment p n l).countP p = min n (l.countP p) := by
  induction l generalizing n with
  | nil => simp [segment]
  | cons x l ih =>
    rcases Nat.eq_zero_or_pos n with rfl | hn
    · simp
    · rw [segment_cons hn, List.countP_cons, List.countP_cons, ih]
      split <;> omega

theorem IsShortest.unique (h : IsShortest p n l s) (h' : IsShortest p n l s') : s = s' := by
  have hlen : ∀ {s s' : List α}, IsShortest p n l s → IsShortest p n l s' → s.length ≤ s'.length := by
    intro s s' h h'
    rcases h'.enough with henough | rfl
    · exact h.shortest s' h'.initial henough
    · exact h.initial.length_le
  have heq : s.length = s'.length := Nat.le_antisymm (hlen h h') (hlen h' h)
  exact (List.prefix_of_prefix_length_le h.initial h'.initial (Nat.le_of_eq heq)).eq_of_length heq

theorem isShortest_segment (p : α → Bool) (n : Nat) (l : List α) : IsShortest p n l (segment p n l) := by
  induction l generalizing n with
  | nil => exact ⟨List.prefix_refl _, Or.inr rfl, fun s' _ _ => Nat.zero_le _⟩
  | cons x l ih =>
    rcases Nat.eq_zero_or_pos n with rfl | hn
    · exact ⟨List.nil_prefix, Or.inl (Nat.zero_le _), fun s' _ _ => Nat.zero_le _⟩
    · have hrest := ih (if p x then n - 1 else n)
      rw [segment_cons hn]
      refine ⟨(List.prefix_cons_inj x).mpr hrest.initial, ?_, fun s' hs' henough => ?_⟩
      · rcases hrest.enough with henough | heq
        · refine Or.inl ?_
          rw [List.countP_cons]
          split at henough <;> simp_all
        · exact Or.inr (congrArg _ heq)
      · cases s' with
        | nil =>
          rw [List.countP_nil] at henough
          omega
        | cons y s' =>
          obtain ⟨rfl, htail⟩ := List.cons_prefix_cons.mp hs'
          have hcount : (if p y then n - 1 else n) ≤ s'.countP p := by
            rw [List.countP_cons] at henough
            split <;> simp_all
          exact Nat.succ_le_succ (hrest.shortest s' htail hcount)

end RocksQueue
