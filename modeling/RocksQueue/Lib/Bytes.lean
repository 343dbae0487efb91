import Mathlib.Data.List.Lex
import Mathlib.Data.Nat.ModEq
import Mathlib.Order.Lattice

/-! # Byte strings

Bytes are ordered as numbers, so byte strings are ordered lexicographically. `toBe` and `ofBe` write
and read a number as a fixed count of big-endian bytes; `utf8` is the encoding of a string. Two
different strings of bytes without a separator stay different prefixes once the separator ends them. -/

instance UInt8.instLinearOrder : LinearOrder UInt8 where
  le_refl := UInt8.le_refl
  le_trans _ _ _ := UInt8.le_trans
  lt_iff_le_not_ge a b := by
    simp only [UInt8.le_iff_toNat_le, UInt8.lt_iff_toNat_lt]
    omega
  le_antisymm _ _ := UInt8.le_antisymm
  le_total := UInt8.le_total
  toDecidableLE := inferInstance
  toDecidableEq := inferInstance
  toDecidableLT := inferInstance

/-- A byte string. -/
abbrev Bytes := List UInt8

namespace Bytes

instance instLawfulBEq : LawfulBEq Bytes := inferInstance

/-! ## Big-endian numbers -/

/-- The `w` low-order bytes of `n`, most significant first. -/
def toBe : Nat → Nat → Bytes
  | 0, _ => []
  | w + 1, n => toBe w (n / 256) ++ [UInt8.ofNat n]

/-- The number that a byte string denotes, most significant byte first. -/
def ofBe (bs : Bytes) : Nat := bs.foldl (fun acc b => acc * 256 + b.toNat) 0

@[simp] theorem length_toBe (w n : Nat) : (toBe w n).length = w := by
  induction w generalizing n with
  | zero => rfl
  | succ w ih => simp [toBe, ih]

theorem ofBe_append_singleton (bs : Bytes) (b : UInt8) : ofBe (bs ++ [b]) = ofBe bs * 256 + b.toNat := by
  simp [ofBe]

theorem ofBe_toBe (w n : Nat) : ofBe (toBe w n) = n % 256 ^ w := by
  induction w generalizing n with
  | zero => simp [toBe, ofBe, Nat.mod_one]
  | succ w ih =>
    have hpow : 256 ^ (w + 1) = 256 * 256 ^ w := Nat.pow_succ'
    have hbyte : (UInt8.ofNat n).toNat = n % 256 := UInt8.toNat_ofNat'
    rw [toBe, ofBe_append_singleton, ih, hbyte, hpow, Nat.mod_mul]
    omega

theorem ofBe_toBe_of_lt {w n : Nat} (h : n < 256 ^ w) : ofBe (toBe w n) = n := by
  rw [ofBe_toBe, Nat.mod_eq_of_lt h]

/-! ## Strings -/

/-- The UTF-8 bytes of a string. -/
def utf8 (s : String) : Bytes := s.toUTF8.data.toList

theorem utf8_inj {s t : String} (h : utf8 s = utf8 t) : s = t := by
  apply String.toByteArray_inj.mp
  apply ByteArray.ext
  exact Array.toList_inj.mp h

/-! ## Prefixes and the order -/

theorem cons_le_cons {x y : UInt8} {a b : Bytes} : x :: a ≤ y :: b ↔ x < y ∨ x = y ∧ a ≤ b := by
  have hlt : y :: b < x :: a ↔ y < x ∨ y = x ∧ b < a := List.cons_lt_cons_iff
  rw [← not_lt, hlt, ← @not_lt Bytes _ b a]
  rcases lt_trichotomy x y with h | rfl | h
  · simp [h, h.asymm, h.ne']
  · simp
  · simp [h, h.asymm, h.ne']

theorem le_of_prefix : ∀ {p k : Bytes}, p <+: k → p ≤ k
  | [], k, _ => not_lt.mp (List.not_lt_nil k)
  | x :: p, k, h => by
    obtain ⟨t, rfl⟩ := h
    exact cons_le_cons.mpr (Or.inr ⟨rfl, le_of_prefix (List.prefix_append _ _)⟩)

/-- The byte strings with a given prefix are an interval. -/
theorem prefix_of_between : ∀ {p k k' : Bytes}, p <+: k' → p ≤ k → k ≤ k' → p <+: k
  | [], _, _, _, _, _ => List.nil_prefix
  | x :: p, [], _, _, h, _ => absurd (lt_of_le_of_ne h (List.cons_ne_nil _ _)) (List.not_lt_nil _)
  | x :: p, y :: k, k', hp, hle, hle' => by
    obtain ⟨t, rfl⟩ := hp
    rw [List.cons_append] at hle'
    rcases cons_le_cons.mp hle with hxy | ⟨rfl, htail⟩
    · rcases cons_le_cons.mp hle' with hyx | ⟨rfl, -⟩
      · exact absurd hyx hxy.asymm
      · exact absurd hxy (lt_irrefl _)
    · rcases cons_le_cons.mp hle' with hyx | ⟨-, htail'⟩
      · exact absurd hyx (lt_irrefl _)
      · exact List.cons_prefix_cons.mpr ⟨rfl, prefix_of_between (List.prefix_append _ _) htail htail'⟩

/-- Appending to byte strings of one length does not change their order. -/
theorem append_lt_append : ∀ {a b : Bytes} (c d : Bytes), a.length = b.length → a < b → a ++ c < b ++ d
  | [], [], _, _, _, h => absurd h (lt_irrefl _)
  | x :: a, y :: b, c, d, hlen, h => by
    rcases List.cons_lt_cons_iff.mp h with hxy | ⟨rfl, htail⟩
    · exact List.cons_lt_cons_iff.mpr (Or.inl hxy)
    · exact List.cons_lt_cons_iff.mpr (Or.inr ⟨rfl, append_lt_append c d (Nat.succ.inj hlen) htail⟩)

/-- Big-endian numbers of one width are ordered as numbers. -/
theorem toBe_lt_toBe {w m n : Nat} (hn : n < 256 ^ w) (h : m < n) : toBe w m < toBe w n := by
  induction w generalizing m n with
  | zero =>
    rw [Nat.pow_zero] at hn
    omega
  | succ w ih =>
    have hpow : 256 ^ (w + 1) = 256 ^ w * 256 := pow_succ 256 w
    have hdiv : n / 256 < 256 ^ w := by
      rw [Nat.div_lt_iff_lt_mul (by decide)]
      omega
    rw [toBe, toBe]
    by_cases hlt : m / 256 < n / 256
    · exact append_lt_append _ _ (by simp) (ih hdiv hlt)
    · have heq : m / 256 = n / 256 := by omega
      rw [heq]
      refine List.append_left_lt (List.cons_lt_cons_iff.mpr (Or.inl ?_))
      rw [UInt8.lt_iff_toNat_lt, UInt8.toNat_ofNat', UInt8.toNat_ofNat']
      omega

/-! ## Separators -/

/-- Two byte strings without the separator that both start a third one, once ended by the separator,
    are equal. -/
theorem eq_of_prefix_of_prefix {sep : UInt8} : ∀ {a b l : Bytes}, sep ∉ a → sep ∉ b →
    a ++ [sep] <+: l → b ++ [sep] <+: l → a = b
  | [], [], _, _, _, _, _ => rfl
  | [], y :: b, l, _, hb, h₁, h₂ => by
    obtain ⟨t₁, rfl⟩ := h₁
    simp only [List.nil_append, List.cons_append, List.cons_prefix_cons] at h₂
    exact absurd (h₂.1 ▸ List.mem_cons_self) hb
  | x :: a, [], l, ha, _, h₁, h₂ => by
    obtain ⟨t₂, rfl⟩ := h₂
    simp only [List.nil_append, List.cons_append, List.cons_prefix_cons] at h₁
    exact absurd (h₁.1 ▸ List.mem_cons_self) ha
  | x :: a, y :: b, l, ha, hb, h₁, h₂ => by
    cases l with
    | nil => simp at h₁
    | cons z l =>
      simp only [List.cons_append, List.cons_prefix_cons] at h₁ h₂
      have ih := eq_of_prefix_of_prefix (fun h => ha (List.mem_cons_of_mem _ h))
        (fun h => hb (List.mem_cons_of_mem _ h)) h₁.2 h₂.2
      rw [ih, h₁.1, h₂.1]

/-- Byte strings are ordered as what comes up to their first separators, which none of them goes beyond. -/
theorem append_sep_le : ∀ {sep : UInt8} {a b s t : Bytes}, sep ∉ a → sep ∉ b → a ++ sep :: s ≤ b ++ sep :: t →
    a ++ [sep] ≤ b ++ [sep]
  | _, [], [], _, _, _, _, _ => le_rfl
  | sep, [], y :: b, s, t, _, hb, h => by
    rcases cons_le_cons.mp h with hlt | ⟨heq, -⟩
    · exact cons_le_cons.mpr (Or.inl hlt)
    · exact absurd (heq ▸ List.mem_cons_self) hb
  | sep, x :: a, [], s, t, ha, _, h => by
    rcases cons_le_cons.mp h with hlt | ⟨heq, -⟩
    · exact cons_le_cons.mpr (Or.inl hlt)
    · exact absurd (heq ▸ List.mem_cons_self) ha
  | sep, x :: a, y :: b, s, t, ha, hb, h => by
    refine cons_le_cons.mpr ?_
    rcases cons_le_cons.mp h with hlt | ⟨heq, htail⟩
    · exact Or.inl hlt
    · have ha' : sep ∉ a := fun hmem => ha (List.mem_cons_of_mem _ hmem)
      have hb' : sep ∉ b := fun hmem => hb (List.mem_cons_of_mem _ hmem)
      exact Or.inr ⟨heq, append_sep_le ha' hb' htail⟩

end Bytes
