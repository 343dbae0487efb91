import Mathlib.Data.List.AList

/-! # Association lists with one type of values

What a hash map offers beyond lookup, insert and erase: changing one value or all of them in place, and
going over the values. Lookups say what each of them does, and `foldl_lookup` what a loop over distinct
keys does when each round changes what it finds under its own key only. -/

namespace AList
variable {κ ν ν' : Type} [DecidableEq κ] {m : AList fun _ : κ => ν} {k k' : κ} {v : ν} {f : κ → ν → ν'} {g : ν → ν}

theorem lookup_insert_if : (m.insert k v).lookup k' = if k' = k then some v else m.lookup k' := by
  split
  · rename_i h
    rw [h, lookup_insert]
  · rename_i h
    exact lookup_insert_ne h

theorem lookup_erase_if : (m.erase k).lookup k' = if k' = k then none else m.lookup k' := by
  split
  · rename_i h
    rw [h, lookup_erase]
  · rename_i h
    exact lookup_erase_ne h

/-- Change every value in place. -/
def mapValues (f : κ → ν → ν') (m : AList fun _ : κ => ν) : AList fun _ : κ => ν' where
  entries := m.entries.map fun e => ⟨e.1, f e.1 e.2⟩
  nodupKeys := by
    have hkeys : (m.entries.map fun e => (⟨e.1, f e.1 e.2⟩ : Sigma fun _ : κ => ν')).keys = m.entries.keys := by
      simp [List.keys]
    rw [List.NodupKeys, hkeys]
    exact m.nodupKeys

omit [DecidableEq κ] in
@[simp] theorem keys_mapValues : (m.mapValues f).keys = m.keys := List.map_map

/-- Change the value under one key in place, if there is one. -/
def modify (k : κ) (g : ν → ν) (m : AList fun _ : κ => ν) : AList fun _ : κ => ν :=
  m.mapValues fun k' v => if k' = k then g v else v

/-- The values, in the order of the entries. -/
def values (m : AList fun _ : κ => ν) : List ν := m.entries.map Sigma.snd

theorem dlookup_map (f : κ → ν → ν') (k : κ) (l : List (Sigma fun _ : κ => ν)) :
    (l.map fun e => (⟨e.1, f e.1 e.2⟩ : Sigma fun _ : κ => ν')).dlookup k = (l.dlookup k).map (f k) := by
  induction l with
  | nil => rfl
  | cons e l ih =>
    obtain ⟨k', v⟩ := e
    by_cases h : k = k'
    · subst h
      simp
    · have hne : ∀ {ν : Type} (v : ν) (l : List (Sigma fun _ : κ => ν)),
          (⟨k', v⟩ :: l : List (Sigma fun _ : κ => ν)).dlookup k = l.dlookup k :=
        fun v l => List.dlookup_cons_ne l ⟨k', v⟩ h
      rw [List.map_cons, hne, hne, ih]

@[simp] theorem lookup_mapValues : (m.mapValues f).lookup k = (m.lookup k).map (f k) := dlookup_map f k m.entries

theorem lookup_modify : (m.modify k g).lookup k' = if k' = k then (m.lookup k').map g else m.lookup k' := by
  rw [modify, lookup_mapValues]
  split
  · rfl
  · exact Option.map_id'

theorem mem_modify : k' ∈ m.modify k g ↔ k' ∈ m := by
  rw [mem_keys, mem_keys, modify, keys_mapValues]

theorem mem_values : v ∈ m.values ↔ ∃ k, m.lookup k = some v := by
  simp only [values, List.mem_map, Sigma.exists]
  constructor
  · rintro ⟨k, _, hmem, rfl⟩
    exact ⟨k, List.mem_dlookup m.nodupKeys hmem⟩
  · rintro ⟨k, hk⟩
    exact ⟨k, v, List.of_mem_dlookup hk, rfl⟩

end AList

section Loops
variable {κ : Type}

/-- A loop over distinct keys, each round of which acts on what a reading `look` finds under its key and
    leaves what it finds under the others. -/
theorem List.foldl_lookup {σ α β : Type} (look : σ → κ → β) {key : α → κ} {step : σ → α → σ} (change : α → β → β)
    (hown : ∀ s a, look (step s a) (key a) = change a (look s (key a)))
    (hother : ∀ s a k, k ≠ key a → look (step s a) k = look s k) {l : List α} (hl : (l.map key).Nodup) (s : σ) :
    (∀ a ∈ l, look (l.foldl step s) (key a) = change a (look s (key a))) ∧
      ∀ k, k ∉ l.map key → look (l.foldl step s) k = look s k := by
  induction l generalizing s with
  | nil => simp
  | cons a l ih =>
    obtain ⟨hnot, hl'⟩ := List.nodup_cons.mp hl
    obtain ⟨hin, hout⟩ := ih hl' (step s a)
    refine ⟨fun b hb => ?_, fun k hk => ?_⟩
    · rcases List.mem_cons.mp hb with rfl | hb
      · rw [List.foldl_cons, hout _ hnot, hown]
      · have hne : key b ≠ key a := fun heq => hnot (heq ▸ List.mem_map_of_mem hb)
        rw [List.foldl_cons, hin b hb, hother _ _ _ hne]
    · rw [List.map_cons, List.mem_cons, not_or] at hk
      rw [List.foldl_cons, hout k hk.2, hother _ _ _ hk.1]

end Loops
