import Mathlib.Data.List.Basic
import Mathlib.Data.List.Pairwise
import Mathlib.Order.Lattice

/-! # Ordered maps

A finite map over a linear order, kept as the list of its entries in strictly increasing key order.
The order is part of the structure, so two maps with the same lookups are equal (`ext_get?`) and a
scan returns its entries in key order. Lookups say what `insert` and `erase` do; `count` says how the
number of entries whose key satisfies a predicate changes. -/

/-- A finite map from `κ` to `ν`: its entries in strictly increasing key order. -/
structure OrderedMap (κ ν : Type*) [LinearOrder κ] where
  entries : List (κ × ν)
  sorted : entries.Pairwise fun a b => a.1 < b.1

namespace OrderedMap

/-! ## Entry lists -/

section Entries
variable {κ ν : Type*} [LinearOrder κ]

/-- The value of the first entry for `k`. -/
def find (k : κ) : List (κ × ν) → Option ν
  | [] => none
  | e :: rest => if e.1 = k then some e.2 else find k rest

/-- Insert an entry at its place, or replace the one with the same key. -/
def insertEntry (k : κ) (v : ν) : List (κ × ν) → List (κ × ν)
  | [] => [(k, v)]
  | e :: rest =>
    if k < e.1 then (k, v) :: e :: rest
    else if e.1 < k then e :: insertEntry k v rest
    else (k, v) :: rest

theorem find_eq_none {k : κ} : ∀ {l : List (κ × ν)}, (∀ e ∈ l, e.1 ≠ k) → find k l = none
  | [], _ => rfl
  | e :: rest, h => by
    have hne : e.1 ≠ k := h e List.mem_cons_self
    simp only [find, hne, if_false]
    exact find_eq_none fun e' he' => h e' (List.mem_cons_of_mem _ he')

theorem mem_iff_find {k : κ} {v : ν} :
    ∀ {l : List (κ × ν)}, l.Pairwise (fun a b => a.1 < b.1) → ((k, v) ∈ l ↔ find k l = some v)
  | [], _ => by simp [find]
  | e :: rest, h => by
    rw [List.pairwise_cons] at h
    obtain ⟨hlt, hrest⟩ := h
    have ih := mem_iff_find (k := k) (v := v) hrest
    by_cases hek : e.1 = k
    · have hnone : find k rest = none := find_eq_none fun e' he' => hek ▸ (hlt e' he').ne'
      have hnot : (k, v) ∉ rest := by rw [ih, hnone]; simp
      simp only [find, hek, if_true, Option.some.injEq, List.mem_cons, hnot, or_false]
      constructor
      · rintro rfl
        rfl
      · rintro rfl
        exact Prod.ext hek.symm rfl
    · have hne : (k, v) ≠ e := fun h => hek (by rw [← h])
      simp only [find, hek, if_false, List.mem_cons, hne, false_or]
      exact ih

theorem mem_insertEntry {k : κ} {v : ν} {e : κ × ν} :
    ∀ {l : List (κ × ν)}, e ∈ insertEntry k v l → e = (k, v) ∨ e ∈ l
  | [], h => Or.inl (List.mem_singleton.mp h)
  | x :: rest, h => by
    simp only [insertEntry] at h
    split at h
    · rcases List.mem_cons.mp h with h | h
      · exact Or.inl h
      · exact Or.inr h
    · split at h
      · rcases List.mem_cons.mp h with h | h
        · exact Or.inr (h ▸ List.mem_cons_self)
        · rcases mem_insertEntry h with h | h
          · exact Or.inl h
          · exact Or.inr (List.mem_cons_of_mem _ h)
      · rcases List.mem_cons.mp h with h | h
        · exact Or.inl h
        · exact Or.inr (List.mem_cons_of_mem _ h)

theorem sorted_insertEntry (k : κ) (v : ν) : ∀ {l : List (κ × ν)},
    l.Pairwise (fun a b => a.1 < b.1) → (insertEntry k v l).Pairwise fun a b => a.1 < b.1
  | [], _ => List.pairwise_singleton _ _
  | x :: rest, h => by
    have hcons := List.pairwise_cons.mp h
    simp only [insertEntry]
    split
    · rename_i hlt
      refine List.pairwise_cons.mpr ⟨fun e he => ?_, h⟩
      rcases List.mem_cons.mp he with rfl | he
      · exact hlt
      · exact hlt.trans (hcons.1 e he)
    · rename_i hge
      split
      · rename_i hgt
        refine List.pairwise_cons.mpr ⟨fun e he => ?_, sorted_insertEntry k v hcons.2⟩
        rcases mem_insertEntry he with rfl | he
        · exact hgt
        · exact hcons.1 e he
      · rename_i hle
        have heq : x.1 = k := le_antisymm (not_lt.mp hge) (not_lt.mp hle)
        exact List.pairwise_cons.mpr ⟨fun e he => heq ▸ hcons.1 e he, hcons.2⟩

theorem find_insertEntry (k : κ) (v : ν) (k' : κ) : ∀ l : List (κ × ν),
    find k' (insertEntry k v l) = if k' = k then some v else find k' l
  | [] => by simp [insertEntry, find, eq_comm]
  | x :: rest => by
    have ih := find_insertEntry k v k' rest
    simp only [insertEntry]
    split
    · by_cases hk : k' = k
      · simp [find, hk]
      · simp [find, hk, Ne.symm hk]
    · rename_i hge
      split
      · rename_i hgt
        by_cases hx : x.1 = k'
        · have hk : k' ≠ k := hx ▸ hgt.ne
          simp [find, hx, hk]
        · simp only [find, hx, if_false]
          exact ih
      · rename_i hle
        have heq : x.1 = k := le_antisymm (not_lt.mp hge) (not_lt.mp hle)
        by_cases hk : k' = k
        · simp [find, hk]
        · have hx : x.1 ≠ k' := fun h => hk (h.symm.trans heq)
          simp [find, hk, Ne.symm hk, hx]

theorem find_filter_ne (k k' : κ) : ∀ l : List (κ × ν),
    find k' (l.filter fun e => e.1 ≠ k) = if k' = k then none else find k' l
  | [] => by simp [find]
  | x :: rest => by
    have ih := find_filter_ne k k' rest
    by_cases hx : x.1 = k
    · have hdrop : (x :: rest).filter (fun e => e.1 ≠ k) = rest.filter fun e => e.1 ≠ k := by simp [hx]
      rw [hdrop, ih]
      by_cases hk : k' = k
      · simp [hk]
      · have hx' : x.1 ≠ k' := fun h => hk (h.symm.trans hx)
        simp [hk, find, hx']
    · have hkeep : (x :: rest).filter (fun e => e.1 ≠ k) = x :: rest.filter fun e => e.1 ≠ k := by
        simp [hx]
      rw [hkeep]
      by_cases hx' : x.1 = k'
      · have hk : k' ≠ k := hx' ▸ hx
        simp [find, hx', hk]
      · simp only [find, hx', if_false]
        exact ih

theorem countP_insertEntry (p : κ → Bool) (k : κ) (v : ν) : ∀ {l : List (κ × ν)},
    l.Pairwise (fun a b => a.1 < b.1) →
      (insertEntry k v l).countP (fun e => p e.1) =
        l.countP (fun e => p e.1) + if p k ∧ find k l = none then 1 else 0
  | [], _ => by simp [insertEntry, find, List.countP_cons]
  | x :: rest, h => by
    have hcons := List.pairwise_cons.mp h
    simp only [insertEntry]
    split
    · rename_i hlt
      have hnone : find k (x :: rest) = none := find_eq_none fun e he => by
        rcases List.mem_cons.mp he with rfl | he
        · exact hlt.ne'
        · exact (hlt.trans (hcons.1 e he)).ne'
      simp [List.countP_cons, hnone]
    · rename_i hge
      split
      · rename_i hgt
        have hfind : find k (x :: rest) = find k rest := by simp [find, hgt.ne]
        rw [hfind, List.countP_cons, List.countP_cons, countP_insertEntry p k v hcons.2]
        omega
      · rename_i hle
        have heq : x.1 = k := le_antisymm (not_lt.mp hge) (not_lt.mp hle)
        simp [List.countP_cons, find, heq]

theorem countP_filter_ne (p : κ → Bool) (k : κ) : ∀ {l : List (κ × ν)},
    l.Pairwise (fun a b => a.1 < b.1) →
      (l.filter fun e => e.1 ≠ k).countP (fun e => p e.1) +
        (if p k ∧ find k l ≠ none then 1 else 0) = l.countP fun e => p e.1
  | [], _ => by simp [find]
  | x :: rest, h => by
    have hcons := List.pairwise_cons.mp h
    have ih := countP_filter_ne p k hcons.2
    by_cases hx : x.1 = k
    · have hnone : find k rest = none := find_eq_none fun e he => hx ▸ (hcons.1 e he).ne'
      simp only [hnone, ne_eq, not_true_eq_false, and_false, if_false, Nat.add_zero] at ih
      have hdrop : (x :: rest).filter (fun e => e.1 ≠ k) = rest.filter fun e => e.1 ≠ k := by simp [hx]
      rw [hdrop, List.countP_cons]
      simp only [find, hx, if_true, ne_eq, reduceCtorEq, not_false_eq_true, and_true]
      rw [← ih]
    · have hkeep : (x :: rest).filter (fun e => e.1 ≠ k) = x :: rest.filter fun e => e.1 ≠ k := by
        simp [hx]
      rw [hkeep, List.countP_cons, List.countP_cons]
      simp only [find, hx, if_false]
      omega

/-- On entries at or above `lo`, the keys of an interval above `lo` come first. -/
theorem takeWhile_eq_filter {lo : κ} {p : κ → Bool} (hp : ∀ k k', p k' → lo ≤ k → k ≤ k' → p k) :
    ∀ {l : List (κ × ν)}, l.Pairwise (fun a b => a.1 < b.1) → (∀ e ∈ l, lo ≤ e.1) →
      l.takeWhile (fun e => p e.1) = l.filter fun e => p e.1
  | [], _, _ => rfl
  | x :: rest, h, hlo => by
    have hcons := List.pairwise_cons.mp h
    have hx : lo ≤ x.1 := hlo x List.mem_cons_self
    by_cases hpx : p x.1
    · have ih := takeWhile_eq_filter hp hcons.2 fun e he => hlo e (List.mem_cons_of_mem _ he)
      simp [hpx, ih]
    · have hnone : ∀ e ∈ rest, ¬p e.1 := fun e he hpe => hpx (hp x.1 e.1 hpe hx (hcons.1 e he).le)
      have hnil : rest.filter (fun e => p e.1) = [] := List.filter_eq_nil_iff.mpr hnone
      simp [hpx, hnil]

theorem takeWhile_dropWhile_eq_filter {lo : κ} {p : κ → Bool} (hlo : ∀ k, p k → lo ≤ k)
    (hp : ∀ k k', p k' → lo ≤ k → k ≤ k' → p k) :
    ∀ {l : List (κ × ν)}, l.Pairwise (fun a b => a.1 < b.1) →
      (l.dropWhile fun e => e.1 < lo).takeWhile (fun e => p e.1) = l.filter fun e => p e.1
  | [], _ => rfl
  | x :: rest, h => by
    have hcons := List.pairwise_cons.mp h
    by_cases hx : x.1 < lo
    · have hpx : ¬p x.1 := fun hpx => absurd (hlo x.1 hpx) (not_le.mpr hx)
      have ih := takeWhile_dropWhile_eq_filter hlo hp hcons.2
      simp [hx, hpx, ih]
    · have hall : ∀ e ∈ x :: rest, lo ≤ e.1 := fun e he => by
        rcases List.mem_cons.mp he with rfl | he
        · exact not_lt.mp hx
        · exact (not_lt.mp hx).trans (hcons.1 e he).le
      have hdrop : (x :: rest).dropWhile (fun e => e.1 < lo) = x :: rest := by simp [hx]
      rw [hdrop]
      exact takeWhile_eq_filter hp h hall

end Entries

/-! ## Maps -/

section Maps
variable {κ ν : Type*} [LinearOrder κ]

def empty : OrderedMap κ ν := ⟨[], .nil⟩

def get? (m : OrderedMap κ ν) (k : κ) : Option ν := find k m.entries

def insert (m : OrderedMap κ ν) (k : κ) (v : ν) : OrderedMap κ ν :=
  ⟨insertEntry k v m.entries, sorted_insertEntry k v m.sorted⟩

def erase (m : OrderedMap κ ν) (k : κ) : OrderedMap κ ν :=
  ⟨m.entries.filter fun e => e.1 ≠ k, m.sorted.filter _⟩

/-- The entries whose key satisfies `p`, in key order. -/
def scan (m : OrderedMap κ ν) (p : κ → Bool) : List (κ × ν) := m.entries.filter fun e => p e.1

/-- The entries from the first key that is not below `lo`. -/
def seek (m : OrderedMap κ ν) (lo : κ) : List (κ × ν) := m.entries.dropWhile fun e => e.1 < lo

/-- The number of entries whose key satisfies `p`. -/
def count (m : OrderedMap κ ν) (p : κ → Bool) : Nat := (m.scan p).length

/-- The number of entries. -/
def size (m : OrderedMap κ ν) : Nat := m.entries.length

variable {m : OrderedMap κ ν} {k k' : κ} {v : ν} {p : κ → Bool}

@[simp] theorem get?_empty : (empty : OrderedMap κ ν).get? k = none := rfl

@[simp] theorem entries_empty : (empty : OrderedMap κ ν).entries = [] := rfl

theorem mem_entries : (k, v) ∈ m.entries ↔ m.get? k = some v := mem_iff_find m.sorted

theorem get?_insert : (m.insert k v).get? k' = if k' = k then some v else m.get? k' :=
  find_insertEntry k v k' m.entries

theorem get?_erase : (m.erase k).get? k' = if k' = k then none else m.get? k' :=
  find_filter_ne k k' m.entries

/-- Strictly sorted entry lists with the same members are equal. -/
theorem entries_eq : ∀ {l₁ l₂ : List (κ × ν)}, l₁.Pairwise (fun a b => a.1 < b.1) →
    l₂.Pairwise (fun a b => a.1 < b.1) → (∀ e, e ∈ l₁ ↔ e ∈ l₂) → l₁ = l₂ := by
  intro l₁ l₂ h₁ h₂ h
  have hperm : l₁.Perm l₂ :=
    (List.perm_ext_iff_of_nodup (h₁.imp fun hab heq => (heq ▸ hab).ne rfl)
      (h₂.imp fun hab heq => (heq ▸ hab).ne rfl)).mpr h
  exact hperm.eq_of_pairwise (fun a b _ _ hab hba => absurd hab hba.asymm) h₁ h₂

/-- A map is determined by its lookups. -/
theorem ext_get? {m₁ m₂ : OrderedMap κ ν} (h : ∀ k, m₁.get? k = m₂.get? k) : m₁ = m₂ := by
  have hentries : m₁.entries = m₂.entries := entries_eq m₁.sorted m₂.sorted fun ⟨k, v⟩ => by
    rw [mem_entries, mem_entries, h]
  cases m₁
  cases m₂
  cases hentries
  rfl

theorem mem_scan : (k, v) ∈ m.scan p ↔ m.get? k = some v ∧ p k = true := by
  rw [scan, List.mem_filter, mem_entries]

/-- A scan may also be read off by seeking `lo` and stopping at the first key outside `p`, when the
    keys of `p` are an interval at or above `lo`. -/
theorem takeWhile_seek {lo : κ} (hlo : ∀ k, p k → lo ≤ k) (hp : ∀ k k', p k' → lo ≤ k → k ≤ k' → p k) :
    (m.seek lo).takeWhile (fun e => p e.1) = m.scan p :=
  takeWhile_dropWhile_eq_filter hlo hp m.sorted

theorem scan_sorted : (m.scan p).Pairwise fun a b => a.1 < b.1 := m.sorted.filter _

theorem scan_keys_nodup : ((m.scan p).map Prod.fst).Nodup := by
  rw [List.Nodup, List.pairwise_map]
  exact scan_sorted.imp fun h => h.ne

theorem entries_keys_nodup (m : OrderedMap κ ν) : (m.entries.map Prod.fst).Nodup := by
  rw [List.Nodup, List.pairwise_map]
  exact m.sorted.imp fun h => h.ne

theorem get?_isSome (hk : k ∈ m.entries.map Prod.fst) : (m.get? k).isSome := by
  obtain ⟨⟨k', v⟩, hkv, rfl⟩ := List.mem_map.mp hk
  exact Option.isSome_iff_exists.mpr ⟨v, mem_entries.mp hkv⟩

theorem count_eq_countP : m.count p = m.entries.countP fun e => p e.1 := by
  rw [count, scan, List.countP_eq_length_filter]

theorem count_insert :
    (m.insert k v).count p = m.count p + if p k ∧ m.get? k = none then 1 else 0 := by
  rw [count_eq_countP, count_eq_countP]
  exact countP_insertEntry p k v m.sorted

theorem count_erase : (m.erase k).count p + (if p k ∧ m.get? k ≠ none then 1 else 0) = m.count p := by
  rw [count_eq_countP, count_eq_countP]
  exact countP_filter_ne p k m.sorted

theorem size_eq_count : m.size = m.count fun _ => true := by
  rw [size, count, scan, List.filter_true]

theorem size_insert : (m.insert k v).size = m.size + if m.get? k = none then 1 else 0 := by
  rw [size_eq_count, size_eq_count, count_insert]
  simp

theorem size_erase : (m.erase k).size + (if m.get? k ≠ none then 1 else 0) = m.size := by
  rw [size_eq_count, size_eq_count]
  simpa using count_erase (m := m) (k := k) (p := fun _ => true)

end Maps

end OrderedMap
