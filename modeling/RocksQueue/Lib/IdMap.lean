import RocksQueue.Lib.AssocLists

/-! # Maps whose values know their key

A hash map in which each value carries the key under which it is stored. The agreement is part of the
structure, so an operation that would file a value under another key cannot be written. -/

/-- A map in which `idOf v` is the key of `v`. -/
structure IdMap {κ ν : Type} [DecidableEq κ] (idOf : ν → κ) where
  table : AList fun _ : κ => ν
  keyed : ∀ {k : κ} {v : ν}, table.lookup k = some v → idOf v = k

namespace IdMap
variable {κ ν : Type} [DecidableEq κ] {idOf : ν → κ} {m m' : IdMap idOf} {k k' : κ} {v : ν}

def empty : IdMap idOf := ⟨∅, fun h => by cases h⟩

def lookup (m : IdMap idOf) (k : κ) : Option ν := m.table.lookup k

/-- The values, in the order in which an iteration goes over them. -/
def values (m : IdMap idOf) : List ν := m.table.values

def insert (m : IdMap idOf) (v : ν) : IdMap idOf where
  table := m.table.insert (idOf v) v
  keyed h := by
    rw [AList.lookup_insert_if] at h
    split at h
    · rename_i heq
      rw [← Option.some.inj h, heq]
    · exact m.keyed h

def erase (m : IdMap idOf) (k : κ) : IdMap idOf where
  table := m.table.erase k
  keyed h := by
    rw [AList.lookup_erase_if] at h
    split at h
    · cases h
    · exact m.keyed h

/-- Change every value in place. -/
def mapValues (m : IdMap idOf) (f : ν → ν) (hf : ∀ v, idOf (f v) = idOf v) : IdMap idOf where
  table := m.table.mapValues fun _ v => f v
  keyed h := by
    rw [AList.lookup_mapValues] at h
    obtain ⟨w, hw, rfl⟩ := Option.map_eq_some_iff.mp h
    rw [hf, m.keyed hw]

/-- Change the value under one key in place, if there is one. -/
def modify (m : IdMap idOf) (k : κ) (g : ν → ν) (hg : ∀ v, idOf v = k → idOf (g v) = k) : IdMap idOf where
  table := m.table.modify k g
  keyed h := by
    rw [AList.lookup_modify] at h
    split at h
    · rename_i heq
      obtain ⟨w, hw, rfl⟩ := Option.map_eq_some_iff.mp h
      rw [heq]
      exact hg w ((m.keyed hw).trans heq)
    · exact m.keyed h

theorem ext (h : m.table = m'.table) : m = m' := by
  cases m
  cases m'
  cases h
  rfl

@[simp] theorem lookup_empty : (empty : IdMap idOf).lookup k = none := AList.lookup_empty k

theorem lookup_insert : (m.insert v).lookup k = if k = idOf v then some v else m.lookup k := AList.lookup_insert_if

theorem lookup_erase : (m.erase k').lookup k = if k = k' then none else m.lookup k := AList.lookup_erase_if

@[simp] theorem lookup_mapValues {f : ν → ν} {hf : ∀ v, idOf (f v) = idOf v} :
    (m.mapValues f hf).lookup k = (m.lookup k).map f :=
  AList.lookup_mapValues

theorem lookup_modify {g : ν → ν} {hg : ∀ v, idOf v = k' → idOf (g v) = k'} :
    (m.modify k' g hg).lookup k = if k = k' then (m.lookup k).map g else m.lookup k :=
  AList.lookup_modify

theorem mem_values : v ∈ m.values ↔ m.lookup (idOf v) = some v := by
  refine AList.mem_values.trans ⟨?_, fun h => ⟨idOf v, h⟩⟩
  rintro ⟨k, hk⟩
  rw [m.keyed hk]
  exact hk

theorem values_ids (m : IdMap idOf) : m.values.map idOf = m.table.keys := by
  simp only [values, AList.values, AList.keys, List.keys, List.map_map]
  refine List.map_congr_left fun e he => ?_
  exact m.keyed (List.mem_dlookup m.table.nodupKeys he)

/-- An iteration meets each key once. -/
theorem values_ids_nodup (m : IdMap idOf) : (m.values.map idOf).Nodup := by
  rw [m.values_ids]
  exact m.table.keys_nodup

theorem lookup_eq_none : m.lookup k = none ↔ k ∉ m.values.map idOf := by
  rw [m.values_ids]
  exact AList.lookup_eq_none.trans (not_congr AList.mem_keys)

theorem ids_congr (h : m'.table.keys = m.table.keys) : m'.values.map idOf = m.values.map idOf := by
  rw [values_ids, values_ids, h]

/-! ## A condition on every value -/

def All (P : ν → Prop) (m : IdMap idOf) : Prop := ∀ k v, m.lookup k = some v → P v

section All
variable {P : ν → Prop}

theorem All.insert (h : m.All P) (hv : P v) : (m.insert v).All P := by
  intro k w hw
  rw [lookup_insert] at hw
  split at hw
  · cases hw
    exact hv
  · exact h k w hw

theorem All.erase (h : m.All P) : (m.erase k).All P := by
  intro k' w hw
  rw [lookup_erase] at hw
  split at hw
  · cases hw
  · exact h k' w hw

theorem All.modify {g : ν → ν} (h : m.All P) (hP : ∀ {v}, P v → P (g v)) (hg : ∀ v, idOf v = k → idOf (g v) = k) :
    (m.modify k g hg).All P := by
  intro k' w hw
  rw [lookup_modify] at hw
  split at hw
  · obtain ⟨v, hv, rfl⟩ := Option.map_eq_some_iff.mp hw
    exact hP (h k' v hv)
  · exact h k' w hw

theorem All.mapValues {f : ν → ν} (h : m.All P) (hP : ∀ {v}, P v → P (f v)) (hf : ∀ v, idOf (f v) = idOf v) :
    (m.mapValues f hf).All P := by
  intro k w hw
  rw [lookup_mapValues] at hw
  obtain ⟨v, hv, rfl⟩ := Option.map_eq_some_iff.mp hw
  exact hP (h k v hv)

theorem All.of_mem (h : m.All P) (hv : v ∈ m.values) : P v := h _ v (mem_values.mp hv)

end All

end IdMap
