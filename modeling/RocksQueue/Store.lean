import RocksQueue.Lib.OrderedMap
import RocksQueue.Task

/-! # The column families of a tenant

A tenant's records live in three column families. A write batch is applied as one step, its
operations in order. The lemmas say where a record found after a batch comes from, and what a batch
does to a record and to the number of records of a queue. -/

namespace RocksQueue

abbrev ColumnFamily := OrderedMap Key Value

/-- `{tenant}__pending`, `{tenant}__inflight` and `{tenant}__dlq`. -/
inductive Cf where
  | pending
  | inflight
  | dlq
  deriving DecidableEq, Repr

structure TenantDb where
  pending : ColumnFamily
  inflight : ColumnFamily
  dlq : ColumnFamily

inductive WriteOp where
  | put (cf : Cf) (key : Key) (value : Value)
  | delete (cf : Cf) (key : Key)
  deriving DecidableEq, Repr

abbrev WriteBatch := List WriteOp

namespace TenantDb

def empty : TenantDb := ⟨.empty, .empty, .empty⟩

def cf (db : TenantDb) : Cf → ColumnFamily
  | .pending => db.pending
  | .inflight => db.inflight
  | .dlq => db.dlq

def setCf (db : TenantDb) (c : Cf) (m : ColumnFamily) : TenantDb :=
  match c with
  | .pending => { db with pending := m }
  | .inflight => { db with inflight := m }
  | .dlq => { db with dlq := m }

/-- `get_cf`. -/
def get (db : TenantDb) (c : Cf) (key : Key) : Option Value := (db.cf c).get? key

def apply (db : TenantDb) : WriteOp → TenantDb
  | .put c key value => db.setCf c ((db.cf c).insert key value)
  | .delete c key => db.setCf c ((db.cf c).erase key)

/-- `write_opt`. -/
def write (db : TenantDb) (batch : WriteBatch) : TenantDb := batch.foldl apply db

/-- The records of a queue in one family, in key order: a snapshot bounded by the queue's prefix. -/
def scanQueue (db : TenantDb) (c : Cf) (queue : String) : List (Key × Value) := (db.cf c).scan (inQueue queue)

/-- `count_prefix`. -/
def countPrefix (db : TenantDb) (c : Cf) (queue : String) : Nat := (db.scanQueue c queue).length

/-- All records, with the family each is in. -/
def records (db : TenantDb) : List (Cf × Key × Value) :=
  db.pending.entries.map (Prod.mk .pending) ++ db.inflight.entries.map (Prod.mk .inflight) ++
    db.dlq.entries.map (Prod.mk .dlq)

/-- The number of records in the three families. -/
def size (db : TenantDb) : Nat := db.pending.size + db.inflight.size + db.dlq.size

variable {db : TenantDb} {b : WriteBatch} {c c' : Cf} {k k' : Key} {v v' : Value}

/-! ## Lookups -/

@[simp] theorem get_empty : empty.get c k = none := by
  cases c <;> rfl

theorem cf_setCf (m : ColumnFamily) : (db.setCf c m).cf c' = if c' = c then m else db.cf c' := by
  cases c <;> cases c' <;> rfl

theorem cf_apply_put : (db.apply (.put c k v)).cf c' = if c' = c then (db.cf c).insert k v else db.cf c' :=
  cf_setCf _

theorem cf_apply_delete : (db.apply (.delete c k)).cf c' = if c' = c then (db.cf c).erase k else db.cf c' :=
  cf_setCf _

theorem get_apply_put :
    (db.apply (.put c k v)).get c' k' = if c' = c ∧ k' = k then some v else db.get c' k' := by
  simp only [get, cf_apply_put]
  by_cases hc : c' = c
  · subst hc
    simp [OrderedMap.get?_insert]
  · simp [hc]

theorem get_apply_delete :
    (db.apply (.delete c k)).get c' k' = if c' = c ∧ k' = k then none else db.get c' k' := by
  simp only [get, cf_apply_delete]
  by_cases hc : c' = c
  · subst hc
    simp [OrderedMap.get?_erase]
  · simp [hc]

@[simp] theorem write_nil : db.write [] = db := rfl

@[simp] theorem write_cons (op : WriteOp) : db.write (op :: b) = (db.apply op).write b := rfl

theorem write_append (b' : WriteBatch) : db.write (b ++ b') = (db.write b).write b' := List.foldl_append

/-- A record found after a batch was put by it, or was there before and is not deleted by it. -/
theorem get_write (h : (db.write b).get c k = some v) :
    .put c k v ∈ b ∨ (db.get c k = some v ∧ .delete c k ∉ b) := by
  induction b generalizing db with
  | nil => exact Or.inr ⟨h, List.not_mem_nil⟩
  | cons op b ih =>
    rcases ih h with hput | ⟨hget, hdel⟩
    · exact Or.inl (List.mem_cons_of_mem _ hput)
    · cases op with
      | put c₀ k₀ v₀ =>
        rw [get_apply_put] at hget
        split at hget
        · rename_i heq
          obtain ⟨rfl, rfl⟩ := heq
          obtain rfl := Option.some.inj hget
          exact Or.inl List.mem_cons_self
        · refine Or.inr ⟨hget, fun hmem => ?_⟩
          rcases List.mem_cons.mp hmem with hmem | hmem
          · cases hmem
          · exact hdel hmem
      | delete c₀ k₀ =>
        rw [get_apply_delete] at hget
        split at hget
        · cases hget
        · rename_i hne
          refine Or.inr ⟨hget, fun hmem => ?_⟩
          rcases List.mem_cons.mp hmem with hmem | hmem
          · cases hmem
            exact hne ⟨rfl, rfl⟩
          · exact hdel hmem

/-- A record that a batch does not delete is still there, or the batch put another in its place. -/
theorem get_write_of_get (h : db.get c k = some v) (hdel : .delete c k ∉ b) :
    ∃ v', (db.write b).get c k = some v' ∧ (v' = v ∨ .put c k v' ∈ b) := by
  induction b generalizing db v with
  | nil => exact ⟨v, h, Or.inl rfl⟩
  | cons op b ih =>
    have hdel' : WriteOp.delete c k ∉ b := fun hmem => hdel (List.mem_cons_of_mem _ hmem)
    have hstep : ∃ v₁, (db.apply op).get c k = some v₁ ∧ (v₁ = v ∨ op = .put c k v₁) := by
      cases op with
      | put c₀ k₀ v₀ =>
        rw [get_apply_put]
        split
        · rename_i heq
          obtain ⟨rfl, rfl⟩ := heq
          exact ⟨v₀, rfl, Or.inr rfl⟩
        · exact ⟨v, h, Or.inl rfl⟩
      | delete c₀ k₀ =>
        rw [get_apply_delete]
        split
        · rename_i heq
          obtain ⟨rfl, rfl⟩ := heq
          exact absurd List.mem_cons_self hdel
        · exact ⟨v, h, Or.inl rfl⟩
    obtain ⟨v₁, hv₁, hor⟩ := hstep
    obtain ⟨v', hv', hor'⟩ := ih hv₁ hdel'
    refine ⟨v', hv', ?_⟩
    rcases hor' with rfl | hput
    · rcases hor with rfl | rfl
      · exact Or.inl rfl
      · exact Or.inr List.mem_cons_self
    · exact Or.inr (List.mem_cons_of_mem _ hput)

/-- A put of a batch that deletes nothing at its place leaves a record there. -/
theorem get_write_of_put (db : TenantDb) (h : .put c k v ∈ b) (hdel : .delete c k ∉ b) :
    ∃ v', (db.write b).get c k = some v' ∧ .put c k v' ∈ b := by
  induction b generalizing db with
  | nil => cases h
  | cons op b ih =>
    have hdel' : WriteOp.delete c k ∉ b := fun hmem => hdel (List.mem_cons_of_mem _ hmem)
    rcases List.mem_cons.mp h with rfl | h
    · have hput : (db.apply (.put c k v)).get c k = some v := by simp [get_apply_put]
      obtain ⟨v', hv', hor⟩ := get_write_of_get hput hdel'
      refine ⟨v', hv', ?_⟩
      rcases hor with rfl | hor
      · exact List.mem_cons_self
      · exact List.mem_cons_of_mem _ hor
    · have ih' : ∃ v', ((db.apply op).write b).get c k = some v' ∧ .put c k v' ∈ b := ih _ h hdel'
      obtain ⟨v', hv', hput⟩ := ih'
      exact ⟨v', hv', List.mem_cons_of_mem _ hput⟩

/-- A batch leaves alone what it neither puts nor deletes. -/
theorem get_write_of_untouched (hput : ∀ v, .put c k v ∉ b) (hdel : .delete c k ∉ b) :
    (db.write b).get c k = db.get c k := by
  cases h : db.get c k with
  | none =>
    cases h' : (db.write b).get c k with
    | none => rfl
    | some v' =>
      rcases get_write h' with h' | ⟨h', -⟩
      · exact absurd h' (hput v')
      · rw [h] at h'
        cases h'
  | some v =>
    obtain ⟨v', hv', rfl | hor⟩ := get_write_of_get h hdel
    · exact hv'
    · exact absurd hor (hput v')

theorem mem_scanQueue {queue : String} :
    (k, v) ∈ db.scanQueue c queue ↔ db.get c k = some v ∧ inQueue queue k = true :=
  OrderedMap.mem_scan

theorem scanQueue_keys_nodup {queue : String} : ((db.scanQueue c queue).map Prod.fst).Nodup :=
  OrderedMap.scan_keys_nodup

theorem mem_records : (c, k, v) ∈ db.records ↔ db.get c k = some v := by
  have hmem : ∀ c', (c, k, v) ∈ (db.cf c').entries.map (Prod.mk c') ↔ c' = c ∧ db.get c' k = some v := by
    intro c'
    rw [get, ← OrderedMap.mem_entries, List.mem_map]
    constructor
    · rintro ⟨e, he, heq⟩
      cases heq
      exact ⟨rfl, he⟩
    · rintro ⟨rfl, he⟩
      exact ⟨_, he, rfl⟩
  have hp := hmem .pending
  have hi := hmem .inflight
  have hd := hmem .dlq
  simp only [cf] at hp hi hd
  simp only [records, List.mem_append, hp, hi, hd]
  cases c <;> simp

/-! ## Counts -/

/-- The number of records of one family whose key satisfies `p`. -/
def count (db : TenantDb) (c : Cf) (p : Key → Bool) : Nat := (db.cf c).count p

theorem countPrefix_eq_count {queue : String} : db.countPrefix c queue = db.count c (inQueue queue) := rfl

theorem count_apply_put {p : Key → Bool} : (db.apply (.put c k v)).count c' p =
    db.count c' p + if c' = c ∧ p k ∧ db.get c k = none then 1 else 0 := by
  simp only [count, cf_apply_put]
  by_cases hc : c' = c
  · subst hc
    simp [OrderedMap.count_insert, get]
  · simp [hc]

theorem count_apply_delete {p : Key → Bool} : (db.apply (.delete c k)).count c' p +
    (if c' = c ∧ p k ∧ db.get c k ≠ none then 1 else 0) = db.count c' p := by
  simp only [count, cf_apply_delete]
  by_cases hc : c' = c
  · subst hc
    simpa [get] using OrderedMap.count_erase
  · simp [hc]

/-- The puts of a batch into one family, at keys that satisfy `p`. -/
def puts (c : Cf) (p : Key → Bool) (b : WriteBatch) : Nat :=
  b.countP fun
    | .put c' k _ => c' = c && p k
    | .delete _ _ => false

/-- A batch adds at most the records it puts. -/
theorem count_write_le (c : Cf) (p : Key → Bool) (b : WriteBatch) (db : TenantDb) :
    (db.write b).count c p ≤ db.count c p + puts c p b := by
  induction b generalizing db with
  | nil => exact Nat.le_refl _
  | cons op b ih =>
    have hrest : (db.write (op :: b)).count c p ≤ (db.apply op).count c p + puts c p b := ih (db.apply op)
    have hcons : puts c p (op :: b) = puts c p b + puts c p [op] := by
      simp [puts, List.countP_cons]
    have hop : (db.apply op).count c p ≤ db.count c p + puts c p [op] := by
      cases op with
      | put c₀ k₀ v₀ =>
        rw [count_apply_put]
        by_cases hin : c = c₀ ∧ p k₀ = true
        · simp only [puts, List.countP_cons, List.countP_nil, hin.1, hin.2]
          split <;> simp
        · have hnot : ¬(c = c₀ ∧ p k₀ = true ∧ db.get c₀ k₀ = none) := fun h => hin ⟨h.1, h.2.1⟩
          simp [hnot]
      | delete c₀ k₀ =>
        have herase : (db.apply (.delete c₀ k₀)).count c p + _ = db.count c p := count_apply_delete
        omega
    omega

theorem size_setCf (m : ColumnFamily) : (db.setCf c m).size + (db.cf c).size = db.size + m.size := by
  cases c <;> simp only [size, setCf, cf] <;> omega

theorem size_apply_put : (db.apply (.put c k v)).size = db.size + if db.get c k = none then 1 else 0 := by
  have hset : (db.apply (.put c k v)).size + _ = _ := size_setCf ((db.cf c).insert k v)
  have hinsert := OrderedMap.size_insert (m := db.cf c) (k := k) (v := v)
  by_cases hget : db.get c k = none
  · have hget' : (db.cf c).get? k = none := hget
    rw [if_pos hget'] at hinsert
    rw [if_pos hget]
    omega
  · have hget' : ¬(db.cf c).get? k = none := hget
    rw [if_neg hget'] at hinsert
    rw [if_neg hget]
    omega

theorem size_apply_delete : (db.apply (.delete c k)).size + (if db.get c k ≠ none then 1 else 0) = db.size := by
  have hset : (db.apply (.delete c k)).size + _ = _ := size_setCf ((db.cf c).erase k)
  have herase := OrderedMap.size_erase (m := db.cf c) (k := k)
  by_cases hget : db.get c k ≠ none
  · have hget' : (db.cf c).get? k ≠ none := hget
    rw [if_pos hget'] at herase
    rw [if_pos hget]
    omega
  · have hget' : ¬(db.cf c).get? k ≠ none := hget
    rw [if_neg hget'] at herase
    rw [if_neg hget]
    omega

end TenantDb

end RocksQueue
