import RocksQueue.Theorems.AckedPrefix

/-! # Replays of the dead letters

A replay takes the records of the dead-letter family in key order and gives each the next number of the shared
counter. The place of a record in that order fixes its new key. -/

namespace RocksQueue
open TenantDb

/-- The number that a replay gives to a dead letter. -/
def Tenant.replayNumber (t : Tenant) (key : Key) : Nat :=
  advance t.seq ((t.db.dlq.entries.map Prod.fst).idxOf key)

/-- Every dead letter deserializes. -/
def AllDecode (db : TenantDb) : Prop := ∀ key v, db.get .dlq key = some v → ∃ task, v = .task task

section Numbers
variable {t : Tenant} {items : List (Key × Value)} {seq : Nat} {m : Move} {key key' : Key} {task task' : Task}

theorem replayLoop_ne_none_iff : replayLoop seq items ≠ none ↔ ∀ key v, (key, v) ∈ items → ∃ task, v = .task task := by
  refine ⟨fun hsome => ?_, replayLoop_ne_none⟩
  induction items generalizing seq with
  | nil => simp
  | cons item items ih =>
    obtain ⟨key, v⟩ := item
    cases v with
    | corrupt raw => exact absurd rfl hsome
    | task task =>
      have hrest : replayLoop (nextSeq seq) items ≠ none := fun hnone => hsome (by simp only [replayLoop, hnone])
      intro key' v hmem
      rcases List.mem_cons.mp hmem with heq | hmem
      · cases heq
        exact ⟨task, rfl⟩
      · exact ih hrest key' v hmem

/-- The moves of a replay, by the places of the records. -/
theorem mem_replayMoves_iff (hseq : seq < u64Size) (hall : ∀ key v, (key, v) ∈ items → ∃ task, v = .task task) :
    m ∈ replayMoves seq items ↔
      ∃ i key task, items[i]? = some (key, .task task) ∧ m = .ofReplay key task (advance seq i) := by
  induction items generalizing seq with
  | nil => simp [replayMoves]
  | cons item items ih =>
    obtain ⟨key, v⟩ := item
    obtain ⟨task, rfl⟩ := hall key v List.mem_cons_self
    have hnext : nextSeq seq < u64Size := Nat.mod_lt _ (by decide)
    rw [replayMoves, List.mem_cons, ih hnext fun k v hmem => hall k v (List.mem_cons_of_mem _ hmem)]
    constructor
    · rintro (rfl | ⟨i, k, x, hi, rfl⟩)
      · exact ⟨0, key, task, rfl, by rw [advance_zero hseq]⟩
      · exact ⟨i + 1, k, x, hi, by rw [advance_succ]⟩
    · rintro ⟨i, k, x, hi, rfl⟩
      cases i with
      | zero =>
        cases hi
        exact Or.inl (by rw [advance_zero hseq])
      | succ i => exact Or.inr ⟨i, k, x, hi, by rw [advance_succ]⟩

/-- Two draws of fewer than 2^64 give two numbers. -/
theorem advance_inj {i j : Nat} (hi : i < u64Size) (hj : j < u64Size) (h : advance seq i = advance seq j) : i = j := by
  simp only [advance, u64Size] at h hi hj
  omega

theorem replayNumber_eq {i : Nat} {v : Value} (hi : t.db.dlq.entries[i]? = some (key, v)) :
    t.replayNumber key = advance t.seq i := by
  obtain ⟨hlt, hat⟩ := List.getElem?_eq_some_iff.mp hi
  have hlt' : i < (t.db.dlq.entries.map Prod.fst).length := by simpa using hlt
  have hkey : (t.db.dlq.entries.map Prod.fst)[i] = key := by simp [hat]
  have hidx := (OrderedMap.entries_keys_nodup t.db.dlq).idxOf_getElem i hlt'
  rw [Tenant.replayNumber, ← hkey, hidx]

/-- A dead letter has its place, and moves from there. -/
theorem exists_place (hseq : t.seq < u64Size) (hdecode : AllDecode t.db) (hget : t.db.get .dlq key = some (.task task)) :
    ∃ i, t.db.dlq.entries[i]? = some (key, .task task) ∧ i < t.db.dlq.size ∧ t.replayNumber key = advance t.seq i ∧
      Move.ofReplay key task (t.replayNumber key) ∈ replayMoves t.seq t.db.dlq.entries := by
  obtain ⟨i, hi⟩ := List.mem_iff_getElem?.mp (OrderedMap.mem_entries.mpr hget)
  have hnumber := replayNumber_eq hi
  obtain ⟨hlt, -⟩ := List.getElem?_eq_some_iff.mp hi
  refine ⟨i, hi, hlt, hnumber, ?_⟩
  rw [hnumber]
  exact (mem_replayMoves_iff hseq fun key v hmem => hdecode key v (OrderedMap.mem_entries.mp hmem)).mpr ⟨i, key, task, hi, rfl⟩

theorem mem_replayMoves_dlq (hseq : t.seq < u64Size) (hdecode : AllDecode t.db)
    (hm : m ∈ replayMoves t.seq t.db.dlq.entries) :
    ∃ key task, t.db.get .dlq key = some (.task task) ∧ m = .ofReplay key task (t.replayNumber key) := by
  have hall : ∀ key v, (key, v) ∈ t.db.dlq.entries → ∃ task, v = .task task := fun key v hmem =>
    hdecode key v (OrderedMap.mem_entries.mp hmem)
  obtain ⟨i, key, task, hi, rfl⟩ := (mem_replayMoves_iff hseq hall).mp hm
  refine ⟨key, task, OrderedMap.mem_entries.mp (List.mem_of_getElem? hi), ?_⟩
  rw [replayNumber_eq hi]

/-- Dead letters are placed in the order of their keys. -/
theorem place_lt {i j : Nat} {v v' : Value} (hi : t.db.dlq.entries[i]? = some (key, v))
    (hj : t.db.dlq.entries[j]? = some (key', v')) (hlt : key < key') : i < j := by
  obtain ⟨hilt, hat⟩ := List.getElem?_eq_some_iff.mp hi
  obtain ⟨hjlt, hat'⟩ := List.getElem?_eq_some_iff.mp hj
  rcases Nat.lt_trichotomy i j with hij | rfl | hji
  · exact hij
  · rw [hat] at hat'
    cases hat'
    exact absurd hlt (lt_irrefl _)
  · have hsorted := List.pairwise_iff_getElem.mp t.db.dlq.sorted j i hjlt hilt hji
    rw [hat, hat'] at hsorted
    exact absurd hlt (lt_asymm hsorted)

/-- Distinct dead letters get distinct keys. -/
theorem replayKey_inj (hseq : t.seq < u64Size) (hsize : t.db.dlq.size ≤ u64Size) (hdecode : AllDecode t.db)
    (hget : t.db.get .dlq key = some (.task task)) (hget' : t.db.get .dlq key' = some (.task task'))
    (heq : encodeKey task.queue (t.replayNumber key) = encodeKey task'.queue (t.replayNumber key')) : key = key' := by
  obtain ⟨i, hi, hlt, hnumber, -⟩ := exists_place hseq hdecode hget
  obtain ⟨j, hj, hlt', hnumber', -⟩ := exists_place hseq hdecode hget'
  rw [hnumber, hnumber'] at heq
  have hnumbers := (encodeKey_inj (Nat.mod_lt _ (by decide)) (Nat.mod_lt _ (by decide)) heq).2
  obtain rfl : i = j := advance_inj (by omega) (by omega) hnumbers
  rw [hi] at hj
  cases hj
  rfl

end Numbers

/-! ## What a replay stores -/

section Effect
variable {t : Tenant} {c : Cf} {key : Key} {v : Value} {task : Task}

theorem replayDlq_eq (hdecode : AllDecode t.db) : ∃ b, IsMoves b (replayMoves t.seq t.db.dlq.entries) ∧
    t.replayDlq = (⟨t.db.write b, advance t.seq t.db.dlq.size⟩, .ok t.db.dlq.size) := by
  have hall : ∀ key v, (key, v) ∈ t.db.dlq.entries → ∃ task, v = .task task := fun key v hmem =>
    hdecode key v (OrderedMap.mem_entries.mp hmem)
  cases hloop : replayLoop t.seq t.db.dlq.entries with
  | none => exact absurd hloop (replayLoop_ne_none hall)
  | some b =>
    obtain ⟨hmoves, -, hdraws⟩ := replayLoop_moves hloop
    exact ⟨b, hmoves, by simp only [Tenant.replayDlq, hloop, hdraws, OrderedMap.size]⟩

/-- Every dead letter is pending under its new key. -/
theorem get_replayed (hseq : t.seq < u64Size) (hsize : t.db.dlq.size ≤ u64Size) (hdecode : AllDecode t.db)
    (hget : t.db.get .dlq key = some (.task task)) :
    t.replayDlq.1.db.get .pending (encodeKey task.queue (t.replayNumber key)) = some task.replayed.serialize := by
  obtain ⟨b, hmoves, hreplay⟩ := replayDlq_eq hdecode
  obtain ⟨i, -, -, -, hmem⟩ := exists_place hseq hdecode hget
  rw [hreplay]
  have hput : .put .pending (encodeKey task.queue (t.replayNumber key)) task.replayed.serialize ∈ b :=
    hmoves.mem_put.mpr ⟨_, hmem, rfl, rfl, rfl⟩
  have hdel : .delete .pending (encodeKey task.queue (t.replayNumber key)) ∉ b := fun hdel => by
    obtain ⟨m, hm, hsrc, -⟩ := hmoves.mem_delete.mp hdel
    obtain ⟨key', task', -, rfl⟩ := mem_replayMoves_dlq hseq hdecode hm
    cases hsrc
  obtain ⟨v, hv, hput'⟩ := get_write_of_put t.db hput hdel
  obtain ⟨m, hm, -, hnewKey, rfl⟩ := hmoves.mem_put.mp hput'
  obtain ⟨key', task', hget', rfl⟩ := mem_replayMoves_dlq hseq hdecode hm
  obtain rfl := replayKey_inj hseq hsize hdecode hget' hget hnewKey
  rw [hget] at hget'
  cases hget'
  exact hv

/-- The dead-letter family is empty afterwards. -/
theorem get_dlq_replayDlq (hseq : t.seq < u64Size) (hdecode : AllDecode t.db) : t.replayDlq.1.db.get .dlq key = none := by
  obtain ⟨b, hmoves, hreplay⟩ := replayDlq_eq hdecode
  rw [hreplay]
  refine Option.eq_none_iff_forall_ne_some.mpr fun v hget => ?_
  rcases get_write hget with hput | ⟨hold, hdel⟩
  · obtain ⟨m, hm, hdst, -⟩ := hmoves.mem_put.mp hput
    obtain ⟨key', task', -, rfl⟩ := mem_replayMoves_dlq hseq hdecode hm
    cases hdst
  · obtain ⟨task, rfl⟩ := hdecode key v hold
    obtain ⟨i, -, -, -, hmem⟩ := exists_place hseq hdecode hold
    exact hdel (hmoves.mem_delete.mpr ⟨_, hmem, rfl, rfl⟩)

/-- What a replay does not put under a new key, it leaves alone, the dead letters apart. -/
theorem get_replayDlq_of_untouched (hseq : t.seq < u64Size) (hdecode : AllDecode t.db) (hc : c ≠ .dlq)
    (hkey : c = .pending → ∀ key' task, t.db.get .dlq key' = some (.task task) →
      key ≠ encodeKey task.queue (t.replayNumber key')) :
    t.replayDlq.1.db.get c key = t.db.get c key := by
  obtain ⟨b, hmoves, hreplay⟩ := replayDlq_eq hdecode
  rw [hreplay]
  refine get_write_of_untouched (fun v hput => ?_) fun hdel => ?_
  · obtain ⟨m, hm, hdst, hnewKey, -⟩ := hmoves.mem_put.mp hput
    obtain ⟨key', task', hget, rfl⟩ := mem_replayMoves_dlq hseq hdecode hm
    exact hkey hdst.symm key' task' hget hnewKey.symm
  · obtain ⟨m, hm, hsrc, -⟩ := hmoves.mem_delete.mp hdel
    obtain ⟨key', task', -, rfl⟩ := mem_replayMoves_dlq hseq hdecode hm
    exact hc hsrc.symm

end Effect

/-! ## Corrupt dead letters -/

/-- A replay that no record blocks: it succeeds, every decodable dead letter is pending under a key of its own, with
    `attempts` and `deadline` 0, and the undecodable ones stay. -/
structure ReplayedAll (t t' : Tenant) (reply : Except QueueError Nat) : Prop where
  succeeds : ∃ count, reply = .ok count
  moved : ∃ number : Key → Nat,
    (∀ key task, t.db.get .dlq key = some (.task task) → t'.db.get .dlq key = none ∧
      t'.db.get .pending (encodeKey task.queue (number key)) = some (.task { task with attempts := 0, deadline := 0 })) ∧
    ∀ key key' task task', t.db.get .dlq key = some (.task task) → t.db.get .dlq key' = some (.task task') →
      encodeKey task.queue (number key) = encodeKey task'.queue (number key') → key = key'
  kept : ∀ key raw, t.db.get .dlq key = some (.corrupt raw) → t'.db.get .dlq key = some (.corrupt raw)

/-- A replay goes through exactly when every dead letter deserializes: one that does not fails the whole call. -/
theorem replayedAll_iff {t : Tenant} (hseq : t.seq < u64Size) (hsize : t.db.dlq.size ≤ u64Size) :
    ReplayedAll t t.replayDlq.1 t.replayDlq.2 ↔ ∀ key v, t.db.get .dlq key = some v → ∃ task, v = .task task := by
  constructor
  · intro h key v hget
    obtain ⟨count, hok⟩ := h.succeeds
    have hsome : replayLoop t.seq t.db.dlq.entries ≠ none := fun hnone => by
      simp only [Tenant.replayDlq, hnone] at hok
      cases hok
    exact replayLoop_ne_none_iff.mp hsome key v (OrderedMap.mem_entries.mpr hget)
  · intro hdecode
    obtain ⟨b, -, hreplay⟩ := replayDlq_eq hdecode
    refine ⟨⟨_, congrArg Prod.snd hreplay⟩, ⟨t.replayNumber, fun key task hget => ?_, ?_⟩, fun key raw hget => ?_⟩
    · exact ⟨get_dlq_replayDlq hseq hdecode, get_replayed hseq hsize hdecode hget⟩
    · intro key key' task task' hget hget' heq
      exact replayKey_inj hseq hsize hdecode hget hget' heq
    · obtain ⟨task, hcorrupt⟩ := hdecode key _ hget
      cases hcorrupt

/-- Two dead letters that deserialize. -/
def twoDeadLetters (seq : Nat) : Tenant where
  db := TenantDb.empty.write
    [.put .dlq (encodeKey "q" 1) (newTask "q" [1] "a" 0).serialize,
      .put .dlq (encodeKey "q" 2) (newTask "q" [2] "b" 0).serialize]
  seq := seq

theorem allDecode_twoDeadLetters (seq : Nat) : AllDecode (twoDeadLetters seq).db := by
  intro key v hget
  simp only [twoDeadLetters, write_cons, write_nil, get_apply_put, get_empty] at hget
  split at hget
  · exact ⟨_, (Option.some.inj hget).symm⟩
  · split at hget
    · exact ⟨_, (Option.some.inj hget).symm⟩
    · cases hget

theorem replayedAll_iff_twoDeadLetters :
    ReplayedAll (twoDeadLetters 5) (twoDeadLetters 5).replayDlq.1 (twoDeadLetters 5).replayDlq.2 :=
  (replayedAll_iff (by decide) (by decide)).mpr (allDecode_twoDeadLetters 5)

/-- A dead letter that does not deserialize, and one that does. -/
def corruptDeadLetter : Tenant where
  db := TenantDb.empty.write
    [.put .dlq (encodeKey "q" 1) (.corrupt [7]), .put .dlq (encodeKey "q" 2) (newTask "q" [2] "b" 0).serialize]
  seq := 5

/-- The undecodable record keeps the task in the dead-letter family. -/
theorem not_replayedAll : ¬ReplayedAll corruptDeadLetter corruptDeadLetter.replayDlq.1 corruptDeadLetter.replayDlq.2 := by
  intro h
  obtain ⟨count, hok⟩ := h.succeeds
  cases hok

/-! ## Order -/

/-- A replay that keeps all tasks and their order, when the dead letter under `key` gets the number `number key`. -/
structure ReplayedInOrder (t t' : Tenant) (reply : Except QueueError Nat) (number : Key → Nat) : Prop where
  returned : reply = .ok t.db.dlq.size
  emptied : ∀ key, t'.db.get .dlq key = none
  added : ∀ key task, t.db.get .dlq key = some (.task task) →
    t.db.get .pending (encodeKey task.queue (number key)) = none ∧
      t'.db.get .pending (encodeKey task.queue (number key)) = some (.task { task with attempts := 0, deadline := 0 })
  distinct : ∀ key key' task task', t.db.get .dlq key = some (.task task) → t.db.get .dlq key' = some (.task task') →
    encodeKey task.queue (number key) = encodeKey task'.queue (number key') → key = key'
  pending : ∀ key v, t.db.get .pending key = some v → t'.db.get .pending key = some v
  nothingElse : ∀ key v, t'.db.get .pending key = some v → t.db.get .pending key = some v ∨
    ∃ key' task, t.db.get .dlq key' = some (.task task) ∧ key = encodeKey task.queue (number key')
  inflight : ∀ key, t'.db.get .inflight key = t.db.get .inflight key
  later : ∀ key task s v, t.db.get .dlq key = some (.task task) → s < 2 ^ 64 →
    t.db.get .pending (encodeKey task.queue s) = some v → encodeKey task.queue s < encodeKey task.queue (number key)
  ordered : ∀ key key' task task', t.db.get .dlq key = some (.task task) → t.db.get .dlq key' = some (.task task') →
    task.queue = task'.queue → key < key' →
      encodeKey task.queue (number key) < encodeKey task'.queue (number key')

/-- While the counter does not wrap, a replay keeps all tasks, and their order after what is pending. -/
theorem replayedInOrder_of_noWrap {t : Tenant}
    (hstored : ∀ c key v, t.db.get c key = some v → ∃ q s, key = encodeKey q s ∧ s < t.seq)
    (hdecode : ∀ key v, t.db.get .dlq key = some v → ∃ task, v = .task task)
    (hwrap : t.seq + t.db.dlq.size < u64Size) :
    ∃ number, ReplayedInOrder t t.replayDlq.1 t.replayDlq.2 number := by
  have hseq : t.seq < u64Size := by omega
  have hsize : t.db.dlq.size ≤ u64Size := by omega
  -- The dead letters get the numbers from the counter on, in the order of their keys.
  have hnumber : ∀ key task, t.db.get .dlq key = some (.task task) → ∃ i, t.db.dlq.entries[i]? = some (key, .task task) ∧
      t.replayNumber key = t.seq + i ∧ t.seq + i < u64Size := by
    intro key task hget
    obtain ⟨i, hi, hlt, hnumber, -⟩ := exists_place hseq hdecode hget
    exact ⟨i, hi, hnumber.trans (Nat.mod_eq_of_lt (by omega)), by omega⟩
  -- Stored keys have lower numbers, so nothing is under a new key.
  have hbelow : ∀ c q s v, s < u64Size → t.db.get c (encodeKey q s) = some v → s < t.seq := by
    intro c q s v hs hget
    obtain ⟨q', s', hkey, hs'⟩ := hstored c _ v hget
    have hsame := (encodeKey_inj hs (by omega) hkey).2
    omega
  have hfresh : ∀ key task, t.db.get .dlq key = some (.task task) → ∀ c,
      t.db.get c (encodeKey task.queue (t.replayNumber key)) = none := by
    intro key task hget c
    obtain ⟨i, -, heq, hlt⟩ := hnumber key task hget
    refine Option.eq_none_iff_forall_ne_some.mpr fun v hstored => ?_
    have hlt' := hbelow c _ _ v (heq ▸ hlt) hstored
    omega
  obtain ⟨b, -, hreplay⟩ := replayDlq_eq hdecode
  refine ⟨t.replayNumber, {
    returned := congrArg Prod.snd hreplay
    emptied := fun key => get_dlq_replayDlq hseq hdecode
    added := fun key task hget => ⟨hfresh key task hget .pending, get_replayed hseq hsize hdecode hget⟩
    distinct := fun key key' task task' hget hget' heq => replayKey_inj hseq hsize hdecode hget hget' heq
    pending := fun key v hget => ?_
    nothingElse := fun key v hget => ?_
    inflight := fun key => get_replayDlq_of_untouched hseq hdecode (by simp) (by simp)
    later := fun key task s v hget hs hpending => ?_
    ordered := fun key key' task task' hget hget' hqueue hlt => ?_ }⟩
  · refine (get_replayDlq_of_untouched hseq hdecode (by simp) fun _ key' task hdlq heq => ?_).trans hget
    rw [heq, hfresh key' task hdlq .pending] at hget
    cases hget
  · by_cases hnew : ∃ key' task, t.db.get .dlq key' = some (.task task) ∧ key = encodeKey task.queue (t.replayNumber key')
    · exact Or.inr hnew
    · refine Or.inl ((get_replayDlq_of_untouched hseq hdecode (by simp) fun _ key' task hdlq heq => ?_).symm.trans hget)
      exact hnew ⟨key', task, hdlq, heq⟩
  · obtain ⟨i, -, heq, hbound⟩ := hnumber key task hget
    have hlt := hbelow .pending _ _ v hs hpending
    exact encodeKey_lt (heq ▸ hbound) (by omega)
  -- Later in the order of the dead letters is later in the queue.
  · obtain ⟨i, hi, heq, hbound⟩ := hnumber key task hget
    obtain ⟨j, hj, heq', hbound'⟩ := hnumber key' task' hget'
    rw [hqueue]
    refine encodeKey_lt (heq' ▸ hbound') ?_
    rw [heq, heq']
    have hij := place_lt hi hj hlt
    omega

theorem keyed_twoDeadLetters (seq : Nat) (c : Cf) (key : Key) (v : Value)
    (hget : (twoDeadLetters seq).db.get c key = some v) : ∃ q s, key = encodeKey q s ∧ s < 5 := by
  simp only [twoDeadLetters, write_cons, write_nil, get_apply_put, get_empty] at hget
  split at hget
  · rename_i hkey
    exact ⟨"q", 2, hkey.2, by decide⟩
  · split at hget
    · rename_i hkey
      exact ⟨"q", 1, hkey.2, by decide⟩
    · cases hget

theorem replayedInOrder_of_noWrap_twoDeadLetters :
    ∃ number, ReplayedInOrder (twoDeadLetters 5) (twoDeadLetters 5).replayDlq.1 (twoDeadLetters 5).replayDlq.2 number :=
  replayedInOrder_of_noWrap (keyed_twoDeadLetters 5) (allDecode_twoDeadLetters 5) (by decide)

/-- The counter wraps between the two dead letters, and the second one comes first. -/
theorem not_replayedInOrder_wrap : ¬∀ t : Tenant, t.seq < u64Size →
    (∀ c key v, t.db.get c key = some v → ∃ q s, key = encodeKey q s ∧ s < t.seq) →
    (∀ key v, t.db.get .dlq key = some v → ∃ task, v = .task task) →
    ∃ number, ReplayedInOrder t t.replayDlq.1 t.replayDlq.2 number := by
  intro h
  have hkeyed : ∀ c key v, (twoDeadLetters (u64Size - 1)).db.get c key = some v →
      ∃ q s, key = encodeKey q s ∧ s < u64Size - 1 := fun c key v hget => by
    obtain ⟨q, s, hkey, hs⟩ := keyed_twoDeadLetters _ c key v hget
    exact ⟨q, s, hkey, by unfold u64Size; omega⟩
  obtain ⟨number, hreplayed⟩ := h (twoDeadLetters (u64Size - 1)) (by decide) hkeyed (allDecode_twoDeadLetters _)
  have hpending : ((twoDeadLetters (u64Size - 1)).replayDlq.1.db.cf .pending).entries =
      [(encodeKey "q" 0, .task (newTask "q" [2] "b" 0)), (encodeKey "q" (u64Size - 1), .task (newTask "q" [1] "a" 0))] := by
    decide
  have hfirst : (twoDeadLetters (u64Size - 1)).db.get .dlq (encodeKey "q" 1) = some (.task (newTask "q" [1] "a" 0)) := by
    decide
  have hsecond : (twoDeadLetters (u64Size - 1)).db.get .dlq (encodeKey "q" 2) = some (.task (newTask "q" [2] "b" 0)) := by
    decide
  have hplace := OrderedMap.mem_entries.mpr (hreplayed.added _ _ hfirst).2
  have hplace' := OrderedMap.mem_entries.mpr (hreplayed.added _ _ hsecond).2
  have hlt := hreplayed.ordered _ _ _ _ hfirst hsecond rfl (by decide)
  rw [hpending] at hplace hplace'
  simp only [List.mem_cons, Prod.mk.injEq, Value.task.injEq, List.not_mem_nil, or_false] at hplace hplace'
  rcases hplace with ⟨-, htask⟩ | ⟨hkey, -⟩
  · exact absurd htask (by decide)
  · rcases hplace' with ⟨hkey', -⟩ | ⟨-, htask⟩
    · rw [hkey, hkey'] at hlt
      exact absurd hlt (by decide)
    · exact absurd htask (by decide)

end RocksQueue
