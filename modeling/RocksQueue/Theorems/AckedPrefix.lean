import RocksQueue.Theorems.ExactMoves
import RocksQueue.Theorems.Origin

/-! # Cumulative acknowledgement

The loop stops at the first number above the one acknowledged. That it deletes exactly the records up to this
number rests on the order of the keys of a queue, which is the order of their numbers, and on the scan, which
sees the records of one queue only. -/

namespace RocksQueue
open TenantDb

/-- A cumulative acknowledgement up to this number covers the key. -/
def covered (upToSeq : Nat) (key : Key) : Bool := (decodeKeySeq key).any fun seq => seq ≤ upToSeq

/-- Every inflight key is made from a name without a NUL and a 64-bit number. -/
def KeyedInflight (db : TenantDb) : Prop :=
  ∀ key v, db.get .inflight key = some v → ∃ q seq, NulFree q ∧ seq < 2 ^ 64 ∧ key = encodeKey q seq

/-- What a cumulative acknowledgement of `queue` up to `upToSeq` does. -/
structure PrefixAcked (db db' : TenantDb) (queue : String) (upToSeq count : Nat) : Prop where
  deleted : ∀ q seq, NulFree q → seq < 2 ^ 64 → inQueue queue (encodeKey q seq) = true → seq ≤ upToSeq →
    db'.get .inflight (encodeKey q seq) = none
  kept : ∀ q seq, NulFree q → seq < 2 ^ 64 → ¬(inQueue queue (encodeKey q seq) = true ∧ seq ≤ upToSeq) →
    db'.get .inflight (encodeKey q seq) = db.get .inflight (encodeKey q seq)
  others : ∀ c, c ≠ .inflight → ∀ key, db'.get c key = db.get c key
  counted : db'.size + count = db.size

section Keys
variable {q q' queue : String} {seq seq' upToSeq : Nat} {key : Key}

theorem covered_encodeKey (h : seq < 2 ^ 64) : covered upToSeq (encodeKey q seq) = true ↔ seq ≤ upToSeq := by
  simp [covered, decodeKeySeq_encodeKey q (show seq < u64Size from h)]

/-- A scan that sees a record of `q` is bounded by a prefix that goes on where `q`'s ends. -/
theorem prefix_of_inQueue (hq : NulFree q) (h : inQueue queue (encodeKey q seq) = true) :
    queuePrefix q <+: queuePrefix queue := by
  rcases List.prefix_or_prefix_of_prefix (inQueue_iff.mp (inQueue_encodeKey q seq)) (inQueue_iff.mp h) with hle | hle
  · exact hle
  · rcases List.prefix_concat_iff.mp hle with heq | hle
    · exact heq ▸ List.prefix_refl _
    · exact absurd (hle.subset (by simp [queuePrefix])) hq

/-- All records that one scan sees have the same name in their keys. -/
theorem queue_of_scan (hq : NulFree q) (hq' : NulFree q') (h : inQueue queue (encodeKey q seq) = true)
    (h' : inQueue queue (encodeKey q' seq') = true) : q = q' :=
  Bytes.utf8_inj (Bytes.eq_of_prefix_of_prefix hq hq' (prefix_of_inQueue hq h) (prefix_of_inQueue hq' h'))

/-- A queue's scan sees its own records only. -/
theorem inQueue_encodeKey_iff (hqueue : NulFree queue) (hq : NulFree q) :
    inQueue queue (encodeKey q seq) = true ↔ q = queue := by
  constructor
  · exact fun h => queue_unique hq hqueue (inQueue_encodeKey q seq) h
  · rintro rfl
    exact inQueue_encodeKey q seq

/-- Of two records that one scan sees, the later one has the larger number. -/
theorem covered_of_lt {key' : Key} (hkey : ∃ q seq, NulFree q ∧ seq < 2 ^ 64 ∧ key = encodeKey q seq)
    (hkey' : ∃ q seq, NulFree q ∧ seq < 2 ^ 64 ∧ key' = encodeKey q seq) (hin : inQueue queue key = true)
    (hin' : inQueue queue key' = true) (hlt : key < key') (h : covered upToSeq key' = true) : covered upToSeq key = true := by
  obtain ⟨q, seq, hq, hseq, rfl⟩ := hkey
  obtain ⟨q', seq', hq', hseq', rfl⟩ := hkey'
  obtain rfl := queue_of_scan hq hq' hin hin'
  rw [covered_encodeKey hseq'] at h
  rw [covered_encodeKey hseq]
  refine Nat.le_trans (Nat.le_of_not_lt fun hgt => ?_) h
  exact absurd hlt (lt_asymm (encodeKey_lt hseq hgt))

end Keys

section Loop
variable {upToSeq : Nat} {items : List (Key × Value)}

/-- Where the numbers ascend, the loop reaches every record that it is to delete. -/
theorem cumulativeLoop_covered (hseq : ∀ e ∈ items, ∃ seq, decodeKeySeq e.1 = some seq)
    (hsorted : items.Pairwise fun a b => covered upToSeq b.1 = true → covered upToSeq a.1 = true) :
    cumulativeLoop upToSeq items = deletes .inflight ((items.filter fun e => covered upToSeq e.1).map Prod.fst) := by
  induction items with
  | nil => rfl
  | cons e items ih =>
    obtain ⟨⟨seq, hdecode⟩, hrest⟩ := List.forall_mem_cons.mp hseq
    obtain ⟨hhead, htail⟩ := List.pairwise_cons.mp hsorted
    have hcovered : covered upToSeq e.1 = decide (seq ≤ upToSeq) := by simp [covered, hdecode]
    simp only [cumulativeLoop, hdecode]
    by_cases hlt : upToSeq < seq
    · have hnot : ¬covered upToSeq e.1 = true := by simp [hcovered, hlt]
      have hnone : (e :: items).filter (fun e => covered upToSeq e.1) = [] := by
        refine List.filter_eq_nil_iff.mpr (List.forall_mem_cons.mpr ⟨hnot, fun e' he' hin => ?_⟩)
        exact hnot (hhead e' he' hin)
      rw [if_pos hlt, hnone]
      rfl
    · have hin : covered upToSeq e.1 = true := by simp [hcovered, Nat.le_of_not_lt hlt]
      have hcons : (e :: items).filter (fun e => covered upToSeq e.1) = e :: items.filter fun e => covered upToSeq e.1 :=
        List.filter_cons_of_pos hin
      rw [if_neg hlt, ih hrest htail, hcons]
      rfl

end Loop

section Ack
variable {db : TenantDb} {queue : String} {upToSeq : Nat}

/-- What a cumulative acknowledgement deletes. -/
theorem cumulativeLoop_scan (hkeyed : KeyedInflight db) : cumulativeLoop upToSeq (db.scanQueue .inflight queue) =
    deletes .inflight (((db.scanQueue .inflight queue).filter fun e => covered upToSeq e.1).map Prod.fst) := by
  refine cumulativeLoop_covered (fun e he => ?_) ?_
  · obtain ⟨q, seq, -, hseq, hkey⟩ := hkeyed _ _ (mem_scanQueue.mp he).1
    exact ⟨seq, hkey ▸ decodeKeySeq_encodeKey q hseq⟩
  · refine (OrderedMap.scan_sorted (m := db.inflight) (p := inQueue queue)).imp_of_mem fun ha hb hlt => ?_
    obtain ⟨hget, hin⟩ := mem_scanQueue.mp ha
    obtain ⟨hget', hin'⟩ := mem_scanQueue.mp hb
    exact covered_of_lt (hkeyed _ _ hget) (hkeyed _ _ hget') hin hin' hlt

theorem mem_coveredKeys {key : Key} :
    key ∈ ((db.scanQueue .inflight queue).filter fun e => covered upToSeq e.1).map Prod.fst ↔
      (db.get .inflight key).isSome ∧ inQueue queue key = true ∧ covered upToSeq key = true := by
  constructor
  · intro h
    obtain ⟨⟨key, v⟩, hmem, rfl⟩ := List.mem_map.mp h
    obtain ⟨hscan, hcovered⟩ := List.mem_filter.mp hmem
    obtain ⟨hget, hin⟩ := mem_scanQueue.mp hscan
    exact ⟨by simp [hget], hin, hcovered⟩
  · rintro ⟨hstored, hin, hcovered⟩
    obtain ⟨v, hget⟩ := Option.isSome_iff_exists.mp hstored
    exact List.mem_map.mpr ⟨(key, v), List.mem_filter.mpr ⟨mem_scanQueue.mpr ⟨hget, hin⟩, hcovered⟩, rfl⟩

theorem get_cumulativeAck (hkeyed : KeyedInflight db) (c : Cf) (key : Key) :
    (db.cumulativeAck queue upToSeq).1.get c key =
      if c = .inflight ∧ inQueue queue key = true ∧ covered upToSeq key = true then none else db.get c key := by
  simp only [cumulativeAck, cumulativeLoop_scan hkeyed]
  split
  · rename_i hdeleted
    obtain ⟨rfl, hin, hcovered⟩ := hdeleted
    refine Option.eq_none_iff_forall_ne_some.mpr fun v hget => ?_
    obtain ⟨hold, hnot⟩ := get_deletes hget
    exact hnot ⟨rfl, mem_coveredKeys.mpr ⟨by simp [hold], hin, hcovered⟩⟩
  · rename_i hkept
    refine get_write_of_untouched (fun v => put_not_mem_deletes) fun hdel => hkept ?_
    obtain ⟨hc, hmem⟩ := mem_deletes.mp hdel
    exact ⟨hc, (mem_coveredKeys.mp hmem).2⟩

theorem size_cumulativeAck (hkeyed : KeyedInflight db) (queue : String) (upToSeq : Nat) :
    (db.cumulativeAck queue upToSeq).1.size + (db.cumulativeAck queue upToSeq).2 = db.size := by
  simp only [cumulativeAck, cumulativeLoop_scan hkeyed]
  rw [deletes, List.length_map]
  refine size_deletes ?_ fun key hmem => (mem_coveredKeys.mp hmem).1
  exact scanQueue_keys_nodup.sublist (List.filter_sublist.map _)

theorem KeyedInflight.cumulativeAck (hkeyed : KeyedInflight db) (queue : String) (upToSeq : Nat) :
    KeyedInflight (db.cumulativeAck queue upToSeq).1 := by
  intro key v hget
  rw [get_cumulativeAck hkeyed] at hget
  split at hget
  · cases hget
  · exact hkeyed key v hget

theorem prefixAcked_cumulativeAck (hkeyed : KeyedInflight db) :
    PrefixAcked db (db.cumulativeAck queue upToSeq).1 queue upToSeq (db.cumulativeAck queue upToSeq).2 where
  deleted q seq hq hseq hin hle := by
    rw [get_cumulativeAck hkeyed, if_pos ⟨rfl, hin, (covered_encodeKey hseq).mpr hle⟩]
  kept q seq hq hseq hnot := by
    rw [get_cumulativeAck hkeyed, if_neg]
    rintro ⟨-, hin, hcovered⟩
    exact hnot ⟨hin, (covered_encodeKey hseq).mp hcovered⟩
  others c hc key := by
    rw [get_cumulativeAck hkeyed, if_neg fun h => hc h.1]
  counted := size_cumulativeAck hkeyed queue upToSeq

theorem ext_get {db' : TenantDb} (h : ∀ c key, db.get c key = db'.get c key) : db = db' := by
  obtain ⟨pending, inflight, dlq⟩ := db
  obtain ⟨pending', inflight', dlq'⟩ := db'
  obtain rfl : pending = pending' := OrderedMap.ext_get? (h .pending)
  obtain rfl : inflight = inflight' := OrderedMap.ext_get? (h .inflight)
  obtain rfl : dlq = dlq' := OrderedMap.ext_get? (h .dlq)
  rfl

/-- Acknowledging in two steps is acknowledging once. -/
theorem cumulativeAck_cumulativeAck (hkeyed : KeyedInflight db) (queue : String) {a b : Nat} (hle : a ≤ b) :
    ((db.cumulativeAck queue a).1.cumulativeAck queue b).1 = (db.cumulativeAck queue b).1 := by
  refine ext_get fun c key => ?_
  rw [get_cumulativeAck (hkeyed.cumulativeAck queue a), get_cumulativeAck hkeyed, get_cumulativeAck hkeyed]
  have hmono : covered a key = true → covered b key = true := by
    simp only [covered, Option.any_eq_true, decide_eq_true_eq]
    rintro ⟨seq, hseq, hsa⟩
    exact ⟨seq, hseq, Nat.le_trans hsa hle⟩
  grind

/-- A cumulative acknowledgement deletes exactly the queue's records up to the number acknowledged, and in two
    steps it does what it does in one. -/
theorem cumulativeAck_exact (hkeyed : KeyedInflight db) (queue : String) (upToSeq : Nat) :
    PrefixAcked db (db.cumulativeAck queue upToSeq).1 queue upToSeq (db.cumulativeAck queue upToSeq).2 ∧
      (NulFree queue → ∀ q seq, NulFree q → (inQueue queue (encodeKey q seq) = true ↔ q = queue)) ∧
      ∀ earlier ≤ upToSeq,
        ((db.cumulativeAck queue earlier).1.cumulativeAck queue upToSeq).1 = (db.cumulativeAck queue upToSeq).1 ∧
          (db.cumulativeAck queue earlier).2 + ((db.cumulativeAck queue earlier).1.cumulativeAck queue upToSeq).2 =
            (db.cumulativeAck queue upToSeq).2 := by
  refine ⟨prefixAcked_cumulativeAck hkeyed, fun hqueue q seq hq => inQueue_encodeKey_iff hqueue hq, fun earlier hle => ?_⟩
  have hsame := cumulativeAck_cumulativeAck hkeyed queue hle
  have hfirst := size_cumulativeAck hkeyed queue earlier
  have hsecond := size_cumulativeAck (hkeyed.cumulativeAck queue earlier) queue upToSeq
  have honce := size_cumulativeAck hkeyed queue upToSeq
  rw [hsame] at hsecond
  exact ⟨hsame, by omega⟩

/-- Records of the queues `a` and `ab`, whose names are prefixes of one another. -/
def ackedRecords : TenantDb :=
  TenantDb.empty.write
    [.put .inflight (encodeKey "a" 3) ((newTask "a" [1] "x" 0).delivered 10).serialize,
      .put .inflight (encodeKey "a" 300) ((newTask "a" [2] "y" 0).delivered 10).serialize,
      .put .inflight (encodeKey "ab" 2) ((newTask "ab" [3] "z" 0).delivered 10).serialize]

theorem cumulativeAck_exact_prefixes :
    PrefixAcked ackedRecords (ackedRecords.cumulativeAck "a" 255).1 "a" 255 (ackedRecords.cumulativeAck "a" 255).2 := by
  have hkeyed : KeyedInflight ackedRecords := by
    intro key v hget
    simp only [ackedRecords, write_cons, write_nil, get_apply_put, get_empty] at hget
    split at hget
    · rename_i hkey
      exact ⟨"ab", 2, by decide, by decide, hkey.2⟩
    · split at hget
      · rename_i hkey
        exact ⟨"a", 300, by decide, by decide, hkey.2⟩
      · split at hget
        · rename_i hkey
          exact ⟨"a", 3, by decide, by decide, hkey.2⟩
        · cases hget
  exact (cumulativeAck_exact hkeyed "a" 255).1

end Ack

end RocksQueue
