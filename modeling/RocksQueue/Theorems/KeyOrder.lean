import RocksQueue.Task

/-! # The order of the keys

A key decodes to what it was made of, the keys of a queue are in the order of their numbers, and the prefix extractor
cuts a key where its queue's name ends. It keeps the order of the keys, as RocksDB asks of one. -/

namespace RocksQueue

/-! ## The prefix extractor -/

/-- `queue_prefix_transform`: the key up to its first NUL, or the whole key. -/
def queuePrefixTransform (key : Key) : Key :=
  match key.findIdx? (· == 0) with
  | some idx => key.take (idx + 1)
  | none => key

/-- `queue_prefix_in_domain`. -/
def queuePrefixInDomain (key : Key) : Bool := key.contains 0

section Transform
variable {key : Key} {name rest : Bytes}

theorem queuePrefixTransform_of_split (hname : (0 : UInt8) ∉ name) :
    queuePrefixTransform (name ++ 0 :: rest) = name ++ [0] := by
  have hbefore : name.findIdx? (· == 0) = none := by
    rw [List.findIdx?_eq_none_iff]
    intro b hb
    exact beq_eq_false_iff_ne.mpr fun heq => hname (heq ▸ hb)
  have hidx : (name ++ 0 :: rest).findIdx? (· == 0) = some name.length := by
    rw [List.findIdx?_append, hbefore]
    simp [List.findIdx?_cons]
  rw [queuePrefixTransform, hidx]
  have htake : name.take (name.length + 1) = name := List.take_of_length_le (Nat.le_succ _)
  simp [List.take_append, htake]

/-- A key of the domain is split at its first NUL. -/
theorem split_of_inDomain (h : queuePrefixInDomain key = true) :
    ∃ name rest, key = name ++ 0 :: rest ∧ (0 : UInt8) ∉ name ∧ queuePrefixTransform key = name ++ [0] := by
  obtain ⟨name, rest, rfl, hname⟩ := List.eq_append_cons_of_mem (List.contains_iff_mem.mp h)
  exact ⟨name, rest, rfl, hname, queuePrefixTransform_of_split hname⟩

theorem queuePrefixTransform_starts (h : queuePrefixInDomain key = true) : queuePrefixTransform key <+: key := by
  obtain ⟨name, rest, rfl, -, htransform⟩ := split_of_inDomain h
  rw [htransform]
  exact ⟨rest, List.append_assoc _ _ _⟩

theorem queuePrefixTransform_idem (h : queuePrefixInDomain key = true) :
    queuePrefixTransform (queuePrefixTransform key) = queuePrefixTransform key := by
  obtain ⟨name, rest, rfl, hname, htransform⟩ := split_of_inDomain h
  rw [htransform]
  exact queuePrefixTransform_of_split hname

theorem queuePrefixTransform_mono {key' : Key} (h : queuePrefixInDomain key = true) (h' : queuePrefixInDomain key' = true)
    (hle : key ≤ key') : queuePrefixTransform key ≤ queuePrefixTransform key' := by
  obtain ⟨name, rest, rfl, hname, htransform⟩ := split_of_inDomain h
  obtain ⟨name', rest', rfl, hname', htransform'⟩ := split_of_inDomain h'
  rw [htransform, htransform']
  exact Bytes.append_sep_le hname hname' hle

end Transform

/-! ## Keys and queues -/

section Keys
variable {q r : String} {s t : Nat}

/-- The extractor finds the prefix by which the records of a queue are scanned. -/
theorem queuePrefixTransform_encodeKey (hq : NulFree q) : queuePrefixTransform (encodeKey q s) = queuePrefix q := by
  have hsplit : encodeKey q s = Bytes.utf8 q ++ 0 :: Bytes.toBe 8 s := by
    rw [encodeKey, queuePrefix, List.append_assoc]
    rfl
  rw [hsplit]
  exact queuePrefixTransform_of_split hq

theorem encodeKey_lt_iff (hs : s < u64Size) (ht : t < u64Size) : encodeKey q s < encodeKey q t ↔ s < t := by
  constructor
  · intro hlt
    by_contra hnot
    rcases Nat.eq_or_lt_of_le (Nat.not_lt.mp hnot) with rfl | hgt
    · exact lt_irrefl _ hlt
    · exact lt_asymm hlt (encodeKey_lt hs hgt)
  · exact encodeKey_lt ht

theorem prefix_encodeKey_iff (hq : NulFree q) (hr : NulFree r) : queuePrefix r <+: encodeKey q s ↔ q = r := by
  constructor
  · intro hprefix
    exact queue_unique hq hr (inQueue_encodeKey q s) (inQueue_iff.mpr hprefix)
  · rintro rfl
    exact inQueue_iff.mp (inQueue_encodeKey q s)

/-- Keys decode, sort and separate as they should, and the prefix extractor is lawful. -/
theorem keys_lawful :
    (∀ q s, s < 2 ^ 64 → decodeKeySeq (encodeKey q s) = some s) ∧
    (∀ q r s t, s < 2 ^ 64 → t < 2 ^ 64 → encodeKey q s = encodeKey r t → q = r ∧ s = t) ∧
    (∀ q s t, s < 2 ^ 64 → t < 2 ^ 64 → (encodeKey q s < encodeKey q t ↔ s < t)) ∧
    (∀ q r s, NulFree q → NulFree r → (queuePrefix r <+: encodeKey q s ↔ q = r)) ∧
    (∀ q s, NulFree q → queuePrefixTransform (encodeKey q s) = queuePrefix q) ∧
    (∀ k, queuePrefixInDomain k = true → queuePrefixTransform k <+: k ∧
      queuePrefixTransform (queuePrefixTransform k) = queuePrefixTransform k) ∧
    ∀ k l, queuePrefixInDomain k = true → queuePrefixInDomain l = true → k ≤ l →
      queuePrefixTransform k ≤ queuePrefixTransform l := by
  refine ⟨?_, ?_, ?_, ?_, ?_, ?_, ?_⟩
  · intro q s hs
    exact decodeKeySeq_encodeKey q hs
  · intro q r s t hs ht heq
    exact encodeKey_inj hs ht heq
  · intro q s t hs ht
    exact encodeKey_lt_iff hs ht
  · intro q r s hq hr
    exact prefix_encodeKey_iff hq hr
  · intro q s hq
    exact queuePrefixTransform_encodeKey hq
  · intro k hk
    exact ⟨queuePrefixTransform_starts hk, queuePrefixTransform_idem hk⟩
  · intro k l hk hl hle
    exact queuePrefixTransform_mono hk hl hle

theorem keys_lawful_default : decodeKeySeq (encodeKey "default" 256) = some 256 ∧
    encodeKey "default" 255 < encodeKey "default" 256 ∧
    queuePrefixTransform (encodeKey "default" 256) = queuePrefix "default" := by
  obtain ⟨hdecodes, -, hsorts, -, hcuts, -⟩ := keys_lawful
  exact ⟨hdecodes "default" 256 (by decide), (hsorts "default" 255 256 (by decide) (by decide)).mpr (by decide),
    hcuts "default" 256 (by decide)⟩

end Keys

end RocksQueue
