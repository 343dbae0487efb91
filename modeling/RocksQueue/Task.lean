import RocksQueue.Lib.Bytes

/-! # Tasks and their keys

`task.rs`: the task record, the poison envelope, and the key of a stored record, which is the queue's
name, a NUL byte and the big-endian sequence number. -/

namespace RocksQueue

/-- One more than the largest `u64`. -/
def u64Size : Nat := 2 ^ 64

/-- One more than the largest `u32`. -/
def u32Size : Nat := 2 ^ 32

/-- `u64::saturating_add`. -/
def saturatingAdd (a b : Nat) : Nat := min (a + b) (u64Size - 1)

/-- `Task`: `enqueuedAt` and `deadline` are milliseconds of the wall clock, and the deadline is 0 while
    the task is not delivered. -/
structure Task where
  id : String
  queue : String
  payload : Bytes
  enqueuedAt : Nat
  attempts : Nat
  deadline : Nat
  deriving DecidableEq, Repr

/-- A stored byte string as `Task::deserialize` sees it: the bytes of a task, or bytes it rejects. The
    encoding itself (bincode) is not part of the repository; deserializing a serialized task gives the
    task back. -/
inductive Value where
  | task (t : Task)
  | corrupt (raw : Bytes)
  deriving DecidableEq, Repr

def Task.serialize (t : Task) : Value := .task t

def Task.deserialize : Value → Option Task
  | .task t => some t
  | .corrupt _ => none

/-- The envelope of unparseable bytes; its `attempts` is `u32::MAX`. -/
def Task.poison (queue : String) (raw : Bytes) (now : Nat) : Task where
  id := "corrupt-" ++ toString now
  queue := queue
  payload := raw
  enqueuedAt := now
  attempts := u32Size - 1
  deadline := 0

@[simp] theorem Task.deserialize_serialize (t : Task) : Task.deserialize t.serialize = some t := rfl

/-! ## Keys -/

abbrev Key := Bytes

/-- `{queue_bytes}\x00`. -/
def queuePrefix (queue : String) : Key := Bytes.utf8 queue ++ [0]

/-- `{queue_bytes}\x00{seq_be_8bytes}`. -/
def encodeKey (queue : String) (seq : Nat) : Key := queuePrefix queue ++ Bytes.toBe 8 seq

/-- The sequence number in the last eight bytes. -/
def decodeKeySeq (key : Key) : Option Nat :=
  if key.length < 8 then none else some (Bytes.ofBe (key.drop (key.length - 8)))

/-- The bytes before the first NUL, or the whole key. -/
def keyQueueBytes (key : Key) : Bytes := key.takeWhile (· ≠ 0)

/-- The key is one of the records of `queue`, as a scan bounded by the queue's prefix sees it. -/
def inQueue (queue : String) (key : Key) : Bool := (queuePrefix queue).isPrefixOf key

/-- No NUL byte in the name. -/
def NulFree (queue : String) : Prop := (0 : UInt8) ∉ Bytes.utf8 queue

instance (queue : String) : Decidable (NulFree queue) := inferInstanceAs (Decidable (¬_))

theorem inQueue_iff {queue : String} {key : Key} : inQueue queue key = true ↔ queuePrefix queue <+: key :=
  List.isPrefixOf_iff_prefix

theorem inQueue_encodeKey (queue : String) (seq : Nat) : inQueue queue (encodeKey queue seq) = true :=
  inQueue_iff.mpr (List.prefix_append _ _)

@[simp] theorem length_encodeKey (queue : String) (seq : Nat) :
    (encodeKey queue seq).length = (Bytes.utf8 queue).length + 9 := by
  simp [encodeKey, queuePrefix]

theorem decodeKeySeq_encodeKey (queue : String) {seq : Nat} (h : seq < u64Size) :
    decodeKeySeq (encodeKey queue seq) = some seq := by
  have hlen : ¬(encodeKey queue seq).length < 8 := by simp
  have hdrop : (encodeKey queue seq).drop ((encodeKey queue seq).length - 8) = Bytes.toBe 8 seq := by
    rw [length_encodeKey, encodeKey]
    exact List.drop_left' (by simp [queuePrefix])
  rw [decodeKeySeq, if_neg hlen, hdrop, Bytes.ofBe_toBe_of_lt (by simpa [u64Size] using h)]

theorem encodeKey_inj {q q' : String} {s s' : Nat} (hs : s < u64Size) (hs' : s' < u64Size)
    (h : encodeKey q s = encodeKey q' s') : q = q' ∧ s = s' := by
  have hseq : some s = some s' := by
    rw [← decodeKeySeq_encodeKey q hs, h, decodeKeySeq_encodeKey q' hs']
  obtain rfl := Option.some.inj hseq
  have hprefix : queuePrefix q = queuePrefix q' := List.append_cancel_right h
  exact ⟨Bytes.utf8_inj (List.append_cancel_right hprefix), rfl⟩

/-- The keys of a queue are in the order of their numbers. -/
theorem encodeKey_lt {queue : String} {m n : Nat} (hn : n < u64Size) (h : m < n) :
    encodeKey queue m < encodeKey queue n :=
  List.append_left_lt (Bytes.toBe_lt_toBe (by simpa [u64Size] using hn) h)

/-- Two queues without a NUL in their names have no record in common. -/
theorem queue_unique {q q' : String} {key : Key} (hq : NulFree q) (hq' : NulFree q')
    (h : inQueue q key = true) (h' : inQueue q' key = true) : q = q' :=
  Bytes.utf8_inj (Bytes.eq_of_prefix_of_prefix hq hq' (inQueue_iff.mp h) (inQueue_iff.mp h'))

/-! ## Lossy decoding -/

/-- A continuation byte of UTF-8, read as 0 past the end. -/
private def isContinuation (b : UInt8) : Bool := 0x80 ≤ b && b ≤ 0xBF

/-- The second byte of a three- or four-byte character may not be any continuation byte. -/
private def secondOk (b c : UInt8) : Bool :=
  if b = 0xE0 then 0xA0 ≤ c && c ≤ 0xBF
  else if b = 0xED then 0x80 ≤ c && c ≤ 0x9F
  else if b = 0xF0 then 0x90 ≤ c && c ≤ 0xBF
  else if b = 0xF4 then 0x80 ≤ c && c ≤ 0x8F
  else isContinuation c

/-- The character that starts with `b`, and how many bytes of `rest` it takes; U+FFFD in place of the
    longest start of a character when it is broken off. -/
private def lossyChar (b : UInt8) (rest : Bytes) : Char × Nat :=
  let c₁ := rest.getD 0 0
  let c₂ := rest.getD 1 0
  let c₃ := rest.getD 2 0
  let low (c : UInt8) : Nat := c.toNat % 64
  if b < 0x80 then (Char.ofNat b.toNat, 0)
  else if 0xC2 ≤ b ∧ b ≤ 0xDF then
    if isContinuation c₁ then (Char.ofNat (b.toNat % 32 * 64 + low c₁), 1) else ('\uFFFD', 0)
  else if 0xE0 ≤ b ∧ b ≤ 0xEF then
    if !secondOk b c₁ then ('\uFFFD', 0)
    else if !isContinuation c₂ then ('\uFFFD', 1)
    else (Char.ofNat ((b.toNat % 16 * 64 + low c₁) * 64 + low c₂), 2)
  else if 0xF0 ≤ b ∧ b ≤ 0xF4 then
    if !secondOk b c₁ then ('\uFFFD', 0)
    else if !isContinuation c₂ then ('\uFFFD', 1)
    else if !isContinuation c₃ then ('\uFFFD', 2)
    else (Char.ofNat (((b.toNat % 8 * 64 + low c₁) * 64 + low c₂) * 64 + low c₃), 3)
  else ('\uFFFD', 0)

private def lossyChars : Nat → Bytes → List Char
  | 0, _ => []
  | _ + 1, [] => []
  | n + 1, b :: rest =>
    let (c, taken) := lossyChar b rest
    c :: lossyChars n (rest.drop taken)

/-- `String::from_utf8_lossy`. -/
def fromUtf8Lossy (bs : Bytes) : String := String.ofList (lossyChars bs.length bs)

example : fromUtf8Lossy (Bytes.utf8 "é€😀") = "é€😀" := by decide

example : fromUtf8Lossy [0x61, 0xE2, 0x82, 0x62, 0xFF] = "a\uFFFDb\uFFFD" := by decide


theorem utf8_eq_flatMap (s : String) : Bytes.utf8 s = s.toList.flatMap String.utf8EncodeChar := by
  rw [Bytes.utf8, String.toUTF8, ← String.utf8Encode_toList, List.utf8Encode]
  simp

section Decoding
variable {b c₁ c₂ c₃ : UInt8} {bs : Bytes}

private theorem isContinuation_iff : isContinuation b = true ↔ 0x80 ≤ b.toNat ∧ b.toNat ≤ 0xBF := by
  simp [isContinuation, UInt8.le_iff_toNat_le]

private theorem lossyChar_one (hb : b.toNat < 0x80) : lossyChar b bs = (Char.ofNat b.toNat, 0) := by
  simp [lossyChar, UInt8.lt_iff_toNat_lt, hb]

private theorem lossyChar_two (hlow : 0xC2 ≤ b.toNat) (hhigh : b.toNat ≤ 0xDF) (h₁ : isContinuation c₁ = true) :
    lossyChar b (c₁ :: bs) = (Char.ofNat (b.toNat % 32 * 64 + c₁.toNat % 64), 1) := by
  have hnot : ¬b.toNat < 0x80 := by omega
  simp [lossyChar, UInt8.lt_iff_toNat_lt, UInt8.le_iff_toNat_le, hnot, hlow, hhigh, h₁]

private theorem lossyChar_three (hlow : 0xE0 ≤ b.toNat) (hhigh : b.toNat ≤ 0xEF) (h₁ : secondOk b c₁ = true)
    (h₂ : isContinuation c₂ = true) : lossyChar b (c₁ :: c₂ :: bs) =
      (Char.ofNat ((b.toNat % 16 * 64 + c₁.toNat % 64) * 64 + c₂.toNat % 64), 2) := by
  have hnot : ¬b.toNat < 0x80 := by omega
  have hnot' : ¬b.toNat ≤ 0xDF := by omega
  simp [lossyChar, UInt8.lt_iff_toNat_lt, UInt8.le_iff_toNat_le, hnot, hnot', hlow, hhigh, h₁, h₂]

private theorem lossyChar_four (hlow : 0xF0 ≤ b.toNat) (hhigh : b.toNat ≤ 0xF4) (h₁ : secondOk b c₁ = true)
    (h₂ : isContinuation c₂ = true) (h₃ : isContinuation c₃ = true) : lossyChar b (c₁ :: c₂ :: c₃ :: bs) =
      (Char.ofNat (((b.toNat % 8 * 64 + c₁.toNat % 64) * 64 + c₂.toNat % 64) * 64 + c₃.toNat % 64), 3) := by
  have hnot : ¬b.toNat < 0x80 := by omega
  have hnot' : ¬b.toNat ≤ 0xDF := by omega
  have hnot'' : ¬b.toNat ≤ 0xEF := by omega
  simp [lossyChar, UInt8.lt_iff_toNat_lt, UInt8.le_iff_toNat_le, hnot, hnot', hnot'', hlow, hhigh, h₁, h₂, h₃]

/-- The second byte, by the value of the first. -/
private theorem secondOk_of (hcont : 0x80 ≤ c₁.toNat ∧ c₁.toNat ≤ 0xBF) (hE0 : b.toNat = 0xE0 → 0xA0 ≤ c₁.toNat)
    (hED : b.toNat = 0xED → c₁.toNat ≤ 0x9F) (hF0 : b.toNat = 0xF0 → 0x90 ≤ c₁.toNat)
    (hF4 : b.toNat = 0xF4 → c₁.toNat ≤ 0x8F) : secondOk b c₁ = true := by
  have heq : ∀ n : UInt8, b = n ↔ b.toNat = n.toNat := fun n => UInt8.toNat_inj.symm
  have hboth : ∀ {m n : UInt8}, m.toNat ≤ c₁.toNat → c₁.toNat ≤ n.toNat → (decide (m ≤ c₁) && decide (c₁ ≤ n)) = true :=
    fun hm hn => by simp [UInt8.le_iff_toNat_le, hm, hn]
  simp only [secondOk, heq]
  split
  · rename_i h
    exact hboth (hE0 h) hcont.2
  · split
    · rename_i h
      exact hboth hcont.1 (hED h)
    · split
      · rename_i h
        exact hboth (hF0 h) hcont.2
      · split
        · rename_i h
          exact hboth hcont.1 (hF4 h)
        · exact isContinuation_iff.mpr hcont

/-- An encoded character is decoded, and nothing of what follows it is taken. -/
private theorem lossyChar_encode (c : Char) (rest : Bytes) : ∃ b bs, String.utf8EncodeChar c = b :: bs ∧
    lossyChar b (bs ++ rest) = (c, bs.length) := by
  have hc : Char.ofNat c.toNat = c := Char.ofNat_toNat c
  have hvalid : c.toNat < 0xD800 ∨ 0xDFFF < c.toNat ∧ c.toNat < 0x110000 := c.valid
  have hval : c.val.toNat = c.toNat := rfl
  have hbyte : ∀ n < 256, (UInt8.ofNat n).toNat = n := fun n hn => UInt8.toNat_ofNat_of_lt' hn
  simp only [String.utf8EncodeChar, hval]
  generalize c.toNat = v at hc hvalid
  have hlast := hbyte (v % 64 + 128) (by omega)
  have hmid := hbyte (v / 64 % 64 + 128) (by omega)
  split
  · have h₀ := hbyte v (by omega)
    refine ⟨_, _, rfl, ?_⟩
    rw [lossyChar_one (by omega), h₀, hc]
    rfl
  · split
    · have h₀ := hbyte (v / 64 % 32 + 192) (by omega)
      refine ⟨_, _, rfl, ?_⟩
      rw [List.cons_append, lossyChar_two (by omega) (by omega) (isContinuation_iff.mpr (by omega)), h₀, hlast]
      have hv : (v / 64 % 32 + 192) % 32 * 64 + (v % 64 + 128) % 64 = v := by omega
      rw [hv, hc]
      rfl
    · split
      · have h₀ := hbyte (v / 4096 % 16 + 224) (by omega)
        refine ⟨_, _, rfl, ?_⟩
        rw [List.cons_append, List.cons_append, lossyChar_three (by omega) (by omega)
          (secondOk_of (by omega) (by omega) (by omega) (by omega) (by omega)) (isContinuation_iff.mpr (by omega)), h₀, hmid, hlast]
        have hv : ((v / 4096 % 16 + 224) % 16 * 64 + (v / 64 % 64 + 128) % 64) * 64 + (v % 64 + 128) % 64 = v := by
          omega
        rw [hv, hc]
        rfl
      · have h₀ := hbyte (v / 262144 % 8 + 240) (by omega)
        have h₁ := hbyte (v / 4096 % 64 + 128) (by omega)
        refine ⟨_, _, rfl, ?_⟩
        rw [List.cons_append, List.cons_append, List.cons_append, lossyChar_four (by omega) (by omega)
          (secondOk_of (by omega) (by omega) (by omega) (by omega) (by omega)) (isContinuation_iff.mpr (by omega))
          (isContinuation_iff.mpr (by omega)), h₀, h₁, hmid, hlast]
        have hv : (((v / 262144 % 8 + 240) % 8 * 64 + (v / 4096 % 64 + 128) % 64) * 64 + (v / 64 % 64 + 128) % 64) * 64 +
            (v % 64 + 128) % 64 = v := by omega
        rw [hv, hc]
        rfl

private theorem lossyChars_encode {n : Nat} (cs : List Char) (h : (cs.flatMap String.utf8EncodeChar).length ≤ n) :
    lossyChars n (cs.flatMap String.utf8EncodeChar) = cs := by
  induction cs generalizing n with
  | nil => cases n <;> rfl
  | cons c cs ih =>
    rw [List.flatMap_cons] at h ⊢
    obtain ⟨b, bs, henc, hdec⟩ := lossyChar_encode c (cs.flatMap String.utf8EncodeChar)
    rw [henc, List.cons_append, List.length_cons, List.length_append] at h
    rw [henc, List.cons_append]
    cases n with
    | zero => omega
    | succ n =>
      simp only [lossyChars, hdec]
      rw [List.drop_left, ih (by omega)]

/-- Decoding gives back a string that was encoded. -/
theorem fromUtf8Lossy_utf8 (s : String) : fromUtf8Lossy (Bytes.utf8 s) = s := by
  rw [fromUtf8Lossy, utf8_eq_flatMap, lossyChars_encode _ (Nat.le_refl _), String.ofList_toList]

end Decoding

end RocksQueue
