import RocksQueue.Retention
import RocksQueue.Server

/-! # Waiting for room

Under `BacklogPolicy::Block` an enqueue waits for room until a deadline, the sum of the clock and a timeout that a
client has chosen. The loop keeps to its deadline; the sum is taken in 64 bits, and a deadline that has wrapped lies
in the past. -/

namespace RocksQueue

section Loop
variable {tenant queue : String} {quota incoming deadline current now : Nat} {before after readings : List (Nat × Nat)}
  {r : Except QueueError Unit}

/-- The reading of the backlog leaves no room, and comes before the deadline. -/
def KeepsWaiting (quota incoming deadline : Nat) (reading : Nat × Nat) : Prop :=
  quota < reading.1 + incoming ∧ reading.2 < deadline

/-- The loop goes on past the readings at which it waits. -/
theorem waitLoop_append (h : ∀ reading ∈ before, KeepsWaiting quota incoming deadline reading) :
    waitLoop tenant queue quota incoming deadline (before ++ readings) =
      waitLoop tenant queue quota incoming deadline readings := by
  induction before with
  | nil => rfl
  | cons reading before ih =>
    obtain ⟨hfirst, hrest⟩ := List.forall_mem_cons.mp h
    rw [List.cons_append, waitLoop, if_neg (Nat.not_le.mpr hfirst.1), if_neg (Nat.not_le.mpr hfirst.2)]
    exact ih hrest

/-- The loop ends at the first reading at which it does not wait. -/
theorem waitLoop_some (h : waitLoop tenant queue quota incoming deadline readings = some r) :
    ∃ before current now after, readings = before ++ (current, now) :: after ∧
      (∀ reading ∈ before, KeepsWaiting quota incoming deadline reading) ∧
      ((current + incoming ≤ quota ∧ r = .ok ()) ∨
        (quota < current + incoming ∧ deadline ≤ now ∧ r = .error (quotaExceeded tenant queue current quota incoming))) := by
  induction readings with
  | nil => cases h
  | cons reading readings ih =>
    obtain ⟨current, now⟩ := reading
    rw [waitLoop] at h
    split at h
    · rename_i hroom
      exact ⟨[], current, now, readings, rfl, List.forall_mem_nil _, Or.inl ⟨hroom, (Option.some.inj h).symm⟩⟩
    · rename_i hfull
      have hover : quota < current + incoming := Nat.not_le.mp hfull
      split at h
      · rename_i hlate
        exact ⟨[], current, now, readings, rfl, List.forall_mem_nil _,
          Or.inr ⟨hover, hlate, (Option.some.inj h).symm⟩⟩
      · rename_i hearly
        obtain ⟨before, c, n, after, rfl, hbefore, hend⟩ := ih h
        refine ⟨(current, now) :: before, c, n, after, rfl, ?_, hend⟩
        intro reading hmem
        rcases List.mem_cons.mp hmem with rfl | hmem
        · exact ⟨hover, Nat.not_le.mp hearly⟩
        · exact hbefore reading hmem

theorem waitLoop_ok_iff :
    waitLoop tenant queue quota incoming deadline readings = some (.ok ()) ↔
      ∃ before current now after, readings = before ++ (current, now) :: after ∧
        (∀ reading ∈ before, KeepsWaiting quota incoming deadline reading) ∧ current + incoming ≤ quota := by
  constructor
  · intro h
    obtain ⟨before, current, now, after, heq, hbefore, ⟨hroom, -⟩ | ⟨-, -, herror⟩⟩ := waitLoop_some h
    · exact ⟨before, current, now, after, heq, hbefore, hroom⟩
    · cases herror
  · rintro ⟨before, current, now, after, rfl, hbefore, hroom⟩
    rw [waitLoop_append hbefore, waitLoop, if_pos hroom]

theorem waitLoop_error_iff {e : QueueError} :
    waitLoop tenant queue quota incoming deadline readings = some (.error e) ↔
      ∃ before current now after, readings = before ++ (current, now) :: after ∧
        (∀ reading ∈ before, KeepsWaiting quota incoming deadline reading) ∧ quota < current + incoming ∧
        deadline ≤ now ∧ e = quotaExceeded tenant queue current quota incoming := by
  constructor
  · intro h
    obtain ⟨before, current, now, after, heq, hbefore, ⟨-, hok⟩ | ⟨hover, hlate, herror⟩⟩ := waitLoop_some h
    · cases hok
    · exact ⟨before, current, now, after, heq, hbefore, hover, hlate, Except.error.inj herror⟩
  · rintro ⟨before, current, now, after, rfl, hbefore, hover, hlate, rfl⟩
    rw [waitLoop_append hbefore, waitLoop, if_neg (Nat.not_le.mpr hover), if_pos hlate]

end Loop

/-- The wait of `enforce_quota` in a build, from `start` on: `none` when it panics, and `some none` while it still
    waits after all the readings. -/
def Build.wait (build : Build) (tenant queue : String) (quota incoming start timeoutMs : Nat)
    (readings : List (Nat × Nat)) : Option (Option (Except QueueError Unit)) :=
  (build.add u64Size start timeoutMs).map fun deadline => waitLoop tenant queue quota incoming deadline readings

/-- An undisturbed enqueue in a release build reads the same backlog each time round. -/
theorem enforceQuota_block {tenant queue : String} {db : TenantDb} {policy : NamespacePolicy}
    {incoming quota timeoutMs : Nat} {io : Inputs} (hquota : policy.backlogQuota = some quota)
    (hpolicy : policy.backlogPolicy = .block timeoutMs) :
    some ((enforceQuota tenant db queue policy incoming io).map (Except.map fun _ => ())) =
      Build.release.wait tenant queue quota incoming io.now timeoutMs (io.polls.map fun now =>
        (db.countPrefix .pending queue + db.countPrefix .inflight queue, now)) := by
  simp only [enforceQuota, hquota, hpolicy, Build.wait, Build.add, Option.map_some]
  cases waitLoop tenant queue quota incoming ((io.now + timeoutMs) % u64Size)
      (io.polls.map fun now => (db.countPrefix .pending queue + db.countPrefix .inflight queue, now)) with
  | none => rfl
  | some r =>
    cases r with
    | error e => rfl
    | ok u => rfl

/-- Whatever the tenant, its quota and the readings: the deadline is the exact sum, the wait ends with an error only
    at a reading without room that is taken `timeoutMs` after the start, and it ends well at the first with room. -/
structure WaitsFully (build : Build) (start timeoutMs : Nat) : Prop where
  deadline : build.add u64Size start timeoutMs = some (start + timeoutMs)
  rejects : ∀ {tenant queue quota incoming readings e},
    build.wait tenant queue quota incoming start timeoutMs readings = some (some (.error e)) →
      ∃ before current now after, readings = before ++ (current, now) :: after ∧
        (∀ reading ∈ before, KeepsWaiting quota incoming (start + timeoutMs) reading) ∧
        start + timeoutMs ≤ now ∧ quota < current + incoming ∧ e = quotaExceeded tenant queue current quota incoming
  accepts : ∀ {tenant queue quota incoming readings},
    build.wait tenant queue quota incoming start timeoutMs readings = some (some (.ok ())) ↔
      ∃ before current now after, readings = before ++ (current, now) :: after ∧
        (∀ reading ∈ before, KeepsWaiting quota incoming (start + timeoutMs) reading) ∧ current + incoming ≤ quota

section Timeout
variable {build : Build} {start timeoutMs : Nat}

theorem Build.add_of_lt (h : start + timeoutMs < u64Size) :
    build.add u64Size start timeoutMs = some (start + timeoutMs) := by
  cases build with
  | release => rw [Build.add, Nat.mod_eq_of_lt h]
  | debug => rw [Build.add, if_pos h]

theorem Build.lt_of_add (h : build.add u64Size start timeoutMs = some (start + timeoutMs)) :
    start + timeoutMs < u64Size := by
  cases build with
  | release =>
    rw [← Option.some.inj h]
    exact Nat.mod_lt _ (by decide)
  | debug =>
    rw [Build.add] at h
    split at h
    · assumption
    · cases h

/-- The wait is as long as the timeout says exactly when the deadline fits into 64 bits. -/
theorem waitsFully_iff (build : Build) (start timeoutMs : Nat) :
    WaitsFully build start timeoutMs ↔ start + timeoutMs < 2 ^ 64 := by
  constructor
  · intro h
    exact Build.lt_of_add h.deadline
  · intro hlt
    have hdeadline : build.add u64Size start timeoutMs = some (start + timeoutMs) := Build.add_of_lt hlt
    have hwait : ∀ tenant queue quota incoming readings,
        build.wait tenant queue quota incoming start timeoutMs readings =
          some (waitLoop tenant queue quota incoming (start + timeoutMs) readings) := by
      intro tenant queue quota incoming readings
      rw [Build.wait, hdeadline, Option.map_some]
    refine ⟨hdeadline, ?_, ?_⟩
    · intro tenant queue quota incoming readings e herror
      rw [hwait, Option.some.injEq] at herror
      obtain ⟨before, current, now, after, heq, hbefore, hover, hlate, he⟩ := waitLoop_error_iff.mp herror
      exact ⟨before, current, now, after, heq, hbefore, hlate, hover, he⟩
    · intro tenant queue quota incoming readings
      rw [hwait, Option.some.injEq]
      exact waitLoop_ok_iff

/-- A deadline that has wrapped is over at once: a release build rejects at the first reading without room. -/
theorem wait_of_wrapped {tenant queue : String} {quota incoming current : Nat} {rest : List (Nat × Nat)}
    (hstart : start < u64Size) (htimeout : timeoutMs < u64Size) (hwraps : u64Size ≤ start + timeoutMs)
    (hover : quota < current + incoming) :
    Build.release.wait tenant queue quota incoming start timeoutMs ((current, start) :: rest) =
      some (some (.error (quotaExceeded tenant queue current quota incoming))) := by
  have hpast : (start + timeoutMs) % u64Size ≤ start := by
    simp only [u64Size] at hstart htimeout hwraps ⊢
    omega
  rw [Build.wait, Build.add, Option.map_some, waitLoop, if_neg (Nat.not_le.mpr hover), if_pos hpast]

/-- A client that wants to wait as long as it takes. -/
def waitForever : NamespacePolicyRequest where
  tenantId := "t"
  backlogQuota := 1
  backlogPolicy := "block"
  blockTimeoutMs := 18446744073709551615
  pendingRetentionSecs := 0
  dlqRetentionSecs := 0
  inflightStaleSecs := 0

/-- At clock 1 a release build rejects at once, and a debug build panics. -/
theorem not_waitsFully : waitForever.policy.backlogPolicy = .block (2 ^ 64 - 1) ∧
    Build.release.wait "t" "q" 1 1 1 (2 ^ 64 - 1) [(1, 1), (0, 51)] =
      some (some (.error (quotaExceeded "t" "q" 1 1 1))) ∧
    Build.debug.wait "t" "q" 1 1 1 (2 ^ 64 - 1) [(1, 1), (0, 51)] = none ∧
    ¬WaitsFully .release 1 (2 ^ 64 - 1) ∧ ¬WaitsFully .debug 1 (2 ^ 64 - 1) := by
  refine ⟨by decide, wait_of_wrapped (by decide) (by decide) (by decide) (by decide), by decide, ?_, ?_⟩
  · intro h
    exact absurd (Build.lt_of_add h.deadline) (by decide)
  · intro h
    exact absurd (Build.lt_of_add h.deadline) (by decide)

end Timeout

end RocksQueue
