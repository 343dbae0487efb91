import RocksQueue.Theorems.Steps

/-! # Undisturbed calls

A thread that runs alone ends as `Tenant.exec` says. -/

namespace RocksQueue
open Interleaving

/-- The events of drawing a number for each of `ids`. -/
def mintedEvents (i : Nat) (queue : String) : Nat → List String → List Event
  | _, [] => []
  | seq, id :: ids => .minted i (encodeKey queue seq) id :: mintedEvents i queue (nextSeq seq) ids

section Enqueue
variable {tenant : String} {i now : Nat} {r : EnqueueRequest}

/-- The loop over the payloads. -/
theorem mint_solo {s : Shared} {ids done : List String} {payloads : List Bytes} {b : WriteBatch}
    (hlen : ids.length = payloads.length) (hpos : payloads ≠ []) (hnodup : ids.Nodup)
    (hfresh : ∀ id ∈ ids, id ∉ s.issued) (hseq : s.seq < u64Size) :
    (system tenant).Solo i s (.mint r now payloads b done)
      { s with
        seq := advance s.seq ids.length
        issued := ids.reverse ++ s.issued
        history := s.history ++ mintedEvents i r.queue s.seq ids }
      (.write .enqueue (b ++ enqueueLoop r.queue now s.seq (payloads.zip ids)) [.queue (lockName tenant r.queue)]
        (.enqueued (done ++ ids))) := by
  induction ids generalizing s payloads b done with
  | nil => exact absurd (List.length_eq_zero_iff.mp hlen.symm) hpos
  | cons id ids ih =>
    cases payloads with
    | nil => cases hlen
    | cons payload payloads =>
      obtain ⟨hid, hnodup'⟩ := List.nodup_cons.mp hnodup
      have hnew : id ∉ s.issued := hfresh id List.mem_cons_self
      let s₁ : Shared := { s.draw i (encodeKey r.queue s.seq) id with issued := id :: s.issued }
      let b₁ : WriteBatch := b ++ [enqueueOp r.queue now s.seq payload id]
      have hstep : Frame.step tenant s i (.mint r now (payload :: payloads) b done) { id := id } =
          some (s₁, Frame.nextMint tenant r now payloads b₁ (done ++ [id])) := by
        simp only [Frame.step, hnew, if_false]
        rfl
      -- The last payload ends the loop.
      by_cases hlast : payloads = []
      · subst hlast
        obtain rfl := List.length_eq_zero_iff.mp (Nat.succ.inj hlen)
        refine .step hstep ?_
        have hframe : Frame.nextMint tenant r now [] b₁ (done ++ [id]) =
            .write .enqueue b₁ [.queue (lockName tenant r.queue)] (.enqueued (done ++ [id])) := if_pos rfl
        rw [hframe]
        exact .refl
      · have hframe : Frame.nextMint tenant r now payloads b₁ (done ++ [id]) =
            .mint r now payloads b₁ (done ++ [id]) := if_neg hlast
        rw [hframe] at hstep
        have hfresh' : ∀ id' ∈ ids, id' ∉ s₁.issued := fun id' hmem hissued => by
          rcases List.mem_cons.mp hissued with rfl | hold
          · exact hid hmem
          · exact hfresh id' (List.mem_cons_of_mem _ hmem) hold
        have hrest := @ih s₁ (done ++ [id]) payloads b₁ (Nat.succ.inj hlen) hlast hnodup' hfresh' (Nat.mod_lt _ (by decide))
        refine .step hstep ?_
        simpa [s₁, b₁, Shared.draw, advance_succ, mintedEvents, enqueueLoop] using hrest

/-- What an enqueue of `ids` under no quota leaves. -/
def afterEnqueue (tenant : String) (i now : Nat) (r : EnqueueRequest) (ids : List String) (s : Shared) : Shared :=
  let batch := enqueueLoop r.queue now s.seq (r.payloads.zip ids)
  { s with
    db := s.db.write batch
    seq := advance s.seq ids.length
    locks := fun l => if l = .queue (lockName tenant r.queue) then none else s.locks l
    issued := ids.reverse ++ s.issued
    history := s.history ++ mintedEvents i r.queue s.seq ids ++
      [.wrote ⟨i, .enqueue, batch, s.db, some (.enqueued ids)⟩] }

def lockedBy (i : Nat) (l : Lock) (s : Shared) : Shared :=
  { s with locks := fun l' => if l' = l then some i else s.locks l' }

theorem acquire_eq {s : Shared} {l : Lock} (hfree : s.locks l = none) : s.acquire i l = some (lockedBy i l s) := by
  simp [Shared.acquire, lockedBy, hfree]

theorem enqueueLock_step {s : Shared} (hfree : s.locks (.queue (lockName tenant r.queue)) = none)
    (hquota : r.policy.backlogQuota = none) (hpos : r.payloads ≠ []) :
    Frame.step tenant s i (.enqueueLock r) { now := now } =
      some (lockedBy i (.queue (lockName tenant r.queue)) s, .mint r now r.payloads [] []) := by
  simp [Frame.step, acquire_eq hfree, Frame.beginQuota, hquota, Frame.beginMint, hpos]

theorem enqueue_solo {s : Shared} {ids : List String} (hfree : s.locks (.queue (lockName tenant r.queue)) = none)
    (hquota : r.policy.backlogQuota = none) (hpos : r.payloads ≠ []) (hlen : ids.length = r.payloads.length)
    (hnodup : ids.Nodup) (hfresh : ∀ id ∈ ids, id ∉ s.issued) (hseq : s.seq < u64Size) :
    (system tenant).Solo i s (.enqueueLock r) (afterEnqueue tenant i now r ids s) (.returned (.enqueued ids)) := by
  refine .step (a := { now := now }) (enqueueLock_step hfree hquota hpos) (.trans (mint_solo hlen hpos hnodup hfresh hseq) ?_)
  refine .step (a := {}) rfl (.step (a := {}) ?_ .refl)
  simp only [system, Frame.step, afterEnqueue, Shared.release, Shared.write, lockedBy, List.nil_append]
  congr 3
  funext l
  by_cases hl : l = .queue (lockName tenant r.queue)
  · simp [hl]
  · simp [hl]

end Enqueue

end RocksQueue
