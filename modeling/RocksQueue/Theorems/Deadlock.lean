import Mathlib.Data.List.Destutter
import Mathlib.Order.Interval.Finset.Nat
import Mathlib.Data.String.Basic
import RocksQueue.AckLocks
import RocksQueue.Lib.LockOrder
import RocksQueue.Theorems.Provision

/-! # No deadlock in `ack_batch`

The mutexes are ordered by the names of their entries. A call of `ack_batch` sorts its queues and drops the
duplicates, and all its names begin with its own tenant and a slash, so that it locks in ascending order. The
names of two tenants may be the same when the ids contain slashes, but they are compared as whole strings. -/

namespace RocksQueue
open Interleaving LockOrder

variable {R : Type}

/-- Thread `i` is about to lock the mutex. -/
def AwaitsLock (c : Config (AckTable R) (AckFrame R)) (i : Nat) (mutex : AckMutex) : Prop :=
  ∃ f, c.threads[i]? = some f ∧ f.awaited = some mutex

/-- Thread `i` has the mutex locked. -/
def HoldsLock (c : Config (AckTable R) (AckFrame R)) (i : Nat) (mutex : AckMutex) : Prop :=
  c.shared.holders mutex = some i

/-! ## The order in which a call locks -/

section Names
variable {tenant queue queue' : String}

theorem lockName_lt (h : queue < queue') : lockName tenant queue < lockName tenant queue' := by
  rw [String.lt_iff_toList_lt] at h ⊢
  simp only [lockName, String.toList_append]
  exact List.append_left_lt h

/-- The queues of a call, sorted and without duplicates. -/
theorem ackQueues_rising (keys : List Key) : (Frame.ackQueues keys).Pairwise (· < ·) := by
  unfold Frame.ackQueues
  generalize keys.map (fun key => fromUtf8Lossy (keyQueueBytes key)) = queues
  have hsorted : ((queues.insertionSort (· ≤ ·)).destutter (· ≠ ·)).Pairwise (· ≤ ·) :=
    (List.pairwise_insertionSort _ queues).sublist (List.destutter_sublist _ _)
  have hchain : ((queues.insertionSort (· ≤ ·)).destutter (· ≠ ·)).IsChain (· ≠ ·) := List.isChain_destutter _ _
  rw [List.isChain_iff_getElem] at hchain
  refine List.IsChain.pairwise (List.isChain_iff_getElem.mpr fun i hi => ?_)
  exact lt_of_le_of_ne (List.pairwise_iff_getElem.mp hsorted i (i + 1) (by omega) hi (by omega)) (hchain i hi)

end Names

/-- The names of the mutexes that a call locks, in this order. -/
def AckFrame.lockNames : AckFrame R → List String
  | .fetch tenant _ locks todo => locks.map AckMutex.name ++ todo.map (lockName tenant)
  | .lock _ _ guards todo => guards.map AckMutex.name ++ todo.map AckMutex.name
  | _ => []

section Steps
variable {s s' : AckTable R} {i : Nat} {f f' : AckFrame R} {fails : Bool} {tenant : String} {keys : List Key}

@[simp] theorem guards_nextGet (guards : List AckMutex) (todo seen counted : List Key) :
    (AckFrame.nextGet (R := R) tenant guards todo seen counted).guards = guards := by
  induction todo generalizing seen with
  | nil =>
    simp only [AckFrame.nextGet]
    split <;> rfl
  | cons key todo ih =>
    simp only [AckFrame.nextGet]
    split
    · exact ih seen
    · rfl

@[simp] theorem lockNames_nextGet (guards : List AckMutex) (todo seen counted : List Key) :
    (AckFrame.nextGet (R := R) tenant guards todo seen counted).lockNames = [] := by
  induction todo generalizing seen with
  | nil =>
    simp only [AckFrame.nextGet]
    split <;> rfl
  | cons key todo ih =>
    simp only [AckFrame.nextGet]
    split
    · exact ih seen
    · rfl

@[simp] theorem guards_nextLock (guards todo : List AckMutex) :
    (AckFrame.nextLock (R := R) tenant keys guards todo).guards = guards := by
  cases todo with
  | nil => exact guards_nextGet ..
  | cons mutex todo => rfl

theorem lockNames_nextLock (guards todo : List AckMutex) : List.Sublist
    (AckFrame.nextLock (R := R) tenant keys guards todo).lockNames (guards.map AckMutex.name ++ todo.map AckMutex.name) := by
  cases todo with
  | nil => simp [AckFrame.nextLock]
  | cons mutex todo => exact .refl _

@[simp] theorem guards_nextFetch (locks : List AckMutex) (todo : List String) :
    (AckFrame.nextFetch (R := R) tenant keys locks todo).guards = [] := by
  cases todo with
  | nil => exact guards_nextLock ..
  | cons queue todo => rfl

theorem lockNames_nextFetch (locks : List AckMutex) (todo : List String) : List.Sublist
    (AckFrame.nextFetch (R := R) tenant keys locks todo).lockNames
    (locks.map AckMutex.name ++ todo.map (lockName tenant)) := by
  cases todo with
  | nil =>
    have hlock : List.Sublist (AckFrame.nextLock (R := R) tenant keys [] locks).lockNames _ := lockNames_nextLock [] locks
    simpa [AckFrame.nextFetch] using hlock
  | cons queue todo => exact .refl _

/-- The table keeps the mutexes under their names. -/
def EntriesNamed (s : AckTable R) : Prop :=
  ∀ {name : String} {mutex : AckMutex}, s.ackLocks name = some mutex → mutex.name = name

theorem ackLock_named (h : EntriesNamed s) (tenant queue : String) :
    EntriesNamed (s.ackLock tenant queue).1 ∧ (s.ackLock tenant queue).2.name = lockName tenant queue ∧
      (s.ackLock tenant queue).1.holders = s.holders := by
  simp only [AckTable.ackLock]
  split
  · rename_i mutex hentry
    exact ⟨h, h hentry, rfl⟩
  · refine ⟨fun {name mutex} hentry => ?_, rfl, rfl⟩
    dsimp only at hentry
    split at hentry
    · rename_i heq
      cases hentry
      exact heq.symm
    · exact h hentry

/-- What a step does to the locks. -/
inductive AckMove (s : AckTable R) (i : Nat) (f : AckFrame R) (s' : AckTable R) (f' : AckFrame R) : Prop where
  | kept (hholders : s'.holders = s.holders) (hguards : f.guards ⊆ f'.guards)
  | locked (mutex : AckMutex) (hfree : s.holders mutex = none)
      (hholders : s'.holders = fun m => if m = mutex then some i else s.holders m)
      (hguards : f'.guards = f.guards ++ [mutex])
  | unlocked (mutex : AckMutex) (hholders : s'.holders = fun m => if m = mutex then none else s.holders m)
      (hguards : f.guards = mutex :: f'.guards)

theorem start_rising (call : AckCall) : (call.start : AckFrame R).lockNames.Pairwise (· < ·) := by
  cases call <;> exact .nil

/-- A step keeps the names of the entries and the order of the names. -/
theorem step_rising (h : f.step s i fails = some (s', f')) (hs : EntriesNamed s) (hf : f.lockNames.Pairwise (· < ·)) :
    EntriesNamed s' ∧ f'.lockNames.Pairwise (· < ·) ∧ AckMove s i f s' f' := by
  cases f with
  | start tenant keys =>
    cases h
    -- `ack_batch` sorts the queues and drops duplicates, so the names of the locks rise.
    refine ⟨hs, ?_, .kept rfl (List.nil_subset _)⟩
    split
    · refine List.Pairwise.sublist (lockNames_nextFetch [] _) ?_
      exact List.pairwise_map.mpr ((ackQueues_rising keys).imp lockName_lt)
    · exact .nil
  | fetch tenant keys locks todo =>
    cases todo with
    | nil => cases h
    | cons queue todo =>
      simp only [AckFrame.step, Option.some.injEq, Prod.mk.injEq] at h
      obtain ⟨rfl, rfl⟩ := h
      -- The entry that is fetched has the name it is looked up under.
      obtain ⟨hnamed, hname, hholders⟩ := ackLock_named hs tenant queue
      refine ⟨hnamed, List.Pairwise.sublist (lockNames_nextFetch _ todo) ?_, .kept hholders (List.nil_subset _)⟩
      simpa [AckFrame.lockNames, hname] using hf
  | lock tenant keys guards todo =>
    cases todo with
    | nil => cases h
    | cons mutex todo =>
      obtain ⟨s₁, hlock, heq⟩ := Option.map_eq_some_iff.mp h
      cases heq
      unfold AckTable.lock at hlock
      split at hlock
      · rename_i hfree
        cases hlock
        refine ⟨hs, List.Pairwise.sublist (lockNames_nextLock _ todo) ?_, .locked mutex hfree rfl (guards_nextLock _ _)⟩
        simpa [AckFrame.lockNames] using hf
      · cases hlock
  | get tenant key todo seen counted guards =>
    simp only [AckFrame.step] at h
    split at h
    · cases h
      refine ⟨hs, ?_, .kept rfl ?_⟩
      · rw [lockNames_nextGet]
        exact .nil
      · rw [guards_nextGet]
        exact List.Subset.refl _
    · cases h
      exact ⟨hs, .nil, .kept rfl (List.Subset.refl _)⟩
  | write tenant counted guards =>
    simp only [AckFrame.step] at h
    split at h
    · rename_i s₁ hdelete
      cases h
      obtain ⟨cf, -, rfl⟩ := Option.map_eq_some_iff.mp hdelete
      exact ⟨hs, .nil, .kept rfl (List.Subset.refl _)⟩
    · cases h
      exact ⟨hs, .nil, .kept rfl (List.Subset.refl _)⟩
  | unlock guards =>
    cases guards with
    | nil =>
      cases h
      exact ⟨hs, .nil, .kept rfl (List.Subset.refl _)⟩
    | cons mutex guards =>
      cases h
      exact ⟨hs, .nil, .unlocked mutex rfl rfl⟩
  | drop tenant todo =>
    cases todo with
    | nil =>
      cases h
      exact ⟨hs, .nil, .kept rfl (List.Subset.refl _)⟩
    | cons d todo =>
      simp only [AckFrame.step] at h
      split at h <;> cases h <;> exact ⟨hs, .nil, .kept rfl (List.Subset.refl _)⟩
  | clear tenant =>
    cases h
    -- `drop_tenant` takes entries out of the table. Those that stay keep their names.
    refine ⟨fun {name mutex} hentry => ?_, .nil, .kept rfl (List.Subset.refl _)⟩
    simp only [AckTable.retain] at hentry
    split at hentry
    · cases hentry
    · exact hs hentry
  | returned => cases h

/-- A loop with nothing left to do is not a place where a call stands. -/
def AckFrame.Proper : AckFrame R → Prop
  | .fetch _ _ _ todo => todo ≠ []
  | .lock _ _ _ todo => todo ≠ []
  | _ => True

theorem proper_nextGet (guards : List AckMutex) (todo seen counted : List Key) :
    (AckFrame.nextGet (R := R) tenant guards todo seen counted).Proper := by
  induction todo generalizing seen with
  | nil =>
    simp only [AckFrame.nextGet]
    split <;> trivial
  | cons key todo ih =>
    simp only [AckFrame.nextGet]
    split
    · exact ih seen
    · trivial

theorem proper_nextLock (guards todo : List AckMutex) : (AckFrame.nextLock (R := R) tenant keys guards todo).Proper := by
  cases todo with
  | nil => exact proper_nextGet guards keys [] []
  | cons mutex todo => exact List.cons_ne_nil mutex todo

theorem proper_nextFetch (locks : List AckMutex) (todo : List String) :
    (AckFrame.nextFetch (R := R) tenant keys locks todo).Proper := by
  cases todo with
  | nil => exact proper_nextLock [] locks
  | cons queue todo => exact List.cons_ne_nil queue todo

/-- A call that has not returned takes its next step, unless it waits for a mutex that is locked. -/
theorem step_or_awaits (s : AckTable R) (i : Nat) (fails : Bool) (hproper : f.Proper) (hlive : f ≠ .returned) :
    (∃ s' f', f.step s i fails = some (s', f') ∧ f'.Proper) ∨
      ∃ mutex j, f.awaited = some mutex ∧ s.holders mutex = some j := by
  cases f with
  | start tenant keys =>
    refine Or.inl ⟨_, _, rfl, ?_⟩
    split
    · exact proper_nextFetch [] _
    · trivial
  | fetch tenant keys locks todo =>
    cases todo with
    | nil => exact absurd rfl hproper
    | cons queue todo => exact Or.inl ⟨_, _, rfl, proper_nextFetch _ todo⟩
  | lock tenant keys guards todo =>
    cases todo with
    | nil => exact absurd rfl hproper
    | cons mutex todo =>
      -- The one place where a call waits.
      cases hholder : s.holders mutex with
      | none =>
        left
        simp only [AckFrame.step, AckTable.lock, hholder, if_true, Option.map_some]
        exact ⟨_, _, rfl, proper_nextLock _ todo⟩
      | some j => exact Or.inr ⟨mutex, j, rfl, hholder⟩
  | get tenant key todo seen counted guards =>
    left
    simp only [AckFrame.step]
    split
    · exact ⟨_, _, rfl, proper_nextGet _ _ _ _⟩
    · exact ⟨_, _, rfl, trivial⟩
  | write tenant counted guards =>
    left
    simp only [AckFrame.step]
    split <;> exact ⟨_, _, rfl, trivial⟩
  | unlock guards => cases guards <;> exact Or.inl ⟨_, _, rfl, trivial⟩
  | drop tenant todo =>
    left
    cases todo with
    | nil => exact ⟨_, _, rfl, trivial⟩
    | cons d todo =>
      simp only [AckFrame.step]
      split <;> exact ⟨_, _, rfl, trivial⟩
  | clear tenant => exact Or.inl ⟨_, _, rfl, trivial⟩
  | returned => exact absurd rfl hlive

theorem step_proper (h : f.step s i fails = some (s', f')) (hproper : f.Proper) : f'.Proper := by
  have hlive : f ≠ .returned := by
    rintro rfl
    cases h
  rcases step_or_awaits s i fails hproper hlive with ⟨s₁, f₁, hstep, hf₁⟩ | ⟨mutex, j, hawaits, hholder⟩
  · cases h.symm.trans hstep
    exact hf₁
  · cases f with
    | lock tenant keys guards todo =>
      cases todo with
      | nil => cases h
      | cons m todo =>
        cases hawaits
        simp [AckFrame.step, AckTable.lock, hholder] at h
    | _ => cases hawaits

end Steps

/-! ## Reached states -/

section Runs
variable {registry : TenantRegistry R} {c c' : Config (AckTable R) (AckFrame R)}

/-- What the locks of a reached state keep. -/
structure LocksInOrder (c : Config (AckTable R) (AckFrame R)) : Prop where
  named : EntriesNamed c.shared
  rising : ∀ {i : Nat} {f : AckFrame R}, c.threads[i]? = some f → f.lockNames.Pairwise (· < ·)
  held : ∀ {i : Nat} {mutex : AckMutex}, HoldsLock c i mutex → ∃ f, c.threads[i]? = some f ∧ mutex ∈ f.guards
  proper : ∀ {i : Nat} {f : AckFrame R}, c.threads[i]? = some f → f.Proper

theorem AckMove.held {s s' : AckTable R} {i j : Nat} {f f' : AckFrame R} {mutex : AckMutex} (h : AckMove s i f s' f')
    (hholder : s'.holders mutex = some j) : s.holders mutex = some j ∧ (mutex ∈ f.guards → mutex ∈ f'.guards) ∨
      j = i ∧ mutex ∈ f'.guards := by
  cases h with
  | kept hholders hguards => exact Or.inl ⟨by rw [← hholders, hholder], fun hmem => hguards hmem⟩
  | locked m hfree hholders hguards =>
    rw [hholders] at hholder
    dsimp only at hholder
    split at hholder
    · rename_i heq
      exact Or.inr ⟨(Option.some.inj hholder).symm, by simp [hguards, heq]⟩
    · exact Or.inl ⟨hholder, fun hmem => by simp [hguards, hmem]⟩
  | unlocked m hholders hguards =>
    rw [hholders] at hholder
    dsimp only at hholder
    split at hholder
    · cases hholder
    · rename_i hne
      exact Or.inl ⟨hholder, fun hmem => (List.mem_cons.mp (hguards ▸ hmem)).resolve_left hne⟩

theorem LocksInOrder.next (h : LocksInOrder c) {l : Label AckCall Bool} (hn : (ackTableSystem R).next c l = some c') :
    LocksInOrder c' := by
  cases l with
  | call call =>
    cases hn
    refine ⟨h.named, fun hf => ?_, fun hholds => ?_, fun hf => ?_⟩
    · rcases getElem?_append_cases hf with ⟨rfl, rfl⟩ | hf
      · exact start_rising call
      · exact h.rising hf
    · obtain ⟨f, hf, hmem⟩ := h.held hholds
      refine ⟨f, ?_, hmem⟩
      rw [List.getElem?_append_left (List.getElem?_eq_some_iff.mp hf).1, hf]
    · rcases getElem?_append_cases hf with ⟨rfl, rfl⟩ | hf
      · cases call <;> trivial
      · exact h.proper hf
  | env =>
    cases hn
    exact ⟨h.named, h.rising, h.held, h.proper⟩
  | run i fails =>
    obtain ⟨f, s', f', hf, hs, rfl⟩ := System.next_run_inv hn
    obtain ⟨hnamed, hrising, hmove⟩ := step_rising hs h.named (h.rising hf)
    refine ⟨hnamed, fun hg => ?_, fun {j mutex} hholds => ?_, fun hg => ?_⟩
    · rcases getElem?_set_cases hg with ⟨rfl, rfl⟩ | ⟨-, hg⟩
      · exact hrising
      · exact h.rising hg
    · have hlt : i < c.threads.length := (List.getElem?_eq_some_iff.mp hf).1
      -- A mutex that is held was held before the step, or was locked by it.
      rcases hmove.held hholds with ⟨hbefore, hkept⟩ | ⟨rfl, hmem⟩
      · obtain ⟨g, hg, hmem⟩ := h.held hbefore
        by_cases hij : i = j
        · subst hij
          obtain rfl : f = g := Option.some.inj (hf.symm.trans hg)
          exact ⟨f', by simp [hlt], hkept hmem⟩
        · exact ⟨g, by simp [List.getElem?_set_ne hij, hg], hmem⟩
      · exact ⟨f', by simp [hlt], hmem⟩
    · rcases getElem?_set_cases hg with ⟨rfl, rfl⟩ | ⟨-, hg⟩
      · exact step_proper hs (h.proper hf)
      · exact h.proper hg

theorem locksInOrder_start : LocksInOrder ⟨AckTable.start registry, []⟩ where
  named h := by cases h
  rising h := by cases h
  held h := by cases h
  proper h := by cases h

theorem locksInOrder_of_run (h : (ackTableSystem R).Run (fun _ _ => True) ⟨.start registry, []⟩ c) : LocksInOrder c :=
  h.invariant (fun hi _ hn => LocksInOrder.next hi hn) locksInOrder_start

/-- The mutex that a call waits for comes after those whose guards it holds. -/
theorem LocksInOrder.ascending (h : LocksInOrder c) : Ascending AckMutex.name (AwaitsLock c) (HoldsLock c) := by
  rintro i l l' ⟨f, hf, hawaits⟩ hholds
  obtain ⟨g, hg, hmem⟩ := h.held hholds
  obtain rfl : f = g := Option.some.inj (hf.symm.trans hg)
  have hrising := h.rising hf
  cases f with
  | lock tenant keys guards todo =>
    cases todo with
    | nil => cases hawaits
    | cons mutex todo =>
      cases hawaits
      exact (List.pairwise_append.mp hrising).2.2 _ (List.mem_map_of_mem hmem) _ List.mem_cons_self
  | _ => cases hawaits

/-- `ack_batch` does not deadlock: no threads wait in a circle for locks that the next one holds, and none waits
    for a lock that it holds itself. -/
theorem ackBatch_never_deadlocks (h : (ackTableSystem R).Run (fun _ _ => True) ⟨.start registry, []⟩ c) :
    (∀ i, ¬Relation.TransGen (WaitsFor (AwaitsLock c) (HoldsLock c)) i i) ∧
      ∀ i mutex, AwaitsLock c i mutex → ¬HoldsLock c i mutex := by
  have hascending : Ascending AckMutex.name (AwaitsLock c) (HoldsLock c) := (locksInOrder_of_run h).ascending
  have hacyclic := hascending.acyclic
  exact ⟨hacyclic, fun i mutex hawaits hholds => hacyclic i (.single ⟨mutex, hawaits, hholds⟩)⟩

/-- As long as a call has not returned, one of the threads takes a step. -/
theorem ackBatch_progress (h : (ackTableSystem R).Run (fun _ _ => True) ⟨.start registry, []⟩ c) {i : Nat}
    {f : AckFrame R} (hf : c.threads[i]? = some f) (hlive : f ≠ .returned) (fails : Bool) :
    ∃ j c', (ackTableSystem R).next c (.run j fails) = some c' := by
  have hinv := locksInOrder_of_run h
  have hascending : Ascending AckMutex.name (AwaitsLock c) (HoldsLock c) := hinv.ascending
  let live : Set Nat := {j | ∃ g, c.threads[j]? = some g ∧ g ≠ .returned}
  have hfinite : live.Finite := (Set.finite_Iio c.threads.length).subset fun j ⟨g, hg, _⟩ =>
    (List.getElem?_eq_some_iff.mp hg).1
  obtain ⟨j, ⟨g, hg, hgl⟩, hfree⟩ := hascending.exists_free hfinite ⟨i, f, hf, hlive⟩
  rcases step_or_awaits c.shared j fails (hinv.proper hg) hgl with ⟨s', g', hstep, -⟩ | ⟨mutex, k, hawaits, hholds⟩
  · exact ⟨j, ⟨s', c.threads.set j g'⟩, by simp only [System.next, hg, ackTableSystem, hstep]⟩
  · obtain ⟨g', hg', hmem⟩ := hinv.held hholds
    have hlive' : g' ≠ .returned := by
      rintro rfl
      cases hmem
    exact absurd ⟨mutex, ⟨g, hg, hawaits⟩, hholds⟩ (hfree k ⟨g', hg', hlive'⟩)

/-- Two tenants, one id of which continues the other, as they are after they were provisioned. -/
def slashedTenants : TenantRegistry Rat :=
  (((emptyRegistry Rat).provisionTenant "t" (.standard "t")).1.provisionTenant "t/a" (.standard "t/a")).1

/-- The queue `a/b` of `t` and the queue `b` of `t/a` share a mutex: thread 0 has it locked, and thread 1 waits. -/
def sharedEntry : List (Label AckCall Bool) :=
  [.call (.ackBatch "t" [encodeKey "c" 2, encodeKey "a/b" 1]), .call (.ackBatch "t/a" [encodeKey "d" 4, encodeKey "b" 3]),
    .run 0 false, .run 0 false, .run 0 false, .run 0 false, .run 1 false, .run 1 false, .run 1 false]

theorem ackBatch_never_deadlocks_sharedEntry : ∃ c,
    (ackTableSystem Rat).exec ⟨.start slashedTenants, []⟩ sharedEntry = some c ∧
      WaitsFor (AwaitsLock c) (HoldsLock c) 1 0 ∧ ∀ i, ¬Relation.TransGen (WaitsFor (AwaitsLock c) (HoldsLock c)) i i := by
  have hsome : (((ackTableSystem Rat).exec ⟨.start slashedTenants, []⟩ sharedEntry).map fun c =>
      ((c.threads[1]?).bind AckFrame.awaited, c.shared.holders ⟨"t/a/b", 0⟩)) = some (some ⟨"t/a/b", 0⟩, some 0) := by rfl
  obtain ⟨c, hc, hlocks⟩ := Option.map_eq_some_iff.mp hsome
  obtain ⟨hawaits, hholds⟩ := Prod.mk.inj hlocks
  obtain ⟨f, hf, hmutex⟩ := Option.bind_eq_some_iff.mp hawaits
  exact ⟨c, hc, ⟨_, ⟨f, hf, hmutex⟩, hholds⟩, (ackBatch_never_deadlocks (Runs.run_of_exec hc)).1⟩

end Runs

end RocksQueue
