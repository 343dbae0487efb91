import RocksQueue.LockTable

/-! # Mutual exclusion of the guarded sections

At most one call is inside the section guarded by `queue_lock(t, q)`, as long as no `drop_tenant` clears the
entry `t/q` while a call is between fetching its mutex and releasing it. The names are not parsed: dropping
`a` clears the entries of `a/b` as well, and the next call on them makes a second mutex. -/

namespace RocksQueue
open Interleaving

section Exclusion
variable {R : Type} {tenant queue : String}

/-- The step clears the entry of a lock that a call has fetched and not yet released. -/
def ClearsFetched (tenant queue : String) (c : Config (LockTable R) (LockFrame R))
    (l : Label LockCall SectionStep) : Prop :=
  ∃ i a dropped, l = .run i a ∧ c.threads[i]? = some (.clear dropped) ∧
    startsWithTenant dropped (lockName tenant queue) = true ∧
    ∃ (j : Nat) (f : LockFrame R) (mutex : Nat),
      c.threads[j]? = some f ∧ f.fetched = some (lockName tenant queue, mutex)

/-- At most one call is inside the section. -/
def AtMostOneInside (tenant queue : String) (c : Config (LockTable R) (LockFrame R)) : Prop :=
  ∀ {i j : Nat} {f g : LockFrame R}, c.threads[i]? = some f → c.threads[j]? = some g →
    f.Inside tenant queue → g.Inside tenant queue → i = j

/-- A call inside a section holds its mutex, and a call that has fetched the lock called `name` has fetched
    the mutex that is still in the table. -/
structure LockOk (name : String) (s : LockTable R) (i : Nat) (f : LockFrame R) : Prop where
  holds : ∀ mutex, f.guard = some mutex → s.holders mutex = some i
  current : ∀ mutex, f.fetched = some (name, mutex) → s.queueLocks name = some mutex

section Steps
variable {name : String} {s s' : LockTable R} {i j : Nat} {f f' g : LockFrame R} {a : SectionStep}

/-- How a step changes the locks and the frame of its thread. -/
inductive LockMove (s : LockTable R) (i : Nat) (f : LockFrame R) (s' : LockTable R) (f' : LockFrame R) : Prop where
  /-- The lock is in the table, and the thread takes it from there. -/
  | found (name : String) (mutex : Nat) (htable : s.queueLocks name = some mutex) (hs : s' = s)
      (hfetched : f'.fetched = some (name, mutex)) (hguard : f'.guard = none)
  /-- The lock is made. -/
  | made (name : String) (habsent : s.queueLocks name = none)
      (htable : s'.queueLocks = fun n => if n = name then some s.made else s.queueLocks n)
      (hholders : s'.holders = s.holders) (hfetched : f'.fetched = some (name, s.made)) (hguard : f'.guard = none)
  | locked (mutex : Nat) (hfree : s.holders mutex = none) (htable : s'.queueLocks = s.queueLocks)
      (hholders : s'.holders = fun m => if m = mutex then some i else s.holders m)
      (hfetched : f'.fetched = f.fetched) (hguard : f'.guard = some mutex)
  | unlocked (mutex : Nat) (hguard : f.guard = some mutex) (htable : s'.queueLocks = s.queueLocks)
      (hholders : s'.holders = fun m => if m = mutex then none else s.holders m) (hframe : f' = .returned)
  | cleared (dropped : String) (hframe : f = .clear dropped) (hs : s' = s.retain dropped) (hframe' : f' = .returned)
  /-- The step does not touch the locks. -/
  | kept (htable : s'.queueLocks = s.queueLocks) (hholders : s'.holders = s.holders)
      (hfetched : f'.fetched = none ∨ f'.fetched = f.fetched) (hguard : f'.guard = none ∨ f'.guard = f.guard)

theorem lockMove_of_step (h : f.step s i a = some (s', f')) : LockMove s i f s' f' := by
  cases f with
  | fetch tenant queue =>
    simp only [LockFrame.step, LockTable.queueLock] at h
    split at h
    · rename_i mutex htable
      cases h
      exact .found _ _ htable rfl rfl rfl
    · rename_i habsent
      cases h
      exact .made _ habsent rfl rfl rfl rfl
  | lock tenant queue mutex =>
    simp only [LockFrame.step, LockTable.lock] at h
    split at h
    · rename_i hfree
      cases h
      exact .locked mutex hfree rfl rfl rfl rfl
    · cases h
  | inside tenant queue mutex =>
    simp only [LockFrame.step, Option.some.injEq] at h
    cases a with
    -- Within the section the table of the locks stays as it is, until the guard is dropped.
    | draw =>
      cases h
      exact .kept rfl rfl (Or.inr rfl) (Or.inr rfl)
    | leave =>
      cases h
      exact .unlocked mutex rfl rfl rfl rfl
    | write batch =>
      simp only [LockFrame.sectionStep] at h
      split at h
      · cases h
        exact .unlocked mutex rfl rfl rfl rfl
      · cases h
        exact .kept rfl rfl (Or.inr rfl) (Or.inr rfl)
  | provision tenant policy todo =>
    cases todo with
    | nil =>
      cases h
      exact .kept rfl rfl (Or.inl rfl) (Or.inl rfl)
    | cons d todo =>
      simp only [LockFrame.step] at h
      split at h <;> cases h <;> exact .kept rfl rfl (Or.inl rfl) (Or.inl rfl)
  | drop tenant todo =>
    cases todo with
    | nil =>
      cases h
      exact .kept rfl rfl (Or.inl rfl) (Or.inl rfl)
    | cons d todo =>
      simp only [LockFrame.step] at h
      split at h <;> cases h <;> exact .kept rfl rfl (Or.inl rfl) (Or.inl rfl)
  | clear tenant =>
    cases h
    exact .cleared tenant rfl rfl rfl
  | returned => cases h

/-- A frame whose locks are those of another, or that has none, is as good as the other. -/
theorem LockOk.weaken (h : LockOk name s i f) (htable : s'.queueLocks = s.queueLocks)
    (hholders : s'.holders = s.holders) (hfetched : f'.fetched = none ∨ f'.fetched = f.fetched)
    (hguard : f'.guard = none ∨ f'.guard = f.guard) : LockOk name s' i f' := by
  constructor
  · intro mutex hm
    rw [hholders]
    rcases hguard with hnone | hsame
    · rw [hnone] at hm
      cases hm
    · exact h.holds mutex (hsame ▸ hm)
  · intro mutex hm
    rw [htable]
    rcases hfetched with hnone | hsame
    · rw [hnone] at hm
      cases hm
    · exact h.current mutex (hsame ▸ hm)

theorem LockOk.returned : LockOk name s i .returned :=
  ⟨(fun _ hm => by cases hm), fun _ hm => by cases hm⟩

/-- The thread that steps. -/
theorem LockOk.own (h : LockOk name s i f) (hm : LockMove s i f s' f') : LockOk name s' i f' := by
  cases hm with
  | found lock mutex htable hs hfetched hguard =>
    subst hs
    refine ⟨fun m hm => ?_, fun m hm => ?_⟩
    · rw [hguard] at hm
      cases hm
    · rw [hfetched] at hm
      cases hm
      exact htable
  | made lock habsent htable hholders hfetched hguard =>
    refine ⟨fun m hm => ?_, fun m hm => ?_⟩
    · rw [hguard] at hm
      cases hm
    · rw [hfetched] at hm
      cases hm
      simp [htable]
  | locked mutex hfree htable hholders hfetched hguard =>
    refine ⟨fun m hm => ?_, fun m hm => ?_⟩
    · rw [hguard] at hm
      cases hm
      simp [hholders]
    · rw [htable]
      exact h.current m (hfetched ▸ hm)
  | unlocked mutex hguard htable hholders hframe =>
    subst hframe
    exact .returned
  | cleared dropped hframe hs hframe' =>
    subst hframe'
    exact .returned
  | kept htable hholders hfetched hguard => exact h.weaken htable hholders hfetched hguard

/-- Another thread, unless the step clears the entry of the lock that it has fetched. -/
theorem LockOk.other (hij : i ≠ j) (h : LockOk name s i f) (hg : LockOk name s j g) (hm : LockMove s i f s' f')
    (hclear : ∀ dropped, f = .clear dropped → startsWithTenant dropped name = true →
      ∀ mutex, g.fetched ≠ some (name, mutex)) : LockOk name s' j g := by
  cases hm with
  | found lock mutex htable hs hfetched hguard =>
    subst hs
    exact hg
  | made lock habsent htable hholders hfetched hguard =>
    refine ⟨fun m hm => ?_, fun m hm => ?_⟩
    · rw [hholders]
      exact hg.holds m hm
    -- The entry is made for a name that had none, so it is another name.
    · have hcurrent : s.queueLocks name = some m := hg.current m hm
      have hne : name ≠ lock := by
        rintro rfl
        rw [habsent] at hcurrent
        cases hcurrent
      simp [htable, hne, hcurrent]
  | locked mutex hfree htable hholders hfetched hguard =>
    refine ⟨fun m hm => ?_, fun m hm => ?_⟩
    -- The mutex was free, so it is not the one that this thread holds.
    · have hheld : s.holders m = some j := hg.holds m hm
      have hne : m ≠ mutex := by
        rintro rfl
        rw [hfree] at hheld
        cases hheld
      simp [hholders, hne, hheld]
    · rw [htable]
      exact hg.current m hm
  | unlocked mutex hguard htable hholders hframe =>
    refine ⟨fun m hm => ?_, fun m hm => ?_⟩
    · have hheld : s.holders m = some j := hg.holds m hm
      have hne : m ≠ mutex := by
        rintro rfl
        have hown : s.holders m = some i := h.holds m hguard
        rw [hown] at hheld
        exact hij (Option.some.inj hheld)
      simp [hholders, hne, hheld]
    · rw [htable]
      exact hg.current m hm
  | cleared dropped hframe hs hframe' =>
    subst hs
    refine ⟨fun m hm => hg.holds m hm, fun m hm => ?_⟩
    -- The entry in use is not of the dropped tenant, by hypothesis.
    have hkept : startsWithTenant dropped name = false := by
      cases hstart : startsWithTenant dropped name with
      | false => rfl
      | true => exact absurd hm (hclear dropped hframe hstart m)
    simp [LockTable.retain, hkept, hg.current m hm]
  | kept htable hholders hfetched hguard => exact hg.weaken htable hholders (Or.inr rfl) (Or.inr rfl)

theorem LockOk.start {k : LockCall} : LockOk name s i k.start := by
  have hnone : (k.start : LockFrame R).guard = none ∧ (k.start : LockFrame R).fetched = none := by
    cases k with
    | dequeueWithMaxInflight tenant queue maxInflight =>
      simp only [LockCall.start]
      split <;> exact ⟨rfl, rfl⟩
    | _ => exact ⟨rfl, rfl⟩
  refine ⟨fun m hm => ?_, fun m hm => ?_⟩
  · rw [hnone.1] at hm
    cases hm
  · rw [hnone.2] at hm
    cases hm

end Steps

/-- The outline of runs in which no step clears the entry of a lock in use. -/
theorem exclusion_outline : Outline (lockTableSystem R) (fun c l => ¬ClearsFetched tenant queue c l)
    (fun _ => True) (LockOk (lockName tenant queue)) fun _ _ => True where
  call _ _ := .start
  callApart _ := ⟨trivial, trivial⟩
  env _ _ := ⟨trivial, fun h => h⟩
  own hc _ hf hs := ⟨trivial, (hc.frames hf).own (lockMove_of_step hs)⟩
  others {c} {i} {f} {a} {s} {f'} {j} {g} hc hok hf hs hij hg := by
    refine ⟨(hc.frames hf).other hij (hc.frames hg) (lockMove_of_step hs) fun dropped hframe hstart mutex hm => ?_,
      trivial, trivial⟩
    subst hframe
    exact hok ⟨i, a, dropped, rfl, hf, hstart, j, g, mutex, hg, hm⟩

/-- Two calls inside a section hold the mutex that is in the table. -/
theorem atMostOneInside_of_holds {c : Config (LockTable R) (LockFrame R)}
    (h : Holds (fun _ => True) (LockOk (lockName tenant queue)) (fun _ _ => True) c) :
    AtMostOneInside tenant queue c := by
  rintro i j _ _ hf hg ⟨m, rfl⟩ ⟨m', rfl⟩
  have hm := (h.frames hf).current m rfl
  have hm' := (h.frames hg).current m' rfl
  obtain rfl : m = m' := Option.some.inj (hm.symm.trans hm')
  have hi := (h.frames hf).holds m rfl
  have hj := (h.frames hg).holds m rfl
  exact Option.some.inj (hi.symm.trans hj)

/-- Mutual exclusion, in every run whose steps clear no lock of this name that is in use. -/
theorem queueSection_exclusive {registry : TenantRegistry R} {c : Config (LockTable R) (LockFrame R)}
    (h : (lockTableSystem R).Run (fun c l => ¬ClearsFetched tenant queue c l) ⟨.start registry, []⟩ c) :
    AtMostOneInside tenant queue c :=
  atMostOneInside_of_holds (exclusion_outline.run h (.start trivial))

/-- The calls of a run on one queue, beside which other tenants come and go. -/
def CallsBeside (tenant queue : String) : Label LockCall SectionStep → Prop
  | .call (.enqueueBatchSync t q) => t = tenant ∧ q = queue
  | .call (.dequeueBatch t q) => t = tenant ∧ q = queue
  | .call (.dequeueWithMaxInflight t q _) => t = tenant ∧ q = queue
  | .call (.provisionTenant t _) => t ≠ tenant
  | .call (.dropTenant t) => t ≠ tenant
  | _ => True

instance (l : Label LockCall SectionStep) : Decidable (CallsBeside tenant queue l) := by
  unfold CallsBeside
  split <;> infer_instance

/-! ## Names with a slash -/

theorem append_cons_inj {α : Type} {a b r q : List α} {x : α} (hb : x ∉ b) (hq : x ∉ q)
    (h : a ++ x :: r = b ++ x :: q) : a = b := by
  rcases List.append_eq_append_iff.mp h with ⟨m, hm, hrest⟩ | ⟨m, hm, hrest⟩
  · cases m with
    | nil => rw [hm, List.append_nil]
    | cons y m =>
      obtain rfl : x = y := (List.cons.inj hrest).1
      exact absurd (hm ▸ List.mem_append_right _ List.mem_cons_self) hb
  · cases m with
    | nil => rw [hm, List.append_nil]
    | cons y m =>
      have htail : q = m ++ x :: r := (List.cons.inj hrest).2
      exact absurd (htail ▸ List.mem_append_right _ List.mem_cons_self) hq

/-- Without a slash in the two ids, only the tenant's own `drop_tenant` clears the lock. -/
theorem eq_of_startsWithTenant {dropped : String} (htenant : '/' ∉ tenant.toList) (hqueue : '/' ∉ queue.toList)
    (h : startsWithTenant dropped (lockName tenant queue) = true) : dropped = tenant := by
  obtain ⟨rest, hrest⟩ := List.isPrefixOf_iff_prefix.mp h
  have hslash : "/".toList = ['/'] := rfl
  simp only [lockName, String.toList_append, hslash, List.append_assoc, List.singleton_append] at hrest
  exact String.toList_inj.mp (append_cons_inj htenant hqueue hrest)

/-- The tenants that are being dropped are others. -/
def LockFrame.Beside (tenant : String) : LockFrame R → Prop
  | .drop t _ => t ≠ tenant
  | .clear t => t ≠ tenant
  | _ => True

theorem LockFrame.Beside.step {s s' : LockTable R} {i : Nat} {f f' : LockFrame R} {a : SectionStep}
    (h : f.Beside tenant) (hs : f.step s i a = some (s', f')) : f'.Beside tenant := by
  cases f with
  | fetch t q =>
    cases hs
    trivial
  | lock t q m =>
    obtain ⟨_, _, heq⟩ := Option.map_eq_some_iff.mp hs
    cases heq
    trivial
  | inside t q m =>
    cases a with
    | write batch =>
      simp only [LockFrame.step, LockFrame.sectionStep] at hs
      split at hs <;> cases hs <;> trivial
    | _ =>
      cases hs
      trivial
  | provision t p todo =>
    cases todo with
    | nil =>
      cases hs
      trivial
    | cons d todo =>
      simp only [LockFrame.step] at hs
      split at hs <;> cases hs <;> trivial
  -- A drop goes on to clear the table, of its own tenant.
  | drop t todo =>
    cases todo with
    | nil =>
      cases hs
      exact h
    | cons d todo =>
      simp only [LockFrame.step] at hs
      split at hs <;> cases hs
      · trivial
      · exact h
  | clear t =>
    cases hs
    trivial
  | returned => cases hs

theorem CallsBeside.start {k : LockCall} (h : CallsBeside tenant queue (.call k)) :
    (k.start : LockFrame R).Beside tenant := by
  cases k with
  | dequeueWithMaxInflight t q m =>
    simp only [LockCall.start]
    split <;> trivial
  | dropTenant t => exact h
  | _ => trivial

theorem beside_outline : Outline (lockTableSystem R) (fun _ l => CallsBeside tenant queue l) (fun _ => True)
    (fun _ _ f => f.Beside tenant) fun _ _ => True where
  call _ hok := hok.start
  callApart _ := ⟨trivial, trivial⟩
  env _ _ := ⟨trivial, fun h => h⟩
  own hc _ hf hs := ⟨trivial, (hc.frames hf).step hs⟩
  others hc _ _ _ _ hg := ⟨hc.frames hg, trivial, trivial⟩

/-- Where neither id has a slash, other tenants come and go without harm. -/
theorem clears_none_of_no_slash (htenant : '/' ∉ tenant.toList) (hqueue : '/' ∉ queue.toList)
    {registry : TenantRegistry R} {c : Config (LockTable R) (LockFrame R)}
    (h : (lockTableSystem R).Run (fun _ l => CallsBeside tenant queue l) ⟨.start registry, []⟩ c) :
    (lockTableSystem R).Run (fun c l => ¬ClearsFetched tenant queue c l) ⟨.start registry, []⟩ c := by
  refine (beside_outline.strengthen h (.start trivial)).mono ?_
  rintro d l ⟨_, hbeside⟩ ⟨i, a, dropped, _, hclear, hstart, _⟩
  exact hbeside.frames hclear (eq_of_startsWithTenant htenant hqueue hstart)

end Exclusion

/-! ## A tenant whose name begins with another's -/

section Nested

/-- The tenants `a/b` and `a`, just provisioned. -/
def nestedTenants : TenantRegistry Rat :=
  let opened : TenantRegistry Rat := ⟨⟨some .empty, ∅⟩, 0, ∅⟩
  ((opened.provisionTenant "a/b" (.standard "a/b")).1.provisionTenant "a" (.standard "a")).1

/-- Thread 0 is inside the section of `a/b/q` when thread 1 drops `a`. -/
def dropInBetween : List (Label LockCall SectionStep) :=
  [.call (.dequeueBatch "a/b" "q"), .run 0 .leave, .run 0 .leave,
    .call (.dropTenant "a"), .run 1 .leave, .run 1 .leave, .run 1 .leave, .run 1 .leave, .run 1 .leave, .run 1 .leave,
    .call (.dequeueBatch "a/b" "q"), .run 2 .leave, .run 2 .leave]

theorem not_queueSection_exclusive : ¬∀ (registry : TenantRegistry Rat) (tenant queue : String)
    (c : Config (LockTable Rat) (LockFrame Rat)),
    (lockTableSystem Rat).Run (fun _ l => CallsBeside tenant queue l) ⟨.start registry, []⟩ c →
      AtMostOneInside tenant queue c := by
  intro h
  have hsome : (((lockTableSystem Rat).exec ⟨.start nestedTenants, []⟩ dropInBetween).map fun c => c.threads) =
      some [.inside "a/b" "q" 0, .returned, .inside "a/b" "q" 1] := by rfl
  obtain ⟨c, hc, hthreads⟩ := Option.map_eq_some_iff.mp hsome
  have hrun := Runs.run_of_exec_forall (P := CallsBeside "a/b" "q") hc (by decide)
  have hzero : c.threads[0]? = some (.inside "a/b" "q" 0) := by rw [hthreads]; rfl
  have htwo : c.threads[2]? = some (.inside "a/b" "q" 1) := by rw [hthreads]; rfl
  have heq : 0 = 2 := h _ _ _ c hrun hzero htwo ⟨0, rfl⟩ ⟨1, rfl⟩
  cases heq

/-- The other way round: thread 1 drops `a/b` while thread 0 is inside the section of `a/q`, and thread 2 waits. -/
def nestedDropInBetween : List (Label LockCall SectionStep) :=
  [.call (.dequeueBatch "a" "q"), .run 0 .leave, .run 0 .leave,
    .call (.dropTenant "a/b"), .run 1 .leave, .run 1 .leave, .run 1 .leave, .run 1 .leave, .run 1 .leave, .run 1 .leave,
    .call (.enqueueBatchSync "a" "q"), .run 2 .leave]

theorem queueSection_exclusive_nested :
    ∃ c, (lockTableSystem Rat).exec ⟨.start nestedTenants, []⟩ nestedDropInBetween = some c ∧
      c.threads = [.inside "a" "q" 0, .returned, .lock "a" "q" 0] ∧ AtMostOneInside "a" "q" c := by
  have hsome : (((lockTableSystem Rat).exec ⟨.start nestedTenants, []⟩ nestedDropInBetween).map fun c => c.threads) =
      some [.inside "a" "q" 0, .returned, .lock "a" "q" 0] := by rfl
  obtain ⟨c, hc, hthreads⟩ := Option.map_eq_some_iff.mp hsome
  have hrun := Runs.run_of_exec_forall (P := CallsBeside "a" "q") hc (by decide)
  exact ⟨c, hc, hthreads, queueSection_exclusive (clears_none_of_no_slash (by decide) (by decide) hrun)⟩

end Nested

end RocksQueue
