import RocksQueue.Theorems.ThrottleCycles
import RocksQueue.ThrottleSteps

/-! # The last policy of a throttled tenant

A throttle and a release each read the scheduler's policy, and write it back with other rates; the release takes
them from what the throttle remembered. The policy of the last `UpdatePolicy` survives when none of them is
between its read and its write at that moment, and every rate that is remembered then is that of the new policy. -/

namespace RocksQueue
open Interleaving

variable {R : Type} [F64 R]

namespace ThrottleFrame

/-- The tenant that a throttle or a release is under way for, past its decision. -/
def tenant? : ThrottleFrame R → Option String
  | .applyWrite policy _ _ _ => some policy.tenantId
  | .applyPersist state _ _ => some state.tenantId
  | .applyInsert state _ _ => some state.tenantId
  | .releaseRead tenantId _ _ => some tenantId
  | .releaseWrite policy _ => some policy.tenantId
  | .releaseClear tenantId _ => some tenantId
  | .releaseRemove tenantId _ => some tenantId
  | _ => none

/-- A policy was read, to be written back with other rates. -/
def isWriting : ThrottleFrame R → Bool
  | .applyWrite _ _ _ _ => true
  | .releaseWrite _ _ => true
  | _ => false

def isApplying : ThrottleFrame R → Bool
  | .applyWrite _ _ _ _ => true
  | _ => false

/-- The throttle is in force, and about to be recorded. -/
def isRecording : ThrottleFrame R → Bool
  | .applyPersist _ _ _ => true
  | .applyInsert _ _ _ => true
  | _ => false

/-- The rate that a release will set. -/
def rate? : ThrottleFrame R → Option Nat
  | .applyPersist state _ _ => some state.originalRate
  | .applyInsert state _ _ => some state.originalRate
  | .releaseRead _ originalRate _ => some originalRate
  | _ => none

/-- The call has returned, or is an `UpdatePolicy` that has still to be carried out. -/
def isIdle : ThrottleFrame R → Bool
  | .returned => true
  | .updatePolicy _ => true
  | _ => false

end ThrottleFrame

abbrev ThrottleConfiguration (R : Type) := Config (ThrottleShared R) (ThrottleFrame R)

namespace ThrottleConfiguration

/-- The rates remembered for a tenant, in its throttle or by a call that is under way. -/
def Remembers (c : ThrottleConfiguration R) (tenant : String) (rate : Nat) : Prop :=
  (∃ state, c.shared.throttle.states.lookup tenant = some state ∧ state.originalRate = rate) ∨
    ∃ f ∈ c.threads, f.tenant? = some tenant ∧ f.rate? = some rate

/-- An `UpdatePolicy` takes effect while no call is between reading and writing the tenant's policy, with the rate
    that is remembered for the tenant, if any. -/
def UpdateSafe (c : ThrottleConfiguration R) (p : TenantPolicy) : Prop :=
  (∀ f ∈ c.threads, f.tenant? = some p.tenantId → f.isWriting = false) ∧
    ∀ rate, c.Remembers p.tenantId rate → p.ratePerSec = rate ∧ p.burstTokens = rate

/-- A throttle begins while no other is in force or under way for the tenant and no release is, on a policy that
    the release restores. -/
def ApplySafe (c : ThrottleConfiguration R) (tenant : String) : Prop :=
  c.shared.throttle.states.lookup tenant = none ∧ (∀ f ∈ c.threads, f.tenant? ≠ some tenant) ∧
    ∀ q, c.shared.throttle.scheduler.policy tenant = some q → c.shared.throttle.config.Restores q

/-- The condition on the steps. A throttle is free as long as the tenant was given no policy. -/
def Safe (c : ThrottleConfiguration R) : Label (ThrottleRequest R) (ThrottleInput R) → Prop
  | .run i _ =>
    match c.threads[i]? with
    | some (.updatePolicy p) => c.UpdateSafe p
    | some (.applyRead tenant _ _ _) => (c.shared.latest tenant).isSome = true → c.ApplySafe tenant
    | _ => True
  | _ => True

/-- No tenant without a throttle has lost its last policy, when nothing is under way. -/
def UpdatesKept (c : ThrottleConfiguration R) : Prop :=
  (∀ f ∈ c.threads, f.isIdle = true) → ∀ tenant p, c.shared.latest tenant = some p →
    c.shared.throttle.states.lookup tenant = none → c.shared.throttle.scheduler.policy tenant = some p

end ThrottleConfiguration

/-- Setting the rate leads from the policy in force to the last policy. -/
def FrameRestores (config : ThrottleConfig R) (state? : Option ThrottleState) (q p : TenantPolicy) : ThrottleFrame R → Prop
  | .applyWrite policy _ _ _ => policy = p ∧ q = p ∧ config.Restores p ∧ state? = none
  | .applyPersist state _ _ => q.released state.originalRate = p
  | .applyInsert state _ _ => q.released state.originalRate = p
  | .releaseRead _ originalRate _ => q.released originalRate = p
  | .releaseWrite policy _ => policy = p
  | .releaseClear _ _ => q = p
  | .releaseRemove _ _ => q = p
  | _ => True

/-- From the policy `q` in force, what is under way for the tenant ends with its last policy `p`. -/
structure LeadsBack (c : ThrottleConfiguration R) (tenant : String) (q p : TenantPolicy) : Prop where
  policy : c.shared.throttle.scheduler.policy tenant = some q
  state : ∀ state, c.shared.throttle.states.lookup tenant = some state → q.released state.originalRate = p
  frames : ∀ {i : Nat} {f : ThrottleFrame R}, c.threads[i]? = some f → f.tenant? = some tenant →
    FrameRestores c.shared.throttle.config (c.shared.throttle.states.lookup tenant) q p f
  apart : ∀ {i j : Nat} {f g : ThrottleFrame R}, i ≠ j → c.threads[i]? = some f → c.threads[j]? = some g → f.isApplying = true →
    f.tenant? = some tenant → g.tenant? ≠ some tenant
  free : c.shared.throttle.states.lookup tenant = none →
    (∀ {i : Nat} {f : ThrottleFrame R}, c.threads[i]? = some f → f.tenant? = some tenant → f.isRecording = false) → q = p

def Recoverable (c : ThrottleConfiguration R) : Prop :=
  ∀ tenant p, c.shared.latest tenant = some p → ∃ q, LeadsBack c tenant q p

theorem released_released {q p : TenantPolicy} {rate : Nat} (h : q.released rate = p) : p.released rate = p := by
  subst h
  rfl

section Steps
variable {c : ThrottleConfiguration R} {s' : ThrottleShared R} {i : Nat} {f f' : ThrottleFrame R} {tenant : String}
  {q q' p : TenantPolicy}

/-- The facts about a configuration in which one thread has taken a step. -/
theorem leadsBack_set (hpolicy : s'.throttle.scheduler.policy tenant = some q')
    (hstate : ∀ state, s'.throttle.states.lookup tenant = some state → q'.released state.originalRate = p)
    (hown : f'.tenant? = some tenant → FrameRestores s'.throttle.config (s'.throttle.states.lookup tenant) q' p f')
    (hothers : ∀ {j : Nat} {g : ThrottleFrame R}, j ≠ i → c.threads[j]? = some g → g.tenant? = some tenant →
      FrameRestores s'.throttle.config (s'.throttle.states.lookup tenant) q' p g)
    (hnew : f'.tenant? = some tenant → ∀ {j : Nat} {g : ThrottleFrame R}, j ≠ i → c.threads[j]? = some g → g.tenant? = some tenant →
      f'.isApplying = false ∧ g.isApplying = false)
    (hold : ∀ {j k : Nat} {g g' : ThrottleFrame R}, j ≠ i → k ≠ i → j ≠ k → c.threads[j]? = some g → c.threads[k]? = some g' →
      g.isApplying = true → g.tenant? = some tenant → g'.tenant? ≠ some tenant)
    (hfree : s'.throttle.states.lookup tenant = none →
      (∀ {j : Nat} {g : ThrottleFrame R}, (c.threads.set i f')[j]? = some g → g.tenant? = some tenant →
        g.isRecording = false) → q' = p) :
    LeadsBack ⟨s', c.threads.set i f'⟩ tenant q' p where
  policy := hpolicy
  state := hstate
  frames hg ht := by
    rcases getElem?_set_cases hg with ⟨rfl, rfl⟩ | ⟨hne, hg₀⟩
    · exact hown ht
    · exact hothers hne hg₀ ht
  apart hjk hg hg' happly ht ht' := by
    rcases getElem?_set_cases hg with ⟨rfl, rfl⟩ | ⟨hne, hg₀⟩
    · rcases getElem?_set_cases hg' with ⟨rfl, rfl⟩ | ⟨hne', hg₁⟩
      · exact hjk rfl
      · rw [(hnew ht hne' hg₁ ht').1] at happly
        cases happly
    · rcases getElem?_set_cases hg' with ⟨rfl, rfl⟩ | ⟨hne', hg₁⟩
      · rw [(hnew ht' hne hg₀ ht).2] at happly
        cases happly
      · exact hold hne hne' hjk hg₀ hg₁ happly ht ht'
  free := hfree

/-- A step that leaves the tenant's policy and its throttle as they are. -/
theorem LeadsBack.keep (h : LeadsBack c tenant q p) (hf : c.threads[i]? = some f)
    (hpolicy : s'.throttle.scheduler.policy tenant = c.shared.throttle.scheduler.policy tenant)
    (hstates : s'.throttle.states.lookup tenant = c.shared.throttle.states.lookup tenant)
    (hconfig : s'.throttle.config = c.shared.throttle.config)
    (hown : f'.tenant? = some tenant →
      FrameRestores c.shared.throttle.config (c.shared.throttle.states.lookup tenant) q p f' ∧ f'.isApplying = false ∧
        (f.tenant? = some tenant ∨ c.shared.throttle.states.lookup tenant ≠ none))
    (hrecording : f.tenant? = some tenant → f.isRecording = true → f'.tenant? = some tenant ∧ f'.isRecording = true) :
    LeadsBack ⟨s', c.threads.set i f'⟩ tenant q p := by
  refine leadsBack_set (hpolicy.trans h.policy) (fun state hstate => h.state state (hstates.symm.trans hstate)) (fun ht => ?_)
    (fun _ hg ht => ?_) (fun ht {j g} hji hg htg => ⟨(hown ht).2.1, ?_⟩)
    (fun _ _ hjk hg hg' happly ht => h.apart hjk hg hg' happly ht) (fun hnone hsettled => ?_)
  · rw [hconfig, hstates]
    exact (hown ht).1
  · rw [hconfig, hstates]
    exact h.frames hg ht
  · -- A thread that is applying a throttle shuts the others out.
    cases happly : g.isApplying with
    | false => rfl
    | true =>
      rcases (hown ht).2.2 with htf | hthrottled
      · exact absurd htf (h.apart hji hg hf happly htg)
      · have hframe := h.frames hg htg
        cases g <;> cases happly
        exact absurd hframe.2.2.2 hthrottled
  · refine h.free (hstates.symm.trans hnone) fun {j g} hg ht => ?_
    have hlen : i < c.threads.length := (List.getElem?_eq_some_iff.mp hf).1
    by_cases hji : j = i
    · subst hji
      obtain rfl := Option.some.inj (hf.symm.trans hg)
      cases hrec : f.isRecording with
      | false => rfl
      | true =>
        obtain ⟨ht', hrec'⟩ := hrecording ht hrec
        have hself : (c.threads.set j f')[j]? = some f' := by simp [hlen]
        exact absurd hrec' (Bool.eq_false_iff.mp (hsettled hself ht'))
    · have hother : (c.threads.set i f')[j]? = some g := by rw [List.getElem?_set_ne (Ne.symm hji), hg]
      exact hsettled hother ht

/-- Of a frame that is not applying a throttle nothing is asked about the one in force. -/
theorem FrameRestores.state {config : ThrottleConfig R} {state? state?' : Option ThrottleState}
    (h : FrameRestores config state? q p f) (hf : f.isApplying = false) : FrameRestores config state?' q p f := by
  cases f <;> first | exact h | cases hf

/-- Where setting the rate leads to the last policy, it does so from that policy, too. -/
theorem FrameRestores.restored {config : ThrottleConfig R} {state? : Option ThrottleState}
    (h : FrameRestores config state? q p f) (hf : f.isApplying = false) : FrameRestores config state? p p f := by
  cases f with
  | applyWrite policy reason todo now => cases hf
  | applyPersist state todo now => exact released_released h
  | applyInsert state todo now => exact released_released h
  | releaseRead t rate ret => exact released_released h
  | releaseWrite policy ret => exact h
  | releaseClear t ret => rfl
  | releaseRemove t ret => rfl
  | _ => trivial

/-- Next to a thread that is past its decision for the tenant, no other one is applying a throttle on it. -/
theorem LeadsBack.not_applying (h : LeadsBack c tenant q p) (hf : c.threads[i]? = some f) (ht : f.tenant? = some tenant)
    {j : Nat} {g : ThrottleFrame R} (hji : j ≠ i) (hg : c.threads[j]? = some g) (htg : g.tenant? = some tenant) :
    g.isApplying = false :=
  Bool.eq_false_iff.mpr fun happly => h.apart hji hg hf happly htg ht

/-- A throttle is about to be applied to the last policy. -/
theorem LeadsBack.applyRead (h : LeadsBack c tenant q p) (hsafe : c.ApplySafe tenant) {reason : String}
    {todo : List (TenantStats R)} {now : Nat} :
    LeadsBack ⟨c.shared, c.threads.set i (.applyWrite q reason todo now)⟩ tenant q p := by
  obtain ⟨hnone, hnot, hrestores⟩ := hsafe
  have hbusy : ∀ {j : Nat} {g : ThrottleFrame R}, c.threads[j]? = some g → g.tenant? ≠ some tenant :=
    fun hg => hnot _ (List.mem_of_getElem? hg)
  obtain rfl : q = p := h.free hnone fun hg ht => absurd ht (hbusy hg)
  refine leadsBack_set h.policy h.state (fun _ => ⟨rfl, rfl, hrestores q h.policy, hnone⟩) (fun _ hg ht => ?_)
    (fun _ _ _ _ hg ht => ?_) (fun _ _ _ hg _ _ ht => ?_) (fun _ _ => rfl)
  · exact absurd ht (hbusy hg)
  · exact absurd ht (hbusy hg)
  · exact absurd ht (hbusy hg)

/-- The throttle is applied: from now on the rate is remembered. -/
theorem LeadsBack.applyWrite {policy : TenantPolicy} {reason : String} {todo : List (TenantStats R)} {now instant : Nat}
    (h : LeadsBack c tenant q p) (hf : c.threads[i]? = some (.applyWrite policy reason todo now))
    (hid : policy.tenantId = tenant) :
    ∃ q', LeadsBack ⟨c.shared.setPolicy (c.shared.throttle.config.throttledPolicy policy) instant,
      c.threads.set i (.applyPersist (c.shared.throttle.config.throttleState policy.tenantId reason policy.ratePerSec now)
        todo now)⟩ tenant q' p := by
  have htenant : (ThrottleFrame.applyWrite policy reason todo now).tenant? = some tenant := congrArg some hid
  obtain ⟨rfl, rfl, hrestores, hnone⟩ := h.frames hf htenant
  have halone : ∀ {j : Nat} {g : ThrottleFrame R}, j ≠ i → c.threads[j]? = some g → g.tenant? ≠ some tenant :=
    fun hji hg => h.apart (Ne.symm hji) hf hg rfl htenant
  refine ⟨c.shared.throttle.config.throttledPolicy q, leadsBack_set
    (WFQScheduler.policy_updatePolicy.trans (if_pos hid.symm)) (fun state hstate => ?_)
    (fun _ => ThrottleConfig.restores_iff.mpr hrestores) (fun hji hg ht => absurd ht (halone hji hg))
    (fun _ _ _ hji hg ht => absurd ht (halone hji hg)) (fun hji _ _ hg _ _ ht => absurd ht (halone hji hg))
    (fun _ hsettled => ?_)⟩
  · have hstill : c.shared.throttle.states.lookup tenant = some state := hstate
    rw [hnone] at hstill
    cases hstill
  · have hlen : i < c.threads.length := (List.getElem?_eq_some_iff.mp hf).1
    have hself := List.getElem?_set_self (a := ThrottleFrame.applyPersist
      (c.shared.throttle.config.throttleState q.tenantId reason q.ratePerSec now) todo now) hlen
    cases hsettled hself (congrArg some hid)

/-- The throttle is recorded. -/
theorem LeadsBack.applyInsert {state : ThrottleState} {todo : List (TenantStats R)} {now : Nat}
    (h : LeadsBack c tenant q p) (hf : c.threads[i]? = some (.applyInsert state todo now)) (hid : state.tenantId = tenant) :
    LeadsBack ⟨c.shared.setStates (c.shared.throttle.states.insert state), c.threads.set i (.round todo now)⟩ tenant q p := by
  have htenant : (ThrottleFrame.applyInsert state todo now : ThrottleFrame R).tenant? = some tenant := congrArg some hid
  have hlookup : (c.shared.throttle.states.insert state).lookup tenant = some state :=
    IdMap.lookup_insert.trans (if_pos hid.symm)
  refine leadsBack_set h.policy (fun state' hstate => ?_) (fun ht => by cases ht)
    (fun hji hg ht => (h.frames hg ht).state (h.not_applying hf htenant hji hg ht)) (fun ht => by cases ht)
    (fun _ _ hjk hg hg' happly ht => h.apart hjk hg hg' happly ht) (fun hnone => ?_)
  · obtain rfl := Option.some.inj (hlookup.symm.trans hstate)
    exact h.frames hf htenant
  · exact absurd (hlookup.symm.trans hnone) (Option.some_ne_none _)

/-- The release sets the last policy. -/
theorem LeadsBack.releaseWrite {policy : TenantPolicy} {ret : ReleaseReturn R} {instant : Nat}
    (h : LeadsBack c tenant q p) (hf : c.threads[i]? = some (.releaseWrite policy ret)) (hid : policy.tenantId = tenant) :
    LeadsBack ⟨c.shared.setPolicy policy instant, c.threads.set i (.releaseClear policy.tenantId ret)⟩ tenant p p := by
  have htenant : (ThrottleFrame.releaseWrite policy ret : ThrottleFrame R).tenant? = some tenant := congrArg some hid
  obtain rfl : policy = p := h.frames hf htenant
  refine leadsBack_set (WFQScheduler.policy_updatePolicy.trans (if_pos hid.symm))
    (fun state hstate => released_released (h.state state hstate)) (fun _ => rfl)
    (fun hji hg ht => (h.frames hg ht).restored (h.not_applying hf htenant hji hg ht))
    (fun _ _ _ hji hg ht => ⟨rfl, h.not_applying hf htenant hji hg ht⟩)
    (fun _ _ hjk hg hg' happly ht => h.apart hjk hg hg' happly ht) (fun _ _ => rfl)

/-- The throttle is forgotten once the last policy is set. -/
theorem LeadsBack.releaseRemove {ret : ReleaseReturn R} (h : LeadsBack c tenant q p)
    (hf : c.threads[i]? = some (.releaseRemove tenant ret)) :
    LeadsBack ⟨c.shared.setStates (c.shared.throttle.states.erase tenant), c.threads.set i ret.frame⟩ tenant q p := by
  have hlookup : (c.shared.throttle.states.erase tenant).lookup tenant = none := IdMap.lookup_erase.trans (if_pos rfl)
  have hreturned : ret.frame.tenant? = none := by cases ret <;> rfl
  refine leadsBack_set h.policy (fun state hstate => ?_) (fun ht => ?_)
    (fun hji hg ht => (h.frames hg ht).state (h.not_applying hf rfl hji hg ht)) (fun ht => ?_)
    (fun _ _ hjk hg hg' happly ht => h.apart hjk hg hg' happly ht) (fun _ _ => h.frames hf rfl)
  · exact absurd (hlookup.symm.trans hstate) (Option.some_ne_none _).symm
  · rw [hreturned] at ht
    cases ht
  · rw [hreturned] at ht
    cases ht

/-- The operator's policy is set. -/
theorem leadsBack_updatePolicy {instant : Nat} (hid : p.tenantId = tenant) (hsafe : c.UpdateSafe p) :
    LeadsBack ⟨(c.shared.setPolicy p instant).complete p, c.threads.set i .returned⟩ tenant p p := by
  subst hid
  obtain ⟨hwriting, hrates⟩ := hsafe
  have hreleased : ∀ {rate : Nat}, c.Remembers p.tenantId rate → p.released rate = p := fun hrate => by
    obtain ⟨hr, hb⟩ := hrates _ hrate
    cases p
    cases hr
    cases hb
    rfl
  have hnot : ∀ {j : Nat} {g : ThrottleFrame R}, c.threads[j]? = some g → g.tenant? = some p.tenantId → g.isWriting = false :=
    fun hg ht => hwriting _ (List.mem_of_getElem? hg) ht
  refine leadsBack_set (WFQScheduler.policy_updatePolicy.trans (if_pos rfl))
    (fun state hstate => hreleased (Or.inl ⟨state, hstate, rfl⟩)) (fun ht => by cases ht) (fun {j g} _ hg ht => ?_)
    (fun ht => by cases ht) (fun {j k g g'} _ _ _ hg _ happly ht => ?_) (fun _ _ => rfl)
  · have hrate : ∀ {rate : Nat}, g.rate? = some rate → p.released rate = p := fun hrate =>
      hreleased (Or.inr ⟨g, List.mem_of_getElem? hg, ht, hrate⟩)
    have hnw := hnot hg ht
    cases g with
    | applyWrite policy reason todo now => cases hnw
    | applyPersist state todo now => exact hrate rfl
    | applyInsert state todo now => exact hrate rfl
    | releaseRead t rate ret => exact hrate rfl
    | releaseWrite policy ret => cases hnw
    | releaseClear t ret => rfl
    | releaseRemove t ret => rfl
    | _ => trivial
  · have hnw := hnot hg ht
    cases g <;> cases happly
    cases hnw

/-! ## Runs -/

omit [F64 R] in
theorem tenant?_start (k : ThrottleRequest R) : (ThrottleFrame.start k).tenant? = none := by
  cases k <;> rfl

/-- A new call. -/
theorem LeadsBack.call (h : LeadsBack c tenant q p) (k : ThrottleRequest R) :
    LeadsBack ⟨c.shared, c.threads ++ [ThrottleFrame.start k]⟩ tenant q p where
  policy := h.policy
  state := h.state
  frames hg ht := by
    rcases getElem?_append_cases hg with ⟨-, rfl⟩ | hg₀
    · rw [tenant?_start] at ht
      cases ht
    · exact h.frames hg₀ ht
  apart hjk hg hg' happly ht ht' := by
    rcases getElem?_append_cases hg with ⟨-, rfl⟩ | hg₀
    · rw [tenant?_start] at ht
      cases ht
    · rcases getElem?_append_cases hg' with ⟨-, rfl⟩ | hg₁
      · rw [tenant?_start] at ht'
        cases ht'
      · exact h.apart hjk hg₀ hg₁ happly ht ht'
  free hnone hsettled := h.free hnone fun {j g} hg ht => by
    refine hsettled (i := j) ?_ ht
    rw [List.getElem?_append_left (List.getElem?_eq_some_iff.mp hg).1]
    exact hg

/-- The head of a round decides for a release, or for nothing that is past its decision. -/
theorem decide_cases (a : AutoThrottle R) (stats : TenantStats R) (todo : List (TenantStats R)) (now : Nat) :
    (ThrottleFrame.decide a stats todo now).tenant? = none ∨ ∃ existing, a.states.lookup stats.tenantId = some existing ∧
      ThrottleFrame.decide a stats todo now = .releaseRead stats.tenantId existing.originalRate (.round todo now) := by
  unfold ThrottleFrame.decide
  split
  · rename_i existing hexisting
    split
    · exact Or.inr ⟨existing, (Option.filter_eq_some_iff.mp hexisting).1, rfl⟩
    · exact Or.inl rfl
  · split
    · exact Or.inl rfl
    · exact Or.inl rfl

/-- A release begins on a tenant whose throttle is recorded. -/
theorem LeadsBack.release (h : LeadsBack c tenant q p) (hf : c.threads[i]? = some f) (hidle : f.tenant? = none) {t : String}
    {state : ThrottleState} {ret : ReleaseReturn R} (hstate : c.shared.throttle.states.lookup t = some state) :
    LeadsBack ⟨c.shared, c.threads.set i (.releaseRead t state.originalRate ret)⟩ tenant q p := by
  refine h.keep hf rfl rfl rfl (fun ht => ?_) fun ht => ?_
  · obtain rfl := Option.some.inj ht
    exact ⟨h.state state hstate, rfl, Or.inr (Option.ne_none_iff_exists'.mpr ⟨state, hstate⟩)⟩
  · rw [hidle] at ht
    cases ht

/-- A step of a thread that is not past a decision, after which it is not, either. -/
theorem LeadsBack.idle (h : LeadsBack c tenant q p) (hf : c.threads[i]? = some f) (hidle : f.tenant? = none)
    (hidle' : f'.tenant? = none) (hpolicy : s'.throttle.scheduler.policy tenant = c.shared.throttle.scheduler.policy tenant)
    (hstates : s'.throttle.states.lookup tenant = c.shared.throttle.states.lookup tenant)
    (hconfig : s'.throttle.config = c.shared.throttle.config) : LeadsBack ⟨s', c.threads.set i f'⟩ tenant q p := by
  refine h.keep hf hpolicy hstates hconfig (fun ht => ?_) fun ht => ?_
  · rw [hidle'] at ht
    cases ht
  · rw [hidle] at ht
    cases ht

/-- A step that is about another tenant. -/
theorem LeadsBack.other (h : LeadsBack c tenant q p) (hf : c.threads[i]? = some f) (hne : f.tenant? ≠ some tenant)
    (hne' : f'.tenant? ≠ some tenant) (hpolicy : s'.throttle.scheduler.policy tenant = c.shared.throttle.scheduler.policy tenant)
    (hstates : s'.throttle.states.lookup tenant = c.shared.throttle.states.lookup tenant)
    (hconfig : s'.throttle.config = c.shared.throttle.config) : LeadsBack ⟨s', c.threads.set i f'⟩ tenant q p :=
  h.keep hf hpolicy hstates hconfig (fun ht => absurd ht hne') fun ht => absurd ht hne

/-- What a step does for one tenant that has been given a policy, when it is not an `UpdatePolicy` for it. -/
theorem LeadsBack.step {a : ThrottleInput R} {s' : ThrottleShared R} (h : LeadsBack c tenant q p)
    (hlatest : c.shared.latest tenant = some p) (hok : c.Safe (.run i a)) (hf : c.threads[i]? = some f)
    (hstep : f.step c.shared a = some (s', f')) (hupdate : ∀ p', f = .updatePolicy p' → p'.tenantId ≠ tenant) :
    ∃ q', LeadsBack ⟨s', c.threads.set i f'⟩ tenant q' p := by
  have hpolicy_of_ne : ∀ {policy : TenantPolicy}, policy.tenantId ≠ tenant →
      (c.shared.throttle.scheduler.updatePolicy policy a.instant).policy tenant = c.shared.throttle.scheduler.policy tenant :=
    fun hne => WFQScheduler.policy_updatePolicy.trans (if_neg (Ne.symm hne))
  cases f with
  -- A round looks at a tenant, and may go on to release its throttle.
  | round todo now =>
    cases todo with
    | nil =>
      cases hstep
      exact ⟨q, h.idle hf rfl rfl rfl rfl rfl⟩
    | cons stats todo =>
      cases hstep
      rcases decide_cases { c.shared.throttle with baselines := a.baselines } stats todo now with hnone | ⟨state, hstate, hdecide⟩
      · exact ⟨q, h.idle hf rfl hnone rfl rfl rfl⟩
      · rw [hdecide]
        exact ⟨q, h.release hf rfl hstate⟩
  -- To apply a throttle reads the policy: the tenant must not be throttled then.
  | applyRead t reason todo now =>
    simp only [ThrottleFrame.step] at hstep
    split at hstep
    · rename_i policy hpolicy
      cases hstep
      have hid : policy.tenantId = t := WFQScheduler.tenantId_of_policy hpolicy
      by_cases ht : t = tenant
      · subst ht
        obtain rfl := Option.some.inj (h.policy.symm.trans hpolicy)
        simp only [ThrottleConfiguration.Safe, hf] at hok
        exact ⟨q, h.applyRead (hok (Option.isSome_of_eq_some hlatest))⟩
      · have hne : policy.tenantId ≠ tenant := fun heq => ht (hid.symm.trans heq)
        exact ⟨q, h.other hf (fun htf => by cases htf) (fun htf => hne (Option.some.inj htf)) rfl rfl rfl⟩
    · cases hstep
      exact ⟨q, h.idle hf rfl rfl rfl rfl rfl⟩
  | applyWrite policy reason todo now =>
    cases hstep
    by_cases ht : policy.tenantId = tenant
    · exact h.applyWrite hf ht
    · have hother : (c.shared.throttle.config.throttledPolicy policy).tenantId ≠ tenant := ht
      exact ⟨q, h.other hf (fun htf => ht (Option.some.inj htf)) (fun htf => ht (Option.some.inj htf))
        (hpolicy_of_ne hother) rfl rfl⟩
  | applyPersist state todo now =>
    cases hstep
    have hframe : some state.tenantId = some tenant → q.released state.originalRate = p := h.frames hf
    exact ⟨q, h.keep hf rfl rfl rfl (fun ht => ⟨hframe ht, rfl, Or.inl ht⟩) fun ht _ => ⟨ht, rfl⟩⟩
  | applyInsert state todo now =>
    cases hstep
    by_cases ht : state.tenantId = tenant
    · exact ⟨q, h.applyInsert hf ht⟩
    · have hlookup : (c.shared.throttle.states.insert state).lookup tenant = c.shared.throttle.states.lookup tenant :=
        IdMap.lookup_insert.trans (if_neg (Ne.symm ht))
      exact ⟨q, h.other hf (fun htf => ht (Option.some.inj htf)) (fun htf => by cases htf) rfl hlookup rfl⟩
  | forceGet t =>
    simp only [ThrottleFrame.step] at hstep
    split at hstep
    · rename_i state hstate
      cases hstep
      exact ⟨q, h.release hf rfl hstate⟩
    · cases hstep
      exact ⟨q, h.idle hf rfl rfl rfl rfl rfl⟩
  | forceClear t =>
    cases hstep
    exact ⟨q, h.idle hf rfl rfl rfl rfl rfl⟩
  -- To release one reads the policy again, which is still the one that the throttle set.
  | releaseRead t rate ret =>
    have hframe : some t = some tenant → q.released rate = p := h.frames hf
    simp only [ThrottleFrame.step] at hstep
    split at hstep
    · rename_i policy hpolicy
      cases hstep
      have hid : policy.tenantId = t := WFQScheduler.tenantId_of_policy hpolicy
      refine ⟨q, h.keep hf rfl rfl rfl (fun ht => ?_) fun _ hrec => by cases hrec⟩
      have ht' : some t = some tenant := (congrArg some hid.symm).trans ht
      obtain rfl := Option.some.inj ht'
      obtain rfl := Option.some.inj (h.policy.symm.trans hpolicy)
      exact ⟨hframe rfl, rfl, Or.inl rfl⟩
    · rename_i hnone
      cases hstep
      have hne : t ≠ tenant := fun heq => by
        subst heq
        exact absurd (h.policy.symm.trans hnone) (Option.some_ne_none _)
      exact ⟨q, h.other hf (fun htf => hne (Option.some.inj htf)) (fun htf => hne (Option.some.inj htf)) rfl rfl rfl⟩
  -- From here on the policy in force is the last one that was given.
  | releaseWrite policy ret =>
    cases hstep
    by_cases ht : policy.tenantId = tenant
    · exact ⟨p, h.releaseWrite hf ht⟩
    · exact ⟨q, h.other hf (fun htf => ht (Option.some.inj htf)) (fun htf => ht (Option.some.inj htf)) (hpolicy_of_ne ht) rfl rfl⟩
  | releaseClear t ret =>
    cases hstep
    have hframe : some t = some tenant → q = p := h.frames hf
    exact ⟨q, h.keep hf rfl rfl rfl (fun ht => ⟨hframe ht, rfl, Or.inl ht⟩) fun _ hrec => by cases hrec⟩
  | releaseRemove t ret =>
    cases hstep
    by_cases ht : t = tenant
    · subst ht
      exact ⟨q, h.releaseRemove hf⟩
    · have hlookup : (c.shared.throttle.states.erase t).lookup tenant = c.shared.throttle.states.lookup tenant :=
        IdMap.lookup_erase.trans (if_neg (Ne.symm ht))
      have hreturned : ret.frame.tenant? ≠ some tenant := by cases ret <;> exact fun h => by cases h
      exact ⟨q, h.other hf (fun htf => ht (Option.some.inj htf)) hreturned rfl hlookup rfl⟩
  | updatePolicy policy =>
    cases hstep
    exact ⟨q, h.idle hf rfl rfl (hpolicy_of_ne (hupdate policy rfl)) rfl rfl⟩
  | returned => cases hstep

/-- Only an `UpdatePolicy` for the tenant changes its last policy. -/
theorem latest_step {a : ThrottleInput R} {s : ThrottleShared R} (hstep : f.step s a = some (s', f'))
    (hupdate : ∀ p', f = .updatePolicy p' → p'.tenantId ≠ tenant) : s'.latest tenant = s.latest tenant := by
  cases f with
  | round todo now =>
    cases todo with
    | nil =>
      cases hstep
      rfl
    | cons stats todo =>
      cases hstep
      rfl
  | updatePolicy policy =>
    cases hstep
    exact if_neg (Ne.symm (hupdate policy rfl))
  | applyRead t reason todo now =>
    simp only [ThrottleFrame.step] at hstep
    split at hstep <;> cases hstep <;> rfl
  | forceGet t =>
    simp only [ThrottleFrame.step] at hstep
    split at hstep <;> cases hstep <;> rfl
  | releaseRead t rate ret =>
    simp only [ThrottleFrame.step] at hstep
    split at hstep <;> cases hstep <;> rfl
  | returned => cases hstep
  | _ =>
    cases hstep
    rfl

theorem Recoverable.next {c' : ThrottleConfiguration R} {l : Label (ThrottleRequest R) (ThrottleInput R)} (h : Recoverable c)
    (hok : c.Safe l) (hn : throttleSystem.next c l = some c') : Recoverable c' := by
  intro tenant p hlatest
  cases l with
  | call k =>
    cases hn
    obtain ⟨q, hq⟩ := h tenant p hlatest
    exact ⟨q, hq.call k⟩
  | env =>
    cases hn
    exact h tenant p hlatest
  | run i a =>
    obtain ⟨f, s', f', hf, hstep, rfl⟩ := System.next_run_inv hn
    by_cases hupdate : ∃ p', f = .updatePolicy p' ∧ p'.tenantId = tenant
    · obtain ⟨p', rfl, rfl⟩ := hupdate
      cases hstep
      have hlast : some p' = some p := (if_pos rfl : _ = some p').symm.trans hlatest
      obtain rfl := Option.some.inj hlast
      simp only [ThrottleConfiguration.Safe, hf] at hok
      exact ⟨p', leadsBack_updatePolicy rfl hok⟩
    · have hother : ∀ p', f = .updatePolicy p' → p'.tenantId ≠ tenant := fun p' hp ht => hupdate ⟨p', hp, ht⟩
      have hbefore : c.shared.latest tenant = some p := (latest_step hstep hother).symm.trans hlatest
      obtain ⟨q, hq⟩ := h tenant p hbefore
      exact hq.step hbefore hok hf hstep hother

theorem Recoverable.updatesKept (h : Recoverable c) : c.UpdatesKept := by
  intro hidle tenant p hlatest hnone
  obtain ⟨q, hq⟩ := h tenant p hlatest
  obtain rfl : q = p := hq.free hnone fun {i f} hf _ => by
    have hf' := hidle f (List.mem_of_getElem? hf)
    cases f <;> first | rfl | cases hf'
  exact hq.policy

/-- No update is lost in a run whose steps meet the condition. -/
theorem updatesKept_of_safe {a : AutoThrottle R}
    (hrun : throttleSystem.Run ThrottleConfiguration.Safe ⟨⟨a, fun _ => none⟩, []⟩ c) : c.UpdatesKept := by
  have hstart : Recoverable (⟨⟨a, fun _ => none⟩, []⟩ : ThrottleConfiguration R) := fun tenant p hlatest => by cases hlatest
  exact Recoverable.updatesKept (hrun.invariant (fun hr hok hn => Recoverable.next hr hok hn) hstart)

end Steps

/-! ## In exact arithmetic -/

section Exact
open AutoThrottle

/-- The step finds its tenant at rest: no throttle is in force, and no call is past its decision. -/
def ThrottleConfiguration.atRest (c : ThrottleConfiguration R) (tenant : String) : Bool :=
  (c.shared.throttle.states.lookup tenant).isNone && c.threads.all fun f => !(f.tenant? == some tenant)

/-- Policies are set and throttles begin at rest, the throttles on a policy that the release restores. -/
def ThrottleConfiguration.oneAfterAnother (c : ThrottleConfiguration R) : Label (ThrottleRequest R) (ThrottleInput R) → Bool
  | .run i _ =>
    match c.threads[i]? with
    | some (.updatePolicy p) => c.atRest p.tenantId
    | some (.applyRead tenant _ _ _) =>
      c.atRest tenant && (c.shared.throttle.scheduler.policy tenant).all fun q =>
        q.burstTokens == q.ratePerSec && c.shared.throttle.config.reduce u64Size q.maxInflight == q.maxInflight
    | _ => true
  | _ => true

omit [F64 R] in
theorem atRest_iff {c : ThrottleConfiguration R} {tenant : String} : c.atRest tenant = true ↔
    c.shared.throttle.states.lookup tenant = none ∧ ∀ f ∈ c.threads, f.tenant? ≠ some tenant := by
  simp [ThrottleConfiguration.atRest]

theorem safe_of_oneAfterAnother {c : ThrottleConfiguration R} {l : Label (ThrottleRequest R) (ThrottleInput R)}
    (h : c.oneAfterAnother l = true) : c.Safe l := by
  cases l with
  | call k => trivial
  | env => trivial
  | run i a =>
    simp only [ThrottleConfiguration.oneAfterAnother] at h
    simp only [ThrottleConfiguration.Safe]
    split at h
    · obtain ⟨hnone, hnot⟩ := atRest_iff.mp h
      refine ⟨fun f hf ht => absurd ht (hnot f hf), fun rate hrate => ?_⟩
      rcases hrate with ⟨state, hstate, -⟩ | ⟨f, hf, ht, -⟩
      · rw [hnone] at hstate
        cases hstate
      · exact absurd ht (hnot f hf)
    · obtain ⟨hrest, hrestores⟩ := Bool.and_eq_true_iff.mp h
      obtain ⟨hnone, hnot⟩ := atRest_iff.mp hrest
      refine fun _ => ⟨hnone, hnot, fun q hq => ?_⟩
      rw [hq] at hrestores
      obtain ⟨hburst, hinflight⟩ := Bool.and_eq_true_iff.mp hrestores
      exact ⟨beq_iff_eq.mp hburst, beq_iff_eq.mp hinflight⟩
    · trivial

/-- Call number `i`, and the steps that it takes alone. -/
def alone (i steps : Nat) (call : ThrottleRequest Rat) : List (Label (ThrottleRequest Rat) (ThrottleInput Rat)) :=
  .call call :: List.replicate steps (.run i ⟨.empty, 0⟩)

def bursting : List (TenantStats Rat) := [{ TenantStats.new "t" 0 with burstScore := 6 }]

/-- A policy is set, the tenant throttled, another policy set, and the throttle released by force. -/
def updateWhileThrottled (p p' : TenantPolicy) : List (Label (ThrottleRequest Rat) (ThrottleInput Rat)) :=
  alone 0 1 (.updatePolicy p) ++ alone 1 6 (.evaluate bursting 0) ++ alone 2 1 (.updatePolicy p') ++ alone 3 5 (.forceRelease "t")

/-- The release sets the rate back to the one before the throttle. -/
theorem not_updatesKept : ¬∀ (a : AutoThrottle Rat) (c : ThrottleConfiguration Rat),
    throttleSystem.Run (fun _ _ => True) ⟨⟨a, fun _ => none⟩, []⟩ c → c.UpdatesKept := by
  intro h
  let raised : TenantPolicy := { standardPolicy with ratePerSec := 200, burstTokens := 200 }
  have hend : (throttleSystem.exec ⟨⟨oneTenant standardPolicy, fun _ => none⟩, []⟩ (updateWhileThrottled standardPolicy raised)).map
      (fun c => (c.threads.all ThrottleFrame.isIdle, c.shared.latest "t", c.shared.throttle.states.lookup "t",
        c.shared.throttle.scheduler.policy "t")) =
      some (true, some raised, none, some { raised with ratePerSec := 100, burstTokens := 100 }) := by
    decide +kernel
  obtain ⟨c, hc, hfacts⟩ := Option.map_eq_some_iff.mp hend
  obtain ⟨hidle, hlatest, hnone, hpolicy⟩ : _ ∧ _ ∧ _ ∧ _ := by simpa only [Prod.mk.injEq] using hfacts
  have hkept := h _ c (Runs.run_of_exec hc) (List.all_eq_true.mp hidle) "t" raised hlatest hnone
  rw [hpolicy] at hkept
  exact absurd hkept (by decide)

/-- A policy that the release restores, throttled and released by force. -/
theorem updatesKept_oneAfterAnother : ∃ c : ThrottleConfiguration Rat,
    throttleSystem.execWhile ThrottleConfiguration.oneAfterAnother ⟨⟨oneTenant standardPolicy, fun _ => none⟩, []⟩
      (alone 0 1 (.updatePolicy blockedPolicy) ++ alone 1 6 (.evaluate bursting 0) ++ alone 2 5 (.forceRelease "t")) = some c ∧
    c.UpdatesKept := by
  have hsome : (throttleSystem.execWhile ThrottleConfiguration.oneAfterAnother
      (⟨⟨oneTenant standardPolicy, fun _ => none⟩, []⟩ : ThrottleConfiguration Rat)
      (alone 0 1 (.updatePolicy blockedPolicy) ++ alone 1 6 (.evaluate bursting 0) ++ alone 2 5 (.forceRelease "t"))).isSome = true := by
    decide +kernel
  obtain ⟨c, hc⟩ := Option.isSome_iff_exists.mp hsome
  have hrun : throttleSystem.Run ThrottleConfiguration.Safe ⟨⟨oneTenant standardPolicy, fun _ => none⟩, []⟩ c :=
    (Runs.run_of_execWhile hc).mono fun _ _ hok => safe_of_oneAfterAnother hok
  exact ⟨c, hc, updatesKept_of_safe hrun⟩

end Exact

end RocksQueue
