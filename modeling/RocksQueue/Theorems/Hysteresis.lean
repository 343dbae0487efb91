import RocksQueue.Theorems.ThrottleCycles

/-! # The hysteresis of the throttle

A throttle ends when its cooldown is over and all signals are well below the thresholds at which it began. So it is not
lifted and applied again by the same statistics, and while it lasts nothing is reduced twice. The end of the cooldown is
a sum of 64 bits: a cooldown that does not fit is over before it began. -/

namespace RocksQueue

open Runs

/-- What `f64` does to a threshold that is scaled down: what is below half of it or below seven tenths of it is not
    above it, unless it is negative. -/
structure F64.Damps (R : Type) [F64 R] : Prop where
  half : ∀ {t x : R}, ¬t < 0.0 → x < t * 0.5 → ¬t < x
  sevenTenths : ∀ {t x : R}, ¬t < 0.0 → x < t * 0.7 → ¬t < x

theorem F64.damps_rat : F64.Damps Rat where
  half := by
    intro t x hsign hlt hover
    norm_num at hsign hlt
    linarith
  sevenTenths := by
    intro t x hsign hlt hover
    norm_num at hsign hlt
    linarith

variable {R : Type} [F64 R]

/-- The thresholds of the signals are not negative. -/
structure ThrottleConfig.Nonneg (c : ThrottleConfig R) : Prop where
  burst : ¬c.burstThreshold < 0.0
  backlog : ¬c.backlogThreshold < 0.0

def BaselineRegistry.Nonneg (m : BaselineRegistry R) : Prop := ∀ tenant t, m.spikeThreshold tenant = some t → ¬t < 0.0

namespace AutoThrottle

section Round
variable {a b : AutoThrottle R} {stats : TenantStats R} {now instant : Nat} {tenant : String}

/-- Statistics that lift a throttle do not ask for one. -/
theorem not_shouldThrottle_of_calm (hdamps : F64.Damps R) (hconfig : a.config.Nonneg) (hbaselines : a.baselines.Nonneg)
    (h : a.calm stats = true) : a.shouldThrottle stats = false := by
  rw [calm, Bool.and_eq_true, Bool.and_eq_true, decide_eq_true_eq, decide_eq_true_eq, decide_eq_true_eq] at h
  obtain ⟨⟨hburst, hbacklog⟩, hrate⟩ := h
  have hspike : a.baselines.isSpike stats.tenantId stats.arrivalRate = false := by
    unfold BaselineRegistry.isSpike
    split
    · rfl
    · rename_i baseline hbaseline
      have hthreshold : a.baselines.spikeThreshold stats.tenantId = some baseline.spikeThreshold := by
        rw [BaselineRegistry.spikeThreshold, hbaseline]
        rfl
      rw [hthreshold, Option.getD_some] at hrate
      exact decide_eq_false (hdamps.sevenTenths (hbaselines _ _ hthreshold) hrate)
  rw [shouldThrottle, hspike, Bool.or_false, Bool.or_eq_false_iff]
  exact ⟨decide_eq_false (hdamps.half hconfig.burst hburst), decide_eq_false (hdamps.sevenTenths hconfig.backlog hbacklog)⟩

/-- What a round does to the throttle of one tenant. -/
inductive RoundMove (a b : AutoThrottle R) (stats : TenantStats R) (now : Nat) (tenant : String) : Prop where
  | kept (state : b.states.lookup tenant = a.states.lookup tenant)
      (policy : b.scheduler.policy tenant = a.scheduler.policy tenant)
  | throttled (p : TenantPolicy) (reason : String) (own : stats.tenantId = tenant)
      (free : ¬∃ st, a.states.lookup tenant = some st ∧ st.throttled = true) (should : a.shouldThrottle stats = true)
      (policy : a.scheduler.policy tenant = some p)
      (after : b.states.lookup tenant = some (a.config.throttleState tenant reason p.ratePerSec now))
  | released (st : ThrottleState) (own : stats.tenantId = tenant) (before : a.states.lookup tenant = some st)
      (due : a.releaseDue st stats now = true) (after : b.states.lookup tenant = none)

theorem roundMove (a : AutoThrottle R) (stats : TenantStats R) (now instant : Nat) (tenant : String) :
    RoundMove a (a.evaluateOne stats now instant) stats now tenant := by
  unfold evaluateOne
  split
  · rename_i existing hexisting
    obtain ⟨hstate, -⟩ := Option.filter_eq_some_iff.mp hexisting
    split
    · rename_i hdue
      by_cases hown : tenant = stats.tenantId
      · refine .released existing hown.symm (hown ▸ hstate) hdue ?_
        rw [states_releaseThrottle, if_pos hown]
      · refine .kept ?_ ?_
        · rw [states_releaseThrottle, if_neg hown]
        · rw [policy_releaseThrottle, if_neg hown]
    · exact .kept rfl rfl
  · rename_i hnone
    -- The tenant has no throttle in force, so the round may apply one.
    have hfree : ¬∃ st, a.states.lookup stats.tenantId = some st ∧ st.throttled = true := by
      rintro ⟨st, hst, hthrottled⟩
      rw [hst] at hnone
      simp [Option.filter, hthrottled] at hnone
    split
    · rename_i hshould
      cases hpolicy : a.scheduler.policy stats.tenantId with
      | none =>
        rw [applyThrottle_unknown hpolicy]
        exact .kept rfl rfl
      | some p =>
        by_cases hown : tenant = stats.tenantId
        · subst hown
          exact .throttled p (a.reason stats) rfl hfree hshould hpolicy (by rw [states_applyThrottle hpolicy, if_pos rfl])
        · refine .kept (states_applyThrottle_of_ne hown) ?_
          rw [policy_applyThrottle, if_neg hown]
    · exact .kept rfl rfl

theorem config_evaluateOne : (a.evaluateOne stats now instant).config = a.config :=
  config_next (rfl : a.next (.round stats now instant) = some _)

theorem baselines_evaluateOne : (a.evaluateOne stats now instant).baselines = a.baselines := by
  unfold evaluateOne
  split
  · split
    · rfl
    · rfl
  · split
    · exact baselines_applyThrottle
    · rfl

/-- Whether statistics ask for a throttle is a matter of the configuration and the baselines. -/
theorem shouldThrottle_congr (hconfig : b.config = a.config) (hbaselines : b.baselines = a.baselines) :
    b.shouldThrottle stats = a.shouldThrottle stats := by
  rw [shouldThrottle, shouldThrottle, hconfig, hbaselines]

/-- Statistics that do not ask for a throttle leave a free tenant free. -/
theorem evaluateOne_free (hnone : a.states.lookup stats.tenantId = none) (hnot : a.shouldThrottle stats = false) :
    a.evaluateOne stats now instant = a := by
  rw [evaluateOne, hnone, Option.filter_none]
  exact if_neg (by rw [hnot]; exact Bool.false_ne_true)

end Round

section Evaluate
variable {a : AutoThrottle R} {allStats : List (TenantStats R)} {now instant : Nat} {tenant : String}

theorem config_evaluate : (a.evaluate allStats now instant).config = a.config := by
  induction allStats generalizing a with
  | nil => rfl
  | cons stats rest ih => exact ih.trans config_evaluateOne

theorem baselines_evaluate : (a.evaluate allStats now instant).baselines = a.baselines := by
  induction allStats generalizing a with
  | nil => rfl
  | cons stats rest ih => exact ih.trans baselines_evaluateOne

/-- An evaluation leaves a tenant alone of which it sees no statistics. -/
theorem lookup_evaluate (h : tenant ∉ allStats.map TenantStats.tenantId) :
    (a.evaluate allStats now instant).states.lookup tenant = a.states.lookup tenant := by
  induction allStats generalizing a with
  | nil => rfl
  | cons stats rest ih =>
    rw [List.map_cons, List.mem_cons, not_or] at h
    refine (ih h.2).trans ?_
    cases roundMove a stats now instant tenant with
    | kept hstate _ => exact hstate
    | throttled _ _ hown _ _ _ _ => exact absurd hown.symm h.1
    | released _ hown _ _ _ => exact absurd hown.symm h.1

theorem evaluate_append {before after : List (TenantStats R)} :
    a.evaluate (before ++ after) now instant = (a.evaluate before now instant).evaluate after now instant :=
  List.foldl_append

/-- A round that lifts a throttle sees statistics that do not ask for one. -/
theorem not_shouldThrottle_of_released {stats : TenantStats R} (hdamps : F64.Damps R) (hconfig : a.config.Nonneg)
    (hbaselines : a.baselines.Nonneg) (hbefore : a.states.lookup tenant ≠ none)
    (hafter : (a.evaluateOne stats now instant).states.lookup tenant = none) :
    stats.tenantId = tenant ∧ a.shouldThrottle stats = false := by
  cases roundMove a stats now instant tenant with
  | kept hstate _ => exact absurd (hstate.symm.trans hafter) hbefore
  | throttled _ _ _ _ _ _ hthrottled =>
    rw [hafter] at hthrottled
    cases hthrottled
  | released st hown _ hdue _ =>
    rw [releaseDue, Bool.and_eq_true] at hdue
    exact ⟨hown, not_shouldThrottle_of_calm hdamps hconfig hbaselines hdue.2⟩

/-- An evaluation of different tenants that lifts a throttle would not lead to one if it were repeated. -/
theorem evaluate_again (hdamps : F64.Damps R) (hconfig : a.config.Nonneg) (hbaselines : a.baselines.Nonneg)
    (hnodup : (allStats.map TenantStats.tenantId).Nodup) (hbefore : a.states.lookup tenant ≠ none)
    (hafter : (a.evaluate allStats now instant).states.lookup tenant = none) (now' instant' : Nat) :
    ((a.evaluate allStats now instant).evaluate allStats now' instant').states.lookup tenant = none := by
  have hmem : tenant ∈ allStats.map TenantStats.tenantId := by
    by_contra hnot
    rw [lookup_evaluate hnot] at hafter
    exact hbefore hafter
  obtain ⟨stats, hstats, hown⟩ := List.mem_map.mp hmem
  obtain ⟨before, after, rfl⟩ := List.append_of_mem hstats
  rw [List.map_append, List.map_cons, hown, List.nodup_append, List.nodup_cons] at hnodup
  obtain ⟨-, ⟨hnotAfter, -⟩, hdisjoint⟩ := hnodup
  have hnotBefore : tenant ∉ before.map TenantStats.tenantId := fun hin => hdisjoint _ hin _ List.mem_cons_self rfl
  -- The round of the tenant is the only one that matters to it.
  have hround : ∀ (c : AutoThrottle R) (n i : Nat), (c.evaluate (before ++ stats :: after) n i).states.lookup tenant =
      ((c.evaluate before n i).evaluateOne stats n i).states.lookup tenant := by
    intro c n i
    rw [evaluate_append]
    exact lookup_evaluate hnotAfter
  rw [hround] at hafter
  have hconfig' : (a.evaluate before now instant).config.Nonneg := by
    rw [config_evaluate]
    exact hconfig
  have hbaselines' : (a.evaluate before now instant).baselines.Nonneg := by
    rw [baselines_evaluate]
    exact hbaselines
  rw [← lookup_evaluate hnotBefore] at hbefore
  obtain ⟨-, hnot⟩ := not_shouldThrottle_of_released hdamps hconfig' hbaselines' hbefore hafter
  have hlookup :
      ((a.evaluate (before ++ stats :: after) now instant).evaluate before now' instant').states.lookup tenant = none := by
    rw [lookup_evaluate hnotBefore, hround]
    exact hafter
  rw [hround, evaluateOne_free (by rw [hown]; exact hlookup)]
  · exact hlookup
  · rw [shouldThrottle_congr (a := a.evaluate before now instant)]
    · exact hnot
    · rw [config_evaluate, config_evaluate, config_evaluate]
    · rw [baselines_evaluate, baselines_evaluate, baselines_evaluate]

end Evaluate

end AutoThrottle

/-! ## Runs -/

/-- A throttle in use and the clock of its last round. No call reads what was noted down for each throttled tenant: the
    clock of the round in which its throttle began, and the rate that the scheduler had for it then. -/
structure WatchedThrottle (R : Type) where
  throttle : AutoThrottle R
  clock : Nat
  begun : String → Option (Nat × Nat)

namespace WatchedThrottle

open AutoThrottle

def start (a : AutoThrottle R) (clock : Nat) : WatchedThrottle R := ⟨a, clock, fun _ => none⟩

/-- A throttle begins where there was none before, and is forgotten where there is none after. -/
def observe (w : WatchedThrottle R) (b : AutoThrottle R) (now : Nat) : WatchedThrottle R where
  throttle := b
  clock := now
  begun t :=
    if (b.states.lookup t).isNone then none
    else if (w.throttle.states.lookup t).isSome then w.begun t
    else (w.throttle.scheduler.policy t).map fun p => (now, p.ratePerSec)

/-- The clock does not go back, and nobody releases a throttle by force. -/
def next (w : WatchedThrottle R) : AutoThrottle.Event R → Option (WatchedThrottle R)
  | .round stats now instant =>
    if w.clock ≤ now then some (w.observe (w.throttle.evaluateOne stats now instant) now) else none
  | .forceRelease _ _ => none
  | .elsewhere scheduler baselines store =>
    some { w with throttle := { w.throttle with scheduler := scheduler, baselines := baselines, store := store } }

/-- No spike threshold becomes negative. -/
def Watched (_ : WatchedThrottle R) : AutoThrottle.Event R → Prop
  | .elsewhere _ baselines _ => baselines.Nonneg
  | _ => True

/-- The cooldown of a throttle that begins ends within 64 bits. -/
def CooldownFits (w : WatchedThrottle R) : AutoThrottle.Event R → Prop
  | .round stats now _ => w.throttle.states.lookup stats.tenantId = none → w.throttle.shouldThrottle stats = true →
      now + w.throttle.config.cooldownSecs * 1000 < 2 ^ 64
  | _ => True

variable {w w' : WatchedThrottle R} {e : AutoThrottle.Event R} {tenant : String} {config : ThrottleConfig R}
  {stats : TenantStats R} {now instant : Nat}

/-- The state that is kept for a tenant says what was noted down when its throttle began. -/
structure Kept (w : WatchedThrottle R) (config : ThrottleConfig R) : Prop where
  sameConfig : w.throttle.config = config
  baselines : w.throttle.baselines.Nonneg
  state : ∀ {tenant st}, w.throttle.states.lookup tenant = some st → st.throttled = true ∧
    ∃ since, w.begun tenant = some (since, st.originalRate) ∧ st.cooldownUntilMs = since + config.cooldownSecs * 1000
  free : ∀ {tenant}, w.throttle.states.lookup tenant = none → w.begun tenant = none

theorem next_round (h : w.next (.round stats now instant) = some w') :
    w.clock ≤ now ∧ w' = w.observe (w.throttle.evaluateOne stats now instant) now := by
  rw [next] at h
  split at h
  · rename_i hclock
    exact ⟨hclock, (Option.some.inj h).symm⟩
  · cases h

omit [F64 R] in
theorem begun_of_kept (hsome : (w.throttle.states.lookup tenant).isSome) {b : AutoThrottle R}
    (hkept : b.states.lookup tenant = w.throttle.states.lookup tenant) :
    (w.observe b now).begun tenant = w.begun tenant := by
  simp only [observe, hkept, if_pos hsome, Option.isNone_iff_eq_none]
  rw [if_neg (Option.ne_none_iff_isSome.mpr hsome)]

theorem kept_next (h : w.Kept config) (hok : Watched w e ∧ CooldownFits w e) (hnext : w.next e = some w') :
    w'.Kept config := by
  cases e with
  | round stats now instant =>
    obtain ⟨-, rfl⟩ := next_round hnext
    refine ⟨config_evaluateOne.trans h.sameConfig, ?_, ?_, ?_⟩
    · show (w.throttle.evaluateOne stats now instant).baselines.Nonneg
      rw [baselines_evaluateOne]
      exact h.baselines
    · intro tenant st hst
      have hlookup : (w.throttle.evaluateOne stats now instant).states.lookup tenant = some st := hst
      cases roundMove w.throttle stats now instant tenant with
      | kept hstate hpolicy =>
        have hbefore := hstate.symm.trans hlookup
        rw [begun_of_kept (by rw [hbefore]; rfl) hstate]
        exact h.state hbefore
      | throttled p reason hown hfree hshould hpolicy hafter =>
        rw [hlookup, Option.some.injEq] at hafter
        -- A throttle is applied where there was none.
        have hnone : w.throttle.states.lookup tenant = none := by
          by_contra hsome
          obtain ⟨before, hbefore⟩ := Option.ne_none_iff_exists'.mp hsome
          exact hfree ⟨before, hbefore, (h.state hbefore).1⟩
        refine ⟨by rw [hafter]; rfl, now, ?_, ?_⟩
        · simp only [observe, hlookup, hnone, hpolicy, hafter]
          rfl
        · have hfits := hok.2 (hown ▸ hnone) hshould
          rw [hafter, ← h.sameConfig]
          exact Nat.mod_eq_of_lt hfits
      | released before hown hbefore hdue hafter =>
        rw [hlookup] at hafter
        cases hafter
    · intro tenant hnone
      exact if_pos (Option.isNone_iff_eq_none.mpr hnone)
  | forceRelease t instant => cases hnext
  | elsewhere scheduler baselines store =>
    cases hnext
    exact ⟨h.sameConfig, hok.1, h.state, h.free⟩

theorem kept_of_run {a : AutoThrottle R} {clock : Nat} (hempty : ∀ tenant, a.states.lookup tenant = none)
    (hbaselines : a.baselines.Nonneg)
    (hrun : Run next (fun w e => Watched w e ∧ CooldownFits w e) (start a clock) w) : w.Kept a.config := by
  refine hrun.invariant (I := fun w => w.Kept a.config) kept_next ⟨rfl, hbaselines, ?_, fun _ => rfl⟩
  intro tenant st hst
  rw [start, hempty] at hst
  cases hst

/-- What the next step does to the throttles there are, when `cooldown` is the cooldown in milliseconds. -/
structure Hysteretic (w : WatchedThrottle R) (cooldown : Nat) : Prop where
  /-- The rate kept for the release is the one that the scheduler had when the throttle began. -/
  recorded : ∀ {tenant st}, w.throttle.states.lookup tenant = some st →
    ∃ since, w.begun tenant = some (since, st.originalRate)
  /-- A throttle stays until its cooldown is over. -/
  stays : ∀ {e w' tenant since rate}, w.next e = some w' → w.begun tenant = some (since, rate) →
    w'.clock < since + cooldown →
      w'.throttle.states.lookup tenant = w.throttle.states.lookup tenant ∧ w'.begun tenant = some (since, rate)
  /-- As long as it stays, its state stays the same and the scheduler's policy is not touched. -/
  once : ∀ {stats now instant w' tenant st st'}, w.next (.round stats now instant) = some w' →
    w.throttle.states.lookup tenant = some st → w'.throttle.states.lookup tenant = some st' →
      st' = st ∧ w'.throttle.scheduler.policy tenant = w.throttle.scheduler.policy tenant
  /-- The statistics that lift it do not ask for a throttle, and would not lead to one if they came again. -/
  released : ∀ {stats now instant w' tenant}, w.next (.round stats now instant) = some w' →
    w.throttle.states.lookup tenant ≠ none → w'.throttle.states.lookup tenant = none →
      stats.tenantId = tenant ∧ w.throttle.shouldThrottle stats = false ∧
        ∀ now' instant', (w'.throttle.evaluateOne stats now' instant').states.lookup tenant = none
  /-- Nor do all the statistics of an evaluation that lifts it, when they are those of different tenants. -/
  evaluated : ∀ {allStats now instant tenant}, (allStats.map TenantStats.tenantId).Nodup →
    w.throttle.states.lookup tenant ≠ none → (w.throttle.evaluate allStats now instant).states.lookup tenant = none →
      ∀ now' instant',
        ((w.throttle.evaluate allStats now instant).evaluate allStats now' instant').states.lookup tenant = none

theorem stays_of_kept (h : w.Kept config) {since rate : Nat} (hnext : w.next e = some w')
    (hbegun : w.begun tenant = some (since, rate)) (hearly : w'.clock < since + config.cooldownSecs * 1000) :
    w'.throttle.states.lookup tenant = w.throttle.states.lookup tenant ∧ w'.begun tenant = some (since, rate) := by
  have hsome : (w.throttle.states.lookup tenant).isSome := by
    by_contra hnone
    rw [h.free (Option.not_isSome_iff_eq_none.mp hnone)] at hbegun
    cases hbegun
  obtain ⟨st, hst⟩ := Option.isSome_iff_exists.mp hsome
  obtain ⟨hthrottled, since', hbegun', hcooldown⟩ := h.state hst
  cases e with
  | round stats now instant =>
    obtain ⟨-, rfl⟩ := next_round hnext
    cases roundMove w.throttle stats now instant tenant with
    | kept hstate _ => exact ⟨hstate, (begun_of_kept hsome hstate).trans hbegun⟩
    | throttled _ _ _ hfree _ _ _ => exact absurd ⟨st, hst, hthrottled⟩ hfree
    | released st' _ hst' hdue _ =>
      rw [hst, Option.some.injEq] at hst'
      rw [hbegun', Option.some.injEq, Prod.mk.injEq] at hbegun
      rw [releaseDue, Bool.and_eq_true, decide_eq_true_eq, ← hst', hcooldown, hbegun.1] at hdue
      exact absurd hearly (Nat.not_lt.mpr hdue.1)
  | forceRelease t instant => cases hnext
  | elsewhere scheduler baselines store =>
    cases hnext
    exact ⟨rfl, hbegun⟩

theorem once_of_kept (h : w.Kept config) {st st' : ThrottleState} (hnext : w.next (.round stats now instant) = some w')
    (hst : w.throttle.states.lookup tenant = some st) (hst' : w'.throttle.states.lookup tenant = some st') :
    st' = st ∧ w'.throttle.scheduler.policy tenant = w.throttle.scheduler.policy tenant := by
  obtain ⟨-, rfl⟩ := next_round hnext
  cases roundMove w.throttle stats now instant tenant with
  | kept hstate hpolicy =>
    have heq := hst'.symm.trans (hstate.trans hst)
    exact ⟨Option.some.inj heq, hpolicy⟩
  | throttled _ _ _ hfree _ _ _ => exact absurd ⟨st, hst, (h.state hst).1⟩ hfree
  | released _ _ _ _ hafter =>
    have hlookup : (w.throttle.evaluateOne stats now instant).states.lookup tenant = some st' := hst'
    rw [hafter] at hlookup
    cases hlookup

/-- In every run from a throttle with no states whose thresholds are not negative, as long as the end of each cooldown
    fits into 64 bits, the throttles have their hysteresis. -/
theorem hysteretic_of_run (hdamps : F64.Damps R) {a : AutoThrottle R} {clock : Nat}
    (hempty : ∀ tenant, a.states.lookup tenant = none) (hconfig : a.config.Nonneg) (hbaselines : a.baselines.Nonneg)
    (hrun : Run next (fun w e => Watched w e ∧ CooldownFits w e) (start a clock) w) :
    w.Hysteretic (a.config.cooldownSecs * 1000) := by
  have hkept : w.Kept a.config := kept_of_run hempty hbaselines hrun
  have hconfigNow : w.throttle.config.Nonneg := hkept.sameConfig.symm ▸ hconfig
  constructor
  · intro tenant st hst
    obtain ⟨-, since, hbegun, -⟩ := hkept.state hst
    exact ⟨since, hbegun⟩
  · intro e w' tenant since rate hnext hbegun hearly
    exact stays_of_kept hkept hnext hbegun hearly
  · intro stats now instant w' tenant st st' hnext hst hst'
    exact once_of_kept hkept hnext hst hst'
  · intro stats now instant w' tenant hnext hbefore hafter
    obtain ⟨-, rfl⟩ := next_round hnext
    obtain ⟨hown, hnot⟩ := not_shouldThrottle_of_released hdamps hconfigNow hkept.baselines hbefore hafter
    refine ⟨hown, hnot, fun now' instant' => ?_⟩
    show ((w.throttle.evaluateOne stats now instant).evaluateOne stats now' instant').states.lookup tenant = none
    rw [evaluateOne_free (by rw [hown]; exact hafter)]
    · exact hafter
    · rw [shouldThrottle_congr config_evaluateOne baselines_evaluateOne]
      exact hnot
  · intro allStats now instant tenant hnodup hbefore hafter now' instant'
    exact evaluate_again hdamps hconfigNow hkept.baselines hnodup hbefore hafter now' instant'

/-- A whole `evaluate` is a run of its rounds. -/
theorem exec_evaluate {allStats : List (TenantStats R)} (hclock : w.clock ≤ now) :
    ∃ w', exec next w (allStats.map fun stats => .round stats now instant) = some w' ∧
      w'.throttle = w.throttle.evaluate allStats now instant := by
  induction allStats generalizing w with
  | nil => exact ⟨w, rfl, rfl⟩
  | cons stats rest ih =>
    have hstep : w.next (.round stats now instant) = some (w.observe (w.throttle.evaluateOne stats now instant) now) :=
      if_pos hclock
    obtain ⟨w', hexec, hthrottle⟩ := ih (w := w.observe (w.throttle.evaluateOne stats now instant) now) (Nat.le_refl now)
    refine ⟨w', ?_, hthrottle⟩
    rw [List.map_cons, exec, hstep]
    exact hexec

/-! ## A burst and a calm -/

/-- One tenant under a throttle that is meant to last practically for ever. -/
def longCooldown : AutoThrottle Rat :=
  { oneTenant standardPolicy with config := { ThrottleConfig.default with cooldownSecs := 2 ^ 61 } }

def burstAt (now : Nat) : AutoThrottle.Event Rat := .round { TenantStats.new "t" 0 with burstScore := 6 } now 0

def calmAt (now : Nat) : AutoThrottle.Event Rat := .round (TenantStats.new "t" 0) now 0

theorem nonneg_default : (ThrottleConfig.default : ThrottleConfig Rat).Nonneg := ⟨by decide +kernel, by decide +kernel⟩

theorem nonneg_empty : (oneTenant standardPolicy).baselines.Nonneg := by
  intro tenant t ht
  cases ht

/-- What a burst at 1000 and a calm right after it come to: what was noted down, whether the tenant is throttled after the
    one and after the other, and the clock. -/
def burstThenCalm (a : AutoThrottle Rat) : Option (Option (Nat × Nat) × Bool × Bool × Nat) :=
  ((start a 0).next (burstAt 1000)).bind fun w =>
    (w.next (calmAt 1001)).map fun w' =>
      (w.begun "t", (w.throttle.states.lookup "t").isSome, (w'.throttle.states.lookup "t").isSome, w'.clock)

/-- The end of the cooldown wraps around to the moment of the burst, and the throttle is lifted at once. -/
theorem not_hysteretic : ¬∀ (a : AutoThrottle Rat) (clock : Nat) (w : WatchedThrottle Rat),
    (∀ tenant, a.states.lookup tenant = none) → a.config.Nonneg → a.baselines.Nonneg →
      Run next Watched (start a clock) w → w.Hysteretic (a.config.cooldownSecs * 1000) := by
  intro h
  have hsummary : burstThenCalm longCooldown = some (some (1000, 100), true, false, 1001) := by decide +kernel
  obtain ⟨w, hburst, hmap⟩ := Option.bind_eq_some_iff.mp hsummary
  obtain ⟨w', hcalm, heq⟩ := Option.map_eq_some_iff.mp hmap
  obtain ⟨hbegun, hthrottled, hlifted, hclock⟩ : w.begun "t" = some (1000, 100) ∧
      (w.throttle.states.lookup "t").isSome = true ∧ (w'.throttle.states.lookup "t").isSome = false ∧ w'.clock = 1001 := by
    simpa only [Prod.mk.injEq] using heq
  have hconfig : longCooldown.config.Nonneg := ⟨nonneg_default.burst, nonneg_default.backlog⟩
  have hwatched : Watched (start longCooldown 0) (burstAt 1000) := trivial
  have hhysteretic := h longCooldown 0 w (fun _ => rfl) hconfig nonneg_empty (.step .refl hwatched hburst)
  obtain ⟨hstays, -⟩ := hhysteretic.stays hcalm hbegun (by rw [hclock]; decide)
  rw [hstays, hthrottled] at hlifted
  cases hlifted

theorem hysteretic_burst : ∃ w, (start (oneTenant standardPolicy) 0).next (burstAt 1000) = some w ∧
    w.begun "t" = some (1000, 100) ∧ w.Hysteretic (30 * 1000) := by
  have hsummary : ((start (oneTenant standardPolicy) 0).next (burstAt 1000)).map (fun w => w.begun "t") =
      some (some (1000, 100)) := by decide +kernel
  obtain ⟨w, hburst, hbegun⟩ := Option.map_eq_some_iff.mp hsummary
  have hwatched : Watched (start (oneTenant standardPolicy) 0) (burstAt 1000) := trivial
  have hfits : CooldownFits (start (oneTenant standardPolicy) 0) (burstAt 1000) := by
    unfold CooldownFits burstAt
    intro _ _
    show 1000 + 30 * 1000 < 2 ^ 64
    norm_num
  have hrun : Run next (fun w e => Watched w e ∧ CooldownFits w e) (start (oneTenant standardPolicy) 0) w :=
    .step .refl ⟨hwatched, hfits⟩ hburst
  have hcooldown : (oneTenant standardPolicy).config.cooldownSecs = 30 := rfl
  refine ⟨w, hburst, hbegun, ?_⟩
  rw [← hcooldown]
  exact hysteretic_of_run F64.damps_rat (fun _ => rfl) nonneg_default nonneg_empty hrun

end WatchedThrottle

end RocksQueue
