import RocksQueue.Theorems.Intact

/-! # One scheduling policy for each tenant

Weight, inflight limit, burst and rate of a tenant are in the registry and in the scheduler. `ProvisionTenant`
sets both, `UpdatePolicy` the scheduler's, `SetNamespacePolicy` the registry's, and a restart makes the
scheduler's from the registry's. -/

namespace RocksQueue

variable {R : Type} [F64 R]

/-- The server, and the values that the latest request gave each tenant. -/
structure PolicyHistory (R : Type) where
  server : Server R
  given : String → Option TenantPolicy

namespace Server

/-- The requests that provision a tenant or set one of its policies, and restarts. -/
def Event.SetsPolicy : Event → Prop
  | .request (.provisionTenant _ _) _ _ => True
  | .request (.updatePolicy _ _) _ _ => True
  | .request (.setNamespacePolicy _) _ _ => True
  | .restart _ => True
  | _ => False

/-- The values that a request gives its tenant. A request that is refused gives none. -/
def gives (s : Server R) : Event → Option TenantPolicy
  | .request (.provisionTenant tenantId tier) clock _ =>
    if (s.provisionTenant tenantId tier clock).2 then some ((tierPolicy tier tenantId).toTenantPolicy tenantId) else none
  | .request (.updatePolicy tenantId (some p)) _ _ => some (p.toTenantPolicy tenantId)
  | _ => none

/-- What the tenants have been given after a request. -/
def givenBy (s : Server R) (e : Event) (before : String → Option TenantPolicy) (t : String) : Option TenantPolicy :=
  match s.gives e with
  | some p => if p.tenantId = t then some p else before t
  | none => before t

/-- The limit in the reply to `GetPolicy`; the cast to `u32` wraps. -/
def reportedMaxInflight (s : Server R) (tenantId : String) : Option Nat :=
  (s.scheduler.policy tenantId).map fun p => p.maxInflight % u32Size

/-- The limit with which `DequeueTasks` calls the registry. -/
def enforcedMaxInflight (s : Server R) (tenantId : String) : Option Nat :=
  (s.registry.getPolicy tenantId).map NamespacePolicy.maxInflight

def isThrottled (s : Server R) (tenantId : String) : Bool := (s.throttles.lookup tenantId).any ThrottleState.throttled

end Server

namespace PolicyHistory

def next (s : PolicyHistory R) (e : Server.Event) : Option (PolicyHistory R) :=
  (s.server.next e).map fun server => ⟨server, s.server.givenBy e s.given⟩

/-- The first start, on an empty path. -/
def Starts (s : PolicyHistory R) : Prop :=
  (∃ clock, Server.main (.fresh : Database R) clock = some s.server) ∧ ∀ t, s.given t = none

/-- Scheduler and registry agree on every tenant that is not throttled, and have what was last given to it. -/
def OnePolicy (s : PolicyHistory R) : Prop :=
  ∀ t q, s.server.registry.getPolicy t = some q → s.server.isThrottled t = false →
    s.server.scheduler.policy t = some (q.toTenantPolicy t) ∧ s.given t = some (q.toTenantPolicy t) ∧
      s.server.enforcedMaxInflight t = s.server.reportedMaxInflight t

/-- `UpdatePolicy` gives a provisioned tenant the values that the registry has already, and `SetNamespacePolicy`
    is called for a tenant only while these are the ones that it fills in. -/
def KeepsPolicy (s : PolicyHistory R) : Server.Event → Prop
  | .request (.updatePolicy t (some p)) _ _ => ∀ q, s.server.registry.getPolicy t = some q → p.toTenantPolicy t = q.toTenantPolicy t
  | .request (.setNamespacePolicy r) _ _ =>
    ∀ q, s.server.registry.getPolicy r.tenantId = some q → q.toTenantPolicy r.tenantId = r.policy.toTenantPolicy r.tenantId
  | _ => True

end PolicyHistory

/-- The scheduler has the policy of the registry, which is what was last given. -/
def Server.Holds (s : Server R) (t : String) (given : Option TenantPolicy) : Prop :=
  ∀ q, s.registry.getPolicy t = some q →
    s.scheduler.policy t = some (q.toTenantPolicy t) ∧ given = some (q.toTenantPolicy t) ∧ q.maxInflight < u32Size

structure PolicyHistory.Held (s : PolicyHistory R) : Prop where
  intact : s.server.Intact
  holds : ∀ t, s.server.Holds t (s.given t)

/-! ## The requests -/

section Requests
variable {s s' : Server R} {given : Option TenantPolicy} {t tenant tier : String} {clock : Clock}

omit [F64 R] in
/-- A tenant that a request does not touch. -/
theorem Server.Holds.of_touches {P : String → Prop} (h : s.Holds t given) (ht : s.Touches P s') (hp : ¬P t) :
    s'.Holds t given := by
  have hpolicy : s'.scheduler.policy t = s.scheduler.policy t :=
    congrArg (Option.map TenantState.policy) (congrArg Registered.state (ht.registered t hp))
  intro q hq
  rw [hpolicy]
  exact h q ((ht.policies t hp).symm.trans hq)

theorem tierPolicy_maxInflight (tier tenant : String) : (tierPolicy tier tenant).maxInflight < u32Size := by
  unfold tierPolicy
  split
  · exact (by decide : 5000 < u32Size)
  · exact (by decide : 500 < u32Size)

theorem registered_provisionTenant (hok : (s.provisionTenant tenant tier clock).2 = true) :
    (s.provisionTenant tenant tier clock).1.registry.getPolicy tenant = some (tierPolicy tier tenant) ∧
      (s.provisionTenant tenant tier clock).1.scheduler.policy tenant =
        some ((tierPolicy tier tenant).toTenantPolicy tenant) := by
  obtain ⟨db', ok, -, hcall⟩ := provisionTenant_cases s.registry tenant (tierPolicy tier tenant)
  cases ok with
  | false =>
    simp only [Server.provisionTenant, hcall] at hok
    cases hok
  | true =>
    simp only [Server.provisionTenant, hcall]
    exact ⟨AList.lookup_insert _, WFQScheduler.policy_register.trans (if_pos rfl)⟩

theorem provisionTenant_refused (hok : (s.provisionTenant tenant tier clock).2 = false) :
    (s.provisionTenant tenant tier clock).1.registry.policies = s.registry.policies ∧
      (s.provisionTenant tenant tier clock).1.scheduler = s.scheduler := by
  obtain ⟨db', ok, -, hcall⟩ := provisionTenant_cases s.registry tenant (tierPolicy tier tenant)
  cases ok with
  | false => exact ⟨by simp [Server.provisionTenant, hcall], by simp [Server.provisionTenant, hcall]⟩
  | true =>
    simp only [Server.provisionTenant, hcall] at hok
    cases hok

omit [F64 R] in
theorem policies_setNamespacePolicy (r : NamespacePolicyRequest) :
    (s.setNamespacePolicy r).registry.getPolicy r.tenantId = s.registry.getPolicy r.tenantId ∨
      (s.registry.getPolicy r.tenantId).isSome = true ∧
        (s.setNamespacePolicy r).registry.getPolicy r.tenantId = some r.policy := by
  unfold Server.setNamespacePolicy TenantRegistry.updateNamespacePolicy
  split
  · rename_i hlisted
    split
    · exact Or.inl rfl
    · exact Or.inr ⟨AList.lookup_isSome.mpr hlisted, AList.lookup_insert _⟩
  · exact Or.inl rfl

theorem Server.Holds.provisionTenant (h : s.Holds tenant given) :
    (s.provisionTenant tenant tier clock).1.Holds tenant
      (if (s.provisionTenant tenant tier clock).2 then some ((tierPolicy tier tenant).toTenantPolicy tenant) else given) := by
  intro q hq
  cases hok : (s.provisionTenant tenant tier clock).2 with
  | true =>
    obtain ⟨hpolicy, hscheduler⟩ := registered_provisionTenant hok
    obtain rfl := Option.some.inj (hpolicy.symm.trans hq)
    exact ⟨hscheduler, rfl, tierPolicy_maxInflight tier tenant⟩
  | false =>
    obtain ⟨hpolicies, hscheduler⟩ := provisionTenant_refused hok
    rw [TenantRegistry.getPolicy, hpolicies] at hq
    rw [hscheduler]
    exact h q hq

theorem Server.Holds.updatePolicy (h : s.Holds tenant given) {p : Policy}
    (hkeeps : ∀ q, s.registry.getPolicy tenant = some q → p.toTenantPolicy tenant = q.toTenantPolicy tenant) :
    (s.updatePolicy tenant (some p) clock).Holds tenant (some (p.toTenantPolicy tenant)) := by
  intro q hq
  have hsame : p.toTenantPolicy tenant = q.toTenantPolicy tenant := hkeeps q hq
  have hscheduler : (s.updatePolicy tenant (some p) clock).scheduler.policy tenant = some (p.toTenantPolicy tenant) :=
    WFQScheduler.policy_updatePolicy.trans (if_pos rfl)
  exact ⟨hscheduler.trans (congrArg some hsame), congrArg some hsame, (h q hq).2.2⟩

omit [F64 R] in
theorem Server.Holds.setNamespacePolicy {r : NamespacePolicyRequest} (h : s.Holds r.tenantId given)
    (hkeeps : ∀ q, s.registry.getPolicy r.tenantId = some q → q.toTenantPolicy r.tenantId = r.policy.toTenantPolicy r.tenantId) :
    (s.setNamespacePolicy r).Holds r.tenantId given := by
  intro q hq
  rcases policies_setNamespacePolicy (s := s) r with hpolicy | ⟨hsome, hpolicy⟩
  · exact h q (hpolicy.symm.trans hq)
  · obtain ⟨before, hbefore⟩ := Option.isSome_iff_exists.mp hsome
    obtain rfl := Option.some.inj (hpolicy.symm.trans hq)
    have hsame : before.toTenantPolicy r.tenantId = r.policy.toTenantPolicy r.tenantId := hkeeps before hbefore
    obtain ⟨hscheduler, hgiven, -⟩ := h before hbefore
    exact ⟨hscheduler.trans (congrArg some hsame), hgiven.trans (congrArg some hsame), (by decide : 500 < u32Size)⟩

/-- A start makes the scheduler's policies from the registry's, which are those on disk. -/
theorem Server.Holds.restart (hi : s.Intact) (h : s.Holds t given) (hmain : Server.main s.registry.db clock = some s') :
    s'.Holds t given := by
  intro q hq
  have hs := started_of_main hi.filed hmain
  have hload : s.registry.db.loadPolicy t = some q := (hs.policies t).symm.trans hq
  have hregistered := hs.registered t
  rw [hload] at hregistered
  have hscheduler : s'.scheduler.policy t = some (q.toTenantPolicy t) :=
    congrArg (Option.map TenantState.policy) (congrArg Registered.state hregistered)
  exact ⟨hscheduler, (h q (((hi.tenants t).policy).trans hload)).2⟩

end Requests

/-! ## Runs -/

section Runs
variable {s s' : PolicyHistory R} {e : Server.Event}

open PolicyHistory

/-- A request gives nothing to a tenant that it is not for. -/
theorem givenBy_of_ne {s : Server R} {r : Request} {clock : Clock} {io : Inputs} {before : String → Option TenantPolicy}
    {t : String} (ht : t ≠ r.tenantId) : s.givenBy (.request r clock io) before t = before t := by
  have hid : ∀ p, s.gives (.request r clock io) = some p → p.tenantId = r.tenantId := by
    intro p hp
    cases r with
    | provisionTenant tenant tier =>
      simp only [Server.gives] at hp
      split at hp
      · cases hp
        rfl
      · cases hp
    | updatePolicy tenant policy =>
      cases policy <;> cases hp
      rfl
    | _ => cases hp
  unfold Server.givenBy
  split
  · rename_i p hp
    rw [hid p hp, if_neg (Ne.symm ht)]
  · rfl

theorem givenBy_provisionTenant {s : Server R} {tenant tier : String} {clock : Clock} {io : Inputs}
    {before : String → Option TenantPolicy} : s.givenBy (.request (.provisionTenant tenant tier) clock io) before tenant =
      if (s.provisionTenant tenant tier clock).2 then some ((tierPolicy tier tenant).toTenantPolicy tenant)
      else before tenant := by
  have hgives : s.gives (.request (.provisionTenant tenant tier) clock io) =
      if (s.provisionTenant tenant tier clock).2 then some ((tierPolicy tier tenant).toTenantPolicy tenant) else none := rfl
  rw [Server.givenBy, hgives]
  by_cases hok : (s.provisionTenant tenant tier clock).2 = true
  · rw [if_pos hok, if_pos hok]
    exact if_pos rfl
  · rw [if_neg hok, if_neg hok]

theorem PolicyHistory.Held.next (h : s.Held) (he : e.SetsPolicy) (hkeeps : s.KeepsPolicy e) (hn : s.next e = some s') : s'.Held := by
  obtain ⟨server, hserver, rfl⟩ := Option.map_eq_some_iff.mp hn
  refine ⟨h.intact.next hserver, fun t => ?_⟩
  cases e with
  | request r clock io =>
    have htouches : s.server.Touches (· = r.tenantId) server := touches_handle hserver
    by_cases ht : t = r.tenantId
    · subst ht
      cases r with
      | provisionTenant tenant tier =>
        cases hserver
        simp only [Request.tenantId, givenBy_provisionTenant]
        exact (h.holds tenant).provisionTenant
      | updatePolicy tenant policy =>
        cases hserver
        cases policy with
        | none => exact h.holds tenant
        | some p =>
          have hgiven : s.server.givenBy (.request (.updatePolicy tenant (some p)) clock io) s.given tenant =
              some (p.toTenantPolicy tenant) := if_pos rfl
          simp only [Request.tenantId, hgiven]
          exact (h.holds tenant).updatePolicy hkeeps
      | setNamespacePolicy r =>
        cases hserver
        exact (h.holds r.tenantId).setNamespacePolicy hkeeps
      | _ => cases he
    · simp only [givenBy_of_ne ht]
      exact (h.holds t).of_touches htouches ht
  | restart clock => exact (h.holds t).restart h.intact hserver
  | _ => cases he

theorem PolicyHistory.Starts.held (h : s.Starts) : s.Held := by
  obtain ⟨⟨clock, hmain⟩, -⟩ := h
  have hi := intact_of_main intact_fresh hmain
  refine ⟨hi, fun t q hq => ?_⟩
  have hnone : s.server.registry.policies.lookup t = none := (started_of_main intact_fresh.filed hmain).policies t
  rw [TenantRegistry.getPolicy, hnone] at hq
  cases hq

omit [F64 R] in
theorem PolicyHistory.Held.onePolicy (h : s.Held) : s.OnePolicy := by
  intro t q hq _
  obtain ⟨hscheduler, hgiven, hlt⟩ := h.holds t q hq
  refine ⟨hscheduler, hgiven, ?_⟩
  simp only [Server.enforcedMaxInflight, Server.reportedMaxInflight, hq, hscheduler, Option.map_some]
  exact congrArg some (Nat.mod_eq_of_lt hlt).symm

/-- There is one policy for each tenant as long as the values of provisioned tenants are not changed. -/
theorem onePolicy_of_keepsPolicy {s₀ : PolicyHistory R} (hstart : s₀.Starts)
    (hrun : Runs.Run PolicyHistory.next (fun s e => e.SetsPolicy ∧ s.KeepsPolicy e) s₀ s) : s.OnePolicy :=
  (hrun.invariant (fun h ⟨he, hkeeps⟩ hn => PolicyHistory.Held.next h he hkeeps hn) hstart.held).onePolicy

theorem starts_empty : PolicyHistory.Starts (⟨.empty, fun _ => none⟩ : PolicyHistory Rat) := ⟨⟨⟨0, 0⟩, rfl⟩, fun _ => rfl⟩

/-- A request at the moment of the first start. -/
def atOnce (r : Request) : Server.Event := .request r ⟨0, 0⟩ { now := 0 }

def standardValues : Policy := ⟨10, 500, 100, 100⟩

/-- After this request the scheduler has the lower limit, and `DequeueTasks` enforces the old one. -/
theorem not_onePolicy : ¬∀ s₀ s : PolicyHistory Rat, s₀.Starts → Runs.Run PolicyHistory.next (fun _ e => e.SetsPolicy) s₀ s →
    s.OnePolicy := by
  intro h
  obtain ⟨s, hs⟩ : ∃ s, Runs.exec PolicyHistory.next (⟨.empty, fun _ => none⟩ : PolicyHistory Rat)
      [atOnce (.provisionTenant "t" "standard"), atOnce (.updatePolicy "t" (some { standardValues with maxInflight := 50 }))] =
        some s := ⟨_, rfl⟩
  have hrun : Runs.Run PolicyHistory.next (fun _ e => e.SetsPolicy) ⟨.empty, fun _ => none⟩ s :=
    Runs.run_of_exec_forall hs fun e he => by
      rcases List.mem_cons.mp he with rfl | he
      · trivial
      · obtain rfl := List.mem_singleton.mp he
        trivial
  have hfacts : s.server.registry.getPolicy "t" = some (.standard "t") ∧ s.server.isThrottled "t" = false ∧
      s.server.enforcedMaxInflight "t" = some 500 ∧ s.server.reportedMaxInflight "t" = some 50 := by
    obtain rfl := Option.some.inj hs
    exact ⟨rfl, rfl, rfl, rfl⟩
  obtain ⟨hpolicy, hthrottled, henforced, hreported⟩ := hfacts
  have hlimits := (h _ s starts_empty hrun "t" _ hpolicy hthrottled).2.2
  rw [henforced, hreported] at hlimits
  exact absurd hlimits (by decide)

/-- The same values again, a new quota, and a restart. -/
theorem onePolicy_sameValues : ∃ s : PolicyHistory Rat, Runs.exec PolicyHistory.next ⟨.empty, fun _ => none⟩
    [atOnce (.provisionTenant "t" "standard"), atOnce (.updatePolicy "t" (some standardValues)),
      atOnce (.setNamespacePolicy ⟨"t", 5, "reject", 0, 0, 0, 0⟩), .restart ⟨0, 0⟩] = some s ∧ s.OnePolicy := by
  obtain ⟨s₁, hs₁⟩ : ∃ s₁, PolicyHistory.next (⟨.empty, fun _ => none⟩ : PolicyHistory Rat)
      (atOnce (.provisionTenant "t" "standard")) = some s₁ := ⟨_, rfl⟩
  obtain ⟨s₂, hs₂⟩ : ∃ s₂, s₁.next (atOnce (.updatePolicy "t" (some standardValues))) = some s₂ := ⟨_, rfl⟩
  obtain ⟨s₃, hs₃⟩ : ∃ s₃, s₂.next (atOnce (.setNamespacePolicy ⟨"t", 5, "reject", 0, 0, 0, 0⟩)) = some s₃ := ⟨_, rfl⟩
  have hpolicy₁ : s₁.server.registry.getPolicy "t" = some (.standard "t") := by
    obtain rfl := Option.some.inj hs₁
    rfl
  have hpolicy₂ : s₂.server.registry.getPolicy "t" = some (.standard "t") := by
    obtain rfl := Option.some.inj hs₂
    exact hpolicy₁
  have hkeeps₂ : s₁.KeepsPolicy (atOnce (.updatePolicy "t" (some standardValues))) := fun q hq => by
    obtain rfl := Option.some.inj (hpolicy₁.symm.trans hq)
    rfl
  have hkeeps₃ : s₂.KeepsPolicy (atOnce (.setNamespacePolicy ⟨"t", 5, "reject", 0, 0, 0, 0⟩)) := fun q hq => by
    obtain rfl := Option.some.inj (hpolicy₂.symm.trans hq)
    rfl
  have hrun : Runs.Run PolicyHistory.next (fun s e => e.SetsPolicy ∧ s.KeepsPolicy e) ⟨.empty, fun _ => none⟩ s₃ :=
    .step (l := atOnce (.setNamespacePolicy _))
      (.step (l := atOnce (.updatePolicy _ _)) (.step (l := atOnce (.provisionTenant _ _)) .refl ⟨trivial, trivial⟩ hs₁)
        ⟨trivial, hkeeps₂⟩ hs₂) ⟨trivial, hkeeps₃⟩ hs₃
  have hheld : s₃.Held :=
    hrun.invariant (fun h hok hn => PolicyHistory.Held.next h hok.1 hok.2 hn) starts_empty.held
  have hintact : s₃.server.Intact := hheld.intact
  obtain ⟨server, hserver⟩ := main_of_intact hintact.database ⟨0, 0⟩
  have hs₄ : s₃.next (.restart ⟨0, 0⟩) = some ⟨server, s₃.given⟩ := by
    simp only [PolicyHistory.next, Server.next, hserver, Option.map_some]
    rfl
  refine ⟨⟨server, s₃.given⟩, ?_, onePolicy_of_keepsPolicy starts_empty (hrun.step (l := .restart ⟨0, 0⟩) ⟨trivial, trivial⟩ hs₄)⟩
  simp only [Runs.exec, hs₁, hs₂, hs₃, hs₄]

end Runs

end RocksQueue
