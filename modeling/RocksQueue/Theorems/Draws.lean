import RocksQueue.Theorems.Restart
import RocksQueue.Theorems.Separation

/-! # Requests and the counter

A request is a call on the records of its tenant, which may draw numbers from the registry's counter, or it draws none
and writes no record (`served_cases`). -/

namespace RocksQueue

/-- The most numbers that the call draws. -/
def Call.mayDraw (db : TenantDb) : Call → Nat
  | .enqueueBatch _ payloads _ => payloads.length
  | .nack _ => 1
  | .replayDlq => db.dlq.entries.length
  | _ => 0

/-- The most numbers that the request draws. -/
def Request.mayDraw (db : Option TenantDb) : Request → Nat
  | .enqueueTask _ _ _ => 1
  | .enqueueBatch _ _ payloads => payloads.length
  | .nackTask _ _ => 1
  | .replayDlq _ => (db.map fun db => db.dlq.entries.length).getD 0
  | _ => 0

theorem replayDraws_le {items : List (Key × Value)} : replayDraws items ≤ items.length := by
  induction items with
  | nil => exact Nat.le_refl 0
  | cons item items ih =>
    obtain ⟨k, v⟩ := item
    cases v with
    | task t => exact Nat.succ_le_succ ih
    | corrupt raw => exact Nat.zero_le _

theorem draws_le {tenant : String} {t : Tenant} {io : Inputs} {call : Call} :
    t.draws tenant io call ≤ call.mayDraw t.db := by
  cases call <;> simp only [Tenant.draws, Call.mayDraw] <;> try exact Nat.zero_le _
  case enqueueBatch queue payloads policy =>
    split
    · exact Nat.le_refl _
    · exact Nat.zero_le _
  case nack key =>
    split
    · split
      · exact Nat.zero_le _
      · exact Nat.le_refl _
    · exact Nat.zero_le _
  case replayDlq => exact replayDraws_le

section Requests
variable {R : Type} [F64 R] {x : Externals} {s s' : Server R} {clock : Clock} {io : Inputs} {rpc : Rpc} {answer : Answer R}

/-- The request made the call, under its tenant's name. -/
def Server.Called (x : Externals) (s s' : Server R) (io : Inputs) (rpc : Rpc) : Prop :=
  ∃ r call reply s₁, rpc.request x = some r ∧ (∀ db, call.mayDraw db ≤ r.mayDraw (some db)) ∧
    s.callTenant r.tenantId io call = some (s₁, reply) ∧ s'.registry = s₁.registry

/-- No number was drawn, and no record is there that was not there before. -/
def Server.Undrawn (s s' : Server R) : Prop :=
  s'.registry.seq = s.registry.seq ∧ ∀ tenant a', s'.account tenant = some a' →
    a'.db = .empty ∨ ∃ a c, s.account tenant = some a ∧ a'.db = a.db.compact c

omit [F64 R] in
theorem Server.SameAccounts.undrawn (h : s.SameAccounts s') : s.Undrawn s' :=
  ⟨h.seq, fun tenant a' ha' => Or.inr ⟨a', .none, (h.account tenant).symm.trans ha', rfl⟩⟩

omit [F64 R] in
theorem called_of_withoutPolicy {r : Request} {call : Call} {record : Reply → StatsCollector R → StatsCollector R}
    (hr : rpc.request x = some r) (hdraw : ∀ db, call.mayDraw db ≤ r.mayDraw (some db))
    (h : s.withoutPolicy r.tenantId io call record = some s') : s.Called x s' io rpc := by
  obtain ⟨⟨s₁, reply⟩, hcall, heq⟩ := Option.map_eq_some_iff.mp h
  refine ⟨r, call, reply, s₁, hr, hdraw, hcall, ?_⟩
  cases reply <;> cases heq <;> rfl

omit [F64 R] in
theorem called_of_withPolicy {r : Request} {call : NamespacePolicy → Call}
    {record : Reply → StatsCollector R → StatsCollector R} (hr : rpc.request x = some r)
    (hdraw : ∀ policy db, (call policy).mayDraw db ≤ r.mayDraw (some db))
    (h : s.withPolicy r.tenantId io call record = some s') : s.Called x s' io rpc ∨ s.Undrawn s' := by
  unfold Server.withPolicy at h
  split at h
  · cases h
    exact Or.inr Server.SameAccounts.refl.undrawn
  · exact Or.inl (called_of_withoutPolicy hr (hdraw _) h)

/-- A request of the tenant's that leaves its records, or some of them, or has just got it an account. -/
theorem undrawn_of_served {tenant : String} (hi : s.Intact) (hrpc : rpc.account? = some tenant)
    (hserve : s.serve x clock io rpc = some (s', answer)) (hseq : s'.registry.seq = s.registry.seq)
    (hown : ∀ a' (answer' : Answer R), Account.serve x s.registry.seq io (s.account tenant) rpc = some (some a', answer') →
      a'.db = .empty ∨ ∃ a c, s.account tenant = some a ∧ a'.db = a.db.compact c) : s.Undrawn s' := by
  refine ⟨hseq, fun t a' ha' => ?_⟩
  by_cases heq : t = tenant
  · subst heq
    exact hown a' answer (ha' ▸ rpc_served (hi.tenants t) hrpc hserve)
  · have hsame := account_served_of_ne hrpc heq hserve
    exact Or.inr ⟨a', .none, hsame.symm.trans ha', rfl⟩

/-- What a request that is about the tenant's account comes to. -/
theorem served_own {tenant : String} (hi : s.Intact) (hrpc : rpc.account? = some tenant)
    (h : s.serve x clock io rpc = some (s', answer)) : s.Called x s' io rpc ∨ s.Undrawn s' := by
  have hhandle := serve_handle h
  cases rpc <;> cases hrpc
  -- The requests that administer the tenant draw no number, whatever becomes of them.
  case provisionTenant tier =>
    refine Or.inr (undrawn_of_served hi rfl h ?_ fun a' answer' ha' => ?_)
    · cases hhandle
      obtain ⟨db', ok, -, hcall⟩ := provisionTenant_cases s.registry tenant (tierPolicy tier tenant)
      simp only [Server.provisionTenant, hcall]
      cases ok <;> rfl
    · cases ha : s.account tenant with
      | none =>
        rw [ha] at ha'
        cases ha'
        exact Or.inl rfl
      | some a =>
        rw [ha] at ha'
        cases ha'
        exact Or.inr ⟨_, .none, rfl, rfl⟩
  case dropTenant =>
    refine Or.inr (undrawn_of_served hi rfl h ?_ fun a' answer' ha' => ?_)
    · cases hhandle
      obtain ⟨db', ok, -, hcall⟩ := dropTenant_cases s.registry tenant
      simp only [Server.dropTenant, hcall]
      cases ok <;> rfl
    · cases ha : s.account tenant <;> rw [ha] at ha' <;> cases ha'
  case setNamespacePolicy r =>
    refine Or.inr (undrawn_of_served hi rfl h ?_ fun a' answer' ha' => ?_)
    · cases hhandle
      unfold Server.setNamespacePolicy TenantRegistry.updateNamespacePolicy
      split
      · split <;> rfl
      · rfl
    · cases ha : s.account r.tenantId with
      | none =>
        rw [ha] at ha'
        cases ha'
      | some a =>
        rw [ha] at ha'
        cases ha'
        exact Or.inr ⟨a, .none, rfl, rfl⟩
  case getNamespacePolicy =>
    cases hhandle
    exact Or.inr Server.SameAccounts.refl.undrawn
  case compactTenant =>
    refine Or.inr (undrawn_of_served hi rfl h ?_ fun a' answer' ha' => ?_)
    · cases hhandle
      exact Server.compactTenant_keeps (P := fun s₁ => s₁.registry.seq = s.registry.seq) rfl rfl
    · cases ha : s.account tenant with
      | none =>
        rw [ha] at ha'
        cases ha'
      | some a =>
        rw [ha] at ha'
        cases ha'
        exact Or.inr ⟨a, io.compaction, rfl, rfl⟩
  -- The others come down to one call, unless they are refused before it.
  case enqueueTask queue payload => exact called_of_withPolicy rfl (fun _ _ => Nat.le_refl _) hhandle
  case enqueueBatch queue payloads =>
    have hhandle : s.enqueueBatch tenant queue (payloads.map Bytes.utf8) io = some s' := hhandle
    unfold Server.enqueueBatch at hhandle
    split at hhandle
    · cases hhandle
      exact Or.inr Server.SameAccounts.refl.undrawn
    · exact called_of_withPolicy rfl (fun _ _ => Nat.le_refl _) hhandle
  case dequeueTasks queue limit =>
    have hhandle : s.dequeueTasks tenant queue limit io = some s' := hhandle
    unfold Server.dequeueTasks at hhandle
    exact called_of_withPolicy (r := .dequeueTasks tenant queue limit) rfl (fun _ _ => Nat.le_refl _) hhandle
  -- A key that does not decode is refused before the registry is asked.
  case ackTask ackKey =>
    cases hdecode : (decodeAckKey x ackKey).toOption with
    | none =>
      simp only [Rpc.request, hdecode, Option.map_none] at hhandle
      subst hhandle
      exact Or.inr Server.SameAccounts.refl.undrawn
    | some key =>
      have hr : (Rpc.ackTask tenant ackKey).request x = some (.ackTask tenant key) := by
        simp only [Rpc.request, hdecode, Option.map_some]
      rw [hr] at hhandle
      exact Or.inl (called_of_withoutPolicy hr (fun _ => Nat.le_refl _) hhandle)
  case ackBatch ackKeys =>
    cases hdecode : (decodeAckKeys x ackKeys).toOption with
    | none =>
      simp only [Rpc.request, hdecode, Option.map_none] at hhandle
      subst hhandle
      exact Or.inr Server.SameAccounts.refl.undrawn
    | some keys =>
      have hr : (Rpc.ackBatch tenant ackKeys).request x = some (.ackBatch tenant keys) := by
        simp only [Rpc.request, hdecode, Option.map_some]
      rw [hr] at hhandle
      have hhandle : s.ackBatch tenant keys io = some s' := hhandle
      unfold Server.ackBatch at hhandle
      split at hhandle
      · cases hhandle
        exact Or.inr Server.SameAccounts.refl.undrawn
      · exact Or.inl (called_of_withoutPolicy hr (fun _ => Nat.le_refl _) hhandle)
  case nackTask ackKey =>
    cases hdecode : (decodeAckKey x ackKey).toOption with
    | none =>
      simp only [Rpc.request, hdecode, Option.map_none] at hhandle
      subst hhandle
      exact Or.inr Server.SameAccounts.refl.undrawn
    | some key =>
      have hr : (Rpc.nackTask tenant ackKey).request x = some (.nackTask tenant key) := by
        simp only [Rpc.request, hdecode, Option.map_some]
      rw [hr] at hhandle
      exact Or.inl (called_of_withoutPolicy hr (fun _ => Nat.le_refl _) hhandle)
  case purgeDlq =>
    have hhandle : s.withoutPolicy tenant io .purgeDlq (fun _ c => c) = some s' := hhandle
    exact Or.inl (called_of_withoutPolicy (r := .purgeDlq tenant) rfl (fun _ => Nat.le_refl _) hhandle)
  case replayDlq =>
    have hhandle : s.withoutPolicy tenant io .replayDlq (fun _ c => c) = some s' := hhandle
    exact Or.inl (called_of_withoutPolicy (r := .replayDlq tenant) rfl (fun _ => Nat.le_refl _) hhandle)

/-- What a request comes to. -/
theorem served_cases (hi : s.Intact) (h : s.serve x clock io rpc = some (s', answer)) :
    s.Called x s' io rpc ∨ s.Undrawn s' := by
  cases hrpc : rpc.account? with
  | none => exact Or.inr (sameAccounts_served hrpc h).undrawn
  | some tenant => exact served_own hi hrpc h

/-- The counter stays a `u64`. -/
theorem seq_served (hi : s.Intact) (hseq : s.registry.seq < u64Size) (h : s.serve x clock io rpc = some (s', answer)) :
    s'.registry.seq < u64Size := by
  rcases served_cases hi h with ⟨r, call, reply, s₁, -, -, hcall, hregistry⟩ | ⟨hsame, -⟩
  · rw [hregistry]
    rcases Server.callTenant_cases hcall with ⟨-, rfl, -⟩ | ⟨db, t, returned, -, hexec, rfl, -⟩
    · exact hseq
    · have hadvance : t.seq = advance s.registry.seq _ := (exec_outcome (t := ⟨db, s.registry.seq⟩) hseq hexec).2
      show t.seq < u64Size
      rw [hadvance]
      exact Nat.mod_lt _ (by decide)
  · exact hsame.symm ▸ hseq

end Requests

end RocksQueue
