import RocksQueue.ControlPlane
import RocksQueue.Theorems.Intact

/-! # Answers

What a handler does to the server is what `Server.handle` does with the request that it passes on. -/

namespace RocksQueue

variable {R : Type} [F64 R]

/-- Keys that decode are as many as were sent. -/
theorem decodeAckKeys_length {x : Externals} {ackKeys : List String} {keys : List Key}
    (h : decodeAckKeys x ackKeys = .ok keys) : keys.length = ackKeys.length := by
  induction ackKeys generalizing keys with
  | nil =>
    cases h
    rfl
  | cons ackKey rest ih =>
    rw [decodeAckKeys] at h
    split at h
    · cases h
    · split at h
      · cases h
      · rename_i keys' hkeys
        cases h
        rw [List.length_cons, List.length_cons, ih hkeys]

theorem decodeAckKeys_ne_nil {x : Externals} {ackKeys : List String} {keys : List Key}
    (h : decodeAckKeys x ackKeys = .ok keys) (hne : ackKeys ≠ []) : keys ≠ [] := by
  intro hnil
  have hlength := decodeAckKeys_length h
  rw [hnil, List.length_nil] at hlength
  exact hne (List.eq_nil_of_length_eq_zero hlength.symm)

section Serve
variable {x : Externals} {s s' : Server R} {clock : Clock} {io : Inputs} {rpc : Rpc} {answer : Answer R}

omit [F64 R] in
theorem conclude_state (missing : String) (record : Reply → StatsCollector R → StatsCollector R)
    (respond : Reply → Response R) (r : Server R × Option Reply) : (Server.conclude x missing record respond r).1 =
      match r with
      | (s', some reply) => { s' with collector := record reply s'.collector }
      | (s', none) => s' := by
  obtain ⟨s', reply⟩ := r
  cases reply with
  | none => rfl
  | some reply => cases reply <;> rfl

omit [F64 R] in
theorem map_conclude {call : Call} {missing tenantId : String} {record : Reply → StatsCollector R → StatsCollector R}
    {respond : Reply → Response R}
    (h : (s.callTenant tenantId io call).map (Server.conclude x missing record respond) = some (s', answer)) :
    s.withoutPolicy tenantId io call record = some s' := by
  obtain ⟨r, hcall, hr⟩ := Option.map_eq_some_iff.mp h
  have hstate := conclude_state (x := x) missing record respond r
  rw [hr] at hstate
  rw [Server.withoutPolicy, hcall, Option.map_some]
  exact congrArg some hstate.symm

omit [F64 R] in
theorem serveEnqueue_handle {tenantId queue : String} {payloads : List Bytes}
    (h : s.serveEnqueue x tenantId queue payloads io = some (s', answer)) :
    s.withPolicy tenantId io (.enqueueBatch (queueOrDefault queue) payloads)
      (Server.recordEnqueued tenantId payloads.length) = some s' := by
  unfold Server.serveEnqueue at h
  unfold Server.withPolicy
  cases hpolicy : s.registry.getPolicy tenantId with
  | none =>
    rw [hpolicy] at h
    cases h
    rfl
  | some policy =>
    rw [hpolicy] at h
    exact map_conclude h

omit [F64 R] in
theorem serveDequeue_handle {tenantId queue : String} {limit : Nat}
    (h : s.serveDequeue x tenantId queue limit io = some (s', answer)) : s.dequeueTasks tenantId queue limit io = some s' := by
  unfold Server.serveDequeue at h
  unfold Server.dequeueTasks Server.withPolicy
  dsimp only at h ⊢
  cases hpolicy : s.registry.getPolicy tenantId with
  | none =>
    rw [hpolicy] at h
    cases h
    rfl
  | some policy =>
    rw [hpolicy] at h
    dsimp only at h ⊢
    split at h
    · cases h
    · rename_i hcall
      rw [hcall, Option.map_some]
      split at h <;> cases h <;> rfl
    · rename_i hcall
      rw [hcall, Option.map_some]
      cases h
      rfl

/-- A handler changes the server as the request does that it passes on. -/
theorem serve_handle (h : s.serve x clock io rpc = some (s', answer)) :
    match rpc.request x with
    | some r => s.handle clock io r = some s'
    | none => s' = s := by
  cases rpc with
  | provisionTenant t tier =>
    cases h
    rfl
  | dropTenant t =>
    cases h
    rfl
  | updatePolicy t policy =>
    cases h
    rfl
  | setNamespacePolicy r =>
    cases h
    rfl
  | enqueueTask t queue payload => exact serveEnqueue_handle h
  -- An empty batch is refused by both.
  | enqueueBatch t queue payloads =>
    simp only [Server.serve] at h
    simp only [Rpc.request, Server.handle, Server.enqueueBatch, List.map_eq_nil_iff]
    split at h
    · rename_i hnil
      cases h
      rw [if_pos hnil]
    · rename_i hne
      rw [if_neg hne]
      exact serveEnqueue_handle h
  | dequeueTasks t queue limit => exact serveDequeue_handle h
  -- With a key that does not decode there is no request.
  | ackTask t ackKey =>
    simp only [Server.serve, Server.serveAck] at h
    simp only [Rpc.request]
    split at h
    · rename_i status hstatus
      cases h
      rw [hstatus]
      rfl
    · rename_i key hkey
      rw [hkey]
      exact map_conclude h
  | ackBatch t ackKeys =>
    simp only [Server.serve, Server.serveAckBatch] at h
    simp only [Rpc.request]
    split at h
    · rename_i hnil
      cases h
      subst hnil
      rfl
    · rename_i hne
      split at h
      · rename_i status hstatus
        cases h
        rw [hstatus]
        rfl
      · rename_i keys hkeys
        rw [hkeys]
        -- Of some keys there is at least one decoded.
        have hsome : keys ≠ [] := decodeAckKeys_ne_nil hkeys hne
        rw [Except.toOption, Option.map_some]
        change s.ackBatch t keys io = some s'
        rw [Server.ackBatch, if_neg hsome]
        exact map_conclude h
  | nackTask t ackKey =>
    simp only [Server.serve, Server.serveNack] at h
    simp only [Rpc.request]
    split at h
    · rename_i status hstatus
      cases h
      rw [hstatus]
      rfl
    · rename_i key hkey
      rw [hkey]
      exact map_conclude h
  | forceReleaseThrottle t =>
    cases h
    rfl
  | pauseTenant t =>
    cases h
    rfl
  | resumeTenant t =>
    cases h
    rfl
  | drainTenant t timeoutSecs =>
    simp only [Server.serve, Server.serveDrain] at h
    split at h
    · cases h
      rfl
    · obtain ⟨r, -, hr⟩ := Option.map_eq_some_iff.mp h
      cases hr
      rfl
  | purgeDlq t => exact map_conclude h
  | replayDlq t => exact map_conclude h
  | _ =>
    cases h
    rfl

end Serve

/-- The server of a session is in a state that it reaches. -/
theorem Session.Reached.server {x : Externals} {c : Session R} (h : c.Reached x) : c.server.Reached := by
  obtain ⟨s, clock, hmain, hrun⟩ := h
  refine ⟨s, clock, hmain, ?_⟩
  induction hrun with
  | refl => exact .refl
  | @step c c' e _ _ hn ih =>
    cases e with
    | rpc rpc clock io =>
      obtain ⟨⟨s', answer⟩, hserve, rfl⟩ := Option.map_eq_some_iff.mp hn
      have hhandle := serve_handle hserve
      split at hhandle
      · exact ih.step (l := .request _ clock io) trivial hhandle
      · rw [hhandle]
        exact ih
    | compaction t compaction =>
      cases hn
      exact ih.step (l := .compaction t compaction) trivial rfl
    | daemonCycle clock =>
      cases hn
      exact ih.step (l := .daemonCycle clock) trivial rfl
    | reaperTick now =>
      cases hn
      exact ih.step (l := .reaperTick now) trivial rfl
    | restart clock =>
      obtain ⟨s', hmain', rfl⟩ := Option.map_eq_some_iff.mp hn
      exact ih.step (l := .restart clock) trivial hmain'

end RocksQueue
