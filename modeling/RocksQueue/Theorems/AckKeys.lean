import RocksQueue.Theorems.ExactMoves
import RocksQueue.Theorems.Provenance

/-! # Ack keys are good until the deadline

A delivery is the client's to acknowledge until it runs out: whatever is done in between, for the tenant too, an AckBatch
with the keys of a delivery counts all of its tasks, and takes their records and no other (`delivered_acked`). Excepted
are requests that name one of the keys, the drop of the tenant, and ticks of the reaper after the deadline. The counter
must not wrap, and a restart must find the clock above the tenant's stored numbers: else a new task may get a key that
is out. -/

namespace RocksQueue
open TenantDb

/-- The keys that a request sends back. -/
def Rpc.ackKeys : Rpc → List String
  | ackTask _ ackKey => [ackKey]
  | ackBatch _ ackKeys => ackKeys
  | nackTask _ ackKey => [ackKey]
  | _ => []

/-- What may happen while the tasks are out: no request that names one of their keys, in whatever spelling, no drop of
    the tenant, and no tick of the reaper after one of their deadlines. -/
def Spares (x : Externals) (tenant : String) (tasks : List DequeuedTask) : Traffic → Prop
  | .rpc rpc _ _ => rpc.account? = some tenant → rpc ≠ .dropTenant tenant ∧
      ∀ ackKey ∈ rpc.ackKeys, ∀ key, x.hex.decode ackKey = .ok key → x.hex.encode key ∉ tasks.map DequeuedTask.ackKey
  | .reaperTick now => ∀ task ∈ tasks, now ≤ task.deadline
  | _ => True

/-- A request does not wrap the counter, and a restart finds the clock above the numbers of the tenant's records. -/
def DrawsAnew {R : Type} (x : Externals) (tenant : String) (c : Session R) : Traffic → Bool
  | .rpc rpc _ _ => (rpc.request x).all fun r =>
      c.server.registry.seq + r.mayDraw (c.server.registry.db.tenantDb? r.tenantId) < u64Size
  | .restart clock => (c.server.account tenant).all fun a =>
      Action.reseedsAbove ⟨a.db, c.server.registry.seq⟩ (.reopen clock.millis)
  | _ => true

/-- The session is one with a server that was first started on an empty path, and has drawn anew ever since. -/
def Session.ReachedAnew {R : Type} [F64 R] (x : Externals) (tenant : String) (c : Session R) : Prop :=
  ∃ s clock, Server.main (.fresh : Database R) clock = some s ∧
    Runs.Run (next x) (fun c e => DrawsAnew x tenant c e = true) (start s) c

/-- The task is out under the key, under which nothing is pending. -/
structure TenantDb.Out (db : TenantDb) (r : Key × Task) : Prop where
  inflight : db.get .inflight r.1 = some (.task r.2)
  pending : db.get .pending r.1 = none

section Records
variable {db : TenantDb} {b : WriteBatch} {r : Key × Task}

theorem TenantDb.Out.write (h : db.Out r) (hdel : .delete .inflight r.1 ∉ b) (hinflight : ∀ v, .put .inflight r.1 v ∉ b)
    (hpending : ∀ v, .put .pending r.1 v ∉ b) : (db.write b).Out r where
  inflight := (get_write_of_untouched hinflight hdel).trans h.inflight
  pending := by
    cases hget : (db.write b).get .pending r.1 with
    | none => rfl
    | some v =>
      rcases get_write hget with hput | ⟨hold, -⟩
      · exact absurd hput (hpending v)
      · rw [h.pending] at hold
        cases hold

theorem TenantDb.Out.deletes {c : Cf} {keys : List Key} (h : db.Out r) (hnot : ¬(Cf.inflight = c ∧ r.1 ∈ keys)) :
    (db.write (deletes c keys)).Out r :=
  h.write (fun hdel => hnot (mem_deletes.mp hdel)) (fun _ => put_not_mem_deletes) fun _ => put_not_mem_deletes

/-- Moves that neither take the record of the key nor put another under it. -/
theorem TenantDb.Out.moves {ms : List Move} (h : db.Out r) (hms : IsMoves b ms)
    (hkey : ∀ m ∈ ms, m.src = .inflight → m.key ≠ r.1) (hnew : ∀ m ∈ ms, m.dst ≠ .dlq → m.newKey ≠ r.1) :
    (db.write b).Out r := by
  refine h.write (fun hdel => ?_) (fun v hput => ?_) fun v hput => ?_
  · obtain ⟨m, hm, hsrc, hat⟩ := hms.mem_delete.mp hdel
    exact hkey m hm hsrc hat
  · obtain ⟨m, hm, hdst, hat, -⟩ := hms.mem_put.mp hput
    exact hnew m hm (by simp [hdst]) hat
  · obtain ⟨m, hm, hdst, hat, -⟩ := hms.mem_put.mp hput
    exact hnew m hm (by simp [hdst]) hat

theorem TenantDb.Out.compact (h : db.Out r) (c : Compaction) : (db.compact c).Out r where
  inflight := get_compact_inflight h.inflight
  pending := by
    cases hget : (db.compact c).get .pending r.1 with
    | none => rfl
    | some v =>
      have hold := get_of_get_compact hget
      rw [h.pending] at hold
      cases hold

/-- Keys that are all inflight are all counted. -/
theorem ackLoop_self {seen keys : List Key} (hnodup : keys.Nodup) (hseen : ∀ k ∈ keys, k ∉ seen)
    (h : ∀ k ∈ keys, (db.get .inflight k).isSome) : db.ackLoop seen keys = keys := by
  induction keys generalizing seen with
  | nil => rfl
  | cons k keys ih =>
    obtain ⟨hk, hkeys⟩ := List.nodup_cons.mp hnodup
    have hrest : ∀ k' ∈ keys, k' ∉ k :: seen := fun k' hk' hmem => by
      rcases List.mem_cons.mp hmem with rfl | hmem
      · exact hk hk'
      · exact hseen k' (List.mem_cons_of_mem _ hk') hmem
    simp only [TenantDb.ackLoop, if_neg (hseen k List.mem_cons_self), if_pos (h k List.mem_cons_self)]
    rw [ih hkeys hrest fun k' hk' => h k' (List.mem_cons_of_mem _ hk')]

/-- What was encoded is decoded. -/
theorem decodeAckKeys_encode (x : Externals) (keys : List Key) : decodeAckKeys x (keys.map x.hex.encode) = .ok keys := by
  induction keys with
  | nil => rfl
  | cons k keys ih => simp only [List.map_cons, decodeAckKeys, decodeAckKey, x.hex.decode_encode, ih]

theorem decodeAckKeys_mem {x : Externals} {ackKeys : List String} {keys : List Key} {key : Key}
    (h : decodeAckKeys x ackKeys = .ok keys) (hkey : key ∈ keys) : ∃ ackKey ∈ ackKeys, x.hex.decode ackKey = .ok key := by
  induction ackKeys generalizing keys with
  | nil =>
    cases h
    cases hkey
  | cons ackKey ackKeys ih =>
    simp only [decodeAckKeys, decodeAckKey] at h
    cases hdecode : x.hex.decode ackKey with
    | error e =>
      rw [hdecode] at h
      cases h
    | ok key' =>
      rw [hdecode] at h
      cases hrest : decodeAckKeys x ackKeys with
      | error status =>
        rw [hrest] at h
        cases h
      | ok keys' =>
        rw [hrest] at h
        cases h
        rcases List.mem_cons.mp hkey with rfl | hkey
        · exact ⟨ackKey, List.mem_cons_self, hdecode⟩
        · obtain ⟨other, hmem, hother⟩ := ih hrest hkey
          exact ⟨other, List.mem_cons_of_mem _ hmem, hother⟩

end Records

/-! ## Calls -/

section Calls
variable {tenant : String} {t : Tenant} {io : Inputs} {call : Call} {reply : Reply} {db' : TenantDb} {r : Key × Task}

/-- The call may take the delivery. -/
def Call.takes (now : Nat) (r : Key × Task) : Call → Prop
  | .ackBatch keys => r.1 ∈ keys
  | .nack key => r.1 = key
  | .cumulativeAck _ _ => True
  | .reapInflight _ => r.2.expired now = true
  | _ => False

/-- The other calls leave a delivery out: what they put under new keys is put under keys that no record has. -/
theorem Outcome.keeps_out (h : Outcome tenant t io call db' reply) (hwrap : t.seq + t.draws tenant io call < u64Size)
    (hbelow : Below t.db t.seq) (hout : t.db.Out r) (hnot : ¬call.takes io.now r) : db'.Out r := by
  -- The keys of new pending records are new in every family, so none is the key of the delivery.
  have hnew : ∀ v, .put .pending r.1 v ∉ t.minted tenant io call := by
    intro v hput
    obtain ⟨-, -, -, -, -, hnone, -⟩ := h.fresh hwrap hbelow r.1 v hput
    have habsent : t.db.get .inflight r.1 = none := hnone .inflight
    rw [hout.inflight] at habsent
    cases habsent
  have hall : AllTasks t.db := hbelow.allTasks
  cases h with
  | refused => exact hout
  | enqueue henforce =>
    simp only [Tenant.minted, henforce] at hnew
    refine (hout.deletes fun hat => by cases hat.1).write (fun hdel => ?_) (fun v hput => ?_) hnew
    · obtain ⟨k, v, heq⟩ := mem_enqueueLoop_pending hdel
      cases heq
    · obtain ⟨k, v', heq⟩ := mem_enqueueLoop_pending hput
      cases heq
  | @deliver _ b ms hcall hms hnodup hmoved =>
    -- A dequeue moves pending records, and none is pending under this key.
    have haway : ∀ m ∈ ms, m.key ≠ r.1 := fun m hm hat => by
      obtain ⟨task, hget, -⟩ := (hmoved m hm).stored hall
      have hpending : t.db.get .pending r.1 = some (.task task) := by
        rwa [(hmoved m hm).src_eq, hat] at hget
      rw [hout.pending] at hpending
      cases hpending
    exact hout.moves hms (fun m hm _ => haway m hm) fun m hm _ => by
      rw [(hmoved m hm).newKey_eq (Or.inl rfl)]
      exact haway m hm
  | ack hnodup hcounted => exact hout.deletes fun hat => hnot ((hcounted r.1).mp hat.2).1
  | cumulativeAck => exact absurd trivial hnot
  | nackNone => exact hout
  -- A nack moves the record under its own key only.
  | nackDead hms hkey hnewKey hdst hmoved =>
    refine hout.moves hms (List.forall_mem_singleton.mpr fun _ hat => hnot (hat.symm.trans hkey))
      (List.forall_mem_singleton.mpr fun hne => absurd hdst hne)
  | @retry key task hget hlt =>
    have hmoves := retryBatch_moves key task t.seq
    simp only [Tenant.minted, hget, Nat.not_le_of_lt hlt, if_false] at hnew
    refine hout.moves hmoves (List.forall_mem_singleton.mpr fun _ hat => hnot hat.symm)
      (List.forall_mem_singleton.mpr fun _ hat => ?_)
    exact hnew _ (hmoves.mem_put.mpr ⟨_, List.mem_singleton_self _, rfl, hat, rfl⟩)
  -- A sweep takes what has expired, and this delivery has not.
  | @reap queue b ms hms hnodup hmoved =>
    have haway : ∀ m ∈ ms, m.key ≠ r.1 := fun m hm hat => by
      obtain ⟨hmove, -⟩ := hmoved m hm
      cases hmove with
      | reclaim hget hexpired =>
        obtain rfl : _ = r.1 := hat
        rw [hout.inflight] at hget
        cases hget
        exact hnot hexpired
      | poisonInflight _ hget =>
        obtain ⟨task, heq⟩ := hall hget
        cases heq
    exact hout.moves hms (fun m hm _ => haway m hm) fun m hm _ => by
      rw [(hmoved m hm).1.newKey_eq (Or.inr rfl)]
      exact haway m hm
  | purge => exact hout.deletes fun hat => by cases hat.1
  | replay hloop =>
    obtain ⟨hmoves, -, -⟩ := replayLoop_moves hloop
    simp only [Tenant.minted, hloop, Option.getD_some] at hnew
    have hmoved : ∀ m ∈ replayMoves t.seq t.db.dlq.entries, Moved t.db io.now .replay m := fun m hm =>
      replayMoves_moved (fun k v => OrderedMap.mem_entries.mp) hm
    refine hout.moves hmoves (fun m hm hsrc => ?_) fun m hm hdst hat => ?_
    · rw [(hmoved m hm).src_eq] at hsrc
      cases hsrc
    · have hpending : m.dst = .pending := by
        cases hmoved m hm with
        | replay => rfl
        | poisonInflight => exact absurd rfl hdst
      exact hnew _ (hmoves.mem_put.mpr ⟨m, hm, hpending, hat, rfl⟩)
  | replayFailed => exact hout

/-- What a delivery hands out is out, each task under a key of its own. -/
theorem delivered_out (h : Outcome tenant t io call db' reply) (hcall : call.isDequeue = true) :
    (reply.results.map Prod.fst).Nodup ∧ ∀ r ∈ reply.results, db'.Out r := by
  cases h with
  | @deliver _ b ms _ hms hnodup hmoved =>
    have hkeeps : KeepsKeys .pending ms :=
      { src_eq := fun m hm => (hmoved m hm).src_eq
        newKey_eq := fun m hm => (hmoved m hm).newKey_eq (Or.inl rfl)
        dst_ne := fun m hm hdst => (hmoved m hm).src_ne_dst ((hmoved m hm).src_eq.trans hdst.symm)
        nodup := hnodup }
    constructor
    · have hsame : ((ms.filter fun m => m.dst = .inflight).map fun m => (m.newKey, m.task)).map Prod.fst =
          (ms.filter fun m => m.dst = .inflight).map Move.key := by
        rw [List.map_map]
        exact List.map_congr_left fun m hm => hkeeps.newKey_eq m (List.mem_filter.mp hm).1
      rw [Reply.results, hsame]
      exact hnodup.sublist (List.filter_sublist.map Move.key)
    · intro r hr
      obtain ⟨m, hm, rfl⟩ := List.mem_map.mp hr
      obtain ⟨hmem, hdst⟩ := List.mem_filter.mp hm
      have hdst : m.dst = .inflight := of_decide_eq_true hdst
      rw [hkeeps.newKey_eq m hmem]
      exact ⟨hdst ▸ hkeeps.get_dst hms hmem, hkeeps.get_src hms hmem⟩
  | _ => cases hcall

end Calls

/-! ## Requests -/

section Requests
variable {R : Type} {x : Externals} {tenant : String} {seq : Nat} {io : Inputs} {a : Account} {a' : Option Account}
  {answer : Answer R} {call : Call} {respond : Reply → Response R} {rpc : Rpc} {r : Key × Task}
  {out : List (Key × Task)}

theorem call_keeps (hseq : seq + call.mayDraw a.db < u64Size) (hbelow : Below a.db seq) (hout : ∀ r ∈ out, a.db.Out r)
    (hcall : a.call x tenant seq io call respond = some (a', answer)) (hnot : ∀ r ∈ out, ¬call.takes io.now r) :
    ∃ b, a' = some b ∧ ∀ r ∈ out, b.db.Out r := by
  obtain ⟨⟨t, reply⟩, hexec, hr⟩ := Option.map_eq_some_iff.mp hcall
  cases hr
  have hdraws : (⟨a.db, seq⟩ : Tenant).draws tenant io call ≤ call.mayDraw a.db := draws_le
  have hwrap := Nat.lt_of_le_of_lt (Nat.add_le_add_left hdraws seq) hseq
  have hleft := (exec_outcome (t := ⟨a.db, seq⟩) (Nat.lt_of_le_of_lt (Nat.le_add_right _ _) hseq) hexec).1
  exact ⟨_, rfl, fun r hr => hleft.keeps_out hwrap hbelow (hout r hr) (hnot r hr)⟩

/-- A request that names none of the keys leaves the deliveries out. -/
theorem serve_keeps (hseq : seq < u64Size)
    (hroom : ∀ request, rpc.request x = some request → seq + request.mayDraw (some a.db) < u64Size)
    (hbelow : Below a.db seq) (hout : ∀ r ∈ out, a.db.Out r) (hrpc : rpc.account? = some tenant)
    (hdrop : rpc ≠ .dropTenant tenant) (hkeys : ∀ ackKey ∈ rpc.ackKeys, ∀ r ∈ out, x.hex.decode ackKey ≠ .ok r.1)
    (hserve : Account.serve x seq io (some a) rpc = some (a', answer)) :
    ∃ b, a' = some b ∧ ∀ r ∈ out, b.db.Out r := by
  -- Of the keys in the request none decodes to one that is out.
  have hdecode : ∀ {ackKey : String}, ackKey ∈ rpc.ackKeys → ∀ r ∈ out, decodeAckKey x ackKey ≠ .ok r.1 := by
    intro ackKey hmem r hr hkey
    refine hkeys ackKey hmem r hr ?_
    unfold decodeAckKey at hkey
    split at hkey
    · rename_i hok
      cases hkey
      exact hok
    · cases hkey
  cases rpc <;> cases hrpc <;> simp only [Account.serve] at hserve
  case provisionTenant tier =>
    cases hserve
    exact ⟨a, rfl, hout⟩
  case dropTenant => exact absurd rfl hdrop
  case setNamespacePolicy r =>
    cases hserve
    exact ⟨_, rfl, hout⟩
  case getNamespacePolicy =>
    cases hserve
    exact ⟨a, rfl, hout⟩
  -- These calls take no delivery, whatever the queue.
  case enqueueTask queue payload => exact call_keeps (hroom _ rfl) hbelow hout hserve fun _ _ => id
  case enqueueBatch queue payloads =>
    split at hserve
    · cases hserve
      exact ⟨a, rfl, hout⟩
    · exact call_keeps (hroom _ rfl) hbelow hout hserve fun _ _ => id
  case dequeueTasks queue limit => exact call_keeps (hroom _ rfl) hbelow hout hserve fun _ _ => id
  case ackTask ackKey =>
    split at hserve
    · cases hserve
      exact ⟨a, rfl, hout⟩
    · rename_i key hkey
      refine call_keeps hseq hbelow hout hserve fun r hr hmem => ?_
      obtain rfl : r.1 = key := List.mem_singleton.mp hmem
      exact hdecode (List.mem_singleton_self _) r hr hkey
  case ackBatch ackKeys =>
    split at hserve
    · cases hserve
      exact ⟨a, rfl, hout⟩
    · split at hserve
      · cases hserve
        exact ⟨a, rfl, hout⟩
      · rename_i keys hdecoded
        refine call_keeps hseq hbelow hout hserve fun r hr hmem => ?_
        obtain ⟨ackKey, hackKey, hok⟩ := decodeAckKeys_mem hdecoded hmem
        exact hkeys ackKey hackKey r hr hok
  case nackTask ackKey =>
    split at hserve
    · cases hserve
      exact ⟨a, rfl, hout⟩
    · rename_i key hkey
      refine call_keeps (hroom (.nackTask tenant key) ?_) hbelow hout hserve fun r hr heq => ?_
      · rw [Rpc.request, hkey]
        rfl
      · obtain rfl : r.1 = key := heq
        exact hdecode (List.mem_singleton_self _) r hr hkey
  case purgeDlq => exact call_keeps hseq hbelow hout hserve fun _ _ => id
  case replayDlq => exact call_keeps (hroom _ rfl) hbelow hout hserve fun _ _ => id
  case compactTenant =>
    cases hserve
    exact ⟨_, rfl, fun r hr => (hout r hr).compact io.compaction⟩

omit tenant in
/-- What one sweep of the default queue leaves. -/
theorem reap_outcome (a : Account) (now seq : Nat) (hseq : seq < u64Size) :
    Outcome "" ⟨a.db, seq⟩ { now := now } (.reapInflight "default") (a.reap now).db .done := by
  have hexec : Tenant.exec "" ⟨a.db, seq⟩ { now := now } (.reapInflight "default") =
      some (⟨a.db.reapInflight "default" now, seq⟩, .done) := rfl
  exact (exec_outcome hseq hexec).1

/-- A tick that does not find the delivery expired leaves it out. -/
theorem reap_keeps {now : Nat} (hseq : seq < u64Size) (hbelow : Below a.db seq) (hout : a.db.Out r)
    (hlive : r.2.expired now = false) : (a.reap now).db.Out r :=
  (reap_outcome a now seq hseq).keeps_out hseq hbelow hout fun htakes => by
    have hexpired : r.2.expired now = true := htakes
    rw [hlive] at hexpired
    cases hexpired

theorem Below.reap {now : Nat} (hseq : seq < u64Size) (h : Below a.db seq) : Below (a.reap now).db seq :=
  (reap_outcome a now seq hseq).below hseq h

theorem Below.compact {db : TenantDb} (h : Below db seq) (c : Compaction) : Below (db.compact c) seq :=
  fun cf k v hget => h cf k v (get_of_get_compact hget)

theorem below_empty : Below .empty seq := fun c k v hget => by
  cases c <;> cases hget

end Requests

/-! ## Numbers -/

section Numbers
variable {R : Type} [F64 R] {x : Externals} {s s' : Server R} {c c' : Session R} {e : Traffic} {tenant : String} {io : Inputs}
  {call : Call} {reply : Option Reply}

/-- The tenant's records have numbers that the counter has left behind. -/
def Server.Numbered (tenant : String) (s : Server R) : Prop :=
  ∀ a, s.account tenant = some a → Below a.db s.registry.seq

omit [F64 R] in
/-- A call numbers what it writes, of whichever tenant. -/
theorem numbered_callTenant {other : String} (h : s.Numbered tenant) (hseq : s.registry.seq < u64Size)
    (hroom : ∀ db, s.registry.db.tenantDb? other = some db → s.registry.seq + call.mayDraw db < u64Size)
    (hcall : s.callTenant other io call = some (s', reply)) : s'.Numbered tenant := by
  rcases Server.callTenant_cases hcall with ⟨-, rfl, -⟩ | ⟨db, t, returned, hdb, hexec, rfl, -⟩
  · exact h
  · intro a' ha'
    obtain ⟨hpolicy, hdb'⟩ := account_eq_some.mp ha'
    have hdraws : (⟨db, s.registry.seq⟩ : Tenant).draws other io call ≤ call.mayDraw db := draws_le
    have hwrap := Nat.lt_of_le_of_lt (Nat.add_le_add_left hdraws s.registry.seq) (hroom db hdb)
    obtain ⟨hout, hadvance⟩ := exec_outcome (t := ⟨db, s.registry.seq⟩) hseq hexec
    have hnext : t.seq = s.registry.seq + (⟨db, s.registry.seq⟩ : Tenant).draws other io call :=
      hadvance.trans (Nat.mod_eq_of_lt hwrap)
    show Below a'.db t.seq
    rw [hnext]
    rw [tenantDb?_setTenantDb] at hdb'
    split at hdb'
    · rename_i heq
      subst heq
      have hbefore : s.account tenant = some ⟨a'.policy, db⟩ := account_eq_some.mpr ⟨hpolicy, hdb⟩
      rw [← Option.some.inj hdb']
      exact hout.below hwrap (h _ hbefore)
    · exact (h a' (account_eq_some.mpr ⟨hpolicy, hdb'⟩)).mono (Nat.le_add_right _ _)

theorem numbered_next (hc : c.Sound) (h : c.server.Numbered tenant) (hanew : DrawsAnew x tenant c e = true)
    (hn : c.next x e = some c') : c'.server.Numbered tenant := by
  cases e with
  | rpc rpc clock io =>
    obtain ⟨⟨s', answer⟩, hserve, rfl⟩ := Option.map_eq_some_iff.mp hn
    -- A request draws its numbers in one call, or draws none.
    rcases served_cases hc.intact hserve with ⟨r, call, reply, s₁, hr, hdraw, hcall, hregistry⟩ | ⟨hseq, hrecords⟩
    · have hroom : c.server.registry.seq + r.mayDraw (c.server.registry.db.tenantDb? r.tenantId) < u64Size := by
        simpa [DrawsAnew, hr] using hanew
      have hnumbered : s₁.Numbered tenant := numbered_callTenant h hc.seq (fun db hdb => by
        rw [hdb] at hroom
        exact Nat.lt_of_le_of_lt (Nat.add_le_add_left (hdraw db) _) hroom) hcall
      intro a' ha'
      show Below a'.db s'.registry.seq
      rw [hregistry]
      refine hnumbered a' ?_
      rw [← ha', Server.account, Server.account, hregistry]
    · intro a' ha'
      show Below a'.db s'.registry.seq
      rw [hseq]
      rcases hrecords tenant a' ha' with hnew | ⟨a, compaction, ha, hdb⟩
      · rw [hnew]
        exact below_empty
      · rw [hdb]
        exact (h a ha).compact compaction
  | compaction t compaction =>
    cases hn
    intro a' ha'
    by_cases heq : t = tenant
    · subst heq
      rw [account_compact] at ha'
      obtain ⟨a, ha, rfl⟩ := Option.map_eq_some_iff.mp ha'
      exact (h a ha).compact compaction
    · rw [account_compact_of_ne heq] at ha'
      exact h a' ha'
  | daemonCycle clock =>
    cases hn
    have hsame : c.server.SameAccounts (c.server.daemonCycle clock) := sameAccounts_daemonCycle
    intro a' ha'
    show Below a'.db (c.server.daemonCycle clock).registry.seq
    rw [hsame.seq]
    exact h a' ((hsame.account tenant).symm.trans ha')
  | reaperTick now =>
    cases hn
    intro a' ha'
    rw [account_reaperTick (hc.intact.tenants tenant)] at ha'
    obtain ⟨a, ha, rfl⟩ := Option.map_eq_some_iff.mp ha'
    exact (h a ha).reap hc.seq
  | restart clock =>
    obtain ⟨s', hmain, rfl⟩ := Option.map_eq_some_iff.mp hn
    intro a' ha'
    show Below a'.db s'.registry.seq
    rw [seq_of_main hc.intact.filed hmain]
    have ha : c.server.account tenant = some a' := (account_restart hc.intact hmain).symm.trans ha'
    -- The counter is seeded anew, above every number in the keys that are stored.
    refine (h a' ha).reopen (Nat.le_of_lt hc.seq) ?_
    simpa [DrawsAnew, ha] using hanew

/-- What holds at the delivery. -/
theorem numbered_of_reachedAnew (h : c.ReachedAnew x tenant) : c.Sound ∧ c.server.Numbered tenant := by
  obtain ⟨s, clock, hmain, hrun⟩ := h
  have hstart : (Session.start s).server.Numbered tenant := fun a ha => by
    have haccount : (Session.start s).server.account tenant = none := congrArg View.account (view_start hmain tenant)
    rw [haccount] at ha
    cases ha
  exact hrun.invariant (I := fun c => c.Sound ∧ c.server.Numbered tenant)
    (fun ⟨hs, hnum⟩ hanew hn => ⟨hs.next hn, numbered_next hs hnum hanew hn⟩) ⟨.start hmain, hstart⟩

end Numbers

/-! ## Sessions -/

section Sessions
variable {R : Type} [F64 R] {x : Externals} {c c' : Session R} {e : Traffic} {tenant queue q : String} {limit : Nat}
  {clock : Clock} {io : Inputs} {out : List (Key × Task)} {tasks : List DequeuedTask}

/-- The deliveries are out. -/
def Session.Out (tenant : String) (out : List (Key × Task)) (c : Session R) : Prop :=
  ∃ a, c.server.account tenant = some a ∧ ∀ r ∈ out, a.db.Out r

theorem out_next (hc : c.Sound) (hnum : c.server.Numbered tenant) (h : c.Out tenant out)
    (hspares : Spares x tenant (out.map (dequeuedTask x)) e) (hanew : DrawsAnew x tenant c e = true)
    (hn : c.next x e = some c') : c'.Out tenant out := by
  obtain ⟨a, ha, hout⟩ := h
  have hbelow : Below a.db c.server.registry.seq := hnum a ha
  have hfollows := session_follows (R := R) x tenant
  cases hsee : Session.see tenant c e with
  | none =>
    -- What the tenant does not see leaves its records alone.
    have haccount : c'.server.account tenant = c.server.account tenant :=
      congrArg View.account (hfollows.unseen hc.intact hsee hn)
    exact ⟨a, haccount.trans ha, hout⟩
  | some seen =>
    have hview := hfollows.sees hc.intact hsee hn
    cases e with
    | rpc rpc clock io =>
      simp only [Session.see] at hsee
      split at hsee
      · rename_i hrpc
        cases hsee
        obtain ⟨⟨a', answer⟩, hserve, hnext⟩ := Option.map_eq_some_iff.mp hview
        have ha' : a' = c'.server.account tenant := congrArg View.account hnext
        have hserve' : Account.serve x c.server.registry.seq io (some a) rpc = some (a', answer) := ha ▸ hserve
        obtain ⟨hdrop, hnamed⟩ := hspares hrpc
        have hroom : ∀ request, rpc.request x = some request →
            c.server.registry.seq + request.mayDraw (some a.db) < u64Size := by
          intro request hrequest
          have htenant : request.tenantId = tenant := tenantId_of_request hrpc hrequest
          have hanew := hanew
          simp only [DrawsAnew, hrequest, Option.all_some, htenant, (account_eq_some.mp ha).2] at hanew
          exact of_decide_eq_true hanew
        -- The request names no ack key of the deliveries.
        have hunnamed : ∀ ackKey ∈ rpc.ackKeys, ∀ r ∈ out, x.hex.decode ackKey ≠ .ok r.1 := by
          intro ackKey hmem r hr hok
          refine hnamed ackKey hmem r.1 hok ?_
          rw [List.map_map]
          exact List.mem_map_of_mem (f := DequeuedTask.ackKey ∘ dequeuedTask x) hr
        obtain ⟨b, hb, hstay⟩ := serve_keeps hc.seq hroom hbelow hout hrpc hdrop hunnamed hserve'
        exact ⟨b, ha'.symm.trans hb, hstay⟩
      · cases hsee
    | compaction t compaction =>
      simp only [Session.see] at hsee
      split at hsee
      · cases hsee
        have haccount : c'.server.account tenant = (c.server.account tenant).map (Account.compact compaction) :=
          (congrArg View.account (Option.some.inj hview)).symm
        rw [ha] at haccount
        exact ⟨_, haccount, fun r hr => (hout r hr).compact compaction⟩
      · cases hsee
    | daemonCycle clock => cases hsee
    | reaperTick now =>
      cases hsee
      have haccount : c'.server.account tenant = (c.server.account tenant).map (Account.reap now) :=
        (congrArg View.account (Option.some.inj hview)).symm
      rw [ha] at haccount
      refine ⟨_, haccount, fun r hr => reap_keeps hc.seq hbelow (hout r hr) ?_⟩
      -- The sweep comes before the deadlines.
      have hdeadline : now ≤ r.2.deadline := hspares _ (List.mem_map_of_mem hr)
      simp only [Task.expired, Bool.and_eq_false_iff, decide_eq_false_iff_not]
      omega
    | restart clock => cases hsee

/-- What a DequeueTasks has handed out is out, as its answer says. -/
theorem out_dequeued (hc : c.Sound)
    (hn : c.next x (.rpc (.dequeueTasks tenant queue limit) clock io) = some c')
    (hanswer : c'.answers = c.answers ++ [(.dequeueTasks tenant queue limit, .ok (.dequeued tenant q tasks))]) :
    ∃ out : List (Key × Task), (out.map Prod.fst).Nodup ∧ tasks = out.map (dequeuedTask x) ∧ c'.Out tenant out := by
  obtain ⟨⟨s', answer⟩, hserve, rfl⟩ := Option.map_eq_some_iff.mp hn
  have hanswer' : answer = .ok (.dequeued tenant q tasks) := by
    have hlast := List.append_cancel_left hanswer
    cases hlast
    rfl
  subst hanswer'
  have hserved : Account.dequeue x tenant c.server.registry.seq io queue limit (c.server.account tenant) =
      some (s'.account tenant, .ok (.dequeued tenant q tasks)) := rpc_served (hc.intact.tenants tenant) rfl hserve
  cases ha : c.server.account tenant with
  | none =>
    rw [ha] at hserved
    cases (Prod.mk.inj (Option.some.inj hserved)).2
  | some a =>
    rw [ha] at hserved
    simp only [Account.dequeue, Account.call] at hserved
    obtain ⟨⟨t, reply⟩, hexec, hr⟩ := Option.map_eq_some_iff.mp hserved
    obtain ⟨haccount, hreply⟩ := Prod.mk.inj hr
    obtain ⟨hnodup, hout⟩ := delivered_out (exec_outcome hc.seq hexec).1 rfl
    refine ⟨reply.results, hnodup, ?_, _, haccount.symm, hout⟩
    cases reply <;> cases hreply <;> rfl

/-- Keys that are out are counted by one AckBatch, which takes their records. -/
theorem acked_out (hc : c.Sound) (h : c.Out tenant out) (hnodup : (out.map Prod.fst).Nodup) (hne : out ≠ [])
    (hn : c.next x (.rpc (.ackBatch tenant ((out.map (dequeuedTask x)).map DequeuedTask.ackKey)) clock io) = some c') :
    c'.answers = c.answers ++ [(.ackBatch tenant ((out.map (dequeuedTask x)).map DequeuedTask.ackKey),
      .ok (.taskOp tenant true ("acked " ++ toString out.length)))] ∧
      c'.server.account tenant = (c.server.account tenant).map fun a =>
        { a with db := a.db.write (RocksQueue.deletes .inflight (out.map Prod.fst)) } := by
  obtain ⟨a, ha, hout⟩ := h
  have hkeys : (out.map (dequeuedTask x)).map DequeuedTask.ackKey = (out.map Prod.fst).map x.hex.encode := by
    rw [List.map_map, List.map_map]
    rfl
  rw [hkeys] at hn ⊢
  obtain ⟨⟨s', answer⟩, hserve, rfl⟩ := Option.map_eq_some_iff.mp hn
  have hserved := rpc_served (hc.intact.tenants tenant) rfl hserve
  have hnil : (out.map Prod.fst).map x.hex.encode ≠ [] := by
    rw [List.map_map]
    exact fun h => hne (List.map_eq_nil_iff.mp h)
  have hcounted : a.db.ackLoop [] (out.map Prod.fst) = out.map Prod.fst :=
    ackLoop_self hnodup (fun _ _ => List.not_mem_nil) fun key hkey => by
      obtain ⟨r, hr, rfl⟩ := List.mem_map.mp hkey
      rw [(hout r hr).inflight]
      rfl
  rw [ha] at hserved ⊢
  simp only [Account.serve, if_neg hnil, decodeAckKeys_encode, Account.callOr, Account.call, Tenant.exec, TenantDb.ackBatch,
    hcounted, Option.map_some] at hserved
  obtain ⟨haccount, hanswer⟩ := Prod.mk.inj (Option.some.inj hserved)
  refine ⟨?_, haccount.symm⟩
  have hlength : (out.map Prod.fst).length = out.length := List.length_map _
  rw [← hanswer, ← hlength]
  rfl

/-- A client that sends back all the ack keys of a delivery before it runs out acknowledges all of its tasks: until then
    the record under each key is the task that was delivered, they are counted, and these records are inflight no more;
    nothing else of the tenant changes. -/
theorem delivered_acked {c₀ c₁ c₂ c₃ : Session R} {clock' : Clock} {io' : Inputs} (h : c₀.ReachedAnew x tenant)
    (hdequeue : c₀.next x (.rpc (.dequeueTasks tenant queue limit) clock io) = some c₁)
    (hanswer : c₁.answers = c₀.answers ++ [(.dequeueTasks tenant queue limit, .ok (.dequeued tenant q tasks))])
    (hne : tasks ≠ [])
    (hrun : Runs.Run (Session.next x) (fun c e => Spares x tenant tasks e ∧ DrawsAnew x tenant c e = true) c₁ c₂)
    (hack : c₂.next x (.rpc (.ackBatch tenant (tasks.map DequeuedTask.ackKey)) clock' io') = some c₃) :
    c₃.answers = c₂.answers ++ [(.ackBatch tenant (tasks.map DequeuedTask.ackKey),
      .ok (.taskOp tenant true ("acked " ++ toString tasks.length)))] ∧
      ∃ (out : List (Key × Task)) (a₁ a₂ : Account), tasks = out.map (dequeuedTask x) ∧ c₁.server.account tenant = some a₁ ∧
        c₂.server.account tenant = some a₂ ∧
        (∀ r ∈ out, a₁.db.get .inflight r.1 = some (.task r.2) ∧ a₂.db.get .inflight r.1 = some (.task r.2)) ∧
        c₃.server.account tenant =
          some { a₂ with db := a₂.db.write (RocksQueue.deletes .inflight (out.map Prod.fst)) } := by
  obtain ⟨hsound, hnumbered⟩ := numbered_of_reachedAnew h
  obtain ⟨out, hnodup, rfl, hout⟩ := out_dequeued hsound hdequeue hanswer
  have hanew : DrawsAnew x tenant c₀ (.rpc (.dequeueTasks tenant queue limit) clock io) = true :=
    decide_eq_true hsound.seq
  have hinv : c₂.Sound ∧ c₂.server.Numbered tenant ∧ c₂.Out tenant out :=
    hrun.invariant (I := fun c => c.Sound ∧ c.server.Numbered tenant ∧ c.Out tenant out)
      (fun ⟨hs, hnum, ho⟩ ⟨hspares, hanew⟩ hn =>
        ⟨hs.next hn, numbered_next hs hnum hanew hn, out_next hs hnum ho hspares hanew hn⟩)
      ⟨hsound.next hdequeue, numbered_next hsound hnumbered hanew hdequeue, hout⟩
  obtain ⟨hs, -, hout₂⟩ := hinv
  obtain ⟨hlast, haccount⟩ := acked_out hs hout₂ hnodup (fun hnil => hne (by rw [hnil]; rfl)) hack
  obtain ⟨a₁, ha₁, hout₁⟩ := hout
  obtain ⟨a₂, ha₂, hout₂⟩ := hout₂
  rw [ha₂] at haccount
  exact ⟨by rw [List.length_map]; exact hlast, out, a₁, a₂, rfl, ha₁, ha₂,
    fun r hr => ⟨(hout₁ r hr).inflight, (hout₂ r hr).inflight⟩, haccount⟩

end Sessions

/-! ## In exact arithmetic -/

/-- Two tasks are enqueued. -/
def twoEnqueued : List Traffic :=
  [.rpc (.provisionTenant "t" "standard") ⟨0, 0⟩ { now := 0 },
    .rpc (.enqueueBatch "t" "" ["hello", "there"]) ⟨1, 1⟩ { now := 1, ids := ["a", "b"] }]

/-- The tenant enqueues another task, another tenant comes, the server restarts, and the reaper ticks. -/
def whileOut : List Traffic :=
  [.rpc (.enqueueTask "t" "" "more") ⟨3, 3⟩ { now := 3, ids := ["c"] },
    .rpc (.provisionTenant "u" "premium") ⟨3, 3⟩ { now := 3 },
    .daemonCycle ⟨4, 4⟩,
    .restart ⟨5, 5⟩,
    .reaperTick 6]

def handedTasks : List DequeuedTask :=
  [⟨HexCodec.hex.encode (encodeKey "default" 0), "a", "default", "hello", 1, 1, 60002⟩,
    ⟨HexCodec.hex.encode (encodeKey "default" 1), "b", "default", "there", 1, 1, 60002⟩]

theorem delivered_acked_whileOut : ∃ c₂ c₃ : Session Rat,
    c₂.next plainTexts (.rpc (.ackBatch "t" (handedTasks.map DequeuedTask.ackKey)) ⟨6, 6⟩ { now := 6 }) = some c₃ ∧
      c₃.answers = c₂.answers ++ [(.ackBatch "t" (handedTasks.map DequeuedTask.ackKey),
        .ok (.taskOp "t" true ("acked " ++ toString handedTasks.length)))] := by
  let c₀ := (Runs.execWhile (Session.next plainTexts) (DrawsAnew plainTexts "t") (.start (.empty : Server Rat))
    twoEnqueued).get (by decide +kernel)
  let c₁ := (c₀.next plainTexts (.rpc (.dequeueTasks "t" "" 0) ⟨2, 2⟩ { now := 2 })).get (by decide +kernel)
  let c₂ := (Runs.execWhile (Session.next plainTexts) (DrawsAnew plainTexts "t") c₁ whileOut).get (by decide +kernel)
  let c₃ := (c₂.next plainTexts (.rpc (.ackBatch "t" (handedTasks.map DequeuedTask.ackKey)) ⟨6, 6⟩ { now := 6 })).get
    (by decide +kernel)
  have hreached : c₀.ReachedAnew plainTexts "t" :=
    ⟨.empty, ⟨0, 0⟩, rfl, Runs.run_of_execWhile (Option.some_get _).symm⟩
  have hanswer : c₁.answers = c₀.answers ++ [(.dequeueTasks "t" "" 0, .ok (.dequeued "t" "default" handedTasks))] := by
    decide +kernel
  have hspares : ∀ e ∈ whileOut, Spares plainTexts "t" handedTasks e := by
    intro e he
    simp only [whileOut, List.mem_cons, List.not_mem_nil, or_false] at he
    rcases he with rfl | rfl | rfl | rfl | rfl
    · exact fun _ => ⟨by simp, fun ackKey hmem => (by cases hmem)⟩
    · exact fun _ => ⟨by simp, fun ackKey hmem => (by cases hmem)⟩
    · trivial
    · trivial
    · exact fun task htask => (by decide : ∀ task ∈ handedTasks, 6 ≤ task.deadline) task htask
  have hrun : Runs.Run (Session.next plainTexts)
      (fun c e => Spares plainTexts "t" handedTasks e ∧ DrawsAnew plainTexts "t" c e = true) c₁ c₂ :=
    Runs.run_of_execWhile_forall (Option.some_get _).symm hspares
  have hacked : c₂.next plainTexts (.rpc (.ackBatch "t" (handedTasks.map DequeuedTask.ackKey)) ⟨6, 6⟩ { now := 6 }) =
      some c₃ := (Option.some_get _).symm
  exact ⟨c₂, c₃, hacked, (delivered_acked hreached (Option.some_get _).symm hanswer (by decide) hrun hacked).1⟩

end RocksQueue
