import RocksQueue.Server
import RocksQueue.Theorems.Families

/-! # A tick of the reaper

A tick sweeps the watched queues of every listed tenant, and the only watched queue is `default`. Records of
the other queues, to which a producer may enqueue just as well, stay inflight after their deadline. -/

namespace RocksQueue

/-! ## One sweep -/

section Sweep
variable {db : TenantDb} {queue : String} {now : Nat} {k : Key} {v : Value} {items : List (Key × Value)}

/-- A sweep takes this record out of the inflight family. -/
def Value.reaped (now : Nat) : Value → Bool
  | .task t => t.expired now
  | .corrupt _ => true

theorem delete_mem_reapLoop : .delete .inflight k ∈ reapLoop queue now items ↔ ∃ v, (k, v) ∈ items ∧ v.reaped now = true := by
  induction items with
  | nil => simp [reapLoop]
  | cons item items ih =>
    obtain ⟨key, v⟩ := item
    have hcons : (∃ w, (k, w) ∈ (key, v) :: items ∧ w.reaped now = true) ↔
        (k = key ∧ v.reaped now = true) ∨ ∃ w, (k, w) ∈ items ∧ w.reaped now = true := by
      simp only [List.mem_cons, Prod.mk.injEq, or_and_right, exists_or, and_assoc, exists_and_left]
      simp
    rw [hcons, ← ih]
    cases v with
    | corrupt raw => simp [reapLoop, poisonBatch, Value.reaped]
    | task task =>
      by_cases hexp : task.expired now = true
      · simp [reapLoop, reclaimBatch, Value.reaped, hexp]
      · simp [reapLoop, Value.reaped, hexp]

theorem put_not_mem_reapLoop : .put .inflight k v ∉ reapLoop queue now items := by
  induction items with
  | nil => simp [reapLoop]
  | cons item items ih =>
    obtain ⟨key, w⟩ := item
    cases w with
    | corrupt raw => simp [reapLoop, poisonBatch, ih]
    | task task =>
      simp only [reapLoop]
      split
      · simp [reclaimBatch, ih]
      · exact ih

/-- What a sweep leaves inflight: all but the queue's records that it reaps. -/
theorem get_reapInflight : (db.reapInflight queue now).get .inflight k = some v ↔
    db.get .inflight k = some v ∧ ¬(inQueue queue k = true ∧ v.reaped now = true) := by
  have hdelete : .delete .inflight k ∈ reapLoop queue now (reapScan db queue) ↔
      ∃ w, (db.get .inflight k = some w ∧ inQueue queue k = true) ∧ w.reaped now = true := by
    rw [delete_mem_reapLoop, reapScan_eq]
    simp only [TenantDb.mem_scanQueue]
  constructor
  · intro h
    rcases TenantDb.get_write h with hput | ⟨hget, hnot⟩
    · exact absurd hput put_not_mem_reapLoop
    · exact ⟨hget, fun ⟨hin, hreaped⟩ => hnot (hdelete.mpr ⟨v, ⟨hget, hin⟩, hreaped⟩)⟩
  · rintro ⟨hget, hkept⟩
    refine (TenantDb.get_write_of_untouched (fun _ => put_not_mem_reapLoop) fun hmem => ?_).trans hget
    obtain ⟨w, ⟨hw, hin⟩, hreaped⟩ := hdelete.mp hmem
    obtain rfl : v = w := Option.some.inj (hget.symm.trans hw)
    exact hkept ⟨hin, hreaped⟩

end Sweep

/-! ## The whole tick -/

section Tick
variable {R : Type} {s : Server R} {db : Database R} {tenant : String} {now : Nat} {key : Key}

/-- The tenant has an inflight record under this key whose deadline has passed. -/
def HasExpired (db : Database R) (tenant : String) (key : Key) (now : Nat) : Prop :=
  ∃ cf task, db.cfs.lookup (cfInflight tenant) = some cf ∧ cf.get? key = some (.task task) ∧ task.expired now = true

/-- A sweep of the tick reaches the record: its tenant is listed and has its families, and its key is one of
    the queue `default`. -/
def Swept (s : Server R) (tenant : String) (key : Key) : Prop :=
  tenant ∈ s.registry.policies ∧ (s.registry.db.tenantDb? tenant).isSome = true ∧ inQueue "default" key = true

/-- What the tick reads and writes of one tenant. -/
def inflightOf (db : Database R) (tenant : String) : Option TenantDb × Option ColumnFamily :=
  (db.tenantDb? tenant, db.cfs.lookup (cfInflight tenant))

/-- What a sweep makes of it. -/
def sweptInflight (now : Nat) (x : Option TenantDb × Option ColumnFamily) : Option TenantDb × Option ColumnFamily :=
  match x.1 with
  | none => x
  | some t => (some (t.reapInflight "default" now), some (t.reapInflight "default" now).inflight)

theorem inflightOf_reapTenant_self :
    inflightOf (Server.reapTenant now db tenant) tenant = sweptInflight now (inflightOf db tenant) := by
  simp only [Server.reapTenant, watchedQueues, List.foldl_cons, List.foldl_nil, Server.reapQueue]
  cases h : db.tenantDb? tenant with
  | none => simp [sweptInflight, inflightOf, h]
  | some t =>
    have hset : (db.setTenantDb tenant (t.reapInflight "default" now)).tenantDb? tenant = _ := tenantDb?_setTenantDb_self
    simp only [sweptInflight, inflightOf, h, hset, (tenantDb?_eq_some.mp hset).2.1]

theorem inflightOf_reapTenant_of_ne {other : String} (h : other ≠ tenant) :
    inflightOf (Server.reapTenant now db tenant) other = inflightOf db other := by
  simp only [Server.reapTenant, watchedQueues, List.foldl_cons, List.foldl_nil, Server.reapQueue]
  split
  · rfl
  · rw [inflightOf, tenantDb?_setTenantDb, if_neg h, lookup_setTenantDb_of_ne (Ne.symm h) (by simp [cfNames])]
    rfl

theorem inflightOf_tick (tenant : String) : inflightOf (s.reaperTick now).registry.db tenant =
    if tenant ∈ s.registry.policies then sweptInflight now (inflightOf s.registry.db tenant)
    else inflightOf s.registry.db tenant := by
  have hnodup : (s.registry.listTenants.map id).Nodup := by
    rw [List.map_id]
    exact s.registry.policies.keys_nodup
  have hown : ∀ (db : Database R) (t : String),
      inflightOf (Server.reapTenant now db t) (id t) = sweptInflight now (inflightOf db (id t)) :=
    fun _ _ => inflightOf_reapTenant_self
  obtain ⟨hin, hout⟩ := List.foldl_lookup inflightOf (fun _ => sweptInflight now) hown
    (fun _ _ _ h => inflightOf_reapTenant_of_ne h) hnodup s.registry.db
  split
  · rename_i hmem
    exact hin tenant (AList.mem_keys.mp hmem)
  · rename_i hmem
    refine hout tenant ?_
    rw [List.map_id]
    exact fun h => hmem (AList.mem_keys.mpr h)

theorem hasExpired_iff : HasExpired db tenant key now ↔
    ∃ cf task, (inflightOf db tenant).2 = some cf ∧ cf.get? key = some (.task task) ∧ task.expired now = true := Iff.rfl

/-- A tick leaves the expired records that no sweep reaches. -/
theorem hasExpired_tick : HasExpired (s.reaperTick now).registry.db tenant key now ↔
    HasExpired s.registry.db tenant key now ∧ ¬Swept s tenant key := by
  rw [hasExpired_iff, hasExpired_iff, inflightOf_tick]
  by_cases hlisted : tenant ∈ s.registry.policies
  · rw [if_pos hlisted]
    cases hdb : s.registry.db.tenantDb? tenant with
    | none => simp [sweptInflight, inflightOf, hdb, Swept]
    | some t =>
      have hinflight : s.registry.db.cfs.lookup (cfInflight tenant) = some t.inflight := (tenantDb?_eq_some.mp hdb).2.1
      have hreap : ∀ task, (t.reapInflight "default" now).inflight.get? key = some (.task task) ↔
          t.inflight.get? key = some (.task task) ∧ ¬(inQueue "default" key = true ∧ task.expired now = true) :=
        fun task => by
          have hsweep : (t.reapInflight "default" now).get .inflight key = some (.task task) ↔
              t.get .inflight key = some (.task task) ∧
                ¬(inQueue "default" key = true ∧ (Value.task task).reaped now = true) := get_reapInflight
          exact hsweep
      simp only [sweptInflight, inflightOf, hdb, hinflight, Swept, hlisted, Option.isSome_some, true_and,
        Option.some.injEq, exists_eq_left', exists_and_left, hreap]
      constructor
      · rintro ⟨task, ⟨hget, hkept⟩, hexpired⟩
        exact ⟨⟨task, hget, hexpired⟩, fun hin => hkept ⟨hin, hexpired⟩⟩
      · rintro ⟨⟨task, hget, hexpired⟩, hout⟩
        exact ⟨task, ⟨hget, fun h => hout h.1⟩, hexpired⟩
  · rw [if_neg hlisted]
    simp [Swept, hlisted]

/-- A tick recovers every expired task exactly if its sweeps reach all the expired records. -/
theorem tick_recovers_iff (s : Server R) (now : Nat) :
    (∀ tenant key, ¬HasExpired (s.reaperTick now).registry.db tenant key now) ↔
      ∀ tenant key, HasExpired s.registry.db tenant key now → Swept s tenant key := by
  simp only [hasExpired_tick, not_and, not_not]

end Tick

/-! ## A queue that is not watched -/

section Unwatched

/-- A task is enqueued to `mail` of the tenant `t`, and delivered at time 0. -/
def deliveredFromMail : List Server.Event :=
  [.request (.provisionTenant "t" "standard") ⟨0, 0⟩ { now := 0 },
    .request (.enqueueTask "t" "mail" []) ⟨0, 0⟩ { now := 0, ids := ["a"] },
    .request (.dequeueTasks "t" "mail" 1) ⟨0, 0⟩ { now := 0 }]

def mailTask : Task where
  id := "a"
  queue := "mail"
  payload := []
  enqueuedAt := 0
  attempts := 1
  deadline := 60000

/-- The record of a task under a key of the tenant's inflight family. -/
def inflightRecord (s : Server Rat) (tenant : String) (key : Key) : Option Value :=
  (s.registry.db.cfs.lookup (cfInflight tenant)).bind fun cf => cf.get? key

/-- The timeout of 60 seconds has passed, and the tick leaves the task where it is. -/
theorem not_tick_recovers : ¬∀ (s : Server Rat) (now : Nat), s.Reached →
    ∀ tenant key, ¬HasExpired (s.reaperTick now).registry.db tenant key now := by
  intro h
  have hsome : ((Server.main (.fresh : Database Rat) ⟨0, 0⟩).bind fun s₀ => (Runs.exec Server.next s₀ deliveredFromMail).map
      fun s => inflightRecord (s.reaperTick 70000) "t" (encodeKey "mail" 0)) = some (some (.task mailTask)) := by
    decide +kernel
  obtain ⟨s₀, hs₀, hmap⟩ := Option.bind_eq_some_iff.mp hsome
  obtain ⟨s, hs, hrecord⟩ := Option.map_eq_some_iff.mp hmap
  obtain ⟨cf, hcf, hget⟩ := Option.bind_eq_some_iff.mp hrecord
  exact h s 70000 ⟨s₀, _, hs₀, Runs.run_of_exec hs⟩ "t" _ ⟨cf, mailTask, hcf, hget, by decide⟩

end Unwatched

end RocksQueue
