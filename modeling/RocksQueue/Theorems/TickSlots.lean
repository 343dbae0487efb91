import RocksQueue.Lib.Runs
import RocksQueue.Theorems.ExactMoves
import RocksQueue.Theorems.SlotBudget

/-! # The slots of a tick

The slots of a tenant are the limit of every call that a tick makes for it, one for each queue. The calls together keep to
the slots exactly if the worker finds tasks in one queue only, or not more of them than there are slots. -/

namespace RocksQueue

open Runs

variable {R : Type}

/-- The pending tasks of a queue that can be delivered. -/
def Server.pendingTasks (s : Server R) (tenant queue : String) : Nat :=
  match s.registry.db.tenantDb? tenant with
  | some db => (db.scanQueue .pending queue).countP decodable
  | none => 0

/-- A worker in a tick: how many tasks it has taken from each tenant, and how many it has found in each of the queues to
    which it came. -/
structure TickRun (R : Type) where
  pool : PoolRun R
  dequeued : String → Nat
  found : String → List Nat

namespace TickRun
variable [F64 R]

def start (pool : PoolRun R) : TickRun R := ⟨pool, fun _ => 0, fun _ => []⟩

/-- The call with which the worker goes on: the tenant, and how many tasks are returned and were found. -/
def taking (worker : Nat) (t : TickRun R) : PoolEvent → Option (String × Nat × Nat)
  | .work w io handled =>
    match t.pool.workers[worker]? with
    | some (.dequeue tenantId queue slots :: _) =>
      if w = worker then
        (t.pool.server.perform io handled (.dequeue tenantId queue slots)).map fun r =>
          (tenantId, r.2.length, t.pool.server.pendingTasks tenantId queue)
      else none
    | _ => none
  | _ => none

/-- What the worker takes is noted down. -/
def noted (t : TickRun R) (pool : PoolRun R) : Option (String × Nat × Nat) → TickRun R
  | none => ⟨pool, t.dequeued, t.found⟩
  | some (tenantId, returned, found) =>
    ⟨pool, fun u => if u = tenantId then t.dequeued u + returned else t.dequeued u,
      fun u => if u = tenantId then t.found u ++ [found] else t.found u⟩

/-- The tick ends before the worker starts another one. -/
def next [F64Sqrt R] (p : FairWorkerPool) (worker : Nat) (t : TickRun R) (e : PoolEvent) : Option (TickRun R) :=
  match e with
  | .tick w _ => if w = worker then none else (p.next t.pool e).map fun pool => t.noted pool none
  | _ => (p.next t.pool e).map fun pool => t.noted pool (t.taking worker e)

end TickRun

/-! ## One call -/

section Calls
variable {s s' : Server R} {tenant queue : String} {slots : Nat} {io : Inputs} {handled : Option Nat} {more : List Work}

theorem deliveredResult_isSome (deadline : Nat) (item : Key × Value) :
    (deliveredResult deadline item).isSome = decodable item := by
  obtain ⟨key, v⟩ := item
  cases v with
  | task task => rfl
  | corrupt raw => rfl

/-- A call returns the tasks that it finds, up to its limit. -/
theorem length_of_perform (hslots : 1 ≤ slots) (h : s.perform io handled (.dequeue tenant queue slots) = some (s', more)) :
    more.length = min slots (s.pendingTasks tenant queue) := by
  obtain ⟨⟨s₁, reply⟩, hcall, heq⟩ := Option.map_eq_some_iff.mp h
  cases heq
  rcases Server.callTenant_cases hcall with ⟨hnone, -, hreply⟩ | ⟨db, t, returned, hdb, hexec, -, hreply⟩
  · simp only [hreply, Server.pendingTasks, hnone, Server.processAll, List.length_nil, Nat.min_zero]
  · cases hexec
    have hreturned : ∀ deadline, (fun item => (deliveredResult deadline item).isSome) = decodable := fun deadline =>
      funext (deliveredResult_isSome deadline)
    simp only [hreply, Server.processAll, dequeueBatch_eq hslots, List.length_map, List.length_filterMap_eq_countP,
      hreturned, countP_segment, Server.pendingTasks, hdb]

/-- What a step adds to do is to process tasks. -/
theorem more_of_perform {item w : Work} (h : s.perform io handled item = some (s', more)) (hw : w ∈ more) :
    ∃ tenantId key task, w = .process tenantId key task := by
  cases item with
  | dequeue tenantId q n =>
    obtain ⟨⟨s₁, reply⟩, -, heq⟩ := Option.map_eq_some_iff.mp h
    cases heq
    unfold Server.processAll at hw
    split at hw
    · obtain ⟨r, -, rfl⟩ := List.mem_map.mp hw
      exact ⟨tenantId, r.1, r.2, rfl⟩
    · cases hw
  | process tenantId key task =>
    obtain ⟨s₁, -, heq⟩ := Option.map_eq_some_iff.mp h
    cases heq
    cases hw

end Calls

/-! ## The tick -/

/-- A call asks for what is granted to its tenant. -/
def Work.Granted (granted : String → Nat) : Work → Prop
  | .dequeue tenantId _ slots => slots = granted tenantId ∧ 1 ≤ slots
  | .process _ _ _ => True

/-- The slots of a tenant in a tick that starts here. -/
def FairWorkerPool.slotsOf [F64 R] [F64Sqrt R] (p : FairWorkerPool) (c : PoolRun R) (instant : Nat)
    (tenant : String) : Nat :=
  grantedTo tenant (c.server.collector.allocateSlots p.workerSlots instant)

namespace TickRun

/-- What has been taken is what was found, capped call by call. -/
structure Kept (granted : String → Nat) (worker : Nat) (t : TickRun R) : Prop where
  due : ∀ items, t.pool.workers[worker]? = some items → ∀ item ∈ items, item.Granted granted
  dequeued : ∀ tenant, t.dequeued tenant = ((t.found tenant).map (min (granted tenant))).sum
  called : ∀ tenant, t.found tenant ≠ [] → 1 ≤ granted tenant

section Steps
variable [F64 R] [F64Sqrt R] {p : FairWorkerPool} {worker instant : Nat} {granted : String → Nat} {c c₀ : PoolRun R}
  {t t' : TickRun R} {e : PoolEvent}

theorem granted_tick {item : Work} (h : item ∈ p.tick c.server.collector instant) :
    item.Granted (p.slotsOf c instant) := by
  obtain ⟨a, ha, hitem⟩ := List.mem_flatMap.mp h
  obtain ⟨hmem, hpos⟩ := List.mem_filter.mp ha
  obtain ⟨queue, -, rfl⟩ := List.mem_map.mp hitem
  have hslots : grantedTo a.1 ((c.server.collector.allocateSlots p.workerSlots instant).map fun y => (y.1, y.2)) = a.2 :=
    grantedTo_map StatsCollector.allocateSlots_ids_nodup hmem
  rw [List.map_id'] at hslots
  exact ⟨hslots.symm, Nat.one_le_iff_ne_zero.mpr (of_decide_eq_true hpos)⟩

theorem kept_start (h : p.next c (.tick worker instant) = some c₀) : (start c₀).Kept (p.slotsOf c instant) worker := by
  simp only [FairWorkerPool.next] at h
  split at h
  · rename_i hidle
    cases h
    refine ⟨fun items hitems item hitem => ?_, fun _ => rfl, fun _ hne => absurd rfl hne⟩
    have hworker : worker < c.workers.length := (List.getElem?_eq_some_iff.mp hidle).1
    have hset : (c.workers.set worker (p.tick c.server.collector instant))[worker]? = some items := hitems
    rw [List.getElem?_set_self hworker] at hset
    cases hset
    exact granted_tick hitem
  · cases h

omit [F64 R] [F64Sqrt R] in
theorem Kept.taken (hkept : t.Kept granted worker) {pool : PoolRun R} {tenantId : String}
    (hdue : ∀ items, pool.workers[worker]? = some items → ∀ item ∈ items, item.Granted granted)
    (hpos : 1 ≤ granted tenantId) (n : Nat) :
    (t.noted pool (some (tenantId, min (granted tenantId) n, n))).Kept granted worker := by
  refine ⟨hdue, fun u => ?_, fun u => ?_⟩
  · show (if u = tenantId then _ else _) = (List.map _ (if u = tenantId then _ else _)).sum
    by_cases hu : u = tenantId
    · rw [if_pos hu, if_pos hu, hkept.dequeued, List.map_append, List.sum_append, List.map_singleton, List.sum_singleton, hu]
    · rw [if_neg hu, if_neg hu]
      exact hkept.dequeued u
  · show (if u = tenantId then _ else _) ≠ [] → _
    by_cases hu : u = tenantId
    · intro _
      rw [hu]
      exact hpos
    · rw [if_neg hu]
      exact hkept.called u

omit [F64 R] [F64Sqrt R] in
theorem taking_other {w : Nat} {io : Inputs} {handled : Option Nat} (hw : w ≠ worker) :
    t.taking worker (.work w io handled) = none := by
  simp only [taking, if_neg hw]
  split <;> rfl

omit [F64 R] [F64Sqrt R] in
/-- What the worker does next is noted down if it is a call. -/
theorem kept_work {io : Inputs} {handled : Option Nat} {item : Work} {rest more : List Work} {s' : Server R}
    (hkept : t.Kept granted worker) (hitem : t.pool.workers[worker]? = some (item :: rest))
    (h : t.pool.server.perform io handled item = some (s', more)) {pool : PoolRun R}
    (hpool : pool.workers[worker]? = some (more ++ rest)) :
    (t.noted pool (t.taking worker (.work worker io handled))).Kept granted worker := by
  have hdue : ∀ items, pool.workers[worker]? = some items → ∀ w ∈ items, w.Granted granted := by
    intro items hitems w hw
    rw [hpool] at hitems
    cases hitems
    rcases List.mem_append.mp hw with hw | hw
    · obtain ⟨tenantId, key, task, rfl⟩ := more_of_perform h hw
      trivial
    · exact hkept.due _ hitem w (List.mem_cons_of_mem _ hw)
  cases item with
  | dequeue tenantId queue slots =>
    obtain ⟨rfl, hpos⟩ := hkept.due _ hitem _ List.mem_cons_self
    simp only [taking, hitem, if_true, h, Option.map_some, length_of_perform hpos h]
    exact hkept.taken hdue hpos _
  | process tenantId key task =>
    simp only [taking, hitem, noted]
    exact ⟨hdue, hkept.dequeued, hkept.called⟩

theorem kept_next (hkept : t.Kept granted worker) (hnext : t.next p worker e = some t') : t'.Kept granted worker := by
  cases e with
  | server e =>
    obtain ⟨pool, hpool, rfl⟩ := Option.map_eq_some_iff.mp hnext
    obtain ⟨s', -, rfl⟩ := Option.map_eq_some_iff.mp hpool
    refine ⟨fun items hitems => ?_, hkept.dequeued, hkept.called⟩
    cases e with
    -- A restart drops what the workers had to do.
    | restart clock =>
      have hcleared : (t.pool.workers.map fun _ => ([] : List Work))[worker]? = some items := hitems
      rw [List.getElem?_map] at hcleared
      obtain ⟨_, -, rfl⟩ := Option.map_eq_some_iff.mp hcleared
      exact List.forall_mem_nil _
    | _ => exact hkept.due items hitems
  | tick w now =>
    simp only [next] at hnext
    split at hnext
    · cases hnext
    · rename_i hw
      obtain ⟨pool, hpool, rfl⟩ := Option.map_eq_some_iff.mp hnext
      simp only [FairWorkerPool.next] at hpool
      split at hpool
      · cases hpool
        refine ⟨fun items hitems => hkept.due items ?_, hkept.dequeued, hkept.called⟩
        rw [← hitems]
        exact (List.getElem?_set_ne hw).symm
      · cases hpool
  | work w io handled =>
    obtain ⟨pool, hpool, rfl⟩ := Option.map_eq_some_iff.mp hnext
    simp only [FairWorkerPool.next] at hpool
    split at hpool
    · rename_i item rest hitem
      obtain ⟨⟨s', more⟩, hperform, rfl⟩ := Option.map_eq_some_iff.mp hpool
      by_cases hw : w = worker
      · subst hw
        have hlt : w < t.pool.workers.length := (List.getElem?_eq_some_iff.mp hitem).1
        exact kept_work hkept hitem hperform (List.getElem?_set_self hlt)
      -- Another worker leaves the list of this one alone.
      · rw [taking_other hw]
        refine ⟨fun items hitems => hkept.due items ?_, hkept.dequeued, hkept.called⟩
        rw [← hitems]
        exact (List.getElem?_set_ne hw).symm
    · cases hpool

/-- In every tick, whatever happens at the same time, a worker takes no more tasks from a tenant than it has slots for
    exactly if it finds no more of them in all the queues together, or finds tasks in one queue only. -/
theorem dequeued_le_slots_iff (htick : p.next c (.tick worker instant) = some c₀) {events : List PoolEvent}
    (h : exec (next p worker) (start c₀) events = some t) (tenant : String) :
    t.dequeued tenant ≤ p.slotsOf c instant tenant ↔
      (t.found tenant).sum ≤ p.slotsOf c instant tenant ∨ (t.found tenant).countP (0 < ·) ≤ 1 := by
  have hkept : t.Kept (p.slotsOf c instant) worker :=
    (run_of_exec h).invariant (I := fun t => t.Kept (p.slotsOf c instant) worker) (fun hkept _ => kept_next hkept)
      (kept_start htick)
  rw [hkept.dequeued]
  by_cases hfound : t.found tenant = []
  · simp [hfound]
  · exact Shares.sum_map_min_le_iff (hkept.called tenant hfound) _

end Steps

section TwoQueues

def twoQueues : FairWorkerPool := ⟨["default", "other"], 1, 8⟩

/-- A tenant is provisioned, and enqueues one task in each of these queues. -/
def enqueued (queues : List String) : List PoolEvent :=
  .server (.request (.provisionTenant "t" "standard") ⟨0, 0⟩ { now := 0 }) ::
    queues.map fun queue => .server (.request (.enqueueTask "t" queue []) ⟨0, 0⟩ { now := 0, ids := ["a"] })

/-- What the only worker does next, and its handler succeeds. -/
def steps (n : Nat) : List PoolEvent := .replicate n (.work 0 { now := 0 } (some 0))

/-- What a tick takes from the tenant and finds, and the slots there are. -/
def ticked (queues : List String) (n : Nat) : Option (Nat × List Nat × Nat) :=
  (exec twoQueues.next (PoolRun.start (.empty : Server Rat) 1) (enqueued queues)).bind fun c =>
    (twoQueues.next c (.tick 0 0)).bind fun c₀ =>
      (exec (next twoQueues 0) (start c₀) (steps n)).map fun t =>
        (t.dequeued "t", t.found "t", twoQueues.slotsOf c 0 "t")

theorem ticked_inv {queues : List String} {n dequeued slots : Nat} {found : List Nat}
    (h : ticked queues n = some (dequeued, found, slots)) : ∃ (c c₀ : PoolRun Rat) (t : TickRun Rat),
      twoQueues.next c (.tick 0 0) = some c₀ ∧ exec (next twoQueues 0) (start c₀) (steps n) = some t ∧
        t.dequeued "t" = dequeued ∧ t.found "t" = found ∧ twoQueues.slotsOf c 0 "t" = slots := by
  obtain ⟨c, -, h⟩ := Option.bind_eq_some_iff.mp h
  obtain ⟨c₀, htick, h⟩ := Option.bind_eq_some_iff.mp h
  obtain ⟨t, hrun, heq⟩ := Option.map_eq_some_iff.mp h
  cases heq
  exact ⟨c, c₀, t, htick, hrun, rfl, rfl, rfl⟩

/-- Three tasks in one queue and two in the other are as many as there are slots. -/
theorem dequeued_le_slots_five : ∃ (c c₀ : PoolRun Rat) (t : TickRun Rat),
    twoQueues.next c (.tick 0 0) = some c₀ ∧ exec (next twoQueues 0) (start c₀) (steps 5) = some t ∧
      t.found "t" = [3, 2] ∧ t.dequeued "t" ≤ twoQueues.slotsOf c 0 "t" := by
  have hticked : ticked ["default", "default", "default", "other", "other"] 5 = some (5, [3, 2], 5) := by decide +kernel
  obtain ⟨c, c₀, t, htick, hrun, -, hfound, hslots⟩ := ticked_inv hticked
  refine ⟨c, c₀, t, htick, hrun, hfound, (dequeued_le_slots_iff htick hrun "t").mpr (Or.inl ?_)⟩
  rw [hfound, hslots]
  decide

/-- Three tasks in each queue are all taken. -/
theorem not_dequeued_le_slots : ¬∀ (p : FairWorkerPool) (worker instant : Nat) (c c₀ : PoolRun Rat)
    (events : List PoolEvent) (t : TickRun Rat) (tenant : String), p.next c (.tick worker instant) = some c₀ →
      exec (next p worker) (start c₀) events = some t → t.dequeued tenant ≤ p.slotsOf c instant tenant := by
  intro h
  have hticked : ticked ["default", "default", "default", "other", "other", "other"] 5 = some (6, [3, 3], 5) := by
    decide +kernel
  obtain ⟨c, c₀, t, htick, hrun, hdequeued, -, hslots⟩ := ticked_inv hticked
  have hle := h twoQueues 0 0 c c₀ _ t "t" htick hrun
  rw [hdequeued, hslots] at hle
  exact absurd hle (by decide)

end TwoQueues

end TickRun

end RocksQueue
