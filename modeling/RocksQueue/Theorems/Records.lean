import RocksQueue.Lib.AssocLists
import RocksQueue.StatsStore

/-! # The records of `__system__`

Four kinds of records share one family, each under the id of its tenant. A write reaches the record under its
own key only, and where every record is filed under its own key, what is loaded is what was stored there. -/

namespace RocksQueue

/-- The kinds of records. -/
inductive RecordKind where
  | tenantMeta
  | stats
  | throttle
  | baseline
  deriving DecidableEq, Repr

def RecordKind.keyPrefix : RecordKind → Bytes
  | tenantMeta => tenantMetaPrefix
  | stats => statsPrefix
  | throttle => throttlePrefix
  | baseline => baselinePrefix

/-- `metaKey`, `statsKey`, `throttleKey` or `baselineKey`. -/
def RecordKind.key (kind : RecordKind) (tenant : String) : Bytes := kind.keyPrefix ++ Bytes.utf8 tenant

section Keys
variable {kind kind' : RecordKind} {tenant tenant' : String}

/-- Already the first two bytes tell the kind. -/
theorem kind_eq_of_startsWith (h : kind'.keyPrefix <+: kind.key tenant) : kind' = kind := by
  obtain ⟨rest, hrest⟩ := h
  have htake := congrArg (List.take 2) hrest
  have hlen : ∀ kind : RecordKind, 2 ≤ kind.keyPrefix.length := fun kind => by cases kind <;> decide
  rw [RecordKind.key, List.take_append_of_le_length (hlen kind'), List.take_append_of_le_length (hlen kind)] at htake
  cases kind <;> cases kind' <;> first | rfl | exact absurd htake (by decide)

theorem key_inj : kind.key tenant = kind'.key tenant' ↔ kind = kind' ∧ tenant = tenant' := by
  constructor
  · intro h
    have hprefix : kind'.keyPrefix <+: kind.key tenant := by
      rw [h]
      exact List.prefix_append _ _
    obtain rfl : kind' = kind := kind_eq_of_startsWith hprefix
    exact ⟨rfl, Bytes.utf8_inj (List.append_cancel_left h)⟩
  · rintro ⟨rfl, rfl⟩
    rfl

theorem key_ne (kind kind' : RecordKind) (h : kind ≠ kind') : kind.key tenant ≠ kind'.key tenant' :=
  fun heq => h (key_inj.mp heq).1

end Keys

variable {R : Type} {db : Database R} {key key' : Bytes} {v : SystemRecord R} {tenant other : String}

/-! ## Writes -/

section Writes

theorem record?_putSystem (hsystem : db.system.isSome = true) :
    (db.putSystem key v).record? key' = if key' = key then some v else db.record? key' := by
  obtain ⟨cf, hcf⟩ := Option.isSome_iff_exists.mp hsystem
  simp [Database.record?, Database.putSystem, hcf, OrderedMap.get?_insert]

theorem record?_deleteSystem : (db.deleteSystem key).record? key' = if key' = key then none else db.record? key' := by
  cases hcf : db.system with
  | none => simp [Database.record?, Database.deleteSystem, hcf]
  | some cf => simp [Database.record?, Database.deleteSystem, hcf, OrderedMap.get?_erase]

theorem record?_putSystem_of_ne (h : key' ≠ key) : (db.putSystem key v).record? key' = db.record? key' := by
  cases hsystem : db.system with
  | none => simp [Database.record?, Database.putSystem, hsystem]
  | some cf => rw [record?_putSystem (by simp [hsystem]), if_neg h]

@[simp] theorem isSome_system_putSystem : (db.putSystem key v).system.isSome = db.system.isSome := by
  simp [Database.putSystem]

@[simp] theorem isSome_system_deleteSystem : (db.deleteSystem key).system.isSome = db.system.isSome := by
  simp [Database.deleteSystem]

@[simp] theorem cfs_store {w : StoreWrite R} : (db.store w).cfs = db.cfs := by
  cases w <;> rfl

@[simp] theorem isSome_system_store {w : StoreWrite R} : (db.store w).system.isSome = db.system.isSome := by
  cases w <;> simp [Database.store]

/-- What a write of the statistics store puts under its key. -/
def StoreWrite.record? : StoreWrite R → Option (SystemRecord R)
  | .flushStats s => some (.stats s)
  | .persistThrottle t => some (.throttle t)
  | .clearThrottle _ => none
  | .flushBaseline b => some (.baseline b)
  | .clearBaseline _ => none

theorem record?_store {w : StoreWrite R} (hsystem : db.system.isSome = true) :
    (db.store w).record? key = if key = w.key then w.record? else db.record? key := by
  cases w <;> simp [Database.store, StoreWrite.record?, record?_putSystem hsystem, record?_deleteSystem]

theorem record?_store_of_ne {w : StoreWrite R} (h : key ≠ w.key) : (db.store w).record? key = db.record? key := by
  cases w with
  | flushStats s => exact record?_putSystem_of_ne h
  | persistThrottle t => exact record?_putSystem_of_ne h
  | clearThrottle t => exact record?_deleteSystem.trans (if_neg h)
  | flushBaseline b => exact record?_putSystem_of_ne h
  | clearBaseline t => exact record?_deleteSystem.trans (if_neg h)

end Writes

/-! ## Filed records -/

/-- The kind of a record and its tenant, unless it does not deserialize. -/
def SystemRecord.label : SystemRecord R → Option (RecordKind × String)
  | .policy p => some (.tenantMeta, p.tenantId)
  | .stats s => some (.stats, s.tenantId)
  | .throttle t => some (.throttle, t.tenantId)
  | .baseline b => some (.baseline, b.tenantId)
  | .corrupt _ => none

/-- The key under which a record belongs. -/
def SystemRecord.place (v : SystemRecord R) : Option Bytes := v.label.map fun l => l.1.key l.2

/-- Every record is filed where it belongs. -/
def Filed (db : Database R) : Prop := ∀ {key : Bytes} {v : SystemRecord R}, db.record? key = some v → v.place = some key

/-- Every record under a key of this kind is filed where it belongs. -/
def FiledAs (kind : RecordKind) (db : Database R) : Prop :=
  ∀ (key : Bytes) (v : SystemRecord R), db.record? key = some v → kind.keyPrefix <+: key → v.place = some key

section Loads
variable {kind : RecordKind}

theorem Filed.filedAs (h : Filed db) (kind : RecordKind) : FiledAs kind db := fun _ _ hget _ => h hget

theorem Filed.label (h : Filed db) (kind : RecordKind) (hv : db.record? (kind.key tenant) = some v) :
    v.label = some (kind, tenant) := by
  obtain ⟨⟨kind', tenant'⟩, hlabel, hkey⟩ := Option.map_eq_some_iff.mp (h hv)
  obtain ⟨rfl, rfl⟩ := key_inj.mp hkey
  exact hlabel

theorem mem_records : v ∈ db.records key ↔ ∃ k, db.record? k = some v ∧ key <+: k := by
  unfold Database.records Database.record?
  cases db.system with
  | none => simp
  | some cf =>
    simp only [List.mem_map, Option.bind_some]
    constructor
    · rintro ⟨⟨k, w⟩, hmem, rfl⟩
      exact ⟨k, mem_seekPrefix.mp hmem⟩
    · rintro ⟨k, hk⟩
      exact ⟨(k, v), mem_seekPrefix.mpr hk, rfl⟩

theorem FiledAs.mem_records (h : FiledAs kind db) :
    v ∈ db.records kind.keyPrefix ↔ ∃ tenant, v.label = some (kind, tenant) ∧ db.record? (kind.key tenant) = some v := by
  rw [RocksQueue.mem_records]
  constructor
  · rintro ⟨k, hk, hprefix⟩
    obtain ⟨⟨kind', tenant⟩, hlabel, rfl⟩ := Option.map_eq_some_iff.mp (h k v hk hprefix)
    obtain rfl : kind = kind' := kind_eq_of_startsWith hprefix
    exact ⟨tenant, hlabel, hk⟩
  · rintro ⟨tenant, -, hk⟩
    exact ⟨_, hk, List.prefix_append _ _⟩

/-- The records of one kind are of different tenants. -/
theorem FiledAs.labels_nodup (h : FiledAs kind db) : ((db.records kind.keyPrefix).map SystemRecord.label).Nodup := by
  cases hsystem : db.system with
  | none => simp [Database.records, hsystem]
  | some cf =>
    have hplaced : ∀ e ∈ seekPrefix cf kind.keyPrefix, e.2.place = some e.1 := fun e he => by
      obtain ⟨hget, hprefix⟩ := mem_seekPrefix.mp he
      exact h e.1 e.2 (by simp [Database.record?, hsystem, hget]) hprefix
    have hkeys : ((seekPrefix cf kind.keyPrefix).map Prod.fst).Nodup := by
      rw [seekPrefix_eq]
      exact OrderedMap.scan_keys_nodup
    simp only [Database.records, hsystem, List.map_map]
    refine (List.nodup_map_iff_inj_on (List.Nodup.of_map _ hkeys)).mpr fun e he e' he' heq => ?_
    have hplace : some e.1 = some e'.1 := by
      rw [← hplaced e he, ← hplaced e' he']
      exact congrArg (Option.map fun l => l.1.key l.2) heq
    exact List.inj_on_of_nodup_map hkeys he he' (Option.some.inj hplace)

/-- What is picked from the records of one kind has an id for each tenant at most once. -/
theorem FiledAs.ids_nodup {α : Type} {pick : SystemRecord R → Option α} {idOf : α → String} (h : FiledAs kind db)
    (hpick : ∀ v a, pick v = some a → v.label = some (kind, idOf a)) :
    (((db.records kind.keyPrefix).filterMap pick).map idOf).Nodup := by
  have hlabels : (db.records kind.keyPrefix).Pairwise fun v w => v.label ≠ w.label :=
    List.pairwise_map.mp h.labels_nodup
  rw [List.Nodup, List.pairwise_map, List.pairwise_filterMap]
  refine hlabels.imp fun hne a ha b hb heq => hne ?_
  rw [hpick _ a ha, hpick _ b hb, heq]

def asThrottle : SystemRecord R → Option PersistedThrottle
  | .throttle t => some t
  | _ => none

theorem asThrottle_eq_some {p : PersistedThrottle} : asThrottle v = some p ↔ v = .throttle p := by
  cases v <;> simp [asThrottle]

theorem loadAllThrottles_eq : db.loadAllThrottles = (db.records RecordKind.throttle.keyPrefix).filterMap asThrottle := by
  refine congrArg (fun f => List.filterMap f _) (funext fun v => ?_)
  cases v <;> rfl

theorem FiledAs.mem_loadAllThrottles (h : FiledAs .throttle db) {p : PersistedThrottle} :
    p ∈ db.loadAllThrottles ↔ db.record? (throttleKey p.tenantId) = some (.throttle p) := by
  simp only [loadAllThrottles_eq, List.mem_filterMap, asThrottle_eq_some, exists_eq_right, h.mem_records]
  constructor
  · rintro ⟨tenant, hlabel, hget⟩
    cases hlabel
    exact hget
  · exact fun hget => ⟨p.tenantId, rfl, hget⟩

theorem FiledAs.loadAllThrottles_nodup (h : FiledAs .throttle db) : (db.loadAllThrottles.map PersistedThrottle.tenantId).Nodup := by
  rw [loadAllThrottles_eq]
  refine h.ids_nodup fun v p hv => ?_
  rw [asThrottle_eq_some.mp hv]
  rfl

section Stats
variable [F64 R] {now : Nat} {p : PersistedStats R}

def asStats (now : Nat) : SystemRecord R → Option (PersistedStats R)
  | .stats s => some (s.decayed now)
  | _ => none

theorem asStats_eq_some : asStats now v = some p ↔ ∃ s, v = .stats s ∧ s.decayed now = p := by
  cases v <;> simp [asStats]

theorem loadAllStats_eq : db.loadAllStats now = (db.records RecordKind.stats.keyPrefix).filterMap (asStats now) := by
  refine congrArg (fun f => List.filterMap f _) (funext fun v => ?_)
  cases v <;> rfl

theorem FiledAs.mem_loadAllStats (h : FiledAs .stats db) : p ∈ db.loadAllStats now ↔
    ∃ s, db.record? (statsKey p.tenantId) = some (.stats s) ∧ s.decayed now = p := by
  simp only [loadAllStats_eq, List.mem_filterMap, asStats_eq_some, h.mem_records]
  constructor
  · rintro ⟨_, ⟨tenant, hlabel, hget⟩, s, rfl, rfl⟩
    cases hlabel
    exact ⟨s, hget, rfl⟩
  · rintro ⟨s, hget, rfl⟩
    exact ⟨_, ⟨s.tenantId, rfl, hget⟩, s, rfl, rfl⟩

theorem FiledAs.loadAllStats_nodup (h : FiledAs .stats db) (now : Nat) :
    ((db.loadAllStats now).map PersistedStats.tenantId).Nodup := by
  rw [loadAllStats_eq]
  refine h.ids_nodup fun v p hv => ?_
  obtain ⟨s, rfl, rfl⟩ := asStats_eq_some.mp hv
  rfl

end Stats

end Loads

end RocksQueue
