import RocksQueue.Checkpoint

/-! # Checkpoints are confined

Whatever path a client asks for, RocksDB is only ever asked for one that leads to a place at or beneath the configured
directory, and every such place can be asked for (`checkpoint_places`). An empty setting confines nothing
(`checkpoint_confined_iff`). -/

namespace RocksQueue
open Paths

/-- The path does not climb, and begins with the directory, component by component. -/
def Accepted (base path : String) : Prop :=
  .parentDir ∉ components path.toList ∧ components base.toList <+: components path.toList

instance (base path : String) : Decidable (Accepted base path) := inferInstanceAs (Decidable (_ ∧ _))

/-- The path leads from the working directory to the directory or beneath it. -/
def Beneath (cwd : List Name) (base path : String) : Prop :=
  ∃ names : List Name, (∀ name ∈ names, Proper name) ∧
    walk cwd (components path.toList) = walk cwd (components base.toList) ++ names

section Targets
variable {path base target : String} {rocksdb : String → Except String Unit} {e : CheckpointError}

theorem target_eq_ok : checkpointTarget path base = .ok target ↔ target = path ∧ Accepted base path := by
  unfold checkpointTarget
  constructor
  · intro h
    split at h
    · cases h
    · rename_i hup
      split at h
      · rename_i hbegins
        cases h
        exact ⟨rfl, hup, hbegins⟩
      · cases h
  · rintro ⟨rfl, hup, hbegins⟩
    rw [if_neg hup, if_pos hbegins]

theorem toList_ne_nil (h : base ≠ "") : base.toList ≠ [] := fun hnil => h (String.toList_eq_nil_iff.mp hnil)

/-- An accepted path leads beneath the directory, wherever the process was started. -/
theorem Accepted.beneath (h : Accepted base path) (hbase : base ≠ "") (cwd : List Name) : Beneath cwd base path := by
  obtain ⟨hup, hbegins⟩ := h
  obtain ⟨names, hproper, heq⟩ := prefix_walk (toList_ne_nil hbase) hbegins hup
  refine ⟨names, hproper, ?_⟩
  rw [heq, walk_append, walk_normals]

/-- Every place beneath a directory that does not climb is the end of an accepted path. -/
theorem exists_accepted (hbase : base ≠ "") (hup : .parentDir ∉ components base.toList) {names : List Name}
    (hproper : ∀ name ∈ names, Proper name) (cwd : List Name) :
    ∃ path, Accepted base path ∧ walk cwd (components path.toList) = walk cwd (components base.toList) ++ names := by
  have hcomponents : components (String.ofList (join base.toList names)).toList =
      components base.toList ++ names.map .normal := by
    rw [String.toList_ofList]
    exact components_join (toList_ne_nil hbase) hproper
  refine ⟨String.ofList (join base.toList names), ⟨?_, ?_⟩, ?_⟩
  · rw [hcomponents]
    intro hmem
    rcases List.mem_append.mp hmem with hmem | hmem
    · exact hup hmem
    · obtain ⟨name, -, heq⟩ := List.mem_map.mp hmem
      cases heq
  · rw [hcomponents]
    exact List.prefix_append _ _
  · rw [hcomponents, walk_append, walk_normals]

/-! ## Answers -/

theorem text_of_refused (h : checkpointTarget path base = .error e) : "must".toList <:+: e.text.toList := by
  unfold checkpointTarget at h
  split at h
  · cases h
    decide
  · split at h
    · cases h
    · cases h
      decide

/-- A path that is refused is a bad request, and RocksDB is not asked. -/
theorem handler_refused (h : ¬Accepted base path) : ∃ text, ∀ rocksdb : String → Except String Unit,
    checkpointHandler rocksdb base path = (.badRequest, ⟨false, path, some text⟩) := by
  cases htarget : checkpointTarget path base with
  | ok target => exact absurd (target_eq_ok.mp htarget).2 h
  | error e =>
    refine ⟨e.text, fun rocksdb => ?_⟩
    simp only [checkpointHandler, createCheckpoint, htarget, if_pos (text_of_refused htarget)]

/-- For the others the answer is what RocksDB makes of the path. -/
theorem handler_accepted (h : Accepted base path) :
    (checkpointHandler rocksdb base path).1 = .ok ↔ rocksdb path = .ok () := by
  have htarget : checkpointTarget path base = .ok path := target_eq_ok.mpr ⟨rfl, h⟩
  simp only [checkpointHandler, createCheckpoint, htarget]
  cases rocksdb path with
  | ok u => exact iff_of_true rfl rfl
  | error text =>
    refine iff_of_false ?_ (fun heq => by cases heq)
    dsimp only
    split <;> exact fun heq => by cases heq

theorem handler_status :
    (checkpointHandler rocksdb base path).1 = .ok ↔ Accepted base path ∧ rocksdb path = .ok () := by
  by_cases h : Accepted base path
  · rw [handler_accepted h, and_iff_right h]
  · obtain ⟨text, hrefused⟩ := handler_refused h
    rw [hrefused]
    exact iff_of_false (fun heq => by cases heq) fun hboth => h hboth.1

end Targets

/-- All accepted paths lead to places at or beneath the configured directory exactly if one is configured. -/
theorem checkpoint_confined_iff (base : String) : (∀ path cwd, Accepted base path → Beneath cwd base path) ↔ base ≠ "" := by
  constructor
  · rintro h rfl
    obtain ⟨names, -, heq⟩ := h "/" [['a']] (by decide)
    have hlength := congrArg List.length heq
    rw [List.length_append] at hlength
    have hroot : (walk [['a']] (components "/".toList)).length = 0 := by decide
    have hbase : (walk [['a']] (components "".toList)).length = 1 := by decide
    omega
  · exact fun hbase path cwd h => h.beneath hbase cwd

/-- With a directory configured, a request is answered with OK exactly if its path is accepted and RocksDB makes the
    checkpoint, and then the path leads to the directory or beneath it. The other paths are bad requests, whatever RocksDB
    would say. If the directory does not climb, every place at it and beneath it can be asked for. -/
theorem checkpoint_places {base : String} (hbase : base ≠ "") (cwd : List Name) :
    (∀ rocksdb path, (checkpointHandler rocksdb base path).1 = .ok ↔ Accepted base path ∧ rocksdb path = .ok ()) ∧
      (∀ path, Accepted base path → Beneath cwd base path) ∧
      (∀ path, ¬Accepted base path → ∃ text, ∀ rocksdb,
        checkpointHandler rocksdb base path = (.badRequest, ⟨false, path, some text⟩)) ∧
      (.parentDir ∉ components base.toList → ∀ names : List Name, (∀ name ∈ names, Proper name) →
        ∃ path, Accepted base path ∧ walk cwd (components path.toList) = walk cwd (components base.toList) ++ names) :=
  ⟨fun _ _ => handler_status, fun _ h => h.beneath hbase cwd, fun _ => handler_refused,
    fun hup _ hproper => exists_accepted hbase hup hproper cwd⟩

/-- A checkpoint beneath the default directory is made where it is asked for. -/
theorem checkpoint_places_local :
    (checkpointHandler (fun _ => .ok ()) "./data/checkpoints" "./data/checkpoints//snap/.").1 = .ok ∧
      Beneath ["srv".toList] "./data/checkpoints" "./data/checkpoints//snap/." ∧
      ∃ path, Accepted "./data/checkpoints" path ∧
        walk ["srv".toList] (components path.toList) = ["srv", "data", "checkpoints", "snap"].map String.toList := by
  obtain ⟨hok, hbeneath, -, hall⟩ :=
    checkpoint_places (by decide : "./data/checkpoints" ≠ "") ["srv".toList]
  have haccepted : Accepted "./data/checkpoints" "./data/checkpoints//snap/." := by decide
  obtain ⟨path, hpath, hwalk⟩ := hall (by decide) ["snap".toList] (by simp [Proper])
  exact ⟨(hok _ _).mpr ⟨haccepted, rfl⟩, hbeneath _ haccepted, path, hpath, hwalk.trans (by decide)⟩

end RocksQueue
