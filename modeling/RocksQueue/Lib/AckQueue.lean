import Mathlib.Data.List.Nodup
import RocksQueue.Lib.Runs

/-! # Queues with acknowledgements

A queue as its users see it. Entries go in at the back, each under a handle, and are taken from the front; what is
taken stays with its taker until it is settled. What is shed from the front is given up. Each of these is one step.

A run from the empty queue takes the handles in the order in which they entered (`fifo`), so a handle that entered once
leaves at most once (`exclusive`). -/

/-- `entered` and `left` hold the handles that went in and came out so far. -/
structure AckQueue (κ α : Type) where
  waiting : List (κ × α)
  taken : κ → Option α
  entered : List κ
  left : List κ

namespace AckQueue

variable {κ α : Type} [DecidableEq κ]

inductive Action (κ α : Type) where
  | enter (entries : List (κ × α))
  /-- Take the first `n`, and mark each. -/
  | take (n : Nat) (mark : α → α)
  | shed (n : Nat)
  | settle (handles : List κ)

def empty : AckQueue κ α := ⟨[], fun _ => none, [], []⟩

/-- The first entry under a handle. -/
def lookup (entries : List (κ × α)) (k : κ) : Option α := (entries.find? fun e => e.1 = k).map Prod.snd

def next (s : AckQueue κ α) : Action κ α → Option (AckQueue κ α)
  | .enter entries => some { s with waiting := s.waiting ++ entries, entered := s.entered ++ entries.map Prod.fst }
  | .take n mark =>
    some
      { s with
        waiting := s.waiting.drop n
        taken := fun k => ((lookup (s.waiting.take n) k).map mark).or (s.taken k)
        left := s.left ++ (s.waiting.take n).map Prod.fst }
  | .shed n =>
    some { s with waiting := s.waiting.drop n, left := s.left ++ (s.waiting.take n).map Prod.fst }
  | .settle handles => some { s with taken := fun k => if k ∈ handles then none else s.taken k }

/-- A run of the queue from its beginning. -/
def Reached (s : AckQueue κ α) : Prop := Runs.Run next (fun _ _ => True) empty s

variable {s s' : AckQueue κ α} {a : Action κ α} {entries : List (κ × α)} {k : κ} {v : α}

omit [DecidableEq κ] in
theorem append_take_drop (left : List κ) (n : Nat) (entries : List (κ × α)) :
    left ++ (entries.take n).map Prod.fst ++ (entries.drop n).map Prod.fst = left ++ entries.map Prod.fst := by
  rw [List.append_assoc, ← List.map_append, List.take_append_drop]

theorem mem_of_lookup (h : lookup entries k = some v) : (k, v) ∈ entries := by
  obtain ⟨e, he, rfl⟩ := Option.map_eq_some_iff.mp h
  obtain rfl : e.1 = k := by simpa using List.find?_some he
  exact List.mem_of_find?_eq_some he

theorem lookup_of_mem (hnodup : (entries.map Prod.fst).Nodup) (h : (k, v) ∈ entries) : lookup entries k = some v := by
  have hsome : (entries.find? fun e => e.1 = k).isSome := List.find?_isSome.mpr ⟨_, h, by simp⟩
  obtain ⟨e, he⟩ := Option.isSome_iff_exists.mp hsome
  have hkey : e.1 = k := by simpa using List.find?_some he
  obtain rfl : e = (k, v) := List.inj_on_of_nodup_map hnodup (List.mem_of_find?_eq_some he) h hkey
  rw [lookup, he]
  rfl

/-- What came out, and what waits behind it, is what went in. -/
theorem fifo_next (h : s.left ++ s.waiting.map Prod.fst = s.entered) (hn : s.next a = some s') :
    s'.left ++ s'.waiting.map Prod.fst = s'.entered := by
  cases a with
  | enter entries =>
    cases hn
    rw [List.map_append, ← List.append_assoc, h]
  | take n mark =>
    cases hn
    rw [append_take_drop, h]
  | shed n =>
    cases hn
    rw [append_take_drop, h]
  | settle handles =>
    cases hn
    exact h

theorem fifo (h : s.Reached) : s.left ++ s.waiting.map Prod.fst = s.entered :=
  Runs.Run.invariant (I := fun s => s.left ++ s.waiting.map Prod.fst = s.entered) (fun hI _ hn => fifo_next hI hn) h rfl

/-- A handle that entered once is out at most once, and does not wait any more then. -/
theorem exclusive (h : s.Reached) (hnodup : s.entered.Nodup) :
    s.left.Nodup ∧ ∀ k ∈ s.left, k ∉ s.waiting.map Prod.fst := by
  rw [← fifo h] at hnodup
  obtain ⟨hleft, -, hapart⟩ := List.nodup_append.mp hnodup
  exact ⟨hleft, fun k hk hwaits => hapart k hk k hwaits rfl⟩

end AckQueue
