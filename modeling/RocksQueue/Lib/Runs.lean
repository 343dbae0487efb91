import Mathlib.Init

/-! # Runs of a labelled machine

A machine is its next-state function: what a label leads to from a state, or `none` when the state does
not allow it. A run is a sequence of steps that all satisfy a condition on the state before the step and
its label; what holds at the start and is kept by every such step holds throughout (`Run.invariant`).
A run on given labels is computed by `exec`. -/

namespace Runs

variable {σ α : Type}

/-- `c` is reached from `c₀` by steps that all satisfy `ok`. -/
inductive Run (next : σ → α → Option σ) (ok : σ → α → Prop) (c₀ : σ) : σ → Prop where
  | refl : Run next ok c₀ c₀
  | step {c c' : σ} {l : α} : Run next ok c₀ c → ok c l → next c l = some c' → Run next ok c₀ c'

/-- Follow the labels; `none` when one of them cannot be followed. -/
def exec (next : σ → α → Option σ) (c : σ) : List α → Option σ
  | [] => some c
  | l :: ls =>
    match next c l with
    | none => none
    | some c' => exec next c' ls

/-- Follow labels that all pass the test `ok`; `none` when one does not pass or cannot be followed. -/
def execWhile (next : σ → α → Option σ) (ok : σ → α → Bool) (c : σ) : List α → Option σ
  | [] => some c
  | l :: ls =>
    if ok c l then
      match next c l with
      | none => none
      | some c' => execWhile next ok c' ls
    else none

/-- Every state along the labels satisfies `P`. -/
def Always (next : σ → α → Option σ) (P : σ → Prop) (c : σ) : List α → Prop
  | [] => P c
  | l :: ls => P c ∧ ∀ c', next c l = some c' → Always next P c' ls

variable {next : σ → α → Option σ} {ok : σ → α → Prop} {c c' c'' : σ}

theorem Run.trans (h₁ : Run next ok c c') (h₂ : Run next ok c' c'') : Run next ok c c'' := by
  induction h₂ with
  | refl => exact h₁
  | step _ hok hn ih => exact ih.step hok hn

theorem Run.mono {ok' : σ → α → Prop} (himp : ∀ c l, ok c l → ok' c l) (h : Run next ok c c') :
    Run next ok' c c' := by
  induction h with
  | refl => exact .refl
  | step _ hok hn ih => exact ih.step (himp _ _ hok) hn

theorem Run.head {l : α} (hok : ok c l) (hn : next c l = some c') (h : Run next ok c' c'') : Run next ok c c'' :=
  Run.trans (.step .refl hok hn) h

/-- What the steps of a run keep holds at its end. -/
theorem Run.invariant {I : σ → Prop} (hstep : ∀ {c l c'}, I c → ok c l → next c l = some c' → I c')
    (h : Run next ok c c') (h₀ : I c) : I c' := by
  induction h with
  | refl => exact h₀
  | step _ hok hn ih => exact hstep ih hok hn

/-- What the steps of a run keep may be taken for granted at each of them. -/
theorem Run.strengthen {I : σ → Prop} (hstep : ∀ {c l c'}, I c → ok c l → next c l = some c' → I c')
    (h : Run next ok c c') (h₀ : I c) : Run next (fun c l => ok c l ∧ I c) c c' := by
  induction h with
  | refl => exact .refl
  | step hrun hok hn ih => exact ih.step ⟨hok, hrun.invariant hstep h₀⟩ hn

/-- Some run from `c` to `c'` takes a step that satisfies `P`. -/
def Passes (next : σ → α → Option σ) (ok P : σ → α → Prop) (c c' : σ) : Prop :=
  ∃ c₁ l c₂, Run next ok c c₁ ∧ ok c₁ l ∧ P c₁ l ∧ next c₁ l = some c₂ ∧ Run next ok c₂ c'

/-- A run takes a step that satisfies `P`, or all its steps do not. -/
theorem Run.passes_or (P : σ → α → Prop) (h : Run next ok c c') :
    Passes next ok P c c' ∨ Run next (fun c l => ok c l ∧ ¬P c l) c c' := by
  induction h with
  | refl => exact Or.inr .refl
  | @step d d' l hrun hok hn ih =>
    rcases ih with ⟨c₁, l₁, c₂, h₁, hok₁, hP, hn₁, h₂⟩ | hnot
    · exact Or.inl ⟨c₁, l₁, c₂, h₁, hok₁, hP, hn₁, h₂.step hok hn⟩
    · by_cases hP : P d l
      · exact Or.inl ⟨d, l, d', hrun, hok, hP, hn, .refl⟩
      · exact Or.inr (hnot.step ⟨hok, hP⟩ hn)

theorem exec_of_execWhile {test : σ → α → Bool} {ls : List α} (h : execWhile next test c ls = some c') :
    exec next c ls = some c' := by
  induction ls generalizing c with
  | nil => exact h
  | cons l ls ih =>
    simp only [execWhile] at h
    split at h
    · simp only [exec]
      split at h
      · cases h
      · exact ih h
    · cases h

theorem run_of_execWhile_forall {test : σ → α → Bool} {P : α → Prop} {ls : List α}
    (h : execWhile next test c ls = some c') (hall : ∀ l ∈ ls, P l) :
    Run next (fun c l => P l ∧ test c l = true) c c' := by
  induction ls generalizing c with
  | nil =>
    cases h
    exact .refl
  | cons l ls ih =>
    obtain ⟨hl, hls⟩ := List.forall_mem_cons.mp hall
    simp only [execWhile] at h
    split at h
    · rename_i hok
      split at h
      · cases h
      · rename_i d hd
        exact Run.head ⟨hl, hok⟩ hd (ih h hls)
    · cases h

theorem run_of_execWhile {test : σ → α → Bool} {ls : List α} (h : execWhile next test c ls = some c') :
    Run next (fun c l => test c l = true) c c' :=
  (run_of_execWhile_forall (P := fun _ => True) h fun _ _ => trivial).mono fun _ _ hok => hok.2

theorem run_of_exec_forall {P : α → Prop} {ls : List α} (h : exec next c ls = some c') (hall : ∀ l ∈ ls, P l) :
    Run next (fun _ l => P l) c c' := by
  induction ls generalizing c with
  | nil =>
    cases h
    exact .refl
  | cons l ls ih =>
    obtain ⟨hl, hls⟩ := List.forall_mem_cons.mp hall
    simp only [exec] at h
    split at h
    · cases h
    · rename_i d hd
      exact Run.head hl hd (ih h hls)

/-- A log that grows exactly at the steps that fail a test does not grow in a run exactly if all its steps pass. -/
theorem log_grows {β : Type} {log : σ → List β} {test : σ → α → Bool} {I : σ → Prop}
    (hstep : ∀ {c l c'}, I c → next c l = some c' →
      I c' ∧ ∃ more, log c' = log c ++ more ∧ (more = [] ↔ test c l = true))
    {ls : List α} (h : exec next c ls = some c') (h₀ : I c) :
    ∃ more, log c' = log c ++ more ∧ (more = [] ↔ execWhile next test c ls = some c') := by
  induction ls generalizing c with
  | nil =>
    cases h
    exact ⟨[], by simp, by simp [execWhile]⟩
  | cons l ls ih =>
    simp only [exec] at h
    split at h
    · cases h
    · rename_i d hd
      obtain ⟨hI, first, hfirst, hpass⟩ := hstep h₀ hd
      obtain ⟨rest, hrest, hpasses⟩ := ih h hI
      refine ⟨first ++ rest, by rw [hrest, hfirst, List.append_assoc], ?_⟩
      rw [List.append_eq_nil_iff, hpass, hpasses, execWhile]
      split
      · rename_i htest
        simp [htest, hd]
      · rename_i htest
        simp [htest]

theorem Always.head {P : σ → Prop} {ls : List α} (h : Always next P c ls) : P c := by
  cases ls with
  | nil => exact h
  | cons l ls => exact h.1

/-- What consists of a part that is lost exactly at the steps that fail a test, and of a bound that is never regained,
    holds all along exactly if all steps pass and the bound holds at the end. -/
theorem always_iff {I P Q Right : σ → Prop} {B : α → Prop} {test : σ → α → Bool}
    (hright : ∀ {c}, I c → (Right c ↔ P c ∧ Q c))
    (hstep : ∀ {c l c'}, I c → B l → next c l = some c' → I c' ∧ (P c → (P c' ↔ test c l = true)) ∧ (Q c' → Q c))
    {ls : List α} (hall : ∀ l ∈ ls, B l) (h : exec next c ls = some c') (hI : I c) (hP : P c) :
    Always next Right c ls ↔ execWhile next test c ls = some c' ∧ Q c' := by
  induction ls generalizing c with
  | nil =>
    cases h
    simp [Always, execWhile, hright hI, hP]
  | cons l ls ih =>
    obtain ⟨hl, hls⟩ := List.forall_mem_cons.mp hall
    simp only [exec] at h
    split at h
    · cases h
    · rename_i d hd
      obtain ⟨hI', hP', hQ'⟩ := hstep hI hl hd
      simp only [Always, execWhile, hd, Option.some.injEq, forall_eq']
      by_cases htest : test c l = true
      · have hrest := ih hls h hI' ((hP' hP).mpr htest)
        rw [if_pos htest, hrest, hright hI, and_iff_right_iff_imp]
        intro hpassed
        exact ⟨hP, hQ' ((hright hI').mp (hrest.mpr hpassed).head).2⟩
      · rw [if_neg htest]
        constructor
        · rintro ⟨-, hrest⟩
          exact absurd ((hP' hP).mp ((hright hI').mp hrest.head).1) htest
        · rintro ⟨hnone, -⟩
          cases hnone

theorem run_of_exec {ls : List α} (h : exec next c ls = some c') : Run next (fun _ _ => True) c c' :=
  run_of_exec_forall h fun _ _ => trivial

end Runs
