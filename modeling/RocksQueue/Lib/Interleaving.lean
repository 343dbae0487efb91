import RocksQueue.Lib.Runs
import Mathlib.Data.List.Basic

/-! # Interleaved threads

A pool of threads over a shared state. Each thread runs one call: its frame holds the local variables
and says which atomic step comes next. A label picks the thread that takes its next step, begins a new
call, or lets the environment act, so a list of labels is one interleaving.

`Outline` is the proof rule for a property of every interleaving: a global assertion on the shared
state, a local assertion on each frame, and an assertion on pairs of frames, each kept by the thread
that steps and undisturbed at the others. -/

namespace Interleaving

/-- What the threads of a pool do. -/
structure System (σ τ κ α : Type) where
  /-- The first frame of a call. -/
  start : κ → τ
  /-- The next atomic step of thread `i`, given what it reads from outside the pool. -/
  step : σ → Nat → τ → α → Option (σ × τ)
  /-- What others do to the shared state. -/
  env : σ → σ

structure Config (σ τ : Type) where
  shared : σ
  threads : List τ

inductive Label (κ α : Type) where
  | call (k : κ)
  | run (i : Nat) (input : α)
  | env

variable {σ τ κ α : Type}

namespace System

def next (S : System σ τ κ α) (c : Config σ τ) : Label κ α → Option (Config σ τ)
  | .call k => some ⟨c.shared, c.threads ++ [S.start k]⟩
  | .run i a =>
    match c.threads[i]? with
    | none => none
    | some f =>
      match S.step c.shared i f a with
      | none => none
      | some (s, f') => some ⟨s, c.threads.set i f'⟩
  | .env => some ⟨S.env c.shared, c.threads⟩

/-- Follow an interleaving; `none` when a label cannot be followed. -/
abbrev exec (S : System σ τ κ α) (c : Config σ τ) (ls : List (Label κ α)) : Option (Config σ τ) :=
  Runs.exec S.next c ls

/-- Follow an interleaving whose steps all pass the test `ok`. -/
abbrev execWhile (S : System σ τ κ α) (ok : Config σ τ → Label κ α → Bool) (c : Config σ τ)
    (ls : List (Label κ α)) : Option (Config σ τ) :=
  Runs.execWhile S.next ok c ls

/-- `c` is reached from `c₀` by steps that all satisfy `ok`, a condition on the configuration before
    the step and its label. -/
abbrev Run (S : System σ τ κ α) (ok : Config σ τ → Label κ α → Prop) (c₀ c : Config σ τ) : Prop :=
  Runs.Run S.next ok c₀ c

variable {S : System σ τ κ α} {ok : Config σ τ → Label κ α → Prop} {c c' c'' : Config σ τ}

theorem next_run_inv {i : Nat} {a : α} (h : S.next c (.run i a) = some c') :
    ∃ f s f', c.threads[i]? = some f ∧ S.step c.shared i f a = some (s, f') ∧ c' = ⟨s, c.threads.set i f'⟩ := by
  simp only [next] at h
  split at h
  · cases h
  · rename_i f hf
    split at h
    · cases h
    · rename_i s f' hs
      exact ⟨f, s, f', hf, hs, (Option.some.inj h).symm⟩

/-! ### One thread alone -/

/-- Thread `i` takes some steps, and no one else does. -/
inductive Solo (S : System σ τ κ α) (i : Nat) : σ → τ → σ → τ → Prop where
  | refl {s : σ} {f : τ} : Solo S i s f s f
  | step {s s' s'' : σ} {f f' f'' : τ} {a : α} :
      S.step s i f a = some (s', f') → Solo S i s' f' s'' f'' → Solo S i s f s'' f''

variable {i : Nat} {s s' s'' : σ} {f f' f'' : τ}

theorem Solo.trans (h₁ : Solo S i s f s' f') (h₂ : Solo S i s' f' s'' f'') : Solo S i s f s'' f'' := by
  induction h₁ with
  | refl => exact h₂
  | step hs _ ih => exact .step hs (ih h₂)

/-- A thread may run alone from any configuration in which it is about to take these steps. -/
theorem Solo.run (h : Solo S i s f s' f') (hok : ∀ c a, ok c (.run i a)) {ts : List τ} (hf : ts[i]? = some f) :
    S.Run ok ⟨s, ts⟩ ⟨s', ts.set i f'⟩ := by
  induction h generalizing ts with
  | refl =>
    obtain ⟨hlen, rfl⟩ := List.getElem?_eq_some_iff.mp hf
    rw [List.set_getElem_self hlen]
    exact .refl
  | @step s₀ s₁ s₂ f₀ f₁ f₂ a hs _ ih =>
    have hlen : i < ts.length := (List.getElem?_eq_some_iff.mp hf).1
    have hnext : S.next ⟨s₀, ts⟩ (.run i a) = some ⟨s₁, ts.set i f₁⟩ := by
      simp only [next, hf, hs]
    have hself : (ts.set i f₁)[i]? = some f₁ := by simp [hlen]
    have hrest := ih hself
    rw [List.set_set] at hrest
    exact Runs.Run.head (hok _ _) hnext hrest

/-- A call begins and runs alone. -/
theorem Solo.call {k : κ} {ts : List τ} (hrun : S.Run ok c ⟨s, ts⟩) (hcall : ok ⟨s, ts⟩ (.call k))
    (h : Solo S ts.length s (S.start k) s' f') (hok : ∀ c a, ok c (.run ts.length a)) :
    S.Run ok c ⟨s', ts ++ [f']⟩ := by
  have hself : (ts ++ [S.start k])[ts.length]? = some (S.start k) := by simp
  have hsolo := h.run hok hself
  rw [List.set_append_right _ _ (Nat.le_refl _), Nat.sub_self, List.set_cons_zero] at hsolo
  exact Runs.Run.trans (hrun.step hcall rfl) hsolo

end System

/-! ## Proof outlines -/

section Outlines

/-- The assertions of a proof outline hold in `c`: `G` of the shared state, `A` of each thread's frame,
    and `Sep` of the frames of any two threads. -/
structure Holds (G : σ → Prop) (A : σ → Nat → τ → Prop) (Sep : τ → τ → Prop) (c : Config σ τ) : Prop where
  shared : G c.shared
  frames : ∀ {i : Nat} {f : τ}, c.threads[i]? = some f → A c.shared i f
  apart : ∀ {i j : Nat} {f g : τ}, i ≠ j → c.threads[i]? = some f → c.threads[j]? = some g → Sep f g

/-- What each step has to show: the thread that steps keeps `G` and reaches `A` of its next frame, and
    every other thread's assertion is undisturbed. -/
structure Outline (S : System σ τ κ α) (ok : Config σ τ → Label κ α → Prop) (G : σ → Prop)
    (A : σ → Nat → τ → Prop) (Sep : τ → τ → Prop) : Prop where
  call : ∀ {c : Config σ τ} {k : κ}, Holds G A Sep c → ok c (.call k) → A c.shared c.threads.length (S.start k)
  callApart : ∀ {c : Config σ τ} {k : κ} {f : τ}, ok c (.call k) → Sep f (S.start k) ∧ Sep (S.start k) f
  env : ∀ {c : Config σ τ}, Holds G A Sep c → ok c .env →
    G (S.env c.shared) ∧ ∀ {i : Nat} {f : τ}, A c.shared i f → A (S.env c.shared) i f
  own : ∀ {c : Config σ τ} {i : Nat} {f : τ} {a : α} {s : σ} {f' : τ}, Holds G A Sep c → ok c (.run i a) →
    c.threads[i]? = some f → S.step c.shared i f a = some (s, f') → G s ∧ A s i f'
  others : ∀ {c : Config σ τ} {i : Nat} {f : τ} {a : α} {s : σ} {f' : τ} {j : Nat} {g : τ}, Holds G A Sep c →
    ok c (.run i a) → c.threads[i]? = some f → S.step c.shared i f a = some (s, f') → i ≠ j →
      c.threads[j]? = some g → A s j g ∧ Sep f' g ∧ Sep g f'

variable {S : System σ τ κ α} {ok : Config σ τ → Label κ α → Prop} {G : σ → Prop} {A : σ → Nat → τ → Prop}
  {Sep : τ → τ → Prop} {c c' : Config σ τ}

/-- The frame of a thread after one thread took a step. -/
theorem getElem?_set_cases {ts : List τ} {i j : Nat} {f' g : τ} (h : (ts.set i f')[j]? = some g) :
    (j = i ∧ g = f') ∨ (j ≠ i ∧ ts[j]? = some g) := by
  rw [List.getElem?_set] at h
  split at h
  · rename_i hij
    split at h
    · exact Or.inl ⟨hij.symm, (Option.some.inj h).symm⟩
    · cases h
  · rename_i hij
    exact Or.inr ⟨Ne.symm hij, h⟩

/-- The frame of a thread after a call began. -/
theorem getElem?_append_cases {ts : List τ} {j : Nat} {f' g : τ} (h : (ts ++ [f'])[j]? = some g) :
    (j = ts.length ∧ g = f') ∨ ts[j]? = some g := by
  rw [List.getElem?_append] at h
  split at h
  · exact Or.inr h
  · rename_i hge
    rw [List.getElem?_singleton] at h
    split at h
    · rename_i h0
      exact Or.inl ⟨by omega, (Option.some.inj h).symm⟩
    · cases h

theorem Outline.next (O : Outline S ok G A Sep) {l : Label κ α} (h : Holds G A Sep c) (hok : ok c l)
    (hn : S.next c l = some c') : Holds G A Sep c' := by
  cases l with
  | call k =>
    obtain rfl := Option.some.inj hn
    refine ⟨h.shared, fun hf => ?_, fun hij hf hg => ?_⟩
    · rcases getElem?_append_cases hf with ⟨rfl, rfl⟩ | hf
      · exact O.call h hok
      · exact h.frames hf
    · rcases getElem?_append_cases hf with ⟨rfl, rfl⟩ | hf
      · rcases getElem?_append_cases hg with ⟨rfl, rfl⟩ | hg
        · exact absurd rfl hij
        · exact (O.callApart hok).2
      · rcases getElem?_append_cases hg with ⟨rfl, rfl⟩ | hg
        · exact (O.callApart hok).1
        · exact h.apart hij hf hg
  | env =>
    obtain rfl := Option.some.inj hn
    exact ⟨(O.env h hok).1, fun hf => (O.env h hok).2 (h.frames hf), h.apart⟩
  | run i a =>
    obtain ⟨f, s, f', hf, hs, rfl⟩ := System.next_run_inv hn
    -- The thread that steps keeps its own assertion, and the others keep theirs.
    have hown := O.own h hok hf hs
    refine ⟨hown.1, fun hg => ?_, fun hjk hg hg' => ?_⟩
    · rcases getElem?_set_cases hg with ⟨rfl, rfl⟩ | ⟨hne, hg₀⟩
      · exact hown.2
      · exact (O.others h hok hf hs (Ne.symm hne) hg₀).1
    · rcases getElem?_set_cases hg with ⟨rfl, rfl⟩ | ⟨hne, hg₀⟩
      · rcases getElem?_set_cases hg' with ⟨rfl, rfl⟩ | ⟨hne', hg₁⟩
        · exact absurd rfl hjk
        · exact (O.others h hok hf hs (Ne.symm hne') hg₁).2.1
      · rcases getElem?_set_cases hg' with ⟨rfl, rfl⟩ | ⟨hne', hg₁⟩
        · exact (O.others h hok hf hs (Ne.symm hne) hg₀).2.2
        · exact h.apart hjk hg₀ hg₁

/-- The assertions of an outline hold throughout every run. -/
theorem Outline.run (O : Outline S ok G A Sep) (h : S.Run ok c c') (h₀ : Holds G A Sep c) :
    Holds G A Sep c' :=
  h.invariant O.next h₀

/-- What an outline shows may be taken for granted at every step of a run. -/
theorem Outline.strengthen (O : Outline S ok G A Sep) (h : S.Run ok c c') (h₀ : Holds G A Sep c) :
    S.Run (fun c l => ok c l ∧ Holds G A Sep c) c c' :=
  Runs.Run.strengthen O.next h h₀

/-- The start of a pool without threads. -/
theorem Holds.start {s : σ} (h : G s) : Holds G A Sep ⟨s, []⟩ :=
  ⟨h, fun hf => by simp at hf, fun _ hf => by simp at hf⟩

end Outlines

end Interleaving
