import Mathlib.Data.DFinsupp.WellFounded
import RocksQueue.Lib.Interleaving

/-! # Calls that end

Where every step of a thread lowers the rank of its frame, a pool that no call enters any more comes to rest. Where,
moreover, some thread can step as long as a call is not done, all calls are done by then. -/

namespace Interleaving

variable {σ τ κ α ρ : Type} {S : System σ τ κ α} {ok : Config σ τ → Label κ α → Prop} {c c' : Config σ τ}

/-- One of the threads takes a step that satisfies `ok`. -/
def System.Advances (S : System σ τ κ α) (ok : Config σ τ → Label κ α → Prop) (c c' : Config σ τ) : Prop :=
  ∃ i a, ok c (.run i a) ∧ S.next c (.run i a) = some c'

/-- Each step of a thread lowers the rank of its frame. -/
def System.Descends [Preorder ρ] (S : System σ τ κ α) (ok : Config σ τ → Label κ α → Prop) (rank : τ → ρ) : Prop :=
  ∀ {c : Config σ τ} {i : Nat} {f : τ} {a : α} {s : σ} {f' : τ}, ok c (.run i a) → c.threads[i]? = some f →
    S.step c.shared i f a = some (s, f') → rank f' < rank f

/-- There is no infinite sequence of steps. -/
theorem System.Descends.acc [Preorder ρ] [WellFoundedLT ρ] {rank : τ → ρ} (h : S.Descends ok rank) (c : Config σ τ) :
    Acc (fun c'' c' => S.Advances ok c' c'') c := by
  generalize hn : c.threads.length = n
  let ranks (c : Config σ τ) : Fin n → WithBot ρ := fun j => c.threads[j.val]?.elim ⊥ fun f => rank f
  induction hm : ranks c using WellFoundedLT.induction generalizing c with
  | ind m ih =>
    refine ⟨_, fun c' hstep => ?_⟩
    obtain ⟨i, a, hok, hnext⟩ := hstep
    obtain ⟨f, s, f', hf, hs, rfl⟩ := System.next_run_inv hnext
    have hlt : i < n := hn ▸ (List.getElem?_eq_some_iff.mp hf).1
    have hlower : rank f' < rank f := h hok hf hs
    refine ih (ranks ⟨s, c.threads.set i f'⟩) ?_ _ (by simpa using hn) rfl
    rw [← hm, Pi.lt_def]
    have hnew : (c.threads.set i f')[i]? = some f' := List.getElem?_set_self (by omega)
    refine ⟨fun j => ?_, ⟨i, hlt⟩, ?_⟩
    · by_cases hij : i = j.val
      · have hle : (rank f' : WithBot ρ) ≤ rank f := WithBot.coe_le_coe.mpr hlower.le
        simpa only [ranks, ← hij, hf, hnew, Option.elim_some] using hle
      · simp only [ranks, List.getElem?_set_ne hij]
        exact le_refl _
    · have hlt' : (rank f' : WithBot ρ) < rank f := WithBot.coe_lt_coe.mpr hlower
      simpa only [ranks, hf, hnew, Option.elim_some] using hlt'

/-- A pool that comes to rest, and does so only when its calls are done, gets there. -/
theorem System.exists_rest {P : Config σ τ → Prop} (hacc : Acc (fun c'' c' => S.Advances ok c' c'') c) (hc : P c)
    (hnext : ∀ {c c'}, P c → S.Advances ok c c' → P c') :
    ∃ c', Relation.ReflTransGen (S.Advances ok) c c' ∧ P c' ∧ ∀ c'', ¬S.Advances ok c' c'' := by
  induction hacc with
  | intro c _ ih =>
    by_cases hmore : ∃ c', S.Advances ok c c'
    · obtain ⟨c', hstep⟩ := hmore
      obtain ⟨c'', hrun, hP, hrest⟩ := ih c' hstep (hnext hc hstep)
      exact ⟨c'', .head hstep hrun, hP, hrest⟩
    · exact ⟨c, .refl, hc, not_exists.mp hmore⟩

end Interleaving
