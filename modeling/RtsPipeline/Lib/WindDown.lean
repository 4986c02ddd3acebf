/-
  Systems that come to an end.

  Among the steps of a system some are its own, made by its parties, and some come from outside.  A
  measure that no step raises and every own step lowers bounds the own steps of every run; if an own
  step is also possible as long as the end has not come, the parties can neither go on for ever nor
  wait for one another: whatever the schedule, they come to the end.

  1. `moves` — how many own steps a run makes.
  2. `WindsDown` — the measure, and that nobody is stuck.
  3. `WindsDown.ends` — a run with enough own steps is at the end.
-/
import RtsPipeline.Lib.Run

namespace RtsPipeline.Lib

universe u v

variable {σ : Type u} {ℓ : Type v} {step : σ → ℓ → Option σ}

/-- How many own steps a run makes. -/
def moves (step : σ → ℓ → Option σ) (own : σ → ℓ → Bool) (s : σ) (ls : List ℓ) : Nat :=
  (observe step (fun s l => if own s l then [l] else []) s ls).length

theorem moves_cons {own : σ → ℓ → Bool} {s t : σ} {l : ℓ} {ls : List ℓ} (h : step s l = some t) :
    moves step own s (l :: ls) = (own s l).toNat + moves step own t ls := by
  rw [moves, observe_cons h, List.length_append]
  cases own s l with
  | true => rfl
  | false => rfl

/-- From the states that meet `I`, every own step lowers `left`, no step raises it, and until `done`
    an own step is possible. -/
structure WindsDown (step : σ → ℓ → Option σ) (I : σ → Prop) (own : σ → ℓ → Bool)
    (left : σ → Nat) (done : σ → Prop) : Prop where
  kept : ∀ s l s', I s → step s l = some s' → I s'
  nearer : ∀ s l s', I s → step s l = some s' → left s' + (own s l).toNat ≤ left s
  able : ∀ s, I s → done s ∨ ∃ l s', own s l = true ∧ step s l = some s'

namespace WindsDown

variable {I : σ → Prop} {own : σ → ℓ → Bool} {left : σ → Nat} {done : σ → Prop}

/-- **Run lemma**: the own steps of a run are at most as many as were left. -/
theorem bounded (h : WindsDown step I own left done) :
    ∀ (ls : List ℓ) (s s' : σ), I s → run step s ls = some s' →
    I s' ∧ left s' + moves step own s ls ≤ left s := by
  intro ls
  induction ls with
  | nil =>
    intro s s' hI hr
    obtain rfl := Option.some.inj hr
    exact ⟨hI, Nat.le_refl _⟩
  | cons l ls ih =>
    intro s s' hI hr
    obtain ⟨t, ht, hrest⟩ := run_cons_some.mp hr
    obtain ⟨hI', hle⟩ := ih t s' (h.kept s l t hI ht) hrest
    have := h.nearer s l t hI ht
    rw [moves_cons ht]
    exact ⟨hI', by omega⟩

/-- When nothing is left, it is done. -/
theorem done_of_left (h : WindsDown step I own left done) {s : σ} (hI : I s) (h0 : left s = 0) :
    done s := by
  rcases h.able s hI with hd | ⟨l, s', hown, hs⟩
  · exact hd
  · have := h.nearer s l s' hI hs
    rw [hown, Bool.toNat_true] at this
    omega

/-- **Termination and no deadlock**: in every run fewer own steps are made than were left and one
    more is possible, or the end has come. -/
theorem ends (h : WindsDown step I own left done) {s s' : σ} {ls : List ℓ} (hI : I s)
    (hr : run step s ls = some s') :
    done s' ∨ moves step own s ls < left s ∧
      ∃ l s'', own s' l = true ∧ step s' l = some s'' := by
  obtain ⟨hI', hle⟩ := h.bounded ls s s' hI hr
  rcases h.able s' hI' with hd | hable
  · exact Or.inl hd
  · by_cases h0 : left s' = 0
    · exact Or.inl (h.done_of_left hI' h0)
    · exact Or.inr ⟨by omega, hable⟩

end WindsDown

end RtsPipeline.Lib
