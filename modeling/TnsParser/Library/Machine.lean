import Mathlib.Data.List.Basic

-- A machine takes an input in a state and gives the next state and an output. An input that is not
-- possible in a state gives `none`.
abbrev Machine (σ ι ω : Type*) := σ → ι → Option (σ × ω)

namespace Machine

variable {σ σ' ι ω : Type*} {m : Machine σ ι ω} {m' : Machine σ' ι ω} {P : σ → ι → Prop}
  {P' : σ' → ι → Prop} {s s₁ s₂ : σ} {tr : List (ι × ω)}

-- `m.Steps P s tr s'` is a run of `m` from `s` to `s'` with trace `tr`, in which every step meets
-- `P` in the state it starts from.
inductive Steps (m : Machine σ ι ω) (P : σ → ι → Prop) (s : σ) : List (ι × ω) → σ → Prop
  | refl : Steps m P s [] s
  | snoc {tr s₁ s₂ i o} :
      Steps m P s tr s₁ → P s₁ i → m s₁ i = some (s₂, o) → Steps m P s (tr ++ [(i, o)]) s₂

-- The step condition of a run that may take every step.
abbrev Free : σ → ι → Prop := fun _ _ => True

namespace Steps

-- What holds at the start and is kept by every step holds at the end of every run. The invariant
-- may speak about the trace so far.
theorem invariant (Inv : List (ι × ω) → σ → Prop) (init : Inv [] s)
    (step : ∀ {tr s₁ i s₂ o}, Inv tr s₁ → P s₁ i → m s₁ i = some (s₂, o) →
      Inv (tr ++ [(i, o)]) s₂)
    (e : m.Steps P s tr s₁) : Inv tr s₁ := by
  induction e
  case refl            => exact init
  case snoc _ hp hm hi => exact step hi hp hm

-- The form of `invariant` for a property of the state alone.
theorem preserves (Inv : σ → Prop) (init : Inv s)
    (step : ∀ {s₁ i s₂ o}, Inv s₁ → P s₁ i → m s₁ i = some (s₂, o) → Inv s₂)
    (e : m.Steps P s tr s₁) : Inv s₁ :=
  e.invariant (fun _ => Inv) init step

-- Forward simulation: if every step of `m` is matched by a step of `m'` on the same input with the
-- same output, then every run of `m` is matched by a run of `m'` with the same trace.
theorem simulation (R : σ → σ' → Prop) {a : σ'} (init : R s a)
    (step : ∀ {s₁ a₁ i s₂ o}, R s₁ a₁ → P s₁ i → m s₁ i = some (s₂, o) →
      ∃ a₂, P' a₁ i ∧ m' a₁ i = some (a₂, o) ∧ R s₂ a₂)
    (e : m.Steps P s tr s₁) : ∃ a₁, m'.Steps P' a tr a₁ ∧ R s₁ a₁ := by
  induction e
  case refl => exact ⟨a, .refl, init⟩
  case snoc _ hp hm hi =>
    have ⟨_, e', hr⟩ := hi
    have ⟨a₂, hp', hm', hr'⟩ := step hr hp hm
    exact ⟨a₂, e'.snoc hp' hm', hr'⟩

-- A run that goes on until nothing is left to do: `rank` bounds the steps that are left. When there is a step
-- that lowers it wherever it is not zero, a run goes on to where it is.
theorem exhaust (Inv : List (ι × ω) → σ → Prop) (rank : σ → Nat)
    (step : ∀ {tr s₁}, Inv tr s₁ → rank s₁ ≠ 0 →
      ∃ i s₂ o, P s₁ i ∧ m s₁ i = some (s₂, o) ∧ Inv (tr ++ [(i, o)]) s₂ ∧ rank s₂ < rank s₁)
    (init : Inv [] s) :
    ∃ tr s₁, m.Steps P s tr s₁ ∧ tr.length ≤ rank s ∧ rank s₁ = 0 ∧ Inv tr s₁ := by
  have goes_on {k : Nat} : ∀ tr s₁, m.Steps P s tr s₁ → Inv tr s₁ → tr.length + rank s₁ ≤ rank s →
      rank s₁ = k → ∃ tr s₁, m.Steps P s tr s₁ ∧ tr.length ≤ rank s ∧ rank s₁ = 0 ∧ Inv tr s₁ := by
    induction k using Nat.strongRecOn
    case ind k hi =>
      intro tr s₁ e hinv hle hk
      by_cases hz : rank s₁ = 0
      case pos => exact ⟨tr, s₁, e, by omega, hz, hinv⟩
      case neg =>
        obtain ⟨i, s₂, o, hp, hm, hinv', hlt⟩ := step hinv hz
        exact hi (rank s₂) (hk ▸ hlt) _ s₂ (e.snoc hp hm) hinv'
          (by rw [List.length_append, List.length_singleton]; omega) rfl
  exact goes_on [] s .refl init (by simp) rfl

end Steps
end Machine
