import TnsParser.Library.Machine
import Mathlib.Logic.Function.Basic

-- Threads that share an object under one lock. Each section of the object's code that runs with the
-- lock held is one step. A section may end by waiting on the condition variable: the thread is then
-- blocked, and continues with the section that follows the wait at any later moment (woken by a
-- signal or spuriously, and overtaken by any number of other sections). `ε` are the operations that a
-- thread may start, `ρ` the points where it may be blocked.
namespace Monitor

variable {τ σ σ' ε ρ ω : Type*} [DecidableEq τ]

structure State (τ σ ρ : Type*) where
  shared : σ
  resume : τ → Option ρ

-- No thread is blocked.
def State.init (s : σ) : State τ σ ρ where
  shared := s
  resume := fun _ => none

inductive Action (τ ε : Type*)
  | call (t : τ) (op : ε)
  | wake (t : τ)

-- The section that an action runs, when the thread is in a position to take the action.
def State.section? (s : State τ σ ρ) : Action τ ε → Option (τ × (ε ⊕ ρ))
  | .call t op => if (s.resume t).isNone then some (t, .inl op) else none
  | .wake t    => (s.resume t).map (t, .inr ·)

-- `sec t` are the locked sections that thread `t` may run, and `wait` gives the point where the thread
-- is blocked for those outputs that mean that the section ended in a wait.
def threads (sec : τ → Machine σ (ε ⊕ ρ) ω) (wait : ε ⊕ ρ → ω → Option ρ) :
    Machine (State τ σ ρ) (Action τ ε) ω :=
  fun s a =>
    (s.section? a).bind fun (t, i) =>
      (sec t s.shared i).map fun (s', o) => (⟨s', Function.update s.resume t (wait i o)⟩, o)

variable {sec : τ → Machine σ (ε ⊕ ρ) ω} {wait : ε ⊕ ρ → ω → Option ρ} {s s' : State τ σ ρ}
  {a : Action τ ε} {o : ω}

-- Everything a step of the threads can do: it is one section of one thread.
theorem threads_eq_some (h : threads sec wait s a = some (s', o)) :
    ∃ t i, s.section? a = some (t, i) ∧ sec t s.shared i = some (s'.shared, o) ∧
      s'.resume = Function.update s.resume t (wait i o) := by
  simp only [threads, Option.bind_eq_some_iff, Option.map_eq_some_iff, Prod.mk.injEq] at h
  have ⟨⟨t, i⟩, hs, ⟨_, _⟩, hm, hs', ho⟩ := h
  subst hs' ho
  exact ⟨t, i, hs, hm, rfl⟩

theorem threads_of_section {t : τ} {i : ε ⊕ ρ} {s₁ : σ} (h : s.section? a = some (t, i))
    (hm : sec t s.shared i = some (s₁, o)) :
    threads sec wait s a = some (⟨s₁, Function.update s.resume t (wait i o)⟩, o) := by
  simp [threads, h, hm]

-- A property of the object that every section keeps is kept in every run of the threads.
theorem preserves {P : State τ σ ρ → Action τ ε → Prop} (Inv : σ → Prop) {s₀ : σ}
    {tr : List (Action τ ε × ω)} (init : Inv s₀)
    (step : ∀ {s : State τ σ ρ} {a t i s' o}, Inv s.shared → P s a → s.section? a = some (t, i) →
      sec t s.shared i = some (s', o) → Inv s')
    (e : (threads sec wait).Steps P (.init s₀) tr s) : Inv s.shared := by
  refine e.preserves (fun s => Inv s.shared) init ?_
  intro _ _ _ _ hi hp hm
  have ⟨_, _, hs, hm, _⟩ := threads_eq_some hm
  exact step hi hp hs hm

-- A simulation between two objects, section by section, is one between the threads that use them.
theorem simulation (sec' : τ → Machine σ' (ε ⊕ ρ) ω) (R : σ → σ' → Prop) {s₀ : σ} {a₀ : σ'}
    {P : State τ σ ρ → Action τ ε → Prop} {tr : List (Action τ ε × ω)} (init : R s₀ a₀)
    (step : ∀ {s a t i s' o}, R s a → sec t s i = some (s', o) →
      ∃ a', sec' t a i = some (a', o) ∧ R s' a')
    (e : (threads sec wait).Steps P (.init s₀) tr s) :
    ∃ s', (threads sec' wait).Steps Machine.Free (.init a₀) tr s' ∧ R s.shared s'.shared := by
  let Rel : State τ σ ρ → State τ σ' ρ → Prop := fun s a => R s.shared a.shared ∧ s.resume = a.resume
  have ⟨s', e', hr, _⟩ : ∃ s', (threads sec' wait).Steps Machine.Free (.init a₀) tr s' ∧ Rel s s' :=
    e.simulation Rel ⟨init, rfl⟩ <| by
      intro s₁ a₁ act s₂ o ⟨hr, hw⟩ _ hm
      have ⟨t, i, hs, hm, hres⟩ := threads_eq_some hm
      have ⟨a', hm', hr'⟩ := step hr hm
      have hs' : a₁.section? act = some (t, i) := by
        cases act <;> simpa [State.section?, ← hw] using hs
      exact ⟨_, trivial, threads_of_section hs' hm', hr', by simp [hres, hw]⟩
  exact ⟨s', e', hr⟩

end Monitor
