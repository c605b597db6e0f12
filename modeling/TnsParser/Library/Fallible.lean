import Mathlib.Order.Basic

-- Rules for computations that may fail: which errors they avoid, and what holds of their results.
namespace Except

variable {ε : Type*} {α β : Type} {x y : Except ε α} {f : α → Except ε β} {a : α} {e : ε}
  {bad good : ε → Prop} {post post' : α → Prop} {c : Prop} [Decidable c]

theorem bind_eq_ok {b : β} : (x >>= f) = .ok b ↔ ∃ a, x = .ok a ∧ f a = .ok b := by
  cases x <;> simp [bind, Except.bind]

theorem bind_eq_error : (x >>= f) = .error e ↔ x = .error e ∨ ∃ a, x = .ok a ∧ f a = .error e := by
  cases x <;> simp [bind, Except.bind]

theorem mapError_eq_ok {ε' : Type*} {g : ε → ε'} : x.mapError g = .ok a ↔ x = .ok a := by
  cases x <;> simp [Except.mapError]

theorem mapError_bind {ε' : Type*} {g : ε → ε'} :
    (x >>= f).mapError g = x.mapError g >>= fun a => (f a).mapError g := by
  cases x <;> rfl

theorem bind_congr' (x : Except ε α) {f f' : α → Except ε β} (h : ∀ a, x = .ok a → f a = f' a) :
    (x >>= f) = x >>= f' := by
  cases x
  case error => rfl
  case ok a  => exact h a rfl

def Avoids (bad : ε → Prop) (x : Except ε α) : Prop :=
  ∀ e, bad e → x ≠ .error e

@[simp]
theorem avoids_ok : Avoids bad (.ok a : Except ε α) :=
  nofun

@[simp]
theorem avoids_pure : Avoids bad (pure a : Except ε α) :=
  nofun

theorem avoids_ite (h : Avoids bad x) (h' : Avoids bad y) : Avoids bad (if c then x else y) := by
  split <;> assumption

theorem avoids_bind : Avoids bad (x >>= f) ↔ Avoids bad x ∧ ∀ a, x = .ok a → Avoids bad (f a) := by
  simp only [Avoids, ne_eq, bind_eq_error]
  grind

-- A computation that avoids every error returns.
theorem exists_ok_of_avoids (h : Avoids bad x) (h' : Avoids good x) (hall : ∀ e, bad e ∨ good e) :
    ∃ a, x = .ok a := by
  cases x
  case ok a    => exact ⟨a, rfl⟩
  case error e =>
    cases hall e
    case inl hb => exact absurd rfl (h e hb)
    case inr hg => exact absurd rfl (h' e hg)

def Ensures (post : α → Prop) (x : Except ε α) : Prop :=
  ∀ a, x = .ok a → post a

theorem ensures_ok (h : post a) : Ensures post (.ok a : Except ε α) := by
  rintro _ ⟨⟩
  exact h

theorem ensures_pure (h : post a) : Ensures post (pure a : Except ε α) :=
  ensures_ok h

theorem ensures_ite (h : c → Ensures post x) (h' : ¬c → Ensures post y) :
    Ensures post (if c then x else y) := by
  split
  case isTrue hc  => exact h hc
  case isFalse hc => exact h' hc

theorem ensures_bind {post : β → Prop} (h : ∀ a, x = .ok a → Ensures post (f a)) :
    Ensures post (x >>= f) := by
  intro b hb
  have ⟨a, ha, hb⟩ := bind_eq_ok.mp hb
  exact h a ha b hb

-- Two computations whose results are related when both return.
def Agree {α' : Type} (rel : α → α' → Prop) (x : Except ε α) (x' : Except ε α') : Prop :=
  ∀ a a', x = .ok a → x' = .ok a' → rel a a'

section Agree

variable {α' β' : Type} {rel : β → β' → Prop} {x' y' : Except ε α'} {f' : α → Except ε β'}

theorem agree_ok {b : β} {b' : β'} (h : rel b b') : Agree rel (.ok b : Except ε β) (.ok b') := by
  rintro _ _ ⟨⟩ ⟨⟩
  exact h

theorem agree_pure {b : β} {b' : β'} (h : rel b b') : Agree rel (pure b : Except ε β) (pure b') :=
  agree_ok h

-- Both computations start in the same way.
theorem agree_bind (h : ∀ a, x = .ok a → Agree rel (f a) (f' a)) : Agree rel (x >>= f) (x >>= f') := by
  intro b b' hb hb'
  have ⟨a, ha, hb⟩ := bind_eq_ok.mp hb
  have ⟨a', ha', hb'⟩ := bind_eq_ok.mp hb'
  cases ha.symm.trans ha'
  exact h a ha b b' hb hb'

theorem agree_ite {rel : α → α' → Prop} (h : c → Agree rel x x') (h' : ¬c → Agree rel y y') :
    Agree rel (if c then x else y) (if c then x' else y') := by
  split
  case isTrue hc  => exact h hc
  case isFalse hc => exact h' hc

end Agree
end Except
