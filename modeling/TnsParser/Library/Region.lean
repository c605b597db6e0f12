import Mathlib.Order.Defs.LinearOrder

-- A range of addresses: `size` of them, from `base` on.
structure Region where
  base : Nat
  size : Nat

namespace Region

def Apart (r s : Region) : Prop :=
  r.base + r.size ≤ s.base ∨ s.base + s.size ≤ r.base

def Within (r s : Region) : Prop :=
  s.base ≤ r.base ∧ r.base + r.size ≤ s.base + s.size

variable {r r' s s' : Region}

instance : Decidable (Apart r s) :=
  inferInstanceAs <| Decidable (_ ∨ _)

instance : Decidable (Within r s) :=
  inferInstanceAs <| Decidable (_ ∧ _)

theorem Apart.symm (h : r.Apart s) : s.Apart r :=
  Or.symm h

theorem Within.refl (r : Region) : r.Within r :=
  ⟨Nat.le_refl _, Nat.le_refl _⟩

theorem Within.trans {t : Region} (h : r.Within s) (h' : s.Within t) : r.Within t :=
  ⟨Nat.le_trans h'.left h.left, Nat.le_trans h.right h'.right⟩

-- Parts of regions that are apart are apart.
theorem Apart.mono (h : r.Apart s) (hr : r'.Within r) (hs : s'.Within s) : r'.Apart s' := by
  simp only [Apart, Within] at *
  omega

theorem Apart.left (h : r.Apart s) (hr : r'.Within r) : r'.Apart s :=
  h.mono hr (.refl s)

theorem Apart.right (h : r.Apart s) (hs : s'.Within s) : r.Apart s' :=
  h.mono (.refl r) hs

-- A region with something in it is not apart from itself.
theorem not_apart_self (h : 0 < r.size) : ¬r.Apart r := by
  simp only [Apart]
  omega

end Region
