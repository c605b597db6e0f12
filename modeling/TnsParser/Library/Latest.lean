import Mathlib.Data.List.Basic

-- The last item of a list with a property, such as the last write in a history.

-- `x` is the last item of `xs` for which `p` holds. The items `before` come before it.
def IsLatest {α : Type*} (p : α → Prop) (xs before : List α) (x : α) : Prop :=
  ∃ behind, xs = before ++ x :: behind ∧ p x ∧ ∀ y ∈ behind, ¬p y

namespace IsLatest

variable {α : Type*} {p : α → Prop} {xs before : List α} {x y : α}

theorem not_nil : ¬IsLatest p [] before y := by
  rintro ⟨behind, h, _⟩
  simp at h

-- In a list that is longer by one item, the last one is this item, or the one that was the last.
theorem concat_iff :
    IsLatest p (xs ++ [x]) before y ↔ p x ∧ before = xs ∧ y = x ∨ ¬p x ∧ IsLatest p xs before y := by
  constructor
  case mp =>
    rintro ⟨behind, hxs, hy, hbehind⟩
    cases List.eq_nil_or_concat' behind
    case inl hb =>
      subst hb
      obtain ⟨hxs, hx⟩ := List.append_inj' hxs rfl
      have hx : x = y := (List.cons.inj hx).left
      exact .inl ⟨hx ▸ hy, hxs.symm, hx.symm⟩
    case inr hb =>
      obtain ⟨zs, z, rfl⟩ := hb
      rw [← List.cons_append, ← List.append_assoc] at hxs
      obtain ⟨hxs, hx⟩ := List.append_inj' hxs rfl
      have hx : x = z := (List.cons.inj hx).left
      refine .inr ⟨hx ▸ hbehind z (by simp), zs, hxs, hy, fun w hw => ?_⟩
      exact hbehind w (List.mem_append_left _ hw)
  case mpr =>
    rintro (⟨hx, rfl, rfl⟩ | ⟨hx, behind, rfl, hy, hbehind⟩)
    · exact ⟨[], rfl, hx, List.forall_mem_nil _⟩
    · refine ⟨behind ++ [x], by simp, hy, fun w hw => ?_⟩
      cases List.mem_append.mp hw
      case inl hw => exact hbehind w hw
      case inr hw => exact List.mem_singleton.mp hw ▸ hx

theorem concat_iff_of_pos (h : p x) : IsLatest p (xs ++ [x]) before y ↔ before = xs ∧ y = x := by
  simp [concat_iff, h]

theorem concat_iff_of_neg (h : ¬p x) : IsLatest p (xs ++ [x]) before y ↔ IsLatest p xs before y := by
  simp [concat_iff, h]

end IsLatest
