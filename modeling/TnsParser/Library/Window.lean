import Mathlib.Data.List.Basic
import Mathlib.Logic.Function.Basic

-- An array of `k` slots that is used cyclically: position `n` of a sequence is in the slot `n % k`.
namespace Window

variable {α : Type*} {k i : Int} {m n : Nat} {get : Int → α} {xs : List (Int × α)} {v : α}

def slot (k : Int) (n : Nat) : Int := n % k

@[simp]
theorem slot_zero : slot k 0 = 0 := by
  simp [slot]

theorem slot_nonneg (h : 0 < k) : 0 ≤ slot k n :=
  Int.emod_nonneg _ (Int.ne_of_gt h)

theorem slot_lt (h : 0 < k) : slot k n < k :=
  Int.emod_lt_of_pos _ h

theorem slot_succ_of_ne (h : 0 < k) (hn : slot k n + 1 ≠ k) : slot k (n + 1) = slot k n + 1 := by
  have hlt : slot k n < k := slot_lt h
  have hnn : 0 ≤ slot k n := slot_nonneg h
  rw [slot, Int.natCast_add, Int.natCast_one, ← Int.emod_add_emod, ← slot, Int.emod_eq_of_lt] <;> omega

theorem slot_succ_of_eq (hn : slot k n + 1 = k) : slot k (n + 1) = 0 := by
  rw [slot, Int.natCast_add, Int.natCast_one, ← Int.emod_add_emod, ← slot, hn, Int.emod_self]

-- Positions that are less than `k` apart are in different slots.
theorem slot_ne (hm : m < n) (hn : n < m + k) : slot k m ≠ slot k n := by
  intro h
  have hdvd : k ∣ (n : Int) - m :=
    Int.dvd_of_emod_eq_zero <| Int.emod_eq_emod_iff_emod_sub_eq_zero.mp h.symm
  have hle := Int.le_of_dvd (by omega) hdvd
  omega

-- `xs` are the entries of the positions from `n` on, each with its slot.
def Holds (k : Int) (get : Int → α) : Nat → List (Int × α) → Prop
  | _, []           => True
  | n, (i, v) :: xs => i = slot k n ∧ get i = v ∧ Holds k get (n + 1) xs

namespace Holds

theorem snoc (h : Holds k get n xs) :
    Holds k get n (xs ++ [(slot k (n + xs.length), get <| slot k (n + xs.length))]) := by
  induction xs generalizing n
  case nil => exact ⟨rfl, rfl, trivial⟩
  case cons x xs hi =>
    have ⟨hslot, hget, h⟩ := h
    have := hi h
    rw [Nat.add_right_comm] at this
    exact ⟨hslot, hget, by simpa [Nat.add_assoc] using this⟩

-- Every entry is in the slot of one of the positions.
theorem mem (h : Holds k get n xs) {x : Int × α} (hx : x ∈ xs) :
    ∃ m, n ≤ m ∧ m < n + xs.length ∧ x.1 = slot k m := by
  induction xs generalizing n
  case nil => simp at hx
  case cons y xs hi =>
    have ⟨hslot, _, h⟩ := h
    cases List.mem_cons.mp hx
    case inl hx => exact ⟨n, Nat.le_refl n, by simp, hx ▸ hslot⟩
    case inr hx =>
      have ⟨m, hn, hm, hs⟩ := hi h hx
      exact ⟨m, by omega, by simp only [List.length_cons]; omega, hs⟩

-- The slot of the next position is in none of them when there are fewer than `k`.
theorem next_free (h : Holds k get n xs) (hk : xs.length < k) :
    ∀ x ∈ xs, x.1 ≠ slot k (n + xs.length) := by
  intro x hx
  have ⟨m, hn, hm, hs⟩ := h.mem hx
  exact hs ▸ slot_ne hm (by omega)

theorem update (h : Holds k get n xs) (hi : ∀ x ∈ xs, x.1 ≠ i) :
    Holds k (Function.update get i v) n xs := by
  induction xs generalizing n
  case nil => trivial
  case cons x xs ih =>
    have ⟨hslot, hget, h⟩ := h
    have ⟨hx, hi⟩ := List.forall_mem_cons.mp hi
    exact ⟨hslot, Function.update_of_ne hx .. |>.trans hget, ih h hi⟩

end Holds
end Window
