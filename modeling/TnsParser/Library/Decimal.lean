import Mathlib.Algebra.GroupWithZero.Nat
import Mathlib.Data.List.Basic

-- Numbers in a text, in decimal, with something else than a digit behind each of them.

namespace Decimal

variable {n n' k : Nat} {rest rest' : List Char}

-- There is no digit in front.
def Separated (rest : List Char) : Prop :=
  ∀ c ∈ rest.head?, ¬c.isDigit

theorem separated_cons {c : Char} (h : ¬c.isDigit) : Separated (c :: rest) := by
  intro d hd
  cases hd
  exact h

def read (s : List Char) : Nat × List Char :=
  (Nat.ofDigitChars 10 (s.takeWhile Char.isDigit) 0, s.dropWhile Char.isDigit)

theorem isDigit_of_mem {c : Char} (h : c ∈ Nat.toDigits 10 n) : c.isDigit :=
  Nat.isDigit_of_mem_toDigits (by decide) (by decide) h

theorem read_toDigits (h : Separated rest) : read (Nat.toDigits 10 n ++ rest) = (n, rest) := by
  have htake : rest.takeWhile Char.isDigit = [] ∧ rest.dropWhile Char.isDigit = rest := by
    cases rest
    case nil      => exact ⟨rfl, rfl⟩
    case cons c _ =>
      have hc := h c rfl
      exact ⟨List.takeWhile_cons_of_neg hc, List.dropWhile_cons_of_neg hc⟩
  rw [read, List.takeWhile_append_of_pos fun _ => isDigit_of_mem, List.dropWhile_append_of_pos fun _ => isDigit_of_mem,
    htake.left, htake.right, List.append_nil, Nat.ofDigitChars_ten_toDigits]

-- A number ends where its digits do.
theorem toDigits_append_inj (h : Separated rest) (h' : Separated rest')
    (heq : Nat.toDigits 10 n ++ rest = Nat.toDigits 10 n' ++ rest') : n = n' ∧ rest = rest' := by
  have hread := congrArg read heq
  rw [read_toDigits h, read_toDigits h'] at hread
  cases hread
  exact ⟨rfl, rfl⟩

theorem length_toDigits_le (hk : 0 < k) (h : n < 10 ^ k) : (Nat.toDigits 10 n).length ≤ k :=
  (Nat.length_toDigits_le_iff (by decide) hk).mpr h

end Decimal
