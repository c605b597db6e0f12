import Mathlib.Data.List.Basic

-- Sequences that end at the first occurrence of a terminator `z`, and are read out of a longer list.
namespace Terminated

variable {α : Type*} [DecidableEq α] {z : α} {xs ys : List α}

-- The elements before the first terminator, if there is one.
def read (z : α) : List α → Option (List α)
  | []      => none
  | x :: xs => if x = z then some [] else (read z xs).map (x :: ·)

@[simp]
theorem read_cons_self : read z (z :: xs) = some [] := by
  simp [read]

theorem read_cons_of_ne {x : α} (h : x ≠ z) : read z (x :: xs) = (read z xs).map (x :: ·) := by
  simp [read, h]

theorem read_append_of_mem (h : z ∈ xs) : read z (xs ++ ys) = read z xs := by
  induction xs
  case nil => contradiction
  case cons x xs hi =>
    by_cases hx : x = z
    case pos => simp [hx]
    case neg => simp [read_cons_of_ne hx, hi <| (List.mem_cons.mp h).resolve_left (Ne.symm hx)]

theorem read_append_of_not_mem (h : z ∉ xs) : read z (xs ++ ys) = (read z ys).map (xs ++ ·) := by
  induction xs
  case nil => simp
  case cons x xs hi =>
    have hx : x ≠ z := fun hx => h (by simp [hx])
    have hxs : z ∉ xs := fun hxs => h (.tail _ hxs)
    simp [read_cons_of_ne hx, hi hxs, Function.comp_def]

-- What comes before a terminator is read up to it.
theorem read_append_cons (h : z ∉ xs) : read z (xs ++ z :: ys) = some xs := by
  simp [read_append_of_not_mem h]

-- What is read starts as the list does, up to the first terminator.
theorem take_of_read {n : Nat} (h : read z xs = some ys) (hz : z ∉ xs.take n) :
    ys.take n = xs.take n := by
  induction xs generalizing ys n
  case nil => contradiction
  case cons x xs hi =>
    cases n
    case zero => simp
    case succ n =>
      have hx : x ≠ z := fun hx => hz (by simp [hx])
      have hxs : z ∉ xs.take n := fun hxs => hz (by simp [hxs])
      rw [read_cons_of_ne hx, Option.map_eq_some_iff] at h
      have ⟨zs, hzs, hys⟩ := h
      simp [← hys, hi hzs hxs]

theorem exists_read_of_mem (h : z ∈ xs) : ∃ ys, read z xs = some ys := by
  have ⟨as, bs, hxs, ha⟩ := List.eq_append_cons_of_mem h
  exact ⟨as, hxs ▸ read_append_cons ha⟩

theorem read_eq_none_iff : read z xs = none ↔ z ∉ xs := by
  constructor
  case mp =>
    intro h hz
    have ⟨ys, hys⟩ := exists_read_of_mem hz
    simp [h] at hys
  case mpr =>
    intro h
    have hnil : read z (xs ++ []) = (read z []).map (xs ++ ·) := read_append_of_not_mem h
    simpa [read] using hnil

end Terminated

-- The elements of a list, each between its two neighbours.
namespace Neighbours

variable {α : Type*} {a b : α} {xs ys : List α}

-- `a` comes before the list, and `b` behind it.
def triples (a : α) : List α → α → List (α × α × α)
  | [],      _ => []
  | c :: xs, b => (a, c, xs.headD b) :: triples c xs b

theorem length_triples : (triples a xs b).length = xs.length := by
  induction xs generalizing a
  case nil          => rfl
  case cons c xs hi => simp [triples, hi]

theorem triples_append :
    triples a (xs ++ ys) b = triples a xs (ys.headD b) ++ triples (xs.getLastD a) ys b := by
  induction xs generalizing a
  case nil => rfl
  case cons c xs hi =>
    have hhead : (xs ++ ys).headD b = xs.headD (ys.headD b) := by cases xs <;> rfl
    simp only [List.cons_append, triples, hi, hhead, List.getLastD_cons]

end Neighbours
