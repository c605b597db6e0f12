import Mathlib.Data.List.Basic
import Mathlib.Logic.Function.Basic

-- Singly linked lists in a heap of nodes. A node at an address has a value and the address of the next
-- node; addresses where nothing is allocated hold `none`.
namespace Segment

variable {α β ν : Type*} {val : ν → β} {next : ν → α} {heap heap' : α → Option ν} {a b c d : α}
  {n : ν} {v : β} {xs ys : List (α × β)}

-- From `a`, the nodes of `xs` (their addresses and values) lead to `b`.
def Seg (val : ν → β) (next : ν → α) (heap : α → Option ν) : α → List (α × β) → α → Prop
  | a, [],           b => a = b
  | a, (c, v) :: xs, b => a = c ∧ ∃ n, heap a = some n ∧ val n = v ∧ Seg val next heap (next n) xs b

@[simp]
theorem seg_nil : Seg val next heap a [] b ↔ a = b :=
  Iff.rfl

theorem Seg.congr (h : ∀ c ∈ xs.map (·.1), heap' c = heap c) (s : Seg val next heap a xs b) :
    Seg val next heap' a xs b := by
  induction xs generalizing a
  case nil => exact s
  case cons x xs hi =>
    have ⟨ha, n, hn, hv, s⟩ := s
    exact ⟨ha, n, ha ▸ (h x.1 (by simp)).trans (ha ▸ hn), hv, hi (fun c hc => h c (by simp_all)) s⟩

theorem seg_append : Seg val next heap a (xs ++ ys) c ↔
    ∃ b, Seg val next heap a xs b ∧ Seg val next heap b ys c := by
  induction xs generalizing a
  case nil => simp [Seg]
  case cons x xs hi =>
    simp only [List.cons_append, Seg, hi]
    constructor
    · rintro ⟨ha, n, hn, hv, b, hb, hc⟩
      exact ⟨b, ⟨ha, n, hn, hv, hb⟩, hc⟩
    · rintro ⟨b, ⟨ha, n, hn, hv, hb⟩, hc⟩
      exact ⟨ha, n, hn, hv, b, hb, hc⟩

-- The nodes of a segment are allocated.
theorem Seg.allocated (s : Seg val next heap a xs b) (h : c ∈ xs.map (·.1)) : heap c ≠ none := by
  induction xs generalizing a
  case nil => simp at h
  case cons x xs hi =>
    have ⟨ha, n, hn, _, s⟩ := s
    cases List.mem_cons.mp h
    case inl hc => simp [hc, ← ha, hn]
    case inr hc => exact hi s hc

theorem Seg.fresh (s : Seg val next heap a xs b) (h : heap c = none) : c ∉ xs.map (·.1) :=
  fun hc => s.allocated hc h

variable [DecidableEq α]

-- Taking the first node off, and freeing it.
theorem Seg.tail (s : Seg val next heap a ((c, v) :: xs) b) (hc : c ∉ xs.map (·.1)) :
    a = c ∧ ∃ n, heap a = some n ∧ val n = v ∧
      Seg val next (Function.update heap a none) (next n) xs b := by
  have ⟨ha, n, hn, hv, s⟩ := s
  refine ⟨ha, n, hn, hv, s.congr fun d hd => ?_⟩
  exact Function.update_of_ne (by rintro rfl; exact hc (ha ▸ hd)) _ _

-- A segment whose last node is made to point to a new node.
theorem Seg.snoc {l m : α} {w : β} {n' n'' : ν}
    (s : Seg val next heap a (xs ++ [(l, v)]) b) (hl : l ∉ xs.map (·.1)) (hm : heap m = none)
    (hn : ∀ n, heap l = some n → val n' = val n) (hn' : next n' = m) (hv : val n'' = w)
    (hd : next n'' = d) :
    Seg val next (Function.update (Function.update heap m (some n'')) l (some n')) a
      (xs ++ [(l, v), (m, w)]) d := by
  have hml := s.fresh hm
  have ⟨e, s, hle, n, hen, hnv, _⟩ := seg_append.mp s
  have hmxs : m ∉ xs.map (·.1) := by simp_all
  have hne : m ≠ l := by rintro rfl; simp at hml
  refine seg_append.mpr ⟨e, s.congr fun c hc => ?_, hle, n', ?_, ?_, hn', n'', ?_, hv, hd⟩
  · rw [Function.update_of_ne (by rintro rfl; exact hl hc),
      Function.update_of_ne (by rintro rfl; exact hmxs hc)]
  · simp [hle]
  · exact hn n (hle ▸ hen) |>.trans hnv
  · simp [hn', hne]

end Segment
