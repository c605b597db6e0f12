import TnsParser.Library.Fallible
import Mathlib.Data.List.Perm.Basic

-- Memory that is handed out in blocks and given back. A block is known by the call that handed it out.
structure Memory where
  count : Nat
  live  : List Nat

namespace Memory

-- `fails k` tells whether the call number `k` has no memory left.
variable (fails : Nat → Bool)

def malloc (m : Memory) : Option Nat × Memory :=
  if fails m.count then (none, { m with count := m.count + 1 })
  else (some m.count, ⟨m.count + 1, m.count :: m.live⟩)

-- A block that is not allocated cannot be given back.
def free (m : Memory) (p : Nat) : Except Nat Memory :=
  if p ∈ m.live then .ok { m with live := m.live.erase p } else .error p

def freeAll (m : Memory) (ps : List Nat) : Except Nat Memory :=
  ps.foldlM free m

-- A call between two moments had no memory left.
def Failed (m m' : Memory) : Prop :=
  ∃ k, m.count ≤ k ∧ k < m'.count ∧ fails k = true

-- What an owner has is what it had, with the blocks that were handed out since and without those that
-- were given back.
structure Accounted (m m' : Memory) (before after : List Nat) : Prop where
  count  : m.count ≤ m'.count
  blocks : ∀ p, m'.live.count p + before.count p = m.live.count p + after.count p

variable {fails} {m m' m'' : Memory} {p : Nat} {ps rest before mid after held : List Nat}

theorem Failed.left (h : Failed fails m m') (hc : m'.count ≤ m''.count) : Failed fails m m'' := by
  obtain ⟨k, hle, hlt, hk⟩ := h
  exact ⟨k, hle, Nat.lt_of_lt_of_le hlt hc, hk⟩

theorem Failed.right (h : Failed fails m' m'') (hc : m.count ≤ m'.count) : Failed fails m m'' := by
  obtain ⟨k, hle, hlt, hk⟩ := h
  exact ⟨k, Nat.le_trans hc hle, hlt, hk⟩

theorem not_failed_trans (h : ¬Failed fails m m') (h' : ¬Failed fails m' m'') : ¬Failed fails m m'' := by
  rintro ⟨k, hle, hlt, hk⟩
  cases Nat.lt_or_ge k m'.count
  case inl hk' => exact h ⟨k, hle, hk', hk⟩
  case inr hk' => exact h' ⟨k, hk', hlt, hk⟩

theorem not_failed_self : ¬Failed fails m m := by
  rintro ⟨k, hle, hlt, -⟩
  omega

namespace Accounted

theorem refl (m : Memory) (held : List Nat) : Accounted m m held held :=
  ⟨Nat.le_refl _, fun _ => rfl⟩

theorem trans (h : Accounted m m' before mid) (h' : Accounted m' m'' mid after) : Accounted m m'' before after where
  count := Nat.le_trans h.count h'.count
  blocks p := by
    have := h.blocks p
    have := h'.blocks p
    omega

-- What else is owned makes no difference.
theorem frame (held : List Nat) (h : Accounted m m' before after) :
    Accounted m m' (before ++ held) (after ++ held) where
  count := h.count
  blocks p := by
    have := h.blocks p
    rw [List.count_append, List.count_append]
    omega

theorem perm (h : Accounted m m' before mid) (hp : mid.Perm after) : Accounted m m' before after where
  count := h.count
  blocks p := by rw [← hp.count_eq p, h.blocks p]

theorem live_perm (h : Accounted m m' [] after) : m'.live.Perm (after ++ m.live) := by
  refine List.perm_iff_count.mpr fun p => ?_
  have hp := h.blocks p
  rw [List.count_nil, Nat.add_zero] at hp
  rw [List.count_append, hp, Nat.add_comm]

end Accounted

theorem malloc_cases (fails : Nat → Bool) (m : Memory) :
    (∃ m', m.malloc fails = (none, m') ∧ Accounted m m' [] [] ∧ Failed fails m m') ∨
      ∃ p m', m.malloc fails = (some p, m') ∧ Accounted m m' [] [p] ∧ ¬Failed fails m m' := by
  rw [malloc]
  split
  case isTrue h =>
    exact .inl ⟨_, rfl, ⟨Nat.le_succ _, fun _ => rfl⟩, m.count, Nat.le_refl _, Nat.lt_succ_self _, h⟩
  case isFalse h =>
    refine .inr ⟨_, _, rfl, ⟨Nat.le_succ _, fun p => ?blocks⟩, ?calls⟩
    case blocks =>
      rw [List.count_nil, ← List.singleton_append, List.count_append]
      omega
    case calls =>
      rintro ⟨k, hle, hlt, hk⟩
      have hcount : k = m.count := Nat.le_antisymm (Nat.le_of_lt_succ hlt) hle
      exact h (hcount ▸ hk)

theorem freeAll_append (m : Memory) (ps qs : List Nat) :
    m.freeAll (ps ++ qs) = (m.freeAll ps >>= fun m => m.freeAll qs) :=
  List.foldlM_append ..

theorem freeAll_cons (m : Memory) (p : Nat) (ps : List Nat) :
    m.freeAll (p :: ps) = (m.free p >>= fun m => m.freeAll ps) :=
  List.foldlM_cons ..

-- Blocks that are allocated can all be given back, each of them once.
theorem freeAll_perm (h : m.live.Perm (ps ++ rest)) :
    ∃ m', m.freeAll ps = .ok m' ∧ m'.live.Perm rest ∧ m'.count = m.count := by
  induction ps generalizing m
  case nil => exact ⟨m, rfl, h, rfl⟩
  case cons p ps hi =>
    have hp : p ∈ m.live := h.mem_iff.mpr (by simp)
    have herase : (m.live.erase p).Perm (ps ++ rest) := by
      have := h.erase p
      rwa [List.cons_append, List.erase_cons_head] at this
    obtain ⟨m', hfree, hrest, hcount⟩ := hi (m := { m with live := m.live.erase p }) herase
    refine ⟨m', ?_, hrest, hcount⟩
    rw [freeAll_cons, free, if_pos hp]
    exact hfree

-- What was allocated since can be given back, and then nothing is left of it.
theorem Accounted.freeAll (h : Accounted m m' [] ps) :
    ∃ m'', m'.freeAll ps = .ok m'' ∧ Accounted m m'' [] [] ∧ m''.count = m'.count := by
  obtain ⟨m'', hfree, hlive, hcount⟩ := freeAll_perm h.live_perm
  exact ⟨m'', hfree, ⟨hcount ▸ h.count, fun p => hlive.count_eq p⟩, hcount⟩

end Memory
