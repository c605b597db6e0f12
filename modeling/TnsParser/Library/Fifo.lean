import Mathlib.Data.List.Basic

-- What a FIFO queue is for: a record of everything that was put in, in order, with what became of it.
-- The elements that have left the queue come before those still in it.
structure Fifo (α : Type*) where
  settled : List (α × Bool)
  pending : List α

namespace Fifo

variable {α : Type*} {q q' : Fifo α} {a : α}

def empty : Fifo α where
  settled := []
  pending := []

-- Everything that was put in.
def accepted (q : Fifo α) : List α :=
  q.settled.map (·.1) ++ q.pending

-- Everything that was taken out by `pop?`, that is, what is neither dropped by `flush` nor pending.
def delivered (q : Fifo α) : List α :=
  q.settled.filterMap fun (a, d) => if d then some a else none

def push (q : Fifo α) (a : α) : Fifo α :=
  { q with pending := q.pending ++ [a] }

def pop? (q : Fifo α) : Option (α × Fifo α) :=
  match q.pending with
  | []      => none
  | a :: as => some (a, { settled := q.settled ++ [(a, true)], pending := as })

def flush (q : Fifo α) : Fifo α where
  settled := q.settled ++ q.pending.map (·, false)
  pending := []

@[simp]
theorem accepted_empty : (empty : Fifo α).accepted = [] :=
  rfl

@[simp]
theorem delivered_empty : (empty : Fifo α).delivered = [] :=
  rfl

@[simp]
theorem accepted_push : (q.push a).accepted = q.accepted ++ [a] := by
  simp [accepted, push]

@[simp]
theorem delivered_push : (q.push a).delivered = q.delivered :=
  rfl

@[simp]
theorem accepted_flush : q.flush.accepted = q.accepted := by
  simp [accepted, flush, Function.comp_def]

@[simp]
theorem delivered_flush : q.flush.delivered = q.delivered := by
  simp [delivered, flush]

theorem pop?_eq_none_iff : q.pop? = none ↔ q.pending = [] := by
  cases h : q.pending <;> simp [pop?, h]

theorem pop?_of_pending_cons {as : List α} (h : q.pending = a :: as) :
    ∃ q', q.pop? = some (a, q') ∧ q'.pending = as := by
  simp [pop?, h]

theorem pop?_eq_some (h : q.pop? = some (a, q')) :
    q.pending = a :: q'.pending ∧ q'.accepted = q.accepted ∧ q'.delivered = q.delivered ++ [a] := by
  cases hp : q.pending <;> simp only [pop?, hp, Option.some.injEq, Prod.mk.injEq] at h
  case nil => contradiction
  case cons =>
    have ⟨ha, hq⟩ := h
    subst ha hq
    simp [accepted, delivered, hp]

end Fifo
