import TnsParser.Library.Machine
import Mathlib.Logic.Function.Basic

def ringQueueSize : Int := 32

-- `queue i` is the slot at index `i`, be it inside of the array or not.
structure RingQueue (α : Type*) where
  queue        : Int → α
  rindex       : Int
  windex       : Int
  size         : Int
  maxSize      : Int
  abortRequest : Bool

namespace RingQueue

variable {α : Type*}

def ringQueueInit (queue : Int → α) (maxSize : Int) : RingQueue α where
  queue        := queue
  rindex       := 0
  windex       := 0
  size         := 0
  maxSize      := min maxSize ringQueueSize
  abortRequest := true

def ringQueueSignal (q : RingQueue α) : RingQueue α :=
  { q with abortRequest := true }

-- The producer calls `ring_queue_peek_writable` and `ring_queue_push`, the consumer
-- `ring_queue_peek_readable` and `ring_queue_pull`. The functions of the two differ in the following.
inductive Role
  | producer
  | consumer
  deriving DecidableEq

-- The condition under which a peek function waits, unless the queue is aborted.
def Waits (q : RingQueue α) : Role → Prop
  | .producer => q.size ≥ q.maxSize
  | .consumer => q.size ≤ 0

instance (q : RingQueue α) (r : Role) : Decidable (q.Waits r) :=
  match r with
  | .producer => inferInstanceAs <| Decidable (q.size ≥ q.maxSize)
  | .consumer => inferInstanceAs <| Decidable (q.size ≤ 0)

def index (q : RingQueue α) : Role → Int
  | .producer => q.windex
  | .consumer => q.rindex

def setIndex (q : RingQueue α) (index : Int) : Role → RingQueue α
  | .producer => { q with windex := index }
  | .consumer => { q with rindex := index }

def Role.count : Role → Int
  | .producer => 1
  | .consumer => -1

-- The next thing that a thread does: test the condition of the loop under the lock, return from
-- `pthread_cond_wait`, test `abort_request` without the lock, use the slot `i` that the peek function
-- has returned (fill it or read it), increment the index, set the index to zero, update `size` under
-- the lock. A thread that was given NULL has stopped.
inductive Pc
  | loop
  | wait
  | abort
  | slot (i : Int)
  | index
  | wrap
  | size
  | stopped

inductive Event (α : Type*)
  | internal
  | null
  | slot (i : Int)
  | used (i : Int) (pkt : α)

-- A step of one of the two threads.
def step (q : RingQueue α) (r : Role) : Pc → Option (RingQueue α × Pc × Event α)
  | .loop    => some (q, if q.Waits r ∧ ¬q.abortRequest then .wait else .abort, .internal)
  | .wait    => some (q, .loop, .internal)
  | .abort   =>
    if q.abortRequest then
      some (q, .stopped, .null)
    else
      some (q, .slot (q.index r), .slot (q.index r))
  | .slot i  => some (q, .index, .used i (q.queue i))
  | .index   =>
    let index := q.index r + 1
    some (q.setIndex index r, if index = q.maxSize then .wrap else .size, .internal)
  | .wrap    => some (q.setIndex 0 r, .size, .internal)
  | .size    => some ({ q with size := q.size + r.count }, .loop, .internal)
  | .stopped => none

structure Threads (α : Type*) where
  q  : RingQueue α
  pc : Role → Pc

-- Next to the steps of the two threads, the producer may write to the slot that it has as often as it
-- likes, and anybody may call `ring_queue_signal`.
inductive Action (α : Type*)
  | step (r : Role)
  | fill (pkt : α)
  | signal

def threads : Machine (Threads α) (Action α) (Event α)
  | s, .step r =>
    (s.q.step r (s.pc r)).map fun (q, pc, e) => ({ q, pc := Function.update s.pc r pc }, e)
  | s, .fill pkt =>
    match s.pc .producer with
    | .slot i =>
      some ({ s with q := { s.q with queue := Function.update s.q.queue i pkt } }, .internal)
    | _ => none
  | s, .signal => some ({ s with q := s.q.ringQueueSignal }, .internal)

-- The queue as it is initialised, and `abort_request` cleared.
def start (queue : Int → α) (maxSize : Int) : Threads α where
  q  := { ringQueueInit queue maxSize with abortRequest := false }
  pc := fun _ => .loop

-- What a thread has used, in order, with the slots: what the producer has pushed, or the consumer has
-- read.
def uses (r : Role) (tr : List (Action α × Event α)) : List (Int × α) :=
  tr.filterMap fun
    | (.step r', .used i pkt) => if r' = r then some (i, pkt) else none
    | _                       => none

variable {q q' : RingQueue α} {r r' : Role} {i : Int}

@[simp]
theorem setIndex_queue : (q.setIndex i r).queue = q.queue := by
  cases r <;> rfl

@[simp]
theorem setIndex_size : (q.setIndex i r).size = q.size := by
  cases r <;> rfl

@[simp]
theorem setIndex_maxSize : (q.setIndex i r).maxSize = q.maxSize := by
  cases r <;> rfl

@[simp]
theorem setIndex_abortRequest : (q.setIndex i r).abortRequest = q.abortRequest := by
  cases r <;> rfl

@[simp]
theorem setIndex_waits : (q.setIndex i r).Waits r' ↔ q.Waits r' := by
  cases r <;> cases r' <;> rfl

@[simp]
theorem setIndex_index_self : (q.setIndex i r).index r = i := by
  cases r <;> rfl

theorem setIndex_index_of_ne (h : r' ≠ r) : (q.setIndex i r).index r' = q.index r' := by
  cases r <;> cases r' <;> simp_all [index, setIndex]

end RingQueue
