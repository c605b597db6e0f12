import TnsParser.Library.Segment

structure MyList (α : Type*) where
  pkt  : α
  next : Nat

-- Addresses are `Nat`, with `0` for NULL. `heap` holds the nodes that are allocated, and the functions
-- below are `none` when they use the memory of a node that is not.
structure ListQueue (α : Type*) where
  first        : Nat
  last         : Nat
  num          : Int
  abortRequest : Bool
  heap         : Nat → Option (MyList α)

namespace ListQueue

variable {α : Type*}

def listQueueInit (heap : Nat → Option (MyList α)) : ListQueue α where
  first        := 0
  last         := 0
  num          := 0
  abortRequest := true
  heap         := heap

-- `q->last->next = ml`
def setLastNext (q : ListQueue α) (ml : Nat) : Option (ListQueue α) :=
  (q.heap q.last).map fun last =>
    { q with heap := Function.update q.heap q.last (some { last with next := ml }) }

-- `ml` is what `malloc` returns for the new node, `none` when it fails.
def listQueuePutPrivate (q : ListQueue α) (pkt : α) (ml : Option Nat) : Option (ListQueue α × Int) :=
  if q.abortRequest then
    some (q, -1)
  else
    match ml with
    | none    => some (q, -1)
    | some ml => do
      let q := { q with heap := Function.update q.heap ml (some { pkt, next := 0 }) }
      let q ← if q.last = 0 then some { q with first := ml } else q.setLastNext ml
      return ({ q with last := ml, num := q.num + 1 }, 0)

-- The result of `list_queue_get`: the value returned and the packet pointer of the caller, or the
-- decision to wait.
inductive Get (α : Type*)
  | ret (r : Int) (pkt : α)
  | wait

-- One pass through the loop of `list_queue_get`, with `pkt` the packet pointer of the caller.
def listQueueGet (q : ListQueue α) (pkt : α) (block : Bool) : Option (ListQueue α × Get α) :=
  if q.abortRequest then
    some (q, .ret (-1) pkt)
  else if q.first ≠ 0 then do
    let pkt1 ← q.heap q.first
    let heap := Function.update q.heap q.first none
    let last := if pkt1.next = 0 then 0 else q.last
    return ({ q with first := pkt1.next, last, num := q.num - 1, heap }, .ret 1 pkt1.pkt)
  else if !block then
    some (q, .ret 0 pkt)
  else
    some (q, .wait)

-- The loop of `list_queue_flush`, for at most `fuel` nodes.
def freeNodes (heap : Nat → Option (MyList α)) : Nat → Nat → Option (Nat → Option (MyList α))
  | _,        0       => some heap
  | 0,        _       => none
  | fuel + 1, pkt + 1 => do
    let ml ← heap (pkt + 1)
    freeNodes (Function.update heap (pkt + 1) none) fuel ml.next

def listQueueFlush (q : ListQueue α) : Option (ListQueue α) :=
  (freeNodes q.heap q.num.toNat q.first).map fun heap =>
    { q with first := 0, last := 0, num := 0, heap }

def listQueueAbort (q : ListQueue α) : ListQueue α :=
  { q with abortRequest := true }

-- `xs` are the nodes from `first` on, with the packets in them.
structure Chain (q : ListQueue α) (xs : List (Nat × α)) : Prop where
  seg     : Segment.Seg MyList.pkt MyList.next q.heap q.first xs 0
  nodup   : (xs.map (·.1)).Nodup
  nonzero : 0 ∉ xs.map (·.1)
  last    : q.last = (xs.map (·.1)).getLastD 0
  num     : q.num = xs.length

namespace Chain

variable {q q' : ListQueue α} {xs : List (Nat × α)} {a ml : Nat} {pkt p : α} {block : Bool}

theorem nil (hf : q.first = 0) (hl : q.last = 0) (hn : q.num = 0) : q.Chain [] where
  seg     := hf
  nodup   := List.nodup_nil
  nonzero := List.not_mem_nil
  last    := hl
  num     := hn

theorem ne_zero (c : q.Chain xs) {x : Nat × α} (hx : x ∈ xs) : x.1 ≠ 0 :=
  fun h => c.nonzero <| h ▸ List.mem_map_of_mem hx

theorem first_eq_zero_iff (c : q.Chain xs) : q.first = 0 ↔ xs = [] := by
  cases xs
  case nil       => simpa using c.seg
  case cons x xs => simp [c.seg.left, c.ne_zero (x := x) (by simp)]

theorem last_eq_zero_iff (c : q.Chain xs) : q.last = 0 ↔ xs = [] := by
  rw [c.last]
  cases List.eq_nil_or_concat' xs
  case inl h => simp [h]
  case inr h =>
    have ⟨ys, y, h⟩ := h
    subst h
    simp [c.ne_zero (x := y) (by simp)]

theorem num_eq_zero_iff (c : q.Chain xs) : q.num = 0 ↔ xs = [] := by
  simp [c.num]

-- The node is linked in behind the last one, or as the first one of an empty queue.
theorem put (c : q.Chain xs) (ha : q.abortRequest = false) (hz : ml ≠ 0) (hm : q.heap ml = none)
    (pkt : α) : ∃ q', q.listQueuePutPrivate pkt (some ml) = some (q', 0) ∧ q'.Chain (xs ++ [(ml, pkt)]) ∧
      q'.abortRequest = false := by
  have hml := c.seg.fresh hm
  have hnum : q.num + 1 = (xs ++ [(ml, pkt)]).length := by simp [c.num]
  have nodup : ((xs ++ [(ml, pkt)]).map (·.1)).Nodup := by
    have := c.nodup
    grind
  have nonzero : 0 ∉ (xs ++ [(ml, pkt)]).map (·.1) := by
    have := c.nonzero
    grind
  cases List.eq_nil_or_concat' xs
  case inl h =>
    subst h
    let q' : ListQueue α := { q with
      first := ml, last := ml, num := q.num + 1,
      heap := Function.update q.heap ml (some { pkt, next := 0 }) }
    have seg : Segment.Seg MyList.pkt MyList.next q'.heap q'.first [(ml, pkt)] 0 :=
      ⟨rfl, ⟨pkt, 0⟩, Function.update_self .., rfl, rfl⟩
    refine ⟨q', ?_, ⟨seg, nodup, nonzero, rfl, hnum⟩, ha⟩
    simp [listQueuePutPrivate, ha, c.last_eq_zero_iff.mpr rfl, q']
  case inr h =>
    have ⟨ys, ⟨l, v⟩, h⟩ := h
    subst h
    have hl : q.last = l := by simp [c.last]
    have hlz : l ≠ 0 := c.ne_zero (x := (l, v)) (by simp)
    have hlys : l ∉ ys.map (·.1) := by
      have := c.nodup
      grind
    have hlm : l ≠ ml := by rintro rfl; simp at hml
    have ⟨n, hn⟩ := Option.ne_none_iff_exists'.mp <| c.seg.allocated (c := l) (by simp)
    let heap := Function.update q.heap ml (some { pkt, next := 0 })
    have hheap : heap l = some n := Function.update_of_ne hlm .. |>.trans hn
    let q' : ListQueue α := { q with
      last := ml, num := q.num + 1, heap := Function.update heap l (some { n with next := ml }) }
    have seg : Segment.Seg MyList.pkt MyList.next q'.heap q'.first (ys ++ [(l, v), (ml, pkt)]) 0 :=
      c.seg.snoc hlys hm (by simp [hn]) rfl rfl rfl
    refine ⟨q', ?_, ⟨by simpa using seg, nodup, nonzero, by simp [q'], hnum⟩, ha⟩
    simp only [listQueuePutPrivate, setLastNext, ha, hl, hlz]
    simp [hheap, heap, q', ha]

theorem get_nil (c : q.Chain []) (ha : q.abortRequest = false) :
    q.listQueueGet pkt block = some (q, if block then .wait else .ret 0 pkt) := by
  have := c.first_eq_zero_iff.mpr rfl
  cases block <;> simp [listQueueGet, ha, this]

-- The first node is unlinked and freed.
theorem get_cons (c : q.Chain ((a, p) :: xs)) (ha : q.abortRequest = false) (pkt : α)
    (block : Bool) : ∃ q', q.listQueueGet pkt block = some (q', .ret 1 p) ∧ q'.Chain xs ∧
      q'.abortRequest = false := by
  have hne : q.first ≠ 0 := by simp [c.first_eq_zero_iff]
  have ⟨hax, hxs⟩ := List.nodup_cons.mp c.nodup
  have ⟨hf, n, hn, hp, seg⟩ := c.seg.tail hax
  have nonzero : 0 ∉ xs.map (·.1) := fun h => c.nonzero (.tail _ h)
  let q' : ListQueue α := { q with
    first := n.next, last := if n.next = 0 then 0 else q.last, num := q.num - 1,
    heap := Function.update q.heap q.first none }
  have last : q'.last = (xs.map (·.1)).getLastD 0 := by
    cases xs
    case nil => simp_all [q']
    case cons x xs =>
      have hx : n.next ≠ 0 := by
        rw [seg.left]
        exact c.ne_zero (x := x) (by simp)
      simp [q', hx, c.last]
  refine ⟨q', ?_, ⟨seg, hxs, nonzero, last, by simp [q', c.num]⟩, ha⟩
  simp [listQueueGet, ha, hne, hn, hp, q']

theorem freeNodes_seg {heap : Nat → Option (MyList α)} {first : Nat}
    (s : Segment.Seg MyList.pkt MyList.next heap first xs 0) (hn : (xs.map (·.1)).Nodup)
    (hz : 0 ∉ xs.map (·.1)) : ∃ heap', freeNodes heap xs.length first = some heap' := by
  induction xs generalizing heap first
  case nil =>
    have : first = 0 := by simpa using s
    subst this
    exact ⟨heap, rfl⟩
  case cons x xs hi =>
    have ⟨hxs, hn⟩ := List.nodup_cons.mp hn
    have ⟨hf, n, hheap, _, s⟩ := s.tail hxs
    cases first
    case zero => simp [← hf] at hz
    case succ first =>
      have ⟨heap', h⟩ := hi s hn (fun h => hz (.tail _ h))
      exact ⟨heap', by simp [freeNodes, hheap, h]⟩

-- Flushing ends after the nodes of the queue, and empties it.
theorem flush (c : q.Chain xs) :
    ∃ q', q.listQueueFlush = some q' ∧ q'.Chain [] ∧ q'.abortRequest = q.abortRequest := by
  have ⟨heap', h⟩ := freeNodes_seg c.seg c.nodup c.nonzero
  let q' : ListQueue α := { q with first := 0, last := 0, num := 0, heap := heap' }
  exact ⟨q', by simp [listQueueFlush, c.num, h, q'], .nil rfl rfl rfl, rfl⟩

end Chain
end ListQueue
