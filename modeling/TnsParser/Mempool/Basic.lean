import TnsParser.Mempool.ListHead

-- `struct mem_pool_st` lies at the start of the memory that `mem_pool_create` allocates: the head of
-- the free list, then the head of the use list, then the nodes, each a list header and a buffer.

open ListHead

structure MemPool where
  mem   : Nat
  links : Heap

namespace MemPool

def free (p : MemPool) : Nat := p.mem

def use (p : MemPool) : Nat := p.mem + sizeofListHead

-- sizeof(struct mem_pool_st)
def sizeofMemPool : Nat := 2 * sizeofListHead

-- The distance between two nodes for buffers of `size` bytes.
def nodeSize (size : Nat) : Nat :=
  ((size + 15) &&& 0xFFFFFFF0) + sizeofListHead

-- The loop of `mem_pool_create` that adds `num` nodes from `list` on to the free list.
def carve (free : Nat) (size : Nat) : Nat → Nat → Heap → Heap
  | 0,       _,    l => l
  | num + 1, list, l => carve free size num (list + size) (listAdd l list free)

-- `mem` and `links` are the memory as `malloc` gives it.
def memPoolCreate (mem : Nat) (links : Heap) (num size : Nat) : Option MemPool :=
  if num = 0 then
    none
  else
    let list := mem + sizeofMemPool
    let links := initListHead links mem
    let links := initListHead links (mem + sizeofListHead)
    some { mem, links := carve mem (nodeSize size) num list links }

-- What `mem_pool_get` does after the point where it may have waited: it takes the first entry of the
-- free list and returns the buffer behind its header.
def memPoolTake (p : MemPool) : MemPool × Nat :=
  let list := p.links.next p.free
  let links := listDel p.links list
  let links := listAdd links list p.use
  ({ p with links }, list + sizeofListHead)

-- `mem_pool_get` up to the point where it either has its buffer or waits (`none`). The condition is
-- tested once, by an `if`: after the wait the function goes on with `memPoolTake`.
def memPoolGet (p : MemPool) : Option (MemPool × Nat) :=
  if listEmpty p.links p.free then none else some p.memPoolTake

-- A node with two null pointers in its header was made by `mem_pool_clone`, and is given back to
-- `free`, which changes no list.
def memPoolPut (p : MemPool) (node : Nat) : MemPool × Nat :=
  if p.mem = 0 ∨ node = 0 then
    (p, 1)
  else
    let list := node - sizeofListHead
    if p.links.prev list = 0 ∧ p.links.next list = 0 then
      (p, 0)
    else
      let links := listDel p.links list
      let links := listAdd links list p.free
      ({ p with links }, 0)

-- Whether `mem_pool_put` gives a node back to the free list, and then signals the condition variable.
def memPoolPutSignals (p : MemPool) (node : Nat) : Bool :=
  let list := node - sizeofListHead
  p.mem ≠ 0 ∧ node ≠ 0 ∧ ¬(p.links.prev list = 0 ∧ p.links.next list = 0)

-- The header addresses of the nodes of a pool at `mem`.
def nodes (mem : Nat) (num size : Nat) : List Nat :=
  List.range num |>.map (mem + sizeofMemPool + · * nodeSize size)

-- The shape of a pool: `xs` are the headers on the free list, `ys` those on the use list.
abbrev Lists (p : MemPool) (xs ys : List Nat) : Prop :=
  Rings p.links p.free xs p.use ys

variable {p : MemPool} {links : Heap} {mem n x num size : Nat} {xs ys zs : List Nat}

theorem nodeSize_pos (size : Nat) : 0 < nodeSize size := by
  simp [nodeSize, sizeofListHead]

theorem mem_nodes :
    n ∈ nodes mem num size ↔ ∃ i < num, n = mem + sizeofMemPool + i * nodeSize size := by
  simp [nodes, eq_comm]

theorem lt_of_mem_nodes (h : n ∈ nodes mem num size) : mem + sizeofListHead < n := by
  have ⟨i, _, h⟩ := mem_nodes.mp h
  simp only [sizeofMemPool, sizeofListHead] at *
  omega

theorem nodes_nodup (mem num size : Nat) : (nodes mem num size).Nodup := by
  refine List.Nodup.map ?_ List.nodup_range
  intro i j h
  have h : i * nodeSize size = j * nodeSize size := by simpa using h
  exact Nat.eq_of_mul_eq_mul_right (nodeSize_pos size) h

theorem Lists.listEmpty_iff (l : p.Lists xs ys) : listEmpty p.links p.free ↔ xs = [] :=
  ListHead.listEmpty_iff l.left

theorem Lists.memPoolTake (l : p.Lists (x :: xs) ys) :
    ∃ p', p.memPoolTake = (p', x + sizeofListHead) ∧ p'.mem = p.mem ∧ p'.Lists xs (x :: ys) := by
  have hx : p.links.next p.free = x := l.left.next_head
  refine ⟨p.memPoolTake.1, ?_, rfl, ?_⟩
  · simp [MemPool.memPoolTake, hx]
  · have l : Rings p.links p.free ([] ++ x :: xs) p.use ys := l
    simp only [MemPool.memPoolTake, hx]
    exact l.move

-- A node of the use list has a head or a node before it, so it is never taken for a clone.

theorem Lists.prev_ne_zero (l : p.Lists xs (ys ++ x :: zs)) (hx : ∀ y ∈ ys, y ≠ 0) :
    p.links.prev x ≠ 0 := by
  have hmem : p.links.prev x ∈ p.use :: ys := l.right.prev_mem ▸ List.getLast_mem _
  cases List.mem_cons.mp hmem
  case inl h => simp [h, use, sizeofListHead]
  case inr h => exact hx _ h

theorem Lists.memPoolPut (l : p.Lists xs (ys ++ x :: zs)) (hm : p.mem ≠ 0) (hx : ∀ y ∈ ys, y ≠ 0) :
    ∃ p', p.memPoolPut (x + sizeofListHead) = (p', 0) ∧ p'.mem = p.mem ∧
      p'.Lists (x :: xs) (ys ++ zs) := by
  have hprev : p.links.prev x ≠ 0 := l.prev_ne_zero hx
  refine ⟨(p.memPoolPut (x + sizeofListHead)).1, ?_, ?_, ?_⟩
  all_goals
    simp only [MemPool.memPoolPut, Nat.add_sub_cancel, hm, hprev, false_and, false_or, if_false]
    simp [sizeofListHead]
  exact l.symm.move.symm

theorem carve_rings {h k : Nat} {l : Heap} (num list : Nat) (hs : 0 < size)
    (r : Rings l h xs k zs) (hl : ∀ y ∈ (h :: xs) ++ (k :: zs), y < list) :
    Rings (carve h size num list l) h
      ((List.range num |>.map (list + · * size)).reverse ++ xs) k zs := by
  induction num generalizing list l xs
  case zero => simpa [carve] using r
  case succ num hi =>
    have hn : list ∉ (h :: xs) ++ (k :: zs) := fun hc => Nat.lt_irrefl _ (hl _ hc)
    have r' := hi (list + size) (r.add hn) <| by
      intro y hy
      have : y = list ∨ y ∈ (h :: xs) ++ (k :: zs) := by grind
      cases this
      case inl h => omega
      case inr h => exact Nat.lt_add_right _ (hl _ h)
    have hg : (fun i => list + (i + 1) * size) = (list + size + · * size) := by
      funext i
      rw [Nat.succ_mul]
      omega
    simpa [carve, List.range_succ_eq_map, Function.comp_def, hg] using r'

-- A new pool has all its nodes on the free list, the last one first.
theorem memPoolCreate_lists (h : memPoolCreate mem links num size = some p) :
    p.mem = mem ∧ p.Lists (nodes mem num size).reverse [] := by
  simp only [memPoolCreate, Option.ite_none_left_eq_some, Option.some.injEq] at h
  have ⟨_, h⟩ := h
  subst h
  refine ⟨rfl, ?_⟩
  have rings : Rings (initListHead (initListHead links mem) (mem + sizeofListHead)) mem []
      (mem + sizeofListHead) [] := {
    left  := ring_frame initListHead_ring fun x hx => initListHead_frame <| by
      simp at hx
      simp [hx, sizeofListHead]
    right := initListHead_ring
    nodup := by simp [sizeofListHead]
  }
  have carved := carve_rings num (mem + sizeofMemPool) (nodeSize_pos size) rings <| by
    simp [sizeofMemPool, sizeofListHead]
  rwa [List.append_nil] at carved

end MemPool
