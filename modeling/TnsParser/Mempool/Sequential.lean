import Mathlib.Algebra.GroupWithZero.Nat
import TnsParser.Library.Machine
import TnsParser.Library.Region
import TnsParser.Mempool.Basic

-- A pool that one thread uses, which also makes copies of its buffers with `mem_pool_clone`.

open ListHead

-- The two words of a list header.
def ListHead.header (list : Nat) : Region :=
  ⟨list, sizeofListHead⟩

-- A write to a region. The words that have a byte there read as in `data` after it.
def ListHead.overwrite (l : Heap) (r : Region) (data : Heap) : Heap where
  next x := if Region.Apart ⟨x, 8⟩ r then l.next x else data.next x
  prev x := if Region.Apart ⟨x + 8, 8⟩ r then l.prev x else data.prev x

namespace MemPool

-- `mem` is what `malloc` returns, and `data` what is in the buffer that is copied.
def memPoolClone (l : Heap) (mem : Option Nat) (size : Nat) (data : Heap) : Heap × Option Nat :=
  match mem with
  | none      => (l, none)
  | some list =>
    let l := l.setPrev list 0
    let l := l.setNext list 0
    let l := overwrite l ⟨list + sizeofListHead, size⟩ data
    (l, some (list + sizeofListHead))

-- Whether `mem_pool_put` gives the node to `free`.
def memPoolPutFrees (p : MemPool) (node : Nat) : Bool :=
  let list := node - sizeofListHead
  p.mem ≠ 0 ∧ node ≠ 0 ∧ p.links.prev list = 0 ∧ p.links.next list = 0

-- What `mem_pool_create` allocates.
def allocation (mem num size : Nat) : Region :=
  ⟨mem, num * nodeSize size + sizeofMemPool⟩

-- The list headers of a pool: the heads of the free list and the use list, and those of the nodes.
def headers (mem num size : Nat) : List Nat :=
  mem :: (mem + sizeofListHead) :: nodes mem num size

structure Clone where
  list : Nat
  size : Nat

def Clone.node (c : Clone) : Nat := c.list + sizeofListHead

def Clone.block (c : Clone) : Region := ⟨c.list, c.size + sizeofListHead⟩

-- The pool, the buffers that `mem_pool_get` has returned, and the clones. Neither have been put back.
structure Sequential where
  pool   : MemPool
  held   : List Nat
  clones : List Clone

namespace Sequential

inductive Op
  | get
  | put (node : Nat)
  | clone (node size : Nat) (mem : Option Nat) (data : Heap)
  | write (r : Region) (data : Heap)

inductive Result
  | got (node : Nat)
  | put (freed : Bool) (r : Nat)
  | cloned (node : Option Nat)
  | written

-- A get that would wait is not possible, since nobody could end its wait.
def step : Machine Sequential Op Result
  | s, .get =>
    s.pool.memPoolGet.map fun (pool, node) => ({ s with pool, held := node :: s.held }, .got node)
  | s, .put node =>
    let (pool, r) := s.pool.memPoolPut node
    let result := .put (s.pool.memPoolPutFrees node) r
    if node ∈ s.held then
      some ({ s with pool, held := s.held.erase node }, result)
    else if node ∈ s.clones.map (·.node) then
      some ({ s with pool, clones := s.clones.filter (·.node ≠ node) }, result)
    else
      none
  | s, .clone node size mem data =>
    if node ∈ s.held then
      let (links, result) := memPoolClone s.pool.links mem size data
      let clones := mem.toList.map (⟨·, size⟩)
      some ({ s with pool.links := links, clones := clones ++ s.clones }, .cloned result)
    else
      none
  | s, .write r data =>
    some ({ s with pool.links := overwrite s.pool.links r data }, .written)

-- A block that `malloc` returns has nothing of the pool and of the clones in it. Who holds a buffer writes
-- to the first `size` bytes of it.
def Allowed (mem num size : Nat) (s : Sequential) : Op → Prop
  | .clone _ size' block _ => ∀ list ∈ block, list ≠ 0 ∧
      Region.Apart (Clone.block ⟨list, size'⟩) (allocation mem num size) ∧
      ∀ c ∈ s.clones, Region.Apart (Clone.block ⟨list, size'⟩) c.block
  | .write r _ => (∃ b ∈ s.held, r.Within ⟨b, size⟩) ∨ ∃ c ∈ s.clones, r.Within ⟨c.node, c.size⟩
  | _ => True

def start (p : MemPool) : Sequential := ⟨p, [], []⟩

-- What is to hold of the buffers, of the lists, and of the clones.
structure Conserved (mem num size : Nat) (s : Sequential) : Prop where
  apart   : s.held.Pairwise fun b c => b ≠ c ∧ Region.Apart ⟨b, size⟩ ⟨c, size⟩
  inside  : ∀ b ∈ s.held, Region.Within ⟨b, size⟩ (allocation mem num size)
  aligned : ∀ b ∈ s.held, 16 ∣ b - mem
  headers : ∀ b ∈ s.held, ∀ h ∈ headers mem num size, Region.Apart ⟨b, size⟩ (header h)
  chains  : ∃ xs ys, s.pool.Lists xs ys ∧ (xs ++ ys).Perm (nodes mem num size) ∧
    s.held.Perm (ys.map (· + sizeofListHead)) ∧ s.held.length + xs.length = num
  puts    : ∀ b ∈ s.held, ∃ s', step s (.put b) = some (s', .put false 0)
  frees   : ∀ c ∈ s.clones, step s (.put c.node) =
    some ({ s with clones := s.clones.filter (·.node ≠ c.node) }, .put true 0)

end Sequential

-- What `mem_pool_create` allocates fits an `int`.
def Fits (num size : Nat) : Prop :=
  num * ((size + 15) / 16 * 16 + sizeofListHead) + sizeofMemPool < 2 ^ 31

instance {num size : Nat} : Decidable (Fits num size) :=
  inferInstanceAs <| Decidable (_ < _)

section Layout

variable {mem num size n m h : Nat}

theorem and_mask (h : n < 2 ^ 32) : n &&& 0xFFFFFFF0 = n / 16 * 16 := by
  have hmask : 0xFFFFFFF0 = (2 ^ 28 - 1) <<< 4 := by decide
  have hround : n / 16 * 16 = (n >>> 4) <<< 4 := by
    rw [Nat.shiftRight_eq_div_pow, Nat.shiftLeft_eq]
  rw [hmask, hround]
  refine Nat.eq_of_testBit_eq fun i => ?_
  rw [Nat.testBit_and, Nat.testBit_shiftLeft, Nat.testBit_shiftLeft, Nat.testBit_shiftRight,
    Nat.testBit_two_pow_sub_one]
  by_cases hi : 4 ≤ i
  case neg => simp [hi]
  case pos =>
    by_cases hlt : i - 4 < 28
    case pos => simp [hi, hlt]
    case neg =>
      have hbit : n.testBit i = false :=
        Nat.testBit_lt_two_pow <| Nat.lt_of_lt_of_le h <| Nat.pow_le_pow_right (by decide) (by omega)
      simp [hi, hbit]

-- The mask rounds up to a multiple of 16.
theorem nodeSize_eq (hnum : 0 < num) (hf : Fits num size) :
    nodeSize size = (size + 15) / 16 * 16 + sizeofListHead := by
  have hle := Nat.le_mul_of_pos_left ((size + 15) / 16 * 16 + sizeofListHead) hnum
  simp only [Fits] at hf
  rw [nodeSize, and_mask (by omega)]

-- A node ends before the next one starts.
theorem mul_add_le_mul {i j : Nat} (hlt : i < j) (k : Nat) : i * k + k ≤ j * k :=
  Nat.succ_mul i k ▸ Nat.mul_le_mul_right k (Nat.succ_le_of_lt hlt)

theorem within_allocation (hn : n ∈ nodes mem num size) :
    Region.Within ⟨n, nodeSize size⟩ (allocation mem num size) := by
  obtain ⟨i, hi, rfl⟩ := mem_nodes.mp hn
  have hle := mul_add_le_mul hi (nodeSize size)
  simp only [Region.Within, allocation]
  omega

theorem nodes_apart (hn : n ∈ nodes mem num size) (hm : m ∈ nodes mem num size) (hne : n ≠ m) :
    Region.Apart ⟨n, nodeSize size⟩ ⟨m, nodeSize size⟩ := by
  obtain ⟨i, hi, rfl⟩ := mem_nodes.mp hn
  obtain ⟨j, hj, rfl⟩ := mem_nodes.mp hm
  simp only [Region.Apart]
  cases Nat.lt_or_gt_of_ne (fun he : i = j => hne (he ▸ rfl))
  case inl hlt =>
    have hle := mul_add_le_mul hlt (nodeSize size)
    omega
  case inr hlt =>
    have hle := mul_add_le_mul hlt (nodeSize size)
    omega

theorem header_within : Region.Within (header n) ⟨n, nodeSize size⟩ :=
  ⟨Nat.le_refl _, Nat.add_le_add_left (Nat.le_add_left ..) _⟩

theorem header_within_allocation (hh : h ∈ headers mem num size) :
    Region.Within (header h) (allocation mem num size) := by
  simp only [headers, List.mem_cons] at hh
  obtain rfl | rfl | hh := hh
  · simp only [Region.Within, header, allocation, sizeofMemPool]
    omega
  · simp only [Region.Within, header, allocation, sizeofMemPool]
    omega
  · exact header_within.trans (within_allocation hh)

theorem buffer_within (hs : size + sizeofListHead ≤ nodeSize size) :
    Region.Within ⟨n + sizeofListHead, size⟩ ⟨n, nodeSize size⟩ := by
  simp only [Region.Within]
  omega

-- The buffer of a node has nothing of any header in it.
theorem buffer_apart_header (hs : size + sizeofListHead ≤ nodeSize size) (hn : n ∈ nodes mem num size)
    (hh : h ∈ headers mem num size) : Region.Apart ⟨n + sizeofListHead, size⟩ (header h) := by
  have habove := lt_of_mem_nodes hn
  simp only [headers, List.mem_cons] at hh
  by_cases he : h = n
  case pos => exact .inr (he ▸ Nat.le_refl _)
  case neg =>
    obtain rfl | rfl | hh := hh
    · simp only [Region.Apart, header]
      omega
    · simp only [Region.Apart, header]
      omega
    · exact nodes_apart hn hh (Ne.symm he) |>.mono (buffer_within hs) header_within

end Layout

namespace Sequential

-- The invariant: `xs` and `ys` are the nodes of the free list and the use list.
structure Inv (mem num size : Nat) (s : Sequential) (xs ys : List Nat) : Prop where
  base    : s.pool.mem = mem
  lists   : s.pool.Lists xs ys
  perm    : (xs ++ ys).Perm (nodes mem num size)
  held    : s.held.Perm (ys.map (· + sizeofListHead))
  null    : ∀ c ∈ s.clones, s.pool.links.next c.list = 0 ∧ s.pool.links.prev c.list = 0
  outside : ∀ c ∈ s.clones, Region.Apart c.block (allocation mem num size)
  blocks  : s.clones.Pairwise fun c d => Region.Apart c.block d.block

variable {mem num size x h : Nat} {xs ys zs : List Nat} {links data : Heap} {s s' : Sequential}
  {c : Clone} {r : Region} {p : MemPool}

theorem overwrite_frame (links data : Heap) (ha : Region.Apart (header x) r) :
    (overwrite links r data).next x = links.next x ∧ (overwrite links r data).prev x = links.prev x := by
  have hnext : Region.Apart ⟨x, 8⟩ r := ha.left (by simp [Region.Within, header, sizeofListHead])
  have hprev : Region.Apart ⟨x + 8, 8⟩ r := ha.left (by simp [Region.Within, header, sizeofListHead])
  exact ⟨if_pos hnext, if_pos hprev⟩

theorem clone_header : Region.Within (header c.list) c.block :=
  ⟨Nat.le_refl _, Nat.add_le_add_left (Nat.le_add_left ..) _⟩

theorem clone_buffer : Region.Within ⟨c.node, c.size⟩ c.block := by
  simp only [Region.Within, Clone.node, Clone.block]
  omega

-- The block of a clone does not start where its buffer does, nor where that of another one does.
theorem ne_of_apart (ha : Region.Apart (header x) (header h)) : x ≠ h := by
  rintro rfl
  exact Region.not_apart_self (by decide : 0 < 16) ha

namespace Inv

theorem mem_headers (i : Inv mem num size s xs ys) :
    x ∈ (s.pool.free :: xs) ++ (s.pool.use :: ys) ↔ x ∈ headers mem num size := by
  have hm : x ∈ xs ++ ys ↔ x ∈ nodes mem num size := i.perm.mem_iff
  have hfree : s.pool.free = mem := i.base
  have huse : s.pool.use = mem + sizeofListHead := i.base ▸ rfl
  simp only [headers, List.mem_append, List.mem_cons, hfree, huse] at hm ⊢
  tauto

-- The headers of the pool and those of the clones are different.
theorem clone_apart (i : Inv mem num size s xs ys) (hc : c ∈ s.clones) (hh : h ∈ headers mem num size) :
    Region.Apart c.block (header h) :=
  i.outside c hc |>.right <| header_within_allocation hh

theorem clone_not_mem (i : Inv mem num size s xs ys) (hc : c ∈ s.clones) :
    c.list ∉ (s.pool.free :: xs) ++ (s.pool.use :: ys) := fun hm =>
  ne_of_apart (i.clone_apart hc (i.mem_headers.mp hm) |>.left clone_header) rfl

-- A change of words that leaves the headers alone keeps the invariant.
theorem frame (i : Inv mem num size s xs ys)
    (hp : ∀ x ∈ headers mem num size,
      links.next x = s.pool.links.next x ∧ links.prev x = s.pool.links.prev x)
    (hc : ∀ c ∈ s.clones,
      links.next c.list = s.pool.links.next c.list ∧ links.prev c.list = s.pool.links.prev c.list) :
    Inv mem num size { s with pool.links := links } xs ys where
  base    := i.base
  perm    := i.perm
  held    := i.held
  outside := i.outside
  blocks  := i.blocks
  null    := fun c hm => by
    obtain ⟨hn, hp⟩ := hc c hm
    rw [hn, hp]
    exact i.null c hm
  lists   := {
    left  := ring_frame i.lists.left fun x hx => hp x <| i.mem_headers.mp <| List.mem_append_left _ hx
    right := ring_frame i.lists.right fun x hx => hp x <| i.mem_headers.mp <| List.mem_append_right _ hx
    nodup := i.lists.nodup
  }

-- What is held is the buffer of a node.
theorem node_of_held (i : Inv mem num size s xs ys) {b : Nat} (hb : b ∈ s.held) :
    ∃ n ∈ ys, b = n + sizeofListHead := by
  obtain ⟨n, hn, h⟩ := List.mem_map.mp <| i.held.mem_iff.mp hb
  exact ⟨n, hn, h.symm⟩

theorem mem_nodes_of_use (i : Inv mem num size s xs ys) (hx : x ∈ ys) : x ∈ nodes mem num size :=
  i.perm.mem_iff.mp <| List.mem_append_right _ hx

theorem get (i : Inv mem num size s (x :: xs) ys) :
    ∃ pool, s.pool.memPoolTake = (pool, x + sizeofListHead) ∧
      Inv mem num size { s with pool, held := (x + sizeofListHead) :: s.held } xs (x :: ys) := by
  obtain ⟨pool, hp, hm, hl⟩ := i.lists.memPoolTake
  have hx : s.pool.links.next s.pool.free = x := i.lists.left.next_head
  have hlinks : pool.links = listAdd (listDel s.pool.links x) x s.pool.use := by
    have hpool := congrArg (·.1.links) hp
    simpa [memPoolTake, hx] using hpool.symm
  refine ⟨pool, hp, ?_⟩
  exact {
    base    := hm.trans i.base
    lists   := hl
    perm    := List.perm_middle.trans i.perm
    held    := i.held.cons _
    outside := i.outside
    blocks  := i.blocks
    null    := fun c hc => by
      have hrings : Rings s.pool.links s.pool.free ([] ++ x :: xs) s.pool.use ys := i.lists
      obtain ⟨hn, hp⟩ := hrings.move_frame (i.clone_not_mem hc)
      rw [hlinks, hn, hp]
      exact i.null c hc
  }

-- A header of the use list is not taken for that of a clone.
theorem put (i : Inv mem num size s xs (ys ++ x :: zs)) (hmem : mem ≠ 0) :
    s.pool.memPoolPutFrees (x + sizeofListHead) = false ∧
      ∃ pool, s.pool.memPoolPut (x + sizeofListHead) = (pool, 0) ∧
        Inv mem num size { s with pool, held := s.held.erase (x + sizeofListHead) } (x :: xs)
          (ys ++ zs) := by
  have hp : s.pool.mem ≠ 0 := i.base ▸ hmem
  have hnz : ∀ y ∈ ys, y ≠ 0 := fun y hy =>
    Nat.ne_zero_of_lt <| lt_of_mem_nodes <| i.mem_nodes_of_use (List.mem_append_left _ hy)
  have hprev : s.pool.links.prev x ≠ 0 := i.lists.prev_ne_zero hnz
  obtain ⟨pool, hput, hm, hl⟩ := i.lists.memPoolPut hp hnz
  have hlinks : pool.links = listAdd (listDel s.pool.links x) x s.pool.free := by
    have hpool := congrArg (·.1.links) hput
    simpa [memPoolPut, hp, hprev, sizeofListHead] using hpool.symm
  refine ⟨by simp [memPoolPutFrees, hprev], pool, hput, ?_⟩
  exact {
    base    := hm.trans i.base
    lists   := hl
    perm    := by
      refine .trans ?_ i.perm
      simpa using (@List.perm_middle _ x (xs ++ ys) zs).symm
    held    := by
      have hheld : s.held.Perm ((x :: (ys ++ zs)).map (· + sizeofListHead)) :=
        i.held.trans <| List.perm_middle.map _
      simpa using hheld.erase (x + sizeofListHead)
    outside := i.outside
    blocks  := i.blocks
    null    := fun c hc => by
      have hrings : Rings s.pool.links s.pool.use (ys ++ x :: zs) s.pool.free xs := i.lists.symm
      have hlist : c.list ∉ (s.pool.use :: (ys ++ x :: zs)) ++ (s.pool.free :: xs) :=
        List.perm_append_comm.mem_iff.not.mp <| i.clone_not_mem hc
      obtain ⟨hn, hp⟩ := hrings.move_frame hlist
      rw [hlinks, hn, hp]
      exact i.null c hc
  }

-- That of a clone is, and no list is changed.
theorem put_clone (i : Inv mem num size s xs ys) (hmem : mem ≠ 0) (hc : c ∈ s.clones) :
    s.pool.memPoolPutFrees c.node = true ∧ s.pool.memPoolPut c.node = (s.pool, 0) ∧ c.node ∉ s.held := by
  obtain ⟨hn, hp⟩ := i.null c hc
  have hbase : s.pool.mem ≠ 0 := i.base ▸ hmem
  have hnode : c.node ≠ 0 := by simp [Clone.node, sizeofListHead]
  have hlist : c.node - sizeofListHead = c.list := Nat.add_sub_cancel ..
  refine ⟨?_, ?_, ?_⟩
  · simp [memPoolPutFrees, hlist, hn, hp, hbase, hnode]
  · simp [memPoolPut, hlist, hn, hp, hbase, hnode]
  · intro hheld
    obtain ⟨n, hy, he⟩ := i.node_of_held hheld
    have he : c.list = n := Nat.add_right_cancel he
    exact i.clone_not_mem hc <| he ▸ List.mem_append_right _ (.tail _ hy)

theorem free_clone (i : Inv mem num size s xs ys) (ok : Clone → Bool) :
    Inv mem num size { s with clones := s.clones.filter ok } xs ys where
  base    := i.base
  lists   := i.lists
  perm    := i.perm
  held    := i.held
  null    := fun c hc => i.null c (List.mem_of_mem_filter hc)
  outside := fun c hc => i.outside c (List.mem_of_mem_filter hc)
  blocks  := i.blocks.filter _

-- Writes to a clone stay away from the headers of all clones.
theorem clone_write {d : Clone} (i : Inv mem num size s xs ys) (hc : c ∈ s.clones) (hd : d ∈ s.clones)
    (hr : r.Within ⟨c.node, c.size⟩) : Region.Apart (header d.list) r := by
  by_cases he : d = c
  case pos =>
    refine Region.Apart.right (s := ⟨c.node, c.size⟩) ?_ hr
    exact .inl (he ▸ Nat.le_refl _)
  case neg =>
    have : Std.Symm fun c d : Clone => Region.Apart c.block d.block := ⟨fun _ _ h => h.symm⟩
    exact i.blocks.forall hd hc he |>.mono clone_header (hr.trans clone_buffer)

theorem write (i : Inv mem num size s xs ys) (hs : size + sizeofListHead ≤ nodeSize size)
    (ha : (∃ b ∈ s.held, r.Within ⟨b, size⟩) ∨ ∃ c ∈ s.clones, r.Within ⟨c.node, c.size⟩) :
    Inv mem num size { s with pool.links := overwrite s.pool.links r data } xs ys := by
  refine i.frame (fun h hh => overwrite_frame _ _ ?_) fun d hd => overwrite_frame _ _ ?_
  · rcases ha with ⟨b, hb, hr⟩ | ⟨c, hc, hr⟩
    · obtain ⟨n, hn, rfl⟩ := i.node_of_held hb
      exact buffer_apart_header hs (i.mem_nodes_of_use hn) hh |>.left hr |>.symm
    · exact i.clone_apart hc hh |>.left (hr.trans clone_buffer) |>.symm
  · rcases ha with ⟨b, hb, hr⟩ | ⟨c, hc, hr⟩
    · obtain ⟨n, hn, rfl⟩ := i.node_of_held hb
      have hin : r.Within (allocation mem num size) :=
        hr.trans <| buffer_within hs |>.trans <| within_allocation <| i.mem_nodes_of_use hn
      exact i.outside d hd |>.mono clone_header hin
    · exact i.clone_write hc hd hr

theorem clone {list n : Nat} (i : Inv mem num size s xs ys)
    (ho : Region.Apart (Clone.block ⟨list, n⟩) (allocation mem num size))
    (hb : ∀ c ∈ s.clones, Region.Apart (Clone.block ⟨list, n⟩) c.block) :
    Inv mem num size { s with
      pool.links := (memPoolClone s.pool.links (some list) n data).1, clones := ⟨list, n⟩ :: s.clones }
      xs ys := by
  let new : Clone := ⟨list, n⟩
  have hbuffer : Region.Apart (header list) ⟨new.node, n⟩ := .inl (Nat.le_refl _)
  -- The words of other headers are changed neither when the header is set nor when the buffer is filled.
  have hother (x : Nat) (hx : Region.Apart new.block (header x)) :
      (memPoolClone s.pool.links (some list) n data).1.next x = s.pool.links.next x ∧
        (memPoolClone s.pool.links (some list) n data).1.prev x = s.pool.links.prev x := by
    have hne : x ≠ list := ne_of_apart (hx.left clone_header).symm
    obtain ⟨hn, hp⟩ := overwrite_frame ((s.pool.links.setPrev list 0).setNext list 0) data
      (hx.left clone_buffer).symm
    exact ⟨hn.trans <| by simp [Links.setNext_next, hne], hp.trans <| by simp [Links.setPrev_prev, hne]⟩
  have i' := i.frame (fun x hx => hother x <| ho.right <| header_within_allocation hx)
    fun c hc => hother c.list <| (hb c hc).right clone_header
  obtain ⟨hn, hp⟩ := overwrite_frame ((s.pool.links.setPrev list 0).setNext list 0) data hbuffer
  exact {
    base    := i'.base
    lists   := i'.lists
    perm    := i'.perm
    held    := i'.held
    null    := List.forall_mem_cons.mpr ⟨⟨hn.trans <| by simp [Links.setNext_next],
      hp.trans <| by simp [Links.setPrev_prev]⟩, i'.null⟩
    outside := List.forall_mem_cons.mpr ⟨ho, i.outside⟩
    blocks  := List.pairwise_cons.mpr ⟨hb, i.blocks⟩
  }

-- Every operation that is allowed keeps the invariant.
theorem step {op : Op} {o : Result} (i : Inv mem num size s xs ys) (hmem : mem ≠ 0)
    (hs : size + sizeofListHead ≤ nodeSize size) (ha : Allowed mem num size s op)
    (h : step s op = some (s', o)) : ∃ xs ys, Inv mem num size s' xs ys := by
  cases op
  case get =>
    simp only [Sequential.step, memPoolGet, i.lists.listEmpty_iff] at h
    cases xs
    case nil       => simp at h
    case cons x xs =>
      obtain ⟨pool, hpool, i'⟩ := i.get
      simp only [List.cons_ne_nil, if_false, hpool, Option.map_some] at h
      cases h
      exact ⟨_, _, i'⟩
  case put node =>
    simp only [Sequential.step] at h
    by_cases hheld : node ∈ s.held
    case pos =>
      obtain ⟨x, hx, rfl⟩ := i.node_of_held hheld
      obtain ⟨ys, zs, rfl⟩ := List.append_of_mem hx
      obtain ⟨_, pool, hpool, i'⟩ := i.put hmem
      rw [if_pos hheld, hpool] at h
      cases h
      exact ⟨_, _, i'⟩
    case neg =>
      rw [if_neg hheld] at h
      by_cases hclone : node ∈ s.clones.map (·.node)
      case neg => simp [hclone] at h
      case pos =>
        obtain ⟨c, hc, rfl⟩ := List.mem_map.mp hclone
        rw [if_pos hclone, i.put_clone hmem hc |>.right.left] at h
        cases h
        exact ⟨_, _, i.free_clone _⟩
  case clone node n block data =>
    simp only [Sequential.step] at h
    by_cases hheld : node ∈ s.held
    case neg => simp [hheld] at h
    case pos =>
      rw [if_pos hheld] at h
      cases block
      case none =>
        cases h
        exact ⟨_, _, i⟩
      case some list =>
        obtain ⟨_, ho, hb⟩ := ha list rfl
        cases h
        exact ⟨_, _, i.clone ho hb⟩
  case write r data =>
    cases h
    exact ⟨_, _, i.write hs ha⟩

theorem conserved (i : Inv mem num size s xs ys) (hmem : mem ≠ 0)
    (hs : size + sizeofListHead ≤ nodeSize size) (hd : 16 ∣ nodeSize size) :
    Conserved mem num size s where
  apart   := by
    have hsymm : Std.Symm fun b c => b ≠ c ∧ Region.Apart ⟨b, size⟩ ⟨c, size⟩ :=
      ⟨fun _ _ h => ⟨h.left.symm, h.right.symm⟩⟩
    have hnodup : ys.Nodup := i.perm.nodup_iff.mpr (nodes_nodup ..) |>.of_append_right
    rw [i.held.pairwise_iff (hsymm.symm _ _ ·), List.pairwise_map]
    refine hnodup.imp_of_mem fun hn hm hne => ⟨fun he => hne (Nat.add_right_cancel he), ?_⟩
    exact nodes_apart (i.mem_nodes_of_use hn) (i.mem_nodes_of_use hm) hne
      |>.mono (buffer_within hs) (buffer_within hs)
  inside  := fun b hb => by
    obtain ⟨n, hn, rfl⟩ := i.node_of_held hb
    exact buffer_within hs |>.trans <| within_allocation <| i.mem_nodes_of_use hn
  aligned := fun b hb => by
    obtain ⟨n, hn, rfl⟩ := i.node_of_held hb
    obtain ⟨j, _, rfl⟩ := mem_nodes.mp <| i.mem_nodes_of_use hn
    have hj : 16 ∣ j * nodeSize size := Nat.dvd_trans hd (Nat.dvd_mul_left ..)
    simp only [sizeofMemPool, sizeofListHead]
    omega
  headers := fun b hb h hh => by
    obtain ⟨n, hn, rfl⟩ := i.node_of_held hb
    exact buffer_apart_header hs (i.mem_nodes_of_use hn) hh
  chains  := by
    have hlen := i.perm.length_eq
    have hheld := i.held.length_eq
    refine ⟨xs, ys, i.lists, i.perm, i.held, ?_⟩
    simp [nodes] at hlen hheld
    omega
  puts    := fun b hb => by
    obtain ⟨n, hn, rfl⟩ := i.node_of_held hb
    obtain ⟨ys, zs, rfl⟩ := List.append_of_mem hn
    obtain ⟨hfrees, pool, hpool, _⟩ := i.put hmem
    refine ⟨{ s with pool, held := s.held.erase (n + sizeofListHead) }, ?_⟩
    simp only [Sequential.step, hb, hfrees, hpool, if_true]
  frees   := fun c hc => by
    obtain ⟨hfrees, hput, hheld⟩ := i.put_clone hmem hc
    have hclone : c.node ∈ s.clones.map (·.node) := List.mem_map_of_mem hc
    simp only [Sequential.step, hheld, hclone, hfrees, hput, if_false, if_true]

end Inv

-- In every run, the buffers and the lists of the pool are as they should be, and no clone gets into the
-- lists.
theorem conserved_of_steps (links : Heap) (hnum : 0 < num) (hf : Fits num size) (hmem : mem ≠ 0) :
    ∃ p, memPoolCreate mem links num size = some p ∧
      ∀ tr s, step.Steps (Allowed mem num size) (start p) tr s → Conserved mem num size s := by
  have hsize := nodeSize_eq hnum hf
  have hs : size + sizeofListHead ≤ nodeSize size := by omega
  have hd : 16 ∣ nodeSize size := by
    simp only [sizeofListHead] at hsize
    omega
  obtain ⟨p, hp⟩ : ∃ p, memPoolCreate mem links num size = some p := ⟨_, if_neg (Nat.ne_of_gt hnum)⟩
  refine ⟨p, hp, fun tr s e => ?_⟩
  obtain ⟨hm, hl⟩ := memPoolCreate_lists hp
  have i : Inv mem num size (start p) (nodes mem num size).reverse [] := {
    base    := hm
    lists   := hl
    perm    := by simp [List.reverse_perm]
    held    := .nil
    null    := List.forall_mem_nil _
    outside := List.forall_mem_nil _
    blocks  := .nil
  }
  obtain ⟨xs, ys, i⟩ := e.preserves (fun s => ∃ xs ys, Inv mem num size s xs ys) ⟨_, _, i⟩ <| by
    rintro _ _ _ _ ⟨xs, ys, i⟩ ha h
    exact i.step hmem hs ha h
  exact i.conserved hmem hs hd

-- A pool of two buffers, of which one is held and has a clone.
theorem conserved_of_clone :
    ∃ s, Conserved 0x1000 2 20 s ∧ s.held = [0x1060] ∧ s.clones = [⟨0x2000, 20⟩] := by
  have hf : Fits 2 20 := by decide
  obtain ⟨p, hp, h⟩ := conserved_of_steps ⟨id, id⟩ (by decide) hf (by decide : 0x1000 ≠ 0)
  cases hp
  refine ⟨_, h _ _ <| .snoc (.snoc .refl (i := Op.get) trivial rfl)
    (i := Op.clone 0x1060 20 (some 0x2000) ⟨id, id⟩) ?_ rfl, rfl, rfl⟩
  rintro _ ⟨⟩
  exact ⟨by decide, by decide, List.forall_mem_nil _⟩

end Sequential
end MemPool
