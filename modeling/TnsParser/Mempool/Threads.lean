import TnsParser.Library.Monitor
import TnsParser.Mempool.Basic

open ListHead

namespace MemPool

-- A pool that several threads use, with the buffers that each of them holds.
structure Shared (τ : Type*) where
  pool : MemPool
  held : τ → List Nat

inductive Call
  | get
  | put (node : Nat)

inductive Out
  | wait
  | got (node : Nat)
  | ret (r : Nat)

namespace Shared

variable {τ : Type*} [DecidableEq τ]

def hold (s : Shared τ) (t : τ) : MemPool × Nat → Shared τ
  | (pool, node) => { pool, held := Function.update s.held t (node :: s.held t) }

-- The sections under `g_poollock` of a thread `t`, which puts back only what it holds. A thread that
-- returns from `pthread_cond_wait` is in the middle of `mem_pool_get` and does not test the list again.
-- (`mem_pool_put` looks for a clone before it takes the lock, but the words that it reads there are
-- null in no order of the steps.)
def locked (t : τ) : Machine (Shared τ) (Call ⊕ Unit) Out
  | s, .inl .get =>
    match s.pool.memPoolGet with
    | none   => some (s, .wait)
    | some r => some (s.hold t r, .got r.2)
  | s, .inr () =>
    let r := s.pool.memPoolTake
    some (s.hold t r, .got r.2)
  | s, .inl (.put node) =>
    if node ∈ s.held t then
      let (pool, r) := s.pool.memPoolPut node
      some ({ pool, held := Function.update s.held t (s.held t |>.erase node) }, .ret r)
    else
      none

def wait : Call ⊕ Unit → Out → Option Unit
  | _, .wait => some ()
  | _, _     => none

abbrev threads : Machine (Monitor.State τ (Shared τ) Unit) (Monitor.Action τ Call) Out :=
  Monitor.threads locked wait

abbrev start (p : MemPool) : Monitor.State τ (Shared τ) Unit :=
  .init { pool := p, held := fun _ => [] }

-- A getter that comes back from its wait finds a free node.
def WakesToFree (s : Monitor.State τ (Shared τ) Unit) : Monitor.Action τ Call → Prop
  | .wake _   => ¬listEmpty s.shared.pool.links s.shared.pool.free
  | .call _ _ => True

-- The free list and the use list are well formed and share no header, and their nodes together are
-- the nodes of the pool.
def Partitioned (nodes : List Nat) (s : Shared τ) : Prop :=
  ∃ xs ys, s.pool.Lists xs ys ∧ (xs ++ ys).Perm nodes

-- The buffer `node` lies behind the header of a node of the pool, and nobody holds it.
def Available (nodes : List Nat) (s : Shared τ) (node : Nat) : Prop :=
  (∃ n ∈ nodes, node = n + sizeofListHead) ∧ ∀ t, node ∉ s.held t

-- The invariant: next to the partition of the nodes, held buffers belong to nodes of the use list,
-- and no buffer is held twice.
structure Inv (nodes : List Nat) (s : Shared τ) (xs ys : List Nat) : Prop where
  lists    : s.pool.Lists xs ys
  mem      : s.pool.mem ≠ 0
  perm     : (xs ++ ys).Perm nodes
  above    : ∀ n ∈ nodes, s.pool.mem < n
  use      : ∀ t, ∀ b ∈ s.held t, ∃ n ∈ ys, b = n + sizeofListHead
  nodup    : ∀ t, (s.held t).Nodup
  disjoint : ∀ t u, t ≠ u → List.Disjoint (s.held t) (s.held u)

namespace Inv

variable {nodes xs ys : List Nat} {x : Nat} {s s' : Shared τ} {t : τ}

omit [DecidableEq τ] in
theorem partitioned (i : Inv nodes s xs ys) : Partitioned nodes s :=
  ⟨xs, ys, i.lists, i.perm⟩

-- The first node of the free list is available.
omit [DecidableEq τ] in
theorem available (i : Inv nodes s (x :: xs) ys) : Available nodes s (x + sizeofListHead) := by
  refine ⟨⟨x, i.perm.subset (by simp), rfl⟩, fun t ht => ?_⟩
  have ⟨n, hn, h⟩ := i.use t _ ht
  have hx : x = n := Nat.add_right_cancel h
  exact i.lists.disjoint (by simp) (.tail _ <| hx ▸ hn)

theorem take (i : Inv nodes s (x :: xs) ys) :
    s.pool.memPoolTake.2 = x + sizeofListHead ∧
      Inv nodes (s.hold t s.pool.memPoolTake) xs (x :: ys) := by
  have ⟨pool, hp, hm, hl⟩ := i.lists.memPoolTake
  have ⟨_, hav⟩ := i.available
  rw [hp]
  refine ⟨rfl, hl, hm ▸ i.mem, ?perm, hm ▸ i.above, ?use, ?nodup, ?disjoint⟩
  case perm => exact List.perm_middle.trans i.perm
  case use =>
    intro u b hb
    simp only [hold, Function.update_apply] at hb
    split at hb
    · cases List.mem_cons.mp hb
      case inl hb => exact ⟨x, by simp, hb⟩
      case inr hb => exact i.use _ b hb |>.imp fun n hn => ⟨.tail _ hn.left, hn.right⟩
    · exact i.use u b hb |>.imp fun n hn => ⟨.tail _ hn.left, hn.right⟩
  case nodup =>
    intro u
    simp only [hold, Function.update_apply]
    split
    · exact List.nodup_cons.mpr ⟨hav t, i.nodup t⟩
    · exact i.nodup u
  case disjoint =>
    intro u v huv
    simp only [hold, Function.update_apply]
    split <;> split
    · simp_all
    · simpa using ⟨hav v, by simp_all [i.disjoint]⟩
    · simpa using ⟨hav u, by simp_all [i.disjoint]⟩
    · exact i.disjoint u v huv

-- What is still held after `t` gave `b` back.
omit [DecidableEq τ] in
theorem mem_erase [DecidableEq τ] (i : Inv nodes s xs ys) {b c : Nat} {u : τ} (hb : b ∈ s.held t)
    (hc : c ∈ Function.update s.held t (s.held t |>.erase b) u) : c ∈ s.held u ∧ c ≠ b := by
  rw [Function.update_apply] at hc
  split at hc
  case isTrue h =>
    subst h
    have ⟨hne, hm⟩ := i.nodup u |>.mem_erase_iff.mp hc
    exact ⟨hm, hne⟩
  case isFalse h =>
    refine ⟨hc, ?_⟩
    rintro rfl
    exact i.disjoint u t h hc hb

theorem put {zs : List Nat} (i : Inv nodes s xs (ys ++ x :: zs))
    (hb : x + sizeofListHead ∈ s.held t) :
    ∃ pool, s.pool.memPoolPut (x + sizeofListHead) = (pool, 0) ∧
      Inv nodes { pool, held := Function.update s.held t (s.held t |>.erase (x + sizeofListHead)) }
        (x :: xs) (ys ++ zs) := by
  have hnz : ∀ y ∈ ys, y ≠ 0 := fun y hy =>
    Nat.ne_zero_of_lt <| i.above y <| i.perm.subset (by simp [hy])
  have ⟨pool, hp, hm, hl⟩ := i.lists.memPoolPut i.mem hnz
  refine ⟨pool, hp, hl, hm ▸ i.mem, ?perm, hm ▸ i.above, ?use, ?nodup, ?disjoint⟩
  case perm =>
    refine .trans ?_ i.perm
    simpa using (@List.perm_middle _ x (xs ++ ys) zs).symm
  case use =>
    intro u c hc
    have ⟨hc, hne⟩ := i.mem_erase hb hc
    have ⟨n, hn, h⟩ := i.use u c hc
    have hnx : n ≠ x := by rintro rfl; exact hne h
    exact ⟨n, by simpa [hnx] using hn, h⟩
  case nodup =>
    intro u
    simp only [Function.update_apply]
    split
    · exact (i.nodup t).erase _
    · exact i.nodup u
  case disjoint =>
    intro u v huv c hcu hcv
    exact i.disjoint u v huv (i.mem_erase hb hcu).left (i.mem_erase hb hcv).left

-- A section that continues a get only while a node is free keeps the invariant, and the buffer that it
-- hands out, if it does, was available.
theorem locked {sec : Call ⊕ Unit} {o : Out} (i : Inv nodes s xs ys)
    (hw : sec = .inr () → ¬listEmpty s.pool.links s.pool.free)
    (h : s.locked t sec = some (s', o)) :
    (∃ xs ys, Inv nodes s' xs ys) ∧ ∀ node, o = .got node → Available nodes s node := by
  have taken : ¬listEmpty s.pool.links s.pool.free →
      some (s.hold t s.pool.memPoolTake, Out.got s.pool.memPoolTake.2) = some (s', o) →
      (∃ xs ys, Inv nodes s' xs ys) ∧ ∀ node, o = .got node → Available nodes s node := by
    intro hne h
    cases xs
    case nil => exact absurd (i.lists.listEmpty_iff.mpr rfl) hne
    case cons x xs =>
      have ⟨hx, i'⟩ := i.take (t := t)
      cases h
      refine ⟨⟨_, _, i'⟩, ?_⟩
      rintro _ ⟨⟩
      exact hx ▸ i.available
  match sec with
  | .inl .get =>
    simp only [Shared.locked, memPoolGet] at h
    split at h
    case h_1 => cases h; exact ⟨⟨_, _, i⟩, nofun⟩
    case h_2 r hr =>
      split at hr <;> cases hr
      exact taken ‹_› h
  | .inr () => exact taken (hw rfl) h
  | .inl (.put node) =>
    simp only [Shared.locked] at h
    split at h <;> cases h
    have hb := ‹node ∈ _›
    have ⟨n, hn, hnode⟩ := i.use t node hb
    have ⟨ys, zs, hys⟩ := List.append_of_mem hn
    subst hnode hys
    have ⟨pool, hp, i'⟩ := i.put hb
    exact ⟨⟨_, _, by simpa [hp] using i'⟩, nofun⟩

-- A new pool, which nobody uses yet.
omit [DecidableEq τ] in
theorem start {mem num size : Nat} {links : Heap} {p : MemPool} (hmem : mem ≠ 0)
    (hp : memPoolCreate mem links num size = some p) :
    Inv (MemPool.nodes mem num size) (Shared.start (τ := τ) p).shared
      (MemPool.nodes mem num size).reverse [] := by
  have ⟨hm, hl⟩ := memPoolCreate_lists hp
  exact {
    lists    := hl
    mem      := hm ▸ hmem
    perm     := by simp [List.reverse_perm]
    above    := fun n hn => hm ▸ Nat.lt_of_le_of_lt (Nat.le_add_right _ _) (lt_of_mem_nodes hn)
    use      := by simp [Monitor.State.init]
    nodup    := by simp [Monitor.State.init]
    disjoint := by simp [Monitor.State.init]
  }

-- A getter that goes on with an empty free list is given the head of the list as if it were a node.
omit [DecidableEq τ] in
theorem not_available_of_empty (i : Inv nodes s [] ys) : ¬Available nodes s s.pool.memPoolTake.2 := by
  have hf : s.pool.links.next s.pool.mem = s.pool.mem := i.lists.left.next_head
  rintro ⟨⟨n, hm, h⟩, _⟩
  simp only [memPoolTake, free, hf] at h
  have := i.above n hm
  omega

end Inv

variable {mem num size : Nat} {links : Heap} {p : MemPool} {s : Monitor.State τ (Shared τ) Unit}
  {tr : List (Monitor.Action τ Call × Out)}

omit [DecidableEq τ] in
theorem wakesToFree_section {a : Monitor.Action τ Call} {t : τ} {sec : Call ⊕ Unit}
    (hw : WakesToFree s a) (hs : s.section? a = some (t, sec)) :
    sec = .inr () → ¬listEmpty s.shared.pool.links s.shared.pool.free := by
  rintro rfl
  cases a
  case call => simp [Monitor.State.section?] at hs
  case wake => exact hw

theorem inv_of_steps (hmem : mem ≠ 0) (hp : memPoolCreate mem links num size = some p)
    (e : threads.Steps WakesToFree (start p) tr s) :
    ∃ xs ys, Inv (nodes mem num size) s.shared xs ys :=
  Monitor.preserves (fun s => ∃ xs ys, Inv (nodes mem num size) s xs ys)
    ⟨_, _, .start hmem hp⟩
    (fun ⟨_, _, i⟩ hw hs h => i.locked (wakesToFree_section hw hs) h |>.left) e

-- In every run in which getters wake up to a free node only, the nodes of the two lists are at all
-- times the nodes of the pool, and a buffer is one of the pool that nobody holds when it is handed out.
-- The first getter that wakes up to an empty free list breaks this.
theorem memPoolGet_available_iff (hmem : mem ≠ 0)
    (hp : memPoolCreate mem links num size = some p)
    (e : threads.Steps WakesToFree (start p) tr s) :
    Partitioned (nodes mem num size) s.shared ∧
      ∀ a s' node, threads s a = some (s', .got node) →
        (Available (nodes mem num size) s.shared node ↔ WakesToFree s a) := by
  obtain ⟨xs, ys, i⟩ := inv_of_steps hmem hp e
  refine ⟨i.partitioned, fun a s' node h => ?_⟩
  obtain ⟨t, sec, hs, h, _⟩ := Monitor.threads_eq_some h
  constructor
  case mpr => exact fun hw => i.locked (wakesToFree_section hw hs) h |>.right node rfl
  case mp =>
    intro hav
    cases a
    case call => trivial
    case wake =>
      intro hempty
      have hxs := i.lists.listEmpty_iff.mp hempty
      simp only [Monitor.State.section?, Option.map_eq_some_iff, Prod.mk.injEq] at hs
      obtain ⟨_, _, _, hsec⟩ := hs
      subst hxs hsec
      simp only [locked, Option.some.injEq, Prod.mk.injEq, Out.got.injEq] at h
      exact i.not_available_of_empty <| h.right ▸ hav

def poolOfOne : MemPool :=
  memPoolCreate 0x1000 ⟨id, id⟩ 1 1536 |>.get rfl

-- One node and two getters: the second waits, and is woken when the first has put the node back.
theorem memPoolGet_available_of_wake :
    ∃ s : Monitor.State (Fin 2) (Shared (Fin 2)) Unit, Partitioned (nodes 0x1000 1 1536) s.shared ∧
      ∃ s' node, threads s (.wake 1) = some (s', .got node) ∧
        Available (nodes 0x1000 1 1536) s.shared node := by
  have hp : memPoolCreate 0x1000 ⟨id, id⟩ 1 1536 = some poolOfOne := rfl
  have e := Machine.Steps.refl (m := threads (τ := Fin 2)) (P := WakesToFree) (s := start poolOfOne)
    |>.snoc (i := .call 0 .get) (by trivial) rfl
    |>.snoc (i := .call 1 .get) (by trivial) rfl
    |>.snoc (i := .call 0 (.put 0x1030)) (by trivial) rfl
  have ⟨hp, ha⟩ := memPoolGet_available_iff (by decide) hp e
  refine ⟨_, hp, _, _, rfl, ha (.wake 1) _ _ rfl |>.mpr ?_⟩
  show ¬listEmpty _ _
  decide +kernel

-- One node and two getters: the second waits, and a spurious wake-up gives it the head of the list.
theorem memPoolGet_returns_head :
    ¬∀ (links : Heap) (p : MemPool) (tr : List (Monitor.Action (Fin 2) Call × Out))
      (s : Monitor.State (Fin 2) (Shared (Fin 2)) Unit),
      memPoolCreate 0x1000 links 1 1536 = some p → threads.Steps Machine.Free (start p) tr s →
        Partitioned (nodes 0x1000 1 1536) s.shared ∧
          ∀ a s' node, threads s a = some (s', .got node) →
            Available (nodes 0x1000 1 1536) s.shared node := by
  intro h
  have waits := h ⟨id, id⟩ _ _ _ rfl <|
    .snoc (.snoc .refl (i := .call 0 .get) trivial rfl) (i := .call 1 .get) trivial rfl
  have ⟨⟨n, hn, hh⟩, _⟩ := waits.right (.wake 1) _ _ rfl
  have hn : n = 0x1020 := by simpa [nodes, sizeofMemPool, sizeofListHead] using hn
  subst hn
  exact absurd hh (by decide)

end Shared
end MemPool
