import TnsParser.Queue.Threads

-- The nodes that `list_queue_put` allocates, over a whole run.

namespace ListQueue

variable {α τ : Type*} [DecidableEq τ] {q q' : ListQueue α} {heap heap' : Nat → Option (MyList α)} {xs : List (Nat × α)}
  {a ml first : Nat} {pkt p : α} {block : Bool} {t : τ} {i : Call α ⊕ α} {o : Out α}

-- The nodes in the queue are all that is allocated, besides what was when the queue was made.
structure Owns (heap : Nat → Option (MyList α)) (q : ListQueue α) (xs : List (Nat × α)) : Prop where
  chain : q.Chain xs
  fresh : ∀ a ∈ xs.map (·.1), heap a = none
  frame : ∀ a, a ∉ xs.map (·.1) → q.heap a = heap a

-- Everything that a put can do: nothing, or link the packet in.
omit [DecidableEq τ] in
theorem Chain.locked_put {ml : Option Nat} (c : q.Chain xs) (h : locked t q (.inl (.put pkt ml)) = some (q', o)) :
    (q' = q ∧ o = .ret (-1) pkt) ∨
      ∃ n, ml = some n ∧ q.abortRequest = false ∧ n ≠ 0 ∧ q.heap n = none ∧
        q.listQueuePutPrivate pkt (some n) = some (q', 0) ∧ q'.Chain (xs ++ [(n, pkt)]) ∧ o = .ret 0 pkt := by
  simp only [locked] at h
  split at h
  case isFalse => contradiction
  case isTrue hfresh =>
    cases ha : q.abortRequest
    case true =>
      simp only [listQueuePutPrivate, ha, if_true] at h
      cases h
      exact .inl ⟨rfl, rfl⟩
    case false =>
      cases ml
      case none =>
        simp only [listQueuePutPrivate, ha, Bool.false_eq_true, if_false] at h
        cases h
        exact .inl ⟨rfl, rfl⟩
      case some n =>
        obtain ⟨hz, hn⟩ := hfresh n rfl
        have hn := Option.isNone_iff_eq_none.mp hn
        obtain ⟨q₁, hput, c', -⟩ := c.put ha hz hn pkt
        rw [hput] at h
        cases h
        exact .inr ⟨n, rfl, rfl, hz, hn, hput, c', rfl⟩

omit [DecidableEq τ] in
theorem listQueuePutPrivate_frame (h : q.listQueuePutPrivate pkt (some ml) = some (q', 0)) (hm : a ≠ ml)
    (hl : q.last ≠ 0 → a ≠ q.last) : q'.heap a = q.heap a := by
  simp only [listQueuePutPrivate] at h
  split at h
  case isTrue => cases h
  case isFalse =>
    by_cases hlast : q.last = 0
    case pos =>
      simp only [hlast, if_true, bind, Option.bind, pure, Option.some.injEq, Prod.mk.injEq] at h
      rw [← h.left]
      exact Function.update_of_ne hm ..
    case neg =>
      simp only [hlast, if_false, setLastNext] at h
      obtain ⟨q₁, h₁, h⟩ := Option.bind_eq_some_iff.mp h
      obtain ⟨n, hn, h₁⟩ := Option.map_eq_some_iff.mp h₁
      cases h
      rw [← h₁]
      exact (Function.update_of_ne (hl hlast) ..).trans (Function.update_of_ne hm ..)

-- The loop frees what it goes through, and nothing else.
theorem freeNodes_heap (s : Segment.Seg MyList.pkt MyList.next heap first xs 0) (hn : (xs.map (·.1)).Nodup)
    (hz : 0 ∉ xs.map (·.1)) (h : freeNodes heap xs.length first = some heap') :
    ∀ a, heap' a = if a ∈ xs.map (·.1) then none else heap a := by
  induction xs generalizing heap first
  case nil =>
    have : first = 0 := s
    subst this
    cases h
    exact fun a => rfl
  case cons x xs hi =>
    obtain ⟨hxs, hn⟩ := List.nodup_cons.mp hn
    obtain ⟨hf, n, hheap, -, s⟩ := s.tail hxs
    cases first
    case zero => exact absurd (List.mem_cons.mpr (.inl hf)) hz
    case succ first =>
      simp only [List.length_cons, freeNodes, hheap, Option.bind_eq_bind, Option.bind_some] at h
      intro a
      rw [hi s hn (fun h => hz (.tail _ h)) h a]
      by_cases ha : a ∈ xs.map (·.1)
      case pos => simp [ha]
      case neg =>
        by_cases hx : a = x.1
        case pos => simp [hx, ← hf]
        case neg =>
          rw [Function.update_of_ne fun h => hx (h.trans hf)]
          simp [hx, ha]

namespace Owns

theorem start (heap : Nat → Option (MyList α)) : Owns heap (start heap) [] where
  chain := .nil rfl rfl rfl
  fresh := fun _ h => (by cases h)
  frame := fun _ _ => rfl

theorem put (w : Owns heap q xs) (ha : q.abortRequest = false) (hz : ml ≠ 0) (hm : q.heap ml = none)
    (h : q.listQueuePutPrivate pkt (some ml) = some (q', 0)) : Owns heap q' (xs ++ [(ml, pkt)]) := by
  obtain ⟨q₁, hput, c, -⟩ := w.chain.put ha hz hm pkt
  cases hput.symm.trans h
  have hml : ml ∉ xs.map (·.1) := w.chain.seg.fresh hm
  refine ⟨c, fun a ha => ?fresh, fun a ha => ?frame⟩
  all_goals rw [List.map_append, List.mem_append] at ha
  case fresh =>
    cases ha
    case inl ha => exact w.fresh a ha
    case inr ha =>
      cases List.mem_singleton.mp ha
      rw [← w.frame ml hml, hm]
  case frame =>
    obtain ⟨hxs, hne⟩ := not_or.mp ha
    have hlast (h0 : q.last ≠ 0) : a ≠ q.last := by
      rintro rfl
      cases List.eq_nil_or_concat' xs
      case inl hnil => exact h0 (w.chain.last_eq_zero_iff.mpr hnil)
      case inr hcons =>
        obtain ⟨ys, y, rfl⟩ := hcons
        apply hxs
        rw [w.chain.last]
        simp
    rw [listQueuePutPrivate_frame h (fun h => hne (by simp [h])) hlast]
    exact w.frame a hxs

theorem get (w : Owns heap q xs) (ha : q.abortRequest = false) (pkt : α) (block : Bool) :
    ∃ ys, Owns heap (q.lockedGet pkt block).1 ys := by
  cases xs
  case nil =>
    refine ⟨[], ?_⟩
    rw [lockedGet, w.chain.get_nil ha]
    cases block <;> exact w
  case cons x xs =>
    obtain ⟨q', hget, c, -⟩ := w.chain.get_cons ha pkt block
    obtain ⟨hx, hxs⟩ := List.nodup_cons.mp w.chain.nodup
    have hheap : q'.heap = Function.update q.heap x.1 none := by
      have hfirst : q.first = x.1 := w.chain.seg.left
      have hne : q.first ≠ 0 := by simp [w.chain.first_eq_zero_iff]
      simp only [listQueueGet, ha, hne, ne_eq, not_false_eq_true, if_true] at hget
      obtain ⟨n, -, hget⟩ := Option.bind_eq_some_iff.mp hget
      have hq := (Prod.mk.inj (Option.some.inj hget)).left
      rw [← hq, ← hfirst]
    rw [lockedGet, hget]
    refine ⟨xs, c, fun a ha => w.fresh a (.tail _ ha), fun a ha => ?_⟩
    rw [hheap]
    by_cases hax : a = x.1
    case pos => rw [hax, Function.update_self, w.fresh x.1 (.head _)]
    case neg =>
      rw [Function.update_of_ne hax]
      apply w.frame a
      rw [List.map_cons, List.mem_cons, not_or]
      exact ⟨hax, ha⟩

-- A flush gives back what the queue owns.
theorem flush (w : Owns heap q xs) :
    ∃ q', q.listQueueFlush = some q' ∧ Owns heap q' [] ∧ q'.heap = heap := by
  obtain ⟨q', hflush, c, -⟩ := w.chain.flush
  have hheap : q'.heap = heap := by
    simp only [listQueueFlush, w.chain.num, Int.toNat_natCast] at hflush
    obtain ⟨heap', hfree, hq⟩ := Option.map_eq_some_iff.mp hflush
    rw [← hq]
    funext a
    have ha := freeNodes_heap w.chain.seg w.chain.nodup w.chain.nonzero hfree a
    refine ha.trans ?_
    by_cases ha : a ∈ xs.map (·.1)
    case pos => rw [if_pos ha, w.fresh a ha]
    case neg => rw [if_neg ha, w.frame a ha]
  exact ⟨q', hflush, ⟨c, fun _ h => (by cases h), fun a _ => by rw [hheap]⟩, hheap⟩

-- What one section does: one node more, one less, none, or the same ones.
omit [DecidableEq τ] in
theorem locked (w : Owns heap q xs) (h : ListQueue.locked t q i = some (q', o)) : ∃ ys, Owns heap q' ys := by
  have hget (pkt : α) (block : Bool) : ∃ ys, Owns heap (q.lockedGet pkt block).1 ys := by
    cases ha : q.abortRequest
    case true  => exact ⟨xs, by rwa [lockedGet, listQueueGet, if_pos ha]⟩
    case false => exact w.get ha pkt block
  cases i
  case inr pkt =>
    have h := (Prod.mk.inj (Option.some.inj h)).left
    exact h ▸ hget pkt true
  case inl op =>
    cases op
    case put pkt ml =>
      rcases w.chain.locked_put h with ⟨rfl, -⟩ | ⟨n, -, ha, hz, hn, hput, -⟩
      · exact ⟨xs, w⟩
      · exact ⟨_, w.put ha hz hn hput⟩
    case get pkt block =>
      have h := (Prod.mk.inj (Option.some.inj h)).left
      exact h ▸ hget pkt block
    case flush =>
      obtain ⟨q₁, hflush, w', -⟩ := w.flush
      simp only [ListQueue.locked, hflush] at h
      cases h
      exact ⟨[], w'⟩
    case abort =>
      cases h
      exact ⟨xs, ⟨w.chain.seg, w.chain.nodup, w.chain.nonzero, w.chain.last, w.chain.num⟩, w.fresh, w.frame⟩

end Owns

-- In every run the memory is what it was before, and the nodes of the packets that are pending: as many
-- as `num` says. What `list_queue_flush` leaves, and with it `list_queue_destroy`, is the memory as it
-- was before.
theorem nodes_accounted {s : Monitor.State τ (ListQueue α) α} {tr : List (Monitor.Action τ (Call α) × Out α)}
    (e : threads.Steps Machine.Free (.init (start heap)) tr s) :
    (∃ xs, s.shared.Chain xs ∧ s.shared.num = xs.length ∧ (∀ a ∈ xs.map (·.1), heap a = none) ∧
      ∀ a, a ∉ xs.map (·.1) → s.shared.heap a = heap a) ∧
    ∃ q', s.shared.listQueueFlush = some q' ∧ q'.heap = heap := by
  obtain ⟨xs, w⟩ : ∃ xs, Owns heap s.shared xs := by
    refine Monitor.preserves (fun q => ∃ xs, Owns heap q xs) ⟨[], .start heap⟩ ?_ e
    rintro s a t i q' o ⟨xs, w⟩ - - h
    exact w.locked h
  obtain ⟨q', hflush, -, hheap⟩ := w.flush
  exact ⟨⟨xs, w.chain, w.chain.num, w.fresh, w.frame⟩, q', hflush, hheap⟩

-- A node is allocated and freed, and two more are allocated, one of them where the first one was.
theorem nodes_accounted_of_reuse :
    ∃ s : Monitor.State (Fin 2) (ListQueue Nat) Nat,
      (∃ xs, s.shared.Chain xs ∧ xs.length = 2 ∧ ∀ a, a ∉ xs.map (·.1) → s.shared.heap a = none) ∧
      ∃ q', s.shared.listQueueFlush = some q' ∧ q'.heap = fun _ => none := by
  have e := Machine.Steps.refl (m := threads (τ := Fin 2) (α := Nat)) (P := Machine.Free)
      (s := .init (start fun _ => none))
    |>.snoc (i := .call 0 (.put 5 (some 0x10))) trivial rfl
    |>.snoc (i := .call 1 (.get 0 true)) trivial rfl
    |>.snoc (i := .call 0 (.put 6 (some 0x20))) trivial rfl
    |>.snoc (i := .call 0 (.put 7 (some 0x10))) trivial rfl
  obtain ⟨⟨xs, c, hnum, -, hframe⟩, hflush⟩ := nodes_accounted e
  exact ⟨_, ⟨xs, c, Int.ofNat_inj.mp hnum.symm, hframe⟩, hflush⟩

end ListQueue
