import TnsParser.Library.Rings
import TnsParser.Mempool.ListHead

-- The functions of `list.h` that the pool does not use.

namespace ListHead

def listAddTail (l : Heap) (a head : Nat) : Heap :=
  listAdd' l a (l.prev head) head

-- __list_del_entry
def listDelEntry (l : Heap) (entry : Nat) : Heap :=
  listDel' l (l.prev entry) (l.next entry)

def listReplace (l : Heap) (old a : Nat) : Heap :=
  let l := l.setNext a (l.next old)
  let l := l.setPrev (l.next a) a
  let l := l.setPrev a (l.prev old)
  l.setNext (l.prev a) a

def listReplaceInit (l : Heap) (old a : Nat) : Heap :=
  initListHead (listReplace l old a) old

def listDelInit (l : Heap) (entry : Nat) : Heap :=
  initListHead (listDelEntry l entry) entry

def listMove (l : Heap) (list head : Nat) : Heap :=
  let l := listDelEntry l list
  listAdd l list head

def listMoveTail (l : Heap) (list head : Nat) : Heap :=
  let l := listDelEntry l list
  listAddTail l list head

def listIsLast (l : Heap) (list head : Nat) : Bool :=
  l.next list == head

def listEmptyCareful (l : Heap) (head : Nat) : Bool :=
  let next := l.next head
  next == head && next == l.prev head

def listRotateLeft (l : Heap) (head : Nat) : Heap :=
  if !listEmpty l head then listMoveTail l (l.next head) head else l

def listIsSingular (l : Heap) (head : Nat) : Bool :=
  !listEmpty l head && l.next head == l.prev head

-- __list_cut_position
def listCutPosition' (l : Heap) (list head entry : Nat) : Heap :=
  let newFirst := l.next entry
  let l := l.setNext list (l.next head)
  let l := l.setPrev (l.next list) list
  let l := l.setPrev list entry
  let l := l.setNext entry list
  let l := l.setNext head newFirst
  l.setPrev newFirst head

def listCutPosition (l : Heap) (list head entry : Nat) : Heap :=
  if listEmpty l head then l
  else if listIsSingular l head ∧ l.next head ≠ entry ∧ head ≠ entry then l
  else if entry = head then initListHead l list
  else listCutPosition' l list head entry

-- __list_splice
def listSplice' (l : Heap) (list prev next : Nat) : Heap :=
  let first := l.next list
  let last := l.prev list
  l.setPrev first prev |>.setNext prev first |>.setNext last next |>.setPrev next last

def listSplice (l : Heap) (list head : Nat) : Heap :=
  if !listEmpty l list then listSplice' l list head (l.next head) else l

def listSpliceTail (l : Heap) (list head : Nat) : Heap :=
  if !listEmpty l list then listSplice' l list (l.prev head) head else l

def listSpliceInit (l : Heap) (list head : Nat) : Heap :=
  if !listEmpty l list then initListHead (listSplice' l list head (l.next head)) list else l

def listSpliceTailInit (l : Heap) (list head : Nat) : Heap :=
  if !listEmpty l list then initListHead (listSplice' l list (l.prev head) head) list else l

-- The loops `list_for_each`, with `step` the field `next`, and `list_for_each_prev`, with `prev`: the
-- headers that they visit, from `pos` on.
def listForEach (step : Nat → Nat) (head : Nat) : Nat → Nat → Option (List Nat)
  | 0,        _   => none
  | fuel + 1, pos => if pos = head then some [] else (listForEach step head fuel (step pos)).map (pos :: ·)

-- `list_for_each_safe` with a body that changes the memory. `n` is read before the body.
def listForEachSafe (body : Heap → Nat → Heap) (head : Nat) : Nat → Heap → Nat → Nat → Option (Heap × List Nat)
  | 0,        _, _,   _ => none
  | fuel + 1, l, pos, n =>
    if pos = head then
      some (l, [])
    else
      let l := body l pos
      (listForEachSafe body head fuel l n (l.next n)).map fun (l, visited) => (l, pos :: visited)

variable {l l' : Heap} {a e h k x : Nat} {xs ys zs : List Nat}

-- What each function does to the rings it works on.

theorem listAddTail_ring (r : l.Ring h xs) (ha : a ∉ h :: xs) : (listAddTail l a h).Ring h (xs ++ [a]) :=
  r.insertLast ha

theorem listDel_first (r : l.Ring h (e :: xs)) : (listDel l e).Ring h xs := by
  have r : l.Ring h ([] ++ e :: xs) := r
  exact listDel_ring r

theorem listDelEntry_ring (r : l.Ring h (xs ++ e :: ys)) : (listDelEntry l e).Ring h (xs ++ ys) :=
  r.remove

theorem listReplace_eq_link (l : Heap) (old a : Nat) :
    listReplace l old a = (l.link a (l.next old)).link ((l.link a (l.next old)).prev old) a := by
  simp [listReplace, Links.link, Links.setNext, Links.setPrev]

-- A head may be replaced like any other header.
theorem listReplace_head (r : l.Ring e xs) (ha : a ∉ e :: xs) : (listReplace l e a).Ring a xs :=
  listReplace_eq_link l e a ▸ r.replace ha

theorem listReplace_ring (r : l.Ring h (xs ++ e :: ys)) (ha : a ∉ h :: (xs ++ e :: ys)) :
    (listReplace l e a).Ring h (xs ++ a :: ys) := by
  have hmem : a ∉ e :: (ys ++ h :: xs) := by
    have := ha
    grind
  exact (listReplace_head r.rotate hmem).rotate

theorem listSplice_ring (r : l.Ring h xs) (r' : l.Ring k ys) (hd : List.Disjoint (h :: xs) (k :: ys)) (hne : ys ≠ []) :
    (listSplice' l k h (l.next h)).Ring h (ys ++ xs) :=
  r.splice r' hd hne

theorem listSpliceTail_ring (r : l.Ring h xs) (r' : l.Ring k ys) (hd : List.Disjoint (h :: xs) (k :: ys))
    (hne : ys ≠ []) : (listSplice' l k (l.prev h) h).Ring h (xs ++ ys) := by
  cases List.eq_nil_or_concat' xs
  case inl hxs =>
    subst hxs
    have hn : l.next h = h := r.next_head
    have hp : l.prev h = h := r.prev_head
    have spliced := listSplice_ring r r' hd hne
    rw [hn, List.append_nil] at spliced
    rwa [hp]
  case inr hxs =>
    obtain ⟨zs, p, rfl⟩ := hxs
    have hp : l.prev h = p := by rw [r.prev_head, List.getLastD_concat]
    have rp : l.Ring p (h :: zs) := r.rotate
    have hn : l.next p = h := rp.next_head
    have hd' : List.Disjoint (p :: h :: zs) (k :: ys) := fun x hx => hd (by have := hx; grind)
    have spliced := listSplice_ring rp r' hd' hne
    rw [hn] at spliced
    rw [hp, List.append_assoc]
    exact spliced.rotate

theorem listCutPosition_eq_link (l : Heap) (k h e : Nat) :
    listCutPosition' l k h e = ((l.link k (l.next h)).link e k).link h (l.next e) := by
  simp [listCutPosition', Links.link, Links.setNext, Links.setPrev]

theorem listCutPosition_ring (r : l.Ring h (xs ++ e :: ys)) (hk : k ∉ h :: (xs ++ e :: ys)) :
    (listCutPosition' l k h e).Ring k (xs ++ [e]) ∧ (listCutPosition' l k h e).Ring h ys :=
  listCutPosition_eq_link l k h e ▸ r.cut hk

-- What is read of a ring.

theorem listEmptyCareful_iff (r : l.Ring h xs) : listEmptyCareful l h ↔ xs = [] := by
  simp only [listEmptyCareful, Bool.and_eq_true, beq_iff_eq, r.next_head_eq_iff]
  refine ⟨And.left, fun hxs => ⟨hxs, ?_⟩⟩
  subst hxs
  rw [r.next_head, r.prev_head]
  rfl

theorem listIsSingular_iff (r : l.Ring h xs) : listIsSingular l h ↔ xs.length = 1 := by
  have hempty := listEmpty_iff r
  have hn := r.next_head
  have hp := r.prev_head
  cases xs
  case nil => simp [listIsSingular, hempty]
  case cons x xs =>
    have hnonempty : listEmpty l h = false := by
      rw [Bool.eq_false_iff]
      exact fun hc => absurd (hempty.mp hc) (List.cons_ne_nil _ _)
    cases List.eq_nil_or_concat' xs
    case inl hxs =>
      subst hxs
      simp [listIsSingular, hnonempty, hn, hp]
    case inr hxs =>
      obtain ⟨ys, y, rfl⟩ := hxs
      have hne : x ≠ y := by
        rintro rfl
        exact (List.nodup_cons.mp r.nodup.of_cons).left (by simp)
      rw [← List.cons_append, List.getLastD_concat] at hp
      rw [List.headD_cons] at hn
      simp [listIsSingular, hnonempty, hn, hp, hne]

theorem listIsLast_iff (r : l.Ring h (xs ++ e :: ys)) : listIsLast l e h ↔ ys = [] := by
  rw [listIsLast, beq_iff_eq, r.next_mem]
  cases ys
  case nil => simp
  case cons y ys =>
    have hne : y ≠ h := by
      rintro rfl
      exact (List.nodup_cons.mp r.nodup).left (by simp)
    simp [hne]

theorem listForEach_path {fuel : Nat} (p : l.Path (xs ++ [h])) (hh : h ∉ xs) (hf : xs.length < fuel) :
    listForEach l.next h fuel ((xs ++ [h]).headD h) = some xs := by
  induction xs generalizing fuel
  case nil =>
    cases fuel
    case zero => exact absurd hf (Nat.not_lt_zero _)
    case succ => simp [listForEach]
  case cons x xs hi =>
    cases fuel
    case zero      => exact absurd hf (Nat.not_lt_zero _)
    case succ fuel =>
      have hx : x ≠ h := by
        rintro rfl
        exact hh List.mem_cons_self
      have hnext : l.next x = (xs ++ [h]).headD h := by
        cases xs
        all_goals exact List.isChain_cons_cons.mp p |>.left.left
      have rest := hi p.tail (fun hc => hh (.tail _ hc)) (Nat.lt_of_succ_lt_succ hf)
      rw [List.cons_append, List.headD_cons, listForEach, if_neg hx, hnext, rest]
      rfl

-- The loop visits the entries in order, and ends.
theorem listForEach_ring {fuel : Nat} (r : l.Ring h xs) (hf : xs.length < fuel) :
    listForEach l.next h fuel (l.next h) = some xs := by
  have hnext : l.next h = (xs ++ [h]).headD h := by
    rw [r.next_head]
    cases xs <;> rfl
  rw [hnext]
  exact listForEach_path r.path_back (List.nodup_cons.mp r.nodup).left hf

theorem listForEachPrev_ring {fuel : Nat} (r : l.Ring h xs) (hf : xs.length < fuel) :
    listForEach l.prev h fuel (l.prev h) = some xs.reverse :=
  listForEach_ring r.reverse (by rwa [List.length_reverse])

-- A body may take out the header that it is called for.
theorem listForEachSafe_ring {body : Heap → Nat → Heap} {fuel : Nat}
    (hb : ∀ {l x xs}, l.Ring h (x :: xs) → (body l x).Ring h xs) (r : l.Ring h xs) (hf : xs.length < fuel) :
    ∃ l', listForEachSafe body h fuel l (l.next h) (l.next (l.next h)) = some (l', xs) ∧ l'.Ring h [] := by
  induction xs generalizing l fuel
  case nil =>
    cases fuel
    case zero => exact absurd hf (Nat.not_lt_zero _)
    case succ =>
      have hnext : l.next h = h := r.next_head
      exact ⟨l, by simp [listForEachSafe, hnext], r⟩
  case cons x xs hi =>
    cases fuel
    case zero      => exact absurd hf (Nat.not_lt_zero _)
    case succ fuel =>
      have hnext : l.next h = x := r.next_head
      have hx : x ≠ h := by
        rintro rfl
        exact (List.nodup_cons.mp r.nodup).left List.mem_cons_self
      have hbehind : l.next x = (body l x).next h := by
        have hmem : l.Ring h ([] ++ x :: xs) := r
        rw [hmem.next_mem, (hb r).next_head]
        cases xs <;> rfl
      obtain ⟨l', hloop, r'⟩ := hi (hb r) (Nat.lt_of_succ_lt_succ hf)
      refine ⟨l', ?_, r'⟩
      rw [hnext, hbehind]
      simp only [listForEachSafe, if_neg hx, hloop]
      rfl

end ListHead
