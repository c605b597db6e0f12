import TnsParser.Library.Ring

-- The list headers of `list.h`. A header is known by its address (a `Nat`), and the `next` and
-- `prev` words of all headers together are one `Links`.

namespace ListHead

abbrev Heap := Links Nat

-- sizeof(struct list_head)
def sizeofListHead : Nat := 16

def listPoison1 : Nat := 0x00100100

def listPoison2 : Nat := 0x00200200

def initListHead (l : Heap) (list : Nat) : Heap :=
  l.setNext list list |>.setPrev list list

-- __list_add
def listAdd' (l : Heap) (a prev next : Nat) : Heap :=
  l.setPrev next a |>.setNext a next |>.setPrev a prev |>.setNext prev a

def listAdd (l : Heap) (a head : Nat) : Heap :=
  listAdd' l a head (l.next head)

-- __list_del
def listDel' (l : Heap) (prev next : Nat) : Heap :=
  l.setPrev next prev |>.setNext prev next

def listDel (l : Heap) (entry : Nat) : Heap :=
  listDel' l (l.prev entry) (l.next entry) |>.setNext entry listPoison1 |>.setPrev entry listPoison2

def listEmpty (l : Heap) (head : Nat) : Bool :=
  l.next head == head

variable {l : Heap} {a e h h' x : Nat} {xs ys zs : List Nat}

theorem listEmpty_iff (r : l.Ring h xs) : listEmpty l h ↔ xs = [] := by
  simp [listEmpty, r.next_head_eq_iff]

theorem initListHead_ring : (initListHead l h).Ring h [] :=
  .nil (by simp [initListHead, Links.setNext_next]) (by simp [initListHead, Links.setPrev_prev])

theorem initListHead_frame (hx : x ≠ h) :
    (initListHead l h).next x = l.next x ∧ (initListHead l h).prev x = l.prev x := by
  simp [initListHead, Links.setNext_next, Links.setPrev_prev, hx]

theorem listAdd_eq_link (l : Heap) (a h : Nat) :
    listAdd l a h = (l.link a (l.next h)).link h a :=
  rfl

theorem listAdd_ring (r : l.Ring h xs) (ha : a ∉ h :: xs) : (listAdd l a h).Ring h (a :: xs) :=
  r.insert ha

-- Adding to one list leaves the words of all headers alone that are not in it.
theorem listAdd_frame (r : l.Ring h xs) (hx : x ∉ a :: h :: xs) :
    (listAdd l a h).next x = l.next x ∧ (listAdd l a h).prev x = l.prev x := by
  have hf : l.next h ∈ h :: xs := by
    rw [r.next_head]
    cases xs <;> simp
  have hxf : x ≠ l.next h := by rintro rfl; exact hx (.tail _ hf)
  have ⟨hxa, hxh, _⟩ : x ≠ a ∧ x ≠ h ∧ x ∉ xs := by simpa using hx
  simp [listAdd_eq_link, Links.link_next, Links.link_prev, hxa, hxh, hxf]

theorem listDel_next (l : Heap) (hx : x ≠ e) :
    (listDel l e).next x = (l.link (l.prev e) (l.next e)).next x := by
  simp [listDel, listDel', Links.link, Links.setNext_next, hx]

theorem listDel_prev (l : Heap) (hx : x ≠ e) :
    (listDel l e).prev x = (l.link (l.prev e) (l.next e)).prev x := by
  simp [listDel, listDel', Links.link, Links.setPrev_prev, hx]

theorem listDel_ring (r : l.Ring h (xs ++ e :: ys)) : (listDel l e).Ring h (xs ++ ys) := by
  have he : e ∉ h :: (xs ++ ys) := by
    have := List.nodup_middle.mp (show ((h :: xs) ++ e :: ys).Nodup from r.nodup)
    exact List.nodup_cons.mp this |>.left
  refine r.remove.congr ?_ ?_ <;> intro x hx
  · exact listDel_next l (by rintro rfl; exact he hx)
  · exact listDel_prev l (by rintro rfl; exact he hx)

-- Deleting from one list leaves the words of all headers alone that are not in it.
theorem listDel_frame (r : l.Ring h (xs ++ e :: ys)) (hx : x ∉ h :: (xs ++ e :: ys)) :
    (listDel l e).next x = l.next x ∧ (listDel l e).prev x = l.prev x := by
  have hp : l.prev e ∈ h :: xs := r.prev_mem ▸ List.getLast_mem _
  have hn : l.next e ∈ h :: ys := by
    rw [r.next_mem]
    cases ys <;> simp
  have hxe : x ≠ e := by rintro rfl; simp at hx
  have hxp : x ≠ l.prev e := by rintro rfl; simp at hx hp; tauto
  have hxn : x ≠ l.next e := by rintro rfl; simp at hx hn; tauto
  simp [listDel_next l hxe, listDel_prev l hxe, Links.link_next, Links.link_prev, hxp, hxn]

-- The list at one head is kept when another list is changed that shares no header with it.
theorem ring_frame {l' : Heap} (r : l.Ring h xs)
    (hf : ∀ x ∈ h :: xs, l'.next x = l.next x ∧ l'.prev x = l.prev x) : l'.Ring h xs :=
  r.congr (fun x hx => hf x hx |>.left) (fun x hx => hf x hx |>.right)

-- Two lists without a common header: `xs` at the head `h` and `zs` at the head `k`.
structure Rings (l : Heap) (h : Nat) (xs : List Nat) (k : Nat) (zs : List Nat) : Prop where
  left  : l.Ring h xs
  right : l.Ring k zs
  nodup : ((h :: xs) ++ (k :: zs)).Nodup

namespace Rings

variable {k : Nat}

theorem symm (r : Rings l h xs k zs) : Rings l k zs h xs where
  left  := r.right
  right := r.left
  nodup := List.nodup_append_comm.mp r.nodup

theorem disjoint (r : Rings l h xs k zs) : List.Disjoint (h :: xs) (k :: zs) :=
  List.disjoint_of_nodup_append r.nodup

theorem add (r : Rings l h xs k zs) (ha : a ∉ (h :: xs) ++ (k :: zs)) :
    Rings (listAdd l a h) h (a :: xs) k zs where
  left  := listAdd_ring r.left fun hc => ha (List.mem_append_left _ hc)
  right := ring_frame r.right fun x hx => listAdd_frame r.left <| by
    have := mt (r.disjoint ·) (not_not_intro hx)
    grind
  nodup := by
    have := r.nodup
    grind

theorem del (r : Rings l h (xs ++ e :: ys) k zs) : Rings (listDel l e) h (xs ++ ys) k zs where
  left  := listDel_ring r.left
  right := ring_frame r.right fun _ hx => listDel_frame r.left fun hc => r.disjoint hc hx
  nodup := r.nodup.sublist <| by simp

-- Taking an entry out of the one list and putting it at the front of the other.
theorem move (r : Rings l h (xs ++ e :: ys) k zs) :
    Rings (listAdd (listDel l e) e k) h (xs ++ ys) k (e :: zs) := by
  refine r.del.symm.add ?_ |>.symm
  have := r.nodup
  grind

-- The words of the headers that are in none of the lists are left alone.
theorem move_frame (r : Rings l h (xs ++ e :: ys) k zs) (hx : x ∉ (h :: (xs ++ e :: ys)) ++ (k :: zs)) :
    (listAdd (listDel l e) e k).next x = l.next x ∧ (listAdd (listDel l e) e k).prev x = l.prev x := by
  have ⟨hleft, hright⟩ := not_or.mp <| List.mem_append.not.mp hx
  have ⟨hdn, hdp⟩ := listDel_frame r.left hleft
  have hadd : x ∉ e :: k :: zs := by
    rintro (_ | ⟨_, hm⟩)
    · exact hleft (by simp)
    · exact hright hm
  have ⟨han, hap⟩ := listAdd_frame r.del.right hadd
  exact ⟨han.trans hdn, hap.trans hdp⟩

end Rings
end ListHead
