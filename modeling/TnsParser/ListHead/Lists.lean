import TnsParser.Library.Machine
import TnsParser.ListHead.Basic

-- Programs that use any number of lists.

namespace ListHead

open Links

-- The lists as their users see them: the entries of each head.
abbrev Lists := Nat → Option (List Nat)

namespace Lists

-- The header is in no list.
def Free (s : Lists) (a : Nat) : Prop :=
  ∀ h xs, s h = some xs → a ∉ h :: xs

-- The header is in no list other than its own.
def Outside (s : Lists) (a : Nat) : Prop :=
  ∀ h xs, s h = some xs → h ≠ a → a ∉ h :: xs

def IsEntry (s : Lists) (e : Nat) : Prop :=
  ∃ h xs, s h = some xs ∧ e ∈ xs

def init (s : Lists) (h : Nat) : Lists :=
  Function.update s h (some [])

def modify (s : Lists) (f : List Nat → List Nat) (h : Nat) : Lists :=
  Function.update s h ((s h).map f)

def del (s : Lists) (e : Nat) : Lists :=
  fun h => (s h).map (·.erase e)

def replace (s : Lists) (old a : Nat) : Lists :=
  match s old with
  | some xs => Function.update (Function.update s old none) a (some xs)
  | none    => fun h => (s h).map (·.replace old a)

def cut (s : Lists) (list head entry : Nat) : Lists :=
  match s head with
  | none    => s
  | some xs =>
    if entry ∈ xs then
      Function.update (Function.update s list (some (xs.takeWhile (· ≠ entry) ++ [entry]))) head
        (some ((xs.dropWhile (· ≠ entry)).drop 1))
    else if entry = head ∧ xs ≠ [] then
      s.init list
    else
      s

def splice (s : Lists) (f : List Nat → List Nat → List Nat) (list head : Nat) : Lists :=
  modify (Function.update s list none) (f ((s list).getD [])) head

end Lists

inductive Op
  | initListHead (list : Nat)
  | listAdd (a head : Nat)
  | listAddTail (a head : Nat)
  | listDel (entry : Nat)
  | listDelInit (entry : Nat)
  | listReplace (old a : Nat)
  | listReplaceInit (old a : Nat)
  | listMove (list head : Nat)
  | listMoveTail (list head : Nat)
  | listRotateLeft (head : Nat)
  | listCutPosition (list head entry : Nat)
  | listSplice (list head : Nat)
  | listSpliceTail (list head : Nat)
  | listSpliceInit (list head : Nat)
  | listSpliceTailInit (list head : Nat)
  | listEmpty (head : Nat)
  | listEmptyCareful (head : Nat)
  | listIsSingular (head : Nat)
  | listIsLast (list head : Nat)

-- The functions on the memory. Those that return nothing give `none`.
def onHeap : Machine Heap Op (Option Bool)
  | l, .initListHead list               => some (initListHead l list, none)
  | l, .listAdd a head                  => some (listAdd l a head, none)
  | l, .listAddTail a head              => some (listAddTail l a head, none)
  | l, .listDel entry                   => some (listDel l entry, none)
  | l, .listDelInit entry               => some (listDelInit l entry, none)
  | l, .listReplace old a               => some (listReplace l old a, none)
  | l, .listReplaceInit old a           => some (listReplaceInit l old a, none)
  | l, .listMove list head              => some (listMove l list head, none)
  | l, .listMoveTail list head          => some (listMoveTail l list head, none)
  | l, .listRotateLeft head             => some (listRotateLeft l head, none)
  | l, .listCutPosition list head entry => some (listCutPosition l list head entry, none)
  | l, .listSplice list head            => some (listSplice l list head, none)
  | l, .listSpliceTail list head        => some (listSpliceTail l list head, none)
  | l, .listSpliceInit list head        => some (listSpliceInit l list head, none)
  | l, .listSpliceTailInit list head    => some (listSpliceTailInit l list head, none)
  | l, .listEmpty head                  => some (l, some (listEmpty l head))
  | l, .listEmptyCareful head           => some (l, some (listEmptyCareful l head))
  | l, .listIsSingular head             => some (l, some (listIsSingular l head))
  | l, .listIsLast list head            => some (l, some (listIsLast l list head))

-- What the functions are for. A list that is spliced into another one is not a list any more, until it is
-- initialised.
def onLists : Machine Lists Op (Option Bool)
  | s, .initListHead list               => some (s.init list, none)
  | s, .listAdd a head                  => some (s.modify (a :: ·) head, none)
  | s, .listAddTail a head              => some (s.modify (· ++ [a]) head, none)
  | s, .listDel entry                   => some (s.del entry, none)
  | s, .listDelInit entry               => some ((s.del entry).init entry, none)
  | s, .listReplace old a               => some (s.replace old a, none)
  | s, .listReplaceInit old a           => some ((s.replace old a).init old, none)
  | s, .listMove list head              => some ((s.del list).modify (list :: ·) head, none)
  | s, .listMoveTail list head          => some ((s.del list).modify (· ++ [list]) head, none)
  | s, .listRotateLeft head             => some (s.modify (fun xs => xs.drop 1 ++ xs.take 1) head, none)
  | s, .listCutPosition list head entry => some (s.cut list head entry, none)
  | s, .listSplice list head            => some (s.splice (· ++ ·) list head, none)
  | s, .listSpliceTail list head        => some (s.splice (fun ys xs => xs ++ ys) list head, none)
  | s, .listSpliceInit list head        => some ((s.splice (· ++ ·) list head).init list, none)
  | s, .listSpliceTailInit list head    => some ((s.splice (fun ys xs => xs ++ ys) list head).init list, none)
  | s, .listEmpty head                  => some (s, some (s head == some []))
  | s, .listEmptyCareful head           => some (s, some (s head == some []))
  | s, .listIsSingular head             => some (s, some ((s head).any (·.length == 1)))
  | s, .listIsLast list head            => some (s, some ((s head).any (·.getLast? == some list)))

-- What the functions ask of their callers.
def Legal (s : Lists) : Op → Prop
  | .initListHead list                             => s.Outside list
  | .listAdd a head | .listAddTail a head          => s.Free a ∧ (s head).isSome
  | .listDel entry | .listDelInit entry            => s.IsEntry entry
  | .listReplace old a | .listReplaceInit old a    => s.Free a ∧ (s.IsEntry old ∨ (s old).isSome)
  | .listMove list head | .listMoveTail list head  => s.IsEntry list ∧ (s head).isSome
  | .listCutPosition list head entry               =>
    s.Outside list ∧ list ≠ head ∧ ∃ xs, s head = some xs ∧ (entry ∈ head :: xs ∨ xs.length ≤ 1)
  | .listSplice list head | .listSpliceTail list head | .listSpliceInit list head
  | .listSpliceTailInit list head                  => list ≠ head ∧ (s list).isSome ∧ (s head).isSome
  | .listRotateLeft head | .listEmpty head | .listEmptyCareful head
  | .listIsSingular head                           => (s head).isSome
  | .listIsLast list head                          => ∃ xs, s head = some xs ∧ list ∈ xs

variable {l : Heap} {s s' : Lists} {a e h k : Nat} {xs ys zs A : List Nat} {o : Option Bool} {op : Op}

-- What each function leaves alone.

theorem agree_initListHead (hA : h ∈ A) (l : Heap) : Agree A l (initListHead l h) :=
  fun _ hx => initListHead_frame (by rintro rfl; exact hx hA)

theorem agree_listAdd' (ha : a ∈ A) (hh : h ∈ A) (hk : k ∈ A) (l : Heap) : Agree A l (listAdd' l a h k) :=
  (agree_link ha hk l).trans (agree_link hh ha _)

theorem agree_listDelEntry (hp : l.prev e ∈ A) (hn : l.next e ∈ A) : Agree A l (listDelEntry l e) :=
  agree_link hp hn l

theorem agree_listDel (he : e ∈ A) (hp : l.prev e ∈ A) (hn : l.next e ∈ A) : Agree A l (listDel l e) := by
  refine (agree_listDelEntry hp hn).trans fun x hx => ?_
  have hxe : x ≠ e := by
    rintro rfl
    exact hx he
  exact ⟨listDel_next l hxe, listDel_prev l hxe⟩

theorem agree_listReplace (ha : a ∈ A) (hp : l.prev e ∈ A) (hn : l.next e ∈ A) : Agree A l (listReplace l e a) := by
  rw [listReplace_eq_link]
  refine (agree_link ha hn l).trans (agree_link ?_ ha _)
  rw [link_prev]
  split
  case isTrue  => exact ha
  case isFalse => exact hp

theorem agree_listSplice' (hh : h ∈ A) (hk : k ∈ A) (hn : l.next e ∈ A) (hp : l.prev e ∈ A) :
    Agree A l (listSplice' l e h k) :=
  (agree_link hh hn l).trans (agree_link hp hk _)

-- Each function does to the lists what it is for.

theorem initListHead_holds (H : l.Holds s) (hs : s.Outside h) : (initListHead l h).Holds (s.init h) :=
  H.update (A := [h]) (agree_initListHead List.mem_cons_self l) initListHead_ring fun k ys hk hne x hx => by
    have hxh : x ≠ h := by
      rintro rfl
      exact hs k ys hk hne hx
    simp [hxh]

theorem listAdd_holds (H : l.Holds s) (ha : s.Free a) (hs : (s h).isSome) :
    (listAdd l a h).Holds (s.modify (a :: ·) h) := by
  obtain ⟨xs, hxs⟩ := Option.isSome_iff_exists.mp hs
  have r := H.ring hxs
  rw [Lists.modify, hxs]
  refine H.modify (B := [a]) hxs (fun b hb => List.mem_singleton.mp hb ▸ ha) ?_ (listAdd_ring r (ha h xs hxs)) (by simp)
  exact agree_listAdd' (by simp) (by simp) (List.mem_append_right _ (r.next_closed List.mem_cons_self)) l

theorem listAddTail_holds (H : l.Holds s) (ha : s.Free a) (hs : (s h).isSome) :
    (listAddTail l a h).Holds (s.modify (· ++ [a]) h) := by
  obtain ⟨xs, hxs⟩ := Option.isSome_iff_exists.mp hs
  have r := H.ring hxs
  rw [Lists.modify, hxs]
  refine H.modify (B := [a]) hxs (fun b hb => List.mem_singleton.mp hb ▸ ha) ?_ (listAddTail_ring r (ha h xs hxs)) ?_
  · exact agree_listAdd' (by simp) (List.mem_append_right _ (r.prev_closed List.mem_cons_self)) (by simp) l
  · simp [or_comm]

-- Taking an entry out of the lists changes one of them.
theorem del_eq_update (H : l.Holds s) (hs : s h = some (xs ++ e :: ys)) :
    s.del e = Function.update s h (some (xs ++ ys)) := by
  have nodup := (H.ring hs).nodup
  funext k
  rw [Lists.del, Function.update_apply]
  split
  case isTrue hk =>
    have he : e ∉ xs := by
      have := nodup
      grind
    rw [hk, hs, Option.map_some, List.erase_append_right _ he, List.erase_cons_head]
  case isFalse hk =>
    cases hzs : s k
    case none => rfl
    case some zs =>
      have he : e ∉ zs := fun hc => H.apart hzs hs hk (.tail _ hc) (by simp)
      rw [Option.map_some, List.erase_of_not_mem he]

theorem del_holds {l' : Heap} (H : l.Holds s) (hs : s.IsEntry e)
    (hring : ∀ {h xs ys}, l.Ring h (xs ++ e :: ys) → l'.Ring h (xs ++ ys))
    (hagree : ∀ {A}, e ∈ A → l.prev e ∈ A → l.next e ∈ A → Agree A l l') :
    l'.Holds (s.del e) ∧ (s.del e).Free e := by
  obtain ⟨h, zs, hzs, he⟩ := hs
  obtain ⟨xs, ys, rfl⟩ := List.append_of_mem he
  have r := H.ring hzs
  rw [del_eq_update H hzs]
  refine ⟨H.modify (B := []) hzs (by simp) ?_ (hring r) (by grind), fun k vs hk => ?_⟩
  · exact hagree (by simp) (r.prev_closed (.tail _ he)) (r.next_closed (.tail _ he))
  · by_cases hkh : k = h
    case pos =>
      rw [hkh, Function.update_self] at hk
      cases hk
      have := r.nodup
      grind
    case neg =>
      rw [Function.update_of_ne hkh] at hk
      exact fun hc => H.apart hk hzs hkh hc (.tail _ he)

theorem Lists.Free.outside (ha : s.Free a) : s.Outside a :=
  fun h xs hs _ => ha h xs hs

theorem listDel_holds (H : l.Holds s) (hs : s.IsEntry e) : (listDel l e).Holds (s.del e) :=
  (del_holds H hs listDel_ring agree_listDel).left

theorem listDelEntry_holds (H : l.Holds s) (hs : s.IsEntry e) :
    (listDelEntry l e).Holds (s.del e) ∧ (s.del e).Free e :=
  del_holds H hs listDelEntry_ring fun _ hp hn => agree_listDelEntry hp hn

-- A head is replaced with all its entries, and is free then.
theorem listReplace_head_holds (H : l.Holds s) (ha : s.Free a) (he : s e = some xs) :
    (listReplace l e a).Holds (s.replace e a) ∧ (s.replace e a).Free e := by
  have r := H.ring he
  have hreplace : s.replace e a = Function.update (Function.update s e none) a (some xs) := by
    rw [Lists.replace, he]
  rw [hreplace]
  refine ⟨(H.forget e).update (A := a :: e :: xs) ?_ (listReplace_head r (ha e xs he)) ?_, fun k ys hk => ?_⟩
  · exact agree_listReplace List.mem_cons_self (.tail _ (r.prev_closed List.mem_cons_self))
      (.tail _ (r.next_closed List.mem_cons_self))
  · intro k ys hk hne x hx
    obtain ⟨hk, hke⟩ := Holds.update_none_eq_some hk
    have hxa : x ≠ a := by
      rintro rfl
      exact ha k ys hk hx
    have hapart := H.apart hk he hke hx
    grind
  · by_cases hka : k = a
    case pos =>
      have hane : e ≠ a := fun hc => ha e xs he (by simp [hc])
      rw [hka, Function.update_self] at hk
      cases hk
      rw [hka, List.mem_cons, not_or]
      exact ⟨hane, (List.nodup_cons.mp r.nodup).left⟩
    case neg =>
      rw [Function.update_of_ne hka] at hk
      obtain ⟨hk, hke⟩ := Holds.update_none_eq_some hk
      exact fun hc => H.apart hk he hke hc List.mem_cons_self

theorem replace_eq_update (H : l.Holds s) (he : s e = none) (hs : s h = some (xs ++ e :: ys)) :
    s.replace e a = Function.update s h (some (xs ++ a :: ys)) := by
  have nodup := (H.ring hs).nodup
  have hreplace : s.replace e a = fun h => (s h).map (·.replace e a) := by
    rw [Lists.replace, he]
  rw [hreplace]
  funext k
  rw [Function.update_apply]
  split
  case isTrue hk =>
    have hexs : e ∉ xs := by grind
    rw [hk, hs, Option.map_some, List.replace_append_right hexs, List.replace_cons_self]
  case isFalse hk =>
    cases hvs : s k
    case none => rfl
    case some vs =>
      have hevs : e ∉ vs := fun hc => H.apart hvs hs hk (.tail _ hc) (by simp)
      rw [Option.map_some, List.replace_of_not_mem hevs]

-- An entry is replaced, and is free then.
theorem listReplace_holds (H : l.Holds s) (ha : s.Free a) (hs : s.IsEntry e ∨ (s e).isSome) :
    (listReplace l e a).Holds (s.replace e a) ∧ (s.replace e a).Free e := by
  cases he : s e
  case some xs => exact listReplace_head_holds H ha he
  case none =>
    obtain ⟨h, zs, hzs, hmem⟩ := hs.resolve_right (by simp [he])
    obtain ⟨xs, ys, rfl⟩ := List.append_of_mem hmem
    have r := H.ring hzs
    rw [replace_eq_update H he hzs]
    refine ⟨H.modify (B := [a]) hzs (fun b hb => List.mem_singleton.mp hb ▸ ha) ?_
      (listReplace_ring r (ha h _ hzs)) (by grind), fun k vs hk => ?_⟩
    · exact agree_listReplace (by simp) (List.mem_append_right _ (r.prev_closed (.tail _ hmem)))
        (List.mem_append_right _ (r.next_closed (.tail _ hmem)))
    · by_cases hkh : k = h
      case pos =>
        have nodup := r.nodup
        have hane : a ≠ e := fun hc => ha h _ hzs (by simp [hc])
        rw [hkh, Function.update_self] at hk
        cases hk
        grind
      case neg =>
        rw [Function.update_of_ne hkh] at hk
        exact fun hc => H.apart hk hzs hkh hc (.tail _ hmem)

-- A head is a head after an entry was taken out of its list.
theorem del_isSome (hs : (s h).isSome) : (s.del e h).isSome := by
  rwa [Lists.del, Option.isSome_map]

theorem listMove_holds (H : l.Holds s) (he : s.IsEntry e) (hs : (s h).isSome) :
    (listMove l e h).Holds ((s.del e).modify (e :: ·) h) := by
  obtain ⟨H', hfree⟩ := listDelEntry_holds H he
  exact listAdd_holds H' hfree (del_isSome hs)

theorem listMoveTail_holds (H : l.Holds s) (he : s.IsEntry e) (hs : (s h).isSome) :
    (listMoveTail l e h).Holds ((s.del e).modify (· ++ [e]) h) := by
  obtain ⟨H', hfree⟩ := listDelEntry_holds H he
  exact listAddTail_holds H' hfree (del_isSome hs)

theorem listRotateLeft_holds (H : l.Holds s) (hs : (s h).isSome) :
    (listRotateLeft l h).Holds (s.modify (fun xs => xs.drop 1 ++ xs.take 1) h) := by
  obtain ⟨xs, hxs⟩ := Option.isSome_iff_exists.mp hs
  have r := H.ring hxs
  have hempty := listEmpty_iff r
  cases xs
  case nil =>
    have hsame : s.modify (fun xs => xs.drop 1 ++ xs.take 1) h = s := by
      rw [Lists.modify, hxs]
      exact Function.update_eq_self_iff.mpr hxs.symm
    rw [hsame, listRotateLeft, hempty.mpr rfl]
    exact H
  case cons x xs =>
    have hnonempty : listEmpty l h = false := by
      rw [Bool.eq_false_iff]
      exact fun hc => absurd (hempty.mp hc) (List.cons_ne_nil _ _)
    have hmodify : s.modify (fun xs => xs.drop 1 ++ xs.take 1) h = (s.del x).modify (· ++ [x]) h := by
      have hxs : s h = some ([] ++ x :: xs) := hxs
      have hdel := del_eq_update H hxs
      rw [hdel, Lists.modify, Lists.modify, hxs, Function.update_self, Function.update_idem]
      simp
    have hmove := listMoveTail_holds H ⟨h, x :: xs, hxs, List.mem_cons_self⟩ hs
    rw [hmodify, listRotateLeft, hnonempty, r.next_head]
    exact hmove

theorem splice_eq {f : List Nat → List Nat → List Nat} (hne : k ≠ h) (hys : s k = some ys) (hxs : s h = some xs) :
    s.splice f k h = Function.update (Function.update s k none) h (some (f ys xs)) := by
  rw [Lists.splice, Lists.modify, hys, Function.update_of_ne (Ne.symm hne), hxs]
  rfl

theorem splice_free {f : List Nat → List Nat → List Nat} (H : l.Holds s) (hne : k ≠ h) (hys : s k = some ys)
    (hxs : s h = some xs) (hf : (f ys xs).Perm (ys ++ xs)) : (s.splice f k h).Free k := by
  rw [splice_eq hne hys hxs]
  intro k' zs hk'
  by_cases hkh : k' = h
  case pos =>
    rw [hkh, Function.update_self] at hk'
    cases hk'
    have hkys := (List.nodup_cons.mp (H.ring hys).nodup).left
    have hkxs : k ∉ h :: xs := fun hc => H.apart hxs hys (Ne.symm hne) hc List.mem_cons_self
    have := hf.mem_iff (a := k)
    grind
  case neg =>
    rw [Function.update_of_ne hkh] at hk'
    obtain ⟨hk', hkk⟩ := Holds.update_none_eq_some hk'
    exact fun hc => H.apart hk' hys hkk hc List.mem_cons_self

-- What is put into the list of another head. `l'` is the memory that `__list_splice` leaves.
theorem splice_holds {f : List Nat → List Nat → List Nat} {l' : Heap} (H : l.Holds s) (hne : k ≠ h)
    (hk : (s k).isSome) (hs : (s h).isSome) (hf : ∀ ys xs, (f ys xs).Perm (ys ++ xs)) (hnil : ∀ xs, f [] xs = xs)
    (hring : ∀ {xs ys}, l.Ring h xs → l.Ring k ys → List.Disjoint (h :: xs) (k :: ys) → ys ≠ [] → l'.Ring h (f ys xs))
    (hagree : ∀ {A}, (∀ x ∈ A, l.next x ∈ A ∧ l.prev x ∈ A) → h ∈ A → k ∈ A → Agree A l l') :
    (if !listEmpty l k then l' else l).Holds (s.splice f k h) ∧ (s.splice f k h).Free k := by
  obtain ⟨ys, hys⟩ := Option.isSome_iff_exists.mp hk
  obtain ⟨xs, hxs⟩ := Option.isSome_iff_exists.mp hs
  refine ⟨?_, splice_free H hne hys hxs (hf ys xs)⟩
  have r := H.ring hxs
  have r' := H.ring hys
  have hd := H.apart hxs hys (Ne.symm hne)
  rw [splice_eq hne hys hxs]
  by_cases hempty : ys = []
  case pos =>
    subst hempty
    rw [(listEmpty_iff r').mpr rfl, hnil]
    refine (H.forget k).update (A := []) (Agree.refl _ _) r fun k' zs hk' hne' x hx => ⟨List.not_mem_nil, ?_⟩
    exact fun hc => H.apart (Holds.update_none_eq_some hk').left hxs hne' hx hc
  case neg =>
    have hnonempty : listEmpty l k = false := Bool.eq_false_iff.mpr fun hc => hempty ((listEmpty_iff r').mp hc)
    rw [hnonempty]
    refine (H.forget k).update (A := (h :: xs) ++ (k :: ys)) ?_ (hring r r' hd hempty) fun k' zs hk' hne' x hx => ?_
    · refine hagree (fun x hx => ?_) (by simp) (by simp)
      cases List.mem_append.mp hx
      case inl hx => exact ⟨List.mem_append_left _ (r.next_closed hx), List.mem_append_left _ (r.prev_closed hx)⟩
      case inr hx => exact ⟨List.mem_append_right _ (r'.next_closed hx), List.mem_append_right _ (r'.prev_closed hx)⟩
    · obtain ⟨hk', hkk⟩ := Holds.update_none_eq_some hk'
      have hx₁ := H.apart hk' hxs hne' hx
      have hx₂ := H.apart hk' hys hkk hx
      have := (hf ys xs).mem_iff (a := x)
      grind

theorem listSplice_holds (H : l.Holds s) (hne : k ≠ h) (hk : (s k).isSome) (hs : (s h).isSome) :
    (listSplice l k h).Holds (s.splice (· ++ ·) k h) ∧ (s.splice (· ++ ·) k h).Free k :=
  splice_holds H hne hk hs (fun _ _ => .refl _) (fun _ => rfl) listSplice_ring fun hA hh hk =>
    agree_listSplice' hh (hA h hh).left (hA k hk).left (hA k hk).right

theorem listSpliceTail_holds (H : l.Holds s) (hne : k ≠ h) (hk : (s k).isSome) (hs : (s h).isSome) :
    (listSpliceTail l k h).Holds (s.splice (fun ys xs => xs ++ ys) k h) ∧
      (s.splice (fun ys xs => xs ++ ys) k h).Free k :=
  splice_holds H hne hk hs (fun _ _ => List.perm_append_comm) List.append_nil listSpliceTail_ring fun hA hh hk =>
    agree_listSplice' (hA h hh).right hh (hA k hk).left (hA k hk).right

theorem takeWhile_dropWhile_ne (he : e ∉ xs) (ys : List Nat) :
    (xs ++ e :: ys).takeWhile (· ≠ e) = xs ∧ (xs ++ e :: ys).dropWhile (· ≠ e) = e :: ys := by
  have hall : ∀ x ∈ xs, decide (x ≠ e) = true := fun x hx => decide_eq_true fun hc => he (hc ▸ hx)
  refine ⟨?_, ?_⟩
  · rw [List.takeWhile_append_of_pos hall, List.takeWhile_cons_of_neg (by simp), List.append_nil]
  · rw [List.dropWhile_append_of_pos hall, List.dropWhile_cons_of_neg (by simp)]

-- The front of a list becomes a list of its own.
theorem listCutPosition'_holds (H : l.Holds s) (hk : s.Outside k) (hne : k ≠ h) (hs : s h = some (xs ++ e :: ys)) :
    (listCutPosition' l k h e).Holds (Function.update (Function.update s k (some (xs ++ [e]))) h (some ys)) := by
  have r := H.ring hs
  have hkmem := hk h _ hs (Ne.symm hne)
  have nodup := r.nodup
  obtain ⟨rk, rh⟩ := listCutPosition_ring r hkmem
  have hagree : Agree (k :: h :: (xs ++ e :: ys)) l (listCutPosition' l k h e) := by
    have he : e ∈ h :: (xs ++ e :: ys) := by simp
    rw [listCutPosition_eq_link]
    refine (agree_link ?_ ?_ l).trans ((agree_link ?_ ?_ _).trans (agree_link ?_ ?_ _))
    case refine_2 => exact .tail _ (r.next_closed List.mem_cons_self)
    case refine_6 => exact .tail _ (r.next_closed he)
    all_goals simp
  have H₁ : (listCutPosition' l k h e).Holds (Function.update (Function.update s h none) k (some (xs ++ [e]))) := by
    refine (H.forget h).update hagree rk fun k' zs hk' hne' x hx => ?_
    obtain ⟨hk', hkh⟩ := Holds.update_none_eq_some hk'
    have hxk : x ≠ k := by
      rintro rfl
      exact hk k' zs hk' hne' hx
    have hapart := H.apart hk' hs hkh hx
    grind
  have H₂ := H₁.update (A := []) (Agree.refl _ _) rh fun k' zs hk' hne' x hx => by
    refine ⟨List.not_mem_nil, fun hc => ?_⟩
    by_cases hkk : k' = k
    case pos =>
      rw [hkk, Function.update_self] at hk'
      cases hk'
      grind
    case neg =>
      rw [Function.update_of_ne hkk] at hk'
      have hapart := H.apart (Holds.update_none_eq_some hk').left hs hne' hx
      grind
  rwa [Function.update_comm (Ne.symm hne), Function.update_idem] at H₂

theorem listCutPosition_mem_holds (H : l.Holds s) (hk : s.Outside k) (hne : k ≠ h) (hs : s h = some xs)
    (hmem : e ∈ xs) : (listCutPosition l k h e).Holds (s.cut k h e) := by
  have r := H.ring hs
  obtain ⟨hhxs, hnodup⟩ := List.nodup_cons.mp r.nodup
  obtain ⟨ys, zs, rfl⟩ := List.append_of_mem hmem
  have heys : e ∉ ys := by grind
  obtain ⟨htake, hdrop⟩ := takeWhile_dropWhile_ne heys zs
  have hcut : s.cut k h e = Function.update (Function.update s k (some (ys ++ [e]))) h (some zs) := by
    simp only [Lists.cut, hs, if_pos hmem, htake, hdrop, List.drop_succ_cons, List.drop_zero]
  have hnonempty : ¬listEmpty l h := fun hc => List.ne_nil_of_mem hmem ((listEmpty_iff r).mp hc)
  have hfirst : ¬(listIsSingular l h ∧ l.next h ≠ e ∧ h ≠ e) := by
    rintro ⟨hone, hnext, -⟩
    have hlen := (listIsSingular_iff r).mp hone
    rw [r.next_head] at hnext
    cases ys
    case nil  => exact hnext rfl
    case cons => simp at hlen
  have heh : e ≠ h := fun hc => hhxs (hc ▸ hmem)
  rw [hcut, listCutPosition, if_neg hnonempty, if_neg hfirst, if_neg heh]
  exact listCutPosition'_holds H hk hne hs

theorem listCutPosition_holds (H : l.Holds s) (hk : s.Outside k) (hne : k ≠ h) (hs : s h = some xs)
    (he : e ∈ h :: xs ∨ xs.length ≤ 1) : (listCutPosition l k h e).Holds (s.cut k h e) := by
  have r := H.ring hs
  by_cases hmem : e ∈ xs
  case pos => exact listCutPosition_mem_holds H hk hne hs hmem
  case neg =>
    rw [listCutPosition]
    by_cases hnil : xs = []
    case pos =>
      subst hnil
      have hcut : s.cut k h e = s := by simp [Lists.cut, hs]
      rw [hcut, if_pos ((listEmpty_iff r).mpr rfl)]
      exact H
    case neg =>
      rw [if_neg fun hc => hnil ((listEmpty_iff r).mp hc)]
      by_cases heh : e = h
      case pos =>
        have hhxs := (List.nodup_cons.mp r.nodup).left
        have hcut : s.cut k h e = s.init k := by simp [Lists.cut, hs, heh, hnil, hhxs]
        rw [hcut, if_neg (fun hc => hc.right.right heh.symm), if_pos heh]
        exact initListHead_holds H hk
      case neg =>
        have hcut : s.cut k h e = s := by simp [Lists.cut, hs, hmem, heh]
        have hlen : xs.length = 1 := by
          have hle := he.resolve_left (by simp [heh, hmem])
          have hpos := List.length_pos_of_ne_nil hnil
          omega
        have hnext : l.next h ≠ e := by
          rintro rfl
          have := r.next_closed List.mem_cons_self
          grind
        rw [hcut, if_pos ⟨(listIsSingular_iff r).mpr hlen, hnext, Ne.symm heh⟩]
        exact H

-- The list that was spliced is initialised, where it was not empty anyway.
theorem spliceInit_holds {l' : Heap} (H : (if !listEmpty l k then l' else l).Holds s) (hk : s.Free k)
    (r : l.Ring k xs) : (if !listEmpty l k then initListHead l' k else l).Holds (s.init k) := by
  have hempty := listEmpty_iff r
  cases he : listEmpty l k
  case true =>
    rw [hempty.mp he] at r
    rw [he] at H
    exact H.update (A := []) (Agree.refl _ _) r fun k' zs hk' hne x hx => ⟨List.not_mem_nil, fun hc => by
      rw [List.mem_singleton.mp hc] at hx
      exact hk k' zs hk' hx⟩
  case false =>
    rw [he] at H
    exact initListHead_holds H hk.outside

-- What the functions return is what there is to return.
theorem listEmpty_eq (H : l.Holds s) (hs : (s h).isSome) :
    listEmpty l h = (s h == some []) ∧ listEmptyCareful l h = (s h == some []) := by
  obtain ⟨xs, hxs⟩ := Option.isSome_iff_exists.mp hs
  have r := H.ring hxs
  rw [hxs]
  refine ⟨?_, ?_⟩ <;> rw [Bool.eq_iff_iff]
  · simp [listEmpty_iff r]
  · simp [listEmptyCareful_iff r]

theorem listIsSingular_eq (H : l.Holds s) (hs : (s h).isSome) :
    listIsSingular l h = (s h).any (·.length == 1) := by
  obtain ⟨xs, hxs⟩ := Option.isSome_iff_exists.mp hs
  rw [hxs, Bool.eq_iff_iff, listIsSingular_iff (H.ring hxs)]
  simp

theorem listIsLast_eq (H : l.Holds s) (hs : s h = some xs) (he : e ∈ xs) :
    listIsLast l e h = (s h).any (·.getLast? == some e) := by
  obtain ⟨ys, zs, rfl⟩ := List.append_of_mem he
  have r := H.ring hs
  rw [hs, Bool.eq_iff_iff, listIsLast_iff r]
  cases List.eq_nil_or_concat' zs
  case inl hzs => simp [hzs]
  case inr hzs =>
    obtain ⟨vs, z, rfl⟩ := hzs
    have hze : z ≠ e := by
      have := r.nodup
      grind
    have hlast : (ys ++ e :: (vs ++ [z])).getLast? = some z := by
      rw [← List.cons_append, ← List.append_assoc, List.getLast?_concat]
    simp [hlast, hze]

-- A function that is called as it asks does in the memory what it is for.
theorem onHeap_step (H : l.Holds s) (hl : Legal s op) (h : onLists s op = some (s', o)) :
    ∃ l', onHeap l op = some (l', o) ∧ l'.Holds s' := by
  cases op <;> cases h
  case initListHead => exact ⟨_, rfl, initListHead_holds H hl⟩
  case listAdd      => exact ⟨_, rfl, listAdd_holds H hl.left hl.right⟩
  case listAddTail  => exact ⟨_, rfl, listAddTail_holds H hl.left hl.right⟩
  case listDel      => exact ⟨_, rfl, listDel_holds H hl⟩
  case listDelInit  =>
    obtain ⟨H', hfree⟩ := listDelEntry_holds H hl
    exact ⟨_, rfl, initListHead_holds H' hfree.outside⟩
  case listReplace     => exact ⟨_, rfl, (listReplace_holds H hl.left hl.right).left⟩
  case listReplaceInit =>
    obtain ⟨H', hfree⟩ := listReplace_holds H hl.left hl.right
    exact ⟨_, rfl, initListHead_holds H' hfree.outside⟩
  case listMove        => exact ⟨_, rfl, listMove_holds H hl.left hl.right⟩
  case listMoveTail    => exact ⟨_, rfl, listMoveTail_holds H hl.left hl.right⟩
  case listRotateLeft  => exact ⟨_, rfl, listRotateLeft_holds H hl⟩
  case listCutPosition =>
    obtain ⟨hk, hne, xs, hs, he⟩ := hl
    exact ⟨_, rfl, listCutPosition_holds H hk hne hs he⟩
  case listSplice     => exact ⟨_, rfl, (listSplice_holds H hl.left hl.right.left hl.right.right).left⟩
  case listSpliceTail => exact ⟨_, rfl, (listSpliceTail_holds H hl.left hl.right.left hl.right.right).left⟩
  case listSpliceInit =>
    obtain ⟨hne, hk, hs⟩ := hl
    obtain ⟨xs, hxs⟩ := Option.isSome_iff_exists.mp hk
    obtain ⟨H', hfree⟩ := listSplice_holds H hne hk hs
    exact ⟨_, rfl, spliceInit_holds H' hfree (H.ring hxs)⟩
  case listSpliceTailInit =>
    obtain ⟨hne, hk, hs⟩ := hl
    obtain ⟨xs, hxs⟩ := Option.isSome_iff_exists.mp hk
    obtain ⟨H', hfree⟩ := listSpliceTail_holds H hne hk hs
    exact ⟨_, rfl, spliceInit_holds H' hfree (H.ring hxs)⟩
  case listEmpty        => exact ⟨l, by rw [onHeap, (listEmpty_eq H hl).left], H⟩
  case listEmptyCareful => exact ⟨l, by rw [onHeap, (listEmpty_eq H hl).right], H⟩
  case listIsSingular   => exact ⟨l, by rw [onHeap, listIsSingular_eq H hl], H⟩
  case listIsLast       =>
    obtain ⟨xs, hs, he⟩ := hl
    exact ⟨l, by rw [onHeap, listIsLast_eq H hs he], H⟩

variable {tr : List (Op × Option Bool)}

-- Every program that calls the functions as they ask finds the lists as they should be, whatever the
-- memory was before. The loops visit the entries of a list in order, or in reverse, and a loop that
-- takes out each entry leaves it empty.
theorem lists_refined (st : onLists.Steps Legal (fun _ => none) tr s) (l₀ : Heap) :
    ∃ l, onHeap.Steps Machine.Free l₀ tr l ∧ ∀ h xs, s h = some xs → l.Ring h xs ∧ ∀ fuel > xs.length,
      listForEach l.next h fuel (l.next h) = some xs ∧ listForEach l.prev h fuel (l.prev h) = some xs.reverse ∧
      ∃ l', listForEachSafe listDel h fuel l (l.next h) (l.next (l.next h)) = some (l', xs) ∧ l'.Ring h [] := by
  obtain ⟨l, st', H⟩ := st.simulation (fun s l => Holds l s) (Holds.none l₀) fun H hl h => by
    obtain ⟨l', hstep, H'⟩ := onHeap_step H hl h
    exact ⟨l', trivial, hstep, H'⟩
  refine ⟨l, st', fun h xs hs => ?_⟩
  have r := H.ring hs
  refine ⟨r, fun fuel hf => ⟨listForEach_ring r hf, listForEachPrev_ring r hf, ?_⟩⟩
  exact listForEachSafe_ring listDel_first r hf

-- The entry of one list is put into another one.
theorem lists_refined_of_splice :
    ∃ l : Heap, l.Ring 1 [] ∧ l.Ring 2 [10] ∧ listForEach l.next 2 2 (l.next 2) = some [10] := by
  let one : Lists := Lists.init (fun _ => none) 1
  let two : Lists := one.init 2
  have hone {h : Nat} {xs : List Nat} (hs : one h = some xs) : h = 1 ∧ xs = [] := by
    simp only [one, Lists.init, Function.update_apply] at hs
    split at hs <;> cases hs
    exact ⟨‹_›, rfl⟩
  have htwo {h : Nat} {xs : List Nat} (hs : two h = some xs) : (h = 1 ∨ h = 2) ∧ xs = [] := by
    simp only [two, Lists.init, Function.update_apply] at hs
    split at hs
    case isTrue hh => cases hs; exact ⟨.inr hh, rfl⟩
    case isFalse   => exact ⟨.inl (hone hs).left, (hone hs).right⟩
  have hadd : Legal two (.listAdd 10 1) := by
    refine ⟨fun h xs hs => ?_, rfl⟩
    obtain ⟨hh, rfl⟩ := htwo hs
    rcases hh with rfl | rfl <;> decide
  have hnone : Legal (fun _ => none) (.initListHead 1) := fun h xs hs => by cases hs
  have hsecond : Legal one (.initListHead 2) := fun h xs hs _ => by
    obtain ⟨rfl, rfl⟩ := hone hs
    decide
  have st := Machine.Steps.refl (m := onLists) (P := Legal) (s := fun _ => none)
    |>.snoc (i := .initListHead 1) (by exact hnone) rfl
    |>.snoc (i := .initListHead 2) (by exact hsecond) rfl
    |>.snoc (i := .listAdd 10 1) (by exact hadd) rfl
    |>.snoc (i := .listSpliceInit 1 2) (by exact ⟨by decide, rfl, rfl⟩) rfl
  obtain ⟨l, -, hl⟩ := lists_refined st ⟨fun _ => 0, fun _ => 0⟩
  exact ⟨l, (hl 1 [] rfl).left, (hl 2 [10] rfl).left, ((hl 2 [10] rfl).right 2 (by decide)).left⟩

end ListHead
