import TnsParser.Library.Ring

-- Rings that are put together and taken apart, and any number of rings in one memory.
namespace Links

variable {α : Type*} {l l' : Links α} {a b e h k x : α} {xs ys zs : List α}

-- `l'` differs from `l` in the words of the headers in `A` only.
def Agree (A : List α) (l l' : Links α) : Prop :=
  ∀ x ∉ A, l'.next x = l.next x ∧ l'.prev x = l.prev x

theorem Agree.refl (A : List α) (l : Links α) : Agree A l l :=
  fun _ _ => ⟨rfl, rfl⟩

theorem Agree.trans {A : List α} {l'' : Links α} (h : Agree A l l') (h' : Agree A l' l'') : Agree A l l'' :=
  fun x hx => ⟨(h' x hx).left.trans (h x hx).left, (h' x hx).right.trans (h x hx).right⟩

theorem Ring.agree {A : List α} (r : l.Ring h xs) (hl : Agree A l l') (hA : ∀ x ∈ h :: xs, x ∉ A) : l'.Ring h xs :=
  r.congr (fun x hx => (hl x (hA x hx)).left) fun x hx => (hl x (hA x hx)).right

section

variable [DecidableEq α]

theorem agree_link {A : List α} (ha : a ∈ A) (hb : b ∈ A) (l : Links α) : Agree A l (l.link a b) := by
  intro x hx
  have hxa : x ≠ a := by rintro rfl; exact hx ha
  have hxb : x ≠ b := by rintro rfl; exact hx hb
  simp [link_next, link_prev, hxa, hxb]

theorem Path.link (p : l.Path xs) (ha : a ∉ xs.dropLast) (hb : b ∉ xs.tail) : (l.link a b).Path xs := by
  refine p.congr (fun x hx => ?_) fun x hx => ?_
  · rw [link_next, if_neg]
    rintro rfl
    exact ha hx
  · rw [link_prev, if_neg]
    rintro rfl
    exact hb hx

-- Linking the end of one path to the start of another one.
theorem Path.join (p : l.Path (xs ++ [a])) (q : l.Path (b :: ys)) (hs : (xs ++ a :: b :: ys).dropLast.Nodup)
    (ht : (xs ++ a :: b :: ys).tail.Nodup) : (l.link a b).Path (xs ++ a :: b :: ys) := by
  have hs : (xs ++ a :: (b :: ys).dropLast).Nodup := by
    rwa [List.dropLast_append_of_ne_nil (by simp), List.dropLast_cons_of_ne_nil (by simp)] at hs
  have ht : ((xs ++ [a]).tail ++ b :: ys).Nodup := by
    rwa [List.append_cons, List.tail_append_of_ne_nil (by simp)] at ht
  have ha := List.nodup_cons.mp (List.nodup_middle.mp hs) |>.left
  have hb := List.nodup_cons.mp (List.nodup_middle.mp ht) |>.left
  rw [List.mem_append, not_or] at ha hb
  refine List.isChain_append_cons_cons.mpr ⟨p.link ?_ hb.left, ⟨?_, ?_⟩, q.link ha.right hb.right⟩
  · rw [List.dropLast_concat]
    exact ha.left
  · simp [link_next]
  · simp [link_prev]

end

-- A ring may be entered at each of its headers.
theorem Ring.rotate (r : l.Ring h (xs ++ e :: ys)) : l.Ring e (ys ++ h :: xs) where
  path := by
    have path : l.Path ((h :: xs) ++ e :: (ys ++ [h])) := by simpa using r.path
    obtain ⟨before, after⟩ := List.isChain_split.mp path
    have path : l.Path ((e :: ys) ++ h :: (xs ++ [e])) := List.isChain_split.mpr ⟨after, before⟩
    simpa using path
  nodup := by
    have nodup : ((h :: xs) ++ e :: ys).Nodup := r.nodup
    exact List.nodup_append_comm.mp nodup

-- What is read of a ring from the front or from the back.
theorem Ring.prev_head (r : l.Ring h xs) : l.prev h = xs.getLastD h := by
  cases List.eq_nil_or_concat' xs
  case inl hxs =>
    subst hxs
    exact List.isChain_cons_cons.mp r.path |>.left.right
  case inr hxs =>
    obtain ⟨ys, y, rfl⟩ := hxs
    have path : l.Path ((h :: ys) ++ y :: h :: []) := by simpa using r.path
    rw [List.getLastD_concat]
    exact List.isChain_append_cons_cons.mp path |>.right.left.right

theorem Ring.path_back (r : l.Ring h xs) : l.Path (xs ++ [h]) :=
  r.path.tail

theorem Ring.path_entries (r : l.Ring h xs) : l.Path xs :=
  r.path_back.left_of_append

section

variable [DecidableEq α]

-- The link that closes a ring.
theorem Ring.of_join (p : l.Path (xs ++ [a])) (q : l.Path (b :: ys)) (hg : h :: (zs ++ [h]) = xs ++ a :: b :: ys)
    (nodup : (h :: zs).Nodup) : (l.link a b).Ring h zs where
  nodup := nodup
  path := by
    rw [hg]
    refine p.join q ?_ ?_
    · rw [← hg, ← List.cons_append, List.dropLast_concat]
      exact nodup
    · rw [← hg, List.tail_cons]
      exact List.nodup_append_comm.mp nodup

-- All entries of another ring behind the head.
theorem Ring.splice (r : l.Ring h xs) (r' : l.Ring k ys) (hd : List.Disjoint (h :: xs) (k :: ys)) (hne : ys ≠ []) :
    ((l.link h (l.next k)).link (l.prev k) (l.next h)).Ring h (ys ++ xs) := by
  have nodup : (h :: (ys ++ xs)).Nodup := by
    have := r.nodup
    have := r'.nodup
    grind [List.Disjoint]
  obtain ⟨q, ws, hws, hq, -⟩ := r.exists_first
  obtain ⟨y, vs, rfl⟩ := List.exists_cons_of_ne_nil hne
  obtain ⟨us, z, hz⟩ := (List.eq_nil_or_concat' (y :: vs)).resolve_left hne
  have hy : l.next k = y := r'.next_head
  have hlast : l.prev k = z := by rw [r'.prev_head, hz, List.getLastD_concat]
  rw [hy, hlast, hq]
  have front : (l.link h y).Path ([] ++ h :: y :: vs) :=
    Path.join (.singleton h) r'.path_entries
      (nodup.sublist ((List.dropLast_sublist _).trans (by simp))) (nodup.of_cons.sublist (by simp))
  have back : (l.link h y).Path (xs ++ [h]) := by
    refine r.path_back.link ?_ fun hy => hd (?_ : y ∈ h :: xs) (by simp)
    · rw [List.dropLast_concat]
      exact (List.nodup_cons.mp r.nodup).left
    · simpa [or_comm] using List.mem_of_mem_tail hy
  rw [hws] at back
  rw [hz, List.nil_append, ← List.cons_append] at front
  refine .of_join front back ?_ nodup
  rw [hz, List.append_assoc, hws]
  simp

-- The entries of a ring up to `e`, in a ring of their own.
theorem Ring.cut (r : l.Ring h (xs ++ e :: ys)) (hk : k ∉ h :: (xs ++ e :: ys)) :
    let l' := ((l.link k (l.next h)).link e k).link h (l.next e)
    l'.Ring k (xs ++ [e]) ∧ l'.Ring h ys := by
  have nodup : (k :: h :: (xs ++ e :: ys)).Nodup := .cons hk r.nodup
  obtain ⟨q, vs, hvs⟩ := List.exists_cons_of_ne_nil (show xs ++ [e] ≠ [] by simp)
  obtain ⟨n, ws, hws⟩ := List.exists_cons_of_ne_nil (show ys ++ [h] ≠ [] by simp)
  have hq : l.next h = q := by
    rw [r.next_head, List.append_cons, hvs]
    rfl
  have hn : l.next e = n := by rw [r.next_mem, hws, List.headD_cons]
  have entries : l.Path (q :: vs) := by
    have := r.path_entries
    rw [List.append_cons, hvs] at this
    exact this.left_of_append
  have back : l.Path (n :: ws) := by
    have := r.path_back
    rw [List.append_assoc, List.cons_append, hws] at this
    exact this.right_of_append.tail
  have hqmem : q ∈ xs ++ [e] := by simp [hvs]
  have hnmem : n ∈ ys ++ [h] := by simp [hws]
  have hcut : (k :: (xs ++ [e])).Nodup := nodup.sublist (by simp)
  have hrest : (h :: ys).Nodup := r.nodup.sublist (by simp)
  have hapart : List.Disjoint (k :: (xs ++ [e])) (h :: ys) := by grind [List.Disjoint]
  rw [hq, hn]
  have front : (l.link k q).Path ((k :: xs) ++ [e]) := by
    rw [List.cons_append, hvs]
    refine Path.join (show l.Path ([] ++ [k]) from .singleton k) entries ?_ ?_
    · exact (hvs ▸ hcut).sublist (List.dropLast_sublist _)
    · exact (hvs ▸ hcut).of_cons
  have keep {l' : Links α} {a b : α} (p : l'.Path (n :: ws)) (ha : a ∈ k :: (xs ++ [e])) (hb : b ∈ k :: (xs ++ [e])) :
      (l'.link a b).Path (n :: ws) := by
    refine p.link ?_ ?_ <;> rw [← hws]
    · rw [List.dropLast_concat]
      exact fun hc => hapart ha (.tail _ hc)
    · exact fun hc => hapart hb (by simpa [or_comm] using List.mem_of_mem_tail hc)
  have back : ((l.link k q).link e k).Path (n :: ws) :=
    keep (keep back List.mem_cons_self (.tail _ hqmem)) (by simp) List.mem_cons_self
  have hsingle : ((l.link k q).link e k).Path ([] ++ [h]) := .singleton h
  refine ⟨Ring.agree (A := [h, n]) (.of_join front (.singleton k) (by simp) hcut)
    (agree_link (by simp) (by simp) _) fun x hx hA => ?_, .of_join hsingle back (by simp [hws]) hrest⟩
  refine hapart hx ?_
  have hn : n ∈ h :: ys := by simpa [or_comm] using hnmem
  rcases List.mem_pair.mp hA with rfl | rfl
  · exact List.mem_cons_self
  · exact hn

-- A new header at the end of the ring.
theorem Ring.insertLast (r : l.Ring h xs) (ha : a ∉ h :: xs) :
    ((l.link a h).link (l.prev h) a).Ring h (xs ++ [a]) := by
  cases List.eq_nil_or_concat' xs
  case inl hxs =>
    subst hxs
    have hn : l.next h = h := r.next_head
    have hp : l.prev h = h := r.prev_head
    have := r.insert ha
    rw [hn] at this
    rwa [hp]
  case inr hxs =>
    obtain ⟨ys, p, rfl⟩ := hxs
    have hp : l.prev h = p := by rw [r.prev_head, List.getLastD_concat]
    have r' : l.Ring p (h :: ys) := r.rotate
    have hn : l.next p = h := r'.next_head
    have hmem : a ∉ p :: h :: ys := by
      have := ha
      grind
    have r'' : ((l.link a h).link p a).Ring p ([a] ++ h :: ys) := hn ▸ r'.insert hmem
    rw [hp, List.append_assoc]
    exact r''.rotate

-- A new header in the place of a header of the ring.
theorem Ring.replace (r : l.Ring e xs) (ha : a ∉ e :: xs) :
    let l' := l.link a (l.next e)
    (l'.link (l'.prev e) a).Ring a xs := by
  have ⟨hae, hax⟩ := not_or.mp <| mt List.mem_cons.mpr ha
  cases xs
  case nil =>
    have hn : l.next e = e := r.next_head
    refine .nil ?_ ?_ <;> simp [hn, link_next, link_prev]
  case cons x xs =>
    have nodup : (a :: x :: xs).Nodup := .cons hax r.nodup.of_cons
    obtain ⟨us, z, hz⟩ := (List.eq_nil_or_concat' (x :: xs)).resolve_left (by simp)
    have hn : l.next e = x := r.next_head
    have hex : e ≠ x := fun hc => (List.nodup_cons.mp r.nodup).left (by simp [hc])
    have hp : (l.link a x).prev e = z := by
      rw [link_prev, if_neg hex, r.prev_head, hz, List.getLastD_concat]
    have front : (l.link a x).Path ([] ++ a :: x :: xs) :=
      Path.join (.singleton a) r.path_entries (nodup.sublist (List.dropLast_sublist _)) nodup.of_cons
    rw [hz, List.nil_append, ← List.cons_append] at front
    simp only [hn, hp]
    exact .of_join front (.singleton a) (by simp [hz]) nodup

end

-- The same headers, with the two pointers of each exchanged.
def reverse (l : Links α) : Links α where
  next := l.prev
  prev := l.next

theorem Ring.reverse (r : l.Ring h xs) : l.reverse.Ring h xs.reverse where
  nodup := by
    obtain ⟨hh, hxs⟩ := List.nodup_cons.mp r.nodup
    exact List.nodup_cons.mpr ⟨by simpa using hh, List.nodup_reverse.mpr hxs⟩
  path := by
    have hlinked : l.reverse.Linked = flip l.Linked := by
      funext a b
      exact propext and_comm
    have path : l.reverse.Path (h :: (xs ++ [h])).reverse := by
      rw [Path, hlinked]
      exact List.isChain_reverse.mpr r.path
    simpa using path

-- The neighbours of a header of the ring are in the ring.

theorem Ring.next_closed (r : l.Ring h xs) (he : e ∈ h :: xs) : l.next e ∈ h :: xs := by
  cases List.mem_cons.mp he
  case inl he =>
    rw [he, r.next_head]
    cases xs <;> simp
  case inr he =>
    obtain ⟨ys, zs, rfl⟩ := List.append_of_mem he
    rw [r.next_mem]
    cases zs <;> simp

theorem Ring.prev_closed (r : l.Ring h xs) (he : e ∈ h :: xs) : l.prev e ∈ h :: xs := by
  cases List.mem_cons.mp he
  case inl he =>
    rw [he, r.prev_head]
    cases List.eq_nil_or_concat' xs
    case inl hxs => simp [hxs]
    case inr hxs =>
      obtain ⟨ys, y, rfl⟩ := hxs
      simp
  case inr he =>
    obtain ⟨ys, zs, rfl⟩ := List.append_of_mem he
    have hmem : l.prev e ∈ h :: ys := r.prev_mem ▸ List.getLast_mem _
    have := hmem
    grind

-- The entries behind each head, for any number of heads. No header is in two of the rings.
structure Holds (l : Links α) (R : α → Option (List α)) : Prop where
  ring  : ∀ {h xs}, R h = some xs → l.Ring h xs
  apart : ∀ {h k xs ys}, R h = some xs → R k = some ys → h ≠ k → List.Disjoint (h :: xs) (k :: ys)

namespace Holds

variable {R : α → Option (List α)}

theorem none (l : Links α) : l.Holds fun _ => none where
  ring  := fun h => by cases h
  apart := fun h => by cases h

variable [DecidableEq α]

theorem update_none_eq_some {k' : α} (h : Function.update R k .none k' = some xs) :
    R k' = some xs ∧ k' ≠ k := by
  rw [Function.update_apply] at h
  split at h
  case isTrue     => cases h
  case isFalse hk => exact ⟨h, hk⟩

-- A ring may be given up.
theorem forget (H : l.Holds R) (k : α) : l.Holds (Function.update R k .none) where
  ring hR      := H.ring (update_none_eq_some hR).left
  apart hR hR' := H.apart (update_none_eq_some hR).left (update_none_eq_some hR').left

-- One of the rings is changed, or made, and the others are left alone.
theorem update {A : List α} (H : l.Holds R) (hl : Agree A l l') (r : l'.Ring h xs)
    (hA : ∀ k ys, R k = some ys → k ≠ h → ∀ x ∈ k :: ys, x ∉ A ∧ x ∉ h :: xs) :
    l'.Holds (Function.update R h (some xs)) where
  ring {k ys} hR := by
    by_cases hk : k = h
    case pos =>
      rw [hk, Function.update_self] at hR
      cases hR
      exact hk ▸ r
    case neg =>
      rw [Function.update_of_ne hk] at hR
      exact (H.ring hR).agree hl fun x hx => (hA k ys hR hk x hx).left
  apart {k k' ys zs} hR hR' hne := by
    by_cases hk : k = h
    case pos =>
      have hk' : k' ≠ h := fun hc => hne (hk.trans hc.symm)
      rw [hk, Function.update_self] at hR
      rw [Function.update_of_ne hk'] at hR'
      cases hR
      exact fun x hx hx' => (hA k' zs hR' hk' x hx').right (hk ▸ hx)
    case neg =>
      rw [Function.update_of_ne hk] at hR
      by_cases hk' : k' = h
      case pos =>
        rw [hk', Function.update_self] at hR'
        cases hR'
        exact fun x hx hx' => (hA k ys hR hk x hx).right (hk' ▸ hx')
      case neg =>
        rw [Function.update_of_ne hk'] at hR'
        exact H.apart hR hR' hne

-- One of the rings is changed, with headers in `B` that were in none of the rings.
theorem modify {B xs' : List α} (H : l.Holds R) (hR : R h = some xs)
    (hB : ∀ b ∈ B, ∀ k ys, R k = some ys → b ∉ k :: ys) (hl : Agree (B ++ h :: xs) l l') (r : l'.Ring h xs')
    (hxs : ∀ x ∈ xs', x ∈ B ++ xs) : l'.Holds (Function.update R h (some xs')) := by
  refine H.update hl r fun k ys hk hne x hx => ?_
  have hapart : x ∉ B ++ h :: xs := by
    intro hc
    cases List.mem_append.mp hc
    case inl hc => exact hB x hc k ys hk hx
    case inr hc => exact H.apart hk hR hne hx hc
  refine ⟨hapart, fun hc => hapart ?_⟩
  cases List.mem_cons.mp hc
  case inl hc => simp [hc]
  case inr hc =>
    have := hxs x hc
    grind

end Holds
end Links
