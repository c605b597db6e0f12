import Mathlib.Data.List.Chain
import Mathlib.Data.List.Nodup

-- The two pointers of every list header, over arbitrary addresses.
structure Links (α : Type*) where
  next : α → α
  prev : α → α

namespace Links

variable {α : Type*} {l l' : Links α} {a b e h x : α} {xs ys : List α}

section Write

variable [DecidableEq α]

def setNext (l : Links α) (a b : α) : Links α :=
  { l with next := Function.update l.next a b }

def setPrev (l : Links α) (a b : α) : Links α :=
  { l with prev := Function.update l.prev a b }

-- Makes `b` the successor of `a`.
def link (l : Links α) (a b : α) : Links α :=
  l.setPrev b a |>.setNext a b

theorem setNext_next (l : Links α) (a b x : α) :
    (l.setNext a b).next x = if x = a then b else l.next x := by
  simp [setNext, Function.update_apply]

theorem setPrev_prev (l : Links α) (a b x : α) :
    (l.setPrev a b).prev x = if x = a then b else l.prev x := by
  simp [setPrev, Function.update_apply]

@[simp]
theorem setNext_prev (l : Links α) (a b : α) : (l.setNext a b).prev = l.prev :=
  rfl

@[simp]
theorem setPrev_next (l : Links α) (a b : α) : (l.setPrev a b).next = l.next :=
  rfl

theorem link_next (l : Links α) (a b x : α) :
    (l.link a b).next x = if x = a then b else l.next x := by
  simp [link, setNext_next]

theorem link_prev (l : Links α) (a b x : α) :
    (l.link a b).prev x = if x = b then a else l.prev x := by
  simp [link, setPrev_prev]

end Write

def Linked (l : Links α) (a b : α) : Prop :=
  l.next a = b ∧ l.prev b = a

-- `xs` is linked in order, in both directions.
abbrev Path (l : Links α) (xs : List α) : Prop :=
  xs.IsChain l.Linked

-- A path reads the successor of all its elements but the last, and the predecessor of all but the
-- first.
theorem Path.congr (hn : ∀ x ∈ xs.dropLast, l'.next x = l.next x)
    (hp : ∀ x ∈ xs.tail, l'.prev x = l.prev x) (p : l.Path xs) : l'.Path xs := by
  induction xs
  case nil => exact .nil
  case cons x xs hi =>
    cases xs
    case nil => exact .singleton _
    case cons y ys =>
      have ⟨⟨hn₁, hp₁⟩, p⟩ := List.isChain_cons_cons.mp p
      refine List.isChain_cons_cons.mpr ⟨⟨?next, ?prev⟩, hi ?_ ?_ p⟩
      case next => exact hn x (by simp) |>.trans hn₁
      case prev => exact hp y (by simp) |>.trans hp₁
      · exact fun z hz => hn z (by simp [hz])
      · exact fun z hz => hp z (by simp at hz; simp [hz])

-- `l.Ring h xs`: from the head `h` the successors run through `xs` and back to `h`, the
-- predecessors run the other way, and no header occurs twice.
structure Ring (l : Links α) (h : α) (xs : List α) : Prop where
  path  : l.Path (h :: (xs ++ [h]))
  nodup : (h :: xs).Nodup

namespace Ring

theorem congr (hn : ∀ x ∈ h :: xs, l'.next x = l.next x) (hp : ∀ x ∈ h :: xs, l'.prev x = l.prev x)
    (r : l.Ring h xs) : l'.Ring h xs where
  nodup := r.nodup
  path  := by
    refine r.path.congr ?_ ?_
    · intro x hx
      rw [← List.cons_append, List.dropLast_concat] at hx
      exact hn x hx
    · intro x hx
      exact hp x (by simpa [or_comm] using hx)

theorem next_head (r : l.Ring h xs) : l.next h = xs.headD h := by
  have := r.path
  cases xs <;> simp_all [Path, Linked]

theorem next_head_eq_iff (r : l.Ring h xs) : l.next h = h ↔ xs = [] := by
  have := r.nodup
  rw [r.next_head]
  cases xs <;> simp_all [eq_comm]

theorem nil (hn : l.next h = h) (hp : l.prev h = h) : l.Ring h [] where
  path  := by simp [Path, Linked, hn, hp]
  nodup := by simp

-- The neighbours of an element of the ring.
theorem next_mem (r : l.Ring h (xs ++ e :: ys)) : l.next e = (ys ++ [h]).headD h := by
  have hp : l.Path ((h :: xs) ++ e :: (ys ++ [h])) := by simpa using r.path
  have := List.isChain_split.mp hp |>.right
  cases ys <;> simp_all [Linked]

theorem prev_mem (r : l.Ring h (xs ++ e :: ys)) : l.prev e = (h :: xs).getLast (by simp) := by
  have hp : l.Path ((h :: xs) ++ e :: (ys ++ [h])) := by simpa using r.path
  have hl := List.dropLast_append_getLast (List.cons_ne_nil h xs)
  rw [← hl, List.append_assoc, List.singleton_append] at hp
  exact List.isChain_append_cons_cons.mp hp |>.right.left.right

-- The elements followed by the head again, taken apart at the front.
theorem exists_first (r : l.Ring h xs) :
    ∃ q vs, xs ++ [h] = q :: vs ∧ l.next h = q ∧ (q :: vs).Nodup := by
  have hd : (xs ++ [h]).Nodup := List.nodup_append.mpr ⟨r.nodup.of_cons, by simp, fun x hx y hy => by
    rintro rfl
    exact List.nodup_cons.mp r.nodup |>.left <| List.mem_singleton.mp hy ▸ hx⟩
  cases xs
  case nil       => exact ⟨h, [], rfl, r.next_head, hd⟩
  case cons x xs => exact ⟨x, xs ++ [h], rfl, r.next_head, hd⟩

variable [DecidableEq α]

-- Linking a new header in behind the head.
theorem insert (r : l.Ring h xs) (ha : a ∉ h :: xs) :
    ((l.link a (l.next h)).link h a).Ring h (a :: xs) where
  nodup := by
    have ⟨hh, hxs⟩ := List.nodup_cons.mp r.nodup
    have ⟨hah, hax⟩ := not_or.mp <| mt List.mem_cons.mpr ha
    exact .cons (List.not_mem_cons_of_ne_of_not_mem (Ne.symm hah) hh) (.cons hax hxs)
  path := by
    have ⟨q, vs, hvs, hq, nodup⟩ := r.exists_first
    have path := r.path
    have ⟨hh, _⟩ := List.nodup_cons.mp r.nodup
    have ⟨hah, hax⟩ := not_or.mp <| mt List.mem_cons.mpr ha
    have ha : a ∉ xs ++ [h] := by simp [hax, hah]
    have hqa : q ≠ a := by rintro rfl; exact ha (by simp [hvs])
    rw [List.cons_append, hvs, hq]
    rw [hvs] at path
    refine .cons_cons ⟨?_, ?_⟩ <| .cons_cons ⟨?_, ?_⟩ <| Path.congr ?next ?prev path.tail
    · simp [link_next]
    · simp [link_prev]
    · simp [link_next, hah]
    · simp [link_prev, hqa]
    case next =>
      intro x hx
      have hx : x ∈ xs := by rwa [← hvs, List.dropLast_concat] at hx
      have hxh : x ≠ h := by rintro rfl; exact hh hx
      have hxa : x ≠ a := by rintro rfl; exact hax hx
      simp [link_next, hxh, hxa]
    case prev =>
      intro x hx
      have hxq : x ≠ q := by rintro rfl; exact List.nodup_cons.mp nodup |>.left hx
      have hx : x ∈ xs ++ [h] := hvs ▸ .tail _ hx
      have hxa : x ≠ a := by rintro rfl; exact ha hx
      simp [link_prev, hxq, hxa]

-- Linking the neighbours of a header takes it out of the ring.
theorem remove (r : l.Ring h (xs ++ e :: ys)) : (l.link (l.prev e) (l.next e)).Ring h (xs ++ ys) where
  nodup := r.nodup.sublist <| by simp
  path := by
    have path : l.Path ((h :: xs) ++ e :: (ys ++ [h])) := by simpa using r.path
    have nodup : ((h :: xs) ++ e :: ys).Nodup := r.nodup
    have disj : ∀ x ∈ h :: xs, x ∉ ys := fun x hx hy =>
      List.disjoint_of_nodup_append nodup hx (.tail _ hy)
    have hh : h ∉ xs := fun hm => List.nodup_cons.mp r.nodup |>.left (by simp [hm])
    -- The ring up to `e` ends in `p`, the predecessor of `e`; after `e` it begins with `q`.
    obtain ⟨us, p, hus⟩ : ∃ us p, h :: xs = us ++ [p] :=
      ⟨_, _, List.dropLast_append_getLast (List.cons_ne_nil h xs) |>.symm⟩
    obtain ⟨q, vs, hvs⟩ : ∃ q vs, ys ++ [h] = q :: vs := by
      cases ys <;> exact ⟨_, _, rfl⟩
    have hp : l.prev e = p := by rw [r.prev_mem]; simp [hus]
    have hq : l.next e = q := by rw [r.next_mem, hvs, List.headD_cons]
    have hg : h :: (xs ++ ys ++ [h]) = us ++ p :: q :: vs := by
      rw [List.append_assoc, ← List.cons_append, hus, hvs, List.append_assoc]; rfl
    rw [hus, hvs, List.append_assoc, List.singleton_append] at path
    have ⟨before, _, after⟩ := List.isChain_append_cons_cons.mp path
    have nodup_us : (us ++ [p]).Nodup := hus ▸ nodup.of_append_left
    have nodup_vs : (q :: vs).Nodup := by
      rw [← hvs, List.nodup_append]
      refine ⟨nodup.of_append_right.of_cons, by simp, fun x hx y hy => ?_⟩
      rintro rfl
      exact disj x (by simp [List.mem_singleton.mp hy]) hx
    rw [hg, hp, hq]
    refine List.isChain_append_cons_cons.mpr
      ⟨Path.congr ?_ ?_ before, ⟨?_, ?_⟩, Path.congr ?_ ?_ after.tail⟩
    · intro x hx
      have hx : x ∈ us := by rwa [List.dropLast_concat] at hx
      have hxp : x ≠ p := List.nodup_append.mp nodup_us |>.right.right x hx p (by simp)
      simp [link_next, hxp]
    · intro x hx
      have hx : x ∈ xs := by rwa [← hus] at hx
      have hq : q ∈ ys ++ [h] := by simp [hvs]
      have hxq : x ≠ q := by
        rintro rfl
        cases List.mem_append.mp hq
        case inl hq => exact disj x (.tail _ hx) hq
        case inr hq => exact hh <| List.mem_singleton.mp hq ▸ hx
      simp [link_prev, hxq]
    · simp [link_next]
    · simp [link_prev]
    · intro x hx
      have hx : x ∈ ys := by rwa [← hvs, List.dropLast_concat] at hx
      have hp : p ∈ h :: xs := by simp [hus]
      have hxp : x ≠ p := by rintro rfl; exact disj x hp hx
      simp [link_next, hxp]
    · intro x hx
      have hxq : x ≠ q := by rintro rfl; exact List.nodup_cons.mp nodup_vs |>.left hx
      simp [link_prev, hxq]

end Ring
end Links
