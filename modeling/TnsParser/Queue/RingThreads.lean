import TnsParser.Library.Window
import TnsParser.Queue.RingQueue

open Window

namespace RingQueue

variable {α : Type*} {q q' : RingQueue α} {r r' : Role} {pc pc' : Pc} {e : Event α} {i : Int} {n : Nat}
  {pkt : α}

-- Where the index of a thread is when it has used `n` slots. From the moment that it gets a slot until
-- it updates `size`, the condition that it has waited for holds.
def At (q : RingQueue α) (r : Role) (n : Nat) : Pc → Prop
  | .loop | .wait | .stopped => q.index r = slot q.maxSize n
  | .abort                   => q.index r = slot q.maxSize n ∧ (¬q.abortRequest → ¬q.Waits r)
  | .slot i                  =>
    q.index r = slot q.maxSize n ∧ i = slot q.maxSize n ∧ ¬q.Waits r
  | .index                   => (∃ m, n = m + 1 ∧ q.index r = slot q.maxSize m) ∧ ¬q.Waits r
  | .wrap                    => slot q.maxSize n = 0 ∧ ¬q.Waits r
  | .size                    => q.index r = slot q.maxSize n ∧ ¬q.Waits r

-- In `ring_queue_push` or `ring_queue_pull`.
def Pc.advancing : Pc → Bool
  | .index | .wrap | .size                      => true
  | .loop | .wait | .abort | .slot _ | .stopped => false

-- How many of the `n` slots that it has used a thread has counted in `size`.
def counted (n : Int) (pc : Pc) : Int :=
  if pc.advancing then n - 1 else n

-- The use of a slot that an event stands for.
def Event.use : Event α → List (Int × α)
  | .used i pkt                  => [(i, pkt)]
  | .internal | .null | .slot _  => []

-- A step moves the index of its thread as the use of the slots requires.
theorem step_at (h : q.step r pc = some (q', pc', e)) (hpos : ¬q.Waits r → 0 < q.maxSize)
    (ha : q.At r n pc) : q'.At r (n + e.use.length) pc' := by
  cases pc
  case loop =>
    cases h
    split
    case isTrue => exact ha
    case isFalse hw => exact ⟨ha, fun hab hwait => hw ⟨hwait, hab⟩⟩
  case wait =>
    cases h
    exact ha
  case abort =>
    simp only [step] at h
    split at h <;> cases h
    case isTrue => exact ha.left
    case isFalse hab => exact ⟨ha.left, ha.left, ha.right hab⟩
  case slot =>
    cases h
    exact ⟨⟨n, rfl, ha.left⟩, ha.right.right⟩
  case index =>
    have ⟨⟨m, hn, hi⟩, hw⟩ := ha
    subst hn
    cases h
    split
    case isTrue hmax =>
      have hslot : slot q.maxSize m + 1 = q.maxSize := hi ▸ hmax
      exact ⟨by simpa [Event.use] using slot_succ_of_eq hslot, by simpa using hw⟩
    case isFalse hmax =>
      have hslot : slot q.maxSize m + 1 ≠ q.maxSize := hi ▸ hmax
      exact ⟨by simp [hi, slot_succ_of_ne (hpos hw) hslot, Event.use], by simpa using hw⟩
  case wrap =>
    cases h
    exact ⟨by simp [ha.left, Event.use], by simpa using ha.right⟩
  case size =>
    cases h
    cases r <;> exact ha.left
  case stopped => cases h

-- A step does not take away from the other thread what it has waited for.
theorem step_at_other (h : q.step r pc = some (q', pc', e)) (hne : r' ≠ r) {pc₂ : Pc}
    (ha : q.At r' n pc₂) : q'.At r' n pc₂ := by
  have hindex : q'.index r' = q.index r' := by
    cases pc <;> simp only [step] at h
    case abort => split at h <;> cases h <;> rfl
    case index | wrap => cases h; exact setIndex_index_of_ne hne
    case size => cases h; cases r' <;> rfl
    case stopped => cases h
    all_goals cases h; rfl
  have hrest : q'.maxSize = q.maxSize ∧ q'.abortRequest = q.abortRequest ∧
      (¬q.Waits r' → ¬q'.Waits r') := by
    cases pc <;> simp only [step] at h
    case abort => split at h <;> cases h <;> simp
    case index | wrap => cases h; simp
    case size =>
      cases h
      refine ⟨rfl, rfl, ?_⟩
      cases r <;> cases r' <;> simp_all [Waits, Role.count]
      · omega
      · omega
    case stopped => cases h
    all_goals cases h; simp
  have ⟨hmax, habort, hwaits⟩ := hrest
  cases pc₂ <;> simp only [At, hindex, hmax, habort] at ha ⊢ <;> grind

theorem step_frame (h : q.step r pc = some (q', pc', e)) :
    q'.queue = q.queue ∧ q'.maxSize = q.maxSize := by
  cases pc <;> simp only [step] at h
  case abort        => split at h <;> cases h <;> exact ⟨rfl, rfl⟩
  case index | wrap => cases h; simp
  case stopped      => cases h
  all_goals cases h; exact ⟨rfl, rfl⟩

-- `size` changes by what its thread counts.
theorem step_size (h : q.step r pc = some (q', pc', e)) :
    q'.size = q.size + r.count * (counted (n + e.use.length) pc' - counted n pc) := by
  cases pc <;> simp only [step] at h
  case abort        => split at h <;> cases h <;> simp [counted, Pc.advancing, Event.use]
  case index        => cases h; split <;> simp [counted, Pc.advancing, Event.use]
  case loop         => cases h; split <;> simp [counted, Pc.advancing, Event.use]
  case size         =>
    cases h
    have hsub : (n : Int) - (n - 1) = 1 := by omega
    simp only [counted, Pc.advancing, Event.use, List.length_nil, if_true, Bool.false_eq_true,
      if_false, Int.natCast_zero, Int.add_zero, hsub, Int.mul_one]
  case stopped      => cases h
  all_goals cases h; simp [counted, Pc.advancing, Event.use]

-- `size` stays in its bounds.
theorem step_bound (h : q.step r pc = some (q', pc', e)) (ha : q.At r n pc)
    (hb : 0 ≤ q.size ∧ q.size ≤ max 0 q.maxSize) : 0 ≤ q'.size ∧ q'.size ≤ max 0 q'.maxSize := by
  cases pc <;> simp only [step] at h
  case abort        => split at h <;> cases h <;> exact hb
  case index | wrap => cases h; simpa using hb
  case stopped      => cases h
  case size =>
    cases h
    have hw := ha.right
    cases r <;> simp only [Waits, Role.count] at hw ⊢ <;> omega
  all_goals cases h; exact hb

theorem step_used (h : q.step r pc = some (q', pc', .used i pkt)) : pc = .slot i ∧ pkt = q.queue i := by
  cases pc <;> simp only [step] at h
  case slot  => cases h; exact ⟨rfl, rfl⟩
  case abort => split at h <;> cases h
  all_goals cases h

theorem step_slot (h : q.step r pc = some (q', pc', .slot i)) : pc' = .slot i := by
  cases pc <;> simp only [step] at h
  case abort => split at h <;> cases h; rfl
  all_goals cases h

@[simp]
theorem counted_slot (n : Int) : counted n (.slot i) = n :=
  rfl

theorem counted_le (n : Int) (pc : Pc) : counted n pc ≤ n ∧ n - 1 ≤ counted n pc := by
  simp only [counted]
  split <;> omega

-- `used` is what each of the threads has used.
structure Inv (s : Threads α) (used : Role → List (Int × α)) : Prop where
  pos    : ∀ r, s.q.At r (used r).length (s.pc r)
  size   : s.q.size = counted (used .producer).length (s.pc .producer) -
    counted (used .consumer).length (s.pc .consumer)
  bound  : 0 ≤ s.q.size ∧ s.q.size ≤ max 0 s.q.maxSize
  unread : ∃ xs, used .producer = used .consumer ++ xs ∧
    Holds s.q.maxSize s.q.queue (used .consumer).length xs

namespace Inv

variable {s : Threads α} {used : Role → List (Int × α)} {xs : List (Int × α)}

theorem maxSize_pos (i : Inv s used) (hw : ¬s.q.Waits r) : 0 < s.q.maxSize := by
  have := i.bound
  cases r <;> simp only [Waits] at hw <;> omega

-- The slot of the producer is behind those of the unread packets, and they do not fill the array.
theorem producer_slot (inv : Inv s used) (hp : s.pc .producer = .slot i)
    (hx : used .producer = used .consumer ++ xs) :
    i = slot s.q.maxSize ((used .consumer).length + xs.length) ∧ xs.length < s.q.maxSize := by
  have ⟨_, hi, hw⟩ : s.q.At .producer _ (.slot i) := hp ▸ inv.pos .producer
  have hlen := congrArg List.length hx
  have hsize := inv.size
  have hc := counted_le (used .consumer).length (s.pc .consumer)
  simp only [hp, counted_slot, List.length_append, Waits] at hlen hsize hw
  exact ⟨hlen ▸ hi, by omega⟩

-- The slot of the consumer is that of the first unread packet.
theorem consumer_slot (inv : Inv s used) (hc : s.pc .consumer = .slot i)
    (hx : used .producer = used .consumer ++ xs)
    (hh : Holds s.q.maxSize s.q.queue (used .consumer).length xs) :
    ∃ xs', xs = (i, s.q.queue i) :: xs' ∧
      Holds s.q.maxSize s.q.queue ((used .consumer).length + 1) xs' := by
  have ⟨_, hi, hw⟩ : s.q.At .consumer _ (.slot i) := hc ▸ inv.pos .consumer
  have hlen := congrArg List.length hx
  have hsize := inv.size
  have hp := counted_le (used .producer).length (s.pc .producer)
  simp only [hc, counted_slot, List.length_append, Waits] at hlen hsize hw
  cases xs
  case nil => simp only [List.length_nil] at hlen; omega
  case cons x xs =>
    have ⟨hslot, hget, hh⟩ := hh
    refine ⟨xs, ?_, hh⟩
    rw [hi, ← hslot, hget]

theorem step (inv : Inv s used) (h : s.q.step r (s.pc r) = some (q', pc', e)) :
    Inv { q := q', pc := Function.update s.pc r pc' } (Function.update used r (used r ++ e.use)) := by
  have ⟨hqueue, hmax⟩ := step_frame h
  refine ⟨fun r' => ?_, ?_, step_bound h (inv.pos r) inv.bound, ?_⟩
  · by_cases hr : r' = r
    case pos =>
      subst hr
      simpa using step_at h inv.maxSize_pos (inv.pos r')
    case neg => simpa [hr] using step_at_other h hr (inv.pos r')
  · have hsize := step_size (n := (used r).length) h
    have := inv.size
    cases r <;> simp [Role.count] at hsize ⊢ <;> omega
  · have ⟨xs, hx, hh⟩ := inv.unread
    simp only [hqueue, hmax]
    cases e
    case used i pkt =>
      have ⟨hpc, hpkt⟩ := step_used h
      subst hpkt
      cases r
      case producer =>
        have ⟨hi, _⟩ := inv.producer_slot hpc hx
        refine ⟨xs ++ [(i, s.q.queue i)], by simp [hx, Event.use], ?_⟩
        simpa [hi] using hh.snoc
      case consumer =>
        have ⟨xs', hxs, hh'⟩ := inv.consumer_slot hpc hx hh
        exact ⟨xs', by simp [hx, hxs, Event.use], by simpa [Event.use] using hh'⟩
    all_goals exact ⟨xs, by simp [Event.use, hx], by simpa [Event.use] using hh⟩

end Inv

variable {queue : Int → α} {maxSize : Int} {s s' : Threads α} {a : Action α}
  {tr : List (Action α × Event α)}

theorem uses_step : uses r' (tr ++ [(.step r, e)]) =
    Function.update (uses · tr) r (uses r tr ++ e.use) r' := by
  by_cases h : r' = r
  case pos => cases e <;> simp [uses, h, Event.use]
  case neg => cases e <;> simp [uses, h, Ne.symm h]

theorem threads_step (h : threads s (.step r) = some (s', e)) :
    ∃ q' pc', s.q.step r (s.pc r) = some (q', pc', e) ∧
      s' = { q := q', pc := Function.update s.pc r pc' } := by
  simp only [threads, Option.map_eq_some_iff, Prod.mk.injEq] at h
  have ⟨⟨q', pc', _⟩, hstep, hs, he⟩ := h
  exact ⟨q', pc', he ▸ hstep, hs.symm⟩

theorem inv_start : Inv (start queue maxSize) (uses · []) where
  pos    := by rintro (_ | _) <;> exact slot_zero.symm
  size   := rfl
  bound  := ⟨Int.le_refl 0, Int.le_max_left ..⟩
  unread := ⟨[], rfl, trivial⟩

-- Filling the slot of the producer changes no unread packet.
theorem Inv.fill {used : Role → List (Int × α)} (inv : Inv s used) (hp : s.pc .producer = .slot i) :
    Inv { s with q := { s.q with queue := Function.update s.q.queue i pkt } } used := by
  refine ⟨fun r => ?_, inv.size, inv.bound, ?_⟩
  · have := inv.pos r
    cases r <;> exact this
  · have ⟨xs, hx, hh⟩ := inv.unread
    have ⟨hi, hlen⟩ := inv.producer_slot hp hx
    exact ⟨xs, hx, hh.update <| hi ▸ hh.next_free hlen⟩

theorem Inv.signal {used : Role → List (Int × α)} (inv : Inv s used) :
    Inv { s with q := s.q.ringQueueSignal } used := by
  refine ⟨fun r => ?_, inv.size, inv.bound, inv.unread⟩
  have := inv.pos r
  cases hpc : s.pc r <;> simp only [hpc] at this ⊢
  case abort => cases r <;> exact ⟨this.left, by simp [ringQueueSignal]⟩
  all_goals cases r <;> exact this

-- The invariant holds in every run of the threads.
theorem inv_of_steps (st : threads.Steps Machine.Free (start queue maxSize) tr s) :
    Inv s (uses · tr) ∧ s.q.maxSize = min maxSize ringQueueSize := by
  refine st.invariant
    (fun tr s => Inv s (uses · tr) ∧ s.q.maxSize = min maxSize ringQueueSize)
    ⟨inv_start, rfl⟩ ?_
  rintro tr s a s' e ⟨inv, hmax⟩ - h
  cases a
  case step r =>
    have ⟨q', pc', hstep, hs⟩ := threads_step h
    subst hs
    simp only [uses_step]
    exact ⟨inv.step hstep, (step_frame hstep).right.trans hmax⟩
  case fill pkt =>
    simp only [threads] at h
    split at h <;> cases h
    exact ⟨by simpa [uses] using inv.fill ‹_›, hmax⟩
  case signal =>
    cases h
    exact ⟨by simpa [uses] using inv.signal, hmax⟩

-- A slot that a peek function returns is in the array.
theorem slot_in_range (st : threads.Steps Machine.Free (start queue maxSize) tr s)
    (h : threads s a = some (s', .slot i)) : 0 ≤ i ∧ i < min maxSize ringQueueSize := by
  have ⟨inv, hmax⟩ := inv_of_steps (st.snoc (by trivial) h)
  cases a
  case step r =>
    have ⟨q', pc', hstep, hs⟩ := threads_step h
    subst hs
    have ⟨_, hi, hw⟩ : q'.At r (uses r (tr ++ [(.step r, .slot i)])).length (.slot i) := by
      simpa [step_slot hstep] using inv.pos r
    have hpos := inv.maxSize_pos hw
    exact hi ▸ hmax ▸ ⟨slot_nonneg hpos, slot_lt hpos⟩
  case fill =>
    simp only [threads] at h
    split at h <;> cases h
  case signal => cases h

-- In every run of the two threads, the slots are in the array, and `size` is in its bounds. What the
-- consumer has read is what the producer has pushed, in order, up to the packets that are unread. The
-- slot that the producer has is not in use by the consumer, nor by an unread packet. When the producer
-- is not about to count a packet and `size` is zero, there are none.
theorem ringQueue_safe (st : threads.Steps Machine.Free (start queue maxSize) tr s) :
    (∀ a s' i, threads s a = some (s', .slot i) → 0 ≤ i ∧ i < min maxSize ringQueueSize) ∧
    (0 ≤ s.q.size ∧ s.q.size ≤ max 0 maxSize) ∧
    ∃ unread, uses .producer tr = uses .consumer tr ++ unread ∧
      (∀ i, s.pc .producer = .slot i → s.pc .consumer ≠ .slot i ∧ ∀ x ∈ unread, x.1 ≠ i) ∧
      (s.q.size = 0 → (s.pc .producer).advancing = false → unread = []) := by
  have ⟨inv, hmax⟩ := inv_of_steps st
  have ⟨xs, hx, hh⟩ := inv.unread
  refine ⟨fun _ _ _ h => slot_in_range st h, ?_, xs, hx, fun i hp => ?_, fun hsize hp => ?_⟩
  · have := hmax ▸ inv.bound
    omega
  · have ⟨hi, hlen⟩ := inv.producer_slot hp hx
    have hfree := hi ▸ hh.next_free hlen
    refine ⟨fun hc => ?_, hfree⟩
    have ⟨xs', hxs, _⟩ := inv.consumer_slot hc hx hh
    exact hfree (i, s.q.queue i) (by simp [hxs]) rfl
  · have hlen := congrArg List.length hx
    have hinv := inv.size
    have hc := counted_le (uses .consumer tr).length (s.pc .consumer)
    simp only [counted, hp, hsize, Bool.false_eq_true, if_false, List.length_append] at hlen hinv hc
    exact List.length_eq_zero_iff.mp (by omega)

-- An array of one slot: a packet is pushed and read, while the producer waits for the slot.
theorem ringQueue_safe_of_one_slot :
    ∃ (s : Threads Nat) (tr : List (Action Nat × Event Nat)),
      tr.map (·.1) = [.step .producer, .step .producer, .fill 5, .step .producer, .step .producer,
        .step .producer, .step .consumer, .step .producer, .step .producer, .step .consumer,
        .step .consumer, .step .consumer, .step .consumer] ∧
      (∃ unread, uses .producer tr = uses .consumer tr ++ unread ∧
        (∀ i, s.pc .producer = .slot i → s.pc .consumer ≠ .slot i ∧ ∀ x ∈ unread, x.1 ≠ i) ∧
        (s.q.size = 0 → (s.pc .producer).advancing = false → unread = [])) ∧
      uses .consumer tr = [(0, 5)] := by
  have st := Machine.Steps.refl (m := threads (α := Nat)) (P := Machine.Free)
      (s := start (fun _ => 0) 1)
    |>.snoc (i := .step .producer) trivial rfl
    |>.snoc (i := .step .producer) trivial rfl
    |>.snoc (i := .fill 5) trivial rfl
    |>.snoc (i := .step .producer) trivial rfl
    |>.snoc (i := .step .producer) trivial rfl
    |>.snoc (i := .step .producer) trivial rfl
    |>.snoc (i := .step .consumer) trivial rfl
    |>.snoc (i := .step .producer) trivial rfl
    |>.snoc (i := .step .producer) trivial rfl
    |>.snoc (i := .step .consumer) trivial rfl
    |>.snoc (i := .step .consumer) trivial rfl
    |>.snoc (i := .step .consumer) trivial rfl
    |>.snoc (i := .step .consumer) trivial rfl
  exact ⟨_, _, rfl, (ringQueue_safe st).right.right, rfl⟩

-- With a negative size the array has no slots, and `size` is zero nevertheless.
theorem ringQueueInit_negative :
    ¬∀ (queue : Int → Nat) (maxSize : Int) (tr : List (Action Nat × Event Nat)) (s : Threads Nat),
      threads.Steps Machine.Free (start queue maxSize) tr s → 0 ≤ s.q.size ∧ s.q.size ≤ maxSize := by
  intro h
  have ⟨_, hle⟩ := h (fun _ => 0) (-1) [] _ .refl
  exact absurd hle (by decide)

end RingQueue
