import TnsParser.Library.Condition
import TnsParser.Library.Machine
import TnsParser.Queue.Nodes

-- The list queue with threads that sleep until they are woken.

namespace ListQueue

variable {α τ : Type*}

-- `list_queue_put` signals when it has linked the packet in, and `list_queue_abort` always.
def signals : Call α → Out α → Bool
  | .put _ _, .ret r _ => r = 0
  | .abort,   _        => true
  | _,        _        => false

abbrev sleepers [DecidableEq τ] :
    Machine (Condition.State τ (ListQueue α) α) (Condition.Action τ (Call α)) (Out α) :=
  Condition.threads locked wait signals

-- The calls that shut the queue down.
def aborts (x : Condition.Action τ (Call α) × Out α) : Bool :=
  match x.1.act with
  | .call _ .abort => true
  | _              => false

variable {q q' : ListQueue α} {t : τ} {i : Call α ⊕ α} {o : Out α} {pkt : α} {block : Bool} {xs : List (Nat × α)}

-- A getter takes a packet, or there is none.
theorem Chain.lockedGet (c : q.Chain xs) (ha : q.abortRequest = false) (pkt : α) (block : Bool) :
    (xs = [] ∧ q.lockedGet pkt block = (q, if block then .wait else .ret 0 pkt)) ∨
      ∃ x ys q', xs = x :: ys ∧ q.lockedGet pkt block = (q', .ret 1 x.2) ∧ q'.Chain ys ∧ q'.abortRequest = false := by
  cases xs
  case nil =>
    refine .inl ⟨rfl, ?_⟩
    simp only [ListQueue.lockedGet, c.get_nil ha]
    cases block <;> rfl
  case cons x ys =>
    obtain ⟨q', hget, c', ha'⟩ := c.get_cons ha pkt block
    exact .inr ⟨x, ys, q', rfl, by simp [ListQueue.lockedGet, hget], c', ha'⟩

theorem lockedGet_num (r : ∃ a, q.Represents a) (h : q.lockedGet pkt block = (q', o))
    (ha : q.abortRequest = false) :
    q'.num.toNat ≤ q.num.toNat - 1 ∧ (o = .wait → q'.num.toNat = 0) ∧ q'.abortRequest = false := by
  obtain ⟨a, r⟩ := r
  obtain ⟨xs, c, -⟩ := r.chain
  rcases c.lockedGet ha pkt block with ⟨rfl, hget⟩ | ⟨x, ys, q₁, rfl, hget, c', ha'⟩
  · cases hget.symm.trans h
    have hnum : q.num = 0 := c.num
    simp [hnum, ha]
  · cases hget.symm.trans h
    refine ⟨?_, fun hw => (by cases hw), ha'⟩
    rw [c'.num, c.num]
    simp

theorem locked_abortRequest (h : locked t q i = some (q', o)) (ha : q.abortRequest = true) :
    q'.abortRequest = true := by
  match i with
  | .inl (.put pkt ml) =>
    simp only [locked, listQueuePutPrivate, ha, if_true] at h
    split at h <;> cases h
    exact ha
  | .inl (.get pkt block) | .inr pkt =>
    simp only [locked, lockedGet, listQueueGet, ha, if_true] at h
    cases h
    exact ha
  | .inl .flush =>
    simp only [locked, listQueueFlush] at h
    cases hfree : freeNodes q.heap q.num.toNat q.first <;> rw [hfree] at h <;> cases h <;> exact ha
  | .inl .abort =>
    cases h
    rfl

theorem locked_put {ml : Option Nat} (r : ∃ a, q.Represents a) (h : locked t q (.inl (.put pkt ml)) = some (q', o)) :
    q'.num.toNat ≤ q.num.toNat + (signals (.put pkt ml) o).toNat ∧ o ≠ .wait := by
  obtain ⟨a, r⟩ := r
  obtain ⟨xs, c, -⟩ := r.chain
  rcases c.locked_put h with ⟨rfl, rfl⟩ | ⟨n, rfl, -, -, -, -, c', rfl⟩
  · exact ⟨Nat.le_add_right .., fun hw => by cases hw⟩
  · refine ⟨?_, fun hw => by cases hw⟩
    rw [c'.num, c.num]
    simp [signals]

theorem locked_flush (h : locked t q (.inl .flush) = some (q', o)) : q'.num.toNat ≤ q.num.toNat ∧ o ≠ .wait := by
  simp only [locked, listQueueFlush] at h
  cases hfree : freeNodes q.heap q.num.toNat q.first <;> rw [hfree] at h <;> cases h
  case none => exact ⟨Nat.le_refl _, fun hw => by cases hw⟩
  case some => exact ⟨Nat.zero_le _, fun hw => by cases hw⟩

theorem locked_inUse (h : locked t q i = some (q', o)) (ha : q'.abortRequest = false) : q.abortRequest = false := by
  by_contra hq
  have hq' := locked_abortRequest h (by simpa using hq)
  rw [hq'] at ha
  cases ha

theorem eq_wait_of_wait (h : wait i o ≠ none) : o = .wait := by
  cases o
  case wait => rfl
  all_goals
    refine absurd ?_ h
    rcases i with (_ | _ | _ | _) | _ <;> rfl

theorem signalled : Condition.Signalled (locked (α := α) (τ := τ)) wait signals (∃ a, Represents · a)
    (·.abortRequest = false) (·.num.toNat) where
  inv := by
    intro t x i y o hinv h
    obtain ⟨a, r⟩ := hinv
    obtain ⟨a', -, r'⟩ := r.locked h
    exact ⟨a', r'⟩
  keeps := locked_inUse
  waits := by
    intro t x i y o hinv h ha hw
    have hx := locked_inUse h ha
    have hwait := eq_wait_of_wait hw
    match i with
    | .inl (.put _ _) => exact absurd hwait (locked_put hinv h).right
    | .inl (.get pkt block) | .inr pkt =>
      simp only [locked, Option.some.injEq] at h
      exact (lockedGet_num hinv h hx).right.left hwait
    | .inl .flush => exact absurd hwait (locked_flush h).right
    | .inl .abort =>
      cases h
      cases hwait
  calls := by
    intro t x op y o hinv h ha
    have hx := locked_inUse h ha
    cases op
    case put => exact (locked_put hinv h).left
    case get pkt block =>
      simp only [locked, Option.some.injEq] at h
      have hle := (lockedGet_num hinv h hx).left
      omega
    case flush =>
      have hle := (locked_flush h).left
      omega
    case abort =>
      cases h
      exact Nat.le_add_right ..
  takes := by
    intro t x pkt y o hinv h ha
    have hx := locked_inUse h ha
    simp only [locked, Option.some.injEq] at h
    exact (lockedGet_num hinv h hx).left

variable [DecidableEq τ] {heap : Nat → Option (MyList α)} {s s' : Condition.State τ (ListQueue α) α}
  {tr : List (Condition.Action τ (Call α) × Out α)}

abbrev Kept (s : Condition.State τ (ListQueue α) α) : Prop :=
  Condition.Kept (∃ a, Represents · a) (·.abortRequest = false) (·.num.toNat) s

-- A thread that was woken may go on.
theorem wake_step (k : Kept s) (ha : s.shared.abortRequest = false) (hu : t ∈ s.woken) :
    ∃ s' o, sleepers s ⟨.wake t, none⟩ = some (s', o) ∧ s'.woken = s.woken.erase t ∧
      s'.shared.abortRequest = false := by
  obtain ⟨pkt, hpkt⟩ := Option.isSome_iff_exists.mp (k.blocked t hu)
  have hsec : s.section? (ε := Call α) (.wake t) = some (t, .inr pkt) := by
    simp [Monitor.State.section?, hpkt]
  have hm : Monitor.threads locked wait s.toState (.wake t) =
      some (⟨(s.shared.lockedGet pkt true).1, Function.update s.resume t
        (wait (.inr pkt) (s.shared.lockedGet pkt true).2)⟩, (s.shared.lockedGet pkt true).2) :=
    Monitor.threads_of_section hsec rfl
  exact ⟨_, _, by simp only [Condition.threads, hm]; rfl, rfl, (lockedGet_num k.inv rfl ha).right.right⟩

abbrev Wakeful (s : Condition.State τ (ListQueue α) α) (a : Condition.Action τ (Call α)) : Prop :=
  Condition.Wakeful locked wait signals s a

-- What is known while only threads go on that were woken.
structure Waking (tr : List (Condition.Action τ (Call α) × Out α)) (s : Condition.State τ (ListQueue α) α) : Prop where
  kept  : Kept s
  inUse : s.shared.abortRequest = false
  acts  : ∀ x ∈ tr, ∃ t, x.1.act = .wake t

theorem Waking.step (w : Waking tr s) (hne : s.woken.length ≠ 0) :
    ∃ a s' o, Condition.Woken s a ∧ sleepers s a = some (s', o) ∧ Waking (tr ++ [(a, o)]) s' ∧
      s'.woken.length < s.woken.length := by
  obtain ⟨t, ht⟩ := List.exists_mem_of_length_pos (Nat.pos_of_ne_zero hne)
  obtain ⟨s', o, hstep, hwoken, ha⟩ := wake_step w.kept w.inUse ht
  refine ⟨⟨.wake t, none⟩, s', o, fun u hu => ?_, hstep, ⟨?_, ha, fun x hx => ?_⟩, ?_⟩
  · cases hu
    exact ht
  · exact w.kept.step signalled (fun _ _ _ hs => by cases hs) hstep
  · cases List.mem_append.mp hx
    case inl hx => exact w.acts x hx
    case inr hx => exact ⟨t, by rw [List.mem_singleton.mp hx]⟩
  · rw [hwoken, List.length_erase_of_mem ht]
    omega

omit [DecidableEq τ] in
theorem Kept.num_nonneg (k : Kept s) : 0 ≤ s.shared.num := by
  obtain ⟨a, r⟩ := k.inv
  obtain ⟨xs, c, -⟩ := r.chain
  rw [c.num]
  exact Int.natCast_nonneg _

-- In every run of threads that sleep until they are woken, as long as the queue is not shut down: while
-- a getter is asleep, there are at most so many packets in the queue as there are getters that were
-- woken and did not go on yet. When these go on, the queue is empty, or no getter is waiting.
theorem no_wakeup_lost (e : sleepers.Steps Wakeful (.init (start heap)) tr s)
    (ha : s.shared.abortRequest = false) :
    (∀ t, s.Asleep t → s.shared.num ≤ s.woken.length) ∧
      ∃ tr' s', sleepers.Steps Condition.Woken s tr' s' ∧ tr'.length ≤ s.woken.length ∧
        (∀ x ∈ tr', ∃ t, x.1.act = .wake t) ∧ (s'.shared.num = 0 ∨ ∀ t, s'.resume t = none) := by
  have k : Kept s := Condition.kept signalled (fun _ _ h => h) ⟨_, Represents.start heap⟩ e
  refine ⟨fun t ht => ?_, ?_⟩
  · have hle := k.awake ha t ht
    have hpos := k.num_nonneg
    omega
  · obtain ⟨tr', s', e', hlen, hzero, w⟩ :=
      Machine.Steps.exhaust Waking (·.woken.length) (fun w hne => w.step hne) ⟨k, ha, fun x hx => by cases hx⟩
    refine ⟨tr', s', e', hlen, w.acts, ?_⟩
    by_cases hblocked : ∀ t, s'.resume t = none
    case pos => exact .inr hblocked
    case neg =>
      obtain ⟨t, ht⟩ := not_forall.mp hblocked
      have hwoken : s'.woken = [] := List.length_eq_zero_iff.mp hzero
      have hasleep : s'.Asleep t := ⟨Option.isSome_iff_ne_none.mpr ht, by simp [hwoken]⟩
      have hle := w.kept.awake w.inUse t hasleep
      have hpos := w.kept.num_nonneg
      rw [hzero] at hle
      exact .inl (by omega)

-- Two getters fall asleep, and a packet is put.
theorem no_wakeup_lost_of_two_getters :
    ∃ s : Condition.State (Fin 3) (ListQueue Nat) Nat, s.shared.num = 1 ∧ s.Asleep 2 ∧
      (∀ t, s.Asleep t → s.shared.num ≤ s.woken.length) ∧
      ∃ tr' s', sleepers.Steps Condition.Woken s tr' s' ∧ tr'.length ≤ s.woken.length ∧
        (∀ x ∈ tr', ∃ t, x.1.act = .wake t) ∧ (s'.shared.num = 0 ∨ ∀ t, s'.resume t = none) := by
  have e := Machine.Steps.refl (m := sleepers (τ := Fin 3) (α := Nat)) (P := Wakeful)
      (s := .init (start fun _ => none))
    |>.snoc (i := ⟨.call 1 (.get 0 true), none⟩) (fun _ _ _ hs => by cases hs) rfl
    |>.snoc (i := ⟨.call 2 (.get 0 true), none⟩) (fun _ _ _ hs => by cases hs) rfl
    |>.snoc (i := ⟨.call 0 (.put 5 (some 0x10)), some 1⟩)
      (fun _ _ _ _ => ⟨fun t ht => by cases ht; exact ⟨⟨rfl, by decide⟩, by decide⟩, fun h => by cases h⟩) rfl
  exact ⟨_, rfl, ⟨rfl, by decide⟩, no_wakeup_lost e rfl⟩

-- When the queue is shut down, only another call that does so signals.
omit [DecidableEq τ] in
theorem signals_aborted {x : Monitor.State τ (ListQueue α) α} {a : Condition.Action τ (Call α)}
    (hsec : x.section? a.act = some (t, i)) (h : locked t q i = some (q', o)) (ha : q.abortRequest = true)
    (hs : Condition.signalled signals a.act o) : aborts (a, o) := by
  rcases Condition.section?_cases hsec with ⟨op, hact, rfl, -⟩ | ⟨r, hact, -, -⟩
  · simp only [hact, Condition.signalled] at hs
    simp only [aborts, hact]
    cases op
    case put pkt ml =>
      simp only [locked, listQueuePutPrivate, ha, if_true] at h
      split at h <;> cases h
      simp [signals] at hs
    case abort => rfl
    all_goals cases o <;> cases hs
  · simp [hact, Condition.signalled] at hs

theorem signals_only_aborts (ha : s.shared.abortRequest = true) (e : sleepers.Steps Condition.Woken s tr s') :
    ∀ x ∈ tr, Condition.signalled signals x.1.act x.2 → aborts x := by
  refine (e.invariant (fun tr s' => s'.shared.abortRequest = true ∧
    ∀ x ∈ tr, Condition.signalled signals x.1.act x.2 → aborts x) ⟨ha, fun x hx => by cases hx⟩ ?_).right
  intro tr s₁ a s₂ o hinv hp h
  obtain ⟨ha₁, hall⟩ := hinv
  obtain ⟨hm, -⟩ := Condition.threads_eq_some h
  obtain ⟨t, i, hsec, hx, -⟩ := Monitor.threads_eq_some hm
  refine ⟨locked_abortRequest hx ha₁, fun x hx' => ?_⟩
  cases List.mem_append.mp hx'
  case inl hx' => exact hall x hx'
  case inr hx' =>
    cases List.mem_singleton.mp hx'
    exact signals_aborted hsec hx ha₁

-- A call that shuts the queue down wakes one getter. In every run from then on, all others that were
-- asleep stay so, one less with each further such call, when no thread goes on that was not woken.
theorem abort_wakes_one {s₁ : Condition.State τ (ListQueue α) α} {a : Condition.Action τ (Call α)}
    (hact : a.act = .call t .abort) (h : sleepers s a = some (s₁, o)) (e : sleepers.Steps Condition.Woken s₁ tr s')
    (ts : List τ) (hts : ∀ t ∈ ts, s.Asleep t) (hnodup : ts.Nodup) :
    ∃ us : List τ, us.Sublist ts ∧ (∀ t ∈ us, s'.Asleep t) ∧ ts.length ≤ us.length + 1 + tr.countP aborts := by
  have hwoken : Condition.Woken s a := by
    intro u hu
    rw [hact] at hu
    cases hu
  have ha : s₁.shared.abortRequest = true := by
    obtain ⟨hm, -⟩ := Condition.threads_eq_some h
    obtain ⟨u, i, hsec, hx, -⟩ := Monitor.threads_eq_some hm
    rcases Condition.section?_cases hsec with ⟨op, hop, rfl, -⟩ | ⟨r, hop, -, -⟩ <;> rw [hact] at hop <;> cases hop
    exact congrArg abortRequest (congrArg Prod.fst (Option.some.inj hx)).symm
  obtain ⟨us, hsub, hus, hlen⟩ := Condition.stay_asleep (fun _ _ h => h) (Machine.Steps.refl.snoc hwoken h) ts hts hnodup
  obtain ⟨us', hsub', hus', hlen'⟩ := Condition.stay_asleep (fun _ _ h => h) e us hus (hnodup.sublist hsub)
  have haborts := List.countP_mono_left (signals_only_aborts ha e)
  have hone := List.countP_le_length (p := fun x : Condition.Action τ (Call α) × Out α =>
    Condition.signalled signals x.1.act x.2) (l := [] ++ [(a, o)])
  refine ⟨us', hsub'.trans hsub, hus', ?_⟩
  rw [List.nil_append, List.length_singleton] at hone
  rw [List.nil_append] at hlen
  omega

def threeAsleep : Condition.State (Fin 4) (ListQueue Nat) Nat where
  shared := start fun _ => none
  resume := fun t => if t = 0 then none else some 0
  woken  := []

-- One of three getters goes on when the queue is shut down, and the others never do.
theorem abort_wakes_one_of_three :
    ∃ (s' : Condition.State (Fin 4) (ListQueue Nat) Nat) (us : List (Fin 4)), us.Sublist [1, 2, 3] ∧
      (∀ t ∈ us, s'.Asleep t) ∧ [1, 2, 3].length ≤ us.length + 1 + 0 ∧ s'.shared.abortRequest = true := by
  let s₁ : Condition.State (Fin 4) (ListQueue Nat) Nat :=
    ⟨⟨(start fun _ => none).listQueueAbort, Function.update threeAsleep.resume 0 none⟩, [1]⟩
  have h : sleepers threeAsleep ⟨.call 0 .abort, some 1⟩ = some (s₁, .done) := rfl
  have e := Machine.Steps.refl (m := sleepers) (P := Condition.Woken) (s := s₁)
    |>.snoc (i := ⟨.wake 1, none⟩) (fun t ht => by cases ht; exact List.mem_singleton_self _) rfl
  have hasleep : ∀ t ∈ [(1 : Fin 4), 2, 3], threeAsleep.Asleep t := fun t ht =>
    ⟨by revert t; decide, List.not_mem_nil⟩
  obtain ⟨us, hsub, hus, hlen⟩ := abort_wakes_one rfl h e [1, 2, 3] hasleep (by decide)
  exact ⟨_, us, hsub, hus, hlen, rfl⟩

end ListQueue
