import TnsParser.Library.Machine
import TnsParser.Queue.RingThreads

-- The ring queue with threads that sleep until they are woken. Both wait on the one condition variable.

namespace RingQueue

variable {α : Type*}

-- `woken` tells of a thread that waits whether it was woken.
structure Sleepers (α : Type*) extends Threads α where
  woken : Role → Bool

def Sleepers.Asleep (s : Sleepers α) (r : Role) : Prop :=
  s.pc r = .wait ∧ s.woken r = false

-- Where a step signals, under the lock.
def Pc.signals : Pc → Bool
  | .size => true
  | _     => false

def signals (s : Threads α) : Action α → Bool
  | .step r => (s.pc r).signals
  | .fill _ => false
  | .signal => true

-- The threads that are woken and still to go on when an action was taken.
def goOn (woken : Role → Bool) : Action α → Role → Bool
  | .step r => Function.update woken r false
  | _       => woken

-- An action, and the thread that its signal wakes, if it is one that signals.
def sleepers : Machine (Sleepers α) (Action α × Option Role) (Event α) :=
  fun s a =>
    (threads s.toThreads a.1).map fun (s', e) =>
      let woken := goOn s.woken a.1
      ({ s' with woken := fun r => woken r || (signals s.toThreads a.1 && a.2 == some r) }, e)

-- A signal wakes a thread that is asleep, if there is one.
def Wakes (s : Sleepers α) (a : Action α × Option Role) : Prop :=
  signals s.toThreads a.1 → (∀ r ∈ a.2, s.Asleep r) ∧ (a.2 = none → ∀ r, ¬s.Asleep r)

def Sleepers.start (queue : Int → α) (maxSize : Int) : Sleepers α :=
  { RingQueue.start queue maxSize with woken := fun _ => false }

variable {s s' : Sleepers α} {a : Action α × Option Role} {r r' : Role} {e : Event α}

-- A thread sleeps only as long as it has to.
structure Rightly (s : Sleepers α) : Prop where
  size    : 0 < s.q.maxSize
  asleep  : ∀ r, s.Asleep r → s.q.Waits r ∧ s.q.abortRequest = false
  stopped : ∀ r, s.pc r = .stopped → s.q.abortRequest = true

theorem sleepers_eq_some (h : sleepers s a = some (s', e)) :
    threads s.toThreads a.1 = some (s'.toThreads, e) ∧
      ∀ r, s'.woken r = (goOn s.woken a.1 r || (signals s.toThreads a.1 && a.2 == some r)) := by
  simp only [sleepers, Option.map_eq_some_iff] at h
  obtain ⟨x, hx, hs⟩ := h
  cases hs
  exact ⟨hx, fun r => rfl⟩

theorem waits_one (hmax : 0 < s.q.maxSize) (h : s.q.Waits r) (hne : r' ≠ r) : ¬s.q.Waits r' := by
  cases r <;> cases r' <;> simp only [Waits] at h ⊢
  case producer.producer | consumer.consumer => exact absurd rfl hne
  all_goals omega

-- Only the step that signals changes `size`.
theorem step_waits {q q' : RingQueue α} {pc pc' : Pc} (h : q.step r pc = some (q', pc', e))
    (hs : pc.signals = false) (r' : Role) : (q'.Waits r' ↔ q.Waits r') := by
  cases pc <;> simp only [step] at h
  case abort        => split at h <;> cases h <;> rfl
  case index | wrap => cases h; exact setIndex_waits
  case size         => cases hs
  case stopped      => cases h
  all_goals cases h; rfl

theorem step_abortRequest {q q' : RingQueue α} {pc pc' : Pc} (h : q.step r pc = some (q', pc', e)) :
    q'.abortRequest = q.abortRequest := by
  cases pc <;> simp only [step] at h
  case abort        => split at h <;> cases h <;> rfl
  case index | wrap => cases h; exact setIndex_abortRequest
  case stopped      => cases h
  all_goals cases h; rfl

-- A thread goes to sleep only where it has to, and stops only when the queue is shut down.
theorem step_pc {q q' : RingQueue α} {pc pc' : Pc} (h : q.step r pc = some (q', pc', e)) :
    (pc' = .wait → q'.Waits r ∧ q'.abortRequest = false) ∧ (pc' = .stopped → q'.abortRequest = true) := by
  cases pc <;> simp only [step] at h
  case loop =>
    cases h
    split
    case isTrue hw  => exact ⟨fun _ => ⟨hw.left, by simpa using hw.right⟩, fun hc => by cases hc⟩
    case isFalse    => exact ⟨fun hc => (by cases hc), fun hc => by cases hc⟩
  case abort =>
    split at h <;> cases h
    case isTrue ha => exact ⟨fun hc => (by cases hc), fun _ => ha⟩
    case isFalse   => exact ⟨fun hc => (by cases hc), fun hc => by cases hc⟩
  case index =>
    cases h
    split <;> exact ⟨fun hc => (by cases hc), fun hc => by cases hc⟩
  case stopped => cases h
  all_goals cases h; exact ⟨fun hc => (by cases hc), fun hc => by cases hc⟩

-- What the other actions change.

theorem threads_fill {u u' : Threads α} {pkt : α} (h : threads u (.fill pkt) = some (u', e)) :
    u'.pc = u.pc ∧ u'.q.size = u.q.size ∧ u'.q.maxSize = u.q.maxSize ∧ u'.q.abortRequest = u.q.abortRequest := by
  simp only [threads] at h
  split at h <;> cases h
  exact ⟨rfl, rfl, rfl, rfl⟩

theorem threads_signal {u u' : Threads α} (h : threads u .signal = some (u', e)) :
    u'.pc = u.pc ∧ u'.q = u.q.ringQueueSignal := by
  cases h
  exact ⟨rfl, rfl⟩

-- A thread that is asleep after the step of the other one was asleep before, and is not the one that was
-- woken.
theorem asleep_of_sleepers (h : sleepers s a = some (s', e)) (hs : s'.Asleep r) (hne : a.1 ≠ .step r) :
    s.Asleep r ∧ (signals s.toThreads a.1 → a.2 ≠ some r) := by
  obtain ⟨hthreads, hwoken⟩ := sleepers_eq_some h
  have hnot := hwoken r
  rw [hs.right] at hnot
  have hgo : goOn s.woken a.1 r = false ∧ (signals s.toThreads a.1 && a.2 == some r) = false := by
    cases hg : goOn s.woken a.1 r <;> simp_all
  have hpc : s'.pc r = s.pc r := by
    obtain ⟨act, w⟩ := a
    cases act
    case step r' =>
      obtain ⟨q', pc', -, hs'⟩ := threads_step hthreads
      have hr : r ≠ r' := fun hr => hne (by rw [hr])
      rw [hs']
      exact Function.update_of_ne hr ..
    case fill   => rw [(threads_fill hthreads).left]
    case signal => rw [(threads_signal hthreads).left]
  refine ⟨⟨hpc ▸ hs.left, ?_⟩, fun hsig hw => ?_⟩
  · obtain ⟨act, w⟩ := a
    cases act
    case step r' =>
      have hr : r ≠ r' := fun hr => hne (by rw [hr])
      have hgo := hgo.left
      simpa [goOn, hr] using hgo
    all_goals exact hgo.left
  · simp [hsig, hw] at hgo

-- A signal that comes while a thread is asleep wakes it, as the other one is not asleep.
theorem Rightly.wakes (k : Rightly s) (hw : Wakes s a) (hs : s.Asleep r) (hsig : signals s.toThreads a.1) :
    a.2 = some r := by
  obtain ⟨hone, hnone⟩ := hw hsig
  cases hv : a.2
  case none   => exact absurd hs (hnone hv r)
  case some v =>
    have hasleep := hone v hv
    by_cases hvr : v = r
    case pos => rw [hvr]
    case neg => exact absurd (k.asleep v hasleep).left (waits_one k.size (k.asleep r hs).left hvr)

-- Who is asleep after the step of the other thread, was asleep before, and the step did not signal.
theorem Rightly.asleep_of_sleepers (k : Rightly s) (hw : Wakes s a) (h : sleepers s a = some (s', e))
    (hs : s'.Asleep r) (hne : a.1 ≠ .step r) : s.Asleep r ∧ signals s.toThreads a.1 = false := by
  obtain ⟨hasleep, hnot⟩ := RingQueue.asleep_of_sleepers h hs hne
  refine ⟨hasleep, Bool.eq_false_iff.mpr fun hsig => hnot hsig ?_⟩
  exact k.wakes hw hasleep hsig

theorem Rightly.step_thread (k : Rightly s) (hw : Wakes s a) (h : sleepers s a = some (s', e))
    (hact : a.1 = .step r) : Rightly s' := by
  obtain ⟨hthreads, -⟩ := sleepers_eq_some h
  rw [hact] at hthreads
  obtain ⟨q', pc', hstep, hs⟩ := threads_step hthreads
  have hmax := (step_frame hstep).right
  have habort := step_abortRequest hstep
  have hq : s'.q = q' := congrArg Threads.q hs
  have hpc : s'.pc = Function.update s.pc r pc' := congrArg Threads.pc hs
  refine ⟨by rw [hq, hmax]; exact k.size, fun r' hr' => ?_, fun r' hr' => ?_⟩
  · rw [hq]
    by_cases hr : r' = r
    case pos =>
      have hwait := hr'.left
      rw [hpc, hr, Function.update_self] at hwait
      exact hr ▸ (step_pc hstep).left hwait
    case neg =>
      have hne : a.1 ≠ .step r' := fun hc => hr (by rw [hact] at hc; cases hc; rfl)
      obtain ⟨hasleep, hsig⟩ := k.asleep_of_sleepers hw h hr' hne
      obtain ⟨hwaits, ha⟩ := k.asleep r' hasleep
      rw [hact] at hsig
      exact ⟨(step_waits hstep hsig r').mpr hwaits, habort.trans ha⟩
  · rw [hq]
    rw [hpc] at hr'
    by_cases hr : r' = r
    case pos =>
      rw [hr, Function.update_self] at hr'
      exact (step_pc hstep).right hr'
    case neg =>
      rw [Function.update_of_ne hr] at hr'
      exact habort.trans (k.stopped r' hr')

theorem Rightly.step (k : Rightly s) (hw : Wakes s a) (h : sleepers s a = some (s', e)) : Rightly s' := by
  obtain ⟨hthreads, -⟩ := sleepers_eq_some h
  cases hact : a.1 <;> rw [hact] at hthreads
  case step r => exact k.step_thread hw h hact
  case fill pkt =>
    obtain ⟨hpc, hsize, hmax, habort⟩ := threads_fill hthreads
    refine ⟨by rw [hmax]; exact k.size, fun r hr => ?_, fun r hr => ?_⟩
    · have hasleep := (k.asleep_of_sleepers hw h hr fun hc => by rw [hact] at hc; cases hc).left
      obtain ⟨hwaits, ha⟩ := k.asleep r hasleep
      refine ⟨?_, habort.trans ha⟩
      cases r <;> simp only [Waits, hsize, hmax] at hwaits ⊢ <;> exact hwaits
    · rw [hpc] at hr
      exact habort.trans (k.stopped r hr)
  case signal =>
    obtain ⟨-, hq⟩ := threads_signal hthreads
    refine ⟨by rw [hq]; exact k.size, fun r hr => ?_, fun r hr => by rw [hq]; rfl⟩
    have hsig := (k.asleep_of_sleepers hw h hr fun hc => by rw [hact] at hc; cases hc).right
    rw [hact] at hsig
    cases hsig

-- How far a thread is from its next signal.
def Pc.rank : Pc → Nat
  | .wait    => 7
  | .loop    => 6
  | .abort   => 5
  | .slot _  => 4
  | .index   => 3
  | .wrap    => 2
  | .size    => 1
  | .stopped => 0

theorem Pc.rank_le (pc : Pc) : pc.rank ≤ 7 := by
  cases pc <;> simp [Pc.rank]

-- While one thread is asleep, each step of the other one brings it nearer to its signal.
theorem step_rank {q q' : RingQueue α} {pc pc' : Pc} (h : q.step r pc = some (q', pc', e)) (hw : ¬q.Waits r)
    (ha : q.abortRequest = false) (hs : pc.signals = false) : pc'.rank < pc.rank := by
  cases pc <;> simp only [RingQueue.step] at h
  case loop =>
    rw [if_neg fun hc => hw hc.left] at h
    cases h
    simp [Pc.rank]
  case abort =>
    rw [if_neg (by simp [ha])] at h
    cases h
    simp [Pc.rank]
  case index =>
    cases h
    split <;> simp [Pc.rank]
  case size    => cases hs
  case stopped => cases h
  all_goals cases h; simp [Pc.rank]

theorem step_isSome (q : RingQueue α) {pc : Pc} (h : pc ≠ .stopped) : ∃ x, q.step r pc = some x := by
  cases pc <;> simp only [RingQueue.step]
  case abort   => split <;> exact ⟨_, rfl⟩
  case stopped => exact absurd rfl h
  all_goals exact ⟨_, rfl⟩

theorem Rightly.towards (k : Rightly s) (hs : s.Asleep r) (hne : r' ≠ r) :
    ∃ w s' e, Wakes s (.step r', w) ∧ sleepers s (.step r', w) = some (s', e) ∧ s'.pc r = .wait ∧
      (s'.woken r = true ∨ (s'.pc r').rank < (s.pc r').rank) := by
  obtain ⟨hwaits, ha⟩ := k.asleep r hs
  have hnot : ¬s.q.Waits r' := waits_one k.size hwaits hne
  have hrun : s.pc r' ≠ .stopped := by
    intro hpc
    have habort := k.stopped r' hpc
    rw [ha] at habort
    cases habort
  obtain ⟨x, hx⟩ := step_isSome (r := r') s.q hrun
  obtain ⟨q', pc', e⟩ := x
  have hpc : Function.update s.pc r' pc' r = .wait := by
    rw [Function.update_of_ne (Ne.symm hne)]
    exact hs.left
  have hthreads : threads s.toThreads (.step r') = some ({ q := q', pc := Function.update s.pc r' pc' }, e) := by
    rw [threads, hx]
    rfl
  refine ⟨some r, _, e, fun _ => ⟨fun v hv => ?_, fun hc => by cases hc⟩, by rw [sleepers, hthreads]; rfl, hpc, ?_⟩
  · cases hv
    exact hs
  · cases hsig : (s.pc r').signals
    case true =>
      have hsig : signals s.toThreads (.step r') = true := hsig
      exact .inl (by simp [hsig])
    case false =>
      have hrank := step_rank hx hnot ha hsig
      exact .inr (by simpa using hrank)

variable {queue : Int → α} {maxSize : Int} {tr : List ((Action α × Option Role) × Event α)}

-- What is known while only the thread `r'` goes on, and `r` waits.
structure Alone (r r' : Role) (tr : List ((Action α × Option Role) × Event α)) (s : Sleepers α) : Prop where
  rightly : Rightly s
  wait    : s.pc r = .wait
  acts    : ∀ x ∈ tr, x.1.1 = .step r'

-- The steps that are left before `r` is woken.
def Sleepers.rank (r r' : Role) (s : Sleepers α) : Nat :=
  if s.woken r then 0 else (s.pc r').rank

theorem Sleepers.rank_of_asleep (hs : s.woken r = false) : s.rank r r' = (s.pc r').rank := by
  rw [rank, hs]
  rfl

theorem Alone.step (l : Alone r r' tr s) (hne : r' ≠ r) (hrank : s.rank r r' ≠ 0) :
    ∃ a s' e, Wakes s a ∧ sleepers s a = some (s', e) ∧ Alone r r' (tr ++ [(a, e)]) s' ∧
      s'.rank r r' < s.rank r r' := by
  have hwoken : s.woken r = false := by
    cases hwoken : s.woken r
    case false => rfl
    case true  => exact absurd (if_pos hwoken) hrank
  obtain ⟨w, s', e, hw, h, hpc, hlt⟩ := l.rightly.towards ⟨l.wait, hwoken⟩ hne
  refine ⟨(.step r', w), s', e, hw, h, ⟨l.rightly.step hw h, hpc, fun x hx => ?_⟩, ?_⟩
  · cases List.mem_append.mp hx
    case inl hx => exact l.acts x hx
    case inr hx => rw [List.mem_singleton.mp hx]
  · cases hwoken' : s'.woken r
    case true  =>
      have hzero : s'.rank r r' = 0 := if_pos hwoken'
      omega
    case false =>
      rw [hwoken', Bool.false_eq_true, false_or] at hlt
      rwa [Sleepers.rank_of_asleep hwoken, Sleepers.rank_of_asleep hwoken']

-- With a slot at least, in every run of the two threads: a thread is asleep only while it has to wait
-- and the queue is not shut down. The other thread is not asleep then, and wakes it within seven steps.
theorem ringQueue_no_wakeup_lost (hmax : 0 < maxSize) (st : sleepers.Steps Wakes (.start queue maxSize) tr s)
    (hs : s.Asleep r) (hne : r' ≠ r) :
    (s.q.Waits r ∧ s.q.abortRequest = false) ∧ ¬s.Asleep r' ∧
      ∃ tr' s', sleepers.Steps Wakes s tr' s' ∧ tr'.length ≤ 7 ∧ (∀ x ∈ tr', x.1.1 = .step r') ∧
        s'.pc r = .wait ∧ s'.woken r = true := by
  have k : Rightly s := by
    refine st.preserves Rightly ⟨?_, fun r hr => ?_, fun r hr => ?_⟩ fun k hw h => k.step hw h
    · exact Int.lt_min.mpr ⟨hmax, by decide⟩
    · cases hr.left
    · cases hr
  have hwaits := k.asleep r hs
  refine ⟨hwaits, fun hc => waits_one k.size hwaits.left hne (k.asleep r' hc).left, ?_⟩
  obtain ⟨tr', s', st', hlen, hzero, l⟩ := Machine.Steps.exhaust (Alone r r') (Sleepers.rank r r')
    (fun l hrank => l.step hne hrank) ⟨k, hs.left, fun x hx => by cases hx⟩
  have hle : tr'.length ≤ 7 := by
    have hrank := (s.pc r').rank_le
    rw [Sleepers.rank_of_asleep hs.right] at hlen
    omega
  refine ⟨tr', s', st', hle, l.acts, l.wait, ?_⟩
  -- Otherwise the other thread has stopped, which it does only when the queue is shut down.
  cases hwoken : s'.woken r
  case true  => rfl
  case false =>
    rw [Sleepers.rank_of_asleep hwoken] at hzero
    have hpc : s'.pc r' = .stopped := by
      cases hpc : s'.pc r' <;> rw [hpc] at hzero <;> cases hzero
    have habort := l.rightly.stopped r' hpc
    rw [(l.rightly.asleep r ⟨l.wait, hwoken⟩).right] at habort
    cases habort

-- The consumer falls asleep while the producer has the slot.
theorem ringQueue_no_wakeup_lost_of_one_slot :
    ∃ s : Sleepers Nat, s.pc .producer = .slot 0 ∧ s.Asleep .consumer ∧
      ∃ tr' s', sleepers.Steps Wakes s tr' s' ∧ tr'.length ≤ 7 ∧ (∀ x ∈ tr', x.1.1 = .step .producer) ∧
        s'.pc .consumer = .wait ∧ s'.woken .consumer = true := by
  have st := Machine.Steps.refl (m := sleepers (α := Nat)) (P := Wakes) (s := .start (fun _ => 0) 1)
    |>.snoc (i := (.step .consumer, none)) (fun h => by cases h) rfl
    |>.snoc (i := (.step .producer, none)) (fun h => by cases h) rfl
    |>.snoc (i := (.step .producer, none)) (fun h => by cases h) rfl
  exact ⟨_, rfl, ⟨rfl, rfl⟩, (ringQueue_no_wakeup_lost (by decide) st ⟨rfl, rfl⟩ (by decide)).right.right⟩

end RingQueue
