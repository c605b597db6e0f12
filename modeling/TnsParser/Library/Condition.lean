import TnsParser.Library.Monitor

-- The threads of `Monitor`, with the condition variable that they wait on. A thread that waits is
-- asleep, until a signal wakes it. It goes on when it gets the lock, which other threads may get before
-- it. A thread that is asleep may also go on without a signal.
namespace Condition

open Monitor

variable {τ σ ε ρ ω : Type*}

-- `woken` are the threads that were woken, and did not go on yet.
structure State (τ σ ρ : Type*) extends Monitor.State τ σ ρ where
  woken : List τ

def State.init (s : σ) : State τ σ ρ :=
  { Monitor.State.init s with woken := [] }

def State.Asleep (s : State τ σ ρ) (t : τ) : Prop :=
  (s.resume t).isSome ∧ t ∉ s.woken

-- An action, and the thread that its signal wakes, if it is one that signals.
structure Action (τ ε : Type*) where
  act   : Monitor.Action τ ε
  wakes : Option τ

def thread : Monitor.Action τ ε → τ
  | .call t _ => t
  | .wake t   => t

-- `signals op o` tells that the section of the operation `op` has signalled, when its output is `o`. The
-- sections that go on after a wait do not signal.
def signalled (signals : ε → ω → Bool) (act : Monitor.Action τ ε) (o : ω) : Bool :=
  match act with
  | .call _ op => signals op o
  | .wake _    => false

-- A signal wakes one of the other threads that are asleep, if there is one.
structure Wakes (s : State τ σ ρ) (a : Action τ ε) : Prop where
  asleep : ∀ t ∈ a.wakes, s.Asleep t ∧ t ≠ thread a.act
  one    : a.wakes = none → ∀ t, s.Asleep t → t = thread a.act

-- A thread goes on only when it was woken.
def Woken (s : State τ σ ρ) (a : Action τ ε) : Prop :=
  ∀ t, a.act = .wake t → t ∈ s.woken

-- What the section is that an action runs.
theorem section?_cases {s : Monitor.State τ σ ρ} {act : Monitor.Action τ ε} {t : τ} {i : ε ⊕ ρ}
    (h : s.section? act = some (t, i)) :
    (∃ op, act = .call t op ∧ i = .inl op ∧ s.resume t = none) ∨
      ∃ r, act = .wake t ∧ i = .inr r ∧ s.resume t = some r := by
  cases act
  case call t' op =>
    simp only [Monitor.State.section?, Option.ite_none_right_eq_some, Option.some.injEq, Prod.mk.injEq] at h
    obtain ⟨hr, rfl, rfl⟩ := h
    exact .inl ⟨op, rfl, rfl, Option.isNone_iff_eq_none.mp hr⟩
  case wake t' =>
    simp only [Monitor.State.section?, Option.map_eq_some_iff, Prod.mk.injEq] at h
    obtain ⟨r, hr, rfl, rfl⟩ := h
    exact .inr ⟨r, rfl, rfl, hr⟩

variable [DecidableEq τ]

-- The threads that are still to go on when an action was taken.
def goOn (woken : List τ) : Monitor.Action τ ε → List τ
  | .call _ _ => woken
  | .wake t   => woken.erase t

def threads (sec : τ → Machine σ (ε ⊕ ρ) ω) (wait : ε ⊕ ρ → ω → Option ρ) (signals : ε → ω → Bool) :
    Machine (State τ σ ρ) (Action τ ε) ω :=
  fun s a =>
    (Monitor.threads sec wait s.toState a.act).map fun (s', o) =>
      let woken := goOn s.woken a.act
      ({ s' with woken := if signalled signals a.act o then woken ++ a.wakes.toList else woken }, o)

-- Whatever signals wakes a thread.
def Wakeful (sec : τ → Machine σ (ε ⊕ ρ) ω) (wait : ε ⊕ ρ → ω → Option ρ) (signals : ε → ω → Bool)
    (s : State τ σ ρ) (a : Action τ ε) : Prop :=
  ∀ s' o, threads sec wait signals s a = some (s', o) → signalled signals a.act o → Wakes s a

variable {sec : τ → Machine σ (ε ⊕ ρ) ω} {wait : ε ⊕ ρ → ω → Option ρ} {signals : ε → ω → Bool}
  {s s' : State τ σ ρ} {a : Action τ ε} {t : τ} {o : ω} {Inv inUse : σ → Prop} {available : σ → Nat}

-- Everything that a step can do.
theorem threads_eq_some (h : threads sec wait signals s a = some (s', o)) :
    Monitor.threads sec wait s.toState a.act = some (s'.toState, o) ∧
      s'.woken = if signalled signals a.act o then goOn s.woken a.act ++ a.wakes.toList
        else goOn s.woken a.act := by
  simp only [threads, Option.map_eq_some_iff] at h
  obtain ⟨⟨m, o'⟩, hm, hs⟩ := h
  cases hs
  exact ⟨hm, rfl⟩

theorem threads_section (h : threads sec wait signals s a = some (s', o)) :
    ∃ i, s.section? a.act = some (thread a.act, i) ∧ sec (thread a.act) s.shared i = some (s'.shared, o) ∧
      s'.resume = Function.update s.resume (thread a.act) (wait i o) := by
  obtain ⟨t, i, hsec, hx, hres⟩ := Monitor.threads_eq_some (threads_eq_some h).left
  have ht : thread a.act = t := by
    rcases section?_cases hsec with ⟨_, hact, -⟩ | ⟨_, hact, -⟩ <;> rw [hact] <;> rfl
  subst ht
  exact ⟨i, hsec, hx, hres⟩

theorem mem_of_mem_goOn {woken : List τ} {act : Monitor.Action τ ε} (h : t ∈ goOn woken act) : t ∈ woken := by
  cases act
  case call => exact h
  case wake => exact List.mem_of_mem_erase h

theorem mem_goOn_of_ne {woken : List τ} {act : Monitor.Action τ ε} (h : t ∈ woken) (hne : t ≠ thread act) :
    t ∈ goOn woken act := by
  cases act
  case call => exact h
  case wake => exact (List.mem_erase_of_ne hne).mpr h

theorem mem_woken (h : threads sec wait signals s a = some (s', o)) :
    t ∈ s'.woken ↔ t ∈ goOn s.woken a.act ∨ signalled signals a.act o ∧ a.wakes = some t := by
  rw [(threads_eq_some h).right]
  split
  case isTrue hs  => simp [hs]
  case isFalse hs => simp [hs]

-- A thread that is asleep after the step of another thread was asleep before.
theorem asleep_of_step (h : threads sec wait signals s a = some (s', o)) (hs : s'.Asleep t)
    (hne : t ≠ thread a.act) : s.Asleep t := by
  obtain ⟨i, -, -, hres⟩ := threads_section h
  have hsome := hs.left
  rw [hres, Function.update_of_ne hne] at hsome
  exact ⟨hsome, fun hmem => hs.right <| (mem_woken h).mpr <| .inl <| mem_goOn_of_ne hmem hne⟩

-- A thread that is asleep stays so, unless the signal of the step wakes it.
theorem asleep_step (hp : Woken s a) (h : threads sec wait signals s a = some (s', o)) (hs : s.Asleep t)
    (hwakes : signalled signals a.act o → a.wakes ≠ some t) : s'.Asleep t := by
  obtain ⟨i, hsec, -, hres⟩ := threads_section h
  have hne : t ≠ thread a.act := by
    intro ht
    rcases section?_cases hsec with ⟨_, -, -, hnone⟩ | ⟨_, hact, -, -⟩
    · have hsome := hs.left
      rw [ht, hnone] at hsome
      cases hsome
    · exact hs.right (ht ▸ hp _ hact)
  refine ⟨by rw [hres, Function.update_of_ne hne]; exact hs.left, fun hmem => ?_⟩
  cases (mem_woken h).mp hmem
  case inl hgo => exact hs.right (mem_of_mem_goOn hgo)
  case inr hv  => exact hwakes hv.left hv.right

-- With another thread asleep, a signal wakes one.
theorem length_woken_call {op : ε} (hw : Wakeful sec wait signals s a)
    (h : threads sec wait signals s a = some (s', o)) (hact : a.act = .call (thread a.act) op) (hs : s.Asleep t)
    (hne : t ≠ thread a.act) : s'.woken.length = s.woken.length + (signals op o).toNat := by
  have hsig : signalled signals a.act o = signals op o := by rw [hact]; rfl
  have hgo : goOn s.woken a.act = s.woken := by rw [hact]; rfl
  rw [(threads_eq_some h).right, hsig, hgo]
  cases hsignals : signals op o
  case false => simp
  case true  =>
    cases hv : a.wakes
    case none   => exact absurd ((hw s' o h (hsig.trans hsignals)).one hv t hs) hne
    case some v => simp

theorem length_woken_wake (h : threads sec wait signals s a = some (s', o)) (hact : a.act = .wake (thread a.act)) :
    s.woken.length - 1 ≤ s'.woken.length := by
  have hsig : signalled signals a.act o = false := by rw [hact]; rfl
  have hgo : goOn s.woken a.act = s.woken.erase (thread a.act) := by rw [hact]; rfl
  rw [(threads_eq_some h).right, hsig, hgo]
  exact List.le_length_erase

-- What is available to the threads that wait, while the object is in use. A section that makes something
-- available signals, and one that goes on after a wait takes something, or waits again.
structure Signalled (sec : τ → Machine σ (ε ⊕ ρ) ω) (wait : ε ⊕ ρ → ω → Option ρ) (signals : ε → ω → Bool)
    (Inv inUse : σ → Prop) (available : σ → Nat) : Prop where
  inv   : ∀ {t x i y o}, Inv x → sec t x i = some (y, o) → Inv y
  keeps : ∀ {t x i y o}, sec t x i = some (y, o) → inUse y → inUse x
  waits : ∀ {t x i y o}, Inv x → sec t x i = some (y, o) → inUse y → wait i o ≠ none → available y = 0
  calls : ∀ {t x op y o}, Inv x → sec t x (.inl op) = some (y, o) → inUse y →
    available y ≤ available x + (signals op o).toNat
  takes : ∀ {t x r y o}, Inv x → sec t x (.inr r) = some (y, o) → inUse y → available y ≤ available x - 1

-- No wake-up is lost: where a thread is asleep, so much is available at most as there are threads that
-- will go on.
structure Kept (Inv inUse : σ → Prop) (available : σ → Nat) (s : State τ σ ρ) : Prop where
  inv     : Inv s.shared
  blocked : ∀ t ∈ s.woken, (s.resume t).isSome
  nodup   : s.woken.Nodup
  awake   : inUse s.shared → ∀ t, s.Asleep t → available s.shared ≤ s.woken.length

-- The threads that are to go on after a step were blocked before it, and did not take it.
theorem Kept.blocked_of_mem_woken (k : Kept Inv inUse available s) (hw : Wakeful sec wait signals s a)
    (h : threads sec wait signals s a = some (s', o)) (ht : t ∈ s'.woken) :
    (s.resume t).isSome ∧ t ≠ thread a.act := by
  cases (mem_woken h).mp ht
  case inl hgo =>
    have hblocked := k.blocked t (mem_of_mem_goOn hgo)
    refine ⟨hblocked, fun ht => ?_⟩
    obtain ⟨i, hsec, -⟩ := threads_section h
    rcases section?_cases hsec with ⟨_, -, -, hnone⟩ | ⟨_, hact, -, -⟩
    · rw [ht, hnone] at hblocked
      cases hblocked
    · rw [hact, ht] at hgo
      exact k.nodup.not_mem_erase hgo
  case inr hv =>
    obtain ⟨hasleep, hne⟩ := (hw s' o h hv.left).asleep t hv.right
    exact ⟨hasleep.left, hne⟩

theorem Kept.nodup_step (k : Kept Inv inUse available s) (hw : Wakeful sec wait signals s a)
    (h : threads sec wait signals s a = some (s', o)) : s'.woken.Nodup := by
  have hgo : (goOn s.woken a.act).Nodup := by
    cases a.act
    case call => exact k.nodup
    case wake => exact k.nodup.erase _
  rw [(threads_eq_some h).right]
  split
  case isTrue hs =>
    refine List.nodup_append.mpr ⟨hgo, ?_, fun t ht u hu => ?_⟩
    · cases a.wakes <;> simp
    · rintro rfl
      have hasleep := ((hw s' o h hs).asleep t (Option.mem_toList.mp hu)).left
      exact hasleep.right (mem_of_mem_goOn ht)
  case isFalse => exact hgo

theorem Kept.awake_step (k : Kept Inv inUse available s) (hsig : Signalled sec wait signals Inv inUse available)
    (hw : Wakeful sec wait signals s a) (h : threads sec wait signals s a = some (s', o)) (huse : inUse s'.shared)
    (hs : s'.Asleep t) : available s'.shared ≤ s'.woken.length := by
  obtain ⟨i, hsec, hx, hres⟩ := threads_section h
  by_cases ht : t = thread a.act
  case pos =>
    have hwait : wait i o ≠ none := by
      have hsome := hs.left
      rw [hres, ht, Function.update_self] at hsome
      exact Option.isSome_iff_ne_none.mp hsome
    rw [hsig.waits k.inv hx huse hwait]
    exact Nat.zero_le _
  case neg =>
    have hasleep := asleep_of_step h hs ht
    have hle := k.awake (hsig.keeps hx huse) t hasleep
    rcases section?_cases hsec with ⟨op, hact, rfl, -⟩ | ⟨r, hact, rfl, -⟩
    · have hcalls := hsig.calls k.inv hx huse
      have hlen := length_woken_call hw h hact hasleep ht
      omega
    · have htakes := hsig.takes k.inv hx huse
      have hlen := length_woken_wake h hact
      omega

theorem Kept.step (k : Kept Inv inUse available s) (hsig : Signalled sec wait signals Inv inUse available)
    (hw : Wakeful sec wait signals s a) (h : threads sec wait signals s a = some (s', o)) :
    Kept Inv inUse available s' := by
  obtain ⟨i, -, hx, hres⟩ := threads_section h
  refine ⟨hsig.inv k.inv hx, fun t ht => ?_, k.nodup_step hw h, fun huse t hs => k.awake_step hsig hw h huse hs⟩
  obtain ⟨hblocked, hne⟩ := k.blocked_of_mem_woken hw h ht
  rwa [hres, Function.update_of_ne hne]

-- What the section of each step keeps is kept in every run.
theorem kept {P : State τ σ ρ → Action τ ε → Prop} {s₀ : σ} {tr : List (Action τ ε × ω)}
    (hsig : Signalled sec wait signals Inv inUse available) (hP : ∀ s a, P s a → Wakeful sec wait signals s a)
    (init : Inv s₀)
    (e : (threads sec wait signals).Steps P (.init s₀) tr s) : Kept Inv inUse available s := by
  refine e.preserves (Kept Inv inUse available) ⟨init, by simp [State.init], by simp [State.init], fun _ t ht => ?_⟩ ?_
  · simp [State.init, State.Asleep, Monitor.State.init] at ht
  · intro s₁ a s₂ o k hp hm
    exact k.step hsig (hP _ _ hp) hm

-- A step wakes one thread at most, and none when it does not signal.
theorem stay_asleep_step (hp : Woken s a) (h : threads sec wait signals s a = some (s', o)) {ts : List τ}
    (hts : ∀ t ∈ ts, s.Asleep t) (hnodup : ts.Nodup) :
    ∃ us : List τ, us.Sublist ts ∧ (∀ t ∈ us, s'.Asleep t) ∧
      ts.length ≤ us.length + (signalled signals a.act o).toNat := by
  by_cases hwakes : ∃ v, signalled signals a.act o ∧ a.wakes = some v
  case neg =>
    refine ⟨ts, .refl _, fun t ht => ?_, Nat.le_add_right ..⟩
    exact asleep_step hp h (hts t ht) fun hs hv => hwakes ⟨t, hs, hv⟩
  case pos =>
    obtain ⟨v, hs, hv⟩ := hwakes
    refine ⟨ts.erase v, List.erase_sublist, fun t ht => ?_, ?_⟩
    · refine asleep_step hp h (hts t (List.mem_of_mem_erase ht)) fun _ hc => ?_
      rw [hv, Option.some.injEq] at hc
      exact hnodup.not_mem_erase (hc ▸ ht)
    · have hlen : ts.length - 1 ≤ (ts.erase v).length := List.le_length_erase
      rw [hs, Bool.toNat_true]
      omega

-- Each signal wakes one thread at most. When no thread goes on without a signal, all others stay asleep.
theorem stay_asleep {P : State τ σ ρ → Action τ ε → Prop} {s₁ : State τ σ ρ} {tr : List (Action τ ε × ω)}
    (hP : ∀ s a, P s a → Woken s a) (e : (threads sec wait signals).Steps P s₁ tr s) (ts : List τ)
    (hts : ∀ t ∈ ts, s₁.Asleep t) (hnodup : ts.Nodup) :
    ∃ us : List τ, us.Sublist ts ∧ (∀ t ∈ us, s.Asleep t) ∧
      ts.length ≤ us.length + tr.countP fun x => signalled signals x.1.act x.2 := by
  induction e
  case refl => exact ⟨ts, .refl _, hts, Nat.le_add_right ..⟩
  case snoc tr s₂ s₃ a o e hp hm hi =>
    obtain ⟨us, hsub, hus, hlen⟩ := hi
    obtain ⟨vs, hsub', hvs, hlen'⟩ := stay_asleep_step (hP _ _ hp) hm hus (hnodup.sublist hsub)
    refine ⟨vs, hsub'.trans hsub, hvs, ?_⟩
    rw [List.countP_append, List.countP_singleton]
    split
    case isTrue hs =>
      rw [hs, Bool.toNat_true] at hlen'
      omega
    case isFalse hs =>
      rw [Bool.eq_false_iff.mpr hs, Bool.toNat_false] at hlen'
      omega

end Condition
