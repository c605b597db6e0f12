import TnsParser.Library.Fifo
import TnsParser.Library.Monitor
import TnsParser.Queue.ListQueue

namespace ListQueue

variable {α τ : Type*} [DecidableEq τ]

-- A call gives the packet pointer of the caller, and what `malloc` will return to a put.
inductive Call (α : Type*)
  | put (pkt : α) (ml : Option Nat)
  | get (pkt : α) (block : Bool)
  | flush
  | abort

-- `ret` has the value returned and the packet pointer that the caller has afterwards. `fault` is a use
-- of memory that is not allocated.
inductive Out (α : Type*)
  | ret (r : Int) (pkt : α)
  | wait
  | done
  | fault

-- `malloc` returns the address of memory that is not in use.
def Fresh (q : ListQueue α) (ml : Option Nat) : Prop :=
  ∀ a ∈ ml, a ≠ 0 ∧ (q.heap a).isNone

instance (q : ListQueue α) (ml : Option Nat) : Decidable (q.Fresh ml) :=
  match ml with
  | none   => isTrue nofun
  | some a => decidable_of_iff (a ≠ 0 ∧ (q.heap a).isNone) (by simp [Fresh])

def lockedGet (q : ListQueue α) (pkt : α) (block : Bool) : ListQueue α × Out α :=
  match q.listQueueGet pkt block with
  | none                   => (q, .fault)
  | some (q', .ret r pkt') => (q', .ret r pkt')
  | some (q', .wait)       => (q', .wait)

-- The sections under the mutex of the queue. A getter that is woken goes through its loop again.
def locked (_ : τ) : Machine (ListQueue α) (Call α ⊕ α) (Out α)
  | q, .inl (.put pkt ml) =>
    if q.Fresh ml then
      match q.listQueuePutPrivate pkt ml with
      | none         => some (q, .fault)
      | some (q', r) => some (q', .ret r pkt)
    else
      none
  | q, .inl (.get pkt block) => some (q.lockedGet pkt block)
  | q, .inr pkt              => some (q.lockedGet pkt true)
  | q, .inl .flush =>
    match q.listQueueFlush with
    | none    => some (q, .fault)
    | some q' => some (q', .done)
  | q, .inl .abort => some (q.listQueueAbort, .done)

def wait : Call α ⊕ α → Out α → Option α
  | .inl (.get pkt _), .wait => some pkt
  | .inr pkt,          .wait => some pkt
  | _,                 _     => none

abbrev threads : Machine (Monitor.State τ (ListQueue α) α) (Monitor.Action τ (Call α)) (Out α) :=
  Monitor.threads locked wait

-- The queue as `main` hands it to its threads: initialised, and `abort_request` cleared.
def start (heap : Nat → Option (MyList α)) : ListQueue α :=
  { listQueueInit heap with abortRequest := false }

-- The queue as its users see it: a FIFO that can be shut down.
structure Spec (α : Type*) where
  fifo         : Fifo α
  abortRequest : Bool

namespace Spec

def start : Spec α where
  fifo         := .empty
  abortRequest := false

def get (q : Spec α) (pkt : α) (block : Bool) : Spec α × Out α :=
  if q.abortRequest then
    (q, .ret (-1) pkt)
  else
    match q.fifo.pop? with
    | some (pkt', fifo) => ({ q with fifo }, .ret 1 pkt')
    | none              => (q, if block then .wait else .ret 0 pkt)

def locked (_ : τ) : Machine (Spec α) (Call α ⊕ α) (Out α)
  | q, .inl (.put pkt ml) =>
    if q.abortRequest ∨ ml = none then
      some (q, .ret (-1) pkt)
    else
      some ({ q with fifo := q.fifo.push pkt }, .ret 0 pkt)
  | q, .inl (.get pkt block) => some (q.get pkt block)
  | q, .inr pkt              => some (q.get pkt true)
  | q, .inl .flush           => some ({ q with fifo := q.fifo.flush }, .done)
  | q, .inl .abort           => some ({ q with abortRequest := true }, .done)

abbrev threads : Machine (Monitor.State τ (Spec α) α) (Monitor.Action τ (Call α)) (Out α) :=
  Monitor.threads locked wait

end Spec

-- The queue represents its specification: the packets in the chain are the pending ones.
structure Represents (q : ListQueue α) (a : Spec α) : Prop where
  chain : ∃ xs, q.Chain xs ∧ xs.map (·.2) = a.fifo.pending
  abort : q.abortRequest = a.abortRequest

namespace Represents

variable {q q' : ListQueue α} {a a' : Spec α} {t : τ} {pkt : α} {block : Bool} {o : Out α}

theorem start (heap : Nat → Option (MyList α)) : (ListQueue.start heap).Represents Spec.start where
  chain := ⟨[], .nil rfl rfl rfl, rfl⟩
  abort := rfl

theorem get (r : q.Represents a) (pkt : α) (block : Bool) :
    ∃ a', a.get pkt block = (a', (q.lockedGet pkt block).2) ∧
      (q.lockedGet pkt block).1.Represents a' := by
  obtain ⟨xs, c, hp⟩ := r.chain
  have hab := r.abort
  cases ha : q.abortRequest
  case true =>
    have hg : q.lockedGet pkt block = (q, .ret (-1) pkt) := by simp [lockedGet, listQueueGet, ha]
    exact ⟨a, by simp [Spec.get, ← hab, ha, hg], by simpa [hg] using r⟩
  case false =>
    cases xs
    case nil =>
      have hpop : a.fifo.pop? = none := Fifo.pop?_eq_none_iff.mpr hp.symm
      have hg : q.lockedGet pkt block = (q, if block then .wait else .ret 0 pkt) := by
        simp only [lockedGet, c.get_nil ha]
        cases block <;> rfl
      exact ⟨a, by simp [Spec.get, ← hab, ha, hg, hpop], by simpa [hg] using r⟩
    case cons x xs =>
      obtain ⟨q', hget, c', ha'⟩ := c.get_cons ha pkt block
      have hg : q.lockedGet pkt block = (q', .ret 1 x.2) := by simp [lockedGet, hget]
      obtain ⟨f, hpop, hf⟩ := Fifo.pop?_of_pending_cons hp.symm
      refine ⟨{ a with fifo := f }, by simp [Spec.get, ← hab, ha, hg, hpop], ?_⟩
      exact hg ▸ { chain := ⟨xs, c', hf.symm⟩, abort := ha'.trans <| ha.symm.trans hab }

omit [DecidableEq τ] in
theorem put {ml : Option Nat} (r : q.Represents a) (hm : q.Fresh ml) (t : τ) (pkt : α) :
    ∃ q' a' o, ListQueue.locked t q (.inl (.put pkt ml)) = some (q', o) ∧
      Spec.locked t a (.inl (.put pkt ml)) = some (a', o) ∧ q'.Represents a' := by
  obtain ⟨xs, c, hp⟩ := r.chain
  have hab := r.abort
  cases ha : q.abortRequest
  case true =>
    refine ⟨q, a, .ret (-1) pkt, ?_, ?_, r⟩
    · simp [ListQueue.locked, hm, listQueuePutPrivate, ha]
    · simp [Spec.locked, ← hab, ha]
  case false =>
    cases ml
    case none =>
      refine ⟨q, a, .ret (-1) pkt, ?_, ?_, r⟩
      · simp [ListQueue.locked, hm, listQueuePutPrivate, ha]
      · simp [Spec.locked]
    case some ml =>
      obtain ⟨hz, hn⟩ := hm ml rfl
      obtain ⟨q', hput, c', ha'⟩ := c.put ha hz (by simpa using hn) pkt
      refine ⟨q', { a with fifo := a.fifo.push pkt }, .ret 0 pkt, ?_, ?_, ⟨_, c', ?_⟩, ?_⟩
      · simp [ListQueue.locked, hm, hput]
      · simp [Spec.locked, ← hab, ha]
      · simp [Fifo.push, hp]
      · exact ha'.trans <| ha.symm.trans hab

-- Every section of the queue does what its specification does.
omit [DecidableEq τ] in
theorem locked {sec : Call α ⊕ α} (r : q.Represents a)
    (h : ListQueue.locked t q sec = some (q', o)) :
    ∃ a', Spec.locked t a sec = some (a', o) ∧ q'.Represents a' := by
  match sec with
  | .inl (.put pkt ml) =>
    have hm : q.Fresh ml := by
      by_contra hm
      simp [ListQueue.locked, hm] at h
    have ⟨q₁, a₁, o₁, hq, ha, r'⟩ := r.put hm t pkt
    cases hq.symm.trans h
    exact ⟨a₁, ha, r'⟩
  | .inl (.get pkt block) =>
    have ⟨a', ha, r'⟩ := r.get pkt block
    have h : q.lockedGet pkt block = (q', o) := by simpa [ListQueue.locked] using h
    rw [h] at ha r'
    exact ⟨a', by simp [Spec.locked, ha], r'⟩
  | .inr pkt =>
    have ⟨a', ha, r'⟩ := r.get pkt true
    have h : q.lockedGet pkt true = (q', o) := by simpa [ListQueue.locked] using h
    rw [h] at ha r'
    exact ⟨a', by simp [Spec.locked, ha], r'⟩
  | .inl .flush =>
    have ⟨xs, c, _⟩ := r.chain
    have ⟨q₁, hf, c', ha⟩ := c.flush
    simp only [ListQueue.locked, hf] at h
    cases h
    exact ⟨_, rfl, ⟨[], c', rfl⟩, ha.trans r.abort⟩
  | .inl .abort =>
    have ⟨xs, c, hp⟩ := r.chain
    cases h
    exact ⟨_, rfl, ⟨xs, ⟨c.seg, c.nodup, c.nonzero, c.last, c.num⟩, hp⟩, rfl⟩

end Represents

-- The packets that were put successfully, in order.
def puts (tr : List (Monitor.Action τ (Call α) × Out α)) : List α :=
  tr.filterMap fun
    | (.call _ (.put _ _), .ret r pkt) => if r = 0 then some pkt else none
    | _                                => none

-- The packets that successful gets returned, in order.
def gets (tr : List (Monitor.Action τ (Call α) × Out α)) : List α :=
  tr.filterMap fun
    | (.call _ (.get _ _), .ret r pkt) => if r = 1 then some pkt else none
    | (.wake _,            .ret r pkt) => if r = 1 then some pkt else none
    | _                                => none

namespace Spec

variable {a a' : Spec α} {t : τ} {pkt : α} {block : Bool} {o : Out α}

omit [DecidableEq τ] in
theorem puts_get : puts [(Monitor.Action.call t (.get pkt block), o)] = [] := by
  cases o <;> rfl

omit [DecidableEq τ] in
theorem puts_wake : puts [((Monitor.Action.wake t : Monitor.Action τ (Call α)), o)] = [] := by
  cases o <;> rfl

-- What a getter returns after a wait is got like what it returns at once.
omit [DecidableEq τ] in
theorem gets_get : gets [(Monitor.Action.call t (.get pkt block), o)] = gets [(.wake t, o)] := by
  cases o <;> rfl

omit [DecidableEq τ] in
theorem get_history (h : a.get pkt block = (a', o)) (t : τ) :
    a'.fifo.accepted = a.fifo.accepted ∧
      a'.fifo.delivered = a.fifo.delivered ++ gets [(.wake t, o)] := by
  simp only [get] at h
  split at h
  case isTrue => cases h; simp [gets]
  case isFalse =>
    split at h
    case h_1 hpop =>
      have ⟨_, hacc, hdel⟩ := Fifo.pop?_eq_some hpop
      cases h
      simp [hacc, hdel, gets]
    case h_2 => cases h; cases block <;> simp [gets]

-- In every run of the specification, what was accepted is what was put, and what was delivered is what
-- was got.
theorem history {s : Monitor.State τ (Spec α) α} {tr : List (Monitor.Action τ (Call α) × Out α)}
    (e : threads.Steps Machine.Free (.init start) tr s) :
    s.shared.fifo.accepted = puts tr ∧ s.shared.fifo.delivered = gets tr := by
  refine e.invariant
    (fun tr s => s.shared.fifo.accepted = puts tr ∧ s.shared.fifo.delivered = gets tr)
    ⟨rfl, rfl⟩ ?_
  rintro tr s act s' o ⟨hp, hg⟩ - h
  obtain ⟨t, sec, hs, h, _⟩ := Monitor.threads_eq_some h
  have hputs : puts (tr ++ [(act, o)]) = puts tr ++ puts [(act, o)] := List.filterMap_append ..
  have hgets : gets (tr ++ [(act, o)]) = gets tr ++ gets [(act, o)] := List.filterMap_append ..
  rw [hputs, hgets, ← hp, ← hg]
  generalize s'.shared = a' at h ⊢
  cases act
  case wake =>
    simp only [Monitor.State.section?, Option.map_eq_some_iff, Prod.mk.injEq] at hs
    obtain ⟨pkt, _, _, hsec⟩ := hs
    subst hsec
    simp only [locked, Option.some.injEq] at h
    obtain ⟨hacc, hdel⟩ := get_history h _
    rw [puts_wake, List.append_nil]
    exact ⟨hacc, hdel⟩
  case call op =>
    simp only [Monitor.State.section?, Option.ite_none_right_eq_some, Option.some.injEq,
      Prod.mk.injEq] at hs
    obtain ⟨_, _, hsec⟩ := hs
    subst hsec
    cases op
    case put =>
      simp only [locked] at h
      split at h <;> cases h
      · simp [puts, gets]
      · simp [puts, gets]
    case get =>
      simp only [locked, Option.some.injEq] at h
      obtain ⟨hacc, hdel⟩ := get_history h _
      rw [puts_get, gets_get, List.append_nil]
      exact ⟨hacc, hdel⟩
    case flush => cases h; simp [puts, gets]
    case abort => cases h; simp [puts, gets]

end Spec

-- The calls that did not do what they are for: a put that returns -1, a get that returns -1 or 0.
def Unsuccessful (r : Int) : Call α ⊕ α → Prop
  | .inl (.put _ _)           => r = -1
  | .inl (.get _ _) | .inr _  => r = -1 ∨ r = 0
  | .inl .flush | .inl .abort => False

-- The packet pointer of the caller at the start of a section.
def callerPkt : Call α ⊕ α → Option α
  | .inl (.put pkt _) | .inl (.get pkt _) | .inr pkt => some pkt
  | .inl .flush | .inl .abort                        => none

variable {q q' : ListQueue α} {t : τ} {sec : Call α ⊕ α} {r : Int} {pkt pkt' : α} {block : Bool}

theorem listQueueGet_unsuccessful (h : q.listQueueGet pkt block = some (q', .ret r pkt'))
    (hr : r = -1 ∨ r = 0) : q' = q ∧ pkt' = pkt := by
  simp only [listQueueGet] at h
  split at h
  case isTrue => cases h; exact ⟨rfl, rfl⟩
  case isFalse =>
    split at h
    case isTrue =>
      simp only [Option.bind_eq_bind, Option.bind_eq_some_iff, Option.pure_def, Option.some.injEq,
        Prod.mk.injEq, Get.ret.injEq] at h
      obtain ⟨_, _, _, hr', _⟩ := h
      omega
    case isFalse =>
      split at h <;> cases h
      exact ⟨rfl, rfl⟩

theorem lockedGet_unsuccessful (h : q.lockedGet pkt block = (q', .ret r pkt')) (hr : r = -1 ∨ r = 0) :
    q' = q ∧ pkt' = pkt := by
  simp only [lockedGet] at h
  split at h <;> cases h
  exact listQueueGet_unsuccessful ‹_› hr

theorem listQueuePutPrivate_unsuccessful {ml : Option Nat}
    (h : q.listQueuePutPrivate pkt ml = some (q', -1)) : q' = q := by
  simp only [listQueuePutPrivate] at h
  split at h
  case isTrue => cases h; rfl
  case isFalse =>
    cases ml
    case none => cases h; rfl
    case some =>
      simp only [Option.bind_eq_bind, Option.pure_def] at h
      split at h
      case isTrue => simp at h
      case isFalse =>
        obtain ⟨_, _, h⟩ := Option.bind_eq_some_iff.mp h
        simp at h

-- A call that is unsuccessful leaves the queue and the packet pointer of the caller as they were.
omit [DecidableEq τ] in
theorem locked_unsuccessful (h : q.locked t sec = some (q', .ret r pkt')) (hr : Unsuccessful r sec) :
    q' = q ∧ some pkt' = callerPkt sec := by
  match sec with
  | .inl (.put pkt ml) =>
    cases hr
    simp only [locked] at h
    split at h
    case isFalse => contradiction
    case isTrue =>
      split at h <;> cases h
      exact ⟨listQueuePutPrivate_unsuccessful ‹_›, rfl⟩
  | .inl (.get pkt block) | .inr pkt =>
    simp only [locked, Option.some.injEq] at h
    simpa [callerPkt] using lockedGet_unsuccessful h hr

-- In every run of the threads the queue is a FIFO. Its calls have the outcomes of a run of the
-- specification, so that the packets put are, in order, those got, those flushed and those pending, and
-- the last are the ones in the chain that ends at `last` and that `num` counts. What is unsuccessful
-- has no effect.
theorem threads_fifo {heap : Nat → Option (MyList α)} {s : Monitor.State τ (ListQueue α) α}
    {tr : List (Monitor.Action τ (Call α) × Out α)}
    (e : threads.Steps Machine.Free (.init (start heap)) tr s) :
    (∃ xs a, s.shared.Chain xs ∧ Spec.threads.Steps Machine.Free (.init Spec.start) tr a ∧
      a.shared.fifo.pending = xs.map (·.2) ∧ a.shared.fifo.accepted = puts tr ∧
      a.shared.fifo.delivered = gets tr) ∧
    ((s.shared.first = 0 ↔ s.shared.num = 0) ∧ (s.shared.last = 0 ↔ s.shared.num = 0)) ∧
    (∀ act s' r pkt t sec, threads s act = some (s', .ret r pkt) → s.section? act = some (t, sec) →
      Unsuccessful r sec → s'.shared = s.shared ∧ some pkt = callerPkt sec) := by
  have ⟨a, e', r⟩ := Monitor.simulation Spec.locked Represents
    (Represents.start heap) (fun r h => r.locked h) e
  have ⟨xs, c, hp⟩ := r.chain
  have ⟨hput, hget⟩ := Spec.history e'
  refine ⟨⟨xs, a, c, e', hp.symm, hput, hget⟩, ?_, ?_⟩
  · simp [c.first_eq_zero_iff, c.last_eq_zero_iff, c.num_eq_zero_iff]
  · intro act s' r pkt t sec h hs hu
    have ⟨t', sec', hs', hm, _⟩ := Monitor.threads_eq_some h
    cases hs.symm.trans hs'
    exact locked_unsuccessful hm hu

-- Two puts, a flush, and a get that waits until a third packet is there.
theorem threads_fifo_of_two_threads :
    ∃ (s : Monitor.State (Fin 2) (ListQueue Nat) Nat)
      (tr : List (Monitor.Action (Fin 2) (Call Nat) × Out Nat)),
      tr.map (·.1) = [.call 0 (.put 5 (some 0x10)), .call 0 (.put 6 none), .call 1 .flush,
        .call 1 (.get 0 true), .call 0 (.put 7 (some 0x20)), .wake 1] ∧
      (∃ xs a, s.shared.Chain xs ∧ Spec.threads.Steps Machine.Free (.init Spec.start) tr a ∧
        a.shared.fifo.pending = xs.map (·.2) ∧ a.shared.fifo.accepted = puts tr ∧
        a.shared.fifo.delivered = gets tr) ∧ gets tr = [7] := by
  have e := Machine.Steps.refl (m := threads (τ := Fin 2) (α := Nat)) (P := Machine.Free)
      (s := .init (start fun _ => none))
    |>.snoc (i := .call 0 (.put 5 (some 0x10))) trivial rfl
    |>.snoc (i := .call 0 (.put 6 none)) trivial rfl
    |>.snoc (i := .call 1 .flush) trivial rfl
    |>.snoc (i := .call 1 (.get 0 true)) trivial rfl
    |>.snoc (i := .call 0 (.put 7 (some 0x20))) trivial rfl
    |>.snoc (i := .wake 1) trivial rfl
  exact ⟨_, _, rfl, threads_fifo e |>.left, rfl⟩

-- A put that returns 0 is one that succeeded.
theorem listQueuePut_zero_changes_queue :
    ¬∀ (heap : Nat → Option (MyList Nat)) (s s' : Monitor.State (Fin 2) (ListQueue Nat) Nat)
      (tr : List (Monitor.Action (Fin 2) (Call Nat) × Out Nat)) (pkt : Nat) (ml : Option Nat) (r : Int),
      threads.Steps Machine.Free (.init (start heap)) tr s →
      threads s (.call 0 (.put pkt ml)) = some (s', .ret r pkt) → r = -1 ∨ r = 0 →
        s'.shared = s.shared := by
  intro h
  have hq := h (fun _ => none) _ _ [] 5 (some 0x10) 0 .refl rfl (.inr rfl)
  exact absurd (congrArg ListQueue.num hq) (by decide)

end ListQueue
