import TnsParser.Pipeline.Intact

-- The two threads, when `list_queue_put` and `list_queue_get` may fail.

open ListHead

namespace Pipeline

-- `list_queue_put` does not fail, `list_queue_get` is not called any more after an abort, and a wait for a
-- buffer that ends without a signal ends with a free one.
def Careful (s : State) : Action → Prop
  | .netrecv frame ml =>
    Served s (.netrecv frame ml) ∧ ∀ pkt, s.netrecv = .put pkt → s.queue.abortRequest = false
  | .process          =>
    (∀ pkt, s.process = .get pkt → s.queue.abortRequest = false) ∧
      ∀ signalled pkt, s.process = .wait signalled pkt → s.queue.abortRequest = false
  | .abort            => True

-- The state without the abort, which is all that the invariant excludes.
def State.unaborted (s : State) : State :=
  { s with queue := { s.queue with abortRequest := false } }

variable {nodes free used : List Nat} {s s' : State} {rc pr : List Args} {queued : List (Nat × Nat)}
  {target : Target} {spill : PacketInfo → Bytes → PacketInfo} {a : Action} {e : Event}

theorem State.unaborted_eq (h : s.queue.abortRequest = false) : s.unaborted = s := by
  rcases s with ⟨_, ⟨_, _, _, _, _⟩, _, _, _⟩
  cases h
  rfl

-- The wake-up of `process_thread` by an abort changes nothing.
theorem Inv.signal (i : Inv nodes s rc pr free used queued) :
    Inv nodes { s with process := s.process.signal } rc pr free used queued := by
  have hflight : State.inFlight { s with process := s.process.signal } queued = s.inFlight queued := by
    simp [State.inFlight]
  exact { i with
    held := by simpa using i.held, pushed := hflight ▸ i.pushed, content := hflight ▸ i.content,
    running := fun p hp => i.running p <| Process.signal_eq_running hp }

-- Where a thread does not look at the queue, the abort is nothing to it.

theorem netrecvThread_unaborted {frame : Option Frame} {ml : Option Nat}
    (hpc : ∀ pkt, s.netrecv ≠ .put pkt) :
    netrecvThread target spill s.unaborted frame ml =
      (netrecvThread target spill s frame ml).map fun (s', e) => (s'.unaborted, e) := by
  have hnetrecv : s.unaborted.netrecv = s.netrecv := rfl
  have hpool : s.unaborted.pool = s.pool := rfl
  have hpackets : s.unaborted.packets = s.packets := rfl
  rw [netrecvThread, netrecvThread, hnetrecv, hpool, hpackets]
  cases h : s.netrecv
  case get      => cases s.pool.memPoolGet <;> rfl
  case wait     => rfl
  case recv pkt =>
    simp only
    split <;> rfl
  case put pkt  => exact absurd h (hpc pkt)

theorem processThread_unaborted (hget : ∀ pkt, s.process ≠ .get pkt)
    (hwait : ∀ signalled pkt, s.process ≠ .wait signalled pkt) :
    processThread s.unaborted = ((processThread s).1.unaborted, (processThread s).2) := by
  have hprocess : s.unaborted.process = s.process := rfl
  have hpackets : s.unaborted.packets = s.packets := rfl
  rw [processThread, processThread, hprocess, hpackets]
  cases h : s.process
  case get pkt            => exact absurd h (hget pkt)
  case wait signalled pkt => exact absurd h (hwait signalled pkt)
  case check pkt =>
    simp only
    split
    case isTrue  => rfl
    case isFalse => split <;> rfl
  case running => rfl
  case put     => rfl

-- After an abort, the threads may take steps of this kind only.
theorem unaborted_step (hc : Careful s a) (ha : s.queue.abortRequest ≠ false) (hn : a ≠ .abort)
    (h : pipeline target spill s a = some (s', e)) :
    pipeline target spill s.unaborted a = some (s'.unaborted, e) := by
  cases a
  case abort   => exact absurd rfl hn
  case netrecv =>
    have hpc (pkt : Nat) (hp : s.netrecv = .put pkt) : False := ha <| hc.right pkt hp
    exact netrecvThread_unaborted hpc |>.trans <| congrArg _ h
  case process =>
    have hget (pkt : Nat) (hp : s.process = .get pkt) : False := ha <| hc.left pkt hp
    have hwait (signalled : Bool) (pkt : Nat) (hp : s.process = .wait signalled pkt) : False :=
      ha <| hc.right signalled pkt hp
    have h : processThread s = (s', e) := Option.some.inj h
    have hstep := processThread_unaborted hget hwait
    rw [h] at hstep
    exact congrArg some hstep

-- A step of a thread, or an abort.
theorem Inv.careful_step (i : Inv nodes s.unaborted rc pr free used queued) (hc : Careful s a)
    (h : pipeline target spill s a = some (s', e)) :
    (∃ free used queued,
      Inv nodes s'.unaborted (rc ++ e.receivedArgs) (pr ++ e.processedArgs) free used queued) ∧
    e ≠ .fault := by
  by_cases hn : a = .abort
  case pos =>
    subst hn
    cases h
    refine ⟨⟨free, used, queued, ?_⟩, Event.noConfusion⟩
    rw [Event.receivedArgs, Event.processedArgs, List.append_nil, List.append_nil]
    exact i.signal
  case neg =>
    have hserved : Served s a := by
      cases a
      case netrecv => exact hc.left
      case process => trivial
      case abort   => exact absurd rfl hn
    by_cases ha : s.queue.abortRequest = false
    case pos =>
      rw [State.unaborted_eq ha] at i
      obtain ⟨⟨free, used, queued, i'⟩, hne⟩ := i.step hserved h
      exact ⟨⟨free, used, queued, State.unaborted_eq i'.abort ▸ i'⟩, hne⟩
    case neg =>
      have h' := unaborted_step hc ha hn h
      exact i.step hserved h'

variable {mem num : Nat} {links : Heap} {pool : MemPool} {heap : Nat → Option (MyList Nat)}
  {packets : Nat → Packet} {tr : List (Action × Event)}

-- In every run in which no error reaches a thread, every buffer is in one place, also after an abort.
-- What `process_thread` has is not on the free list, and it goes through no null pointer.
theorem pipeline_careful (hmem : mem ≠ 0)
    (hp : MemPool.memPoolCreate mem links num sizeofPacket = some pool)
    (st : (pipeline target spill).Steps Careful (start pool heap packets) tr s) :
    Placed (buffers mem num sizeofPacket) s ∧ ∀ e ∈ tr, e.2 ≠ .fault := by
  obtain ⟨⟨free, used, queued, i⟩, hfault⟩ :
      (∃ free used queued, Inv (MemPool.nodes mem num sizeofPacket) s.unaborted (received tr)
        (processed tr) free used queued) ∧ ∀ e ∈ tr, e.2 ≠ .fault := by
    refine st.invariant (fun tr s =>
      (∃ free used queued, Inv (MemPool.nodes mem num sizeofPacket) s.unaborted (received tr)
        (processed tr) free used queued) ∧ ∀ e ∈ tr, e.2 ≠ .fault)
      ⟨⟨_, _, _, .start hmem hp heap packets⟩, List.forall_mem_nil _⟩ ?_
    rintro tr s a s' e ⟨⟨_, _, _, i⟩, hfault⟩ hc h
    obtain ⟨i', hne⟩ := i.careful_step hc h
    refine ⟨by simpa [received, processed] using i', ?_⟩
    exact List.forall_mem_append.mpr ⟨hfault, by simpa using hne⟩
  obtain ⟨free, used, queued, hlists, hchain, hplaced⟩ := i.placed
  exact ⟨⟨free, used, queued, hlists, ⟨hchain.seg, hchain.nodup, hchain.nonzero, hchain.last, hchain.num⟩,
    hplaced⟩, hfault⟩

-- The pipeline with a pool of one buffer.

def onePipeline : Machine State Action Event :=
  pipeline sampleTarget fun info _ => info

def oneStart : State :=
  start onePool (fun _ => none) fun _ => clearPacket

-- When `malloc` fails, the buffer is lost. When the queue is aborted at once, `process_thread` goes
-- through its null pointer; when it is aborted after a packet, the packet is processed twice.
theorem pipeline_not_careful :
    (∃ tr s, onePipeline.Steps Machine.Free oneStart tr s ∧ ¬Placed (buffers 0x1000 1 sizeofPacket) s) ∧
    (∃ tr s, onePipeline.Steps Machine.Free oneStart tr s ∧ (.process, .fault) ∈ tr) ∧
    ∃ tr s, onePipeline.Steps Machine.Free oneStart tr s ∧ (received tr).length = 1 ∧
      (processed tr).length = 2 := by
  refine ⟨?lost, ?null, ?twice⟩
  case lost =>
    have st := Machine.Steps.refl (m := onePipeline) (P := Machine.Free) (s := oneStart)
      |>.snoc (i := .netrecv none none) trivial rfl
      |>.snoc (i := .netrecv (some dataFrame) none) trivial rfl
      |>.snoc (i := .netrecv none none) trivial rfl
    refine ⟨_, _, st, ?_⟩
    rintro ⟨free, used, queued, hlists, hchain, -, hperm⟩
    have hfree : free = [] := hlists.listEmpty_iff.mp (by decide)
    have hqueued : queued = [] := hchain.first_eq_zero_iff.mp rfl
    subst hfree hqueued
    exact absurd hperm.length_eq (by decide)
  case null =>
    have st := Machine.Steps.refl (m := onePipeline) (P := Machine.Free) (s := oneStart)
      |>.snoc (i := .abort) trivial rfl
      |>.snoc (i := .process) trivial rfl
      |>.snoc (i := .process) trivial rfl
    exact ⟨_, _, st, List.mem_append_right _ <| List.mem_singleton.mpr rfl⟩
  case twice =>
    have st := Machine.Steps.refl (m := onePipeline) (P := Machine.Free) (s := oneStart)
      |>.snoc (i := .netrecv none none) trivial rfl
      |>.snoc (i := .netrecv (some dataFrame) none) trivial rfl
      |>.snoc (i := .netrecv none (some 0x10)) trivial rfl
      |>.snoc (i := .process) trivial rfl
      |>.snoc (i := .process) trivial rfl
      |>.snoc (i := .process) trivial rfl
      |>.snoc (i := .process) trivial rfl
      |>.snoc (i := .abort) trivial rfl
      |>.snoc (i := .process) trivial rfl
      |>.snoc (i := .process) trivial rfl
    exact ⟨_, _, st, rfl, rfl⟩

-- An abort while `netrecv_thread` has the only buffer.
theorem pipeline_careful_of_abort :
    ∃ (tr : List (Action × Event)) (s : State),
      tr.map (·.1) = [.netrecv none none, .abort, .netrecv (some dataFrame) none] ∧
      Placed (buffers 0x1000 1 sizeofPacket) s ∧ ∀ e ∈ tr, e.2 ≠ .fault := by
  have hp : MemPool.memPoolCreate 0x1000 ⟨id, id⟩ 1 sizeofPacket = some onePool := rfl
  have st := Machine.Steps.refl (m := onePipeline) (P := Careful) (s := oneStart)
    |>.snoc (i := .netrecv none none) (by exact ⟨⟨nofun, nofun⟩, nofun⟩) rfl
    |>.snoc (i := .abort) (by exact trivial) rfl
    |>.snoc (i := .netrecv (some dataFrame) none) (by exact ⟨⟨nofun, nofun⟩, nofun⟩) rfl
  exact ⟨_, _, rfl, pipeline_careful (by decide) hp st⟩

end Pipeline
