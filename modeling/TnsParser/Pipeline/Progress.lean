import TnsParser.Library.Machine
import TnsParser.Pipeline.Intact

-- The threads do not wait for each other, and what was received does not stay in the queue.

open ListHead

namespace Pipeline

variable {nodes free used : List Nat} {s s' : State} {rc pr : List Args} {queued : List (Nat × Nat)}
  {target : Target} {spill : PacketInfo → Bytes → PacketInfo} {a : Action} {e : Event}

-- A thread that is blocked and was not signalled has nothing to go on with.
structure Awake (s : State) : Prop where
  process : ∀ pkt, s.process = .wait false pkt → s.queue.num = 0
  netrecv : s.netrecv = .wait false → listEmpty s.pool.links s.pool.free

theorem Netrecv.signal_ne (pc : Netrecv) : pc.signal ≠ .wait false := by
  cases pc <;> simp [signal]

theorem Process.signal_ne (pc : Process) (pkt : Nat) : pc.signal ≠ .wait false pkt := by
  cases pc <;> simp [signal]

theorem start_awake (pool : MemPool) (heap : Nat → Option (MyList Nat)) (packets : Nat → Packet) :
    Awake (start pool heap packets) where
  process _ h := by cases h
  netrecv h   := by cases h

-- Everything that a step of `netrecv_thread` can do.
inductive NetrecvStep (target : Target) (spill : PacketInfo → Bytes → PacketInfo) (s : State)
    (frame : Option Frame) (ml : Option Nat) : State → Event → Prop
  | blocks (hpc : s.netrecv = .get) (hget : s.pool.memPoolGet = none) :
    NetrecvStep target spill s frame ml { s with netrecv := .wait false } .internal
  | gets {pool pkt} (hpc : ∀ pkt, s.netrecv ≠ .recv pkt) :
    NetrecvStep target spill s frame ml { s with pool, netrecv := .recv pkt } .internal
  | drops {pkt} (hpc : s.netrecv = .recv pkt) (hret : (ethRecv target spill (s.packets pkt) frame).2 ≠ 0) :
    NetrecvStep target spill s frame ml
      { s with
        packets := Function.update s.packets pkt (ethRecv target spill (s.packets pkt) frame).1,
        netrecv := .recv pkt } .internal
  | receives {pkt} (hpc : s.netrecv = .recv pkt) (hret : (ethRecv target spill (s.packets pkt) frame).2 = 0) :
    NetrecvStep target spill s frame ml
      { s with
        packets := Function.update s.packets pkt (ethRecv target spill (s.packets pkt) frame).1,
        netrecv := .put pkt } (.received (ethRecv target spill (s.packets pkt) frame).1.args)
  | faults {pkt} (hpc : s.netrecv = .put pkt) (hm : s.queue.Fresh ml)
    (hput : s.queue.listQueuePutPrivate pkt ml = none) : NetrecvStep target spill s frame ml s .fault
  | puts {pkt queue r} (hpc : s.netrecv = .put pkt) (hm : s.queue.Fresh ml)
    (hput : s.queue.listQueuePutPrivate pkt ml = some (queue, r)) :
    NetrecvStep target spill s frame ml
      { s with queue, process := if r = 0 then s.process.signal else s.process, netrecv := .get } .internal

theorem netrecvThread_cases {frame : Option Frame} {ml : Option Nat}
    (h : netrecvThread target spill s frame ml = some (s', e)) : NetrecvStep target spill s frame ml s' e := by
  rw [netrecvThread] at h
  cases hpc : s.netrecv <;> simp only [hpc] at h
  case get =>
    split at h <;> cases h
    case h_1 hget       => exact .blocks hpc hget
    case h_2 pool pkt _ => exact .gets fun _ hc => by rw [hpc] at hc; cases hc
  case wait =>
    cases h
    exact .gets fun _ hc => by rw [hpc] at hc; cases hc
  case recv =>
    split at h <;> cases h
    case isTrue hret  => exact .drops hpc hret
    case isFalse hret => exact .receives hpc (not_not.mp hret)
  case put =>
    split at h
    case isFalse   => contradiction
    case isTrue hm =>
      split at h <;> cases h
      case h_1 hput     => exact .faults hpc hm hput
      case h_2 r q hput => exact .puts hpc hm hput

theorem Awake.netrecv_step {frame : Option Frame} {ml : Option Nat} (w : Awake s)
    (i : Inv nodes s rc pr free used queued) (hml : ∀ pkt, s.netrecv = .put pkt → ml ≠ none)
    (h : netrecvThread target spill s frame ml = some (s', e)) : Awake s' := by
  cases netrecvThread_cases h
  case blocks hpc hget =>
    refine ⟨w.process, fun _ => ?_⟩
    simpa [MemPool.memPoolGet] using hget
  case gets | drops | receives => exact ⟨w.process, fun h => by cases h⟩
  case faults => exact w
  case puts pkt queue r hpc hm hput =>
    obtain ⟨ml, rfl⟩ := Option.ne_none_iff_exists'.mp (hml pkt hpc)
    obtain ⟨hz, hn⟩ := hm ml rfl
    obtain ⟨q, hput', -, -⟩ := i.chain.put i.abort hz (by simpa using hn) pkt
    cases hput'.symm.trans hput
    exact ⟨fun pkt h => absurd h (s.process.signal_ne pkt), fun h => by cases h⟩

-- `process_thread` waits for the queue when it is empty, and only then.

theorem getPkt_nil (i : Inv nodes s rc pr free used []) (pkt : Nat) :
    getPkt s pkt = ({ s with process := .wait false pkt }, .internal) := by
  simp [getPkt, i.chain.get_nil i.abort]

theorem getPkt_cons {x : Nat × Nat} (i : Inv nodes s rc pr free used (x :: queued)) (pkt : Nat) :
    ∃ q, getPkt s pkt = ({ s with queue := q, process := .check x.2 }, .internal) ∧ q.num = queued.length := by
  obtain ⟨q, hget, hchain, -⟩ := i.chain.get_cons i.abort pkt true
  exact ⟨q, by simp [getPkt, hget], hchain.num⟩

theorem Awake.getPkt (w : Awake s) (i : Inv nodes s rc pr free used queued) (pkt : Nat) :
    Awake (getPkt s pkt).1 := by
  cases queued
  case nil =>
    rw [getPkt_nil i]
    exact ⟨fun _ _ => i.chain.num, w.netrecv⟩
  case cons x queued =>
    obtain ⟨q, hget, -⟩ := getPkt_cons i pkt
    rw [hget]
    exact ⟨fun _ h => (by cases h), w.netrecv⟩

-- A buffer that is put back wakes the thread that waits for one.
theorem memPoolPutSignals_held (i : Inv nodes s rc pr free used queued) {pkt : Nat}
    (hpkt : pkt ∈ s.process.held) : s.pool.memPoolPutSignals pkt = true := by
  obtain ⟨n, hused, rfl⟩ := i.node hpkt
  obtain ⟨ys, zs, rfl⟩ := List.append_of_mem hused
  have hnz : ∀ y ∈ ys, y ≠ 0 := fun y hy =>
    Nat.ne_zero_of_lt <| i.above y <| i.perm.subset (by simp [hy])
  have hprev : s.pool.links.prev n ≠ 0 := i.lists.prev_ne_zero hnz
  simp [MemPool.memPoolPutSignals, i.mem, hprev, sizeofListHead]

theorem Awake.process_step (w : Awake s) (i : Inv nodes s rc pr free used queued) :
    Awake (processThread s).1 := by
  cases hpc : s.process
  case get pkt =>
    rw [processThread, hpc]
    exact w.getPkt i pkt
  case wait signalled pkt =>
    rw [processThread, hpc]
    exact w.getPkt i pkt
  case check pkt =>
    rw [processThread, hpc]
    simp only
    split_ifs
    · exact w
    · exact ⟨fun _ h => (by cases h), w.netrecv⟩
    · exact ⟨fun _ h => (by cases h), w.netrecv⟩
  case running pkt =>
    rw [processThread, hpc]
    exact ⟨fun _ h => (by cases h), w.netrecv⟩
  case put pkt =>
    have hheld : pkt ∈ s.process.held := by simp [hpc, Process.held]
    have hsignals := memPoolPutSignals_held i hheld
    rw [processThread, hpc]
    simp only [hsignals, if_true]
    exact ⟨fun _ h => (by cases h), fun h => absurd h s.netrecv.signal_ne⟩

theorem Awake.step (w : Awake s) (i : Inv nodes s rc pr free used queued) (hq : Served s a)
    (h : pipeline target spill s a = some (s', e)) : Awake s' := by
  cases a
  case netrecv => exact w.netrecv_step i hq.right h
  case process =>
    have hs : (processThread s).1 = s' := congrArg Prod.fst (Option.some.inj h)
    exact hs ▸ w.process_step i
  case abort   => exact hq.elim

-- How many steps `process_thread` may take before it is blocked: four for each packet of the queue, and
-- those that are left of its round.

def Process.rank : Process → Nat
  | .wait signalled _ => if signalled then 1 else 0
  | .get _            => 1
  | .put _            => 2
  | .running _        => 3
  | .check _          => 4

def State.rank (s : State) : Nat :=
  4 * s.queue.num.toNat + s.process.rank

theorem getPkt_rank (i : Inv nodes s rc pr free used queued) (hrank : s.process.rank = 1) (pkt : Nat) :
    (getPkt s pkt).1.rank < s.rank := by
  have hnum : s.queue.num = queued.length := i.chain.num
  cases queued
  case nil =>
    rw [getPkt_nil i, State.rank, State.rank, hrank]
    exact Nat.lt_succ_self _
  case cons x queued =>
    obtain ⟨q, hget, hnum'⟩ := getPkt_cons i pkt
    rw [List.length_cons] at hnum
    rw [hget, State.rank, State.rank, hrank, hnum, hnum']
    simp only [Process.rank]
    omega

theorem processThread_rank (w : Awake s) (i : Inv nodes s rc pr free used queued) (h : s.rank ≠ 0) :
    (processThread s).1.rank < s.rank := by
  cases hpc : s.process
  case get pkt =>
    rw [processThread, hpc]
    exact getPkt_rank i (by rw [hpc]; rfl) pkt
  case wait signalled pkt =>
    cases signalled
    case false =>
      have hnum := w.process pkt hpc
      exact absurd (by simp [State.rank, hpc, hnum, Process.rank]) h
    case true  =>
      rw [processThread, hpc]
      exact getPkt_rank i (by rw [hpc]; rfl) pkt
  case check pkt =>
    have hnz : pkt ≠ 0 := by
      have hheld : pkt ∈ s.process.held := by simp [hpc, Process.held]
      obtain ⟨n, -, rfl⟩ := i.node hheld
      simp [sizeofListHead]
    rw [processThread, hpc]
    simp only [if_neg hnz]
    split <;> simp [State.rank, hpc, Process.rank]
  case running pkt => simp [processThread, State.rank, hpc, Process.rank]
  case put pkt     => simp [processThread, State.rank, hpc, Process.rank]

-- Where the rank is zero, the queue is empty and `process_thread` is blocked.
theorem rank_eq_zero (i : Inv nodes s rc pr free used queued) (h : s.rank = 0) :
    queued = [] ∧ ∃ pkt, s.process = .wait false pkt := by
  have hnum : s.queue.num = queued.length := i.chain.num
  rw [State.rank, Nat.add_eq_zero_iff] at h
  refine ⟨List.eq_nil_of_length_eq_zero (by omega), ?_⟩
  cases hpc : s.process
  case wait signalled pkt =>
    cases signalled
    case false => exact ⟨pkt, rfl⟩
    case true  => simp [hpc, Process.rank] at h
  all_goals simp [hpc, Process.rank] at h

-- The threads are not blocked both: a buffer that is not on the free list is in the queue, or at a thread.
theorem Awake.not_both (w : Awake s) (i : Inv nodes s rc pr free used queued) (hnodes : nodes ≠ [])
    (h : s.netrecv = .wait false) (pkt : Nat) : s.process ≠ .wait false pkt := by
  intro hpc
  have hfree : free = [] := i.lists.listEmpty_iff.mp (w.netrecv h)
  have hnum : s.queue.num = queued.length := i.chain.num
  have hqueued : queued = [] := by
    rw [w.process pkt hpc] at hnum
    exact List.eq_nil_of_length_eq_zero (by omega)
  subst hfree hqueued
  have hused : used = [] := by
    have hheld := i.held
    rw [h, hpc] at hheld
    simpa [Netrecv.held, Process.held] using hheld.symm
  subst hused
  exact hnodes (List.nil_perm.mp i.perm)

-- `process_thread` writes to no packet, and receives nothing.
theorem processThread_frame (s : State) :
    (processThread s).1.packets = s.packets ∧ (processThread s).1.netrecv.ready = s.netrecv.ready ∧
      (processThread s).2.receivedArgs = [] := by
  have hget (pkt : Nat) : (getPkt s pkt).1.packets = s.packets ∧ (getPkt s pkt).1.netrecv = s.netrecv ∧
      (getPkt s pkt).2.receivedArgs = [] := by
    rw [getPkt]
    split <;> exact ⟨rfl, rfl, rfl⟩
  rw [processThread]
  split
  case h_1 pkt _   => exact ⟨(hget pkt).left, congrArg _ (hget pkt).right.left, (hget pkt).right.right⟩
  case h_2 pkt _   => exact ⟨(hget pkt).left, congrArg _ (hget pkt).right.left, (hget pkt).right.right⟩
  case h_3 pkt _   => split_ifs <;> exact ⟨rfl, rfl, rfl⟩
  case h_4         => exact ⟨rfl, rfl, rfl⟩
  case h_5 pkt _   =>
    refine ⟨rfl, ?_, rfl⟩
    simp only
    split
    case isTrue  => exact s.netrecv.ready_signal
    case isFalse => rfl

-- What `process_thread` keeps while it works off the queue.
structure Draining (nodes : List Nat) (s : State) (rc pr : List Args) (tr : List (Action × Event))
    (s' : State) : Prop where
  actions : ∀ e ∈ tr, e.1 = .process
  ready   : s'.netrecv.ready = s.netrecv.ready
  packets : s'.packets = s.packets
  awake   : Awake s'
  inv     : ∃ free used queued, Inv nodes s' rc (pr ++ processed tr) free used queued

theorem Draining.step {tr : List (Action × Event)} (d : Draining nodes s rc pr tr s') (target : Target)
    (spill : PacketInfo → Bytes → PacketInfo) (h : s'.rank ≠ 0) :
    Quiet s' .process ∧ (processThread s').1.rank < s'.rank ∧
      Draining nodes s rc pr (tr ++ [(.process, (processThread s').2)]) (processThread s').1 := by
  obtain ⟨free, used, queued, i⟩ := d.inv
  obtain ⟨hpackets, hready, hreceived⟩ := processThread_frame s'
  have hserved : Served s' .process := trivial
  have hstep : pipeline target spill s' .process = some ((processThread s').1, (processThread s').2) := rfl
  obtain ⟨free', used', queued', i'⟩ : ∃ free used queued, Inv nodes (processThread s').1
      (rc ++ (processThread s').2.receivedArgs) (pr ++ processed tr ++ (processThread s').2.processedArgs)
      free used queued :=
    (i.step hserved hstep).left
  have hquiet : Quiet s' .process := by
    intro pkt hpc
    have hnum := d.awake.process pkt hpc
    exact h (by simp [State.rank, hpc, hnum, Process.rank])
  refine ⟨hquiet, processThread_rank d.awake i h, ?_, hready.trans d.ready, hpackets.trans d.packets,
    d.awake.process_step i, free', used', queued', ?_⟩
  · exact List.forall_mem_append.mpr ⟨d.actions, by simp⟩
  · rw [hreceived, List.append_nil, List.append_assoc] at i'
    rwa [processed, List.flatMap_append, List.flatMap_singleton]

variable {mem num : Nat} {links : Heap} {pool : MemPool} {heap : Nat → Option (MyList Nat)}
  {packets : Nat → Packet} {tr : List (Action × Event)}

-- In every state that the threads reach, one of them may go on. `process_thread` alone then works off
-- the queue, in four steps for each packet, and lets `netrecv_thread` go on. Of what was received, only
-- a packet that was not put yet is then still to be processed.
theorem pipeline_drains (hmem : mem ≠ 0)
    (hp : MemPool.memPoolCreate mem links num sizeofPacket = some pool)
    (st : (pipeline target spill).Steps Served (start pool heap packets) tr s) :
    (∀ pkt, s.process = .wait false pkt → s.queue.num = 0 ∧ s.netrecv ≠ .wait false) ∧
      ∃ tr' s', (pipeline target spill).Steps Quiet s tr' s' ∧ (∀ e ∈ tr', e.1 = .process) ∧
        tr'.length ≤ 4 * s.queue.num.toNat + 4 ∧
        (∃ pkt, s'.process = .wait false pkt) ∧ s'.netrecv ≠ .wait false ∧
        processed (tr ++ tr') ++ wanted (s.netrecv.ready.map fun pkt => (s.packets pkt).args) =
          wanted (received tr) := by
  have hnodes : MemPool.nodes mem num sizeofPacket ≠ [] := by
    have hnum : num ≠ 0 := by
      rintro rfl
      simp [MemPool.memPoolCreate] at hp
    simpa [MemPool.nodes] using hnum
  obtain ⟨⟨free, used, queued, i⟩, w⟩ :
      (∃ free used queued, Inv (MemPool.nodes mem num sizeofPacket) s (received tr) (processed tr)
        free used queued) ∧ Awake s := by
    refine st.invariant (fun tr s =>
      (∃ free used queued, Inv (MemPool.nodes mem num sizeofPacket) s (received tr) (processed tr)
        free used queued) ∧ Awake s)
      ⟨⟨_, _, _, .start hmem hp heap packets⟩, start_awake pool heap packets⟩ ?_
    rintro tr s a s' e ⟨⟨_, _, _, i⟩, w⟩ hq h
    exact ⟨by simpa [received, processed] using (i.step hq h).left, w.step i hq h⟩
  refine ⟨fun pkt hpc => ⟨w.process pkt hpc, fun h => w.not_both i hnodes h pkt hpc⟩, ?_⟩
  have hdrain : Draining (MemPool.nodes mem num sizeofPacket) s (received tr) (processed tr) [] s :=
    ⟨List.forall_mem_nil _, rfl, rfl, w, free, used, queued, by simpa [processed] using i⟩
  obtain ⟨tr', s', e, hlen, hzero, d⟩ := Machine.Steps.exhaust (m := pipeline target spill) (P := Quiet)
    (fun tr' s' => Draining (MemPool.nodes mem num sizeofPacket) s (received tr) (processed tr) tr' s')
    State.rank (fun d h => by
      obtain ⟨hquiet, hlt, d'⟩ := d.step target spill h
      exact ⟨.process, _, _, hquiet, rfl, d', hlt⟩) hdrain
  obtain ⟨free', used', queued', i'⟩ := d.inv
  obtain ⟨rfl, pkt, hpc⟩ := rank_eq_zero i' hzero
  refine ⟨tr', s', e, d.actions, hlen.trans ?_, ⟨pkt, hpc⟩, fun h => d.awake.not_both i' hnodes h pkt hpc, ?_⟩
  · refine Nat.add_le_add_left ?_ _
    cases s.process <;> simp [Process.rank]
    split <;> decide
  · have hcontent := i'.content
    rw [State.inFlight, hpc, d.ready, d.packets] at hcontent
    rwa [processed, List.flatMap_append]

-- `netrecv_thread` waits for the only buffer, which is in the queue.
theorem pipeline_drains_one_buffer :
    ∃ tr s, (pipeline sampleTarget fun info _ => info).Steps Served (start onePool (fun _ => none) fun _ =>
        clearPacket) tr s ∧ s.netrecv = .wait false ∧
      ∃ tr' s', (pipeline sampleTarget fun info _ => info).Steps Quiet s tr' s' ∧ s'.netrecv ≠ .wait false ∧
        processed (tr ++ tr') ++ wanted (s.netrecv.ready.map fun pkt => (s.packets pkt).args) =
          wanted (received tr) := by
  have hp : MemPool.memPoolCreate 0x1000 ⟨id, id⟩ 1 sizeofPacket = some onePool := rfl
  have st := Machine.Steps.refl (m := pipeline sampleTarget fun info _ => info) (P := Served)
      (s := start onePool (fun _ => none) fun _ => clearPacket)
    |>.snoc (i := .netrecv none none) (by exact ⟨nofun, nofun⟩) rfl
    |>.snoc (i := .netrecv (some dataFrame) none) (by exact ⟨nofun, nofun⟩) rfl
    |>.snoc (i := .netrecv none (some 0x10)) (by exact ⟨nofun, nofun⟩) rfl
    |>.snoc (i := .netrecv none none) (by exact ⟨nofun, nofun⟩) rfl
  obtain ⟨tr', s', e, -, -, -, hnetrecv, hcontent⟩ := (pipeline_drains (by decide) hp st).right
  exact ⟨_, _, st, rfl, tr', s', e, hnetrecv, hcontent⟩

end Pipeline
