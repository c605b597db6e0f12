import TnsParser.Network.Slice
import TnsParser.Pipeline.Basic

open ListHead

namespace Pipeline

-- The buffers that a thread has.

def Netrecv.held : Netrecv → List Nat
  | .recv pkt | .put pkt => [pkt]
  | .get | .wait _       => []

def Process.held : Process → List Nat
  | .check pkt | .running pkt | .put pkt => [pkt]
  | .get _ | .wait _ _                   => []

-- Those of them that hold a packet which is still to be processed.

def Netrecv.ready : Netrecv → List Nat
  | .put pkt                  => [pkt]
  | .get | .wait _ | .recv _  => []

def Process.unchecked : Process → List Nat
  | .check pkt                                  => [pkt]
  | .get _ | .wait _ _ | .running _ | .put _    => []

-- The buffers with packets that are still to be processed, in the order of their reception.
def State.inFlight (s : State) (queued : List (Nat × Nat)) : List Nat :=
  s.process.unchecked ++ queued.map (·.2) ++ s.netrecv.ready

-- The packets that are to be handed to `mainprocess`.
def wanted (l : List Args) : List Args :=
  l.filter (·.len ≠ 0)

-- `pthread_cond_wait` returns after a signal only, `malloc` succeeds, and nobody calls
-- `list_queue_abort`.
def Quiet (s : State) : Action → Prop
  | .netrecv _ ml => s.netrecv ≠ .wait false ∧ ∀ pkt, s.netrecv = .put pkt → ml ≠ none
  | .process      => ∀ pkt, s.process ≠ .wait false pkt
  | .abort        => False

-- A wait ends with a free node only, `malloc` succeeds, and nobody calls `list_queue_abort`.
def Served (s : State) : Action → Prop
  | .netrecv _ ml =>
    (s.netrecv = .wait false → ¬listEmpty s.pool.links s.pool.free) ∧
      ∀ pkt, s.netrecv = .put pkt → ml ≠ none
  | .process      => True
  | .abort        => False

theorem Quiet.served {s : State} {a : Action} (h : Quiet s a) : Served s a := by
  cases a
  case netrecv => exact ⟨fun hw => absurd hw h.left, h.right⟩
  case process => trivial
  case abort   => exact h

-- The invariant: `free` and `used` are the nodes on the lists of the pool, `queued` those of the queue;
-- `rc` was received and `pr` processed so far.
structure Inv (nodes : List Nat) (s : State) (rc pr : List Args) (free used : List Nat)
    (queued : List (Nat × Nat)) : Prop where
  lists     : s.pool.Lists free used
  mem       : s.pool.mem ≠ 0
  above     : ∀ n ∈ nodes, s.pool.mem < n
  perm      : (free ++ used).Perm nodes
  chain     : s.queue.Chain queued
  abort     : s.queue.abortRequest = false
  held      : (s.netrecv.held ++ queued.map (·.2) ++ s.process.held).Perm
    (used.map (· + sizeofListHead))
  signalled : s.netrecv = .wait true → free ≠ []
  pushed    : ∀ pkt ∈ s.inFlight queued, (s.packets pkt).action = .push
  content   : pr ++ wanted ((s.inFlight queued).map fun pkt => (s.packets pkt).args) = wanted rc
  running   : ∀ pkt, s.process = .running pkt → pr.getLast? = some (s.packets pkt).args

theorem Process.unchecked_subset (pc : Process) : pc.unchecked ⊆ pc.held := by
  cases pc <;> simp [unchecked, held]

theorem wanted_append (l l' : List Args) : wanted (l ++ l') = wanted l ++ wanted l' :=
  List.filter_append ..

theorem wanted_cons_of_ne {args : Args} {l : List Args} (h : args.len ≠ 0) :
    wanted (args :: l) = args :: wanted l :=
  List.filter_cons_of_pos <| by simpa using h

theorem wanted_cons_of_empty {args : Args} {l : List Args} (h : args.len = 0) :
    wanted (args :: l) = wanted l :=
  List.filter_cons_of_neg <| by simpa using h

@[simp]
theorem Netrecv.held_signal (pc : Netrecv) : pc.signal.held = pc.held := by
  cases pc <;> rfl

@[simp]
theorem Netrecv.ready_signal (pc : Netrecv) : pc.signal.ready = pc.ready := by
  cases pc <;> rfl

@[simp]
theorem Process.held_signal (pc : Process) : pc.signal.held = pc.held := by
  cases pc <;> rfl

@[simp]
theorem Process.unchecked_signal (pc : Process) : pc.signal.unchecked = pc.unchecked := by
  cases pc <;> rfl

theorem Process.signal_eq_running {pc : Process} {pkt : Nat} (h : pc.signal = .running pkt) :
    pc = .running pkt := by
  cases pc <;> simp_all [signal]

namespace Inv

variable {nodes free used : List Nat} {s : State} {rc pr : List Args} {queued : List (Nat × Nat)}
  {pkt x : Nat} {target : Target} {spill : PacketInfo → Bytes → PacketInfo} {frame : Option Frame}
  {ml : Option Nat}

-- No buffer is in two places.
theorem nodup (i : Inv nodes s rc pr free used queued) :
    (s.netrecv.held ++ queued.map (·.2) ++ s.process.held).Nodup := by
  rw [i.held.nodup_iff]
  refine List.Nodup.map (fun _ _ => Nat.add_right_cancel) ?_
  have := i.lists.nodup
  grind

-- A node of the pool is taken by `netrecv_thread`.
theorem take (i : Inv nodes s rc pr (x :: free) used queued) (hheld : s.netrecv.held = [])
    (hready : s.netrecv.ready = []) :
    ∃ pool, s.pool.memPoolTake = (pool, x + sizeofListHead) ∧
      Inv nodes { s with pool, netrecv := .recv (x + sizeofListHead) } rc pr free (x :: used)
        queued := by
  have ⟨pool, hp, hm, hl⟩ := i.lists.memPoolTake
  have hf : State.inFlight { s with pool, netrecv := .recv (x + sizeofListHead) } queued =
      s.inFlight queued := by
    rw [State.inFlight, State.inFlight, hready]
    rfl
  refine ⟨pool, hp, { i with
    lists := hl, mem := hm ▸ i.mem, above := hm ▸ i.above, perm := ?perm, held := ?held,
    signalled := nofun, pushed := hf ▸ i.pushed, content := hf ▸ i.content }⟩
  case perm => exact List.perm_middle.trans i.perm
  case held => exact (hheld ▸ i.held).cons _

theorem get (i : Inv nodes s rc pr free used queued) (hpc : s.netrecv = .get) (target : Target)
    (spill : PacketInfo → Bytes → PacketInfo) (frame : Option Frame) (ml : Option Nat) :
    ∃ s' free used, netrecvThread target spill s frame ml = some (s', .internal) ∧
      Inv nodes s' rc pr free used queued := by
  by_cases he : listEmpty s.pool.links s.pool.free
  case pos =>
    refine ⟨{ s with netrecv := .wait false }, free, used, ?_, ?_⟩
    · simp [netrecvThread, hpc, MemPool.memPoolGet, he]
    · cases s
      cases hpc
      exact { i with signalled := nofun }
  case neg =>
    cases free
    case nil => exact absurd (i.lists.listEmpty_iff.mpr rfl) he
    case cons x free =>
      have ⟨pool, hp, i'⟩ := i.take (hpc ▸ rfl) (hpc ▸ rfl)
      exact ⟨_, _, _, by simp [netrecvThread, hpc, MemPool.memPoolGet, he, hp], i'⟩

-- A thread that was signalled finds a free node.
theorem wake {signalled : Bool} (i : Inv nodes s rc pr free used queued)
    (hpc : s.netrecv = .wait signalled)
    (hw : s.netrecv = .wait false → ¬listEmpty s.pool.links s.pool.free) (target : Target)
    (spill : PacketInfo → Bytes → PacketInfo) (frame : Option Frame) (ml : Option Nat) :
    ∃ s' free used, netrecvThread target spill s frame ml = some (s', .internal) ∧
      Inv nodes s' rc pr free used queued := by
  cases free
  case nil =>
    cases signalled
    case false => exact absurd (i.lists.listEmpty_iff.mpr rfl) (hw hpc)
    case true  => exact absurd rfl (i.signalled hpc)
  case cons x free =>
    have ⟨pool, hp, i'⟩ := i.take (hpc ▸ rfl) (hpc ▸ rfl)
    exact ⟨_, _, _, by simp [netrecvThread, hpc, hp], i'⟩

-- The buffer of `netrecv_thread` may be written to: it is no packet in flight, and not the one that is
-- processed.
theorem write (i : Inv nodes s rc pr free used queued) (buf : Packet) (hpc : s.netrecv = .recv pkt) :
    Inv nodes { s with packets := Function.update s.packets pkt buf } rc pr free used queued := by
  have hnd : (pkt :: (queued.map (·.2) ++ s.process.held)).Nodup := by
    have := i.nodup
    rwa [hpc] at this
  have hothers := List.nodup_cons.mp hnd |>.left
  have hsame : ∀ p ∈ queued.map (·.2) ++ s.process.held,
      Function.update s.packets pkt buf p = s.packets p := fun p hp =>
    Function.update_of_ne (by rintro rfl; exact hothers hp) ..
  have hflight : ∀ p ∈ s.inFlight queued, Function.update s.packets pkt buf p = s.packets p := by
    intro p hp
    refine hsame p ?_
    simp only [State.inFlight, hpc, List.mem_append] at hp ⊢
    rcases hp with (hp | hp) | hp
    · exact .inr <| s.process.unchecked_subset hp
    · exact .inl hp
    · cases hp
  refine { i with pushed := ?pushed, content := ?content, running := ?running }
  case pushed  => exact fun p hp => congrArg (·.action) (hflight p hp) |>.trans <| i.pushed p hp
  case content =>
    rw [← i.content]
    refine congrArg (fun l => pr ++ wanted l) <| List.map_congr_left fun p hp => ?_
    exact congrArg Packet.args (hflight p hp)
  case running =>
    intro p hp
    have hp' : s.process = .running p := hp
    have := hsame p (by simp [hp', Process.held])
    exact i.running p hp |>.trans <| congrArg (some ∘ Packet.args) this.symm

-- A packet that was received is the last one in flight.
theorem received (i : Inv nodes s rc pr free used queued) (hpc : s.netrecv = .recv pkt)
    (hpush : (s.packets pkt).action = .push) :
    Inv nodes { s with netrecv := .put pkt } (rc ++ [(s.packets pkt).args]) pr free used queued := by
  have hf : State.inFlight { s with netrecv := .put pkt } queued = s.inFlight queued ++ [pkt] := by
    simp [State.inFlight, hpc, Netrecv.ready]
  refine { i with held := ?held, signalled := nofun, pushed := ?pushed, content := ?content }
  case held    =>
    have hheld := i.held
    rw [hpc] at hheld
    exact hheld
  case pushed  =>
    rw [hf]
    exact List.forall_mem_append.mpr ⟨i.pushed, by simpa using hpush⟩
  case content =>
    rw [hf, List.map_append, wanted_append, wanted_append, ← List.append_assoc]
    exact congrArg (· ++ wanted [(s.packets pkt).args]) i.content

theorem recv (i : Inv nodes s rc pr free used queued) (hpc : s.netrecv = .recv pkt)
    (target : Target) (spill : PacketInfo → Bytes → PacketInfo) (frame : Option Frame)
    (ml : Option Nat) :
    ∃ s' e, netrecvThread target spill s frame ml = some (s', e) ∧ e.processedArgs = [] ∧
      e ≠ .fault ∧ Inv nodes s' (rc ++ e.receivedArgs) pr free used queued := by
  rcases hr : ethRecv target spill (s.packets pkt) frame with ⟨buf, ret⟩
  have i' := i.write buf hpc
  by_cases hret : ret = 0
  case pos =>
    subst hret
    refine ⟨{ s with packets := Function.update s.packets pkt buf, netrecv := .put pkt },
      .received buf.args, by simp [netrecvThread, hpc, hr], rfl, nofun, ?_⟩
    simpa [Event.receivedArgs] using i'.received hpc (by simpa using ethRecv_action hr)
  case neg =>
    refine ⟨{ s with packets := Function.update s.packets pkt buf }, .internal,
      by simp [netrecvThread, hpc, hr, hret], rfl, nofun, ?_⟩
    simpa [Event.receivedArgs] using i'

-- The packet that `netrecv_thread` puts is the last one of the queue.
theorem put (i : Inv nodes s rc pr free used queued) (hpc : s.netrecv = .put pkt) {ml : Nat}
    (hm : s.queue.Fresh (some ml)) (target : Target) (spill : PacketInfo → Bytes → PacketInfo)
    (frame : Option Frame) : ∃ s' queued,
      netrecvThread target spill s frame (some ml) = some (s', .internal) ∧
        Inv nodes s' rc pr free used queued := by
  have ⟨hz, hn⟩ := hm ml rfl
  have ⟨q, hput, hchain, habort⟩ := i.chain.put i.abort hz (by simpa using hn) pkt
  refine ⟨{ s with queue := q, process := s.process.signal, netrecv := .get }, queued ++ [(ml, pkt)],
    by simp [netrecvThread, hpc, hm, hput], ?_⟩
  have hf : State.inFlight { s with queue := q, process := s.process.signal, netrecv := .get }
      (queued ++ [(ml, pkt)]) = s.inFlight queued := by
    simp [State.inFlight, hpc, Netrecv.ready]
  refine { i with
    chain := hchain, abort := habort, held := ?held, signalled := nofun, pushed := hf ▸ i.pushed,
    content := hf ▸ i.content, running := ?running }
  case held    =>
    refine .trans ?_ i.held
    simp only [hpc, Netrecv.held, Process.held_signal, List.map_append, List.nil_append]
    exact (List.perm_append_comm).append_right _
  case running => exact fun p hp => i.running p <| Process.signal_eq_running hp

-- `process_thread` is given the first packet of the queue, or waits.
theorem getPkt (i : Inv nodes s rc pr free used queued) (hheld : s.process.held = [])
    (hunchecked : s.process.unchecked = []) (pkt : Nat) :
    ∃ s' queued, Pipeline.getPkt s pkt = (s', .internal) ∧ Inv nodes s' rc pr free used queued := by
  cases queued
  case nil =>
    refine ⟨{ s with process := .wait false pkt }, [], ?_, ?_⟩
    · simp [Pipeline.getPkt, i.chain.get_nil i.abort]
    · have hf : State.inFlight { s with process := .wait false pkt } [] = s.inFlight [] := by
        rw [State.inFlight, State.inFlight, hunchecked]
        rfl
      refine { i with held := ?held, pushed := hf ▸ i.pushed, content := hf ▸ i.content, running := nofun }
      case held =>
        have hperm := i.held
        rw [hheld] at hperm
        exact hperm
  case cons x queued =>
    have ⟨q, hget, hchain, habort⟩ := i.chain.get_cons i.abort pkt true
    refine ⟨{ s with queue := q, process := .check x.2 }, queued, by simp [Pipeline.getPkt, hget], ?_⟩
    have hf : State.inFlight { s with queue := q, process := .check x.2 } queued =
        s.inFlight (x :: queued) := by
      rw [State.inFlight, State.inFlight, hunchecked]
      rfl
    refine { i with
      chain := hchain, abort := habort, held := ?held, pushed := hf ▸ i.pushed,
      content := hf ▸ i.content, running := nofun }
    case held =>
      have hperm := i.held
      rw [hheld, List.append_nil] at hperm
      refine .trans ?_ hperm
      simp only [Process.held, List.map_cons, List.append_assoc]
      exact (List.perm_append_singleton x.2 _).append_left _

-- A buffer that `process_thread` has belongs to a node that is in use.
theorem node (i : Inv nodes s rc pr free used queued) (hpkt : pkt ∈ s.process.held) :
    ∃ n ∈ used, pkt = n + sizeofListHead := by
  have hm := i.held.subset (List.mem_append_right _ hpkt)
  have ⟨n, hn, h⟩ := List.mem_map.mp hm
  exact ⟨n, hn, h.symm⟩

theorem check (i : Inv nodes s rc pr free used queued) (hpc : s.process = .check pkt) :
    ∃ s' e, processThread s = (s', e) ∧ e.receivedArgs = [] ∧ e ≠ .fault ∧
      Inv nodes s' rc (pr ++ e.processedArgs) free used queued := by
  have hmem : pkt ∈ s.process.held := by simp [hpc, Process.held]
  obtain ⟨n, _, hn⟩ := i.node hmem
  have hnz : pkt ≠ 0 := by simp [hn, sizeofListHead]
  have hf : s.inFlight queued = pkt :: (queued.map (·.2) ++ s.netrecv.ready) := by
    simp [State.inFlight, hpc, Process.unchecked]
  have hheld := i.held
  have hpushed := i.pushed
  have hcontent := i.content
  rw [hpc] at hheld
  rw [hf] at hpushed hcontent
  obtain ⟨hpush, hpushed⟩ := List.forall_mem_cons.mp hpushed
  by_cases hlen : (s.packets pkt).len = 0
  case pos =>
    rw [List.map_cons, wanted_cons_of_empty hlen] at hcontent
    refine ⟨{ s with process := .put pkt }, .internal, ?_, rfl, by simp, ?_⟩
    · simp [processThread, hpc, hnz, hlen]
    · rw [Event.processedArgs, List.append_nil]
      exact { i with held := hheld, pushed := hpushed, content := hcontent, running := by rintro _ ⟨⟩ }
  case neg =>
    rw [List.map_cons, wanted_cons_of_ne hlen] at hcontent
    refine ⟨{ s with process := .running pkt }, .processed (s.packets pkt).args, ?_, rfl, by simp, ?_⟩
    · simp [processThread, hpc, hnz, hlen, hpush]
    · refine { i with held := hheld, pushed := hpushed, content := ?content, running := ?running }
      case content => exact (List.append_assoc ..).trans hcontent
      case running =>
        rintro _ ⟨⟩
        exact List.getLast?_concat

theorem finish (i : Inv nodes s rc pr free used queued) (hpc : s.process = .running pkt) :
    Inv nodes { s with process := .put pkt } rc pr free used queued := by
  cases s
  cases hpc
  exact { i with running := nofun }

-- The node of the packet is free again.
theorem putBack (i : Inv nodes s rc pr free used queued) (hpc : s.process = .put pkt) :
    ∃ s' free used, processThread s = (s', .internal) ∧ Inv nodes s' rc pr free used queued := by
  have hmem : pkt ∈ s.process.held := by simp [hpc, Process.held]
  have ⟨n, hused, hn⟩ := i.node hmem
  have ⟨ys, zs, hused⟩ := List.append_of_mem hused
  subst hn hused
  have hnz : ∀ y ∈ ys, y ≠ 0 := fun y hy =>
    Nat.ne_zero_of_lt <| i.above y <| i.perm.subset (by simp [hy])
  have ⟨pool, hput, hm, hl⟩ := i.lists.memPoolPut i.mem hnz
  let netrecv := if s.pool.memPoolPutSignals (n + sizeofListHead) then s.netrecv.signal else s.netrecv
  refine ⟨{ s with pool, netrecv, process := .get (n + sizeofListHead) }, n :: free, ys ++ zs,
    by simp [processThread, hpc, hput, netrecv], ?_⟩
  have hheld : netrecv.held = s.netrecv.held := by simp only [netrecv]; split <;> simp
  have hready : netrecv.ready = s.netrecv.ready := by simp only [netrecv]; split <;> simp
  have hf : State.inFlight { s with pool, netrecv, process := .get (n + sizeofListHead) } queued =
      s.inFlight queued := by
    rw [State.inFlight, State.inFlight, hready, hpc]
    rfl
  refine { i with
    lists := hl, mem := hm ▸ i.mem, above := hm ▸ i.above, perm := ?perm, held := ?held,
    signalled := nofun, pushed := hf ▸ i.pushed, content := hf ▸ i.content, running := nofun }
  case perm =>
    refine .trans ?_ i.perm
    simpa using (@List.perm_middle _ n (free ++ ys) zs).symm
  case held =>
    have hperm := i.held
    simp only [hpc, Process.held, List.map_append, List.map_cons] at hperm
    simp only [hheld, Process.held, List.append_nil, List.map_append]
    have := List.perm_append_singleton _ _ |>.symm.trans <| hperm.trans List.perm_middle
    exact this.cons_inv

-- A step of a thread.
theorem step {a : Action} {s' : State} {e : Event} (i : Inv nodes s rc pr free used queued)
    (hq : Served s a) (h : pipeline target spill s a = some (s', e)) :
    (∃ free used queued,
      Inv nodes s' (rc ++ e.receivedArgs) (pr ++ e.processedArgs) free used queued) ∧ e ≠ .fault := by
  -- A step without an event that counts.
  have internal {s₁ : State} {free used : List Nat} {queued : List (Nat × Nat)}
      (hs : pipeline target spill s a = some (s₁, .internal))
      (i' : Inv nodes s₁ rc pr free used queued) :
      (∃ free used queued,
        Inv nodes s' (rc ++ e.receivedArgs) (pr ++ e.processedArgs) free used queued) ∧ e ≠ .fault := by
    cases hs.symm.trans h
    exact ⟨⟨free, used, queued, by simpa [Event.receivedArgs, Event.processedArgs] using i'⟩, nofun⟩
  cases a
  case netrecv frame ml =>
    cases hpc : s.netrecv
    case get =>
      have ⟨s₁, _, _, hs, i'⟩ := i.get hpc target spill frame ml
      exact internal hs i'
    case wait sig =>
      have ⟨s₁, _, _, hs, i'⟩ := i.wake hpc hq.left target spill frame ml
      exact internal hs i'
    case recv pkt =>
      have ⟨s₁, e₁, hs, hpr, hne, i'⟩ :=
        i.recv hpc target spill frame ml
      cases hs.symm.trans h
      exact ⟨⟨_, _, _, by simpa [hpr] using i'⟩, hne⟩
    case put pkt =>
      have ⟨ml, hml⟩ := Option.ne_none_iff_exists'.mp <| hq.right pkt hpc
      subst hml
      have hm : s.queue.Fresh (some ml) := by
        by_contra hm
        simp [pipeline, netrecvThread, hpc, hm] at h
      have ⟨s₁, _, hs, i'⟩ := i.put hpc hm target spill frame
      exact internal hs i'
  case process =>
    cases hpc : s.process
    case get pkt =>
      have ⟨s₁, _, hs, i'⟩ := i.getPkt (hpc ▸ rfl) (hpc ▸ rfl) pkt
      exact internal (by simp [pipeline, processThread, hpc, hs]) i'
    case wait sig pkt =>
      have ⟨s₁, _, hs, i'⟩ := i.getPkt (hpc ▸ rfl) (hpc ▸ rfl) pkt
      exact internal (by simp [pipeline, processThread, hpc, hs]) i'
    case check pkt =>
      have ⟨s₁, e₁, hs, hrc, hne, i'⟩ := i.check hpc
      cases (congrArg some hs).symm.trans h
      exact ⟨⟨_, _, _, by simpa [hrc] using i'⟩, hne⟩
    case running pkt =>
      exact internal (by simp [pipeline, processThread, hpc]) (i.finish hpc)
    case put pkt =>
      have ⟨s₁, _, _, hs, i'⟩ := i.putBack hpc
      exact internal (congrArg some hs) i'
  case abort => exact hq.elim

theorem start {mem num size : Nat} {links : Heap} {pool : MemPool} (hmem : mem ≠ 0)
    (hp : MemPool.memPoolCreate mem links num size = some pool) (heap : Nat → Option (MyList Nat))
    (packets : Nat → Packet) :
    Inv (MemPool.nodes mem num size) (Pipeline.start pool heap packets) [] []
      (MemPool.nodes mem num size).reverse [] [] := by
  have ⟨hm, hl⟩ := MemPool.memPoolCreate_lists hp
  exact {
    lists     := hl
    mem       := hm ▸ hmem
    above     := fun n hn =>
      hm ▸ Nat.lt_of_le_of_lt (Nat.le_add_right _ _) (MemPool.lt_of_mem_nodes hn)
    perm      := by simp [List.reverse_perm]
    chain     := .nil rfl rfl rfl
    abort     := rfl
    held      := .nil
    signalled := nofun
    pushed    := nofun
    content   := rfl
    running   := nofun
  }

end Inv

-- Every buffer is in exactly one place.
def Placed (buffers : List Nat) (s : State) : Prop :=
  ∃ free used queued, s.pool.Lists free used ∧ s.queue.Chain queued ∧
    (free.map (· + sizeofListHead) ++ s.netrecv.held ++ queued.map (·.2) ++ s.process.held).Nodup ∧
    (free.map (· + sizeofListHead) ++ s.netrecv.held ++ queued.map (·.2) ++ s.process.held).Perm buffers

-- The buffers of a pool lie behind the headers of its nodes.
def buffers (mem num size : Nat) : List Nat :=
  MemPool.nodes mem num size |>.map (· + sizeofListHead)

variable {mem num : Nat} {links : Heap} {pool : MemPool} {heap : Nat → Option (MyList Nat)}
  {packets : Nat → Packet} {target : Target} {spill : PacketInfo → Bytes → PacketInfo} {s : State}
  {tr : List (Action × Event)}

theorem Inv.placed {size : Nat} {rc pr : List Args} {free used : List Nat} {queued : List (Nat × Nat)}
    (i : Inv (MemPool.nodes mem num size) s rc pr free used queued) : Placed (buffers mem num size) s := by
  have hperm : (free.map (· + sizeofListHead) ++ s.netrecv.held ++ queued.map (·.2) ++
      s.process.held).Perm (buffers mem num size) := by
    refine .trans ?_ (i.perm.map (· + sizeofListHead))
    simpa using i.held.append_left (free.map (· + sizeofListHead))
  have hnodup : (buffers mem num size).Nodup :=
    List.Nodup.map (fun _ _ => Nat.add_right_cancel) (MemPool.nodes_nodup mem num size)
  exact ⟨free, used, queued, i.lists, i.chain, hperm.nodup_iff.mpr hnodup, hperm⟩

-- In every run of the two threads, every buffer is in one place. What `mainprocess` was called with is,
-- in order, what was received, except for the packets without data. The packet that is being processed
-- does not change meanwhile.
theorem pipeline_intact (hmem : mem ≠ 0)
    (hp : MemPool.memPoolCreate mem links num sizeofPacket = some pool)
    (st : (pipeline target spill).Steps Quiet (start pool heap packets) tr s) :
    Placed (buffers mem num sizeofPacket) s ∧ processed tr <+: wanted (received tr) ∧
      (∀ pkt, s.process = .running pkt → (processed tr).getLast? = some (s.packets pkt).args) ∧
      ∀ e ∈ tr, e.2 ≠ .fault := by
  have ⟨⟨free, used, queued, i⟩, hfault⟩ :
      (∃ free used queued, Inv (MemPool.nodes mem num sizeofPacket) s (received tr) (processed tr)
        free used queued) ∧ ∀ e ∈ tr, e.2 ≠ .fault := by
    refine st.invariant (fun tr s =>
      (∃ free used queued, Inv (MemPool.nodes mem num sizeofPacket) s (received tr) (processed tr)
        free used queued) ∧ ∀ e ∈ tr, e.2 ≠ .fault) ⟨⟨_, _, _, .start hmem hp heap packets⟩, nofun⟩ ?_
    rintro tr s a s' e ⟨⟨_, _, _, i⟩, hfault⟩ hq h
    have ⟨i', hne⟩ := i.step hq.served h
    refine ⟨by simpa [received, processed] using i', ?_⟩
    exact List.forall_mem_append.mpr ⟨hfault, by simpa using hne⟩
  exact ⟨i.placed, ⟨_, i.content⟩, i.running, hfault⟩

-- A frame with one byte of data.
def dataFrame : Frame :=
  ⟨sampleFrame (0, 41) 1, by decide⟩

-- A pool of one buffer.
def onePool : MemPool :=
  MemPool.memPoolCreate 0x1000 ⟨id, id⟩ 1 sizeofPacket |>.get rfl

-- A packet with one byte goes through the only buffer of a pool, while `netrecv_thread` waits for it.
theorem pipeline_intact_of_one_buffer :
    ∃ (s : State) (tr : List (Action × Event)),
      tr.map (·.1) = [.netrecv none none, .netrecv (some dataFrame) none, .netrecv none (some 0x10),
        .netrecv none none, .process, .process] ∧
      Placed (buffers 0x1000 1 sizeofPacket) s ∧ processed tr <+: wanted (received tr) ∧
      (processed tr).length = 1 := by
  have hp : MemPool.memPoolCreate 0x1000 ⟨id, id⟩ 1 sizeofPacket = some onePool := rfl
  have st := Machine.Steps.refl (m := pipeline sampleTarget fun info _ => info) (P := Quiet)
      (s := start onePool (fun _ => none) fun _ => clearPacket)
    |>.snoc (i := .netrecv none none) (by exact ⟨nofun, nofun⟩) rfl
    |>.snoc (i := .netrecv (some dataFrame) none) (by exact ⟨nofun, nofun⟩) rfl
    |>.snoc (i := .netrecv none (some 0x10)) (by exact ⟨nofun, nofun⟩) rfl
    |>.snoc (i := .netrecv none none) (by exact ⟨nofun, nofun⟩) rfl
    |>.snoc (i := .process) (by exact nofun) rfl
    |>.snoc (i := .process) (by exact nofun) rfl
  have h := pipeline_intact (by decide) hp st
  exact ⟨_, _, rfl, h.left, h.right.left, rfl⟩

end Pipeline
