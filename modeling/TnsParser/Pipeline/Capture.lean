import TnsParser.Network.Frame
import TnsParser.Pipeline.Progress
import TnsParser.Process.Runs
import Mathlib.Data.List.Forall2

-- The whole program: what the device delivers, the two threads, and the sessions.

def Args.arrival (args : Args) (time : UInt64) : Arrival where
  data := args.data
  len  := args.len
  key  := args.key
  dir  := args.dir
  time := time

def Arrival.args (p : Arrival) : Args where
  data := p.data
  len  := p.len
  key  := p.key
  dir  := p.dir

-- What `mainprocess` is called with is what a frame carries.
structure Args.Carries (target : Target) (args : Args) (f : TcpFrame) : Prop where
  len  : args.len = f.payload.length
  data : args.data.take args.len = f.payload
  src  : (args.key.sip, ntohs args.key.sport) = f.src
  dst  : (args.key.dip, ntohs args.key.dport) = f.dst
  dir  : args.dir = if f.src = target.endpoint then .response else .request

open ListHead

namespace Pipeline

-- What the device delivers when it is asked for a frame.
inductive Traffic
  | error
  | tcp (f : TcpFrame)
  | other (frame : Frame)

def Traffic.frame : Traffic → Option Frame
  | error       => none
  | tcp f       => some f.frame
  | other frame => some frame

def Traffic.frames : Traffic → List TcpFrame
  | error   => []
  | tcp f   => [f]
  | other _ => []

-- `log` are the packets that `mainprocess` returned for.
structure Capture where
  threads : State
  arr     : SessArray
  log     : Log

inductive Step
  | netrecv (traffic : Traffic) (ml : Option Nat)
  | process (time : UInt64)

section

variable (cJSONParse : Bytes → Option CJson) (target : Target) (spill : PacketInfo → Bytes → PacketInfo)

-- `mainprocess` finds the packet as it is when the call ends, which other steps may come before. A run ends
-- where `mainprocess` accesses memory that is not its own.
def capture : Machine Capture Step Event
  | s, .netrecv traffic ml =>
    (netrecvThread target spill s.threads traffic.frame ml).map fun r => ({ s with threads := r.1 }, r.2)
  | s, .process time       =>
    let (threads, e) := processThread s.threads
    match s.threads.process with
    | .running pkt =>
      let p := (s.threads.packets pkt).args.arrival time
      match mainprocess cJSONParse s.arr p with
      | .error _     => none
      | .ok (arr, o) => some (⟨threads, arr, s.log ++ [(p, o)]⟩, e)
    | _            => some ({ s with threads }, e)

end

def Capture.start (pool : MemPool) (heap : Nat → Option (MyList Nat)) (packets : Nat → Packet) : Capture where
  threads := Pipeline.start pool heap packets
  arr     := sessInit
  log     := []

-- The device is asked only where `netrecv_thread` reads, and what it delivers is TCP as it should be, or
-- something else with headers that say so.
structure Delivers (s : State) (traffic : Traffic) : Prop where
  asked : traffic ≠ .error → ∃ pkt, s.netrecv = .recv pkt
  other : ∀ frame, traffic = .other frame →
    34 ≤ frame.val.length ∧ frame.val.length ≤ maxPacketSize ∧ ¬IsTcp frame.val

def Regular (s : Capture) : Step → Prop
  | .netrecv traffic ml => Served s.threads (.netrecv traffic.frame ml) ∧ Delivers s.threads traffic
  | .process _          => True

-- The frames that were delivered, and those of them with data from or to the target.

def Step.frames : Step → List TcpFrame
  | .netrecv traffic _ => traffic.frames
  | .process _         => []

def delivered (tr : List (Step × Event)) : List TcpFrame :=
  tr.flatMap (·.1.frames)

def ofTarget (target : Target) (fs : List TcpFrame) : List TcpFrame :=
  fs.filter fun f => f.src = target.endpoint ∨ f.dst = target.endpoint

def withData (fs : List TcpFrame) : List TcpFrame :=
  fs.filter (·.payload ≠ [])

-- Nothing is in the queue, or between the device and the queue, or in `mainprocess`.
structure Idle (s : State) : Prop where
  queue   : s.queue.num = 0
  netrecv : s.netrecv.ready = []
  process : s.process.unchecked = [] ∧ ∀ pkt, s.process ≠ .running pkt

variable {cJSONParse : Bytes → Option CJson} {target : Target} {spill : PacketInfo → Bytes → PacketInfo}
  {s s' : State} {e : Event} {traffic : Traffic} {ml : Option Nat}

theorem ethRecv_traffic (target : Target) (spill : PacketInfo → Bytes → PacketInfo) (pkt : Packet)
    (h : Delivers s traffic) :
    let r := ethRecv target spill pkt traffic.frame
    (r.2 ≠ 0 ∧ ofTarget target traffic.frames = []) ∨
      ∃ f, r.2 = 0 ∧ ofTarget target traffic.frames = [f] ∧ r.1.args.Carries target f := by
  obtain ⟨htcp, hother⟩ := ethRecv_decodes target spill pkt
  cases traffic
  case error       => exact .inl ⟨Int.one_ne_zero, rfl⟩
  case other frame =>
    obtain ⟨hlen, hsize, hnot⟩ := h.other frame rfl
    obtain ⟨pkt', hrecv, -⟩ := hother frame hlen hsize hnot
    refine .inl ⟨?_, rfl⟩
    rw [Traffic.frame, hrecv]
    exact Int.one_ne_zero
  case tcp f =>
    obtain ⟨hiff, hcarries⟩ := htcp f
    by_cases hf : f.src = target.endpoint ∨ f.dst = target.endpoint
    case pos =>
      obtain ⟨hc, hdir⟩ := hcarries (hiff.mpr hf)
      exact .inr ⟨f, hiff.mpr hf, List.filter_cons_of_pos (by simpa using hf),
        ⟨hc.len, hc.data, hc.src, hc.dst, hdir⟩⟩
    case neg =>
      exact .inl ⟨fun hz => hf (hiff.mp hz), List.filter_cons_of_neg (by simpa using hf)⟩

-- What `netrecv_thread` receives are the frames of the target that are delivered.
theorem netrecvThread_receives (h : Delivers s traffic)
    (hs : netrecvThread target spill s traffic.frame ml = some (s', e)) :
    List.Forall₂ (Args.Carries target) e.receivedArgs (ofTarget target traffic.frames) := by
  -- The device is asked in the state `recv` only.
  have hframes (hpc : ∀ pkt, s.netrecv ≠ .recv pkt) : ofTarget target traffic.frames = [] := by
    have herror : traffic = .error := by
      by_contra hne
      obtain ⟨pkt, hrecv⟩ := h.asked hne
      exact hpc pkt hrecv
    rw [herror]
    rfl
  cases netrecvThread_cases hs
  case blocks hpc _ =>
    rw [hframes fun _ hc => by cases hpc.symm.trans hc]
    exact .nil
  case gets hpc =>
    rw [hframes hpc]
    exact .nil
  case drops pkt hpc hret =>
    rcases ethRecv_traffic target spill (s.packets pkt) h with ⟨-, hnone⟩ | ⟨f, hzero, -⟩
    · rw [hnone]
      exact .nil
    · exact absurd hzero hret
  case receives pkt hpc hret =>
    rcases ethRecv_traffic target spill (s.packets pkt) h with ⟨hne, -⟩ | ⟨f, -, hone, hcarries⟩
    · exact absurd hret hne
    · rw [hone]
      exact .cons hcarries .nil
  case faults hpc _ _ =>
    rw [hframes fun _ hc => by cases hpc.symm.trans hc]
    exact .nil
  case puts hpc _ _ =>
    rw [hframes fun _ hc => by cases hpc.symm.trans hc]
    exact .nil

-- Of the packets that `mainprocess` was called with, those that it returned for.
def Process.returned (pr : List Args) : Process → List Args
  | .running _                        => pr.dropLast
  | .get _ | .wait _ _ | .check _ | .put _ => pr

variable {pr : List Args}

theorem Process.returned_signal (pc : Process) : pc.signal.returned pr = pc.returned pr := by
  cases pc <;> rfl

theorem Process.returned_eq {pc : Process} (h : ∀ pkt, pc ≠ .running pkt) : pc.returned pr = pr := by
  cases pc
  case running pkt => exact absurd rfl (h pkt)
  all_goals rfl

theorem Process.returned_prefix (pc : Process) : pc.returned pr <+: pr := by
  cases pc
  case running => exact List.dropLast_prefix pr
  all_goals exact List.prefix_rfl

theorem netrecvThread_returned (pr : List Args)
    (hs : netrecvThread target spill s traffic.frame ml = some (s', e)) :
    e.processedArgs = [] ∧ s'.process.returned pr = s.process.returned pr := by
  cases netrecvThread_cases hs
  case puts pkt queue r _ _ _ =>
    refine ⟨rfl, ?_⟩
    simp only
    split
    case isTrue  => exact s.process.returned_signal
    case isFalse => rfl
  all_goals exact ⟨rfl, rfl⟩

-- A packet that is found at the test is in `mainprocess` afterwards.
theorem processThread_returned (hrun : ∀ pkt, s.process ≠ .running pkt) :
    (processThread s).1.process.returned (pr ++ (processThread s).2.processedArgs) = pr := by
  have hget (pkt : Nat) : (getPkt s pkt).1.process.returned (pr ++ (getPkt s pkt).2.processedArgs) = pr := by
    rw [getPkt]
    split
    case h_1 => exact (Process.returned_eq hrun).trans (List.append_nil pr)
    case h_2 => exact List.append_nil pr
    case h_3 => exact List.append_nil pr
  cases hpc : s.process
  case get pkt =>
    rw [processThread, hpc]
    exact hget pkt
  case wait signalled pkt =>
    rw [processThread, hpc]
    exact hget pkt
  case check pkt =>
    rw [processThread, hpc]
    simp only
    split_ifs
    · simp [hpc, Process.returned, Event.processedArgs]
    · exact List.dropLast_concat
    · exact List.append_nil pr
  case running pkt => exact absurd hpc (hrun pkt)
  case put pkt     =>
    rw [processThread, hpc]
    exact List.append_nil pr

-- The sessions are those that `mainprocess` leaves when it is called for one packet after the other.
def Sequential (cJSONParse : Bytes → Option CJson) (s : Capture) (pr : List Args) : Prop :=
  ∃ ps, processAll cJSONParse ps = .ok (s.arr, s.log) ∧ ps.map (·.args) = s.threads.process.returned pr

theorem Sequential.step {c c' : Capture} {step : Step} {nodes free used : List Nat} {rc : List Args}
    {queued : List (Nat × Nat)} (q : Sequential cJSONParse c pr)
    (i : Inv nodes c.threads rc pr free used queued)
    (h : capture cJSONParse target spill c step = some (c', e)) :
    Sequential cJSONParse c' (pr ++ e.processedArgs) := by
  obtain ⟨ps, hall, hps⟩ := q
  cases step
  case netrecv traffic ml =>
    simp only [capture, Option.map_eq_some_iff] at h
    obtain ⟨r, hs, hr⟩ := h
    cases hr
    obtain ⟨hprocessed, hreturned⟩ := netrecvThread_returned pr hs
    refine ⟨ps, hall, ?_⟩
    rw [hprocessed, List.append_nil, hps, hreturned]
  case process time =>
    by_cases hrun : ∃ pkt, c.threads.process = .running pkt
    case pos =>
      obtain ⟨pkt, hrun⟩ := hrun
      simp only [capture, hrun] at h
      split at h
      case h_1 => contradiction
      case h_2 arr o hmain =>
        cases h
        refine ⟨ps ++ [(c.threads.packets pkt).args.arrival time],
          processAll_concat_eq_ok.mpr ⟨_, _, o, hall, hmain, rfl⟩, ?_⟩
        have hlast := i.running pkt hrun
        have hfinish : (processThread c.threads).1.process = .put pkt ∧
            (processThread c.threads).2.processedArgs = [] := by
          simp [processThread, hrun, Event.processedArgs]
        rw [hrun] at hps
        rw [hfinish.left, hfinish.right, List.append_nil, List.map_append, hps]
        exact List.dropLast_append_getLast? _ hlast
    case neg =>
      have hrun (pkt : Nat) : c.threads.process ≠ .running pkt := fun hpc => hrun ⟨pkt, hpc⟩
      obtain ⟨rfl, hc⟩ : (processThread c.threads).2 = e ∧ { c with threads := (processThread c.threads).1 } = c' := by
        simp only [capture] at h
        cases h
        exact ⟨rfl, rfl⟩
      subst hc
      refine ⟨ps, hall, ?_⟩
      rw [processThread_returned hrun, hps, Process.returned_eq hrun]

-- What `capture` does to the threads is a step of the pipeline.

def Step.action : Step → Action
  | .netrecv traffic ml => .netrecv traffic.frame ml
  | .process _          => .process

theorem capture_threads {c c' : Capture} {step : Step} (h : capture cJSONParse target spill c step = some (c', e)) :
    pipeline target spill c.threads step.action = some (c'.threads, e) := by
  cases step
  case netrecv traffic ml =>
    simp only [capture, Option.map_eq_some_iff] at h
    obtain ⟨r, hs, hr⟩ := h
    cases hr
    exact hs
  case process time =>
    simp only [capture] at h
    split at h
    case h_1 =>
      split at h
      case h_1 => contradiction
      case h_2 => cases h; rfl
    case h_2 => cases h; rfl

variable {mem num : Nat} {links : Heap} {pool : MemPool} {heap : Nat → Option (MyList Nat)}
  {packets : Nat → Packet} {c : Capture} {tr : List (Step × Event)}

-- What is known of a run: the buffers are in their places, what was received are the frames of the
-- target, and the sessions are as if one packet had been processed after the other.
structure Captured (cJSONParse : Bytes → Option CJson) (target : Target) (nodes : List Nat)
    (tr : List (Step × Event)) (c : Capture) (rc pr : List Args) : Prop where
  inv      : ∃ free used queued, Inv nodes c.threads rc pr free used queued
  received : List.Forall₂ (Args.Carries target) rc (ofTarget target (delivered tr))
  sessions : Sequential cJSONParse c pr

theorem Captured.step {nodes : List Nat} {c' : Capture} {step : Step} {rc : List Args}
    (k : Captured cJSONParse target nodes tr c rc pr) (hreg : Regular c step)
    (h : capture cJSONParse target spill c step = some (c', e)) :
    Captured cJSONParse target nodes (tr ++ [(step, e)]) c' (rc ++ e.receivedArgs) (pr ++ e.processedArgs) := by
  obtain ⟨free, used, queued, i⟩ := k.inv
  have hserved : Served c.threads step.action := by
    cases step
    case netrecv => exact hreg.left
    case process => trivial
  have hdelivered : delivered (tr ++ [(step, e)]) = delivered tr ++ step.frames := by
    simp [delivered]
  refine ⟨(i.step hserved (capture_threads h)).left, ?_, k.sessions.step i h⟩
  rw [hdelivered, ofTarget, List.filter_append]
  refine List.rel_append k.received ?_
  cases step
  case netrecv traffic ml =>
    have hs := capture_threads h
    exact netrecvThread_receives hreg.right hs
  case process =>
    have hs : processThread c.threads = (c'.threads, e) := Option.some.inj (capture_threads h)
    obtain ⟨-, -, hreceived⟩ := processThread_frame c.threads
    rw [hs] at hreceived
    rw [hreceived]
    exact .nil

theorem carries_wanted {rc : List Args} {fs : List TcpFrame} (h : List.Forall₂ (Args.Carries target) rc fs) :
    List.Forall₂ (Args.Carries target) (wanted rc) (withData fs) := by
  refine List.rel_filter (fun args f hc => ?_) h
  simp [hc.len]

-- In every run of the program, the sessions and the log are those of one packet after the other, and the
-- packets are what the first frames of the target with data carry: all of them that were delivered, when
-- nothing is on its way.
theorem capture_sequential (hmem : mem ≠ 0)
    (hp : MemPool.memPoolCreate mem links num sizeofPacket = some pool)
    (st : (capture cJSONParse target spill).Steps Regular (.start pool heap packets) tr c) :
    ∃ ps fs, processAll cJSONParse ps = .ok (c.arr, c.log) ∧
      fs <+: withData (ofTarget target (delivered tr)) ∧
      List.Forall₂ (fun p f => Args.Carries target p.args f) ps fs ∧
      (Idle c.threads → fs = withData (ofTarget target (delivered tr))) := by
  obtain ⟨rc, pr, k⟩ : ∃ rc pr, Captured cJSONParse target (MemPool.nodes mem num sizeofPacket) tr c rc pr := by
    refine st.invariant (fun tr c => ∃ rc pr, Captured cJSONParse target (MemPool.nodes mem num sizeofPacket)
      tr c rc pr) ⟨[], [], ⟨⟨_, _, _, .start hmem hp heap packets⟩, .nil, [], rfl, rfl⟩⟩ ?_
    rintro tr c step c' e ⟨rc, pr, k⟩ hreg h
    exact ⟨_, _, k.step hreg h⟩
  obtain ⟨free, used, queued, i⟩ := k.inv
  obtain ⟨ps, hall, hps⟩ := k.sessions
  have hwanted := carries_wanted k.received
  have hprefix : ps.map (·.args) <+: wanted rc := by
    rw [hps]
    exact c.threads.process.returned_prefix.trans ⟨_, i.content⟩
  have htake : ps.map (·.args) = (wanted rc).take ps.length := by
    simpa using List.prefix_iff_eq_take.mp hprefix
  refine ⟨ps, (withData (ofTarget target (delivered tr))).take ps.length, hall, List.take_prefix .., ?_, fun hidle => ?_⟩
  · have hcarries := List.forall₂_take ps.length hwanted
    rw [← htake] at hcarries
    exact List.forall₂_map_left_iff.mp hcarries
  · have hnum : c.threads.queue.num = queued.length := i.chain.num
    rw [hidle.queue] at hnum
    have hqueued : queued = [] := List.eq_nil_of_length_eq_zero (by omega)
    subst hqueued
    have hcontent := i.content
    rw [State.inFlight, hidle.netrecv, hidle.process.left] at hcontent
    have hreturned : c.threads.process.returned pr = wanted rc := by
      rw [← hcontent, Process.returned_eq hidle.process.right]
      exact (List.append_nil pr).symm
    have hlen : ps.length = (withData (ofTarget target (delivered tr))).length := by
      rw [← hwanted.length_eq, ← hreturned, ← hps, List.length_map]
    rw [hlen, List.take_length]

-- One frame of the target goes through the program, while `netrecv_thread` waits for its buffer.
set_option maxRecDepth 4000 in
theorem capture_sequential_one_frame :
    ∃ (c : Capture) (ps : List Arrival) (fs : List TcpFrame),
      processAll (fun _ => none) ps = .ok (c.arr, c.log) ∧
      fs <+: withData (ofTarget sampleTarget [tcpFrame sampleTarget.endpoint (1, 1024)]) ∧
      List.Forall₂ (fun p f => Args.Carries sampleTarget p.args f) ps fs ∧ c.log.length = 1 := by
  have hp : MemPool.memPoolCreate 0x1000 ⟨id, id⟩ 1 sizeofPacket = some onePool := rfl
  have hregular {c : Capture} {traffic : Traffic} {ml : Option Nat} (hw : c.threads.netrecv ≠ .wait false)
      (hm : ml ≠ none ∨ ∀ pkt, c.threads.netrecv ≠ .put pkt) (hd : Delivers c.threads traffic) :
      Regular c (.netrecv traffic ml) :=
    ⟨⟨fun h => absurd h hw, fun pkt hpc => hm.elim id fun h => absurd hpc (h pkt)⟩, hd⟩
  have herror (s : State) : Delivers s .error := ⟨fun h => absurd rfl h, fun _ h => by cases h⟩
  have htcp {s : State} {pkt : Nat} (h : s.netrecv = .recv pkt) :
      Delivers s (.tcp (tcpFrame sampleTarget.endpoint (1, 1024))) :=
    ⟨fun _ => ⟨pkt, h⟩, fun _ h => by cases h⟩
  have st := Machine.Steps.refl (m := capture (fun _ => none) sampleTarget fun info _ => info) (P := Regular)
      (s := .start onePool (fun _ => none) fun _ => clearPacket)
    |>.snoc (i := .netrecv .error none)
      (by exact hregular (fun h => by cases h) (.inr (fun _ h => by cases h)) (herror _)) rfl
    |>.snoc (i := .netrecv (.tcp (tcpFrame sampleTarget.endpoint (1, 1024))) none)
      (by exact hregular (fun h => by cases h) (.inr (fun _ h => by cases h)) (htcp rfl)) rfl
    |>.snoc (i := .netrecv .error (some 0x10))
      (by exact hregular (fun h => by cases h) (.inl (fun h => by cases h)) (herror _)) rfl
    |>.snoc (i := .netrecv .error none)
      (by exact hregular (fun h => by cases h) (.inr (fun _ h => by cases h)) (herror _)) rfl
    |>.snoc (i := .process 10) (by exact trivial) rfl
    |>.snoc (i := .process 11) (by exact trivial) rfl
    |>.snoc (i := .process 12) (by exact trivial) rfl
  obtain ⟨ps, fs, hall, hfs, hcarries, -⟩ := capture_sequential (by decide) hp st
  exact ⟨_, ps, fs, hall, hfs, hcarries, rfl⟩

end Pipeline
