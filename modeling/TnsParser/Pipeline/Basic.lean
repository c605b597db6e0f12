import TnsParser.Library.Machine
import TnsParser.Mempool.Basic
import TnsParser.Network.Basic
import TnsParser.Queue.Threads

-- What `mainprocess` is called with. The bytes are those behind `pkt->data` at that time.
structure Args where
  data : Bytes
  len  : Nat
  key  : SessKey
  dir  : Direction

def Packet.args (pkt : Packet) : Args where
  data := pkt.payload
  len  := pkt.len
  key  := pkt.key
  dir  := pkt.dir

namespace Pipeline

-- Where `netrecv_thread` is: about to call `mem_pool_get`, waiting in it, with an empty buffer, or with a
-- packet that it is about to put. A thread that waits keeps whether it was signalled.
inductive Netrecv
  | get
  | wait (signalled : Bool)
  | recv (pkt : Nat)
  | put (pkt : Nat)

-- Where `process_thread` is: about to call `list_queue_get`, waiting in it, at the test of the packet, in
-- `mainprocess`, or about to call `mem_pool_put`. `pkt` is the variable of the thread.
inductive Process
  | get (pkt : Nat)
  | wait (signalled : Bool) (pkt : Nat)
  | check (pkt : Nat)
  | running (pkt : Nat)
  | put (pkt : Nat)

def Netrecv.signal : Netrecv → Netrecv
  | .wait _ => .wait true
  | pc      => pc

def Process.signal : Process → Process
  | .wait _ pkt => .wait true pkt
  | pc          => pc

-- `packets` are the buffers, by address.
structure State where
  pool    : MemPool
  queue   : ListQueue Nat
  packets : Nat → Packet
  netrecv : Netrecv
  process : Process

-- `fault` is a use of memory that is not allocated.
inductive Event
  | internal
  | received (args : Args)
  | processed (args : Args)
  | fault

variable (target : Target) (spill : PacketInfo → Bytes → PacketInfo)

-- A step of `netrecv_thread`, with the frame that the device delivers and the address that `malloc`
-- returns, where these are asked for. A locked section is one step.
def netrecvThread (s : State) (frame : Option Frame) (ml : Option Nat) : Option (State × Event) :=
  match s.netrecv with
  | .get =>
    match s.pool.memPoolGet with
    | none             => some ({ s with netrecv := .wait false }, .internal)
    | some (pool, pkt) => some ({ s with pool, netrecv := .recv pkt }, .internal)
  | .wait _ =>
    let (pool, pkt) := s.pool.memPoolTake
    some ({ s with pool, netrecv := .recv pkt }, .internal)
  | .recv pkt =>
    let (buf, ret) := ethRecv target spill (s.packets pkt) frame
    let s := { s with packets := Function.update s.packets pkt buf }
    if ret ≠ 0 then some (s, .internal) else some ({ s with netrecv := .put pkt }, .received buf.args)
  | .put pkt =>
    if s.queue.Fresh ml then
      match s.queue.listQueuePutPrivate pkt ml with
      | none            => some (s, .fault)
      | some (queue, r) =>
        let process := if r = 0 then s.process.signal else s.process
        some ({ s with queue, process, netrecv := .get }, .internal)
    else
      none

-- What `list_queue_get` returns is not looked at.
def getPkt (s : State) (pkt : Nat) : State × Event :=
  match s.queue.listQueueGet pkt true with
  | none                     => (s, .fault)
  | some (queue, .ret _ pkt) => ({ s with queue, process := .check pkt }, .internal)
  | some (queue, .wait)      => ({ s with queue, process := .wait false pkt }, .internal)

def processThread (s : State) : State × Event :=
  match s.process with
  | .get pkt    => getPkt s pkt
  | .wait _ pkt => getPkt s pkt
  | .check pkt  =>
    if pkt = 0 then
      (s, .fault)
    else if (s.packets pkt).len ≠ 0 ∧ (s.packets pkt).action ≠ .drop then
      ({ s with process := .running pkt }, .processed (s.packets pkt).args)
    else
      ({ s with process := .put pkt }, .internal)
  | .running pkt => ({ s with process := .put pkt }, .internal)
  | .put pkt     =>
    let (pool, _) := s.pool.memPoolPut pkt
    let netrecv := if s.pool.memPoolPutSignals pkt then s.netrecv.signal else s.netrecv
    ({ s with pool, netrecv, process := .get pkt }, .internal)

inductive Action
  | netrecv (frame : Option Frame) (ml : Option Nat)
  | process
  | abort

-- The two threads of `main`, and `list_queue_abort`.
def pipeline : Machine State Action Event
  | s, .netrecv frame ml => netrecvThread target spill s frame ml
  | s, .process          => some (processThread s)
  | s, .abort            =>
    some ({ s with queue := s.queue.listQueueAbort, process := s.process.signal }, .internal)

-- The state in which `main` starts the threads.
def start (pool : MemPool) (heap : Nat → Option (MyList Nat)) (packets : Nat → Packet) : State where
  pool    := pool
  queue   := ListQueue.start heap
  packets := packets
  netrecv := .get
  process := .get 0

-- What was received, and what was processed, in order.

def Event.receivedArgs : Event → List Args
  | .received args                      => [args]
  | .internal | .processed _ | .fault   => []

def Event.processedArgs : Event → List Args
  | .processed args                     => [args]
  | .internal | .received _ | .fault    => []

def received (tr : List (Action × Event)) : List Args :=
  tr.flatMap (·.2.receivedArgs)

def processed (tr : List (Action × Event)) : List Args :=
  tr.flatMap (·.2.processedArgs)

end Pipeline
