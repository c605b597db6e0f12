import TnsParser.OracleTns.Basic

-- What `mainprocess` is called with. `time` is what `time(NULL)` returns meanwhile.
structure Arrival where
  data : Bytes
  len  : Nat
  key  : SessKey
  dir  : Direction
  time : UInt64

-- The key of the session that a packet belongs to.
def Arrival.sessKey (p : Arrival) : SessKey :=
  p.key.normalise p.dir

-- The dotted form of an address that is stored in network order.
def inetNtoa (addr : UInt32) : String :=
  let byte (i : Nat) := (addr.toNat >>> (8 * i)) % 256
  s!"{byte 0}.{byte 1}.{byte 2}.{byte 3}"

def sessDesc (key : SessKey) : String :=
  s!"[{inetNtoa key.sip}:{ntohs key.sport} -> {inetNtoa key.dip}:{ntohs key.dport}]"

def mainprocess (cJSONParse : Bytes → Option CJson) (arr : SessArray) (p : Arrival) :
    Except Fault (SessArray × Outcome) := do
  let (arr, i) ← arr.sessMustFindNode p.key p.dir p.time
  let sess := { arr i with curDir := p.dir, curSessDesc := sessDesc p.key }
  let o ← tnsProtocolParse cJSONParse p.data p.len sess
  return (Function.update arr i o.sess, o)

-- The packets that were processed, with their outcomes.
abbrev Log := List (Arrival × Outcome)

-- Packets are processed one after the other, from the array that `sess_init` leaves.
def processAll (cJSONParse : Bytes → Option CJson) (ps : List Arrival) :
    Except Fault (SessArray × Log) :=
  ps.foldlM (fun (arr, log) p => do
    let (arr, o) ← mainprocess cJSONParse arr p
    return (arr, log ++ [(p, o)])) (sessInit, [])
