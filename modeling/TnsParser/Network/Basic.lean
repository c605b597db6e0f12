import TnsParser.Common
import Mathlib.Data.List.OfFn

-- The sizes of the buffer of a packet and of what is read into it.
abbrev maxPacketSize : Nat := 1500

abbrev tryRecvLen : Nat := 1518

def ethHeadLen : Nat := 14

inductive Result
  | push
  | drop
  deriving DecidableEq

-- What lies behind the buffer in a packet. `data` is the offset of the pointer from the buffer.
structure PacketInfo where
  data   : Nat
  len    : Nat
  dir    : Direction
  action : Result
  key    : SessKey

abbrev Buf := Fin maxPacketSize → UInt8

structure Packet extends PacketInfo where
  buf : Buf

-- The headers in a buffer. The header of IP starts at `ethHeadLen`, that of TCP where the header of IP
-- ends. A header is at most 60 bytes long, so that all of these fields are in the buffer, whatever is
-- in them.
namespace Buf

def hProto (pack : Buf) : UInt16 := ushortOf (pack 12) (pack 13)

def version (pack : Buf) : Nat := (pack 14).toNat / 16

def ihl (pack : Buf) : Fin 16 := Fin.ofNat 16 (pack 14).toNat

def totLen (pack : Buf) : UInt16 := ushortOf (pack 16) (pack 17)

def protocol (pack : Buf) : UInt8 := pack 23

def saddr (pack : Buf) : UInt32 := uintOf (ushortOf (pack 26) (pack 27)) (ushortOf (pack 28) (pack 29))

def daddr (pack : Buf) : UInt32 := uintOf (ushortOf (pack 30) (pack 31)) (ushortOf (pack 32) (pack 33))

-- The byte at `i` of the header of TCP.
def tcp (pack : Buf) (i : Fin 20) : UInt8 :=
  pack ⟨ethHeadLen + pack.ihl * 4 + i, by simp only [ethHeadLen, maxPacketSize]; omega⟩

def source (pack : Buf) : UInt16 := ushortOf (pack.tcp 0) (pack.tcp 1)

def dest (pack : Buf) : UInt16 := ushortOf (pack.tcp 2) (pack.tcp 3)

def doff (pack : Buf) : Nat := (pack.tcp 12).toNat / 16

-- What is in a buffer when `frame` has been received into it.
def receive (buf : Buf) (frame : Bytes) : Buf :=
  fun i => frame.getD i (buf i)

end Buf

-- `g_target_ip` and `g_target_port`
structure Target where
  ip   : UInt32
  port : UInt16

def ethPIp : UInt16 := 0x0800

def ipprotoTcp : UInt8 := 6

-- The length that is left for the data, as an `unsigned short`.
def Buf.tcpLen (pack : Buf) : UInt16 :=
  ntohs pack.totLen - UInt16.ofNat (pack.ihl * 4) - UInt16.ofNat (pack.doff * 4)

def recvSetPackInfo (pkt : Packet) (dataLen : Nat) (dir : Direction) (action : Result) : Packet where
  buf    := pkt.buf
  len    := dataLen
  data   := ethHeadLen + pkt.buf.ihl * 4 + pkt.buf.doff * 4
  key    := ⟨pkt.buf.saddr, pkt.buf.daddr, pkt.buf.source, pkt.buf.dest⟩
  dir    := dir
  action := action

-- `none` stands for `RESULT_DROP`. With `RESULT_PUSH`, the values of `*dataLen` and `*dir` are returned.
-- The length of the frame is not looked at.
def ipRecv (target : Target) (pack : Buf) (_len : Nat) : Option (UInt16 × Direction) :=
  if pack.version ≠ 4 then
    none
  else if pack.protocol ≠ ipprotoTcp then
    none
  else if pack.saddr = target.ip ∧ ntohs pack.source = target.port then
    some (pack.tcpLen, .response)
  else if pack.daddr = target.ip ∧ ntohs pack.dest = target.port then
    some (pack.tcpLen, .request)
  else
    none

def procIncomingPack (target : Target) (pack : Buf) (len : Nat) : Option (UInt16 × Direction) :=
  if ntohs pack.hProto = ethPIp then ipRecv target pack len else none

-- `spill` says what becomes of the fields behind the buffer when there is no room for all of the frame
-- in it. (The packet does not end before the frame.)
def recvViaDev (spill : PacketInfo → Bytes → PacketInfo) (pkt : Packet) (frame : Bytes) : Packet where
  buf          := pkt.buf.receive frame
  toPacketInfo :=
    if frame.length ≤ maxPacketSize then pkt.toPacketInfo
    else spill pkt.toPacketInfo (frame.drop maxPacketSize)

-- A frame as the device delivers it, cut off at the length that is asked for.
abbrev Frame := { frame : Bytes // frame.length ≤ tryRecvLen }

-- `frame` is `none` when the device reports an error.
def ethRecv (target : Target) (spill : PacketInfo → Bytes → PacketInfo) (pkt : Packet)
    (frame : Option Frame) : Packet × Int :=
  match frame with
  | none       => (pkt, 1)
  | some frame =>
    let pkt := recvViaDev spill pkt frame
    match procIncomingPack target pkt.buf frame.val.length with
    | none                => (pkt, 1)
    | some (dataLen, dir) => (recvSetPackInfo pkt dataLen.toNat dir .push, 0)

-- A packet that `eth_recv` returns 0 for is one to process.
theorem ethRecv_action {target : Target} {spill : PacketInfo → Bytes → PacketInfo} {pkt pkt' : Packet}
    {frame : Option Frame} (h : ethRecv target spill pkt frame = (pkt', 0)) : pkt'.action = .push := by
  simp only [ethRecv] at h
  split at h
  case h_1 => cases h
  case h_2 => split at h <;> cases h; rfl

-- sizeof(struct Packet)
def sizeofPacket : Nat := 1536

-- The memory behind `data`, up to the end of the buffer.
def Packet.payload (pkt : Packet) : Bytes :=
  List.ofFn pkt.buf |>.drop pkt.data
