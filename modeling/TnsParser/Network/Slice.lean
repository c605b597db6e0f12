import TnsParser.Network.Basic

-- When the data of a packet lies inside of what was received.

variable {target : Target} {spill : PacketInfo → Bytes → PacketInfo} {pkt pkt' : Packet} {pack : Buf}
  {len : Nat} {frame : Frame} {dataLen : UInt16} {dir : Direction}

-- A packet of a connection with the target.
structure IsOfTarget (target : Target) (pack : Buf) : Prop where
  hProto   : ntohs pack.hProto = ethPIp
  version  : pack.version = 4
  protocol : pack.protocol = ipprotoTcp
  endpoint : (pack.saddr = target.ip ∧ ntohs pack.source = target.port) ∨
    (pack.daddr = target.ip ∧ ntohs pack.dest = target.port)

-- The length of the headers of IP and TCP.
def Buf.headLen (pack : Buf) : Nat :=
  pack.ihl * 4 + pack.doff * 4

-- The lengths in the headers agree with the number of bytes received, which fit into the buffer.
structure LengthsAgree (pack : Buf) (recvLen : Nat) : Prop where
  size : recvLen ≤ maxPacketSize
  head : pack.headLen ≤ (ntohs pack.totLen).toNat
  recv : ethHeadLen + (ntohs pack.totLen).toNat ≤ recvLen

-- The data of a packet is part of the bytes received, and has the length that the headers give.
structure Packet.SliceInside (pkt : Packet) (recvLen : Nat) : Prop where
  size : recvLen ≤ maxPacketSize
  recv : ethHeadLen + 4 * pkt.buf.ihl + 4 * pkt.buf.doff + pkt.len ≤ recvLen
  len  : (pkt.len : Int) = (ntohs pkt.buf.totLen).toNat - 4 * pkt.buf.ihl - 4 * pkt.buf.doff

theorem Buf.doff_lt (pack : Buf) : pack.doff < 16 :=
  Nat.div_lt_of_lt_mul (pack.tcp 12).toNat_lt

-- The length of the data is right if and only if the headers are not longer than the packet.
theorem Buf.tcpLen_eq_iff (pack : Buf) :
    pack.tcpLen.toNat + pack.headLen = (ntohs pack.totLen).toNat ↔
      pack.headLen ≤ (ntohs pack.totLen).toNat := by
  have hihl := pack.ihl.isLt
  have hdoff := pack.doff_lt
  have htot := (ntohs pack.totLen).toNat_lt
  have hlen : pack.tcpLen.toNat = ((ntohs pack.totLen).toNat + (2 ^ 16 - pack.headLen)) % 2 ^ 16 := by
    simp only [tcpLen, headLen, UInt16.toNat_sub, UInt16.toNat_ofNat']
    omega
  simp only [headLen] at *
  omega

theorem procIncomingPack_eq_some (h : procIncomingPack target pack len = some (dataLen, dir)) :
    IsOfTarget target pack ∧ dataLen = pack.tcpLen := by
  simp only [procIncomingPack, ipRecv] at h
  grind [IsOfTarget]

theorem procIncomingPack_eq_none_iff :
    procIncomingPack target pack len = none ↔ ¬IsOfTarget target pack := by
  simp only [procIncomingPack, ipRecv]
  grind [IsOfTarget]

-- A packet that was accepted.
theorem ethRecv_accepted (h : ethRecv target spill pkt (some frame) = (pkt', 0)) :
    IsOfTarget target pkt'.buf ∧ pkt'.buf = pkt.buf.receive frame ∧
      pkt'.len = pkt'.buf.tcpLen.toNat := by
  simp only [ethRecv] at h
  split at h
  case h_1 => cases h
  case h_2 hp =>
    obtain ⟨htarget, hlen⟩ := procIncomingPack_eq_some hp
    cases h
    exact ⟨htarget, rfl, congrArg UInt16.toNat hlen⟩

theorem ethRecv_of_isOfTarget (spill : PacketInfo → Bytes → PacketInfo)
    (h : IsOfTarget target (pkt.buf.receive frame)) :
    ∃ pkt', ethRecv target spill pkt (some frame) = (pkt', 0) := by
  cases hp : procIncomingPack target (pkt.buf.receive frame) frame.val.length
  case none   => exact absurd h <| procIncomingPack_eq_none_iff.mp hp
  case some r => exact ⟨_, by simp only [ethRecv, recvViaDev, hp]; rfl⟩

theorem sliceInside_iff (h : pkt.len = pkt.buf.tcpLen.toNat) :
    pkt.SliceInside len ↔ LengthsAgree pkt.buf len := by
  have htcp := pkt.buf.tcpLen_eq_iff
  simp only [Buf.headLen] at htcp
  constructor
  case mp =>
    intro ⟨hsize, hrecv, hlen⟩
    refine ⟨hsize, ?_, ?_⟩
    · simp only [Buf.headLen]
      omega
    · omega
  case mpr =>
    intro ⟨hsize, hhead, hrecv⟩
    simp only [Buf.headLen] at hhead
    have htcp := htcp.mpr hhead
    refine ⟨hsize, ?_, ?_⟩ <;> omega

-- The data of an accepted packet lies inside of what was received if and only if the lengths agree.
theorem ethRecv_sliceInside_iff (target : Target) (spill : PacketInfo → Bytes → PacketInfo)
    (pkt : Packet) (frame : Frame) :
    (∀ pkt', ethRecv target spill pkt (some frame) = (pkt', 0) →
      pkt'.SliceInside frame.val.length) ↔
    (IsOfTarget target (pkt.buf.receive frame) →
      LengthsAgree (pkt.buf.receive frame) frame.val.length) := by
  constructor
  case mp =>
    intro h htarget
    have ⟨pkt', hr⟩ := ethRecv_of_isOfTarget spill htarget
    have ⟨_, hbuf, hlen⟩ := ethRecv_accepted hr
    exact hbuf ▸ (sliceInside_iff hlen |>.mp <| h pkt' hr)
  case mpr =>
    intro h pkt' hr
    have ⟨htarget, hbuf, hlen⟩ := ethRecv_accepted hr
    exact sliceInside_iff hlen |>.mpr <| hbuf ▸ h (hbuf ▸ htarget)

-- A frame from 10.0.0.1:1024 to 10.0.0.2:1521 with both headers of the least length, and `n` bytes of
-- data.
def sampleFrame (totLen : UInt8 × UInt8) (n : Nat) : Bytes :=
  List.replicate 12 0 ++ [0x08, 0x00] ++
    [0x45, 0, totLen.1, totLen.2, 0, 0, 0, 0, 64, 6, 0, 0, 10, 0, 0, 1, 10, 0, 0, 2] ++
    [0x04, 0x00, 0x05, 0xf1, 0, 0, 0, 0, 0, 0, 0, 0, 0x50, 0x18, 0, 0, 0, 0, 0, 0] ++
    List.replicate n 0

def sampleTarget : Target where
  ip   := 0x0200000a
  port := 1521

theorem sampleFrame_length (totLen : UInt8 × UInt8) (n : Nat) :
    (sampleFrame totLen n).length = 54 + n := by
  simp only [sampleFrame, List.length_append, List.length_replicate]
  rfl

-- A frame of full size.
def fullFrame : Frame :=
  ⟨sampleFrame (0x05, 0xdc) 1460, by rw [sampleFrame_length]; decide⟩

-- A frame of two headers that are longer than the total length.
def shortFrame : Frame :=
  ⟨sampleFrame (0, 30) 0, by decide⟩

def clearPacket : Packet where
  buf    := fun _ => 0
  data   := 0
  len    := 0
  dir    := .request
  action := .push
  key    := ⟨0, 0, 0, 0⟩

-- Both are accepted: the first does not fit into the buffer, and of the second far more would be data
-- than there is.
theorem ethRecv_slice_outside :
    (¬∀ (target : Target) (spill : PacketInfo → Bytes → PacketInfo) (pkt pkt' : Packet) (frame : Frame),
      ethRecv target spill pkt (some frame) = (pkt', 0) → frame.val.length ≤ maxPacketSize) ∧
    ¬∀ (target : Target) (spill : PacketInfo → Bytes → PacketInfo) (pkt pkt' : Packet) (frame : Frame),
      frame.val.length ≤ maxPacketSize → ethRecv target spill pkt (some frame) = (pkt', 0) →
        pkt'.SliceInside frame.val.length := by
  constructor
  · intro h
    have htarget : IsOfTarget sampleTarget (clearPacket.buf.receive fullFrame) :=
      ⟨by decide, by decide, by decide, .inr (by decide)⟩
    have ⟨pkt', hr⟩ := ethRecv_of_isOfTarget (fun info _ => info) htarget
    have hsize := h _ _ _ _ _ hr
    rw [fullFrame, sampleFrame_length] at hsize
    exact absurd hsize (by decide)
  · intro h
    have htarget : IsOfTarget sampleTarget (clearPacket.buf.receive shortFrame) :=
      ⟨by decide, by decide, by decide, .inr (by decide)⟩
    have ⟨pkt', hr⟩ := ethRecv_of_isOfTarget (fun info _ => info) htarget
    have ⟨_, hbuf, hlen⟩ := ethRecv_accepted hr
    have hhead := (sliceInside_iff hlen |>.mp <| h _ _ _ _ _ (by decide) hr).head
    rw [hbuf] at hhead
    exact absurd hhead (by decide)
