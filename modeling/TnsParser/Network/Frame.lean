import TnsParser.Network.Slice

-- Frames that carry TCP, and what is received of them.

-- An address as it is stored, and a port as a number.
abbrev Endpoint := UInt32 × UInt16

def Target.endpoint (target : Target) : Endpoint :=
  (target.ip, target.port)

def Buf.src (pack : Buf) : Endpoint :=
  (pack.saddr, ntohs pack.source)

def Buf.dst (pack : Buf) : Endpoint :=
  (pack.daddr, ntohs pack.dest)

-- A frame that carries TCP over IPv4. The options of a header are up to ten words.
structure TcpFrame where
  mac        : Vector UInt8 12
  tos        : UInt8
  ident      : Vector UInt8 5
  ipCheck    : Vector UInt8 2
  src        : Endpoint
  dst        : Endpoint
  ipWords    : Fin 11
  ipOptions  : Vector UInt8 (4 * ipWords)
  seq        : Vector UInt8 8
  reserved   : Fin 16
  flags      : Vector UInt8 7
  tcpWords   : Fin 11
  tcpOptions : Vector UInt8 (4 * tcpWords)
  payload    : Bytes
  padding    : Bytes
  size       : 54 + 4 * ipWords + 4 * tcpWords + payload.length + padding.length ≤ maxPacketSize

namespace TcpFrame

variable (f : TcpFrame)

def ihl : Nat := 5 + f.ipWords

def doff : Nat := 5 + f.tcpWords

def totLen : Nat := 4 * f.ihl + 4 * f.doff + f.payload.length

def ethHeader : Bytes :=
  f.mac.toList ++ [0x08, 0x00]

def ipHeader : Bytes :=
  [UInt8.ofNat (0x40 + f.ihl), f.tos] ++ Bytes.ofShort (UInt16.ofNat f.totLen) ++ f.ident.toList ++
    [ipprotoTcp] ++ f.ipCheck.toList ++ Bytes.ofUint f.src.1 ++ Bytes.ofUint f.dst.1 ++
    f.ipOptions.toList

def tcpHeader : Bytes :=
  Bytes.ofShort f.src.2 ++ Bytes.ofShort f.dst.2 ++ f.seq.toList ++
    [UInt8.ofNat (16 * f.doff + f.reserved)] ++ f.flags.toList ++ f.tcpOptions.toList

def encode : Bytes :=
  f.ethHeader ++ (f.ipHeader ++ (f.tcpHeader ++ (f.payload ++ f.padding)))

variable {f}

theorem length_ethHeader : f.ethHeader.length = ethHeadLen := by
  simp [ethHeader, ethHeadLen]

theorem length_ipHeader : f.ipHeader.length = 4 * f.ihl := by
  simp [ipHeader, ihl, Bytes.ofShort, Bytes.ofUint]
  omega

theorem length_tcpHeader : f.tcpHeader.length = 4 * f.doff := by
  simp [tcpHeader, doff, Bytes.ofShort]
  omega

theorem length_encode : f.encode.length = ethHeadLen + f.totLen + f.padding.length := by
  simp only [encode, List.length_append, length_ethHeader, length_ipHeader, length_tcpHeader, totLen]
  omega

theorem length_encode_le : f.encode.length ≤ maxPacketSize := by
  have hsize := f.size
  rw [length_encode, ethHeadLen, totLen, ihl, doff]
  omega

def frame (f : TcpFrame) : Frame :=
  ⟨f.encode, Nat.le_trans length_encode_le (by decide)⟩

end TcpFrame

namespace Buf

variable {buf : Buf} {frame : Bytes} {n : Nat}

-- What lies in a frame is found in the buffer.

theorem receive_byte {c : UInt8} (h : frame[n]? = some c) (hn : n < maxPacketSize) :
    buf.receive frame ⟨n, hn⟩ = c := by
  simp [receive, List.getD, h]

theorem receive_short {v : UInt16} (h : frame.LiesAt n (Bytes.ofShort v)) (hn : n + 1 < maxPacketSize) :
    ntohs (ushortOf (buf.receive frame ⟨n, by omega⟩) (buf.receive frame ⟨n + 1, hn⟩)) = v := by
  have h0 : frame[n]? = _ := h.getElem? (i := 0) rfl
  have h1 := h.getElem? (i := 1) rfl
  rw [receive_byte h0, receive_byte h1, ntohs_ofShort]

theorem receive_uint {v : UInt32} (h : frame.LiesAt n (Bytes.ofUint v)) (hn : n + 3 < maxPacketSize) :
    uintOf
      (ushortOf (buf.receive frame ⟨n, by omega⟩) (buf.receive frame ⟨n + 1, by omega⟩))
      (ushortOf (buf.receive frame ⟨n + 2, by omega⟩) (buf.receive frame ⟨n + 3, hn⟩)) = v := by
  have h0 : frame[n]? = _ := h.getElem? (i := 0) rfl
  have h1 := h.getElem? (i := 1) rfl
  have h2 := h.getElem? (i := 2) rfl
  have h3 := h.getElem? (i := 3) rfl
  rw [receive_byte h0, receive_byte h1, receive_byte h2, receive_byte h3, uintOf_ofUint]

end Buf

namespace TcpFrame

variable {f : TcpFrame} {buf : Buf} {n : Nat} {b : Bytes}

theorem encode_eth (h : f.ethHeader.LiesAt n b) : f.encode.LiesAt n b := by
  have hlies : f.encode.LiesAt 0 f.ethHeader := List.prefix_append ..
  simpa using hlies.trans h

theorem encode_ip (h : f.ipHeader.LiesAt n b) : f.encode.LiesAt (ethHeadLen + n) b := by
  refine Bytes.LiesAt.trans ?_ h
  rw [Bytes.LiesAt, encode, List.drop_left' length_ethHeader]
  exact List.prefix_append ..

theorem encode_tcp (h : f.tcpHeader.LiesAt n b) :
    f.encode.LiesAt (ethHeadLen + f.ihl * 4 + n) b := by
  refine Bytes.LiesAt.trans ?_ h
  have hlength : (f.ethHeader ++ f.ipHeader).length = ethHeadLen + f.ihl * 4 := by
    rw [List.length_append, length_ethHeader, length_ipHeader, ethHeadLen]
    omega
  rw [Bytes.LiesAt, encode, ← List.append_assoc, List.drop_left' hlength]
  exact List.prefix_append ..

theorem receive_hProto : ntohs (buf.receive f.encode).hProto = ethPIp := by
  refine Buf.receive_short (n := 12) (encode_eth ?_) (by decide)
  have hbytes : Bytes.ofShort ethPIp = [0x08, 0x00] := rfl
  simp [Bytes.LiesAt, ethHeader, hbytes]

theorem receive_first : buf.receive f.encode 14 = UInt8.ofNat (0x40 + f.ihl) :=
  Buf.receive_byte (encode_ip (n := 0) (List.prefix_append ..) |>.getElem? (i := 0) rfl) (by decide)

theorem receive_protocol : (buf.receive f.encode).protocol = ipprotoTcp := by
  have hlies : f.ipHeader.LiesAt 9 [ipprotoTcp] := by
    simp [Bytes.LiesAt, ipHeader, Bytes.ofShort]
  exact Buf.receive_byte (encode_ip hlies |>.getElem? (i := 0) rfl) (by decide)

theorem receive_version : (buf.receive f.encode).version = 4 := by
  have hlt := f.ipWords.isLt
  rw [Buf.version, receive_first, UInt8.toNat_ofNat', ihl]
  omega

theorem receive_ihl : ((buf.receive f.encode).ihl : Nat) = f.ihl := by
  have hlt := f.ipWords.isLt
  rw [Buf.ihl, receive_first, UInt8.toNat_ofNat', ihl]
  simp only [Fin.ofNat]
  omega

theorem receive_totLen : ntohs (buf.receive f.encode).totLen = UInt16.ofNat f.totLen := by
  refine Buf.receive_short (n := 16) (encode_ip (n := 2) ?_) (by decide)
  simp [Bytes.LiesAt, ipHeader]

theorem receive_saddr : (buf.receive f.encode).saddr = f.src.1 := by
  refine Buf.receive_uint (n := 26) (encode_ip (n := 12) ?_) (by decide)
  simp [Bytes.LiesAt, ipHeader, Bytes.ofShort, List.drop_append, List.drop_of_length_le]

theorem receive_daddr : (buf.receive f.encode).daddr = f.dst.1 := by
  refine Buf.receive_uint (n := 30) (encode_ip (n := 16) ?_) (by decide)
  simp [Bytes.LiesAt, ipHeader, Bytes.ofShort, Bytes.ofUint, List.drop_append, List.drop_of_length_le]

theorem receive_tcp {i : Fin 20} {c : UInt8} (h : f.tcpHeader[i.val]? = some c) :
    (buf.receive f.encode).tcp i = c := by
  have hlies : f.encode.LiesAt (ethHeadLen + f.ihl * 4 + 0) f.tcpHeader :=
    encode_tcp (List.prefix_refl _)
  refine Buf.receive_byte ?_ _
  rw [receive_ihl]
  exact hlies.getElem? h

theorem receive_src : (buf.receive f.encode).src = f.src := by
  have hport : ntohs (buf.receive f.encode).source = f.src.2 := by
    rw [Buf.source, receive_tcp (i := 0) rfl, receive_tcp (i := 1) rfl, ntohs_ofShort]
  exact Prod.ext receive_saddr hport

theorem receive_dst : (buf.receive f.encode).dst = f.dst := by
  have hport : ntohs (buf.receive f.encode).dest = f.dst.2 := by
    rw [Buf.dest, receive_tcp (i := 2) rfl, receive_tcp (i := 3) rfl, ntohs_ofShort]
  exact Prod.ext receive_daddr hport

theorem receive_doff : (buf.receive f.encode).doff = f.doff := by
  have hlt := f.tcpWords.isLt
  have hbyte : f.tcpHeader[12]? = some (UInt8.ofNat (16 * f.doff + f.reserved)) := by
    simp [tcpHeader, Bytes.ofShort]
  rw [Buf.doff, receive_tcp (i := 12) hbyte, UInt8.toNat_ofNat', doff]
  omega

theorem receive_tcpLen : (buf.receive f.encode).tcpLen.toNat = f.payload.length := by
  have hsize : _ ≤ 1500 := f.size
  have htot : (UInt16.ofNat f.totLen).toNat = f.totLen := by
    rw [UInt16.toNat_ofNat', totLen, ihl, doff]
    omega
  have hhead := (buf.receive f.encode).tcpLen_eq_iff
  rw [Buf.headLen, receive_ihl, receive_doff, receive_totLen, htot, totLen] at hhead
  omega

theorem isOfTarget_iff {target : Target} : IsOfTarget target (buf.receive f.encode) ↔
    f.src = target.endpoint ∨ f.dst = target.endpoint := by
  have hsrc := @receive_src f buf
  have hdst := @receive_dst f buf
  rw [← hsrc, ← hdst, Target.endpoint, Buf.src, Buf.dst, Prod.mk.injEq, Prod.mk.injEq]
  constructor
  case mp  => exact fun h => h.endpoint
  case mpr => exact fun h => ⟨receive_hProto, receive_version, receive_protocol, h⟩

end TcpFrame

section Received

variable {target : Target} {spill : PacketInfo → Bytes → PacketInfo} {pkt pkt' : Packet} {pack : Buf}
  {f : TcpFrame} {frame : Frame} {len : Nat} {dataLen : UInt16} {dir : Direction}

theorem Buf.ofFn_receive {buf : Buf} {frame : Bytes} (h : frame.length ≤ maxPacketSize) :
    List.ofFn (buf.receive frame) = frame ++ (List.ofFn buf).drop frame.length := by
  have hlength : (List.ofFn (buf.receive frame)).length =
      (frame ++ (List.ofFn buf).drop frame.length).length := by
    rw [List.length_append, List.length_drop, List.length_ofFn, List.length_ofFn]
    omega
  refine List.ext_getElem hlength fun i hi hi' => ?_
  rw [List.getElem_ofFn, receive, List.getD, List.getElem_append]
  by_cases hf : i < frame.length
  case pos => simp only [hf, List.getElem?_eq_getElem, Option.getD_some, dif_pos]
  case neg =>
    have hi : frame.length + (i - frame.length) = i := by omega
    simp only [hf, Nat.le_of_not_lt hf, List.getElem?_eq_none, Option.getD_none, dif_neg,
      not_false_eq_true, List.getElem_drop, List.getElem_ofFn, hi]

-- The direction of a packet that is accepted.
theorem procIncomingPack_dir (h : procIncomingPack target pack len = some (dataLen, dir)) :
    dir = if pack.src = target.endpoint then .response else .request := by
  simp only [procIncomingPack, ipRecv] at h
  simp only [Buf.src, Target.endpoint, Prod.mk.injEq]
  grind

theorem ethRecv_pushed (h : ethRecv target spill pkt (some frame) = (pkt', 0)) :
    ∃ dataLen dir,
      procIncomingPack target (pkt.buf.receive frame) frame.val.length = some (dataLen, dir) ∧
        pkt' = recvSetPackInfo (recvViaDev spill pkt frame) dataLen.toNat dir .push := by
  simp only [ethRecv] at h
  split at h
  case h_1           => cases h
  case h_2 _ r hr hp =>
    cases h
    exact ⟨_, _, hp, rfl⟩

theorem ethRecv_dropped (h : ¬IsOfTarget target (pkt.buf.receive frame)) :
    ethRecv target spill pkt (some frame) = (recvViaDev spill pkt frame, 1) := by
  have hp : procIncomingPack target (pkt.buf.receive frame) frame.val.length = none :=
    procIncomingPack_eq_none_iff.mpr h
  simp only [ethRecv, recvViaDev, hp]

theorem ethRecv_eq_zero_iff : (ethRecv target spill pkt (some frame)).2 = 0 ↔
    IsOfTarget target (pkt.buf.receive frame) := by
  constructor
  case mp =>
    intro h
    by_contra hn
    rw [ethRecv_dropped hn] at h
    exact absurd h Int.one_ne_zero
  case mpr =>
    intro h
    have ⟨_, hr⟩ := ethRecv_of_isOfTarget spill h
    rw [hr]

-- The packet is what a frame carries.
structure Packet.Carries (pkt : Packet) (f : TcpFrame) : Prop where
  len  : pkt.len = f.payload.length
  data : pkt.payload.take pkt.len = f.payload
  src  : (pkt.key.sip, ntohs pkt.key.sport) = f.src
  dst  : (pkt.key.dip, ntohs pkt.key.dport) = f.dst

theorem TcpFrame.payload_receive :
    (List.ofFn (pkt.buf.receive f.encode) |>.drop (ethHeadLen + f.ihl * 4 + f.doff * 4)).take
      f.payload.length = f.payload := by
  have hheaders : (f.ethHeader ++ (f.ipHeader ++ f.tcpHeader)).length =
      ethHeadLen + f.ihl * 4 + f.doff * 4 := by
    simp only [List.length_append, length_ethHeader, length_ipHeader, length_tcpHeader]
    omega
  have hencode : f.encode =
      (f.ethHeader ++ (f.ipHeader ++ f.tcpHeader)) ++ (f.payload ++ f.padding) := by
    simp [encode]
  rw [Buf.ofFn_receive f.length_encode_le]
  nth_rewrite 1 [hencode]
  rw [List.append_assoc, List.drop_left' hheaders, List.append_assoc, List.take_left]

theorem ethRecv_carries (h : ethRecv target spill pkt (some f.frame) = (pkt', 0)) :
    pkt'.Carries f ∧ pkt'.dir = if f.src = target.endpoint then .response else .request := by
  have ⟨dataLen, dir, hp, hpkt⟩ := ethRecv_pushed h
  have ⟨_, hlen⟩ := procIncomingPack_eq_some hp
  have hdir := procIncomingPack_dir hp
  have hbuf : (recvViaDev spill pkt f.frame).buf = pkt.buf.receive f.encode := rfl
  subst hpkt hlen
  refine ⟨⟨TcpFrame.receive_tcpLen, ?_, ?_, ?_⟩, ?_⟩
  · simp only [Packet.payload, recvSetPackInfo, hbuf, TcpFrame.receive_ihl, TcpFrame.receive_doff]
    have htcpLen : (pkt.buf.receive f.frame.val).tcpLen.toNat = _ :=
      @TcpFrame.receive_tcpLen f pkt.buf
    rw [htcpLen]
    exact TcpFrame.payload_receive
  · exact TcpFrame.receive_src
  · exact TcpFrame.receive_dst
  · rw [← @TcpFrame.receive_src f pkt.buf]
    exact hdir

-- The headers of a frame say that it carries TCP over IPv4.
structure IsTcp (frame : Bytes) : Prop where
  hProto   : (frame.ushort? 12).map ntohs = some ethPIp
  version  : frame[14]?.map (·.toNat / 16) = some 4
  protocol : frame[23]? = some ipprotoTcp

theorem isTcp_of_isOfTarget {buf : Buf} {frame : Bytes} (hl : 34 ≤ frame.length)
    (h : IsOfTarget target (buf.receive frame)) : IsTcp frame := by
  have byte (i : Fin maxPacketSize) (hi : i.val < frame.length) :
      frame[i.val]? = some (buf.receive frame i) := by
    simp [Buf.receive, hi]
  have h12 : frame[12]? = _ := byte 12 (Nat.lt_of_lt_of_le (by decide) hl)
  have h13 : frame[13]? = _ := byte 13 (Nat.lt_of_lt_of_le (by decide) hl)
  have h14 : frame[14]? = _ := byte 14 (Nat.lt_of_lt_of_le (by decide) hl)
  have h23 : frame[23]? = _ := byte 23 (Nat.lt_of_lt_of_le (by decide) hl)
  refine ⟨?_, ?_, ?_⟩
  · simpa [Bytes.ushort?, h12, h13, Buf.hProto] using h.hProto
  · simpa [h14, Buf.version] using h.version
  · simpa [h23, Buf.protocol] using h.protocol

-- What is received is what the frame carries, if it is from or to the target. A frame that carries
-- something else changes nothing but the buffer.
theorem ethRecv_decodes (target : Target) (spill : PacketInfo → Bytes → PacketInfo) (pkt : Packet) :
    (∀ f : TcpFrame,
      let r := ethRecv target spill pkt (some f.frame)
      (r.2 = 0 ↔ f.src = target.endpoint ∨ f.dst = target.endpoint) ∧
        (r.2 = 0 → r.1.Carries f ∧
          r.1.dir = if f.src = target.endpoint then .response else .request)) ∧
    ∀ frame : Frame, 34 ≤ frame.val.length → frame.val.length ≤ maxPacketSize →
      ¬IsTcp frame.val →
        ∃ pkt', ethRecv target spill pkt (some frame) = (pkt', 1) ∧
          pkt'.toPacketInfo = pkt.toPacketInfo := by
  refine ⟨fun f => ⟨?_, fun h => ethRecv_carries (Prod.ext rfl h)⟩, fun frame hl hsize ht => ?_⟩
  · exact ethRecv_eq_zero_iff.trans TcpFrame.isOfTarget_iff
  · have hdrop : ¬IsOfTarget target (pkt.buf.receive frame.val) := fun h => ht <| isTcp_of_isOfTarget hl h
    exact ⟨_, ethRecv_dropped hdrop, if_pos hsize⟩

end Received

-- A frame with options in both headers, data and padding.
def tcpFrame (src dst : Endpoint) : TcpFrame where
  mac        := Vector.replicate 12 0
  tos        := 0
  ident      := Vector.replicate 5 0
  ipCheck    := Vector.replicate 2 0
  src        := src
  dst        := dst
  ipWords    := 1
  ipOptions  := Vector.replicate _ 1
  seq        := Vector.replicate 8 0
  reserved   := ⟨0, by decide⟩
  flags      := Vector.replicate 7 0
  tcpWords   := 2
  tcpOptions := Vector.replicate _ 1
  payload    := [0, 9, 0, 0, 11, 0, 0, 0, 0]
  padding    := [0, 0]
  size       := by decide

-- One frame from the target, and one whose protocol is not TCP.
theorem ethRecv_decodes_of_two_frames :
    (∃ pkt, ethRecv sampleTarget (fun info _ => info) clearPacket
        (some (tcpFrame sampleTarget.endpoint (1, 1024)).frame) = (pkt, 0) ∧
      pkt.Carries (tcpFrame sampleTarget.endpoint (1, 1024)) ∧ pkt.dir = .response) ∧
    ∃ pkt, ethRecv sampleTarget (fun info _ => info) clearPacket
        (some ⟨List.replicate 60 0, by decide⟩) = (pkt, 1) ∧
      pkt.toPacketInfo = clearPacket.toPacketInfo := by
  have ⟨hframes, hothers⟩ := ethRecv_decodes sampleTarget (fun info _ => info) clearPacket
  have ⟨haccept, hcarry⟩ := hframes (tcpFrame sampleTarget.endpoint (1, 1024))
  have hr := haccept.mpr (.inl rfl)
  have ⟨hc, hd⟩ := hcarry hr
  refine ⟨⟨_, Prod.ext rfl hr, hc, hd⟩, hothers _ (by decide) (by decide) fun h => ?_⟩
  exact absurd h.protocol (by decide)
