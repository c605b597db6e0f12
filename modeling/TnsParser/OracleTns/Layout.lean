import TnsParser.OracleTns.Packet

-- Packets as they are laid out, and what the accessors read of them.

structure TnsPktHead where
  len       : UInt16
  pktCksum  : UInt16
  type      : UInt8
  resv      : UInt8
  headCkcum : UInt16

def TnsPktHead.encode (h : TnsPktHead) : Bytes :=
  Bytes.ofShort h.len ++ Bytes.ofShort h.pktCksum ++ [h.type, h.resv] ++ Bytes.ofShort h.headCkcum

-- A body has the fields that there are accessors for. What lies between them and behind them is
-- arbitrary.

structure ConnectBody where
  version           : UInt16
  versionCompatible : UInt16
  options           : Vector UInt8 12
  dataLen           : UInt16
  dataOffset        : UInt16
  rest              : Bytes

structure AcceptBody where
  version    : UInt16
  options    : Vector UInt8 28
  dataLen    : UInt16
  dataOffset : UInt16
  rest       : Bytes

structure RefuseBody where
  proCause : UInt8
  sysCause : UInt8
  data     : Bytes
  size     : data.length < 2 ^ 16

structure DataBody where
  flag  : UInt16
  id    : UInt8
  idSub : UInt8
  rest  : Bytes

def RefuseBody.dataLen (b : RefuseBody) : UInt16 :=
  UInt16.ofNat b.data.length

inductive TnsBody
  | connect (b : ConnectBody)
  | accept (b : AcceptBody)
  | refuse (b : RefuseBody)
  | data (b : DataBody)

namespace TnsBody

def encode : TnsBody → Bytes
  | connect b =>
    Bytes.ofShort b.version ++ Bytes.ofShort b.versionCompatible ++ b.options.toList ++
      Bytes.ofShort b.dataLen ++ Bytes.ofShort b.dataOffset ++ b.rest
  | accept b =>
    Bytes.ofShort b.version ++ b.options.toList ++ Bytes.ofShort b.dataLen ++
      Bytes.ofShort b.dataOffset ++ b.rest
  | refuse b => [b.proCause, b.sysCause] ++ Bytes.ofShort b.dataLen ++ b.data
  | data b   => Bytes.ofShort b.flag ++ [b.id, b.idSub] ++ b.rest

end TnsBody

-- The accessors return the fields of the head.
structure ReadsHead (pkt : Bytes) (h : TnsPktHead) : Prop where
  len       : pktLen pkt = h.len
  pktCksum  : pktCksum pkt = h.pktCksum
  type      : pktType pkt = h.type
  resv      : pktResv pkt = h.resv
  headCksum : pktHeadCksum pkt = h.headCkcum

-- The accessors return the fields of the body. That of the data of a refuse packet returns a pointer.
def ReadsBody (pkt : Bytes) : TnsBody → Prop
  | .connect b =>
    connectVer pkt = b.version ∧ connectVerCompatible pkt = b.versionCompatible ∧
      connectDataLen pkt = b.dataLen ∧ connectDataOffset pkt = b.dataOffset
  | .accept b =>
    acceptVer pkt = b.version ∧ acceptDataLen pkt = b.dataLen ∧ acceptDataOffset pkt = b.dataOffset
  | .refuse b =>
    refuseProCause pkt = b.proCause ∧ refuseSysCause pkt = b.sysCause ∧
      refuseDataLen pkt = b.dataLen ∧ b.data <+: refuseData pkt
  | .data b   => dataFlag pkt = b.flag ∧ dataId pkt = b.id ∧ dataIdSub pkt = b.idSub

variable {h : TnsPktHead} {b : TnsBody} {p body : Bytes}

theorem length_encode_head : h.encode.length = tnsHeadLen := rfl

theorem pktData_encode : pktData (h.encode ++ body) = body :=
  List.drop_left' length_encode_head

theorem encode_liesAt {n : Nat} (hl : h.encode.LiesAt n p) : (h.encode ++ body).LiesAt n p := by
  have hlies : (h.encode ++ body).LiesAt 0 h.encode := List.prefix_append ..
  simpa using hlies.trans hl

-- All fields of the head are read, but for the second checksum, in whose place the first one is read.
theorem readsHead_iff : ReadsHead (h.encode ++ body) h ↔ h.headCkcum = h.pktCksum := by
  have hlen : pktLen (h.encode ++ body) = h.len := by
    refine Bytes.LiesAt.ushort? (encode_liesAt ?_)
    simp [Bytes.LiesAt, TnsPktHead.encode]
  have hcksum : pktCksum (h.encode ++ body) = h.pktCksum := by
    refine Bytes.LiesAt.ushort? (encode_liesAt ?_)
    simp [Bytes.LiesAt, TnsPktHead.encode, Bytes.ofShort]
  have hheadCksum : pktHeadCksum (h.encode ++ body) = h.pktCksum := hcksum
  constructor
  case mp  => exact fun hr => Option.some.inj <| hr.headCksum.symm.trans hheadCksum
  case mpr => exact fun he => ⟨hlen, hcksum, rfl, rfl, he ▸ hheadCksum⟩

-- The eight bytes before the data of a refuse packet.
def beforeData (h : TnsPktHead) (b : RefuseBody) : Bytes :=
  [h.type, h.resv] ++ Bytes.ofShort h.headCkcum ++ [b.proCause, b.sysCause] ++ Bytes.ofShort b.dataLen

-- The fields of a body are read. In a refuse packet, however, the first checksum is read as the length of
-- the data, and the data are looked for eight bytes before their place.
theorem readsBody_iff : ReadsBody (h.encode ++ b.encode) b ↔
    ∀ r, b = .refuse r → h.pktCksum = r.dataLen ∧ r.data <+: beforeData h r ++ r.data := by
  cases b
  case connect b =>
    refine iff_of_true ?_ (by simp)
    refine ⟨?_, ?_, ?_, ?_⟩
    all_goals
      refine Bytes.LiesAt.ushort? ?_
      rw [pktData_encode]
      simp [Bytes.LiesAt, TnsBody.encode, Bytes.ofShort, List.drop_append, List.drop_of_length_le]
  case accept b =>
    refine iff_of_true ?_ (by simp)
    refine ⟨?_, ?_, ?_⟩
    all_goals
      refine Bytes.LiesAt.ushort? ?_
      rw [pktData_encode]
      simp [Bytes.LiesAt, TnsBody.encode, Bytes.ofShort, List.drop_append, List.drop_of_length_le]
  case data b =>
    refine iff_of_true ⟨?_, ?_, ?_⟩ (by simp)
    · refine Bytes.LiesAt.ushort? ?_
      rw [pktData_encode]
      simp [Bytes.LiesAt, TnsBody.encode]
    · rw [dataId, pktData_encode]
      rfl
    · rw [dataIdSub, pktData_encode]
      rfl
  case refuse r =>
    have hlen : refuseDataLen (h.encode ++ (TnsBody.refuse r).encode) = h.pktCksum := by
      refine Bytes.LiesAt.ushort? (encode_liesAt ?_)
      simp [Bytes.LiesAt, TnsPktHead.encode, Bytes.ofShort]
    have hdata : refuseData (h.encode ++ (TnsBody.refuse r).encode) = beforeData h r ++ r.data := by
      simp [refuseData, TnsPktHead.encode, TnsBody.encode, beforeData, Bytes.ofShort]
    simp only [ReadsBody, refuseProCause, refuseSysCause, pktData_encode, hlen, hdata,
      TnsBody.refuse.injEq, forall_eq', Option.some.injEq]
    exact and_iff_right rfl |>.trans <| and_iff_right rfl

-- The accessors undo the layout if and only if both checksums are equal and, in a refuse packet, the
-- first one is the length of the data, and the data repeat the eight bytes before them.
theorem accessors_iff (h : TnsPktHead) (b : TnsBody) :
    ReadsHead (h.encode ++ b.encode) h ∧ ReadsBody (h.encode ++ b.encode) b ↔
      h.headCkcum = h.pktCksum ∧
        ∀ r, b = .refuse r → h.pktCksum = r.dataLen ∧ r.data <+: beforeData h r ++ r.data :=
  and_congr readsHead_iff readsBody_iff

-- A refuse packet with data, whose first checksum is not used.
theorem accessors_of_refuse :
    ¬∀ (h : TnsPktHead) (b : TnsBody),
      ReadsHead (h.encode ++ b.encode) h ∧ ReadsBody (h.encode ++ b.encode) b := by
  intro hall
  let h : TnsPktHead := ⟨14, 0, 4, 0, 0⟩
  let b : TnsBody := .refuse ⟨1, 2, [0x28, 0x29], by decide⟩
  have ⟨_, _, _, hlen, _⟩ := hall h b
  exact absurd hlen (by decide)
