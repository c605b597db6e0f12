import TnsParser.Session.Basic

def tnsHeadLen : Nat := 8

def offsetTnsDataOffset : Nat := 4

-- The fields of a packet. Those of a body are relative to `pktData`, with the exception of the data of a
-- refuse packet and their length.

def pktLen (pkt : Bytes) : Option UInt16 :=
  pkt.ushort? 0 |>.map ntohs

def pktCksum (pkt : Bytes) : Option UInt16 :=
  pkt.ushort? 2 |>.map ntohs

def pktType (pkt : Bytes) : Option UInt8 :=
  pkt[4]?

def pktResv (pkt : Bytes) : Option UInt8 :=
  pkt[5]?

-- The offset is that of `pktCksum`.
def pktHeadCksum (pkt : Bytes) : Option UInt16 :=
  pkt.ushort? 2 |>.map ntohs

def pktData (pkt : Bytes) : Bytes :=
  pkt.drop tnsHeadLen

def connectVer (pkt : Bytes) : Option UInt16 :=
  (pktData pkt).ushort? 0 |>.map ntohs

def connectVerCompatible (pkt : Bytes) : Option UInt16 :=
  (pktData pkt).ushort? 2 |>.map ntohs

def connectDataLen (pkt : Bytes) : Option UInt16 :=
  (pktData pkt).ushort? 16 |>.map ntohs

def connectDataOffset (pkt : Bytes) : Option UInt16 :=
  (pktData pkt).ushort? 18 |>.map ntohs

def acceptVer (pkt : Bytes) : Option UInt16 :=
  (pktData pkt).ushort? 0 |>.map ntohs

def acceptDataLen (pkt : Bytes) : Option UInt16 :=
  (pktData pkt).ushort? 30 |>.map ntohs

def acceptDataOffset (pkt : Bytes) : Option UInt16 :=
  (pktData pkt).ushort? 32 |>.map ntohs

def refuseProCause (pkt : Bytes) : Option UInt8 :=
  (pktData pkt)[0]?

def refuseSysCause (pkt : Bytes) : Option UInt8 :=
  (pktData pkt)[1]?

def refuseDataLen (pkt : Bytes) : Option UInt16 :=
  pkt.ushort? 2 |>.map ntohs

def refuseData (pkt : Bytes) : Bytes :=
  pkt.drop 4

def dataFlag (pkt : Bytes) : Option UInt16 :=
  (pktData pkt).ushort? 0 |>.map ntohs

def dataId (pkt : Bytes) : Option UInt8 :=
  (pktData pkt)[2]?

def dataIdSub (pkt : Bytes) : Option UInt8 :=
  (pktData pkt)[3]?

variable {pkt : Bytes}

theorem pktLen_eq_none_iff : pktLen pkt = none ↔ pkt.length ≤ 1 := by
  simp [pktLen, Bytes.ushort?_eq_none_iff]

theorem pktType_eq_none_iff : pktType pkt = none ↔ pkt.length ≤ 4 := by
  simp [pktType]

theorem connectVer_eq_none_iff : connectVer pkt = none ↔ pkt.length ≤ 9 := by
  simp [connectVer, pktData, tnsHeadLen, Bytes.ushort?_eq_none_iff]

theorem connectVerCompatible_eq_none_iff : connectVerCompatible pkt = none ↔ pkt.length ≤ 11 := by
  simp [connectVerCompatible, pktData, tnsHeadLen, Bytes.ushort?_eq_none_iff]

theorem exists_connectVers (h : 11 < pkt.length) :
    ∃ ver verCompatible, connectVer pkt = some ver ∧ connectVerCompatible pkt = some verCompatible := by
  obtain ⟨ver, hv⟩ := Option.ne_none_iff_exists'.mp <|
    connectVer_eq_none_iff.not.mpr (by omega : ¬pkt.length ≤ 9)
  obtain ⟨verCompatible, hc⟩ := Option.ne_none_iff_exists'.mp <|
    connectVerCompatible_eq_none_iff.not.mpr (Nat.not_le_of_lt h)
  exact ⟨ver, verCompatible, hv, hc⟩

theorem connectDataLen_eq_none_iff : connectDataLen pkt = none ↔ pkt.length ≤ 25 := by
  simp [connectDataLen, pktData, tnsHeadLen, Bytes.ushort?_eq_none_iff]

theorem connectDataOffset_eq_none_iff : connectDataOffset pkt = none ↔ pkt.length ≤ 27 := by
  simp [connectDataOffset, pktData, tnsHeadLen, Bytes.ushort?_eq_none_iff]

theorem acceptVer_eq_none_iff : acceptVer pkt = none ↔ pkt.length ≤ 9 := by
  simp [acceptVer, pktData, tnsHeadLen, Bytes.ushort?_eq_none_iff]

theorem acceptDataLen_eq_none_iff : acceptDataLen pkt = none ↔ pkt.length ≤ 39 := by
  simp [acceptDataLen, pktData, tnsHeadLen, Bytes.ushort?_eq_none_iff]

theorem refuseDataLen_eq_none_iff : refuseDataLen pkt = none ↔ pkt.length ≤ 3 := by
  simp [refuseDataLen, Bytes.ushort?_eq_none_iff]

theorem dataId_eq_none_iff : dataId pkt = none ↔ pkt.length ≤ 10 := by
  simp [dataId, pktData, tnsHeadLen]

inductive PktType
  | connect
  | accept
  | ack
  | refuse
  | redirect
  | data
  | null
  | unknown1
  | abort
  | unknown2
  | resend
  | marker
  | unknown3
  | unknown4
  deriving DecidableEq

def PktType.val : PktType → UInt8
  | connect  => 1
  | accept   => 2
  | ack      => 3
  | refuse   => 4
  | redirect => 5
  | data     => 6
  | null     => 7
  | unknown1 => 8
  | abort    => 9
  | unknown2 => 10
  | resend   => 11
  | marker   => 12
  | unknown3 => 13
  | unknown4 => 14

-- `enum Data_id_ver313` and `enum Data_id_ver314`, which have the same values.
inductive DataId
  | sns
  | sp
  | oci
  | rs
  deriving DecidableEq

def DataId.val : DataId → UInt8
  | sns => 0xde
  | sp  => 0x01
  | oci => 0x03
  | rs  => 0x04

def tns313 : UInt16 := 313

def tns314 : UInt16 := 314

inductive ErrorCode
  | success
  | pktLen
  | pktType
  | dataId
  deriving DecidableEq

-- What a handler returns, the session it leaves, and what it prints.
structure Outcome where
  code : ErrorCode
  sess : TnsSession
  out  : List Printf
  deriving DecidableEq

abbrev Handler := Bytes → Nat → TnsSession → Except Fault Outcome

structure PktHandle where
  version : UInt16
  type    : UInt8
  func    : Option Handler

def directionStr : Direction → String
  | .request  => "REQUEST"
  | .response => "RESPONSE"
