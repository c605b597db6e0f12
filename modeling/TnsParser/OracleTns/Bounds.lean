import TnsParser.OracleTns.Faults

open Except

-- A read of the parser, of one of the four packet handlers, or of the connect data, that is not inside
-- the memory.
def PacketFault (e : Fault) : Prop :=
  e = .outOfBounds .protocolParse ∨ e = .outOfBounds .handler ∨ e = .outOfBounds .connectData

section ConnectData

variable {bufin text : Bytes} {inlen outlen i n : Nat} {bad : Fault → Prop}

theorem connectDataByte_avoids_iff :
    Avoids PacketFault (connectDataByte bufin inlen i) ↔ (i < inlen → i < bufin.length) := by
  rw [connectDataByte, avoids_reading]
  by_cases h : i < inlen <;> simp [h, PacketFault]

theorem connectDataByte_avoids_others (h : i < inlen) :
    Avoids (· ≠ .outOfBounds .connectData) (connectDataByte bufin inlen i) := by
  simp [connectDataByte, avoids_reading, h]

-- The translation stays inside of the memory when there is a first byte, and when there are all bytes
-- of a text that starts with a parenthesis.
theorem parseConnectDataToJson_avoids_iff (hl : 0 < inlen) :
    Avoids PacketFault (parseConnectDataToJson bufin inlen outlen) ↔
      0 < bufin.length ∧ (bufin[0]? = some (cchar '(') → inlen ≤ bufin.length) := by
  simp only [parseConnectDataToJson, avoids_bind, connectDataByte_avoids_iff, hl, true_implies]
  constructor
  case mp =>
    intro ⟨hb, h⟩
    refine ⟨hb, fun hf => ?_⟩
    have first : connectDataByte bufin inlen 0 = .ok (cchar '(') := reading_eq_ok.mpr hf
    have h := h _ first
    simp only [ne_eq, not_true_eq_false, if_false, avoids_bind] at h
    have ⟨loop, h⟩ := h
    by_cases hi : inlen - 2 + 1 < inlen
    case pos =>
      have others : Avoids (· ≠ .outOfBounds .connectData)
          (jsonLoop bufin inlen outlen (inlen - 2) 0 (cstr "\x7b\"")) :=
        jsonLoop_avoids fun j hj => connectDataByte_avoids_others (by omega)
      have ⟨text, ht⟩ := exists_ok_of_avoids loop others fun e => by
        by_cases he : e = .outOfBounds .connectData <;> simp [he, PacketFault]
      have last := h text ht |>.left
      have := connectDataByte_avoids_iff.mp last hi
      omega
    case neg => omega
  case mpr =>
    intro ⟨hb, h⟩
    by_cases hf : bufin[0]? = some (cchar '(')
    case pos =>
      have byte (j : Nat) : Avoids PacketFault (connectDataByte bufin inlen j) :=
        connectDataByte_avoids_iff.mpr fun hj => Nat.lt_of_lt_of_le hj (h hf)
      exact avoids_bind.mp (parseConnectDataToJson_avoids byte) |>.imp_left fun _ => hb
    case neg =>
      refine ⟨hb, fun first hfirst => ?_⟩
      have hne : first ≠ cchar '(' := by
        rintro rfl
        exact hf (reading_eq_ok.mp hfirst)
      simp [hne]

end ConnectData

-- The fields of a connect packet, and its data where there is any, are inside of it.
def ConnectFits (pkt : Bytes) : Prop :=
  26 ≤ pkt.length ∧
    ∀ len ∈ connectDataLen pkt, len ≠ 0 → 28 ≤ pkt.length ∧
      ∀ offset ∈ connectDataOffset pkt, offset.toNat < pkt.length ∧
        (pkt[offset.toNat]? = some (cchar '(') → offset.toNat + len.toNat ≤ pkt.length)

def AcceptFits (pkt : Bytes) : Prop :=
  40 ≤ pkt.length

variable {cJSONParse : Bytes → Option CJson} {pkt data : Bytes} {len : Nat} {sess : TnsSession}

theorem reading_handler_avoids_iff {α β : Type} {o : Option α} {f : α → Except Fault β} :
    Avoids PacketFault (reading .handler o >>= f) ↔
      o ≠ none ∧ ∀ a ∈ o, Avoids PacketFault (f a) := by
  simp [avoids_bind, avoids_reading, PacketFault, reading_eq_ok]

-- The connect data lies at an offset in the packet.
theorem connectData_avoids_iff {off inlen outlen : Nat} (hl : 0 < inlen) :
    Avoids PacketFault (parseConnectDataToJson (pkt.drop off) inlen outlen) ↔
      off < pkt.length ∧ (pkt[off]? = some (cchar '(') → off + inlen ≤ pkt.length) := by
  rw [parseConnectDataToJson_avoids_iff hl, List.length_drop, List.getElem?_drop, Nat.add_zero]
  refine and_congr (by omega) <| imp_congr_right fun _ => ?_
  omega

theorem tnsConnectHandle_avoids_iff :
    Avoids PacketFault (tnsConnectHandle cJSONParse pkt len sess) ↔
      (tnsHeadLen < len → ConnectFits pkt) := by
  rw [tnsConnectHandle]
  split
  case isTrue h => exact iff_of_true avoids_pure fun h' => absurd h (Nat.not_le_of_lt h')
  case isFalse h =>
    simp only [Nat.lt_of_not_le h, true_implies, ConnectFits, reading_handler_avoids_iff]
    refine and_congr (connectDataLen_eq_none_iff.not.trans Nat.not_le) ?_
    refine forall₂_congr fun dataLen _ => ?_
    split
    case isTrue hz => simp [UInt16.le_zero_iff.mp hz]
    case isFalse hz =>
      have hz : 0 < dataLen.toNat := by
        simpa [UInt16.le_iff_toNat_le, Nat.pos_iff_ne_zero] using hz
      have hne : dataLen ≠ 0 := by
        rintro rfl
        contradiction
      simp only [reading_handler_avoids_iff, hne, ne_eq, not_false_eq_true, true_implies,
        connectVer_eq_none_iff, connectVerCompatible_eq_none_iff, connectDataOffset_eq_none_iff,
        Nat.not_le]
      constructor
      case mp =>
        rintro ⟨hv, h⟩
        obtain ⟨v, hv⟩ :=
          Option.ne_none_iff_exists'.mp <| connectVer_eq_none_iff.not.mpr (Nat.not_le.mpr hv)
        obtain ⟨hc, h⟩ := h v hv
        obtain ⟨c, hc⟩ :=
          Option.ne_none_iff_exists'.mp <| connectVerCompatible_eq_none_iff.not.mpr (Nat.not_le.mpr hc)
        obtain ⟨ho, h⟩ := h c hc
        exact ⟨ho, fun off hoff => connectData_avoids_iff hz |>.mp (avoids_bind.mp (h off hoff)).left⟩
      case mpr =>
        rintro ⟨ho, h⟩
        refine ⟨by omega, fun v _ => ⟨by omega, fun c _ => ⟨ho, fun off hoff => ?_⟩⟩⟩
        refine avoids_bind.mpr ⟨connectData_avoids_iff hz |>.mpr (h off hoff), fun json _ => ?_⟩
        split
        case h_1 => exact avoids_pure
        case h_2 =>
          exact avoids_bind.mpr
            ⟨printDescription_avoids (by simp [PacketFault]), fun _ _ => avoids_pure⟩

theorem tnsAcceptHandle_avoids_iff :
    Avoids PacketFault (tnsAcceptHandle pkt len sess) ↔ (tnsHeadLen < len → AcceptFits pkt) := by
  rw [tnsAcceptHandle]
  split
  case isTrue h => exact iff_of_true avoids_pure fun h' => absurd h (Nat.not_le_of_lt h')
  case isFalse h =>
    simp only [Nat.lt_of_not_le h, true_implies, AcceptFits, reading_handler_avoids_iff,
      ne_eq, acceptVer_eq_none_iff, acceptDataLen_eq_none_iff, avoids_pure, implies_true, and_true]
    constructor
    case mp =>
      rintro ⟨hv, h⟩
      obtain ⟨v, hv⟩ := Option.ne_none_iff_exists'.mp <| acceptVer_eq_none_iff.not.mpr hv
      exact Nat.lt_of_not_le <| h v hv
    case mpr => exact fun h => ⟨by omega, fun _ _ => by omega⟩

theorem tnsRefuseHandle_avoids (h : 5 ≤ pkt.length) :
    Avoids PacketFault (tnsRefuseHandle pkt len sess) := by
  rw [tnsRefuseHandle]
  split
  case isTrue => exact avoids_pure
  case isFalse =>
    refine reading_handler_avoids_iff.mpr ⟨refuseDataLen_eq_none_iff.not.mpr ?_, fun _ _ => avoids_pure⟩
    omega

-- The length is there. When it is that of the packet, the type is too, and so is what the handler of a
-- connect or an accept packet reads after its test for the length of the head.
def PacketFits (data : Bytes) : Prop :=
  2 ≤ data.length ∧
    ∀ l ∈ pktLen data, data.length = l.toNat →
      5 ≤ data.length ∧
        (tnsHeadLen < data.length →
          (pktType data = some PktType.connect.val → ConnectFits data) ∧
          (pktType data = some PktType.accept.val → AcceptFits data))

theorem packetHandle_avoids_iff {type : UInt8} (h : 5 ≤ data.length) :
    Avoids PacketFault (packetHandle type (msgTypeHandles cJSONParse) data data.length sess) ↔
      (tnsHeadLen < data.length →
        (type = PktType.connect.val → ConnectFits data) ∧
        (type = PktType.accept.val → AcceptFits data)) := by
  rw [packetHandle_msgTypeHandles]
  simp only [pktTypeHandler]
  by_cases hc : type = PktType.connect.val
  case pos => simp [hc, tnsConnectHandle_avoids_iff, PktType.val]
  case neg =>
    by_cases ha : type = PktType.accept.val
    case pos => simp [ha, tnsAcceptHandle_avoids_iff, PktType.val]
    case neg =>
      simp only [hc, ha, false_implies, and_self, implies_true, iff_true, if_false]
      by_cases hr : type = PktType.refuse.val
      case pos => simp [hr, tnsRefuseHandle_avoids h]
      case neg =>
        by_cases hd : type = PktType.data.val
        case pos =>
          have hid : dataId data = none ↔ data.length ≤ 10 := dataId_eq_none_iff
          have hdata : Avoids PacketFault (tnsDataHandle data data.length sess) := by
            refine tnsDataHandle_avoids (by simp [PacketFault]) fun hl => ?_
            simp only [tnsHeadLen, offsetTnsDataOffset] at hl
            exact avoids_reading.mpr fun _ => hid.not.mpr (by omega)
          simpa [hd, PktType.val] using hdata
        case neg =>
          by_cases hs : type = PktType.resend.val
          case pos => simp [hs, PktType.val, tnsResendHandle]
          case neg => simp [hr, hd, hs]

-- The parser stays inside of a packet if and only if its fields fit.
theorem tnsProtocolParse_avoids_iff (cJSONParse : Bytes → Option CJson) (data : Bytes)
    (sess : TnsSession) :
    Avoids PacketFault (tnsProtocolParse cJSONParse data data.length sess) ↔ PacketFits data := by
  rw [tnsProtocolParse, avoids_bind, avoids_reading, PacketFits]
  simp only [PacketFault, true_or, true_implies, ne_eq, pktLen_eq_none_iff, reading_eq_ok]
  refine and_congr (by omega) <| forall₂_congr fun l _ => ?_
  by_cases hl : data.length = l.toNat
  case neg => simp [hl]
  case pos =>
    have htype : pktType data = none ↔ data.length ≤ 4 := pktType_eq_none_iff
    rw [if_neg (not_not.mpr hl), imp_iff_right hl, avoids_bind, avoids_reading]
    cases ht : pktType data
    case none => simpa [PacketFault, ht, Nat.lt_succ_iff] using htype
    case some type =>
      have h5 : 5 ≤ data.length := by
        simp only [ht, reduceCtorEq, false_iff] at htype
        omega
      simp [h5, reading_eq_ok, packetHandle_avoids_iff]

-- A connect packet that ends with its type.
theorem tnsProtocolParse_reads_behind_packet :
    ¬∀ (cJSONParse : Bytes → Option CJson) (data : Bytes) (sess : TnsSession),
      Avoids PacketFault (tnsProtocolParse cJSONParse data data.length sess) := by
  intro h
  exact h (fun _ => none) [0, 9, 0, 0, 1, 0, 0, 0, 0] .zero (.outOfBounds .handler)
    (by simp [PacketFault]) rfl
