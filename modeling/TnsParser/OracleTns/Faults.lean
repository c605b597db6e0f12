import TnsParser.OracleTns.Effect

open Except

-- The faults that each part of the parser can end in.

section ConnectData

variable {bufin text : Bytes} {inlen outlen i n : Nat} {bad : Fault → Prop}

-- The loop reads nothing but the bytes from `i` to `i + n + 1`.

theorem jsonPiece_avoids (byte : ∀ j ≤ i + 2, Avoids bad (connectDataByte bufin inlen j)) :
    Avoids bad (jsonPiece bufin inlen i) := by
  have prev := byte i (by omega)
  have next := byte (i + 2) (by omega)
  refine avoids_bind.mpr ⟨byte _ (by omega), fun c _ => ?_⟩
  refine avoids_ite (avoids_bind.mpr ⟨prev, fun _ _ => avoids_pure⟩) ?_
  refine avoids_ite (avoids_bind.mpr ⟨next, fun _ _ => avoids_pure⟩) ?_
  refine avoids_ite (avoids_bind.mpr ⟨next, fun _ _ => ?_⟩) avoids_pure
  exact avoids_bind.mpr ⟨prev, fun _ _ => avoids_pure⟩

theorem jsonLoop_avoids (byte : ∀ j ≤ i + n + 1, Avoids bad (connectDataByte bufin inlen j)) :
    Avoids bad (jsonLoop bufin inlen outlen n i text) := by
  induction n generalizing i text
  case zero => exact avoids_ok
  case succ hi =>
    refine avoids_bind.mpr ⟨?_, fun _ _ => hi fun j hj => byte j (by omega)⟩
    exact avoids_ite (jsonPiece_avoids fun j hj => byte j (by omega)) avoids_pure

theorem parseConnectDataToJson_avoids (byte : ∀ j, Avoids bad (connectDataByte bufin inlen j)) :
    Avoids bad (parseConnectDataToJson bufin inlen outlen) := by
  refine avoids_bind.mpr ⟨byte 0, fun first _ => avoids_ite avoids_pure ?_⟩
  refine avoids_bind.mpr ⟨jsonLoop_avoids fun j _ => byte j, fun text _ => ?_⟩
  refine avoids_bind.mpr ⟨byte _, fun last _ => avoids_ite avoids_pure ?_⟩
  exact avoids_bind.mpr ⟨byte _, fun _ _ => avoids_pure⟩

end ConnectData

section Json

variable {object : Option CJson} {string : Bytes} {fmt : String} {root : CJson} {bad : Fault → Prop}

theorem cJSONGetObjectItem_avoids (hb : ¬bad .nullPointer) :
    Avoids bad (cJSONGetObjectItem object string) := by
  cases object
  case none =>
    rintro e he ⟨⟩
    exact hb he
  case some => exact avoids_ok

theorem printItem_avoids (hb : ¬bad .nullPointer) : Avoids bad (printItem object string fmt) := by
  refine avoids_bind.mpr ⟨cJSONGetObjectItem_avoids hb, fun value _ => ?_⟩
  cases value <;> exact avoids_pure

theorem printDescription_avoids (hb : ¬bad .nullPointer) : Avoids bad (printDescription root) := by
  refine avoids_bind.mpr ⟨cJSONGetObjectItem_avoids hb, fun desc _ => ?_⟩
  cases desc
  case none => exact avoids_pure
  case some =>
    refine avoids_bind.mpr ⟨cJSONGetObjectItem_avoids hb, fun _ _ => ?_⟩
    refine avoids_bind.mpr ⟨printItem_avoids hb, fun _ _ => ?_⟩
    refine avoids_bind.mpr ⟨cJSONGetObjectItem_avoids hb, fun _ _ => ?_⟩
    refine avoids_bind.mpr ⟨printItem_avoids hb, fun _ _ => ?_⟩
    exact avoids_bind.mpr ⟨printItem_avoids hb, fun _ _ => avoids_pure⟩

end Json

-- The handlers for the messages in the data have faults of their own only.
section DataHandlers

variable {pkt : Bytes} {len : Nat} {sess : TnsSession} {bad : Fault → Prop}

theorem printRun313_avoids {size : Nat} {fmt : String} (hb : ¬bad (.outOfBounds .dataHandler)) :
    Avoids bad (printRun313 size fmt pkt len sess) :=
  avoids_reading_bind hb fun _ => avoids_reading_bind hb fun _ => avoids_pure

theorem printRun314_avoids {fmt : String} (hb : ¬bad (.outOfBounds .dataHandler)) :
    Avoids bad (printRun314 fmt pkt len sess) :=
  avoids_reading_bind hb fun _ => avoids_reading_bind hb fun _ => avoids_pure

theorem printPlatform_avoids {pre : TnsSession → List Printf} {request response : String}
    (hb : ¬bad (.outOfBounds .dataHandler)) :
    Avoids bad (printPlatform pre request response pkt len sess) :=
  avoids_reading_bind hb fun _ => avoids_pure

theorem printNetworkVersion_avoids {pre : TnsSession → List Printf} {request response : String}
    (hb : ¬bad (.outOfBounds .dataHandler)) :
    Avoids bad (printNetworkVersion pre request response pkt len sess) :=
  avoids_reading_bind hb fun _ => avoids_pure

theorem msgDataIdHandles_avoids {ph : PktHandle} {func : Handler}
    (hb : ¬bad (.outOfBounds .dataHandler)) (h : ph ∈ msgDataIdHandles) (hf : func ∈ ph.func) :
    Avoids bad (func pkt len sess) := by
  simp only [msgDataIdHandles, List.mem_cons, List.not_mem_nil, or_false] at h
  rcases h with rfl | rfl | rfl | rfl | rfl | rfl | rfl | rfl <;> cases hf
  · exact avoids_ite avoids_pure <| printNetworkVersion_avoids hb
  · exact avoids_ite avoids_pure <| printPlatform_avoids hb
  · exact avoids_ite avoids_pure <| avoids_reading_bind hb fun _ =>
      avoids_ite (printRun313_avoids hb) <| avoids_ite avoids_pure avoids_pure
  · exact avoids_ite avoids_pure <| printRun313_avoids hb
  · exact avoids_ite avoids_pure <| printNetworkVersion_avoids hb
  · exact avoids_ite avoids_pure <| printPlatform_avoids hb
  · exact avoids_ite avoids_pure <| avoids_reading_bind hb fun _ =>
      avoids_ite (printRun314_avoids hb) avoids_pure
  · exact avoids_ite avoids_pure <| avoids_reading_bind hb fun _ =>
      avoids_ite (printRun314_avoids hb) avoids_pure

theorem tnsDataHandle_avoids (hb : ¬bad (.outOfBounds .dataHandler))
    (hid : tnsHeadLen + offsetTnsDataOffset < len → Avoids bad (reading .handler (dataId pkt))) :
    Avoids bad (tnsDataHandle pkt len sess) := by
  rw [tnsDataHandle]
  refine avoids_ite avoids_pure ?_
  split
  case isTrue => exact avoids_pure
  case isFalse h =>
    refine avoids_bind.mpr ⟨hid <| Nat.lt_of_not_le h, fun id _ => ?_⟩
    refine avoids_bind.mpr ⟨?_, fun _ _ => avoids_pure⟩
    cases msgDataIdHandle_cases sess.version id msgDataIdHandles
    case inl h =>
      have ⟨ph, hph, func, hf, _, he⟩ := h
      exact he ▸ msgDataIdHandles_avoids hb hph hf
    case inr h => exact h.right ▸ avoids_ok

end DataHandlers

section NullPointer

variable {cJSONParse : Bytes → Option CJson} {pkt data : Bytes} {len : Nat} {sess : TnsSession}

-- A look-up below `DESCRIPTION` is one in an item that is not there.
def CJson.Incomplete (root : CJson) : Prop :=
  ∃ desc ∈ root.item? (cstr "DESCRIPTION"),
    ∀ connData ∈ desc.item? (cstr "CONNECT_DATA"), connData.item? (cstr "CID") = none

-- The JSON value of the connect data.
def connectJson? (cJSONParse : Bytes → Option CJson) (pkt : Bytes) : Option CJson :=
  (connectDataLen pkt).bind fun len => (connectDataOffset pkt).bind fun offset =>
    match parseConnectDataToJson (pkt.drop offset.toNat) len.toNat (2 * len.toNat) with
    | .ok (_, jsonbuf, _) => cJSONParse jsonbuf
    | .error _            => none

-- A connect packet with incomplete data.
def ConnectIncomplete (cJSONParse : Bytes → Option CJson) (data : Bytes) (len : Nat) : Prop :=
  HasConnectData data len ∧ ∃ root ∈ connectJson? cJSONParse data, root.Incomplete

theorem printItem_none (string : Bytes) (fmt : String) :
    printItem none string fmt = .error .nullPointer :=
  rfl

theorem printItem_some (object : CJson) (string : Bytes) (fmt : String) :
    ∃ out, printItem object string fmt = .ok out := by
  cases h : object.item? string
  case none       => exact ⟨[], by simp [printItem, cJSONGetObjectItem, h]; rfl⟩
  case some value =>
    exact ⟨if value.type = cJSONString then [⟨fmt, [.text value.valuestring]⟩] else [],
      by simp [printItem, cJSONGetObjectItem, h]; rfl⟩

theorem printDescription_eq_nullPointer_iff {root : CJson} :
    printDescription root = .error .nullPointer ↔ root.Incomplete := by
  rw [printDescription, cJSONGetObjectItem, CJson.Incomplete]
  cases root.item? (cstr "DESCRIPTION")
  case none      => simp [bind, Except.bind, pure, Except.pure]
  case some desc =>
    cases hc : desc.item? (cstr "CONNECT_DATA")
    case none => simp [bind, Except.bind, cJSONGetObjectItem, printItem_none, hc]
    case some connData =>
      have ⟨name, hname⟩ := printItem_some connData (cstr "SERVICE_NAME") "    SERVICE_NAME : %s\n"
      cases hcid : connData.item? (cstr "CID")
      case none => simp [bind, Except.bind, cJSONGetObjectItem, hc, hname, hcid, printItem_none]
      case some cid =>
        have ⟨host, hhost⟩ := printItem_some cid (cstr "HOST") "    HOST : %s\n"
        have ⟨user, huser⟩ := printItem_some cid (cstr "USER") "    USER : %s\n"
        simp [bind, Except.bind, pure, Except.pure, cJSONGetObjectItem, hc, hname, hcid, hhost, huser]

theorem tnsConnectHandle_eq_nullPointer_iff :
    tnsConnectHandle cJSONParse pkt len sess = .error .nullPointer ↔
      (tnsHeadLen < len ∧ connectDataLen pkt ≠ some 0) ∧
        ∃ root ∈ connectJson? cJSONParse pkt, root.Incomplete := by
  rw [tnsConnectHandle, connectJson?]
  by_cases h : len ≤ tnsHeadLen
  case pos => simp [h, Nat.not_lt_of_le h, pure, Except.pure]
  case neg =>
    simp only [h, if_false, Nat.lt_of_not_le h, true_and]
    cases connectDataLen pkt
    case none => simp [bind_eq_error, reading]
    case some dataLen =>
      by_cases hz : dataLen = 0
      case pos => simp [hz, bind_eq_error, reading, pure, Except.pure]
      case neg =>
        cases ho : connectDataOffset pkt
        case none =>
          simp [hz, bind_eq_error, reading_eq_error, reading_eq_ok]
        case some offset =>
          have hlen : ¬pkt.length ≤ 27 := connectDataOffset_eq_none_iff.not.mp (by simp [ho])
          have hlen : 28 ≤ pkt.length := by omega
          obtain ⟨ver, compatible, hv, hc⟩ := exists_connectVers (by omega : 11 < pkt.length)
          have hparse : Avoids (· = .nullPointer) <|
              parseConnectDataToJson (pkt.drop offset.toNat) dataLen.toNat (2 * dataLen.toNat) :=
            parseConnectDataToJson_avoids fun _ =>
              avoids_reading.mpr fun h => absurd h (Fault.outOfBounds_ne_nullPointer _)
          simp only [hz, hv, hc, reading, bind_eq_error, Option.bind_some, reduceCtorEq, false_or,
            Option.some.injEq, Except.ok.injEq, exists_eq_left', UInt16.le_zero_iff, if_false, ne_eq,
            not_false_eq_true, true_and]
          generalize parseConnectDataToJson _ _ _ = r at hparse ⊢
          cases r
          case error e =>
            have he : e ≠ .nullPointer := fun h => hparse e h rfl
            simp [he]
          case ok r =>
            obtain ⟨_, json, _⟩ := r
            cases hj : cJSONParse json <;>
              simp [hj, bind_eq_error, pure, Except.pure, printDescription_eq_nullPointer_iff]

theorem packetHandle_eq_nullPointer_iff {type : UInt8} :
    packetHandle type (msgTypeHandles cJSONParse) pkt len sess = .error .nullPointer ↔
      type = PktType.connect.val ∧ (tnsHeadLen < len ∧ connectDataLen pkt ≠ some 0) ∧
        ∃ root ∈ connectJson? cJSONParse pkt, root.Incomplete := by
  have others {x : Except Fault Outcome} (h : Avoids (· = .nullPointer) x)
      (hc : type ≠ PktType.connect.val) :
      x = .error .nullPointer ↔ type = PktType.connect.val ∧
        (tnsHeadLen < len ∧ connectDataLen pkt ≠ some 0) ∧
          ∃ root ∈ connectJson? cJSONParse pkt, root.Incomplete :=
    iff_of_false (h _ rfl) fun h => hc h.left
  have inside : Fault.outOfBounds .handler ≠ .nullPointer := Fault.outOfBounds_ne_nullPointer _
  rw [packetHandle_msgTypeHandles]
  simp only [pktTypeHandler]
  by_cases hc : type = PktType.connect.val
  case pos => simp only [hc, if_true, true_and, tnsConnectHandle_eq_nullPointer_iff]
  case neg =>
    refine others ?_ hc
    by_cases ha : type = PktType.accept.val
    case pos =>
      subst ha
      exact avoids_ite avoids_pure <| avoids_reading_bind inside fun _ =>
        avoids_reading_bind inside fun _ => avoids_pure
    case neg =>
      by_cases hr : type = PktType.refuse.val
      case pos =>
        subst hr
        exact avoids_ite avoids_pure <| avoids_reading_bind inside fun _ => avoids_pure
      case neg =>
        by_cases hd : type = PktType.data.val
        case pos =>
          subst hd
          exact tnsDataHandle_avoids (Fault.outOfBounds_ne_nullPointer _) fun _ =>
            avoids_reading.mpr fun h => absurd h inside
        case neg =>
          simp only [hc, ha, hr, hd, if_false]
          by_cases hs : type = PktType.resend.val <;> simp [hs, tnsResendHandle]

-- The parser goes through a null pointer for incomplete connect data only.
theorem tnsProtocolParse_eq_nullPointer_iff (sess : TnsSession) :
    tnsProtocolParse cJSONParse data len sess = .error .nullPointer ↔
      ConnectIncomplete cJSONParse data len := by
  rw [ConnectIncomplete, HasConnectData, IsHandled, LenMatches]
  cases hl : pktLen data
  case none => simp [tnsProtocolParse, bind_eq_error, reading, hl]
  case some l =>
    by_cases hlen : len = l.toNat
    case neg => simp [tnsProtocolParse, bind_eq_error, reading, hl, hlen, Ne.symm hlen, pure, Except.pure]
    case pos =>
      cases ht : pktType data
      case none => simp [tnsProtocolParse, bind_eq_error, reading, hl, hlen, ht]
      case some type =>
        simp [tnsProtocolParse, bind_eq_error, reading, hl, hlen, ht, packetHandle_eq_nullPointer_iff,
          and_assoc]

end NullPointer
