import TnsParser.CJson.Checked
import TnsParser.OracleTns.Codes
import TnsParser.OracleTns.JsonBuffer

-- The parser of packets, where what C leaves undefined in the handler of connect packets ends it: a text
-- that is longer than `jsonbuf`, and what the parser of cJSON leaves undefined.

open Except

inductive Halt
  | fault (f : Fault)
  | undefined (u : Undefined)

def halting {α : Type} (x : Except Fault α) : Except Halt α :=
  x.mapError .fault

theorem halting_eq_ok {α : Type} {x : Except Fault α} {a : α} : halting x = .ok a ↔ x = .ok a :=
  mapError_eq_ok

theorem halting_bind {α β : Type} {x : Except Fault α} {f : α → Except Fault β} :
    halting (x >>= f) = halting x >>= fun a => halting (f a) :=
  mapError_bind

abbrev HandlerChecked := Bytes → Nat → TnsSession → Except Halt Outcome

-- A handler that has no buffers.
def Handler.checked (h : Handler) : HandlerChecked := fun pkt len sess =>
  halting (h pkt len sess)

structure PktHandleChecked where
  version : UInt16
  type    : UInt8
  func    : Option HandlerChecked

-- `parse_connect_data_to_json` only adds to the text, and clears the rest of the buffer first.
def tnsConnectHandleChecked : HandlerChecked := fun pkt len sess => do
  if len ≤ tnsHeadLen then
    return ⟨.success, sess, []⟩
  let dataLen ← halting <| reading .handler (connectDataLen pkt)
  if dataLen ≤ 0 then
    return ⟨.success, sess, []⟩
  let version ← halting <| reading .handler (connectVer pkt)
  let versionCompatible ← halting <| reading .handler (connectVerCompatible pkt)
  let sess := { sess with version, versionCompatible, state := .connect }
  let offset ← halting <| reading .handler (connectDataOffset pkt)
  let (_, jsonbuf, outlen) ← halting <|
    parseConnectDataToJson (pkt.drop offset.toNat) dataLen.toNat (2 * dataLen.toNat)
  if 2 * dataLen.toNat < jsonbuf.length + 1 then
    .error (.undefined .overrun)
  else
    let args := [.str sess.curSessDesc, .str (directionStr sess.curDir), .num outlen]
    let out : List Printf := [⟨"%s %s connect data len:%d\n", args⟩]
    let root ← (cJSONParseChecked (2 * dataLen.toNat - jsonbuf.length) jsonbuf).mapError .undefined
    match root with
    | none      => return ⟨.success, sess, out⟩
    | some root =>
      let report ← halting <| printDescription root
      return ⟨.success, sess, out ++ report⟩

def msgTypeHandlesChecked : List PktHandleChecked := [
  ⟨0, PktType.connect.val,  some tnsConnectHandleChecked⟩,
  ⟨0, PktType.accept.val,   some <| Handler.checked tnsAcceptHandle⟩,
  ⟨0, PktType.ack.val,      none⟩,
  ⟨0, PktType.refuse.val,   some <| Handler.checked tnsRefuseHandle⟩,
  ⟨0, PktType.redirect.val, none⟩,
  ⟨0, PktType.data.val,     some <| Handler.checked tnsDataHandle⟩,
  ⟨0, PktType.null.val,     none⟩,
  ⟨0, PktType.unknown1.val, none⟩,
  ⟨0, PktType.abort.val,    none⟩,
  ⟨0, PktType.unknown2.val, none⟩,
  ⟨0, PktType.resend.val,   some <| Handler.checked tnsResendHandle⟩,
  ⟨0, PktType.marker.val,   none⟩,
  ⟨0, PktType.unknown3.val, none⟩,
  ⟨0, PktType.unknown4.val, none⟩
]

def packetHandleChecked (type : UInt8) : List PktHandleChecked → HandlerChecked
  | [],        _,   _,   sess => .ok ⟨.pktType, sess, []⟩
  | ph :: phs, pkt, len, sess =>
    match ph.func with
    | none      => packetHandleChecked type phs pkt len sess
    | some func => if ph.type = type then func pkt len sess else packetHandleChecked type phs pkt len sess

def tnsProtocolParseChecked : HandlerChecked := fun data len sess => do
  let pktLen ← halting <| reading .protocolParse (pktLen data)
  if len ≠ pktLen.toNat then
    return ⟨.pktLen, sess, []⟩
  let type ← halting <| reading .protocolParse (pktType data)
  packetHandleChecked type msgTypeHandlesChecked data len sess

-- What the parser of cJSON gets for connect data.
def jsonText (bufin : Bytes) : Bytes :=
  if bufin.head? = some (cchar '(') then (translated bufin).flatMap piece else []

-- The data of a connect packet whose translation fits its buffer, and has no string that is undefined.
structure StaysInBlocks (bufin : Bytes) (inlen : Nat) : Prop where
  buffer  : FitsBuffer (bufin.take inlen)
  strings : ∃ root, cJSONParseChecked (2 * inlen - (jsonText (bufin.take inlen)).length)
    (jsonText (bufin.take inlen)) = .ok root

def ConnectDefined (data : Bytes) (len : Nat) : Prop :=
  HasConnectData data len → ∀ dataLen ∈ connectDataLen data, ∀ offset ∈ connectDataOffset data,
    StaysInBlocks (data.drop offset.toNat) dataLen.toNat

section

variable {stale : Bytes → UInt32} {bufin text pkt data : Bytes} {inlen outlen len : Nat} {code : Int}
  {sess : TnsSession} {o : Outcome}

-- A text of two bytes at least, of which the last one has been read.
theorem exists_connectData (h : parseConnectDataToJson bufin inlen outlen = .ok (code, text, len))
    (hf : bufin.head? = some (cchar '(')) (hlen : 2 ≤ inlen) :
    ∃ p last rest, bufin = cchar '(' :: (p ++ last :: rest) ∧ inlen = p.length + 2 := by
  obtain ⟨q, rfl⟩ := List.head?_eq_some_iff.mp hf
  obtain ⟨first, hfirst, h⟩ := bind_eq_ok.mp h
  have hfirst : first = cchar '(' := ok.inj <| hfirst.symm.trans <| connectDataByte_eq rfl
  rw [if_neg (not_not_intro hfirst)] at h
  obtain ⟨_, -, h⟩ := bind_eq_ok.mp h
  obtain ⟨last, hlast, -⟩ := bind_eq_ok.mp h
  have hlast : q[inlen - 2]? = some last := reading_eq_ok.mp hlast
  obtain ⟨hlt, hget⟩ := List.getElem?_eq_some_iff.mp hlast
  refine ⟨q.take (inlen - 2), last, q.drop (inlen - 2 + 1), ?_, ?_⟩
  · rw [← hget, ← List.drop_eq_getElem_cons hlt, List.take_append_drop]
  · rw [List.length_take_of_le (Nat.le_of_lt hlt)]
    omega

-- Without a parenthesis at the start, there is no text.
theorem text_eq_nil (h : parseConnectDataToJson bufin inlen outlen = .ok (code, text, len))
    (hf : bufin.head? ≠ some (cchar '(')) : text = [] := by
  obtain ⟨first, hfirst, h⟩ := bind_eq_ok.mp h
  have hfirst : bufin[0]? = some first := reading_eq_ok.mp hfirst
  rw [List.head?_eq_getElem?, hfirst, ne_eq, Option.some.injEq] at hf
  rw [if_pos hf] at h
  cases h
  rfl

-- A parenthesis alone takes two bytes and the terminator at least.
theorem two_le_length_of_one (h : parseConnectDataToJson bufin 1 outlen = .ok (code, text, len))
    (hf : bufin.head? = some (cchar '(')) : 2 ≤ text.length := by
  obtain ⟨q, rfl⟩ := List.head?_eq_some_iff.mp hf
  obtain ⟨first, hfirst, h⟩ := bind_eq_ok.mp h
  have hfirst : first = cchar '(' := ok.inj <| hfirst.symm.trans <| connectDataByte_eq rfl
  rw [if_neg (not_not_intro hfirst)] at h
  obtain ⟨start, hstart, h⟩ := bind_eq_ok.mp h
  have hstart : start = cstr "\x7b\"" := (ok.inj hstart).symm
  have htwo : start.length = 2 := by rw [hstart]; rfl
  obtain ⟨last, -, h⟩ := bind_eq_ok.mp h
  split at h
  case isTrue =>
    cases h
    exact Nat.le_of_eq htwo.symm
  case isFalse =>
    obtain ⟨prev, -, h⟩ := bind_eq_ok.mp h
    cases h
    rw [List.length_append, htwo]
    exact Nat.le_add_right 2 _

theorem text_eq_flatMap {p rest : Bytes} {last : UInt8} (ho : 2 < outlen)
    (h : parseConnectDataToJson (cchar '(' :: (p ++ last :: rest)) (p.length + 2) outlen = .ok (code, text, len)) :
    text = (translated (cchar '(' :: (p ++ [last]))).flatMap piece := by
  rw [parseConnectDataToJson_eq ho] at h
  rw [flatMap_translated]
  split at h
  case isTrue hl =>
    cases h
    rw [if_pos hl]
  case isFalse hl =>
    cases h
    rw [if_neg hl]

-- The text that the translator leaves is shorter than the buffer for data that fits, and only for such
-- data.
theorem text_fits_iff (hpos : 0 < inlen)
    (h : parseConnectDataToJson bufin inlen (2 * inlen) = .ok (code, text, outlen)) :
    (text.length + 1 ≤ 2 * inlen ↔ FitsBuffer (bufin.take inlen)) ∧
      (FitsBuffer (bufin.take inlen) → text = jsonText (bufin.take inlen)) := by
  have hhead : (bufin.take inlen).head? = bufin.head? := by
    rw [List.head?_take, if_neg (by omega)]
  by_cases hf : bufin.head? = some (cchar '(')
  case neg =>
    have htext : text = [] := text_eq_nil h hf
    refine ⟨iff_of_true ?_ fun h => absurd (hhead ▸ h) hf, fun _ => ?_⟩
    · rw [htext, List.length_nil]
      omega
    · rw [htext, jsonText, if_neg (hhead ▸ hf)]
  case pos =>
    by_cases hlen : 2 ≤ inlen
    case neg =>
      have hone : inlen = 1 := by omega
      subst hone
      have hnot : ¬FitsBuffer (bufin.take 1) := by
        intro hfits
        have htwo := (hfits (hhead.trans hf)).left
        rw [List.length_take] at htwo
        omega
      have htwo : 2 ≤ text.length := two_le_length_of_one h hf
      exact ⟨iff_of_false (by omega) hnot, fun h => absurd h hnot⟩
    case pos =>
      obtain ⟨p, last, rest, rfl, rfl⟩ := exists_connectData h hf hlen
      have htake : (cchar '(' :: (p ++ last :: rest)).take (p.length + 2) = cchar '(' :: (p ++ [last]) := by
        have hmem : cchar '(' :: (p ++ last :: rest) = (cchar '(' :: (p ++ [last])) ++ rest := by simp
        rw [hmem, List.take_left' (by simp)]
      rw [htake, text_eq_flatMap (by omega) h, fitsBuffer_iff, jsonText]
      exact ⟨Iff.rfl, fun _ => rfl⟩

-- The handler for data that stay in the blocks: what C leaves undefined has no part in it.
theorem tnsConnectHandleChecked_eq (h : ∀ dataLen ∈ connectDataLen pkt, ∀ offset ∈ connectDataOffset pkt,
      dataLen ≠ 0 → StaysInBlocks (pkt.drop offset.toNat) dataLen.toNat) :
    tnsConnectHandleChecked pkt len sess = halting (tnsConnectHandle (cJSONParse stale) pkt len sess) := by
  rw [tnsConnectHandleChecked, tnsConnectHandle]
  by_cases hlen : len ≤ tnsHeadLen
  case pos => rw [if_pos hlen, if_pos hlen]; rfl
  case neg =>
    rw [if_neg hlen, if_neg hlen, halting_bind]
    refine bind_congr' _ fun dataLen hdata => ?_
    have hdata : connectDataLen pkt = some dataLen := reading_eq_ok.mp <| halting_eq_ok.mp hdata
    by_cases hz : dataLen ≤ 0
    case pos => rw [if_pos hz, if_pos hz]; rfl
    case neg =>
      rw [if_neg hz, if_neg hz, halting_bind]
      refine bind_congr' _ fun version _ => ?_
      rw [halting_bind]
      refine bind_congr' _ fun versionCompatible _ => ?_
      rw [halting_bind]
      refine bind_congr' _ fun offset hoffset => ?_
      have hoffset : connectDataOffset pkt = some offset := reading_eq_ok.mp <| halting_eq_ok.mp hoffset
      obtain ⟨hbuffer, root, hroot⟩ := h dataLen hdata offset hoffset <| mt UInt16.le_zero_iff.mpr hz
      rw [halting_bind]
      refine bind_congr' _ fun json htext => ?_
      obtain ⟨code, text, outlen⟩ := json
      have hpos : 0 < dataLen.toNat :=
        Nat.pos_of_ne_zero fun h0 => hz <| UInt16.le_zero_iff.mpr <| UInt16.toNat_inj.mp h0
      obtain ⟨hfits, heq⟩ := text_fits_iff hpos <| halting_eq_ok.mp htext
      rw [← heq hbuffer] at hroot
      dsimp only
      rw [if_neg (Nat.not_lt.mpr (hfits.mpr hbuffer)), hroot, ← cJSONParseChecked_ensures _ stale text root hroot]
      cases root
      case none      => rfl
      case some root =>
        dsimp only
        rw [halting_bind]
        rfl

-- Where the handler returns, the data stay in the blocks.
theorem staysInBlocks_of_ok (h : tnsConnectHandleChecked pkt len sess = .ok o) (hlen : tnsHeadLen < len) :
    ∀ dataLen ∈ connectDataLen pkt, ∀ offset ∈ connectDataOffset pkt,
      dataLen ≠ 0 → StaysInBlocks (pkt.drop offset.toNat) dataLen.toNat := by
  intro dataLen hdata offset hoffset hz
  rw [tnsConnectHandleChecked, if_neg (Nat.not_le.mpr hlen)] at h
  obtain ⟨_, hr, h⟩ := bind_eq_ok.mp h
  cases hdata.symm.trans <| reading_eq_ok.mp <| halting_eq_ok.mp hr
  rw [if_neg (mt UInt16.le_zero_iff.mp hz)] at h
  obtain ⟨_, -, h⟩ := bind_eq_ok.mp h
  obtain ⟨_, -, h⟩ := bind_eq_ok.mp h
  obtain ⟨_, hr, h⟩ := bind_eq_ok.mp h
  cases hoffset.symm.trans <| reading_eq_ok.mp <| halting_eq_ok.mp hr
  obtain ⟨⟨code, text, outlen⟩, htext, h⟩ := bind_eq_ok.mp h
  have hpos : 0 < dataLen.toNat := Nat.pos_of_ne_zero fun h0 => hz <| UInt16.toNat_inj.mp h0
  obtain ⟨hfits, heq⟩ := text_fits_iff hpos <| halting_eq_ok.mp htext
  dsimp only at h
  split at h
  case isTrue => cases h
  case isFalse hover =>
    have hbuffer := hfits.mp <| Nat.not_lt.mp hover
    obtain ⟨root, hroot, -⟩ := bind_eq_ok.mp h
    rw [heq hbuffer] at hroot
    exact ⟨hbuffer, root, mapError_eq_ok.mp hroot⟩

theorem packetHandleChecked_connect :
    packetHandleChecked PktType.connect.val msgTypeHandlesChecked pkt len sess =
      tnsConnectHandleChecked pkt len sess :=
  rfl

-- The other handlers have no buffers.
theorem packetHandleChecked_eq {type : UInt8} (h : type ≠ PktType.connect.val) :
    packetHandleChecked type msgTypeHandlesChecked pkt len sess =
      halting (packetHandle type (msgTypeHandles (cJSONParse stale)) pkt len sess) := by
  simp only [packetHandleChecked, msgTypeHandlesChecked, packetHandle, msgTypeHandles, Ne.symm h, if_false]
  split_ifs <;> rfl

theorem tnsProtocolParseChecked_eq (h : ConnectDefined data len) :
    tnsProtocolParseChecked data len sess = halting (tnsProtocolParse (cJSONParse stale) data len sess) := by
  rw [tnsProtocolParseChecked, tnsProtocolParse, halting_bind]
  refine bind_congr' _ fun l hl => ?_
  have hl : pktLen data = some l := reading_eq_ok.mp <| halting_eq_ok.mp hl
  by_cases hlen : len ≠ l.toNat
  case pos => rw [if_pos hlen, if_pos hlen]; rfl
  case neg =>
    rw [if_neg hlen, if_neg hlen, halting_bind]
    refine bind_congr' _ fun type ht => ?_
    have ht : pktType data = some type := reading_eq_ok.mp <| halting_eq_ok.mp ht
    by_cases hc : type = PktType.connect.val
    case neg => exact packetHandleChecked_eq hc
    case pos =>
      subst hc
      rw [packetHandleChecked_connect, packetHandle_msgTypeHandles]
      by_cases hhead : tnsHeadLen < len
      case pos =>
        have hmatches : LenMatches data len := by
          rw [LenMatches, hl, Option.map_some, not_not.mp hlen]
        refine tnsConnectHandleChecked_eq fun dataLen hdata offset hoffset hz => ?_
        refine h ⟨⟨hmatches, ht, hhead⟩, fun h0 => hz ?_⟩ dataLen hdata offset hoffset
        exact Option.some.inj <| (Option.mem_def.mp hdata).symm.trans h0
      case neg =>
        have hhead : len ≤ tnsHeadLen := Nat.not_lt.mp hhead
        rw [tnsConnectHandleChecked, if_pos hhead]
        simp only [pktTypeHandler, if_true, tnsConnectHandle, if_pos hhead]
        rfl

theorem connectDefined_of_ok (h : tnsProtocolParseChecked data len sess = .ok o) : ConnectDefined data len := by
  intro hc dataLen hdata offset hoffset
  obtain ⟨⟨hmatches, ht, hhead⟩, hz⟩ := hc
  obtain ⟨l, hl, rfl⟩ := Option.map_eq_some_iff.mp hmatches
  obtain ⟨_, hr, h⟩ := bind_eq_ok.mp h
  cases hl.symm.trans <| reading_eq_ok.mp <| halting_eq_ok.mp hr
  rw [if_neg (not_not_intro rfl)] at h
  obtain ⟨_, hr, h⟩ := bind_eq_ok.mp h
  cases ht.symm.trans <| reading_eq_ok.mp <| halting_eq_ok.mp hr
  rw [packetHandleChecked_connect] at h
  exact staysInBlocks_of_ok h hhead dataLen hdata offset hoffset fun h0 => hz (h0 ▸ hdata)

-- The parser returns if and only if the connect data stay in the blocks and the parser without blocks
-- returns, with the same outcome, whatever it finds in a variable that is not set.
theorem tnsProtocolParseChecked_ok_iff (stale : Bytes → UInt32) :
    tnsProtocolParseChecked data len sess = .ok o ↔
      ConnectDefined data len ∧ tnsProtocolParse (cJSONParse stale) data len sess = .ok o := by
  constructor
  case mp =>
    intro h
    have hdefined := connectDefined_of_ok h
    rw [tnsProtocolParseChecked_eq hdefined] at h
    exact ⟨hdefined, halting_eq_ok.mp h⟩
  case mpr =>
    rintro ⟨hdefined, h⟩
    rw [tnsProtocolParseChecked_eq hdefined, h]
    rfl

def IsOutside (e : Halt) : Prop :=
  ∃ site, e = .fault (.outOfBounds site)

-- The reads are outside of the packet in both parsers, or in none.
theorem avoids_isOutside (h : ConnectDefined data len) :
    Avoids IsOutside (tnsProtocolParseChecked data len sess) →
      Avoids IsOutOfBounds (tnsProtocolParse (cJSONParse stale) data len sess) := by
  rw [tnsProtocolParseChecked_eq h]
  rintro hin e ⟨site, rfl⟩ he
  rw [he] at hin
  exact hin _ ⟨site, rfl⟩ rfl

-- For reads that are inside of the packet: the parser returns, with a code that is right, if and only
-- if the packet is not a message that the table does not know, and no incomplete connect packet, and
-- connect data stay in the blocks.

-- A packet of the type `resend`.

-- A data packet before the version is known.

end
