import TnsParser.CJson
import TnsParser.OracleTns.ConnectData
import TnsParser.OracleTns.DataHandlers

-- What is printed for the item `string` of `object`.
def printItem (object : Option CJson) (string : Bytes) (fmt : String) :
    Except Fault (List Printf) := do
  match ← cJSONGetObjectItem object string with
  | some value => return if value.type = cJSONString then [⟨fmt, [.text value.valuestring]⟩] else []
  | none       => return []

-- The part of `tns_connect_handle` from the item `DESCRIPTION` on. The tests that follow the look-ups
-- of `CONNECT_DATA` and `CID` are for `desc`, which is not null there.
def printDescription (root : CJson) : Except Fault (List Printf) := do
  match ← cJSONGetObjectItem root (cstr "DESCRIPTION") with
  | none      => return []
  | some desc =>
    let connData ← cJSONGetObjectItem desc (cstr "CONNECT_DATA")
    let serviceName ← printItem connData (cstr "SERVICE_NAME") "    SERVICE_NAME : %s\n"
    let cid ← cJSONGetObjectItem connData (cstr "CID")
    let host ← printItem cid (cstr "HOST") "    HOST : %s\n"
    let user ← printItem cid (cstr "USER") "    USER : %s\n"
    return serviceName ++ host ++ user

section

variable (cJSONParse : Bytes → Option CJson)

def tnsConnectHandle : Handler := fun pkt len sess => do
  if len ≤ tnsHeadLen then
    return ⟨.success, sess, []⟩
  let dataLen ← reading .handler (connectDataLen pkt)
  if dataLen ≤ 0 then
    return ⟨.success, sess, []⟩
  let version ← reading .handler (connectVer pkt)
  let versionCompatible ← reading .handler (connectVerCompatible pkt)
  let sess := { sess with version, versionCompatible, state := .connect }
  let offset ← reading .handler (connectDataOffset pkt)
  let (_, jsonbuf, outlen) ←
    parseConnectDataToJson (pkt.drop offset.toNat) dataLen.toNat (2 * dataLen.toNat)
  let args := [.str sess.curSessDesc, .str (directionStr sess.curDir), .num outlen]
  let out : List Printf := [⟨"%s %s connect data len:%d\n", args⟩]
  match cJSONParse jsonbuf with
  | none      => return ⟨.success, sess, out⟩
  | some root => return ⟨.success, sess, out ++ (← printDescription root)⟩

def tnsAcceptHandle : Handler := fun pkt len sess => do
  if len ≤ tnsHeadLen then
    return ⟨.success, sess, []⟩
  let version ← reading .handler (acceptVer pkt)
  let sess := { sess with version, state := .accept }
  let _ ← reading .handler (acceptDataLen pkt)
  return ⟨.success, sess, []⟩

def tnsRefuseHandle : Handler := fun pkt len sess => do
  if len ≤ tnsHeadLen then
    return ⟨.success, sess, []⟩
  let sess := { sess with state := .refuse }
  let _ ← reading .handler (refuseDataLen pkt)
  return ⟨.success, sess, []⟩

-- What `msg_data_id_handle` returns is not used.
def tnsDataHandle : Handler := fun pkt len sess => do
  if len ≤ tnsHeadLen then
    return ⟨.success, sess, []⟩
  let sess := { sess with state := .data }
  if len ≤ tnsHeadLen + offsetTnsDataOffset then
    return ⟨.success, sess, []⟩
  let id ← reading .handler (dataId pkt)
  let o ← msgDataIdHandle sess.version id msgDataIdHandles (pktData pkt) len sess
  return { o with code := .success }

def tnsResendHandle : Handler := fun _ _ sess =>
  .ok ⟨.success, sess, []⟩

def msgTypeHandles : List PktHandle := [
  ⟨0, PktType.connect.val,  tnsConnectHandle cJSONParse⟩,
  ⟨0, PktType.accept.val,   tnsAcceptHandle⟩,
  ⟨0, PktType.ack.val,      none⟩,
  ⟨0, PktType.refuse.val,   tnsRefuseHandle⟩,
  ⟨0, PktType.redirect.val, none⟩,
  ⟨0, PktType.data.val,     tnsDataHandle⟩,
  ⟨0, PktType.null.val,     none⟩,
  ⟨0, PktType.unknown1.val, none⟩,
  ⟨0, PktType.abort.val,    none⟩,
  ⟨0, PktType.unknown2.val, none⟩,
  ⟨0, PktType.resend.val,   tnsResendHandle⟩,
  ⟨0, PktType.marker.val,   none⟩,
  ⟨0, PktType.unknown3.val, none⟩,
  ⟨0, PktType.unknown4.val, none⟩
]

def packetHandle (type : UInt8) : List PktHandle → Handler
  | [],        _,   _,   sess => .ok ⟨.pktType, sess, []⟩
  | ph :: phs, pkt, len, sess =>
    match ph.func with
    | none      => packetHandle type phs pkt len sess
    | some func => if ph.type = type then func pkt len sess else packetHandle type phs pkt len sess

def tnsProtocolParse : Handler := fun data len sess => do
  let pktLen ← reading .protocolParse (pktLen data)
  if len ≠ pktLen.toNat then
    return ⟨.pktLen, sess, []⟩
  let type ← reading .protocolParse (pktType data)
  packetHandle type (msgTypeHandles cJSONParse) data len sess

end
