import TnsParser.Library.Sequences
import TnsParser.OracleTns.VisibleRun

-- The handlers for the messages in a data packet. Their `pkt` is the data of the packet, while their
-- `len` is that of the whole packet.

def cString (p : Bytes) : Option Bytes :=
  Terminated.read 0 p

def strlen (p : Bytes) : Option Nat :=
  (cString p).map (·.length)

-- What `snprintf(buf, n, "%s", p)` leaves in `buf`. It reads the string at `p` to its end.
def snprintf (n : Nat) (p : Bytes) : Option Bytes :=
  (cString p).map (·.take (n - 1))

def printVersion (sess : TnsSession) : Printf where
  fmt  := "%s %s tns data : version :%d"
  args := [.str sess.curSessDesc, .str (directionStr sess.curDir), .num sess.version.toNat]

-- The report of the longest visible run in 313, which goes through a local buffer of `size` bytes.
def printRun313 (size : Nat) (fmt : String) : Handler := fun pkt len sess => do
  let (ptr, runLen) ← reading .dataHandler (parseContinuousVisibleCharacters pkt len)
  let runLen := if runLen < size - 1 then runLen else size - 1
  let text ← reading .dataHandler (snprintf runLen (pkt.drop ptr))
  return ⟨.success, sess, [printVersion sess, ⟨fmt, [.num runLen, .text text]⟩]⟩

-- The report of the longest visible run in 314, which is printed from where it is.
def printRun314 (fmt : String) : Handler := fun pkt len sess => do
  let (ptr, runLen) ← reading .dataHandler (parseContinuousVisibleCharacters pkt len)
  let text ← reading .dataHandler (cString (pkt.drop ptr))
  return ⟨.success, sess, [⟨fmt, [.num runLen, .text text]⟩]⟩

-- The second of two strings that follow each other from `pkt + 3` on.
def platform (pkt : Bytes) : Option Bytes :=
  strlen (pkt.drop 3) |>.bind fun n => cString (pkt.drop (3 + (n + 1)))

def printPlatform (pre : TnsSession → List Printf) (request response : String) : Handler :=
  fun pkt _ sess => do
    let text ← reading .dataHandler (platform pkt)
    let fmt := match sess.curDir with | .request => request | .response => response
    return ⟨.success, sess, pre sess ++ [⟨fmt, [.text text]⟩]⟩

-- The four bytes at `pkt + 8`.
def networkVersion (pkt : Bytes) : Option (List UInt8) :=
  if pkt.length < 12 then none else some ((pkt.drop 8).take 4)

def printNetworkVersion (pre : TnsSession → List Printf) (request response : String) : Handler :=
  fun pkt _ sess => do
    let ver ← reading .dataHandler (networkVersion pkt)
    let fmt := match sess.curDir with | .request => request | .response => response
    return ⟨.success, sess, pre sess ++ [⟨fmt, ver.map (.num ·.toNat)⟩]⟩

def tns313RS : Handler := fun pkt len sess => do
  if len ≤ 0 then
    return ⟨.success, sess, []⟩
  printRun313 128 "    return status len:%d %s\n" pkt len sess

def tns313OCI : Handler := fun pkt len sess => do
  if len ≤ 0 then
    return ⟨.success, sess, []⟩
  let sub ← reading .dataHandler pkt[3]?
  if sub = 0x5e then
    printRun313 1024 "    sql len:%d %s\n" pkt len sess
  else if sub = 0x73 then
    return ⟨.success, { sess with state := .logingIn }, [printVersion sess, ⟨"    loging on\n", []⟩]⟩
  else
    return ⟨.success, sess, []⟩

def tns313SP : Handler := fun pkt len sess => do
  if len ≤ 0 then
    return ⟨.success, sess, []⟩
  printPlatform (fun sess => [printVersion sess]) "    Client Platform %s\n" "    Server Banner %s\n"
    pkt len sess

def tns313SNS : Handler := fun pkt len sess => do
  if len ≤ 0 then
    return ⟨.success, sess, []⟩
  printNetworkVersion (fun sess => [printVersion sess]) "    Client Version: %d.%d.%d.%d\n"
    "    Server Version: %d.%d.%d.%d\n" pkt len sess

def tns314RS : Handler := fun pkt len sess => do
  if len ≤ 0 then
    return ⟨.success, sess, []⟩
  let sub ← reading .dataHandler pkt[3]?
  if sub = 0x5e ∨ sub = 0x04 then
    printRun314 "return status : %d\n%s\n" pkt len sess
  else
    return ⟨.success, sess, []⟩

def tns314OCI : Handler := fun pkt len sess => do
  if len ≤ 0 then
    return ⟨.success, sess, []⟩
  let sub ← reading .dataHandler pkt[3]?
  if sub = 0x5e then
    printRun314 "query sql :len %d %s\n" pkt len sess
  else
    return ⟨.success, sess, []⟩

def tns314SP : Handler := fun pkt len sess => do
  if len ≤ 0 then
    return ⟨.success, sess, []⟩
  printPlatform (fun _ => []) "client platform %s\n" "server platform %s\n" pkt len sess

def tns314SNS : Handler := fun pkt len sess => do
  if len ≤ 0 then
    return ⟨.success, sess, []⟩
  printNetworkVersion (fun _ => []) "client version: %d.%d.%d.%d\n" "server version: %d.%d.%d.%d\n"
    pkt len sess

def msgDataIdHandles : List PktHandle := [
  ⟨tns313, DataId.sns.val, tns313SNS⟩,
  ⟨tns313, DataId.sp.val,  tns313SP⟩,
  ⟨tns313, DataId.oci.val, tns313OCI⟩,
  ⟨tns313, DataId.rs.val,  tns313RS⟩,
  ⟨tns314, DataId.sns.val, tns314SNS⟩,
  ⟨tns314, DataId.sp.val,  tns314SP⟩,
  ⟨tns314, DataId.oci.val, tns314OCI⟩,
  ⟨tns314, DataId.rs.val,  tns314RS⟩
]

def msgDataIdHandle (ver : UInt16) (type : UInt8) : List PktHandle → Handler
  | [], _, _, sess               => .ok ⟨.dataId, sess, []⟩
  | ph :: phs, pkt, len, sess =>
    match ph.func with
    | none      => msgDataIdHandle ver type phs pkt len sess
    | some func =>
      if ph.version = ver ∧ ph.type = type then
        func pkt len sess
      else
        msgDataIdHandle ver type phs pkt len sess
