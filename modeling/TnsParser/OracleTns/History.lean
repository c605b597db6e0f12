import TnsParser.Library.Latest
import TnsParser.OracleTns.Effect

open Except

-- What the packets before have to do with the session and with the handler of a message.

-- A call of `TNS_protocol_parse`. The caller sets the direction and the description of the session before.
structure ParseCall where
  data : Bytes
  len  : Nat
  dir  : Direction
  desc : String

def TnsSession.called (sess : TnsSession) (p : ParseCall) : TnsSession :=
  { sess with curDir := p.dir, curSessDesc := p.desc }

-- The packets are given to the parser one after the other, with the same session.
def parseAll (cJSONParse : Bytes → Option CJson) (sess : TnsSession) (ps : List ParseCall) :
    Except Fault TnsSession :=
  ps.foldlM (fun sess p => do
    let o ← tnsProtocolParse cJSONParse p.data p.len (sess.called p)
    return o.sess) sess

-- The entry that the search of `msg_data_id_handle` ends at.
def msgDataIdEntry (ver : UInt16) (type : UInt8) (phs : List PktHandle) : Option PktHandle :=
  phs.find? fun ph => ph.func.isSome ∧ ph.version = ver ∧ ph.type = type

-- The entry for the message of a packet.
def dispatched? (data : Bytes) (len : Nat) (sess : TnsSession) : Option PktHandle :=
  if HasMessage data len then
    (dataId data).bind fun id => msgDataIdEntry sess.version id msgDataIdHandles
  else
    none

-- The search runs the handler of the entry.
def runEntry (entry : Option PktHandle) : Handler := fun pkt len sess =>
  match entry.bind (·.func) with
  | some func => func pkt len sess
  | none      => .ok ⟨.dataId, sess, []⟩

-- The packets that a history is about are those that count.
section History

variable (counts : ParseCall → Prop)

def IsPacket (type : PktType) (p : ParseCall) : Prop :=
  counts p ∧ pktType p.data = some type.val ∧ tnsHeadLen < p.len

def IsMessage (p : ParseCall) : Prop :=
  IsPacket counts .data p ∧ tnsHeadLen + offsetTnsDataOffset < p.len

def SetsVersion (p : ParseCall) : Prop :=
  IsPacket counts .connect p ∧ connectDataLen p.data ≠ some 0 ∨ IsPacket counts .accept p

def WritesState (p : ParseCall) : Prop :=
  SetsVersion counts p ∨ IsPacket counts .refuse p ∨ IsPacket counts .data p

def versionField (p : ParseCall) : Option UInt16 :=
  if pktType p.data = some PktType.connect.val then connectVer p.data else acceptVer p.data

-- The version of the last packet that sets it.
def InForce (ps : List ParseCall) (ver : UInt16) : Prop :=
  ∃ before p, IsLatest (SetsVersion counts) ps before p ∧ versionField p = some ver

def HasEntry (ver : UInt16) (id : UInt8) : Prop :=
  ∃ ph ∈ msgDataIdHandles, ph.func.isSome ∧ ph.version = ver ∧ ph.type = id

-- What the version and the state have to do with the packets before.
structure FollowsHistory (cJSONParse : Bytes → Option CJson) (ps : List ParseCall) (sess : TnsSession) :
    Prop where
  dispatch : ∀ p ver id,
    (∃ ph ∈ dispatched? p.data p.len (sess.called p), ph.version = ver ∧ ph.type = id) ↔
      IsMessage counts p ∧ dataId p.data = some id ∧ InForce counts ps ver ∧ HasEntry ver id
  runs     : ∀ p id, HasMessage p.data p.len → dataId p.data = some id →
    tnsProtocolParse cJSONParse p.data p.len (sess.called p) =
      (runEntry (dispatched? p.data p.len (sess.called p)) (pktData p.data) p.len
        { sess.called p with state := .data }).map ({ · with code := .success })
  others   : ∀ p o, tnsProtocolParse cJSONParse p.data p.len (sess.called p) = .ok o →
    ¬SetsVersion counts p →
      o.sess.version = sess.version ∧ o.sess.versionCompatible = sess.versionCompatible
  state    : sess.state = .logingIn ↔ ∃ before p, IsLatest (WritesState counts) ps before p ∧
    IsMessage counts p ∧ dataId p.data = some DataId.oci.val ∧ dataIdSub p.data = some 0x73 ∧
      InForce counts before tns313

end History

-- A session that no packet has been given to.
def TnsSession.new : TnsSession :=
  { TnsSession.zero with state := .init }

-- The parser returns at once for a packet that has another length than it says.
def ParseCall.HasLen (p : ParseCall) : Prop :=
  LenMatches p.data p.len

open ParseCall

variable {cJSONParse : Bytes → Option CJson} {data : Bytes} {len : Nat} {sess sess' : TnsSession}
  {ps : List ParseCall} {p : ParseCall} {o : Outcome} {ver : UInt16} {id type : UInt8}

theorem msgDataIdHandle_eq (phs : List PktHandle) :
    msgDataIdHandle ver type phs = runEntry (msgDataIdEntry ver type phs) := by
  funext pkt len sess
  induction phs
  case nil => rfl
  case cons ph phs hi =>
    rw [msgDataIdEntry] at hi
    rw [msgDataIdHandle, msgDataIdEntry, List.find?_cons]
    cases hf : ph.func
    case none => simpa using hi
    case some func =>
      by_cases h : ph.version = ver ∧ ph.type = type
      case pos => simp [h, runEntry, hf]
      case neg => simpa [h] using hi

theorem msgDataIdEntry_iff {phs : List PktHandle} {ver' : UInt16} {id' : UInt8} :
    (∃ ph ∈ msgDataIdEntry ver id phs, ph.version = ver' ∧ ph.type = id') ↔
      id = id' ∧ ver = ver' ∧ ∃ ph ∈ phs, ph.func.isSome ∧ ph.version = ver' ∧ ph.type = id' := by
  constructor
  case mp =>
    rintro ⟨ph, hph, rfl, rfl⟩
    have hfound := List.find?_some hph
    simp only [decide_eq_true_eq] at hfound
    obtain ⟨hf, rfl, rfl⟩ := hfound
    exact ⟨rfl, rfl, ph, List.mem_of_find?_eq_some hph, hf, rfl, rfl⟩
  case mpr =>
    rintro ⟨rfl, rfl, ph, hph, h⟩
    have hsome : (msgDataIdEntry ver id phs).isSome := List.find?_isSome.mpr ⟨ph, hph, decide_eq_true h⟩
    obtain ⟨ph', hfound⟩ := Option.isSome_iff_exists.mp hsome
    have h' := List.find?_some hfound
    simp only [decide_eq_true_eq] at h'
    exact ⟨ph', hfound, h'.right⟩

theorem tnsProtocolParse_eq (hm : LenMatches data len) (ht : pktType data = some type) :
    tnsProtocolParse cJSONParse data len sess =
      packetHandle type (msgTypeHandles cJSONParse) data len sess := by
  obtain ⟨l, hl, rfl⟩ := Option.map_eq_some_iff.mp hm
  simp [tnsProtocolParse, hl, ht, reading, bind, Except.bind]

-- The handler of the message is run after the state is set.
theorem tnsProtocolParse_message (h : HasMessage data len) (hid : dataId data = some id) :
    tnsProtocolParse cJSONParse data len sess =
      (runEntry (dispatched? data len sess) (pktData data) len { sess with state := .data }).map
        ({ · with code := .success }) := by
  have ⟨⟨hm, ht, hlen⟩, hlong⟩ := h
  have hd : pktTypeHandler cJSONParse PktType.data.val = some tnsDataHandle := rfl
  rw [tnsProtocolParse_eq hm ht, packetHandle_msgTypeHandles]
  simp only [hd, tnsDataHandle, Nat.not_le_of_lt hlen, Nat.not_le_of_lt hlong, hid, reading, bind,
    Except.bind, if_false, msgDataIdHandle_eq, dispatched?, h, if_true, Option.bind_some]
  cases runEntry (msgDataIdEntry sess.version id msgDataIdHandles) (pktData data) len
      { sess with state := .data } <;> rfl

-- The version field of a packet that sets the version has been read when the parser returns.

theorem tnsConnectHandle_reads (hl : tnsHeadLen < len) (hz : connectDataLen data ≠ some 0) :
    Ensures (fun _ => ∃ ver, connectVer data = some ver) (tnsConnectHandle cJSONParse data len sess) := by
  refine ensures_ite (fun h => absurd hl <| Nat.not_lt_of_le h) fun _ => ?_
  refine ensures_bind fun dataLen hd => ensures_ite (fun h => ?_) fun _ => ?_
  · exact absurd (UInt16.le_zero_iff.mp h ▸ reading_eq_ok.mp hd) hz
  · exact ensures_bind fun ver hv _ _ => ⟨ver, reading_eq_ok.mp hv⟩

theorem tnsAcceptHandle_reads (hl : tnsHeadLen < len) :
    Ensures (fun _ => ∃ ver, acceptVer data = some ver) (tnsAcceptHandle data len sess) := by
  refine ensures_ite (fun h => absurd hl <| Nat.not_lt_of_le h) fun _ => ?_
  exact ensures_bind fun ver hv _ _ => ⟨ver, reading_eq_ok.mp hv⟩

theorem versionField_of_ok (hs : SetsVersion HasLen p)
    (h : tnsProtocolParse cJSONParse p.data p.len sess = .ok o) : ∃ ver, versionField p = some ver := by
  rcases hs with ⟨⟨hm, ht, hl⟩, hz⟩ | ⟨hm, ht, hl⟩
  · rw [tnsProtocolParse_eq hm ht, packetHandle_msgTypeHandles] at h
    rw [versionField, if_pos ht]
    exact tnsConnectHandle_reads hl hz o h
  · rw [tnsProtocolParse_eq hm ht, packetHandle_msgTypeHandles] at h
    rw [versionField, if_neg (by simp [ht, PktType.val])]
    exact tnsAcceptHandle_reads hl o h

-- What a packet does to the version, and to the state.

theorem val_inj {type type' : PktType} (h : type.val = type'.val) : type = type' := by
  cases type <;> cases type' <;> first | rfl | exact absurd h (by decide)

theorem IsHandled.iff_eq {type type' : PktType} (h : IsHandled type data len) :
    IsHandled type' data len ↔ type' = type := by
  constructor
  case mp  => exact fun h' => val_inj <| Option.some.inj <| h'.right.left.symm.trans h.right.left
  case mpr => exact fun ht => ht ▸ h

theorem newVersion?_of_sets (hs : SetsVersion HasLen p) : newVersion? p.data p.len = versionField p := by
  rcases hs with ⟨h, hz⟩ | h
  · have h : IsHandled .connect p.data p.len := h
    simp [newVersion?, HasConnectData, h, hz, versionField, h.right.left]
  · have h : IsHandled .accept p.data p.len := h
    simp [newVersion?, HasConnectData, h.iff_eq, versionField, h.right.left, PktType.val]

theorem newVersion?_of_not_sets (hs : ¬SetsVersion HasLen p) :
    newVersion? p.data p.len = none ∧ newVersionCompatible? p.data p.len = none := by
  obtain ⟨hc, ha⟩ := not_or.mp hs
  have hc : ¬HasConnectData p.data p.len := hc
  have ha : ¬IsHandled .accept p.data p.len := ha
  simp [newVersion?, newVersionCompatible?, hc, ha]

theorem newState?_of_not_writes (hw : ¬WritesState HasLen p) : newState? p.data p.len ver = none := by
  obtain ⟨hs, hw⟩ := not_or.mp hw
  obtain ⟨hc, ha⟩ := not_or.mp hs
  obtain ⟨hr, hd⟩ := not_or.mp hw
  have hc : ¬HasConnectData p.data p.len := hc
  have ha : ¬IsHandled .accept p.data p.len := ha
  have hr : ¬IsHandled .refuse p.data p.len := hr
  have hd : ¬IsHandled .data p.data p.len := hd
  simp [newState?, HasMessage, hc, ha, hr, hd]

theorem newState?_of_writes (hw : WritesState HasLen p) :
    ∃ state, newState? p.data p.len ver = some state ∧
      (state = .logingIn ↔ IsMessage HasLen p ∧ IsLogin ver p.data) := by
  have hmessage : IsMessage HasLen p ↔ HasMessage p.data p.len := .rfl
  rw [hmessage]
  rcases hw with (⟨h, hz⟩ | h) | h | h
  · have h : IsHandled .connect p.data p.len := h
    simp [newState?, HasConnectData, HasMessage, h.iff_eq, hz]
  · have h : IsHandled .accept p.data p.len := h
    simp [newState?, HasConnectData, HasMessage, h.iff_eq]
  · have h : IsHandled .refuse p.data p.len := h
    simp [newState?, HasConnectData, HasMessage, h.iff_eq]
  · have h : IsHandled .data p.data p.len := h
    by_cases hlogin : tnsHeadLen + offsetTnsDataOffset < p.len ∧ IsLogin ver p.data
    case pos => simp [newState?, HasConnectData, HasMessage, h.iff_eq, hlogin]
    case neg => simp [newState?, HasConnectData, HasMessage, h.iff_eq, hlogin]

theorem parseAll_concat_eq_ok :
    parseAll cJSONParse sess (ps ++ [p]) = .ok sess' ↔
      ∃ sess₁ o, parseAll cJSONParse sess ps = .ok sess₁ ∧
        tnsProtocolParse cJSONParse p.data p.len (sess₁.called p) = .ok o ∧ o.sess = sess' := by
  simp only [parseAll, List.foldlM_append, List.foldlM_cons, List.foldlM_nil, bind_eq_ok, pure,
    Except.pure, Except.ok.injEq]
  constructor
  case mp =>
    rintro ⟨sess₁, h, _, ⟨o, ho, rfl⟩, rfl⟩
    exact ⟨sess₁, o, h, ho, rfl⟩
  case mpr =>
    rintro ⟨sess₁, o, h, ho, rfl⟩
    exact ⟨sess₁, h, _, ⟨o, ho, rfl⟩, rfl⟩

-- The version of the session is the one in force. It is 0 as long as there is none.
theorem inForce_iff (h : parseAll cJSONParse .new ps = .ok sess) (hv : ver ≠ 0) :
    InForce HasLen ps ver ↔ sess.version = ver := by
  induction ps using List.reverseRecOn generalizing sess
  case nil =>
    cases h
    exact iff_of_false (fun ⟨_, _, h, _⟩ => IsLatest.not_nil h) hv.symm
  case append_singleton ps p hi =>
    obtain ⟨sess₁, o, h₁, ho, rfl⟩ := parseAll_concat_eq_ok.mp h
    have hi := hi h₁
    have hafter := tnsProtocolParse_ensures o ho |>.left
    by_cases hs : SetsVersion HasLen p
    case pos =>
      obtain ⟨ver', hver'⟩ := versionField_of_ok hs ho
      simp [InForce, IsLatest.concat_iff_of_pos hs, hafter, TnsSession.after, newVersion?_of_sets hs,
        hver']
    case neg =>
      simpa [InForce, IsLatest.concat_iff_of_neg hs, hafter, TnsSession.after, TnsSession.called,
        newVersion?_of_not_sets hs] using hi

theorem isLogin_iff : IsLogin ver data ↔
    dataId data = some DataId.oci.val ∧ dataIdSub data = some 0x73 ∧ ver = tns313 := by
  rw [IsLogin, dataIdSub]
  constructor
  case mp =>
    rintro ⟨_, hid, hv, rfl, hsub⟩
    exact ⟨hid, hsub, hv⟩
  case mpr =>
    rintro ⟨hid, hsub, hv⟩
    exact ⟨_, hid, hv, rfl, hsub⟩

-- The session is logging in if the last write to the state has been made by a login.
theorem logingIn_iff (h : parseAll cJSONParse .new ps = .ok sess) :
    sess.state = .logingIn ↔ ∃ before p, IsLatest (WritesState HasLen) ps before p ∧
      IsMessage HasLen p ∧ dataId p.data = some DataId.oci.val ∧ dataIdSub p.data = some 0x73 ∧
        InForce HasLen before tns313 := by
  induction ps using List.reverseRecOn generalizing sess
  case nil =>
    cases h
    exact iff_of_false SessState.noConfusion fun ⟨_, _, h, _⟩ => IsLatest.not_nil h
  case append_singleton ps p hi =>
    obtain ⟨sess₁, o, h₁, ho, rfl⟩ := parseAll_concat_eq_ok.mp h
    have hi := hi h₁
    have hafter := tnsProtocolParse_ensures o ho |>.left
    by_cases hw : WritesState HasLen p
    case pos =>
      obtain ⟨state, hstate, hlogin⟩ := @newState?_of_writes _ sess₁.version hw
      have hforce := inForce_iff h₁ (by decide : tns313 ≠ 0)
      have hnew : o.sess.state = state := by
        simp [hafter, TnsSession.after, TnsSession.called, hstate]
      rw [hnew, hlogin, isLogin_iff, ← hforce]
      simp [IsLatest.concat_iff_of_pos hw]
    case neg =>
      simpa [IsLatest.concat_iff_of_neg hw, hafter, TnsSession.after, TnsSession.called,
        newState?_of_not_writes hw] using hi

theorem HasEntry.ne_zero (h : HasEntry ver id) : ver ≠ 0 := by
  obtain ⟨ph, hph, _, rfl, _⟩ := h
  have hall : ∀ ph ∈ msgDataIdHandles, ph.version ≠ 0 := by
    simp [msgDataIdHandles, tns313, tns314]
  exact hall ph hph

theorem dispatched?_iff (h : parseAll cJSONParse .new ps = .ok sess) :
    (∃ ph ∈ dispatched? p.data p.len (sess.called p), ph.version = ver ∧ ph.type = id) ↔
      IsMessage HasLen p ∧ dataId p.data = some id ∧ InForce HasLen ps ver ∧ HasEntry ver id := by
  have hversion : (sess.called p).version = sess.version := rfl
  have hmessage : IsMessage HasLen p ↔ HasMessage p.data p.len := .rfl
  rw [hmessage, dispatched?, hversion]
  by_cases hm : HasMessage p.data p.len
  case neg => simp [hm]
  case pos =>
    simp only [hm, if_true, true_and]
    cases dataId p.data
    case none => simp
    case some id' =>
      rw [Option.bind_some, msgDataIdEntry_iff, Option.some.injEq]
      constructor
      case mp =>
        rintro ⟨rfl, rfl, he⟩
        exact ⟨rfl, inForce_iff h (HasEntry.ne_zero he) |>.mpr rfl, he⟩
      case mpr =>
        rintro ⟨rfl, hforce, he⟩
        exact ⟨rfl, inForce_iff h he.ne_zero |>.mp hforce, he⟩

-- The version and the state follow the packets whose length is the one that they say.

-- An accept packet for 313, a login, and a login that says that it is longer than it is.

def acceptCall : ParseCall :=
  ⟨[0, 40, 0, 0, 2, 0, 0, 0, 1, 0x39] ++ List.replicate 30 0, 40, .response, ""⟩

def loginCall : ParseCall :=
  ⟨[0, 13, 0, 0, 6, 0, 0, 0, 0, 0, 3, 0x73, 0], 13, .request, ""⟩

def longLoginCall : ParseCall :=
  ⟨[0, 14, 0, 0, 6, 0, 0, 0, 0, 0, 3, 0x73, 0], 13, .request, ""⟩
