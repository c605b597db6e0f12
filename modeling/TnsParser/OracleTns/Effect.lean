import TnsParser.OracleTns.Dispatch

open Except

-- What a packet does to the session, and which parts of the session it depends on.

variable {cJSONParse : Bytes → Option CJson} {pkt data : Bytes} {len : Nat} {sess : TnsSession}

-- The length in the packet is the length of the packet.
def LenMatches (data : Bytes) (len : Nat) : Prop :=
  (pktLen data).map (·.toNat) = some len

instance : Decidable (LenMatches data len) :=
  inferInstanceAs <| Decidable (_ = _)

-- The handler of the packet is called, and does not return at once.
def IsHandled (type : PktType) (data : Bytes) (len : Nat) : Prop :=
  LenMatches data len ∧ pktType data = some type.val ∧ tnsHeadLen < len

instance {type : PktType} : Decidable (IsHandled type data len) :=
  inferInstanceAs <| Decidable (_ ∧ _)

-- A connect packet that has data.
def HasConnectData (data : Bytes) (len : Nat) : Prop :=
  IsHandled .connect data len ∧ connectDataLen data ≠ some 0

instance : Decidable (HasConnectData data len) :=
  inferInstanceAs <| Decidable (_ ∧ _)

-- The message of a data packet.
def HasMessage (data : Bytes) (len : Nat) : Prop :=
  IsHandled .data data len ∧ tnsHeadLen + offsetTnsDataOffset < len

instance : Decidable (HasMessage data len) :=
  inferInstanceAs <| Decidable (_ ∧ _)

def IsLoginMessage (ver : UInt16) (id : UInt8) (msg : Bytes) : Prop :=
  ver = tns313 ∧ id = DataId.oci.val ∧ msg[3]? = some 0x73

instance {ver : UInt16} {id : UInt8} {msg : Bytes} : Decidable (IsLoginMessage ver id msg) :=
  inferInstanceAs <| Decidable (_ ∧ _)

def IsLogin (ver : UInt16) (data : Bytes) : Prop :=
  ∃ id ∈ dataId data, IsLoginMessage ver id (pktData data)

instance {ver : UInt16} : Decidable (IsLogin ver data) :=
  Option.decidableExistsMem (dataId data)

def newVersion? (data : Bytes) (len : Nat) : Option UInt16 :=
  if HasConnectData data len then connectVer data
  else if IsHandled .accept data len then acceptVer data
  else none

def newVersionCompatible? (data : Bytes) (len : Nat) : Option UInt16 :=
  if HasConnectData data len then connectVerCompatible data else none

def newState? (data : Bytes) (len : Nat) (ver : UInt16) : Option SessState :=
  if HasConnectData data len then some .connect
  else if IsHandled .accept data len then some .accept
  else if IsHandled .refuse data len then some .refuse
  else if HasMessage data len ∧ IsLogin ver data then some .logingIn
  else if IsHandled .data data len then some .data
  else none

-- The session after the packet.
def TnsSession.after (sess : TnsSession) (data : Bytes) (len : Nat) : TnsSession :=
  { sess with
    version           := newVersion? data len |>.getD sess.version
    versionCompatible := newVersionCompatible? data len |>.getD sess.versionCompatible
    state             := newState? data len sess.version |>.getD sess.state }

def Outcome.Leaves (o : Outcome) (sess : TnsSession) : Prop :=
  o.code = .success ∧ o.sess = sess

theorem tnsConnectHandle_leaves :
    Ensures (·.Leaves <|
      if tnsHeadLen < len ∧ connectDataLen pkt ≠ some 0 then
        { sess with
          version           := connectVer pkt |>.getD sess.version
          versionCompatible := connectVerCompatible pkt |>.getD sess.versionCompatible
          state             := .connect }
      else sess) (tnsConnectHandle cJSONParse pkt len sess) := by
  refine ensures_ite (fun h => ensures_pure ⟨rfl, by simp [Nat.not_lt_of_le h]⟩) fun h => ?_
  refine ensures_bind fun dataLen hl => ?_
  have h := Nat.lt_of_not_le h
  have hl := reading_eq_ok.mp hl
  refine ensures_ite (fun hz => ensures_pure ⟨rfl, by simp [hl, UInt16.le_zero_iff.mp hz]⟩) fun hz => ?_
  refine ensures_bind fun version hv => ensures_bind fun versionCompatible hc => ?_
  have hz : dataLen ≠ 0 := fun h => hz (by simp [h])
  have hv := reading_eq_ok.mp hv
  have hc := reading_eq_ok.mp hc
  refine ensures_bind fun offset _ => ensures_bind fun ⟨_, jsonbuf, _⟩ _ => ?_
  cases hj : cJSONParse jsonbuf
  case none => simpa only [hj] using ensures_pure ⟨rfl, by simp [h, hl, hz, hv, hc]⟩
  case some =>
    simpa only [hj] using
      ensures_bind fun _ _ => ensures_pure ⟨rfl, by simp [h, hl, hz, hv, hc]⟩

theorem tnsAcceptHandle_leaves :
    Ensures (·.Leaves <|
      if tnsHeadLen < len then
        { sess with version := acceptVer pkt |>.getD sess.version, state := .accept }
      else sess) (tnsAcceptHandle pkt len sess) := by
  refine ensures_ite (fun h => ensures_pure ⟨rfl, by simp [Nat.not_lt_of_le h]⟩) fun h => ?_
  refine ensures_bind fun version hv => ensures_bind fun _ _ => ensures_pure ⟨rfl, ?_⟩
  simp [Nat.lt_of_not_le h, reading_eq_ok.mp hv]

theorem tnsRefuseHandle_leaves :
    Ensures (·.Leaves <| if tnsHeadLen < len then { sess with state := .refuse } else sess)
      (tnsRefuseHandle pkt len sess) := by
  refine ensures_ite (fun h => ensures_pure ⟨rfl, by simp [Nat.not_lt_of_le h]⟩) fun h => ?_
  exact ensures_bind fun _ _ => ensures_pure ⟨rfl, by simp [Nat.lt_of_not_le h]⟩

-- The handlers for the messages print, and one of them changes the state.

theorem printRun313_leaves {size : Nat} {fmt : String} :
    Ensures (·.Leaves sess) (printRun313 size fmt pkt len sess) :=
  ensures_bind fun _ _ => ensures_bind fun _ _ => ensures_pure ⟨rfl, rfl⟩

theorem printRun314_leaves {fmt : String} :
    Ensures (·.Leaves sess) (printRun314 fmt pkt len sess) :=
  ensures_bind fun _ _ => ensures_bind fun _ _ => ensures_pure ⟨rfl, rfl⟩

theorem printPlatform_leaves {pre : TnsSession → List Printf} {request response : String} :
    Ensures (·.Leaves sess) (printPlatform pre request response pkt len sess) :=
  ensures_bind fun _ _ => ensures_pure ⟨rfl, rfl⟩

theorem printNetworkVersion_leaves {pre : TnsSession → List Printf} {request response : String} :
    Ensures (·.Leaves sess) (printNetworkVersion pre request response pkt len sess) :=
  ensures_bind fun _ _ => ensures_pure ⟨rfl, rfl⟩

theorem msgDataIdHandles_leaves {ph : PktHandle} {func : Handler} (h : ph ∈ msgDataIdHandles)
    (hf : func ∈ ph.func) (hl : 0 < len) :
    Ensures (·.Leaves <|
      if IsLoginMessage ph.version ph.type pkt then { sess with state := .logingIn } else sess)
      (func pkt len sess) := by
  have hl := Nat.not_le_of_lt hl
  simp only [msgDataIdHandles, List.mem_cons, List.not_mem_nil, or_false] at h
  rcases h with rfl | rfl | rfl | rfl | rfl | rfl | rfl | rfl <;> cases hf
  · exact ensures_ite hl.elim fun _ => printNetworkVersion_leaves
  · exact ensures_ite hl.elim fun _ => printPlatform_leaves
  · refine ensures_ite hl.elim fun _ => ensures_bind fun sub hs => ?_
    have hs := reading_eq_ok.mp hs
    have login : IsLoginMessage tns313 DataId.oci.val pkt ↔ sub = 0x73 := by simp [IsLoginMessage, hs]
    refine ensures_ite (fun h => ?_) fun _ => ensures_ite (fun h => ?_) fun h => ?_
    · simpa [login, h] using printRun313_leaves
    · exact ensures_pure ⟨rfl, by simp [login, h]⟩
    · exact ensures_pure ⟨rfl, by simp [login, h]⟩
  · exact ensures_ite hl.elim fun _ => printRun313_leaves
  · exact ensures_ite hl.elim fun _ => printNetworkVersion_leaves
  · exact ensures_ite hl.elim fun _ => printPlatform_leaves
  · exact ensures_ite hl.elim fun _ => ensures_bind fun _ _ =>
      ensures_ite (fun _ => printRun314_leaves) fun _ => ensures_pure ⟨rfl, rfl⟩
  · exact ensures_ite hl.elim fun _ => ensures_bind fun _ _ =>
      ensures_ite (fun _ => printRun314_leaves) fun _ => ensures_pure ⟨rfl, rfl⟩

theorem isLogin_mem {ver : UInt16} {id : UInt8} {msg : Bytes} (h : IsLoginMessage ver id msg) :
    ∃ ph ∈ msgDataIdHandles, ∃ func ∈ ph.func, ph.version = ver ∧ ph.type = id := by
  have ⟨hv, hi, _⟩ := h
  exact ⟨⟨tns313, DataId.oci.val, tns313OCI⟩, by simp [msgDataIdHandles], _, rfl, hv.symm, hi.symm⟩

theorem tnsDataHandle_leaves :
    Ensures (·.Leaves <|
      if tnsHeadLen + offsetTnsDataOffset < len ∧ IsLogin sess.version pkt
        then { sess with state := .logingIn }
      else if tnsHeadLen < len then { sess with state := .data }
      else sess) (tnsDataHandle pkt len sess) := by
  refine ensures_ite (fun h => ensures_pure ⟨rfl, ?_⟩) fun h => ?_
  · have h' : ¬tnsHeadLen + offsetTnsDataOffset < len := by
      simp only [tnsHeadLen] at h ⊢
      omega
    simp [h', Nat.not_lt_of_le h]
  have h := Nat.lt_of_not_le h
  refine ensures_ite (fun h' => ensures_pure ⟨rfl, by simp [h, Nat.not_lt_of_le h']⟩) fun h' => ?_
  have h' := Nat.lt_of_not_le h'
  refine ensures_bind fun id hid => ensures_bind fun o ho => ensures_pure ⟨rfl, ?_⟩
  have hid := reading_eq_ok.mp hid
  simp only [h, h', IsLogin, hid, true_and, Option.mem_def, Option.some.injEq, exists_eq_left', if_true]
  cases msgDataIdHandle_cases sess.version id msgDataIdHandles
  case inl h =>
    obtain ⟨ph, hph, func, hf, ⟨hv, ht⟩, he⟩ := h
    rw [he] at ho
    obtain ⟨_, hs⟩ := msgDataIdHandles_leaves hph hf (by omega) o ho
    rw [hs, hv, ht]
  case inr h =>
    obtain ⟨hnone, he⟩ := h
    have hlogin : ¬IsLoginMessage sess.version id (pktData pkt) := by
      intro hlogin
      obtain ⟨ph, hph, func, hf, he⟩ := isLogin_mem hlogin
      exact hnone ph hph func hf he
    rw [he] at ho
    cases ho
    simp [hlogin]

section After

variable {type : UInt8}

theorem isHandled_iff {t : PktType} (hm : LenMatches data len) (ht : pktType data = some type) :
    IsHandled t data len ↔ type = t.val ∧ tnsHeadLen < len := by
  simp [IsHandled, hm, ht]

theorem after_of_not_lenMatches (h : ¬LenMatches data len) : sess.after data len = sess := by
  simp [TnsSession.after, newVersion?, newVersionCompatible?, newState?, HasConnectData, HasMessage,
    IsHandled, h]

theorem after_connect (hm : LenMatches data len) (ht : pktType data = some PktType.connect.val) :
    sess.after data len =
      if tnsHeadLen < len ∧ connectDataLen data ≠ some 0 then
        { sess with
          version           := connectVer data |>.getD sess.version
          versionCompatible := connectVerCompatible data |>.getD sess.versionCompatible
          state             := .connect }
      else sess := by
  by_cases h : tnsHeadLen < len <;> by_cases hz : connectDataLen data = some 0 <;>
    simp [TnsSession.after, newVersion?, newVersionCompatible?, newState?, HasConnectData, HasMessage,
      isHandled_iff hm ht, PktType.val, h, hz]

theorem after_accept (hm : LenMatches data len) (ht : pktType data = some PktType.accept.val) :
    sess.after data len =
      if tnsHeadLen < len then
        { sess with version := acceptVer data |>.getD sess.version, state := .accept }
      else sess := by
  by_cases h : tnsHeadLen < len <;>
    simp [TnsSession.after, newVersion?, newVersionCompatible?, newState?, HasConnectData, HasMessage,
      isHandled_iff hm ht, PktType.val, h]

theorem after_refuse (hm : LenMatches data len) (ht : pktType data = some PktType.refuse.val) :
    sess.after data len = if tnsHeadLen < len then { sess with state := .refuse } else sess := by
  by_cases h : tnsHeadLen < len <;>
    simp [TnsSession.after, newVersion?, newVersionCompatible?, newState?, HasConnectData, HasMessage,
      isHandled_iff hm ht, PktType.val, h]

theorem after_data (hm : LenMatches data len) (ht : pktType data = some PktType.data.val) :
    sess.after data len =
      if tnsHeadLen + offsetTnsDataOffset < len ∧
          IsLogin sess.version data then
        { sess with state := .logingIn }
      else if tnsHeadLen < len then { sess with state := .data }
      else sess := by
  simp only [TnsSession.after, newVersion?, newVersionCompatible?, newState?, HasConnectData, HasMessage,
    isHandled_iff hm ht, PktType.val]
  by_cases hlogin : tnsHeadLen + offsetTnsDataOffset < len ∧ IsLogin sess.version data
  case pos =>
    have h : tnsHeadLen < len := by omega
    simp [h, hlogin]
  case neg => by_cases h : tnsHeadLen < len <;> simp [h, hlogin]

theorem after_other (ht : pktType data = some type) (hc : type ≠ PktType.connect.val)
    (ha : type ≠ PktType.accept.val) (hr : type ≠ PktType.refuse.val)
    (hd : type ≠ PktType.data.val) : sess.after data len = sess := by
  simp [TnsSession.after, newVersion?, newVersionCompatible?, newState?, HasConnectData, HasMessage,
    IsHandled, ht, hc, ha, hr, hd]

end After

-- The session that the parser leaves, and what it returns: the errors of a data packet are not among it.
theorem tnsProtocolParse_ensures :
    Ensures (fun o => o.sess = sess.after data len ∧ o.code =
        if ¬LenMatches data len then .pktLen
        else if ¬HasHandler cJSONParse data then .pktType
        else .success)
      (tnsProtocolParse cJSONParse data len sess) := by
  refine ensures_bind fun l hl => ?_
  have hl := reading_eq_ok.mp hl
  have hm : LenMatches data len ↔ len = l.toNat := by simp [LenMatches, hl, eq_comm]
  refine ensures_ite (fun hne => ensures_pure ?_) fun he => ?_
  · have : ¬LenMatches data len := fun h => hne (hm.mp h)
    simp [this, after_of_not_lenMatches]
  have hm : LenMatches data len := hm.mpr (not_not.mp he)
  refine ensures_bind fun type ht => ?_
  have ht := reading_eq_ok.mp ht
  rw [packetHandle_msgTypeHandles]
  simp only [hm, not_true_eq_false, if_false, hasHandler_iff ht]
  have leaves {x : Except Fault Outcome} {sess' : TnsSession} (h : Ensures (·.Leaves sess') x)
      (hs : sess.after data len = sess') :
      Ensures (fun o => o.sess = sess.after data len ∧ o.code = .success) x :=
    fun o ho => (h o ho).symm.imp_left fun h => h.trans hs.symm
  simp only [pktTypeHandler]
  by_cases hc : type = PktType.connect.val
  case pos => subst hc; exact leaves tnsConnectHandle_leaves <| after_connect hm ht
  case neg =>
    by_cases ha : type = PktType.accept.val
    case pos => subst ha; exact leaves tnsAcceptHandle_leaves <| after_accept hm ht
    case neg =>
      by_cases hr : type = PktType.refuse.val
      case pos => subst hr; exact leaves tnsRefuseHandle_leaves <| after_refuse hm ht
      case neg =>
        by_cases hd : type = PktType.data.val
        case pos => subst hd; exact leaves tnsDataHandle_leaves <| after_data hm ht
        case neg =>
          simp only [hc, ha, hr, hd, if_false, after_other ht hc ha hr hd]
          by_cases hs : type = PktType.resend.val <;> simp only [hs, if_true, if_false]
          · exact ensures_ok ⟨rfl, rfl⟩
          · exact ensures_ok ⟨rfl, rfl⟩

-- Sessions that give the same report.
structure TnsSession.SameView (sess sess' : TnsSession) : Prop where
  curDir      : sess.curDir = sess'.curDir
  curSessDesc : sess.curSessDesc = sess'.curSessDesc

section SameReport

variable {sess' : TnsSession}

def SameOut (o o' : Outcome) : Prop :=
  o.out = o'.out

theorem tnsConnectHandle_agree (h : sess.SameView sess') :
    Agree SameOut (tnsConnectHandle cJSONParse pkt len sess)
      (tnsConnectHandle cJSONParse pkt len sess') := by
  refine agree_ite (fun _ => agree_pure rfl) fun _ => agree_bind fun dataLen _ => ?_
  refine agree_ite (fun _ => agree_pure rfl) fun _ => ?_
  refine agree_bind fun _ _ => agree_bind fun _ _ => agree_bind fun _ _ => agree_bind fun json _ => ?_
  have ⟨_, jsonbuf, _⟩ := json
  simp only [h.curDir, h.curSessDesc]
  cases cJSONParse jsonbuf
  case none => exact agree_pure rfl
  case some => exact agree_bind fun _ _ => agree_pure rfl

theorem tnsAcceptHandle_agree :
    Agree SameOut (tnsAcceptHandle pkt len sess) (tnsAcceptHandle pkt len sess') :=
  agree_ite (fun _ => agree_pure rfl) fun _ => agree_bind fun _ _ => agree_bind fun _ _ => agree_pure rfl

theorem tnsRefuseHandle_agree :
    Agree SameOut (tnsRefuseHandle pkt len sess) (tnsRefuseHandle pkt len sess') :=
  agree_ite (fun _ => agree_pure rfl) fun _ => agree_bind fun _ _ => agree_pure rfl

theorem printVersion_eq (h : sess.SameView sess') (hv : sess.version = sess'.version) :
    printVersion sess = printVersion sess' := by
  simp [printVersion, h.curDir, h.curSessDesc, hv]

theorem printRun313_agree {size : Nat} {fmt : String} (h : printVersion sess = printVersion sess') :
    Agree SameOut (printRun313 size fmt pkt len sess) (printRun313 size fmt pkt len sess') :=
  agree_bind fun _ _ => agree_bind fun _ _ => agree_pure <| by simp [SameOut, h]

theorem printRun314_agree {fmt : String} :
    Agree SameOut (printRun314 fmt pkt len sess) (printRun314 fmt pkt len sess') :=
  agree_bind fun _ _ => agree_bind fun _ _ => agree_pure rfl

theorem printPlatform_agree {pre : TnsSession → List Printf} {request response : String}
    (h : pre sess = pre sess') (hd : sess.curDir = sess'.curDir) :
    Agree SameOut (printPlatform pre request response pkt len sess)
      (printPlatform pre request response pkt len sess') :=
  agree_bind fun _ _ => agree_pure <| by simp [SameOut, h, hd]

theorem printNetworkVersion_agree {pre : TnsSession → List Printf} {request response : String}
    (h : pre sess = pre sess') (hd : sess.curDir = sess'.curDir) :
    Agree SameOut (printNetworkVersion pre request response pkt len sess)
      (printNetworkVersion pre request response pkt len sess') :=
  agree_bind fun _ _ => agree_pure <| by simp [SameOut, h, hd]

theorem msgDataIdHandles_agree {ph : PktHandle} {func : Handler} (hph : ph ∈ msgDataIdHandles)
    (hf : func ∈ ph.func) (h : sess.SameView sess') (hv : sess.version = sess'.version) :
    Agree SameOut (func pkt len sess) (func pkt len sess') := by
  have hp := printVersion_eq h hv
  have hps : [printVersion sess] = [printVersion sess'] := by rw [hp]
  have none : Agree SameOut (pure ⟨.success, sess, []⟩ : Except Fault Outcome)
      (pure ⟨.success, sess', []⟩) :=
    agree_pure rfl
  simp only [msgDataIdHandles, List.mem_cons, List.not_mem_nil, or_false] at hph
  rcases hph with rfl | rfl | rfl | rfl | rfl | rfl | rfl | rfl <;> cases hf
  · exact agree_ite (fun _ => none) fun _ => printNetworkVersion_agree hps h.curDir
  · exact agree_ite (fun _ => none) fun _ => printPlatform_agree hps h.curDir
  · exact agree_ite (fun _ => none) fun _ => agree_bind fun _ _ =>
      agree_ite (fun _ => printRun313_agree hp) fun _ =>
        agree_ite (fun _ => agree_pure <| by simp [SameOut, hp]) fun _ => none
  · exact agree_ite (fun _ => none) fun _ => printRun313_agree hp
  · exact agree_ite (fun _ => none) fun _ => printNetworkVersion_agree rfl h.curDir
  · exact agree_ite (fun _ => none) fun _ => printPlatform_agree rfl h.curDir
  · exact agree_ite (fun _ => none) fun _ => agree_bind fun _ _ =>
      agree_ite (fun _ => printRun314_agree) fun _ => none
  · exact agree_ite (fun _ => none) fun _ => agree_bind fun _ _ =>
      agree_ite (fun _ => printRun314_agree) fun _ => none

theorem tnsDataHandle_agree (h : sess.SameView sess') (hv : sess.version = sess'.version) :
    Agree SameOut (tnsDataHandle pkt len sess) (tnsDataHandle pkt len sess') := by
  refine agree_ite (fun _ => agree_pure rfl) fun _ => agree_ite (fun _ => agree_pure rfl) fun _ => ?_
  refine agree_bind fun id _ o o' ho ho' => ?_
  have ⟨m, hm, ho⟩ := bind_eq_ok.mp ho
  have ⟨m', hm', ho'⟩ := bind_eq_ok.mp ho'
  cases ho
  cases ho'
  have h : { sess with state := .data }.SameView { sess' with state := .data } := ⟨h.curDir, h.curSessDesc⟩
  cases msgDataIdHandle_cases sess.version id msgDataIdHandles
  case inl hc =>
    have ⟨ph, hph, func, hf, _, he⟩ := hc
    have he' : msgDataIdHandle sess'.version id msgDataIdHandles = func := hv ▸ he
    simp only [he] at hm
    simp only [he'] at hm'
    exact msgDataIdHandles_agree hph hf h hv m m' hm hm'
  case inr hc =>
    have ⟨_, he⟩ := hc
    have he' : msgDataIdHandle sess'.version id msgDataIdHandles = _ := hv ▸ he
    simp only [he] at hm
    simp only [he'] at hm'
    cases hm
    cases hm'
    rfl

-- The report depends on the version only if the packet does not set it.
theorem tnsProtocolParse_agree (h : sess.SameView sess')
    (hv : newVersion? data len = none → sess.version = sess'.version) :
    Agree SameOut (tnsProtocolParse cJSONParse data len sess)
      (tnsProtocolParse cJSONParse data len sess') := by
  refine agree_bind fun l hl => ?_
  have hl := reading_eq_ok.mp hl
  refine agree_ite (fun _ => agree_pure rfl) fun he => agree_bind fun type ht => ?_
  have ht := reading_eq_ok.mp ht
  have hm : LenMatches data len := by simpa [LenMatches, hl, eq_comm] using he
  rw [packetHandle_msgTypeHandles, packetHandle_msgTypeHandles]
  simp only [pktTypeHandler]
  by_cases hc : type = PktType.connect.val
  case pos => subst hc; exact tnsConnectHandle_agree h
  case neg =>
    by_cases ha : type = PktType.accept.val
    case pos => subst ha; exact tnsAcceptHandle_agree
    case neg =>
      by_cases hr : type = PktType.refuse.val
      case pos => subst hr; exact tnsRefuseHandle_agree
      case neg =>
        by_cases hd : type = PktType.data.val
        case pos =>
          subst hd
          refine tnsDataHandle_agree h <| hv ?_
          simp [newVersion?, HasConnectData, IsHandled, ht, PktType.val]
        case neg =>
          simp only [hc, ha, hr, hd, if_false]
          by_cases hs : type = PktType.resend.val <;> simp only [hs, if_true, if_false]
          · exact agree_ok rfl
          · exact agree_ok rfl

end SameReport
