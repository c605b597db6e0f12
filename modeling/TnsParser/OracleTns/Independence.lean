import TnsParser.OracleTns.Residue

open Except RunScan

-- When the report of a data packet is made from the packet alone.

section Run314

variable {v t : Bytes} {x : UInt8} {fmt : String} {sess : TnsSession} {o : Outcome}

def runReport314 (fmt : String) (sess : TnsSession) (r : Nat × Nat) (str : Bytes) : Outcome :=
  ⟨.success, sess, [⟨fmt, [.num (r.2 + 1 : Nat), .text str]⟩]⟩

theorem printRun314_eq_ok_iff :
    behind (printRun314 fmt) sess v t = .ok o ↔
      tnsHeadLen ≤ t.length ∧ ∃ str, cString ((v ++ t).drop (tailRun v t).1) = some str ∧
        o = runReport314 fmt sess (tailRun v t) str := by
  by_cases h : tnsHeadLen ≤ t.length
  case neg => simp [behind, printRun314, parse_tail_eq_none (Nat.lt_of_not_le h), reading, bind_eq_ok, h]
  case pos =>
    simp only [behind, printRun314, parse_tail h, bind_eq_ok, reading_eq_ok, runReport314, h, true_and,
      pure, Except.pure, Except.ok.injEq, Option.some.injEq, exists_eq_left']
    grind

-- The run is too long to be replaced, and is in a string that ends in the message.
def Settled314 (v : Bytes) : Prop :=
  trailingVisible v + tnsHeadLen < (longestVisible v).2 ∧ 0 ∈ v.drop (longestVisible v).1

theorem Settled314.independent (h : Settled314 v) : Independent (printRun314 fmt) sess v := by
  obtain ⟨hlt, hz⟩ := h
  have report {t o} (ho : behind (printRun314 fmt) sess v t = .ok o) :
      ∃ str, cString (v.drop (longestVisible v).1) = some str ∧
        o = runReport314 fmt sess (longestVisible v) str := by
    obtain ⟨_, str, hstr, ho⟩ := printRun314_eq_ok_iff.mp ho
    rw [tailRun_of_lt hlt] at hstr ho
    rw [List.drop_append_of_le_length (Nat.le_of_add_right_le isRun_longest.left), cString,
      Terminated.read_append_of_mem hz] at hstr
    exact ⟨str, hstr, ho⟩
  intro t₁ t₂ o₁ o₂ h₁ h₂
  obtain ⟨str₁, hs₁, ho₁⟩ := report h₁
  obtain ⟨str₂, hs₂, ho₂⟩ := report h₂
  cases hs₁.symm.trans hs₂
  exact ho₁.trans ho₂.symm

theorem Settled314.of_independent (h : Independent (printRun314 fmt) sess v) : Settled314 v := by
  -- With visible bytes behind it, a string without an end in the message takes them in.
  have visible {r : Nat × Nat} (hr : ∀ x, isVisible x → tailRun v (residue x) = r) (hle : r.1 ≤ v.length) :
      0 ∈ v.drop r.1 := by
    by_contra hz
    have report (x : UInt8) (hx : isVisible x) (hx0 : x ≠ 0) :
        behind (printRun314 fmt) sess v (residue x) =
          .ok (runReport314 fmt sess r (v.drop r.1 ++ List.replicate tnsHeadLen x)) := by
      have hstr := cString_residue hle hz hx0
      rw [printRun314_eq_ok_iff, hr x hx]
      exact ⟨by simp [length_residue], _, hstr, rfl⟩
    have heq := h _ _ _ _ (report 0x41 (by decide) (by decide)) (report 0x42 (by decide) (by decide))
    simp [runReport314, tnsHeadLen] at heq
  by_cases hlt : trailingVisible v + tnsHeadLen < (longestVisible v).2
  case pos =>
    exact ⟨hlt, visible (fun x _ => tailRun_of_lt hlt) (Nat.le_of_add_right_le isRun_longest.left)⟩
  case neg =>
    have hz := visible (fun x hx => tailRun_of_visible hx (Nat.le_of_not_lt hlt)) (Nat.sub_le _ _)
    exact absurd hz zero_not_mem_trailing

theorem independent_printRun314_iff : Independent (printRun314 fmt) sess v ↔ Settled314 v :=
  ⟨.of_independent, fun h => h.independent⟩

end Run314

-- A handler that reports something that it reads from the message.
theorem independent_reading_iff {α : Type} {func : Handler} {sess : TnsSession} {v : Bytes}
    {g : Bytes → Option α} {report : α → Outcome} (inj : Function.Injective report)
    (h : ∀ pkt len, func pkt len sess = reading .dataHandler (g pkt) >>= fun a => pure (report a)) :
    Independent func sess v ↔
      ∀ t₁ t₂ a₁ a₂, g (v ++ t₁) = some a₁ → g (v ++ t₂) = some a₂ → a₁ = a₂ := by
  have hok {t o} : behind func sess v t = .ok o ↔ ∃ a, g (v ++ t) = some a ∧ report a = o := by
    simp [behind, h, bind_eq_ok, reading_eq_ok, pure, Except.pure]
  simp only [Independent, hok]
  constructor
  case mp  => exact fun hi t₁ t₂ a₁ a₂ h₁ h₂ => inj <| hi t₁ t₂ _ _ ⟨a₁, h₁, rfl⟩ ⟨a₂, h₂, rfl⟩
  case mpr =>
    rintro hi t₁ t₂ _ _ ⟨a₁, h₁, rfl⟩ ⟨a₂, h₂, rfl⟩
    exact congrArg report <| hi t₁ t₂ a₁ a₂ h₁ h₂

section Platform

variable {v : Bytes} {pre : TnsSession → List Printf} {request response : String} {sess : TnsSession}

theorem platform_eq {pkt a b : Bytes} (h : pkt.drop 3 = a ++ 0 :: b) (ha : 0 ∉ a) :
    platform pkt = cString b := by
  have hs : strlen (pkt.drop 3) = some a.length := by
    simp [strlen, cString, h, Terminated.read_append_cons ha]
  have hd : pkt.drop (3 + (a.length + 1)) = b := by
    rw [← List.drop_drop, h, ← List.drop_drop, List.drop_left]
    rfl
  simp [platform, hs, hd]

-- The second of the two strings ends in the message.
theorem independent_printPlatform_iff (hv : 3 ≤ v.length) :
    Independent (printPlatform pre request response) sess v ↔ 2 ≤ (v.drop 3).count 0 := by
  refine independent_reading_iff (g := platform) (fun _ _ h => by simpa using h) (fun _ _ => rfl)
    |>.trans ?_
  have hdrop (t : Bytes) : (v ++ t).drop 3 = v.drop 3 ++ t := List.drop_append_of_le_length hv
  constructor
  case mp =>
    intro h
    by_contra hc
    by_cases hz : 0 ∈ v.drop 3
    case pos =>
      have ⟨a, b, hab, ha⟩ := List.eq_append_cons_of_mem hz
      have hb : 0 ∉ b := by
        rw [hab, List.count_append, List.count_cons_self] at hc
        exact List.count_eq_zero.mp (by omega)
      have text (x : UInt8) (hx : x ≠ 0) :
          platform (v ++ residue x) = some (b ++ List.replicate tnsHeadLen x) := by
        have hb' : 0 ∉ b ++ List.replicate tnsHeadLen x := by simp [hb, Ne.symm hx]
        rw [platform_eq (a := a) (b := b ++ List.replicate tnsHeadLen x ++ 0 :: [x, 0]) ?_ ha, cString,
          Terminated.read_append_cons hb']
        simp [hdrop, hab, residue]
      have := h _ _ _ _ (text 0x41 (by decide)) (text 0x42 (by decide))
      simp [tnsHeadLen] at this
    case neg =>
      have text (x : UInt8) (hx : x ≠ 0) : platform (v ++ residue x) = some [x] := by
        have ha : 0 ∉ v.drop 3 ++ List.replicate tnsHeadLen x := by simp [hz, Ne.symm hx]
        rw [platform_eq (b := [x, 0]) ?_ ha, cString]
        · simp [Terminated.read, hx]
        · simp [hdrop, residue]
      have := h _ _ _ _ (text 0x41 (by decide)) (text 0x42 (by decide))
      simp at this
  case mpr =>
    intro hc
    have hpos : 0 < (v.drop 3).count 0 := by omega
    have ⟨a, b, hab, ha⟩ := List.eq_append_cons_of_mem <| List.count_pos_iff.mp hpos
    have hb : 0 ∈ b := by
      rw [hab, List.count_append, List.count_eq_zero.mpr ha, List.count_cons_self] at hc
      exact List.count_pos_iff.mp (by omega)
    have text (t : Bytes) : platform (v ++ t) = cString b := by
      rw [platform_eq (a := a) (b := b ++ t) (by simp [hdrop, hab]) ha, cString,
        Terminated.read_append_of_mem hb]
      rfl
    intro t₁ t₂ a₁ a₂ h₁ h₂
    exact Option.some.inj <| h₁.symm.trans <| (text t₁).trans <| (text t₂).symm.trans h₂

end Platform

section NetworkVersion

variable {v : Bytes} {pre : TnsSession → List Printf} {request response : String} {sess : TnsSession}

-- The four bytes are in the message.
theorem independent_printNetworkVersion_iff (hv : 4 ≤ v.length) :
    Independent (printNetworkVersion pre request response) sess v ↔ 12 ≤ v.length := by
  refine independent_reading_iff (g := networkVersion) (fun a b h => ?_) (fun _ _ => rfl) |>.trans ?_
  · simp only [Outcome.mk.injEq, List.append_cancel_left_eq, List.cons.injEq, Printf.mk.injEq, true_and,
      and_true] at h
    refine List.map_injective_iff.mpr (fun c d hcd => ?_) h
    exact UInt8.toNat_inj.mp <| Int.ofNat_inj.mp <| Arg.num.inj hcd
  constructor
  case mp =>
    intro h
    by_contra hc
    -- The last of the four bytes is behind the message.
    have last (x : UInt8) :
        ∃ l, networkVersion (v ++ residue x) = some l ∧ l[3]? = some x := by
      refine ⟨_, if_neg ?_, ?_⟩
      · simp [residue, tnsHeadLen]
        omega
      · rw [List.getElem?_take_of_lt (by decide), List.getElem?_drop,
          List.getElem?_append_right (by omega), residue,
          List.getElem?_append_left (by simp [tnsHeadLen]; omega),
          List.getElem?_replicate_of_lt (by simp [tnsHeadLen]; omega)]
    obtain ⟨l₁, h₁, hx₁⟩ := last 0x41
    obtain ⟨l₂, h₂, hx₂⟩ := last 0x42
    cases h _ _ _ _ h₁ h₂
    exact absurd (hx₁.symm.trans hx₂) (by decide)
  case mpr =>
    intro hl
    have bytes {t : Bytes} {a} (h : networkVersion (v ++ t) = some a) : a = (v.drop 8).take 4 := by
      rw [networkVersion, if_neg (by simp; omega), Option.some.injEq,
        List.drop_append_of_le_length (by omega), List.take_append_of_le_length (by simp; omega)] at h
      exact h.symm
    intro t₁ t₂ a₁ a₂ h₁ h₂
    exact (bytes h₁).trans (bytes h₂).symm

end NetworkVersion

-- The report of a message, if there is one, is made from the message alone.
@[mk_iff]
structure ReportsMessage (ver : UInt16) (id : UInt8) (msg : Bytes) : Prop where
  sns    : id = DataId.sns.val → 12 ≤ msg.length
  sp     : id = DataId.sp.val → 2 ≤ (msg.drop 3).count 0
  rs313  : ver = tns313 → id = DataId.rs.val → Settled313 126 msg
  oci313 : ver = tns313 → id = DataId.oci.val → msg[3]? = some 0x5e → Settled313 1022 msg
  rs314  : ver = tns314 → id = DataId.rs.val → (msg[3]? = some 0x5e ∨ msg[3]? = some 0x04) →
    Settled314 msg
  oci314 : ver = tns314 → id = DataId.oci.val → msg[3]? = some 0x5e → Settled314 msg

section Message

variable {v pkt : Bytes} {func func' : Handler} {sess : TnsSession} {sub : UInt8}
  {cJSONParse : Bytes → Option CJson}

theorem independent_congr (h : ∀ t, behind func sess v t = behind func' sess v t) :
    Independent func sess v ↔ Independent func' sess v := by
  simp only [Independent, h]

theorem independent_of_const {o : Except Fault Outcome} (h : ∀ t, behind func sess v t = o) :
    Independent func sess v := by
  intro t₁ t₂ o₁ o₂ h₁ h₂
  exact Except.ok.inj <| h₁.symm.trans <| (h t₁).trans <| (h t₂).symm.trans h₂

theorem getElem?_message (h : v[3]? = some sub) (t : Bytes) : (v ++ t)[3]? = some sub := by
  have := List.getElem?_eq_some_iff.mp h |>.choose
  rw [List.getElem?_append_left this, h]

-- A handler is called with a length that is not zero.
theorem independent_of_guard {func' : Handler}
    (h : ∀ pkt len, func pkt len sess =
      if len ≤ 0 then pure ⟨.success, sess, []⟩ else func' pkt len sess) :
    Independent func sess v ↔ Independent func' sess v :=
  independent_congr fun t => (h _ _).trans <| if_neg (by simp [tnsHeadLen])

-- A handler that reports in one case, and does the same for every message in the others.
theorem independent_of_ite (p : Prop) [Decidable p] (func' : Handler) (o : Except Fault Outcome)
    (h : ∀ t, behind func sess v t = if p then behind func' sess v t else o) :
    Independent func sess v ↔ (p → Independent func' sess v) := by
  by_cases hp : p
  case pos =>
    simp only [hp, if_true, true_implies] at h ⊢
    exact independent_congr h
  case neg =>
    simp only [hp, if_false, false_implies, iff_true] at h ⊢
    exact independent_of_const h

theorem independent_tns313OCI_iff (h : v[3]? = some sub) :
    Independent tns313OCI sess v ↔ (sub = 0x5e → Settled313 1022 v) := by
  let login : Outcome :=
    ⟨.success, { sess with state := .logingIn }, [printVersion sess, ⟨"    loging on\n", []⟩]⟩
  refine independent_of_ite (sub = 0x5e) (printRun313 1024 "    sql len:%d %s\n")
    (if sub = 0x73 then .ok login else .ok ⟨.success, sess, []⟩) (fun t => ?_) |>.trans ?_
  · simp [behind, tns313OCI, getElem?_message h, reading, bind, Except.bind, tnsHeadLen, pure, Except.pure,
      login]
  · exact imp_congr_right fun _ => independent_printRun313_iff (by decide)

theorem independent_tns314RS_iff (h : v[3]? = some sub) :
    Independent tns314RS sess v ↔ (sub = 0x5e ∨ sub = 0x04 → Settled314 v) := by
  refine independent_of_ite (sub = 0x5e ∨ sub = 0x04)
    (printRun314 "return status : %d\n%s\n") (.ok ⟨.success, sess, []⟩) (fun t => ?_) |>.trans ?_
  · simp [behind, tns314RS, getElem?_message h, reading, bind, Except.bind, tnsHeadLen, pure, Except.pure]
  · exact imp_congr_right fun _ => independent_printRun314_iff

theorem independent_tns314OCI_iff (h : v[3]? = some sub) :
    Independent tns314OCI sess v ↔ (sub = 0x5e → Settled314 v) := by
  refine independent_of_ite (sub = 0x5e) (printRun314 "query sql :len %d %s\n")
    (.ok ⟨.success, sess, []⟩) (fun t => ?_) |>.trans ?_
  · simp [behind, tns314OCI, getElem?_message h, reading, bind, Except.bind, tnsHeadLen, pure, Except.pure]
  · exact imp_congr_right fun _ => independent_printRun314_iff

theorem independent_entry_iff (sess : TnsSession) {ph : PktHandle} (h : ph ∈ msgDataIdHandles)
    (hf : func ∈ ph.func) (hv : 4 ≤ v.length) :
    Independent func sess v ↔ ReportsMessage ph.version ph.type v := by
  have ⟨sub, hsub⟩ : ∃ sub, v[3]? = some sub := ⟨_, List.getElem?_eq_getElem hv⟩
  simp only [msgDataIdHandles, List.mem_cons, List.not_mem_nil, or_false] at h
  rcases h with rfl | rfl | rfl | rfl | rfl | rfl | rfl | rfl <;> cases hf
  · refine independent_of_guard (fun _ _ => rfl) |>.trans
      (independent_printNetworkVersion_iff hv) |>.trans ?_
    simp [reportsMessage_iff, DataId.val, tns313, tns314]
  · refine independent_of_guard (fun _ _ => rfl) |>.trans
      (independent_printPlatform_iff (by omega)) |>.trans ?_
    simp [reportsMessage_iff, DataId.val, tns313, tns314]
  · refine independent_tns313OCI_iff hsub |>.trans ?_
    simp [reportsMessage_iff, DataId.val, tns313, tns314, hsub]
  · refine independent_of_guard (fun _ _ => rfl) |>.trans
      (independent_printRun313_iff (by decide)) |>.trans ?_
    simp [reportsMessage_iff, DataId.val, tns313, tns314]
  · refine independent_of_guard (fun _ _ => rfl) |>.trans
      (independent_printNetworkVersion_iff hv) |>.trans ?_
    simp [reportsMessage_iff, DataId.val, tns313, tns314]
  · refine independent_of_guard (fun _ _ => rfl) |>.trans
      (independent_printPlatform_iff (by omega)) |>.trans ?_
    simp [reportsMessage_iff, DataId.val, tns313, tns314]
  · refine independent_tns314OCI_iff hsub |>.trans ?_
    simp [reportsMessage_iff, DataId.val, tns313, tns314, hsub]
  · refine independent_tns314RS_iff hsub |>.trans ?_
    simp [reportsMessage_iff, DataId.val, tns313, tns314, hsub]

end Message

section Packet

variable {pkt t : Bytes} {sess : TnsSession} {id : UInt8} {cJSONParse : Bytes → Option CJson}

theorem pktData_append (h : tnsHeadLen ≤ pkt.length) : pktData (pkt ++ t) = pktData pkt ++ t :=
  List.drop_append_of_le_length h

-- The parser hands the message, with what is behind it, to the handlers for messages.
theorem tnsProtocolParse_append (h : HasMessage pkt pkt.length) (hid : dataId pkt = some id) :
    tnsProtocolParse cJSONParse (pkt ++ t) pkt.length sess =
      behind (msgDataIdHandle sess.version id msgDataIdHandles) { sess with state := .data }
        (pktData pkt) t >>= fun o => pure { o with code := .success } := by
  obtain ⟨⟨hm, ht, h8⟩, h12⟩ := h
  have h5 : 4 < pkt.length := by simp only [tnsHeadLen] at h8; omega
  have hlen : pktLen (pkt ++ t) = pktLen pkt := by
    rw [pktLen, Bytes.ushort?_append (by omega), pktLen]
  have htype : pktType (pkt ++ t) = some PktType.data.val := by
    rw [pktType, List.getElem?_append_left h5, ← ht, pktType]
  have hid' : dataId (pkt ++ t) = some id := by
    rw [dataId, pktData_append (Nat.le_of_lt h8), List.getElem?_append_left, ← hid, dataId]
    simp only [pktData, tnsHeadLen, offsetTnsDataOffset, List.length_drop] at h12 ⊢
    omega
  obtain ⟨l, hl, hl'⟩ := Option.map_eq_some_iff.mp hm
  have hmsg : (pktData pkt).length + tnsHeadLen = pkt.length := by
    simp only [pktData, List.length_drop]
    omega
  have hdata : pktTypeHandler cJSONParse PktType.data.val = some tnsDataHandle := rfl
  rw [tnsProtocolParse, hlen, hl, htype, behind, hmsg]
  simp only [reading, bind, Except.bind, hl', ne_eq, not_true_eq_false, if_false,
    packetHandle_msgTypeHandles, hdata, tnsDataHandle, Nat.not_le_of_lt h8, Nat.not_le_of_lt h12, hid',
    pktData_append (Nat.le_of_lt h8)]

-- A message of a version that the table has, and with no entry there, has none of the ids.
theorem reportsMessage_of_unknown {ver : UInt16} {msg : Bytes} (hver : ver = tns313 ∨ ver = tns314)
    (h : ∀ ph ∈ msgDataIdHandles, ∀ func ∈ ph.func, ¬(ph.version = ver ∧ ph.type = id)) :
    ReportsMessage ver id msg := by
  have hid : id ≠ DataId.sns.val ∧ id ≠ DataId.sp.val ∧ id ≠ DataId.oci.val ∧ id ≠ DataId.rs.val := by
    simp only [msgDataIdHandles, List.forall_mem_cons, Option.mem_def, Option.some.injEq, forall_eq',
      not_and] at h
    cases hver
    case inl hv => simp only [hv, true_implies, eq_comm (b := id)] at h; tauto
    case inr hv => simp only [hv, true_implies, eq_comm (b := id)] at h; tauto
  simp [reportsMessage_iff, hid]

-- For a message of version 313 or 314: the session left and the report are the same whatever is behind the
-- packet, if and only if the report is made from the message.
theorem tnsProtocolParse_independent_iff (cJSONParse : Bytes → Option CJson)
    (h : HasMessage pkt pkt.length) (hver : sess.version = tns313 ∨ sess.version = tns314) :
    (∀ t₁ t₂ o₁ o₂, tnsProtocolParse cJSONParse (pkt ++ t₁) pkt.length sess = .ok o₁ →
      tnsProtocolParse cJSONParse (pkt ++ t₂) pkt.length sess = .ok o₂ →
        o₁.sess = o₂.sess ∧ o₁.out = o₂.out) ↔
      ∀ id ∈ dataId pkt, ReportsMessage sess.version id (pktData pkt) := by
  have h12 : 12 < pkt.length := h.right
  have hmsg : 4 ≤ (pktData pkt).length := by
    simp only [pktData, tnsHeadLen, List.length_drop]
    omega
  obtain ⟨id, hid⟩ : ∃ id, dataId pkt = some id :=
    Option.ne_none_iff_exists'.mp <| dataId_eq_none_iff.not.mpr (by omega)
  simp only [hid, Option.mem_def, Option.some.injEq, forall_eq', tnsProtocolParse_append h hid]
  cases msgDataIdHandle_cases sess.version id msgDataIdHandles
  case inl hc =>
    obtain ⟨ph, hph, func, hf, ⟨hv, ht⟩, he⟩ := hc
    have entry := independent_entry_iff { sess with state := .data } hph hf hmsg
    rw [hv, ht] at entry
    refine Iff.trans ?_ entry
    rw [he]
    have code {t o} (ho : behind func { sess with state := .data } (pktData pkt) t = .ok o) :
        o.code = .success :=
      msgDataIdHandles_leaves hph hf (by simp [tnsHeadLen]) o ho |>.left
    have hok {t o} : (behind func { sess with state := .data } (pktData pkt) t >>=
        fun o => pure { o with code := .success }) = .ok o ↔
          behind func { sess with state := .data } (pktData pkt) t = .ok o := by
      simp only [bind_eq_ok, pure, Except.pure, Except.ok.injEq]
      constructor
      case mp =>
        rintro ⟨o', ho', rfl⟩
        rw [ho', ← code ho']
      case mpr => exact fun ho => ⟨o, ho, by rw [← code ho]⟩
    simp only [hok, Independent]
    refine forall₄_congr fun t₁ t₂ o₁ o₂ => forall₂_congr fun h₁ h₂ => ?_
    have := code h₁
    have := code h₂
    cases o₁
    cases o₂
    simp_all
  case inr hc =>
    obtain ⟨hnone, he⟩ := hc
    refine iff_of_true ?_ (reportsMessage_of_unknown hver hnone)
    rw [he]
    rintro t₁ t₂ _ _ ⟨⟩ ⟨⟩
    exact ⟨rfl, rfl⟩

-- A message with the version of a server, all of whose bytes are there.
theorem tnsProtocolParse_independent_of_version :
    HasMessage [0, 20, 0, 0, 6, 0, 0, 0, 0, 0, 0xde, 0, 0, 0, 0, 0, 19, 3, 0, 0] 20 ∧
    ∀ t₁ t₂ o₁ o₂,
      tnsProtocolParse (fun _ => none)
        ([0, 20, 0, 0, 6, 0, 0, 0, 0, 0, 0xde, 0, 0, 0, 0, 0, 19, 3, 0, 0] ++ t₁) 20
        { TnsSession.zero with version := 313 } = .ok o₁ →
      tnsProtocolParse (fun _ => none)
        ([0, 20, 0, 0, 6, 0, 0, 0, 0, 0, 0xde, 0, 0, 0, 0, 0, 19, 3, 0, 0] ++ t₂) 20
        { TnsSession.zero with version := 313 } = .ok o₂ →
      o₁.sess = o₂.sess ∧ o₁.out = o₂.out := by
  refine ⟨by decide, tnsProtocolParse_independent_iff _ (by decide) (.inl rfl) |>.mpr ?_⟩
  rintro _ ⟨⟩
  simp [reportsMessage_iff, DataId.val, tns313, tns314, pktData, tnsHeadLen]

-- The text of a call, which ends with the packet, and with another text behind it.
theorem tnsProtocolParse_reports_residue :
    ¬∀ (cJSONParse : Bytes → Option CJson) (pkt t₁ t₂ : Bytes) (sess : TnsSession) (o₁ o₂ : Outcome),
      HasMessage pkt pkt.length → sess.version = tns313 ∨ sess.version = tns314 →
      tnsProtocolParse cJSONParse (pkt ++ t₁) pkt.length sess = .ok o₁ →
      tnsProtocolParse cJSONParse (pkt ++ t₂) pkt.length sess = .ok o₂ →
        o₁.sess = o₂.sess ∧ o₁.out = o₂.out := by
  intro h
  have := h (fun _ => none) [0, 13, 0, 0, 6, 0, 0, 0, 0, 0, 0x03, 0x5e, 0x41] (residue 0x41) (residue 0x42)
    { TnsSession.zero with version := 313 } _ _ (by decide) (.inl rfl) rfl rfl
  exact absurd this.right (by decide)

end Packet
