import TnsParser.OracleTns.Basic

-- The tables as functions of the type of a packet, and of the version and the id of its data.

variable {cJSONParse : Bytes → Option CJson} {type id : UInt8} {ver : UInt16}

def pktTypeHandler (cJSONParse : Bytes → Option CJson) (type : UInt8) : Option Handler :=
  if type = PktType.connect.val then some (tnsConnectHandle cJSONParse)
  else if type = PktType.accept.val then some tnsAcceptHandle
  else if type = PktType.refuse.val then some tnsRefuseHandle
  else if type = PktType.data.val then some tnsDataHandle
  else if type = PktType.resend.val then some tnsResendHandle
  else none

theorem packetHandle_msgTypeHandles (pkt : Bytes) (len : Nat) (sess : TnsSession) :
    packetHandle type (msgTypeHandles cJSONParse) pkt len sess =
      match pktTypeHandler cJSONParse type with
      | some func => func pkt len sess
      | none      => .ok ⟨.pktType, sess, []⟩ := by
  simp only [packetHandle, msgTypeHandles, pktTypeHandler]
  grind

-- The table has a handler for packets of the type.
def HasHandler (cJSONParse : Bytes → Option CJson) (data : Bytes) : Prop :=
  ∃ ph ∈ msgTypeHandles cJSONParse, ph.func.isSome ∧ pktType data = some ph.type

theorem hasHandler_iff {data : Bytes} (h : pktType data = some type) :
    HasHandler cJSONParse data ↔ (pktTypeHandler cJSONParse type).isSome := by
  simp only [HasHandler, msgTypeHandles, h, pktTypeHandler]
  simp
  grind

instance {data : Bytes} : Decidable (HasHandler cJSONParse data) :=
  inferInstanceAs <| Decidable (∃ ph ∈ _, _)

-- The search through the table of the messages runs the handler of an entry, or there is none.
theorem msgDataIdHandle_cases (ver : UInt16) (type : UInt8) (phs : List PktHandle) :
    (∃ ph ∈ phs, ∃ func ∈ ph.func, (ph.version = ver ∧ ph.type = type) ∧
      msgDataIdHandle ver type phs = func) ∨
    ((∀ ph ∈ phs, ∀ func ∈ ph.func, ¬(ph.version = ver ∧ ph.type = type)) ∧
      msgDataIdHandle ver type phs = fun _ _ sess => .ok ⟨.dataId, sess, []⟩) := by
  induction phs
  case nil => exact .inr ⟨nofun, rfl⟩
  case cons ph phs hi =>
    have skip (h : ∀ func ∈ ph.func, ¬(ph.version = ver ∧ ph.type = type)) :
        msgDataIdHandle ver type (ph :: phs) = msgDataIdHandle ver type phs := by
      funext pkt len sess
      rw [msgDataIdHandle]
      split
      case h_1      => rfl
      case h_2 f hf => rw [if_neg (h f hf)]
    by_cases h : ∃ func ∈ ph.func, ph.version = ver ∧ ph.type = type
    case pos =>
      have ⟨func, hf, he⟩ := h
      refine .inl ⟨ph, .head _, func, hf, he, ?_⟩
      funext pkt len sess
      rw [msgDataIdHandle, Option.mem_def.mp hf]
      exact if_pos he
    case neg =>
      have h : ∀ func ∈ ph.func, ¬(ph.version = ver ∧ ph.type = type) :=
        fun func hf he => h ⟨func, hf, he⟩
      rw [skip h]
      exact hi.imp (fun ⟨ph', hph, h'⟩ => ⟨ph', .tail _ hph, h'⟩)
        fun ⟨hn, he⟩ => ⟨List.forall_mem_cons.mpr ⟨h, hn⟩, he⟩
