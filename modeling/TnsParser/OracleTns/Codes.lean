import TnsParser.OracleTns.Faults

open Except

-- The error codes of the parser.

variable {cJSONParse : Bytes → Option CJson} {data : Bytes} {len : Nat} {sess : TnsSession}
  {ver : UInt16} {o : Outcome}

def IsOutOfBounds (e : Fault) : Prop :=
  ∃ site, e = .outOfBounds site

-- The table has no entry for the message of the packet.
def UnknownMessage (data : Bytes) (len : Nat) (ver : UInt16) : Prop :=
  HasMessage data len ∧
    ∀ id ∈ dataId data, ∀ ph ∈ msgDataIdHandles, ¬(ph.func.isSome ∧ ph.version = ver ∧ ph.type = id)

instance : Decidable (UnknownMessage data len ver) :=
  @instDecidableAnd _ _ _ <| Option.decidableForallMem _

-- The code that tells how much of the packet was handled.
def expectedCode (cJSONParse : Bytes → Option CJson) (data : Bytes) (len : Nat) (ver : UInt16) :
    ErrorCode :=
  if ¬LenMatches data len then .pktLen
  else if ¬HasHandler cJSONParse data then .pktType
  else if UnknownMessage data len ver then .dataId
  else .success

theorem UnknownMessage.hasHandler (h : UnknownMessage data len ver) : HasHandler cJSONParse data := by
  have ⟨⟨⟨_, ht, _⟩, _⟩, _⟩ := h
  exact hasHandler_iff ht |>.mpr rfl

-- A packet that is not handled leaves the session as it was.
theorem after_of_not_hasHandler (h : ¬HasHandler cJSONParse data) : sess.after data len = sess := by
  cases ht : pktType data
  case none =>
    simp [TnsSession.after, newVersion?, newVersionCompatible?, newState?, HasConnectData, HasMessage,
      IsHandled, ht]
  case some type =>
    rw [hasHandler_iff ht] at h
    refine after_other ht ?_ ?_ ?_ ?_ <;>
    · rintro rfl
      exact h rfl

-- The code is the one that the packet calls for, and the session is not changed by a packet that is not
-- handled.
def CodeCorrect (cJSONParse : Bytes → Option CJson) (data : Bytes) (len : Nat) (sess : TnsSession)
    (o : Outcome) : Prop :=
  o.code = expectedCode cJSONParse data len sess.version ∧
    (o.code = .pktLen ∨ o.code = .pktType → o.sess = sess)

theorem codeCorrect_iff (h : tnsProtocolParse cJSONParse data len sess = .ok o) :
    CodeCorrect cJSONParse data len sess o ↔ ¬UnknownMessage data len sess.version := by
  have ⟨hs, hc⟩ := tnsProtocolParse_ensures o h
  rw [CodeCorrect, hs, hc, expectedCode]
  by_cases hm : LenMatches data len
  case neg =>
    have hu : ¬UnknownMessage data len sess.version := fun hu => hm hu.left.left.left
    simp [hm, hu, after_of_not_lenMatches]
  case pos =>
    by_cases hh : HasHandler cJSONParse data
    case neg =>
      have hu : ¬UnknownMessage data len sess.version := fun hu => hh hu.hasHandler
      simp [hm, hh, hu, after_of_not_hasHandler hh]
    case pos => by_cases hu : UnknownMessage data len sess.version <;> simp [hm, hh, hu]

-- For reads that are inside of the packet: the parser returns, with a code that is right, if and only
-- if the packet is not a message that the table does not know, and no incomplete connect packet.
theorem tnsProtocolParse_codeCorrect_iff
    (hin : Avoids IsOutOfBounds (tnsProtocolParse cJSONParse data len sess)) :
    (∃ o, tnsProtocolParse cJSONParse data len sess = .ok o ∧ CodeCorrect cJSONParse data len sess o) ↔
      ¬UnknownMessage data len sess.version ∧ ¬ConnectIncomplete cJSONParse data len := by
  rw [← tnsProtocolParse_eq_nullPointer_iff sess]
  cases h : tnsProtocolParse cJSONParse data len sess
  case error e =>
    cases e
    case outOfBounds site => exact absurd h <| hin _ ⟨site, rfl⟩
    case nullPointer => simp
  case ok o => simp [codeCorrect_iff h]
