import Mathlib.Data.Sym.Sym2
import TnsParser.Network.Frame
import TnsParser.Session.Lookups

-- The session that the packets of a connection belong to.

def Buf.connection (pack : Buf) : Sym2 Endpoint :=
  s(pack.src, pack.dst)

-- The key of the session of a packet, once its key and its direction have been stored.
def Packet.sessKey (pkt : Packet) : SessKey :=
  pkt.key.normalise pkt.dir

-- The key of the session between two endpoints.
def SessKey.between (client server : Endpoint) : SessKey where
  sip   := client.1
  dip   := server.1
  sport := ntohs client.2
  dport := ntohs server.2

variable {target : Target} {pkt₁ pkt₂ pkt : Packet} {len len₁ len₂ : Nat}
  {dataLen dataLen₁ dataLen₂ : UInt16} {dir dir₁ dir₂ : Direction} {client client' server : Endpoint}

theorem SessKey.between_inj : between client server = between client' server ↔ client = client' := by
  constructor
  case mp =>
    intro h
    simp only [between, SessKey.mk.injEq, true_and, and_true] at h
    have hport : client.2 = client'.2 := by
      rw [← ntohs_ntohs client.2, h.right, ntohs_ntohs]
    exact Prod.ext h.left hport
  case mpr => exact congrArg (between · server)

-- The other end of the connection is the client. When both ends are the target, it is the target.
theorem ipRecv_client (h : ipRecv target pkt.buf len = some (dataLen, dir)) :
    ∃ client, pkt.buf.connection = s(client, target.endpoint) ∧
      (recvSetPackInfo pkt dataLen.toNat dir .push).sessKey = .between client target.endpoint := by
  simp only [ipRecv, Option.ite_none_left_eq_some] at h
  obtain ⟨_, _, h⟩ := h
  split at h
  case isTrue hsrc =>
    cases h
    have hsrc : pkt.buf.src = target.endpoint := Prod.ext hsrc.left hsrc.right
    refine ⟨pkt.buf.dst, ?_, ?_⟩
    · rw [Buf.connection, hsrc, Sym2.eq_swap]
    · rw [← hsrc]
      simp [Packet.sessKey, recvSetPackInfo, SessKey.normalise, SessKey.between, Buf.src, Buf.dst]
  case isFalse =>
    obtain ⟨hdst, h⟩ := Option.ite_none_right_eq_some.mp h
    cases h
    have hdst : pkt.buf.dst = target.endpoint := Prod.ext hdst.left hdst.right
    refine ⟨pkt.buf.src, ?_, ?_⟩
    · rw [Buf.connection, hdst]
    · rw [← hdst]
      simp [Packet.sessKey, recvSetPackInfo, SessKey.normalise, SessKey.between, Buf.src, Buf.dst]

-- Two packets have the same session if and only if they are of the same connection.
theorem sessKey_eq_iff (h₁ : ipRecv target pkt₁.buf len₁ = some (dataLen₁, dir₁))
    (h₂ : ipRecv target pkt₂.buf len₂ = some (dataLen₂, dir₂)) :
    (recvSetPackInfo pkt₁ dataLen₁.toNat dir₁ .push).sessKey =
      (recvSetPackInfo pkt₂ dataLen₂.toNat dir₂ .push).sessKey ↔
    pkt₁.buf.connection = pkt₂.buf.connection := by
  have ⟨client₁, hc₁, hk₁⟩ := ipRecv_client h₁
  have ⟨client₂, hc₂, hk₂⟩ := ipRecv_client h₂
  rw [hc₁, hc₂, hk₁, hk₂, SessKey.between_inj, Sym2.congr_left]

-- A connection is one session: the packets of it, in both directions, and no others have its key, and
-- find it in the slot that the first of them was given.
theorem connection_one_session (h₁ : ipRecv target pkt₁.buf len₁ = some (dataLen₁, dir₁))
    (h₂ : ipRecv target pkt₂.buf len₂ = some (dataLen₂, dir₂)) :
    let p₁ := recvSetPackInfo pkt₁ dataLen₁.toNat dir₁ .push
    let p₂ := recvSetPackInfo pkt₂ dataLen₂.toNat dir₂ .push
    (p₁.key.normalise p₁.dir = p₂.key.normalise p₂.dir ↔
      pkt₁.buf.connection = pkt₂.buf.connection) ∧
    ∀ arr time arr₁ j, SessArray.sessMustFindNode arr p₁.key p₁.dir time = .ok (arr₁, j) →
      ∀ tr arr₂, SessArray.lookups.Steps SessArray.Hits arr₁ tr arr₂ →
        pkt₁.buf.connection = pkt₂.buf.connection →
          ∀ time', ∃ arr₃, arr₂.sessMustFindNode p₂.key p₂.dir time' = .ok (arr₃, j) := by
  refine ⟨sessKey_eq_iff h₁ h₂, fun arr time arr₁ j h tr arr₂ st hc time' => ?_⟩
  exact SessArray.sessMustFindNode_again h st (sessKey_eq_iff h₁ h₂ |>.mpr hc).symm time'

-- A buffer with a frame between the target and a client.
def framePacket (src dst : Endpoint) : Packet :=
  { clearPacket with buf := clearPacket.buf.receive (tcpFrame src dst).encode }

-- A request and its response, of which the second finds the session of the first.
theorem connection_one_session_of_two_frames :
    ∃ arr₁ arr₂ p₁ p₂,
      p₁ = recvSetPackInfo (framePacket (1, 1024) sampleTarget.endpoint) 9 .request .push ∧
      p₂ = recvSetPackInfo (framePacket sampleTarget.endpoint (1, 1024)) 9 .response .push ∧
      SessArray.sessMustFindNode sessInit p₁.key p₁.dir 10 = .ok (arr₁, 0) ∧
      arr₁.sessMustFindNode p₂.key p₂.dir 20 = .ok (arr₂, 0) := by
  have h₁ : ipRecv sampleTarget (framePacket (1, 1024) sampleTarget.endpoint).buf 77 =
      some (9, .request) := by decide
  have h₂ : ipRecv sampleTarget (framePacket sampleTarget.endpoint (1, 1024)).buf 77 =
      some (9, .response) := by decide
  have ⟨arr₁, h⟩ : ∃ arr₁, SessArray.sessMustFindNode sessInit
      (recvSetPackInfo (framePacket (1, 1024) sampleTarget.endpoint) 9 .request .push).key
      .request 10 = .ok (arr₁, 0) := ⟨_, rfl⟩
  have hc : (framePacket (1, 1024) sampleTarget.endpoint).buf.connection =
      (framePacket sampleTarget.endpoint (1, 1024)).buf.connection := by
    decide
  have ⟨arr₂, h'⟩ := (connection_one_session h₁ h₂).right sessInit 10 arr₁ 0 h [] arr₁ .refl hc 20
  exact ⟨arr₁, arr₂, _, _, rfl, rfl, h, h'⟩
