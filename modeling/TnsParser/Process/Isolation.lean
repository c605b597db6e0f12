import TnsParser.OracleTns.Codes
import TnsParser.Process.Runs

open Except

-- When connections do not affect each other.

variable {cJSONParse : Bytes → Option CJson} {arr arr' : SessArray} {log log' : Log} {o o' : Outcome}
  {ps : List Arrival} {p : Arrival} {key : SessKey}

-- The packet is long enough for all that is read of it, whatever the session.
def Arrival.LongEnough (cJSONParse : Bytes → Option CJson) (p : Arrival) : Prop :=
  ∀ sess, Avoids IsOutOfBounds (tnsProtocolParse cJSONParse p.data p.len sess)

theorem Arrival.LongEnough.ok_iff (h : p.LongEnough cJSONParse) (sess : TnsSession) :
    (∃ o, tnsProtocolParse cJSONParse p.data p.len sess = .ok o) ↔
      ¬ConnectIncomplete cJSONParse p.data p.len := by
  rw [← tnsProtocolParse_eq_nullPointer_iff sess]
  cases hr : tnsProtocolParse cJSONParse p.data p.len sess
  case ok o    => simp
  case error e =>
    cases e
    case outOfBounds site => exact absurd hr <| h sess _ ⟨site, rfl⟩
    case nullPointer      => simp

-- What later packets of the session depend on.
def TnsSession.record (sess : TnsSession) : UInt16 × UInt16 × SessState × Direction :=
  (sess.version, sess.versionCompatible, sess.state, sess.curDir)

def Log.ofKey (log : Log) (key : SessKey) : Log :=
  log.filter (·.1.sessKey = key)

-- The reports are the same, and so is the record that the last packet leaves.
def Log.SameAs (log log' : Log) : Prop :=
  log.map (·.2.out) = log'.map (·.2.out) ∧
    log.getLast?.map (·.2.sess.record) = log'.getLast?.map (·.2.sess.record)

-- The packets of each session have the outcomes that they have without the others.
def Isolated (cJSONParse : Bytes → Option CJson) (ps : List Arrival) : Prop :=
  ∃ arr log, processAll cJSONParse ps = .ok (arr, log) ∧
    ∀ key, ∃ arr' log', processAll cJSONParse (ps.filter (·.sessKey = key)) = .ok (arr', log') ∧
      (log.ofKey key).SameAs log'

-- The record that a session has of its own, or a new one.
def Log.own (log : Log) (key : SessKey) : TnsSession :=
  ((log.ofKey key).getLast?.map (·.2.sess)).getD { TnsSession.zero with key, state := .init }

-- A packet whose session is not in the array finds, in those fields that it does not set itself, what
-- its session had left.
def Harmless (arr : SessArray) (own : TnsSession) (p : Arrival) : Prop :=
  (∀ i, (arr i).key ≠ p.sessKey) →
    (newVersion? p.data p.len = none → (arr 0).version = own.version) ∧
    (newVersionCompatible? p.data p.len = none → (arr 0).versionCompatible = own.versionCompatible) ∧
    (newState? p.data p.len own.version = none → .init = own.state)

-- A session that does not differ from another one in a field that the packet does not set.
structure AgreesFor (p : Arrival) (sess sess' : TnsSession) : Prop where
  version           : newVersion? p.data p.len = none → sess.version = sess'.version
  versionCompatible : newVersionCompatible? p.data p.len = none →
    sess.versionCompatible = sess'.versionCompatible
  state             : newState? p.data p.len sess'.version = none → sess.state = sess'.state

theorem getD_eq_getD_iff {α : Type} {a b : α} {o : Option α} :
    o.getD a = o.getD b ↔ (o = none → a = b) := by
  cases o <;> simp

-- The new state depends on the version only when the packet does not set it.
theorem newState?_congr {data : Bytes} {len : Nat} {ver ver' : UInt16}
    (h : newVersion? data len = none → ver = ver') : newState? data len ver = newState? data len ver' := by
  by_cases hc : HasConnectData data len
  case pos => simp [newState?, hc]
  case neg =>
    by_cases ha : IsHandled .accept data len
    case pos => simp [newState?, hc, ha]
    case neg => rw [h (by simp [newVersion?, hc, ha])]

theorem record_after_eq_iff {sess sess' : TnsSession} (hd : sess.curDir = sess'.curDir) :
    (sess.after p.data p.len).record = (sess'.after p.data p.len).record ↔ AgreesFor p sess sess' := by
  simp only [TnsSession.record, TnsSession.after, Prod.mk.injEq, hd, and_true, getD_eq_getD_iff]
  constructor
  case mp =>
    rintro ⟨hv, hc, hs⟩
    rw [newState?_congr hv, getD_eq_getD_iff] at hs
    exact ⟨hv, hc, hs⟩
  case mpr =>
    rintro ⟨hv, hc, hs⟩
    rw [newState?_congr hv, getD_eq_getD_iff]
    exact ⟨hv, hc, hs⟩

theorem Log.SameAs.concat_iff (h : log.SameAs log') :
    Log.SameAs (log ++ [(p, o)]) (log' ++ [(p, o')]) ↔
      o.out = o'.out ∧ o.sess.record = o'.sess.record := by
  simp [Log.SameAs, h.left]

theorem Log.ofKey_concat :
    Log.ofKey (log ++ [(p, o)]) key =
      if p.sessKey = key then log.ofKey key ++ [(p, o)] else log.ofKey key := by
  by_cases h : p.sessKey = key <;> simp [Log.ofKey, h]

theorem seen_view : (seen arr p).SameView (seen arr' p) where
  curDir      := by simp only [seen]; split <;> split <;> rfl
  curSessDesc := by simp only [seen]; split <;> split <;> rfl

-- Two packets with the same outcome: it is enough to compare what they find.
theorem outcome_eq_iff (ho : tnsProtocolParse cJSONParse p.data p.len (seen arr p) = .ok o)
    (ho' : tnsProtocolParse cJSONParse p.data p.len (seen arr' p) = .ok o') :
    (o.out = o'.out ∧ o.sess.record = o'.sess.record) ↔ AgreesFor p (seen arr p) (seen arr' p) := by
  rw [(tnsProtocolParse_ensures o ho).left, (tnsProtocolParse_ensures o' ho').left,
    record_after_eq_iff seen_view.curDir]
  refine and_iff_right_of_imp fun h => ?_
  exact tnsProtocolParse_agree seen_view h.version o o' ho ho'

-- A session that is alone always finds what it left.
theorem AfterLog.seen_alone (h : AfterLog arr log) (hkey : ∀ e ∈ log, e.1.sessKey = p.sessKey)
    (hz : p.sessKey ≠ ⟨0, 0, 0, 0⟩) :
    (seen arr p).version = (log.own p.sessKey).version ∧
    (seen arr p).versionCompatible = (log.own p.sessKey).versionCompatible ∧
    (seen arr p).state = (log.own p.sessKey).state := by
  have hof : log.ofKey p.sessKey = log := by simpa [Log.ofKey] using hkey
  cases hl : log.getLast?
  case none =>
    have h0 : arr 0 = .zero := by simp [h.last, hl]
    simp [seen, Log.own, hof, hl, h0, TnsSession.zero, hz.symm]
  case some e =>
    have he := List.mem_of_getLast? hl
    have h0 : arr 0 = e.2.sess := by simp [h.last, hl]
    simp [seen, Log.own, hof, hl, h0, h.keys e he, hkey e he]

theorem Log.ofKey_getLast? {e : Arrival × Outcome} (h : log.getLast? = some e)
    (hkey : e.1.sessKey = key) : (log.ofKey key).getLast? = some e := by
  have ⟨l, hl⟩ := List.getLast?_eq_some_iff.mp h
  simp [hl, ofKey, hkey]

-- A packet that finds its session finds what the session left.
theorem AfterLog.seen_hit (h : AfterLog arr log) (hz : p.sessKey ≠ ⟨0, 0, 0, 0⟩)
    (h0 : (arr 0).key = p.sessKey) :
    (seen arr p).version = (log.own p.sessKey).version ∧
    (seen arr p).versionCompatible = (log.own p.sessKey).versionCompatible ∧
    (seen arr p).state = (log.own p.sessKey).state := by
  cases hl : log.getLast?
  case none =>
    have : arr 0 = .zero := by simp [h.last, hl]
    exact absurd (h0.symm.trans (congrArg TnsSession.key this)) hz
  case some e =>
    have ha : arr 0 = e.2.sess := by simp [h.last, hl]
    have hek : e.2.sess.key = p.sessKey := ha ▸ h0
    have hk : e.1.sessKey = p.sessKey := (h.keys e (List.mem_of_getLast? hl)).symm.trans hek
    simp [seen, Log.own, Log.ofKey_getLast? hl hk, ha, hek]

theorem Log.SameAs.own_record (h : (log.ofKey key).SameAs (log'.ofKey key)) :
    (log.own key).record = (log'.own key).record := by
  have hr := h.right
  rw [own, own]
  cases hl : (log.ofKey key).getLast? <;> cases hl' : (log'.ofKey key).getLast? <;> simp_all

-- Next to a session that is alone, a packet finds the same as far as it matters if and only if the slot
-- that it takes is harmless.
theorem agreesFor_iff (h : AfterLog arr log) (h' : AfterLog arr' log')
    (hkey : ∀ e ∈ log', e.1.sessKey = p.sessKey) (hz : p.sessKey ≠ ⟨0, 0, 0, 0⟩)
    (hs : (log.ofKey p.sessKey).SameAs log') :
    AgreesFor p (seen arr p) (seen arr' p) ↔ Harmless arr (log.own p.sessKey) p := by
  have hof : log'.ofKey p.sessKey = log' := by simpa [Log.ofKey] using hkey
  have hsame : (log.ofKey p.sessKey).SameAs (log'.ofKey p.sessKey) := hof.symm ▸ hs
  have hrec := hsame.own_record
  simp only [TnsSession.record, Prod.mk.injEq] at hrec
  obtain ⟨hv, hc, hst, _⟩ := hrec
  obtain ⟨hv', hc', hst'⟩ := h'.seen_alone hkey hz
  by_cases h0 : (arr 0).key = p.sessKey
  case pos =>
    obtain ⟨hv₀, hc₀, hst₀⟩ := h.seen_hit hz h0
    refine iff_of_true ⟨fun _ => ?_, fun _ => ?_, fun _ => ?_⟩ fun hn => absurd h0 (hn 0)
    · exact hv₀.trans <| hv.trans hv'.symm
    · exact hc₀.trans <| hc.trans hc'.symm
    · exact hst₀.trans <| hst.trans hst'.symm
  case neg =>
    have hmiss : ∀ i, (arr i).key ≠ p.sessKey :=
      SessArray.findSess?_eq_none_iff.mp <| by simp [h.findSess? hz, h0]
    have hseen : (seen arr p).version = (arr 0).version ∧
        (seen arr p).versionCompatible = (arr 0).versionCompatible ∧ (seen arr p).state = .init := by
      simp [seen, h0]
    obtain ⟨hv₀, hc₀, hst₀⟩ := hseen
    rw [Harmless, hv, hc, hst, ← hv', ← hc', ← hst', ← hv₀, ← hc₀]
    constructor
    case mp  => exact fun ha _ => ⟨ha.version, ha.versionCompatible, fun hn => hst₀ ▸ ha.state hn⟩
    case mpr =>
      intro hh
      obtain ⟨h₁, h₂, h₃⟩ := hh hmiss
      exact ⟨h₁, h₂, fun hn => hst₀.trans (h₃ hn)⟩

theorem filter_keys (h : log.map (·.1) = ps.filter (·.sessKey = key)) :
    ∀ e ∈ log, e.1.sessKey = key := by
  intro e he
  have hm : e.1 ∈ log.map (·.1) := List.mem_map_of_mem he
  rw [h] at hm
  simpa using List.of_mem_filter hm

theorem mainprocess_ok_iff (h : AfterLog arr log) (hkey : p.sessKey ≠ ⟨0, 0, 0, 0⟩)
    (hlong : p.LongEnough cJSONParse) :
    (∃ r, mainprocess cJSONParse arr p = .ok r) ↔ ¬ConnectIncomplete cJSONParse p.data p.len := by
  rw [← hlong.ok_iff (seen arr p), h.mainprocess_eq hkey]
  cases tnsProtocolParse cJSONParse p.data p.len (seen arr p) <;>
    simp [bind, Except.bind, pure, Except.pure]

-- One more packet: the connections are still isolated if and only if the packet is not one that the
-- parser fails for, and finds a harmless slot.
theorem isolated_concat_iff (hi : Isolated cJSONParse ps)
    (hlong : p.LongEnough cJSONParse) (hkey : ∀ q ∈ ps ++ [p], q.sessKey ≠ ⟨0, 0, 0, 0⟩) :
    Isolated cJSONParse (ps ++ [p]) ↔
      ¬ConnectIncomplete cJSONParse p.data p.len ∧
        ∀ arr log, processAll cJSONParse ps = .ok (arr, log) →
          Harmless arr (log.own p.sessKey) p := by
  have ⟨arr, log, hr, hrK⟩ := hi
  have hz : p.sessKey ≠ ⟨0, 0, 0, 0⟩ := hkey p (by simp)
  have hkey : ∀ q ∈ ps, q.sessKey ≠ ⟨0, 0, 0, 0⟩ := fun q hq => hkey q (List.mem_append_left _ hq)
  have ⟨ha, hmap⟩ := processAll_afterLog hkey hr
  -- The session of the packet, alone.
  have ⟨arrK, logK, hrK', hs⟩ := hrK p.sessKey
  have ⟨haK, hmapK⟩ := processAll_afterLog (fun q hq => hkey q (List.mem_of_mem_filter hq)) hrK'
  have hkeyK := filter_keys hmapK
  have hfilter : (ps ++ [p]).filter (·.sessKey = p.sessKey) =
      ps.filter (·.sessKey = p.sessKey) ++ [p] := by
    simp
  have hstep := agreesFor_iff ha haK hkeyK hz hs
  have honly : (∀ arr log, processAll cJSONParse ps = .ok (arr, log) →
      Harmless arr (log.own p.sessKey) p) ↔ Harmless arr (log.own p.sessKey) p := by
    constructor
    case mp => exact fun h => h arr log hr
    case mpr =>
      intro h arr' log' hr'
      cases hr.symm.trans hr'
      exact h
  rw [honly, ← hstep, ← mainprocess_ok_iff ha hz hlong]
  constructor
  case mp =>
    intro ⟨arr₁, log₁, hr₁, hrK₁⟩
    have ⟨arr', log', o, hr', hm, hlog⟩ := processAll_concat_eq_ok.mp hr₁
    cases hr.symm.trans hr'
    subst hlog
    refine ⟨⟨_, hm⟩, ?_⟩
    have ⟨arrK₁, logK₁, hrK₁, hs₁⟩ := hrK₁ p.sessKey
    rw [hfilter] at hrK₁
    have ⟨arrK', logK', oK, hrK₂, hmK, hlogK⟩ := processAll_concat_eq_ok.mp hrK₁
    cases hrK'.symm.trans hrK₂
    subst hlogK
    rw [Log.ofKey_concat, if_pos rfl, hs.concat_iff] at hs₁
    exact outcome_eq_iff (ha.step hz hm).left (haK.step hz hmK).left |>.mp hs₁
  case mpr =>
    intro ⟨⟨⟨arr₁, o⟩, hm⟩, hagree⟩
    have hok := mainprocess_ok_iff ha hz hlong |>.mp ⟨_, hm⟩
    have ⟨⟨arrK₁, oK⟩, hmK⟩ := mainprocess_ok_iff haK hz hlong |>.mpr hok
    refine ⟨arr₁, log ++ [(p, o)], processAll_concat_eq_ok.mpr ⟨arr, log, o, hr, hm, rfl⟩, fun key => ?_⟩
    rw [Log.ofKey_concat]
    split
    case isTrue hk =>
      subst hk
      refine ⟨arrK₁, logK ++ [(p, oK)], ?_, hs.concat_iff.mpr ?_⟩
      · rw [hfilter]
        exact processAll_concat_eq_ok.mpr ⟨arrK, logK, oK, hrK', hmK, rfl⟩
      · exact outcome_eq_iff (ha.step hz hm).left (haK.step hz hmK).left |>.mpr hagree
    case isFalse hk =>
      have : (ps ++ [p]).filter (·.sessKey = key) = ps.filter (·.sessKey = key) := by simp [hk]
      rw [this]
      exact hrK key

-- The packets that the parser does not fail for, and whose slots are harmless.
def AllHarmless (cJSONParse : Bytes → Option CJson) (ps : List Arrival) : Prop :=
  (∀ p ∈ ps, ¬ConnectIncomplete cJSONParse p.data p.len) ∧
    ∀ qs p arr log, qs ++ [p] <+: ps → processAll cJSONParse qs = .ok (arr, log) →
      Harmless arr (log.own p.sessKey) p

theorem allHarmless_concat_iff :
    AllHarmless cJSONParse (ps ++ [p]) ↔ AllHarmless cJSONParse ps ∧
      ¬ConnectIncomplete cJSONParse p.data p.len ∧
        ∀ arr log, processAll cJSONParse ps = .ok (arr, log) →
          Harmless arr (log.own p.sessKey) p := by
  simp only [AllHarmless, List.prefix_concat_iff, List.forall_mem_append, List.forall_mem_singleton]
  constructor
  case mp =>
    intro ⟨⟨hc, hcp⟩, hh⟩
    refine ⟨⟨hc, fun qs q arr log hq => hh qs q arr log (.inr hq)⟩, hcp, fun arr log => ?_⟩
    exact hh ps p arr log (.inl rfl)
  case mpr =>
    intro ⟨⟨hc, hh⟩, hcp, hp⟩
    refine ⟨⟨hc, hcp⟩, fun qs q arr log hq => ?_⟩
    cases hq
    case inl hq =>
      have ⟨hqs, hlast⟩ := List.append_inj' hq rfl
      subst hqs
      cases List.singleton_inj.mp hlast
      exact hp arr log
    case inr hq => exact hh qs q arr log hq

-- The connections are isolated throughout a run if and only if all packets are harmless.
theorem isolated_iff (cJSONParse : Bytes → Option CJson) (ps : List Arrival)
    (hlong : ∀ p ∈ ps, p.LongEnough cJSONParse) (hkey : ∀ p ∈ ps, p.sessKey ≠ ⟨0, 0, 0, 0⟩) :
    (∀ qs, qs <+: ps → Isolated cJSONParse qs) ↔ AllHarmless cJSONParse ps := by
  induction ps using List.reverseRecOn
  case nil =>
    refine iff_of_true (fun qs hq => ?_) ⟨nofun, fun qs p arr log hq => ?_⟩
    · rw [List.prefix_nil.mp hq]
      exact ⟨sessInit, [], rfl, fun _ => ⟨sessInit, [], rfl, rfl, rfl⟩⟩
    · simp at hq
  case append_singleton ps p hi =>
    have hi := hi (fun q hq => hlong q (List.mem_append_left _ hq))
      fun q hq => hkey q (List.mem_append_left _ hq)
    have hqs : (∀ qs, qs <+: ps ++ [p] → Isolated cJSONParse qs) ↔
        (∀ qs, qs <+: ps → Isolated cJSONParse qs) ∧ Isolated cJSONParse (ps ++ [p]) := by
      simp only [List.prefix_concat_iff, or_imp, forall_and, forall_eq, and_comm]
    rw [hqs, allHarmless_concat_iff, ← hi]
    refine and_congr_right fun h => ?_
    exact isolated_concat_iff (h ps (List.prefix_refl ps)) (hlong p (by simp)) hkey

-- An accept packet of version 313, and a resend packet.

def acceptArrival (key : SessKey) (dir : Direction) : Arrival where
  data := [0, 40, 0, 0, 2, 0, 0, 0, 1, 57] ++ List.replicate 30 0
  len  := 40
  key  := key
  dir  := dir
  time := 0

def resendArrival (key : SessKey) (dir : Direction) : Arrival where
  data := [0, 9, 0, 0, 11, 0, 0, 0, 0]
  len  := 9
  key  := key
  dir  := dir
  time := 0
