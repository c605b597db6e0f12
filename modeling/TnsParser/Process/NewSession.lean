import TnsParser.Process.Isolation

open Except

-- What a new session inherits.

variable {cJSONParse : Bytes → Option CJson} {arr arr' : SessArray} {log log' : Log} {o : Outcome}
  {ps ps' : List Arrival} {p : Arrival} {skey : SessKey} {dir : Direction} {time : UInt64}

-- The record that `sess_must_find_node` returns.
def SessArray.returned (arr : SessArray) (skey : SessKey) (dir : Direction) (time : UInt64) :
    Except Fault TnsSession := do
  let (arr, i) ← arr.sessMustFindNode skey dir time
  return arr i

-- A record that has nothing in it but the key of a session.
structure TnsSession.IsNew (sess : TnsSession) (key : SessKey) : Prop where
  version           : sess.version = 0
  versionCompatible : sess.versionCompatible = 0
  curSessDesc       : sess.curSessDesc = ""
  state             : sess.state = .init
  key               : sess.key = key

-- Records that differ in `update_time` at most.
def TnsSession.SameButTime (sess sess' : TnsSession) : Prop :=
  { sess with updateTime := 0 } = { sess' with updateTime := 0 }

-- Records that a session which takes over one of them cannot tell apart.
structure TnsSession.SameLeftover (sess sess' : TnsSession) : Prop where
  version           : sess.version = sess'.version
  versionCompatible : sess.versionCompatible = sess'.versionCompatible
  curDir            : sess.curDir = sess'.curDir
  curSessDesc       : sess.curSessDesc = sess'.curSessDesc

theorem SessArray.returned_miss (h : ∀ i, (arr i).key ≠ skey.normalise dir) :
    arr.returned skey dir time = .ok { arr 0 with key := skey.normalise dir, state := .init } := by
  simp [returned, sessMustFindNode_miss h, bind, Except.bind, pure, Except.pure]

theorem sessDesc_ne_empty (key : SessKey) : sessDesc key ≠ "" := by
  simp only [sessDesc, ne_eq, String.append_eq_empty_iff]
  exact fun h => absurd h.left.left.left.left.left.left.left.left (by decide)

-- A call writes to one slot, which gets the description of the packet. In the array that `sess_init`
-- leaves this is the first one.
theorem mainprocess_writes (h : mainprocess cJSONParse arr p = .ok (arr', o)) :
    ∃ i, (∀ j, j ≠ i → arr' j = arr j) ∧ (arr' i).curSessDesc = sessDesc p.key ∧
      (arr = sessInit → i = 0) := by
  have ⟨⟨arr₁, i⟩, hf, h⟩ := bind_eq_ok.mp h
  have ⟨o', ho, h⟩ := bind_eq_ok.mp h
  cases h
  have hdesc : (Function.update arr₁ i o.sess i).curSessDesc = sessDesc p.key := by
    rw [Function.update_self, (tnsProtocolParse_ensures o ho).left]
    rfl
  refine ⟨i, fun j hj => ?_, hdesc, ?_⟩
  · rw [Function.update_of_ne hj]
    exact SessArray.sessMustFindNode_writes hf j hj
  · rintro rfl
    exact sessInit_sessMustFindNode hf

-- A run that is not empty leaves something in the first slot.
theorem processAll_first (h : processAll cJSONParse ps = .ok (arr, log)) :
    (ps = [] ∧ arr = sessInit) ∨ (ps ≠ [] ∧ (arr 0).curSessDesc ≠ "") := by
  induction ps using List.reverseRecOn generalizing arr log
  case nil =>
    cases h
    exact .inl ⟨rfl, rfl⟩
  case append_singleton ps p hi =>
    have ⟨arr₁, log₁, o, hr, hm, _⟩ := processAll_concat_eq_ok.mp h
    have ⟨i, hne, hdesc, hinit⟩ := mainprocess_writes hm
    refine .inr ⟨by simp, ?_⟩
    by_cases hi0 : i = 0
    case pos => exact hi0 ▸ hdesc ▸ sessDesc_ne_empty p.key
    case neg =>
      rw [hne 0 (Ne.symm hi0)]
      cases hi hr
      case inl h => exact absurd (hinit h.right) hi0
      case inr h => exact h.right

-- The record of a session that is in no slot is new if and only if no packet has been processed. It is
-- the same for two arrays, but for the time, if and only if what was left in the first slot is.
theorem sessMustFindNode_isNew_iff (h : processAll cJSONParse ps = .ok (arr, log))
    (hn : ∀ i, (arr i).key ≠ skey.normalise dir) :
    ((∃ sess, arr.returned skey dir time = .ok sess ∧ sess.IsNew (skey.normalise dir)) ↔ ps = []) ∧
    ∀ ps' arr' log' time' sess sess', processAll cJSONParse ps' = .ok (arr', log') →
      (∀ i, (arr' i).key ≠ skey.normalise dir) →
      arr.returned skey dir time = .ok sess → arr'.returned skey dir time' = .ok sess' →
        (sess.SameButTime sess' ↔ (arr 0).SameLeftover (arr' 0)) := by
  rw [SessArray.returned_miss hn]
  refine ⟨?_, ?_⟩
  · cases processAll_first h
    case inl h' =>
      have ⟨hps, harr⟩ := h'
      exact iff_of_true ⟨_, rfl, harr ▸ ⟨rfl, rfl, rfl, rfl, rfl⟩⟩ hps
    case inr h' =>
      refine iff_of_false ?_ h'.left
      rintro ⟨_, ⟨⟩, hnew⟩
      exact h'.right hnew.curSessDesc
  · intro ps' arr' log' time' sess sess' _ hn' hs hs'
    rw [SessArray.returned_miss hn'] at hs'
    cases hs
    cases hs'
    simp only [TnsSession.SameButTime, TnsSession.mk.injEq, true_and]
    constructor
    case mp  => exact fun ⟨hv, hc, hd, hs⟩ => ⟨hv, hc, hd, hs⟩
    case mpr => exact fun ⟨hv, hc, hd, hs⟩ => ⟨hv, hc, hd, hs⟩

-- The first session of all.
theorem sessMustFindNode_isNew_first :
    ∃ sess, sessInit.returned ⟨1, 2, 3, 4⟩ .request 0 = .ok sess ∧ sess.IsNew ⟨1, 2, 3, 4⟩ :=
  have h : processAll (fun _ => none) [] = .ok (sessInit, []) := rfl
  sessMustFindNode_isNew_iff h (by decide) |>.left.mpr rfl

-- The second session has the version that the first one has accepted.
theorem sessMustFindNode_inherits_version :
    ¬∀ (cJSONParse : Bytes → Option CJson) (ps : List Arrival) (arr : SessArray) (log : Log)
      (skey : SessKey) (dir : Direction) (time : UInt64),
      processAll cJSONParse ps = .ok (arr, log) → skey.normalise dir ≠ ⟨0, 0, 0, 0⟩ →
      (∀ i, (arr i).key ≠ skey.normalise dir) →
      ∃ sess, arr.returned skey dir time = .ok sess ∧ sess.IsNew (skey.normalise dir) := by
  intro h
  have hr : processAll (fun _ => none) [acceptArrival ⟨2, 1, 4, 3⟩ .response] = .ok (_, _) := rfl
  have ⟨sess, hs, hnew⟩ := h _ _ _ _ ⟨5, 2, 3, 4⟩ .request 0 hr (by decide) (by decide)
  cases hs
  exact absurd hnew.version (by decide)
