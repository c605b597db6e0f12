import TnsParser.Process.Isolation

open Except

-- The keys in the array, and the slot that a look-up returns.

variable {cJSONParse : Bytes → Option CJson} {arr : SessArray} {log : Log} {ps : List Arrival}
  {data : Bytes} {len : Nat} {ver : UInt16} {sess : TnsSession} {skey : SessKey} {dir : Direction}
  {time : UInt64}

theorem newState?_ne_close : newState? data len ver ≠ some .close := by
  simp only [newState?]
  grind

-- A packet does not close a session.
theorem after_ne_close (h : sess.state ≠ .close) : (sess.after data len).state ≠ .close := by
  rw [TnsSession.after]
  cases hs : newState? data len sess.version
  case none       => exact h
  case some state =>
    rintro rfl
    exact newState?_ne_close hs

-- The session in the first slot, which is the only one that can be in use, is open.
theorem processAll_open (hkey : ∀ p ∈ ps, p.sessKey ≠ ⟨0, 0, 0, 0⟩)
    (h : processAll cJSONParse ps = .ok (arr, log)) (h0 : (arr 0).key ≠ ⟨0, 0, 0, 0⟩) :
    (arr 0).state ≠ .close := by
  induction ps using List.reverseRecOn generalizing arr log
  case nil =>
    cases h
    exact absurd rfl h0
  case append_singleton ps p hi =>
    have ⟨arr₁, log₁, o, hr, hm, hlog⟩ := processAll_concat_eq_ok.mp h
    subst hlog
    have hkey' : ∀ q ∈ ps, q.sessKey ≠ ⟨0, 0, 0, 0⟩ := fun q hq => hkey q (List.mem_append_left _ hq)
    have hp : p.sessKey ≠ ⟨0, 0, 0, 0⟩ := hkey p (by simp)
    have ⟨ho, ha⟩ := processAll_afterLog hkey' hr |>.left.step hp hm
    have hlast : arr 0 = o.sess := by simpa using ha.last
    rw [hlast, (tnsProtocolParse_ensures o ho).left]
    refine after_ne_close ?_
    rw [seen]
    split
    case isTrue hk  => exact hi hkey' hr (hk ▸ hp)
    case isFalse hk => simp

-- Keys are unique in every array that is reached. A look-up returns the only slot with the key, which is
-- open then, and changes nothing else.
theorem sessMustFindNode_unique (hkey : ∀ p ∈ ps, p.sessKey ≠ ⟨0, 0, 0, 0⟩)
    (h : processAll cJSONParse ps = .ok (arr, log)) :
    (∀ i j, i ≠ j → (arr i).key = (arr j).key → (arr i).key = ⟨0, 0, 0, 0⟩) ∧
    ∀ skey dir time, skey.normalise dir ≠ ⟨0, 0, 0, 0⟩ →
      ∃ arr' i, arr.sessMustFindNode skey dir time = .ok (arr', i) ∧
        (∀ j, (arr' j).key = skey.normalise dir ↔ j = i) ∧
        (arr' i).state ≠ .close ∧
        (∀ j, j ≠ i → arr' j = arr j) ∧
        ((∃ j, (arr j).key = skey.normalise dir) → arr' i = { arr i with updateTime := time }) := by
  have ha := processAll_afterLog hkey h |>.left
  have hopen := processAll_open hkey h
  refine ⟨fun i j hne he => ?_, fun skey dir time hz => ?_⟩
  · by_cases hi : i = 0
    case pos => exact he.trans <| ha.free j (hi ▸ hne.symm)
    case neg => exact ha.free i hi
  · have hf := ha.findSess? hz
    have others (sess : TnsSession) (hs : sess.key = skey.normalise dir) (j : Fin maxSessNode) :
        (Function.update arr 0 sess j).key = skey.normalise dir ↔ j = 0 := by
      by_cases hj : j = 0
      case pos => simp [hj, hs]
      case neg => simp [hj, ha.free j hj, hz.symm]
    split at hf
    case isTrue h0 =>
      refine ⟨_, 0, SessArray.sessMustFindNode_hit hf, others _ h0, ?_, ?_, fun _ => ?_⟩
      · simpa using hopen (h0 ▸ hz)
      · exact fun j hj => Function.update_of_ne hj ..
      · simp
    case isFalse h0 =>
      have hmiss := SessArray.findSess?_eq_none_iff.mp hf
      refine ⟨_, 0, SessArray.sessMustFindNode_miss hmiss, others _ rfl, ?_, ?_, fun ⟨j, hj⟩ => ?_⟩
      · simp
      · exact fun j hj => Function.update_of_ne hj ..
      · exact absurd hj (hmiss j)

-- A second connection after an accept packet of a first one.
theorem sessMustFindNode_unique_after_accept :
    ∃ arr log arr' i,
      processAll (fun _ => none) [acceptArrival ⟨2, 1, 4, 3⟩ .response] = .ok (arr, log) ∧
      arr.sessMustFindNode ⟨5, 2, 3, 4⟩ .request 7 = .ok (arr', i) ∧
      ∀ j, (arr' j).key = ⟨5, 2, 3, 4⟩ ↔ j = i := by
  have hr : processAll (fun _ => none) [acceptArrival ⟨2, 1, 4, 3⟩ .response] = .ok (_, _) := rfl
  have ⟨arr', i, hf, hk, _⟩ :=
    sessMustFindNode_unique (by decide) hr |>.right ⟨5, 2, 3, 4⟩ .request 7 (by decide)
  exact ⟨_, _, arr', i, hr, hf, hk⟩
