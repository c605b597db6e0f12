import TnsParser.OracleTns.Effect
import TnsParser.Process.Basic

open Except

-- Runs of `mainprocess` in which no normalised key is all-zero. The free slots have that key, and every
-- other key that is not found takes the first slot, so that only this one is ever used.

variable {cJSONParse : Bytes → Option CJson} {arr arr' : SessArray} {log log' : Log} {o : Outcome}
  {ps : List Arrival} {p : Arrival} {key : SessKey}

theorem processAll_concat_eq_ok :
    processAll cJSONParse (ps ++ [p]) = .ok (arr', log') ↔
      ∃ arr log o, processAll cJSONParse ps = .ok (arr, log) ∧
        mainprocess cJSONParse arr p = .ok (arr', o) ∧ log' = log ++ [(p, o)] := by
  simp only [processAll, List.foldlM_append, List.foldlM_cons, List.foldlM_nil, bind_eq_ok, pure,
    Except.pure, Except.ok.injEq]
  constructor
  case mp =>
    rintro ⟨⟨arr, log⟩, hr, r, ⟨⟨arr₁, o⟩, hp, rfl⟩, hr'⟩
    cases hr'
    exact ⟨arr, log, o, hr, hp, rfl⟩
  case mpr =>
    rintro ⟨arr, log, o, hr, hp, rfl⟩
    exact ⟨(arr, log), hr, _, ⟨(arr', o), hp, rfl⟩, rfl⟩

-- The record that a packet finds, when no slot but the first is in use.
def seen (arr : SessArray) (p : Arrival) : TnsSession :=
  if (arr 0).key = p.sessKey then
    { arr 0 with updateTime := p.time, curDir := p.dir, curSessDesc := sessDesc p.key }
  else
    { arr 0 with key := p.sessKey, state := .init, curDir := p.dir, curSessDesc := sessDesc p.key }

-- The array after the packets of a log: the first slot has what the last of them left.
structure AfterLog (arr : SessArray) (log : Log) : Prop where
  free : ∀ i, i ≠ 0 → (arr i).key = ⟨0, 0, 0, 0⟩
  keys : ∀ e ∈ log, e.2.sess.key = e.1.sessKey
  last : arr 0 = (log.getLast?.map (·.2.sess)).getD .zero

namespace AfterLog

theorem init : AfterLog sessInit [] where
  free := fun _ _ => rfl
  keys := List.forall_mem_nil _
  last := rfl

-- A key is found in the first slot or not at all.
theorem findSess? (h : AfterLog arr log) (hkey : key ≠ ⟨0, 0, 0, 0⟩) :
    arr.findSess? key = if (arr 0).key = key then some 0 else none := by
  split
  case isTrue h0 => exact SessArray.findSess?_of_first h0
  case isFalse h0 =>
    refine SessArray.findSess?_eq_none_iff.mpr fun i => ?_
    by_cases hi : i = 0
    case pos => exact hi ▸ h0
    case neg => exact h.free i hi ▸ hkey.symm

theorem mainprocess_eq (h : AfterLog arr log) (hkey : p.sessKey ≠ ⟨0, 0, 0, 0⟩) :
    mainprocess cJSONParse arr p =
      tnsProtocolParse cJSONParse p.data p.len (seen arr p) >>= fun o =>
        pure (Function.update arr 0 o.sess, o) := by
  have hf := h.findSess? hkey
  rw [mainprocess, seen]
  split at hf
  case isTrue h0 => simp [SessArray.sessMustFindNode_hit hf, h0, bind, Except.bind]
  case isFalse h0 =>
    have hmiss := SessArray.findSess?_eq_none_iff.mp hf
    simp [SessArray.sessMustFindNode_miss hmiss, h0, bind, Except.bind]
    rfl

theorem step (h : AfterLog arr log) (hkey : p.sessKey ≠ ⟨0, 0, 0, 0⟩)
    (hm : mainprocess cJSONParse arr p = .ok (arr', o)) :
    tnsProtocolParse cJSONParse p.data p.len (seen arr p) = .ok o ∧
      AfterLog arr' (log ++ [(p, o)]) := by
  rw [h.mainprocess_eq hkey, bind_eq_ok] at hm
  have ⟨o', ho, hr⟩ := hm
  cases hr
  have hseen : (seen arr p).key = p.sessKey := by
    rw [seen]
    split
    case isTrue h0  => exact h0
    case isFalse h0 => rfl
  have hk : o.sess.key = p.sessKey := by
    rw [(tnsProtocolParse_ensures o ho).left, ← hseen]
    rfl
  refine ⟨ho, ?_, ?_, ?_⟩
  · intro i hi
    rw [Function.update_of_ne hi]
    exact h.free i hi
  · intro e he
    cases List.mem_append.mp he
    case inl he => exact h.keys e he
    case inr he => exact List.mem_singleton.mp he ▸ hk
  · simp

end AfterLog

theorem processAll_afterLog (hkey : ∀ p ∈ ps, p.sessKey ≠ ⟨0, 0, 0, 0⟩)
    (h : processAll cJSONParse ps = .ok (arr, log)) : AfterLog arr log ∧ log.map (·.1) = ps := by
  induction ps using List.reverseRecOn generalizing arr log
  case nil =>
    cases h
    exact ⟨.init, rfl⟩
  case append_singleton ps p hi =>
    have ⟨arr₁, log₁, o, hr, hm, hlog⟩ := processAll_concat_eq_ok.mp h
    subst hlog
    have ⟨ha, hl⟩ := hi (fun p hp => hkey p (List.mem_append_left _ hp)) hr
    exact ⟨(ha.step (hkey p (by simp)) hm).right, by simp [hl]⟩
