import Mathlib.Algebra.GroupWithZero.Nat
import Mathlib.Data.List.FinRange
import TnsParser.Common

-- `enum sess_link_stat` and `enum sess_login_stat`, the values of the field `state`.
inductive SessState
  | close
  | init
  | connect
  | resend
  | accept
  | refuse
  | data
  | logingIn
  | loginFailed
  | loginSuccess
  deriving DecidableEq

structure TnsSession where
  key               : SessKey
  version           : UInt16
  versionCompatible : UInt16
  state             : SessState
  curDir            : Direction
  updateTime        : UInt64
  curSessDesc       : String
  deriving DecidableEq

-- A session after `memset(.., 0, ..)`.
def TnsSession.zero : TnsSession where
  key               := ⟨0, 0, 0, 0⟩
  version           := 0
  versionCompatible := 0
  state             := .close
  curDir            := .request
  updateTime        := 0
  curSessDesc       := ""

abbrev maxSessNode : Nat := 32

instance : NeZero maxSessNode :=
  @Nat.instNeZeroSucc 31

-- `g_sess_arry`
abbrev SessArray := Fin maxSessNode → TnsSession

def sessInit : SessArray :=
  fun _ => .zero

-- The key of the session of a packet: the client first, then the server.
def SessKey.normalise (skey : SessKey) : Direction → SessKey
  | .request  => skey
  | .response => { sip := skey.dip, dip := skey.sip, sport := skey.dport, dport := skey.sport }

namespace SessArray

def findSess? (arr : SessArray) (key : SessKey) : Option (Fin maxSessNode) :=
  List.finRange maxSessNode |>.find? fun i => (arr i).key = key

-- The loop for an empty session, over the slots that are left. The test for `STAT_CLOSE` is followed
-- by a `;`, and what looks like its branch is run for the first slot of the loop and leaves it. The
-- comparison of the ages below it is not reached.
def takeSlot (arr : SessArray) (key : SessKey) :
    List (Fin maxSessNode) → Option (SessArray × Fin maxSessNode)
  | []     => none
  | i :: _ => some (Function.update arr i { arr i with key, state := .init }, i)

-- `time` is what `time(NULL)` returns. When the loop runs out of slots, the slot behind the last one is
-- cleared.
def sessMustFindNode (arr : SessArray) (skey : SessKey) (dir : Direction) (time : UInt64) :
    Except Fault (SessArray × Fin maxSessNode) :=
  let key := skey.normalise dir
  match arr.findSess? key with
  | some i => .ok (Function.update arr i { arr i with updateTime := time }, i)
  | none   =>
    match arr.takeSlot key (List.finRange maxSessNode) with
    | some r => .ok r
    | none   => .error <| .outOfBounds .sessArray

variable {arr arr' : SessArray} {key skey : SessKey} {dir : Direction} {time : UInt64}
  {i : Fin maxSessNode}

theorem findSess?_eq_none_iff : arr.findSess? key = none ↔ ∀ i, (arr i).key ≠ key := by
  simp [findSess?]

-- A session that is in the array is found where it is.
theorem sessMustFindNode_hit (h : arr.findSess? (skey.normalise dir) = some i) :
    arr.sessMustFindNode skey dir time =
      .ok (Function.update arr i { arr i with updateTime := time }, i) := by
  simp [sessMustFindNode, h]

-- A session that is not takes the first slot, whatever is there, and keeps everything but the key and the
-- state of it.
theorem sessMustFindNode_miss (h : ∀ i, (arr i).key ≠ skey.normalise dir) :
    arr.sessMustFindNode skey dir time =
      .ok (Function.update arr 0 { arr 0 with key := skey.normalise dir, state := .init }, 0) := by
  have hf := findSess?_eq_none_iff.mpr h
  simp only [sessMustFindNode, hf]
  rfl

-- The first slot is looked at first.
theorem findSess?_of_first (h : (arr 0).key = key) : arr.findSess? key = some 0 := by
  rw [findSess?, List.finRange_succ, List.find?_cons_of_pos]
  simpa using h

-- A look-up writes to the slot that it returns only.
theorem sessMustFindNode_writes (h : arr.sessMustFindNode skey dir time = .ok (arr', i)) :
    ∀ j, j ≠ i → arr' j = arr j := by
  intro j hj
  cases hf : arr.findSess? (skey.normalise dir)
  case some k =>
    rw [sessMustFindNode_hit hf] at h
    cases h
    exact Function.update_of_ne hj ..
  case none =>
    rw [sessMustFindNode_miss <| findSess?_eq_none_iff.mp hf] at h
    cases h
    exact Function.update_of_ne hj ..

end SessArray

-- The first look-up after `sess_init` takes the first slot.
theorem sessInit_sessMustFindNode {arr : SessArray} {skey : SessKey} {dir : Direction} {time : UInt64}
    {i : Fin maxSessNode} (h : sessInit.sessMustFindNode skey dir time = .ok (arr, i)) : i = 0 := by
  by_cases hk : TnsSession.zero.key = skey.normalise dir
  case pos =>
    have hfirst : (sessInit 0).key = skey.normalise dir := hk
    rw [SessArray.sessMustFindNode_hit <| SessArray.findSess?_of_first hfirst] at h
    cases h
    rfl
  case neg =>
    have hmiss : ∀ i, (sessInit i).key ≠ skey.normalise dir := fun _ => hk
    rw [SessArray.sessMustFindNode_miss hmiss] at h
    cases h
    rfl
