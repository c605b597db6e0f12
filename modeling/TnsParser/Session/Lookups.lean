import TnsParser.Library.Machine
import TnsParser.Session.Basic

-- Sequences of look-ups, and a look-up in an array without a free slot.

structure Lookup where
  skey : SessKey
  dir  : Direction
  time : UInt64

namespace SessArray

-- The array under look-ups, each of which returns a slot.
def lookups : Machine SessArray Lookup (Fin maxSessNode) := fun arr l =>
  arr.sessMustFindNode l.skey l.dir l.time |>.toOption

-- The look-up is for a session that is in the array.
def Hits (arr : SessArray) (l : Lookup) : Prop :=
  ∃ i, (arr i).key = l.skey.normalise l.dir

variable {arr arr' arr₁ arr₂ : SessArray} {key skey skey' : SessKey} {dir dir' : Direction}
  {time : UInt64} {i j : Fin maxSessNode} {tr : List (Lookup × Fin maxSessNode)}

theorem findSess?_congr (h : ∀ j, (arr' j).key = (arr j).key) :
    arr'.findSess? key = arr.findSess? key := by
  simp only [findSess?, h]

theorem touch_key (arr : SessArray) (i j : Fin maxSessNode) (time : UInt64) :
    (Function.update arr i { arr i with updateTime := time } j).key = (arr j).key := by
  by_cases h : j = i
  case pos => simp [h]
  case neg => simp [Function.update_of_ne h]

-- What a look-up returns is what the next one for the same session finds.
theorem sessMustFindNode_found (h : arr.sessMustFindNode skey dir time = .ok (arr', i)) :
    arr'.findSess? (skey.normalise dir) = some i := by
  cases hf : arr.findSess? (skey.normalise dir)
  case some k =>
    rw [sessMustFindNode_hit hf] at h
    cases h
    rwa [findSess?_congr fun j => touch_key arr i j time]
  case none =>
    rw [sessMustFindNode_miss <| findSess?_eq_none_iff.mp hf] at h
    cases h
    exact findSess?_of_first <| by simp

theorem lookups_hit {l : Lookup} (hh : arr.Hits l) (h : arr.lookups l = some (arr', i)) :
    ∀ j, (arr' j).key = (arr j).key := by
  cases hf : arr.findSess? (l.skey.normalise l.dir)
  case none =>
    have ⟨j, hj⟩ := hh
    exact absurd hj <| findSess?_eq_none_iff.mp hf j
  case some k =>
    rw [lookups, sessMustFindNode_hit hf] at h
    cases h
    exact fun j => touch_key arr i j l.time

-- Look-ups for sessions that are in the array leave all keys where they are.
theorem lookups_keys (st : lookups.Steps Hits arr tr arr') : ∀ j, (arr' j).key = (arr j).key := by
  refine st.preserves (fun a => ∀ j, (a j).key = (arr j).key) (fun _ => rfl) ?_
  intro _ _ _ _ hi hh h j
  exact lookups_hit hh h j |>.trans <| hi j

-- A session is found in the same slot again, whatever other sessions have been looked up meanwhile.
theorem sessMustFindNode_again (h : arr.sessMustFindNode skey dir time = .ok (arr₁, j))
    (st : lookups.Steps Hits arr₁ tr arr₂) (hk : skey'.normalise dir' = skey.normalise dir)
    (time' : UInt64) : ∃ arr₃, arr₂.sessMustFindNode skey' dir' time' = .ok (arr₃, j) := by
  have hf : arr₂.findSess? (skey'.normalise dir') = some j := by
    rw [hk, findSess?_congr (lookups_keys st)]
    exact sessMustFindNode_found h
  exact ⟨_, sessMustFindNode_hit hf⟩

-- The session in slot `i` makes room for a new one with the key `key`.
structure Evicts (arr : SessArray) (key : SessKey) (arr' : SessArray) (i : Fin maxSessNode) : Prop where
  oldest : ∀ j, (arr i).updateTime ≤ (arr j).updateTime
  record : arr' i = { TnsSession.zero with key, state := .init }
  others : ∀ j, j ≠ i → arr' j = arr j

-- The first slot holds nothing but a key and a state.
def FirstBlank (arr : SessArray) : Prop :=
  { arr 0 with key := ⟨0, 0, 0, 0⟩, state := .close } = TnsSession.zero

-- A session that is in no slot evicts the oldest one if and only if the first slot is blank: this is the
-- one that is taken, and it is not cleared.
theorem sessMustFindNode_evicts_iff (time : UInt64) (hn : ∀ i, (arr i).key ≠ skey.normalise dir) :
    (∃ arr' i, arr.sessMustFindNode skey dir time = .ok (arr', i) ∧
      arr.Evicts (skey.normalise dir) arr' i) ↔ arr.FirstBlank := by
  rw [sessMustFindNode_miss hn]
  constructor
  case mp =>
    rintro ⟨_, _, ⟨⟩, he⟩
    have hrecord := he.record
    simp only [Function.update_self, TnsSession.zero, TnsSession.mk.injEq, true_and] at hrecord
    simpa only [FirstBlank, TnsSession.zero, TnsSession.mk.injEq, true_and] using hrecord
  case mpr =>
    intro hb
    simp only [FirstBlank, TnsSession.zero, TnsSession.mk.injEq, true_and] at hb
    have ⟨hversion, hcompatible, hdir, htime, hdesc⟩ := hb
    refine ⟨_, 0, rfl, fun j => ?_, ?_, fun j hj => Function.update_of_ne hj ..⟩
    · rw [htime]
      exact UInt64.zero_le
    · simp [TnsSession.zero, *]

-- 32 sessions with data. Nothing has been stored for the first of them but its time.
def fullArray (time : UInt64) : SessArray := fun i =>
  { TnsSession.zero with
    key        := ⟨i.val.toUInt32 + 1, 0, 0, 0⟩
    state      := .data
    updateTime := if i = 0 then time else 20 }

-- The first session is evicted although it is the last one that a packet came for.
theorem sessMustFindNode_evicts_first :
    ¬∀ (arr : SessArray) (skey : SessKey) (dir : Direction) (time : UInt64),
      (∀ i, (arr i).state ≠ .close) → (∀ i j, i ≠ j → (arr i).key ≠ (arr j).key) →
      (∀ i, (arr i).updateTime ≤ time) → (∀ i, (arr i).key ≠ skey.normalise dir) →
      ∃ arr' i, arr.sessMustFindNode skey dir time = .ok (arr', i) ∧
        arr.Evicts (skey.normalise dir) arr' i := by
  intro h
  have ⟨_, _, hr, he⟩ := h (fullArray 30) ⟨1, 2, 3, 4⟩ .request 40
    (by decide) (by decide) (by decide) (by decide)
  rw [sessMustFindNode_miss (by decide)] at hr
  cases hr
  exact absurd (he.oldest 1) (by decide)

theorem sessMustFindNode_evicts_blank :
    ∃ arr' i, (fullArray 0).sessMustFindNode ⟨1, 2, 3, 4⟩ .request 40 = .ok (arr', i) ∧
      (fullArray 0).Evicts ⟨1, 2, 3, 4⟩ arr' i :=
  sessMustFindNode_evicts_iff 40 (by decide) |>.mpr rfl

end SessArray
