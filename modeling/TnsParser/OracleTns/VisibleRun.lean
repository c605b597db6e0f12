import Mathlib.Data.List.DropRight
import TnsParser.OracleTns.Packet

def isVisible (c : UInt8) : Bool :=
  0x20 ≤ c && c ≤ 0x7e

-- The variables of the loop of `parse_continuous_visible_characters`, with `ptr` relative to `bufin`.
structure RunScan where
  tmp             : Nat
  continuousTimes : Nat
  ptr             : Nat
  deriving DecidableEq

namespace RunScan

def start : RunScan where
  tmp             := 0
  continuousTimes := 0
  ptr             := 0

-- The run that ends before `p` becomes the result, unless there was a longer one.
def settle (s : RunScan) (p : Nat) : RunScan :=
  if s.tmp ≥ s.continuousTimes then
    { s with continuousTimes := s.tmp, ptr := p - s.tmp }
  else
    s

def step (s : RunScan) (p : Nat) (c : UInt8) : RunScan :=
  if isVisible c then { s with tmp := s.tmp + 1 } else { s.settle p with tmp := 0 }

-- The loop over the next `n` bytes, which start at `p`.
def loop : Bytes → Nat → Nat → RunScan → Option RunScan
  | _,          0,     _, s => some s
  | [],         _ + 1, _, _ => none
  | c :: bytes, n + 1, p, s => loop bytes n (p + 1) (s.step p c)

def finish (s : RunScan) (p : Nat) : RunScan :=
  if s.tmp ≠ 0 then s.settle p else s

end RunScan

-- `*ptr` (relative to `bufin`) and `*outlen`
def parseContinuousVisibleCharacters (bufin : Bytes) (inlen : Nat) : Option (Nat × Nat) :=
  (RunScan.loop bufin inlen 0 .start).map fun s =>
    ((s.finish inlen).ptr, (s.finish inlen).continuousTimes + 1)

namespace RunScan

variable {s : RunScan} {p n : Nat} {c : UInt8} {v w : Bytes}

-- The loop over bytes that are all there.
def scan : Bytes → Nat → RunScan → RunScan
  | [],         _, s => s
  | c :: bytes, p, s => scan bytes (p + 1) (s.step p c)

theorem loop_append : loop (v ++ w) (v.length + n) p s = loop w n (p + v.length) (scan v p s) := by
  induction v generalizing p s
  case nil          => simp [scan]
  case cons c v hi =>
    rw [List.length_cons, Nat.succ_add, List.cons_append, loop, hi, scan]
    simp [Nat.add_assoc, Nat.add_comm 1]

theorem loop_eq_none (h : v.length < n) : loop v n p s = none := by
  induction v generalizing n p s
  case nil =>
    cases n
    case zero => contradiction
    case succ => rfl
  case cons c v hi =>
    cases n
    case zero   => contradiction
    case succ n => exact hi <| Nat.lt_of_succ_lt_succ h

theorem scan_append : scan (v ++ w) p s = scan w (p + v.length) (scan v p s) := by
  induction v generalizing p s
  case nil         => simp [scan]
  case cons c v hi => simp [scan, hi, Nat.add_assoc, Nat.add_comm 1]

theorem step_of_visible (h : isVisible c) : s.step p c = { s with tmp := s.tmp + 1 } := by
  simp [step, h]

theorem step_of_not_visible (h : ¬isVisible c) : s.step p c = { s.settle p with tmp := 0 } := by
  simp [step, h]

theorem settle_of_lt (h : s.tmp < s.continuousTimes) : s.settle p = s := by
  simp [settle, h]

theorem settle_of_le (h : s.continuousTimes ≤ s.tmp) :
    s.settle p = { s with continuousTimes := s.tmp, ptr := p - s.tmp } := by
  simp [settle, h]

theorem finish_of_lt (h : s.tmp < s.continuousTimes) : s.finish p = s := by
  simp [finish, settle_of_lt h]

theorem finish_of_le (h : s.continuousTimes ≤ s.tmp) (h' : s.tmp ≠ 0) :
    s.finish p = { s with continuousTimes := s.tmp, ptr := p - s.tmp } := by
  simp [finish, settle_of_le h, h']

-- The result of a scan, without the variable for the run in progress.
def result (s : RunScan) (p : Nat) : Nat × Nat :=
  ((s.finish p).ptr, (s.finish p).continuousTimes)

theorem result_of_lt (h : s.tmp < s.continuousTimes) : s.result p = (s.ptr, s.continuousTimes) := by
  simp [result, finish_of_lt h]

theorem result_of_le (h : s.continuousTimes ≤ s.tmp) (h' : s.tmp ≠ 0) :
    s.result p = (p - s.tmp, s.tmp) := by
  simp [result, finish_of_le h h']

-- Bytes that are too few to complete a run as long as the longest one do not change the result.
theorem scan_of_lt (h : s.tmp + w.length < s.continuousTimes) :
    (scan w p s).tmp < s.continuousTimes ∧ (scan w p s).continuousTimes = s.continuousTimes ∧
      (scan w p s).ptr = s.ptr := by
  induction w generalizing p s
  case nil => simpa [scan] using h
  case cons c w hi =>
    rw [List.length_cons] at h
    by_cases hc : isVisible c
    case pos =>
      rw [scan, step_of_visible hc]
      exact hi (s := { s with tmp := s.tmp + 1 }) (by simp only; omega)
    case neg =>
      rw [scan, step_of_not_visible hc, settle_of_lt (by omega)]
      exact hi (s := { s with tmp := 0 }) (by simp only; omega)

theorem result_scan_of_lt {q : Nat} (h : s.tmp + w.length < s.continuousTimes) :
    (scan w p s).result q = (s.ptr, s.continuousTimes) := by
  have ⟨ht, hc, hp⟩ := scan_of_lt (p := p) h
  rw [result_of_lt (hc ▸ ht), hc, hp]

-- Visible bytes make the run in progress longer.
theorem scan_of_visible (h : ∀ c ∈ w, isVisible c) :
    scan w p s = { s with tmp := s.tmp + w.length } := by
  induction w generalizing p s
  case nil => rfl
  case cons c w hi =>
    rw [scan, step_of_visible (h c (.head _)), hi fun c hc => h c (.tail _ hc)]
    simp [Nat.add_assoc, Nat.add_comm 1]

-- When the run in progress is at least as long as the bytes that follow, then either the run that was the
-- longest remains so, or the run in progress becomes it.
theorem result_scan_of_le (h : w.length ≤ s.tmp) (h' : s.tmp ≠ 0) :
    (s.tmp < s.continuousTimes ∧ (scan w p s).result (p + w.length) = (s.ptr, s.continuousTimes)) ∨
    (∃ n, (scan w p s).result (p + w.length) = (p - s.tmp, n) ∧ s.tmp ≤ n ∧ s.continuousTimes ≤ n) := by
  induction w generalizing p s
  case nil =>
    by_cases hlt : s.tmp < s.continuousTimes
    case pos => exact .inl ⟨hlt, result_of_lt hlt⟩
    case neg =>
      have hle := Nat.le_of_not_lt hlt
      exact .inr ⟨s.tmp, result_of_le hle h', Nat.le_refl _, hle⟩
  case cons c w hi =>
    rw [List.length_cons] at h ⊢
    by_cases hc : isVisible c
    case pos =>
      have hi := hi (p := p + 1) (s := { s with tmp := s.tmp + 1 }) (by simp only; omega) (by simp)
      rw [scan, step_of_visible hc]
      simp only [Nat.add_sub_add_right, Nat.add_right_comm p 1] at hi
      cases hi
      case inl hi => exact .inl ⟨by omega, hi.right⟩
      case inr hi =>
        have ⟨n, hr, hn, hn'⟩ := hi
        exact .inr ⟨n, hr, by omega, hn'⟩
    case neg =>
      rw [scan, step_of_not_visible hc]
      by_cases hlt : s.tmp < s.continuousTimes
      case pos =>
        rw [settle_of_lt hlt]
        exact .inl ⟨hlt, result_scan_of_lt (s := { s with tmp := 0 }) (by simp only; omega)⟩
      case neg =>
        have hle := Nat.le_of_not_lt hlt
        rw [settle_of_le hle]
        let s' : RunScan := { tmp := 0, continuousTimes := s.tmp, ptr := p - s.tmp }
        refine .inr ⟨s.tmp, result_scan_of_lt (s := s') ?_, Nat.le_refl _, hle⟩
        simp only [s']
        omega

end RunScan

-- The number of visible bytes at the end.
def trailingVisible (v : Bytes) : Nat :=
  (v.rtakeWhile isVisible).length

-- The place and the length of the longest run of visible bytes, the last one where there are several.
def longestVisible (v : Bytes) : Nat × Nat :=
  (RunScan.scan v 0 .start).result v.length

-- The `n` bytes from `ptr` on are there, and visible.
def IsRun (v : Bytes) (ptr n : Nat) : Prop :=
  ptr + n ≤ v.length ∧ ∀ c ∈ (v.drop ptr).take n, isVisible c

section Runs

variable {v w : Bytes} {ptr n : Nat} {c : UInt8}

theorem trailingVisible_concat :
    trailingVisible (v ++ [c]) = if isVisible c then trailingVisible v + 1 else 0 := by
  rw [trailingVisible, List.rtakeWhile_concat]
  split <;> simp [trailingVisible]

theorem IsRun.append (h : IsRun v ptr n) : IsRun (v ++ w) ptr n := by
  have ⟨hl, hv⟩ := h
  refine ⟨by simp; omega, fun c hc => hv c ?_⟩
  rwa [List.drop_append_of_le_length (by omega), List.take_append_of_le_length (by simp; omega)] at hc

theorem trailingVisible_le : trailingVisible v ≤ v.length :=
  List.rtakeWhile_suffix isVisible v |>.length_le

theorem isRun_trailing : IsRun v (v.length - trailingVisible v) (trailingVisible v) := by
  have hle := trailingVisible_le (v := v)
  refine ⟨by omega, fun c hc => ?_⟩
  rw [trailingVisible, ← List.suffix_iff_eq_drop.mp <| List.rtakeWhile_suffix isVisible v] at hc
  exact List.mem_rtakeWhile_imp <| List.mem_of_mem_take hc

end Runs

namespace RunScan

variable {v w : Bytes} {p : Nat}

theorem scan_concat {c : UInt8} : scan (v ++ [c]) 0 .start = (scan v 0 .start).step v.length c := by
  simp [scan_append, scan]

-- The run in progress is the one at the end.
theorem tmp_scan : (scan v 0 .start).tmp = trailingVisible v := by
  induction v using List.reverseRecOn
  case nil => rfl
  case append_singleton v c hi =>
    rw [scan_concat, trailingVisible_concat]
    split
    case isTrue hc  => rw [step_of_visible hc, hi]
    case isFalse hc => rw [step_of_not_visible hc]

theorem isRun_scan : IsRun v (scan v 0 .start).ptr (scan v 0 .start).continuousTimes := by
  induction v using List.reverseRecOn
  case nil => simp [scan, start, IsRun]
  case append_singleton v c hi =>
    rw [scan_concat]
    by_cases hc : isVisible c
    case pos =>
      rw [step_of_visible hc]
      exact hi.append
    case neg =>
      rw [step_of_not_visible hc, settle]
      split
      case isTrue  => simpa [tmp_scan] using isRun_trailing.append
      case isFalse => exact hi.append

end RunScan

section Runs

variable {v w : Bytes}

theorem isRun_longest : IsRun v (longestVisible v).1 (longestVisible v).2 := by
  rw [longestVisible, RunScan.result, RunScan.finish]
  have hs := RunScan.isRun_scan (v := v)
  split
  case isFalse => exact hs
  case isTrue =>
    rw [RunScan.settle]
    split
    case isTrue  => simpa [RunScan.tmp_scan] using isRun_trailing
    case isFalse => exact hs

theorem trailingVisible_le_longest : trailingVisible v ≤ (longestVisible v).2 := by
  rw [longestVisible, ← RunScan.tmp_scan]
  by_cases h : (RunScan.scan v 0 .start).tmp < (RunScan.scan v 0 .start).continuousTimes
  case pos => rw [RunScan.result_of_lt h]; exact Nat.le_of_lt h
  case neg =>
    by_cases hz : (RunScan.scan v 0 .start).tmp = 0
    case pos => simp [hz]
    case neg => rw [RunScan.result_of_le (Nat.le_of_not_lt h) hz]

-- A run that is longer than the one at the end has been found by the scan.
theorem longestVisible_of_lt (h : trailingVisible v < (longestVisible v).2) :
    longestVisible v = ((RunScan.scan v 0 .start).ptr, (RunScan.scan v 0 .start).continuousTimes) := by
  rw [longestVisible] at h ⊢
  rw [← RunScan.tmp_scan] at h
  by_cases hlt : (RunScan.scan v 0 .start).tmp < (RunScan.scan v 0 .start).continuousTimes
  case pos => exact RunScan.result_of_lt hlt
  case neg =>
    by_cases hz : (RunScan.scan v 0 .start).tmp = 0
    case pos => simp [RunScan.result, RunScan.finish, hz]
    case neg =>
      rw [RunScan.result_of_le (Nat.le_of_not_lt hlt) hz] at h
      exact absurd h (Nat.lt_irrefl _)

theorem longestVisible_of_le (h : (longestVisible v).2 ≤ trailingVisible v)
    (hz : trailingVisible v ≠ 0) :
    longestVisible v = (v.length - trailingVisible v, trailingVisible v) := by
  rw [longestVisible, ← RunScan.tmp_scan] at *
  by_cases hlt : (RunScan.scan v 0 .start).tmp < (RunScan.scan v 0 .start).continuousTimes
  case pos => rw [RunScan.result_of_lt hlt] at h; omega
  case neg => exact RunScan.result_of_le (Nat.le_of_not_lt hlt) hz

end Runs
