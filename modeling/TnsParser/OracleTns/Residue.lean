import TnsParser.OracleTns.Effect

open Except RunScan

-- What the reports of a message take from the memory behind the packet.

-- The run that a handler finds: it scans as many bytes behind the message `v` as the head has.
def tailRun (v t : Bytes) : Nat × Nat :=
  scan (t.take tnsHeadLen) v.length (scan v 0 .start) |>.result (v.length + tnsHeadLen)

-- The bytes behind a packet that show that a report takes some of them.
def residue (x : UInt8) : Bytes :=
  List.replicate tnsHeadLen x ++ [0, x, 0]

section Tail

variable {v t : Bytes} {x : UInt8} {cap : Nat}

theorem parse_tail (h : tnsHeadLen ≤ t.length) :
    parseContinuousVisibleCharacters (v ++ t) (v.length + tnsHeadLen) =
      some ((tailRun v t).1, (tailRun v t).2 + 1) := by
  have ht : (t.take tnsHeadLen).length = tnsHeadLen := by simpa using h
  have hloop : loop t tnsHeadLen v.length (scan v 0 .start) =
      some (scan (t.take tnsHeadLen) v.length (scan v 0 .start)) := by
    have := loop_append (v := t.take tnsHeadLen) (w := t.drop tnsHeadLen) (n := 0) (p := v.length)
      (s := scan v 0 .start)
    rwa [ht, List.take_append_drop, Nat.add_zero, loop] at this
  rw [parseContinuousVisibleCharacters, loop_append, Nat.zero_add, hloop]
  rfl

theorem parse_tail_eq_none (h : t.length < tnsHeadLen) :
    parseContinuousVisibleCharacters (v ++ t) (v.length + tnsHeadLen) = none := by
  rw [parseContinuousVisibleCharacters, loop_append, loop_eq_none h]
  rfl

theorem length_residue : (residue x).length = tnsHeadLen + 3 := by
  simp [residue]

theorem take_residue : (residue x).take tnsHeadLen = List.replicate tnsHeadLen x := by
  simp [residue]

-- A run that is more than a head longer than the one at the end is not affected.
theorem tailRun_of_lt (h : trailingVisible v + tnsHeadLen < (longestVisible v).2) :
    tailRun v t = longestVisible v := by
  have hl := longestVisible_of_lt (v := v) (by omega)
  rw [hl, ← tmp_scan] at h
  rw [tailRun, hl]
  refine result_scan_of_lt ?_
  have := List.length_take_le tnsHeadLen t
  omega

-- With a run at the end that is at least as long as a head, it is the one that is found when not the
-- longest one of the message.
theorem tailRun_of_le (h : tnsHeadLen ≤ t.length) (hc : tnsHeadLen ≤ trailingVisible v) :
    (trailingVisible v < (longestVisible v).2 ∧ tailRun v t = longestVisible v) ∨
    (∃ n, tailRun v t = (v.length - trailingVisible v, n) ∧ trailingVisible v ≤ n) := by
  have ht : (t.take tnsHeadLen).length = tnsHeadLen := by simpa using h
  have hr := result_scan_of_le (s := scan v 0 .start) (p := v.length) (w := t.take tnsHeadLen)
    (by rw [ht, tmp_scan]; exact hc) (by rw [tmp_scan]; simp only [tnsHeadLen] at hc; omega)
  rw [ht, tmp_scan] at hr
  cases hr
  case inl hr =>
    have hl : longestVisible v = _ := result_of_lt <| tmp_scan ▸ hr.left
    exact .inl ⟨hl ▸ hr.left, hr.right.trans hl.symm⟩
  case inr hr =>
    obtain ⟨n, hr, hn, _⟩ := hr
    exact .inr ⟨n, hr, hn⟩

-- Visible bytes behind the packet are taken for a part of the run at the end.
theorem tailRun_of_visible (hx : isVisible x)
    (h : (longestVisible v).2 ≤ trailingVisible v + tnsHeadLen) :
    tailRun v (residue x) = (v.length - trailingVisible v, trailingVisible v + tnsHeadLen) := by
  have hc : (scan v 0 .start).continuousTimes ≤ trailingVisible v + tnsHeadLen := by
    by_cases hlt : (scan v 0 .start).tmp < (scan v 0 .start).continuousTimes
    case pos =>
      have hl : longestVisible v = _ := result_of_lt hlt
      rwa [hl] at h
    case neg => rw [tmp_scan] at hlt; omega
  rw [tailRun, take_residue, scan_of_visible fun c hc => List.eq_of_mem_replicate hc ▸ hx]
  rw [result_of_le (by simpa [tmp_scan] using hc) (by simp [tnsHeadLen])]
  simp only [tmp_scan, List.length_replicate]
  congr 1
  omega

-- NULs behind the packet end the run there.
theorem tailRun_of_nul (h : trailingVisible v < (longestVisible v).2)
    (h' : tnsHeadLen ≤ (longestVisible v).2) : tailRun v (residue 0) = longestVisible v := by
  have hl := longestVisible_of_lt h
  rw [hl, ← tmp_scan] at h
  rw [hl] at h'
  have hz : ¬isVisible 0 := by decide
  rw [tailRun, take_residue, hl, tnsHeadLen, List.replicate_succ, scan, step_of_not_visible hz,
    settle_of_lt h]
  refine result_scan_of_lt (s := { scan v 0 .start with tmp := 0 }) ?_
  simpa [tnsHeadLen] using Nat.lt_of_succ_le h'

end Tail

section Strings

variable {v t str : Bytes} {x : UInt8} {ptr n k : Nat}

-- The string at a run starts with the run.
theorem take_cString_of_isRun (r : IsRun v ptr n) (h : cString ((v ++ t).drop ptr) = some str)
    (hk : k ≤ n) : str.take k = (v.drop ptr).take k := by
  have ⟨hl, hv⟩ := r
  have htake : ((v ++ t).drop ptr).take k = (v.drop ptr).take k := by
    rw [List.drop_append_of_le_length (by omega), List.take_append_of_le_length (by simp; omega)]
  have hz : 0 ∉ ((v ++ t).drop ptr).take k := by
    rw [htake]
    intro hz
    exact absurd (hv 0 (List.take_subset_take_left _ hk hz)) (by decide)
  exact (Terminated.take_of_read h hz).trans htake

-- Visible bytes behind the message, as in `residue`, are taken for a part of the string that reaches its
-- end.
theorem cString_residue (hptr : ptr ≤ v.length) (hv : 0 ∉ v.drop ptr) (hx : x ≠ 0) :
    cString ((v ++ residue x).drop ptr) = some (v.drop ptr ++ List.replicate tnsHeadLen x) := by
  have hz : 0 ∉ v.drop ptr ++ List.replicate tnsHeadLen x := by
    simp [hv, Ne.symm hx]
  have hs : (v ++ residue x).drop ptr = v.drop ptr ++ List.replicate tnsHeadLen x ++ 0 :: [x, 0] := by
    rw [List.drop_append_of_le_length hptr, residue, List.append_assoc]
  rw [cString, hs, Terminated.read_append_cons hz]

theorem zero_not_mem_trailing : 0 ∉ v.drop (v.length - trailingVisible v) := by
  intro hz
  have ⟨hl, hv⟩ := isRun_trailing (v := v)
  rw [List.take_of_length_le (by simp; omega)] at hv
  exact absurd (hv 0 hz) (by decide)

end Strings

-- The outcome of a handler for the message `v`, with `t` behind it.
abbrev behind (func : Handler) (sess : TnsSession) (v t : Bytes) : Except Fault Outcome :=
  func (v ++ t) (v.length + tnsHeadLen) sess

-- Two outcomes do not differ, whatever is behind the message.
def Independent (func : Handler) (sess : TnsSession) (v : Bytes) : Prop :=
  ∀ t₁ t₂ o₁ o₂, behind func sess v t₁ = .ok o₁ → behind func sess v t₂ = .ok o₂ → o₁ = o₂

section Run313

variable {v t : Bytes} {x : UInt8} {cap : Nat} {fmt : String} {sess : TnsSession} {o : Outcome}

-- The report of a run through a buffer that holds `cap` bytes and the terminator, and one byte more.
def runReport313 (fmt : String) (cap : Nat) (sess : TnsSession) (r : Nat × Nat) (str : Bytes) : Outcome :=
  ⟨.success, sess,
    [printVersion sess, ⟨fmt, [.num (min (r.2 + 1) (cap + 1) : Nat), .text (str.take (min r.2 cap))]⟩]⟩

theorem printRun313_eq_ok_iff :
    behind (printRun313 (cap + 2) fmt) sess v t = .ok o ↔
      tnsHeadLen ≤ t.length ∧ ∃ str, cString ((v ++ t).drop (tailRun v t).1) = some str ∧
        o = runReport313 fmt cap sess (tailRun v t) str := by
  by_cases h : tnsHeadLen ≤ t.length
  case neg => simp [behind, printRun313, parse_tail_eq_none (Nat.lt_of_not_le h), reading, bind_eq_ok, h]
  case pos =>
    have hmin : (if (tailRun v t).2 + 1 < cap + 2 - 1 then (tailRun v t).2 + 1 else cap + 2 - 1) =
        min ((tailRun v t).2 + 1) (cap + 1) := by
      split <;> omega
    have hpred : min ((tailRun v t).2 + 1) (cap + 1) - 1 = min (tailRun v t).2 cap := by omega
    simp only [behind, printRun313, parse_tail h, bind_eq_ok, reading_eq_ok, hmin, hpred, snprintf,
      Option.map_eq_some_iff, runReport313, h, true_and, pure, Except.pure, Except.ok.injEq,
      Option.some.injEq, exists_eq_left']
    grind

-- The run is reported from the message alone: it is too long to be replaced, or the runs that may be
-- found are too long for the buffer and start with the same bytes.
def Settled313 (cap : Nat) (v : Bytes) : Prop :=
  trailingVisible v + tnsHeadLen < (longestVisible v).2 ∨
    cap ≤ trailingVisible v ∧
      (v.drop (longestVisible v).1).take cap = (v.drop (v.length - trailingVisible v)).take cap

theorem Settled313.independent (h : Settled313 cap v) (hcap : tnsHeadLen ≤ cap) :
    Independent (printRun313 (cap + 2) fmt) sess v := by
  -- The report that is made in all cases.
  have report {t o} (ho : behind (printRun313 (cap + 2) fmt) sess v t = .ok o) :
      o = runReport313 fmt cap sess (longestVisible v) (v.drop (longestVisible v).1) := by
    have ⟨ht, str, hstr, ho⟩ := printRun313_eq_ok_iff.mp ho
    rw [ho, runReport313, runReport313]
    cases h
    case inl h =>
      rw [tailRun_of_lt h] at hstr ⊢
      rw [take_cString_of_isRun isRun_longest hstr (Nat.min_le_left _ _)]
    case inr h =>
      have ⟨hle, heads⟩ := h
      have hlong := trailingVisible_le_longest (v := v)
      rw [Nat.min_eq_right (by omega : cap + 1 ≤ (longestVisible v).2 + 1),
        Nat.min_eq_right (by omega : cap ≤ (longestVisible v).2)]
      cases tailRun_of_le ht (Nat.le_trans hcap hle)
      case inl hr =>
        rw [hr.right] at hstr ⊢
        rw [Nat.min_eq_right (by omega), Nat.min_eq_right (by omega),
          take_cString_of_isRun isRun_longest hstr (by omega)]
      case inr hr =>
        have ⟨n, hr, hn⟩ := hr
        rw [hr] at hstr ⊢
        simp only at hstr ⊢
        rw [Nat.min_eq_right (by omega), Nat.min_eq_right (by omega),
          take_cString_of_isRun isRun_trailing hstr hle, heads]
  intro t₁ t₂ o₁ o₂ h₁ h₂
  exact (report h₁).trans (report h₂).symm

-- Visible bytes behind the message are reported with the run at the end.
theorem printRun313_of_visible (cap : Nat) (fmt : String) (sess : TnsSession) {x : UInt8}
    (hx : isVisible x) (h : (longestVisible v).2 ≤ trailingVisible v + tnsHeadLen) :
    behind (printRun313 (cap + 2) fmt) sess v (residue x) = .ok (runReport313 fmt cap sess
      (v.length - trailingVisible v, trailingVisible v + tnsHeadLen)
      (v.drop (v.length - trailingVisible v) ++ List.replicate tnsHeadLen x)) := by
  have hz : x ≠ 0 := by
    rintro rfl
    exact absurd hx (by decide)
  have hstr := cString_residue (v := v) (Nat.sub_le _ _) zero_not_mem_trailing hz
  rw [printRun313_eq_ok_iff, tailRun_of_visible hx h]
  exact ⟨by simp [length_residue], _, hstr, rfl⟩

theorem Settled313.of_independent (h : Independent (printRun313 (cap + 2) fmt) sess v)
    (hcap : tnsHeadLen ≤ cap) : Settled313 cap v := by
  by_cases hlt : trailingVisible v + tnsHeadLen < (longestVisible v).2
  case pos => exact .inl hlt
  case neg =>
    have hle := Nat.le_of_not_lt hlt
    have hA := printRun313_of_visible cap fmt sess (x := 0x41) (by decide) hle
    have hB := printRun313_of_visible cap fmt sess (x := 0x42) (by decide) hle
    have hw : (v.drop (v.length - trailingVisible v)).length = trailingVisible v := by
      have := trailingVisible_le (v := v)
      simp only [List.length_drop]
      omega
    have htrail : cap ≤ trailingVisible v := by
      -- Otherwise the first byte behind the message is in the report.
      by_contra hc
      have heq := h _ _ _ _ hA hB
      simp only [runReport313, Outcome.mk.injEq, List.cons.injEq, Printf.mk.injEq, Arg.text.injEq,
        true_and, and_true] at heq
      have hbyte (x : UInt8) : ((v.drop (v.length - trailingVisible v) ++ List.replicate tnsHeadLen x).take
          (min (trailingVisible v + tnsHeadLen) cap))[trailingVisible v]? = some x := by
        rw [List.getElem?_take_of_lt (by simp only [tnsHeadLen]; omega),
          List.getElem?_append_right (Nat.le_of_eq hw), hw, Nat.sub_self]
        rfl
      have := congrArg (·[trailingVisible v]?) heq
      simp only [hbyte, Option.some.injEq] at this
      exact absurd this (by decide)
    refine .inr ⟨htrail, ?_⟩
    by_cases hlong : (longestVisible v).2 ≤ trailingVisible v
    case pos => rw [longestVisible_of_le hlong (by simp only [tnsHeadLen] at hcap; omega)]
    case neg =>
      -- The run in the message is reported when it ends there, and the one at the end when it is made
      -- longer.
      have hrun := tailRun_of_nul (v := v) (Nat.lt_of_not_le hlong) (by omega)
      obtain ⟨str, hstr⟩ : ∃ str, cString ((v ++ residue 0).drop (longestVisible v).1) = some str := by
        refine Terminated.exists_read_of_mem ?_
        rw [List.drop_append_of_le_length (Nat.le_of_add_right_le isRun_longest.left)]
        simp [residue]
      have h0 : behind (printRun313 (cap + 2) fmt) sess v (residue 0) =
          .ok (runReport313 fmt cap sess (longestVisible v) str) :=
        printRun313_eq_ok_iff.mpr ⟨by simp [length_residue], str, hrun ▸ hstr, hrun ▸ rfl⟩
      have heq := h _ _ _ _ h0 hA
      simp only [runReport313, Outcome.mk.injEq, List.cons.injEq, Printf.mk.injEq, Arg.text.injEq,
        true_and, and_true] at heq
      have heq := heq.right
      rw [Nat.min_eq_right (by omega), Nat.min_eq_right (by omega),
        take_cString_of_isRun isRun_longest hstr (by omega)] at heq
      rwa [List.take_append_of_le_length (by omega)] at heq

theorem independent_printRun313_iff (hcap : tnsHeadLen ≤ cap) :
    Independent (printRun313 (cap + 2) fmt) sess v ↔ Settled313 cap v :=
  ⟨fun h => .of_independent h hcap, fun h => h.independent hcap⟩

end Run313
