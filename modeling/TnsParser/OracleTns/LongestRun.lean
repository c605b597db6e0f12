import TnsParser.OracleTns.Residue

-- The run that is found is the last one of the longest runs, and what is printed of it.

open Except RunScan

-- A run that no other one is longer than, and that no other one of its length comes behind.
structure IsLongest (v : Bytes) (ptr n : Nat) : Prop where
  run  : IsRun v ptr n
  max  : ∀ {ptr' n'}, IsRun v ptr' n' → n' ≤ n
  last : ∀ {ptr'}, IsRun v ptr' n → n ≠ 0 → ptr' ≤ ptr

section Runs

variable {v w : Bytes} {ptr ptr' n n' i : Nat} {c : UInt8}

theorem isRun_iff :
    IsRun v ptr n ↔ ptr + n ≤ v.length ∧ ∀ i, ptr ≤ i → i < ptr + n → ∃ c ∈ v[i]?, isVisible c := by
  refine and_congr_right fun hl => ?_
  constructor
  case mp =>
    intro h i hp hn
    have hi : i < v.length := by omega
    refine ⟨v[i], List.getElem?_eq_getElem hi, h _ ?_⟩
    have hmem : ((v.drop ptr).take n)[i - ptr]? = some v[i] := by
      rw [List.getElem?_take_of_lt (by omega), List.getElem?_drop, Nat.add_sub_cancel' hp]
      exact List.getElem?_eq_getElem hi
    exact List.mem_of_getElem? hmem
  case mpr =>
    intro h c hc
    obtain ⟨i, hi, rfl⟩ := List.mem_iff_getElem.mp hc
    rw [List.length_take, List.length_drop] at hi
    obtain ⟨d, hd, hv⟩ := h (ptr + i) (by omega) (by omega)
    rw [List.getElem_take, List.getElem_drop]
    exact (List.getElem?_eq_some_iff.mp hd).choose_spec ▸ hv

theorem IsRun.take (r : IsRun v ptr n) (h : n' ≤ n) : IsRun v ptr n' := by
  have ⟨hl, hv⟩ := isRun_iff.mp r
  exact isRun_iff.mpr ⟨by omega, fun i hp hi => hv i hp (by omega)⟩

theorem IsRun.of_append (r : IsRun (v ++ w) ptr n) (h : ptr + n ≤ v.length) : IsRun v ptr n := by
  have ⟨_, hv⟩ := isRun_iff.mp r
  refine isRun_iff.mpr ⟨h, fun i hp hi => ?_⟩
  rw [← List.getElem?_append_left (by omega : i < v.length)]
  exact hv i hp hi

-- A run that is longer by one byte, behind it or before it.

theorem IsRun.succ (r : IsRun v ptr n) (hc : v[ptr + n]? = some c) (hv : isVisible c) :
    IsRun v ptr (n + 1) := by
  have ⟨_, h⟩ := isRun_iff.mp r
  have hl := (List.getElem?_eq_some_iff.mp hc).choose
  refine isRun_iff.mpr ⟨hl, fun i hp hi => ?_⟩
  by_cases he : i = ptr + n
  case pos => exact ⟨c, he ▸ hc, hv⟩
  case neg => exact h i hp (by omega)

theorem IsRun.pred (r : IsRun v (ptr + 1) n) (hc : v[ptr]? = some c) (hv : isVisible c) :
    IsRun v ptr (n + 1) := by
  have ⟨hl, h⟩ := isRun_iff.mp r
  refine isRun_iff.mpr ⟨by omega, fun i hp hi => ?_⟩
  by_cases he : i = ptr
  case pos => exact ⟨c, he ▸ hc, hv⟩
  case neg => exact h i (by omega) (by omega)

-- A run that reaches the end is a part of the one at the end.
theorem IsRun.le_trailing (r : IsRun v ptr n) (h : ptr + n = v.length) : n ≤ trailingVisible v := by
  induction v using List.reverseRecOn generalizing n
  case nil => exact Nat.le_trans (Nat.le_add_left ..) (Nat.le_of_eq h)
  case append_singleton v c hi =>
    cases n
    case zero   => exact Nat.zero_le _
    case succ n =>
      rw [List.length_append, List.length_singleton] at h
      obtain ⟨d, hd, hv⟩ := isRun_iff.mp r |>.right (ptr + n) (by omega) (by omega)
      have hc : c = d := by simpa [(by omega : ptr + n = v.length)] using hd
      have r' : IsRun v ptr n := r.take (Nat.le_succ n) |>.of_append (by omega)
      rw [trailingVisible_concat, if_pos (hc ▸ hv)]
      exact Nat.succ_le_succ <| hi r' (by omega)

-- A run is a part of the one at the end, or has been taken into account: it is not longer than the longest
-- one so far, and does not come behind it when it is as long.
theorem IsRun.scanned (r : IsRun v ptr n) (hn : n ≠ 0) :
    v.length - trailingVisible v ≤ ptr ∨
      n ≤ (scan v 0 .start).continuousTimes ∧
        (n = (scan v 0 .start).continuousTimes → ptr ≤ (scan v 0 .start).ptr) := by
  induction v using List.reverseRecOn
  case nil =>
    have hl : ptr + n ≤ 0 := r.left
    exact absurd (by omega : n = 0) hn
  case append_singleton v c hi =>
    have hl : ptr + n ≤ v.length + 1 := by simpa using r.left
    by_cases he : ptr + n = v.length + 1
    case pos =>
      have ht := r.le_trailing (by simpa using he)
      rw [List.length_append, List.length_singleton]
      exact .inl (by omega)
    case neg =>
      have hi := hi (r.of_append (by omega))
      rw [scan_concat, trailingVisible_concat, List.length_append, List.length_singleton]
      by_cases hc : isVisible c
      case pos =>
        rw [step_of_visible hc, if_pos hc]
        exact hi.imp_left (by omega)
      case neg =>
        rw [step_of_not_visible hc, if_neg hc]
        refine .inr ?_
        by_cases hlt : (scan v 0 .start).tmp < (scan v 0 .start).continuousTimes
        case pos =>
          rw [settle_of_lt hlt]
          rw [tmp_scan] at hlt
          exact hi.elim (fun h => ⟨by simp only; omega, fun h => by simp only at h ⊢; omega⟩) id
        case neg =>
          rw [settle_of_le (Nat.le_of_not_lt hlt)]
          simp only [tmp_scan] at hlt ⊢
          omega

theorem continuousTimes_le_longest : (scan v 0 .start).continuousTimes ≤ (longestVisible v).2 := by
  by_cases h : trailingVisible v < (longestVisible v).2
  case pos => rw [longestVisible_of_lt h]
  case neg =>
    rw [longestVisible]
    by_cases hlt : (scan v 0 .start).tmp < (scan v 0 .start).continuousTimes
    case pos => rw [result_of_lt hlt]
    case neg =>
      by_cases hz : (scan v 0 .start).tmp = 0
      case pos => omega
      case neg => rw [result_of_le (Nat.le_of_not_lt hlt) hz]; omega

theorem isLongest_longest : IsLongest v (longestVisible v).1 (longestVisible v).2 where
  run  := isRun_longest
  max  := by
    intro ptr n r
    have ht := trailingVisible_le_longest (v := v)
    have hc := continuousTimes_le_longest (v := v)
    have hl := r.left
    by_cases hn : n = 0
    case pos => omega
    case neg => cases r.scanned hn <;> omega
  last := by
    intro ptr r hn
    have hl := r.left
    by_cases hlt : trailingVisible v < (longestVisible v).2
    case pos =>
      have he := longestVisible_of_lt hlt
      have hp : (longestVisible v).1 = _ := congrArg Prod.fst he
      cases r.scanned hn
      case inl h => omega
      case inr h => exact hp ▸ h.right (congrArg Prod.snd he)
    case neg =>
      have he := longestVisible_of_le (Nat.le_of_not_lt hlt) (by omega)
      have hp : (longestVisible v).1 = _ := congrArg Prod.fst he
      have hs : (longestVisible v).2 = _ := congrArg Prod.snd he
      omega

namespace IsLongest

theorem unique (l : IsLongest v ptr n) (l' : IsLongest v ptr' n') (hn : n ≠ 0) : ptr = ptr' ∧ n = n' := by
  have he : n = n' := Nat.le_antisymm (l'.max l.run) (l.max l'.run)
  subst he
  exact ⟨Nat.le_antisymm (l'.last l.run hn) (l.last l'.run hn), rfl⟩

-- The bytes around the run are not visible.

theorem before (l : IsLongest v (ptr + 1) n) (hc : v[ptr]? = some c) : ¬isVisible c :=
  fun hv => Nat.not_succ_le_self n <| l.max <| l.run.pred hc hv

theorem behind (l : IsLongest v ptr n) (hc : v[ptr + n]? = some c) : ¬isVisible c :=
  fun hv => Nat.not_succ_le_self n <| l.max <| l.run.succ hc hv

end IsLongest

end Runs

section Reports

variable {v rest : Bytes} {ptr n cap : Nat} {fmt : String} {sess sess' : TnsSession}

-- A handler that gets `v` scans nothing of what is in the memory behind it.
theorem parse_view : parseContinuousVisibleCharacters (v ++ rest) v.length =
    some ((longestVisible v).1, (longestVisible v).2 + 1) := by
  have hloop : loop (v ++ rest) v.length 0 .start = some (scan v 0 .start) := by
    simpa [loop] using loop_append (v := v) (w := rest) (n := 0) (p := 0) (s := .start)
  rw [parseContinuousVisibleCharacters, hloop]
  rfl

theorem cString_eq_none_iff : cString v = none ↔ 0 ∉ v :=
  Terminated.read_eq_none_iff

-- The copy in the local buffer is a part of the run. The string at the run is read to its end, however.
theorem printRun313_view : printRun313 (cap + 2) fmt (v ++ rest) v.length sess =
    if 0 ∈ (v ++ rest).drop (longestVisible v).1 then
      .ok <| runReport313 fmt cap sess (longestVisible v) (v.drop (longestVisible v).1)
    else
      .error <| .outOfBounds .dataHandler := by
  have hmin : (if (longestVisible v).2 + 1 < cap + 2 - 1 then (longestVisible v).2 + 1 else cap + 2 - 1) =
      min ((longestVisible v).2 + 1) (cap + 1) := by
    split <;> omega
  have hpred : min ((longestVisible v).2 + 1) (cap + 1) - 1 = min (longestVisible v).2 cap := by omega
  simp only [printRun313, parse_view, reading, bind, Except.bind, hmin, snprintf, hpred]
  cases hs : cString ((v ++ rest).drop (longestVisible v).1)
  case none =>
    rw [if_neg (cString_eq_none_iff.mp hs)]
    rfl
  case some str =>
    have hz : 0 ∈ (v ++ rest).drop (longestVisible v).1 :=
      Classical.not_not.mp <| cString_eq_none_iff.not.mp (by simp [hs])
    rw [if_pos hz, runReport313, ← take_cString_of_isRun isRun_longest hs (Nat.min_le_left _ _)]
    rfl

theorem printRun314_view : printRun314 fmt (v ++ rest) v.length sess =
    (reading .dataHandler (cString ((v ++ rest).drop (longestVisible v).1))).map fun text =>
      ⟨.success, sess, [⟨fmt, [.num ((longestVisible v).2 + 1 : Nat), .text text]⟩]⟩ := by
  simp only [printRun314, parse_view, reading, bind, Except.bind]
  cases cString ((v ++ rest).drop (longestVisible v).1) <;> rfl

-- Both versions print the run of a message with a statement.

theorem tns313OCI_view (hsub : v[3]? = some 0x5e) : tns313OCI (v ++ rest) v.length sess =
    printRun313 1024 "    sql len:%d %s\n" (v ++ rest) v.length sess := by
  have hl : 3 < v.length := (List.getElem?_eq_some_iff.mp hsub).choose
  have hlen : ¬v.length ≤ 0 := by omega
  have hsub : (v ++ rest)[3]? = some 0x5e := by rw [List.getElem?_append_left hl, hsub]
  simp only [tns313OCI, hlen, hsub, reading, bind, Except.bind, if_false, if_true]

theorem tns314OCI_view (hsub : v[3]? = some 0x5e) : tns314OCI (v ++ rest) v.length sess =
    printRun314 "query sql :len %d %s\n" (v ++ rest) v.length sess := by
  have hl : 3 < v.length := (List.getElem?_eq_some_iff.mp hsub).choose
  have hlen : ¬v.length ≤ 0 := by omega
  have hsub : (v ++ rest)[3]? = some 0x5e := by rw [List.getElem?_append_left hl, hsub]
  simp only [tns314OCI, hlen, hsub, reading, bind, Except.bind, if_false, if_true]

-- The string is in a local buffer of `size` bytes, together with its terminator.
def FitsLocal (size : Nat) (text : Bytes) : Prop :=
  text.length < size ∧ 0 ∉ text

theorem fitsLocal_take (r : IsRun v ptr n) : FitsLocal (cap + 2) ((v.drop ptr).take (min n cap)) := by
  refine ⟨by simp, fun hz => ?_⟩
  exact absurd (r.right 0 <| List.take_subset_take_left _ (Nat.min_le_left ..) hz) (by decide)

-- The scan finds the last one of the longest runs. The reports of 313 copy as much of it as their local
-- buffers hold, but for one byte, if the string that starts with it ends in the memory.
theorem longestRun_reported (v rest : Bytes) (sess : TnsSession) :
    ∃ ptr n, parseContinuousVisibleCharacters (v ++ rest) v.length = some (ptr, n + 1) ∧
      IsLongest v ptr n ∧
      (∀ c, 0 < ptr → v[ptr - 1]? = some c → ¬isVisible c) ∧
      (∀ c, v[ptr + n]? = some c → ¬isVisible c) ∧
      (v[3]? = some 0x5e → FitsLocal 1024 ((v.drop ptr).take (min n 1022)) ∧
        tns313OCI (v ++ rest) v.length sess =
          if 0 ∈ (v ++ rest).drop ptr then
            .ok ⟨.success, sess, [printVersion sess, ⟨"    sql len:%d %s\n",
              [.num (min (n + 1) 1023 : Nat), .text ((v.drop ptr).take (min n 1022))]⟩]⟩
          else
            .error <| .outOfBounds .dataHandler) ∧
      (3 < v.length → FitsLocal 128 ((v.drop ptr).take (min n 126)) ∧
        tns313RS (v ++ rest) v.length sess =
          if 0 ∈ (v ++ rest).drop ptr then
            .ok ⟨.success, sess, [printVersion sess, ⟨"    return status len:%d %s\n",
              [.num (min (n + 1) 127 : Nat), .text ((v.drop ptr).take (min n 126))]⟩]⟩
          else
            .error <| .outOfBounds .dataHandler) := by
  have l : IsLongest v (longestVisible v).1 (longestVisible v).2 := isLongest_longest
  refine ⟨_, _, parse_view, l, fun c hp hc => ?_, fun c => l.behind, fun hsub => ⟨?_, ?_⟩,
    fun hl => ⟨?_, ?_⟩⟩
  · obtain ⟨ptr, hptr⟩ := Nat.exists_eq_add_one.mpr hp
    rw [hptr] at l hc
    exact l.before hc
  · exact fitsLocal_take l.run
  · exact tns313OCI_view hsub |>.trans printRun313_view
  · exact fitsLocal_take l.run
  · have hlen : ¬v.length ≤ 0 := by omega
    simp only [tns313RS, hlen, if_false]
    exact printRun313_view

-- What the scan finds, and what both reports of 313 copy of it for a view that has a sub-code.
def LongestRunReported (v rest : Bytes) (sess : TnsSession) : Prop :=
  ∃ ptr n, parseContinuousVisibleCharacters (v ++ rest) v.length = some (ptr, n + 1) ∧
    IsLongest v ptr n ∧
    (∀ c, 0 < ptr → v[ptr - 1]? = some c → ¬isVisible c) ∧
    (∀ c, v[ptr + n]? = some c → ¬isVisible c) ∧
    (v[3]? = some 0x5e → FitsLocal 1024 ((v.drop ptr).take (min n 1022)) ∧
      tns313OCI (v ++ rest) v.length sess =
        .ok ⟨.success, sess, [printVersion sess, ⟨"    sql len:%d %s\n",
          [.num (min (n + 1) 1023 : Nat), .text ((v.drop ptr).take (min n 1022))]⟩]⟩) ∧
    (3 < v.length → FitsLocal 128 ((v.drop ptr).take (min n 126)) ∧
      tns313RS (v ++ rest) v.length sess =
        .ok ⟨.success, sess, [printVersion sess, ⟨"    return status len:%d %s\n",
          [.num (min (n + 1) 127 : Nat), .text ((v.drop ptr).take (min n 126))]⟩]⟩)

-- There is a null byte in the memory from the last one of the longest runs on. Where no byte is visible,
-- that is from the last byte of the view on.
def EndsBehindRun (v rest : Bytes) : Prop :=
  ∀ ptr n, IsLongest v ptr n → (n = 0 → ptr + 1 = v.length) → 0 ∈ (v ++ rest).drop ptr

-- Without a visible byte, the result is at the last byte.
theorem longestVisible_of_zero (h : (longestVisible v).2 = 0) : (longestVisible v).1 = v.length - 1 := by
  have hnone : ∀ c ∈ v, ¬isVisible c := by
    intro c hc hv
    obtain ⟨i, hi, rfl⟩ := List.mem_iff_getElem.mp hc
    have r : IsRun v i 1 := isRun_iff.mpr ⟨hi, fun j hj hj' =>
      ⟨v[i], by rw [(by omega : j = i), List.getElem?_eq_getElem hi]; rfl, hv⟩⟩
    exact absurd (isLongest_longest.max r) (by omega)
  have hscan : scan v 0 .start = ⟨0, 0, v.length - 1⟩ := by
    clear h
    induction v using List.reverseRecOn
    case nil => rfl
    case append_singleton v c hi =>
      obtain ⟨hv, hc⟩ := List.forall_mem_append.mp hnone
      rw [scan_concat, hi hv, step_of_not_visible (hc c (by simp)), settle_of_le (Nat.le_refl 0)]
      simp
  rw [longestVisible, hscan]
  rfl

theorem endsBehindRun_iff (hv : v ≠ []) : EndsBehindRun v rest ↔ 0 ∈ (v ++ rest).drop (longestVisible v).1 := by
  have l : IsLongest v (longestVisible v).1 (longestVisible v).2 := isLongest_longest
  have hpos := List.length_pos_iff.mpr hv
  constructor
  case mp  =>
    refine fun h => h _ _ l fun hn => ?_
    rw [longestVisible_of_zero hn]
    omega
  case mpr =>
    intro h ptr n l' hn
    by_cases hz : n = 0
    case neg =>
      obtain ⟨rfl, -⟩ := l'.unique l hz
      exact h
    case pos =>
      have hzero : (longestVisible v).2 = 0 := by
        have := l'.max l.run
        omega
      have hptr : ptr = (longestVisible v).1 := by
        have := longestVisible_of_zero hzero
        have := hn hz
        omega
      rw [hptr]
      exact h

-- The longest run is found and reported as it is if and only if the view has no sub-code, or there is a null
-- byte in the memory from the run on: the length in the format does not end the string that is read.
theorem longestRun_reported_iff (v rest : Bytes) (sess : TnsSession) :
    LongestRunReported v rest sess ↔ (3 < v.length → EndsBehindRun v rest) := by
  obtain ⟨ptr, n, hparse, l, hbefore, hbehind, hsub, hlen⟩ := longestRun_reported v rest sess
  have hptr : ptr = (longestVisible v).1 := by
    have := hparse.symm.trans parse_view
    simp only [Option.some.injEq, Prod.mk.injEq] at this
    exact this.left
  constructor
  case mp =>
    rintro ⟨ptr', n', hparse', -, -, -, -, hrs⟩ h3
    have hv : v ≠ [] := List.length_pos_iff.mp (by omega)
    rw [endsBehindRun_iff hv, ← hptr]
    obtain ⟨-, hrs⟩ := hrs h3
    obtain ⟨-, hreport⟩ := hlen h3
    by_contra hmem
    rw [if_neg hmem, hrs] at hreport
    cases hreport
  case mpr =>
    intro h
    refine ⟨ptr, n, hparse, l, hbefore, hbehind, fun hs => ?_, fun h3 => ?_⟩
    · have h3 : 3 < v.length := (List.getElem?_eq_some_iff.mp hs).choose
      have hv : v ≠ [] := List.length_pos_iff.mp (by omega)
      have hmem := hptr ▸ (endsBehindRun_iff hv).mp (h h3)
      obtain ⟨hfits, hreport⟩ := hsub hs
      exact ⟨hfits, hreport.trans (if_pos hmem)⟩
    · have hv : v ≠ [] := List.length_pos_iff.mp (by omega)
      have hmem := hptr ▸ (endsBehindRun_iff hv).mp (h h3)
      obtain ⟨hfits, hreport⟩ := hlen h3
      exact ⟨hfits, hreport.trans (if_pos hmem)⟩

-- A statement that is the sub-code only, with nothing behind it.
theorem tns313OCI_reads_behind : ¬∀ (v rest : Bytes) (sess : TnsSession), LongestRunReported v rest sess := by
  intro h
  obtain ⟨_, _, _, _, _, _, hsub, _⟩ := h [0, 0, 3, 0x5e] [] .zero
  have hread : tns313OCI ([0, 0, 3, 0x5e] ++ []) 4 .zero = .error (.outOfBounds .dataHandler) := by decide
  exact absurd (hread.symm.trans (hsub rfl).right) (by simp)

-- The texts that stand for a `%s` in what is printed.
def texts (out : List Printf) : List Bytes :=
  out.flatMap fun p => p.args.filterMap fun
    | .text t => some t
    | _       => none

def PrintsSql (r : Except Fault Outcome) (sql : Bytes) : Prop :=
  ∃ o, r = .ok o ∧ texts o.out = [sql]

instance {r : Except Fault Outcome} {sql : Bytes} : Decidable (PrintsSql r sql) :=
  match r with
  | .error _ => isFalse fun ⟨_, h, _⟩ => nomatch h
  | .ok o    => decidable_of_iff (texts o.out = [sql]) ⟨fun h => ⟨o, rfl, h⟩, fun ⟨_, rfl, h⟩ => h⟩

-- The string at a run that ends in the view.
theorem cString_run (rest : Bytes) (r : IsRun v ptr n) (hz : 0 ∈ v.drop (ptr + n)) :
    ∃ str, cString ((v ++ rest).drop ptr) = some ((v.drop ptr).take n ++ str) ∧
      (str = [] ↔ v[ptr + n]? = some 0) := by
  have ⟨hl, hv⟩ := r
  have hrun : 0 ∉ (v.drop ptr).take n := fun hz => absurd (hv 0 hz) (by decide)
  have hsplit : (v ++ rest).drop ptr = (v.drop ptr).take n ++ (v.drop (ptr + n) ++ rest) := by
    rw [List.drop_append_of_le_length (by omega), ← List.append_assoc, ← List.drop_drop,
      List.take_append_drop]
  obtain ⟨str, hstr⟩ := Terminated.exists_read_of_mem hz
  refine ⟨str, ?_, ?_⟩
  · rw [cString, hsplit, Terminated.read_append_of_not_mem hrun, Terminated.read_append_of_mem hz, hstr]
    rfl
  · rw [← Nat.add_zero (ptr + n), ← List.getElem?_drop, ← List.head?_eq_getElem?]
    cases hd : v.drop (ptr + n)
    case nil      => simp [hd] at hz
    case cons c w =>
      rw [hd] at hstr
      by_cases hc : c = 0
      case pos =>
        subst hc
        rw [Terminated.read_cons_self] at hstr
        cases hstr
        exact iff_of_true rfl rfl
      case neg =>
        rw [Terminated.read_cons_of_ne hc, Option.map_eq_some_iff] at hstr
        obtain ⟨_, _, rfl⟩ := hstr
        exact iff_of_false (List.cons_ne_nil _ _) (by simpa using hc)

-- What 314 prints is the run, as in 313, if and only if the run is a string of its own: 314 prints all up
-- to the next null byte.
theorem sameSql_iff (v rest : Bytes) (sess sess' : TnsSession) {ptr n : Nat} (l : IsLongest v ptr n)
    (hn : n ≤ 1022) (hsub : v[3]? = some 0x5e) (hz : 0 ∈ v.drop (ptr + n)) :
    PrintsSql (tns313OCI (v ++ rest) v.length sess) ((v.drop ptr).take n) ∧
      PrintsSql (tns314OCI (v ++ rest) v.length sess') ((v.drop ptr).take n) ↔
    v[ptr + n]? = some 0 := by
  have hl : 3 < v.length := (List.getElem?_eq_some_iff.mp hsub).choose
  have hne : n ≠ 0 := by
    have hone : IsRun v 3 1 := isRun_iff.mpr ⟨hl, fun i hi hi' =>
      ⟨0x5e, by rwa [(by omega : i = 3)], by decide⟩⟩
    exact Nat.ne_of_gt <| l.max hone
  obtain ⟨hp, hs⟩ := isLongest_longest.unique l (Nat.ne_of_gt <| Nat.lt_of_lt_of_le (by omega) <|
    isLongest_longest.max l.run)
  obtain ⟨str, hstr, hnil⟩ := cString_run rest l.run hz
  have hmem : 0 ∈ (v ++ rest).drop ptr :=
    Classical.not_not.mp <| cString_eq_none_iff.not.mp (by simp [hstr])
  have h313 : PrintsSql (tns313OCI (v ++ rest) v.length sess) ((v.drop ptr).take n) := by
    refine ⟨runReport313 "    sql len:%d %s\n" 1022 sess (longestVisible v) (v.drop (longestVisible v).1),
      ?_, ?_⟩
    · rw [tns313OCI_view hsub]
      exact printRun313_view.trans (if_pos (hp ▸ hmem))
    · simp [runReport313, texts, printVersion, hp, hs, hn]
  have h314 : tns314OCI (v ++ rest) v.length sess' = .ok ⟨.success, sess',
      [⟨"query sql :len %d %s\n", [.num (n + 1 : Nat), .text ((v.drop ptr).take n ++ str)]⟩]⟩ := by
    rw [tns314OCI_view hsub, printRun314_view, hp, hs, hstr]
    rfl
  rw [and_iff_right h313, h314, ← hnil]
  constructor
  case mp =>
    rintro ⟨_, ⟨⟩, h⟩
    simpa [texts] using h
  case mpr =>
    intro h
    exact ⟨_, rfl, by simp [texts, h]⟩

-- A statement that ends in a byte before the terminator, and one that ends in the terminator.

def openSql : Bytes := [0, 0, 3, 0x5e, 0x73, 0x71, 0x6c, 1, 0x78, 0]

def closedSql : Bytes := [0, 0, 3, 0x5e, 0x73, 0x71, 0x6c, 0]

theorem tns314OCI_prints_behind :
    ¬∀ (v rest : Bytes) (sess sess' : TnsSession) (ptr n : Nat), IsLongest v ptr n → n ≤ 1022 →
      v[3]? = some 0x5e → 0 ∈ v.drop (ptr + n) →
        PrintsSql (tns313OCI (v ++ rest) v.length sess) ((v.drop ptr).take n) ∧
          PrintsSql (tns314OCI (v ++ rest) v.length sess') ((v.drop ptr).take n) := by
  intro h
  have l : IsLongest openSql 3 4 := isLongest_longest (v := openSql)
  have hprints := h openSql [] .zero .zero 3 4 l (by decide) rfl (by decide)
  exact absurd hprints.right (by decide)

theorem sameSql_of_closed :
    PrintsSql (tns313OCI (closedSql ++ []) closedSql.length .zero) [0x5e, 0x73, 0x71, 0x6c] ∧
      PrintsSql (tns314OCI (closedSql ++ []) closedSql.length .zero) [0x5e, 0x73, 0x71, 0x6c] := by
  have l : IsLongest closedSql 3 4 := isLongest_longest (v := closedSql)
  exact sameSql_iff closedSql [] .zero .zero l (by decide) rfl (by decide) |>.mpr rfl

end Reports
