import TnsParser.OracleTns.Translation

-- How much of its buffer the translation of connect data takes.

open Except Neighbours

-- The texts that `bufout` holds one after the other: when it has been cleared, after each round of the
-- loop, and in the end.
inductive Stored (bufin : Bytes) (inlen outlen : Nat) : Bytes → Prop
  | cleared : Stored bufin inlen outlen []
  | round {n : Nat} {text : Bytes} (hf : bufin[0]? = some (cchar '(')) (hn : n ≤ inlen - 2)
      (h : jsonLoop bufin inlen outlen n 0 (cstr "\x7b\"") = .ok text) : Stored bufin inlen outlen text
  | returned {code : Int} {text : Bytes} {len : Nat}
      (h : parseConnectDataToJson bufin inlen outlen = .ok (code, text, len)) :
      Stored bufin inlen outlen text

-- A byte takes two bytes, except for those that take three,
def isWide : UInt8 × UInt8 × UInt8 → Bool
  | (prev, c, next) =>
    c = cchar '=' ∧ next ≠ cchar '(' ∨ c = cchar ')' ∧ next = cchar '(' ∧ prev ≠ cchar ')'

-- those that take one,
def isNarrow : UInt8 × UInt8 × UInt8 → Bool
  | (prev, c, next) => IsPlain c ∨ c = cchar ')' ∧ next ≠ cchar '(' ∧ prev = cchar ')'

-- and those that take none.
def isDropped : UInt8 × UInt8 × UInt8 → Bool
  | (prev, c, _) => c = 0 ∨ c = cchar '(' ∧ prev = cchar ')'

-- The bytes that are translated, each between its neighbours: not the last one when it is no parenthesis.
def translated (bufin : Bytes) : List (UInt8 × UInt8 × UInt8) :=
  if bufin.getLast? = some (cchar ')') then triples 0 bufin 0 else (triples 0 bufin 0).dropLast

-- Connect data that fits: there are enough bytes that take less than two for those that take three, and
-- for the terminator.
def FitsBuffer (bufin : Bytes) : Prop :=
  bufin.head? = some (cchar '(') →
    2 ≤ bufin.length ∧
      (translated bufin).countP isWide < (translated bufin).countP isNarrow +
        2 * ((translated bufin).countP isDropped + (bufin.length - (translated bufin).length))

instance {bufin : Bytes} : Decidable (FitsBuffer bufin) :=
  inferInstanceAs <| Decidable (_ → _)

variable {bufin p text : Bytes} {inlen outlen : Nat} {prev next last : UInt8}

theorem length_piece (t : UInt8 × UInt8 × UInt8) :
    (piece t).length + (isNarrow t).toNat + 2 * (isDropped t).toNat = 2 + (isWide t).toNat := by
  obtain ⟨prev, c, next⟩ := t
  have hopen : cchar '(' ≠ 0 ∧ cchar '(' ≠ cchar ')' ∧ cchar '(' ≠ cchar '=' := by decide
  have hclose : cchar ')' ≠ 0 ∧ cchar ')' ≠ cchar '(' ∧ cchar ')' ≠ cchar '=' := by decide
  have hequal : cchar '=' ≠ 0 ∧ cchar '=' ≠ cchar '(' ∧ cchar '=' ≠ cchar ')' := by decide
  have hone : (cstr "\x7d").length = 1 := rfl
  have htwo : (cstr "\x7b\"").length = 2 ∧ (cstr "\":").length = 2 ∧ (cstr ",\"").length = 2 ∧
      (cstr "\"\x7d").length = 2 := ⟨rfl, rfl, rfl, rfl⟩
  have hthree : (cstr "\":\"").length = 3 ∧ (cstr "\",\"").length = 3 := ⟨rfl, rfl⟩
  simp only [piece, isNarrow, isDropped, isWide, isPlain_iff, strncat1]
  by_cases ho : c = cchar '('
  case pos => by_cases hp : prev = cchar ')' <;> simp_all
  case neg =>
    by_cases he : c = cchar '='
    case pos => by_cases hn : next = cchar '(' <;> simp_all
    case neg =>
      by_cases hc : c = cchar ')'
      case pos => by_cases hn : next = cchar '(' <;> by_cases hp : prev = cchar ')' <;> simp_all
      case neg => by_cases hz : c = 0 <;> simp_all

theorem length_flatMap_piece (ts : List (UInt8 × UInt8 × UInt8)) :
    (ts.flatMap piece).length + ts.countP isNarrow + 2 * ts.countP isDropped =
      2 * ts.length + ts.countP isWide := by
  have count (ok : UInt8 × UInt8 × UInt8 → Bool) (t) (ts : List _) :
      (t :: ts).countP ok = ts.countP ok + (ok t).toNat := by
    rw [List.countP_cons]
    cases ok t <;> rfl
  induction ts
  case nil => rfl
  case cons t ts hi =>
    have ht := length_piece t
    simp only [List.flatMap_cons, List.length_append, List.length_cons, count]
    omega

-- What is stored in the end of connect data that starts with a parenthesis.
theorem flatMap_translated : (translated (cchar '(' :: (p ++ [last]))).flatMap piece =
    if last = cchar ')' then
      pieces 0 (cchar '(' :: (p ++ [last])) 0
    else
      cstr "\x7b\"" ++ pieces (cchar '(') p last := by
  have hlast : (cchar '(' :: (p ++ [last])).getLast? = some last := by
    rw [← List.cons_append, List.getLast?_concat]
  have htriples : (triples 0 (cchar '(' :: (p ++ [last])) 0).dropLast =
      triples 0 (cchar '(' :: p) last := by
    rw [← List.cons_append, triples_append]
    exact List.dropLast_concat
  simp only [translated, hlast, htriples, Option.some.injEq]
  split <;> rfl

theorem returned_translated (ho : 2 < outlen) :
    Stored (cchar '(' :: (p ++ [last])) (p.length + 2) outlen
      ((translated (cchar '(' :: (p ++ [last]))).flatMap piece) := by
  have h := parseConnectDataToJson_eq ho p last []
  rw [flatMap_translated]
  by_cases hl : last = cchar ')'
  case pos =>
    rw [if_pos hl] at h ⊢
    exact .returned h
  case neg =>
    rw [if_neg hl] at h ⊢
    exact .returned h

-- What is stored in front of the last byte is a part of what is stored in the end.
theorem pieces_isPrefix : cstr "\x7b\"" ++ pieces (cchar '(') p last <+:
    (translated (cchar '(' :: (p ++ [last]))).flatMap piece := by
  rw [flatMap_translated]
  split
  case isTrue h =>
    rw [h, pieces_parens]
    exact List.prefix_append ..
  case isFalse => exact List.prefix_rfl

-- What is stored after `n` rounds of the loop.
theorem jsonLoop_take {n : Nat} (ho : 2 < outlen) (hn : n ≤ p.length) :
    jsonLoop (cchar '(' :: (p ++ [last])) (p.length + 2) outlen n 0 (cstr "\x7b\"") =
      .ok (cstr "\x7b\"" ++ pieces (cchar '(') (p.take n) ((p.drop n).headD last)) := by
  have hrest : p.drop n ++ [last] = (p.drop n).headD last :: (p.drop n ++ [last]).tail := by
    cases p.drop n <;> rfl
  have hmem : p ++ [last] = p.take n ++ (p.drop n).headD last :: (p.drop n ++ [last]).tail := by
    rw [← hrest, ← List.append_assoc, List.take_append_drop]
  have hlen : (p.take n).length = n := List.length_take_of_le hn
  nth_rewrite 1 [← hlen]
  exact jsonLoop_eq ho (congrArg (cchar '(' :: ·) hmem)

-- Each round adds to what is stored.
theorem isPrefix_of_stored (ho : 2 < outlen)
    (h : Stored (cchar '(' :: (p ++ [last])) (p.length + 2) outlen text) :
    text <+: (translated (cchar '(' :: (p ++ [last]))).flatMap piece := by
  cases h
  case cleared => exact List.nil_prefix
  case round n hf hn h =>
    have htext : text = cstr "\x7b\"" ++ pieces (cchar '(') (p.take n) ((p.drop n).headD last) :=
      ok.inj <| h.symm.trans <| jsonLoop_take ho hn
    have hpieces : pieces (cchar '(') (p.take n) ((p.drop n).headD last) <+:
        pieces (cchar '(') p last := by
      conv_rhs => rw [← p.take_append_drop n, pieces_append]
      exact List.prefix_append ..
    rw [htext]
    exact List.prefix_append_right_inj _ |>.mpr hpieces |>.trans pieces_isPrefix
  case returned h =>
    rw [parseConnectDataToJson_eq ho] at h
    by_cases hl : last = cchar ')'
    case pos =>
      rw [if_pos hl] at h
      cases h
      exact flatMap_translated.trans (if_pos hl) ▸ List.prefix_rfl
    case neg =>
      rw [if_neg hl] at h
      cases h
      exact pieces_isPrefix

-- Connect data fit if and only if their translation is shorter than the buffer.
theorem fitsBuffer_iff : FitsBuffer (cchar '(' :: (p ++ [last])) ↔
    ((translated (cchar '(' :: (p ++ [last]))).flatMap piece).length + 1 ≤ 2 * (p.length + 2) := by
  have hf : (cchar '(' :: (p ++ [last])).head? = some (cchar '(') := rfl
  have hlen : (cchar '(' :: (p ++ [last])).length = p.length + 2 := by simp
  have hcount := length_flatMap_piece (translated (cchar '(' :: (p ++ [last])))
  have hle : (translated (cchar '(' :: (p ++ [last]))).length ≤ p.length + 2 := by
    rw [translated]
    split <;> simp [length_triples]
  simp only [FitsBuffer, hf, forall_const, hlen, Nat.le_add_left, true_and]
  omega

-- Without a parenthesis at the start, nothing is stored.
theorem eq_nil_of_stored (h : 0 < bufin.length) (hf : bufin.head? ≠ some (cchar '('))
    (hs : Stored bufin inlen outlen text) : text = [] := by
  have hfirst : bufin[0] ≠ cchar '(' := by simpa [List.head?_eq_getElem?, h] using hf
  cases hs
  case cleared       => rfl
  case round hf' _ _ => exact absurd hf' <| by rwa [← List.head?_eq_getElem?]
  case returned hr   =>
    have hbyte : connectDataByte bufin inlen 0 = .ok bufin[0] :=
      connectDataByte_eq <| List.getElem?_eq_getElem h
    simp only [parseConnectDataToJson, hbyte, bind, Except.bind, hfirst, ne_eq, not_false_eq_true,
      if_true, pure, Except.pure] at hr
    cases hr
    rfl

-- The translation stays in a buffer of twice the length for connect data that fits, and only for such
-- data.
theorem stored_fits_iff (bufin : Bytes) (h : 0 < bufin.length) :
    (∀ text, Stored bufin bufin.length (2 * bufin.length) text → text.length + 1 ≤ 2 * bufin.length) ↔
      FitsBuffer bufin := by
  by_cases hf : bufin.head? = some (cchar '(')
  case neg =>
    refine iff_of_true (fun text ht => ?_) (absurd · hf)
    rw [eq_nil_of_stored h hf ht, List.length_nil]
    omega
  case pos =>
    obtain ⟨q, rfl⟩ : ∃ q, bufin = cchar '(' :: q := List.head?_eq_some_iff.mp hf
    cases List.eq_nil_or_concat' q
    case inl hq =>
      subst hq
      refine iff_of_false (fun hs => ?_) fun hfits => absurd (hfits hf).left (by simp)
      exact absurd (hs _ <| .round rfl (Nat.zero_le _) rfl) (by decide)
    case inr hq =>
      obtain ⟨p, last, rfl⟩ := hq
      have hlen : (cchar '(' :: (p ++ [last])).length = p.length + 2 := by simp
      have ho : 2 < 2 * (p.length + 2) := by omega
      rw [fitsBuffer_iff, hlen]
      constructor
      case mp  => exact fun hs => hs _ <| returned_translated ho
      case mpr =>
        intro hs text ht
        have hle := (isPrefix_of_stored ho ht).length_le
        omega

theorem stored_of_empty_leaf : ∃ text, Stored (cstr "(=)") 3 6 text ∧ 6 < text.length + 1 :=
  ⟨cstr "\x7b\"\":\"\"\x7d",
    .returned (by decide : parseConnectDataToJson (cstr "(=)") 3 6 = .ok (0, _, 8)), by decide⟩

theorem stored_fits_of_short_leaf :
    ∃ text, Stored (cstr "(A=b)") (cstr "(A=b)").length (2 * (cstr "(A=b)").length) text ∧
      text.length = 9 ∧ text.length + 1 ≤ 2 * (cstr "(A=b)").length := by
  have hparse : parseConnectDataToJson (cstr "(A=b)") (cstr "(A=b)").length (2 * (cstr "(A=b)").length) =
      .ok (0, cstr "\x7b\"A\":\"b\"\x7d", 10) := by decide
  have h := Stored.returned hparse
  exact ⟨_, h, by decide, stored_fits_iff (cstr "(A=b)") (by decide) |>.mpr (by decide) _ h⟩
