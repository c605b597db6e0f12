import TnsParser.CJson.Strings
import Mathlib.Data.List.GetD

-- How long a string the parser reserves memory for, and how long the one is that it writes there.

open Json

variable {stale : Bytes → UInt32} {p q out : Bytes} {c : UInt8} {n m len : Nat}

def intMax : Nat := 0x7fffffff

-- The loop that counts the bytes of a string, for `n` bytes at most.
def parseStringLen : Nat → Bytes → Nat → Nat × Bytes
  | 0,     ptr, len => (len, ptr)
  | n + 1, ptr, len =>
    let c := ptr.headD 0
    if c = cchar '"' ∨ c = 0 then (len, ptr)
    else if c = cchar '\\' then parseStringLen n (ptr.drop 2) (len + 1)
    else parseStringLen n (ptr.drop 1) (len + 1)

-- Nothing in the string ends within an escape sequence. The digits of one need not be digits.
inductive Complete : Bytes → Prop
  | stop {p : Bytes} (h : p.headD 0 = cchar '"' ∨ p.headD 0 = 0) : Complete p
  | plain {c : UInt8} {p : Bytes} (hc : IsVerbatim c) (h : Complete p) : Complete (c :: p)
  | escape {c : UInt8} {p : Bytes} (hc : c ≠ 0 ∧ c ≠ cchar 'u') (h : Complete p) :
      Complete (cchar '\\' :: c :: p)
  | unicode {digits p : Bytes} (hlen : digits.length = 4) (hd : ∀ c ∈ digits, IsVerbatim c) (h : Complete p) :
      Complete (cchar '\\' :: cchar 'u' :: (digits ++ p))

namespace Complete

-- What is behind an escape sequence with digits.
theorem behind {q : Bytes} (h : Complete (cchar '\\' :: cchar 'u' :: q)) :
    ∃ digits p, q = digits ++ p ∧ digits.length = 4 ∧ (∀ c ∈ digits, IsVerbatim c) ∧ Complete p := by
  cases h
  case stop h             => exact absurd h (by simp [cchar])
  case plain hc _         => exact absurd rfl hc.right.right
  case escape hc _        => exact absurd rfl hc.right
  case unicode hlen hd hp => exact ⟨_, _, rfl, hlen, hd, hp⟩

end Complete

theorem parseStringLen_verbatim {digits : Bytes} {len : Nat} (h : ∀ c ∈ digits, IsVerbatim c) :
    parseStringLen (digits.length + n) (digits ++ p) len = parseStringLen n p (len + digits.length) := by
  induction digits generalizing len
  case nil => simp
  case cons c digits hi =>
    obtain ⟨hc, hd⟩ := List.forall_mem_cons.mp h
    have hn : (c :: digits).length + n = digits.length + n + 1 := by
      rw [List.length_cons]
      omega
    have hround : parseStringLen (digits.length + n + 1) (c :: (digits ++ p)) len =
        parseStringLen (digits.length + n) (digits ++ p) (len + 1) := by
      simp [parseStringLen, hc.left, hc.right.left, hc.right.right]
    rw [hn, List.cons_append, hround, hi hd, List.length_cons, Nat.add_assoc, Nat.add_comm 1]

theorem utf8_length_le (uc : UInt32) : (utf8 uc).length ≤ 4 := by
  rw [utf8]
  split_ifs <;> simp

-- An escape sequence adds four bytes at most, and it ends at its last digit or at that of the one behind
-- it.
theorem parseUtf16_cases (p : Bytes) :
    (parseUtf16 stale p).1.length ≤ 4 ∧
      ((parseUtf16 stale p).2 = p.drop 4 ∨
        p.getD 5 0 = cchar '\\' ∧ p.getD 6 0 = cchar 'u' ∧ (parseUtf16 stale p).2 = p.drop 10) := by
  have hget (i : Nat) : (p.drop 4).getD i 0 = p.getD (4 + i) 0 := by simp
  have hlen := utf8_length_le
  rw [parseUtf16]
  simp only [hget, List.drop_drop]
  split_ifs
  all_goals simp_all

-- A round of the loop that copies, and the rounds of the loop that counts for the same bytes.
structure Round (stale : Bytes → UInt32) (p piece q : Bytes) (count : Nat) : Prop where
  shorter : q.length + count ≤ p.length ∧ 0 < count
  fits    : piece.length ≤ count
  copy    : ∀ n out, parseStringLoop stale (n + 1) p out = parseStringLoop stale n q (out ++ piece)
  count   : ∀ n len, parseStringLen (n + count) p len = parseStringLen n q (len + count)

theorem round_plain (h : IsVerbatim c) : Round stale (c :: p) [c] p 1 where
  shorter := by simp
  fits    := by simp
  copy n out := parseStringLoop_verbatim_cons h
  count n len := by simp [parseStringLen, h.left, h.right.left, h.right.right]

theorem parseStringLen_escaped :
    parseStringLen (n + 1) (cchar '\\' :: c :: p) len = parseStringLen n p (len + 1) := by
  have hquote : ¬(cchar '\\' = cchar '"' ∨ cchar '\\' = 0) := by decide
  simp [parseStringLen, hquote]

theorem parseEscape_one (stale : Bytes → UInt32) (h : c ≠ cchar 'u') : ∃ b, parseEscape stale (c :: p) = ([b], c :: p) := by
  simp only [parseEscape, List.headD_cons, h, if_false]
  split_ifs <;> exact ⟨_, rfl⟩

theorem round_escape (stale : Bytes → UInt32) (h : c ≠ cchar 'u') : ∃ b, Round stale (cchar '\\' :: c :: p) [b] p 1 := by
  obtain ⟨b, hb⟩ := parseEscape_one stale (p := p) h
  refine ⟨b, by simp, Nat.le_refl 1, fun n out => ?_, fun n len => parseStringLen_escaped⟩
  exact parseStringLoop_escape hb

theorem parseStringLen_digits {digits : Bytes} (hlen : digits.length = 4) (h : ∀ c ∈ digits, IsVerbatim c) :
    parseStringLen (n + 5) (cchar '\\' :: cchar 'u' :: (digits ++ p)) len = parseStringLen n p (len + 5) := by
  have hdigits : parseStringLen (digits.length + n) (digits ++ p) (len + 1) =
      parseStringLen n p (len + 1 + digits.length) := parseStringLen_verbatim h
  rw [hlen] at hdigits
  rw [Nat.add_comm n 5, Nat.add_comm 5 n, parseStringLen_escaped, Nat.add_comm n 4, hdigits]

theorem round_unicode {digits : Bytes} (hlen : digits.length = 4) (h : ∀ c ∈ digits, IsVerbatim c)
    (hptr : (parseUtf16 stale (cchar 'u' :: (digits ++ p))).2 = (cchar 'u' :: (digits ++ p)).drop 4) :
    Round stale (cchar '\\' :: cchar 'u' :: (digits ++ p)) (parseUtf16 stale (cchar 'u' :: (digits ++ p))).1 p 5 where
  shorter := by simp; omega
  fits    := Nat.le_trans (parseUtf16_cases _).left (by decide)
  copy n out := by
    rw [parseStringLoop_escape (Prod.eta _).symm, parseEscape_u, hptr, List.drop_drop, List.drop_succ_cons,
      List.drop_left' hlen]
  count n len := parseStringLen_digits hlen h

theorem round_surrogates {digits digits' : Bytes} (hlen : digits.length = 4) (h : ∀ c ∈ digits, IsVerbatim c)
    (hlen' : digits'.length = 4) (h' : ∀ c ∈ digits', IsVerbatim c)
    (hptr : (parseUtf16 stale (cchar 'u' :: (digits ++ cchar '\\' :: cchar 'u' :: (digits' ++ p)))).2 =
      (cchar 'u' :: (digits ++ cchar '\\' :: cchar 'u' :: (digits' ++ p))).drop 10) :
    Round stale (cchar '\\' :: cchar 'u' :: (digits ++ cchar '\\' :: cchar 'u' :: (digits' ++ p)))
      (parseUtf16 stale (cchar 'u' :: (digits ++ cchar '\\' :: cchar 'u' :: (digits' ++ p)))).1 p 10 where
  shorter := by simp; omega
  fits    := Nat.le_trans (parseUtf16_cases _).left (by decide)
  copy n out := by
    have hbehind : (cchar 'u' :: (digits ++ cchar '\\' :: cchar 'u' :: (digits' ++ p))).drop 11 = p := by
      rw [List.drop_succ_cons, ← List.drop_drop (i := 6) (j := 4), List.drop_left' hlen, List.drop_succ_cons,
        List.drop_succ_cons, List.drop_left' hlen']
    rw [parseStringLoop_escape (Prod.eta _).symm, parseEscape_u, hptr, List.drop_drop, hbehind]
  count n len := by
    rw [show n + 10 = n + 5 + 5 from rfl, parseStringLen_digits hlen h, parseStringLen_digits hlen' h']

theorem Complete.round (stale : Bytes → UInt32) (h : Complete p) :
    (p.headD 0 = cchar '"' ∨ p.headD 0 = 0) ∨ ∃ piece q count, Round stale p piece q count ∧ Complete q := by
  cases h
  case stop h               => exact .inl h
  case plain hc h           => exact .inr ⟨_, _, _, round_plain hc, h⟩
  case escape hc h          =>
    obtain ⟨b, hround⟩ := round_escape stale hc.right
    exact .inr ⟨_, _, _, hround, h⟩
  case unicode digits p hlen hd h =>
    rcases (parseUtf16_cases (cchar 'u' :: (digits ++ p))).right with hptr | ⟨h5, h6, hptr⟩
    · exact .inr ⟨_, _, _, round_unicode hlen hd hptr, h⟩
    · obtain ⟨q, rfl⟩ : ∃ q, p = cchar '\\' :: cchar 'u' :: q := by
        have hget (i : Nat) : (cchar 'u' :: (digits ++ p)).getD (i + 5) 0 = p.getD i 0 := by
          rw [List.getD_cons_succ, List.getD_append_right _ _ _ _ (by omega), hlen, Nat.add_sub_cancel]
        rw [hget 0] at h5
        rw [hget 1] at h6
        rcases p with - | ⟨a, - | ⟨b, q⟩⟩
        · exact absurd h5 (by simp [cchar])
        · exact absurd h6 (by simp [cchar])
        · rw [List.getD_cons_zero] at h5
          rw [List.getD_cons_succ, List.getD_cons_zero] at h6
          exact ⟨q, by rw [h5, h6]⟩
      obtain ⟨digits', q, rfl, hlen', hd', hq⟩ := h.behind
      exact .inr ⟨_, _, _, round_surrogates hlen hd hlen' hd' hptr, hq⟩

-- The memory that is reserved holds the string, and both loops end at the same byte.
theorem Complete.fits (h : Complete p) (hn : p.length ≤ n) (hm : p.length ≤ m) (hout : out.length ≤ len) :
    (parseStringLoop stale n p out).1.length ≤ (parseStringLen m p len).1 ∧
      (parseStringLoop stale n p out).2 = (parseStringLen m p len).2 := by
  induction hk : p.length using Nat.strongRecOn generalizing p n m out len
  case ind k hi =>
    rcases h.round stale with hstop | ⟨piece, q, count, hround, hq⟩
    · have hloop : parseStringLoop stale n p out = (out, p) := by
        cases n
        case zero => rfl
        case succ => simp only [parseStringLoop, if_pos hstop]
      have hlen : parseStringLen m p len = (len, p) := by
        cases m
        case zero => rfl
        case succ => simp only [parseStringLen, if_pos hstop]
      rw [hloop, hlen]
      exact ⟨hout, rfl⟩
    · obtain ⟨hshorter, hpos⟩ := hround.shorter
      obtain ⟨n, rfl⟩ : ∃ i, n = i + 1 := Nat.exists_eq_add_one.mpr (by omega)
      obtain ⟨m, rfl⟩ : ∃ i, m = i + count := Nat.exists_eq_add_of_le' (by omega)
      have hfits := hround.fits
      rw [hround.copy, hround.count]
      exact hi q.length (by omega) hq (by omega) (by omega) (by simp; omega) rfl

theorem parseStringLen_le : (parseStringLen n p len).1 ≤ len + p.length := by
  induction n generalizing p len
  case zero => exact Nat.le_add_right len p.length
  case succ n hi =>
    cases p
    case nil => simp [parseStringLen]
    case cons c p =>
      have hone : (parseStringLen n p (len + 1)).1 ≤ len + 1 + p.length := hi
      have htwo : (parseStringLen n (p.drop 1) (len + 1)).1 ≤ len + 1 + (p.drop 1).length := hi
      simp only [parseStringLen, List.headD_cons, List.drop_succ_cons, List.drop_zero, List.length_cons]
      rw [List.length_drop] at htwo
      split_ifs <;> omega

-- The memory that is reserved for a string holds what is written there, and its size is one of `int`.
theorem parseString_fits (h : Complete p) (hp : p.length < intMax) :
    (parseStringLen (p.length + 1) p 0).1 + 1 ≤ intMax ∧
      (parseStringLoop stale (p.length + 1) p []).1.length ≤ (parseStringLen (p.length + 1) p 0).1 ∧
      (parseStringLoop stale (p.length + 1) p []).2 = (parseStringLen (p.length + 1) p 0).2 := by
  have hlen : (parseStringLen (p.length + 1) p 0).1 ≤ 0 + p.length := parseStringLen_le
  exact ⟨by omega, h.fits (Nat.le_succ _) (Nat.le_succ _) (Nat.le_refl _)⟩

-- Half of a surrogate pair, with a quote behind it.
theorem parseString_fits_half :
    (parseStringLen ((cstr "\\ud83d\"").length + 1) (cstr "\\ud83d\"") 0).1 + 1 ≤ intMax ∧
      (parseStringLoop (fun _ => 0) ((cstr "\\ud83d\"").length + 1) (cstr "\\ud83d\"") []).1.length ≤
        (parseStringLen ((cstr "\\ud83d\"").length + 1) (cstr "\\ud83d\"") 0).1 ∧
      (parseStringLoop (fun _ => 0) ((cstr "\\ud83d\"").length + 1) (cstr "\\ud83d\"") []).2 =
        (parseStringLen ((cstr "\\ud83d\"").length + 1) (cstr "\\ud83d\"") 0).2 := by
  have htext : cstr "\\ud83d\"" = cchar '\\' :: cchar 'u' :: (cstr "d83d" ++ cstr "\"") := by decide
  have hlen : (cstr "d83d").length = 4 := by decide
  have hquote : (cstr "\"").headD 0 = cchar '"' := by decide
  have hcomplete : Complete (cstr "\\ud83d\"") := by
    rw [htext]
    exact .unicode hlen (by decide +kernel) (.stop (.inl hquote))
  exact parseString_fits hcomplete (by decide)

-- A quote within an escape sequence is where the count ends, and the copy goes on behind it.
example : (parseStringLen 20 (cstr "\\u00e\"bcdefgh") 0).1 = 4 ∧
    (parseStringLoop (fun _ => 0) 20 (cstr "\\u00e\"bcdefgh") []).1.length = 8 := by
  decide

-- The text of a string as it is in JSON is such a text.

theorem complete_verbatim {s : Bytes} (hs : ∀ u ∈ s, IsVerbatim u) (h : Complete p) : Complete (s ++ p) := by
  induction s
  case nil         => exact h
  case cons u s hi =>
    obtain ⟨hu, hs⟩ := List.forall_mem_cons.mp hs
    exact .plain hu (hi hs)

theorem complete_hex4 {a b c d : Char} {k : Nat} (hk : hex4? a b c d = some k) (h : Complete p) :
    Complete (cchar '\\' :: cchar 'u' :: cchar a :: cchar b :: cchar c :: cchar d :: p) := by
  have hall : ∀ u : UInt8, (hexDigit? u).isSome → u ≠ 0 ∧ u ≠ cchar '"' ∧ u ≠ cchar '\\' :=
    forall_uint8 (by decide +kernel)
  have hdigit {c : Char} {k : Nat} (hk : Json.hexDigit? c = some k) : IsVerbatim (cchar c) := by
    obtain ⟨-, hsome, -⟩ := hexDigit?_some hk
    exact hall _ (hsome ▸ rfl)
  simp only [hex4?, Option.bind_eq_bind, Option.bind_eq_some_iff] at hk
  obtain ⟨i, hi, j, hj, k, hk, l, hl, -⟩ := hk
  refine (.unicode rfl (fun u hu => ?_) h :
    Complete (cchar '\\' :: cchar 'u' :: ([cchar a, cchar b, cchar c, cchar d] ++ p)))
  simp only [List.mem_cons, List.not_mem_nil, or_false] at hu
  rcases hu with rfl | rfl | rfl | rfl
  · exact hdigit hi
  · exact hdigit hj
  · exact hdigit hk
  · exact hdigit hl

theorem complete_escaped {e : Char} {d : Char} (he : escaped? e = some d) (h : Complete p) :
    Complete (cchar '\\' :: cchar e :: p) := by
  unfold escaped? at he
  split at he <;> cases he <;> exact .escape (by decide) h

theorem complete_spells {t s : List Char} (h : Spells t s) (rest : Bytes) :
    Complete (utf8Bytes t ++ cchar '"' :: rest) := by
  induction h
  case nil => exact .stop (.inl rfl)
  case plain hc _ hi =>
    rw [utf8Bytes_cons, List.append_assoc]
    exact complete_verbatim (fun u hu => isVerbatim_utf8EncodeChar hc hu) hi
  case escape he _ hi =>
    obtain ⟨hlt, -⟩ := parseEscape_escaped (fun _ => 0) he []
    rw [utf8Bytes_ascii (by decide), utf8Bytes_ascii hlt]
    exact complete_escaped he hi
  case unicode hk _ _ hi =>
    rw [utf8Bytes_hex4 hk]
    exact complete_hex4 hk hi
  case surrogates hk hk' _ _ _ hi =>
    rw [utf8Bytes_hex4 hk, utf8Bytes_hex4 hk']
    exact complete_hex4 hk (complete_hex4 hk' hi)
