import TnsParser.CJson.Utf8
import TnsParser.Library.Json

-- The strings of JSON texts, as the parser copies them.

open Json

variable {stale : Bytes → UInt32} {s p rest out : Bytes} {n m : Nat} {c d : Char}

-- The loop takes a byte that it copies, or an escape sequence, in one round.

theorem parseStringLoop_verbatim_cons {u : UInt8} (h : IsVerbatim u) :
    parseStringLoop stale (n + 1) (u :: p) out = parseStringLoop stale n p (out ++ [u]) := by
  simp [parseStringLoop, h.left, h.right.left, h.right.right]

theorem parseStringLoop_escape {piece ptr : Bytes} (h : parseEscape stale p = (piece, ptr)) :
    parseStringLoop stale (n + 1) (cchar '\\' :: p) out =
      parseStringLoop stale n (ptr.drop 1) (out ++ piece) := by
  have hquote : ¬(cchar '\\' = cchar '"' ∨ cchar '\\' = 0) := by decide
  simp [parseStringLoop, hquote, h]

theorem parseStringLoop_verbatim (h : ∀ u ∈ s, IsVerbatim u) :
    parseStringLoop stale (s.length + n) (s ++ p) out = parseStringLoop stale n p (out ++ s) := by
  induction s generalizing out
  case nil => simp
  case cons u s hi =>
    obtain ⟨hu, hs⟩ := List.forall_mem_cons.mp h
    have hn : (u :: s).length + n = s.length + n + 1 := by
      rw [List.length_cons]
      omega
    rw [hn, List.cons_append, parseStringLoop_verbatim_cons hu, hi hs, List.append_assoc]
    rfl

-- Hexadecimal digits.

theorem hexDigit?_lt {k : Nat} (h : Json.hexDigit? c = some k) : c.toNat < 128 := by
  have hle {d : Char} (hc : c ≤ d) (hd : d.toNat < 128) : c.toNat < 128 :=
    Nat.lt_of_le_of_lt (Char.le_def.mp hc) hd
  rw [Json.hexDigit?] at h
  split at h
  case isTrue hd =>
    simp only [Char.isDigit, Bool.and_eq_true, decide_eq_true_eq] at hd
    exact hle (d := '9') hd.right (by decide)
  case isFalse =>
    split at h
    case isTrue hd => exact hle hd.right (by decide)
    case isFalse =>
      split at h
      case isTrue hd => exact hle hd.right (by decide)
      case isFalse => contradiction

theorem hexDigit?_some {k : Nat} (h : Json.hexDigit? c = some k) :
    k < 16 ∧ hexDigit? (cchar c) = some k.toUInt32 ∧ tolower (cchar c) ≠ cchar 'x' ∧
      cchar '0' ≤ cchar c := by
  have hall : ∀ i : Fin 128, ∀ k ∈ Json.hexDigit? (Char.ofNat i), k < 16 ∧
      hexDigit? (cchar (Char.ofNat i)) = some k.toUInt32 ∧
        tolower (cchar (Char.ofNat i)) ≠ cchar 'x' ∧ cchar '0' ≤ cchar (Char.ofNat i) := by
    decide +kernel
  have hc := hall ⟨c.toNat, hexDigit?_lt h⟩ k
  rw [Char.ofNat_toNat] at hc
  exact hc h

-- There is nothing before the digits that `sscanf` skips.
theorem no_prefix : ∀ u : UInt8, cchar '0' ≤ u →
    ¬(u = 32 ∨ 9 ≤ u ∧ u ≤ 13) ∧ u ≠ cchar '-' ∧ u ≠ cchar '+' :=
  forall_uint8 (by decide +kernel)

-- Four digits are read as the number that they are.
theorem sscanf4x_hex4 {a b c d : Char} (h : hex4? a b c d = some n) (p : Bytes) :
    n < 0x10000 ∧ sscanf4x (cchar a :: cchar b :: cchar c :: cchar d :: p) = some n.toUInt32 := by
  simp only [hex4?, Option.bind_eq_bind, Option.bind_eq_some_iff, Option.pure_def, Option.some.injEq] at h
  obtain ⟨i, hi, j, hj, k, hk, l, hl, rfl⟩ := h
  obtain ⟨hi, ha, -, hla⟩ := hexDigit?_some hi
  obtain ⟨hj, hb, hxb, -⟩ := hexDigit?_some hj
  obtain ⟨hk, hc, -, -⟩ := hexDigit?_some hk
  obtain ⟨hl, hd, -, -⟩ := hexDigit?_some hl
  refine ⟨by omega, ?_⟩
  obtain ⟨hspace, hminus, hplus⟩ := no_prefix (cchar a) hla
  simp [sscanf4x, hspace, hminus, hplus, hxb, ha, hb, hc, hd]

-- The number of an escape sequence with digits is that of a character, or one half of one. The text is
-- left at the last digit.

theorem ofNat_val (h : n.isValidChar) : (Char.ofNat n).val.toNat = n := by
  rw [Char.ofNat, dif_pos h]
  rfl

theorem not_surrogate (c : Char) :
    ¬(0xdc00 ≤ c.val ∧ c.val ≤ 0xdfff) ∧ ¬(0xd800 ≤ c.val ∧ c.val ≤ 0xdbff) := by
  have h := c.valid
  simp only [UInt32.isValidChar, Nat.isValidChar, UInt32.le_iff_toNat_le, UInt32.reduceToNat] at h ⊢
  omega

theorem parseUtf16_char (h : sscanf4x (p.drop 1) = some c.val) :
    parseUtf16 stale p = (utf8Bytes ([c].filter (· ≠ '\x00')), p.drop 4) := by
  obtain ⟨hlow, hhigh⟩ := not_surrogate c
  rw [parseUtf16, h, Option.getD_some]
  by_cases hz : c = '\x00'
  case pos =>
    subst hz
    rfl
  case neg =>
    have hz' : c.val ≠ 0 := fun h => hz <| Char.ext h
    simp only
    rw [if_neg (not_or.mpr ⟨hlow, hz'⟩), if_neg hhigh, utf8_eq]
    simp [utf8Bytes, hz]

-- The halves of a pair are put together as in UTF-16.
theorem pair_toNat {hi lo : UInt32} (hhi : 0xd800 ≤ hi.toNat ∧ hi.toNat ≤ 0xdbff)
    (hlo : 0xdc00 ≤ lo.toNat ∧ lo.toNat ≤ 0xdfff) :
    ((0x10000 : UInt32) + ((hi &&& 0x3ff) <<< 10 ||| lo &&& 0x3ff)).toNat =
      0x10000 + (hi.toNat - 0xd800) * 0x400 + (lo.toNat - 0xdc00) := by
  have hor : ((hi &&& 0x3ff) <<< 10 ||| lo &&& 0x3ff).toNat = hi.toNat % 1024 * 1024 + lo.toNat % 1024 := by
    have hand (v : UInt32) : (v &&& 0x3ff).toNat = v.toNat % 1024 := by
      rw [UInt32.toNat_and]
      exact Nat.and_two_pow_sub_one_eq_mod v.toNat 10
    have hshift : ((hi &&& 0x3ff) <<< 10).toNat = (hi.toNat % 1024) <<< 10 := by
      rw [UInt32.toNat_shiftLeft, hand, Nat.shiftLeft_eq, Nat.shiftLeft_eq]
      exact Nat.mod_eq_of_lt (by simp; omega)
    rw [UInt32.toNat_or, hshift, hand, ← Nat.shiftLeft_add_eq_or_of_lt (by omega), Nat.shiftLeft_eq]
  rw [UInt32.toNat_add, hor]
  simp only [UInt32.reduceToNat]
  omega

theorem parseUtf16_pair {ptr : Bytes} {hi lo : UInt32} (hscan : sscanf4x (ptr.drop 1) = some hi)
    (hhi : 0xd800 ≤ hi.toNat ∧ hi.toNat ≤ 0xdbff) (h1 : ptr.getD 5 0 = cchar '\\')
    (h2 : ptr.getD 6 0 = cchar 'u') (hscan' : sscanf4x (ptr.drop 7) = some lo)
    (hlo : 0xdc00 ≤ lo.toNat ∧ lo.toNat ≤ 0xdfff) :
    parseUtf16 stale ptr =
      (String.utf8EncodeChar (Char.ofNat (0x10000 + (hi.toNat - 0xd800) * 0x400 + (lo.toNat - 0xdc00))),
        ptr.drop 10) := by
  have hsum := pair_toNat hhi hlo
  have hvalid : (0x10000 + (hi.toNat - 0xd800) * 0x400 + (lo.toNat - 0xdc00)).isValidChar :=
    .inr ⟨by omega, by omega⟩
  have hval : (0x10000 : UInt32) + ((hi &&& 0x3ff) <<< 10 ||| lo &&& 0x3ff) =
      (Char.ofNat (0x10000 + (hi.toNat - 0xd800) * 0x400 + (lo.toNat - 0xdc00))).val := by
    exact UInt32.toNat_inj.mp <| hsum.trans (ofNat_val hvalid).symm
  have hfirst : ¬(0xdc00 ≤ hi ∧ hi ≤ 0xdfff ∨ hi = 0) := by
    simp only [UInt32.le_iff_toNat_le, UInt32.reduceToNat, ← UInt32.toNat_inj]
    omega
  have hpair : 0xd800 ≤ hi ∧ hi ≤ 0xdbff := hhi
  have hbehind : ¬((ptr.drop 4).getD 1 0 ≠ cchar '\\' ∨ (ptr.drop 4).getD 2 0 ≠ cchar 'u') := by
    simpa using ⟨h1, h2⟩
  have hsecond : ¬(lo < 0xdc00 ∨ lo > 0xdfff) := by
    simp only [UInt32.lt_iff_toNat_lt, GT.gt, UInt32.reduceToNat]
    omega
  simp only [parseUtf16, hscan, Option.getD_some, if_neg hfirst, if_pos hpair, if_neg hbehind, List.drop_drop,
    hscan', if_neg hsecond, hval, utf8_eq]

theorem parseEscape_u (p : Bytes) : parseEscape stale (cchar 'u' :: p) = parseUtf16 stale (cchar 'u' :: p) := by
  simp [parseEscape, cchar]

theorem utf8EncodeChar_ascii (h : c.toNat < 128) : String.utf8EncodeChar c = [cchar c] := by
  have hv : c.val.toNat ≤ 0x7f := Nat.le_of_lt_succ h
  rw [String.utf8EncodeChar, if_pos hv]
  rfl

theorem utf8Bytes_ascii {t : List Char} (h : c.toNat < 128) : utf8Bytes (c :: t) = cchar c :: utf8Bytes t := by
  rw [utf8Bytes_cons, utf8EncodeChar_ascii h, List.singleton_append]

theorem parseEscape_escaped (stale : Bytes → UInt32) {e : Char} (h : escaped? e = some c) (p : Bytes) :
    e.toNat < 128 ∧ c ≠ '\x00' ∧
      parseEscape stale (cchar e :: p) = (String.utf8EncodeChar c, cchar e :: p) := by
  unfold escaped? at h
  split at h <;> cases h <;> exact ⟨by decide, by decide, by simp [parseEscape, cchar, String.utf8EncodeChar]⟩

theorem utf8Bytes_hex4 {a b c d : Char} (h : hex4? a b c d = some n) (t : List Char) :
    utf8Bytes ('\\' :: 'u' :: a :: b :: c :: d :: t) = cchar '\\' :: cchar 'u' :: cchar a :: cchar b ::
      cchar c :: cchar d :: utf8Bytes t := by
  simp only [hex4?, Option.bind_eq_bind, Option.bind_eq_some_iff] at h
  obtain ⟨i, hi, j, hj, k, hk, l, hl, -⟩ := h
  simp only [utf8Bytes_cons, utf8EncodeChar_ascii (hexDigit?_lt hi), utf8EncodeChar_ascii (hexDigit?_lt hj),
    utf8EncodeChar_ascii (hexDigit?_lt hk), utf8EncodeChar_ascii (hexDigit?_lt hl)]
  rfl

-- The escape sequences with digits, one character each.

theorem parseStringLoop_unicode {a b c d : Char} {k : Nat} (hk : hex4? a b c d = some k) (hv : k.isValidChar) :
    parseStringLoop stale (n + 1)
        (cchar '\\' :: cchar 'u' :: cchar a :: cchar b :: cchar c :: cchar d :: p) out =
      parseStringLoop stale n p (out ++ utf8Bytes ([Char.ofNat k].filter (· ≠ '\x00'))) := by
  obtain ⟨hlt, hscan⟩ := sscanf4x_hex4 hk p
  have hval : (Char.ofNat k).val = k.toUInt32 :=
    UInt32.toNat_inj.mp <| ofNat_val hv |>.trans <|
      (UInt32.toNat_ofNat_of_lt <| Nat.lt_trans hlt (by decide)).symm
  have hescape : parseEscape stale (cchar 'u' :: cchar a :: cchar b :: cchar c :: cchar d :: p) = _ :=
    parseEscape_u _ |>.trans <| parseUtf16_char (hval ▸ hscan)
  rw [parseStringLoop_escape hescape]
  simp only [List.drop_succ_cons, List.drop_zero]

theorem parseStringLoop_surrogates {a b c d a' b' c' d' : Char} {k k' : Nat} (hk : hex4? a b c d = some k)
    (hk' : hex4? a' b' c' d' = some k') (hv : 0xd800 ≤ k ∧ k ≤ 0xdbff) (hv' : 0xdc00 ≤ k' ∧ k' ≤ 0xdfff) :
    parseStringLoop stale (n + 1)
        (cchar '\\' :: cchar 'u' :: cchar a :: cchar b :: cchar c :: cchar d :: cchar '\\' :: cchar 'u' ::
          cchar a' :: cchar b' :: cchar c' :: cchar d' :: p) out =
      parseStringLoop stale n p
        (out ++ String.utf8EncodeChar (Char.ofNat (0x10000 + (k - 0xd800) * 0x400 + (k' - 0xdc00)))) := by
  obtain ⟨hlt, hscan⟩ := sscanf4x_hex4 hk (cchar '\\' :: cchar 'u' :: cchar a' :: cchar b' :: cchar c' :: cchar d' :: p)
  obtain ⟨hlt', hscan'⟩ := sscanf4x_hex4 hk' p
  have hnat {j : Nat} (h : j < 0x10000) : j.toUInt32.toNat = j :=
    UInt32.toNat_ofNat_of_lt <| Nat.lt_trans h (by decide)
  have hescape : parseEscape stale (cchar 'u' :: cchar a :: cchar b :: cchar c :: cchar d :: cchar '\\' ::
      cchar 'u' :: cchar a' :: cchar b' :: cchar c' :: cchar d' :: p) = _ :=
    parseEscape_u _ |>.trans <| parseUtf16_pair hscan (by rwa [hnat hlt]) rfl rfl hscan' (by rwa [hnat hlt'])
  rw [hnat hlt, hnat hlt'] at hescape
  rw [parseStringLoop_escape hescape]
  simp only [List.drop_succ_cons, List.drop_zero]

-- The text of a string is copied up to the quote behind it, but for null characters.
theorem parseStringLoop_spells {t s : List Char} (h : Spells t s) (hn : (utf8Bytes t).length ≤ n) :
    parseStringLoop stale n (utf8Bytes t ++ cchar '"' :: rest) out =
      (out ++ utf8Bytes (s.filter (· ≠ '\x00')), cchar '"' :: rest) := by
  induction h generalizing n out
  case nil =>
    cases n <;> simp [parseStringLoop, utf8Bytes]
  case plain c t s hc _ hi =>
    have hnul : c ≠ '\x00' := by
      rintro rfl
      exact absurd hc.left (by decide)
    rw [utf8Bytes_cons, List.length_append] at hn
    obtain ⟨m, rfl⟩ := Nat.exists_eq_add_of_le (Nat.le_trans (Nat.le_add_right ..) hn)
    rw [utf8Bytes_cons, List.append_assoc, parseStringLoop_verbatim fun u hu => isVerbatim_utf8EncodeChar hc hu,
      hi (by omega), List.filter_cons_of_pos (by simpa using hnul), utf8Bytes_cons, List.append_assoc]
  case escape e c t s he _ hi =>
    obtain ⟨hlt, hnul, hescape⟩ := parseEscape_escaped stale he (utf8Bytes t ++ cchar '"' :: rest)
    have htext : utf8Bytes ('\\' :: e :: t) = cchar '\\' :: cchar e :: utf8Bytes t := by
      rw [utf8Bytes_cons, utf8Bytes_cons, utf8EncodeChar_ascii hlt]
      rfl
    rw [htext] at hn ⊢
    obtain ⟨m, rfl⟩ : ∃ m, n = m + 1 := Nat.exists_eq_add_one.mpr (by simp at hn; omega)
    rw [List.cons_append, List.cons_append, parseStringLoop_escape hescape, List.drop_succ_cons, List.drop_zero,
      hi (by simp at hn; omega), List.filter_cons_of_pos (by simpa using hnul), utf8Bytes_cons, List.append_assoc]
  case unicode a b c d k t s hk hv _ hi =>
    rw [utf8Bytes_hex4 hk] at hn ⊢
    obtain ⟨m, rfl⟩ : ∃ m, n = m + 1 := Nat.exists_eq_add_one.mpr (by simp at hn; omega)
    simp only [List.cons_append]
    rw [parseStringLoop_unicode hk hv, hi (by simp at hn; omega), List.append_assoc, ← utf8Bytes_append,
      ← List.filter_append]
    rfl
  case surrogates a b c d a' b' c' d' k k' t s hk hk' hv hv' _ hi =>
    rw [utf8Bytes_hex4 hk, utf8Bytes_hex4 hk'] at hn ⊢
    obtain ⟨m, rfl⟩ : ∃ m, n = m + 1 := Nat.exists_eq_add_one.mpr (by simp at hn; omega)
    have hnul : Char.ofNat (0x10000 + (k - 0xd800) * 0x400 + (k' - 0xdc00)) ≠ '\x00' := by
      intro h
      have hval := ofNat_val (n := 0x10000 + (k - 0xd800) * 0x400 + (k' - 0xdc00)) (.inr ⟨by omega, by omega⟩)
      rw [h] at hval
      exact absurd hval (by simp; omega)
    simp only [List.cons_append]
    rw [parseStringLoop_surrogates hk hk' hv hv', hi (by simp at hn; omega),
      List.filter_cons_of_pos (by simpa using hnul), utf8Bytes_cons, List.append_assoc]
