import TnsParser.CJson.Parse
import Mathlib.Algebra.GroupWithZero.Nat

-- What the parser makes of the escape sequences of characters, as UTF-8.

-- The text of characters as it lies in the memory.
def utf8Bytes (s : List Char) : Bytes :=
  s.flatMap String.utf8EncodeChar

variable {s t : List Char} {c : Char} {v : UInt32} {u : UInt8}

theorem utf8Bytes_append : utf8Bytes (s ++ t) = utf8Bytes s ++ utf8Bytes t :=
  List.flatMap_append

theorem utf8Bytes_cons : utf8Bytes (c :: s) = String.utf8EncodeChar c ++ utf8Bytes s :=
  List.flatMap_cons

-- What holds of all bytes that are written as numbers holds of all bytes.
theorem forall_uint8 {p : UInt8 → Prop} (h : ∀ n : Fin 256, p (UInt8.ofNat n)) (u : UInt8) : p u := by
  have hu := h ⟨u.toNat, u.toNat_lt⟩
  rwa [UInt8.ofNat_toNat] at hu

-- The bytes behind the first one of a character have two bits at the top, which the parser sets and clears.
theorem more_eq : ∀ u : UInt8, (u ||| 0x80) &&& 0xbf = u &&& 0x3f ||| 0x80 :=
  forall_uint8 (by decide +kernel)

-- The bits at the top of the first byte are not cleared before they are set.

theorem and_two : ∀ u : UInt8, u < 0x20 → u &&& 0x1f = u :=
  forall_uint8 (by decide +kernel)

theorem and_three : ∀ u : UInt8, u < 0x10 → u &&& 0x0f = u :=
  forall_uint8 (by decide +kernel)

theorem and_four : ∀ u : UInt8, u < 0x08 → u &&& 0x07 = u :=
  forall_uint8 (by decide +kernel)

theorem toUInt8_lt {k : Nat} (h : v.toNat < k) (hk : k < 256) : v.toUInt8 < UInt8.ofNat k := by
  rw [UInt8.lt_iff_toNat_lt, UInt32.toNat_toUInt8, UInt8.toNat_ofNat']
  omega

theorem more_toUInt8 : ((v ||| 0x80) &&& 0xbf).toUInt8 = v.toUInt8 &&& 0x3f ||| 0x80 := by
  rw [UInt32.toUInt8_and, UInt32.toUInt8_or]
  exact more_eq v.toUInt8

-- What the parser writes for a character is the UTF-8 encoding of the character.
theorem utf8_eq (c : Char) : utf8 c.val = String.utf8EncodeChar c := by
  have hval : c.val.toNat < 0x110000 := by
    have h := c.valid
    simp only [UInt32.isValidChar, Nat.isValidChar] at h
    omega
  have hshift (n : UInt32) (k : Nat) (hn : n.toNat % 32 = k) : (c.val >>> n).toNat = c.val.toNat / 2 ^ k := by
    rw [UInt32.toNat_shiftRight, hn, Nat.shiftRight_eq_div_pow]
  rw [String.utf8EncodeChar_eq_utf8EncodeCharFast]
  simp only [utf8, String.utf8EncodeCharFast, more_toUInt8, UInt32.toUInt8_or, UInt32.lt_iff_toNat_lt,
    UInt32.le_iff_toNat_le, UInt32.reduceToNat]
  by_cases h1 : c.val.toNat < 128
  case pos => rw [if_pos h1, if_pos (Nat.le_of_lt_succ h1)]
  case neg =>
    rw [if_neg h1, if_neg (by omega : ¬c.val.toNat ≤ 127)]
    by_cases h2 : c.val.toNat < 2048
    case pos =>
      have hfirst : (c.val >>> 6).toUInt8 < 0x20 :=
        toUInt8_lt (k := 32) (by rw [hshift 6 6 rfl]; omega) (by decide)
      rw [if_pos h2, if_pos (Nat.le_of_lt_succ h2), and_two _ hfirst]
      rfl
    case neg =>
      rw [if_neg h2, if_neg (by omega : ¬c.val.toNat ≤ 2047)]
      by_cases h3 : c.val.toNat < 65536
      case pos =>
        have hfirst : (c.val >>> 12).toUInt8 < 0x10 :=
          toUInt8_lt (k := 16) (by rw [hshift 12 12 rfl]; omega) (by decide)
        rw [if_pos h3, if_pos (Nat.le_of_lt_succ h3), and_three _ hfirst]
        rfl
      case neg =>
        have hfirst : (c.val >>> 18).toUInt8 < 0x08 :=
          toUInt8_lt (k := 8) (by rw [hshift 18 18 rfl]; omega) (by decide)
        rw [if_neg h3, if_neg (by omega : ¬c.val.toNat ≤ 65535), and_four _ hfirst]
        rfl

theorem le_ofNat {n : Nat} (h : 0x80 ≤ n) (h' : n < 256) : 0x80 ≤ UInt8.ofNat n := by
  rw [UInt8.le_iff_toNat_le, UInt8.toNat_ofNat', Nat.mod_eq_of_lt h']
  exact h

-- A byte of an encoding is the character itself, or has the top bit set.
theorem mem_utf8EncodeChar (h : u ∈ String.utf8EncodeChar c) : c.toNat < 0x80 ∧ u = cchar c ∨ 0x80 ≤ u := by
  revert h
  fun_cases String.utf8EncodeChar c
  case case1 hv => exact fun h => .inl ⟨Nat.lt_succ_of_le hv, List.mem_singleton.mp h⟩
  all_goals
    intro h
    simp only [List.mem_cons, List.not_mem_nil, or_false] at h
    refine .inr ?_
  case case2 =>
    rcases h with rfl | rfl
    · exact le_ofNat (by omega) (by omega)
    · exact le_ofNat (by omega) (by omega)
  case case3 =>
    rcases h with rfl | rfl | rfl
    · exact le_ofNat (by omega) (by omega)
    · exact le_ofNat (by omega) (by omega)
    · exact le_ofNat (by omega) (by omega)
  case case4 =>
    rcases h with rfl | rfl | rfl | rfl
    · exact le_ofNat (by omega) (by omega)
    · exact le_ofNat (by omega) (by omega)
    · exact le_ofNat (by omega) (by omega)
    · exact le_ofNat (by omega) (by omega)

-- A byte that the parser copies.
def IsVerbatim (u : UInt8) : Prop :=
  u ≠ 0 ∧ u ≠ cchar '"' ∧ u ≠ cchar '\\'

instance : Decidable (IsVerbatim u) :=
  inferInstanceAs <| Decidable (u ≠ 0 ∧ u ≠ cchar '"' ∧ u ≠ cchar '\\')

theorem cchar_inj {c d : Char} (hc : c.toNat < 0x80) (hd : d.toNat < 0x80) (h : cchar c = cchar d) : c = d := by
  have hn := congrArg UInt8.toNat h
  simp only [cchar, Nat.toUInt8, UInt8.toNat_ofNat'] at hn
  exact Char.toNat_inj.mp (by omega)

theorem isVerbatim_utf8EncodeChar (hc : ' ' ≤ c ∧ c ≠ '"' ∧ c ≠ '\\') (h : u ∈ String.utf8EncodeChar c) :
    IsVerbatim u := by
  rcases mem_utf8EncodeChar h with ⟨hlt, rfl⟩ | hle
  · have hnul : c ≠ '\x00' := by
      rintro rfl
      exact absurd hc.left (by decide)
    exact ⟨fun h => hnul <| cchar_inj hlt (by decide) h, fun h => hc.right.left <| cchar_inj hlt (by decide) h,
      fun h => hc.right.right <| cchar_inj hlt (by decide) h⟩
  · refine ⟨?_, ?_, ?_⟩ <;> rintro rfl <;> exact absurd hle (by decide)
