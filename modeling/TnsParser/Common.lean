import TnsParser.Library.Fallible
import Mathlib.Data.List.Basic

-- The memory behind a pointer, up to the end of the buffer that it points into. `p + n` is `p.drop n`.
abbrev Bytes := List UInt8

-- A 16-bit and a 32-bit word of a little-endian machine.
def ushortOf (lo hi : UInt8) : UInt16 :=
  lo.toUInt16 ||| hi.toUInt16 <<< 8

def uintOf (lo hi : UInt16) : UInt32 :=
  lo.toUInt32 ||| hi.toUInt32 <<< 16

namespace Bytes

-- `*(ushort*)(p + i)`
def ushort? (p : Bytes) (i : Nat) : Option UInt16 :=
  p[i]?.bind fun lo => p[i + 1]?.map (ushortOf lo)

variable {p t : Bytes} {i : Nat}

theorem ushort?_eq_none_iff : p.ushort? i = none ↔ p.length ≤ i + 1 := by
  by_cases h : i + 1 < p.length
  case pos => simp [ushort?, h, Nat.lt_of_succ_lt h]
  case neg => simp [ushort?, Nat.le_of_not_lt h]

theorem ushort?_append (h : i + 1 < p.length) : (p ++ t : Bytes).ushort? i = p.ushort? i := by
  simp only [ushort?, List.getElem?_append_left h, List.getElem?_append_left (Nat.lt_of_succ_lt h)]

end Bytes

def cchar (c : Char) : UInt8 :=
  c.toNat.toUInt8

-- The bytes of a string literal, without the terminator.
def cstr (s : String) : Bytes :=
  s.toList.map cchar

def ntohs (v : UInt16) : UInt16 :=
  v <<< 8 ||| v >>> 8

-- The bytes of a 16-bit field in network order, and of a 32-bit word as it lies in the memory.

def Bytes.ofShort (v : UInt16) : Bytes :=
  [(v >>> 8).toUInt8, v.toUInt8]

def Bytes.ofUint (v : UInt32) : Bytes :=
  [v.toUInt8, (v >>> 8).toUInt8, (v >>> 16).toUInt8, (v >>> 24).toUInt8]

theorem ushortOf_toNat (lo hi : UInt8) : (ushortOf lo hi).toNat = lo.toNat + hi.toNat * 256 := by
  have hlo := lo.toNat_lt
  have hhi := hi.toNat_lt
  have hmod : hi.toNat <<< 8 % 2 ^ 16 = hi.toNat <<< 8 := by
    rw [Nat.shiftLeft_eq]
    omega
  calc (ushortOf lo hi).toNat
    _ = lo.toNat ||| hi.toNat <<< 8 % 2 ^ 16 := by simp [ushortOf]
    _ = hi.toNat <<< 8 + lo.toNat            := by
      rw [hmod, Nat.or_comm, Nat.shiftLeft_add_eq_or_of_lt hlo]
    _ = lo.toNat + hi.toNat * 256            := by rw [Nat.shiftLeft_eq, Nat.add_comm]

theorem uintOf_toNat (lo hi : UInt16) : (uintOf lo hi).toNat = lo.toNat + hi.toNat * 65536 := by
  have hlo := lo.toNat_lt
  have hhi := hi.toNat_lt
  have hmod : hi.toNat <<< 16 % 2 ^ 32 = hi.toNat <<< 16 := by
    rw [Nat.shiftLeft_eq]
    omega
  calc (uintOf lo hi).toNat
    _ = lo.toNat ||| hi.toNat <<< 16 % 2 ^ 32 := by simp [uintOf]
    _ = hi.toNat <<< 16 + lo.toNat            := by
      rw [hmod, Nat.or_comm, Nat.shiftLeft_add_eq_or_of_lt hlo]
    _ = lo.toNat + hi.toNat * 65536           := by rw [Nat.shiftLeft_eq, Nat.add_comm]

theorem ntohs_toNat (v : UInt16) : (ntohs v).toNat = v.toNat % 256 * 256 + v.toNat / 256 := by
  have hv := v.toNat_lt
  have hlt : v.toNat / 256 < 2 ^ 8 := by omega
  have hmod : v.toNat <<< 8 % 2 ^ 16 = (v.toNat % 256) <<< 8 := by
    simp only [Nat.shiftLeft_eq]
    omega
  calc (ntohs v).toNat
    _ = v.toNat <<< 8 % 2 ^ 16 ||| v.toNat / 256 := by simp [ntohs, Nat.shiftRight_eq_div_pow]
    _ = (v.toNat % 256) <<< 8 + v.toNat / 256    := by rw [hmod, Nat.shiftLeft_add_eq_or_of_lt hlt]
    _ = v.toNat % 256 * 256 + v.toNat / 256      := by rw [Nat.shiftLeft_eq]

@[simp]
theorem ntohs_ntohs (v : UInt16) : ntohs (ntohs v) = v := by
  have hv := v.toNat_lt
  refine UInt16.toNat_inj.mp ?_
  rw [ntohs_toNat, ntohs_toNat]
  omega

-- A field is read as it was written.

theorem ntohs_ofShort (v : UInt16) : ntohs (ushortOf (v >>> 8).toUInt8 v.toUInt8) = v := by
  have hv := v.toNat_lt
  refine UInt16.toNat_inj.mp ?_
  rw [ntohs_toNat, ushortOf_toNat]
  simp [Nat.shiftRight_eq_div_pow]
  omega

theorem uintOf_ofUint (v : UInt32) :
    uintOf (ushortOf v.toUInt8 (v >>> 8).toUInt8)
      (ushortOf (v >>> 16).toUInt8 (v >>> 24).toUInt8) = v := by
  have hv := v.toNat_lt
  refine UInt32.toNat_inj.mp ?_
  rw [uintOf_toNat, ushortOf_toNat, ushortOf_toNat]
  simp [Nat.shiftRight_eq_div_pow]
  omega

namespace Bytes

-- The bytes `b` lie at `p + n`.
def LiesAt (p : Bytes) (n : Nat) (b : Bytes) : Prop :=
  b <+: p.drop n

instance {p b : Bytes} {n : Nat} : Decidable (p.LiesAt n b) :=
  inferInstanceAs <| Decidable (b <+: p.drop n)

namespace LiesAt

variable {p b b' : Bytes} {n m i : Nat} {c : UInt8} {v : UInt16}

theorem getElem? (h : p.LiesAt n b) (hi : b[i]? = some c) : p[n + i]? = some c := by
  have ⟨t, ht⟩ := h
  have hlt := (List.getElem?_eq_some_iff.mp hi).choose
  rw [← List.getElem?_drop, ← ht, List.getElem?_append_left hlt, hi]

theorem trans (h : p.LiesAt n b) (h' : b.LiesAt m b') : p.LiesAt (n + m) b' := by
  have ⟨t, ht⟩ := h
  rw [LiesAt, ← List.drop_drop, ← ht, List.drop_append]
  exact List.IsPrefix.trans h' (List.prefix_append ..)

theorem ushort? (h : p.LiesAt n (ofShort v)) : (p.ushort? n).map ntohs = some v := by
  have h0 : p[n]? = _ := h.getElem? (i := 0) rfl
  have h1 := h.getElem? (i := 1) rfl
  simp [Bytes.ushort?, h0, h1, ntohs_ofShort]

end LiesAt
end Bytes

inductive Direction
  | request
  | response
  deriving DecidableEq

structure SessKey where
  sip   : UInt32
  dip   : UInt32
  sport : UInt16
  dport : UInt16
  deriving DecidableEq

-- The code that makes a memory access.
inductive Site
  | protocolParse
  | handler
  | connectData
  | pastConnectData
  | dataHandler
  | sessArray
  deriving DecidableEq

-- What ends a run of the program: an access outside of a buffer or an array, or through a null pointer.
inductive Fault
  | outOfBounds (site : Site)
  | nullPointer
  deriving DecidableEq

theorem Fault.outOfBounds_ne_nullPointer (site : Site) : outOfBounds site ≠ nullPointer :=
  nofun

-- A read at `site`, which is a fault when it is not inside the memory.
def reading {α : Type} (site : Site) : Option α → Except Fault α
  | some a => .ok a
  | none   => .error <| .outOfBounds site

-- An argument of `printf`.
inductive Arg
  | num (n : Int)
  | str (s : String)
  | text (t : Bytes)
  deriving DecidableEq

structure Printf where
  fmt  : String
  args : List Arg
  deriving DecidableEq

namespace Except

variable {α β : Type} {site : Site} {f : α → Except Fault β} {o : Option α} {e : Fault}
  {bad : Fault → Prop}

theorem reading_eq_ok {a : α} : reading site o = .ok a ↔ o = some a := by
  cases o <;> simp [reading]

theorem reading_eq_error : reading site o = .error e ↔ o = none ∧ e = .outOfBounds site := by
  cases o <;> simp [reading, eq_comm]

theorem avoids_reading : Avoids bad (reading site o) ↔ (bad (.outOfBounds site) → o ≠ none) := by
  simp only [Avoids, ne_eq, reading_eq_error]
  grind

-- A computation that reads something first, which is never a bad fault.
theorem avoids_reading_bind (h : ¬bad (.outOfBounds site)) (hf : ∀ a, Avoids bad (f a)) :
    Avoids bad (reading site o >>= f) := by
  simp [avoids_bind, avoids_reading, h, hf]

end Except
