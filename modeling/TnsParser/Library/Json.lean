import Mathlib.Data.List.Basic

-- The texts that denote a JSON value.

inductive Json
  | null
  | bool (b : Bool)
  | number (text : List Char)
  | string (s : List Char)
  | array (items : List Json)
  | object (members : List (List Char × Json))

namespace Json

def IsWhitespace (w : List Char) : Prop :=
  ∀ c ∈ w, c ∈ [' ', '\t', '\n', '\r']

-- `-`, an integer without zeros in front, a fraction and an exponent, of which all but the integer may be
-- missing.
def IsNumber (text : List Char) : Prop :=
  ∃ minus int frac exp, text = minus ++ int ++ frac ++ exp ∧
    (minus = [] ∨ minus = ['-']) ∧
    (int = ['0'] ∨ ∃ d ds, int = d :: ds ∧ d ≠ '0' ∧ d.isDigit ∧ ∀ c ∈ ds, c.isDigit) ∧
    (frac = [] ∨ ∃ ds, frac = '.' :: ds ∧ ds ≠ [] ∧ ∀ c ∈ ds, c.isDigit) ∧
    (exp = [] ∨ ∃ e sign ds, exp = e :: (sign ++ ds) ∧ (e = 'e' ∨ e = 'E') ∧
      (sign = [] ∨ sign = ['+'] ∨ sign = ['-']) ∧ ds ≠ [] ∧ ∀ c ∈ ds, c.isDigit)

-- The character that stands for another one behind a backslash.
def escaped? : Char → Option Char
  | '"'  => some '"'
  | '\\' => some '\\'
  | '/'  => some '/'
  | 'b'  => some '\x08'
  | 'f'  => some '\x0c'
  | 'n'  => some '\n'
  | 'r'  => some '\r'
  | 't'  => some '\t'
  | _    => none

def hexDigit? (c : Char) : Option Nat :=
  if c.isDigit then some (c.toNat - '0'.toNat)
  else if 'a' ≤ c ∧ c ≤ 'f' then some (c.toNat - 'a'.toNat + 10)
  else if 'A' ≤ c ∧ c ≤ 'F' then some (c.toNat - 'A'.toNat + 10)
  else none

def hex4? (a b c d : Char) : Option Nat := do
  return (((← hexDigit? a) * 16 + (← hexDigit? b)) * 16 + (← hexDigit? c)) * 16 + (← hexDigit? d)

-- The text between the quotes, and the string that it denotes. Half of a surrogate pair denotes nothing.
inductive Spells : List Char → List Char → Prop
  | nil : Spells [] []
  | plain {c : Char} {t s : List Char} (hc : ' ' ≤ c ∧ c ≠ '"' ∧ c ≠ '\\') (h : Spells t s) :
      Spells (c :: t) (c :: s)
  | escape {e c : Char} {t s : List Char} (he : escaped? e = some c) (h : Spells t s) :
      Spells ('\\' :: e :: t) (c :: s)
  | unicode {a b c d : Char} {n : Nat} {t s : List Char} (hn : hex4? a b c d = some n)
      (hv : n.isValidChar) (h : Spells t s) :
      Spells ('\\' :: 'u' :: a :: b :: c :: d :: t) (Char.ofNat n :: s)
  | surrogates {a b c d a' b' c' d' : Char} {n n' : Nat} {t s : List Char}
      (hn : hex4? a b c d = some n) (hn' : hex4? a' b' c' d' = some n')
      (hv : 0xd800 ≤ n ∧ n ≤ 0xdbff) (hv' : 0xdc00 ≤ n' ∧ n' ≤ 0xdfff) (h : Spells t s) :
      Spells ('\\' :: 'u' :: a :: b :: c :: d :: '\\' :: 'u' :: a' :: b' :: c' :: d' :: t)
        (Char.ofNat (0x10000 + (n - 0xd800) * 0x400 + (n' - 0xdc00)) :: s)

-- A value, the items of an array, or the members of an object.
inductive Part
  | value (v : Json)
  | items (vs : List Json)
  | members (ms : List (List Char × Json))

-- The texts of a value without white space around it, and those of items and members with it.
inductive Denotes : List Char → Part → Prop
  | null : Denotes "null".toList (.value .null)
  | true : Denotes "true".toList (.value (.bool true))
  | false : Denotes "false".toList (.value (.bool false))
  | number {t : List Char} (h : IsNumber t) : Denotes t (.value (.number t))
  | string {t s : List Char} (h : Spells t s) : Denotes ('"' :: (t ++ ['"'])) (.value (.string s))
  | emptyArray {w : List Char} (hw : IsWhitespace w) : Denotes ('[' :: (w ++ [']'])) (.value (.array []))
  | array {t : List Char} {vs : List Json} (h : Denotes t (.items vs)) :
      Denotes ('[' :: (t ++ [']'])) (.value (.array vs))
  | emptyObject {w : List Char} (hw : IsWhitespace w) :
      Denotes ('\x7b' :: (w ++ ['\x7d'])) (.value (.object []))
  | object {t : List Char} {ms : List (List Char × Json)} (h : Denotes t (.members ms)) :
      Denotes ('\x7b' :: (t ++ ['\x7d'])) (.value (.object ms))
  | item {t w w' : List Char} {v : Json} (hw : IsWhitespace w) (h : Denotes t (.value v))
      (hw' : IsWhitespace w') : Denotes (w ++ t ++ w') (.items [v])
  | items {t t' : List Char} {v : Json} {vs : List Json} (h : Denotes t (.items [v]))
      (h' : Denotes t' (.items vs)) : Denotes (t ++ ',' :: t') (.items (v :: vs))
  | member {w n w' t : List Char} {name : List Char} {v : Json} (hw : IsWhitespace w) (hn : Spells n name)
      (hw' : IsWhitespace w') (h : Denotes t (.items [v])) :
      Denotes (w ++ '"' :: (n ++ '"' :: (w' ++ ':' :: t))) (.members [(name, v)])
  | members {t t' : List Char} {m : List Char × Json} {ms : List (List Char × Json)}
      (h : Denotes t (.members [m])) (h' : Denotes t' (.members ms)) :
      Denotes (t ++ ',' :: t') (.members (m :: ms))

-- A JSON text, and the value that it denotes.
def IsText (text : List Char) (v : Json) : Prop :=
  Denotes text (.items [v])

-- How long a text of a string or a value is at least.

def charWidth (c : Char) : Nat :=
  if c = '"' ∨ c = '\\' then 2 else 1

def stringWidth : List Char → Nat
  | []     => 0
  | c :: s => charWidth c + stringWidth s

mutual

def width : Json → Nat
  | null       => 4
  | bool b     => if b then 4 else 5
  | number t   => t.length
  | string s   => stringWidth s + 2
  | array vs   => itemsWidth vs + 1
  | object ms  => membersWidth ms + 1

def itemsWidth : List Json → Nat
  | []      => 0
  | v :: vs => width v + 1 + itemsWidth vs

def membersWidth : List (List Char × Json) → Nat
  | []              => 0
  | (name, v) :: ms => stringWidth name + 3 + width v + 1 + membersWidth ms

end

-- Without white space.

theorem isWhitespace_nil : IsWhitespace [] :=
  nofun

theorem Denotes.item_tight {t : List Char} {v : Json} (h : Denotes t (.value v)) :
    Denotes t (.items [v]) := by
  simpa using Denotes.item isWhitespace_nil h isWhitespace_nil

theorem Denotes.member_tight {n name t : List Char} {v : Json} (hn : Spells n name)
    (h : Denotes t (.value v)) : Denotes ('"' :: (n ++ '"' :: ':' :: t)) (.members [(name, v)]) :=
  .member isWhitespace_nil hn isWhitespace_nil h.item_tight

theorem charWidth_le (c : Char) : charWidth c ≤ 2 := by
  rw [charWidth]
  split <;> omega

theorem Spells.width_le {t s : List Char} (h : Spells t s) : stringWidth s ≤ t.length := by
  induction h
  case nil => exact Nat.le_refl 0
  case plain c t s hc _ hi =>
    have hone : charWidth c = 1 := if_neg fun h => h.elim hc.right.left hc.right.right
    simp only [stringWidth, List.length_cons]
    omega
  case escape c _ _ _ _ hi =>
    have htwo := charWidth_le c
    simp only [stringWidth, List.length_cons]
    omega
  case unicode n _ _ _ _ _ hi =>
    have htwo := charWidth_le (Char.ofNat n)
    simp only [stringWidth, List.length_cons]
    omega
  case surrogates n n' t s _ _ _ _ _ hi =>
    have htwo := charWidth_le (Char.ofNat (0x10000 + (n - 0xd800) * 0x400 + (n' - 0xdc00)))
    simp only [stringWidth, List.length_cons]
    omega

def Part.width : Part → Nat
  | value v    => v.width + 1
  | items vs   => itemsWidth vs
  | members ms => membersWidth ms

-- No text of a value is shorter than that.
theorem Denotes.width_le {t : List Char} {p : Part} (h : Denotes t p) : p.width ≤ t.length + 1 := by
  induction h
  case null | true | false => decide
  case number => simp [Part.width, Json.width]
  case string t s h =>
    have hs := h.width_le
    simp [Part.width, Json.width]
    omega
  case emptyArray | emptyObject => simp [Part.width, Json.width, itemsWidth, membersWidth]
  all_goals
    simp only [Part.width, Json.width, itemsWidth, membersWidth, List.length_cons, List.length_append,
      List.length_nil] at *
  case member hn _ _ hi =>
    have hn := hn.width_le
    omega
  all_goals omega

end Json
