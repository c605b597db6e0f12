import TnsParser.CJson.Strings
import TnsParser.CJson.Bound
import Mathlib.Data.List.DropRight

-- Pieces of a text, and what the parser makes of each whatever is behind it.

open Json

variable {stale : Bytes → UInt32} {t t' w w' p rest name : Bytes} {child c : CJson} {cs : List CJson}
  {b : UInt8} {n : Nat}

-- A number does not go on with what is behind it.
structure Ends (rest : Bytes) : Prop where
  digit : isDigit (rest.headD 0) = false
  dot   : rest.headD 0 ≠ cchar '.'
  exp   : rest.headD 0 ≠ cchar 'e' ∧ rest.headD 0 ≠ cchar 'E'

instance : Decidable (Ends rest) :=
  decidable_of_iff
    (isDigit (rest.headD 0) = false ∧ rest.headD 0 ≠ cchar '.' ∧
      rest.headD 0 ≠ cchar 'e' ∧ rest.headD 0 ≠ cchar 'E')
    ⟨fun h => ⟨h.left, h.right.left, h.right.right⟩, fun h => ⟨h.digit, h.dot, h.exp⟩⟩

-- Only the byte that comes first matters.
theorem Ends.congr (h : Ends p) (hp : rest.headD 0 = p.headD 0) : Ends rest where
  digit := by rw [hp, h.digit]
  dot   := by rw [hp]; exact h.dot
  exp   := by rw [hp]; exact h.exp

-- White space.
def IsBlank (w : Bytes) : Prop :=
  ∀ u ∈ w, u ≠ 0 ∧ u ≤ 32

theorem isBlank_nil : IsBlank [] :=
  fun _ h => absurd h List.not_mem_nil

-- The byte that the text starts with is not skipped.
def Starts (t : Bytes) : Prop :=
  ∃ b p, t = b :: p ∧ 32 < b

namespace Starts

theorem cons (h : 32 < b) : Starts (b :: p) :=
  ⟨b, p, rfl, h⟩

theorem skip_eq (h : Starts t) (hw : IsBlank w) : skip (w ++ (t ++ p)) = t ++ p := by
  obtain ⟨b, q, rfl, hb⟩ := h
  have hblank : ∀ u ∈ w, decide (u ≠ 0 ∧ u ≤ 32) = true := fun u hu => decide_eq_true <| hw u hu
  have hstop : ¬(b ≠ 0 ∧ b ≤ 32) := fun h => UInt8.not_le.mpr hb h.right
  rw [skip, List.dropWhile_append_of_pos hblank, List.cons_append, List.dropWhile_cons_of_neg (by simpa using hstop)]

theorem skip_self (h : Starts t) : skip (t ++ p) = t ++ p :=
  h.skip_eq isBlank_nil

end Starts

-- The text of a value, in the parser.
structure Reads (stale : Bytes → UInt32) (t : Bytes) (c : CJson) : Prop where
  starts : Starts t
  value  : ∀ n rest, 2 * t.length ≤ n → Ends rest → parseValue stale n (t ++ rest) = some (c, rest)

-- The text of a string, with its quotes.
structure ReadsString (stale : Bytes → UInt32) (t s : Bytes) : Prop where
  starts : ∃ p, t = cchar '"' :: p
  string : ∀ rest, parseString stale (t ++ rest) = some (s, rest)

-- The text of the items of an array.
structure ReadsItems (stale : Bytes → UInt32) (t : Bytes) (cs : List CJson) : Prop where
  first : ∀ rest, (skip (t ++ rest)).headD 0 ≠ cchar ']'
  items : ∀ n rest, 2 * t.length + 1 ≤ n → parseArray stale n (t ++ cchar ']' :: rest) = some (cs, rest)

-- The text of the items of an object.
structure ReadsMembers (stale : Bytes → UInt32) (t : Bytes) (cs : List CJson) : Prop where
  first   : ∀ rest, (skip (t ++ rest)).headD 0 = cchar '"'
  members : ∀ n rest, 2 * t.length + 1 ≤ n → parseObject stale n (t ++ cchar '\x7d' :: rest) = some (cs, rest)

theorem Ends.of_blank (hw : IsBlank w) (h : Ends rest) : Ends (w ++ rest) := by
  cases w
  case nil       => exact h
  case cons u w =>
    have hu : u ≤ 32 := (hw u List.mem_cons_self).right
    have hne (v : UInt8) (hv : 32 < v) : u ≠ v := by
      rintro rfl
      exact UInt8.not_le.mpr hv hu
    have hdigit : isDigit u = false := by
      rw [isDigit, decide_eq_false_iff_not]
      exact fun h => absurd (UInt8.le_trans h.left hu) (by decide)
    exact ⟨hdigit, hne _ (by decide), hne _ (by decide), hne _ (by decide)⟩

-- The bytes that come behind a value in an array or an object.
def IsDelimiter (b : UInt8) : Prop :=
  b = cchar ',' ∨ b = cchar ']' ∨ b = cchar '\x7d'

namespace IsDelimiter

theorem ends (h : IsDelimiter b) : Ends (b :: rest) := by
  rcases h with rfl | rfl | rfl
  · exact .congr (p := [cchar ',']) (by decide) rfl
  · exact .congr (p := [cchar ']']) (by decide) rfl
  · exact .congr (p := [cchar '\x7d']) (by decide) rfl

theorem starts (h : IsDelimiter b) : Starts (b :: rest) := by
  rcases h with rfl | rfl | rfl <;> exact .cons (by decide)

end IsDelimiter

-- A value with white space around it, where something follows in the array or the object.
theorem Reads.item (h : Reads stale t c) (hw : IsBlank w) (hw' : IsBlank w') (hb : IsDelimiter b)
    (hn : 2 * t.length ≤ n) (rest : Bytes) :
    parseValue stale n (skip (w ++ t ++ w' ++ b :: rest)) = some (c, w' ++ b :: rest) ∧
      skip (w' ++ b :: rest) = b :: rest := by
  have hvalue := h.value n (w' ++ b :: rest) hn (hb.ends.of_blank hw')
  have hstarts : Starts (b :: rest) := hb.starts
  have hskip := hstarts.skip_eq (p := []) hw'
  rw [List.append_nil] at hskip
  exact ⟨by rwa [List.append_assoc, List.append_assoc, h.starts.skip_eq hw], hskip⟩

-- The words, and values that are told by their first byte.

theorem reads_null : Reads stale (cstr "null") ⟨cJSONNull, [], none, []⟩ where
  starts := .cons (by decide)
  value n rest hn _ := by
    obtain ⟨n, rfl⟩ : ∃ m, n = m + 1 := Nat.exists_eq_add_one.mpr (by simp [cstr] at hn; omega)
    rw [parseValue, if_pos (List.prefix_append ..)]
    rfl

theorem reads_false : Reads stale (cstr "false") ⟨cJSONFalse, [], none, []⟩ where
  starts := .cons (by decide)
  value n rest hn _ := by
    obtain ⟨n, rfl⟩ : ∃ m, n = m + 1 := Nat.exists_eq_add_one.mpr (by simp [cstr] at hn; omega)
    have hnull : ¬cstr "null" <+: cstr "false" ++ rest := by simp [cstr, cchar]
    rw [parseValue, if_neg hnull, if_pos (List.prefix_append ..)]
    rfl

theorem reads_true : Reads stale (cstr "true") ⟨cJSONTrue, [], none, []⟩ where
  starts := .cons (by decide)
  value n rest hn _ := by
    obtain ⟨n, rfl⟩ : ∃ m, n = m + 1 := Nat.exists_eq_add_one.mpr (by simp [cstr] at hn; omega)
    have hnull : ¬cstr "null" <+: cstr "true" ++ rest := by simp [cstr, cchar]
    have hfalse : ¬cstr "false" <+: cstr "true" ++ rest := by simp [cstr, cchar]
    rw [parseValue, if_neg hnull, if_neg hfalse, if_pos (List.prefix_append ..)]
    rfl

-- None of the words that are values starts with another byte than its own.
theorem not_word (c : UInt8) (hc : c ≠ cchar 'n' ∧ c ≠ cchar 'f' ∧ c ≠ cchar 't') (p : Bytes) :
    ¬cstr "null" <+: c :: p ∧ ¬cstr "false" <+: c :: p ∧ ¬cstr "true" <+: c :: p := by
  simp [cstr, List.cons_prefix_cons, Ne.symm hc.left, Ne.symm hc.right.left, Ne.symm hc.right.right]

theorem ReadsString.reads {s : Bytes} (h : ReadsString stale t s) : Reads stale t ⟨cJSONString, s, none, []⟩ := by
  obtain ⟨p, rfl⟩ := h.starts
  refine ⟨.cons (by decide), fun n rest hn _ => ?_⟩
  obtain ⟨n, rfl⟩ : ∃ m, n = m + 1 := Nat.exists_eq_add_one.mpr (by simp at hn; omega)
  have hstring := h.string rest
  obtain ⟨hnull, hfalse, htrue⟩ := not_word (cchar '"') (by decide) (p ++ rest)
  rw [List.cons_append] at hstring ⊢
  simp only [parseValue, hnull, hfalse, htrue, if_false, List.headD_cons, if_true, hstring, Option.map_some]

-- A number.

theorem reads_number (hfirst : t.headD 0 = cchar '-' ∨ isDigit (t.headD 0) = true)
    (h : ∀ rest, Ends rest → parseNumber (t ++ rest) = rest) : Reads stale t ⟨cJSONNumber, [], none, []⟩ := by
  cases t
  case nil       => exact absurd hfirst (by decide)
  case cons b p  =>
    rw [List.headD_cons] at hfirst
    have hrange : 32 < b ∧ b < cchar 'A' := by
      rcases hfirst with rfl | hdigit
      · decide
      · rw [isDigit, decide_eq_true_eq] at hdigit
        exact ⟨UInt8.lt_of_lt_of_le (by decide) hdigit.left, UInt8.lt_of_le_of_lt hdigit.right (by decide)⟩
    have hne (c : UInt8) (hc : cchar 'A' ≤ c) : b ≠ c := by
      rintro rfl
      exact UInt8.not_le.mpr hrange.right hc
    have hquote : b ≠ cchar '"' := by
      rintro rfl
      exact absurd hfirst (by decide)
    refine ⟨.cons hrange.left, fun n rest hn hrest => ?_⟩
    obtain ⟨n, rfl⟩ : ∃ m, n = m + 1 := Nat.exists_eq_add_one.mpr (by simp at hn; omega)
    have hnumber := h rest hrest
    obtain ⟨hnull, hfalse, htrue⟩ :=
      not_word b ⟨hne _ (by decide), hne _ (by decide), hne _ (by decide)⟩ (p ++ rest)
    rw [List.cons_append] at hnumber ⊢
    simp only [parseValue, hnull, hfalse, htrue, if_false, List.headD_cons, hquote, hfirst, if_true, hnumber]

-- Arrays.

theorem skip_skip (p : Bytes) : skip (skip p) = skip p :=
  List.dropWhile_idempotent _ _

theorem parseArray_skip : parseArray stale n (skip p) = parseArray stale n p := by
  cases n
  case zero => rfl
  case succ => rw [parseArray, parseArray, skip_skip]

theorem parseObject_skip : parseObject stale n (skip p) = parseObject stale n p := by
  cases n
  case zero => rfl
  case succ => rw [parseObject, parseObject, skip_skip]

-- What is read for an opening bracket or brace. No value starts with a closing one.

theorem parseValue_bracket (p : Bytes) : parseValue stale (n + 1) (cchar '[' :: p) =
    if (skip p).headD 0 = cchar ']' then some (⟨cJSONArray, [], none, []⟩, (skip p).drop 1)
    else (parseArray stale n p).map fun r => (⟨cJSONArray, [], none, r.1⟩, r.2) := by
  obtain ⟨hnull, hfalse, htrue⟩ := not_word (cchar '[') (by decide) p
  have hquote : cchar '[' ≠ cchar '"' := by decide
  have hnumber : ¬(cchar '[' = cchar '-' ∨ isDigit (cchar '[') = true) := by decide
  simp only [parseValue, hnull, hfalse, htrue, if_false, List.headD_cons, hquote, hnumber, if_true,
    List.drop_succ_cons, List.drop_zero, parseArray_skip]

theorem parseValue_brace (p : Bytes) : parseValue stale (n + 1) (cchar '\x7b' :: p) =
    if (skip p).headD 0 = cchar '\x7d' then some (⟨cJSONObject, [], none, []⟩, (skip p).drop 1)
    else (parseObject stale n p).map fun r => (⟨cJSONObject, [], none, r.1⟩, r.2) := by
  obtain ⟨hnull, hfalse, htrue⟩ := not_word (cchar '\x7b') (by decide) p
  have hquote : cchar '\x7b' ≠ cchar '"' := by decide
  have hnumber : ¬(cchar '\x7b' = cchar '-' ∨ isDigit (cchar '\x7b') = true) := by decide
  have hbracket : cchar '\x7b' ≠ cchar '[' := by decide
  simp only [parseValue, hnull, hfalse, htrue, if_false, List.headD_cons, hquote, hnumber, hbracket, if_true,
    List.drop_succ_cons, List.drop_zero, parseObject_skip]

theorem parseValue_close (p : Bytes) : parseValue stale n (cchar ']' :: p) = none := by
  cases n
  case zero => rfl
  case succ =>
    obtain ⟨hnull, hfalse, htrue⟩ := not_word (cchar ']') (by decide) p
    have hquote : cchar ']' ≠ cchar '"' := by decide
    have hnumber : ¬(cchar ']' = cchar '-' ∨ isDigit (cchar ']') = true) := by decide
    have hopen : cchar ']' ≠ cchar '[' ∧ cchar ']' ≠ cchar '\x7b' := by decide
    simp only [parseValue, hnull, hfalse, htrue, if_false, List.headD_cons, hquote, hnumber, hopen]

theorem Reads.not_close (h : Reads stale t c) : t.headD 0 ≠ cchar ']' := by
  intro hclose
  have hvalue := h.value (2 * t.length) [] (Nat.le_refl _) (by decide)
  obtain ⟨b, p, rfl, -⟩ := h.starts
  rw [List.headD_cons] at hclose
  rw [hclose, List.append_nil, parseValue_close] at hvalue
  contradiction

theorem Reads.first (h : Reads stale t c) (hw : IsBlank w) : (skip (w ++ (t ++ p))).headD 0 ≠ cchar ']' := by
  have hclose := h.not_close
  rw [h.starts.skip_eq hw]
  obtain ⟨b, q, rfl, -⟩ := h.starts
  exact hclose

-- An item, and what the byte behind it decides.
theorem Reads.parseArray_item (h : Reads stale t c) (hw : IsBlank w) (hw' : IsBlank w') (hb : IsDelimiter b)
    (hn : 2 * t.length ≤ n) :
    parseArray stale (n + 1) (w ++ t ++ w' ++ b :: rest) =
      if b = cchar ',' then (parseArray stale n rest).map fun r => (c :: r.1, r.2)
      else if b = cchar ']' then some ([c], rest)
      else none := by
  obtain ⟨hvalue, hskip⟩ := h.item hw hw' hb hn rest
  rw [parseArray]
  simp only [hvalue, bind, Option.bind, hskip, List.headD_cons, List.drop_succ_cons, List.drop_zero]
  split
  case isTrue  => cases parseArray stale n rest <;> rfl
  case isFalse => rfl

theorem Reads.one (h : Reads stale t c) (hw : IsBlank w) (hw' : IsBlank w') :
    ReadsItems stale (w ++ t ++ w') [c] where
  first rest := by
    rw [List.append_assoc, List.append_assoc]
    exact h.first hw
  items n rest hn := by
    obtain ⟨n, rfl⟩ : ∃ m, n = m + 1 := Nat.exists_eq_add_one.mpr (by omega)
    simp only [List.length_append] at hn
    rw [h.parseArray_item hw hw' (.inr <| .inl rfl) (by omega)]
    rfl

theorem Reads.more (h : Reads stale t c) (hw : IsBlank w) (hw' : IsBlank w') (h' : ReadsItems stale t' cs) :
    ReadsItems stale (w ++ t ++ w' ++ cchar ',' :: t') (c :: cs) where
  first rest := by
    simp only [List.append_assoc]
    exact h.first hw
  items n rest hn := by
    obtain ⟨n, rfl⟩ : ∃ m, n = m + 1 := Nat.exists_eq_add_one.mpr (by omega)
    simp only [List.length_append, List.length_cons] at hn
    rw [List.append_assoc, List.cons_append, h.parseArray_item hw hw' (.inl rfl) (by omega), if_pos rfl,
      h'.items n rest (by omega)]
    rfl

theorem ReadsItems.reads (h : ReadsItems stale t cs) :
    Reads stale (cchar '[' :: (t ++ [cchar ']'])) ⟨cJSONArray, [], none, cs⟩ where
  starts := .cons (by decide)
  value n rest hn _ := by
    obtain ⟨n, rfl⟩ : ∃ m, n = m + 1 := Nat.exists_eq_add_one.mpr (by simp at hn; omega)
    rw [List.cons_append, List.append_assoc, List.singleton_append, parseValue_bracket, if_neg (h.first _),
      h.items n rest (by simp at hn; omega)]
    rfl

theorem reads_emptyArray (hw : IsBlank w) :
    Reads stale (cchar '[' :: (w ++ [cchar ']'])) ⟨cJSONArray, [], none, []⟩ where
  starts := .cons (by decide)
  value n rest hn _ := by
    obtain ⟨n, rfl⟩ : ∃ m, n = m + 1 := Nat.exists_eq_add_one.mpr (by simp at hn; omega)
    have hskip : skip (w ++ ([cchar ']'] ++ rest)) = [cchar ']'] ++ rest :=
      (Starts.cons (by decide : 32 < cchar ']')).skip_eq hw
    rw [List.cons_append, List.append_assoc, parseValue_bracket, hskip]
    rfl

-- Objects.

theorem ReadsString.first {s : Bytes} (h : ReadsString stale t s) (hw : IsBlank w) :
    (skip (w ++ (t ++ p))).headD 0 = cchar '"' := by
  obtain ⟨q, rfl⟩ := h.starts
  rw [Starts.skip_eq (.cons (by decide)) hw]
  rfl

-- An item with its name, and what the byte behind it decides.
theorem ReadsString.parseObject_item {v v' : Bytes} (hname : ReadsString stale t name) (hw : IsBlank w)
    (hw' : IsBlank w') (h : Reads stale t' c) (hv : IsBlank v) (hv' : IsBlank v') (hb : IsDelimiter b)
    (hn : 2 * t'.length ≤ n) :
    parseObject stale (n + 1) (w ++ t ++ w' ++ cchar ':' :: (v ++ t' ++ v') ++ b :: rest) =
      if b = cchar ',' then (parseObject stale n rest).map fun r => ({ c with string := some name } :: r.1, r.2)
      else if b = cchar '\x7d' then some ([{ c with string := some name }], rest)
      else none := by
  obtain ⟨hvalue, hskip⟩ := h.item hv hv' hb hn rest
  have hstring : skip (w ++ (t ++ (w' ++ cchar ':' :: (v ++ t' ++ v') ++ b :: rest))) =
      t ++ (w' ++ cchar ':' :: (v ++ t' ++ v') ++ b :: rest) := by
    obtain ⟨p, rfl⟩ := hname.starts
    exact Starts.skip_eq (.cons (by decide)) hw
  have hcolon : skip (w' ++ ([cchar ':'] ++ (v ++ t' ++ v' ++ b :: rest))) =
      cchar ':' :: (v ++ t' ++ v' ++ b :: rest) :=
    Starts.skip_eq (.cons (by decide)) hw'
  have htext : w ++ t ++ w' ++ cchar ':' :: (v ++ t' ++ v') ++ b :: rest =
      w ++ (t ++ (w' ++ cchar ':' :: (v ++ t' ++ v') ++ b :: rest)) := by
    simp
  have hbehind : w' ++ cchar ':' :: (v ++ t' ++ v') ++ b :: rest =
      w' ++ ([cchar ':'] ++ (v ++ t' ++ v' ++ b :: rest)) := by
    simp
  rw [htext, parseObject, hstring, hname.string]
  simp only [bind, Option.bind, hbehind, hcolon, List.headD_cons, ne_eq, not_true_eq_false, if_false,
    List.drop_succ_cons, List.drop_zero, hvalue, hskip]
  split
  case isTrue  => cases parseObject stale n rest <;> rfl
  case isFalse => rfl

variable {v v' : Bytes}

theorem ReadsString.one (hname : ReadsString stale t name) (hw : IsBlank w) (hw' : IsBlank w')
    (h : Reads stale t' c) (hv : IsBlank v) (hv' : IsBlank v') :
    ReadsMembers stale (w ++ t ++ w' ++ cchar ':' :: (v ++ t' ++ v')) [{ c with string := some name }] where
  first rest := by
    simp only [List.append_assoc]
    exact hname.first hw
  members n rest hn := by
    obtain ⟨n, rfl⟩ : ∃ m, n = m + 1 := Nat.exists_eq_add_one.mpr (by omega)
    simp only [List.length_append, List.length_cons] at hn
    rw [hname.parseObject_item hw hw' h hv hv' (.inr <| .inr rfl) (by omega)]
    rfl

theorem ReadsString.more {p : Bytes} (hname : ReadsString stale t name) (hw : IsBlank w) (hw' : IsBlank w')
    (h : Reads stale t' c) (hv : IsBlank v) (hv' : IsBlank v') (h' : ReadsMembers stale p cs) :
    ReadsMembers stale (w ++ t ++ w' ++ cchar ':' :: (v ++ t' ++ v') ++ cchar ',' :: p)
      ({ c with string := some name } :: cs) where
  first rest := by
    simp only [List.append_assoc]
    exact hname.first hw
  members n rest hn := by
    obtain ⟨n, rfl⟩ : ∃ m, n = m + 1 := Nat.exists_eq_add_one.mpr (by omega)
    simp only [List.length_append, List.length_cons] at hn
    rw [List.append_assoc _ (cchar ',' :: p), List.cons_append,
      hname.parseObject_item hw hw' h hv hv' (.inl rfl) (by omega), if_pos rfl, h'.members n rest (by omega)]
    rfl

theorem ReadsMembers.reads (h : ReadsMembers stale t cs) :
    Reads stale (cchar '\x7b' :: (t ++ [cchar '\x7d'])) ⟨cJSONObject, [], none, cs⟩ where
  starts := .cons (by decide)
  value n rest hn _ := by
    obtain ⟨n, rfl⟩ : ∃ m, n = m + 1 := Nat.exists_eq_add_one.mpr (by simp at hn; omega)
    have hclose : (skip (t ++ cchar '\x7d' :: rest)).headD 0 ≠ cchar '\x7d' := by
      rw [h.first]
      decide
    rw [List.cons_append, List.append_assoc, List.singleton_append, parseValue_brace, if_neg hclose,
      h.members n rest (by simp at hn; omega)]
    rfl

theorem reads_emptyObject (hw : IsBlank w) :
    Reads stale (cchar '\x7b' :: (w ++ [cchar '\x7d'])) ⟨cJSONObject, [], none, []⟩ where
  starts := .cons (by decide)
  value n rest hn _ := by
    obtain ⟨n, rfl⟩ : ∃ m, n = m + 1 := Nat.exists_eq_add_one.mpr (by simp at hn; omega)
    have hskip : skip (w ++ ([cchar '\x7d'] ++ rest)) = [cchar '\x7d'] ++ rest :=
      (Starts.cons (by decide : 32 < cchar '\x7d')).skip_eq hw
    rw [List.cons_append, List.append_assoc, parseValue_brace, hskip]
    rfl
