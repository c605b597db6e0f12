import TnsParser.CJson.Accepts
import TnsParser.CJson.Print

-- What is printed is JSON, and is read as what was printed.

open Json Except

variable {α : Type} {printNumber : α → Bytes} {stale : Bytes → UInt32} {fmt : Bool} {depth : Nat}
  {children : List (Item α)}

-- What the parser keeps of a value: of its type only that, and nothing that is not printed.
mutual

def Item.toCJson : Item α → CJson
  | ⟨type, valuestring, _, _, child⟩ =>
    let type := type &&& 255
    ⟨type, if type = cJSONString then valuestring.getD [] else [], none,
      if type = cJSONArray then itemsToCJson child
      else if type = cJSONObject then membersToCJson child
      else []⟩

def Item.itemsToCJson : List (Item α) → List CJson
  | []                => []
  | child :: children => child.toCJson :: itemsToCJson children

def Item.membersToCJson : List (Item α) → List CJson
  | []                => []
  | child :: children => { child.toCJson with string := child.string } :: membersToCJson children

end

-- A value that has all that its type needs: strings have their text, and the items of an object their
-- names.
inductive WellFormed (printNumber : α → Bytes) (IsString : Bytes → Prop) : Item α → Prop
  | null {item : Item α} (h : item.type &&& 255 = cJSONNull) : WellFormed printNumber IsString item
  | false {item : Item α} (h : item.type &&& 255 = cJSONFalse) : WellFormed printNumber IsString item
  | true {item : Item α} (h : item.type &&& 255 = cJSONTrue) : WellFormed printNumber IsString item
  | number {item : Item α} {t : List Char} (h : item.type &&& 255 = cJSONNumber) (ht : IsNumber t)
      (hp : printNumber item.valuedouble = utf8Bytes t) : WellFormed printNumber IsString item
  | string {item : Item α} {s : Bytes} (h : item.type &&& 255 = cJSONString) (hs : item.valuestring = some s)
      (hp : IsString s) : WellFormed printNumber IsString item
  | array {item : Item α} (h : item.type &&& 255 = cJSONArray)
      (hc : ∀ child ∈ item.child, WellFormed printNumber IsString child) : WellFormed printNumber IsString item
  | object {item : Item α} (h : item.type &&& 255 = cJSONObject)
      (hc : ∀ child ∈ item.child, WellFormed printNumber IsString child)
      (hs : ∀ child ∈ item.child, ∃ s, child.string = some s ∧ IsString s) :
      WellFormed printNumber IsString item

-- A meaning of texts, which is put together as JSON is.
structure TextMeaning where
  Str     : Bytes → Bytes → Prop
  Value   : Bytes → CJson → Prop
  Items   : Bytes → List CJson → Prop
  Members : Bytes → List CJson → Prop
  nullWord  : Value (cstr "null") ⟨cJSONNull, [], none, []⟩
  falseWord : Value (cstr "false") ⟨cJSONFalse, [], none, []⟩
  trueWord  : Value (cstr "true") ⟨cJSONTrue, [], none, []⟩
  number {t} : IsNumber t → Value (utf8Bytes t) ⟨cJSONNumber, [], none, []⟩
  string {t s} : Str t s → Value t ⟨cJSONString, s, none, []⟩
  emptyArray : Value (cstr "[]") ⟨cJSONArray, [], none, []⟩
  array {t cs} : Items t cs → Value (cchar '[' :: (t ++ [cchar ']'])) ⟨cJSONArray, [], none, cs⟩
  emptyObject {w} : IsWhitespace w →
    Value (cchar '\x7b' :: (utf8Bytes w ++ [cchar '\x7d'])) ⟨cJSONObject, [], none, []⟩
  object {t cs} : Members t cs →
    Value (cchar '\x7b' :: (t ++ [cchar '\x7d'])) ⟨cJSONObject, [], none, cs⟩
  one {w t c} : IsWhitespace w → Value t c → Items (utf8Bytes w ++ t) [c]
  more {w t c t' cs} : IsWhitespace w → Value t c → Items t' cs →
    Items (utf8Bytes w ++ t ++ cchar ',' :: t') (c :: cs)
  member {w n name v t c v'} : IsWhitespace w → Str n name → IsWhitespace v → Value t c → IsWhitespace v' →
    Members (utf8Bytes w ++ n ++ cchar ':' :: (utf8Bytes v ++ t ++ utf8Bytes v'))
      [{ c with string := some name }]
  members {w n name v t c p cs} : IsWhitespace w → Str n name → IsWhitespace v → Value t c → Members p cs →
    Members (utf8Bytes w ++ n ++ cchar ':' :: (utf8Bytes v ++ t) ++ cchar ',' :: p)
      ({ c with string := some name } :: cs)

-- The white space that is printed.

theorem isWhitespace_append {w w' : List Char} (h : IsWhitespace w) (h' : IsWhitespace w') :
    IsWhitespace (w ++ w') :=
  fun c hc => (List.mem_append.mp hc).elim (h c) (h' c)

theorem tabs_eq (fmt : Bool) (n : Nat) : ∃ w, IsWhitespace w ∧ tabs fmt n = utf8Bytes w := by
  cases fmt
  case false => exact ⟨[], isWhitespace_nil, rfl⟩
  case true  =>
    refine ⟨List.replicate n '\t', fun c hc => ?_, ?_⟩
    · rw [List.eq_of_mem_replicate hc]
      decide
    · rw [tabs, if_pos rfl, utf8Bytes, List.flatMap_replicate]
      induction n
      case zero => rfl
      case succ n hi => rw [List.replicate_succ, List.replicate_succ, hi]; rfl

theorem whenFormatted_eq (fmt : Bool) {c : Char} (hc : IsWhitespace [c]) (hlt : c.toNat < 128) :
    ∃ w, IsWhitespace w ∧ whenFormatted fmt (String.singleton c) = utf8Bytes w := by
  cases fmt
  case false => exact ⟨[], isWhitespace_nil, rfl⟩
  case true  => exact ⟨[c], hc, by rw [utf8Bytes_ascii hlt]; simp [whenFormatted, cstr, utf8Bytes]⟩

namespace TextMeaning

variable (M : TextMeaning) {IsString : Bytes → Prop}

-- The entries of an array mean its items.
theorem items_composeArray {e : Bytes} {es : List Bytes} {c : CJson} {cs : List CJson} (h : M.Value e c)
    (hs : List.Forall₂ M.Value es cs) : M.Items (composeArray fmt (e :: es)) (c :: cs) := by
  have hmore {w : List Char} (hw : IsWhitespace w) :
      M.Items (utf8Bytes w ++ composeArray fmt (e :: es)) (c :: cs) := by
    induction hs generalizing e c w
    case nil =>
      simpa [composeArray] using M.one hw h
    case cons e' c' es cs h' hs hi =>
      obtain ⟨w', hw', hspace⟩ := whenFormatted_eq fmt (c := ' ') (by simp [IsWhitespace]) (by decide)
      have hitems := M.more hw h (hi h' hw')
      rw [← hspace] at hitems
      simpa [composeArray, cstr] using hitems
  exact hmore (w := []) isWhitespace_nil

theorem array_composeArray {es : List Bytes} {cs : List CJson} (hs : List.Forall₂ M.Value es cs) :
    M.Value (cchar '[' :: (composeArray fmt es ++ [cchar ']'])) ⟨cJSONArray, [], none, cs⟩ := by
  cases hs
  case nil       => exact M.emptyArray
  case cons h hs => exact M.array (M.items_composeArray h hs)

-- A printed entry of an object, with its name.
def Entry (e : Bytes × Bytes) (c : CJson) : Prop :=
  ∃ name c', M.Str e.1 name ∧ M.Value e.2 c' ∧ c = { c' with string := some name }

-- The lines of an object mean its items, with white space around them.
theorem members_composeObject {w w' : List Char} {e : Bytes × Bytes} {es : List (Bytes × Bytes)} {c : CJson}
    {cs : List CJson} (hw : IsWhitespace w) (hw' : IsWhitespace w') (h : M.Entry e c)
    (hs : List.Forall₂ M.Entry es cs) :
    M.Members (utf8Bytes w ++ composeObject fmt depth (e :: es) ++ utf8Bytes w') (c :: cs) := by
  obtain ⟨t, ht, htabs⟩ := tabs_eq fmt depth
  obtain ⟨v, hv, htab⟩ := whenFormatted_eq fmt (c := '\t') (by simp [IsWhitespace]) (by decide)
  obtain ⟨l, hl, hline⟩ := whenFormatted_eq fmt (c := '\n') (by simp [IsWhitespace]) (by decide)
  have htab : whenFormatted fmt "\t" = utf8Bytes v := htab
  have hline : whenFormatted fmt "\n" = utf8Bytes l := hline
  induction hs generalizing e c w
  case nil =>
    obtain ⟨name, c, hn, hc, rfl⟩ := h
    have hmember := M.member (isWhitespace_append hw ht) hn hv hc (isWhitespace_append hl hw')
    simpa [composeObject, utf8Bytes_append, htabs, htab, hline] using hmember
  case cons e' c' es cs h' hs hi =>
    obtain ⟨name, c, hn, hc, rfl⟩ := h
    have hmembers := M.members (isWhitespace_append hw ht) hn hv hc (hi hl h')
    simpa [composeObject, utf8Bytes_append, htabs, htab, hline, cstr] using hmembers

theorem object_composeObject {es : List (Bytes × Bytes)} {cs : List CJson} (hs : List.Forall₂ M.Entry es cs)
    (h : es = [] → fmt = true → 0 < depth) :
    ∃ text, printObject fmt depth (some es) = .ok (some text) ∧ M.Value text ⟨cJSONObject, [], none, cs⟩ := by
  obtain ⟨l, hl, hline⟩ := whenFormatted_eq fmt (c := '\n') (by simp [IsWhitespace]) (by decide)
  have hline : whenFormatted fmt "\n" = utf8Bytes l := hline
  cases hs
  case nil =>
    obtain ⟨t, ht, htabs⟩ := tabs_eq fmt (depth - 1)
    refine ⟨_, printObject_nil (h rfl), ?_⟩
    rw [hline, htabs, ← utf8Bytes_append]
    exact M.emptyObject (isWhitespace_append hl ht)
  case cons hentry hs =>
    obtain ⟨t, ht, htabs⟩ := tabs_eq fmt depth
    refine ⟨_, printObject_cons _ _, ?_⟩
    rw [hline, htabs]
    exact M.object (M.members_composeObject hl ht hentry hs)

-- What is printed of the items means them, if that holds for each of them.

theorem printItems_eq (depth : Nat) (hchild : ∀ child ∈ children, ∃ text,
    printValue printNumber fmt (depth + 1) child = .ok (some text) ∧ M.Value text child.toCJson) :
    ∃ es, printItems printNumber fmt (depth + 1) children = .ok (some es) ∧
      List.Forall₂ M.Value es (Item.itemsToCJson children) := by
  induction children
  case nil                    => exact ⟨[], rfl, .nil⟩
  case cons child children hi =>
    obtain ⟨⟨text, hprint, htext⟩, hchildren⟩ := List.forall_mem_cons.mp hchild
    obtain ⟨es, hes, hall⟩ := hi hchildren
    refine ⟨text :: es, ?_, .cons htext hall⟩
    rw [printItems, hprint]
    simp only [bind, Except.bind, hes]
    rfl

theorem printMembers_eq (depth : Nat) (hchild : ∀ child ∈ children, ∃ text,
      printValue printNumber fmt (depth + 1) child = .ok (some text) ∧ M.Value text child.toCJson)
    (hname : ∀ child ∈ children, ∃ name, child.string = some name ∧ M.Str (quotedText name) name) :
    ∃ es, printMembers printNumber fmt (depth + 1) children = .ok (some es) ∧
      List.Forall₂ M.Entry es (Item.membersToCJson children) := by
  induction children
  case nil                    => exact ⟨[], rfl, .nil⟩
  case cons child children hi =>
    obtain ⟨⟨text, hprint, htext⟩, hchildren⟩ := List.forall_mem_cons.mp hchild
    obtain ⟨⟨name, hstring, hstr⟩, hnames⟩ := List.forall_mem_cons.mp hname
    obtain ⟨es, hes, hall⟩ := hi hchildren hnames
    refine ⟨(quotedText name, text) :: es, ?_, .cons ⟨name, child.toCJson, hstr, htext, by rw [hstring]⟩ hall⟩
    rw [printMembers, hstring, printStringPtr_some, hprint]
    simp only [bind, Except.bind, hes]
    rfl

-- The text of a value means the value.
theorem printValue_eq (hstr : ∀ s, IsString s → M.Str (quotedText s) s) {item : Item α}
    (h : WellFormed printNumber IsString item) (fmt : Bool) (depth : Nat) (hbare : ¬IsBareObject fmt depth item) :
    ∃ text, printValue printNumber fmt depth item = .ok (some text) ∧ M.Value text item.toCJson := by
  induction h generalizing fmt depth
  case null item h =>
    obtain ⟨type, valuestring, valuedouble, string, child⟩ := item
    refine ⟨cstr "null", ?_, ?_⟩
    · simp only [printValue, h, if_true, strdup_eq]
      rfl
    · simp only [Item.toCJson, h]
      exact M.nullWord
  case false item h =>
    obtain ⟨type, valuestring, valuedouble, string, child⟩ := item
    refine ⟨cstr "false", ?_, ?_⟩
    · simp only [printValue, h, strdup_eq]
      rfl
    · simp only [Item.toCJson, h]
      exact M.falseWord
  case true item h =>
    obtain ⟨type, valuestring, valuedouble, string, child⟩ := item
    refine ⟨cstr "true", ?_, ?_⟩
    · simp only [printValue, h, strdup_eq]
      rfl
    · simp only [Item.toCJson, h]
      exact M.trueWord
  case number item t h ht hp =>
    obtain ⟨type, valuestring, valuedouble, string, child⟩ := item
    refine ⟨utf8Bytes t, ?_, ?_⟩
    · simp only [printValue, h, ← hp]
      rfl
    · simp only [Item.toCJson, h]
      exact M.number ht
  case string item s h hs hp =>
    obtain ⟨type, valuestring, valuedouble, string, child⟩ := item
    refine ⟨quotedText s, ?_, ?_⟩
    · simp only at hs
      simp only [printValue, h, hs, printStringPtr_some]
      rfl
    · simp only at hs
      simp only [Item.toCJson, h, hs]
      exact M.string (hstr s hp)
  case array item h hc hi =>
    obtain ⟨type, valuestring, valuedouble, string, child⟩ := item
    obtain ⟨es, hes, hall⟩ := M.printItems_eq depth fun c hc =>
      hi c hc fmt (depth + 1) (not_isBareObject c)
    refine ⟨cchar '[' :: (composeArray fmt es ++ [cchar ']']), ?_, ?_⟩
    · simp only at hes
      simp only [printValue, h, hes, bind, Except.bind, printArray_some]
      rfl
    · simp only [Item.toCJson, h]
      exact M.array_composeArray hall
  case object item h hc hs hi =>
    obtain ⟨type, valuestring, valuedouble, string, child⟩ := item
    simp only at h hc hs hi
    have hname (c : Item α) (hc : c ∈ child) : ∃ name, c.string = some name ∧ M.Str (quotedText name) name := by
      obtain ⟨name, hstring, hname⟩ := hs c hc
      exact ⟨name, hstring, hstr name hname⟩
    obtain ⟨es, hes, hall⟩ := M.printMembers_eq depth (fun c hc =>
      hi c hc fmt (depth + 1) (not_isBareObject c)) hname
    have hempty : es = [] → fmt = true → 0 < depth := by
      rintro rfl hfmt
      cases child
      case nil  => exact Nat.pos_of_ne_zero fun hz => hbare ⟨hfmt, hz, h, rfl⟩
      case cons => exact absurd hes printMembers_cons_ne
    obtain ⟨text, hprint, htext⟩ := M.object_composeObject hall hempty
    refine ⟨text, ?_, ?_⟩
    · simp only [printValue, h, hes, bind, Except.bind, hprint]
      rfl
    · simp only [Item.toCJson, h]
      exact htext

end TextMeaning

-- What the parser makes of a text is a meaning of it.

theorem printByte_control : ∀ u : UInt8, u < 32 → u ≠ 0 →
    hex4? '0' '0' (Nat.digitChar (u.toNat / 16)) (Nat.digitChar (u.toNat % 16)) = some u.toNat ∧
      (Char.ofNat u.toNat).val = u.toNat.toUInt32 ∧
        utf8Bytes ([Char.ofNat u.toNat].filter (· ≠ '\x00')) = [u] :=
  forall_uint8 (by decide +kernel)

-- A round of the loop undoes what is printed for a byte.
theorem parseStringLoop_printByte {u : UInt8} {n : Nat} {p out : Bytes} (h : u ≠ 0) :
    parseStringLoop stale (n + 1) (printByte u ++ p) out = parseStringLoop stale n p (out ++ [u]) := by
  have hround {c v : UInt8} (hc : parseEscape stale (c :: p) = ([v], c :: p)) :
      parseStringLoop stale (n + 1) ([cchar '\\', c] ++ p) out = parseStringLoop stale n p (out ++ [v]) :=
    parseStringLoop_escape hc
  rw [printByte]
  split_ifs with hplain hslash hquote h8 h12 h10 h13 h9
  · exact parseStringLoop_verbatim_cons ⟨h, hplain.right⟩
  · exact hround (by simp [parseEscape, cchar, hslash])
  · exact hround (by simp [parseEscape, cchar, hquote])
  · exact hround (by simp [parseEscape, cchar, h8])
  · exact hround (by simp [parseEscape, cchar, h12])
  · exact hround (by simp [parseEscape, cchar, h10])
  · exact hround (by simp [parseEscape, cchar, h13])
  · exact hround (by simp [parseEscape, cchar, h9])
  · have hlow : u < 32 :=
      UInt8.not_le.mp fun hle => hplain ⟨UInt8.lt_of_lt_of_le (by decide) hle, hquote, hslash⟩
    obtain ⟨hhex, hval, hbyte⟩ := printByte_control u hlow h
    obtain ⟨-, hscan⟩ := sscanf4x_hex4 hhex p
    have hescape : parseEscape stale (cchar 'u' :: ((sprintf04x u).map cchar ++ p)) = _ :=
      parseEscape_u _ |>.trans <| parseUtf16_char (c := Char.ofNat u.toNat) (hval ▸ hscan)
    rw [hbyte] at hescape
    exact parseStringLoop_escape hescape

theorem parseStringLoop_printed {s rest out : Bytes} {n : Nat} (h : 0 ∉ s) :
    parseStringLoop stale (s.length + n) (s.flatMap printByte ++ cchar '"' :: rest) out =
      (out ++ s, cchar '"' :: rest) := by
  induction s generalizing out
  case nil => cases n <;> simp [parseStringLoop]
  case cons u s hi =>
    rw [List.mem_cons, not_or] at h
    have hn : (u :: s).length + n = s.length + n + 1 := by
      rw [List.length_cons]
      omega
    rw [hn, List.flatMap_cons, List.append_assoc, parseStringLoop_printByte (Ne.symm h.left), hi h.right,
      List.append_assoc]
    rfl

theorem length_le_printed (s : Bytes) : s.length ≤ (s.flatMap printByte).length := by
  induction s
  case nil => exact Nat.le_refl 0
  case cons u s hi =>
    have hone : 1 ≤ (printByte u).length := by
      rw [length_printByte, printedLen]
      split_ifs <;> decide
    rw [List.flatMap_cons, List.length_append, List.length_cons]
    omega

theorem reads_quotedText {s : Bytes} (h : 0 ∉ s) : ReadsString stale (quotedText s) s where
  starts := ⟨_, rfl⟩
  string rest := by
    have hlen := length_le_printed s
    obtain ⟨n, hn⟩ : ∃ n, (quotedText s ++ rest).length = s.length + n :=
      Nat.exists_eq_add_of_le (by simp only [quotedText, List.length_append, List.length_cons]; omega)
    have hloop : parseStringLoop stale (s.length + n) (s.flatMap printByte ++ cchar '"' :: rest) [] =
        ([] ++ s, cchar '"' :: rest) :=
      parseStringLoop_printed h
    have htake : s.takeWhile (· ≠ 0) = s :=
      List.takeWhile_eq_self_iff.mpr fun u hu => by simpa using ne_of_mem_of_not_mem hu h
    rw [parseString, hn]
    simp only [quotedText, List.cons_append, List.append_assoc, List.headD_cons, ne_eq,
      not_true_eq_false, if_false, if_true, List.drop_succ_cons, List.drop_zero, List.nil_append, hloop, htake]

def readBy (stale : Bytes → UInt32) : TextMeaning where
  Str     := ReadsString stale
  Value   := Reads stale
  Items   := ReadsItems stale
  Members := ReadsMembers stale
  nullWord  := reads_null
  falseWord := reads_false
  trueWord  := reads_true
  number      := reads_isNumber
  string      := ReadsString.reads
  emptyArray  := reads_emptyArray isBlank_nil
  array       := ReadsItems.reads
  emptyObject hw := reads_emptyObject (isBlank_utf8Bytes hw)
  object      := ReadsMembers.reads
  one hw h := by simpa using h.one (isBlank_utf8Bytes hw) isBlank_nil
  more hw h h' := by simpa using h.more (isBlank_utf8Bytes hw) isBlank_nil h'
  member hw hn hv h hv' := by
    simpa using hn.one (isBlank_utf8Bytes hw) isBlank_nil h (isBlank_utf8Bytes hv) (isBlank_utf8Bytes hv')
  members hw hn hv h h' := by
    simpa using hn.more (isBlank_utf8Bytes hw) isBlank_nil h (isBlank_utf8Bytes hv) isBlank_nil h'

-- Whatever the bytes of the strings are, the text is read back.
theorem cJSONParseWithOpts_print {item : Item α} (h : WellFormed printNumber (0 ∉ ·) item) (fmt : Bool)
    (hbare : ¬IsBareObject fmt 0 item) :
    ∃ text, printValue printNumber fmt 0 item = .ok (some text) ∧
      cJSONParseWithOpts stale text true = some (item.toCJson, []) := by
  obtain ⟨text, hprint, htext⟩ := (readBy stale).printValue_eq (fun s => reads_quotedText) h fmt 0 hbare
  refine ⟨text, hprint, ?_⟩
  have hvalue := htext.value (2 * text.length + 1) [] (by omega) (by decide)
  have hskip : skip (text ++ []) = text ++ [] := htext.starts.skip_self
  rw [List.append_nil] at hvalue hskip
  rw [cJSONParseWithOpts, hskip, hvalue]
  rfl

-- An array with a number and a string, in an object where its name has to be escaped.
def Item.sample : Item Nat :=
  ⟨6, none, 0, none, [⟨5, none, 0, some [10], [⟨3, none, 5, none, []⟩, ⟨4, some [10], 0, none, []⟩]⟩]⟩

theorem Item.sample_wellFormed {IsString : Bytes → Prop} (h : IsString [10]) :
    WellFormed (fun n => cstr (toString n)) IsString sample := by
  have hnumber : IsNumber ['5'] :=
    ⟨[], ['5'], [], [], rfl, .inl rfl, .inr ⟨'5', [], rfl, by decide, by decide, by simp⟩, .inl rfl, .inl rfl⟩
  refine .object rfl (fun child hc => ?_) (fun child hc => ?_)
  all_goals cases List.mem_singleton.mp hc
  · refine .array rfl fun child hc => ?_
    simp only [List.mem_cons, List.not_mem_nil, or_false] at hc
    rcases hc with rfl | rfl
    · exact .number rfl hnumber rfl
    · exact .string rfl rfl h
  · exact ⟨[10], rfl, h⟩

theorem cJSONParseWithOpts_print_sample :
    ∃ text, printValue (fun n : Nat => cstr (toString n)) true 0 Item.sample = .ok (some text) ∧
      cJSONParseWithOpts (fun _ => 0) text true = some (Item.sample.toCJson, []) :=
  cJSONParseWithOpts_print (Item.sample_wellFormed (by decide)) true
    fun h => absurd h.right.right.right (List.cons_ne_nil _ _)

-- The JSON value that a text denotes is a meaning of it.

def denoting : TextMeaning where
  Str t s     := ∃ n cs, t = utf8Bytes ('"' :: (n ++ ['"'])) ∧ Spells n cs ∧ cstring cs = s
  Value t c   := ∃ text v, t = utf8Bytes text ∧ Denotes text (.value v) ∧ v.toCJson = c
  Items t cs  := ∃ text vs, t = utf8Bytes text ∧ Denotes text (.items vs) ∧ itemsToCJson vs = cs
  Members t cs := ∃ text ms, t = utf8Bytes text ∧ Denotes text (.members ms) ∧ membersToCJson ms = cs
  nullWord  := ⟨_, _, rfl, .null, rfl⟩
  falseWord := ⟨_, _, rfl, .false, rfl⟩
  trueWord  := ⟨_, _, rfl, .true, rfl⟩
  number h  := ⟨_, _, rfl, .number h, rfl⟩
  string h  := by
    obtain ⟨n, cs, rfl, hspells, rfl⟩ := h
    exact ⟨_, _, rfl, .string hspells, rfl⟩
  emptyArray := ⟨_, _, rfl, .emptyArray isWhitespace_nil, rfl⟩
  array h := by
    obtain ⟨text, vs, rfl, hd, rfl⟩ := h
    exact ⟨'[' :: (text ++ [']']), _, by rw [utf8Bytes_ascii (by decide), utf8Bytes_append]; rfl, .array hd, rfl⟩
  emptyObject {w} hw :=
    ⟨'\x7b' :: (w ++ ['\x7d']), _, by rw [utf8Bytes_ascii (by decide), utf8Bytes_append]; rfl, .emptyObject hw, rfl⟩
  object h := by
    obtain ⟨text, vs, rfl, hd, rfl⟩ := h
    exact ⟨'\x7b' :: (text ++ ['\x7d']), _, by rw [utf8Bytes_ascii (by decide), utf8Bytes_append]; rfl, .object hd, rfl⟩
  one {w _ _} hw h := by
    obtain ⟨text, v, rfl, hd, rfl⟩ := h
    exact ⟨w ++ text ++ [], _, by rw [List.append_nil, utf8Bytes_append], .item hw hd isWhitespace_nil, rfl⟩
  more {w _ _ _ _} hw h h' := by
    obtain ⟨text, v, rfl, hd, rfl⟩ := h
    obtain ⟨text', vs, rfl, hd', rfl⟩ := h'
    refine ⟨w ++ text ++ [] ++ ',' :: text', _, ?_, .items (.item hw hd isWhitespace_nil) hd', rfl⟩
    rw [List.append_nil, utf8Bytes_append, utf8Bytes_ascii (by decide), utf8Bytes_append]
  member {w _ _ v _ _ v'} hw hn hv h hv' := by
    obtain ⟨n, name, rfl, hspells, rfl⟩ := hn
    obtain ⟨text, value, rfl, hd, rfl⟩ := h
    refine ⟨w ++ '"' :: (n ++ '"' :: ([] ++ ':' :: (v ++ text ++ v'))), _, ?_,
      .member hw hspells isWhitespace_nil (.item hv hd hv'), rfl⟩
    simp only [utf8Bytes_append, utf8Bytes_ascii (by decide : '"'.toNat < 128),
      utf8Bytes_ascii (by decide : ':'.toNat < 128), List.append_assoc, List.cons_append, List.nil_append]
    rfl
  members {w _ _ v _ _ _ _} hw hn hv h h' := by
    obtain ⟨n, name, rfl, hspells, rfl⟩ := hn
    obtain ⟨text, value, rfl, hd, rfl⟩ := h
    obtain ⟨text', ms, rfl, hd', rfl⟩ := h'
    refine ⟨w ++ '"' :: (n ++ '"' :: ([] ++ ':' :: (v ++ text ++ []))) ++ ',' :: text', _, ?_,
      .members (.member hw hspells isWhitespace_nil (.item hv hd isWhitespace_nil)) hd', rfl⟩
    simp only [utf8Bytes_append, utf8Bytes_ascii (by decide : '"'.toNat < 128),
      utf8Bytes_ascii (by decide : ':'.toNat < 128), utf8Bytes_ascii (by decide : ','.toNat < 128),
      List.append_assoc, List.cons_append, List.nil_append]
    rfl

-- What is printed for a character spells it.
theorem spells_printed_escape {e c : Char} (he : escaped? e = some c)
    (hprint : utf8Bytes ['\\', e] = (String.utf8EncodeChar c).flatMap printByte) :
    ∃ t, utf8Bytes t = (String.utf8EncodeChar c).flatMap printByte ∧
      ∀ t' s, Spells t' s → Spells (t ++ t') (c :: s) :=
  ⟨['\\', e], hprint, fun _ _ h => .escape he h⟩

theorem spells_printed_control {c : Char} (hc : c ≠ '\x00') (hlow : c.toNat < 32)
    (hspecial : c ∉ ['"', '\\', '\x08', '\x0c', '\n', '\r', '\t']) :
    ∃ t, utf8Bytes t = (String.utf8EncodeChar c).flatMap printByte ∧
      ∀ t' s, Spells t' s → Spells (t ++ t') (c :: s) := by
  have hall : ∀ i : Fin 32, Char.ofNat i ≠ '\x00' →
      Char.ofNat i ∉ ['"', '\\', '\x08', '\x0c', '\n', '\r', '\t'] →
      utf8Bytes ('\\' :: 'u' :: sprintf04x (cchar (Char.ofNat i))) =
        (String.utf8EncodeChar (Char.ofNat i)).flatMap printByte ∧
      hex4? '0' '0' (Nat.digitChar ((cchar (Char.ofNat i)).toNat / 16))
        (Nat.digitChar ((cchar (Char.ofNat i)).toNat % 16)) = some i.val := by
    decide +kernel
  have hcontrol := hall ⟨c.toNat, hlow⟩
  rw [Char.ofNat_toNat] at hcontrol
  obtain ⟨hbytes, hhex⟩ := hcontrol hc hspecial
  refine ⟨_, hbytes, fun t' s h => ?_⟩
  have hspells := Spells.unicode hhex (.inl (by simp only; omega)) h
  rwa [Char.ofNat_toNat] at hspells

theorem spells_printed_plain {c : Char} (hlow : 32 ≤ c.toNat)
    (hspecial : c ∉ ['"', '\\', '\x08', '\x0c', '\n', '\r', '\t']) :
    ∃ t, utf8Bytes t = (String.utf8EncodeChar c).flatMap printByte ∧
      ∀ t' s, Spells t' s → Spells (t ++ t') (c :: s) := by
  have hplain : ' ' ≤ c ∧ c ≠ '"' ∧ c ≠ '\\' := by
    refine ⟨hlow, ?_, ?_⟩ <;> rintro rfl <;> simp at hspecial
  have hbyte (u : UInt8) (hu : u ∈ String.utf8EncodeChar c) : printByte u = [u] := by
    have hhigh : 31 < u := by
      rcases mem_utf8EncodeChar hu with ⟨hlt, rfl⟩ | hle
      · rw [UInt8.lt_iff_toNat_lt, cchar, Nat.toUInt8, UInt8.toNat_ofNat', Nat.mod_eq_of_lt (by omega)]
        exact hlow
      · exact UInt8.lt_of_lt_of_le (by decide) hle
    exact if_pos ⟨hhigh, (isVerbatim_utf8EncodeChar hplain hu).right⟩
  refine ⟨[c], ?_, fun t' s h => .plain hplain h⟩
  rw [utf8Bytes, List.flatMap_singleton, List.flatMap_congr hbyte, List.flatMap_singleton']

theorem spells_printed {c : Char} (hc : c ≠ '\x00') :
    ∃ t, utf8Bytes t = (String.utf8EncodeChar c).flatMap printByte ∧
      ∀ t' s, Spells t' s → Spells (t ++ t') (c :: s) := by
  by_cases hspecial : c ∈ ['"', '\\', '\x08', '\x0c', '\n', '\r', '\t']
  case pos =>
    simp only [List.mem_cons, List.not_mem_nil, or_false] at hspecial
    rcases hspecial with rfl | rfl | rfl | rfl | rfl | rfl | rfl
    · exact spells_printed_escape (e := '"') rfl (by decide)
    · exact spells_printed_escape (e := '\\') rfl (by decide)
    · exact spells_printed_escape (e := 'b') rfl (by decide)
    · exact spells_printed_escape (e := 'f') rfl (by decide)
    · exact spells_printed_escape (e := 'n') rfl (by decide)
    · exact spells_printed_escape (e := 'r') rfl (by decide)
    · exact spells_printed_escape (e := 't') rfl (by decide)
  case neg =>
    by_cases hlow : c.toNat < 32
    case pos => exact spells_printed_control hc hlow hspecial
    case neg => exact spells_printed_plain (Nat.le_of_not_lt hlow) hspecial

-- A string in UTF-8.
def IsUtf8 (s : Bytes) : Prop :=
  ∃ cs, '\x00' ∉ cs ∧ s = utf8Bytes cs

theorem denoting_quotedText {s : Bytes} (h : IsUtf8 s) : denoting.Str (quotedText s) s := by
  obtain ⟨cs, hnul, rfl⟩ := h
  have hspells : ∃ t, utf8Bytes t = (utf8Bytes cs).flatMap printByte ∧ Spells t cs := by
    induction cs
    case nil          => exact ⟨[], rfl, .nil⟩
    case cons c cs hi =>
      rw [List.mem_cons, not_or] at hnul
      obtain ⟨t, htext, hspells⟩ := hi hnul.right
      obtain ⟨t', htext', hspells'⟩ := spells_printed (Ne.symm hnul.left)
      exact ⟨t' ++ t, by rw [utf8Bytes_append, utf8Bytes_cons, List.flatMap_append, htext, htext'], hspells' t cs hspells⟩
  obtain ⟨t, htext, hspells⟩ := hspells
  refine ⟨t, cs, ?_, hspells, ?_⟩
  · rw [quotedText, utf8Bytes_ascii (by decide), utf8Bytes_append, htext]
    rfl
  · rw [cstring, List.filter_eq_self.mpr]
    exact fun c hc => by simpa using ne_of_mem_of_not_mem hc hnul

-- Where the strings are in UTF-8, the text is JSON, and denotes what is printed.
theorem printValue_isText {item : Item α} (h : WellFormed printNumber IsUtf8 item) (fmt : Bool) (depth : Nat)
    (hbare : ¬IsBareObject fmt depth item) :
    ∃ text v, printValue printNumber fmt depth item = .ok (some (utf8Bytes text)) ∧ IsText text v ∧
      v.toCJson = item.toCJson := by
  obtain ⟨_, hprint, text, v, rfl, hd, hv⟩ := denoting.printValue_eq (fun s => denoting_quotedText) h fmt depth hbare
  exact ⟨text, v, hprint, hd.item_tight, hv⟩

theorem printValue_isText_sample :
    ∃ text v, printValue (fun n : Nat => cstr (toString n)) true 0 Item.sample = .ok (some (utf8Bytes text)) ∧
      IsText text v ∧ v.toCJson = Item.sample.toCJson :=
  printValue_isText (Item.sample_wellFormed ⟨['\n'], by decide, rfl⟩) true 0
    fun h => absurd h.right.right.right (List.cons_ne_nil _ _)
