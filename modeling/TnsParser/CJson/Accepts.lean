import TnsParser.CJson.Reads

-- Every JSON text is read as the value that it denotes.

open Json

variable {stale : Bytes → UInt32} {t ds s : List Char} {rest : Bytes} {c : Char}

-- A string as it is kept, without null characters.
def cstring (s : List Char) : Bytes :=
  utf8Bytes (s.filter (· ≠ '\x00'))

-- What is kept of a value. The value of a number is not.
mutual

def Json.toCJson : Json → CJson
  | null      => ⟨cJSONNull, [], none, []⟩
  | bool b    => ⟨if b then cJSONTrue else cJSONFalse, [], none, []⟩
  | number _  => ⟨cJSONNumber, [], none, []⟩
  | string s  => ⟨cJSONString, cstring s, none, []⟩
  | array vs  => ⟨cJSONArray, [], none, itemsToCJson vs⟩
  | object ms => ⟨cJSONObject, [], none, membersToCJson ms⟩

def Json.itemsToCJson : List Json → List CJson
  | []      => []
  | v :: vs => v.toCJson :: itemsToCJson vs

def Json.membersToCJson : List (List Char × Json) → List CJson
  | []              => []
  | (name, v) :: ms => { v.toCJson with string := some (cstring name) } :: membersToCJson ms

end

-- The item that is parsed, and where the text of it ends.
def cJSONParseWithOpts (stale : Bytes → UInt32) (value : Bytes) (requireNullTerminated : Bool) :
    Option (CJson × Bytes) := do
  let (c, end') ← parseValue stale (2 * value.length + 1) (skip value)
  if requireNullTerminated then
    let end' := skip end'
    if end'.headD 0 ≠ 0 then none else return (c, end')
  else return (c, end')

theorem cJSONParse_eq (value : Bytes) :
    cJSONParse stale value = (cJSONParseWithOpts stale value false).map (·.1) := by
  rw [cJSONParse, cJSONParseWithOpts]
  cases parseValue stale (2 * value.length + 1) (skip value) <;> rfl

-- Strings.

theorem nul_notMem_utf8Bytes (h : '\x00' ∉ s) : 0 ∉ utf8Bytes s := by
  intro hmem
  obtain ⟨c, hc, hu⟩ := List.mem_flatMap.mp hmem
  rcases mem_utf8EncodeChar hu with ⟨hlt, hz⟩ | hle
  · have hnul : '\x00' = c := cchar_inj (by decide) hlt hz
    exact h (hnul ▸ hc)
  · exact absurd hle (by decide)

theorem reads_spells (h : Spells t s) :
    ReadsString stale (cchar '"' :: (utf8Bytes t ++ [cchar '"'])) (cstring s) where
  starts := ⟨_, rfl⟩
  string rest := by
    have hloop : parseStringLoop stale (cchar '"' :: (utf8Bytes t ++ cchar '"' :: rest)).length
        (utf8Bytes t ++ cchar '"' :: rest) [] = ([] ++ cstring s, cchar '"' :: rest) :=
      parseStringLoop_spells h (by simp; omega)
    have htake : (cstring s).takeWhile (· ≠ 0) = cstring s := by
      refine List.takeWhile_eq_self_iff.mpr fun u hu => ?_
      have hnul : 0 ∉ cstring s := nul_notMem_utf8Bytes (by simp)
      simpa using ne_of_mem_of_not_mem hu hnul
    rw [List.cons_append, List.append_assoc, List.singleton_append, parseString]
    simp only [List.headD_cons, ne_eq, not_true_eq_false, if_false, if_true, List.drop_succ_cons, List.drop_zero,
      hloop, List.nil_append]
    exact congrArg (fun s => some (s, rest)) htake

-- Numbers.

theorem isDigit_lt (h : c.isDigit) : c.toNat < 128 := by
  simp only [Char.isDigit, Bool.and_eq_true, decide_eq_true_eq] at h
  exact Nat.lt_of_le_of_lt (UInt32.le_iff_toNat_le.mp h.right) (by decide)

theorem isDigit_cchar (h : c.isDigit) : isDigit (cchar c) = true ∧ (c ≠ '0' → cchar c ≠ cchar '0') := by
  have hall : ∀ i : Fin 128, (Char.ofNat i).isDigit → isDigit (cchar (Char.ofNat i)) = true := by
    decide +kernel
  have hdigit := hall ⟨c.toNat, isDigit_lt h⟩
  rw [Char.ofNat_toNat] at hdigit
  exact ⟨hdigit h, fun hne heq => hne <| cchar_inj (isDigit_lt h) (by decide) heq⟩

theorem not_digit {u : UInt8} (h : isDigit u = true) : u ≠ cchar '-' ∧ u ≠ cchar '+' := by
  constructor <;> rintro rfl <;> exact absurd h (by decide)

theorem headD_digits (hds : ∀ c ∈ ds, c.isDigit) (hne : ds ≠ []) :
    isDigit ((utf8Bytes ds ++ rest).headD 0) = true := by
  cases ds
  case nil       => exact absurd rfl hne
  case cons c ds =>
    have hc := hds c List.mem_cons_self
    rw [utf8Bytes_ascii (isDigit_lt hc)]
    exact (isDigit_cchar hc).left

-- The digits up to a byte that is none.
theorem dropWhile_digits (hds : ∀ c ∈ ds, c.isDigit) (h : isDigit (rest.headD 0) = false) :
    (utf8Bytes ds ++ rest).dropWhile isDigit = rest := by
  have hall : ∀ u ∈ utf8Bytes ds, isDigit u = true := by
    intro u hu
    obtain ⟨c, hc, hu⟩ := List.mem_flatMap.mp hu
    have hdigit := hds c hc
    rw [utf8EncodeChar_ascii (isDigit_lt hdigit), List.mem_singleton] at hu
    rw [hu, (isDigit_cchar hdigit).left]
  rw [List.dropWhile_append_of_pos hall]
  cases rest
  case nil  => rfl
  case cons => exact List.dropWhile_cons_of_neg (by simpa using h)

-- The parts of a number, and what they are told by.

def IsInteger (int : List Char) : Prop :=
  int = ['0'] ∨ ∃ d ds, int = d :: ds ∧ d ≠ '0' ∧ d.isDigit ∧ ∀ c ∈ ds, c.isDigit

def IsFraction (frac : List Char) : Prop :=
  frac = [] ∨ ∃ ds, frac = '.' :: ds ∧ ds ≠ [] ∧ ∀ c ∈ ds, c.isDigit

def IsExponent (exp : List Char) : Prop :=
  exp = [] ∨ ∃ e sign ds, exp = e :: (sign ++ ds) ∧ (e = 'e' ∨ e = 'E') ∧
    (sign = [] ∨ sign = ['+'] ∨ sign = ['-']) ∧ ds ≠ [] ∧ ∀ c ∈ ds, c.isDigit

theorem IsInteger.headD (h : IsInteger t) : isDigit ((utf8Bytes t ++ rest).headD 0) = true := by
  rcases h with rfl | ⟨d, ds, rfl, -, hd, -⟩
  · rfl
  · rw [utf8Bytes_ascii (isDigit_lt hd)]
    exact (isDigit_cchar hd).left

theorem IsExponent.headD (h : IsExponent t) (hrest : Ends rest) :
    isDigit ((utf8Bytes t ++ rest).headD 0) = false ∧ (utf8Bytes t ++ rest).headD 0 ≠ cchar '.' := by
  rcases h with rfl | ⟨e, sign, ds, rfl, rfl | rfl, -, -, -⟩
  · exact ⟨hrest.digit, hrest.dot⟩
  · exact ⟨rfl, (by decide : cchar 'e' ≠ cchar '.')⟩
  · exact ⟨rfl, (by decide : cchar 'E' ≠ cchar '.')⟩

theorem IsFraction.headD {exp : List Char} (h : IsFraction t) (hexp : IsExponent exp) (hrest : Ends rest) :
    isDigit ((utf8Bytes t ++ (utf8Bytes exp ++ rest)).headD 0) = false := by
  rcases h with rfl | ⟨ds, rfl, -, -⟩
  · exact (hexp.headD hrest).left
  · rfl

-- `parse_number` passes over each part, and over nothing behind it.

theorem minus_skip {minus : List Char} {p : Bytes} (hminus : minus = [] ∨ minus = ['-'])
    (hd : isDigit (rest.headD 0) = true) (hp : p = utf8Bytes minus ++ rest) :
    (if p.headD 0 = cchar '-' then p.drop 1 else p) = rest := by
  subst hp
  rcases hminus with rfl | rfl
  · exact if_neg (not_digit hd).left
  · exact if_pos rfl

theorem IsInteger.skip {p p' : Bytes} (h : IsInteger t) (hd : isDigit (rest.headD 0) = false)
    (hp : p = utf8Bytes t ++ rest) (hp' : p' = if p.headD 0 = cchar '0' then p.drop 1 else p) :
    (if isDigit (p'.headD 0) ∧ p'.headD 0 ≠ cchar '0' then p'.dropWhile isDigit else p') = rest := by
  subst hp
  rcases h with rfl | ⟨d, ds, rfl, hne, hdigit, hds⟩
  · have hrest : p' = rest := hp'.trans (if_pos rfl)
    rw [hrest, hd]
    exact if_neg fun h => Bool.false_ne_true h.left
  · obtain ⟨hfirst, hzero⟩ := isDigit_cchar hdigit
    have hhead : (utf8Bytes (d :: ds) ++ rest).headD 0 = cchar d := by
      rw [utf8Bytes_ascii (isDigit_lt hdigit)]
      rfl
    have hall : p' = utf8Bytes (d :: ds) ++ rest := hp'.trans (if_neg (hhead ▸ hzero hne))
    rw [hall, hhead, if_pos ⟨hfirst, hzero hne⟩]
    exact dropWhile_digits (List.forall_mem_cons.mpr ⟨hdigit, hds⟩) hd

theorem IsFraction.skip {p : Bytes} (h : IsFraction t) (hd : isDigit (rest.headD 0) = false)
    (hdot : rest.headD 0 ≠ cchar '.') (hp : p = utf8Bytes t ++ rest) :
    (if p.headD 0 = cchar '.' ∧ isDigit (p.getD 1 0) then (p.drop 1).dropWhile isDigit else p) = rest := by
  subst hp
  rcases h with rfl | ⟨ds, rfl, hne, hds⟩
  · exact if_neg fun h => hdot h.left
  · have hbehind : isDigit ((utf8Bytes ds ++ rest).headD 0) = true := headD_digits hds hne
    have hsecond (q : Bytes) : (cchar '.' :: q).getD 1 0 = q.headD 0 := by cases q <;> rfl
    rw [utf8Bytes_ascii (by decide), List.cons_append, if_pos ⟨rfl, by rwa [hsecond]⟩]
    exact dropWhile_digits hds hd

theorem sign_skip {sign : List Char} {p : Bytes} (hsign : sign = [] ∨ sign = ['+'] ∨ sign = ['-'])
    (hd : isDigit (rest.headD 0) = true) (hp : p = utf8Bytes sign ++ rest) :
    (if p.headD 0 = cchar '+' ∨ p.headD 0 = cchar '-' then p.drop 1 else p) = rest := by
  subst hp
  rcases hsign with rfl | rfl | rfl
  · exact if_neg (not_or.mpr (not_digit hd).symm)
  · exact if_pos (.inl rfl)
  · exact if_pos (.inr rfl)

theorem IsExponent.skip {p : Bytes} (h : IsExponent t) (hrest : Ends rest) (hp : p = utf8Bytes t ++ rest) :
    (if p.headD 0 = cchar 'e' ∨ p.headD 0 = cchar 'E' then
      (if (p.drop 1).headD 0 = cchar '+' ∨ (p.drop 1).headD 0 = cchar '-' then (p.drop 1).drop 1
        else p.drop 1).dropWhile isDigit
    else p) = rest := by
  rcases h with rfl | ⟨e, sign, ds, rfl, he, hsign, hne, hds⟩
  · rw [hp]
    exact if_neg (not_or.mpr hrest.exp)
  · have hlt : e.toNat < 128 := by rcases he with rfl | rfl <;> decide
    rw [utf8Bytes_ascii hlt, List.cons_append, utf8Bytes_append, List.append_assoc] at hp
    have hdrop : p.drop 1 = utf8Bytes sign ++ (utf8Bytes ds ++ rest) := congrArg (List.drop 1) hp
    have hexp : p.headD 0 = cchar 'e' ∨ p.headD 0 = cchar 'E' := by
      rw [hp]
      exact he.imp (congrArg cchar) (congrArg cchar)
    rw [if_pos hexp, sign_skip hsign (headD_digits hds hne) hdrop, dropWhile_digits hds hrest.digit]

theorem parseNumber_number (h : IsNumber t) (hrest : Ends rest) : parseNumber (utf8Bytes t ++ rest) = rest := by
  obtain ⟨minus, int, frac, exp, rfl, hminus, hint, hfrac, hexp⟩ := h
  have hint : IsInteger int := hint
  have hfrac : IsFraction frac := hfrac
  have hexp : IsExponent exp := hexp
  obtain ⟨hdigit, hdot⟩ := hexp.headD hrest
  rw [parseNumber]
  refine hexp.skip hrest <| hfrac.skip hdigit hdot <| hint.skip (hfrac.headD hexp hrest) ?_ rfl
  refine minus_skip hminus hint.headD ?_
  simp only [utf8Bytes_append, List.append_assoc]

-- Values.

theorem reads_isNumber (h : IsNumber t) : Reads stale (utf8Bytes t) ⟨cJSONNumber, [], none, []⟩ := by
  refine reads_number ?_ fun rest hrest => parseNumber_number h hrest
  obtain ⟨minus, int, frac, exp, rfl, rfl | rfl, hint, -, -⟩ := h
  · rw [List.nil_append, List.append_assoc, utf8Bytes_append]
    exact .inr (IsInteger.headD hint)
  · exact .inl rfl

theorem isBlank_utf8Bytes (h : IsWhitespace s) : IsBlank (utf8Bytes s) := by
  intro u hu
  obtain ⟨c, hc, hu⟩ := List.mem_flatMap.mp hu
  have hc := h c hc
  simp only [List.mem_cons, List.not_mem_nil, or_false] at hc
  rcases hc with rfl | rfl | rfl | rfl
  all_goals
    rw [utf8EncodeChar_ascii (by decide), List.mem_singleton] at hu
    rw [hu]
    decide

-- A value with white space around it.
def ReadsAround (stale : Bytes → UInt32) (t : Bytes) (c : CJson) : Prop :=
  ∃ w t' w', t = w ++ t' ++ w' ∧ IsBlank w ∧ IsBlank w' ∧ Reads stale t' c

-- A member of an object with white space around its parts.
def ReadsMember (stale : Bytes → UInt32) (t name : Bytes) (c : CJson) : Prop :=
  ∃ w n w' t', t = w ++ n ++ w' ++ cchar ':' :: t' ∧ IsBlank w ∧ IsBlank w' ∧ ReadsString stale n name ∧
    ReadsAround stale t' c

-- What is read of a text of a value, or of items or members. A single one of these may also have others
-- behind it.
def Json.Part.IsRead (stale : Bytes → UInt32) (t : Bytes) : Part → Prop
  | value v    => Reads stale t v.toCJson
  | items vs   => (∀ v, vs = [v] → ReadsAround stale t v.toCJson) ∧ ReadsItems stale t (itemsToCJson vs)
  | members ms => (∀ m, ms = [m] → ReadsMember stale t (cstring m.1) m.2.toCJson) ∧
      ReadsMembers stale t (membersToCJson ms)

theorem Json.Denotes.ne_nil {vs : List Json} (h : Denotes t (.items vs)) : vs ≠ [] := by
  cases h <;> exact List.cons_ne_nil _ _

theorem Json.Denotes.ne_nil' {ms : List (List Char × Json)} (h : Denotes t (.members ms)) : ms ≠ [] := by
  cases h <;> exact List.cons_ne_nil _ _

theorem Json.Denotes.isRead {p : Part} (h : Denotes t p) : p.IsRead stale (utf8Bytes t) := by
  induction h
  case null  => exact reads_null
  case true  => exact reads_true
  case false => exact reads_false
  case number h => exact reads_isNumber h
  case string h =>
    rw [utf8Bytes_ascii (by decide), utf8Bytes_append]
    exact (reads_spells h).reads
  case emptyArray hw =>
    rw [utf8Bytes_ascii (by decide), utf8Bytes_append]
    exact reads_emptyArray (isBlank_utf8Bytes hw)
  case array hi =>
    rw [utf8Bytes_ascii (by decide), utf8Bytes_append]
    exact hi.right.reads
  case emptyObject hw =>
    rw [utf8Bytes_ascii (by decide), utf8Bytes_append]
    exact reads_emptyObject (isBlank_utf8Bytes hw)
  case object hi =>
    rw [utf8Bytes_ascii (by decide), utf8Bytes_append]
    exact hi.right.reads
  case item t w w' v hw _ hw' hi =>
    have hw := isBlank_utf8Bytes hw
    have hw' := isBlank_utf8Bytes hw'
    rw [utf8Bytes_append, utf8Bytes_append]
    refine ⟨fun v' hv => ?_, hi.one hw hw'⟩
    cases hv
    exact ⟨_, _, _, rfl, hw, hw', hi⟩
  case items t t' v vs _ h' hi hi' =>
    obtain ⟨w, u, w', htext, hw, hw', hu⟩ := hi.left v rfl
    rw [utf8Bytes_append, utf8Bytes_ascii (by decide), htext]
    exact ⟨fun v' hv => absurd (List.cons.inj hv).right h'.ne_nil, hu.more hw hw' hi'.right⟩
  case member w n w' t name v hw hn hw' _ hi =>
    have hw := isBlank_utf8Bytes hw
    have hw' := isBlank_utf8Bytes hw'
    have hname : ReadsString stale _ _ := reads_spells hn
    obtain ⟨v₁, u, v₂, htext, hv₁, hv₂, hu⟩ := hi.left v rfl
    have hmember : utf8Bytes (w ++ '"' :: (n ++ '"' :: (w' ++ ':' :: t))) =
        utf8Bytes w ++ (cchar '"' :: (utf8Bytes n ++ [cchar '"'])) ++ utf8Bytes w' ++ cchar ':' :: (v₁ ++ u ++ v₂) := by
      rw [← htext]
      simp only [utf8Bytes_append, utf8Bytes_ascii (by decide : '"'.toNat < 128),
        utf8Bytes_ascii (by decide : ':'.toNat < 128), List.append_assoc, List.cons_append, List.nil_append]
    rw [hmember]
    refine ⟨fun m hm => ?_, hname.one hw hw' hu hv₁ hv₂⟩
    cases hm
    exact ⟨_, _, _, _, rfl, hw, hw', hname, _, _, _, rfl, hv₁, hv₂, hu⟩
  case members t t' m ms _ h' hi hi' =>
    obtain ⟨w, n, w', t₁, htext, hw, hw', hname, v₁, u, v₂, htext', hv₁, hv₂, hu⟩ := hi.left m rfl
    rw [utf8Bytes_append, utf8Bytes_ascii (by decide), htext, htext']
    exact ⟨fun m' hm => absurd (List.cons.inj hm).right h'.ne_nil', hname.more hw hw' hu hv₁ hv₂ hi'.right⟩

theorem skip_blank {w : Bytes} (hw : IsBlank w) : skip (w ++ rest) = skip rest :=
  List.dropWhile_append_of_pos fun u hu => decide_eq_true <| hw u hu

-- The whole text is read, and what is behind it decides only whether that is asked for.
theorem cJSONParseWithOpts_text {text : List Char} {v : Json} {garbage : Bytes} (h : IsText text v)
    (hg : Ends garbage) :
    cJSONParseWithOpts stale (utf8Bytes text ++ garbage) true =
        (if (skip garbage).headD 0 = 0 then some (v.toCJson, skip garbage) else none) ∧
      ∃ w, IsBlank w ∧ cJSONParseWithOpts stale (utf8Bytes text ++ garbage) false = some (v.toCJson, w ++ garbage) := by
  have hread : (Part.items [v]).IsRead stale (utf8Bytes text) := Denotes.isRead h
  obtain ⟨w, t, w', htext, hw, hw', ht⟩ := hread.left v rfl
  have hvalue : parseValue stale (2 * (utf8Bytes text ++ garbage).length + 1) (skip (utf8Bytes text ++ garbage)) =
      some (v.toCJson, w' ++ garbage) := by
    rw [htext, List.append_assoc, List.append_assoc, ht.starts.skip_eq hw]
    exact ht.value _ _ (by simp; omega) (hg.of_blank hw')
  refine ⟨?_, w', hw', ?_⟩
  · rw [cJSONParseWithOpts, hvalue]
    simp only [bind, Option.bind, if_true, skip_blank hw']
    exact ite_not ..
  · rw [cJSONParseWithOpts, hvalue]
    rfl

-- A pair of escape sequences in an array, with something behind it.

theorem cJSONParse_text {text : List Char} {v : Json} {garbage : Bytes} (h : IsText text v) (hg : Ends garbage) :
    cJSONParse stale (utf8Bytes text ++ garbage) = some v.toCJson := by
  obtain ⟨w, -, hparse⟩ := (cJSONParseWithOpts_text h hg).right
  rw [cJSONParse_eq, hparse, Option.map_some]
