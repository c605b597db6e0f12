import TnsParser.OracleTns.Rendering

-- What the JSON parser makes of the translation of data without bytes that mean something in JSON.

-- A byte that can close nothing in JSON, nor separate anything.
structure IsTame (c : UInt8) : Prop where
  nul       : c ≠ 0
  quote     : c ≠ cchar '"'
  backslash : c ≠ cchar '\\'
  comma     : c ≠ cchar ','
  brace     : c ≠ cchar '\x7d'
  colon     : c ≠ cchar ':'

variable {stale : Bytes → UInt32} {p q s rest : Bytes} {prev next c : UInt8} {n : Nat} {children : List CJson}

theorem IsTame.cases (h : IsTame c) : IsClean c ∨ c = cchar '(' ∨ c = cchar '=' ∨ c = cchar ')' := by
  by_cases ho : c = cchar '('
  case pos => exact .inr (.inl ho)
  case neg =>
    by_cases he : c = cchar '='
    case pos => exact .inr (.inr (.inl he))
    case neg =>
      by_cases hc : c = cchar ')'
      case pos => exact .inr (.inr (.inr hc))
      case neg => exact .inl ⟨isPlain_iff.mpr ⟨h.nul, ho, hc, he⟩, h.quote, h.backslash⟩

-- The bytes up to the first parenthesis or equals sign.
theorem exists_clean (h : ∀ c ∈ q, IsTame c) : ∃ s q', q = s ++ q' ∧ (∀ c ∈ s, IsClean c) ∧
    (q' = [] ∨ ∃ c p, q' = c :: p ∧ (c = cchar '(' ∨ c = cchar '=' ∨ c = cchar ')')) := by
  induction q
  case nil => exact ⟨[], [], rfl, List.forall_mem_nil _, .inl rfl⟩
  case cons c q hi =>
    obtain ⟨hc, hq⟩ := List.forall_mem_cons.mp h
    cases hc.cases
    case inr hc => exact ⟨[], c :: q, rfl, List.forall_mem_nil _, .inr ⟨c, q, rfl, hc⟩⟩
    case inl hc =>
      obtain ⟨s, q', rfl, hs, hq'⟩ := hi hq
      exact ⟨c :: s, q', rfl, List.forall_mem_cons.mpr ⟨hc, hs⟩, hq'⟩

theorem pieces_clean (h : ∀ c ∈ s, IsClean c) :
    pieces prev (s ++ q) next = s ++ pieces (s.getLastD prev) q next := by
  rw [pieces_append, pieces_plain fun c hc => (h c hc).toIsPlain]

def ClosesNothing (text : Bytes) : Prop :=
  (skip text).headD 0 ≠ cchar ':' ∧ (skip text).headD 0 ≠ cchar ',' ∧ (skip text).headD 0 ≠ cchar '\x7d'

theorem closesNothing_cons (hc : 32 < c) (h : c ≠ cchar ':' ∧ c ≠ cchar ',' ∧ c ≠ cchar '\x7d') :
    ClosesNothing (c :: p) := by
  rw [ClosesNothing, skip_cons hc]
  exact h

instance {text : Bytes} : Decidable (ClosesNothing text) :=
  inferInstanceAs <| Decidable (_ ∧ _)

-- No piece starts with what is behind a string or an object in JSON, if there is no parenthesis before it.
theorem closesNothing_pieces (h : ∀ c ∈ q, IsTame c) (hp : prev ≠ cchar ')') :
    ClosesNothing (pieces prev q next) := by
  induction q generalizing prev
  case nil => exact (by decide : ClosesNothing [])
  case cons c q hi =>
    obtain ⟨hc, hq⟩ := List.forall_mem_cons.mp h
    rw [pieces_cons]
    rcases hc.cases with hclean | rfl | rfl | rfl
    · have hpiece : piece (prev, c, q.headD next) = [c] := by
        simp [piece, strncat1, hclean.nul, hclean.open_, hclean.close, hclean.equal]
      rw [hpiece, List.singleton_append]
      by_cases hblank : 32 < c
      case pos =>
        exact closesNothing_cons hblank ⟨hc.colon, hc.comma, hc.brace⟩
      case neg =>
        have hskip : skip (c :: pieces c q next) = skip (pieces c q next) := by
          simp [skip, hclean.nul, UInt8.not_lt.mp hblank]
        rw [ClosesNothing, hskip]
        exact hi hq hclean.close
    · have hpiece : piece (prev, cchar '(', q.headD next) = cstr "\x7b\"" := if_neg hp
      rw [hpiece]
      exact @closesNothing_cons _ (cchar '\x7b') (by decide) (by decide)
    · by_cases hn : q.headD next = cchar '('
      case pos =>
        have hpiece : piece (prev, cchar '=', q.headD next) = cstr "\":" := if_pos hn
        rw [hpiece]
        exact @closesNothing_cons _ (cchar '"') (by decide) (by decide)
      case neg =>
        have hpiece : piece (prev, cchar '=', q.headD next) = cstr "\":\"" := if_neg hn
        rw [hpiece]
        exact @closesNothing_cons _ (cchar '"') (by decide) (by decide)
    · rw [piece_close, if_neg hp]
      exact @closesNothing_cons _ (cchar '"') (by decide) (by decide)

-- A string that nothing ends.
theorem parseStringLoop_unclosed {out : Bytes} (h : ∀ c ∈ s, IsClean c) (hn : s.length ≤ n) :
    (parseStringLoop stale n s out).2 = [] := by
  induction s generalizing n out
  case nil => cases n <;> simp [parseStringLoop]
  case cons c s hi =>
    obtain ⟨hc, hs⟩ := List.forall_mem_cons.mp h
    cases n
    case zero   => contradiction
    case succ n => simpa [parseStringLoop, hc.quote, hc.nul, hc.backslash] using hi hs (Nat.le_of_succ_le_succ hn)

theorem parseString_unclosed (h : ∀ c ∈ s, IsClean c) :
    ∃ out, parseString stale (cchar '"' :: s) = some (out, []) := by
  have hptr := @parseStringLoop_unclosed stale s (cchar '"' :: s).length [] h (by simp)
  refine ⟨(parseStringLoop stale (cchar '"' :: s).length s []).1.takeWhile (· ≠ 0), ?_⟩
  rw [parseString]
  simp only [List.headD_cons, ne_eq, not_true_eq_false, if_false, List.drop_succ_cons, List.drop_zero, hptr]
  rfl

theorem parseString_closed (h : ∀ c ∈ s, IsClean c) :
    parseString stale (cchar '"' :: (s ++ cchar '"' :: rest)) = some (s, rest) := by
  have hquoted : quoted s ++ rest = cchar '"' :: (s ++ cchar '"' :: rest) := by simp [quoted, cstr]
  exact hquoted ▸ parseString_quoted h

theorem parseValue_quote : parseValue stale (n + 1) (cchar '"' :: p) =
    (parseString stale (cchar '"' :: p)).map fun (s, value) => (⟨cJSONString, s, none, []⟩, value) := by
  obtain ⟨hnull, hfalse, htrue⟩ := not_word (cchar '"') (by decide) p
  simp only [parseValue, hnull, hfalse, htrue, if_false, List.headD_cons, if_true]

theorem parseValue_braceQuote : parseValue stale (n + 1) (cchar '\x7b' :: cchar '"' :: p) =
    (parseObject stale n (cchar '"' :: p)).map fun r => (⟨cJSONObject, [], none, r.1⟩, r.2) := by
  have hskip : skip (cchar '"' :: p) = cchar '"' :: p := skip_cons (by decide)
  rw [parseValue_brace, hskip]
  exact if_neg (by decide : cchar '"' ≠ cchar '\x7d')

-- What `parse_object` goes through.
structure ObjectParts (stale : Bytes → UInt32) (n : Nat) (value : Bytes) (children : List CJson) (rest : Bytes) :
    Prop where
  parts : ∃ name value', parseString stale (skip value) = some (name, value') ∧
    (skip value').headD 0 = cchar ':' ∧
    ∃ child value'', parseValue stale n (skip ((skip value').drop 1)) = some (child, value'') ∧
      ((skip value'').headD 0 = cchar ',' ∧
          (∃ cs, parseObject stale n ((skip value'').drop 1) = some (cs, rest) ∧
            children = { child with string := some name } :: cs) ∨
        (skip value'').headD 0 = cchar '\x7d' ∧ rest = (skip value'').drop 1 ∧
          children = [{ child with string := some name }])

theorem objectParts {value : Bytes} (h : parseObject stale (n + 1) value = some (children, rest)) :
    ObjectParts stale n value children rest := by
  rw [parseObject] at h
  simp only [Option.bind_eq_bind, Option.bind_eq_some_iff] at h
  obtain ⟨⟨name, value'⟩, hname, h⟩ := h
  refine ⟨name, value', hname, ?_⟩
  split at h
  case isTrue  => cases h
  case isFalse hcolon =>
    refine ⟨not_not.mp hcolon, ?_⟩
    obtain ⟨⟨child, value''⟩, hchild, h⟩ := Option.bind_eq_some_iff.mp h
    refine ⟨child, value'', hchild, ?_⟩
    dsimp only at h
    split at h
    case isTrue hcomma =>
      obtain ⟨⟨cs, rest'⟩, hcs, h⟩ := Option.bind_eq_some_iff.mp h
      cases h
      exact .inl ⟨hcomma, cs, hcs, rfl⟩
    case isFalse =>
      split at h
      case isTrue hbrace =>
        cases h
        exact .inr ⟨hbrace, rfl, rfl⟩
      case isFalse => cases h

-- What a string is, and what is behind it, that starts in front of such data.
inductive StringCases (q : Bytes) (next : UInt8) (name value : Bytes) : Prop
  | lost (h : ClosesNothing value)
  | equal {p : Bytes} (hq : q = name ++ cchar '=' :: p) (hs : ∀ c ∈ name, IsClean c)
      (h : value = cchar ':' :: ((if p.headD next = cchar '(' then [] else [cchar '"']) ++ pieces (cchar '=') p next))
  | close {p : Bytes} (hq : q = name ++ cchar ')' :: p) (hs : ∀ c ∈ name, IsClean c)
      (h : value = afterEntry (p.headD next) ++ pieces (cchar ')') p next)

theorem stringCases {name value : Bytes} (hq : ∀ c ∈ q, IsTame c) (hp : prev ≠ cchar ')')
    (h : parseString stale (cchar '"' :: pieces prev q next) = some (name, value)) :
    StringCases q next name value := by
  obtain ⟨s, q', rfl, hs, hq'⟩ := exists_clean hq
  rw [pieces_clean hs] at h
  have hlast : s.getLastD prev ≠ cchar ')' := getLastD_plain (fun c hc => (hs c hc).toIsPlain) hp
  generalize s.getLastD prev = prev' at h hlast
  rcases hq' with rfl | ⟨c, p, rfl, hc⟩
  · obtain ⟨out, hout⟩ := @parseString_unclosed stale _ hs
    have hnil : pieces prev' [] next = [] := rfl
    rw [hnil, List.append_nil, hout] at h
    cases h
    exact .lost (by decide)
  · have htame : ∀ c ∈ p, IsTame c := fun c hc => hq c (by simp [hc])
    rw [pieces_cons] at h
    rcases hc with rfl | rfl | rfl
    · have hpiece : piece (prev', cchar '(', p.headD next) = [cchar '\x7b', cchar '"'] := if_neg hlast
      have hbrace : ∀ c ∈ s ++ [cchar '\x7b'], IsClean c :=
        List.forall_mem_append.mpr ⟨hs, List.forall_mem_singleton.mpr (by decide)⟩
      have htext : s ++ (piece (prev', cchar '(', p.headD next) ++ pieces (cchar '(') p next) =
          s ++ [cchar '\x7b'] ++ cchar '"' :: pieces (cchar '(') p next := by
        rw [hpiece]
        simp
      rw [htext, parseString_closed hbrace] at h
      cases h
      exact .lost (closesNothing_pieces htame (by decide))
    · have hpiece : piece (prev', cchar '=', p.headD next) =
          cchar '"' :: cchar ':' :: (if p.headD next = cchar '(' then [] else [cchar '"']) := by
        have hpiece : piece (prev', cchar '=', p.headD next) =
            if p.headD next = cchar '(' then cstr "\":" else cstr "\":\"" := rfl
        rw [hpiece]
        split <;> rfl
      rw [hpiece, List.cons_append, parseString_closed hs] at h
      cases h
      exact .equal rfl hs rfl
    · rw [piece_close, if_neg hlast] at h
      have htext : cstr "\"" ++ afterEntry (p.headD next) ++ pieces (cchar ')') p next =
          cchar '"' :: (afterEntry (p.headD next) ++ pieces (cchar ')') p next) := rfl
      rw [htext, parseString_closed hs] at h
      cases h
      exact .close rfl hs rfl

-- Behind an entry there is a parenthesis, or nothing that JSON goes on with.
theorem closesNothing_behind (hq : ∀ b ∈ c :: q, IsTame b) (hopen : c ≠ cchar '(') (hclose : c ≠ cchar ')') :
    ClosesNothing (pieces prev (c :: q) next) := by
  have hpiece : pieces prev (c :: q) next = pieces 0 (c :: q) next := by
    rw [pieces_cons, pieces_cons]
    simp [piece, hopen, hclose]
  rw [hpiece]
  exact closesNothing_pieces hq (by decide)

theorem parseValue_nil : parseValue stale n [] = none := by
  cases n <;> simp [parseValue, cstr, cchar, isDigit]

-- What the translation of the data from a parenthesis on is parsed to.
def ParsesDescriptors (stale : Bytes → UInt32) (n : Nat) : Prop :=
  ∀ q next children rest, (∀ c ∈ q, IsTame c) →
    parseObject stale n (cchar '"' :: pieces (cchar '(') q next) = some (children, rest) →
      ∃ (ds : Descriptors) (tail : Bytes), ds.Over IsClean ∧ cchar '(' :: q = ds.text ++ tail ∧
        tail.headD next ≠ cchar '(' ∧ children = ds.toCJsons ∧ rest = pieces (cchar ')') tail next

-- The value of an entry.
theorem ParsesDescriptors.value {name value' : Bytes} {child : CJson} (hi : ParsesDescriptors stale n)
    (hq : ∀ c ∈ p, IsTame c) (hs : ∀ c ∈ name, IsClean c)
    (h : parseValue stale (n + 1)
      (skip ((if p.headD next = cchar '(' then [] else [cchar '"']) ++ pieces (cchar '=') p next)) =
        some (child, value')) :
    ClosesNothing value' ∨ (skip value').headD 0 = cchar ':' ∨
      ∃ (d : Descriptor) (tail : Bytes), d.Over IsClean ∧
        cstr "(" ++ name ++ cchar '=' :: p = d.text ++ tail ∧ { child with string := some name } = d.toCJson ∧
        value' = afterEntry (tail.headD next) ++ pieces (cchar ')') tail next := by
  by_cases hopen : p.headD next = cchar '('
  case pos =>
    rw [if_pos hopen, List.nil_append] at h
    cases p
    case nil =>
      have hnil : skip (pieces (cchar '=') [] next) = [] := rfl
      rw [hnil, parseValue_nil] at h
      cases h
    case cons c q =>
      have hopen : c = cchar '(' := hopen
      subst hopen
      have htext : skip (pieces (cchar '=') (cchar '(' :: q) next) =
          cchar '\x7b' :: cchar '"' :: pieces (cchar '(') q next := by
        rw [pieces_cons]
        exact skip_cons (by decide)
      rw [htext, parseValue_braceQuote, Option.map_eq_some_iff] at h
      obtain ⟨⟨children, rest⟩, hchildren, h⟩ := h
      cases h
      have htame : ∀ c ∈ q, IsTame c := fun c hc => hq c (List.mem_cons_of_mem _ hc)
      obtain ⟨ds, tail, hds, htail, hnext, rfl, rfl⟩ := hi q next children rest htame hchildren
      cases tail
      case nil => exact .inl (by decide : ClosesNothing [])
      case cons b t =>
        have htame : ∀ c ∈ b :: t, IsTame c := fun c hc => hq c (htail ▸ List.mem_append_right _ hc)
        by_cases hclose : b = cchar ')'
        case neg => exact .inl (closesNothing_behind htame hnext hclose)
        case pos =>
          subst hclose
          refine .inr (.inr ⟨.node name ds, t, ⟨hs, hds⟩, ?_, rfl, ?_⟩)
          · rw [htail]
            simp [Descriptor.text, cstr]
          · rw [pieces_cons, piece_close, if_pos rfl]
            rfl
  case neg =>
    have hskip : skip ([cchar '"'] ++ pieces (cchar '=') p next) = cchar '"' :: pieces (cchar '=') p next :=
      skip_cons (by decide)
    rw [if_neg hopen, hskip, parseValue_quote, Option.map_eq_some_iff] at h
    obtain ⟨⟨s, value''⟩, hvalue, h⟩ := h
    cases h
    cases stringCases hq (by decide) hvalue
    case lost h => exact .inl h
    case equal h =>
      rw [h, skip_cons (by decide)]
      exact .inr (.inl rfl)
    case close p hp hs' h =>
      refine .inr (.inr ⟨.leaf name s, p, ⟨hs, hs'⟩, ?_, rfl, h⟩)
      rw [hp]
      simp [Descriptor.text, cstr]

theorem afterEntry_cases (next : UInt8) (p : Bytes) :
    next = cchar '(' ∧ skip (afterEntry next ++ p) = cchar ',' :: cchar '"' :: p ∨
      next ≠ cchar '(' ∧ skip (afterEntry next ++ p) = cchar '\x7d' :: p := by
  by_cases h : next = cchar '('
  case pos =>
    refine .inl ⟨h, ?_⟩
    rw [afterEntry, if_pos h]
    exact skip_cons (by decide)
  case neg =>
    refine .inr ⟨h, ?_⟩
    rw [afterEntry, if_neg h]
    exact skip_cons (by decide)

-- A parenthesis alone starts no descriptor.
theorem text_append_ne {ds : Descriptors} : [cchar '('] ≠ ds.text ++ p := by
  intro h
  obtain ⟨q, hq⟩ := ds.text_concat
  have hmem : cchar ')' ∈ [cchar '('] := by
    rw [h, hq]
    simp
  exact absurd hmem (by decide)

theorem parsesDescriptors (stale : Bytes → UInt32) (n : Nat) : ParsesDescriptors stale n := by
  induction n using Nat.strongRecOn
  case ind n hi =>
    intro q next children rest hq h
    cases n
    case zero => simp [parseObject] at h
    case succ n =>
      obtain ⟨name, value', hname, hcolon, child, value'', hchild, hnext⟩ := (objectParts h).parts
      have hskip : skip (cchar '"' :: pieces (cchar '(') q next) = cchar '"' :: pieces (cchar '(') q next :=
        skip_cons (by decide)
      rw [hskip] at hname
      cases stringCases hq (by decide) hname
      case lost h => exact absurd hcolon h.left
      case close p hp hs h =>
        rw [h] at hcolon
        rcases afterEntry_cases (p.headD next) (pieces (cchar ')') p next) with ⟨-, htext⟩ | ⟨-, htext⟩ <;>
        · rw [htext, List.headD_cons] at hcolon
          exact absurd hcolon (by decide)
      case equal p hp hs h =>
        have hp' : ∀ c ∈ p, IsTame c := fun c hc => hq c (by simp [hp, hc])
        have hentry : cchar '(' :: q = cstr "(" ++ name ++ cchar '=' :: p := by simp [hp, cstr]
        rw [h, skip_cons (by decide), List.drop_succ_cons, List.drop_zero] at hchild
        cases n
        case zero => simp [parseValue] at hchild
        case succ n =>
          rcases (hi n (by omega)).value hp' hs hchild with hlost | hlost | ⟨d, tail, hd, htail, hitem, hbehind⟩
          · rcases hnext with ⟨hc, -⟩ | ⟨hc, -⟩
            · exact absurd hc hlost.right.left
            · exact absurd hc hlost.right.right
          · rcases hnext with ⟨hc, -⟩ | ⟨hc, -⟩ <;>
              exact absurd (hlost.symm.trans hc) (by decide)
          · rw [htail] at hentry
            rw [hitem] at hnext
            rw [hbehind] at hnext
            rcases afterEntry_cases (tail.headD next) (pieces (cchar ')') tail next) with
              ⟨hopen, htext⟩ | ⟨hclose, htext⟩ <;> rw [htext, List.headD_cons] at hnext
            · rcases hnext with ⟨-, cs, hcs, hchildren⟩ | ⟨hc, -⟩
              case inr => exact absurd hc (by decide)
              rw [List.drop_succ_cons, List.drop_zero] at hcs
              cases tail
              case nil =>
                obtain ⟨ds, tail', -, htail', -⟩ := hi (n + 1) (by omega) [] next cs rest (List.forall_mem_nil _) hcs
                exact absurd htail' text_append_ne
              case cons b t =>
                have hopen : b = cchar '(' := hopen
                subst hopen
                have ht : ∀ c ∈ t, IsTame c := by
                  intro c hc
                  have hmem : c ∈ cchar '(' :: q := by
                    rw [hentry]
                    simp [hc]
                  rcases List.mem_cons.mp hmem with rfl | hmem
                  · exact ⟨by decide, by decide, by decide, by decide, by decide, by decide⟩
                  · exact hq c hmem
                have hpiece : piece (cchar ')', cchar '(', t.headD next) = [] := rfl
                rw [pieces_cons, hpiece, List.nil_append] at hcs
                obtain ⟨ds, tail', hds, htail', hlast, rfl, hrest⟩ := hi (n + 1) (by omega) t next cs rest ht hcs
                refine ⟨.cons d ds, tail', ⟨hd, hds⟩, ?_, hlast, hchildren, hrest⟩
                rw [hentry, htail', Descriptors.text, List.append_assoc]
            · rcases hnext with ⟨hc, -⟩ | ⟨-, hrest, hchildren⟩
              case inl => exact absurd hc (by decide)
              exact ⟨.one d, tail, hd, hentry, hclose, hchildren, hrest⟩

-- Data that are parsed start with the text of some descriptors, and are parsed to these.
theorem cJSONParse_pieces_tame {root : CJson} (hq : ∀ c ∈ q, IsTame c)
    (h : cJSONParse stale (cchar '\x7b' :: cchar '"' :: pieces (cchar '(') q next) = some root) :
    ∃ (ds : Descriptors) (tail : Bytes), ds.Over IsClean ∧ cchar '(' :: q = ds.text ++ tail ∧
      tail.headD next ≠ cchar '(' ∧ root = ⟨cJSONObject, [], none, ds.toCJsons⟩ := by
  have hskip : skip (cchar '\x7b' :: cchar '"' :: pieces (cchar '(') q next) =
      cchar '\x7b' :: cchar '"' :: pieces (cchar '(') q next := skip_cons (by decide)
  rw [cJSONParse, hskip, parseValue_braceQuote, Option.map_map, Option.map_eq_some_iff] at h
  obtain ⟨⟨children, rest⟩, hchildren, rfl⟩ := h
  obtain ⟨ds, tail, hds, htail, hnext, rfl, -⟩ := parsesDescriptors stale _ q next children rest hq hchildren
  exact ⟨ds, tail, hds, htail, hnext, rfl⟩

-- The text of descriptors is parsed to these, whatever is behind it but another one.
theorem cJSONParse_pieces_text {ds : Descriptors} {tail : Bytes} (hds : ds.Over IsClean)
    (h : cchar '(' :: q = ds.text ++ tail) (hn : tail.headD next ≠ cchar '(') :
    cJSONParse stale (cchar '\x7b' :: cchar '"' :: pieces (cchar '(') q next) =
      some ⟨cJSONObject, [], none, ds.toCJsons⟩ := by
  have htext : cchar '\x7b' :: cchar '"' :: pieces (cchar '(') q next =
      ds.render ++ pieces (ds.text.getLastD 0) tail next := by
    have hfirst : cchar '\x7b' :: cchar '"' :: pieces (cchar '(') q next = pieces 0 (cchar '(' :: q) next := by
      rw [pieces_cons]
      rfl
    have hbefore : beforeEntry 0 = cstr "\x7b\"" := rfl
    rw [hfirst, h, pieces_append, ds.pieces_text (hds.mono fun _ h => h.toIsPlain) _ _ hn, hbefore, Descriptors.render, ds.entries_eq]
    simp [cstr]
  rw [htext]
  generalize pieces (ds.text.getLastD 0) tail next = rest
  have hskip : skip (ds.render ++ rest) = ds.render ++ rest := skip_cons (by decide)
  have hentries : parseObject stale (2 * (ds.render ++ rest).length) (ds.entries ++ cchar '\x7d' :: rest) =
      some (ds.toCJsons, rest) := by
    have hlen : 2 * (ds.render ++ rest).length = 2 * ds.entries.length + 2 * rest.length + 3 + 1 := by
      simp [Descriptors.render, cstr]
      omega
    rw [hlen]
    exact ds.parseObject_entries hds _ (by omega) rest
  rw [cJSONParse, hskip, ds.parseValue_render hentries]
  rfl
