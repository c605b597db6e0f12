import TnsParser.Library.Sequences
import TnsParser.OracleTns.ConnectData
import TnsParser.OracleTns.Descriptor

-- The translation of connect data, byte by byte, and what it is for the text of a descriptor.

open Except Neighbours

-- What is added for the byte `c` between `prev` and `next`.
def piece : UInt8 × UInt8 × UInt8 → Bytes
  | (prev, c, next) =>
    if c = cchar '(' then
      if prev = cchar ')' then [] else cstr "\x7b\""
    else if c = cchar '=' then
      if next = cchar '(' then cstr "\":" else cstr "\":\""
    else if c = cchar ')' then
      if next = cchar '(' then
        if prev = cchar ')' then cstr ",\"" else cstr "\",\""
      else
        if prev = cchar ')' then cstr "\x7d" else cstr "\"\x7d"
    else
      strncat1 c

-- What is added for the bytes `p`, between `prev` and `next`.
def pieces (prev : UInt8) (p : Bytes) (next : UInt8) : Bytes :=
  triples prev p next |>.flatMap piece

variable {bufin p rest text : Bytes} {inlen outlen i : Nat} {prev c next last : UInt8}

theorem pieces_append {p' : Bytes} : pieces prev (p ++ p') next =
    pieces prev p (p'.headD next) ++ pieces (p.getLastD prev) p' next := by
  simp [pieces, triples_append]

theorem pieces_cons : pieces prev (c :: p) next = piece (prev, c, p.headD next) ++ pieces c p next := by
  simp [pieces, triples]

theorem connectDataByte_eq (h : bufin[i]? = some c) : connectDataByte bufin inlen i = .ok c :=
  reading_eq_ok.mpr h

theorem jsonPiece_eq (hp : bufin[i]? = some prev) (hc : bufin[i + 1]? = some c)
    (hn : bufin[i + 2]? = some next) : jsonPiece bufin inlen i = .ok (piece (prev, c, next)) := by
  simp only [jsonPiece, connectDataByte_eq hp, connectDataByte_eq hc, connectDataByte_eq hn, bind,
    Except.bind, piece, pure, Except.pure]
  grind

-- The loop adds the pieces for the bytes that it goes through.
theorem jsonLoop_eq (ho : 2 < outlen) (h : bufin.drop i = prev :: (p ++ next :: rest)) :
    jsonLoop bufin inlen outlen p.length i text = .ok (text ++ pieces prev p next) := by
  induction p generalizing i prev text
  case nil => simp [jsonLoop, pieces, triples]
  case cons c p hi =>
    have byte (j : Nat) : bufin[i + j]? = (prev :: (c :: p ++ next :: rest))[j]? := by
      rw [← h, List.getElem?_drop]
    have hp : bufin[i]? = some prev := byte 0
    have hc : bufin[i + 1]? = some c := byte 1
    have hn : bufin[i + 2]? = some (p.headD next) := by
      rw [byte 2]
      cases p <;> rfl
    have htail : bufin.drop (i + 1) = c :: (p ++ next :: rest) := by
      rw [← List.drop_drop, h]
      rfl
    simp only [jsonLoop, List.length_cons, jsonPiece_eq hp hc hn, Nat.zero_add, ho, if_true, bind,
      Except.bind, hi htail, pieces_cons, List.append_assoc]

-- The first parenthesis and the last one are added outside of the loop.
theorem pieces_parens : pieces 0 (cchar '(' :: (p ++ [cchar ')'])) 0 =
    cstr "\x7b\"" ++ pieces (cchar '(') p (cchar ')') ++
      if p.getLastD (cchar '(') = cchar ')' then cstr "\x7d" else cstr "\"\x7d" := by
  have hfirst (next : UInt8) : piece (0, cchar '(', next) = cstr "\x7b\"" := rfl
  have hlast (prev : UInt8) : pieces prev [cchar ')'] 0 =
      if prev = cchar ')' then cstr "\x7d" else cstr "\"\x7d" := by
    simp [pieces, triples, piece, cchar]
  rw [pieces_cons, hfirst, pieces_append, hlast, List.append_assoc]
  rfl

-- The translation of a text of two bytes at least that starts with a parenthesis.
theorem parseConnectDataToJson_eq (ho : 2 < outlen) (p : Bytes) (last : UInt8) (rest : Bytes) :
    parseConnectDataToJson (cchar '(' :: (p ++ last :: rest)) (p.length + 2) outlen = .ok
      (if last = cchar ')' then
        (0, pieces 0 (cchar '(' :: (p ++ [last])) 0, (pieces 0 (cchar '(' :: (p ++ [last])) 0).length + 1)
      else
        (-2, cstr "\x7b\"" ++ pieces (cchar '(') p last, outlen)) := by
  have hfirst : (cchar '(' :: (p ++ last :: rest))[0]? = some (cchar '(') := rfl
  have hlast : (cchar '(' :: (p ++ last :: rest))[p.length + 1]? = some last := by simp
  have hprev : (cchar '(' :: (p ++ last :: rest))[p.length]? = some (p.getLastD (cchar '(')) := by
    cases List.eq_nil_or_concat' p
    case inl h => simp [h]
    case inr h =>
      have ⟨q, c, h⟩ := h
      simp [h]
  have hloop : jsonLoop (cchar '(' :: (p ++ last :: rest)) (p.length + 2) outlen p.length 0
      (cstr "\x7b\"") = .ok (cstr "\x7b\"" ++ pieces (cchar '(') p last) :=
    jsonLoop_eq ho rfl
  simp only [parseConnectDataToJson, connectDataByte_eq hfirst, connectDataByte_eq hlast,
    connectDataByte_eq hprev, bind, Except.bind, pure, Except.pure, Nat.add_sub_cancel, hloop, ne_eq,
    not_true_eq_false, if_false]
  by_cases hl : last = cchar ')'
  case pos => simp only [hl, not_true_eq_false, if_false, if_true, pieces_parens]
  case neg => simp only [hl, not_false_eq_true, if_true, if_false]

-- Bytes that mean nothing are copied.
theorem pieces_plain (h : ∀ c ∈ p, IsPlain c) : pieces prev p next = p := by
  induction p generalizing prev
  case nil => rfl
  case cons c p hi =>
    have ⟨hc, hp⟩ := List.forall_mem_cons.mp h
    have hpiece (next : UInt8) : piece (prev, c, next) = [c] := by
      simp [piece, strncat1, hc.nul, hc.open_, hc.close, hc.equal]
    rw [pieces_cons, hpiece, hi hp]
    rfl

-- An entry without its first quote, which is added together with what comes before the entry.

def Descriptor.entryTail : Descriptor → Bytes
  | .leaf name value => name ++ cstr "\":" ++ quoted value
  | .node name ds    => name ++ cstr "\":" ++ ds.render

def Descriptors.entriesTail : Descriptors → Bytes
  | .one d     => d.entryTail
  | .cons d ds => d.entryTail ++ cstr "," ++ ds.entries

theorem Descriptor.entry_eq (d : Descriptor) : d.entry = cstr "\"" ++ d.entryTail := by
  cases d <;> simp [entry, entryTail, quoted, Descriptors.render, cstr]

theorem Descriptors.entries_eq (ds : Descriptors) : ds.entries = cstr "\"" ++ ds.entriesTail := by
  cases ds <;> simp [entries, entriesTail, Descriptor.entry_eq]

-- The text of a descriptor is between parentheses.

theorem Descriptor.text_eq (d : Descriptor) : ∃ p, d.text = cchar '(' :: (p ++ [cchar ')']) := by
  cases d
  case leaf name value => exact ⟨name ++ cstr "=" ++ value, by simp [text, cstr]⟩
  case node name ds    => exact ⟨name ++ cstr "=" ++ ds.text, by simp [text, cstr]⟩

theorem Descriptor.two_le_length_text (d : Descriptor) : 2 ≤ d.text.length := by
  obtain ⟨p, hp⟩ := d.text_eq
  simp [hp]

theorem Descriptor.text_headD (d : Descriptor) (p : Bytes) : (d.text ++ p).headD c = cchar '(' := by
  have ⟨q, hq⟩ := d.text_eq
  simp [hq]

theorem Descriptors.text_headD (ds : Descriptors) (p : Bytes) : (ds.text ++ p).headD c = cchar '(' := by
  cases ds
  case one d     => exact d.text_headD p
  case cons d ds =>
    rw [text, List.append_assoc]
    exact d.text_headD _

theorem Descriptors.text_concat : (ds : Descriptors) → ∃ p, ds.text = p ++ [cchar ')']
  | .one d => by
    have ⟨p, hp⟩ := d.text_eq
    exact ⟨cchar '(' :: p, by simp [text, hp]⟩
  | .cons d ds => by
    have ⟨p, hp⟩ := ds.text_concat
    exact ⟨d.text ++ p, by simp [text, hp]⟩

-- What is added before the first entry of an object, and before the others, where the parenthesis
-- before it has added the comma and the quote; and behind an entry.

def beforeEntry (prev : UInt8) : Bytes :=
  if prev = cchar ')' then [] else cstr "\x7b\""

def afterEntry (next : UInt8) : Bytes :=
  if next = cchar '(' then cstr ",\"" else cstr "\x7d"

theorem getLastD_plain (h : ∀ c ∈ p, IsPlain c) (hc : c ≠ cchar ')') : p.getLastD c ≠ cchar ')' := by
  cases List.eq_nil_or_concat' p
  case inl hp => simpa [hp] using hc
  case inr hp =>
    have ⟨q, d, hp⟩ := hp
    subst hp
    simpa using h d (by simp) |>.close

theorem headD_plain (h : ∀ c ∈ p, IsPlain c) (hc : c ≠ cchar '(') : p.headD c ≠ cchar '(' := by
  cases p
  case nil      => exact hc
  case cons d p => exact h d (by simp) |>.open_

theorem piece_close :
    piece (prev, cchar ')', next) = (if prev = cchar ')' then [] else cstr "\"") ++ afterEntry next := by
  have hopen : cchar ')' ≠ cchar '(' := by decide
  have hequal : cchar ')' ≠ cchar '=' := by decide
  simp only [piece, hopen, hequal, if_false, if_true, afterEntry]
  split <;> split <;> rfl

-- A name, and `body` as the value or the children, between parentheses.
theorem pieces_item {name body : Bytes} (hn : ∀ c ∈ name, IsPlain c) :
    pieces prev (cstr "(" ++ name ++ cstr "=" ++ body ++ cstr ")") next =
      beforeEntry prev ++ name ++
        (if body.headD (cchar ')') = cchar '(' then cstr "\":" else cstr "\":\"") ++
          pieces (cchar '=') body (cchar ')') ++
            (if body.getLastD (cchar '=') = cchar ')' then [] else cstr "\"") ++ afterEntry next := by
  have htext : cstr "(" ++ name ++ cstr "=" ++ body ++ cstr ")" =
      cchar '(' :: (name ++ cchar '=' :: (body ++ [cchar ')'])) := by
    simp [cstr]
  have hopen (c : UInt8) : piece (prev, cchar '(', c) = beforeEntry prev := rfl
  have hequal (c d : UInt8) : piece (c, cchar '=', d) =
      if d = cchar '(' then cstr "\":" else cstr "\":\"" := rfl
  have hhead : (body ++ [cchar ')']).headD next = body.headD (cchar ')') := by cases body <;> rfl
  have hlast (c : UInt8) : pieces c [cchar ')'] next = piece (c, cchar ')', next) := by
    simp [pieces, triples]
  rw [htext, pieces_cons, hopen, pieces_append, pieces_plain hn, pieces_cons, hequal, hhead,
    pieces_append, hlast, piece_close]
  simp

theorem pieces_leaf {name value : Bytes} (hn : ∀ c ∈ name, IsPlain c) (hv : ∀ c ∈ value, IsPlain c) :
    pieces prev (Descriptor.leaf name value).text next =
      beforeEntry prev ++ (Descriptor.leaf name value).entryTail ++ afterEntry next := by
  rw [Descriptor.text, pieces_item hn, pieces_plain hv, if_neg (headD_plain hv (by decide)),
    if_neg (getLastD_plain hv (by decide))]
  simp [Descriptor.entryTail, quoted, cstr]

theorem pieces_node {name : Bytes} {ds : Descriptors} (hn : ∀ c ∈ name, IsPlain c)
    (hds : pieces (cchar '=') ds.text (cchar ')') = ds.render) :
    pieces prev (Descriptor.node name ds).text next =
      beforeEntry prev ++ (Descriptor.node name ds).entryTail ++ afterEntry next := by
  have hhead : ds.text.headD (cchar ')') = cchar '(' := by simpa using ds.text_headD []
  have hlast : ds.text.getLastD (cchar '=') = cchar ')' := by
    have ⟨p, hp⟩ := ds.text_concat
    rw [hp, List.getLastD_concat]
  rw [Descriptor.text, pieces_item hn, hds, if_pos hhead, if_pos hlast]
  simp [Descriptor.entryTail]

-- The translation of a descriptor, by its place: it is between an equals sign or another descriptor
-- and a parenthesis.
mutual

theorem Descriptor.pieces_text : (d : Descriptor) → (h : d.Over IsPlain) → (prev next : UInt8) →
    pieces prev d.text next = beforeEntry prev ++ d.entryTail ++ afterEntry next
  | .leaf name value, h, prev, next => pieces_leaf h.left h.right
  | .node name ds, h, prev, next => by
    refine pieces_node h.left ?_
    rw [ds.pieces_text h.right (cchar '=') (cchar ')') (by decide), Descriptors.render, ds.entries_eq]
    rfl

theorem Descriptors.pieces_text : (ds : Descriptors) → (h : ds.Over IsPlain) →
    (prev next : UInt8) → (hn : next ≠ cchar '(') →
    pieces prev ds.text next = beforeEntry prev ++ ds.entriesTail ++ cstr "\x7d"
  | .one d, h, prev, next, hn => by
    simpa [Descriptors.text, Descriptors.entriesTail, afterEntry, hn] using d.pieces_text h prev next
  | .cons d ds, h, prev, next, hn => by
    have hhead : ds.text.headD next = cchar '(' := by simpa using ds.text_headD []
    have hlast (c : UInt8) : d.text.getLastD c = cchar ')' := by
      have ⟨p, hp⟩ := d.text_eq
      rw [hp, ← List.cons_append, List.getLastD_concat]
    rw [Descriptors.text, pieces_append, hhead, hlast, d.pieces_text h.left prev (cchar '('),
      ds.pieces_text h.right (cchar ')') next hn, Descriptors.entriesTail, ds.entries_eq]
    simp [beforeEntry, afterEntry, cstr]

end

-- The descriptor as a whole is between two null bytes, so to say.
theorem Descriptor.pieces_text_root (d : Descriptor) (h : d.Over IsPlain) :
    pieces 0 d.text 0 = (Descriptors.one d).render := by
  rw [d.pieces_text h, Descriptors.render, Descriptors.entries, d.entry_eq]
  simp [beforeEntry, afterEntry, cchar, cstr]

theorem Descriptor.parse_text (d : Descriptor) (h : d.Over IsPlain) (ho : 2 < outlen) :
    parseConnectDataToJson (d.text ++ rest) d.text.length outlen =
      .ok (0, (Descriptors.one d).render, (Descriptors.one d).render.length + 1) := by
  have ⟨p, hp⟩ := d.text_eq
  have hmem : d.text ++ rest = cchar '(' :: (p ++ cchar ')' :: rest) := by simp [hp]
  have hlen : d.text.length = p.length + 2 := by simp [hp]
  rw [hmem, hlen, parseConnectDataToJson_eq ho, if_pos rfl, ← hp, d.pieces_text_root h]

-- The translation of the text of a descriptor is its rendering.
theorem parseConnectDataToJson_render (d : Descriptor) (h : d.Over IsPlain) (hb : d.text <+: bufin)
    (ho : 3 ≤ outlen) : parseConnectDataToJson bufin d.text.length outlen =
      .ok (0, (Descriptors.one d).render, (Descriptors.one d).render.length + 1) := by
  have ⟨rest, hrest⟩ := hb
  subst hrest
  exact d.parse_text h ho

-- `(A=(B=c)(D=))`
def nestedDescriptor : Descriptor :=
  .node (cstr "A") <| .cons (.leaf (cstr "B") (cstr "c")) <| .one <| .leaf (cstr "D") []

theorem parseConnectDataToJson_render_of_nested :
    parseConnectDataToJson (cstr "(A=(B=c)(D=))") (cstr "(A=(B=c)(D=))").length 26 =
      .ok (0, cstr "\x7b\"A\":\x7b\"B\":\"c\",\"D\":\"\"\x7d\x7d",
        (cstr "\x7b\"A\":\x7b\"B\":\"c\",\"D\":\"\"\x7d\x7d").length + 1) := by
  have htext : nestedDescriptor.text = cstr "(A=(B=c)(D=))" := by decide
  have hrender : (Descriptors.one nestedDescriptor).render =
      cstr "\x7b\"A\":\x7b\"B\":\"c\",\"D\":\"\"\x7d\x7d" := by decide
  have h := parseConnectDataToJson_render nestedDescriptor (by decide) List.prefix_rfl (by decide : 3 ≤ 26)
  rwa [htext, hrender] at h
