import TnsParser.CJson.Reads
import TnsParser.OracleTns.Translation
import Mathlib.Data.List.TakeWhile

-- What the JSON parser makes of the rendering of a descriptor.

-- A byte that means nothing in the text of a descriptor, nor between quotes.
structure IsClean (c : UInt8) : Prop extends IsPlain c where
  quote     : c ≠ cchar '"'
  backslash : c ≠ cchar '\\'

instance {c : UInt8} : Decidable (IsClean c) :=
  decidable_of_iff (IsPlain c ∧ c ≠ cchar '"' ∧ c ≠ cchar '\\')
    ⟨fun ⟨plain, quote, backslash⟩ => ⟨plain, quote, backslash⟩,
      fun h => ⟨h.toIsPlain, h.quote, h.backslash⟩⟩

-- The item of an object for a descriptor.
mutual

def Descriptor.toCJson : Descriptor → CJson
  | .leaf name value => ⟨cJSONString, value, some name, []⟩
  | .node name ds    => ⟨cJSONObject, [], some name, ds.toCJsons⟩

def Descriptors.toCJsons : Descriptors → List CJson
  | .one d     => [d.toCJson]
  | .cons d ds => d.toCJson :: ds.toCJsons

end

theorem Descriptors.toCJsons_eq : (ds : Descriptors) → ds.toCJsons = ds.toList.map (·.toCJson)
  | .one _     => rfl
  | .cons d ds => congrArg (d.toCJson :: ·) ds.toCJsons_eq

variable {stale : Bytes → UInt32} {s rest out : Bytes} {c : UInt8} {n : Nat}

theorem skip_cons (h : 32 < c) : skip (c :: rest) = c :: rest := by
  have hn : ¬c ≤ 32 := UInt8.not_le.mpr h
  simp [skip, hn]

-- A string without anything special is copied.
theorem parseStringLoop_clean (h : ∀ c ∈ s, IsClean c) (hn : s.length ≤ n) :
    parseStringLoop stale n (s ++ cchar '"' :: rest) out = (out ++ s, cchar '"' :: rest) := by
  induction s generalizing n out
  case nil =>
    cases n <;> simp [parseStringLoop]
  case cons c s hi =>
    obtain ⟨hc, hs⟩ := List.forall_mem_cons.mp h
    cases n
    case zero   => contradiction
    case succ n =>
      have hi : parseStringLoop stale n (s ++ cchar '"' :: rest) (out ++ [c]) =
          (out ++ [c] ++ s, cchar '"' :: rest) := hi hs (Nat.le_of_succ_le_succ hn)
      simpa [parseStringLoop, hc.quote, hc.nul, hc.backslash] using hi

theorem parseString_quoted (h : ∀ c ∈ s, IsClean c) :
    parseString stale (quoted s ++ rest) = some (s, rest) := by
  have hquoted : quoted s ++ rest = cchar '"' :: (s ++ cchar '"' :: rest) := by simp [quoted, cstr]
  have hloop : parseStringLoop stale (cchar '"' :: (s ++ cchar '"' :: rest)).length
      (s ++ cchar '"' :: rest) [] = ([] ++ s, cchar '"' :: rest) :=
    parseStringLoop_clean h (by simp; omega)
  have htake : s.takeWhile (· ≠ 0) = s :=
    List.takeWhile_eq_self_iff.mpr fun c hc => by simpa using (h c hc).nul
  simp only [hquoted, parseString, List.headD_cons, ne_eq, not_true_eq_false, if_false, if_true,
    List.drop_succ_cons, List.drop_zero, hloop, List.nil_append, htake]

-- An item of an object, and what the byte behind it decides.
theorem parseObject_item {name body : Bytes} {child : CJson} (hn : ∀ c ∈ name, IsClean c)
    (hbody : 32 < body.headD 0) (hc : 32 < c)
    (h : parseValue stale n (body ++ c :: rest) = some (child, c :: rest)) :
    parseObject stale (n + 1) (quoted name ++ cstr ":" ++ body ++ c :: rest) =
      if c = cchar ',' then
        (parseObject stale n rest).map fun (children, value) =>
          ({ child with string := some name } :: children, value)
      else if c = cchar '\x7d' then some ([{ child with string := some name }], rest)
      else none := by
  have htext : quoted name ++ cstr ":" ++ body ++ c :: rest =
      quoted name ++ cchar ':' :: (body ++ c :: rest) := by simp [cstr]
  have hquoted : skip (quoted name ++ cchar ':' :: (body ++ c :: rest)) =
      quoted name ++ cchar ':' :: (body ++ c :: rest) :=
    skip_cons (by decide)
  have hcolon : skip (cchar ':' :: (body ++ c :: rest)) = cchar ':' :: (body ++ c :: rest) :=
    skip_cons (by decide)
  have hvalue : skip (body ++ c :: rest) = body ++ c :: rest := by
    cases body
    case nil      => contradiction
    case cons b p => exact skip_cons hbody
  rw [htext, parseObject]
  simp only [hquoted, parseString_quoted hn, bind, Option.bind, hcolon, List.headD_cons, ne_eq,
    not_true_eq_false, if_false, List.drop_succ_cons, List.drop_zero, hvalue, h, skip_cons hc]
  split
  case isTrue  => cases parseObject stale n rest <;> rfl
  case isFalse => rfl

theorem parseValue_quoted (h : ∀ c ∈ s, IsClean c) :
    parseValue stale (n + 1) (quoted s ++ rest) = some (⟨cJSONString, s, none, []⟩, rest) := by
  have hquoted : quoted s ++ rest = cchar '"' :: (s ++ cstr "\"" ++ rest) := by simp [quoted, cstr]
  obtain ⟨hnull, hfalse, htrue⟩ := not_word (cchar '"') (by decide) (s ++ cstr "\"" ++ rest)
  have hstring : parseString stale (quoted s ++ rest) = some (s, rest) := parseString_quoted h
  rw [hquoted] at hstring ⊢
  simp only [parseValue, hnull, hfalse, htrue, if_false, List.headD_cons, if_true, hstring,
    Option.map_some]

theorem parseValue_object {children : List CJson} {p : Bytes} (hp : p.headD 0 = cchar '"')
    (h : parseObject stale n p = some (children, rest)) :
    parseValue stale (n + 1) (cchar '\x7b' :: p) = some (⟨cJSONObject, [], none, children⟩, rest) := by
  obtain ⟨hnull, hfalse, htrue⟩ := not_word (cchar '\x7b') (by decide) p
  have hquote : cchar '\x7b' ≠ cchar '"' := by decide
  have hnumber : ¬(cchar '\x7b' = cchar '-' ∨ isDigit (cchar '\x7b') = true) := by decide
  have harray : cchar '\x7b' ≠ cchar '[' := by decide
  have hclose : p.headD 0 ≠ cchar '\x7d' := by
    rw [hp]
    decide
  have hskip : skip p = p := by
    cases p
    case nil      => contradiction
    case cons c p =>
      cases hp
      exact skip_cons (by decide)
  simp only [parseValue, hnull, hfalse, htrue, if_false, List.headD_cons, hquote, hnumber, harray, if_true,
    List.drop_succ_cons, List.drop_zero, hskip, hclose, h, Option.map_some]

theorem Descriptors.parseValue_render (ds : Descriptors)
    (h : parseObject stale n (ds.entries ++ cchar '\x7d' :: rest) = some (ds.toCJsons, rest)) :
    parseValue stale (n + 1) (ds.render ++ rest) = some (⟨cJSONObject, [], none, ds.toCJsons⟩, rest) := by
  have hrender : ds.render ++ rest = cchar '\x7b' :: (ds.entries ++ cchar '\x7d' :: rest) := by
    simp [Descriptors.render, cstr]
  have hquote : (ds.entries ++ cchar '\x7d' :: rest).headD 0 = cchar '"' := by
    rw [ds.entries_eq]
    rfl
  rw [hrender]
  exact parseValue_object hquote h

-- The entries of an object, by the descriptors that they are for.
mutual

theorem Descriptor.parseObject_entry : (d : Descriptor) → (h : d.Over IsClean) →
    (n : Nat) → (hn : d.entry.length ≤ n + 1) → (c : UInt8) → (hc : 32 < c) → (rest : Bytes) →
    parseObject stale (n + 1) (d.entry ++ c :: rest) =
      if c = cchar ',' then
        (parseObject stale n rest).map fun (children, value) => (d.toCJson :: children, value)
      else if c = cchar '\x7d' then some ([d.toCJson], rest)
      else none
  | .leaf name value, h, n, hn, c, hc, rest => by
    obtain ⟨m, rfl⟩ : ∃ m, n = m + 1 :=
      Nat.exists_eq_add_one.mpr (by simp [Descriptor.entry, quoted, cstr] at hn; omega)
    have hquote : 32 < (quoted value).headD 0 := (by decide : 32 < cchar '"')
    exact parseObject_item h.left hquote hc <| parseValue_quoted h.right
  | .node name ds, h, n, hn, c, hc, rest => by
    obtain ⟨m, rfl⟩ : ∃ m, n = m + 2 :=
      ⟨n - 2, by simp [Descriptor.entry, quoted, cstr] at hn; omega⟩
    have hlen : ds.entries.length ≤ m + 1 := by
      simp [Descriptor.entry, quoted, cstr] at hn
      omega
    have hbrace : 32 < ds.render.headD 0 := (by decide : 32 < cchar '\x7b')
    have hentry : (Descriptor.node name ds).entry = quoted name ++ cstr ":" ++ ds.render := by
      simp [Descriptor.entry, Descriptors.render]
    rw [hentry]
    exact parseObject_item h.left hbrace hc <| ds.parseValue_render <|
      ds.parseObject_entries h.right m hlen (c :: rest)

theorem Descriptors.parseObject_entries : (ds : Descriptors) → (h : ds.Over IsClean) →
    (n : Nat) → (hn : ds.entries.length ≤ n + 1) → (rest : Bytes) →
    parseObject stale (n + 1) (ds.entries ++ cchar '\x7d' :: rest) = some (ds.toCJsons, rest)
  | .one d, h, n, hn, rest => by
    rw [Descriptors.entries, d.parseObject_entry h n hn _ (by decide)]
    rfl
  | .cons d ds, h, n, hn, rest => by
    have hlen : d.entry.length + ds.entries.length ≤ n ∧ 1 ≤ d.entry.length := by
      simp [Descriptors.entries, d.entry_eq, cstr] at hn ⊢
      omega
    obtain ⟨m, rfl⟩ : ∃ m, n = m + 1 := Nat.exists_eq_add_one.mpr (by omega)
    have htext : (Descriptors.cons d ds).entries ++ cchar '\x7d' :: rest =
        d.entry ++ cchar ',' :: (ds.entries ++ cchar '\x7d' :: rest) := by
      simp [Descriptors.entries, cstr]
    rw [htext, d.parseObject_entry h.left _ (by omega) _ (by decide), if_pos rfl,
      ds.parseObject_entries h.right m (by omega) rest]
    rfl

end

-- The rendering is parsed to an object for the descriptors.
theorem cJSONParse_render (ds : Descriptors) (h : ds.Over IsClean) :
    cJSONParse stale ds.render = some ⟨cJSONObject, [], none, ds.toCJsons⟩ := by
  have hskip : skip ds.render = ds.render := skip_cons (by decide)
  have hentries : parseObject stale (2 * ds.render.length) (ds.entries ++ [cchar '\x7d']) =
      some (ds.toCJsons, []) := by
    have hlen : 2 * ds.render.length = 2 * ds.entries.length + 3 + 1 := by
      simp [Descriptors.render, cstr]
      omega
    rw [hlen]
    exact ds.parseObject_entries h _ (by omega) []
  have hvalue := ds.parseValue_render hentries
  rw [List.append_nil] at hvalue
  rw [cJSONParse, hskip, hvalue]
  rfl
