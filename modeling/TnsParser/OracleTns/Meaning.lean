import TnsParser.Library.Json
import TnsParser.OracleTns.Rendering

-- What the translation of a descriptor means as JSON text.

open Json

-- The characters of ASCII text.
def ascii (p : Bytes) : List Char :=
  p.map Char.ofUInt8

-- The member of an object that means the descriptor.
mutual

def Descriptor.toMember : Descriptor → List Char × Json
  | .leaf name value => (ascii name, .string <| ascii value)
  | .node name ds    => (ascii name, .object ds.toMembers)

def Descriptors.toMembers : Descriptors → List (List Char × Json)
  | .one d     => [d.toMember]
  | .cons d ds => d.toMember :: ds.toMembers

end

-- A printable character that means nothing in the text of a descriptor.
structure IsPrintable (c : UInt8) : Prop extends IsPlain c where
  space : 0x20 ≤ c
  tilde : c ≤ 0x7e

instance {c : UInt8} : Decidable (IsPrintable c) :=
  decidable_of_iff (IsPlain c ∧ 0x20 ≤ c ∧ c ≤ 0x7e)
    ⟨fun ⟨plain, space, tilde⟩ => ⟨plain, space, tilde⟩, fun h => ⟨h.toIsPlain, h.space, h.tilde⟩⟩

variable {p s : Bytes} {c c' : UInt8} {d : Descriptor} {ds : Descriptors}

theorem toNat_ofUInt8 : (Char.ofUInt8 c).toNat = c.toNat := rfl

theorem ofUInt8_inj : Char.ofUInt8 c = Char.ofUInt8 c' ↔ c = c' := by
  refine ⟨fun h => UInt8.toNat_inj.mp ?_, congrArg _⟩
  rw [← toNat_ofUInt8, h, toNat_ofUInt8]

theorem ofUInt8_quote : Char.ofUInt8 c = '"' ↔ c = cchar '"' :=
  (ofUInt8_inj : _ = Char.ofUInt8 (cchar '"') ↔ _)

theorem ofUInt8_backslash : Char.ofUInt8 c = '\\' ↔ c = cchar '\\' :=
  (ofUInt8_inj : _ = Char.ofUInt8 (cchar '\\') ↔ _)

theorem ascii_append : ascii (p ++ s) = ascii p ++ ascii s :=
  List.map_append

-- A string without anything special is spelled as it is.
theorem spells_ascii (hp : ∀ c ∈ s, IsPrintable c) (hc : ∀ c ∈ s, IsClean c) :
    Spells (ascii s) (ascii s) := by
  induction s
  case nil => exact .nil
  case cons c s hi =>
    have ⟨hpc, hps⟩ := List.forall_mem_cons.mp hp
    have ⟨hcc, hcs⟩ := List.forall_mem_cons.mp hc
    have hspace : ' ' ≤ Char.ofUInt8 c := by
      rw [Char.le_def, UInt32.le_iff_toNat_le]
      exact UInt8.le_iff_toNat_le.mp hpc.space
    exact .plain ⟨hspace, ofUInt8_quote.not.mpr hcc.quote, ofUInt8_backslash.not.mpr hcc.backslash⟩ <|
      hi hps hcs

-- The width of a string is its length if and only if there is nothing special in it.

theorem stringWidth_cons : stringWidth (ascii (c :: s)) =
    (if c = cchar '"' ∨ c = cchar '\\' then 2 else 1) + stringWidth (ascii s) := by
  simp [stringWidth, ascii, charWidth, ofUInt8_quote, ofUInt8_backslash]

theorem length_le_stringWidth (s : Bytes) : s.length ≤ stringWidth (ascii s) := by
  induction s
  case nil         => exact Nat.le_refl 0
  case cons c s hi =>
    rw [stringWidth_cons, List.length_cons]
    split <;> omega

theorem clean_of_stringWidth_le (hp : ∀ c ∈ s, IsPlain c) (h : stringWidth (ascii s) ≤ s.length) :
    ∀ c ∈ s, IsClean c := by
  induction s
  case nil         => exact nofun
  case cons c s hi =>
    have ⟨hpc, hps⟩ := List.forall_mem_cons.mp hp
    have hle := length_le_stringWidth s
    rw [stringWidth_cons, List.length_cons] at h
    split at h
    case isTrue     => omega
    case isFalse hc =>
      have ⟨hq, hb⟩ := not_or.mp hc
      exact List.forall_mem_cons.mpr ⟨⟨hpc, hq, hb⟩, hi hps (by omega)⟩

-- How long an entry is.

theorem length_entry_leaf {name value : Bytes} :
    (Descriptor.leaf name value).entry.length = name.length + value.length + 5 := by
  simp [Descriptor.entry, quoted, cstr]
  omega

theorem length_entry_node {name : Bytes} :
    (Descriptor.node name ds).entry.length = name.length + ds.entries.length + 5 := by
  simp [Descriptor.entry, quoted, cstr]
  omega

theorem length_entries_cons :
    (Descriptors.cons d ds).entries.length = d.entry.length + 1 + ds.entries.length := by
  simp [Descriptors.entries, cstr]
  omega

def memberWidth : List Char × Json → Nat
  | (name, v) => stringWidth name + 3 + v.width

theorem membersWidth_cons {m : List Char × Json} {ms : List (List Char × Json)} :
    membersWidth (m :: ms) = memberWidth m + 1 + membersWidth ms := rfl

-- The entry of a descriptor is not longer than a text of its member.
mutual

theorem Descriptor.length_entry_le : (d : Descriptor) → d.entry.length ≤ memberWidth d.toMember
  | .leaf name value => by
    have hname := length_le_stringWidth name
    have hvalue := length_le_stringWidth value
    rw [length_entry_leaf]
    simp only [Descriptor.toMember, memberWidth, Json.width]
    omega
  | .node name ds => by
    have hname := length_le_stringWidth name
    have hds := ds.length_entries_lt
    rw [length_entry_node]
    simp only [Descriptor.toMember, memberWidth, Json.width]
    omega

theorem Descriptors.length_entries_lt : (ds : Descriptors) → ds.entries.length < membersWidth ds.toMembers
  | .one d => Nat.lt_succ_of_le d.length_entry_le
  | .cons d ds => by
    have hd := d.length_entry_le
    have hds := ds.length_entries_lt
    rw [length_entries_cons, Descriptors.toMembers, membersWidth_cons]
    omega

end

-- It is as long only if nothing in the descriptor has to be escaped.
mutual

theorem Descriptor.clean_of_width_le : (d : Descriptor) → (hp : d.Over IsPlain) →
    (h : memberWidth d.toMember ≤ d.entry.length) → d.Over IsClean
  | .leaf name value, hp, h => by
    have hname := length_le_stringWidth name
    have hvalue := length_le_stringWidth value
    rw [length_entry_leaf] at h
    simp only [Descriptor.toMember, memberWidth, Json.width] at h
    exact ⟨clean_of_stringWidth_le hp.left (by omega), clean_of_stringWidth_le hp.right (by omega)⟩
  | .node name ds, hp, h => by
    have hname := length_le_stringWidth name
    have hds := ds.length_entries_lt
    rw [length_entry_node] at h
    simp only [Descriptor.toMember, memberWidth, Json.width] at h
    exact ⟨clean_of_stringWidth_le hp.left (by omega), ds.clean_of_width_le hp.right (by omega)⟩

theorem Descriptors.clean_of_width_le : (ds : Descriptors) → (hp : ds.Over IsPlain) →
    (h : membersWidth ds.toMembers ≤ ds.entries.length + 1) → ds.Over IsClean
  | .one d, hp, h => d.clean_of_width_le hp (Nat.le_of_succ_le_succ h)
  | .cons d ds, hp, h => by
    have hd := d.length_entry_le
    have hds := ds.length_entries_lt
    rw [length_entries_cons, Descriptors.toMembers, membersWidth_cons] at h
    exact ⟨d.clean_of_width_le hp.left (by omega), ds.clean_of_width_le hp.right (by omega)⟩

end

-- The entry of a descriptor without anything special is a text of its member.
mutual

theorem Descriptor.denotes_entry : (d : Descriptor) → (hp : d.Over IsPrintable) → (hc : d.Over IsClean) →
    Denotes (ascii d.entry) (.members [d.toMember])
  | .leaf name value, hp, hc => by
    have htext : ascii (Descriptor.leaf name value).entry =
        '"' :: (ascii name ++ '"' :: ':' :: '"' :: (ascii value ++ ['"'])) := by
      simp only [Descriptor.entry, quoted, ascii_append, List.append_assoc]
      rfl
    rw [htext]
    exact .member_tight (spells_ascii hp.left hc.left) <| .string <| spells_ascii hp.right hc.right
  | .node name ds, hp, hc => by
    have htext : ascii (Descriptor.node name ds).entry =
        '"' :: (ascii name ++ '"' :: ':' :: '\x7b' :: (ascii ds.entries ++ ['\x7d'])) := by
      simp only [Descriptor.entry, quoted, ascii_append, List.append_assoc]
      rfl
    rw [htext]
    exact .member_tight (spells_ascii hp.left hc.left) <| .object <| ds.denotes_entries hp.right hc.right

theorem Descriptors.denotes_entries : (ds : Descriptors) → (hp : ds.Over IsPrintable) →
    (hc : ds.Over IsClean) → Denotes (ascii ds.entries) (.members ds.toMembers)
  | .one d, hp, hc => d.denotes_entry hp hc
  | .cons d ds, hp, hc => by
    have htext : ascii (Descriptors.cons d ds).entries = ascii d.entry ++ ',' :: ascii ds.entries := by
      simp only [Descriptors.entries, ascii_append, List.append_assoc]
      rfl
    rw [htext]
    exact .members (d.denotes_entry hp.left hc.left) (ds.denotes_entries hp.right hc.right)

end

-- The rendering means the descriptor if and only if nothing in it has to be escaped.
theorem isText_render_iff (hp : d.Over IsPrintable) :
    IsText (ascii (Descriptors.one d).render) (.object [d.toMember]) ↔ d.Over IsClean := by
  have htext : ascii (Descriptors.one d).render = '\x7b' :: (ascii d.entry ++ ['\x7d']) := by
    simp only [Descriptors.render, Descriptors.entries, ascii_append, List.append_assoc]
    rfl
  constructor
  case mp =>
    intro h
    have hwidth := h.width_le
    have hlen : (ascii (Descriptors.one d).render).length = d.entry.length + 2 := by
      rw [htext]
      simp [ascii]
    simp only [Part.width, Json.width, itemsWidth, membersWidth_cons, hlen] at hwidth
    exact d.clean_of_width_le (hp.mono fun _ hc => hc.toIsPlain) (by omega)
  case mpr =>
    intro h
    rw [htext]
    exact Denotes.object (d.denotes_entry hp h) |>.item_tight

theorem Descriptors.toCJsons_ne_nil (ds : Descriptors) : ds.toCJsons ≠ [] := by
  cases ds <;> exact List.cons_ne_nil _ _

-- Different descriptors are parsed to different items.
mutual

theorem Descriptor.toCJson_inj : (d d' : Descriptor) → (h : d.toCJson = d'.toCJson) → d = d'
  | .leaf _ _, .leaf _ _, h => by
    obtain ⟨-, rfl, hname, -⟩ := CJson.mk.inj h
    rw [Option.some.inj hname]
  | .leaf _ _, .node _ _, h => absurd (CJson.mk.inj h).left (by decide)
  | .node _ _, .leaf _ _, h => absurd (CJson.mk.inj h).left (by decide)
  | .node name ds, .node name' ds', h => by
    obtain ⟨-, -, hname, hds⟩ := CJson.mk.inj h
    rw [Option.some.inj hname, ds.toCJsons_inj ds' hds]

theorem Descriptors.toCJsons_inj : (ds ds' : Descriptors) → (h : ds.toCJsons = ds'.toCJsons) → ds = ds'
  | .one d, .one d', h => congrArg _ <| d.toCJson_inj d' (List.cons.inj h).left
  | .one _, .cons _ ds', h => absurd (List.cons.inj h).right.symm ds'.toCJsons_ne_nil
  | .cons _ ds, .one _, h => absurd (List.cons.inj h).right ds.toCJsons_ne_nil
  | .cons d ds, .cons d' ds', h => by
    have ⟨hd, hds⟩ := List.cons.inj h
    rw [d.toCJson_inj d' hd, ds.toCJsons_inj ds' hds]

end

theorem Descriptor.render_inj {d' : Descriptor} (h : d.Over IsClean) (h' : d'.Over IsClean)
    (hr : (Descriptors.one d).render = (Descriptors.one d').render) : d = d' := by
  have stale : Bytes → UInt32 := fun _ => 0
  have hparse : cJSONParse stale (Descriptors.one d).render =
      cJSONParse stale (Descriptors.one d').render :=
    congrArg _ hr
  rw [cJSONParse_render (.one d) h, cJSONParse_render (.one d') h'] at hparse
  obtain ⟨-, -, -, hc⟩ := CJson.mk.inj <| Option.some.inj hparse
  exact d.toCJson_inj d' (List.cons.inj hc).left

-- What the translator leaves is JSON text that means the descriptor, which `rest` comes behind.
def KeepsMeaning (d : Descriptor) (rest : Bytes) (outlen : Nat) : Prop :=
  ∃ text len, parseConnectDataToJson (d.text ++ rest) d.text.length outlen = .ok (0, text, len) ∧
    IsText (ascii text) (.object [d.toMember])

-- The JSON text means the same as the descriptor if and only if there is nothing in the descriptor that
-- has to be escaped, and different descriptors of this kind have different texts.
theorem keepsMeaning_iff (d : Descriptor) (hp : d.Over IsPrintable) (rest : Bytes) {outlen : Nat}
    (ho : 3 ≤ outlen) :
    (KeepsMeaning d rest outlen ↔ d.Over IsClean) ∧
      ∀ d' rest' text len len', d.Over IsClean → d'.Over IsClean →
        parseConnectDataToJson (d.text ++ rest) d.text.length outlen = .ok (0, text, len) →
          parseConnectDataToJson (d'.text ++ rest') d'.text.length outlen = .ok (0, text, len') →
            d = d' := by
  have hplain : d.Over IsPlain := hp.mono fun _ hc => hc.toIsPlain
  constructor
  case left =>
    rw [KeepsMeaning, d.parse_text hplain ho, ← isText_render_iff hp]
    constructor
    case mp =>
      rintro ⟨text, len, h, ht⟩
      cases h
      exact ht
    case mpr => exact fun ht => ⟨_, _, rfl, ht⟩
  case right =>
    intro d' rest' text len len' hd hd' h h'
    rw [d.parse_text hplain ho] at h
    rw [d'.parse_text (hd'.mono fun _ hc => hc.toIsPlain) ho] at h'
    have htext := (Prod.mk.inj (Prod.mk.inj (Except.ok.inj h)).right).left
    have htext' := (Prod.mk.inj (Prod.mk.inj (Except.ok.inj h')).right).left
    exact Descriptor.render_inj hd hd' (htext.trans htext'.symm)

-- `(P=(A=x)(y=z))` and `(P=(A=x","y":"z))`

def twoLeaves : Descriptor :=
  .node (cstr "P") <| .cons (.leaf (cstr "A") (cstr "x")) <| .one <| .leaf (cstr "y") (cstr "z")

def forgedLeaf : Descriptor :=
  .node (cstr "P") <| .one <| .leaf (cstr "A") (cstr "x\",\"y\":\"z")

theorem parseConnectDataToJson_of_forged :
    forgedLeaf.Over IsPrintable ∧ twoLeaves.Over IsPrintable ∧ forgedLeaf ≠ twoLeaves ∧
      parseConnectDataToJson (forgedLeaf.text ++ []) forgedLeaf.text.length 100 =
        parseConnectDataToJson (twoLeaves.text ++ []) twoLeaves.text.length 100 ∧
      ¬KeepsMeaning forgedLeaf [] 100 := by
  have hforged : forgedLeaf.Over IsPrintable := by decide
  have hplain : forgedLeaf.Over IsPlain := hforged.mono fun _ hc => hc.toIsPlain
  have hrender : (Descriptors.one forgedLeaf).render = (Descriptors.one twoLeaves).render := by decide
  refine ⟨hforged, by decide, nofun, ?_, ?_⟩
  · rw [forgedLeaf.parse_text hplain (by decide), twoLeaves.parse_text (by decide) (by decide), hrender]
  · rintro ⟨text, len, h, ht⟩
    rw [forgedLeaf.parse_text hplain (by decide)] at h
    cases h
    exact absurd (isText_render_iff hforged |>.mp ht) (by decide)

theorem keepsMeaning_of_two_leaves : KeepsMeaning twoLeaves [] 100 :=
  keepsMeaning_iff twoLeaves (by decide) [] (by decide) |>.left |>.mpr (by decide)
