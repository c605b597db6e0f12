import TnsParser.Common

-- The descriptors that connect data is made of, and the JSON text that stands for one.

-- A descriptor has a name, and a value or some descriptors, of which there is at least one.
mutual

inductive Descriptor
  | leaf (name value : Bytes)
  | node (name : Bytes) (children : Descriptors)

inductive Descriptors
  | one (d : Descriptor)
  | cons (d : Descriptor) (ds : Descriptors)

end

def Descriptors.toList : Descriptors → List Descriptor
  | .one d     => [d]
  | .cons d ds => d :: ds.toList

-- The text of a descriptor, as a client sends it.
mutual

def Descriptor.text : Descriptor → Bytes
  | .leaf name value => cstr "(" ++ name ++ cstr "=" ++ value ++ cstr ")"
  | .node name ds    => cstr "(" ++ name ++ cstr "=" ++ ds.text ++ cstr ")"

def Descriptors.text : Descriptors → Bytes
  | .one d     => d.text
  | .cons d ds => d.text ++ ds.text

end

def quoted (s : Bytes) : Bytes :=
  cstr "\"" ++ s ++ cstr "\""

-- The entries of an object, which is one for each descriptor. Nothing in a name or a value is escaped.
mutual

def Descriptor.entry : Descriptor → Bytes
  | .leaf name value => quoted name ++ cstr ":" ++ quoted value
  | .node name ds    => quoted name ++ cstr ":" ++ cstr "\x7b" ++ ds.entries ++ cstr "\x7d"

def Descriptors.entries : Descriptors → Bytes
  | .one d     => d.entry
  | .cons d ds => d.entry ++ cstr "," ++ ds.entries

end

def Descriptors.render (ds : Descriptors) : Bytes :=
  cstr "\x7b" ++ ds.entries ++ cstr "\x7d"

-- All names and values consist of such bytes.
mutual

def Descriptor.Over (ok : UInt8 → Prop) : Descriptor → Prop
  | .leaf name value => (∀ c ∈ name, ok c) ∧ ∀ c ∈ value, ok c
  | .node name ds    => (∀ c ∈ name, ok c) ∧ ds.Over ok

def Descriptors.Over (ok : UInt8 → Prop) : Descriptors → Prop
  | .one d     => d.Over ok
  | .cons d ds => d.Over ok ∧ ds.Over ok

end

mutual

theorem Descriptor.Over.mono {ok ok' : UInt8 → Prop} (hok : ∀ c, ok c → ok' c) :
    {d : Descriptor} → d.Over ok → d.Over ok'
  | .leaf _ _, h => ⟨fun c hc => hok c (h.left c hc), fun c hc => hok c (h.right c hc)⟩
  | .node _ _, h => ⟨fun c hc => hok c (h.left c hc), h.right.mono hok⟩

theorem Descriptors.Over.mono {ok ok' : UInt8 → Prop} (hok : ∀ c, ok c → ok' c) :
    {ds : Descriptors} → ds.Over ok → ds.Over ok'
  | .one d,    h => Descriptor.Over.mono (d := d) hok h
  | .cons _ _, h => ⟨h.left.mono hok, h.right.mono hok⟩

end

mutual

def Descriptor.decidableOver {ok : UInt8 → Prop} [DecidablePred ok] :
    (d : Descriptor) → Decidable (d.Over ok)
  | .leaf name value =>
    @instDecidableAnd _ _ (List.decidableBAll ok name) (List.decidableBAll ok value)
  | .node name ds    => @instDecidableAnd _ _ (List.decidableBAll ok name) ds.decidableOver

def Descriptors.decidableOver {ok : UInt8 → Prop} [DecidablePred ok] :
    (ds : Descriptors) → Decidable (ds.Over ok)
  | .one d     => d.decidableOver
  | .cons d ds => @instDecidableAnd _ _ d.decidableOver ds.decidableOver

end

instance {ok : UInt8 → Prop} [DecidablePred ok] {d : Descriptor} : Decidable (d.Over ok) :=
  d.decidableOver

-- A byte that means nothing in the text of a descriptor.
structure IsPlain (c : UInt8) : Prop where
  nul   : c ≠ 0
  open_ : c ≠ cchar '('
  close : c ≠ cchar ')'
  equal : c ≠ cchar '='

theorem isPlain_iff {c : UInt8} : IsPlain c ↔ c ≠ 0 ∧ c ≠ cchar '(' ∧ c ≠ cchar ')' ∧ c ≠ cchar '=' :=
  ⟨fun h => ⟨h.nul, h.open_, h.close, h.equal⟩,
    fun ⟨nul, open_, close, equal⟩ => ⟨nul, open_, close, equal⟩⟩

instance {c : UInt8} : Decidable (IsPlain c) :=
  decidable_of_iff' _ isPlain_iff
