import TnsParser.CJson.Checked
import TnsParser.Library.Allocator

-- cJSON with the memory that it allocates, where each call of `cJSON_malloc` may fail.

open Memory

def cJSONIsReference : Nat := 256

-- An item with the blocks that it is made of: its own one, and those of its strings. The items of a
-- `next` chain are a list.
structure Node where
  addr        : Nat
  type        : Nat
  valuestring : Option (Nat × Bytes)
  string      : Option (Nat × Bytes)
  child       : List Node

-- cJSON_New_Item
def newItem (addr : Nat) : Node where
  addr        := addr
  type        := 0
  valuestring := none
  string      := none
  child       := []

-- What the parser of `CJson` gives, without the blocks.
mutual

def Node.toCJson : Node → CJson
  | ⟨_, type, valuestring, string, child⟩ =>
    ⟨type, (valuestring.map (·.2)).getD [], string.map (·.2), nodesToCJson child⟩

def nodesToCJson : List Node → List CJson
  | []      => []
  | c :: cs => c.toCJson :: nodesToCJson cs

end

-- The blocks that `cJSON_Delete` gives back for an item, in its order.
mutual

def Node.owned : Node → List Nat
  | ⟨addr, type, valuestring, string, child⟩ =>
    (if type &&& cJSONIsReference = 0 then nodesOwned child ++ (valuestring.map (·.1)).toList else []) ++
      ((string.map (·.1)).toList ++ [addr])

def nodesOwned : List Node → List Nat
  | []      => []
  | c :: cs => c.owned ++ nodesOwned cs

end

-- cJSON_free of a string, if there is one
def freeString (m : Memory) : Option (Nat × Bytes) → Except Nat Memory
  | none        => .ok m
  | some (p, _) => m.free p

mutual

-- One round of the loop of `cJSON_Delete`.
def Node.delete : Node → Memory → Except Nat Memory
  | ⟨addr, type, valuestring, string, child⟩, m => do
    let m ← if type &&& cJSONIsReference = 0 then cJSONDelete child m else pure m
    let m ← if type &&& cJSONIsReference = 0 then freeString m valuestring else pure m
    let m ← freeString m string
    m.free addr

-- The items from `c` on.
def cJSONDelete : List Node → Memory → Except Nat Memory
  | [],     m => pure m
  | c :: c', m => do
    let m ← c.delete m
    cJSONDelete c' m

end

section

variable (fails : Nat → Bool) (stale : Bytes → UInt32)

-- The functions that parse change the item that they are given, also where they return NULL, which is
-- `none`.

def parseStringInto (item : Node) (str : Bytes) (m : Memory) : Node × Option Bytes × Memory :=
  match parseString stale str with
  | none                => (item, none, m)
  | some (s, rest) =>
    match m.malloc fails with
    | (none, m)     => (item, none, m)
    | (some out, m) => ({ item with valuestring := some (out, s), type := cJSONString }, some rest, m)

mutual

def parseValueInto : Nat → Node → Bytes → Memory → Node × Option Bytes × Memory
  | 0,     item, _,     m => (item, none, m)
  | n + 1, item, value, m =>
    if cstr "null" <+: value then ({ item with type := cJSONNull }, some (value.drop 4), m)
    else if cstr "false" <+: value then ({ item with type := cJSONFalse }, some (value.drop 5), m)
    else if cstr "true" <+: value then ({ item with type := cJSONTrue }, some (value.drop 4), m)
    else if value.headD 0 = cchar '"' then parseStringInto fails stale item value m
    else if value.headD 0 = cchar '-' ∨ isDigit (value.headD 0) then
      ({ item with type := cJSONNumber }, some (parseNumber value), m)
    else if value.headD 0 = cchar '[' then
      let item := { item with type := cJSONArray }
      let value := skip (value.drop 1)
      if value.headD 0 = cchar ']' then (item, some (value.drop 1), m)
      else
        match m.malloc fails with
        | (none, m)       => (item, none, m)
        | (some child, m) =>
          let (child, value, m) := parseArrayInto n (newItem child) value m
          ({ item with child }, value, m)
    else if value.headD 0 = cchar '\x7b' then
      let item := { item with type := cJSONObject }
      let value := skip (value.drop 1)
      if value.headD 0 = cchar '\x7d' then (item, some (value.drop 1), m)
      else
        match m.malloc fails with
        | (none, m)       => (item, none, m)
        | (some child, m) =>
          let (child, value, m) := parseObjectInto n (newItem child) value m
          ({ item with child }, value, m)
    else (item, none, m)

-- The items of an array from `child` on, which is still empty.
def parseArrayInto : Nat → Node → Bytes → Memory → List Node × Option Bytes × Memory
  | 0,     child, _,     m => ([child], none, m)
  | n + 1, child, value, m =>
    match parseValueInto n child (skip value) m with
    | (child, none, m)       => ([child], none, m)
    | (child, some value, m) =>
      let value := skip value
      if value.headD 0 = cchar ',' then
        match m.malloc fails with
        | (none, m)          => ([child], none, m)
        | (some newChild, m) =>
          let (children, value, m) := parseArrayInto n (newItem newChild) (value.drop 1) m
          (child :: children, value, m)
      else if value.headD 0 = cchar ']' then ([child], some (value.drop 1), m)
      else ([child], none, m)

-- The items of an object from `child` on.
def parseObjectInto : Nat → Node → Bytes → Memory → List Node × Option Bytes × Memory
  | 0,     child, _,     m => ([child], none, m)
  | n + 1, child, value, m =>
    match parseStringInto fails stale child (skip value) m with
    | (child, none, m)       => ([child], none, m)
    | (child, some value, m) =>
      let child := { child with string := child.valuestring, valuestring := none }
      let value := skip value
      if value.headD 0 ≠ cchar ':' then ([child], none, m)
      else
        match parseValueInto n child (skip (value.drop 1)) m with
        | (child, none, m)       => ([child], none, m)
        | (child, some value, m) =>
          let value := skip value
          if value.headD 0 = cchar ',' then
            match m.malloc fails with
            | (none, m)          => ([child], none, m)
            | (some newChild, m) =>
              let (children, value, m) := parseObjectInto n (newItem newChild) (value.drop 1) m
              (child :: children, value, m)
          else if value.headD 0 = cchar '\x7d' then ([child], some (value.drop 1), m)
          else ([child], none, m)

end

-- cJSON_ParseWithOpts. What is given back twice ends the program.
def cJSONParseInto (value : Bytes) (requireNullTerminated : Bool) (m : Memory) :
    Except Nat (Option (Node × Bytes) × Memory) :=
  match m.malloc fails with
  | (none, m)   => .ok (none, m)
  | (some c, m) =>
    match parseValueInto fails stale (2 * value.length + 1) (newItem c) (skip value) m with
    | (c, none, m)      => do
      let m ← cJSONDelete [c] m
      return (none, m)
    | (c, some end', m) =>
      if requireNullTerminated then
        let end' := skip end'
        if end'.headD 0 ≠ 0 then do
          let m ← cJSONDelete [c] m
          return (none, m)
        else .ok (some (c, end'), m)
      else .ok (some (c, end'), m)

end

variable {fails : Nat → Bool} {stale : Bytes → UInt32} {m : Memory} {item : Node} {value : Bytes} {n : Nat}

theorem freeString_eq (m : Memory) (s : Option (Nat × Bytes)) : freeString m s = m.freeAll (s.map (·.1)).toList := by
  cases s
  case none => rfl
  case some s =>
    rw [Option.map_some, Option.toList_some, freeAll_cons]
    cases hfree : m.free s.1 <;> rw [freeString, hfree] <;> rfl

-- `cJSON_Delete` gives back the blocks that are owned.
mutual

theorem Node.delete_eq : ∀ (c : Node) (m : Memory), c.delete m = m.freeAll c.owned
  | ⟨addr, type, valuestring, string, child⟩, m => by
    have hchild := cJSONDelete_eq child m
    have hone (m : Memory) : m.free addr = m.freeAll [addr] := by
      rw [freeAll_cons]
      cases m.free addr <;> rfl
    by_cases href : type &&& cJSONIsReference = 0
    case pos =>
      simp only [Node.delete, Node.owned, if_pos href, hchild, freeString_eq, hone, freeAll_append, bind_assoc]
    case neg =>
      simp only [Node.delete, Node.owned, if_neg href, freeString_eq, hone, freeAll_append, pure_bind, List.nil_append]

theorem cJSONDelete_eq : ∀ (cs : List Node) (m : Memory), cJSONDelete cs m = m.freeAll (nodesOwned cs)
  | [],      _ => rfl
  | c :: cs, m => by
    have hrest (m : Memory) := cJSONDelete_eq cs m
    simp only [cJSONDelete, nodesOwned, freeAll_append, c.delete_eq, hrest]

end

-- The item has nothing yet that it would lose when it is parsed into.
structure Node.Blank (item : Node) : Prop where
  valuestring : item.valuestring = none
  child       : item.child = []
  type        : item.type &&& cJSONIsReference = 0

theorem newItem_blank (addr : Nat) : (newItem addr).Blank :=
  ⟨rfl, rfl, Nat.zero_and _⟩

-- The blocks of the item itself.
def Node.own (item : Node) : List Nat :=
  (item.string.map (·.1)).toList ++ [item.addr]

theorem Node.Blank.owned (b : item.Blank) : item.owned = item.own := by
  obtain ⟨addr, type, valuestring, string, child⟩ := item
  obtain ⟨hvalue, hchild, -⟩ := b
  simp only at hvalue hchild
  subst hvalue hchild
  simp [Node.owned, nodesOwned, Node.own]

-- What was parsed into the item.
def Node.parsed (item : Node) : CJson :=
  { item.toCJson with string := none }

-- A function has parsed into what had the blocks `before` then, while the parser of `CJson` gives
-- `expected`. It gives back nothing. It fails where that does, or when there was no memory left.
inductive Parsed {α β : Type} (fails : Nat → Bool) (owned : α → List Nat) (read : α → β) (before : List Nat)
    (m : Memory) : α × Option Bytes × Memory → Option (β × Bytes) → Prop
  | null {a m' expected} (has : Accounted m m' before (owned a)) (h : Failed fails m m' ∨ expected = none) :
    Parsed fails owned read before m (a, none, m') expected
  | read {a m' rest} (has : Accounted m m' before (owned a)) (h : ¬Failed fails m m') :
    Parsed fails owned read before m (a, some rest, m') (some (read a, rest))

-- The same for an item, which also keeps its name.
structure ParsedItem (fails : Nat → Bool) (item : Node) (m : Memory) (out : Node × Option Bytes × Memory)
    (expected : Option (CJson × Bytes)) : Prop where
  parsed : Parsed fails Node.owned Node.parsed item.owned m out expected
  string : out.1.string = item.string

-- The same for the items of a list, where there is one item in the beginning.
abbrev ParsedItems (fails : Nat → Bool) (before : List Nat) (m : Memory) :
    List Node × Option Bytes × Memory → Option (List CJson × Bytes) → Prop :=
  Parsed fails nodesOwned nodesToCJson before m

theorem ParsedItem.ite {c : Prop} [Decidable c] {out out' : Node × Option Bytes × Memory}
    {expected expected' : Option (CJson × Bytes)} (ht : c → ParsedItem fails item m out expected)
    (he : ¬c → ParsedItem fails item m out' expected') :
    ParsedItem fails item m (if c then out else out') (if c then expected else expected') := by
  by_cases h : c
  case pos => rw [if_pos h, if_pos h]; exact ht h
  case neg => rw [if_neg h, if_neg h]; exact he h

-- A value without blocks of its own.
theorem ParsedItem.simple (b : item.Blank) (type : Nat) (ht : type &&& cJSONIsReference = 0) (rest : Bytes) :
    ParsedItem fails item m ({ item with type }, some rest, m) (some (⟨type, [], none, []⟩, rest)) := by
  obtain ⟨addr, _, valuestring, string, child⟩ := item
  have b' : Node.Blank ⟨addr, type, valuestring, string, child⟩ := ⟨b.valuestring, b.child, ht⟩
  have hparsed : Node.parsed ⟨addr, type, valuestring, string, child⟩ = ⟨type, [], none, []⟩ := by
    rw [Node.parsed, show valuestring = none from b.valuestring, show child = [] from b.child]
    rfl
  refine ⟨?_, rfl⟩
  rw [← hparsed]
  refine .read ?_ not_failed_self
  rw [b.owned, b'.owned]
  exact .refl ..

theorem ParsedItem.null {expected : Option (CJson × Bytes)} (h : expected = none) :
    ParsedItem fails item m (item, none, m) expected :=
  ⟨.null (.refl ..) (.inr h), rfl⟩

theorem parseStringInto_parsed (b : item.Blank) (str : Bytes) (m : Memory) :
    ParsedItem fails item m (parseStringInto fails stale item str m)
      ((parseString stale str).map fun (s, value) => (⟨cJSONString, s, none, []⟩, value)) := by
  rw [parseStringInto]
  cases h : parseString stale str
  case none => exact .null rfl
  case some r =>
    obtain ⟨s, rest⟩ := r
    obtain ⟨m', hm, has, hfail⟩ | ⟨out, m', hm, has, hcalls⟩ := malloc_cases fails m <;> simp only [hm]
    case inl => exact ⟨.null (has.frame item.owned) (.inl hfail), rfl⟩
    case inr =>
      obtain ⟨addr, type, valuestring, string, child⟩ := item
      have hown := b.owned
      have hchild : child = [] := b.child
      subst hchild
      refine ⟨.read ?_ hcalls, rfl⟩
      rw [hown]
      exact has.frame _

theorem newItem_owned (p : Nat) : (newItem p).owned = [p] :=
  (newItem_blank p).owned

-- The items of an array or of an object become those of `item`.
theorem ParsedItems.children {m₁ : Memory} {p : Nat} {out : List Node × Option Bytes × Memory}
    {expected : Option (List CJson × Bytes)} (b : item.Blank) (hp : Accounted m m₁ [] [p]) (hcalls : ¬Failed fails m m₁)
    (h : ParsedItems fails [p] m₁ out expected) (type : Nat) (ht : type &&& cJSONIsReference = 0) :
    ParsedItem fails item m ({ item with type, child := out.1 }, out.2)
      (expected.map fun (child, value) => (⟨type, [], none, child⟩, value)) := by
  have hown := b.owned
  obtain ⟨addr, _, valuestring, string, child⟩ := item
  have hvalue : valuestring = none := b.valuestring
  subst hvalue
  have howned (cs : List Node) : Node.owned ⟨addr, type, none, string, cs⟩ =
      nodesOwned cs ++ ((string.map (·.1)).toList ++ [addr]) := by
    rw [Node.owned, if_pos ht]
    simp
  have htrans {m₂ : Memory} {cs : List Node} (has : Accounted m₁ m₂ [p] (nodesOwned cs)) :
      Accounted m m₂ ((string.map (·.1)).toList ++ [addr]) (Node.owned ⟨addr, type, none, string, cs⟩) :=
    howned cs ▸ (hp.frame _).trans (has.frame _)
  cases h
  case null cs m₂ has h =>
    refine ⟨.null (hown ▸ htrans has) ?_, rfl⟩
    cases h
    case inl h => exact .inl (h.right hp.count)
    case inr h => exact .inr (by rw [h]; rfl)
  case read cs m₂ rest has h =>
    exact ⟨.read (hown ▸ htrans has) (not_failed_trans hcalls h), rfl⟩

-- One item is parsed, and the ones behind it are the rest of the list.
theorem ParsedItems.cons {before : List Nat} {m₁ m₂ : Memory} {p : Nat} {c : Node}
    {out : List Node × Option Bytes × Memory} {expected : Option (List CJson × Bytes)}
    (hc : Accounted m m₁ before c.owned) (hcalls : ¬Failed fails m m₁) (hp : Accounted m₁ m₂ [] [p])
    (hcalls' : ¬Failed fails m₁ m₂) (h : ParsedItems fails [p] m₂ out expected) :
    ParsedItems fails before m (c :: out.1, out.2)
      (expected.map fun (children, value) => (c.toCJson :: children, value)) := by
  have htrans {m₃ : Memory} {cs : List Node} (has : Accounted m₂ m₃ [p] (nodesOwned cs)) :
      Accounted m m₃ before (nodesOwned (c :: cs)) := by
    refine ((hc.trans (hp.frame c.owned)).trans (has.frame c.owned)).perm ?_
    rw [nodesOwned]
    exact List.perm_append_comm
  cases h
  case null cs m₃ has h =>
    refine .null (htrans has) ?_
    cases h
    case inl h => exact .inl (h.right (hc.trans (hp.frame c.owned)).count)
    case inr h => exact .inr (by rw [h]; rfl)
  case read cs m₃ rest has h =>
    exact .read (htrans has) (not_failed_trans (not_failed_trans hcalls hcalls') h)

theorem ParsedItems.last_null {before : List Nat} {m₁ : Memory} {c : Node} {expected : Option (List CJson × Bytes)}
    (hc : Accounted m m₁ before c.owned) (h : Failed fails m m₁ ∨ expected = none) :
    ParsedItems fails before m ([c], none, m₁) expected :=
  .null (hc.perm (by simp [nodesOwned])) h

theorem ParsedItems.one {before : List Nat} {m₁ : Memory} {c : Node} {rest : Bytes}
    (hc : Accounted m m₁ before c.owned) (hcalls : ¬Failed fails m m₁) :
    ParsedItems fails before m ([c], some rest, m₁) (some ([c.toCJson], rest)) :=
  .read (hc.perm (by simp [nodesOwned])) hcalls

-- Behind an item there is a comma and the rest of the list, or the end of it.
theorem ParsedItems.behind {before : List Nat} {m₁ : Memory} {c : Node} (hc : Accounted m m₁ before c.owned)
    (hcalls : ¬Failed fails m m₁) (close : UInt8)
    (parseInto : Node → Bytes → Memory → List Node × Option Bytes × Memory)
    (parse : Bytes → Option (List CJson × Bytes))
    (h : ∀ p value m, ParsedItems fails [p] m (parseInto (newItem p) value m) (parse value)) (value : Bytes) :
    ParsedItems fails before m
      (if value.headD 0 = cchar ',' then
        match m₁.malloc fails with
        | (none, m)          => ([c], none, m)
        | (some newChild, m) =>
          let (children, value, m) := parseInto (newItem newChild) (value.drop 1) m
          (c :: children, value, m)
      else if value.headD 0 = close then ([c], some (value.drop 1), m₁)
      else ([c], none, m₁))
      (if value.headD 0 = cchar ',' then
        (parse (value.drop 1)).bind fun (children, value) => some (c.toCJson :: children, value)
      else if value.headD 0 = close then some ([c.toCJson], value.drop 1)
      else none) := by
  by_cases hcomma : value.headD 0 = cchar ','
  case pos =>
    rw [if_pos hcomma, if_pos hcomma]
    obtain ⟨m₂, hm, hp, hfail⟩ | ⟨q, m₂, hm, hp, hcalls'⟩ := malloc_cases fails m₁ <;> simp only [hm]
    case inl => exact .last_null (hc.trans (hp.frame _)) (.inl (hfail.right hc.count))
    case inr =>
      have := ParsedItems.cons hc hcalls hp hcalls' (h q (value.drop 1) m₂)
      rwa [Option.map_eq_bind] at this
  case neg =>
    rw [if_neg hcomma, if_neg hcomma]
    by_cases hclose : value.headD 0 = close
    case pos => rw [if_pos hclose, if_pos hclose]; exact .one hc hcalls
    case neg => rw [if_neg hclose, if_neg hclose]; exact .last_null hc (.inr rfl)

theorem Node.parsed_eq {c : Node} (h : c.string = none) : c.parsed = c.toCJson := by
  obtain ⟨addr, type, valuestring, string, child⟩ := c
  have hstring : string = none := h
  subst hstring
  rfl

-- What the functions do at the depth `n`.

def ParsesValue (fails : Nat → Bool) (stale : Bytes → UInt32) (n : Nat) : Prop :=
  ∀ item value m, item.Blank →
    ParsedItem fails item m (parseValueInto fails stale n item value m) (parseValue stale n value)

def ParsesArray (fails : Nat → Bool) (stale : Bytes → UInt32) (n : Nat) : Prop :=
  ∀ p value m, ParsedItems fails [p] m (parseArrayInto fails stale n (newItem p) value m) (parseArray stale n value)

def ParsesObject (fails : Nat → Bool) (stale : Bytes → UInt32) (n : Nat) : Prop :=
  ∀ p value m, ParsedItems fails [p] m (parseObjectInto fails stale n (newItem p) value m) (parseObject stale n value)

theorem ParsesArray.succ (hvalue : ParsesValue fails stale n) (harray : ParsesArray fails stale n) :
    ParsesArray fails stale (n + 1) := by
  intro p value m
  rw [parseArrayInto, parseArray]
  obtain ⟨hparsed, hstring⟩ := hvalue (newItem p) (skip value) m (newItem_blank p)
  rw [newItem_owned] at hparsed
  generalize parseValueInto fails stale n (newItem p) (skip value) m = out at hparsed hstring ⊢
  generalize parseValue stale n (skip value) = expected at hparsed ⊢
  cases hparsed
  case null c m₁ has h => exact .last_null has (h.imp_right fun h => by rw [h]; rfl)
  case read c m₁ rest has h =>
    rw [Node.parsed_eq hstring]
    exact .behind has h (cchar ']') _ _ harray (skip rest)

-- The name of a new item is first parsed into its value.
theorem parseStringInto_cases (fails : Nat → Bool) (stale : Bytes → UInt32) (p : Nat) (str : Bytes) (m : Memory) :
    (∃ m', parseStringInto fails stale (newItem p) str m = (newItem p, none, m') ∧ Accounted m m' [p] [p] ∧
      (Failed fails m m' ∨ parseString stale str = none)) ∨
    ∃ out name rest m', parseStringInto fails stale (newItem p) str m =
        (⟨p, cJSONString, some (out, name), none, []⟩, some rest, m') ∧
      Accounted m m' [p] [out, p] ∧ ¬Failed fails m m' ∧ parseString stale str = some (name, rest) := by
  rw [parseStringInto]
  cases h : parseString stale str
  case none => exact .inl ⟨m, rfl, .refl .., .inr rfl⟩
  case some r =>
    obtain ⟨name, rest⟩ := r
    obtain ⟨m', hm, has, hfail⟩ | ⟨out, m', hm, has, hcalls⟩ := malloc_cases fails m <;> simp only [hm]
    case inl => exact .inl ⟨m', rfl, has.frame [p], .inl hfail⟩
    case inr => exact .inr ⟨out, name, rest, m', rfl, has.frame [p], hcalls, rfl⟩

theorem Node.toCJson_named {c : Node} {out : Nat} {name : Bytes} (h : c.string = some (out, name)) :
    c.toCJson = { c.parsed with string := some name } := by
  obtain ⟨addr, type, valuestring, string, child⟩ := c
  have hstring : string = some (out, name) := h
  subst hstring
  rfl

theorem ParsesObject.succ (hvalue : ParsesValue fails stale n) (hobject : ParsesObject fails stale n) :
    ParsesObject fails stale (n + 1) := by
  intro p value m
  rw [parseObjectInto, parseObject]
  obtain ⟨m₁, hs, has₁, h⟩ | ⟨out, name, rest, m₁, hs, has₁, hcalls₁, hname⟩ :=
    parseStringInto_cases fails stale p (skip value) m <;> simp only [hs]
  case inl => exact .last_null (newItem_owned p ▸ has₁) (h.imp_right fun h => by rw [h]; rfl)
  case inr =>
    simp only [hname, Option.bind_eq_bind, Option.bind_some]
    have b : Node.Blank ⟨p, cJSONString, none, some (out, name), []⟩ :=
      ⟨rfl, rfl, show cJSONString &&& cJSONIsReference = 0 from rfl⟩
    by_cases hcolon : (skip rest).headD 0 ≠ cchar ':'
    case pos =>
      rw [if_pos hcolon, if_pos hcolon]
      exact .last_null (b.owned ▸ has₁) (.inr rfl)
    case neg =>
      rw [if_neg hcolon, if_neg hcolon]
      obtain ⟨hparsed, hstring⟩ := hvalue _ (skip ((skip rest).drop 1)) m₁ b
      rw [b.owned] at hparsed
      generalize parseValueInto fails stale n ⟨p, cJSONString, none, some (out, name), []⟩
        (skip ((skip rest).drop 1)) m₁ = into at hparsed hstring ⊢
      generalize parseValue stale n (skip ((skip rest).drop 1)) = expected at hparsed ⊢
      cases hparsed
      case null c m₂ has h =>
        refine .last_null (has₁.trans has) ?_
        cases h
        case inl h => exact .inl (h.right has₁.count)
        case inr h => exact .inr (by rw [h]; rfl)
      case read c m₂ rest has hcalls₂ =>
        have has := has₁.trans has
        have hcalls := not_failed_trans hcalls₁ hcalls₂
        simp only [Option.bind_some, ← Node.toCJson_named hstring]
        exact .behind has hcalls (cchar '\x7d') _ _ hobject (skip rest)

-- A function that parses items is called for the first of them.
theorem ParsedItem.opened (b : item.Blank) (type : Nat) (ht : type &&& cJSONIsReference = 0) (close : UInt8)
    (parseInto : Node → Bytes → Memory → List Node × Option Bytes × Memory)
    (parse : Bytes → Option (List CJson × Bytes))
    (h : ∀ p value m, ParsedItems fails [p] m (parseInto (newItem p) value m) (parse value)) (value : Bytes) :
    ParsedItem fails item m
      (let item := { item with type }
       if value.headD 0 = close then (item, some (value.drop 1), m)
       else
         match m.malloc fails with
         | (none, m)       => (item, none, m)
         | (some child, m) =>
           let (child, value, m) := parseInto (newItem child) value m
           ({ item with child }, value, m))
      (if value.headD 0 = close then some (⟨type, [], none, []⟩, value.drop 1)
       else (parse value).map fun (child, value) => (⟨type, [], none, child⟩, value)) := by
  refine .ite (fun _ => .simple b type ht _) fun _ => ?_
  obtain ⟨m₁, hm, hp, hfail⟩ | ⟨p, m₁, hm, hp, hcalls⟩ := malloc_cases fails m <;> simp only [hm]
  case inl =>
    have b' : Node.Blank { item with type } := ⟨b.valuestring, b.child, ht⟩
    refine ⟨.null ?_ (.inl hfail), rfl⟩
    have hown := hp.frame item.own
    rw [b.owned]
    exact b'.owned ▸ hown
  case inr => exact (h p value m₁).children b hp hcalls type ht

theorem ParsesValue.succ (harray : ParsesArray fails stale n) (hobject : ParsesObject fails stale n) :
    ParsesValue fails stale (n + 1) := by
  intro item value m b
  rw [parseValueInto, parseValue]
  refine .ite (fun _ => .simple b cJSONNull rfl _) fun _ => ?_
  refine .ite (fun _ => .simple b cJSONFalse rfl _) fun _ => ?_
  refine .ite (fun _ => .simple b cJSONTrue rfl _) fun _ => ?_
  refine .ite (fun _ => parseStringInto_parsed b value m) fun _ => ?_
  refine .ite (fun _ => .simple b cJSONNumber rfl _) fun _ => ?_
  refine .ite (fun _ => .opened b cJSONArray rfl (cchar ']') _ _ harray _) fun _ => ?_
  exact .ite (fun _ => .opened b cJSONObject rfl (cchar '\x7d') _ _ hobject _) fun _ => .null rfl

theorem parse_parsed (fails : Nat → Bool) (stale : Bytes → UInt32) (n : Nat) :
    ParsesValue fails stale n ∧ ParsesArray fails stale n ∧ ParsesObject fails stale n := by
  induction n
  case zero =>
    refine ⟨fun item value m _ => ?value, fun p value m => ?array, fun p value m => ?object⟩
    case value  => exact .null rfl
    case array  => exact .last_null (newItem_owned p ▸ .refl ..) (.inr rfl)
    case object => exact .last_null (newItem_owned p ▸ .refl ..) (.inr rfl)
  case succ n hi =>
    obtain ⟨hvalue, harray, hobject⟩ := hi
    exact ⟨.succ harray hobject, .succ hvalue harray, .succ hvalue hobject⟩

theorem Memory.Accounted.delete {m' : Memory} {c : Node} (h : Accounted m m' [] c.owned) :
    ∃ m'', cJSONDelete [c] m' = .ok m'' ∧ Accounted m m'' [] [] ∧ m''.count = m'.count := by
  rw [cJSONDelete_eq, nodesOwned, nodesOwned, List.append_nil]
  exact h.freeAll

theorem cJSONParseInto_cases (fails : Nat → Bool) (stale : Bytes → UInt32) (value : Bytes)
    (requireNullTerminated : Bool) (m : Memory) :
    (∃ m', cJSONParseInto fails stale value requireNullTerminated m = .ok (none, m') ∧ Accounted m m' [] [] ∧
      (Failed fails m m' ∨ cJSONParseWithOpts stale value requireNullTerminated = none)) ∨
    ∃ c rest m', cJSONParseInto fails stale value requireNullTerminated m = .ok (some (c, rest), m') ∧
      Accounted m m' [] c.owned ∧ ¬Failed fails m m' ∧
      cJSONParseWithOpts stale value requireNullTerminated = some (c.toCJson, rest) := by
  rw [cJSONParseInto, cJSONParseWithOpts]
  obtain ⟨m₁, hm, hp, hfail⟩ | ⟨p, m₁, hm, hp, hcalls⟩ := malloc_cases fails m <;> simp only [hm]
  case inl => exact .inl ⟨m₁, rfl, hp, .inl hfail⟩
  case inr =>
    obtain ⟨hparsed, hstring⟩ := (parse_parsed fails stale (2 * value.length + 1)).left
      (newItem p) (skip value) m₁ (newItem_blank p)
    rw [newItem_owned] at hparsed
    generalize parseValueInto fails stale (2 * value.length + 1) (newItem p) (skip value) m₁ = out
      at hparsed hstring ⊢
    generalize parseValue stale (2 * value.length + 1) (skip value) = expected at hparsed ⊢
    cases hparsed
    case null c m₂ has h =>
      obtain ⟨m₃, hdelete, hleft, hcount⟩ := (hp.trans has).delete
      refine .inl ⟨m₃, by simp only [hdelete]; rfl, hleft, ?_⟩
      cases h
      case inl h => exact .inl ((h.right hp.count).left hcount.ge)
      case inr h => exact .inr (by rw [h]; rfl)
    case read c m₂ rest has hcalls₂ =>
      have has := hp.trans has
      have hcalls := not_failed_trans hcalls hcalls₂
      rw [Node.parsed_eq hstring]
      simp only [Option.bind_eq_bind, Option.bind_some]
      cases requireNullTerminated
      case false => exact .inr ⟨c, rest, m₂, rfl, has, hcalls, rfl⟩
      case true =>
        by_cases hend : (skip rest).headD 0 ≠ 0
        case pos =>
          obtain ⟨m₃, hdelete, hleft, -⟩ := has.delete
          simp only [if_pos hend, hdelete]
          exact .inl ⟨m₃, rfl, hleft, .inr rfl⟩
        case neg =>
          simp only [if_neg hend]
          exact .inr ⟨c, skip rest, m₂, rfl, has, hcalls, rfl⟩

-- What `cJSON_ParseWithOpts` leaves that starts with the memory `m`, where `expected` is what it gives when
-- there is always memory. Each block is given back once or not at all. For NULL nothing is left allocated.
-- Otherwise `cJSON_Delete` gives back all that was allocated for the item.
def ParseAccounted (fails : Nat → Bool) (m : Memory) (expected : Option (CJson × Bytes))
    (out : Except Nat (Option (Node × Bytes) × Memory)) : Prop :=
  (∃ m', out = .ok (none, m') ∧ m'.live.Perm m.live ∧ (Failed fails m m' ∨ expected = none)) ∨
    ∃ c rest m', out = .ok (some (c, rest), m') ∧ ¬Failed fails m m' ∧ expected = some (c.toCJson, rest) ∧
      m'.live.Perm (c.owned ++ m.live) ∧ ∃ m'', cJSONDelete [c] m' = .ok m'' ∧ m''.live.Perm m.live

-- A text for which nothing is left undefined, with `nulls` null bytes behind it.
theorem cJSONParseInto_accounted {nulls : Nat} {value : Bytes} {requireNullTerminated : Bool}
    {expected : Option (CJson × Bytes)} (h : cJSONParseWithOptsChecked nulls value requireNullTerminated = .ok expected)
    (fails : Nat → Bool) (stale : Bytes → UInt32) (m : Memory) :
    ParseAccounted fails m expected (cJSONParseInto fails stale value requireNullTerminated m) := by
  rw [cJSONParseWithOptsChecked_ensures nulls stale value requireNullTerminated expected h]
  obtain ⟨m', hparse, has, h⟩ | ⟨c, rest, m', hparse, has, hcalls, h⟩ :=
    cJSONParseInto_cases fails stale value requireNullTerminated m
  case inl => exact .inl ⟨m', hparse, has.live_perm, h⟩
  case inr =>
    obtain ⟨m'', hdelete, hleft, -⟩ := has.delete
    exact .inr ⟨c, rest, m', hparse, hcalls, h, has.live_perm, m'', hdelete, hleft.live_perm⟩

-- Two strings, where there is no memory for the second.
theorem cJSONParseInto_accounted_strings :
    ParseAccounted (· = 4) ⟨0, []⟩
      (some (⟨cJSONArray, [], none, [⟨cJSONString, cstr "a", none, []⟩, ⟨cJSONString, cstr "\n", none, []⟩]⟩, []))
      (cJSONParseInto (· = 4) (fun _ => 0) (cstr "[\"a\",\"\\n\"]") false ⟨0, []⟩) :=
  @cJSONParseInto_accounted 1 _ _ _ rfl _ _ _
