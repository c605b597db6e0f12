import TnsParser.CJson.Memory
import TnsParser.CJson.Print

-- Copies of items.

open Memory

-- type & ~cJSON_IsReference
def clearReference (type : Nat) : Nat :=
  type ^^^ (type &&& cJSONIsReference)

section

variable (fails : Nat → Bool)

-- `cJSON_strdup`, if there is a string. Where there is no memory it is `none`.
def duplicateString (m : Memory) : Option (Nat × Bytes) → Option (Option (Nat × Bytes)) × Memory
  | none          => (some none, m)
  | some (_, str) =>
    match m.malloc fails with
    | (none, m)      => (none, m)
    | (some copy, m) => (some (some (copy, str)), m)

mutual

def Node.duplicate : Node → Bool → Memory → Except Nat (Option Node × Memory)
  | ⟨_, type, valuestring, string, child⟩, recurse, m =>
    match m.malloc fails with
    | (none, m)         => .ok (none, m)
    | (some newitem, m) =>
      let newitem := { newItem newitem with type := clearReference type }
      match duplicateString fails m valuestring with
      | (none, m)             => do
        let m ← cJSONDelete [newitem] m
        return (none, m)
      | (some valuestring, m) =>
        let newitem := { newitem with valuestring }
        match duplicateString fails m string with
        | (none, m)        => do
          let m ← cJSONDelete [newitem] m
          return (none, m)
        | (some string, m) =>
          let newitem := { newitem with string }
          if recurse then duplicateChildren newitem child m else .ok (some newitem, m)

-- The loop over the items from `cptr` on, whose copies become the last children of `newitem`.
def duplicateChildren (newitem : Node) : List Node → Memory → Except Nat (Option Node × Memory)
  | [],           m => .ok (some newitem, m)
  | cptr :: cptr', m => do
    match ← cptr.duplicate true m with
    | (none, m)          =>
      let m ← cJSONDelete [newitem] m
      return (none, m)
    | (some newchild, m) => duplicateChildren { newitem with child := newitem.child ++ [newchild] } cptr' m

end

-- cJSON_Duplicate
def cJSONDuplicate (item : Node) (recurse : Bool) (m : Memory) : Except Nat (Option Node × Memory) :=
  item.duplicate fails recurse m

end

-- What an item says, without its blocks. The numbers are not part of it.
mutual

def Node.content : Node → Item Unit
  | ⟨_, type, valuestring, string, child⟩ =>
    ⟨type, valuestring.map (·.2), (), string.map (·.2), nodesContent child⟩

def nodesContent : List Node → List (Item Unit)
  | []      => []
  | c :: cs => c.content :: nodesContent cs

end

-- What a copy is to say: no item of it is a reference.
mutual

def Item.copied {α : Type} : Item α → Item α
  | ⟨type, valuestring, valuedouble, string, child⟩ =>
    ⟨clearReference type, valuestring, valuedouble, string, itemsCopied child⟩

def itemsCopied {α : Type} : List (Item α) → List (Item α)
  | []      => []
  | c :: cs => c.copied :: itemsCopied cs

end

def Item.alone {α : Type} (item : Item α) : Item α :=
  { item with child := [] }

-- With more children.
def Item.adopt {α : Type} (item : Item α) (children : List (Item α)) : Item α :=
  { item with child := item.child ++ children }

variable {fails : Nat → Bool} {m m₀ : Memory} {newitem : Node}

theorem clearReference_and (type : Nat) : clearReference type &&& cJSONIsReference = 0 := by
  refine Nat.eq_of_testBit_eq fun i => ?_
  rw [clearReference]
  simp only [Nat.testBit_and, Nat.testBit_xor, Nat.zero_testBit]
  cases type.testBit i <;> cases cJSONIsReference.testBit i <;> rfl

theorem duplicateString_cases (fails : Nat → Bool) (m : Memory) (s : Option (Nat × Bytes)) :
    (∃ m', duplicateString fails m s = (none, m') ∧ Accounted m m' [] [] ∧ Failed fails m m') ∨
    ∃ s' m', duplicateString fails m s = (some s', m') ∧ Accounted m m' [] (s'.map (·.1)).toList ∧
      ¬Failed fails m m' ∧ s'.map (·.2) = s.map (·.2) := by
  cases s
  case none => exact .inr ⟨none, m, rfl, .refl .., not_failed_self, rfl⟩
  case some s =>
    rw [duplicateString]
    obtain ⟨m', hm, hp, hfail⟩ | ⟨p, m', hm, hp, hcalls⟩ := malloc_cases fails m <;> simp only [hm]
    case inl => exact .inl ⟨m', rfl, hp, hfail⟩
    case inr => exact .inr ⟨some (p, s.2), m', rfl, hp, hcalls, rfl⟩

-- What a function that copies an item leaves, when it was called with the memory `m`.
inductive Copied (fails : Nat → Bool) (m : Memory) : Except Nat (Option Node × Memory) → Item Unit → Prop
  | null {m' content} (has : Accounted m m' [] []) (h : Failed fails m m') : Copied fails m (.ok (none, m')) content
  | copy {c m'} (has : Accounted m m' [] c.owned) (h : ¬Failed fails m m') :
    Copied fails m (.ok (some c, m')) c.content

-- A copy that is not finished is given back.
theorem Copied.delete (has : Accounted m₀ m [] newitem.owned) (h : Failed fails m₀ m) (content : Item Unit) :
    Copied fails m₀ (do let m ← cJSONDelete [newitem] m; return (none, m)) content := by
  obtain ⟨m', hdelete, hleft, hcount⟩ := has.delete
  rw [hdelete]
  exact .null hleft (h.left hcount.ge)

theorem Item.adopt_nil (item : Item Unit) : item.adopt [] = item := by
  cases item
  rw [adopt, List.append_nil]

theorem Item.adopt_cons (item c : Item Unit) (cs : List (Item Unit)) :
    item.adopt (c :: cs) = (item.adopt [c]).adopt cs := by
  simp only [adopt, List.append_assoc, List.singleton_append]

theorem nodesContent_append (cs cs' : List Node) :
    nodesContent (cs ++ cs') = nodesContent cs ++ nodesContent cs' := by
  induction cs
  case nil => rfl
  case cons c cs hi => rw [List.cons_append, nodesContent, hi, nodesContent, List.cons_append]

theorem nodesOwned_append (cs cs' : List Node) : nodesOwned (cs ++ cs') = nodesOwned cs ++ nodesOwned cs' := by
  induction cs
  case nil => rfl
  case cons c cs hi => rw [List.cons_append, nodesOwned, hi, nodesOwned, List.append_assoc]

-- One more child.
def Node.push (newitem newchild : Node) : Node :=
  { newitem with child := newitem.child ++ [newchild] }

theorem Node.push_owned (ht : newitem.type &&& cJSONIsReference = 0) (newchild : Node) :
    (newitem.push newchild).owned.Perm (newchild.owned ++ newitem.owned) := by
  obtain ⟨addr, type, valuestring, string, child⟩ := newitem
  have ht : type &&& cJSONIsReference = 0 := ht
  simp only [Node.push, Node.owned, if_pos ht, nodesOwned_append, nodesOwned, List.append_nil, List.append_assoc]
  exact (List.perm_append_comm_assoc ..)

theorem Node.push_content (newitem newchild : Node) :
    (newitem.push newchild).content = newitem.content.adopt [newchild.content] := by
  obtain ⟨addr, type, valuestring, string, child⟩ := newitem
  simp only [Node.push, Node.content, nodesContent_append, nodesContent, Item.adopt]

-- The blocks of a copy that has no children yet.
theorem Node.owned_of_childless (p : Nat) {type : Nat} (ht : type &&& cJSONIsReference = 0)
    (valuestring string : Option (Nat × Bytes)) :
    Node.owned ⟨p, type, valuestring, string, []⟩ =
      (valuestring.map (·.1)).toList ++ ((string.map (·.1)).toList ++ [p]) := by
  rw [Node.owned, if_pos ht, nodesOwned, List.nil_append]

mutual

theorem Node.duplicate_copied : ∀ (c : Node) (recurse : Bool) (m : Memory),
    Copied fails m (c.duplicate fails recurse m) (if recurse then c.content.copied else c.content.copied.alone)
  | ⟨_, type, valuestring, string, child⟩, recurse, m => by
    have hchildren := duplicateChildren_copied child
    have ht := clearReference_and type
    rw [Node.duplicate]
    obtain ⟨m₁, hm, hp, hfail⟩ | ⟨p, m₁, hm, hp, hcalls₁⟩ := malloc_cases fails m <;> simp only [hm]
    case inl => exact .null hp hfail
    case inr =>
      have howned := Node.owned_of_childless p ht
      obtain ⟨m₂, hv, has, hfail⟩ | ⟨v, m₂, hv, has, hcalls₂, hvalue⟩ :=
        duplicateString_cases fails m₁ valuestring <;> simp only [hv]
      case inl => exact .delete (howned none none ▸ hp.trans (has.frame [p])) (hfail.right hp.count) _
      case inr =>
        have has₂ := hp.trans (has.frame [p])
        have hcalls₂ := not_failed_trans hcalls₁ hcalls₂
        obtain ⟨m₃, hs, has, hfail⟩ | ⟨s, m₃, hs, has, hcalls₃, hstring⟩ :=
          duplicateString_cases fails m₂ string <;> simp only [hs]
        case inl => exact .delete (howned v none ▸ has₂.trans (has.frame _)) (hfail.right has₂.count) _
        case inr =>
          have has₃ : Accounted m m₃ [] (Node.owned ⟨p, clearReference type, v, s, []⟩) := by
            rw [howned]
            exact (has₂.trans (has.frame _)).perm (List.perm_append_comm_assoc ..)
          have hcalls₃ := not_failed_trans hcalls₂ hcalls₃
          have hcontent : Node.content ⟨p, clearReference type, v, s, []⟩ =
              ⟨clearReference type, valuestring.map (·.2), (), string.map (·.2), []⟩ := by
            rw [Node.content, hvalue, hstring, nodesContent]
          cases recurse
          case false =>
            have := Copied.copy has₃ hcalls₃
            rwa [hcontent] at this
          case true =>
            have := hchildren ⟨p, clearReference type, v, s, []⟩ m m₃ ht has₃ hcalls₃
            rwa [hcontent] at this

theorem duplicateChildren_copied : ∀ (cs : List Node) (newitem : Node) (m₀ m : Memory),
    newitem.type &&& cJSONIsReference = 0 → Accounted m₀ m [] newitem.owned → ¬Failed fails m₀ m →
    Copied fails m₀ (duplicateChildren fails newitem cs m)
      (newitem.content.adopt (itemsCopied (nodesContent cs)))
  | [],      newitem, m₀, m, _,  has, h => by
    rw [nodesContent, itemsCopied, Item.adopt_nil]
    exact .copy has h
  | c :: cs, newitem, m₀, m, ht, has, h => by
    have hrest := duplicateChildren_copied cs
    have hc := c.duplicate_copied true m
    rw [duplicateChildren, nodesContent, itemsCopied, Item.adopt_cons]
    rw [if_pos rfl] at hc
    generalize c.duplicate fails true m = out at hc ⊢
    generalize c.content.copied = content at hc ⊢
    cases hc
    case null m₁ has₁ h₁ => exact .delete (has.trans (has₁.frame _)) (h₁.right has.count) _
    case copy c' m₁ has₁ h₁ =>
      have hpush := (has.trans (has₁.frame newitem.owned)).perm (Node.push_owned ht c').symm
      rw [← Node.push_content]
      exact hrest (newitem.push c') m₀ m₁ ht hpush (not_failed_trans h h₁)

end

-- `cJSON_Duplicate` gives back each block once or not at all. It returns NULL if and only if there was
-- no memory, and nothing is left allocated then. Otherwise the copy says what the item does, but for the
-- references, and it is made of new blocks only, which `cJSON_Delete` gives back.
theorem cJSONDuplicate_accounted (fails : Nat → Bool) (item : Node) (recurse : Bool) (m : Memory) :
    (∃ m', cJSONDuplicate fails item recurse m = .ok (none, m') ∧ m'.live.Perm m.live ∧ Failed fails m m') ∨
    ∃ c m', cJSONDuplicate fails item recurse m = .ok (some c, m') ∧ ¬Failed fails m m' ∧
      c.content = (if recurse then item.content.copied else item.content.copied.alone) ∧
      m'.live.Perm (c.owned ++ m.live) ∧ ∃ m'', cJSONDelete [c] m' = .ok m'' ∧ m''.live.Perm m.live := by
  have h : Copied fails m _ _ := item.duplicate_copied recurse m
  rw [cJSONDuplicate]
  generalize item.duplicate fails recurse m = out at h ⊢
  generalize (if recurse then item.content.copied else item.content.copied.alone) = content at h ⊢
  cases h
  case null m' has hfail => exact .inl ⟨m', rfl, has.live_perm, hfail⟩
  case copy c m' has hcalls =>
    obtain ⟨m'', hdelete, hleft, -⟩ := has.delete
    exact .inr ⟨c, m', rfl, hcalls, rfl, has.live_perm, m'', hdelete, hleft.live_perm⟩
