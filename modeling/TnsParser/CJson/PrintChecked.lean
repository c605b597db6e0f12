import TnsParser.CJson.Print
import TnsParser.CJson.StringBuffer

-- The printer of cJSON, where a size that is none of `int` ends the program as well.

open Except

inductive Unprintable
  | overrun (o : Overflow)
  | overflow

def bufferChecked (size : Nat) (text : Bytes) : Except Unprintable Bytes :=
  if intMax < size then .error .overflow else (buffer size text).mapError .overrun

-- `cJSON_strdup` has no `int`.
def cJSONStrdupChecked (str : Bytes) : Except Unprintable Bytes :=
  (cJSONStrdup str).mapError .overrun

def printStringPtrChecked : Option Bytes → Except Unprintable Bytes
  | none     => cJSONStrdupChecked []
  | some str => bufferChecked ((str.map printedLen).sum + 3) (quotedText str)

def printArrayChecked (fmt : Bool) : Option (List Bytes) → Except Unprintable (Option Bytes)
  | none    => .ok none
  | some [] => some <$> bufferChecked 3 (cstr "[]")
  | some es =>
    some <$> bufferChecked (5 + (es.map fun e => e.length + 2 + if fmt then 1 else 0).sum)
      (cchar '[' :: (composeArray fmt es ++ [cchar ']']))

def printObjectChecked (fmt : Bool) (depth : Nat) :
    Option (List (Bytes × Bytes)) → Except Unprintable (Option Bytes)
  | none    => .ok none
  | some [] =>
    some <$> bufferChecked (if fmt then depth + 3 else 3)
      (cchar '\x7b' :: (whenFormatted fmt "\n" ++ tabs fmt (depth - 1) ++ [cchar '\x7d']))
  | some es =>
    some <$> bufferChecked
      (7 + (if fmt then depth + 1 else 0) +
        (es.map fun e => e.2.length + e.1.length + 2 + if fmt then 2 + (depth + 1) else 0).sum)
      (cchar '\x7b' :: (whenFormatted fmt "\n" ++ composeObject fmt (depth + 1) es ++ tabs fmt depth ++
        [cchar '\x7d']))

section

variable {α : Type} (printNumber : α → Bytes)

mutual

def printValueChecked (fmt : Bool) : Nat → Item α → Except Unprintable (Option Bytes)
  | depth, ⟨type, valuestring, valuedouble, _, child⟩ =>
    let type := type &&& 255
    if type = cJSONNull then some <$> cJSONStrdupChecked (cstr "null")
    else if type = cJSONFalse then some <$> cJSONStrdupChecked (cstr "false")
    else if type = cJSONTrue then some <$> cJSONStrdupChecked (cstr "true")
    else if type = cJSONNumber then .ok <| some <| printNumber valuedouble
    else if type = cJSONString then some <$> printStringPtrChecked valuestring
    else if type = cJSONArray then do printArrayChecked fmt (← printItemsChecked fmt (depth + 1) child)
    else if type = cJSONObject then do
      printObjectChecked fmt depth (← printMembersChecked fmt (depth + 1) child)
    else .ok none

def printItemsChecked (fmt : Bool) : Nat → List (Item α) → Except Unprintable (Option (List Bytes))
  | _,     []                => .ok <| some []
  | depth, child :: children => do
    match ← printValueChecked fmt depth child with
    | none     => return none
    | some ret => return (← printItemsChecked fmt depth children).map (ret :: ·)

def printMembersChecked (fmt : Bool) :
    Nat → List (Item α) → Except Unprintable (Option (List (Bytes × Bytes)))
  | _,     []                => .ok <| some []
  | depth, child :: children => do
    let str ← printStringPtrChecked child.string
    let ret ← printValueChecked fmt depth child
    let rest ← printMembersChecked fmt depth children
    return ret.bind fun ret => rest.map ((str, ret) :: ·)

end

def cJSONPrintChecked (item : Item α) : Except Unprintable (Option Bytes) :=
  printValueChecked printNumber true 0 item

def cJSONPrintUnformattedChecked (item : Item α) : Except Unprintable (Option Bytes) :=
  printValueChecked printNumber false 0 item

end

-- The printer does what the one without `int` does, as long as no size is too large.
def Counted {β : Type} (x : Except Unprintable β) (y : Except Overflow β) : Prop :=
  x = .error .overflow ∨ x = y.mapError .overrun

namespace Counted

variable {β γ : Type} {x x' : Except Unprintable β} {y y' : Except Overflow β}

theorem mapError : Counted (y.mapError .overrun) y :=
  .inr rfl

theorem ok {b : β} : Counted (.ok b) (.ok b) :=
  .inr rfl

theorem buffer {size : Nat} {text : Bytes} : Counted (bufferChecked size text) (buffer size text) := by
  rw [bufferChecked]
  split
  case isTrue  => exact .inl rfl
  case isFalse => exact .inr rfl

theorem bind {f : β → Except Unprintable γ} {g : β → Except Overflow γ} (h : Counted x y)
    (hf : ∀ b, Counted (f b) (g b)) : Counted (x >>= f) (y >>= g) := by
  rcases h with rfl | rfl
  · exact .inl rfl
  · cases y
    case error o => exact .inr rfl
    case ok b    => exact hf b

theorem map (f : β → γ) (h : Counted x y) : Counted (f <$> x) (f <$> y) := by
  rcases h with rfl | rfl
  · exact .inl rfl
  · cases y <;> exact .inr rfl

theorem ite {c : Prop} [Decidable c] (h : Counted x y) (h' : Counted x' y') :
    Counted (if c then x else x') (if c then y else y') := by
  split <;> assumption

theorem overrun {o : Overflow} (h : Counted x y) (hx : x = .error (.overrun o)) : y = .error o := by
  rcases h with rfl | rfl
  · cases hx
  · cases y
    case error o' =>
      cases hx
      rfl
    case ok b => cases hx

end Counted

theorem counted_printStringPtr : (str : Option Bytes) → Counted (printStringPtrChecked str) (printStringPtr str)
  | none   => .inr rfl
  | some _ => .buffer

variable {α : Type} {printNumber : α → Bytes} {fmt : Bool} {depth : Nat}

theorem counted_printArray : (entries : Option (List Bytes)) →
    Counted (printArrayChecked fmt entries) (printArray fmt entries)
  | none          => .ok
  | some []       => .map _ .buffer
  | some (_ :: _) => .map _ .buffer

theorem counted_printObject : (entries : Option (List (Bytes × Bytes))) →
    Counted (printObjectChecked fmt depth entries) (printObject fmt depth entries)
  | none          => .ok
  | some []       => .map _ .buffer
  | some (_ :: _) => .map _ .buffer

mutual

theorem counted_printValue : (depth : Nat) → (item : Item α) →
    Counted (printValueChecked printNumber fmt depth item) (printValue printNumber fmt depth item)
  | depth, ⟨type, valuestring, valuedouble, string, child⟩ => by
    have hitems : Counted (printItemsChecked printNumber fmt (depth + 1) child)
        (printItems printNumber fmt (depth + 1) child) := counted_printItems _ child
    have hmembers : Counted (printMembersChecked printNumber fmt (depth + 1) child)
        (printMembers printNumber fmt (depth + 1) child) := counted_printMembers _ child
    simp only [printValueChecked, printValue]
    refine .ite (.map _ .mapError) <| .ite (.map _ .mapError) <| .ite (.map _ .mapError) <| .ite .ok <|
      .ite (.map _ (counted_printStringPtr _)) <| .ite ?_ <| .ite ?_ .ok
    · exact hitems.bind counted_printArray
    · exact hmembers.bind counted_printObject

theorem counted_printItems : (depth : Nat) → (child : List (Item α)) →
    Counted (printItemsChecked printNumber fmt depth child) (printItems printNumber fmt depth child)
  | _,     []                => .ok
  | depth, child :: children => by
    have hvalue : Counted (printValueChecked printNumber fmt depth child)
        (printValue printNumber fmt depth child) := counted_printValue _ child
    have hitems : Counted (printItemsChecked printNumber fmt depth children)
        (printItems printNumber fmt depth children) := counted_printItems _ children
    rw [printItemsChecked, printItems]
    refine hvalue.bind fun ret => ?_
    cases ret
    case none => exact .ok
    case some => exact hitems.bind fun _ => .ok

theorem counted_printMembers : (depth : Nat) → (child : List (Item α)) →
    Counted (printMembersChecked printNumber fmt depth child) (printMembers printNumber fmt depth child)
  | _,     []                => .ok
  | depth, child :: children => by
    have hvalue : Counted (printValueChecked printNumber fmt depth child)
        (printValue printNumber fmt depth child) := counted_printValue _ child
    have hmembers : Counted (printMembersChecked printNumber fmt depth children)
        (printMembers printNumber fmt depth children) := counted_printMembers _ children
    rw [printMembersChecked, printMembers]
    exact (counted_printStringPtr _).bind fun _ => hvalue.bind fun _ => hmembers.bind fun _ => .ok

end

-- As long as no size is too large, only the text of an empty object overruns its buffer, where it is all
-- that is printed, and formatted.
theorem cJSONPrintChecked_overrun (item : Item α) (o : Overflow) :
    cJSONPrintUnformattedChecked printNumber item ≠ .error (.overrun o) ∧
      (cJSONPrintChecked printNumber item = .error (.overrun o) ↔
        item.type &&& 255 = cJSONObject ∧ item.child = [] ∧ o = ⟨3, cstr "\x7b\n\x7d"⟩) := by
  have hunformatted : Counted (cJSONPrintUnformattedChecked printNumber item)
      (cJSONPrintUnformatted printNumber item) := counted_printValue 0 item
  have hformatted : Counted (cJSONPrintChecked printNumber item) (cJSONPrint printNumber item) :=
    counted_printValue 0 item
  have hprint : cJSONPrintUnformatted printNumber item ≠ .error o ∧
      (cJSONPrint printNumber item = .error o ↔ _) := cJSONPrint_overflow item o
  obtain ⟨hfits, hoverflow⟩ := hprint
  refine ⟨fun h => hfits (hunformatted.overrun h), fun h => hoverflow.mp (hformatted.overrun h), ?_⟩
  rintro ⟨htype, hchild, rfl⟩
  obtain ⟨type, valuestring, valuedouble, string, child⟩ := item
  simp only at htype hchild
  subst hchild
  simp only [cJSONPrintChecked, printValueChecked, htype]
  rfl
