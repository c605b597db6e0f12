import TnsParser.CJson.Utf8
import Mathlib.Algebra.Order.Group.Nat

-- The printer of cJSON. Memory is never short, and a text that is longer than the memory that was
-- reserved for it ends the program.

-- A value with all that is printed of it. Of a number only the text is used.
structure Item (α : Type) where
  type        : Nat
  valuestring : Option Bytes
  valuedouble : α
  string      : Option Bytes
  child       : List (Item α)

structure Overflow where
  size : Nat
  text : Bytes
  deriving DecidableEq

-- A text in a buffer, with its terminator.
def buffer (size : Nat) (text : Bytes) : Except Overflow Bytes :=
  if text.length < size then .ok text else .error ⟨size, text⟩

def cJSONStrdup (str : Bytes) : Except Overflow Bytes :=
  buffer (str.length + 1) str

def specials : Bytes :=
  [cchar '"', cchar '\\', 8, 12, 10, 13, 9]

-- What the first loop counts for a byte of a string, and what the second one writes for it.

def printedLen (token : UInt8) : Nat :=
  if token ∈ specials then 2 else if token < 32 then 6 else 1

-- `sprintf(p, "%04x", token)`
def sprintf04x (token : UInt8) : List Char :=
  ['0', '0', Nat.digitChar (token.toNat / 16), Nat.digitChar (token.toNat % 16)]

def printByte (token : UInt8) : Bytes :=
  if 31 < token ∧ token ≠ cchar '"' ∧ token ≠ cchar '\\' then [token]
  else if token = cchar '\\' then [cchar '\\', cchar '\\']
  else if token = cchar '"' then [cchar '\\', cchar '"']
  else if token = 8 then [cchar '\\', cchar 'b']
  else if token = 12 then [cchar '\\', cchar 'f']
  else if token = 10 then [cchar '\\', cchar 'n']
  else if token = 13 then [cchar '\\', cchar 'r']
  else if token = 9 then [cchar '\\', cchar 't']
  else cchar '\\' :: cchar 'u' :: (sprintf04x token).map cchar

def quotedText (str : Bytes) : Bytes :=
  cchar '"' :: (str.flatMap printByte ++ [cchar '"'])

-- A null pointer prints as nothing, without quotes.
def printStringPtr : Option Bytes → Except Overflow Bytes
  | none     => cJSONStrdup []
  | some str => buffer ((str.map printedLen).sum + 3) (quotedText str)

def tabs (fmt : Bool) (n : Nat) : Bytes :=
  if fmt then List.replicate n (cchar '\t') else []

def whenFormatted (fmt : Bool) (s : String) : Bytes :=
  if fmt then cstr s else []

-- The entries of an array, with what stands between them.
def composeArray (fmt : Bool) : List Bytes → Bytes
  | []      => []
  | e :: es => e ++ (if es.isEmpty then [] else cstr "," ++ whenFormatted fmt " ") ++ composeArray fmt es

def printArray (fmt : Bool) : Option (List Bytes) → Except Overflow (Option Bytes)
  | none    => .ok none
  | some [] => some <$> buffer 3 (cstr "[]")
  | some es =>
    some <$> buffer (5 + (es.map fun e => e.length + 2 + if fmt then 1 else 0).sum)
      (cchar '[' :: (composeArray fmt es ++ [cchar ']']))

-- The lines of an object.
def composeObject (fmt : Bool) (depth : Nat) : List (Bytes × Bytes) → Bytes
  | []                 => []
  | (name, entry) :: es =>
    tabs fmt depth ++ name ++ cchar ':' :: (whenFormatted fmt "\t" ++ entry ++
      (if es.isEmpty then [] else cstr ",") ++ whenFormatted fmt "\n" ++ composeObject fmt depth es)

def printObject (fmt : Bool) (depth : Nat) : Option (List (Bytes × Bytes)) → Except Overflow (Option Bytes)
  | none    => .ok none
  | some [] =>
    some <$> buffer (if fmt then depth + 3 else 3)
      (cchar '\x7b' :: (whenFormatted fmt "\n" ++ tabs fmt (depth - 1) ++ [cchar '\x7d']))
  | some es =>
    some <$> buffer
      (7 + (if fmt then depth + 1 else 0) +
        (es.map fun e => e.2.length + e.1.length + 2 + if fmt then 2 + (depth + 1) else 0).sum)
      (cchar '\x7b' :: (whenFormatted fmt "\n" ++ composeObject fmt (depth + 1) es ++ tabs fmt depth ++
        [cchar '\x7d']))

section

variable {α : Type} (printNumber : α → Bytes)

-- A value of another type is printed as a null pointer. An array is given up at the first of its items
-- that is, while all the items of an object are printed.
mutual

def printValue (fmt : Bool) : Nat → Item α → Except Overflow (Option Bytes)
  | depth, ⟨type, valuestring, valuedouble, _, child⟩ =>
    let type := type &&& 255
    if type = cJSONNull then some <$> cJSONStrdup (cstr "null")
    else if type = cJSONFalse then some <$> cJSONStrdup (cstr "false")
    else if type = cJSONTrue then some <$> cJSONStrdup (cstr "true")
    else if type = cJSONNumber then .ok <| some <| printNumber valuedouble
    else if type = cJSONString then some <$> printStringPtr valuestring
    else if type = cJSONArray then do printArray fmt (← printItems fmt (depth + 1) child)
    else if type = cJSONObject then do printObject fmt depth (← printMembers fmt (depth + 1) child)
    else .ok none

def printItems (fmt : Bool) : Nat → List (Item α) → Except Overflow (Option (List Bytes))
  | _,     []              => .ok <| some []
  | depth, child :: children => do
    match ← printValue fmt depth child with
    | none     => return none
    | some ret => return (← printItems fmt depth children).map (ret :: ·)

def printMembers (fmt : Bool) : Nat → List (Item α) → Except Overflow (Option (List (Bytes × Bytes)))
  | _,     []              => .ok <| some []
  | depth, child :: children => do
    let str ← printStringPtr child.string
    let ret ← printValue fmt depth child
    let rest ← printMembers fmt depth children
    return ret.bind fun ret => rest.map ((str, ret) :: ·)

end

def cJSONPrint (item : Item α) : Except Overflow (Option Bytes) :=
  printValue printNumber true 0 item

def cJSONPrintUnformatted (item : Item α) : Except Overflow (Option Bytes) :=
  printValue printNumber false 0 item

end

example : cJSONPrint (α := Nat) (fun n => cstr (toString n))
    ⟨6, none, 0, none, [⟨3, none, 5, some (cstr "a"), []⟩, ⟨5, none, 0, some [7], [⟨2, none, 0, none, []⟩]⟩]⟩ =
      .ok (some (cstr "\x7b\n\t\"a\":\t5,\n\t\"\\u0007\":\t[null]\n\x7d")) := by
  rfl

-- The memory that is reserved is enough, but for an empty object that is all that is printed.

open Except

variable {fmt : Bool} {depth : Nat} {size : Nat} {text : Bytes}

-- No text is too long.
abbrev Fits {β : Type} (x : Except Overflow β) : Prop :=
  Avoids (fun _ => True) x

theorem buffer_eq (h : text.length < size) : buffer size text = .ok text :=
  if_pos h

theorem strdup_eq (str : Bytes) : cJSONStrdup str = .ok str :=
  buffer_eq <| Nat.lt_succ_self _

theorem length_printByte : ∀ u : UInt8, (printByte u).length = printedLen u :=
  forall_uint8 (by decide +kernel)

theorem length_quotedText (str : Bytes) : (quotedText str).length = (str.map printedLen).sum + 2 := by
  simp [quotedText, List.length_flatMap, length_printByte]

theorem printStringPtr_some (str : Bytes) : printStringPtr (some str) = .ok (quotedText str) :=
  buffer_eq (by rw [length_quotedText]; omega)

theorem fits_printStringPtr : (str : Option Bytes) → Fits (printStringPtr str)
  | none     => avoids_ok
  | some str => by
    rw [printStringPtr_some]
    exact avoids_ok

theorem length_composeArray (es : List Bytes) :
    (composeArray fmt es).length ≤ (es.map fun e => e.length + 2 + if fmt then 1 else 0).sum := by
  induction es
  case nil => exact Nat.le_refl 0
  case cons e es hi =>
    cases fmt <;> simp [composeArray, whenFormatted, cstr] at hi ⊢ <;> split <;> simp <;> omega

theorem length_composeObject (es : List (Bytes × Bytes)) :
    (composeObject fmt depth es).length ≤
      (es.map fun e => e.2.length + e.1.length + 2 + if fmt then 2 + depth else 0).sum := by
  induction es
  case nil => exact Nat.le_refl 0
  case cons e es hi =>
    cases fmt <;> simp [composeObject, whenFormatted, tabs, cstr] at hi ⊢ <;> split <;> simp <;> omega

theorem printArray_some : (es : List Bytes) →
    printArray fmt (some es) = .ok (some (cchar '[' :: (composeArray fmt es ++ [cchar ']'])))
  | []      => rfl
  | e :: es => by
    have hlen : (composeArray fmt (e :: es)).length ≤ _ := length_composeArray (e :: es)
    simp only [printArray]
    rw [buffer_eq (by simp only [List.length_cons, List.length_append, List.length_nil]; omega)]
    rfl

theorem printObject_nil (h : fmt = true → 0 < depth) : printObject fmt depth (some []) =
    .ok (some (cchar '\x7b' :: (whenFormatted fmt "\n" ++ tabs fmt (depth - 1) ++ [cchar '\x7d']))) := by
  rw [printObject, buffer_eq]
  · rfl
  · cases fmt
    case false => simp [whenFormatted, tabs]
    case true  =>
      have := h rfl
      simp [whenFormatted, tabs, cstr]
      omega

theorem printObject_cons (e : Bytes × Bytes) (es : List (Bytes × Bytes)) : printObject fmt depth (some (e :: es)) =
    .ok (some (cchar '\x7b' :: (whenFormatted fmt "\n" ++ composeObject fmt (depth + 1) (e :: es) ++
      tabs fmt depth ++ [cchar '\x7d']))) := by
  have hlen : (composeObject fmt (depth + 1) (e :: es)).length ≤ _ := length_composeObject (e :: es)
  simp only [printObject]
  rw [buffer_eq]
  · rfl
  · cases fmt <;> simp [whenFormatted, tabs, cstr] at hlen ⊢ <;> omega

theorem fits_printArray : (entries : Option (List Bytes)) → Fits (printArray fmt entries)
  | none    => avoids_ok
  | some es => by
    rw [printArray_some]
    exact avoids_ok

theorem fits_printObject {entries : Option (List (Bytes × Bytes))}
    (h : entries = some [] → fmt = true → 0 < depth) : Fits (printObject fmt depth entries) := by
  match entries with
  | none           => exact avoids_ok
  | some []        =>
    rw [printObject_nil (h rfl)]
    exact avoids_ok
  | some (e :: es) =>
    rw [printObject_cons]
    exact avoids_ok

theorem fits_map {β γ : Type} {f : β → γ} {x : Except Overflow β} (h : Fits x) : Fits (f <$> x) := by
  cases x
  case ok    => exact avoids_ok
  case error => exact absurd rfl (h _ trivial)

variable {α : Type} {printNumber : α → Bytes}

theorem printMembers_cons_ne {child : Item α} {children : List (Item α)} :
    printMembers printNumber fmt depth (child :: children) ≠ .ok (some []) := by
  intro h
  rw [printMembers] at h
  obtain ⟨str, -, h⟩ := bind_eq_ok.mp h
  obtain ⟨ret, -, h⟩ := bind_eq_ok.mp h
  obtain ⟨rest, -, h⟩ := bind_eq_ok.mp h
  cases ret <;> cases rest <;> simp [pure, Except.pure] at h

-- An empty object that is printed alone.
def IsBareObject (fmt : Bool) (depth : Nat) (item : Item α) : Prop :=
  fmt = true ∧ depth = 0 ∧ item.type &&& 255 = cJSONObject ∧ item.child = []

theorem not_isBareObject (item : Item α) : ¬IsBareObject fmt (depth + 1) item :=
  fun h => absurd h.right.left (Nat.succ_ne_zero depth)

mutual

theorem fits_printValue : (depth : Nat) → (item : Item α) → (h : ¬IsBareObject fmt depth item) →
    Fits (printValue printNumber fmt depth item)
  | depth, ⟨type, valuestring, valuedouble, string, child⟩, h => by
    have hitems : Fits (printItems printNumber fmt (depth + 1) child) := fits_printItems depth child
    have hmembers : Fits (printMembers printNumber fmt (depth + 1) child) := fits_printMembers depth child
    simp only [printValue]
    split_ifs with _ _ _ _ _ _ hobject
    · exact avoids_ok
    · exact avoids_ok
    · exact avoids_ok
    · exact avoids_ok
    · exact fits_map <| fits_printStringPtr _
    · exact avoids_bind.mpr ⟨hitems, fun entries _ => fits_printArray entries⟩
    · refine avoids_bind.mpr ⟨hmembers, fun entries hentries => fits_printObject fun hempty hfmt => ?_⟩
      subst hempty
      cases child
      case nil  => exact Nat.pos_of_ne_zero fun hz => h ⟨hfmt, hz, hobject, rfl⟩
      case cons => exact absurd hentries printMembers_cons_ne
    · exact avoids_ok

theorem fits_printItems : (depth : Nat) → (child : List (Item α)) →
    Fits (printItems printNumber fmt (depth + 1) child)
  | _,     []                => avoids_ok
  | depth, child :: children => by
    have hvalue : Fits (printValue printNumber fmt (depth + 1) child) :=
      fits_printValue _ child (not_isBareObject child)
    have hitems : Fits (printItems printNumber fmt (depth + 1) children) := fits_printItems depth children
    rw [printItems]
    refine avoids_bind.mpr ⟨hvalue, fun ret _ => ?_⟩
    cases ret
    case none => exact avoids_ok
    case some => exact avoids_bind.mpr ⟨hitems, fun _ _ => avoids_ok⟩

theorem fits_printMembers : (depth : Nat) → (child : List (Item α)) →
    Fits (printMembers printNumber fmt (depth + 1) child)
  | _,     []                => avoids_ok
  | depth, child :: children => by
    have hvalue : Fits (printValue printNumber fmt (depth + 1) child) :=
      fits_printValue _ child (not_isBareObject child)
    have hmembers : Fits (printMembers printNumber fmt (depth + 1) children) := fits_printMembers depth children
    rw [printMembers]
    exact avoids_bind.mpr ⟨fits_printStringPtr _, fun _ _ => avoids_bind.mpr ⟨hvalue, fun _ _ =>
      avoids_bind.mpr ⟨hmembers, fun _ _ => avoids_ok⟩⟩⟩

end

-- Only the text of an empty object is too long, where it is all that is printed, and formatted.
theorem cJSONPrint_overflow (item : Item α) (o : Overflow) :
    cJSONPrintUnformatted printNumber item ≠ .error o ∧
      (cJSONPrint printNumber item = .error o ↔
        item.type &&& 255 = cJSONObject ∧ item.child = [] ∧ o = ⟨3, cstr "\x7b\n\x7d"⟩) := by
  refine ⟨fits_printValue 0 item (fun h => absurd h.left (by decide)) o trivial, ?_⟩
  by_cases hempty : item.type &&& 255 = cJSONObject ∧ item.child = []
  case pos =>
    obtain ⟨type, valuestring, valuedouble, string, child⟩ := item
    obtain ⟨htype, rfl⟩ := hempty
    simp only at htype
    have hprint : cJSONPrint printNumber ⟨type, valuestring, valuedouble, string, []⟩ =
        .error ⟨3, cstr "\x7b\n\x7d"⟩ := by
      simp only [cJSONPrint, printValue, htype]
      rfl
    rw [hprint, Except.error.injEq]
    exact ⟨fun h => ⟨htype, rfl, h.symm⟩, fun h => h.right.right.symm⟩
  case neg =>
    have hfits : Fits (cJSONPrint printNumber item) :=
      fits_printValue 0 item fun h => hempty ⟨h.right.right.left, h.right.right.right⟩
    exact ⟨fun h => absurd h (hfits o trivial), fun h => absurd ⟨h.left, h.right.left⟩ hempty⟩
